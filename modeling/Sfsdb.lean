import Sfsdb.Bounds
import Sfsdb.Collisions
import Sfsdb.Confinement
import Sfsdb.Dangling
import Sfsdb.Decoding
import Sfsdb.Dispatch
import Sfsdb.Durability
import Sfsdb.EndToEnd
import Sfsdb.Failures
import Sfsdb.FileNames
import Sfsdb.Grammar
import Sfsdb.History
import Sfsdb.Hooks
import Sfsdb.Identifiers
import Sfsdb.Interruption
import Sfsdb.Laws
import Sfsdb.Lengths
import Sfsdb.LineReader
import Sfsdb.Listener
import Sfsdb.Listings
import Sfsdb.Objects
import Sfsdb.Parallel
import Sfsdb.Printing
import Sfsdb.Readers
import Sfsdb.Refinement
import Sfsdb.Requests
import Sfsdb.Resources
import Sfsdb.Messages
import Sfsdb.Restarts
import Sfsdb.Screening
import Sfsdb.ShortWrites
import Sfsdb.Shutdown
import Sfsdb.Streams
import Sfsdb.Traces
import Sfsdb.Uploads
import Sfsdb.Visibility

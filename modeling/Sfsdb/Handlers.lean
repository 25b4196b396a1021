import Sfsdb.Protocol
import Sfsdb.Storage

/-!
src/handlers/*.hpp. A handler first decodes its parameters from the request
buffer, which has no result once it reads outside the memory, and then runs a
program. `withFile` is the course that get, desc, del and list share up to the
volume call. `none` from a handler's program means that an exception no one
catches, or a text that is gone, ended the process; `res` is what con_handler
writes unless the code says otherwise.
-/

namespace Sfsdb.Handlers

open Posix Protocol

def HANDLER_SUCCESS : Int := 0
def HANDLER_ERROR : Int := 1
def HANDLER_NO_SEND_RES : Int := 2

structure Reply where
  code : Int
  res : Bytes
  deriving DecidableEq

abbrev Handler := Mem → Option (Prog (Option Reply))

/-- `protocol::messages::error(msg).to(res); return HANDLER_ERROR;`. -/
def refuse (msg : CString) : Reply := ⟨HANDLER_ERROR, errorMessage msg.val⟩

/-- The handler returns without anything left to send. -/
def noRes : Reply := ⟨HANDLER_NO_SEND_RES, []⟩

/-- `header(SUCCESS, body.length())` followed by the body. -/
def succeed (body : Bytes) : Reply :=
  ⟨HANDLER_SUCCESS, (Types.header status.SUCCESS body.length).toBytes ++ body⟩

def expectedFileId : CString := ⟨ascii "Expected file id", by decide⟩
def expectedFileName : CString := ⟨ascii "Expected file name", by decide⟩

/-! ## Parameters -/

/-- `get_type(req, fid)` and the test for an empty string behind it. -/
def fileParam (libc : Libc) (missing : CString) (m : Mem) :
    Option (Except CString (Bytes × Nat)) := do
  let (err, fid, req) ← getType m 0 (Types.blank (.string []))
  if err.isError then return .error (err.msg.cstring libc)
  if fid.str = [] then return .error missing
  return .ok (fid.str, req)

/-- The two parameters of put: the name, and the data behind a bigdata header
once the magic byte has been found behind it. -/
def putParams (libc : Libc) (m : Mem) : Option (Except CString (Bytes × Bytes)) := do
  match ← fileParam libc expectedFileName m with
  | .error msg => return .error msg
  | .ok (fname, req) =>
      let (err, fdata, req) ← getType m req (Types.blank .bigdata)
      if err.isError then return .error (err.msg.cstring libc)
      let probe ← m (req + fdata.length)
      if probe ≠ MAGIC then return .error invalidDataFormat
      let data ← m.bytes req fdata.length
      return .ok (fname, data)

/-! ## What the handlers do with them -/

/-- Send the three parts of a get response; an `io_error` is caught by the handler. -/
def sendFile (fd : Fd) (map fsize : Nat) : Prog Reply := do
  let .ok _ ← Sys.send ((Types.header status.SUCCESS (HEADER_SIZE + fsize)).toBytes ++
    (Types.bigdata fsize).toBytes) | return noRes
  let bytes ← Sys.load map fsize
  let .ok _ ← Sys.send bytes | return noRes
  let .ok _ ← Sys.send [MAGIC] | return noRes
  Sys.munmap map
  let _ ← Sys.close fd
  return noRes

def getFile (libc : Libc) (fid : Bytes) : Prog (Option Reply) := do
  match ← Volume.getId fid with
  | .error e => return some (refuse (e.msg.cstring libc))
  | .ok file =>
      match ← file.details with
      | .error e => return some (refuse (e.msg.cstring libc))
      | .ok size =>
          match ← Sys.openFile file.dataPath Flstream.RDONLY with
          | .error e => return some (refuse (libc.strerror e))
          | .ok fd =>
              match ← Sys.mmap fd (size % 4294967296) with
              | .error e => return some (refuse (libc.strerror e))
              | .ok map => return some (← sendFile fd map (size % 4294967296))

def descFile (libc : Libc) (fid : Bytes) : Prog (Option Reply) := do
  match ← Volume.getId fid with
  | .error e => return some (refuse (e.msg.cstring libc))
  | .ok fobj =>
      match ← fobj.details with
      | .error e => return some (refuse (e.msg.cstring libc))
      | .ok size =>
          match ← Volume.getId fid with
          | .error e => return some (refuse (e.msg.cstring libc))
          | .ok object =>
              return some (succeed
                ((Types.string object.name).toBytes ++ (Types.integer size).toBytes))

def delFile (libc : Libc) (fid : Bytes) : Prog (Option Reply) := do
  match ← Volume.remove fid with
  | none => return none
  | some (.error e) => return (e.msg.read libc).map refuse
  | some (.ok _) => return some (succeed [])

def listFiles (libc : Libc) (fname : Bytes) : Prog (Option Reply) := do
  match ← Volume.getName fname with
  | .error e => return some (refuse (e.msg.cstring libc))
  | .ok ids =>
      return some (succeed ((Types.smallint ids.length).toBytes ++
        ids.flatMap fun id => (Types.string id).toBytes))

def putFile (libc : Libc) (fname data : Bytes) : Prog (Option Reply) := do
  match ← Volume.store fname data with
  | .error e => return some (refuse (e.msg.cstring libc))
  | .ok id =>
      let fid := Types.assignString (Types.blank (.string [])) id
      return some ⟨HANDLER_SUCCESS,
        (Types.header status.SUCCESS (HEADER_SIZE + fid.length)).toBytes ++ fid.toBytes⟩

/-! ## The handlers -/

/-- A handler goes on with its parameters or refuses the request. -/
def proceed {α : Type} (use : α → Prog (Option Reply)) : Except CString α → Prog (Option Reply)
  | .error msg => return some (refuse msg)
  | .ok params => use params

/-- One string parameter, whose absence has its own message, and then the volume. -/
def withFile (libc : Libc) (missing : CString) (use : Bytes → Prog (Option Reply)) : Handler :=
  fun m => (fileParam libc missing m).map (proceed fun params => use params.1)

def get (libc : Libc) : Handler := withFile libc expectedFileId (getFile libc)

def desc (libc : Libc) : Handler := withFile libc expectedFileId (descFile libc)

def del (libc : Libc) : Handler := withFile libc expectedFileId (delFile libc)

def list (libc : Libc) : Handler := withFile libc expectedFileName (listFiles libc)

def put (libc : Libc) : Handler := fun m =>
  (putParams libc m).map (proceed fun params => putFile libc params.1 params.2)

def invalid : Handler := fun _ => some (return some noRes)

def quit : Handler := fun _ => some do
  Sys.disconnect
  return some noRes

/-- The table of src/handlers.hpp. -/
def commands (libc : Libc) : List (Nat × Option Handler) :=
  [(INVALID_COMMAND, some invalid), (1, some (get libc)), (2, some (put libc)),
    (3, some (desc libc)), (4, some (del libc)), (5, some (list libc)), (6, some quit)]

end Sfsdb.Handlers

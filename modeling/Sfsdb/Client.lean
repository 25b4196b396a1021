import Sfsdb.Protocol

/-!
The commands of src/client/client.cpp. Each but the last sends a request, reads the
header of the response and then its body into a buffer, and decodes that.
`Answer` is what the function prints and returns. A local file is `none` where
it cannot be opened; `stale` and `behind` are the command of a header object
that nothing was read into and the memory behind the received body.
-/

namespace Sfsdb.Client

open Posix Protocol

inductive Answer where
  | noFile
  | ioError
  | crashed
  | badResponse
  | server (msg : Bytes)
  | expected (what : Bytes)
  | noMagic
  | file (content : Bytes)
  | fileId (id : Bytes)
  | details (name : Bytes) (size : Nat)
  | deleted
  | results (announced : Nat) (ids : List Bytes)
  | cutShort (announced : Nat) (ids : List Bytes)
  deriving DecidableEq

def Answer.code : Answer → Int
  | .file _ | .fileId _ | .details _ _ | .deleted | .results _ _ => 0
  | _ => -1

/-! ## Requests -/

/-- `get` and `list`: the header announces the length of the string object. -/
def stringRequest (no : Nat) (text : Bytes) : Bytes :=
  let object := Types.string text
  (Types.header no (HEADER_SIZE + object.length)).toBytes ++ object.toBytes

/-- `desc` and `del`: the header announces the length of the argument. -/
def idRequest (no : Nat) (id : Bytes) : Bytes :=
  (Types.header no (HEADER_SIZE + id.length)).toBytes ++ (Types.string id).toBytes

/-- `head.length += value`. -/
def addLength (head : Data) (value : Nat) : Data :=
  { head with length := (head.length + value) % 4294967296 }

def putHead (filename : Bytes) (filesize : Nat) : Data :=
  addLength (addLength (Types.header 2 (HEADER_SIZE + HEADER_SIZE)) (Types.string filename).length)
    filesize

def BLOCK : Nat := 4096

/-- One turn of `while (written_bytes < fdata.length)`. -/
def putBlock (file : Bytes) (length written : Nat) : Prog (Nat ⊕ Except Unit Unit) :=
  if written < length then do
    let count := if length - written > BLOCK then BLOCK else length - written
    let .ok _ ← Sys.send ((file.drop written).take count) | return .inr (.error ())
    return .inl (written + BLOCK)
  else return .inr (.ok ())

def putRequest (filename file : Bytes) : Prog (Except Unit Unit) := do
  let fdata := Types.bigdata file.length
  let .ok _ ← Sys.send ((putHead filename file.length).toBytes ++
    (Types.string filename).toBytes ++ fdata.toBytes) | return .error ()
  let .ok _ ← Program.iterate (putBlock file fdata.length) 0 | return .error ()
  let .ok _ ← Sys.send [MAGIC] | return .error ()
  Sys.send []

/-! ## Responses -/

def expectedFileData : Bytes := ascii "Expected file data"
def expectedFileId : Bytes := ascii "Expected file id"
def expectedFileName : Bytes := ascii "Expected file name"
def expectedFileSize : Bytes := ascii "Expected file size"
def expectedResultNumber : Bytes := ascii "Expected result number"

def errorReply (m : Mem) : Option Answer := do
  let (err, object, _) ← getType m 0 (Types.blank (.error []))
  if err.isError then return .badResponse
  return .server (object.msg)

def getReply (m : Mem) : Option Answer := do
  let (err, fdata, req) ← getType m 0 (Types.blank .bigdata)
  if err.isError then return .expected expectedFileData
  let probe ← m (req + fdata.length)
  if probe ≠ MAGIC then return .noMagic
  let content ← m.bytes req fdata.length
  return .file content

def putReply (m : Mem) : Option Answer := do
  let (err, fid, _) ← getType m 0 (Types.blank (.string []))
  if err.isError then return .expected expectedFileId
  return .fileId fid.str

def descReply (m : Mem) : Option Answer := do
  let (err, fname, req) ← getType m 0 (Types.blank (.string []))
  if err.isError then return .expected expectedFileName
  let (err, fsize, _) ← getType m req (Types.blank (.integer 0))
  if err.isError then return .expected expectedFileSize
  return .details fname.str fsize.val

/-- `for (i = 0; i < resultnum.val; i++)` with `count` turns left. -/
def readResults (m : Mem) (announced : Nat) : Nat → Nat → List Bytes → Option Answer
  | 0, _, ids => some (.results announced ids)
  | count + 1, req, ids => do
      let (err, fid, req) ← getType m req (Types.blank (.string []))
      if err.isError then return .cutShort announced ids
      readResults m announced count req (ids ++ [fid.str])

def listReply (m : Mem) : Option Answer := do
  let (err, resultnum, req) ← getType m 0 (Types.blank (.smallint 0))
  if err.isError then return .expected expectedResultNumber
  readResults m resultnum.val resultnum.val req []

def decode (reply : Mem → Option Answer) (outcome : Nat) (m : Mem) : Option Answer :=
  if outcome ≠ status.SUCCESS then errorReply m else reply m

/-! ## Commands -/

section Commands
variable (stale : Nat) (behind : Mem)

def readHead : Prog (Except Answer Data) := do
  let .ok tmp ← Sys.recv HEADER_BYTES | return .error .ioError
  match getType (Mem.ofList tmp) 0 ⟨ids.HEADER, 0, .header stale⟩ with
  | none => return .error .crashed
  | some (err, head, _) => if err.isError then return .error .badResponse else return .ok head

/-- The size of `new char[head.length + 1]`, which is computed in 32 bits. -/
def allocation (head : Data) : Nat := (head.length + 1) % 4294967296

def readBody (reply : Mem → Option Answer) (head : Data) : Prog Answer := do
  let .ok body ← Sys.recv head.length | return .ioError
  match decode reply head.command (Mem.followedBy body behind) with
  | none => return .crashed
  | some answer => return answer

def readResponse (reply : Mem → Option Answer) : Prog Answer := do
  match ← readHead stale with
  | .error answer => return answer
  | .ok head => readBody behind reply head

def get (id : Bytes) : Prog Answer := do
  let .ok _ ← Sys.send (stringRequest 1 id) | return .ioError
  readResponse stale behind getReply

def put (filename : Bytes) (file : Option Bytes) : Prog Answer :=
  match file with
  | none => return .noFile
  | some content => do
      let .ok _ ← putRequest filename content | return .ioError
      readResponse stale behind putReply

def desc (id : Bytes) : Prog Answer := do
  let .ok _ ← Sys.send (idRequest 3 id) | return .ioError
  readResponse stale behind descReply

/-- A successful response is not read beyond its header. -/
def readDeletion : Prog Answer := do
  match ← readHead stale with
  | .error answer => return answer
  | .ok head =>
      if head.command = status.SUCCESS then return .deleted
      let .ok body ← Sys.recv head.length | return .ioError
      match errorReply (Mem.followedBy body behind) with
      | none => return .crashed
      | some answer => return answer

def del (id : Bytes) : Prog Answer := do
  let .ok _ ← Sys.send (idRequest 4 id) | return .ioError
  readDeletion stale behind

def list (filename : Bytes) : Prog Answer := do
  let .ok _ ← Sys.send (stringRequest 5 filename) | return .ioError
  readResponse stale behind listReply

/-- Whether or not the request can be written, the stream is closed. -/
def quit : Prog Unit := do
  let _ ← Sys.send (Types.header 6 0).toBytes
  Sys.disconnect

end Commands

end Sfsdb.Client

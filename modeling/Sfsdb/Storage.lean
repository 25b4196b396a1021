import Sfsdb.Common
import Sfsdb.Flstream

/-!
src/storage.cpp and the `volume_type` of src/volume.hpp as programs. Paths are
the concatenations the source builds, relative to the volume directory, which
is the working directory. A stream is closed where its destructor runs:
streams in the reverse order of their construction, on every exit.
-/

namespace Sfsdb

open Posix

namespace Storage

def ID_DIR : Bytes := ascii "map/by-id/"
def NAME_DIR : Bytes := ascii "map/by-name/"
def DATA_DIR : Bytes := ascii "data/"
def SEPARATOR : Byte := 10

structure Object where
  id : Bytes
  name : Bytes
  dataPath : Bytes
  deriving DecidableEq

def byName (name : Bytes) : Prog (Except Error (List Bytes)) := do
  let nameFile ← Flstream.new (NAME_DIR ++ name) Flstream.RDONLY
  if nameFile.fail then
    let _ ← nameFile.close
    return .error (.ofErrno nameFile.err)
  let nameFile ← nameFile.lock .read
  let (ids, nameFile) ← nameFile.getlines SEPARATOR
  let _ ← nameFile.close
  return .ok ids

def byId (id : Bytes) : Prog (Except Error Object) := do
  let idFile ← Flstream.new (ID_DIR ++ id) Flstream.RDONLY
  if idFile.fail then
    let _ ← idFile.close
    return .error (.ofErrno idFile.err)
  let idFile ← idFile.lock .read
  let (_, name, idFile) ← idFile.getline SEPARATOR
  let _ ← idFile.close
  return .ok { id := id, name := name, dataPath := DATA_DIR ++ id }

/-- `object::get`: the opened stream is moved to the caller. -/
def Object.get (object : Object) (mode : Flags) : Prog (Except Error Flstream) := do
  let dataFile ← Flstream.new (DATA_DIR ++ object.id) mode
  if dataFile.fail then
    let _ ← dataFile.close
    return .error (.ofErrno dataFile.err)
  return .ok dataFile

/-- `object::details`; of the fields of `meta` only the size is ever read. -/
def Object.details (object : Object) : Prog (Except Error Nat) := do
  match ← Sys.stat (DATA_DIR ++ object.id) with
  | .error e => return .error (.ofErrno e)
  | .ok size => return .ok size

/-- `for (auto& fid : ids) if (fid != id) { name_file << fid << SEPARATOR; empty = false; }`. -/
def rewrite (id : Bytes) : List Bytes → Bool → Flstream → Prog (Bool × Flstream)
  | [], empty, nameFile => return (empty, nameFile)
  | fid :: rest, empty, nameFile =>
      if fid ≠ id then do
        let nameFile ← nameFile.writeRecord fid SEPARATOR
        rewrite id rest false nameFile
      else rewrite id rest empty nameFile

/-- The part of `object::remove` behind the try block. The last
`std::filesystem::remove` is outside it: an error there is an exception no one
catches, so the process ends, which the model reports as `none`. -/
def Object.unlist (object : Object) : Prog (Option (Except Error Unit)) := do
  let nameFile ← Flstream.new (NAME_DIR ++ object.name) Flstream.RDWR
  if nameFile.fail then
    let _ ← nameFile.close
    return some (.error (.ofErrno nameFile.err))
  let nameFile ← nameFile.lock .write
  let (ids, nameFile) ← nameFile.getlines SEPARATOR
  nameFile.seek 0
  nameFile.truncate 0
  let (empty, nameFile) ← rewrite object.id ids true nameFile
  if empty then
    match ← Sys.remove (NAME_DIR ++ object.name) with
    | .error _ => return none
    | .ok _ =>
        let nameFile ← nameFile.close
        let _ ← nameFile.close
        return some (.ok ())
  let _ ← nameFile.close
  return some (.ok ())

def Object.remove (object : Object) : Prog (Option (Except Error Unit)) := do
  match ← Sys.remove (ID_DIR ++ object.id) with
  | .error e => return some (.error ⟨e, .what e (ID_DIR ++ object.id)⟩)
  | .ok _ =>
      match ← Sys.remove (DATA_DIR ++ object.id) with
      | .error e => return some (.error ⟨e, .what e (DATA_DIR ++ object.id)⟩)
      | .ok _ => object.unlist

def create (name : Bytes) : Prog (Except Error Bytes) := do
  let id ← Sys.draw
  let nameFile ← Flstream.new (NAME_DIR ++ name)
    ((Flstream.WRONLY.union Flstream.APPEND).union Flstream.CREAT)
  if nameFile.fail then
    let _ ← nameFile.close
    return .error (.ofErrno nameFile.err)
  let nameFile ← nameFile.lock .write
  let idFile ← Flstream.new (ID_DIR ++ id)
    ((Flstream.WRONLY.union Flstream.CREAT).union Flstream.TRUNC)
  if idFile.fail then
    let _ ← idFile.close
    let _ ← nameFile.close
    return .error (.ofErrno idFile.err)
  let idFile ← idFile.lock .write
  let nameFile ← nameFile.writeRecord id SEPARATOR
  let nameFile ← nameFile.close
  let idFile ← idFile.writeRecord name SEPARATOR
  let dataFile ← Flstream.new (DATA_DIR ++ id)
    ((Flstream.WRONLY.union Flstream.TRUNC).union Flstream.CREAT)
  let _ ← dataFile.close
  let _ ← idFile.close
  let _ ← nameFile.close
  return .ok id

end Storage

namespace Volume

open Storage

def store (name data : Bytes) : Prog (Except Error Bytes) := do
  match ← Storage.create name with
  | .error e => return .error e
  | .ok id =>
      match ← byId id with
      | .error e => return .error e
      | .ok object =>
          match ← object.get Flstream.WRONLY with
          | .error e => return .error e
          | .ok stream =>
              let stream ← stream.write data
              let _ ← stream.close
              return .ok id

/-- `none` where `object::remove` ends the process. -/
def remove (id : Bytes) : Prog (Option (Except Error Unit)) := do
  match ← byId id with
  | .error e => return some (.error e)
  | .ok object => object.remove

def getName (name : Bytes) : Prog (Except Error (List Bytes)) := byName name

/-- The record is looked up twice; the second answer is the one returned. -/
def getId (id : Bytes) : Prog (Except Error Object) := do
  match ← byId id with
  | .error e => return .error e
  | .ok _ => byId id

end Volume
end Sfsdb

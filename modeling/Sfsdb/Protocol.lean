import Sfsdb.Common
import Sfsdb.Memory

/-!
src/protocol.hpp, src/endian.hpp and src/messages.hpp. Numbers are natural
numbers, cut to their C++ width where the source narrows them. A value object
keeps the `type` and `length` fields of `class data` next to the fields of its
own class; `from` changes them as the source does, also when it then rejects
the item. Reading goes through `Mem` and has no result once it leaves the
memory. Bytes of `error::msg` that no constructor writes are taken as zeros.
-/

namespace Sfsdb.Protocol

open Posix

def MAGIC : Byte := 0xcc

namespace status

def SUCCESS : Nat := 0
def ERROR : Nat := 1

end status

namespace ids

def INVALID : Nat := 0
def HEADER : Nat := 1
def ERROR : Nat := 2
def SMALLINT : Nat := 3
def INTEGER : Nat := 4
def STRING : Nat := 5
def BIGDATA : Nat := 6

end ids

/-! ## Network byte order -/

def toNets (v : Nat) : Bytes := [UInt8.ofNat (v / 256), UInt8.ofNat v]

def toNetl (v : Nat) : Bytes :=
  [UInt8.ofNat (v / 16777216), UInt8.ofNat (v / 65536), UInt8.ofNat (v / 256), UInt8.ofNat v]

/-- `net::to_hosts(const char*& in)`: the value and the advanced cursor. -/
def toHosts (m : Mem) (pos : Nat) : Option (Nat × Nat) := do
  let a ← m pos
  let b ← m (pos + 1)
  return (a.toNat * 256 + b.toNat, pos + 2)

def toHostl (m : Mem) (pos : Nat) : Option (Nat × Nat) := do
  let a ← m pos
  let b ← m (pos + 1)
  let c ← m (pos + 2)
  let d ← m (pos + 3)
  return (a.toNat * 16777216 + b.toNat * 65536 + c.toNat * 256 + d.toNat, pos + 4)

@[simp] theorem toNets_length (v : Nat) : (toNets v).length = 2 := rfl

@[simp] theorem toNetl_length (v : Nat) : (toNetl v).length = 4 := rfl

theorem toHosts_of_holds (m : Mem) (pos v : Nat) (holds : m.Holds pos (toNets v)) :
    toHosts m pos = some (v % 65536, pos + 2) := by
  simp only [toNets, Mem.holds_cons_iff] at holds
  obtain ⟨a, b, _⟩ := holds
  simp only [toHosts, a, b, Option.bind_eq_bind, Option.bind_some, pure, UInt8.toNat_ofNat',
    Option.some.injEq, Prod.mk.injEq, and_true]
  omega

theorem toHostl_of_holds (m : Mem) (pos v : Nat) (holds : m.Holds pos (toNetl v)) :
    toHostl m pos = some (v % 4294967296, pos + 4) := by
  simp only [toNetl, Mem.holds_cons_iff, Nat.add_assoc, Nat.reduceAdd] at holds
  obtain ⟨a, b, c, d, _⟩ := holds
  simp only [toHostl, a, b, c, d, Option.bind_eq_bind, Option.bind_some, pure,
    UInt8.toNat_ofNat', Option.some.injEq, Prod.mk.injEq, and_true]
  omega

theorem toHosts_lt (m : Mem) (pos v next : Nat) (read : toHosts m pos = some (v, next)) :
    v < 65536 ∧ next = pos + 2 := by
  simp only [toHosts, Option.bind_eq_bind, Option.bind_eq_some_iff, pure, Option.some.injEq,
    Prod.mk.injEq] at read
  obtain ⟨a, _, b, _, same, rfl⟩ := read
  have := a.toNat_lt
  have := b.toNat_lt
  omega

theorem toHostl_lt (m : Mem) (pos v next : Nat) (read : toHostl m pos = some (v, next)) :
    v < 4294967296 ∧ next = pos + 4 := by
  simp only [toHostl, Option.bind_eq_bind, Option.bind_eq_some_iff, pure, Option.some.injEq,
    Prod.mk.injEq] at read
  obtain ⟨a, _, b, _, c, _, d, _, same, rfl⟩ := read
  have := a.toNat_lt
  have := b.toNat_lt
  have := c.toNat_lt
  have := d.toNat_lt
  omega

/-! ## Value objects -/

/-- The fields of the seven classes derived from `data`. -/
inductive Value where
  | invalid
  | header (command : Nat)
  | error (msg : Bytes)
  | smallint (val : Nat)
  | integer (val : Nat)
  | string (str : Bytes)
  | bigdata
  deriving DecidableEq

structure Data where
  type : Nat
  length : Nat
  value : Value
  deriving DecidableEq

def HEADER_BYTES : Nat := 8

/-- `data::HEADER_SIZE`: the two fields of `data` and one magic byte. -/
def HEADER_SIZE : Nat := 7

def MSG_SIZE : Nat := 256

/-- `strncpy(dest, src, n)` for the bytes of `src` before its NUL: the rest of
the `n` bytes is filled with NULs. -/
def strncpy (dest src : Bytes) (n : Nat) : Bytes :=
  src.take n ++ List.replicate (n - src.length) 0 ++ dest.drop n

namespace Types

/-- The default constructors; each sets only its type. -/
def blank (value : Value) : Data :=
  match value with
  | .invalid => ⟨ids.INVALID, 0, .invalid⟩
  | .header _ => ⟨ids.HEADER, 0, .header 0⟩
  | .error _ => ⟨ids.ERROR, 0, .error (List.replicate MSG_SIZE 0)⟩
  | .smallint _ => ⟨ids.SMALLINT, 0, .smallint 0⟩
  | .integer _ => ⟨ids.INTEGER, 0, .integer 0⟩
  | .string _ => ⟨ids.STRING, 0, .string []⟩
  | .bigdata => ⟨ids.BIGDATA, 0, .bigdata⟩

def invalid : Data := ⟨ids.INVALID, 0, .invalid⟩

def header (command length : Nat) : Data :=
  ⟨ids.HEADER, length % 4294967296, .header (command % 65536)⟩

/-- `error(const char*)`: `length` is `strnlen(_msg, 255)`, and as many
characters are copied in front of a final NUL. -/
def error (msg : Bytes) : Data :=
  let text := (cstr msg).take (MSG_SIZE - 1)
  ⟨ids.ERROR, text.length,
    .error ((strncpy (List.replicate MSG_SIZE 0) text text.length).set (MSG_SIZE - 1) 0)⟩

def smallint (val : Nat) : Data := ⟨ids.SMALLINT, 2, .smallint (val % 65536)⟩

def integer (val : Nat) : Data := ⟨ids.INTEGER, 4, .integer (val % 4294967296)⟩

/-- `string(const char*)`. -/
def string (str : Bytes) : Data :=
  ⟨ids.STRING, (cstr str).length % 4294967296, .string (cstr str)⟩

/-- `string::operator=(const std::string&)`, which keeps every byte. -/
def assignString (object : Data) (str : Bytes) : Data :=
  { object with length := str.length % 4294967296, value := .string str }

def bigdata (length : Nat) : Data := ⟨ids.BIGDATA, length % 4294967296, .bigdata⟩

end Types

namespace Data

/-! The fields of the derived classes. -/

def command (d : Data) : Nat :=
  match d.value with
  | .header command => command
  | _ => 0

/-- `error::msg` as the C string it is printed as. -/
def msg (d : Data) : Bytes :=
  match d.value with
  | .error msg => cstr msg
  | _ => []

def val (d : Data) : Nat :=
  match d.value with
  | .smallint val => val
  | .integer val => val
  | _ => 0

def str (d : Data) : Bytes :=
  match d.value with
  | .string str => str
  | _ => []

/-- The virtual `_to`. -/
def toPayload (d : Data) : Bytes :=
  match d.value with
  | .invalid => [MAGIC]
  | .header command => toNets command
  | .error msg => msg.take d.length ++ [MAGIC]
  | .smallint val => toNets val ++ [MAGIC]
  | .integer val => toNetl val ++ [MAGIC]
  | .string str => str ++ [MAGIC]
  | .bigdata => []

def toBytes (d : Data) : Bytes := toNets d.type ++ toNetl d.length ++ d.toPayload

/-- The virtual `_from`: the new fields and the advanced cursor. -/
def fromPayload (d : Data) (m : Mem) (pos : Nat) : Option (Value × Nat) :=
  match d.value with
  | .invalid => some (.invalid, pos)
  | .header _ => do
      let (command, pos) ← toHosts m pos
      return (.header command, pos)
  | .error msg => do
      let text ← m.strn pos (MSG_SIZE - 1)
      let last := if d.length > MSG_SIZE - 1 then MSG_SIZE - 1 else d.length
      return (.error ((strncpy msg text (MSG_SIZE - 1)).set last 0), pos + d.length)
  | .smallint _ => do
      let (val, pos) ← toHosts m pos
      return (.smallint val, pos)
  | .integer _ => do
      let (val, pos) ← toHostl m pos
      return (.integer val, pos)
  | .string _ => do
      let str ← m.bytes pos d.length
      return (.string str, pos + d.length)
  | .bigdata => some (.bigdata, pos)

/-- `data::from`: whether the item was accepted, the object and the cursor. -/
def fromBytes (d : Data) (m : Mem) (pos : Nat) : Option (Bool × Data × Nat) := do
  let (type, pos) ← toHosts m pos
  let (length, pos) ← toHostl m pos
  let d := { d with type := type, length := length }
  if type = ids.HEADER ∨ type = ids.BIGDATA then
    let (value, pos) ← d.fromPayload m pos
    return (true, { d with value := value }, pos)
  else
    let probe ← m (pos + length)
    if probe ≠ MAGIC then return (false, d, pos)
    let (value, pos) ← d.fromPayload m pos
    return (true, { d with value := value }, pos + 1)

end Data

def wrongParameterType : CString := ⟨ascii "Wrong parameter type", by decide⟩
def invalidDataFormat : CString := ⟨ascii "Invalid data format", by decide⟩

/-- `get_type`: the object is untouched where its type is not the next one. -/
def getType (m : Mem) (pos : Nat) (expected : Data) : Option (Error × Data × Nat) := do
  let (nextType, _) ← toHosts m pos
  if nextType ≠ expected.type then return (⟨nextType, .text wrongParameterType⟩, expected, pos)
  let (accepted, object, pos) ← expected.fromBytes m pos
  if accepted then return (.ofErrno 0, object, pos)
  else return (⟨-1, .text invalidDataFormat⟩, object, pos)

/-! ## Messages and dispatch -/

universe u

/-- `messages::error(msg).to(out)`. -/
def errorMessage (msg : Bytes) : Bytes :=
  let err := Types.error msg
  (Types.header status.ERROR (HEADER_SIZE + err.length)).toBytes ++ err.toBytes

def INVALID_COMMAND : Nat := 65534

/-- The loop of `protocol::parse` over the table; `invalid` is the fallback
remembered so far. The result is the handler to call, `none` for -1. -/
def selectFrom {H : Type u} (command : Nat) : Option H → List (Nat × Option H) → Option H
  | invalid, [] => invalid
  | invalid, (no, handler) :: rest =>
      let invalid := if no = INVALID_COMMAND then handler else invalid
      if no = command then
        match handler with
        | some h => some h
        | none => selectFrom command invalid rest
      else selectFrom command invalid rest

def select {H : Type u} (commands : List (Nat × Option H)) (command : Nat) : Option H :=
  selectFrom command none commands

end Sfsdb.Protocol

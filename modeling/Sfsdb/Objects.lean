import Sfsdb.Decoding
import Sfsdb.ItemStream

/-!
The objects that carry an error message, a number or a string. Their length is a
field of its own, which constructors, assignments and `get_type` set or leave
alone, each in its own way, and `_to` writes a payload without looking at it
(only the error class does). `Op.Sound` says when an operation keeps the two in
step.
-/

namespace Sfsdb.Protocol.Types

open Posix

/-! The remaining assignments. -/

def assignErrorChars (object : Data) (e : Bytes) : Data :=
  match object.value with
  | .error msg =>
      let length := min (cstr e).length (MSG_SIZE - 1)
      { object with length := length, value := .error (strncpy msg (cstr e) length) }
  | _ => object

/-- `error::operator=(const std::string&)`; nothing bounds the length here, and
what `strncpy` would write behind `msg` is kept at its end. -/
def assignErrorString (object : Data) (e : Bytes) : Data :=
  match object.value with
  | .error msg =>
      let length := e.length % 4294967296
      { object with length := length, value := .error (strncpy msg (cstr e) length) }
  | _ => object

def assignSmallint (object : Data) (other : Nat) : Data :=
  { object with value := .smallint (other % 65536) }

def assignInteger (object : Data) (other : Nat) : Data :=
  { object with value := .integer (other % 4294967296) }

def assignChars (object : Data) (e : Bytes) : Data :=
  { object with length := (cstr e).length % 4294967296, value := .string (cstr e) }

end Sfsdb.Protocol.Types

namespace Sfsdb.Objects

open Posix Protocol Screening

/-- An object of one of the four classes, and whether it was given a value yet. -/
structure Object where
  data : Data
  held : Bool

/-- How an object begins. The fields that a default constructor does not set are
what the memory held before. -/
inductive Construction where
  | blankError (msg : Bytes) (sized : msg.length = MSG_SIZE)
  | blankSmallint (val : UInt16)
  | blankInteger (val : UInt32)
  | blankString
  | error (msg : CString)
  | smallint (val : UInt16)
  | integer (val : UInt32)
  | string (str : CString)

def Construction.object : Construction → Object
  | .blankError msg _ => ⟨⟨ids.ERROR, 0, .error msg⟩, false⟩
  | .blankSmallint val => ⟨⟨ids.SMALLINT, 0, .smallint val.toNat⟩, false⟩
  | .blankInteger val => ⟨⟨ids.INTEGER, 0, .integer val.toNat⟩, false⟩
  | .blankString => ⟨⟨ids.STRING, 0, .string []⟩, false⟩
  | .error msg => ⟨Types.error msg.val, true⟩
  | .smallint val => ⟨Types.smallint val.toNat, true⟩
  | .integer val => ⟨Types.integer val.toNat, true⟩
  | .string str => ⟨Types.string str.val, true⟩

inductive Op where
  | assignChars (e : CString)
  | assignString (e : Bytes)
  | assignSmallint (other : UInt16)
  | assignInteger (other : UInt32)
  | decode (m : Mem) (pos : Nat)

def Op.apply (o : Object) : Op → Option Object
  | .assignChars e =>
      match o.data.value with
      | .error _ => some ⟨Types.assignErrorChars o.data e.val, true⟩
      | .string _ => some ⟨Types.assignChars o.data e.val, true⟩
      | _ => none
  | .assignString e =>
      match o.data.value with
      | .error _ => some ⟨Types.assignErrorString o.data e, true⟩
      | .string _ => some ⟨Types.assignString o.data e, true⟩
      | _ => none
  | .assignSmallint other =>
      match o.data.value with
      | .smallint _ => some ⟨Types.assignSmallint o.data other.toNat, true⟩
      | _ => none
  | .assignInteger other =>
      match o.data.value with
      | .integer _ => some ⟨Types.assignInteger o.data other.toNat, true⟩
      | _ => none
  | .decode m pos => do
      let (err, object, _) ← getType m pos o.data
      if err.isError then none else some ⟨object, true⟩

inductive Run : Object → List Op → List Object → Prop where
  | done (o : Object) : Run o [] [o]
  | next {o o' : Object} {op : Op} {ops : List Op} {states : List Object} :
      op.apply o = some o' → Run o' ops states → Run o (op :: ops) (o :: states)

/-- The value that an object encodes: of a message the part its length covers. -/
def content (d : Data) : Value :=
  match d.value with
  | .error msg => .error (msg.take d.length)
  | value => value

/-- The length field describes what `_to` writes, and whoever reads it with an
object of the class has the same value again. -/
structure Described (d : Data) : Prop where
  measured : ∃ payload, d.toPayload = payload ++ [MAGIC] ∧ d.length = payload.length
  bounded : d.type = ids.ERROR → d.length ≤ 255
  decodes : ∀ (m : Mem) (pos : Nat) (reader : Data), reader.type = d.type →
    reader.value.id = d.value.id → m.Holds pos d.toBytes → m.Terminated (pos + d.toBytes.length) →
    ∃ object, getType m pos reader = some (.ofErrno 0, object, pos + d.toBytes.length) ∧
      object.length = d.length ∧ content object = content d

def Announces (length : Nat) : Value → Prop
  | .error _ => length ≤ 255
  | .smallint _ => length = 2
  | .integer _ => length = 4
  | _ => True

/-- Only a string may be too long for its length field. -/
def Construction.Sound : Construction → Prop
  | .string str => str.val.length < 4294967296
  | _ => True

/-- An assignment to a number leaves the length to whoever gave the object its
first value, the other ones and `get_type` take over the length they are given. -/
def Op.Sound (o : Object) : Op → Prop
  | .assignChars e => ∀ str, o.data.value = .string str → e.val.length < 4294967296
  | .assignString e =>
      match o.data.value with
      | .error _ => e.length % 4294967296 ≤ 255
      | _ => e.length < 4294967296
  | .assignSmallint _ | .assignInteger _ => o.held = true
  | .decode m pos =>
      if wireType m pos = some o.data.type
      then ∀ length, wireLength m pos = some length → Announces length o.data.value
      else o.held = true ∨ Announces 0 o.data.value

def Careful (o : Object) : List Op → Prop
  | [] => True
  | op :: ops => op.Sound o ∧ ∀ o', op.apply o = some o' → Careful o' ops

/-! ## The bytes of a message -/

section Messages
variable {text msg dest src : Bytes} {n length : Nat}

def Padded (text : Bytes) : Prop := ∃ front count, text = front ++ List.replicate count 0 ∧ 0 ∉ front

theorem padded_of_free (free : 0 ∉ text) : Padded text := ⟨text, 0, by simp, free⟩

theorem Padded.take (padded : Padded text) (n : Nat) : Padded (text.take n) := by
  obtain ⟨front, count, rfl, free⟩ := padded
  rw [List.take_append, List.take_replicate]
  exact ⟨_, _, rfl, fun member => free (List.mem_of_mem_take member)⟩

theorem padded_copy (free : 0 ∉ src) (n : Nat) : Padded (src.take n ++ List.replicate (n - src.length) 0) :=
  ⟨_, _, rfl, fun member => free (List.mem_of_mem_take member)⟩

theorem strncpy_take (dest src : Bytes) (n : Nat) :
    (strncpy dest src n).take n = src.take n ++ List.replicate (n - src.length) 0 := by
  have size : (src.take n ++ List.replicate (n - src.length) 0).length = n := by
    simp only [List.length_append, List.length_take, List.length_replicate]
    omega
  rw [strncpy, List.take_append_of_le_length (by omega), List.take_of_length_le (by omega)]

theorem strncpy_length (dest src : Bytes) (n : Nat) :
    (strncpy dest src n).length = n + (dest.length - n) := by
  simp only [strncpy, List.length_append, List.length_take, List.length_replicate, List.length_drop]
  omega

theorem filled_take (dest : Bytes) (short : src.length ≤ 255) (room : length ≤ 255) :
    ((strncpy dest src 255).set length 0).take length =
      (src ++ List.replicate (255 - src.length) 0).take length := by
  -- A message buffer after a decoder filled it.
  have whole := strncpy_take dest src 255
  rw [List.take_of_length_le short] at whole
  calc ((strncpy dest src 255).set length 0).take length
      = (strncpy dest src 255).take length := List.take_set_of_le (Nat.le_refl _)
    _ = ((strncpy dest src 255).take 255).take length := by rw [List.take_take, Nat.min_eq_left room]
    _ = _ := by rw [whole]

theorem copied_take {m : Mem} {pos : Nat} {copied : Bytes} (padded : Padded text)
    (room : text.length ≤ 255) (holds : m.Holds pos text) (read : m.strn pos 255 = some copied) :
    (copied ++ List.replicate (255 - copied.length) 0).take text.length = text := by
  obtain ⟨front, count, rfl, free⟩ := padded
  cases count with
  | zero =>
      simp only [List.replicate_zero, List.append_nil] at holds room ⊢
      obtain ⟨more, rfl⟩ := Mem.strn_of_holds m pos 255 front copied holds free room read
      rw [List.append_assoc, List.take_left]
  | succ count =>
      simp only [List.length_append, List.length_replicate] at room ⊢
      have nul : m.Holds pos (front ++ [0]) := by
        have split : front ++ List.replicate (count + 1) 0 = front ++ [0] ++ List.replicate count 0 := by
          rw [List.replicate_succ, List.append_assoc, List.singleton_append]
        rw [split, Mem.holds_append_iff] at holds
        exact holds.1
      have ended := Mem.strn_of_nul m pos 255 front nul free (by omega)
      obtain rfl : front = copied := Option.some.inj (ended.symm.trans read)
      rw [List.take_append, List.take_of_length_le (by omega), List.take_replicate]
      congr 2
      omega

end Messages

/-! ## One object -/

def Formed (d : Data) : Prop :=
  d.type = d.value.id ∧
    match d.value with
    | .error msg => 256 ≤ msg.length ∧ (d.length ≤ 255 → Padded (msg.take d.length))
    | .smallint val => val < 65536
    | .integer val => val < 4294967296
    | .string _ => d.length < 4294967296
    | _ => False

def Fits (d : Data) : Prop :=
  match d.value with
  | .string str => d.length = str.length
  | value => Announces d.length value

def body (d : Data) : Bytes :=
  match d.value with
  | .error msg => msg.take d.length
  | .smallint val => toNets val
  | .integer val => toNetl val
  | .string str => str
  | _ => []

section Lengths
variable {d reader : Data} {m : Mem} {pos : Nat}

theorem toPayload_eq (formed : Formed d) : d.toPayload = body d ++ [MAGIC] := by
  obtain ⟨type, length, value⟩ := d
  cases value with
  | header | bigdata => exact absurd formed.2 id
  | _ => rfl

theorem formed_type (formed : Formed d) :
    d.type < 65536 ∧ d.type ≠ ids.HEADER ∧ d.type ≠ ids.BIGDATA := by
  obtain ⟨type, length, value⟩ := d
  obtain ⟨own, rest⟩ := formed
  obtain rfl : type = value.id := own
  cases value with
  | invalid | header | bigdata => exact absurd rest id
  | _ => simp [Value.id, ids.ERROR, ids.SMALLINT, ids.INTEGER, ids.STRING, ids.HEADER, ids.BIGDATA]

theorem fits_iff (formed : Formed d) :
    Fits d ↔ d.length = (body d).length ∧ (d.type = ids.ERROR → d.length ≤ 255) := by
  obtain ⟨type, length, value⟩ := d
  obtain ⟨own, rest⟩ := formed
  obtain rfl : type = value.id := own
  cases value with
  | invalid | header | bigdata => exact absurd rest id
  | error msg =>
      simp only [Fits, Announces, body, Value.id, List.length_take, forall_const]
      have := rest.1
      omega
  | smallint | integer | string =>
      simp [Fits, Announces, body, Value.id, ids.SMALLINT, ids.INTEGER, ids.STRING, ids.ERROR]

theorem body_lt (formed : Formed d) (fits : Fits d) : (body d).length < 4294967296 := by
  have size := ((fits_iff formed).mp fits).1
  obtain ⟨type, length, value⟩ := d
  cases value with
  | invalid | header | bigdata => exact absurd formed.2 id
  | error => exact size ▸ Nat.lt_of_le_of_lt fits (by decide)
  | smallint => exact (by decide : 2 < 4294967296)
  | integer => exact (by decide : 4 < 4294967296)
  | string => exact size ▸ formed.2

theorem fromPayload_body (formed : Formed d) (fits : Fits d) (same : reader.value.id = d.value.id)
    (holds : m.Holds (pos + 6) (body d)) (readable : (m.strn (pos + 6) 255).isSome) :
    ∃ value, Data.fromPayload ⟨reader.type, (body d).length, reader.value⟩ m (pos + 6) =
        some (value, pos + 6 + (body d).length) ∧
      content ⟨reader.type, (body d).length, value⟩ = content d := by
  have size := ((fits_iff formed).mp fits).1
  obtain ⟨type, length, value⟩ := d
  obtain ⟨type', length', value'⟩ := reader
  obtain ⟨own, rest⟩ := formed
  obtain rfl : type = value.id := own
  cases value with
  | invalid | header | bigdata => exact absurd rest id
  | error msg =>
      cases value' with
      | error old =>
          obtain ⟨copied, read⟩ := Option.isSome_iff_exists.mp readable
          have room : (msg.take length).length ≤ 255 := size ▸ fits
          have whole := copied_take (rest.2 fits) room holds read
          refine ⟨_, fromPayload_error _ _ old copied m _ room read, ?_⟩
          simp only [content, body]
          rw [filled_take old (Mem.strn_length_le m _ 255 copied read) room, whole]
      | _ => cases same
  | smallint val =>
      cases value' with
      | smallint =>
          have read := toHosts_of_holds m (pos + 6) val holds
          rw [Nat.mod_eq_of_lt rest] at read
          exact ⟨.smallint val, by simp [Data.fromPayload, read, body], rfl⟩
      | _ => cases same
  | integer val =>
      cases value' with
      | integer =>
          have read := toHostl_of_holds m (pos + 6) val holds
          rw [Nat.mod_eq_of_lt rest] at read
          exact ⟨.integer val, by simp [Data.fromPayload, read, body], rfl⟩
      | _ => cases same
  | string str =>
      cases value' with
      | string =>
          have read := Mem.bytes_of_holds m (pos + 6) str holds
          exact ⟨.string str, by simp [Data.fromPayload, read, body], rfl⟩
      | _ => cases same

theorem described_iff (formed : Formed d) : Described d ↔ Fits d := by
  constructor
  · intro described
    obtain ⟨payload, written, size⟩ := described.measured
    rw [toPayload_eq formed] at written
    rw [← List.append_cancel_right written] at size
    exact (fits_iff formed).mpr ⟨size, described.bounded⟩
  · intro fits
    obtain ⟨size, bounded⟩ := (fits_iff formed).mp fits
    refine ⟨⟨body d, toPayload_eq formed, size⟩, bounded, ?_⟩
    intro m pos reader type same holds terminated
    have bytes : d.toBytes = toNets d.type ++ toNetl (body d).length ++ (body d ++ [MAGIC]) := by
      rw [Data.toBytes, toPayload_eq formed, ← size]
    have long : d.toBytes.length = 7 + (body d).length := by
      rw [bytes]
      simp only [List.length_append, toNets_length, toNetl_length, List.length_singleton]
      omega
    rw [long] at terminated
    rw [bytes, ← type] at holds
    have front := ((Mem.holds_append_iff _ _ _ _).mp holds).2
    obtain ⟨value, read, same⟩ := fromPayload_body formed fits same
      ((Mem.holds_append_iff _ _ _ _).mp front).1 (terminated (pos + 6) (by omega) 255)
    obtain ⟨small, framed⟩ := formed_type formed
    have item := getType_checked m pos reader (body d) value (type ▸ small) (body_lt formed fits)
      (type ▸ framed) holds read
    exact ⟨_, long ▸ item, size.symm, same⟩

end Lengths

/-! ## One operation -/

def Blank (d : Data) : Prop := d.length = 0 ∧ ∀ str, d.value = .string str → str = []

theorem construction_formed (c : Construction) : Formed c.object.data := by
  cases c with
  | blankError msg sized =>
      refine ⟨rfl, Nat.le_of_eq sized.symm, fun _ => ?_⟩
      exact padded_of_free (by simp [Construction.object])
  | blankSmallint val | smallint val =>
      exact ⟨rfl, by simp [Construction.object, Types.smallint, val.toNat_lt]⟩
  | blankInteger val | integer val =>
      exact ⟨rfl, by simp [Construction.object, Types.integer, val.toNat_lt]⟩
  | blankString => exact ⟨rfl, (by decide : 0 < 4294967296)⟩
  | error msg =>
      have whole := List.append_cancel_right (error_payload msg.val)
      refine ⟨rfl, ?_, fun _ => ?_⟩
      · have room : ((cstr msg.val).take 255).length ≤ 255 := List.length_take_le 255 _
        rw [List.length_set, strncpy_length, List.length_replicate]
        simp only [MSG_SIZE, Nat.reduceSub]
        omega
      · rw [show (Construction.error msg).object.data = Types.error msg.val from rfl, whole]
        exact padded_of_free fun member => cstr_free _ (List.mem_of_mem_take member)
  | string str => exact ⟨rfl, Nat.mod_lt _ (by decide)⟩

theorem construction_fits (c : Construction) :
    (c.object.held = true → (Fits c.object.data ↔ c.Sound)) ∧
    (c.object.held = false → Blank c.object.data ∧ c.Sound) := by
  cases c with
  | blankError | blankSmallint | blankInteger =>
      refine ⟨fun held => absurd held Bool.false_ne_true, fun _ => ⟨⟨rfl, ?_⟩, trivial⟩⟩
      intro str other
      cases other
  | blankString =>
      refine ⟨fun held => absurd held Bool.false_ne_true, fun _ => ⟨⟨rfl, ?_⟩, trivial⟩⟩
      intro str same
      cases same
      rfl
  | error msg =>
      constructor
      · exact fun _ => iff_of_true (List.length_take_le 255 _) trivial
      · exact fun blank => absurd blank.symm Bool.false_ne_true
  | smallint | integer =>
      exact ⟨fun _ => iff_of_true rfl trivial, fun blank => absurd blank.symm Bool.false_ne_true⟩
  | string str =>
      refine ⟨fun _ => ?_, fun blank => absurd blank.symm Bool.false_ne_true⟩
      simp only [Fits, Construction.object, Types.string, Construction.Sound, cstr_of_free _ str.property]
      omega

section Operations
variable {d : Data} {o o' : Object} {op : Op} {m : Mem} {pos last length : Nat} {value : Value}

theorem decoded_fits (formed : Formed d) (sized : length < 4294967296)
    (read : Data.fromPayload ⟨d.type, length, d.value⟩ m pos = some (value, last)) :
    Formed ⟨d.type, length, value⟩ ∧ (Fits ⟨d.type, length, value⟩ ↔ Announces length d.value) := by
  obtain ⟨type, before, old⟩ := d
  obtain ⟨own, rest⟩ := formed
  obtain rfl : type = old.id := own
  cases old with
  | invalid | header | bigdata => exact absurd rest id
  | error msg =>
      simp only [Data.fromPayload, Option.bind_eq_bind, Option.bind_eq_some_iff] at read
      obtain ⟨text, bytes, answer⟩ := read
      cases answer
      refine ⟨⟨rfl, ?_, ?_⟩, Iff.rfl⟩
      · rw [List.length_set, strncpy_length]
        have := rest.1
        simp only [MSG_SIZE, Nat.reduceSub]
        omega
      · intro room
        have inside : ¬ length > MSG_SIZE - 1 := Nat.not_lt.mpr room
        rw [if_neg inside]
        simp only [MSG_SIZE, Nat.reduceSub] at bytes ⊢
        rw [filled_take msg (Mem.strn_length_le m pos 255 text bytes) room]
        have padded : Padded (text ++ List.replicate (255 - text.length) 0) :=
          ⟨_, _, rfl, Mem.strn_free m pos 255 text bytes⟩
        exact padded.take length
  | smallint =>
      simp only [Data.fromPayload, Option.bind_eq_bind, Option.bind_eq_some_iff, Prod.exists] at read
      obtain ⟨val, after, hosts, answer⟩ := read
      cases answer
      exact ⟨⟨rfl, (toHosts_lt m pos val _ hosts).1⟩, Iff.rfl⟩
  | integer =>
      simp only [Data.fromPayload, Option.bind_eq_bind, Option.bind_eq_some_iff, Prod.exists] at read
      obtain ⟨val, after, hosts, answer⟩ := read
      cases answer
      exact ⟨⟨rfl, (toHostl_lt m pos val _ hosts).1⟩, Iff.rfl⟩
  | string =>
      simp only [Data.fromPayload, Option.bind_eq_bind, Option.bind_eq_some_iff] at read
      obtain ⟨str, bytes, answer⟩ := read
      cases answer
      exact ⟨⟨rfl, sized⟩, iff_of_true (Mem.bytes_length m pos length str bytes).symm trivial⟩

theorem copied_formed {msg src : Bytes} (room : 256 ≤ msg.length) (free : 0 ∉ src) (length : Nat) :
    Formed ⟨ids.ERROR, length, .error (strncpy msg src length)⟩ := by
  refine ⟨rfl, ?_, fun _ => ?_⟩
  · rw [strncpy_length]
    omega
  · rw [strncpy_take]
    exact padded_copy free length

theorem blank_fits (formed : Formed d) (blank : Blank d) : Fits d ↔ Announces 0 d.value := by
  obtain ⟨type, length, value⟩ := d
  obtain ⟨rfl : length = 0, empty⟩ := blank
  cases value with
  | invalid | header | bigdata => exact absurd formed.2 id
  | error | smallint | integer => exact Iff.rfl
  | string str => exact iff_of_true (by rw [empty str rfl]; rfl) trivial

theorem decode_fits (formed : Formed o.data) (held : o.held = true → Fits o.data)
    (blank : o.held = false → Blank o.data) (applied : (Op.decode m pos).apply o = some o') :
    o'.held = true ∧ Formed o'.data ∧ (Fits o'.data ↔ (Op.decode m pos).Sound o) := by
  simp only [Op.apply, Option.bind_eq_bind, Option.bind_eq_some_iff, Prod.exists] at applied
  obtain ⟨err, object, next, read, verdict⟩ := applied
  cases failed : err.isError with
  | true => simp [failed] at verdict
  | false =>
      simp only [failed, Bool.false_eq_true, ↓reduceIte, Option.some.injEq] at verdict
      subst verdict
      refine ⟨rfl, ?_⟩
      rcases getType_success ⟨formed.1, (formed_type formed).2⟩ read failed with
        ⟨other, rfl, _⟩ | ⟨wire, length, value, last, announced, sized, _, payload, rfl, _⟩
      · refine ⟨formed, ?_⟩
        simp only [Op.Sound, if_neg other]
        cases before : o.held with
        | true => exact iff_of_true (held before) (Or.inl rfl)
        | false => simpa using blank_fits formed (blank before)
      · obtain ⟨formed', fits⟩ := decoded_fits formed sized payload
        refine ⟨formed', fits.trans ?_⟩
        simp [Op.Sound, wire, announced]

-- A number keeps the length it had, which is none before its first value.
theorem number_fits {size : Nat} {before : Bool} (some : size ≠ 0) (held : before = true → length = size)
    (blank : before = false → length = 0) : length = size ↔ before = true := by
  cases before with
  | true => exact iff_of_true (held rfl) rfl
  | false => exact iff_of_false (fun same => some (same ▸ blank rfl)) Bool.false_ne_true

theorem apply_fits (formed : Formed o.data) (held : o.held = true → Fits o.data)
    (blank : o.held = false → Blank o.data) (applied : op.apply o = some o') :
    o'.held = true ∧ Formed o'.data ∧ (Fits o'.data ↔ op.Sound o) := by
  cases op with
  | decode m pos => exact decode_fits formed held blank applied
  | assignChars e =>
      obtain ⟨⟨type, length, value⟩, before⟩ := o
      obtain ⟨own, rest⟩ := formed
      obtain rfl : type = value.id := own
      cases value with
      | error msg =>
          cases applied
          refine ⟨rfl, copied_formed rest.1 (cstr_free e.val) _, iff_of_true (Nat.min_le_right _ _) ?_⟩
          intro str other
          cases other
      | string old =>
          cases applied
          refine ⟨rfl, ⟨rfl, Nat.mod_lt _ (by decide)⟩, ?_⟩
          simp only [Fits, Types.assignChars, Op.Sound, cstr_of_free _ e.property, Value.string.injEq,
            forall_eq']
          omega
      | _ => cases applied
  | assignString e =>
      obtain ⟨⟨type, length, value⟩, before⟩ := o
      obtain ⟨own, rest⟩ := formed
      obtain rfl : type = value.id := own
      cases value with
      | error msg =>
          cases applied
          exact ⟨rfl, copied_formed rest.1 (cstr_free e) _, Iff.rfl⟩
      | string old =>
          cases applied
          refine ⟨rfl, ⟨rfl, Nat.mod_lt _ (by decide)⟩, ?_⟩
          simp only [Fits, Types.assignString, Op.Sound]
          omega
      | _ => cases applied
  | assignSmallint other =>
      obtain ⟨⟨type, length, value⟩, before⟩ := o
      obtain ⟨own, rest⟩ := formed
      obtain rfl : type = value.id := own
      cases value with
      | smallint old =>
          cases applied
          refine ⟨rfl, ⟨rfl, Nat.mod_lt _ (by decide)⟩, ?_⟩
          exact number_fits (by decide) held fun unset => (blank unset).1
      | _ => cases applied
  | assignInteger other =>
      obtain ⟨⟨type, length, value⟩, before⟩ := o
      obtain ⟨own, rest⟩ := formed
      obtain rfl : type = value.id := own
      cases value with
      | integer old =>
          cases applied
          refine ⟨rfl, ⟨rfl, Nat.mod_lt _ (by decide)⟩, ?_⟩
          exact number_fits (by decide) held fun unset => (blank unset).1
      | _ => cases applied

end Operations

/-! ## Sequences of operations -/

theorem Run.start {o : Object} {ops : List Op} {states : List Object} (run : Run o ops states) :
    o ∈ states := by
  cases run with
  | done => exact List.mem_singleton_self o
  | next => exact List.mem_cons_self

theorem run_described {o : Object} {ops : List Op} {states : List Object} (run : Run o ops states)
    (formed : Formed o.data) (held : o.held = true → Fits o.data)
    (blank : o.held = false → Blank o.data) :
    (∀ state ∈ states, state.held = true → Described state.data) ↔ Careful o ops := by
  induction run with
  | done o =>
      refine iff_of_true ?_ trivial
      intro state member given
      rw [List.mem_singleton.mp member] at given ⊢
      exact (described_iff formed).mpr (held given)
  | @next o o' op ops states applied run ih =>
      obtain ⟨given, formed', fits⟩ := apply_fits formed held blank applied
      have unset : o'.held = false → Blank o'.data := by
        intro blank'
        rw [given] at blank'
        cases blank'
      constructor
      · intro all
        have described := all o' (List.mem_cons_of_mem _ run.start) given
        have fit := (described_iff formed').mp described
        refine ⟨fits.mp fit, ?_⟩
        intro other applied'
        obtain rfl : o' = other := Option.some.inj (applied.symm.trans applied')
        apply (ih formed' (fun _ => fit) unset).mp
        intro state member
        exact all state (List.mem_cons_of_mem _ member)
      · rintro ⟨sound, careful⟩ state member given'
        rcases List.mem_cons.mp member with rfl | later
        · exact (described_iff formed).mpr (held given')
        · exact (ih formed' (fun _ => fits.mpr sound) unset).mpr (careful o' applied) state later given'

/-- Whatever is done to an object, each value it holds is described by its
length field exactly where every operation is sound where it is done. -/
theorem lengths_describe_payloads (c : Construction) (ops : List Op) (states : List Object)
    (run : Run c.object ops states) :
    (∀ o ∈ states, o.held = true → Described o.data) ↔ c.Sound ∧ Careful c.object ops := by
  have formed := construction_formed c
  obtain ⟨valued, unset⟩ := construction_fits c
  cases held : c.object.held with
  | true =>
      constructor
      · intro all
        have fit := (described_iff formed).mp (all c.object run.start held)
        refine ⟨(valued held).mp fit, (run_described run formed (fun _ => fit) ?_).mp all⟩
        exact fun blank => (unset blank).1
      · rintro ⟨sound, careful⟩
        refine (run_described run formed (fun _ => (valued held).mpr sound) ?_).mpr careful
        exact fun blank => (unset blank).1
  | false =>
      obtain ⟨blank, sound⟩ := unset held
      have every := run_described run formed (fun given => absurd (held.symm.trans given) Bool.false_ne_true)
        fun _ => blank
      exact every.trans (and_iff_right sound).symm

/-- A number that is constructed from a value and assigned another one. -/
theorem lengths_describe_payloads_smallint :
    (∀ o ∈ [(Construction.smallint 7).object, ⟨⟨ids.SMALLINT, 2, .smallint 9⟩, true⟩],
      o.held = true → Described o.data) ↔
      (Construction.smallint 7).Sound ∧ Careful (Construction.smallint 7).object [.assignSmallint 9] :=
  lengths_describe_payloads (.smallint 7) [.assignSmallint 9] _ (Run.next rfl (Run.done _))

/-- A number that is assigned to before it holds a value is announced with length 0. -/
theorem blank_smallint_stays_undescribed : ∃ o, Run (Construction.blankSmallint 0).object
    [.assignSmallint 5] [(Construction.blankSmallint 0).object, o] ∧ o.held = true ∧ ¬ Described o.data := by
  refine ⟨⟨⟨ids.SMALLINT, 0, .smallint 5⟩, true⟩, Run.next rfl (Run.done _), rfl, ?_⟩
  intro described
  have fits := (described_iff (d := ⟨ids.SMALLINT, 0, .smallint 5⟩) ⟨rfl, by decide⟩).mp described
  exact absurd (show 0 = 2 from fits) (by decide)

end Sfsdb.Objects

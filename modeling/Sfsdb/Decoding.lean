import Sfsdb.Screening

/-!
How far `get_type` moves the cursor. The magic byte is looked for where the
length field says that the item ends, but the readers of the numbers and of the
empty type take their own number of bytes, whatever that field says.
-/

namespace Sfsdb.Protocol

open Posix Screening

def Value.id : Value → Nat
  | .invalid => ids.INVALID
  | .header _ => ids.HEADER
  | .error _ => ids.ERROR
  | .smallint _ => ids.SMALLINT
  | .integer _ => ids.INTEGER
  | .string _ => ids.STRING
  | .bigdata => ids.BIGDATA

def Value.size : Value → Option Nat
  | .invalid => some 0
  | .header _ => some 2
  | .error _ => none
  | .smallint _ => some 2
  | .integer _ => some 4
  | .string _ => none
  | .bigdata => some 0

theorem Value.size_of_smallint {value : Value} (small : value.id = ids.SMALLINT) :
    value.size = some 2 := by
  cases value with
  | smallint => rfl
  | _ => cases small

theorem Value.size_of_integer {value : Value} (whole : value.id = ids.INTEGER) :
    value.size = some 4 := by
  cases value with
  | integer => rfl
  | _ => cases whole

structure Data.Checked (d : Data) : Prop where
  own : d.type = d.value.id
  framed : d.type ≠ ids.HEADER ∧ d.type ≠ ids.BIGDATA

def wireLength (m : Mem) (pos : Nat) : Option Nat := (toHostl m (pos + 2)).map Prod.fst

/-- The cursor passed an item of the announced length, up to and with its magic
byte, and a number is announced with the size it is read with. -/
def Consumes (m : Mem) (pos next : Nat) (expected : Data) : Prop :=
  ∃ length, wireLength m pos = some length ∧ next = pos + HEADER_SIZE + length ∧
    m (next - 1) = some MAGIC ∧ (expected.type = ids.SMALLINT → length = 2) ∧
    (expected.type = ids.INTEGER → length = 4)

section Decoder
variable {m : Mem} {pos next : Nat} {expected object : Data} {err : Error}

theorem fromPayload_next {d : Data} {value : Value} (read : d.fromPayload m pos = some (value, next)) :
    next = pos + d.value.size.getD d.length := by
  obtain ⟨type, length, value'⟩ := d
  cases value' with
  | invalid | bigdata =>
      cases read
      rfl
  | header | smallint =>
      simp only [Data.fromPayload, Option.bind_eq_bind, Option.bind_eq_some_iff, Prod.exists] at read
      obtain ⟨val, after, hosts, answer⟩ := read
      cases answer
      exact (toHosts_lt m pos val next hosts).2
  | integer =>
      simp only [Data.fromPayload, Option.bind_eq_bind, Option.bind_eq_some_iff, Prod.exists] at read
      obtain ⟨val, after, hosts, answer⟩ := read
      cases answer
      exact (toHostl_lt m pos val next hosts).2
  | error | string =>
      simp only [Data.fromPayload, Option.bind_eq_bind, Option.bind_eq_some_iff] at read
      obtain ⟨text, bytes, answer⟩ := read
      cases answer
      rfl

theorem fromBytes_accepted (checked : expected.Checked) (wire : wireType m pos = some expected.type)
    (read : expected.fromBytes m pos = some (true, object, next)) :
    ∃ length value last, wireLength m pos = some length ∧ length < 4294967296 ∧
      m (pos + 6 + length) = some MAGIC ∧
      Data.fromPayload ⟨expected.type, length, expected.value⟩ m (pos + 6) = some (value, last) ∧
      object = ⟨expected.type, length, value⟩ ∧ next = last + 1 := by
  obtain ⟨⟨type, after⟩, hosts, rfl⟩ := Option.map_eq_some_iff.mp wire
  obtain rfl := (toHosts_lt m pos _ _ hosts).2
  simp only [Data.fromBytes, hosts, Option.bind_eq_bind, Option.bind_some, Option.bind_eq_some_iff,
    Prod.exists] at read
  obtain ⟨length, after, hostl, read⟩ := read
  obtain ⟨sized, rfl⟩ := toHostl_lt m _ length after hostl
  rw [if_neg (not_or.mpr checked.framed), Option.bind_eq_some_iff] at read
  obtain ⟨probe, found, read⟩ := read
  by_cases magic : probe = MAGIC
  · subst magic
    simp only [ne_eq, not_true_eq_false, ↓reduceIte, Option.bind_eq_some_iff, Prod.exists] at read
    obtain ⟨value, last, payload, answer⟩ := read
    cases answer
    exact ⟨length, value, last, by simp [wireLength, hostl], sized, found, payload, rfl, rfl⟩
  · simp [magic] at read

theorem getType_success (checked : expected.Checked)
    (read : getType m pos expected = some (err, object, next)) (success : err.isError = false) :
    (wireType m pos ≠ some expected.type ∧ object = expected ∧ next = pos) ∨
    (wireType m pos = some expected.type ∧
      ∃ length value last, wireLength m pos = some length ∧ length < 4294967296 ∧
        m (pos + 6 + length) = some MAGIC ∧
        Data.fromPayload ⟨expected.type, length, expected.value⟩ m (pos + 6) = some (value, last) ∧
        object = ⟨expected.type, length, value⟩ ∧ next = last + 1) := by
  -- Success has two reasons: a type of 0, where nothing is read, or an accepted item.
  obtain ⟨found, wire⟩ := getType_wire read
  by_cases same : found = expected.type
  · subst same
    obtain ⟨accepted, parsed, verdict⟩ := getType_same wire read
    have zero : err.no = 0 := by simpa [Error.isError] using success
    rw [verdict.mp zero] at parsed
    exact Or.inr ⟨wire, fromBytes_accepted checked wire parsed⟩
  · rw [getType_other wire same] at read
    cases read
    have other : wireType m pos ≠ some expected.type := by
      rw [wire]
      simpa using same
    exact Or.inl ⟨other, rfl, rfl⟩

end Decoder

/-- A decoder that reports success has consumed the item it validated exactly
where the item is of the expected type and the length of a number, or of the
empty type, is its own. -/
theorem decoders_consume_items (m : Mem) (pos next : Nat) (expected object : Data) (err : Error)
    (checked : expected.Checked) (read : getType m pos expected = some (err, object, next))
    (success : err.isError = false) :
    Consumes m pos next expected ↔ wireType m pos = some expected.type ∧
      ∀ size, expected.value.size = some size → wireLength m pos = some size := by
  rcases getType_success checked read success with
    ⟨other, _, rfl⟩ | ⟨wire, length, value, last, announced, _, probe, payload, _, rfl⟩
  · refine iff_of_false ?_ fun condition => other condition.1
    rintro ⟨length, _, moved, _⟩
    simp only [HEADER_SIZE] at moved
    omega
  · have taken := fromPayload_next payload
    simp only [Consumes, announced, Option.some.injEq, exists_eq_left', wire, true_and, HEADER_SIZE]
    constructor
    · rintro ⟨moved, _⟩ size own
      simp only [own, Option.getD_some] at taken
      omega
    · intro natural
      have whole : last = pos + 6 + length := by
        cases own : expected.value.size with
        | none => simpa only [own, Option.getD_none] using taken
        | some size => simpa only [own, Option.getD_some, ← natural size own] using taken
      subst whole
      refine ⟨by omega, probe, ?_, ?_⟩
      · intro small
        exact natural 2 (Value.size_of_smallint (checked.own.symm.trans small))
      · intro whole
        exact natural 4 (Value.size_of_integer (checked.own.symm.trans whole))

/-- A string of two bytes in a buffer of nine. -/
theorem decoders_consume_items_string :
    Consumes (Mem.ofList (Types.string (ascii "ab")).toBytes) 0 9 (Types.blank (.string [])) ↔
      wireType (Mem.ofList (Types.string (ascii "ab")).toBytes) 0 = some ids.STRING ∧
        ∀ size, (Value.string []).size = some size →
          wireLength (Mem.ofList (Types.string (ascii "ab")).toBytes) 0 = some size :=
  decoders_consume_items _ 0 9 (Types.blank (.string [])) (Types.string (ascii "ab")) (.ofErrno 0)
    ⟨rfl, by decide⟩ (by decide) rfl

/-- Three bytes where a number of two is expected: the magic byte stands behind the
third, and the cursor is left in front of it. -/
theorem long_smallint_is_cut : ∃ (object : Data) (next : Nat),
    getType (Mem.ofList (toNets ids.SMALLINT ++ toNetl 3 ++ [0, 7, 9, MAGIC])) 0 (Types.blank (.smallint 0)) =
      some (.ofErrno 0, object, next) ∧
    ¬ Consumes (Mem.ofList (toNets ids.SMALLINT ++ toNetl 3 ++ [0, 7, 9, MAGIC])) 0 next
      (Types.blank (.smallint 0)) := by
  refine ⟨⟨ids.SMALLINT, 3, .smallint 7⟩, 9, by decide, ?_⟩
  rintro ⟨length, announced, moved, _⟩
  have three : length = 3 := (Option.some.inj announced).symm
  rw [three] at moved
  exact absurd moved (by decide)

end Sfsdb.Protocol

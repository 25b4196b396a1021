import Sfsdb.Posix

/-!
src/uid.cpp. `get` is the text that `snprintf` writes for a 64-bit microsecond
timestamp and six random bytes, which the source reads as integers of a
little-endian host. `Format` is the shape of an identifier; a text of that shape
is a plain file name and fits on one line.
-/

namespace Sfsdb.Uid

open Posix

def SEPARATOR : Byte := 45
def TOTAL_LEN : Nat := 32

def hexDigit (v : Nat) : Byte := if v < 10 then UInt8.ofNat (48 + v) else UInt8.ofNat (87 + v)

/-- `%0<width>x` of a value that fits into the width. -/
def hex : Nat → Nat → Bytes
  | 0, _ => []
  | width + 1, v => hex width (v / 16) ++ [hexDigit (v % 16)]

/-- `generator::get`; the middle two fields are cut to 16 bits before any shift. -/
def get (timestamp : Nat) (r₀ r₁ r₂ r₃ r₄ r₅ : Byte) : Bytes :=
  hex 8 ((timestamp &&& 0x0000ffff) % 4294967296) ++ [SEPARATOR] ++
    hex 4 ((timestamp &&& 0x00ff0000) % 65536) ++ [SEPARATOR] ++
    hex 4 ((timestamp &&& 0xff000000) % 65536) ++ [SEPARATOR] ++
    hex 4 (r₀.toNat + r₁.toNat * 256) ++ [SEPARATOR] ++
    hex 8 (r₂.toNat + r₃.toNat * 256 + r₄.toNat * 65536 + r₅.toNat * 16777216)

def IsHex (b : Byte) : Prop := (48 ≤ b ∧ b ≤ 57) ∨ (97 ≤ b ∧ b ≤ 102)

instance (b : Byte) : Decidable (IsHex b) := inferInstanceAs (Decidable (_ ∨ _))

structure Format (id : Bytes) : Prop where
  length : id.length = TOTAL_LEN
  separators : ∀ i, i = 8 ∨ i = 13 ∨ i = 18 ∨ i = 23 → id[i]? = some SEPARATOR
  digits : ∀ i b, id[i]? = some b → i ≠ 8 ∧ i ≠ 13 ∧ i ≠ 18 ∧ i ≠ 23 → IsHex b

theorem hexDigit_isHex (v : Nat) (small : v < 16) : IsHex (hexDigit v) := by
  have every : ∀ v : Fin 16, IsHex (hexDigit v) := by decide
  exact every ⟨v, small⟩

@[simp] theorem hex_length (width v : Nat) : (hex width v).length = width := by
  induction width generalizing v with
  | zero => rfl
  | succ width ih => simp [hex, ih]

theorem hex_isHex (width v : Nat) : ∀ b ∈ hex width v, IsHex b := by
  induction width generalizing v with
  | zero => simp [hex]
  | succ width ih =>
      intro b member
      rcases List.mem_append.mp member with front | last
      · exact ih _ b front
      · rw [List.mem_singleton.mp last]
        exact hexDigit_isHex _ (Nat.mod_lt _ (by decide))

namespace Format

variable {id : Bytes}

theorem bytes (format : Format id) : ∀ b ∈ id, IsHex b ∨ b = SEPARATOR := by
  intro b member
  obtain ⟨i, inside, same⟩ := List.mem_iff_getElem.mp member
  have at_i : id[i]? = some b := by simp [inside, same]
  by_cases place : i = 8 ∨ i = 13 ∨ i = 18 ∨ i = 23
  · have separator := format.separators i place
    rw [at_i] at separator
    exact Or.inr (Option.some.inj separator)
  · exact Or.inl (format.digits i b at_i (by omega))

theorem free (format : Format id) (b : Byte) (other : ¬ IsHex b ∧ b ≠ SEPARATOR) : b ∉ id := by
  intro member
  rcases format.bytes b member with digit | separator
  · exact other.1 digit
  · exact other.2 separator

theorem plain (format : Format id) : PlainName id := by
  have size : id.length = 32 := format.length
  refine ⟨?_, format.free slash (by decide), format.free 0 (by decide), ?_, ?_⟩
  · rintro rfl
    simp at size
  · rintro rfl
    simp [dot] at size
  · rintro rfl
    simp [dotdot] at size

end Format

def Grouped (start : Nat) (text : Bytes) : Prop :=
  ∀ i b, text[i]? = some b → IsHex b ∨
    (b = SEPARATOR ∧ (start + i = 8 ∨ start + i = 13 ∨ start + i = 18 ∨ start + i = 23))

theorem grouped_append (start : Nat) (left right : Bytes) (front : Grouped start left)
    (back : Grouped (start + left.length) right) : Grouped start (left ++ right) := by
  intro i b found
  rw [List.getElem?_append] at found
  split at found
  · exact front i b found
  · rename_i behind
    rcases back _ b found with digit | ⟨separator, place⟩
    · exact Or.inl digit
    · exact Or.inr ⟨separator, by omega⟩

theorem grouped_hex (start width v : Nat) : Grouped start (hex width v) := by
  intro i b found
  exact Or.inl (hex_isHex width v b (List.mem_of_getElem? found))

theorem grouped_separator (start : Nat)
    (place : start = 8 ∨ start = 13 ∨ start = 18 ∨ start = 23) : Grouped start [SEPARATOR] := by
  intro i b found
  cases i with
  | zero => exact Or.inr ⟨by simpa using found.symm, place⟩
  | succ i => simp at found

theorem get_format (timestamp : Nat) (r₀ r₁ r₂ r₃ r₄ r₅ : Byte) :
    Format (get timestamp r₀ r₁ r₂ r₃ r₄ r₅) := by
  have grouped : Grouped 0 (get timestamp r₀ r₁ r₂ r₃ r₄ r₅) := by
    unfold get
    repeat' with_reducible apply grouped_append
    all_goals with_reducible first
      | exact grouped_hex _ _ _
      | exact grouped_separator _ (by simp)
  refine ⟨by simp [get, TOTAL_LEN], ?_, ?_⟩
  · rintro i (rfl | rfl | rfl | rfl) <;> simp [get]
  · intro i b found place
    rcases grouped i b found with digit | ⟨_, other⟩
    · exact digit
    · omega

end Sfsdb.Uid

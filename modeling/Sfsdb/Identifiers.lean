import Mathlib.Algebra.Group.Nat.Defs
import Sfsdb.Uid

/-!
What an identifier tells of the draw it was made from. The three timestamp
fields that src/uid.hpp names cover all 64 bits, but `get` masks the timestamp
before it narrows it, so of the timestamp only the lowest 16 bits reach the text.
-/

namespace Sfsdb.Uid

open Posix

/-- What one call of `get` reads: the clock in microseconds and six bytes of the device. -/
structure Draw where
  timestamp : UInt64
  r₀ : Byte
  r₁ : Byte
  r₂ : Byte
  r₃ : Byte
  r₄ : Byte
  r₅ : Byte
  deriving DecidableEq

namespace Draw

def rdata (d : Draw) : Bytes := [d.r₀, d.r₁, d.r₂, d.r₃, d.r₄, d.r₅]

def id (d : Draw) : Bytes := get d.timestamp.toNat d.r₀ d.r₁ d.r₂ d.r₃ d.r₄ d.r₅

/-! The fields of the format. -/

def timestampLow (d : Draw) : Nat := d.timestamp.toNat % 4294967296

def timestampMid (d : Draw) : Nat := d.timestamp.toNat / 4294967296 % 65536

def timestampHigh (d : Draw) : Nat := d.timestamp.toNat / 281474976710656

structure SameFields (d e : Draw) : Prop where
  low : d.timestampLow = e.timestampLow
  mid : d.timestampMid = e.timestampMid
  high : d.timestampHigh = e.timestampHigh
  random : d.rdata = e.rdata

/-- Two draws give the same identifier only where all they read is the same. -/
def Separates (d e : Draw) : Prop :=
  (d.id = e.id → SameFields d e ∧ d.timestamp = e.timestamp) ∧
    (d.timestamp ≠ e.timestamp → d.id ≠ e.id)

end Draw

/-! ## Digits -/

theorem hexDigit_injective (v w : Nat) (small : v < 16) (small' : w < 16)
    (same : hexDigit v = hexDigit w) : v = w := by
  have every : ∀ v w : Fin 16, hexDigit v = hexDigit w → v = w := by decide
  exact congrArg Fin.val (every ⟨v, small⟩ ⟨w, small'⟩ same)

theorem hex_eq_iff (width v w : Nat) :
    hex width v = hex width w ↔ v % 16 ^ width = w % 16 ^ width := by
  induction width generalizing v w with
  | zero => simp [hex, Nat.mod_one]
  | succ width ih =>
      have split : ∀ v, v % 16 ^ (width + 1) = v % 16 + 16 * (v / 16 % 16 ^ width) := by
        intro v
        rw [Nat.pow_succ, Nat.mul_comm, Nat.mod_mul]
      have last : ∀ v, v % 16 < 16 := fun v => Nat.mod_lt v (by decide)
      constructor
      · intro same
        obtain ⟨front, digit⟩ := List.append_inj' same rfl
        have unit := hexDigit_injective _ _ (last v) (last w) (by simpa using digit)
        rw [split v, split w, unit, (ih _ _).mp front]
      · intro same
        rw [split v, split w] at same
        have unit : v % 16 = w % 16 := by
          have := last v
          have := last w
          omega
        have front : v / 16 % 16 ^ width = w / 16 % 16 ^ width := by
          omega
        rw [hex, hex, unit, (ih _ _).mpr front]

theorem hex_eq_iff_of_lt {width v w : Nat} (small : v < 16 ^ width) (small' : w < 16 ^ width) :
    hex width v = hex width w ↔ v = w := by
  rw [hex_eq_iff, Nat.mod_eq_of_lt small, Nat.mod_eq_of_lt small']

/-! ## What is left of a timestamp -/

theorem masked_narrowed (timestamp mask : Nat) (above : mask &&& 65535 = 0) :
    (timestamp &&& mask) % 65536 = 0 := by
  -- A mask above the width leaves nothing once it is narrowed.
  have narrow := Nat.and_two_pow_sub_one_eq_mod (timestamp &&& mask) 16
  calc (timestamp &&& mask) % 65536 = timestamp &&& mask &&& 65535 := narrow.symm
    _ = timestamp &&& (mask &&& 65535) := Nat.and_assoc ..
    _ = 0 := by rw [above, Nat.and_zero]

theorem masked_low (timestamp : Nat) : (timestamp &&& 0x0000ffff) % 4294967296 = timestamp % 65536 := by
  have narrow : timestamp &&& 65535 = timestamp % 65536 := Nat.and_two_pow_sub_one_eq_mod timestamp 16
  rw [narrow]
  omega

theorem get_eq (timestamp : Nat) (r₀ r₁ r₂ r₃ r₄ r₅ : Byte) :
    get timestamp r₀ r₁ r₂ r₃ r₄ r₅ =
      hex 8 (timestamp % 65536) ++ [SEPARATOR] ++ hex 4 0 ++ [SEPARATOR] ++ hex 4 0 ++ [SEPARATOR] ++
        hex 4 (r₀.toNat + r₁.toNat * 256) ++ [SEPARATOR] ++
        hex 8 (r₂.toNat + r₃.toNat * 256 + r₄.toNat * 65536 + r₅.toNat * 16777216) := by
  rw [get, masked_low, masked_narrowed timestamp _ (by decide), masked_narrowed timestamp _ (by decide)]

namespace Draw

variable {d e : Draw}

/-- Two draws give the same identifier exactly where the lowest 16 bits of the
clock and all random bytes are the same. -/
theorem id_eq_iff : d.id = e.id ↔
    d.timestamp.toNat % 65536 = e.timestamp.toNat % 65536 ∧ d.rdata = e.rdata := by
  constructor
  · intro same
    rw [id, id, get_eq, get_eq] at same
    obtain ⟨front, last⟩ := List.append_inj' same (by simp)
    obtain ⟨front, _⟩ := List.append_inj' front rfl
    obtain ⟨front, middle⟩ := List.append_inj' front (by simp)
    simp only [List.append_assoc] at front
    obtain ⟨first, _⟩ := List.append_inj front (by simp)
    have byte : ∀ b : Byte, b.toNat < 256 := fun b => b.toNat_lt
    have := byte d.r₀; have := byte d.r₁; have := byte d.r₂
    have := byte d.r₃; have := byte d.r₄; have := byte d.r₅
    have := byte e.r₀; have := byte e.r₁; have := byte e.r₂
    have := byte e.r₃; have := byte e.r₄; have := byte e.r₅
    rw [hex_eq_iff_of_lt (by omega) (by omega)] at first middle last
    refine ⟨first, ?_⟩
    simp only [rdata, List.cons.injEq, and_true, ← UInt8.toNat_inj]
    omega
  · rintro ⟨low, random⟩
    simp only [rdata, List.cons.injEq, and_true] at random
    obtain ⟨same₀, same₁, same₂, same₃, same₄, same₅⟩ := random
    rw [id, id, get_eq, get_eq, low, same₀, same₁, same₂, same₃, same₄, same₅]

theorem timestamp_eq (low : d.timestampLow = e.timestampLow) (mid : d.timestampMid = e.timestampMid)
    (high : d.timestampHigh = e.timestampHigh) : d.timestamp = e.timestamp := by
  unfold timestampLow at low
  unfold timestampMid at mid
  unfold timestampHigh at high
  rw [← UInt64.toNat_inj]
  omega

theorem sameFields_iff : SameFields d e ↔ d.timestamp = e.timestamp ∧ d.rdata = e.rdata := by
  constructor
  · intro same
    exact ⟨timestamp_eq same.low same.mid same.high, same.random⟩
  · rintro ⟨clock, random⟩
    refine ⟨?_, ?_, ?_, random⟩
    · rw [timestampLow, timestampLow, clock]
    · rw [timestampMid, timestampMid, clock]
    · rw [timestampHigh, timestampHigh, clock]

/-- Two draws are told apart unless their clocks differ, but not in the lowest
16 bits, and the device yields the same bytes twice. -/
theorem separates_iff (d e : Draw) : Separates d e ↔
    d.rdata ≠ e.rdata ∨ d.timestamp.toNat % 65536 ≠ e.timestamp.toNat % 65536 ∨
      d.timestamp = e.timestamp := by
  unfold Separates
  rw [sameFields_iff, ne_eq (d.id), id_eq_iff]
  constructor
  · rintro ⟨told, _⟩
    by_contra alike
    obtain ⟨random, low, clock⟩ := not_or.mp alike |>.imp_right not_or.mp
    exact clock (told ⟨not_not.mp low, not_not.mp random⟩).2
  · intro apart
    refine ⟨?_, ?_⟩
    · rintro ⟨low, random⟩
      rcases apart with other | other | clock
      · exact absurd random other
      · exact absurd low other
      · exact ⟨⟨clock, random⟩, clock⟩
    · rintro clock ⟨low, random⟩
      rcases apart with other | other | same
      · exact other random
      · exact other low
      · exact clock same

/-- Two draws 65536 microseconds apart. -/
theorem distant_draws_collide :
    ¬ Separates ⟨1700000000000000, 1, 2, 3, 4, 5, 6⟩ ⟨1700000000065536, 1, 2, 3, 4, 5, 6⟩ := by
  rintro ⟨_, apart⟩
  exact apart (by decide) (id_eq_iff.mpr (by decide))

end Draw
end Sfsdb.Uid

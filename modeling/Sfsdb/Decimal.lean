import Mathlib.Data.List.TakeWhile
import Mathlib.Tactic.Common

/-!
Decimal numerals as byte texts, and what `std::stoi` reads of a text: white space,
a sign and as many digits as follow. It has no result without a digit and
outside the range of `int`.
-/

namespace Sfsdb.Decimal

def digit (n : Nat) : UInt8 := UInt8.ofNat (48 + n)

def decimal (n : Nat) : List UInt8 := (Nat.toDigits 10 n).map fun c => UInt8.ofNat c.toNat

def isDigit (b : UInt8) : Bool := 48 ≤ b && b ≤ 57

def isSpace (b : UInt8) : Bool := b = 32 || (9 ≤ b && b ≤ 13)

def value (digits : List UInt8) : Nat := digits.foldl (fun n b => n * 10 + (b.toNat - 48)) 0

def signed : List UInt8 → Int × List UInt8
  | [] => (1, [])
  | b :: rest => if b = 45 then (-1, rest) else if b = 43 then (1, rest) else (1, b :: rest)

def stoi (text : List UInt8) : Option Int :=
  let (sign, rest) := signed (text.dropWhile isSpace)
  let digits := rest.takeWhile isDigit
  let v := sign * value digits
  if digits = [] then none
  else if -2147483648 ≤ v ∧ v ≤ 2147483647 then some v else none

theorem digit_isDigit (n : Nat) (small : n < 10) : isDigit (digit n) = true := by
  have every : ∀ n : Fin 10, isDigit (digit n) = true := by decide
  exact every ⟨n, small⟩

theorem digit_toNat (n : Nat) (small : n < 10) : (digit n).toNat = 48 + n := by
  have every : ∀ n : Fin 10, (digit n).toNat = 48 + n := by decide
  exact every ⟨n, small⟩

theorem decimal_eq (n : Nat) :
    decimal n = if n < 10 then [digit n] else decimal (n / 10) ++ [digit (n % 10)] := by
  have last : ∀ d, d < 10 → UInt8.ofNat (Nat.digitChar d).toNat = digit d := by
    intro d small
    rw [Nat.toNat_digitChar_of_lt_ten small]
    rfl
  rw [decimal, Nat.toDigits_eq_if (by decide)]
  by_cases small : n < 10
  · simp [small, last n small]
  · simp [small, decimal, last (n % 10) (Nat.mod_lt n (by decide))]

theorem decimal_ne_nil (n : Nat) : decimal n ≠ [] := by
  rw [decimal_eq]
  split <;> simp

theorem decimal_digits (n : Nat) : ∀ b ∈ decimal n, isDigit b = true := by
  induction n using Nat.strong_induction_on with
  | _ n ih =>
      rw [decimal_eq]
      by_cases small : n < 10
      · simp [small, digit_isDigit n small]
      · intro b member
        rw [if_neg small] at member
        rcases List.mem_append.mp member with front | last
        · exact ih (n / 10) (Nat.div_lt_self (by omega) (by decide)) b front
        · rw [List.mem_singleton.mp last]
          exact digit_isDigit _ (Nat.mod_lt n (by decide))

theorem value_append (digits : List UInt8) (b : UInt8) :
    value (digits ++ [b]) = value digits * 10 + (b.toNat - 48) := by
  simp [value]

theorem value_decimal (n : Nat) : value (decimal n) = n := by
  induction n using Nat.strong_induction_on with
  | _ n ih =>
      rw [decimal_eq]
      by_cases small : n < 10
      · rw [if_pos small]
        simp [value, digit_toNat n small]
      · rw [if_neg small, value_append, ih (n / 10) (Nat.div_lt_self (by omega) (by decide)),
          digit_toNat _ (Nat.mod_lt n (by decide))]
        omega

theorem decimal_injective {m n : Nat} (same : decimal m = decimal n) : m = n := by
  rw [← value_decimal m, same, value_decimal]

theorem digit_plain (b : UInt8) (here : isDigit b = true) : isSpace b = false ∧ b ≠ 45 ∧ b ≠ 43 := by
  have range : (48 : UInt8).toNat ≤ b.toNat ∧ b.toNat ≤ (57 : UInt8).toNat := by
    simpa [isDigit, UInt8.le_iff_toNat_le] using here
  constructor
  · have other : b ≠ 32 := by
      rintro rfl
      cases here
    have above : ¬ b.toNat ≤ (13 : UInt8).toNat := fun small => absurd (range.1.trans small) (by decide)
    simpa [isSpace, other, UInt8.le_iff_toNat_le] using fun _ => Nat.lt_of_not_le above
  constructor
  · rintro rfl
    cases here
  · rintro rfl
    cases here

theorem stoi_decimal (n : Nat) (small : n < 2147483648) : stoi (decimal n) = some (n : Int) := by
  have digits := decimal_digits n
  have all : (decimal n).takeWhile isDigit = decimal n := List.takeWhile_eq_self_iff.mpr digits
  have start : signed ((decimal n).dropWhile isSpace) = (1, decimal n) := by
    cases text : decimal n with
    | nil => exact absurd text (decimal_ne_nil n)
    | cons b rest =>
        have plain := digit_plain b (digits b (by simp [text]))
        rw [List.dropWhile_cons_of_neg (by simp [plain.1])]
        simp [signed, plain.2]
  have fits : -2147483648 ≤ (n : Int) ∧ (n : Int) ≤ 2147483647 := by omega
  simp [stoi, start, all, value_decimal, decimal_ne_nil, fits]

end Sfsdb.Decimal

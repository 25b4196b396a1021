import Sfsdb.Posix

/-!
Readable memory seen from the start of a buffer. An offset outside it has no
value, so a reader that leaves the memory has no result; what lies behind a
buffer is a parameter of `followedBy`.
-/

namespace Sfsdb

open Posix

abbrev Mem := Nat → Option Byte

namespace Mem

def ofList (buffer : Bytes) : Mem := fun i => buffer[i]?

/-- A buffer with the memory that lies behind it. -/
def followedBy (buffer : Bytes) (behind : Mem) : Mem := fun i =>
  if i < buffer.length then buffer[i]? else behind (i - buffer.length)

def bytes (m : Mem) (pos : Nat) : Nat → Option Bytes
  | 0 => some []
  | n + 1 => do
      let b ← m pos
      let rest ← bytes m (pos + 1) n
      return b :: rest

/-- The bytes a bounded C string function takes from `pos`: it stops behind the
first NUL, which it reads but does not return, and after `n` bytes. -/
def strn (m : Mem) (pos : Nat) : Nat → Option Bytes
  | 0 => some []
  | n + 1 => do
      let b ← m pos
      if b = 0 then return []
      let rest ← strn m (pos + 1) n
      return b :: rest

/-- `text` stands at `pos`. -/
def Holds (m : Mem) (pos : Nat) (text : Bytes) : Prop :=
  ∀ i, i < text.length → m (pos + i) = text[i]?

theorem holds_nil (m : Mem) (pos : Nat) : m.Holds pos [] := by
  intro i inside
  simp at inside

theorem holds_cons_iff (m : Mem) (pos : Nat) (b : Byte) (text : Bytes) :
    m.Holds pos (b :: text) ↔ m pos = some b ∧ m.Holds (pos + 1) text := by
  constructor
  · intro holds
    refine ⟨by simpa using holds 0 (by simp), ?_⟩
    intro i inside
    have := holds (i + 1) (by simpa using inside)
    simpa [Nat.add_assoc, Nat.add_comm 1] using this
  · rintro ⟨head, tail⟩ i inside
    cases i with
    | zero => simpa using head
    | succ i =>
        have := tail i (by simpa using inside)
        simpa [Nat.add_assoc, Nat.add_comm 1] using this

theorem holds_append_iff (m : Mem) (pos : Nat) (left right : Bytes) :
    m.Holds pos (left ++ right) ↔ m.Holds pos left ∧ m.Holds (pos + left.length) right := by
  induction left generalizing pos with
  | nil => simp [holds_nil]
  | cons b left ih =>
      rw [List.cons_append, holds_cons_iff, holds_cons_iff, ih, and_assoc,
        show pos + 1 + left.length = pos + (b :: left).length by simp; omega]

theorem followedBy_holds (buffer : Bytes) (behind : Mem) :
    (followedBy buffer behind).Holds 0 buffer := by
  intro i inside
  simp [followedBy, inside]

theorem ofList_eq_followedBy (buffer : Bytes) :
    ofList buffer = followedBy buffer fun _ => none := by
  funext i
  by_cases inside : i < buffer.length
  · simp [ofList, followedBy, inside]
  · simp [ofList, followedBy, inside]

theorem ofList_holds (buffer : Bytes) : (ofList buffer).Holds 0 buffer := by
  rw [ofList_eq_followedBy]
  exact followedBy_holds buffer _

theorem bytes_of_holds (m : Mem) (pos : Nat) (text : Bytes) (holds : m.Holds pos text) :
    m.bytes pos text.length = some text := by
  induction text generalizing pos with
  | nil => rfl
  | cons b text ih =>
      obtain ⟨head, tail⟩ := (holds_cons_iff m pos b text).mp holds
      simp [bytes, head, ih _ tail]

theorem bytes_length (m : Mem) (pos n : Nat) (text : Bytes) (read : m.bytes pos n = some text) :
    text.length = n := by
  induction n generalizing pos text with
  | zero =>
      simp only [bytes, Option.some.injEq] at read
      simp [← read]
  | succ n ih =>
      simp only [bytes, Option.bind_eq_bind, Option.bind_eq_some_iff, pure, Option.some.injEq] at read
      obtain ⟨b, _, rest, tail, same⟩ := read
      simp [← same, ih _ _ tail]

theorem holds_of_bytes (m : Mem) (pos n : Nat) (text : Bytes)
    (read : m.bytes pos n = some text) : m.Holds pos text := by
  induction n generalizing pos text with
  | zero =>
      simp only [bytes, Option.some.injEq] at read
      simpa [← read] using holds_nil m pos
  | succ n ih =>
      simp only [bytes, Option.bind_eq_bind, Option.bind_eq_some_iff, pure, Option.some.injEq] at read
      obtain ⟨b, head, rest, tail, same⟩ := read
      rw [← same]
      exact (holds_cons_iff m pos b rest).mpr ⟨head, ih _ _ tail⟩

theorem ofList_bytes_isSome (buffer : Bytes) (pos n : Nat) :
    ((ofList buffer).bytes pos n).isSome ↔ n = 0 ∨ pos + n ≤ buffer.length := by
  induction n generalizing pos with
  | zero => simp [bytes]
  | succ n ih =>
      by_cases inside : pos < buffer.length
      · have head : ofList buffer pos = some buffer[pos] := by simp [ofList, inside]
        have tail := ih (pos + 1)
        simp only [bytes, head, Option.bind_eq_bind, Option.bind_some]
        cases rest : (ofList buffer).bytes (pos + 1) n with
        | none =>
            simp only [rest, Option.isSome_none, Bool.false_eq_true, false_iff] at tail
            simp only [Option.bind_none, Option.isSome_none, Bool.false_eq_true, false_iff]
            omega
        | some text =>
            simp only [rest, Option.isSome_some, true_iff] at tail
            simp only [Option.bind_some, pure, Option.isSome_some, true_iff]
            omega
      · have head : ofList buffer pos = none := by simp [ofList]; omega
        simp only [bytes, head, Option.bind_eq_bind, Option.bind_none, Option.isSome_none,
          Bool.false_eq_true, false_iff]
        omega

/-- A bounded C string read that starts at `limit` or before stays in the memory. -/
def Terminated (m : Mem) (limit : Nat) : Prop :=
  ∀ pos, pos ≤ limit → ∀ n, (m.strn pos n).isSome

theorem total_terminated (buffer : Bytes) (behind : Nat → Byte) (limit : Nat) :
    (followedBy buffer fun i => some (behind i)).Terminated limit := by
  have readable : ∀ pos, ∃ b, followedBy buffer (fun i => some (behind i)) pos = some b := by
    intro pos
    by_cases inside : pos < buffer.length
    · exact ⟨buffer[pos], by simp [followedBy, inside]⟩
    · exact ⟨behind (pos - buffer.length), by simp [followedBy, inside]⟩
  have all : ∀ n pos, (strn (followedBy buffer fun i => some (behind i)) pos n).isSome := by
    intro n
    induction n with
    | zero => exact fun _ => rfl
    | succ n ih =>
        intro pos
        obtain ⟨b, head⟩ := readable pos
        obtain ⟨rest, tail⟩ := Option.isSome_iff_exists.mp (ih (pos + 1))
        by_cases nul : b = 0 <;> simp [strn, head, nul, tail]
  exact fun pos _ n => all n pos

theorem nul_terminated (buffer : Bytes) : (ofList (buffer ++ [0])).Terminated buffer.length := by
  -- A C string's own terminator bounds every read that starts inside it.
  intro pos inside n
  induction n generalizing pos with
  | zero => rfl
  | succ n ih =>
      rcases Nat.lt_or_eq_of_le inside with before | same
      · have head : ofList (buffer ++ [0]) pos = some buffer[pos] := by
          simp [ofList, List.getElem?_append, before]
        obtain ⟨rest, tail⟩ := Option.isSome_iff_exists.mp (ih (pos + 1) before)
        by_cases nul : buffer[pos] = 0 <;> simp [strn, head, nul, tail]
      · have head : ofList (buffer ++ [0]) pos = some 0 := by simp [ofList, same]
        simp [strn, head]

/-- A bounded C string read takes the NUL-free text it starts on, and goes on behind it. -/
theorem strn_append (m : Mem) (pos n : Nat) (text : Bytes) (holds : m.Holds pos text) (free : 0 ∉ text)
    (room : text.length ≤ n) :
    m.strn pos n = (m.strn (pos + text.length) (n - text.length)).map (text ++ ·) := by
  induction text generalizing pos n with
  | nil => simp
  | cons b text ih =>
      obtain ⟨head, tail⟩ := (holds_cons_iff m pos b text).mp holds
      simp only [List.mem_cons, not_or] at free
      cases n with
      | zero => simp at room
      | succ n =>
          have rest := ih (pos + 1) n tail free.2 (by simpa using room)
          have place : pos + 1 + text.length = pos + (text.length + 1) := by omega
          rw [place] at rest
          simp only [strn, head, Option.bind_eq_bind, Option.bind_some, Ne.symm free.1, ↓reduceIte, rest,
            List.length_cons, Nat.add_sub_add_right]
          cases m.strn (pos + (text.length + 1)) (n - text.length) <;> rfl

theorem strn_followedBy (buffer : Bytes) (behind : Mem) (i n : Nat) :
    (followedBy buffer behind).strn (buffer.length + i) n = behind.strn i n := by
  induction n generalizing i with
  | zero => rfl
  | succ n ih =>
      have outside : ¬ buffer.length + i < buffer.length := by omega
      have byte : followedBy buffer behind (buffer.length + i) = behind i := by
        rw [followedBy, if_neg outside, Nat.add_sub_cancel_left]
      have rest := ih (i + 1)
      rw [← Nat.add_assoc] at rest
      simp only [strn, byte, rest]

theorem strn_of_holds (m : Mem) (pos n : Nat) (text result : Bytes) (holds : m.Holds pos text)
    (free : 0 ∉ text) (room : text.length ≤ n) (read : m.strn pos n = some result) :
    ∃ more, result = text ++ more := by
  rw [strn_append m pos n text holds free room, Option.map_eq_some_iff] at read
  rcases read with ⟨more, _, rfl⟩
  exact ⟨more, rfl⟩

theorem strn_succ (m : Mem) (pos n : Nat) (result : Bytes) (read : m.strn pos (n + 1) = some result) :
    result = [] ∨ ∃ b text, b ≠ 0 ∧ m.strn (pos + 1) n = some text ∧ result = b :: text := by
  -- A bounded read stops at a NUL, or takes one byte and goes on behind it.
  simp only [strn, Option.bind_eq_bind, Option.bind_eq_some_iff, pure] at read
  rcases read with ⟨b, _, rest⟩
  by_cases nul : b = 0
  · simp only [nul, ↓reduceIte, Option.some.injEq] at rest
    exact Or.inl rest.symm
  · simp only [nul, ↓reduceIte, Option.bind_eq_some_iff, Option.some.injEq] at rest
    rcases rest with ⟨text, tail, same⟩
    exact Or.inr ⟨b, text, nul, tail, same.symm⟩

theorem strn_length_le (m : Mem) (pos n : Nat) (result : Bytes)
    (read : m.strn pos n = some result) : result.length ≤ n := by
  induction n generalizing pos result with
  | zero =>
      simp only [strn, Option.some.injEq] at read
      simp [← read]
  | succ n ih =>
      rcases strn_succ m pos n result read with rfl | ⟨b, text, _, tail, rfl⟩
      · exact Nat.zero_le _
      · exact Nat.succ_le_succ (ih _ _ tail)

theorem strn_free (m : Mem) (pos n : Nat) (result : Bytes) (read : m.strn pos n = some result) :
    0 ∉ result := by
  induction n generalizing pos result with
  | zero =>
      simp only [strn, Option.some.injEq] at read
      simp [← read]
  | succ n ih =>
      rcases strn_succ m pos n result read with rfl | ⟨b, text, other, tail, rfl⟩
      · exact List.not_mem_nil
      · rw [List.mem_cons, not_or]
        exact ⟨Ne.symm other, ih _ _ tail⟩

theorem strn_of_nul (m : Mem) (pos n : Nat) (text : Bytes) (holds : m.Holds pos (text ++ [0]))
    (free : 0 ∉ text) (room : text.length < n) : m.strn pos n = some text := by
  induction text generalizing pos n with
  | nil =>
      cases n with
      | zero => simp at room
      | succ n => simp [strn, ((holds_cons_iff m pos 0 []).mp holds).1]
  | cons b text ih =>
      rw [List.cons_append, holds_cons_iff] at holds
      obtain ⟨head, tail⟩ := holds
      simp only [List.mem_cons, not_or] at free
      cases n with
      | zero => simp at room
      | succ n =>
          have rest := ih (pos + 1) n tail free.2 (by simpa using room)
          simp [strn, head, Ne.symm free.1, rest]

end Mem
end Sfsdb

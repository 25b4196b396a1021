import Mathlib.Data.List.Perm.Basic
import Sfsdb.Protocol

/-!
`protocol::parse` over a table of any length. The loop looks for the command and
remembers the handler of the `INVALID` entry in one pass. Where the numbers of
the table are distinct, what it selects is told by the entries alone, so their
order is of no account.
-/

namespace Sfsdb.Protocol

universe u

section Tables
variable {H : Type u}

def Distinct (table : List (Nat × Option H)) : Prop := (table.map Prod.fst).Nodup

def Unhandled (table : List (Nat × Option H)) (no : Nat) : Prop := ∀ h, (no, some h) ∉ table

structure Selects (table : List (Nat × Option H)) (command : Nat) (chosen : Option H) : Prop where
  own : ∀ h, (command, some h) ∈ table → chosen = some h
  invalid : Unhandled table command → ∀ h, (INVALID_COMMAND, some h) ∈ table → chosen = some h
  nothing : Unhandled table command → Unhandled table INVALID_COMMAND → chosen = none

/-- `protocol::parse`; `failed` is what the caller makes of -1. -/
def parse {R : Type u} (failed : R) (commands : List (Nat × Option (Data → R))) (head : Data) : R :=
  match select commands head.command with
  | some handler => handler head
  | none => failed

def remembered (invalid : Option H) : List (Nat × Option H) → Option H
  | [] => invalid
  | (no, handler) :: rest => remembered (if no = INVALID_COMMAND then handler else invalid) rest

theorem selectFrom_of_unhandled (table : List (Nat × Option H)) (command : Nat) (invalid : Option H)
    (unhandled : Unhandled table command) :
    selectFrom command invalid table = remembered invalid table := by
  induction table generalizing invalid with
  | nil => rfl
  | cons entry rest ih =>
      rcases entry with ⟨no, handler⟩
      have behind : Unhandled rest command := fun h member =>
        unhandled h (List.mem_cons_of_mem _ member)
      simp only [selectFrom, remembered]
      by_cases own : no = command
      · subst own
        cases handler with
        | none => simpa using ih _ behind
        | some h => exact absurd (List.mem_cons_self ..) (unhandled h)
      · simpa only [own, ↓reduceIte] using ih _ behind

theorem selectFrom_of_mem (table : List (Nat × Option H)) (command : Nat) (invalid : Option H)
    (distinct : Distinct table) (h : H) (member : (command, some h) ∈ table) :
    selectFrom command invalid table = some h := by
  -- An early return: nothing in front of the entry or behind it matters.
  induction table generalizing invalid with
  | nil => cases member
  | cons entry rest ih =>
      rcases entry with ⟨no, handler⟩
      have split := List.nodup_cons.mp distinct
      simp only [selectFrom]
      rcases List.mem_cons.mp member with here | behind
      · cases here
        simp
      · have other : no ≠ command := by
          intro same
          subst same
          exact split.1 (List.mem_map.mpr ⟨_, behind, rfl⟩)
        simpa only [other, ↓reduceIte] using ih _ split.2 behind

theorem remembered_of_absent (table : List (Nat × Option H)) (invalid : Option H)
    (absent : INVALID_COMMAND ∉ table.map Prod.fst) : remembered invalid table = invalid := by
  induction table with
  | nil => rfl
  | cons entry rest ih =>
      have apart := List.ne_and_not_mem_of_not_mem_cons absent
      rw [remembered, if_neg (Ne.symm apart.1), ih apart.2]

theorem remembered_of_mem (table : List (Nat × Option H)) (invalid handler : Option H)
    (distinct : Distinct table) (member : (INVALID_COMMAND, handler) ∈ table) :
    remembered invalid table = handler := by
  induction table generalizing invalid with
  | nil => cases member
  | cons entry rest ih =>
      have split := List.nodup_cons.mp distinct
      rcases List.mem_cons.mp member with here | behind
      · subst here
        rw [remembered, if_pos rfl]
        exact remembered_of_absent rest handler split.1
      · exact ih _ split.2 behind

theorem select_selects (table : List (Nat × Option H)) (distinct : Distinct table) (command : Nat) :
    Selects table command (select table command) := by
  constructor
  · intro h member
    exact selectFrom_of_mem table command none distinct h member
  · intro unhandled h member
    rw [select, selectFrom_of_unhandled table command none unhandled]
    exact remembered_of_mem table none (some h) distinct member
  · intro unhandled noFallback
    rw [select, selectFrom_of_unhandled table command none unhandled]
    by_cases present : INVALID_COMMAND ∈ table.map Prod.fst
    · rcases List.mem_map.mp present with ⟨⟨no, handler⟩, member, rfl⟩
      cases handler with
      | none => exact remembered_of_mem table none none distinct member
      | some h => exact absurd member (noFallback h)
    · exact remembered_of_absent table none present

namespace Selects

variable {table other : List (Nat × Option H)} {command : Nat} {chosen chosen' : Option H}

theorem unique (first : Selects table command chosen) (second : Selects table command chosen') :
    chosen = chosen' := by
  by_cases unhandled : Unhandled table command
  · by_cases noFallback : Unhandled table INVALID_COMMAND
    · rw [first.nothing unhandled noFallback, second.nothing unhandled noFallback]
    · rcases not_forall_not.mp noFallback with ⟨h, member⟩
      rw [first.invalid unhandled h member, second.invalid unhandled h member]
  · rcases not_forall_not.mp unhandled with ⟨h, member⟩
    rw [first.own h member, second.own h member]

theorem perm (selects : Selects table command chosen) (same : table.Perm other) :
    Selects other command chosen := by
  have unhandled : ∀ no, Unhandled other no → Unhandled table no := by
    intro no none h member
    exact none h (same.mem_iff.mp member)
  constructor
  · intro h member
    exact selects.own h (same.mem_iff.mpr member)
  · intro none h member
    exact selects.invalid (unhandled _ none) h (same.mem_iff.mpr member)
  · intro none noFallback
    exact selects.nothing (unhandled _ none) (unhandled _ noFallback)

end Selects
end Tables

/-- Dispatch is told by the entries of the table and not by their order. -/
theorem parse_order_free {R : Type u} (failed : R) (table other : List (Nat × Option (Data → R)))
    (distinct : Distinct table) (same : table.Perm other) (head : Data) :
    Selects table head.command (select table head.command) ∧
      select other head.command = select table head.command ∧
      parse failed other head = parse failed table head := by
  have here := select_selects table distinct head.command
  have there := select_selects other ((same.map Prod.fst).nodup_iff.mp distinct) head.command
  have chosen : select other head.command = select table head.command :=
    there.unique (here.perm same)
  constructor
  · exact here
  constructor
  · exact chosen
  · rw [parse, parse, chosen]

/-- A table with a null handler in which `INVALID` comes last or first. -/
theorem parse_order_free_last_first :
    parse (-1 : Int) [(INVALID_COMMAND, some fun _ => 9), (1, some fun _ => 7), (2, none)]
        (Types.header 1 0) =
      parse (-1 : Int) [(1, some fun _ => 7), (2, none), (INVALID_COMMAND, some fun _ => 9)]
        (Types.header 1 0) :=
  (parse_order_free (-1 : Int) [(1, some fun _ => 7), (2, none), (INVALID_COMMAND, some fun _ => 9)]
    _ (by unfold Distinct; decide)
    (List.perm_append_singleton (INVALID_COMMAND, some fun _ => 9) [(1, some fun _ => 7), (2, none)])
    (Types.header 1 0)).2.2

end Sfsdb.Protocol

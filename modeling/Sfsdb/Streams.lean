import Mathlib.Logic.Function.Basic
import Sfsdb.Guarded

/-!
The objects of `class flstream` in src/flstream.hpp and the descriptor table of
their process. `open` hands out the lowest free number, so numbers come back, and
an object keeps its number when it closes it. Every entry of the table carries the
opening it stems from; an object carries the opening its number was given for,
which moves along with the number. `err` is left out: `close` sets it before it
asks for it. `Except` outcomes of system calls are the Boolean arguments of the
operations.
-/

namespace Sfsdb.Streams

abbrev Opening := Nat

abbrev Table := List (Option Opening)

namespace Table

def entry (table : Table) (n : Nat) : Option Opening := table.getD n none

def lowest (table : Table) : Nat := table.findIdx Option.isNone

def fill (table : Table) (opening : Opening) : Table :=
  if table.lowest < table.length then table.set table.lowest (some opening) else table ++ [some opening]

def free (table : Table) (n : Nat) : Table := table.set n none

end Table

/-- `fd` is `none` for -1; `closed` tells that `close` has closed the number the object still has. -/
structure Stream where
  fd : Option Nat
  own : Option Opening
  closed : Bool
  deriving DecidableEq

namespace Stream

def unopened : Stream := ⟨none, none, false⟩

/-- The entry of the table that a system call on `fd` acts on; there is none where it is refused. -/
def target (st : Stream) (table : Table) : Option Opening := st.fd.bind table.entry

end Stream

inductive CallKind where
  | unlock
  | close
  deriving DecidableEq

/-- A call that an object makes: the opening it acts on and the opening of the object. -/
structure Act where
  kind : CallKind
  target : Option Opening
  own : Option Opening
  deriving DecidableEq

/-- A call acts on nothing, or on what the object has opened. -/
def Act.Right (act : Act) : Prop := ∀ opening, act.target = some opening → act.own = some opening

structure Process where
  table : Table
  objects : Nat → Option Stream
  next : Opening

namespace Process

def put (s : Process) (i : Nat) (st : Stream) : Process :=
  { s with objects := Function.update s.objects i (some st) }

def drop (s : Process) (i : Nat) : Process := { s with objects := Function.update s.objects i none }

end Process

/-! ## The member functions -/

def unlockAct (st : Stream) (table : Table) : Act := ⟨.unlock, st.target table, st.own⟩

/-- `flstream::close`: where the unlock fails nothing is closed. -/
def closeStream (table : Table) (st : Stream) (unlocked : Bool) : Table × Stream × List Act :=
  match st.fd with
  | none => (table, st, [unlockAct st table])
  | some n =>
      if (table.entry n).isSome && unlocked then
        (table.free n, { st with closed := true }, [unlockAct st table, ⟨.close, st.target table, st.own⟩])
      else (table, st, [unlockAct st table])

/-- `flstream::is_open`, which asks for the number only. -/
def isOpen (table : Table) (st : Stream) : Bool := (st.target table).isSome

/-- `fd = ::open(..)` of object `i`. -/
def assignOpened (s : Process) (i : Nat) (opened : Bool) : Process :=
  if opened then
    { table := s.table.fill s.next
      objects := Function.update s.objects i (some ⟨some s.table.lowest, some s.next, false⟩)
      next := s.next + 1 }
  else s.put i .unopened

inductive Op where
  | construct (i : Nat)
  | constructOpen (i : Nat) (opened : Bool)
  | open (i : Nat) (unlocked opened : Bool)
  | lock (i : Nat)
  | unlock (i : Nat)
  | close (i : Nat) (unlocked : Bool)
  | moveConstruct (i j : Nat)
  | moveAssign (i j : Nat) (unlocked : Bool)
  | destroy (i : Nat) (unlocked : Bool)
  deriving DecidableEq

def closeAt (s : Process) (i : Nat) (unlocked : Bool) : Process × List Act :=
  match s.objects i with
  | none => (s, [])
  | some st =>
      let (table, st, acts) := closeStream s.table st unlocked
      ({ s with table := table }.put i st, acts)

/-- `fd = other.fd; other.fd = -1;`. -/
def takeOver (s : Process) (i j : Nat) : Process :=
  match s.objects j with
  | none => s
  | some st => (s.put i st).put j .unopened

/-- Only objects that exist are used, and only new ones constructed; anything else does nothing. -/
def step (s : Process) : Op → Process × List Act
  | .construct i => if (s.objects i).isSome then (s, []) else (s.put i .unopened, [])
  | .constructOpen i opened => if (s.objects i).isSome then (s, []) else (assignOpened s i opened, [])
  | .open i unlocked opened =>
      match s.objects i with
      | none => (s, [])
      | some st =>
          let (s, acts) := if isOpen s.table st then closeAt s i unlocked else (s, [])
          (assignOpened s i opened, acts)
  | .lock _ => (s, [])
  | .unlock i =>
      match s.objects i with
      | none => (s, [])
      | some st => (s, [unlockAct st s.table])
  | .close i unlocked => closeAt s i unlocked
  | .moveConstruct i j =>
      if (s.objects i).isSome || (s.objects j).isNone then (s, [])
      else
        let (s, acts) := closeAt (s.put i .unopened) i true
        (takeOver s i j, acts)
  | .moveAssign i j unlocked =>
      if (s.objects i).isNone then (s, [])
      else
        let (s, acts) := closeAt s i unlocked
        (takeOver s i j, acts)
  | .destroy i unlocked =>
      let (s, acts) := closeAt s i unlocked
      (s.drop i, acts)

/-- The objects whose `fd` an operation may unlock or close. -/
def Op.acting : Op → Option Nat
  | .construct _ | .constructOpen _ _ | .lock _ | .moveConstruct _ _ => none
  | .open i _ _ | .unlock i | .close i _ | .moveAssign i _ _ | .destroy i _ => some i

/-- The operation does not use an object that has closed its number and was not
opened or assigned to since, while that number is in use again. -/
def Careful (s : Process) (op : Op) : Prop :=
  ∀ i st, op.acting = some i → s.objects i = some st → st.closed = true → isOpen s.table st = false

/-! ## The table -/

namespace Table

variable (table : Table)

theorem entry_lowest : table.entry table.lowest = none := by
  rw [entry, List.getD_eq_getElem?_getD]
  by_cases inside : table.lowest < table.length
  · have found : (table[table.lowest]).isNone = true := List.findIdx_getElem (w := inside)
    rw [List.getElem?_eq_getElem inside]
    exact Option.isNone_iff_eq_none.mp found
  · rw [List.getElem?_eq_none (Nat.le_of_not_lt inside)]
    rfl

theorem entry_fill (opening : Opening) (n : Nat) :
    (table.fill opening).entry n = if n = table.lowest then some opening else table.entry n := by
  have bound : table.lowest ≤ table.length := List.findIdx_le_length
  unfold fill entry
  split
  · rename_i inside
    rw [List.getD_eq_getElem?_getD, List.getElem?_set, List.getD_eq_getElem?_getD]
    by_cases same : n = table.lowest
    · subst same
      simp [inside]
    · simp [same, Ne.symm same]
  · rename_i outside
    have full : table.lowest = table.length := by omega
    rw [List.getD_eq_getElem?_getD, List.getElem?_append, List.getD_eq_getElem?_getD, full]
    by_cases same : n = table.length
    · simp [same]
    · by_cases inside : n < table.length
      · simp [same, inside]
      · have beyond : n - table.length ≠ 0 := by omega
        simp [same, inside, beyond]

theorem entry_free (n m : Nat) : (table.free n).entry m = if m = n then none else table.entry m := by
  unfold free entry
  rw [List.getD_eq_getElem?_getD, List.getElem?_set, List.getD_eq_getElem?_getD]
  by_cases same : m = n
  · subst same
    by_cases inside : m < table.length <;> simp [inside]
  · simp [same, Ne.symm same]

end Table

/-! ## The invariant -/

def Placed (table : Table) (st : Stream) : Prop :=
  ∀ n, st.fd = some n → ∃ opening, st.own = some opening ∧
    if st.closed then table.entry n ≠ some opening else table.entry n = some opening

structure Inv (s : Process) : Prop where
  fresh : ∀ n opening, s.table.entry n = some opening → opening < s.next
  known : ∀ i st opening, s.objects i = some st → st.own = some opening → opening < s.next
  apart : ∀ i j st st' opening, s.objects i = some st → s.objects j = some st' →
    st.own = some opening → st'.own = some opening → i = j
  placed : ∀ i st, s.objects i = some st → Placed s.table st

theorem placed_unopened (table : Table) : Placed table .unopened := by
  intro n found
  cases found

theorem act_right_iff {table : Table} {st : Stream} (placed : Placed table st) (kind : CallKind) :
    (⟨kind, st.target table, st.own⟩ : Act).Right ↔ (st.closed = true → isOpen table st = false) := by
  cases number : st.fd with
  | none => simp [Act.Right, isOpen, Stream.target, number]
  | some n =>
      rcases placed n number with ⟨opening, own, here⟩
      cases closed : st.closed with
      | false =>
          simp only [closed, Bool.false_eq_true, ↓reduceIte] at here
          simp [Act.Right, Stream.target, number, own, here]
      | true =>
          simp only [closed, ↓reduceIte] at here
          simp only [Act.Right, isOpen, Stream.target, number, own, Option.bind_some, forall_const,
            Option.isSome_eq_false_iff, Option.isNone_iff_eq_none]
          constructor
          · intro right
            by_contra other
            rcases Option.ne_none_iff_exists'.mp other with ⟨found, entry⟩
            have same := right found entry
            exact here (entry.trans same.symm)
          · intro none found entry
            rw [none] at entry
            cases entry

theorem closeStream_cases (table : Table) (st : Stream) (unlocked : Bool) :
    ((closeStream table st unlocked).1 = table ∧ (closeStream table st unlocked).2.1 = st) ∨
      ∃ n, st.fd = some n ∧ (table.entry n).isSome = true ∧
        (closeStream table st unlocked).1 = table.free n ∧
        (closeStream table st unlocked).2.1 = { st with closed := true } := by
  unfold closeStream
  split
  · exact Or.inl ⟨rfl, rfl⟩
  · rename_i n number
    split
    · rename_i closes
      exact Or.inr ⟨n, number, (Bool.and_eq_true_iff.mp closes).1, rfl, rfl⟩
    · exact Or.inl ⟨rfl, rfl⟩

theorem closeStream_right_iff {table : Table} {st : Stream} (placed : Placed table st) (unlocked : Bool) :
    (∀ act ∈ (closeStream table st unlocked).2.2, act.Right) ↔
      (st.closed = true → isOpen table st = false) := by
  have unlock := act_right_iff placed .unlock
  have close := act_right_iff placed .close
  unfold closeStream
  split
  · simpa [unlockAct] using unlock
  · split
    · simp only [unlockAct, List.forall_mem_cons, List.not_mem_nil, false_implies, implies_true, and_true]
      rw [unlock, close, and_self_iff]
    · simpa [unlockAct] using unlock

/-! ## What keeps it -/

namespace Inv

variable {s : Process} {i : Nat} {st : Stream}

theorem put (inv : Inv s) (known : ∀ opening, st.own = some opening → opening < s.next)
    (apart : ∀ j st' opening, j ≠ i → s.objects j = some st' → st.own = some opening →
      st'.own ≠ some opening) (placed : Placed s.table st) : Inv (s.put i st) := by
  constructor
  · exact inv.fresh
  · intro j st' opening found own
    by_cases same : j = i
    · subst same
      simp only [Process.put, Function.update_self, Option.some.injEq] at found
      exact known opening (found ▸ own)
    · simp only [Process.put, Function.update_of_ne same] at found
      exact inv.known j st' opening found own
  · intro j j' st' st'' opening found found' own own'
    by_cases same : j = i
    · by_cases same' : j' = i
      · rw [same, same']
      · subst same
        simp only [Process.put, Function.update_self, Function.update_of_ne same', Option.some.injEq]
          at found found'
        exact absurd own' (apart j' st'' opening same' found' (found ▸ own))
    · by_cases same' : j' = i
      · subst same'
        simp only [Process.put, Function.update_self, Function.update_of_ne same, Option.some.injEq]
          at found found'
        exact absurd own (apart j st' opening same found (found' ▸ own'))
      · simp only [Process.put, Function.update_of_ne same, Function.update_of_ne same'] at found found'
        exact inv.apart j j' st' st'' opening found found' own own'
  · intro j st' found
    by_cases same : j = i
    · subst same
      simp only [Process.put, Function.update_self, Option.some.injEq] at found
      exact found ▸ placed
    · simp only [Process.put, Function.update_of_ne same] at found
      exact inv.placed j st' found

theorem putUnopened (inv : Inv s) (i : Nat) : Inv (s.put i .unopened) := by
  apply inv.put
  · intro opening own
    cases own
  · intro j st' opening _ _ own
    cases own
  · exact placed_unopened s.table

theorem drop (inv : Inv s) (i : Nat) : Inv (s.drop i) := by
  have left : ∀ j st, (s.drop i).objects j = some st → s.objects j = some st := by
    intro j st found
    by_cases same : j = i
    · simp [Process.drop, same] at found
    · simpa [Process.drop, same] using found
  exact ⟨inv.fresh, fun j st opening found => inv.known j st opening (left j st found),
    fun j j' st st' opening found found' => inv.apart j j' st st' opening (left j st found) (left j' st' found'),
    fun j st found => inv.placed j st (left j st found)⟩

theorem grow (inv : Inv s) : Inv { s with table := s.table.fill s.next, next := s.next + 1 } := by
  -- A new opening takes a number that is free, which no object has open.
  constructor
  · intro n opening found
    simp only [Table.entry_fill] at found
    split at found
    · cases found
      exact Nat.lt_succ_self _
    · exact Nat.lt_succ_of_lt (inv.fresh n opening found)
  · intro j st opening found own
    exact Nat.lt_succ_of_lt (inv.known j st opening found own)
  · exact inv.apart
  · intro j st found n number
    rcases inv.placed j st found n number with ⟨opening, own, here⟩
    have old := inv.known j st opening found own
    refine ⟨opening, own, ?_⟩
    simp only [Table.entry_fill]
    by_cases lowest : n = s.table.lowest
    · have other : s.next ≠ opening := Ne.symm (Nat.ne_of_lt old)
      cases closed : st.closed with
      | true => simp [lowest, other]
      | false =>
          simp only [closed, Bool.false_eq_true, ↓reduceIte, lowest, Table.entry_lowest] at here
          cases here
    · simpa [lowest] using here

theorem assignOpened (inv : Inv s) (i : Nat) (opened : Bool) : Inv (assignOpened s i opened) := by
  cases opened with
  | false => exact inv.putUnopened i
  | true =>
      apply inv.grow.put
      · intro opening own
        cases own
        exact Nat.lt_succ_self _
      · intro j st' opening _ found own own'
        cases own
        exact Nat.lt_irrefl _ (inv.known j st' s.next found own')
      · intro n number
        cases number
        exact ⟨s.next, rfl, by simp [Table.entry_fill]⟩

theorem free (inv : Inv s) (n : Nat)
    (unused : ∀ j st, s.objects j = some st → st.closed = false → st.fd ≠ some n) :
    Inv { s with table := s.table.free n } := by
  constructor
  · intro m opening found
    simp only [Table.entry_free] at found
    split at found
    · cases found
    · exact inv.fresh m opening found
  · exact inv.known
  · exact inv.apart
  · intro j st found m number
    rcases inv.placed j st found m number with ⟨opening, own, here⟩
    refine ⟨opening, own, ?_⟩
    simp only [Table.entry_free]
    cases closed : st.closed with
    | true =>
        simp only [closed, ↓reduceIte] at here ⊢
        split
        · simp
        · exact here
    | false =>
        have other : m ≠ n := by
          rintro rfl
          exact unused j st found closed number
        simpa [closed, other] using here

theorem close (inv : Inv s) {n : Nat} (found : s.objects i = some st) (number : st.fd = some n)
    (unclosed : st.closed = false) :
    Inv ({ s with table := s.table.free n }.put i { st with closed := true }) := by
  rcases inv.placed i st found n number with ⟨opening, own, here⟩
  rw [unclosed] at here
  have others : ∀ j st', (s.drop i).objects j = some st' → j ≠ i ∧ s.objects j = some st' := by
    intro j st' found'
    by_cases same : j = i
    · simp [Process.drop, same] at found'
    · exact ⟨same, by simpa [Process.drop, same] using found'⟩
  have freed : Inv { s.drop i with table := s.table.free n } := by
    apply (inv.drop i).free n
    intro j st' found' unclosed' number'
    rcases others j st' found' with ⟨other, found'⟩
    rcases inv.placed j st' found' n number' with ⟨opening', own', here'⟩
    rw [unclosed'] at here'
    have same : opening' = opening := Option.some.inj (here'.symm.trans here)
    exact other (inv.apart j i st' st opening found' found (same ▸ own') own)
  have whole : { s with table := s.table.free n }.put i { st with closed := true } =
      { s.drop i with table := s.table.free n }.put i { st with closed := true } := by
    simp [Process.put, Process.drop]
  rw [whole]
  apply freed.put
  · intro opening own
    exact inv.known i st opening found own
  · intro j st' opening _ found' own own'
    rcases others j st' found' with ⟨other, found'⟩
    exact other (inv.apart j i st' st opening found' found own' own)
  · intro m number'
    have same : m = n := Option.some.inj (number'.symm.trans number)
    exact ⟨opening, own, by simp [Table.entry_free, same]⟩

theorem takeOver (inv : Inv s) (i j : Nat) : Inv (takeOver s i j) := by
  -- `fd`, and with it the opening, goes over to the other object.
  unfold Streams.takeOver
  cases found : s.objects j with
  | none => exact inv
  | some st =>
      by_cases same : i = j
      · subst same
        have whole : (s.put i st).put i .unopened = s.put i .unopened := by
          simp [Process.put]
        simp only [whole]
        exact inv.putUnopened i
      · have whole : (s.put i st).put j .unopened = (s.put j .unopened).put i st := by
          simp only [Process.put]
          rw [Function.update_comm same]
        simp only [whole]
        apply (inv.putUnopened j).put
        · intro opening own
          exact inv.known j st opening found own
        · intro j' st' opening other found' own own'
          by_cases moved : j' = j
          · subst moved
            simp only [Process.put, Function.update_self, Option.some.injEq] at found'
            subst found'
            cases own'
          · simp only [Process.put, Function.update_of_ne moved] at found'
            exact moved (inv.apart j' j st' st opening found' found own' own)
        · exact inv.placed j st found

theorem closeAt (inv : Inv s) (i : Nat) (unlocked : Bool)
    (careful : ∀ st, s.objects i = some st → st.closed = true → isOpen s.table st = false) :
    Inv (closeAt s i unlocked).1 := by
  cases found : s.objects i with
  | none =>
      simp only [Streams.closeAt, found]
      exact inv
  | some st =>
      have result : (Streams.closeAt s i unlocked).1 =
          { s with table := (closeStream s.table st unlocked).1 }.put i
            (closeStream s.table st unlocked).2.1 := by
        simp only [Streams.closeAt, found]
      rw [result]
      rcases closeStream_cases s.table st unlocked with ⟨table, same⟩ | ⟨n, number, inUse, table, closed⟩
      · have unchanged : s.put i st = s := by
          simp [Process.put, ← found]
        rw [table, same]
        exact unchanged.symm ▸ inv
      · have unclosed : st.closed = false := by
          by_contra closed
          have refused := careful st found (by simpa using closed)
          rw [isOpen, Stream.target, number, Option.bind_some, inUse] at refused
          cases refused
        rw [table, closed]
        exact inv.close found number unclosed

end Inv

/-! ## Steps and runs -/

section Steps
variable {s : Process}

/-- The object has not closed its number, or nothing else is open under it. -/
def Sound (s : Process) (i : Nat) : Prop :=
  ∀ st, s.objects i = some st → st.closed = true → isOpen s.table st = false

theorem careful_iff {op : Op} {i : Nat} (acting : op.acting = some i) : Careful s op ↔ Sound s i := by
  constructor
  · intro careful st
    exact careful i st acting
  · intro sound j st acting'
    cases acting.symm.trans acting'
    exact sound st

theorem careful_of_none {op : Op} (acting : op.acting = none) : Careful s op := by
  intro i st acting'
  cases acting.symm.trans acting'

theorem closeAt_right_iff (inv : Inv s) (i : Nat) (unlocked : Bool) :
    (∀ act ∈ (closeAt s i unlocked).2, act.Right) ↔ Sound s i := by
  cases found : s.objects i with
  | none => simp [closeAt, Sound, found]
  | some st =>
      have acts : (closeAt s i unlocked).2 = (closeStream s.table st unlocked).2.2 := by
        simp only [closeAt, found]
      rw [acts, closeStream_right_iff (inv.placed i st found)]
      simp [Sound, found]

theorem sound_unopened (s : Process) (i : Nat) : Sound (s.put i .unopened) i := by
  intro st found closed
  simp only [Process.put, Function.update_self, Option.some.injEq] at found
  subst found
  cases closed

theorem sound_of_dead {i : Nat} (dead : s.objects i = none) : Sound s i := by
  intro st found
  cases dead.symm.trans found

theorem step_right_iff (inv : Inv s) (op : Op) :
    (∀ act ∈ (step s op).2, act.Right) ↔ Careful s op := by
  cases op with
  | construct i =>
      refine iff_of_true ?_ (careful_of_none rfl)
      simp only [step]
      split <;> simp
  | constructOpen i opened =>
      refine iff_of_true ?_ (careful_of_none rfl)
      simp only [step]
      split <;> simp
  | lock i => exact iff_of_true (by simp [step]) (careful_of_none rfl)
  | «open» i unlocked opened =>
      rw [careful_iff rfl]
      cases found : s.objects i with
      | none => exact iff_of_true (by simp [step, found]) (sound_of_dead found)
      | some st =>
          simp only [step, found]
          cases inUse : isOpen s.table st with
          | false =>
              refine iff_of_true (by simp) ?_
              intro st' found' _
              cases found.symm.trans found'
              exact inUse
          | true => exact closeAt_right_iff inv i unlocked
  | unlock i =>
      rw [careful_iff rfl]
      cases found : s.objects i with
      | none => exact iff_of_true (by simp [step, found]) (sound_of_dead found)
      | some st =>
          have one := act_right_iff (inv.placed i st found) .unlock
          simpa [step, found, Sound, unlockAct] using one
  | close i unlocked =>
      rw [careful_iff rfl]
      exact closeAt_right_iff inv i unlocked
  | moveConstruct i j =>
      refine iff_of_true ?_ (careful_of_none rfl)
      simp only [step]
      split
      · simp
      · exact (closeAt_right_iff (inv.putUnopened i) i true).mpr (sound_unopened s i)
  | moveAssign i j unlocked =>
      rw [careful_iff rfl]
      simp only [step]
      split
      · rename_i dead
        exact iff_of_true (by simp) (sound_of_dead (Option.isNone_iff_eq_none.mp dead))
      · exact closeAt_right_iff inv i unlocked
  | destroy i unlocked =>
      rw [careful_iff rfl]
      exact closeAt_right_iff inv i unlocked

theorem step_inv (inv : Inv s) (op : Op) (careful : Careful s op) : Inv (step s op).1 := by
  cases op with
  | construct i =>
      simp only [step]
      split
      · exact inv
      · exact inv.putUnopened i
  | constructOpen i opened =>
      simp only [step]
      split
      · exact inv
      · exact inv.assignOpened i opened
  | lock i => exact inv
  | «open» i unlocked opened =>
      have sound := (careful_iff rfl).mp careful
      simp only [step]
      split
      · exact inv
      · split
        · exact (inv.closeAt i unlocked sound).assignOpened i opened
        · exact inv.assignOpened i opened
  | unlock i =>
      simp only [step]
      split <;> exact inv
  | close i unlocked => exact inv.closeAt i unlocked ((careful_iff rfl).mp careful)
  | moveConstruct i j =>
      simp only [step]
      split
      · exact inv
      · exact ((inv.putUnopened i).closeAt i true (sound_unopened s i)).takeOver i j
  | moveAssign i j unlocked =>
      have sound := (careful_iff rfl).mp careful
      simp only [step]
      split
      · exact inv
      · exact (inv.closeAt i unlocked sound).takeOver i j
  | destroy i unlocked => exact (inv.closeAt i unlocked ((careful_iff rfl).mp careful)).drop i

end Steps

def start (inUse : List Bool) : Process where
  table := inUse.map fun used => if used then some 0 else none
  objects := fun _ => none
  next := 1

theorem start_inv (inUse : List Bool) : Inv (start inUse) := by
  constructor
  · intro n opening found
    have member : some opening ∈ (start inUse).table := by
      rw [Table.entry, List.getD_eq_getElem?_getD] at found
      cases entry : (start inUse).table[n]? with
      | none => simp [entry] at found
      | some e =>
          rw [entry, Option.getD_some] at found
          rw [found] at entry
          exact List.mem_of_getElem? entry
    rcases List.mem_map.mp member with ⟨used, _, same⟩
    cases used <;> simp at same
    exact same ▸ Nat.one_pos
  · intro i st opening found
    cases found
  · intro i j st st' opening found
    cases found
  · intro i st found
    cases found

/-- In every sequence of operations, all closes and unlocks are on what the object
itself has opened, or refused, exactly where no operation uses an object whose
number it has closed and another one has been given since. -/
theorem acts_are_own_iff (inUse : List Bool) (ops : List Op) :
    (∀ act ∈ Guarded.acts step (start inUse) ops, act.Right) ↔
      Guarded.Throughout step Careful (start inUse) ops :=
  Guarded.acts_iff (fun _ op inv => step_right_iff inv op) (fun _ op inv => step_inv inv op) ops
    (start inUse) (start_inv inUse)

/-- A stream is closed, a second one is opened and gets its number, and the
destructor of the first closes it. -/
theorem closed_stream_closes_another :
    Guarded.acts step (start [true, true, true])
        [.constructOpen 0 true, .close 0 true, .constructOpen 1 true, .destroy 0 true] =
      [⟨.unlock, some 1, some 1⟩, ⟨.close, some 1, some 1⟩, ⟨.unlock, some 2, some 1⟩, ⟨.close, some 2, some 1⟩] ∧
    ¬ ∀ act ∈ Guarded.acts step (start [true, true, true])
        [.constructOpen 0 true, .close 0 true, .constructOpen 1 true, .destroy 0 true], act.Right := by
  constructor
  · decide
  · intro right
    have last := right ⟨.close, some 2, some 1⟩ (by decide) 2 rfl
    cases last

end Sfsdb.Streams

import Sfsdb.Refinement

/-!
Laws of the operations of a volume. In every volume that stores and removals of
fresh ids lead to, a removal takes back the store of its id, and operations on
different ids may change places. On maps these are laws of lists; the volume
inherits them, because its files are determined by the map they stand for.
-/

namespace Sfsdb.Volume

open Posix Storage

/-! ## Of maps -/

namespace Map

variable {m : Map} {e e' : Entry}

theorem erase_add (fresh : m.lookup e.id = none) : (m.add e).erase e.id = m := by
  have others : m.erase e.id = m := by
    rw [erase, List.filter_eq_self]
    intro entry member
    simpa using lookup_eq_none_iff.mp fresh entry member
  have gone : ([e] : Map).filter (·.id ≠ e.id) = [] := by simp
  rw [add, erase, List.filter_append, gone, List.append_nil]
  exact others

theorem erase_add_other {id : Bytes} (other : e.id ≠ id) : (m.add e).erase id = (m.erase id).add e := by
  simp [add, erase, other]

theorem erase_comm (m : Map) (id id' : Bytes) : (m.erase id).erase id' = (m.erase id').erase id := by
  simp only [erase, List.filter_filter]
  apply List.filter_congr
  intro e _
  rw [Bool.and_comm]

theorem contents_add_add (distinct : e.id ≠ e'.id) (names : e.name ≠ e'.name)
    (fresh : m.lookup e.id = none) (fresh' : m.lookup e'.id = none) :
    ((m.add e).add e').contents = ((m.add e').add e).contents := by
  -- The two maps differ in the order of their entries, but no index lists both.
  have entries : ∀ x, ((m.add e).add e').lookup x = ((m.add e').add e).lookup x := by
    intro x
    have one : (m.add e).lookup e'.id = none := by
      rw [lookup_add_other distinct.symm, fresh']
    have two : (m.add e').lookup e.id = none := by
      rw [lookup_add_other distinct, fresh]
    by_cases first : x = e.id
    · subst first
      rw [lookup_add_other distinct, lookup_add_self fresh, lookup_add_self two]
    · by_cases second : x = e'.id
      · subst second
        rw [lookup_add_self one, lookup_add_other distinct.symm, lookup_add_self fresh']
      · rw [lookup_add_other second, lookup_add_other first, lookup_add_other first, lookup_add_other second]
  have lists : ∀ name, ((m.add e).add e').named name = ((m.add e').add e).named name := by
    intro name
    rw [named_add, named_add, named_add, named_add]
    by_cases first : e.name = name
    · have second : e'.name ≠ name := fun same => names (first.trans same.symm)
      simp [first, second]
    · simp [first]
  funext d x
  cases d with
  | byId | data => simp only [contents, entries]
  | byName => simp only [contents, lists]

end Map

/-! ## Reachable volumes -/

/-- Plain names of one line, and ids of the generator that no object has. -/
def Op.Fresh (k : Kernel) : Op → Prop
  | .store name _ => (PlainName name ∧ SEPARATOR ∉ name) ∧ Uid.Format (k.source k.drawn) ∧
      record k.files .byId (k.source k.drawn) = none
  | .remove id => PlainName id

section Reachable
variable {p q : Pid} {k k' k₀ : Kernel} {m m' : Map} {a b : Op}

theorem Represents.fresh_iff (represents : Represents k (m, k.drawn)) (id : Bytes) :
    record k.files .byId id = none ↔ m.lookup id = none := by
  rw [represents.records]
  exact Option.map_eq_none_iff

theorem Represents.admissible (represents : Represents k (m, k.drawn)) (fresh : a.Fresh k) :
    a.Admissible k.source (m, k.drawn) := by
  cases a with
  | store name data => exact ⟨fresh.1, fresh.2.1, (represents.fresh_iff _).mp fresh.2.2⟩
  | remove id => exact fresh

theorem Represents.op (represents : Represents k (m, k.drawn)) (fresh : a.Fresh k) :
    ∃ k', Gives p a.run k (a.answer k.source (m, k.drawn)) k' ∧
      Represents k' ((a.apply k.source (m, k.drawn)).1, k'.drawn) ∧
      k'.drawn = (a.apply k.source (m, k.drawn)).2 ∧ k'.source = k.source := by
  obtain ⟨k', run, represents', source⟩ := op_refines (p := p) represents (represents.admissible fresh)
  have drawn := represents'.drawn
  refine ⟨k', gives_of_runs run, ?_, drawn, source⟩
  rw [drawn]
  exact represents'

theorem represents_new (ready : Ready k₀) (empty : record k₀.files = fun _ _ => none) :
    Represents k₀ ([], k₀.drawn) := by
  refine ⟨ready, ?_, rfl, Map.Proper.empty⟩
  rw [empty]
  funext d x
  cases d <;> rfl

theorem represents_reached (ready : Ready k₀) (empty : record k₀.files = fun _ _ => none)
    (reached : ReachedBy (fun k op => op.Fresh k) k₀ k) : ∃ m, Represents k (m, k.drawn) := by
  -- By induction over the operations.
  induction reached with
  | start => exact ⟨[], represents_new ready empty⟩
  | next _ fresh run ih =>
      rename_i p op _ k _ _
      obtain ⟨m, represents⟩ := ih
      obtain ⟨k₁, gives, represents₁, _⟩ := represents.op (p := p) fresh
      obtain ⟨_, rfl⟩ := (gives _ _).mp run
      exact ⟨_, represents₁⟩

theorem gives_store {name data : Bytes} {r : Except Error Bytes}
    (gives : Gives p (Op.store name data).run k (.stored r) k') : Gives p (store name data) k r k' := by
  obtain ⟨_, _, run, final⟩ := Program.runs_bind_split ((gives _ _).mpr ⟨rfl, rfl⟩)
  cases final
  exact gives_of_runs run

theorem gives_remove {id : Bytes} {r : Option (Except Error Unit)}
    (gives : Gives p (Op.remove id).run k (.removed r) k') : Gives p (remove id) k r k' := by
  obtain ⟨_, _, run, final⟩ := Program.runs_bind_split ((gives _ _).mpr ⟨rfl, rfl⟩)
  cases final
  exact gives_of_runs run

end Reachable

/-! ## Of volumes -/

section Laws
variable {p q : Pid} {k k' k₀ : Kernel} {m : Map}

/-- Storing under a fresh id and removing that id restores the three directories. -/
theorem remove_undoes_store (p q : Pid) (k₀ k : Kernel) (name data : Bytes) (ready : Ready k₀)
    (empty : record k₀.files = fun _ _ => none)
    (reached : ReachedBy (fun k op => op.Fresh k) k₀ k) (fresh : (Op.store name data).Fresh k) :
    ∃ k₁ k₂, Gives p (store name data) k (.ok (k.source k.drawn)) k₁ ∧
      Gives q (remove (k.source k.drawn)) k₁ (some (.ok ())) k₂ ∧
      record k₂.files = record k.files := by
  obtain ⟨m, represents⟩ := represents_reached ready empty reached
  have unused : m.lookup (k.source k.drawn) = none := (represents.fresh_iff _).mp fresh.2.2
  obtain ⟨k₁, stores, represents₁, _⟩ := represents.op (p := p) fresh
  obtain ⟨k₂, removes, represents₂, _⟩ :=
    represents₁.op (p := q) (a := .remove (k.source k.drawn)) fresh.2.1.plain
  have there : ((m.add ⟨k.source k.drawn, name, data⟩).lookup (k.source k.drawn)).isSome := by
    rw [Map.lookup_add_self (e := ⟨k.source k.drawn, name, data⟩) unused]
    rfl
  simp only [Op.answer, Op.apply, there, ↓reduceIte] at removes represents₂
  refine ⟨k₁, k₂, gives_store stores, gives_remove removes, ?_⟩
  rw [represents₂.records, represents.records,
    Map.erase_add (e := ⟨k.source k.drawn, name, data⟩) unused]

/-- Both orders of two operations give the same answers and leave the same
files. They start in states that differ in the ids to be drawn at most. -/
def Exchange (p q : Pid) (a b : Op) (k k' : Kernel) : Prop :=
  ∃ x y k₁ k₂ k₁' k₂', Gives p a.run k x k₁ ∧ Gives q b.run k₁ y k₂ ∧
    Gives q b.run k' y k₁' ∧ Gives p a.run k₁' x k₂' ∧ record k₂.files = record k₂'.files

/-- Maps decide it: both orders must be allowed, answer alike and end in the same contents. -/
theorem Represents.exchange {a b : Op} (represents : Represents k (m, k.drawn))
    (represents' : Represents k' (m, k'.drawn)) (first : a.Fresh k)
    (second : b.Admissible k.source (a.apply k.source (m, k.drawn)))
    (first' : b.Fresh k') (second' : a.Admissible k'.source (b.apply k'.source (m, k'.drawn)))
    (alike : a.answer k.source (m, k.drawn) = a.answer k'.source (b.apply k'.source (m, k'.drawn)))
    (alike' : b.answer k.source (a.apply k.source (m, k.drawn)) = b.answer k'.source (m, k'.drawn))
    (same : (b.apply k.source (a.apply k.source (m, k.drawn))).1.contents =
      (a.apply k'.source (b.apply k'.source (m, k'.drawn))).1.contents) :
    Exchange p q a b k k' := by
  obtain ⟨k₁, run₁, after₁, source₁⟩ := op_refines (p := p) represents (represents.admissible first)
  obtain ⟨k₂, run₂, after₂, _⟩ := op_refines (p := q) after₁ (by rw [source₁]; exact second)
  obtain ⟨k₁', run₁', after₁', source₁'⟩ :=
    op_refines (p := q) represents' (represents'.admissible first')
  obtain ⟨k₂', run₂', after₂', _⟩ := op_refines (p := p) after₁' (by rw [source₁']; exact second')
  rw [source₁] at run₂ after₂
  rw [source₁', ← alike] at run₂'
  rw [source₁'] at after₂'
  rw [← alike'] at run₁'
  refine ⟨_, _, k₁, k₂, k₁', k₂', gives_of_runs run₁, gives_of_runs run₂, gives_of_runs run₁',
    gives_of_runs run₂', ?_⟩
  rw [after₂.records, after₂'.records, same]

theorem removes_exchange {i j : Bytes} (represents : Represents k (m, k.drawn)) (plain : PlainName i)
    (plain' : PlainName j) (apart : i ≠ j) : Exchange p q (.remove i) (.remove j) k k := by
  refine represents.exchange represents plain plain' plain' plain ?_ ?_ ?_
  · simp only [Op.answer, Op.apply, Map.lookup_erase_other apart]
  · simp only [Op.answer, Op.apply, Map.lookup_erase_other apart.symm]
  · simp only [Op.apply, Map.erase_comm m i j]

theorem remove_store_exchange {i name data : Bytes} (represents : Represents k (m, k.drawn))
    (plain : PlainName i) (fresh : (Op.store name data).Fresh k) (apart : i ≠ k.source k.drawn) :
    Exchange p q (.remove i) (.store name data) k k := by
  have unused : m.lookup (k.source k.drawn) = none := (represents.fresh_iff _).mp fresh.2.2
  refine represents.exchange represents plain ⟨fresh.1, fresh.2.1, ?_⟩ fresh plain ?_ rfl ?_
  · rw [Map.lookup_erase_other apart.symm, unused]
  · simp only [Op.answer, Op.apply,
      Map.lookup_add_other (m := m) (e := ⟨k.source k.drawn, name, data⟩) apart]
  · simp only [Op.apply,
      Map.erase_add_other (m := m) (e := ⟨k.source k.drawn, name, data⟩) apart.symm]

theorem stores_exchange {name name' data data' : Bytes} {source : Nat → Bytes}
    (represents : Represents k (m, k.drawn)) (names : name ≠ name')
    (distinct : k.source k.drawn ≠ k.source (k.drawn + 1)) (fresh : (Op.store name data).Fresh k)
    (fresh' : (Op.store name' data').Fresh { k with source := source })
    (now : source k.drawn = k.source (k.drawn + 1)) (later : source (k.drawn + 1) = k.source k.drawn) :
    Exchange p q (.store name data) (.store name' data') k { k with source := source } := by
  -- Two stores with fixed ids: in the second order the generator yields them the other way round.
  have represents' : Represents { k with source := source } (m, k.drawn) :=
    ⟨⟨represents.ready.sane, represents.ready.unlocked⟩, represents.records, represents.drawn,
      represents.proper⟩
  have format' : Uid.Format (k.source (k.drawn + 1)) := now ▸ fresh'.2.1
  have unused : m.lookup (k.source k.drawn) = none := (represents.fresh_iff _).mp fresh.2.2
  have unused' : m.lookup (k.source (k.drawn + 1)) = none := by
    rw [← now]
    exact (represents'.fresh_iff _).mp fresh'.2.2
  refine represents.exchange represents' fresh ⟨fresh'.1, format', ?_⟩ fresh' ⟨fresh.1, ?_, ?_⟩ ?_ ?_ ?_
  · rw [Map.lookup_add_other distinct.symm, unused']
  · change Uid.Format (source (k.drawn + 1))
    rw [later]
    exact fresh.2.1
  · change (m.add ⟨source k.drawn, name', data'⟩).lookup (source (k.drawn + 1)) = none
    rw [now, later, Map.lookup_add_other distinct, unused]
  · simp only [Op.answer, Op.apply, later]
  · simp only [Op.answer, Op.apply, now]
  · simp only [Op.apply, now, later]
    exact Map.contents_add_add (e := ⟨k.source k.drawn, name, data⟩) distinct names unused unused'

/-- In every volume that fresh stores and removals lead to, two removals, a
removal and a store, and two stores under different names change places as
long as their ids differ. -/
theorem operations_commute (p q : Pid) (k₀ k : Kernel) (ready : Ready k₀)
    (empty : record k₀.files = fun _ _ => none)
    (reached : ReachedBy (fun k op => op.Fresh k) k₀ k) :
    (∀ i j, PlainName i → PlainName j → i ≠ j → Exchange p q (.remove i) (.remove j) k k) ∧
    (∀ i name data, PlainName i → (Op.store name data).Fresh k → i ≠ k.source k.drawn →
      Exchange p q (.remove i) (.store name data) k k) ∧
    (∀ name data name' data' source, name ≠ name' → k.source k.drawn ≠ k.source (k.drawn + 1) →
      source k.drawn = k.source (k.drawn + 1) → source (k.drawn + 1) = k.source k.drawn →
      (Op.store name data).Fresh k → (Op.store name' data').Fresh { k with source := source } →
      Exchange p q (.store name data) (.store name' data') k { k with source := source }) := by
  obtain ⟨m, represents⟩ := represents_reached ready empty reached
  refine ⟨?_, ?_, ?_⟩
  · intro i j plain plain' apart
    exact removes_exchange represents plain plain' apart
  · intro i name data plain fresh apart
    exact remove_store_exchange represents plain fresh apart
  · intro name data name' data' source names distinct now later fresh fresh'
    exact stores_exchange represents names distinct fresh fresh' now later

end Laws

/-! ## A volume with one file -/

theorem one_file : ∃ k, ReachedBy (fun k op => op.Fresh k) (initKernel tick) k ∧
    k.source = tick ∧ k.drawn = 1 ∧ ∀ n, n ≠ 0 → n < 3 → record k.files .byId (tick n) = none := by
  have ready := initKernel_ready tick
  have empty := initKernel_empty tick
  have fresh : (Op.store (ascii "a") [1]).Fresh (initKernel tick) :=
    ⟨by decide, Uid.get_format 0 0 0 0 0 0 0, by rw [empty]⟩
  obtain ⟨k, gives, represents, drawn, source⟩ := (represents_new ready empty).op (p := 1) fresh
  refine ⟨k, ReachedBy.start.next fresh ((gives _ _).mpr ⟨rfl, rfl⟩), source, drawn, fun n some small => ?_⟩
  rw [represents.fresh_iff]
  have ids : ∀ n : Fin 3, n ≠ 0 → Map.lookup [⟨tick 0, ascii "a", [1]⟩] (tick n) = none := by decide
  exact ids ⟨n, small⟩ fun zero => some (congrArg Fin.val zero)

/-- A second file under its name comes and goes. -/
theorem remove_undoes_store_second : ∃ k k₁ k₂ : Kernel,
    Gives 1 (store (ascii "a") [2]) k (.ok (tick 1)) k₁ ∧
      Gives 2 (remove (tick 1)) k₁ (some (.ok ())) k₂ ∧ record k₂.files = record k.files := by
  obtain ⟨k, reached, source, drawn, unused⟩ := one_file
  have next : k.source k.drawn = tick 1 := by rw [source, drawn]
  have fresh : (Op.store (ascii "a") [2]).Fresh k := by
    refine ⟨by decide, ?_, ?_⟩ <;> rw [next]
    · exact Uid.get_format 1 0 0 0 0 0 0
    · exact unused 1 (by decide) (by decide)
  obtain ⟨k₁, k₂, stores, removes, same⟩ := remove_undoes_store 1 2 (initKernel tick) k (ascii "a") [2]
    (initKernel_ready tick) (initKernel_empty tick) reached fresh
  rw [next] at stores removes
  exact ⟨k, k₁, k₂, stores, removes, same⟩

/-- Its removal changes places with a store under the same name. -/
theorem operations_commute_second : ∃ k : Kernel,
    Exchange 1 2 (.remove (tick 0)) (.remove (tick 1)) k k ∧
    Exchange 1 2 (.remove (tick 0)) (.store (ascii "a") [2]) k k ∧
    Exchange 1 2 (.store (ascii "a") [2]) (.store (ascii "b") [3]) k
      { k with source := fun n => tick (3 - n) } := by
  obtain ⟨k, reached, source, drawn, unused⟩ := one_file
  have format : ∀ n, Uid.Format (tick n) := fun n => Uid.get_format n 0 0 0 0 0 0
  have next : k.source k.drawn = tick 1 := by rw [source, drawn]
  have after : k.source (k.drawn + 1) = tick 2 := by rw [source, drawn]
  have fresh : (Op.store (ascii "a") [2]).Fresh k := by
    refine ⟨by decide, ?_, ?_⟩ <;> rw [next]
    · exact format 1
    · exact unused 1 (by decide) (by decide)
  have fresh' : (Op.store (ascii "b") [3]).Fresh { k with source := fun n => tick (3 - n) } := by
    refine ⟨by decide, format _, ?_⟩
    rw [drawn]
    exact unused 2 (by decide) (by decide)
  obtain ⟨removes, removeStore, stores⟩ := operations_commute 1 2 (initKernel tick) k
    (initKernel_ready tick) (initKernel_empty tick) reached
  refine ⟨k, removes _ _ (format 0).plain (format 1).plain (by decide), ?_, ?_⟩
  · exact removeStore _ _ _ (format 0).plain fresh (by rw [next]; decide)
  · refine stores _ _ _ _ _ (by decide) (by rw [next, after]; decide) ?_ ?_ fresh fresh'
    · rw [after, drawn]
    · rw [next, drawn]

end Sfsdb.Volume

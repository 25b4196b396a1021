import Sfsdb.AnyPath
import Sfsdb.Collisions

/-!
What becomes of the name a file is stored under. The index is the directory entry
of that name, but the record of the id holds it as a line, and what is read back
of it is the first line. The two agree on every legal name of one line; a name
may have more than one.
-/

namespace Sfsdb.FileNames

open Posix Storage Volume Collisions

def Legal (k : Kernel) : Op → Prop
  | .store name _ => PlainName name ∧ Uid.Format (k.source k.drawn)
  | .remove id => PlainName id

def Leaves (id : Bytes) (k : Kernel) : Op → Prop
  | .store _ _ => k.source k.drawn ≠ id
  | .remove gone => gone ≠ id

/-- The answer and the files of a removal by `id` that takes the id out of the
index of `name`, which goes with its last line, and out of no other. -/
def Unlists (q : Pid) (k : Kernel) (id name : Bytes) : Prop :=
  ∃ lines k', record k.files .byName name = some (Records.render SEPARATOR lines) ∧
    (∀ line ∈ lines, SEPARATOR ∉ line) ∧ id ∈ lines ∧ Gives q (remove id) k (some (.ok ())) k' ∧
    record k'.files .byName name = (if lines.filter (· ≠ id) = [] then none
      else some (Records.render SEPARATOR (lines.filter (· ≠ id)))) ∧
    ∀ other, other ≠ name → record k'.files .byName other = record k.files .byName other

/-- Once it is stored, and whatever is done with other ids afterwards, the id
gives back the name and can be removed. -/
def KeepsName (k : Kernel) (name data : Bytes) : Prop :=
  ∀ p id k₁, Gives p (store name data) k (.ok id) k₁ →
    ∀ k₂, ReachedBy (fun k op => Legal k op ∧ Leaves id k op) k₁ k₂ → ∀ q,
      (∃ object k', Gives q (getId id) k₂ (.ok object) k' ∧ object.name = name) ∧ Unlists q k₂ id name

/-! ## Contents -/

structure Lined (r : Contents) : Prop where
  recorded : ∀ x text, r .byId x = some text → slash ∉ text
  ended : ∀ x text, r .byName x = some text → Ended text

structure Filed (r : Contents) (id name : Bytes) : Prop where
  recorded : r .byId id = some (name ++ [SEPARATOR])
  listed : ∃ text, r .byName name = some text ∧ id ∈ Records.split SEPARATOR text

section Contents
variable {r : Contents} {id name file data text y : Bytes}

theorem Lined.stored (lined : Lined r) (plain : PlainName name) :
    Lined (stored name name id data r) := by
  refine ⟨fun x text holds => ?_, fun x text holds => ?_⟩
  · by_cases own : x = id
    · obtain rfl : name ++ [SEPARATOR] = text := by simpa [own] using holds
      rw [List.mem_append, not_or]
      exact ⟨plain.2.1, by decide⟩
    · exact lined.recorded x text (by simpa [own] using holds)
  · by_cases own : x = name
    · obtain rfl : (r .byName name).getD [] ++ (id ++ [SEPARATOR]) = text := by
        simpa [own] using holds
      exact ended_line _ id
    · exact lined.ended x text (by simpa [own] using holds)

theorem Lined.dropped (lined : Lined r) : Lined (put .data y none (put .byId y none r)) := by
  refine ⟨fun x text holds => ?_, fun x text holds => ?_⟩
  · by_cases own : x = y
    · simp [put, own] at holds
    · exact lined.recorded x text (by simpa [put, own] using holds)
  · exact lined.ended x text (by simpa [put] using holds)

theorem Lined.removed (lined : Lined r) : Lined (removed file y id text r) := by
  refine ⟨fun x bytes holds => ?_, fun x bytes holds => ?_⟩
  · rw [removed_byId] at holds
    split at holds
    · cases holds
    · exact lined.recorded x bytes holds
  · by_cases own : x = file
    · subst own
      by_cases none_left : unlisted id text = []
      · simp [Volume.removed, none_left] at holds
      · obtain rfl : Records.render SEPARATOR (unlisted id text) = bytes := by
          simpa [Volume.removed, none_left] using holds
        exact ended_rewritten id text
    · exact lined.ended x bytes (by simpa [own] using holds)

theorem ended_index (ended : ∀ text, r .byName name = some text → Ended text) :
    Ended ((r .byName name).getD []) := by
  cases holds : r .byName name with
  | none => exact Or.inl rfl
  | some text => exact ended text holds

theorem Lined.split_stored (lined : Lined r) (free : SEPARATOR ∉ id) :
    Records.split SEPARATOR ((r .byName name).getD [] ++ (id ++ [SEPARATOR])) =
      Records.split SEPARATOR ((r .byName name).getD []) ++ [id] :=
  split_line (ended_index (lined.ended name)) free

theorem filed_stored (lined : Lined r) (free : SEPARATOR ∉ id) :
    Filed (stored name name id data r) id name := by
  refine ⟨by simp, (r .byName name).getD [] ++ (id ++ [SEPARATOR]), by simp, ?_⟩
  rw [lined.split_stored free]
  exact List.mem_append_right _ (List.mem_singleton_self id)

theorem Filed.stored {id' name' : Bytes} (filed : Filed r id name) (lined : Lined r)
    (free : SEPARATOR ∉ id') (other : id' ≠ id) : Filed (stored name' name' id' data r) id name := by
  obtain ⟨text, holds, listed⟩ := filed.listed
  refine ⟨by simpa [other.symm] using filed.recorded, ?_⟩
  by_cases own : name = name'
  · subst own
    refine ⟨(r .byName name).getD [] ++ (id' ++ [SEPARATOR]), by simp, ?_⟩
    rw [lined.split_stored free, holds]
    exact List.mem_append_left _ listed
  · exact ⟨text, by simpa [own] using holds, listed⟩

theorem Filed.dropped (filed : Filed r id name) (other : y ≠ id) :
    Filed (put .data y none (put .byId y none r)) id name :=
  ⟨by simpa [put, other.symm] using filed.recorded, by simpa [put] using filed.listed⟩

theorem Filed.removed {gone : Bytes} (filed : Filed r id name) (held : r .byName file = some text)
    (other : gone ≠ id) : Filed (removed file gone gone text r) id name := by
  refine ⟨by simpa [other.symm] using filed.recorded, ?_⟩
  obtain ⟨bytes, holds, listed⟩ := filed.listed
  by_cases own : name = file
  · subst own
    obtain rfl : text = bytes := Option.some.inj (held.symm.trans holds)
    have left : id ∈ unlisted gone text := (mem_unlisted gone text id).mpr ⟨listed, other.symm⟩
    refine ⟨Records.render SEPARATOR (unlisted gone text), ?_, ?_⟩
    · rw [removed_byName, if_pos rfl, if_neg (List.ne_nil_of_mem left)]
    · rw [split_unlisted]
      exact left
  · exact ⟨bytes, by simpa [own] using holds, listed⟩

end Contents

/-! ## Operations -/

structure Usable (k : Kernel) : Prop where
  ready : Ready k
  lined : Lined (record k.files)

section Operations
variable {p q : Pid} {k k' k₀ : Kernel} {op : Op} {answer : Answer} {id name data : Bytes}

theorem Usable.store (usable : Usable k) (legal : Legal k (.store name data)) :
    ∃ k', Gives p (store name data) k (.ok (k.source k.drawn)) k' ∧ Usable k' ∧
      record k'.files = stored name name (k.source k.drawn) data (record k.files) := by
  obtain ⟨k', run, change⟩ :=
    store_runs (p := p) usable.ready data (Names.of_plain legal.1) rfl legal.2.plain
  refine ⟨k', gives_of_runs run, ⟨change.ready, ?_⟩, change.turns.records⟩
  rw [change.turns.records]
  exact usable.lined.stored legal.1

theorem Usable.remove (usable : Usable k) (plain : PlainName id) :
    ∃ r k', Gives p (remove id) k r k' ∧ Usable k' ∧
      (record k'.files = record k.files ∨
        record k'.files = put .data id none (put .byId id none (record k.files)) ∨
        ∃ file text, SEPARATOR ∉ file ∧ record k.files .byName file = some text ∧
          record k'.files = removed file id id text (record k.files)) := by
  have names := Names.of_plain plain
  cases holds : record k.files .byId id with
  | none => exact ⟨_, k, gives_of_runs (remove_missing usable.ready names holds), usable, Or.inl rfl⟩
  | some text =>
      obtain ⟨k₁, found, change⟩ := byId_found (p := p) usable.ready names holds
      have free : slash ∉ cstr (Records.first SEPARATOR text) := by
        intro member
        exact usable.lined.recorded id text holds
          (Records.first_subset SEPARATOR text _ (Records.first_subset 0 _ _ member))
      obtain ⟨r, k', now, gone, change', outcome⟩ := removeObject_outcome (p := p) change.ready
        ⟨id, Records.first SEPARATOR text, DATA_DIR ++ id⟩ names free
      rw [change.turns.records] at outcome
      have gives : Gives p (Volume.remove id) k r k' := gives_of_runs (found.bind gone)
      refine ⟨r, k', gives, ⟨change'.ready, ?_⟩, Or.inr ?_⟩
      · rw [change'.turns.records]
        rcases outcome with rfl | ⟨file, bytes, _, _, rfl⟩
        · exact usable.lined.dropped
        · exact usable.lined.removed
      · rw [change'.turns.records]
        rcases outcome with dropped | ⟨file, bytes, namesFile, held, gone⟩
        · exact Or.inl dropped
        · have line : SEPARATOR ∉ file := by
            rw [← namesFile.cut]
            exact fun member => Records.first_free SEPARATOR text (Records.first_subset 0 _ _ member)
          exact Or.inr ⟨file, bytes, line, held, gone⟩

theorem Usable.next (usable : Usable k) (legal : Legal k op) (run : Runs p op.run k answer k') :
    Usable k' ∧ ∀ id name, Leaves id k op → Filed (record k.files) id name →
      Filed (record k'.files) id name := by
  cases op with
  | store name' data =>
      obtain ⟨_, k₁, stores, final⟩ := Program.runs_bind_split run
      cases final
      obtain ⟨_, gives, usable', records⟩ := usable.store (p := p) legal
      obtain ⟨_, rfl⟩ := (gives _ _).mp stores
      refine ⟨usable', fun id name other filed => ?_⟩
      rw [records]
      exact filed.stored usable.lined (legal.2.free SEPARATOR (by decide)) other
  | remove gone =>
      obtain ⟨_, k₁, removes, final⟩ := Program.runs_bind_split run
      cases final
      obtain ⟨_, _, gives, usable', outcome⟩ := usable.remove (p := p) legal
      obtain ⟨_, rfl⟩ := (gives _ _).mp removes
      refine ⟨usable', fun id name other filed => ?_⟩
      rcases outcome with same | dropped | ⟨file, text, _, held, removed⟩
      · rwa [same]
      · rw [dropped]
        exact filed.dropped other
      · rw [removed]
        exact filed.removed held other

theorem usable_reached (usable : Usable k₀) (reached : ReachedBy Legal k₀ k) : Usable k := by
  -- By induction over the operations.
  induction reached with
  | start => exact usable
  | next _ legal run ih => exact (ih.next legal run).1

theorem filed_reached (usable : Usable k₀) (filed : Filed (record k₀.files) id name)
    (reached : ReachedBy (fun k op => Legal k op ∧ Leaves id k op) k₀ k) :
    Usable k ∧ Filed (record k.files) id name := by
  induction reached with
  | start => exact ⟨usable, filed⟩
  | next _ allowed run ih =>
      obtain ⟨usable', kept⟩ := ih.1.next allowed.1 run
      exact ⟨usable', kept id name allowed.2 ih.2⟩

theorem usable_new (ready : Ready k) (empty : record k.files = fun _ _ => none) : Usable k := by
  refine ⟨ready, fun x text holds => ?_, fun x text holds => ?_⟩ <;>
  · rw [empty] at holds
    cases holds

theorem Usable.unlists (usable : Usable k) (filed : Filed (record k.files) id name)
    (plainId : PlainName id) (plain : PlainName name) (line : SEPARATOR ∉ name) : Unlists q k id name := by
  -- Where the name is one line, the removal finds the index it was stored under.
  obtain ⟨text, holds, listed⟩ := filed.listed
  have first := Records.first_append SEPARATOR name [] line
  obtain ⟨k', run, change⟩ := remove_runs (p := q) usable.ready (Names.of_plain plainId) filed.recorded
    (by rw [first]; exact Names.of_plain plain) holds
  have whole := Records.render_split SEPARATOR text
  rw [if_pos (show text = [] ∨ _ from usable.lined.ended name text holds)] at whole
  refine ⟨Records.split SEPARATOR text, k', by rw [whole, holds], Records.split_free SEPARATOR text, listed,
    gives_of_runs run, ?_, fun other apart => ?_⟩
  · rw [change.turns.records, removed, put_self]
    rfl
  · rw [change.turns.records]
    simp [apart]

theorem getId_first (ready : Ready k) (filed : Filed (record k.files) id name) (plainId : PlainName id) :
    ∃ object k', Gives q (getId id) k (.ok object) k' ∧ object.name = Records.first SEPARATOR name := by
  obtain ⟨k', run, _⟩ := getId_found (p := q) ready (Names.of_plain plainId) filed.recorded
  exact ⟨_, k', gives_of_runs run, Records.first_line SEPARATOR name⟩

theorem line_of_keeps (usable : Usable k) (legal : Legal k (.store name data))
    (keeps : KeepsName k name data) : SEPARATOR ∉ name := by
  obtain ⟨k₁, stores, usable₁, records⟩ := usable.store (p := 0) legal
  have filed : Filed (record k₁.files) (k.source k.drawn) name :=
    records ▸ filed_stored usable.lined (legal.2.free SEPARATOR (by decide))
  obtain ⟨⟨object, k', gives, same⟩, _⟩ := keeps 0 _ k₁ stores k₁ ReachedBy.start 0
  obtain ⟨object', k'', gives', first⟩ := getId_first (q := 0) usable₁.ready filed legal.2.plain
  obtain ⟨agree, _⟩ := (gives' _ _).mp ((gives _ _).mpr ⟨rfl, rfl⟩)
  cases agree
  rw [← same, first]
  exact Records.first_free SEPARATOR name

end Operations

/-- In every volume that stores under legal names and removals lead to, a file
stored under a legal name keeps its name exactly where the name is one line. -/
theorem names_are_kept (k₀ k : Kernel) (name data : Bytes) (ready : Ready k₀)
    (empty : record k₀.files = fun _ _ => none) (reached : ReachedBy Legal k₀ k)
    (legal : Legal k (.store name data)) : KeepsName k name data ↔ SEPARATOR ∉ name := by
  have usable := usable_reached (usable_new ready empty) reached
  constructor
  · exact line_of_keeps usable legal
  · intro line p id k₁ stores k₂ later q
    obtain ⟨k₁', stores', usable₁, records⟩ := usable.store (p := p) legal
    obtain ⟨same, rfl⟩ := (stores _ _).mp ((stores' _ _).mpr ⟨rfl, rfl⟩)
    obtain rfl : k.source k.drawn = id := Except.ok.inj same
    have filed : Filed (record k₁'.files) (k.source k.drawn) name :=
      records ▸ filed_stored usable.lined (legal.2.free SEPARATOR (by decide))
    obtain ⟨usable₂, filed₂⟩ := filed_reached usable₁ filed later
    obtain ⟨object, k', gives, first⟩ := getId_first (q := q) usable₂.ready filed₂ legal.2.plain
    exact ⟨⟨object, k', gives, first.trans (Records.first_of_free SEPARATOR name line)⟩,
      usable₂.unlists filed₂ legal.2.plain legal.1 line⟩

/-- A volume in which nothing was stored. -/
theorem names_are_kept_first :
    KeepsName (initKernel tick) (ascii "a") [1] ↔ SEPARATOR ∉ ascii "a" :=
  names_are_kept (initKernel tick) (initKernel tick) (ascii "a") [1] (initKernel_ready tick)
    (initKernel_empty tick) ReachedBy.start ⟨by decide, Uid.get_format 0 0 0 0 0 0 0⟩

/-- A name of two lines gives back the first. -/
theorem two_lines_are_cut : Legal (initKernel tick) (.store (ascii "a\nb") [1]) ∧
    ¬ KeepsName (initKernel tick) (ascii "a\nb") [1] := by
  have legal : Legal (initKernel tick) (.store (ascii "a\nb") [1]) :=
    ⟨by decide, Uid.get_format 0 0 0 0 0 0 0⟩
  refine ⟨legal, fun keeps => ?_⟩
  have line := line_of_keeps (usable_new (initKernel_ready tick) (initKernel_empty tick)) legal keeps
  exact absurd line (by decide)

end Sfsdb.FileNames

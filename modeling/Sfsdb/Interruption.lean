import Sfsdb.Failures
import Sfsdb.Refinement

/-!
A serving process that is told to exit does so between any two of its calls, and
the kernel then closes its descriptors and gives back its locks. What that does
to the files stored besides the one in hand is found at every point an operation
can reach. A removal has nothing of its index left on disk while it writes it
again, so the other ids listed there are lost with it.
-/

namespace Sfsdb.Volume

open Posix Storage

def exit (k : Kernel) (p : Pid) : Kernel :=
  { k with
    desc := fun fd => (k.desc fd).filter fun d => d.pid ≠ p
    locks := fun i => (k.locks i).filter fun held => held.1 ≠ p
    maps := fun map => (k.maps map).filter fun m => m.pid ≠ p }

/-- The entry is found by its id and under its name, and its data are there. -/
structure Survives (k : Kernel) (e : Entry) : Prop where
  found : ∀ q, ∃ k', Gives q (getId e.id) k (.ok e.object) k'
  listed : ∀ q, ∃ ids k', Gives q (getName e.name) k (.ok ids) k' ∧ e.id ∈ ids
  data : record k.files .data e.id = some e.data

namespace Op

/-- Names to be stored under are plain and of one line, ids to be removed plain. -/
def Plain : Op → Prop
  | .store name _ => PlainName name ∧ SEPARATOR ∉ name
  | .remove id => PlainName id

def target (k : Kernel) : Op → Bytes
  | .store _ _ => k.source k.drawn
  | .remove id => id

/-- Wherever `p` is told to exit in the middle of the operation, all other entries survive. -/
def LosesNothing (op : Op) (p : Pid) (k : Kernel) : Prop :=
  ∀ point k', Program.Reaches (Kernel.Does p) op.run k point k' →
    ∀ e, Survives k e → e.id ≠ op.target k → Survives (exit k' p) e

/-- Nothing else is stored under the name that the operation takes an id out of. -/
def Lonely (k : Kernel) : Op → Prop
  | .store _ _ => True
  | .remove id => ∀ e, Survives k e → e.id = id →
      ∀ other, Survives k other → other.name = e.name → other.id = id

end Op

/-! ## States between operations -/

section Between
variable {p : Pid} {k : Kernel} {s : Shelf} {e : Entry} {op : Op}

theorem survives_of_files (ready : Ready k) (plainId : PlainName e.id)
    (plain : PlainName e.name ∧ SEPARATOR ∉ e.name) {ids : List Bytes} {rest : Bytes}
    (holds : record k.files .byId e.id = some (e.name ++ [SEPARATOR]))
    (index : record k.files .byName e.name = some (Records.render SEPARATOR ids ++ rest))
    (lines : ∀ id ∈ ids, SEPARATOR ∉ id) (member : e.id ∈ ids)
    (data : record k.files .data e.id = some e.data) : Survives k e := by
  refine ⟨fun q => ?_, fun q => ?_, data⟩
  · -- the record is one line, the name
    have line := Records.first_append SEPARATOR e.name [] plain.2
    obtain ⟨k', run, _⟩ := getId_found (p := q) ready (Names.of_plain plainId) holds
    rw [line] at run
    exact ⟨k', gives_of_runs run⟩
  · obtain ⟨k', run, _⟩ := byName_found (p := q) ready (Names.of_plain plain.1) index
    refine ⟨_, k', gives_of_runs run, ?_⟩
    rw [Records.split_render_append SEPARATOR ids rest lines]
    exact List.mem_append_left _ member

theorem Stands.survives_iff (stands : Stands k s) :
    Survives k e ↔ s.object e.id = some (e.name, e.data) := by
  constructor
  · intro survives
    -- the data tell which entry of the shelf it is, the record its name
    have data := survives.data
    rw [stands.record_data] at data
    obtain ⟨held, found, same⟩ := Option.map_eq_some_iff.mp data
    have holds : record k.files .byId e.id = some (held.1 ++ [SEPARATOR]) := by
      simp [stands.record_byId, found]
    obtain ⟨k₁, run, _⟩ := getId_found (p := 0) stands.ready
      (Names.of_plain (stands.proper.ids e.id held found)) holds
    obtain ⟨k₂, gives⟩ := survives.found 0
    obtain ⟨object, _⟩ := (gives _ _).mp run
    rw [stands.first_line found] at object
    have name : held.1 = e.name := by
      simpa [Entry.object] using object
    rw [found, ← name, ← same]
  · intro found
    refine @survives_of_files k e stands.ready (stands.proper.ids _ _ found)
      (stands.proper.names _ _ found) (s.lists e.name) [] ?_ ?_ (stands.proper.lines e.name)
      (stands.proper.listed _ _ found) ?_
    · simp [stands.record_byId, found]
    · simpa using stands.record_byName found
    · simp [stands.record_data, found]

theorem op_stands (stands : Stands k s) (formats : ∀ n, Uid.Format (k.source n)) (plain : op.Plain) :
    ∃ answer k' s', Runs p op.run k answer k' ∧ Stands k' s' ∧ k'.source = k.source := by
  cases op with
  | store name data =>
      obtain ⟨k', run, stands', source, _⟩ := stands.store (p := p) data plain rfl (formats _).plain
        ((formats _).free SEPARATOR (by decide))
      exact ⟨_, k', _, run.bind Program.Runs.done, stands', source⟩
  | remove id =>
      obtain ⟨k', run, stands', source, _⟩ := stands.remove (p := p) plain
      exact ⟨_, k', _, run.bind Program.Runs.done, stands', source⟩

theorem ops_stand (ops : List Op) (stands : Stands k s) (formats : ∀ n, Uid.Format (k.source n))
    (plain : ∀ op ∈ ops, op.Plain) :
    ∃ answers k' s', Runs p (Op.runAll ops) k answers k' ∧ Stands k' s' ∧ k'.source = k.source := by
  -- By induction over the operations; every other run is that one.
  induction ops generalizing k s with
  | nil => exact ⟨[], k, s, Program.Runs.done, stands, rfl⟩
  | cons op ops ih =>
      obtain ⟨answer, k₁, s₁, first, stands₁, source₁⟩ :=
        op_stands (p := p) stands formats (plain op List.mem_cons_self)
      obtain ⟨answers, k₂, s₂, rest, stands₂, source₂⟩ := ih stands₁ (by rw [source₁]; exact formats)
        (fun op later => plain op (List.mem_cons_of_mem _ later))
      exact ⟨_, k₂, s₂, first.bind (rest.bind Program.Runs.done), stands₂, source₂.trans source₁⟩

structure Between (source : Nat → Bytes) (k : Kernel) (s : Shelf) : Prop where
  stands : Stands k s
  tabled : Tabled k
  source : k.source = source

theorem ops_between {source : Nat → Bytes} {ops : List Op} {answers : List Answer}
    (formats : ∀ n, Uid.Format (source n)) (plain : ∀ op ∈ ops, op.Plain)
    (run : Runs p (Op.runAll ops) (initKernel source) answers k) : ∃ s, Between source k s := by
  obtain ⟨_, k', s, ran, stands, same⟩ := ops_stand (p := p) ops (Stands.start source) formats plain
  obtain ⟨_, rfl⟩ := (gives_of_runs ran _ _).mp run
  refine ⟨s, stands, ?_, same⟩
  exact Program.runs_invariant Tabled (fun _ _ _ _ answered => exec_tabled answered) run
    (initKernel_standing source).tabled

end Between

/-! ## Points within an operation -/

section Points
variable {p : Pid} {k k' : Kernel} {s : Shelf} {e : Entry} {touched grown : Dir → Bytes → Prop}
  {N : Fd} {id : Bytes} {held : Bytes × Bytes}

theorem exec_alone {c : Call} {r : Resp c} (answered : k.exec p c = some (r, k'))
    (alone : Kernel.Alone p k) : Kernel.Alone p k' := by
  have released : ∀ i, Kernel.Alone p (k.release p i) := by
    intro i j held member
    rw [alone.release] at member
    split at member
    · cases member
    · exact alone j held member
  cases Kernel.exec_update answered with
  | locked => exact alone.grant _ _
  | unlocked | freed => exact released _
  | _ => exact alone

theorem exit_ready (sane : Sane k.files) (alone : Kernel.Alone p k) : Ready (exit k p) := by
  refine ⟨sane, fun i => ?_⟩
  rw [exit, List.filter_eq_nil_iff]
  intro held member
  simp [alone i held member]

/-- Inside an operation `p` is the only one to hold locks, and it keeps to its entries. -/
structure Midway (touched grown : Dir → Bytes → Prop) (N : Fd) (p : Pid) (k k' : Kernel) : Prop where
  spares : Spares touched grown N p k k'
  alone : Kernel.Alone p k'

theorem midway_respects {cuts : Prop} (k₀ : Kernel) (whole : cuts → ∀ d x, ¬ grown d x) :
    Program.Respects (fun c => (sparing touched grown).Covers c ∧ Footprint.Owns N cuts c)
      (fun c r => (sparing touched grown).Answers c r ∧ Footprint.Hands N c r)
      (Kernel.Does p) (Midway touched grown N p k₀) := by
  intro c k r k' covered midway step
  obtain ⟨answers, spares⟩ := sparing_respects p k₀ whole c k r k' covered midway.spares (Or.inl step)
  exact ⟨answers, spares, exec_alone step midway.alone⟩

theorem Midway.start (stands : Stands k s) (tabled : Tabled k) :
    Midway touched grown k.nextFd p k k :=
  ⟨Spares.refl stands.ready.sane tabled, stands.ready.alone p⟩

theorem survives_of_midway (stands : Stands k s) (found : s.object e.id = some (e.name, e.data))
    (midway : Midway touched grown N p k k')
    (filed : ∀ d, d ≠ .byName → ¬ touched d e.id ∧ ¬ grown d e.id)
    (index : ¬ touched .byName e.name) : Survives (exit k' p) e := by
  have kept : ∀ d, d ≠ .byName → record (exit k' p).files d e.id = record k.files d e.id := by
    intro d other
    obtain ⟨untouched, short⟩ := filed d other
    exact midway.spares.kept d e.id untouched short
  obtain ⟨more, now⟩ := midway.spares.added .byName e.name _ index (stands.record_byName found)
  refine survives_of_files (exit_ready midway.spares.sane midway.alone) (stands.proper.ids _ _ found)
    (stands.proper.names _ _ found) ?_ now (stands.proper.lines e.name) (stands.proper.listed _ _ found) ?_
  · rw [kept .byId (by decide), stands.record_byId, found]
    rfl
  · rw [kept .data (by decide), stands.record_data, found]
    rfl

/-- At every point of a store the other entries survive. -/
theorem store_loses_nothing {name : Bytes} (data : Bytes) (stands : Stands k s) (tabled : Tabled k)
    (plain : PlainName name) (drawn : PlainName (k.source k.drawn)) :
    (Op.store name data).LosesNothing p k := by
  intro point k' reach e survives other
  have found := stands.survives_iff.mp survives
  have other : e.id ≠ k.source k.drawn := other
  obtain ⟨rest, shape, _, opens, uses⟩ := store_within name data (k.source k.drawn)
    (Names.of_plain plain)
  have start : Midway (filedUnder (k.source k.drawn)) (indexOf name) k.nextFd p k k :=
    Midway.start stands tabled
  -- a store writes to entries of its own id, and adds to one index
  suffices midway : Midway (filedUnder (k.source k.drawn)) (indexOf name) k.nextFd p k k' from
    survives_of_midway stands found midway
      (fun d kind => ⟨fun touched => other touched.2, fun grown => kind grown.1⟩)
      (fun touched => touched.1 rfl)
  have respects := @midway_respects p (filedUnder (k.source k.drawn)) (indexOf name) k.nextFd False k (by simp)
  have draws : (sparing (filedUnder (k.source k.drawn)) (indexOf name)).Uses k.nextFd False _ Sys.draw :=
    Footprint.uses_issue (c := .draw) trivial trivial
  simp only [Op.run, shape, Program.bind_eq_bind, Program.bind_assoc] at reach
  rcases reach.bind_split with ⟨inside, rfl, drawing⟩ | ⟨id, middle, drew, behind⟩
  · exact (Program.Within.reaches respects draws drawing start).2
  · have midway := (Program.Within.runs respects draws drew start).2
    have answered : Kernel.Does p .draw k id middle := Program.runs_issue_iff.mp drew
    cases answered
    refine (Program.Within.reaches (R := Footprint.Any) respects ?_ behind midway).2
    exact (Flstream.new_uses opens).bind fun s own =>
      (uses k.nextFd _ s (Names.of_plain drawn) own).bind fun r _ => Footprint.uses_done trivial

def unfiled (id name : Bytes) (d : Dir) (x : Bytes) : Prop := filedUnder id d x ∨ indexOf name d x

/-- At every point of a removal the entries under other names survive. -/
theorem remove_loses_nothing (stands : Stands k s) (tabled : Tabled k) (plain : PlainName id)
    (lonely : (Op.remove id).Lonely k) : (Op.remove id).LosesNothing p k := by
  intro point k' reach e survives other
  have found := stands.survives_iff.mp survives
  have other : e.id ≠ id := other
  have looks : ∀ (touched : Dir → Bytes → Prop),
      (sparing touched fun _ _ => False).Uses k.nextFd True (Carries id) (byId id) :=
    fun touched => byId_uses id (Or.inl ⟨rfl, rfl⟩)
  have start : ∀ touched, Midway touched (fun _ _ => False) k.nextFd p k k :=
    fun touched => Midway.start stands tabled
  have respects := fun touched => @midway_respects p touched (fun _ _ => False) k.nextFd True k (by simp)
  have untouched : Midway (fun _ _ => False) (fun _ _ => False) k.nextFd p k k' →
      Survives (exit k' p) e := fun midway =>
    survives_of_midway stands found midway (fun d _ => ⟨not_false, not_false⟩) not_false
  simp only [Op.run, remove, Program.bind_eq_bind, Program.bind_assoc] at reach
  -- the process exits while the id is looked up, or after it
  rcases reach.bind_split with ⟨inside, rfl, looking⟩ | ⟨looked, middle, looks', behind⟩
  · exact untouched (Program.Within.reaches (respects _) (looks _) looking (start _)).2
  · cases there : s.object id with
    | none =>
        have absent : record k.files .byId id = none := by
          simp [stands.record_byId, there]
        have missing := byId_missing (p := p) stands.ready (Names.of_plain plain) absent
        obtain ⟨rfl, rfl⟩ := (gives_of_runs missing _ _).mp looks'
        refine untouched (Program.Within.reaches (R := Footprint.Any) (respects _) ?_ behind (start _)).2
        exact Footprint.uses_done trivial
    | some held =>
        have holds : record k.files .byId id = some (held.1 ++ [SEPARATOR]) := by
          simp [stands.record_byId, there]
        obtain ⟨k₁, finds, _⟩ := byId_found (p := p) stands.ready (Names.of_plain plain) holds
        obtain ⟨rfl, rfl⟩ := (gives_of_runs finds _ _).mp looks'
        rw [stands.first_line there] at behind
        have midway := (Program.Within.runs (respects (unfiled id held.1)) (looks _) looks' (start _)).2
        have plainName := Names.of_plain (stands.proper.names id held there).1
        have removes : (sparing (unfiled id held.1) fun _ _ => False).Uses k.nextFd True
            Footprint.Any (Object.remove ⟨id, held.1, DATA_DIR ++ id⟩) :=
          Storage.remove_uses _ trivial trivial
            ⟨⟨.byId, _, _, rfl, Names.of_plain plain, Or.inl ⟨by decide, rfl⟩⟩,
              ⟨.data, _, _, rfl, Names.of_plain plain, Or.inl ⟨by decide, rfl⟩⟩,
              ⟨.byName, _, _, rfl, plainName, Or.inr ⟨rfl, rfl⟩⟩⟩
            (Or.inr ⟨.byName, _, _, rfl, plainName, Or.inl (Or.inr ⟨rfl, rfl⟩)⟩)
        have reached := (Program.Within.reaches (R := Footprint.Any) (respects _)
          (removes.bind fun r _ => Footprint.uses_done trivial) behind midway).2
        refine survives_of_midway stands found reached (fun d kind => ⟨?_, not_false⟩) ?_
        · rintro (own | own)
          · exact other own.2
          · exact kind own.1
        · rintro (own | own)
          · exact own.1 rfl
          · have gone : Survives k ⟨id, held.1, held.2⟩ := stands.survives_iff.mpr there
            exact other (lonely _ gone rfl e survives own.2)

theorem remove_empties (stands : Stands k s) (found : s.object id = some held) :
    ∃ point k', Program.Reaches (Kernel.Does p) (Op.remove id).run k point k' ∧ Sane k'.files ∧
      Kernel.Alone p k' ∧ record k'.files .byName held.1 = some [] := by
  -- On its way a removal leaves the index of the name empty.
  have plainId := Names.of_plain (stands.proper.ids id held found)
  have plainName := Names.of_plain (stands.proper.names id held found).1
  have holds : record k.files .byId id = some (held.1 ++ [SEPARATOR]) := by
    simp [stands.record_byId, found]
  obtain ⟨k₁, finds, change⟩ := byId_found (p := p) stands.ready plainId holds
  rw [stands.first_line found] at finds
  obtain ⟨_, _, unlinkId, session⟩ := (Session.start change.ready p).remove .byId plainId
  obtain ⟨_, _, unlinkData, session⟩ := session.remove .data plainId
  have there : put .data id none (put .byId id none (record k₁.files)) .byName held.1 =
      some (Records.render SEPARATOR (s.lists held.1)) := by
    have index := stands.record_byName found
    rw [← change.turns.records] at index
    simpa [put] using index
  obtain ⟨i, _, opens, session⟩ := session.openExisting .byName Flstream.RDWR plainName there rfl
  obtain ⟨locks, session⟩ := session.lock (e := 0) k₁.nextFd ⟨p, some i, Flstream.RDWR, 0⟩
    (by simp) rfl rfl
  obtain ⟨_, reads, session⟩ := session.getlines (e := 0) k₁.nextFd ⟨p, some i, Flstream.RDWR, 0⟩
    (d := .byName) (x := held.1) (i := i) (by simp) there (by simp) rfl rfl rfl
  obtain ⟨_, rewinds, session⟩ := session.rewind (e := 0) k₁.nextFd _ (Function.update_self ..)
  obtain ⟨cuts, session⟩ := session.truncate (e := 0) k₁.nextFd _ (d := .byName)
    (x := held.1) (i := i) (by simp) (Function.update_self ..) rfl rfl
  -- the run as far as the call that cuts the index to nothing
  have unlists : ∃ point, Program.Reaches (Kernel.Does p)
      (Object.remove ⟨id, held.1, DATA_DIR ++ id⟩) k₁ point _ :=
    ⟨_, .behind unlinkId (.behind unlinkData (.behind opens (.behind locks (.behind reads
      (.behind rewinds (.behind cuts .refl))))))⟩
  obtain ⟨point, reach⟩ := unlists
  have removes : Program.Reaches (Kernel.Does p) (remove id) k point _ := .behind finds reach
  refine ⟨_, _, removes.bind, session.turns.sane, session.alone, ?_⟩
  rw [session.turns.records]
  exact put_self ..

theorem lonely_of_loses_nothing (stands : Stands k s) (loses : (Op.remove id).LosesNothing p k) :
    (Op.remove id).Lonely k := by
  intro e survives own other stored named
  by_contra apart
  have found := stands.survives_iff.mp survives
  rw [own] at found
  obtain ⟨point, k', reach, sane, alone, empty⟩ := remove_empties (p := p) stands found
  have survived := loses point k' reach other stored apart
  obtain ⟨ids, k₁, lists, listed⟩ := survived.listed 0
  -- the other entry cannot be listed by an empty index
  have there := stands.survives_iff.mp stored
  obtain ⟨k₂, run, _⟩ := byName_found (p := 0) (exit_ready sane alone)
    (Names.of_plain (stands.proper.names _ _ there).1)
    (show record (exit k' p).files .byName other.name = some [] by rw [named]; exact empty)
  obtain ⟨same, _⟩ := (lists _ _).mp run
  have nothing : ids = [] := by
    simpa [Records.split] using same.symm
  rw [nothing] at listed
  cases listed

end Points

/-- Whenever the process is told to exit, every other stored file survives, except
where a removal takes an id out of an index that lists others. -/
theorem interruptions_lose_nothing (source : Nat → Bytes) (p q : Pid) (ops : List Op) (op : Op)
    (answers : List Answer) (k : Kernel) (formats : ∀ n, Uid.Format (source n))
    (plain : ∀ op ∈ ops, op.Plain) (run : Runs p (Op.runAll ops) (initKernel source) answers k)
    (next : op.Plain) : op.LosesNothing q k ↔ op.Lonely k := by
  obtain ⟨s, between⟩ := ops_between formats plain run
  cases op with
  | store name data =>
      have drawn : PlainName (k.source k.drawn) := by
        rw [between.source]
        exact (formats _).plain
      exact iff_of_true (store_loses_nothing data between.stands between.tabled next.1 drawn) trivial
  | remove id =>
      exact ⟨lonely_of_loses_nothing between.stands, remove_loses_nothing between.stands between.tabled next⟩

def pair : Shelf := (Shelf.empty.store (tick 0) (ascii "a") [1]).store (tick 1) (ascii "a") [2]

theorem pair_stored : ∃ answers k,
    Runs 1 (Op.runAll [.store (ascii "a") [1], .store (ascii "a") [2]]) (initKernel tick) answers k ∧
      Stands k pair := by
  have name : PlainName (ascii "a") ∧ SEPARATOR ∉ ascii "a" := by decide
  have format : ∀ n, Uid.Format (tick n) := fun n => Uid.get_format n 0 0 0 0 0 0
  obtain ⟨k₁, first, stands₁, source₁, drawn₁⟩ := (Stands.start tick).store (p := 1) [1] name rfl
    (format 0).plain ((format 0).free SEPARATOR (by decide))
  have drawn : k₁.source k₁.drawn = tick 1 := by
    rw [source₁, drawn₁]
    rfl
  obtain ⟨k₂, second, stands₂, _⟩ := stands₁.store (p := 1) [2] name drawn (format 1).plain
    ((format 1).free SEPARATOR (by decide))
  have one : Runs 1 (Op.store (ascii "a") [1]).run (initKernel tick) _ k₁ := first.bind Program.Runs.done
  have two : Runs 1 (Op.store (ascii "a") [2]).run k₁ _ k₂ := second.bind Program.Runs.done
  have rest : Runs 1 (Op.runAll [.store (ascii "a") [2]]) k₁ _ k₂ :=
    two.bind (Program.Runs.done.bind Program.Runs.done)
  exact ⟨_, k₂, one.bind (rest.bind Program.Runs.done), stands₂⟩

theorem pair_survives {k : Kernel} (stands : Stands k pair) :
    Survives k ⟨tick 0, ascii "a", [1]⟩ ∧ Survives k ⟨tick 1, ascii "a", [2]⟩ := by
  have apart : tick 0 ≠ tick 1 := by decide
  constructor
  · exact stands.survives_iff.mpr (by simp [pair, Shelf.store, apart])
  · exact stands.survives_iff.mpr (by simp [pair, Shelf.store])

theorem interruptions_lose_nothing_pair : ∃ answers k,
    Runs 1 (Op.runAll [.store (ascii "a") [1], .store (ascii "a") [2]]) (initKernel tick) answers k ∧
      ((Op.remove (tick 0)).LosesNothing 1 k ↔ (Op.remove (tick 0)).Lonely k) := by
  obtain ⟨answers, k, run, _⟩ := pair_stored
  have name : PlainName (ascii "a") ∧ SEPARATOR ∉ ascii "a" := by decide
  have format : ∀ n, Uid.Format (tick n) := fun n => Uid.get_format n 0 0 0 0 0 0
  refine ⟨answers, k, run, interruptions_lose_nothing tick 1 1 _ (.remove (tick 0)) answers k format ?_ run
    (format 0).plain⟩
  intro op member
  simp only [List.mem_cons, List.not_mem_nil, or_false] at member
  rcases member with rfl | rfl
  · exact name
  · exact name

/-- Told to exit in the middle of the removal of the one, the process loses the other. -/
theorem removal_loses_other : ∃ answers k,
    Runs 1 (Op.runAll [.store (ascii "a") [1], .store (ascii "a") [2]]) (initKernel tick) answers k ∧
      ¬ (Op.remove (tick 0)).LosesNothing 1 k := by
  obtain ⟨answers, k, run, stands⟩ := pair_stored
  obtain ⟨first, second⟩ := pair_survives stands
  refine ⟨answers, k, run, fun loses => ?_⟩
  have same : tick 1 = tick 0 := lonely_of_loses_nothing stands loses _ first rfl _ second rfl
  exact absurd same (by decide)

end Sfsdb.Volume

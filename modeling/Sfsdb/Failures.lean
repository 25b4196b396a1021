import Sfsdb.AnyPath
import Sfsdb.Faults

/-!
What is left where calls fail. Any call of a store or a removal may be answered
with an error; neither operation takes back what it has already done. A store
that fails may leave what it made of the entries of its own id and have added
to its index, a removal that fails has not come to the index yet.
-/

namespace Sfsdb.Volume

open Posix Storage

/-- Every state of a volume: its directories are there, and so is the table of descriptors. -/
structure Standing (k : Kernel) : Prop where
  sane : Sane k.files
  tabled : Tabled k

theorem initKernel_standing (source : Nat → Bytes) : Standing (initKernel source) :=
  ⟨(initKernel_ready source).sane, fun _ _ => rfl⟩

def filedUnder (id : Bytes) (d : Dir) (x : Bytes) : Prop := d ≠ .byName ∧ x = id

def indexOf (name : Bytes) (d : Dir) (x : Bytes) : Prop := d = .byName ∧ x = name

variable {p : Pid} {k k' : Kernel} {name data id file y : Bytes}

def refusing (path : Bytes) (p : Pid) : (c : Call) → Kernel → Option (Resp c × Kernel)
  | .open target mode, k =>
      if target = path then some (.error EACCES, k) else k.exec p (.open target mode)
  | .remove target, k => if target = path then some (.error EACCES, k) else k.exec p (.remove target)
  | c, k => k.exec p c

theorem refusing_mayDo {path : Bytes} {c : Call} {r : Resp c}
    (answered : refusing path p c k = some (r, k')) : Kernel.MayDo p c k r k' := by
  cases c with
  | «open» target mode =>
      simp only [refusing] at answered
      split at answered
      · cases answered
        exact Or.inr ⟨rfl, EACCES, by decide, rfl⟩
      · exact Or.inl answered
  | remove target =>
      simp only [refusing] at answered
      split at answered
      · cases answered
        exact Or.inr ⟨rfl, EACCES, by decide, rfl⟩
      · exact Or.inl answered
  | _ => exact Or.inl answered

theorem refusing_runs {α : Type} {path : Bytes} {fuel : Nat} {program : Prog α} {value : α}
    (ran : Program.run (refusing path p) fuel program k = some (value, k')) :
    Program.Runs (Kernel.MayDo p) program k value k' :=
  (Program.run_sound _ _ _ _ _ _ ran).mono fun _ _ _ _ => refusing_mayDo

/-! ## Stores -/

section Stores

theorem store_within (name data y : Bytes) (names : Names name file) :
    ∃ rest : Bytes → Flstream → Prog (Except Error Bytes),
    store name data = Sys.draw.bind (fun id =>
      (Flstream.new (NAME_DIR ++ name) CREATE_NAME).bind (rest id)) ∧
    (∀ id s, s.fail = true → Footprint.looking.Holds (fun r => ∀ x, r ≠ .ok x) (rest id s)) ∧
    (sparing (filedUnder y) (indexOf file)).opens (NAME_DIR ++ name) CREATE_NAME ∧
    ∀ N id s, Names id y → s.Own N → (sparing (filedUnder y) (indexOf file)).Uses N False
      (fun r => ∀ x, r = .ok x → x = id) (rest id s) := by
  obtain ⟨rest, shape, stops, uses⟩ := store_parts name data
  refine ⟨rest, shape, stops, ?_, fun N id s namesId own => uses _ N False id s own trivial ?_ ?_ ?_ ?_⟩
  · exact Or.inr ⟨.byName, name, file, rfl, names, Or.inr ⟨⟨rfl, rfl⟩, rfl, rfl⟩⟩
  · exact Or.inr ⟨.byId, id, y, rfl, namesId, Or.inl ⟨by decide, rfl⟩⟩
  · exact Or.inr ⟨.data, id, y, rfl, namesId, Or.inl ⟨by decide, rfl⟩⟩
  · exact Or.inl ⟨rfl, rfl⟩
  · exact Or.inr ⟨.data, id, y, rfl, namesId, Or.inl ⟨by decide, rfl⟩⟩

/-- A store that fails has not opened the index; or it has opened that but not the
record of its id; or it has begun with both. It leaves what it had made until then. -/
theorem failed_store_leaves (p : Pid) (k k' : Kernel) (log : Log) (name data : Bytes) (e : Error)
    (standing : Standing k) (plain : PlainName name) (ids : PlainName (k.source k.drawn))
    (run : Program.Runs (Recorded p) (store name data) (k, []) (.error e) (k', log)) :
    Stopped k k' name (k.source k.drawn) log := by
  obtain ⟨created, s, creates, rest⟩ := Program.runs_bind_split run
  rcases create_stages standing.sane standing.tabled plain ids creates with ⟨e', rfl, stage⟩ | ⟨rfl, begun⟩
  · obtain ⟨_, rfl⟩ := Program.runs_done_iff.mp rest
    exact stage
  · -- what comes after the creation fails only before it writes
    refine Or.inr (Or.inr ?_)
    obtain ⟨found, u, looks, rest⟩ := Program.runs_bind_split rest
    have looking : Footprint.looking.Holds (Carries (k.source k.drawn)) (byId (k.source k.drawn)) :=
      byId_holds _ ⟨rfl, rfl⟩
    rw [← looking.files looks.unlogged] at begun
    cases found with
    | error _ =>
        obtain ⟨_, rfl⟩ := Program.runs_done_iff.mp rest
        exact begun
    | ok object =>
        obtain ⟨opened, v, gets, rest⟩ := Program.runs_bind_split rest
        have looking : Footprint.looking.Uses 0 True _ (object.get Flstream.WRONLY) :=
          get_uses object _ ⟨rfl, rfl⟩
        rw [← looking.holds.files gets.unlogged] at begun
        cases opened with
        | error _ =>
            obtain ⟨_, rfl⟩ := Program.runs_done_iff.mp rest
            exact begun
        | ok stream =>
            obtain ⟨_, _, _, rest⟩ := Program.runs_bind_split rest
            obtain ⟨_, _, _, rest⟩ := Program.runs_bind_split rest
            cases (Program.runs_done_iff.mp rest).1

theorem refused_record : ∃ k' log, Program.Runs (Recorded 1) (store (ascii "a") [7])
      (initKernel fun _ => ascii "1", []) (.error (.ofErrno EACCES)) (k', log) ∧
    record k'.files .byName (ascii "a") = some [] := by
  have evaluated : (Program.run (Program.logging (refusing (ID_DIR ++ ascii "1") 1)) 40
      (store (ascii "a") [7]) (initKernel fun _ => ascii "1", [])).map
        (fun result => (result.1, record result.2.1.files .byName (ascii "a"))) =
      some (.error (.ofErrno EACCES), some []) := by rfl
  obtain ⟨⟨value, k', log⟩, ran, same⟩ := Option.map_eq_some_iff.mp evaluated
  simp only [Prod.mk.injEq] at same
  obtain ⟨rfl, index⟩ := same
  have run : Program.Runs (Recorded 1) _ _ _ (k', log) :=
    Program.logging_runs (fun c s r t answered => (refusing_mayDo answered : Kernel.MayDo 1 c s r t)) ran
  exact ⟨k', log, run, index⟩

theorem failed_store_leaves_index : ∃ k' log,
    Program.Runs (Recorded 1) (store (ascii "a") [7]) (initKernel fun _ => ascii "1", [])
      (.error (.ofErrno EACCES)) (k', log) ∧
    Stopped (initKernel fun _ => ascii "1") k' (ascii "a") (ascii "1") log := by
  obtain ⟨k', log, run, _⟩ := refused_record
  exact ⟨k', log, run, failed_store_leaves 1 (initKernel fun _ => ascii "1") k' log (ascii "a") [7] _
    (initKernel_standing _) (by decide) (show PlainName (ascii "1") by decide) run⟩

/-- The store fails, and the volume is not what it was: an empty index is left behind. -/
theorem failed_store_leaves_trace : ∃ k',
    Program.Runs (Kernel.MayDo 1) (store (ascii "a") [7]) (initKernel fun _ => ascii "1")
      (.error (.ofErrno EACCES)) k' ∧
    record k'.files ≠ record (initKernel fun _ => ascii "1").files := by
  obtain ⟨k', log, run, index⟩ := refused_record
  refine ⟨k', run.unlogged, fun same => ?_⟩
  rw [same, initKernel_empty] at index
  cases index

end Stores

/-! ## Removals -/

section Removals

theorem remove_unlinks {d : Dir} {x : Bytes} (sane : Sane k.files) (names : Names x y)
    {r : Except Errno Bool} (step : Kernel.MayDo p (.remove (d.text ++ x)) k r k') :
    Sane k'.files ∧ ((∃ e, r = .error e) ∧ record k'.files = record k.files ∨
      (∃ there, r = .ok there) ∧ record k'.files = put d y none (record k.files)) := by
  rcases step with answered | ⟨rfl, e, _, failed⟩
  · have resolved := resolve_entry k.files sane.layout d names
    simp only [Kernel.Does, Kernel.exec, Kernel.removeFile, resolved, Option.some.injEq] at answered
    rcases sane.entry_cases d y with ⟨i, file, _⟩ | ⟨absent, nothing⟩
    · simp only [file] at answered
      cases answered
      have turns := Turns.unlink (d := d) (x := y) sane
      exact ⟨turns.sane, Or.inr ⟨⟨_, rfl⟩, turns.records⟩⟩
    · simp only [absent] at answered
      cases answered
      refine ⟨sane, Or.inr ⟨⟨_, rfl⟩, ?_⟩⟩
      rw [← nothing, put_same]
  · exact ⟨sane, Or.inl ⟨⟨e, failed⟩, rfl⟩⟩

theorem unlist_stops {object : Object} {e : Error}
    (run : Program.Runs (Kernel.MayDo p) object.unlist k (some (.error e)) k') :
    k'.files = k.files := by
  -- The index is opened when record and data are gone; a removal that fails then stops there.
  obtain ⟨s, middle, opens, run⟩ := Program.runs_bind_split run
  split at run
  · rename_i failed
    have closing : Footprint.looking.Holds Footprint.Any (s.close.bind fun _ =>
        (.done (some (.error (.ofErrno s.err))) : Prog (Option (Except Error Unit)))) :=
      s.close_holds.bind fun _ _ => Footprint.holds_done trivial
    rw [closing.files run]
    have opening : Footprint.looking.Holds (Flstream.Own 0) (Flstream.new (NAME_DIR ++ object.name) Flstream.RDWR) :=
      Flstream.new_holds ⟨rfl, rfl⟩
    exact opening.files opens
  · -- behind the open nothing answers with an error
    obtain ⟨_, _, _, run⟩ := Program.runs_bind_split run
    obtain ⟨_, _, _, run⟩ := Program.runs_bind_split run
    obtain ⟨_, _, _, run⟩ := Program.runs_bind_split run
    obtain ⟨_, _, _, run⟩ := Program.runs_bind_split run
    obtain ⟨⟨empty, s⟩, _, _, run⟩ := Program.runs_bind_split run
    cases empty with
    | true =>
        obtain ⟨removed, _, _, run⟩ := Program.runs_bind_split run
        cases removed with
        | error _ => cases run
        | ok _ =>
            obtain ⟨_, _, _, run⟩ := Program.runs_bind_split run
            obtain ⟨_, _, _, run⟩ := Program.runs_bind_split run
            cases run
    | false =>
        obtain ⟨_, _, _, run⟩ := Program.runs_bind_split run
        cases run

/-- A removal that fails has changed nothing, or taken away the record of the
id, or its record and its data; it has not come to the index. -/
theorem failed_remove_leaves (p : Pid) (k k' : Kernel) (id : Bytes) (e : Error) (sane : Sane k.files)
    (plain : PlainName id)
    (run : Program.Runs (Kernel.MayDo p) (remove id) k (some (.error e)) k') :
    record k'.files = record k.files ∨
    record k'.files = put .byId id none (record k.files) ∨
    record k'.files = put .data id none (put .byId id none (record k.files)) := by
  obtain ⟨found, k₁, looks, rest⟩ := Program.runs_bind_split run
  have looking : Footprint.looking.Holds (Carries id) (byId id) := byId_holds id ⟨rfl, rfl⟩
  obtain ⟨carries, same⟩ := looking.looks looks
  rw [← same] at sane ⊢
  cases found with
  | error _ =>
      cases rest
      exact Or.inl rfl
  | ok object =>
      obtain ⟨rfl, _⟩ := carries object rfl
      have names := Names.of_plain plain
      have rest : Program.Runs (Kernel.MayDo p) object.remove k₁ (some (.error e)) k' := rest
      obtain ⟨first, k₂, removes, rest⟩ := Program.runs_bind_split rest
      have step : Kernel.MayDo p (.remove (Dir.byId.text ++ object.id)) k₁ first k₂ :=
        Program.runs_issue_iff.mp removes
      obtain ⟨sane, unlinked⟩ := remove_unlinks sane names step
      rcases unlinked with ⟨⟨_, rfl⟩, kept⟩ | ⟨⟨_, rfl⟩, gone⟩
      · cases rest
        exact Or.inl kept
      · right
        rw [← gone]
        obtain ⟨second, k₃, removes, rest⟩ := Program.runs_bind_split rest
        have step : Kernel.MayDo p (.remove (Dir.data.text ++ object.id)) k₂ second k₃ :=
          Program.runs_issue_iff.mp removes
        obtain ⟨_, unlinked⟩ := remove_unlinks sane names step
        rcases unlinked with ⟨⟨_, rfl⟩, kept⟩ | ⟨⟨_, rfl⟩, gone⟩
        · cases rest
          exact Or.inl kept
        · right
          rw [← gone, unlist_stops rest]

theorem refused_data : ∃ k k', Runs 1 (store (ascii "a") [7]) (initKernel fun _ => ascii "1")
      (.ok (ascii "1")) k ∧
    Program.Runs (Kernel.MayDo 1) (remove (ascii "1")) k
      (some (.error ⟨EACCES, .what EACCES (DATA_DIR ++ ascii "1")⟩)) k' ∧
    record k.files .byId (ascii "1") = some (ascii "a" ++ [SEPARATOR]) ∧
    record k'.files .byId (ascii "1") = none := by
  have evaluated : ((Program.run (Kernel.exec 1) 60 (store (ascii "a") [7])
      (initKernel fun _ => ascii "1")).bind fun first =>
        (Program.run (refusing (DATA_DIR ++ ascii "1") 1) 60 (remove (ascii "1")) first.2).map
          fun second => (first.1, record first.2.files .byId (ascii "1"), second.1,
            record second.2.files .byId (ascii "1"))) =
      some (.ok (ascii "1"), some (ascii "a" ++ [SEPARATOR]),
        some (.error ⟨EACCES, .what EACCES (DATA_DIR ++ ascii "1")⟩), none) := by rfl
  obtain ⟨⟨_, k⟩, stores, rest⟩ := Option.bind_eq_some_iff.mp evaluated
  obtain ⟨⟨_, k'⟩, removes, same⟩ := Option.map_eq_some_iff.mp rest
  simp only [Prod.mk.injEq] at same
  obtain ⟨rfl, before, rfl, after⟩ := same
  exact ⟨k, k', Program.run_sound _ _ _ _ _ _ stores, refusing_runs removes, before, after⟩

theorem failed_remove_leaves_data : ∃ k k',
    Program.Runs (Kernel.MayDo 1) (remove (ascii "1")) k
      (some (.error ⟨EACCES, .what EACCES (DATA_DIR ++ ascii "1")⟩)) k' ∧
    (record k'.files = record k.files ∨
      record k'.files = put .byId (ascii "1") none (record k.files) ∨
      record k'.files = put .data (ascii "1") none (put .byId (ascii "1") none (record k.files))) := by
  obtain ⟨k, k', stores, removes, _⟩ := refused_data
  have sane : Sane k.files := by
    obtain ⟨k₁, run, change⟩ := store_runs (p := 1) (initKernel_ready fun _ => ascii "1") [7]
      (Names.of_plain (show PlainName (ascii "a") by decide)) rfl (show PlainName (ascii "1") by decide)
    obtain ⟨_, rfl⟩ := (gives_of_runs run _ _).mp stores
    exact change.ready.sane
  exact ⟨k, k', removes, failed_remove_leaves 1 k k' (ascii "1") _ sane (by decide) removes⟩

/-- The removal fails, and the volume is not what it was: the record of the stored file is gone. -/
theorem failed_remove_loses_record : ∃ k k',
    Runs 1 (store (ascii "a") [7]) (initKernel fun _ => ascii "1") (.ok (ascii "1")) k ∧
    Program.Runs (Kernel.MayDo 1) (remove (ascii "1")) k
      (some (.error ⟨EACCES, .what EACCES (DATA_DIR ++ ascii "1")⟩)) k' ∧
    record k'.files ≠ record k.files := by
  obtain ⟨k, k', stores, removes, before, after⟩ := refused_data
  refine ⟨k, k', stores, removes, fun same => ?_⟩
  rw [same, before] at after
  cases after

end Removals

end Sfsdb.Volume

import Sfsdb.Deadlock

/-!
What the processes of a volume see of each other's work: whole ids only in the
index files, the record and the data of every id whose store has returned, and
the line of every store that has returned, as long as nothing locks an index
that has lost its name.
-/

namespace Sfsdb.Processes

open Posix Storage
open Volume (Dir record tick)

variable {c c' : Config} {source : Nat → Bytes} {p : Pid} {name id data : Bytes} {ids : List Bytes}

theorem tick_formats : ∀ n, Uid.Format (tick n) := fun n => Uid.get_format n 0 0 0 0 0 0

theorem Holds.listed {t : Terms} {g : Ghost} (holds : Holds t c g)
    (ended : c.procs p = some (.getName name, .done (.listed (.ok ids)))) :
    ∀ x ∈ ids, DrawnFor c.state.kernel g x name := by
  obtain ⟨D, session⟩ := Program.meets_closed.done _ _ _ holds.inv (holds.busy p _ _ ended)
  intro x member
  exact session.facts (.drawnFor x name) (List.mem_map.mpr ⟨x, member, rfl⟩)

/-- Every file that was an index at any time holds whole lines, each an id that a
store has drawn, whenever no process holds its write lock; so does every list. -/
theorem index_reads_are_whole (formats : ∀ n, Uid.Format (source n)) (reached : Reached anyRun source c)
    (later : Program.Pool.Reaches pool (Calls anyRun) c c') :
    (∀ n i, c.state.node .byName n = some (.file i) → WriteFree c'.state i →
      ∃ ids, c'.state.data i = Records.render SEPARATOR ids ∧ ∀ x ∈ ids, Drawn c'.state.kernel x) ∧
    ∀ p name ids, c'.procs p = some (.getName name, .done (.listed (.ok ids))) →
      ∀ x ∈ ids, Drawn c'.state.kernel x := by
  obtain ⟨g, holds⟩ := Reached.holds reached (fine_of_formats formats)
  obtain ⟨g', since, holds'⟩ := holds_later holds later
  constructor
  · intro n i file free
    have role : g'.role i = some (.byName, n) := since.roles i _ (holds.inv.named .byName n i file)
    exact ⟨g'.members i, holds'.inv.index i n role free, fun x member =>
      (holds'.inv.listed i n role x member).drawn⟩
  · exact fun p name ids ended x member => (Holds.listed holds' ended x member).drawn

def outcome (c : Config) (p : Pid) : Option (Op × Answer) :=
  match c.procs p with
  | some (op, .done answer) => some (op, answer)
  | _ => none

theorem outcome_ended {op : Op} {answer : Answer} (outcome : outcome c p = some (op, answer)) :
    c.procs p = some (op, .done answer) := by
  unfold Processes.outcome at outcome
  split at outcome
  · rename_i op' answer' ended
    cases outcome
    exact ended
  · cases outcome

/-- One process creates a name and another lists it. -/
theorem index_reads_are_whole_create : ∃ c, Reached anyRun tick c ∧
    c.procs 1 = some (.getName (ascii "a"), .done (.listed (.ok [tick 0]))) ∧
    (∃ ids, c.state.data 0 = Records.render SEPARATOR ids ∧ ∀ x ∈ ids, Drawn c.state.kernel x) ∧
    Drawn c.state.kernel (tick 0) := by
  have played : (Program.Pool.play pool exec [.start 0 (.create (ascii "a")), .steps 0 17, .stop 0,
        .start 1 (.getName (ascii "a")), .steps 1 12] (initial tick)).map
      (fun c => (outcome c 1, c.state.node .byName (ascii "a"), c.state.locks 0)) =
        some (some (.getName (ascii "a"), .listed (.ok [tick 0])), some (.file 0), []) := rfl
  obtain ⟨c, reached, seen⟩ := played_reached played
  simp only [Prod.mk.injEq] at seen
  obtain ⟨ended, file, unlocked⟩ := seen
  obtain ⟨whole, lists⟩ := index_reads_are_whole tick_formats reached Program.Pool.Reaches.refl
  refine ⟨c, reached, outcome_ended ended, whole _ 0 file fun p => ?_,
    lists 1 _ _ (outcome_ended ended) _ List.mem_cons_self⟩
  rw [unlocked]
  exact List.not_mem_nil

/-- Where no identifier is drawn twice, the record and the data of every listed id
are complete as soon as its store has returned, until its removal begins. -/
theorem listed_files_are_complete (formats : ∀ n, Uid.Format (source n))
    (reached : Reached freshRun source c)
    (ended : c.procs p = some (.getName name, .done (.listed (.ok ids)))) (listed : id ∈ ids)
    (spared : id ∉ c.state.begun) {n : Bytes} (returned : (n, id, data) ∈ c.state.stored) :
    n = name ∧ record c.state.kernel.files .byId id = some (name ++ [SEPARATOR]) ∧
      record c.state.kernel.files .data id = some data := by
  obtain ⟨g, holds⟩ := Reached.holds reached (fine_of_formats formats)
  have kept := holds.inv.stored n id data returned
  obtain ⟨m, before, same, label⟩ := kept.drawn
  obtain ⟨m', before', same', label'⟩ := Holds.listed holds ended id listed
  -- no id is drawn twice, so the two draws are one
  have one : m = m' := by
    rcases Nat.lt_trichotomy m m' with below | same_draw | above
    · exact absurd (same.trans same'.symm) (holds.inv.distinct trivial m m' below before')
    · exact same_draw
    · exact absurd (same'.trans same.symm) (holds.inv.distinct trivial m' m above before)
  have names : n = name := by rw [← label, ← label', one]
  subst names
  exact ⟨rfl, (kept.there trivial).resolve_left spared⟩

/-- One process lists the files of a name, and another one begins a store under it meanwhile. -/
theorem listed_files_are_complete_store : ∃ c, Reached freshRun tick c ∧
    c.procs 1 = some (.getName (ascii "a"), .done (.listed (.ok [tick 0]))) ∧
    record c.state.kernel.files .byId (tick 0) = some (ascii "a" ++ [SEPARATOR]) ∧
    record c.state.kernel.files .data (tick 0) = some [1] := by
  have played : (Program.Pool.play pool carefully [.start 0 (.store (ascii "a") [1]), .steps 0 29, .stop 0,
        .start 1 (.getName (ascii "a")), .steps 1 5, .start 0 (.store (ascii "a") [2]), .steps 0 2, .steps 1 7,
        .steps 0 2] (initial tick)).map
      (fun c => (outcome c 1, c.state.begun, c.state.stored)) =
        some (some (.getName (ascii "a"), .listed (.ok [tick 0])), [], [(ascii "a", tick 0, [1])]) := rfl
  obtain ⟨c, reached, seen⟩ := carefully_reached freshRun played
  simp only [Prod.mk.injEq] at seen
  obtain ⟨ended, begun, stored⟩ := seen
  have complete := listed_files_are_complete tick_formats reached (outcome_ended ended)
    List.mem_cons_self (by simp [begun]) (by rw [stored]; exact List.mem_cons_self)
  exact ⟨c, reached, outcome_ended ended, complete.2⟩

/-- A list shows an id while its store is still under way: the data file is not
there yet. And where an id is drawn twice, a store empties what another returned. -/
theorem listed_files_are_missing : (∃ c, Reached anyRun tick c ∧
      c.procs 1 = some (.getName (ascii "a"), .done (.listed (.ok [tick 0]))) ∧ c.state.begun = [] ∧
      record c.state.kernel.files .data (tick 0) = none) ∧
    ∃ c, Reached anyRun (fun _ => tick 0) c ∧
      c.procs 1 = some (.getName (ascii "a"), .done (.listed (.ok [tick 0, tick 0]))) ∧ c.state.begun = [] ∧
      (ascii "a", tick 0, [1]) ∈ c.state.stored ∧ record c.state.kernel.files .data (tick 0) = some [2] := by
  constructor
  · have played : (Program.Pool.play pool exec [.start 0 (.store (ascii "a") [1]), .steps 0 9,
          .start 1 (.getName (ascii "a")), .steps 1 12] (initial tick)).map
        (fun c => (outcome c 1, c.state.begun, record c.state.kernel.files .data (tick 0))) =
          some (some (.getName (ascii "a"), .listed (.ok [tick 0])), [], none) := rfl
    obtain ⟨c, reached, seen⟩ := played_reached played
    simp only [Prod.mk.injEq] at seen
    obtain ⟨ended, begun, missing⟩ := seen
    exact ⟨c, reached, outcome_ended ended, begun, missing⟩
  · have played : (Program.Pool.play pool exec [.start 0 (.store (ascii "a") [1]), .steps 0 29, .stop 0,
          .start 0 (.store (ascii "a") [2]), .steps 0 29, .stop 0, .start 1 (.getName (ascii "a")), .steps 1 17]
          (initial fun _ => tick 0)).map
        (fun c => (outcome c 1, c.state.begun, c.state.stored, record c.state.kernel.files .data (tick 0))) =
          some (some (.getName (ascii "a"), .listed (.ok [tick 0, tick 0])), [],
            [(ascii "a", tick 0, [2]), (ascii "a", tick 0, [1])], some [2]) := rfl
    obtain ⟨c, reached, seen⟩ := played_reached played
    simp only [Prod.mk.injEq] at seen
    obtain ⟨ended, begun, stored, replaced⟩ := seen
    refine ⟨c, reached, outcome_ended ended, begun, ?_, replaced⟩
    rw [stored]
    simp

/-- The line of every store that has returned stays in the index of its name until
its removal begins, though it cannot be read there while the index is rewritten. -/
theorem returned_stores_stay_listed (formats : ∀ n, Uid.Format (source n)) (reached : Reached strictRun source c)
    (returned : (name, id, data) ∈ c.state.stored) (spared : id ∉ c.state.begun) :
    ∃ i, c.state.node .byName name = some (.file i) ∧ (WriteFree c.state i →
      ∃ ids, c.state.data i = Records.render SEPARATOR ids ∧ id ∈ ids) := by
  obtain ⟨g, holds⟩ := Reached.holds reached (fine_of_formats formats)
  have kept := holds.inv.stored name id data returned
  obtain ⟨i, file, listed⟩ := holds.inv.published trivial name id (kept.published trivial) spared
  have role := holds.inv.named .byName name i file
  exact ⟨i, file, fun free => ⟨g.members i, holds.inv.index i name role free, listed⟩⟩

/-- Two stores under one name, of which one has returned and the other one has come to its record. -/
theorem returned_stores_stay_listed_store : ∃ c, Reached strictRun tick c ∧
    ∃ i, c.state.node .byName (ascii "a") = some (.file i) ∧ (WriteFree c.state i →
      ∃ ids, c.state.data i = Records.render SEPARATOR ids ∧ tick 0 ∈ ids) := by
  have played : (Program.Pool.play pool carefully [.start 0 (.store (ascii "a") [1]), .steps 0 4,
        .start 1 (.store (ascii "a") [2]), .steps 1 2, .steps 0 25, .stop 0, .steps 1 10] (initial tick)).map
      (fun c => (c.state.begun, c.state.stored)) = some ([], [(ascii "a", tick 0, [1])]) := rfl
  obtain ⟨c, reached, seen⟩ := carefully_reached strictRun played
  simp only [Prod.mk.injEq] at seen
  obtain ⟨begun, stored⟩ := seen
  exact ⟨c, reached, returned_stores_stay_listed tick_formats reached (by rw [stored]; exact List.mem_cons_self)
    (by simp [begun])⟩

/-- Two files are stored under one name and the first is removed. While its line
is taken out, the index is empty. And a store that has opened the index before
the removal unlinks it writes its line to a file without a name. -/
theorem returned_store_is_lost : (∃ c, Reached anyRun tick c ∧
      (ascii "a", tick 1, [2]) ∈ c.state.stored ∧ tick 1 ∉ c.state.begun ∧
      record c.state.kernel.files .byName (ascii "a") = some []) ∧
    ∃ c, Reached anyRun tick c ∧
      (ascii "a", tick 1, [2]) ∈ c.state.stored ∧ tick 1 ∉ c.state.begun ∧
      c.procs 0 = none ∧ c.procs 1 = none ∧ record c.state.kernel.files .byName (ascii "a") = none := by
  constructor
  · have played : (Program.Pool.play pool exec [.start 0 (.store (ascii "a") [1]), .steps 0 29, .stop 0,
          .start 0 (.store (ascii "a") [2]), .steps 0 29, .stop 0, .start 1 (.remove (tick 0)), .steps 1 27]
          (initial tick)).map
        (fun c => (c.state.begun, c.state.stored, record c.state.kernel.files .byName (ascii "a"))) =
          some ([tick 0], [(ascii "a", tick 1, [2]), (ascii "a", tick 0, [1])], some []) := rfl
    obtain ⟨c, reached, seen⟩ := played_reached played
    simp only [Prod.mk.injEq] at seen
    obtain ⟨begun, stored, emptied⟩ := seen
    refine ⟨c, reached, ?_, ?_, emptied⟩
    · rw [stored]
      exact List.mem_cons_self
    · rw [begun]
      decide
  · have played : (Program.Pool.play pool exec [.start 0 (.store (ascii "a") [1]), .steps 0 29, .stop 0,
          .start 1 (.remove (tick 0)), .steps 1 22, .start 0 (.store (ascii "a") [2]), .steps 0 2,
          .steps 1 4, .stop 1, .steps 0 27, .stop 0] (initial tick)).map
        (fun c => (c.state.begun, c.state.stored, (c.procs 0).isNone, (c.procs 1).isNone,
          record c.state.kernel.files .byName (ascii "a"))) =
          some ([tick 0], [(ascii "a", tick 1, [2]), (ascii "a", tick 0, [1])], true, true, none) := rfl
    obtain ⟨c, reached, seen⟩ := played_reached played
    simp only [Prod.mk.injEq, Option.isNone_iff_eq_none] at seen
    obtain ⟨begun, stored, first, second, lost⟩ := seen
    refine ⟨c, reached, ?_, ?_, first, second, lost⟩
    · rw [stored]
      exact List.mem_cons_self
    · rw [begun]
      decide

end Sfsdb.Processes

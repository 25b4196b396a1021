import Sfsdb.Interleaving
import Sfsdb.Refinement

/-!
Who waits for whom. Locks are taken in one order: an index first, then at most
the record of an id, and whoever holds that asks for nothing more. So the owner
of a lock that is waited for at the end of a chain of two can go on.
-/

namespace Sfsdb.Processes

open Posix Storage
open Volume (Dir)

variable {t : Terms} {p q : Pid} {c : Config} {w : World} {g : Ghost} {source : Nat → Bytes}

def asked (c : Config) (p : Pid) : Option (Fd × LockKind) :=
  match c.procs p with
  | some (_, .call (.lock fd kind) _) => some (fd, kind)
  | _ => none

theorem asked_iff {fd : Fd} {kind : LockKind} : asked c p = some (fd, kind) ↔
    ∃ op next, c.procs p = some (op, .call (.lock fd kind) next) := by
  constructor
  · intro asks
    unfold asked at asks
    split at asks
    · rename_i op fd' kind' next working
      cases asks
      exact ⟨op, next, working⟩
    · cases asks
  · rintro ⟨op, next, working⟩
    simp [asked, working]

def Waits (c : Config) (p q : Pid) : Prop :=
  q ≠ p ∧ ∃ fd kind d i held, asked c p = some (fd, kind) ∧ c.state.kernel.descOf p fd = some d ∧
    d.ino = some i ∧ (q, held) ∈ c.state.kernel.locks i ∧ (kind = .write ∨ held = .write)

def Moving (c : Config) (p : Pid) : Prop :=
  ∃ op program program' w', c.procs p = some (op, program) ∧
    Program.Step (Calls anyRun p) program c.state program' w'

def Finished (c : Config) (p : Pid) : Prop := ∃ op answer, c.procs p = some (op, .done answer)

theorem fine_of_formats (formats : ∀ n, Uid.Format (source n)) : Fine source :=
  fun m => ⟨(formats m).plain, (formats m).free SEPARATOR (by decide)⟩

theorem Session.unlocked {D : Fd → Option Description} {F : List Fact} (session : Session t p D [] F w g)
    (i : Ino) (kind : LockKind) : (p, kind) ∉ w.locks i :=
  session.unheld (by simp) kind

theorem Idle.unlocked (idle : Idle t p w g) (i : Ino) (kind : LockKind) : (p, kind) ∉ w.locks i := by
  obtain ⟨D, session⟩ := idle
  exact session.unlocked i kind

theorem Ended.unlocked {op : Op} {answer : Answer} (ended : Ended t p op answer w g) (i : Ino)
    (kind : LockKind) : (p, kind) ∉ w.locks i := by
  cases op with
  | store name data =>
      cases answer with
      | stored r =>
          cases r with
          | ok id =>
              obtain ⟨D, j, k, session⟩ := ended
              exact session.unlocked i kind
          | error e => exact Idle.unlocked ended i kind
      | _ => exact Idle.unlocked ended i kind
  | getName name =>
      cases answer with
      | listed r =>
          obtain ⟨D, session⟩ := ended
          exact session.unlocked i kind
      | _ => exact Idle.unlocked ended i kind
  | _ => exact Idle.unlocked ended i kind

theorem call_answered (k : Kernel) (p : Pid) (call : Call) :
    (∃ r k', k.exec p call = some (r, k')) ∨ ∃ fd kind d i, call = .lock fd kind ∧
      k.descOf p fd = some d ∧ d.ino = some i ∧ k.conflicts p i kind = true := by
  cases call with
  | lock fd kind =>
      cases found : k.descOf p fd with
      | none => exact Or.inl ⟨.error EBADF, k, by simp [Kernel.exec, Kernel.lockFile, found]⟩
      | some d =>
          cases ino : d.ino with
          | none =>
              left
              simp only [Kernel.exec, Kernel.lockFile, found, ino]
              split <;> exact ⟨_, _, rfl⟩
          | some i =>
              cases conflict : k.conflicts p i kind with
              | true => exact Or.inr ⟨fd, kind, d, i, rfl, found, ino, conflict⟩
              | false =>
                  left
                  simp only [Kernel.exec, Kernel.lockFile, found, ino, conflict, Bool.false_eq_true, ↓reduceIte]
                  split <;> exact ⟨_, _, rfl⟩
  | recv len =>
      left
      simp only [Kernel.exec]
      split <;> exact ⟨_, _, rfl⟩
  | _ => exact Or.inl ⟨_, _, rfl⟩

theorem busy_cases {op : Op} {program : Prog Answer} (busy : c.procs p = some (op, program)) :
    Finished c p ∨ Moving c p ∨ ∃ q, Waits c p q := by
  cases program with
  | done answer => exact Or.inl ⟨op, answer, busy⟩
  | loop body start next => exact Or.inr (Or.inl ⟨op, _, _, _, busy, Program.Step.loop⟩)
  | call call next =>
      rcases call_answered c.state.kernel p call with ⟨r, k', answered⟩ | ⟨fd, kind, d, i, rfl, found, ino, conflict⟩
      · have does : Calls anyRun p call c.state r (c.state.after k') :=
          exec_calls (allowed_any _ _ _) (Option.map_eq_some_iff.mpr ⟨(r, k'), answered, rfl⟩)
        exact Or.inr (Or.inl ⟨op, _, _, _, busy, Program.Step.call does⟩)
      · obtain ⟨⟨q, held⟩, member, excludes⟩ := List.any_eq_true.mp conflict
        simp only [Bool.and_eq_true, decide_eq_true_eq, Bool.or_eq_true] at excludes
        exact Or.inr (Or.inr ⟨q, excludes.1, fd, kind, d, i, held, asked_iff.mpr ⟨op, next, busy⟩, found, ino,
          member, excludes.2⟩)

theorem Waits.owner (waits : Waits c p q) (holds : Holds t c g) :
    ∃ op program, c.procs q = some (op, program) ∧ ¬ Finished c q := by
  obtain ⟨_, fd, kind, d, i, held, _, _, _, member, _⟩ := waits
  cases working : c.procs q with
  | none => exact absurd member (Idle.unlocked (holds.idle q working) i held)
  | some task =>
      obtain ⟨op', program⟩ := task
      refine ⟨op', program, rfl, ?_⟩
      rintro ⟨op'', answer, finished⟩
      rw [working] at finished
      cases finished
      have ended : Ended t q op' answer c.state g :=
        Program.meets_closed.done answer _ _ holds.inv (holds.busy q op' _ working)
      exact ended.unlocked i held member

theorem Waits.order (waits : Waits c p q) (holds : Holds t c g) :
    (∀ i kind, (p, kind) ∉ c.state.locks i) ∨ ∃ i n, g.role i = some (.byName, n) ∧
      (∀ j kind, (p, kind) ∈ c.state.locks j → j = i) ∧
      ∃ j x held, g.role j = some (.byId, x) ∧ (q, held) ∈ c.state.locks j := by
  obtain ⟨_, fd, kind, d, i, held, asks, found, ino, member, _⟩ := waits
  obtain ⟨op, next, working⟩ := asked_iff.mp asks
  have expected : Expects p (.lock fd kind) c.state g :=
    Program.meets_closed.call _ _ _ _ holds.inv (holds.busy p op _ working)
  -- a call is made only where the protocol expects it
  rcases expected with nothing | ⟨j, n, role, only, asks⟩
  · exact Or.inl nothing
  · obtain ⟨x, record⟩ := asks d i found ino
    exact Or.inr ⟨j, n, role, only, i, x, held, record, member⟩

theorem Waits.chain {r s : Pid} (first : Waits c p q) (second : Waits c q r) (holds : Holds t c g) :
    ¬ Waits c r s := by
  -- There is no chain of three: whoever is asked for a record by one that holds an index asks for
  -- nothing.
  intro third
  obtain ⟨_, _, _, _, i, held, _, _, _, member, _⟩ := first
  -- `q` holds the lock that `p` asks for, so it has come to a record
  rcases second.order holds with nothing | ⟨_, _, _, _, j, x, lock, record, owned⟩
  · exact nothing i held member
  · rcases third.order holds with nothing | ⟨i', n, index, only, _⟩
    · exact nothing j lock owned
    · rw [only j lock owned, index] at record
      cases record

/-- In every state that any number of processes reach, whichever operations they
run and in whatever order they take their steps, some process can go on as long
as one is not finished, and no set of processes waits for itself. -/
theorem locking_cannot_deadlock (formats : ∀ n, Uid.Format (source n)) (reached : Reached anyRun source c) :
    (∀ p op program, c.procs p = some (op, program) → ¬ Finished c p → ∃ q, Moving c q) ∧
      ∀ S : Set Pid, S.Nonempty → ¬ ∀ p ∈ S, ∃ q ∈ S, Waits c p q := by
  obtain ⟨g, holds⟩ := Reached.holds reached (fine_of_formats formats)
  have follow : ∀ {p q}, Waits c p q → Moving c q ∨ ∃ r, Waits c q r := by
    intro p q waits
    obtain ⟨op, program, working, unfinished⟩ := waits.owner holds
    exact (busy_cases working).resolve_left unfinished
  constructor
  · intro p op program working unfinished
    rcases (busy_cases working).resolve_left unfinished with moving | ⟨q, first⟩
    · exact ⟨p, moving⟩
    · rcases follow first with moving | ⟨r, second⟩
      · exact ⟨q, moving⟩
      · rcases follow second with moving | ⟨s, third⟩
        · exact ⟨r, moving⟩
        · exact absurd third (first.chain second holds)
  · rintro S ⟨p, member⟩ closed
    obtain ⟨q, inside, first⟩ := closed p member
    obtain ⟨r, inside', second⟩ := closed q inside
    obtain ⟨s, _, third⟩ := closed r inside'
    exact first.chain second holds third

/-- One process lists a name while another holds the index to write. -/
theorem locking_cannot_deadlock_waiting : ∃ c, Reached anyRun Volume.tick c ∧ Waits c 1 0 ∧ ∃ q, Moving c q := by
  have formats : ∀ n, Uid.Format (Volume.tick n) := fun n => Uid.get_format n 0 0 0 0 0 0
  have played : (Program.Pool.play pool exec [.start 0 (.create (ascii "a")), .steps 0 3,
      .start 1 (.getName (ascii "a")), .steps 1 1] (initial Volume.tick)).map
      (fun c => (asked c 1, c.state.kernel.descOf 1 1, c.state.kernel.locks 0)) =
        some (some (1, .read), some ⟨1, some 0, Flstream.RDONLY, 0⟩, [(0, .write)]) := rfl
  obtain ⟨c, reached, seen⟩ := played_reached played
  simp only [Prod.mk.injEq] at seen
  obtain ⟨asks, found, locks⟩ := seen
  have waits : Waits c 1 0 := by
    refine ⟨by decide, 1, .read, _, 0, .write, asks, found, rfl, ?_, Or.inr rfl⟩
    rw [locks]
    exact List.mem_cons_self
  obtain ⟨op, next, working⟩ := asked_iff.mp asks
  refine ⟨c, reached, waits, (locking_cannot_deadlock formats reached).1 1 op _ working ?_⟩
  rintro ⟨_, _, finished⟩
  rw [working] at finished
  cases finished

end Sfsdb.Processes

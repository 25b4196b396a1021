import Sfsdb.Duplex
import Sfsdb.FileView
import Sfsdb.Footprint

/-!
A process and its end of a connection. A receive with `MSG_WAITALL` is answered
once all its bytes have come in, or cannot come any more; `closed` tells that the
process has closed the connection itself, and then nothing is received, said or
waited for. The calls of one end are the port of `Duplex` that its lemmas ask for.
-/

namespace Sfsdb.Connection

open Posix
open Duplex (Port Talks Listens)

structure Endpoint where
  kernel : Kernel
  closed : Bool

def Endpoint.exec (p : Pid) (c : Call) : Endpoint → Option (Resp c × Endpoint)
  | ⟨k, false⟩ => (k.exec p c).map fun result => (result.1, ⟨result.2, c = .disconnect⟩)
  | ⟨k, true⟩ => match c with
    | .send _ => some (.error (), ⟨k, true⟩)
    | .recv len => some (k.short len [], ⟨k, true⟩)
    | c => (k.exec p c).map fun result => (result.1, ⟨result.2, true⟩)

def Endpoint.emits : Call → Endpoint → Bytes
  | .send bytes, ⟨_, false⟩ => bytes
  | _, _ => []

def Endpoint.needs : Call → Endpoint → Nat
  | .recv len, ⟨_, false⟩ => len
  | _, _ => 0

def Endpoint.deliver (p : Pid) (e : Endpoint) (b : Byte) : Endpoint :=
  if e.closed then e else ⟨e.kernel.hears p (e.kernel.inbox p ++ [b]), false⟩

def port (p : Pid) : Port Call Resp Endpoint Byte where
  exec := Endpoint.exec p
  emits := Endpoint.emits
  needs := Endpoint.needs
  inbox e := e.kernel.inbox p
  deliver := Endpoint.deliver p

def Converses (c : Call) : Prop := (∀ len, c ≠ .recv len) ∧ c ≠ .disconnect

section Laws
variable {p : Pid} {k k' : Kernel} {c : Call}

theorem exec_hears (converses : Converses c) (x : Bytes) :
    (k.hears p x).exec p c = (k.exec p c).map fun result => (result.1, result.2.hears p x) := by
  cases c with
  | recv len => exact absurd rfl (converses.1 len)
  | disconnect => exact absurd rfl converses.2
  | lock fd kind =>
      have same : ∀ i, (k.hears p x).conflicts p i kind = k.conflicts p i kind := fun _ => rfl
      simp only [Kernel.exec, Kernel.lockFile, same, show (k.hears p x).descOf p fd = k.descOf p fd from rfl]
      repeat' split
      all_goals rfl
  | remove path =>
      simp only [Kernel.exec, Kernel.removeFile, show (k.hears p x).files = k.files from rfl, Option.map_some]
      repeat' split
      all_goals rfl
  | _ =>
      simp only [Kernel.exec, Kernel.openFile, Kernel.unlockFile, Kernel.readFile, Kernel.writeFile,
        Kernel.tellFile, Kernel.seekFile, Kernel.truncateFile, Kernel.closeFile, Kernel.mapFile,
        Kernel.statFile, Kernel.hears, Kernel.descOf, Option.map_some]
      repeat' split
      all_goals rfl

theorem exec_inbox (converses : Converses c) {r : Resp c} (answered : k.exec p c = some (r, k')) :
    k'.inbox = k.inbox := by
  cases Kernel.exec_update answered with
  | received => exact absurd rfl (converses.1 _)
  | hungUp => exact absurd rfl converses.2
  | _ => rfl

theorem exec_open (converses : Converses c) :
    Endpoint.exec p c ⟨k, false⟩ = (k.exec p c).map fun result => (result.1, ⟨result.2, false⟩) := by
  have stays : decide (c = .disconnect) = false := decide_eq_false converses.2
  simp only [Endpoint.exec, stays]

theorem needs_converses (converses : Converses c) (e : Endpoint) : e.needs c = 0 := by
  unfold Endpoint.needs
  split
  · exact absurd rfl (converses.1 _)
  · rfl

theorem exec_inbox_le {r : Resp c} (answered : k.exec p c = some (r, k')) :
    (k'.inbox p).length ≤ (k.inbox p).length := by
  cases c with
  | recv len =>
      simp only [Kernel.exec] at answered
      split at answered
      all_goals cases answered
      all_goals simp
  | disconnect =>
      cases answered
      simp
  | _ =>
      rw [exec_inbox (by simp [Converses]) answered]

theorem exec_closed {e : Endpoint} {r : Resp c} (answered : Endpoint.exec p c ⟨k, true⟩ = some (r, e)) :
    e.closed = true ∧ (e.kernel.inbox p).length ≤ (k.inbox p).length := by
  simp only [Endpoint.exec] at answered
  split at answered
  · cases answered
    exact ⟨rfl, Nat.le_refl _⟩
  · cases answered
    exact ⟨rfl, Nat.le_refl _⟩
  · obtain ⟨⟨r', k'⟩, executes, same⟩ := Option.map_eq_some_iff.mp answered
    cases same
    exact ⟨rfl, exec_inbox_le executes⟩

theorem exec_deliver (b : Byte) (enough : Endpoint.needs c ⟨k, false⟩ ≤ (k.inbox p).length) :
    Endpoint.exec p c ⟨k.hears p (k.inbox p ++ [b]), false⟩ =
      (Endpoint.exec p c ⟨k, false⟩).map fun result => (result.1, result.2.deliver p b) := by
  by_cases converses : Converses c
  · rw [exec_open converses, exec_open converses, exec_hears converses, Option.map_map, Option.map_map]
    cases executes : k.exec p c with
    | none => rfl
    | some result => simp [Endpoint.deliver, exec_inbox converses executes]
  · cases c with
    | recv len =>
        have enough : len ≤ (k.inbox p).length := enough
        have short : ¬ (k.inbox p).length < len := Nat.not_lt.mpr enough
        have still : ¬ (k.inbox p ++ [b]).length < len := by
          rw [List.length_append]
          omega
        simp only [Endpoint.exec, Kernel.exec, Kernel.hears_inbox, if_neg short, if_neg still, Option.map_some]
        rw [List.take_append_of_le_length enough, List.drop_append_of_le_length enough]
        simp [Endpoint.deliver, Kernel.hears]
    | disconnect => simp [Endpoint.exec, Kernel.exec, Endpoint.deliver, Kernel.hears]
    | _ => exact absurd (by simp [Converses]) converses

theorem port_lawful (p : Pid) : (port p).Lawful where
  takes c e r e' answered := by
    obtain ⟨k, closed⟩ := e
    cases closed with
    | true => exact (exec_closed answered).2
    | false =>
        obtain ⟨⟨r', k'⟩, executes, same⟩ := Option.map_eq_some_iff.mp answered
        cases same
        exact exec_inbox_le executes
  answers c e b enough := by
    obtain ⟨k, closed⟩ := e
    cases closed with
    | false => exact exec_deliver b enough
    | true =>
        change Endpoint.exec p c ⟨k, true⟩ = (Endpoint.exec p c ⟨k, true⟩).map _
        cases answered : Endpoint.exec p c ⟨k, true⟩ with
        | none => rfl
        | some result =>
            have closed := (exec_closed answered).1
            simp [port, Endpoint.deliver, closed]
  emits c e b := by
    obtain ⟨k, closed⟩ := e
    cases closed <;> cases c <;> rfl
  needs c e b := by
    obtain ⟨k, closed⟩ := e
    cases closed <;> cases c <;> rfl
  grows e b := by
    obtain ⟨k, closed⟩ := e
    cases closed <;> simp [port, Endpoint.deliver]

end Laws

/-! ## From runs of one process to points of a connection -/

section Points
variable {p : Pid} {k k' : Kernel} {α β : Type} {program : Prog α} {value : α}

theorem delivered_open (k : Kernel) (bytes : Bytes) :
    (port p).delivered ⟨k, false⟩ bytes = ⟨k.hears p (k.inbox p ++ bytes), false⟩ := by
  induction bytes generalizing k with
  | nil => rw [List.append_nil, Kernel.hears_same]; rfl
  | cons b rest ih =>
      have first : (port p).delivered ⟨k, false⟩ (b :: rest) =
          (port p).delivered ⟨k.hears p (k.inbox p ++ [b]), false⟩ rest := rfl
      rw [first, ih, Kernel.hears_inbox, Kernel.hears_hears, List.append_assoc, List.singleton_append]

theorem exec_emits {c : Call} {r : Resp c} (answered : k.exec p c = some (r, k')) :
    k'.sent p = k.sent p ++ Endpoint.emits c ⟨k, false⟩ := by
  by_cases sends : ∃ bytes, c = .send bytes
  · rcases sends with ⟨bytes, rfl⟩
    cases answered
    exact Function.update_self ..
  · have quiet : ∀ bytes, c ≠ .send bytes := fun bytes same => sends ⟨bytes, same⟩
    have silent : Endpoint.emits c ⟨k, false⟩ = [] := by
      unfold Endpoint.emits
      split
      · exact absurd rfl (quiet _)
      · rfl
    rw [Kernel.exec_sent quiet answered, silent, List.append_nil]

theorem talks_of_runs {R : α → Prop} (within : Program.Within Converses (fun _ _ => True) R program)
    (run : Runs p program k value k') : ∃ said, k'.sent p = k.sent p ++ said ∧ k'.inbox p = k.inbox p ∧
      Talks (port p) program ⟨k, false⟩ said (.done value) ⟨k', false⟩ := by
  induction run with
  | done => exact ⟨[], by simp, rfl, Talks.refl⟩
  | @call c next r v s middle t step _ ih =>
      cases within with
      | call converses rest =>
          obtain ⟨said, sent, inbox, talks⟩ := ih (rest r trivial)
          have executes : Endpoint.exec p c ⟨s, false⟩ = some (r, ⟨middle, false⟩) := by
            rw [exec_open converses, show s.exec p c = some (r, middle) from step]
            rfl
          refine ⟨_, ?_, ?_, Talks.call (needs_converses converses _) executes talks⟩
          · rw [sent, exec_emits step, List.append_assoc]
            rfl
          · rw [inbox, exec_inbox converses step]
  | loop _ ih =>
      obtain ⟨said, sent, inbox, talks⟩ := ih within.unroll
      exact ⟨said, sent, inbox, Talks.loop talks⟩

theorem receives {f : Except Unit Bytes → Prog β} {front rest : Bytes} (inbox : k.inbox p = front ++ rest) :
    Listens (port p) ((Sys.recv front.length).bind f) ⟨k, false⟩ (f (.ok front)) ⟨k.hears p rest, false⟩ := by
  have enough : front.length ≤ (k.inbox p).length := by
    rw [inbox, List.length_append]
    omega
  refine Listens.call (c := Call.recv front.length) (r := Except.ok front) enough rfl ?_ Listens.refl
  change (k.exec p (.recv front.length)).map _ = _
  rw [recv_exec inbox]
  rfl

/-- A program of receives, each of which makes the value `lost` if it fails. -/
inductive Insists (lost : α) : Prog α → Prop where
  | done {value : α} : Insists lost (.done value)
  | recv {len : Nat} {next : Except Unit Bytes → Prog α} : next (.error ()) = .done lost →
      (∀ bytes, Insists lost (next (.ok bytes))) → Insists lost (.call (.recv len) next)

theorem Insists.listens {lost : α} (insists : Insists lost program) (run : Runs p program k value k')
    (throws : k.Throws) (other : value ≠ lost) : Listens (port p) program ⟨k, false⟩ (.done value) ⟨k', false⟩ := by
  induction insists generalizing k with
  | done =>
      obtain ⟨rfl, rfl⟩ := Program.runs_done_iff.mp run
      exact Listens.refl
  | @recv len next fails _ ih =>
      obtain ⟨r, middle, answered, rest⟩ := Program.runs_call_iff.mp run
      have answered : k.exec p (.recv len) = some (r, middle) := answered
      cases r with
      | error e =>
          rw [show next (.error e) = .done lost from fails] at rest
          exact absurd (Program.runs_done_iff.mp rest).1 other
      | ok bytes =>
          have enough : len ≤ (k.inbox p).length := by
            by_contra short
            have less := Nat.lt_of_not_le short
            simp [Kernel.exec, less, throws len _ less] at answered
          have still : middle.Throws := by
            intro len bytes less
            rw [Kernel.exec_short answered]
            exact throws len bytes less
          refine Listens.call (c := Call.recv len) (r := Except.ok bytes) enough rfl ?_ (ih bytes rest still)
          change (k.exec p (.recv len)).map _ = _
          rw [answered]
          rfl

end Points
end Sfsdb.Connection

import Sfsdb.Layout
import Sfsdb.Server

/-!
Which items `get_type` reports as found, and which frames `con_handler` turns
away. The error number of a mismatch is the type that was found instead, and
zero stands for success, so an item of type 0 passes for whatever was expected.
-/

namespace Sfsdb.Screening

open Posix Protocol Handlers

def wireType (m : Mem) (pos : Nat) : Option Nat := (toHosts m pos).map Prod.fst

def Stands (m : Mem) (pos : Nat) (expected : Data) : Prop :=
  wireType m pos = some expected.type ∧
    ∃ object next, expected.fromBytes m pos = some (true, object, next)

/-- Success is reported where the expected item was parsed, and nowhere else. -/
def Truthful (m : Mem) (pos : Nat) (expected : Data) : Prop :=
  ∀ err object next, getType m pos expected = some (err, object, next) →
    (err.no = 0 ↔ Stands m pos expected) ∧ (wireType m pos ≠ some expected.type → err.no ≠ 0)

/-- However requests would be served, a connection that sends `head` next is
answered with an error frame and left, and nothing is dispatched. -/
def Rejects (libc : Libc) (stale : Nat) (head : Bytes) : Prop :=
  ∀ (σ : Type) (serve : σ → Data → Bytes → Prog (σ ⊕ σ × Server.End)) (st : σ) (p : Pid)
    (k : Kernel) (rest : Bytes), k.inbox p = head ++ rest →
    Gives p (Server.conLoop libc stale serve st) k (st, .left)
      ((k.hears p rest).said p (errorMessage wrongParameterType.val))

/-! ## The verdict of `get_type` -/

section Verdict
variable {m : Mem} {pos : Nat} {expected : Data}

theorem getType_other {found : Nat} (wire : wireType m pos = some found)
    (other : found ≠ expected.type) :
    getType m pos expected = some (⟨found, .text wrongParameterType⟩, expected, pos) := by
  obtain ⟨⟨read, next⟩, hosts, rfl⟩ := Option.map_eq_some_iff.mp wire
  simp only [getType, hosts, Option.bind_eq_bind, Option.bind_some]
  rw [if_pos other]
  rfl

-- On a match the verdict is that of `data::from`.
theorem getType_same (wire : wireType m pos = some expected.type) {err : Error} {object : Data}
    {next : Nat} (read : getType m pos expected = some (err, object, next)) :
    ∃ accepted, expected.fromBytes m pos = some (accepted, object, next) ∧
      (err.no = 0 ↔ accepted = true) := by
  obtain ⟨⟨found, behind⟩, hosts, rfl⟩ := Option.map_eq_some_iff.mp wire
  simp only [getType, hosts, Option.bind_eq_bind, Option.bind_some, ne_eq, not_true_eq_false,
    ↓reduceIte, Option.bind_eq_some_iff] at read
  obtain ⟨⟨accepted, object', next'⟩, parsed, verdict⟩ := read
  cases accepted with
  | true =>
      cases verdict
      exact ⟨true, parsed, by simp [Error.ofErrno]⟩
  | false =>
      cases verdict
      exact ⟨false, parsed, by simp⟩

theorem getType_wire {result : Error × Data × Nat} (read : getType m pos expected = some result) :
    ∃ found, wireType m pos = some found := by
  simp only [getType, Option.bind_eq_bind, Option.bind_eq_some_iff] at read
  obtain ⟨⟨found, next⟩, hosts, _⟩ := read
  exact ⟨found, by simp [wireType, hosts]⟩

theorem truthful_iff (m : Mem) (pos : Nat) (expected : Data) :
    Truthful m pos expected ↔ wireType m pos ≠ some ids.INVALID ∨ expected.type = ids.INVALID := by
  constructor
  · intro truthful
    by_contra both
    obtain ⟨wire, other⟩ := not_or.mp both
    have zero := not_not.mp wire
    have found := getType_other zero (Ne.symm other)
    exact (truthful _ _ _ found).2 (by simpa [zero] using Ne.symm other) rfl
  · intro condition err object next read
    obtain ⟨found, wire⟩ := getType_wire read
    by_cases same : found = expected.type
    · subst same
      obtain ⟨accepted, parsed, verdict⟩ := getType_same wire read
      refine ⟨verdict.trans ⟨?_, ?_⟩, fun mismatch => absurd wire mismatch⟩
      · rintro rfl
        exact ⟨wire, _, _, parsed⟩
      · rintro ⟨_, _, _, accepts⟩
        exact (Prod.mk.inj (Option.some.inj (parsed.symm.trans accepts))).1
    · -- the number reported is the type found
      have nonzero : found ≠ 0 := by
        rintro rfl
        rcases condition with some | asked
        · exact some wire
        · exact same asked.symm
      rw [getType_other wire same] at read
      cases read
      have other : wireType m pos ≠ some expected.type := by
        rw [wire]
        simpa using same
      have failed : ((found : Int) ≠ 0) := by exact_mod_cast nonzero
      exact ⟨⟨fun zero => absurd zero failed, fun stands => absurd stands.1 other⟩, fun _ => failed⟩

end Verdict

/-! ## The first item of a frame -/

section Frames
variable {libc : Libc} {stale : Nat} {p : Pid} {k : Kernel} {head rest : Bytes} {σ : Type}
  {serve : σ → Data → Bytes → Prog (σ ⊕ σ × Server.End)} {st : σ}

theorem conPass_rejects {found : Nat} (whole : head.length = HEADER_BYTES)
    (inbox : k.inbox p = head ++ rest) (wire : wireType (Mem.ofList head) 0 = some found)
    (other : found ≠ ids.HEADER) (some : found ≠ 0) :
    Runs p (Server.conPass libc stale serve st) k (.inr (st, .left))
      ((k.hears p rest).said p (errorMessage wrongParameterType.val)) := by
  have read : Runs p (Sys.recv HEADER_BYTES) k (.ok head) (k.hears p rest) :=
    whole ▸ recv_runs inbox
  apply read.bind
  dsimp only
  rw [getType_other wire (show found ≠ (Server.header stale).type from other)]
  dsimp only
  rw [if_pos (by simpa [Error.isError] using some)]
  exact (send_runs p _ _).bind Program.Runs.done

-- A frame of type 0 is served as an empty request of whatever command the header object held.
theorem conPass_zero {result : σ ⊕ σ × Server.End} {k' : Kernel} (whole : head.length = HEADER_BYTES)
    (inbox : k.inbox p = head ++ rest) (wire : wireType (Mem.ofList head) 0 = some ids.INVALID)
    (served : Runs p (serve st (Server.header stale) []) (k.hears p rest) result k') :
    Runs p (Server.conPass libc stale serve st) k result k' := by
  have read : Runs p (Sys.recv HEADER_BYTES) k (.ok head) (k.hears p rest) :=
    whole ▸ recv_runs inbox
  have nothing : Runs p (Sys.recv 0) (k.hears p rest) (.ok []) (k.hears p rest) := by
    have empty := @recv_runs p (k.hears p rest) [] rest (Kernel.hears_inbox rest)
    rwa [Kernel.hears_hears] at empty
  apply read.bind
  dsimp only
  rw [getType_other wire (show ids.INVALID ≠ (Server.header stale).type by
    simp [Server.header, ids.INVALID, ids.HEADER])]
  dsimp only
  rw [if_neg (by simp [Error.isError, ids.INVALID])]
  exact nothing.bind served

theorem rejects_iff (libc : Libc) (stale : Nat) (head : Bytes) (whole : head.length = HEADER_BYTES)
    (other : wireType (Mem.ofList head) 0 ≠ some ids.HEADER) :
    Rejects libc stale head ↔ wireType (Mem.ofList head) 0 ≠ some ids.INVALID := by
  constructor
  · intro rejects wire
    let k : Kernel := { Volume.initKernel (fun _ => []) with inbox := fun _ => head }
    have inbox : k.inbox 0 = head ++ [] := (List.append_nil head).symm
    have served : Runs 0 (Server.conLoop libc stale (fun _ _ _ => return .inr (true, .left)) false)
        k (true, .left) (k.hears 0 []) :=
      (conPass_zero whole inbox wire Program.Runs.done).leave
    have left := ((rejects Bool _ false 0 k [] inbox) _ _).mp served
    simp at left
  · intro some σ serve st p k rest inbox
    obtain ⟨found, wire⟩ : ∃ found, wireType (Mem.ofList head) 0 = .some found := by
      match head, whole with
      | a :: b :: _, _ => exact ⟨_, rfl⟩
    exact gives_of_runs (conPass_rejects whole inbox wire (fun same => other (same ▸ wire))
      (fun zero => some (by rw [wire, zero]; rfl))).leave

end Frames

/-- Success is reported exactly for the expected item, and a frame without a
header is turned away, unless the type found is 0. -/
theorem get_type_reports_success (m : Mem) (pos : Nat) (expected : Data) (libc : Libc) (stale : Nat)
    (head : Bytes) :
    (Truthful m pos expected ↔ wireType m pos ≠ some ids.INVALID ∨ expected.type = ids.INVALID) ∧
    (head.length = HEADER_BYTES → wireType (Mem.ofList head) 0 ≠ some ids.HEADER →
      (Rejects libc stale head ↔ wireType (Mem.ofList head) 0 ≠ some ids.INVALID)) :=
  ⟨truthful_iff m pos expected, rejects_iff libc stale head⟩

/-- A frame of eight zeros. -/
theorem get_type_reports_success_zeros :
    (Truthful (Mem.ofList (List.replicate 8 0)) 0 (Server.header 1) ↔
      wireType (Mem.ofList (List.replicate 8 0)) 0 ≠ some ids.INVALID ∨
        (Server.header 1).type = ids.INVALID) ∧
    (Rejects ⟨fun _ => ⟨[], by decide⟩, fun _ _ => ⟨[], by decide⟩, fun _ _ => none⟩ 1 (List.replicate 8 0) ↔
      wireType (Mem.ofList (List.replicate 8 0)) 0 ≠ some ids.INVALID) := by
  obtain ⟨truthful, rejects⟩ := get_type_reports_success (Mem.ofList (List.replicate 8 0)) 0
    (Server.header 1) ⟨fun _ => ⟨[], by decide⟩, fun _ _ => ⟨[], by decide⟩, fun _ _ => none⟩ 1 (List.replicate 8 0)
  exact ⟨truthful, rejects rfl (by decide)⟩

/-- It is reported as the header that was expected, and a command is dispatched from it. -/
theorem zeros_pass_as_header :
    ¬ Truthful (Mem.ofList (List.replicate 8 0)) 0 (Server.header 1) ∧
    ¬ Rejects ⟨fun _ => ⟨[], by decide⟩, fun _ _ => ⟨[], by decide⟩, fun _ _ => none⟩ 1 (List.replicate 8 0) := by
  constructor
  · rw [truthful_iff]
    decide
  · rw [rejects_iff _ _ _ rfl (by decide)]
    decide

end Sfsdb.Screening

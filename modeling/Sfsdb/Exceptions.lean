import Sfsdb.Logs
import Sfsdb.StorageCalls

/-!
Which removals end in an exception, read off the log of their run. The first
`std::filesystem::remove` of `object::remove` that fails is also its last call, and
the error it reports carries the text of that exception; one that fails behind the
try block leaves no result. No other refusal of a volume carries such a text.
-/

namespace Sfsdb

open Posix

namespace Posix

abbrev Log := List (Sigma Resp)

/-- The calls of process `p`, any of which may fail, beside the log they leave. -/
abbrev Recorded (p : Pid) (c : Call) (s : Kernel × Log) (r : Resp c) (t : Kernel × Log) : Prop :=
  Program.logged (Kernel.MayDo p) c s r t

def Unfailing (log : Log) : Prop := ∀ path no, ⟨.remove path, .error no⟩ ∉ log

theorem unfailing_append {log more : Log} : Unfailing (log ++ more) ↔ Unfailing log ∧ Unfailing more := by
  simp [Unfailing, forall_and]

end Posix

namespace Footprint

def keeping : Footprint where
  opens _ _ := True
  removes _ := False
  stats _ := True
  writes := True
  talks := True
  draws _ := True

def anything : Footprint := { keeping with removes := fun _ => True }

theorem Holds.unfailing {α : Type} {R : α → Prop} {program : Prog α} (holds : keeping.Holds R program)
    {p : Pid} {s t : Kernel × Log} {value : α} (run : Program.Runs (Recorded p) program s value t)
    (clean : Unfailing s.2) : R value ∧ Unfailing t.2 := by
  have respects : Program.Respects keeping.Covers keeping.Answers (Kernel.MayDo p) fun _ => True := by
    intro c k r k' _ _ _
    exact ⟨answers_of_draws (fun _ => trivial) c r, trivial⟩
  have quiet : ∀ c r, keeping.Covers c → ∀ path no, (⟨c, r⟩ : Sigma Resp) ≠ ⟨.remove path, .error no⟩ := by
    rintro c r covered path no ⟨⟩
    exact covered
  have logs := Program.Within.logs (fun event => ∀ path no, event ≠ ⟨.remove path, .error no⟩)
    respects quiet holds run trivial fun event member path no same => clean path no (same ▸ member)
  exact ⟨logs.1, fun path no member => logs.2.2 _ member path no rfl⟩

end Footprint

def Error.Numbered (e : Error) : Prop := e = .ofErrno e.no

theorem Error.Numbered.read {e : Error} (numbered : e.Numbered) (libc : Libc) :
    e.msg.read libc = some (libc.strerror e.no) := by
  rw [numbered]
  rfl

def Refuses (result : Option (Except Error Unit)) : Prop := ∀ e, result = some (.error e) → e.Numbered

/-- What the log of a removal tells of its result. -/
inductive Course : Except Error Unit → Log → Prop where
  | smooth {result : Except Error Unit} {log : Log} :
      Unfailing log → (∀ e, result = .error e → e.Numbered) → Course result log
  | thrown {path : Bytes} {no : Errno} {log : Log} :
      Unfailing log → Course (.error ⟨no, .what no path⟩) (log ++ [⟨.remove path, .error no⟩])

def TakesCourse (p : Pid) (program : Prog (Option (Except Error Unit))) : Prop :=
  ∀ s result t, Program.Runs (Recorded p) program s (some result) t → Unfailing s.2 → Course result t.2

section Courses
variable {p : Pid}

theorem course_ok : TakesCourse p (.done (some (.ok ()))) := by
  intro s result t run clean
  obtain ⟨same, rfl⟩ := Program.runs_done_iff.mp run
  cases same
  exact .smooth clean fun e failed => nomatch failed

theorem course_numbered (no : Int) : TakesCourse p (.done (some (.error (.ofErrno no)))) := by
  intro s result t run clean
  obtain ⟨same, rfl⟩ := Program.runs_done_iff.mp run
  cases same
  refine .smooth clean fun e failed => ?_
  cases failed
  rfl

theorem TakesCourse.bind {α : Type} {R : α → Prop} {program : Prog α}
    {f : α → Prog (Option (Except Error Unit))} (first : Footprint.keeping.Holds R program)
    (second : ∀ value, R value → TakesCourse p (f value)) : TakesCourse p (program.bind f) := by
  intro s result t run clean
  obtain ⟨value, middle, before, after⟩ := Program.runs_bind_split run
  obtain ⟨here, still⟩ := first.unfailing before clean
  exact second value here middle result t after still

/-- A removal that fails is the last call, where it leaves a result at all. -/
theorem TakesCourse.removal {path : Bytes} {f : Except Errno Bool → Prog (Option (Except Error Unit))}
    (fails : ∀ no, f (.error no) = .done none ∨ f (.error no) = .done (some (.error ⟨no, .what no path⟩)))
    (succeeds : ∀ found, TakesCourse p (f (.ok found))) : TakesCourse p ((Sys.remove path).bind f) := by
  intro s result t run clean
  obtain ⟨removed, middle, before, after⟩ := Program.runs_bind_split run
  have noted : middle.2 = s.2 ++ [⟨.remove path, removed⟩] := (Program.runs_issue_iff.mp before).2
  cases removed with
  | ok found =>
      refine succeeds found middle result t after ?_
      rw [noted, unfailing_append]
      exact ⟨clean, by simp [Unfailing]⟩
  | error no =>
      rcases fails no with ends | ends
      · rw [ends] at after
        cases (Program.runs_done_iff.mp after).1
      · rw [ends] at after
        obtain ⟨same, rfl⟩ := Program.runs_done_iff.mp after
        cases same
        rw [noted]
        exact .thrown clean

end Courses

namespace Storage

variable {p : Pid}

theorem byId_refuses {F : Footprint} (id : Bytes) (opens : F.opens (ID_DIR ++ id) Flstream.RDONLY) :
    F.Holds (fun r => ∀ e, r = .error e → e.Numbered) (byId id) := by
  apply (Flstream.new_holds opens).bind
  intro s _
  dsimp only
  split
  · refine s.close_holds.bind fun _ _ => Footprint.holds_done ?_
    rintro e ⟨⟩
    rfl
  · refine (s.lock_uses .read).holds.bind fun s _ => (s.getline_uses SEPARATOR).holds.bind fun read _ =>
      read.2.2.close_holds.bind fun _ _ => Footprint.holds_done ?_
    rintro e ⟨⟩

theorem unlist_refuses (object : Object) : Footprint.anything.Holds Refuses object.unlist := by
  apply (Flstream.new_holds trivial).bind
  intro s own
  dsimp only
  split
  · refine s.close_holds.bind fun _ _ => Footprint.holds_done ?_
    rintro e ⟨⟩
    rfl
  · refine (s.lock_uses .write).holds.bind fun s₁ locked => (s₁.getlines_uses SEPARATOR).holds.bind fun read more => ?_
    have own : read.2.Own 0 := own.follows (more.trans locked)
    refine (read.2.seek_uses 0).holds.bind fun _ _ => ?_
    refine (read.2.truncate_uses trivial trivial own 0).holds.bind fun _ _ => ?_
    apply (rewrite_uses trivial object.id read.1 true read.2 own).holds.bind
    rintro ⟨empty, s⟩ _
    have done : ∀ s : Flstream,
        Footprint.anything.Holds Refuses (s.close.bind fun _ => .done (some (.ok ()))) :=
      fun s => s.close_holds.bind fun _ _ => Footprint.holds_done fun e failed => by cases failed
    dsimp only
    split
    · have removes : Footprint.anything.Holds Footprint.Any (Sys.remove (NAME_DIR ++ object.name)) :=
        Footprint.holds_issue (c := .remove (NAME_DIR ++ object.name)) trivial
      refine removes.bind fun removed _ => ?_
      cases removed with
      | error no => exact Footprint.holds_done fun e failed => by cases failed
      | ok _ => exact s.close_holds.bind fun s _ => done s
    · exact done s

theorem unlist_course (object : Object) : TakesCourse p object.unlist := by
  apply TakesCourse.bind (Flstream.new_holds trivial)
  intro s own
  dsimp only
  split
  · exact TakesCourse.bind s.close_holds fun _ _ => course_numbered _
  · refine TakesCourse.bind (s.lock_uses .write).holds fun s₁ locked => ?_
    refine TakesCourse.bind (s₁.getlines_uses SEPARATOR).holds fun read more => ?_
    have own : read.2.Own 0 := own.follows (more.trans locked)
    refine TakesCourse.bind (read.2.seek_uses 0).holds fun _ _ => ?_
    refine TakesCourse.bind (read.2.truncate_uses trivial trivial own 0).holds fun _ _ => ?_
    apply TakesCourse.bind (rewrite_uses trivial object.id read.1 true read.2 own).holds
    rintro ⟨empty, s⟩ _
    dsimp only
    split
    · refine TakesCourse.removal (fun no => Or.inl rfl) fun _ => ?_
      exact TakesCourse.bind s.close_holds fun s _ => TakesCourse.bind s.close_holds fun _ _ => course_ok
    · exact TakesCourse.bind s.close_holds fun _ _ => course_ok

theorem remove_course (object : Object) : TakesCourse p object.remove :=
  TakesCourse.removal (fun _ => Or.inr rfl) fun _ =>
    TakesCourse.removal (fun _ => Or.inr rfl) fun _ => unlist_course object

end Storage

theorem Volume.remove_course {p : Pid} (id : Bytes) : TakesCourse p (Volume.remove id) := by
  apply TakesCourse.bind (Storage.byId_refuses id trivial)
  intro found numbered
  cases found with
  | error e =>
      have same : e = .ofErrno e.no := numbered e rfl
      rw [same]
      exact course_numbered e.no
  | ok object => exact Storage.remove_course object

end Sfsdb

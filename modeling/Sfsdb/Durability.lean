import Sfsdb.Cutoff
import Sfsdb.Interruption

/-!
A serving process that is told to exit, at whatever call of whatever session. The
calls whose answers have been sent are done: the volume stands for the map they
leave. Where the next call that has come in is an upload, begun or not, the entries
of that map are still found, listed and whole; a deletion endangers its own entry
and those whose index it is writing again.
-/

namespace Sfsdb.Durability

open Posix Protocol Volume
open Session (Command)
open Service (Holds Admissible Keeps Looks outcome)
open History (Request)
open Cutoff (received responses applyAll AdmissibleAll request)

/-- What is left of a map by a process that exits before it has answered this call. -/
def Left (k : Kernel) (s : Map × Nat) : Option Command → Prop
  | some (.put _ _) => ∀ e ∈ s.1, Survives k e
  | some (.del id) =>
      ∀ e ∈ s.1, e.id ≠ id → (∀ gone ∈ s.1, gone.id = id → gone.name ≠ e.name) → Survives k e
  | _ => Holds k s

structure Rests (q : Pid) (k k' : Kernel) : Prop where
  files : k'.files = k.files
  drawn : k'.drawn = k.drawn
  source : k'.source = k.source
  alone : Kernel.Alone q k'

def Unfinished (libc : Libc) (source : Nat → Bytes) (s : Map × Nat) : List Command → Bytes → Prop
  | [], part => part = []
  | c :: _, part => part <+: (outcome libc source c s).frame ∧ part ≠ (outcome libc source c s).frame

theorem Rests.trans {q : Pid} {k k₁ k' : Kernel} (first : Rests q k k₁) (second : Rests q k₁ k') : Rests q k k' :=
  ⟨second.files.trans first.files, second.drawn.trans first.drawn, second.source.trans first.source, second.alone⟩

/-! ## Points of a run -/

section Points
variable {q : Pid} {k k' : Kernel} {α : Type} {program point : Prog α}

abbrev At (q : Pid) (program : Prog α) (k : Kernel) (point : Prog α) (k' : Kernel) : Prop :=
  Program.Reaches (Kernel.Does q) program k point k'

theorem at_sent (reach : At q program k point k') : k.sent q <+: k'.sent q := by
  apply reach.invariant (fun t => k.sent q <+: t.sent q) _ (List.prefix_refl _)
  intro c s r t step before
  rw [Connection.exec_emits step]
  exact before.trans (List.prefix_append _ _)

theorem at_sent_last {value : α} {last : Kernel} (reach : At q program k point k')
    (run : Runs q program k value last) : k'.sent q <+: last.sent q := by
  apply at_sent (Program.Reaches.of_runs (reach.ahead _ run))
  intro c s r₁ t₁ r₂ t₂ first second
  have same := first.symm.trans second
  simpa using same

def Quiet (c : Call) : Prop := Kernel.Reading c ∧ c ≠ .draw

theorem at_quiet (keeps : Keeps Quiet program) (reach : At q program k point k') (alone : Kernel.Alone q k) :
    Rests q k k' := by
  have respects : Program.Respects Quiet (fun _ _ => True) (Kernel.Does q) (Rests q k) := by
    intro c s r t quiet before step
    refine ⟨trivial, (Kernel.exec_files quiet.1 step).trans before.files, ?_,
      (Kernel.exec_source step).trans before.source, exec_alone step before.alone⟩
    rw [← before.drawn]
    cases Kernel.exec_update step with
    | drew => exact absurd rfl quiet.2
    | _ => rfl
  exact (Program.Within.reaches respects keeps reach ⟨rfl, rfl, rfl, alone⟩).2

theorem at_looking (keeps : Keeps Looks program) (reach : At q program k point k') (alone : Kernel.Alone q k) :
    Rests q k k' :=
  at_quiet (keeps.imp (fun _ looks => looks.2) fun _ _ => id) reach alone

theorem at_silent {R : α → Prop} (holds : Footprint.all.Holds R program) (reach : At q program k point k') :
    k'.sent = k.sent := by
  have respects : Program.Respects Footprint.all.Covers Footprint.all.Answers (Kernel.Does q)
      fun t => t.sent = k.sent := by
    intro c s r t covered before step
    have silent : ∀ bytes, c ≠ .send bytes := by
      rintro bytes rfl
      exact covered
    refine ⟨?_, (Kernel.exec_sent silent step).trans before⟩
    cases c <;> trivial
  exact (Program.Within.reaches respects holds reach rfl).2

end Points

/-! ## Inside a call -/

section Calls
variable {libc : Libc} {source : Nat → Bytes} {q : Pid} {k k' : Kernel} {s : Map × Nat} {c : Command} {e : Entry}

theorem Holds.survives (holds : Holds k s) (member : e ∈ s.1) : Survives k e := by
  have found := holds.represents.proper.lookup_of_mem member
  exact holds.represents.stands.survives_iff.mpr (by simp [Map.shelf, found])

theorem Holds.left (holds : Holds k s) (rests : Rests q k k') : Holds (Volume.exit k' q) s where
  represents := by
    refine ⟨exit_ready (rests.files ▸ holds.represents.ready.sane) rests.alone, ?_,
      rests.drawn.trans holds.represents.drawn, holds.represents.proper⟩
    rw [show (Volume.exit k' q).files = k'.files from rfl, rests.files]
    exact holds.represents.records
  drawn e member := by
    rw [show (Volume.exit k' q).source = k'.source from rfl, rests.source]
    exact holds.drawn e member

theorem left_of_holds (holds : Holds k s) (next : Option Command) : Left k s next := by
  unfold Left
  split
  · exact fun e member => Holds.survives holds member
  · exact fun e member _ _ => Holds.survives holds member
  · exact holds

theorem put_spares {name file : Bytes} (holds : Holds k s) (tabled : Tabled k)
    (admissible : (Op.store name file).Admissible k.source s) {point : Prog (Except Error Bytes)}
    (reach : At q (Volume.store name file) k point k') (member : e ∈ s.1) : Survives (Volume.exit k' q) e := by
  obtain ⟨m, n⟩ := s
  obtain ⟨plain, format, fresh⟩ := admissible
  have drawn : k.drawn = n := holds.represents.drawn
  apply store_loses_nothing file holds.represents.stands tabled plain.1 (by rw [drawn]; exact format.plain)
    _ k' reach.bind e (Holds.survives holds member)
  rw [show (Op.store name file).target k = k.source k.drawn from rfl, drawn]
  exact Map.lookup_eq_none_iff.mp fresh e member

theorem remove_spares {id : Bytes} {m : Shelf} (stands : Stands k m) (tabled : Tabled k) (plain : PlainName id)
    {point : Prog (Option (Except Error Unit))} (reach : At q (Volume.remove id) k point k')
    (survives : Survives k e) (other : e.id ≠ id) (apart : ∀ held, m.object id = some held → held.1 ≠ e.name) :
    Survives (Volume.exit k' q) e := by
  have found := stands.survives_iff.mp survives
  have respects := fun touched => @midway_respects q touched (fun _ _ => False) k.nextFd True k (by simp)
  have looks : ∀ (touched : Dir → Bytes → Prop),
      (sparing touched fun _ _ => False).Uses k.nextFd True (Storage.Carries id) (Storage.byId id) :=
    fun touched => Storage.byId_uses id (Or.inl ⟨rfl, rfl⟩)
  have start : ∀ touched, Midway touched (fun _ _ => False) k.nextFd q k k := fun touched =>
    Midway.start stands tabled
  have unopened : Midway (fun _ _ => False) (fun _ _ => False) k.nextFd q k k' →
      Survives (Volume.exit k' q) e := fun midway =>
    survives_of_midway stands found midway (fun d _ => ⟨not_false, not_false⟩) not_false
  rcases reach.bind_split with ⟨inside, _, looking⟩ | ⟨looked, middle, run, behind⟩
  · exact unopened (Program.Within.reaches (respects _) (looks _) looking (start _)).2
  · cases there : m.object id with
    | none =>
        have absent : record k.files .byId id = none := by
          simp [stands.record_byId, there]
        have missing := byId_missing (p := q) stands.ready (Names.of_plain plain) absent
        obtain ⟨rfl, rfl⟩ := (gives_of_runs missing _ _).mp run
        obtain rfl := Program.reaches_done behind
        exact unopened (start _)
    | some held =>
        have holds : record k.files .byId id = some (held.1 ++ [Storage.SEPARATOR]) := by
          simp [stands.record_byId, there]
        obtain ⟨k₁, finds, _⟩ := byId_found (p := q) stands.ready (Names.of_plain plain) holds
        obtain ⟨rfl, rfl⟩ := (gives_of_runs finds _ _).mp run
        rw [stands.first_line there] at behind
        have midway := (Program.Within.runs (respects (unfiled id held.1)) (looks _) run (start _)).2
        have plainName := Names.of_plain (stands.proper.names id held there).1
        have removes : (sparing (unfiled id held.1) fun _ _ => False).Uses k.nextFd True
            Footprint.Any (Storage.Object.remove ⟨id, held.1, Storage.DATA_DIR ++ id⟩) :=
          Storage.remove_uses _ trivial trivial
            ⟨⟨.byId, _, _, rfl, Names.of_plain plain, Or.inl ⟨by decide, rfl⟩⟩,
              ⟨.data, _, _, rfl, Names.of_plain plain, Or.inl ⟨by decide, rfl⟩⟩,
              ⟨.byName, _, _, rfl, plainName, Or.inr ⟨rfl, rfl⟩⟩⟩
            (Or.inr ⟨.byName, _, _, rfl, plainName, Or.inl (Or.inr ⟨rfl, rfl⟩)⟩)
        have reached := (Program.Within.reaches (R := Footprint.Any) (respects _) removes behind midway).2
        apply survives_of_midway stands found reached
        · intro d kind
          refine ⟨?_, not_false⟩
          rintro (own | own)
          · exact other own.2
          · exact kind own.1
        · rintro (own | own)
          · exact own.1 rfl
          · exact apart held there own.2.symm

theorem call_left (holds : Holds k s) (tabled : Tabled k) (admissible : Admissible libc k.source c s)
    {point : Prog (Option Handlers.Reply)} (reach : At q (c.served libc) k point k') :
    Left (Volume.exit k' q) s (some c) := by
  have alone := holds.represents.ready.alone q
  cases c with
  | get id => exact Holds.left holds (at_looking (Service.getFile_looks libc id) reach alone)
  | desc id => exact Holds.left holds (at_looking (Service.descFile_looks libc id) reach alone)
  | list name => exact Holds.left holds (at_looking (Service.listFiles_looks libc name) reach alone)
  | put name file =>
      intro e member
      obtain ⟨inside, within⟩ := Program.reaches_mapped (fun value => by cases value <;> exact ⟨_, rfl⟩) reach
      exact put_spares holds tabled (admissible.stores name file rfl) within member
  | del id =>
      intro e member other apart
      obtain ⟨inside, within⟩ := Program.reaches_mapped (fun value => by rcases value with _ | _ | _ <;> exact ⟨_, rfl⟩) reach
      apply remove_spares holds.represents.stands tabled admissible.plain within (Holds.survives holds member)
        other
      intro held there same
      obtain ⟨gone, found, rfl⟩ := Option.map_eq_some_iff.mp there
      obtain ⟨inside, rfl⟩ := Map.lookup_mem found
      exact apart gone inside rfl same

theorem left_behind (holds : Holds k (Service.apply source c s)) : Left k s (some c) := by
  cases c with
  | put name file => exact fun e member => Holds.survives holds (List.mem_append_left _ member)
  | del id =>
      intro e member other _
      exact Holds.survives holds (List.mem_filter.mpr ⟨member, by simpa using other⟩)
  | _ => exact holds

end Calls

/-! ## Inside a request -/

section Requests
variable {libc : Libc} {r : Request} {k k' : Kernel} {s : Map × Nat} {c : Command}
  {point : Prog (Unit ⊕ Unit × Server.End)}

theorem frame_ne_nil (o : Responses.Outcome) : o.frame ≠ [] := by
  intro empty
  have length := congrArg List.length empty
  rw [Responses.Outcome.frame, Session.framed, List.length_append, Cutoff.header_length] at length
  simp [HEADER_BYTES] at length

theorem request_left (holds : Holds k s) (tabled : Tabled k) (admissible : Admissible libc k.source c s)
    (asks : r.Asks libc c) (reach : At r.pid (r.serve libc) k point k') :
    Left (Volume.exit k' r.pid) s (some c) := by
  obtain ⟨reply, k₁, run, _, holds₁, _⟩ := Service.call_answered (p := r.pid) holds admissible
  rw [Service.serve_eq asks] at reach
  rcases reach.bind_split with ⟨inside, _, within⟩ | ⟨value, middle, ran, behind⟩
  · exact call_left holds tabled admissible within
  · obtain ⟨rfl, rfl⟩ := (gives_of_runs run value middle).mp ran
    exact left_behind (Holds.left holds₁
      (at_looking (Service.respond_looks reply) behind (holds₁.represents.ready.alone r.pid)))

theorem request_done (holds : Holds k s) (admissible : Admissible libc k.source c s) (asks : r.Asks libc c)
    (reach : At r.pid (r.serve libc) k point k')
    (answered : k'.sent r.pid = k.sent r.pid ++ (outcome libc k.source c s).frame) :
    Holds (Volume.exit k' r.pid) (Service.apply k.source c s) := by
  have alone := holds.represents.ready.alone r.pid
  obtain ⟨reply, k₁, run, _, holds₁, _⟩ := Service.call_answered (p := r.pid) holds admissible
  rw [Service.serve_eq asks] at reach
  rcases reach.bind_split with ⟨inside, _, within⟩ | ⟨value, middle, ran, behind⟩
  · -- before that, only a get has sent anything
    have silent : k'.sent ≠ k.sent := by
      intro same
      rw [same] at answered
      exact frame_ne_nil _ (List.self_eq_append_right.mp answered)
    cases c with
    | get id => exact Holds.left holds (at_looking (Service.getFile_looks libc id) within alone)
    | desc id => exact Holds.left holds (at_looking (Service.descFile_looks libc id) within alone)
    | list name => exact Holds.left holds (at_looking (Service.listFiles_looks libc name) within alone)
    | put name file =>
        obtain ⟨inside, storing⟩ := Program.reaches_mapped (fun value => by cases value <;> exact ⟨_, rfl⟩) within
        exact absurd (at_silent (Volume.store_holds (F := .all) name file trivial trivial
          fun _ _ => ⟨trivial, trivial, trivial, trivial⟩) storing) silent
    | del id =>
        obtain ⟨inside, removing⟩ :=
          Program.reaches_mapped (fun value => by rcases value with _ | _ | _ <;> exact ⟨_, rfl⟩) within
        exact absurd (at_silent (Volume.remove_holds (F := .all) id trivial trivial ⟨trivial, trivial⟩
          fun _ => ⟨trivial, trivial⟩) removing) silent
  · obtain ⟨rfl, rfl⟩ := (gives_of_runs run value middle).mp ran
    exact Holds.left holds₁ (at_looking (Service.respond_looks reply) behind (holds₁.represents.ready.alone r.pid))

end Requests

/-! ## Inside a session -/

section Passes
variable {libc : Libc} {stale : Nat} {behind : Mem} {q : Pid} {k k' : Kernel} {α : Type}

theorem recv_points {len : Nat} {f : Except Unit Bytes → Prog α} {point : Prog α}
    (reach : At q ((Sys.recv len).bind f) k point k') :
    (∃ x, k' = k.hears q x) ∨ ∃ r k₁, Runs q (Sys.recv len) k r k₁ ∧ At q (f r) k₁ point k' := by
  rcases reach.bind_split with ⟨inside, _, within⟩ | behind
  · refine Or.inl ?_
    rcases Program.reaches_issue within with rfl | ⟨r, step⟩
    · exact ⟨k'.inbox q, Kernel.hears_same.symm⟩
    · have answered : k.exec q (.recv len) = some (r, k') := step
      simp only [Kernel.exec] at answered
      split at answered
      · cases answered
        exact ⟨[], rfl⟩
      · cases answered
        exact ⟨(k.inbox q).drop len, rfl⟩
  · exact Or.inr behind

theorem pass_points {σ : Type} {serve : σ → Data → Bytes → Prog (σ ⊕ σ × Server.End)} {st : σ}
    {point : Prog (σ ⊕ σ × Server.End)} {head body rest : Bytes} {d : Data} (whole : head.length = HEADER_BYTES)
    (inbox : k.inbox q = head ++ (body ++ rest)) (found : Framing.headerOf stale head = some d)
    (sized : body.length = d.length) (reach : At q (Server.conPass libc stale serve st) k point k') :
    (∃ x, k' = k.hears q x) ∨ At q (serve st d body) (k.hears q rest) point k' := by
  obtain ⟨next, same, onward⟩ := Framing.conPass_eq libc serve st whole found
  rw [same] at reach
  rcases recv_points reach with heard | ⟨r, k₁, read, later⟩
  · exact Or.inl heard
  · have header : Runs q (Sys.recv HEADER_BYTES) k (.ok head) (k.hears q (body ++ rest)) := whole ▸ recv_runs inbox
    obtain ⟨rfl, rfl⟩ := (gives_of_runs header r k₁).mp read
    rw [onward] at later
    rcases recv_points later with ⟨x, rfl⟩ | ⟨r, k₁, read, served⟩
    · exact Or.inl ⟨x, Kernel.hears_hears _ _⟩
    · have received := recv_runs (Kernel.hears_inbox (k := k) (p := q) (body ++ rest))
      rw [Kernel.hears_hears, sized] at received
      obtain ⟨rfl, rfl⟩ := (gives_of_runs received r k₁).mp read
      exact Or.inr served

variable (libc behind) in
theorem cut_pass {stream : Bytes} (throws : k.Throws) (inbox : k.inbox q = stream) (parsed : Framing.parse stale stream = ([], .cut)) :
    Runs q (Server.conPass libc stale (Server.serveRequest libc behind) ()) k (.inr ((), .left)) (k.hears q []) ∧
    ∀ point k', At q (Server.conPass libc stale (Server.serveRequest libc behind) ()) k point k' →
      ∃ x, k' = k.hears q x := by
  -- Without a whole request, a pass changes nothing but what has come in.
  cases Framing.splits stale stream with
  | short short =>
      have less : (k.inbox q).length < HEADER_BYTES := by
        rw [inbox]
        exact short
      refine ⟨Framing.conPass_cut throws less, ?_⟩
      intro point k' reach
      rcases recv_points reach with heard | ⟨r, k₁, read, later⟩
      · exact heard
      · obtain ⟨rfl, rfl⟩ := (gives_of_runs (recv_failed throws less) r k₁).mp read
        exact ⟨[], Program.reaches_done later⟩
  | @cut head rest d whole found short =>
      have header : Runs q (Sys.recv HEADER_BYTES) k (.ok head) (k.hears q rest) := whole ▸ recv_runs inbox
      have failed : Runs q (Sys.recv d.length) (k.hears q rest) (.error ()) (k.hears q []) := by
        have failed := recv_failed (k := k.hears q rest) (p := q) throws (by rw [Kernel.hears_inbox]; exact short)
        rwa [Kernel.hears_hears] at failed
      refine ⟨?_, ?_⟩
      · rw [Framing.conPass_header whole inbox found]
        exact failed.bind Program.Runs.done
      · intro point k' reach
        obtain ⟨next, same, onward⟩ := Framing.conPass_eq libc (Server.serveRequest libc behind) () whole found
        rw [same] at reach
        rcases recv_points reach with heard | ⟨r, k₁, read, later⟩
        · exact heard
        · obtain ⟨rfl, rfl⟩ := (gives_of_runs header r k₁).mp read
          rw [onward] at later
          rcases recv_points later with ⟨x, rfl⟩ | ⟨r, k₁, read, last⟩
          · exact ⟨x, Kernel.hears_hears _ _⟩
          · obtain ⟨rfl, rfl⟩ := (gives_of_runs failed r k₁).mp read
            exact ⟨[], Program.reaches_done last⟩
  | malformed whole nothing =>
      rw [Framing.parse_malformed whole nothing] at parsed
      cases parsed
  | quit whole found sized leaves =>
      rw [Framing.parse_quit whole found sized leaves] at parsed
      cases parsed
  | request whole found sized stays _ =>
      rw [Framing.parse_request whole found sized stays] at parsed
      cases parsed

theorem cut_points {point : Prog (Unit × Server.End)} {stream : Bytes} (throws : k.Throws)
    (inbox : k.inbox q = stream) (parsed : Framing.parse stale stream = ([], .cut))
    (reach : At q (Server.conHandler libc stale behind) k point k') : ∃ x, k' = k.hears q x := by
  obtain ⟨run, within⟩ := cut_pass libc behind throws inbox parsed
  rcases Program.reaches_loop reach with rfl | turn
  · exact ⟨k'.inbox q, Kernel.hears_same.symm⟩
  · rcases turn.bind_split with ⟨inside, _, passing⟩ | ⟨value, middle, ran, left⟩
    · exact within inside k' passing
    · obtain ⟨rfl, rfl⟩ := (gives_of_runs run value middle).mp ran
      exact ⟨[], Program.reaches_done left⟩

end Passes

/-! ## Any point of a session -/

section Sessions
variable {libc : Libc} {stale : Nat} {behind : Mem} {q : Pid} {k k' : Kernel} {s : Map × Nat}
  {c : Command} {calls : List Command}

/-- The calls that have been answered are done, and the next one may be in hand. -/
def Durable (libc : Libc) (q : Pid) (k : Kernel) (calls : List Command) (s : Map × Nat) (k' : Kernel) : Prop :=
  ∃ done rest part, calls = done ++ rest ∧ k'.sent q = k.sent q ++ responses libc k.source done s ++ part ∧
    Unfinished libc k.source (applyAll k.source done s) rest part ∧
    Left (Volume.exit k' q) (applyAll k.source done s) rest.head?

theorem unfinished_nil (source : Nat → Bytes) : Unfinished libc source s calls [] := by
  cases calls with
  | nil => rfl
  | cons c rest => exact ⟨List.nil_prefix, (frame_ne_nil _).symm⟩

theorem durable_receiving (holds : Holds k s) (x : Bytes) : Durable libc q k calls s (k.hears q x) := by
  -- While requests come in, nothing of the next call has been done.
  have rests : Rests q k (k.hears q x) := ⟨rfl, rfl, rfl, (holds.hears x).represents.ready.alone q⟩
  refine ⟨[], calls, [], rfl, ?_, unfinished_nil _, left_of_holds (Holds.left holds rests) _⟩
  simp [responses]

theorem durable_serving {r : Request} {point : Prog (Unit ⊕ Unit × Server.End)} (holds : Holds k s)
    (tabled : Tabled k) (admissible : Admissible libc k.source c s) (asks : r.Asks libc c)
    (reach : At r.pid (r.serve libc) k point k') : Durable libc r.pid k (c :: calls) s k' := by
  obtain ⟨last, run, wrote, _, _⟩ := Service.serve_refines holds admissible asks
  obtain ⟨part, sent⟩ := at_sent reach
  have within : part <+: (outcome libc k.source c s).frame := by
    have before := at_sent_last reach run
    rwa [wrote, ← sent, List.prefix_append_right_inj] at before
  by_cases whole : part = (outcome libc k.source c s).frame
  · have answered : k'.sent r.pid = k.sent r.pid ++ (outcome libc k.source c s).frame := by
      rw [← sent, whole]
    refine ⟨[c], calls, [], rfl, ?_, unfinished_nil _, left_of_holds ?_ _⟩
    · simpa [responses] using answered
    · exact request_done holds admissible asks reach answered
  · refine ⟨[], c :: calls, part, rfl, ?_, ⟨within, whole⟩, request_left holds tabled admissible asks reach⟩
    simpa [responses] using sent.symm

theorem Durable.later {k₁ : Kernel} (source : k₁.source = k.source)
    (wrote : k₁.sent q = k.sent q ++ (outcome libc k.source c s).frame)
    (durable : Durable libc q k₁ calls (Service.apply k.source c s) k') :
    Durable libc q k (c :: calls) s k' := by
  obtain ⟨done, rest, part, rfl, sent, unfinished, survive⟩ := durable
  rw [source] at sent unfinished survive
  refine ⟨c :: done, rest, part, rfl, ?_, unfinished, survive⟩
  rw [sent, wrote]
  simp [responses]

theorem session_points {stream : Bytes} {point : Prog (Unit × Server.End)} (holds : Holds k s) (tabled : Tabled k)
    (admissible : AdmissibleAll libc k.source calls s) (throws : k.Throws) (inbox : k.inbox q = stream)
    (parsed : Framing.parse stale stream = (calls.map request, .cut))
    (reach : At q (Server.conHandler libc stale behind) k point k') : Durable libc q k calls s k' := by
  -- By induction on the requests that are there: a pass serves one of them, and the rest are served
  -- from the map that it leaves.
  induction calls generalizing k s stream with
  | nil =>
      obtain ⟨x, rfl⟩ := cut_points throws inbox parsed reach
      exact durable_receiving holds x
  | cons c others ih =>
      cases Framing.splits stale stream with
      | short short =>
          rw [Framing.parse_cut short] at parsed
          cases parsed
      | malformed whole nothing =>
          rw [Framing.parse_malformed whole nothing] at parsed
          cases parsed
      | cut whole found short =>
          rw [Framing.parse_short whole found short] at parsed
          cases parsed
      | quit whole found sized leaves =>
          rw [Framing.parse_quit whole found sized leaves] at parsed
          cases parsed
      | @request head body rest d whole found sized stays _ =>
          rw [Framing.parse_request whole found sized stays, List.map_cons] at parsed
          obtain ⟨both, stops⟩ := Prod.mk.inj parsed
          obtain ⟨same, later⟩ := List.cons.inj both
          obtain ⟨rfl, rfl⟩ := Prod.mk.inj same
          have asks : Request.Asks libc ⟨q, behind, Types.header c.no c.body.length, c.body⟩ c :=
            ⟨Nat.mod_eq_of_lt c.no_lt, (Session.understood libc behind c admissible.1.valid).decoded⟩
          have holds₀ : Holds (k.hears q rest) s := holds.hears rest
          have tabled₀ : Tabled (k.hears q rest) := tabled
          rcases Program.reaches_loop reach with rfl | turn
          · rw [← Kernel.hears_same (k := k') (p := q)]
            exact durable_receiving holds _
          · rcases turn.bind_split with ⟨inside, _, passing⟩ | ⟨value, middle, ran, onward⟩
            · rcases pass_points whole inbox found sized passing with ⟨x, rfl⟩ | serving
              · exact durable_receiving holds x
              · exact durable_serving holds₀ tabled₀ admissible.1 asks serving
            · obtain ⟨k₁, run, wrote, holds₁, source⟩ := Service.serve_refines holds₀ admissible.1 asks
              have received : Runs q (Sys.recv c.body.length) (k.hears q (c.body ++ rest)) (.ok c.body)
                  (k.hears q rest) := by
                have received := recv_runs (Kernel.hears_inbox (k := k) (p := q) (c.body ++ rest))
                rwa [Kernel.hears_hears] at received
              have pass : Runs q (Server.conPass libc stale (Server.serveRequest libc behind) ()) k (.inl ()) k₁ := by
                rw [Framing.conPass_header whole inbox found, ← sized]
                exact received.bind run
              obtain ⟨rfl, rfl⟩ := (gives_of_runs pass value middle).mp ran
              have unread : middle.inbox q = rest :=
                (Framing.runs_inbox (Service.serve_converses asks) run).trans (Kernel.hears_inbox rest)
              have tabled₁ := Program.runs_invariant Tabled (fun _ _ _ _ answered => exec_tabled answered) run tabled₀
              have throws₀ : (k.hears q rest).Throws := throws
              have throws₁ : middle.Throws := Kernel.runs_throws run throws₀
              have durable := ih holds₁ tabled₁ (by rw [source]; exact admissible.2) throws₁ unread
                (Prod.ext later stops) onward
              exact durable.later source wrote

end Sessions

/-- Told to exit at any point of a session, cut off or not, the server has done
the calls that it has answered, and only a deletion that comes next takes more with it. -/
theorem killed_server_keeps_what_it_answered (libc : Libc) (stale : Nat) (behind : Mem) (q : Pid) (k : Kernel)
    (s : Map × Nat) (calls : List Command) (n : Nat) (holds : Holds k s) (tabled : Tabled k)
    (admissible : AdmissibleAll libc k.source calls s) (throws : k.Throws)
    (inbox : k.inbox q = (calls.flatMap Command.frame).take n) (point : Prog (Unit × Server.End)) (k' : Kernel)
    (reach : Program.Reaches (Kernel.Does q) (Server.conHandler libc stale behind) k point k') :
    ∃ done rest part, received calls n = done ++ rest ∧
      k'.sent q = k.sent q ++ responses libc k.source done s ++ part ∧
      Unfinished libc k.source (applyAll k.source done s) rest part ∧
      Left (Volume.exit k' q) (applyAll k.source done s) rest.head? :=
  session_points holds tabled admissible.received throws inbox (Cutoff.parse_taken stale calls admissible.valid n) reach

/-- At the end of what has come in: an upload, and the first bytes of a download. -/
theorem killed_server_keeps_what_it_answered_upload : ∃ k' done rest part,
    received [.put (ascii "a") [7], .get (Volume.tick 0)] 40 = done ++ rest ∧
      k'.sent 2 = responses History.silent Volume.tick done ([], 0) ++ part ∧
      Unfinished History.silent Volume.tick (applyAll Volume.tick done ([], 0)) rest part ∧
      Left (Volume.exit k' 2) (applyAll Volume.tick done ([], 0)) rest.head? := by
  have holds := (Service.initKernel_holds Volume.tick).hears (p := 2)
    (([Command.put (ascii "a") [7], .get (Volume.tick 0)].flatMap Command.frame).take 40)
  have tabled : Tabled (initKernel Volume.tick) := (initKernel_standing _).tabled
  obtain ⟨k', run, _⟩ := Cutoff.conHandler_cut 0 (fun _ => none) _ 40 holds Cutoff.upload_admissible
    (initKernel_throws tick) (Kernel.hears_inbox _)
  exact ⟨k', killed_server_keeps_what_it_answered History.silent 0 (fun _ => none) 2 _ ([], 0)
    [.put (ascii "a") [7], .get (Volume.tick 0)] 40 holds tabled Cutoff.upload_admissible
    (initKernel_throws tick) (Kernel.hears_inbox _) _ k' (Program.Reaches.of_runs run)⟩

end Sfsdb.Durability

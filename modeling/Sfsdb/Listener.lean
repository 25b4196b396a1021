import Sfsdb.Footprint
import Sfsdb.Server

/-!
The accept loops of `main` and `spawn_new_child` of src/server/server.cpp, each
in the process that runs it and in all that are forked out of it. `fork` returns
in two processes. `spawn_new_child` returns in both of them, and in the child it
returns what `con_handler` does, which the loop takes no more notice of than of
its other results. What sessions and the system answer is left open.
-/

namespace Sfsdb.Listener

open Posix Protocol

inductive Signal where
  | SIGINT
  | SIGTERM

inductive Disposition where
  | SIG_DFL
  | childExitHandler

/-- What a listener calls besides what its sessions do. -/
inductive Call where
  /-- `srv.accept()`, which may throw an `nio::error` with its number. -/
  | accept
  /-- `stream.peer()`, for the log. -/
  | peer
  | fork
  | signal (signal : Signal) (handler : Disposition)
  /-- The end of the process in a session. -/
  | abort
  | posix (c : Posix.Call)

def Resp : Call → Type
  | .accept => Except Errno Unit
  | .peer => Except Errno Unit
  | .fork => Int
  | .signal _ _ => Unit
  | .abort => Empty
  | .posix c => Posix.Resp c

abbrev Listen := Program Call Resp

def ask (c : Call) : Listen (Resp c) := Program.issue c

section Text
variable (libc : Libc) (stale : Nat) (behind : Mem)

/-- `con_handler` returns 0 whichever way it leaves its loop. -/
def conHandler : Listen Int := do
  let (_, how) ← (Server.conHandler libc stale behind).mapCalls Call.posix fun _ r => r
  match how with
  | .left => return 0
  | .crashed | .killed => do
      let never ← ask .abort
      return Empty.elim never

def spawnNewChild : Listen Int := do
  let child : Int ← ask .fork
  if child = -1 then return -1
  else if child = 0 then do
    let () ← ask (.signal .SIGINT .SIG_DFL)
    let () ← ask (.signal .SIGTERM .childExitHandler)
    conHandler libc stale behind
  else return 1

/-- One pass of the loop; `greet` is what is done with the stream for the log.
An `nio::error` is caught inside the loop. -/
def pass (greet : Listen (Except Errno Unit)) (_ : Unit) : Listen (Unit ⊕ Empty) := do
  let .ok () ← ask .accept | return .inl ()
  let .ok () ← greet | return .inl ()
  let r ← spawnNewChild libc stale behind
  if r = 0 then return .inl () -- continue
  return .inl ()

def acceptLoop (greet : Listen (Except Errno Unit)) : Listen Empty :=
  Program.iterate (pass libc stale behind greet) ()

/-- `stream.peer()` is called for the address and once more for the port. -/
def peers : Listen (Except Errno Unit) := do
  match ← ask .peer with
  | .error e => return .error e
  | .ok () => ask .peer

def ip4 : Listen Empty := acceptLoop libc stale behind peers

def ip6 : Listen Empty := acceptLoop libc stale behind peers

def unx : Listen Empty := acceptLoop libc stale behind (return .ok ())

end Text

/-! ## Processes -/

/-- The processes that one listener runs in, and where each of them is. -/
abbrev Procs := Pid → Option (Listen Empty)

inductive Event where
  | answered (p : Pid) (c : Call) (r : Resp c)
  | turned (p : Pid)
  | forked (p child : Pid)
  | exited (p : Pid)

/-- A fork that is answered in one process only has failed. -/
def Answer : (c : Call) → Resp c → Prop
  | .fork, r => r = (-1 : Int)
  | _, _ => True

inductive Step (s : Procs) : Event → Procs → Prop where
  | answered {p : Pid} {c : Call} {next : Resp c → Listen Empty} {r : Resp c} :
      s p = some (.call c next) → Answer c r →
      Step s (.answered p c r) (Function.update s p (some (next r)))
  | turned {p : Pid} {σ β : Type} {body : σ → Listen (σ ⊕ β)} {start : σ} {next : β → Listen Empty} :
      s p = some (.loop body start next) →
      Step s (.turned p) (Function.update s p (some ((body start).bind (Program.turn body next))))
  | forked {p child : Pid} {next : Resp .fork → Listen Empty} :
      s p = some (.call .fork next) → s child = none → child ≠ 0 →
      Step s (.forked p child)
        (Function.update (Function.update s p (some (next (child : Int)))) child (some (next (0 : Int))))
  | exited {p : Pid} {program : Listen Empty} :
      s p = some program → Step s (.exited p) (Function.update s p none)

def initial (original : Pid) (listener : Listen Empty) : Procs :=
  Function.update (fun _ => none) original (some listener)

/-- A run with its events and all states it has been in, the latest first. -/
inductive Run (start : Procs) : List Event → List Procs → Prop where
  | start : Run start [] [start]
  | step {events : List Event} {past : List Procs} {s t : Procs} {e : Event} :
      Run start events (s :: past) → Step s e t → Run start (e :: events) (t :: s :: past)

/-- However its calls are answered. -/
def Anyhow (c : Call) (_ : Unit) (_ : Resp c) (_ : Unit) : Prop := True

/-- In the accept loop, or able to return to it. -/
def CanAccept (program : Listen Empty) : Prop :=
  ∃ next, Program.Reaches Anyhow program () (.call .accept next) ()

/-- In all states of the run no process but `original` is in the accept loop or
can return to it, and none but `original` has accepted a connection. -/
def OnlyAccepts (original : Pid) (events : List Event) (visited : List Procs) : Prop :=
  (∀ s ∈ visited, ∀ p program, s p = some program → CanAccept program → p = original) ∧
  ∀ p, Event.answered p .accept (.ok ()) ∈ events → p = original

/-! ## Points of the loop -/

section Points
variable {libc : Libc} {stale : Nat} {behind : Mem} {greet : Listen (Except Errno Unit)}
  {program : Listen Empty} {α : Type}

/-- Neither forks nor accepts. -/
def Quiet (program : Listen α) : Prop :=
  Program.Within (fun c => c ≠ .fork ∧ c ≠ .accept) (fun _ _ => True) (fun _ => True) program

theorem quiet_ask {c : Call} (other : c ≠ .fork ∧ c ≠ .accept) : Quiet (ask c) :=
  Program.within_issue other fun _ _ => trivial

theorem quiet_peers : Quiet peers := by
  have asks : Quiet (ask .peer) := quiet_ask (by simp)
  apply asks.bind
  intro answer _
  cases answer with
  | error e => exact Program.Within.done trivial
  | ok => exact asks

theorem quiet_conHandler : Quiet (conHandler libc stale behind) := by
  refine (Program.mapCalls_within (fun c => ⟨by simp, by simp⟩) _).bind fun result _ => ?_
  obtain ⟨_, how⟩ := result
  cases how with
  | left => exact Program.Within.done trivial
  | crashed | killed => exact (quiet_ask (by simp)).bind fun never _ => never.elim

/-- The child's side of `spawn_new_child`. -/
def childSide (libc : Libc) (stale : Nat) (behind : Mem) : Listen Int := do
  let () ← ask (.signal .SIGINT .SIG_DFL)
  let () ← ask (.signal .SIGTERM .childExitHandler)
  conHandler libc stale behind

theorem quiet_childSide : Quiet (childSide libc stale behind) := by
  apply (quiet_ask (by simp)).bind
  intro _ _
  exact (quiet_ask (by simp)).bind fun _ _ => quiet_conHandler

/-- Whatever `spawn_new_child` returns, the loop goes on. -/
def spawned (libc : Libc) (stale : Nat) (behind : Mem) (greet : Listen (Except Errno Unit)) :
    Listen Empty :=
  (spawnNewChild libc stale behind).bind fun _ => acceptLoop libc stale behind greet

def greeted (libc : Libc) (stale : Nat) (behind : Mem) (greet : Listen (Except Errno Unit)) :
    Except Errno Unit → Listen Empty
  | .error _ => acceptLoop libc stale behind greet
  | .ok () => spawned libc stale behind greet

def accepted (libc : Libc) (stale : Nat) (behind : Mem) (greet : Listen (Except Errno Unit)) :
    Except Errno Unit → Listen Empty
  | .error _ => acceptLoop libc stale behind greet
  | .ok () => greet.bind (greeted libc stale behind greet)

theorem pass_turn :
    (pass libc stale behind greet ()).bind (Program.turn (pass libc stale behind greet) .done) =
      .call .accept (accepted libc stale behind greet) := by
  have goes_on : ∀ r : Int, (if r = 0 then Program.done (.inl ()) else .done (.inl ()) :
      Listen (Unit ⊕ Empty)).bind (Program.turn (pass libc stale behind greet) .done) =
        acceptLoop libc stale behind greet := by
    intro r
    split <;> rfl
  simp only [pass, ask, Program.issue, Program.bind_eq_bind, Program.bind]
  congr 1
  funext r
  cases r with
  | error _ => rfl
  | ok _ =>
      simp only [Program.bind_assoc, accepted]
      congr 1
      funext r
      cases r with
      | error _ => rfl
      | ok _ =>
          simp only [Program.bind_assoc, greeted, spawned]
          congr 1
          funext r
          exact goes_on r

/-- Where a process of the listener can be. -/
inductive Point (libc : Libc) (stale : Nat) (behind : Mem)
    (greet : Listen (Except Errno Unit)) : Listen Empty → Prop where
  | top : Point libc stale behind greet (acceptLoop libc stale behind greet)
  | accepts : Point libc stale behind greet (.call .accept (accepted libc stale behind greet))
  | greets (inside : Listen (Except Errno Unit)) :
      Quiet inside → Point libc stale behind greet (inside.bind (greeted libc stale behind greet))
  | spawns : Point libc stale behind greet (spawned libc stale behind greet)
  | serves (inside : Listen Int) :
      Quiet inside → Point libc stale behind greet (inside.bind fun _ => acceptLoop libc stale behind greet)

theorem quiet_call {c : Call} {next : Resp c → Listen α} (quiet : Quiet (.call c next)) :
    (c ≠ .fork ∧ c ≠ .accept) ∧ ∀ r, Quiet (next r) := by
  cases quiet with
  | call covered rest => exact ⟨covered, fun r => rest r trivial⟩

theorem spawned_eq : spawned libc stale behind greet = .call .fork fun child : Int =>
    if child = -1 then acceptLoop libc stale behind greet
    else if child = 0 then (childSide libc stale behind).bind fun _ => acceptLoop libc stale behind greet
    else acceptLoop libc stale behind greet := by
  refine congrArg (Program.call Call.fork) (funext fun child : Int => ?_)
  change Program.bind (if child = -1 then Program.done (-1) else if child = 0 then childSide libc stale behind
    else Program.done 1) _ = _
  split
  · rfl
  · split <;> rfl

-- One call of a quiet part, or of what comes behind it.
theorem behind_call {inside : Listen α} {rest : α → Listen Empty} (quiet : Quiet inside) {c : Call}
    {next : Resp c → Listen Empty} (whole : .call c next = inside.bind rest) :
    (∃ value, .call c next = rest value) ∨
      ((c ≠ .fork ∧ c ≠ .accept) ∧ ∃ next' : Resp c → Listen α, (∀ r, Quiet (next' r)) ∧
        ∀ r, next r = (next' r).bind rest) := by
  cases inside with
  | done value => exact Or.inl ⟨value, whole⟩
  | call c' next' =>
      cases whole
      obtain ⟨other, quiet⟩ := quiet_call quiet
      exact Or.inr ⟨other, next', quiet, fun _ => rfl⟩
  | loop body start next' => cases whole

theorem Point.call {c : Call} {next : Resp c → Listen Empty}
    (point : Point libc stale behind greet (.call c next)) :
    .call c next = Program.call Call.accept (accepted libc stale behind greet) ∨
      .call c next = spawned libc stale behind greet ∨
      (c ≠ .fork ∧ c ≠ .accept) ∧ ∀ r, Point libc stale behind greet (next r) := by
  generalize whole : Program.call c next = program at point
  cases point with
  | top => cases whole
  | accepts => exact Or.inl rfl
  | spawns => exact Or.inr (Or.inl rfl)
  | greets inside quiet =>
      rcases behind_call quiet whole with ⟨value, same⟩ | ⟨other, next', quiet', same⟩
      · match value with
        | .error _ => cases same
        | .ok () => exact Or.inr (Or.inl (whole.symm.trans same))
      · exact Or.inr (Or.inr ⟨other, fun r => same r ▸ Point.greets (next' r) (quiet' r)⟩)
  | serves inside quiet =>
      rcases behind_call quiet whole with ⟨value, same⟩ | ⟨other, next', quiet', same⟩
      · cases same
      · exact Or.inr (Or.inr ⟨other, fun r => same r ▸ Point.serves (next' r) (quiet' r)⟩)

theorem Point.answered (quiet : Quiet greet) {c : Call} {next : Resp c → Listen Empty} {r : Resp c}
    (point : Point libc stale behind greet (.call c next)) (answer : Answer c r) :
    Point libc stale behind greet (next r) := by
  rcases point.call with here | here | ⟨_, rest⟩
  · cases here
    match r with
    | .error _ => exact Point.top
    | .ok () => exact Point.greets greet quiet
  · rw [spawned_eq] at here
    cases here
    have failed : r = (-1 : Int) := answer
    subst failed
    exact Point.top
  · exact rest r

theorem Point.turned {σ β : Type} {body : σ → Listen (σ ⊕ β)} {start : σ} {next : β → Listen Empty}
    (point : Point libc stale behind greet (.loop body start next)) :
    Point libc stale behind greet ((body start).bind (Program.turn body next)) := by
  generalize whole : Program.loop body start next = program at point
  have again : Program.loop body start next = acceptLoop libc stale behind greet →
      Point libc stale behind greet ((body start).bind (Program.turn body next)) := by
    intro same
    cases same
    rw [pass_turn]
    exact Point.accepts
  have inner : ∀ {α : Type} {rest : α → Listen Empty} {next' : β → Listen α},
      (∀ result, next result = (next' result).bind rest) →
      (body start).bind (Program.turn body next) =
        ((body start).bind (Program.turn body next')).bind rest := by
    intro α rest next' same
    rw [Program.bind_assoc]
    simp only [Program.turn_bind, ← same]
  cases point with
  | top => exact again whole
  | accepts => cases whole
  | spawns =>
      rw [spawned_eq] at whole
      cases whole
  | greets inside quiet =>
      cases inside with
      | done value =>
          match value with
          | .error _ => exact again whole
          | .ok () =>
              change _ = spawned libc stale behind greet at whole
              rw [spawned_eq] at whole
              cases whole
      | call c next' => cases whole
      | loop body' start' next' =>
          cases whole
          rw [inner fun _ => rfl]
          exact Point.greets _ quiet.unroll
  | serves inside quiet =>
      cases inside with
      | done value => exact again whole
      | call c next' => cases whole
      | loop body' start' next' =>
          cases whole
          rw [inner fun _ => rfl]
          exact Point.serves _ quiet.unroll

theorem canAccept_acceptLoop : CanAccept (acceptLoop libc stale behind greet) := by
  refine ⟨accepted libc stale behind greet, Program.Reaches.step Program.Step.loop ?_⟩
  rw [pass_turn]
  exact Program.Reaches.refl

theorem ask_runs (c : Call) (r : Resp c) : Program.Runs Anyhow (ask c) () r () :=
  Program.runs_issue_iff.mpr trivial

theorem conHandler_returns : Program.Runs Anyhow (conHandler libc stale behind) () 0 () := by
  -- A session ends when the client is gone.
  have unread : Program.Runs (fun _ _ _ _ => True) (Sys.recv HEADER_BYTES) () (.error ()) () :=
    Program.runs_issue_iff.mpr trivial
  have gone : Program.Runs (fun _ _ _ _ => True) (Server.conHandler libc stale behind) () ((), .left) () :=
    Program.Runs.leave (unread.bind Program.Runs.done)
  have mapped : Program.Runs Anyhow
      ((Server.conHandler libc stale behind).mapCalls Call.posix fun _ r => r) () ((), .left) () := by
    apply Program.Runs.mapCalls _ gone
    intro c s r t _
    exact ⟨r, rfl, trivial⟩
  exact mapped.bind Program.Runs.done

theorem childSide_returns : Program.Runs Anyhow (childSide libc stale behind) () 0 () :=
  (ask_runs (.signal .SIGINT .SIG_DFL) ()).bind
    ((ask_runs (.signal .SIGTERM .childExitHandler) ()).bind conHandler_returns)

theorem Point.forked {child : Pid} {next : Resp .fork → Listen Empty}
    (point : Point libc stale behind greet (.call .fork next)) (positive : child ≠ 0) :
    (Point libc stale behind greet (next (child : Int)) ∧ CanAccept (next (child : Int))) ∧
      (Point libc stale behind greet (next (0 : Int)) ∧ CanAccept (next (0 : Int))) := by
  -- After a fork both processes can come to accept.
  rcases point.call with here | here | ⟨other, _⟩
  · cases here
  · rw [spawned_eq] at here
    cases here
    have failed : ¬ (child : Int) = -1 := by
      intro same
      exact absurd (same ▸ Int.natCast_nonneg child : (0 : Int) ≤ -1) (by decide)
    have forked : ¬ (child : Int) = 0 := by exact_mod_cast positive
    have parent : Point libc stale behind greet (acceptLoop libc stale behind greet) ∧
        CanAccept (acceptLoop libc stale behind greet) := ⟨Point.top, canAccept_acceptLoop⟩
    refine ⟨?_, Point.serves _ quiet_childSide, ?_⟩
    · simpa only [if_neg failed, if_neg forked] using parent
    · obtain ⟨next, reach⟩ := parent.2
      exact ⟨next, .behind childSide_returns reach⟩
  · exact absurd rfl other.1

end Points

/-! ## Runs -/

section Runs
variable {libc : Libc} {stale : Nat} {behind : Mem} {greet : Listen (Except Errno Unit)}
  {original : Pid} {events : List Event} {visited : List Procs}

/-- All processes are at points of the loop. -/
def AtPoints (libc : Libc) (stale : Nat) (behind : Mem) (greet : Listen (Except Errno Unit))
    (s : Procs) : Prop :=
  ∀ p program, s p = some program → Point libc stale behind greet program

theorem AtPoints.update {s : Procs} (points : AtPoints libc stale behind greet s) (p : Pid)
    {program : Listen Empty} (point : Point libc stale behind greet program) :
    AtPoints libc stale behind greet (Function.update s p (some program)) := by
  intro q other found
  by_cases own : q = p
  · subst own
    rw [Function.update_self] at found
    cases found
    exact point
  · rw [Function.update_of_ne own] at found
    exact points q other found

theorem Step.points (quiet : Quiet greet) {s t : Procs} {e : Event} (step : Step s e t)
    (points : AtPoints libc stale behind greet s) : AtPoints libc stale behind greet t := by
  cases step with
  | answered found answer => exact points.update _ ((points _ _ found).answered quiet answer)
  | turned found => exact points.update _ (points _ _ found).turned
  | forked found _ positive =>
      obtain ⟨⟨parent, _⟩, child, _⟩ := (points _ _ found).forked positive
      exact (points.update _ parent).update _ child
  | exited found =>
      rename_i p program
      intro q other there
      by_cases own : q = p
      · subst own
        rw [Function.update_self] at there
        cases there
      · rw [Function.update_of_ne own] at there
        exact points q other there

theorem Run.points (quiet : Quiet greet)
    (run : Run (initial original (acceptLoop libc stale behind greet)) events visited) :
    ∀ s ∈ visited, AtPoints libc stale behind greet s := by
  induction run with
  | start =>
      intro s member
      rw [List.mem_singleton.mp member]
      intro p program found
      by_cases own : p = original
      · subst own
        rw [initial, Function.update_self] at found
        cases found
        exact Point.top
      · rw [initial, Function.update_of_ne own] at found
        cases found
  | step _ step ih =>
      intro s member
      rcases List.mem_cons.mp member with rfl | before
      · exact step.points quiet (ih _ List.mem_cons_self)
      · exact ih s before

theorem Step.alone {s t : Procs} {e : Event} (step : Step s e t)
    (single : ∀ p program, s p = some program → p = original)
    (other : ∀ p child, e ≠ .forked p child) :
    (∀ p program, t p = some program → p = original) ∧
      ∀ p, e = .answered p .accept (.ok ()) → p = original := by
  have kept : ∀ {p program} (program' : Option (Listen Empty)), s p = some program →
      ∀ q found, Function.update s p program' q = some found → q = original := by
    intro p program program' there q found same
    by_cases own : q = p
    · subst own
      exact single q program there
    · rw [Function.update_of_ne own] at same
      exact single q found same
  cases step with
  | answered found _ =>
      refine ⟨kept _ found, fun p same => ?_⟩
      cases same
      exact single _ _ found
  | turned found => exact ⟨kept _ found, fun p same => by cases same⟩
  | forked _ _ _ => exact absurd rfl (other _ _)
  | exited found => exact ⟨kept _ found, fun p same => by cases same⟩

theorem Run.alone {listener : Listen Empty} (run : Run (initial original listener) events visited)
    (never : ∀ p child, Event.forked p child ∉ events) :
    (∀ s ∈ visited, ∀ p program, s p = some program → p = original) ∧
      ∀ p, Event.answered p .accept (.ok ()) ∈ events → p = original := by
  induction run with
  | start =>
      refine ⟨fun s member p program found => ?_, fun p member => by cases member⟩
      rw [List.mem_singleton.mp member] at found
      by_contra own
      rw [initial, Function.update_of_ne own] at found
      cases found
  | step _ step ih =>
      obtain ⟨before, accepted⟩ := ih fun p child member => never p child (List.mem_cons_of_mem _ member)
      obtain ⟨after, accepts⟩ := step.alone (before _ List.mem_cons_self)
        fun p child same => never p child (same ▸ List.mem_cons_self)
      refine ⟨fun s member => ?_, fun p member => ?_⟩
      · rcases List.mem_cons.mp member with rfl | past
        · exact after
        · exact before s past
      · rcases List.mem_cons.mp member with here | past
        · exact accepts p here.symm
        · exact accepted p past

theorem Step.both {s t : Procs} {p child : Pid} (step : Step s (.forked p child) t)
    (points : AtPoints libc stale behind greet s) :
    p ≠ child ∧ (∃ program, t p = some program ∧ CanAccept program) ∧
      ∃ program, t child = some program ∧ CanAccept program := by
  cases step with
  | forked found free positive =>
      obtain ⟨⟨_, parent⟩, _, forked⟩ := (points _ _ found).forked positive
      have apart : p ≠ child := by
        rintro rfl
        rw [free] at found
        cases found
      refine ⟨apart, ⟨_, ?_, parent⟩, _, Function.update_self .., forked⟩
      rw [Function.update_of_ne apart, Function.update_self]

theorem Run.forked (quiet : Quiet greet) {p child : Pid}
    (run : Run (initial original (acceptLoop libc stale behind greet)) events visited)
    (member : Event.forked p child ∈ events) : ¬ OnlyAccepts original events visited := by
  intro only
  have reached : ∃ t ∈ visited, p ≠ child ∧ (∃ program, t p = some program ∧ CanAccept program) ∧
      ∃ program, t child = some program ∧ CanAccept program := by
    clear only
    induction run with
    | start => cases member
    | step before step ih =>
        rcases List.mem_cons.mp member with rfl | past
        · exact ⟨_, List.mem_cons_self, step.both (before.points quiet _ List.mem_cons_self)⟩
        · obtain ⟨t, there, both⟩ := ih past
          exact ⟨t, List.mem_cons_of_mem _ there, both⟩
  obtain ⟨t, there, apart, ⟨_, found, accepts⟩, _, found', accepts'⟩ := reached
  exact apart ((only.1 t there p _ found accepts).trans (only.1 t there child _ found' accepts').symm)

end Runs

/-- In a run of a listener only the original process accepts connections and can
come to accept one exactly if no fork has succeeded. -/
theorem only_original_accepts (libc : Libc) (stale : Nat) (behind : Mem) (original : Pid)
    (listener : Listen Empty)
    (known : listener ∈ [ip4 libc stale behind, ip6 libc stale behind, unx libc stale behind])
    (events : List Event) (visited : List Procs)
    (run : Run (initial original listener) events visited) :
    OnlyAccepts original events visited ↔ ∀ p child, Event.forked p child ∉ events := by
  have loop : ∃ greet, Quiet greet ∧ listener = acceptLoop libc stale behind greet := by
    simp only [List.mem_cons, List.not_mem_nil, or_false] at known
    rcases known with rfl | rfl | rfl
    · exact ⟨peers, quiet_peers, rfl⟩
    · exact ⟨peers, quiet_peers, rfl⟩
    · exact ⟨return .ok (), Program.Within.done trivial, rfl⟩
  obtain ⟨greet, quiet, rfl⟩ := loop
  constructor
  · intro only p child member
    exact run.forked quiet member only
  · intro never
    obtain ⟨single, accepted⟩ := run.alone never
    exact ⟨fun s member p program found _ => single s member p program found, accepted⟩

/-- A C library that is not asked for any message. -/
def mute : Libc := ⟨fun _ => ⟨[], by decide⟩, fun _ _ => ⟨[], by decide⟩, fun _ _ => none⟩

/-- One connection, for which no process can be forked. -/
theorem only_original_accepts_failed : ∃ visited,
    Run (initial 1 (unx mute 0 fun _ => none))
      [.answered 1 .fork (-1 : Int), .answered 1 .accept (.ok ()), .turned 1] visited ∧
    OnlyAccepts 1 [.answered 1 .fork (-1 : Int), .answered 1 .accept (.ok ()), .turned 1] visited := by
  have waiting := (Run.start : Run (initial 1 (unx mute 0 fun _ => none)) _ _).step
    (Step.turned rfl : Step _ (.turned 1) _)
  have connected := waiting.step (Step.answered rfl trivial : Step _ (.answered 1 .accept (.ok ())) _)
  have failed := connected.step (Step.answered rfl rfl : Step _ (.answered 1 .fork (-1 : Int)) _)
  refine ⟨_, failed, (only_original_accepts mute 0 (fun _ => none) 1 _ (by simp) _ _ failed).mpr ?_⟩
  intro p child member
  simp at member

/-- A connection is served by process 2, which goes on to accept the next one. -/
theorem child_accepts : ∃ events visited,
    Run (initial 1 (unx mute 0 fun _ => none)) events visited ∧
    .answered 2 .accept (.ok ()) ∈ events ∧ ¬ OnlyAccepts 1 events visited := by
  have waiting := (Run.start : Run (initial 1 (unx mute 0 fun _ => none)) _ _).step
    (Step.turned rfl : Step _ (.turned 1) _)
  have connected := waiting.step (Step.answered rfl trivial : Step _ (.answered 1 .accept (.ok ())) _)
  have forked := connected.step (Step.forked rfl rfl (by decide) : Step _ (.forked 1 2) _)
  have prepared := (forked.step
    (Step.answered rfl trivial : Step _ (.answered 2 (.signal .SIGINT .SIG_DFL) ()) _)).step
    (Step.answered rfl trivial : Step _ (.answered 2 (.signal .SIGTERM .childExitHandler) ()) _)
  -- the client closes the connection, and `con_handler` returns 0
  have served := (prepared.step (Step.turned rfl : Step _ (.turned 2) _)).step
    (Step.answered rfl trivial : Step _ (.answered 2 (.posix (.recv HEADER_BYTES)) (.error ())) _)
  have again := (served.step (Step.turned rfl : Step _ (.turned 2) _)).step
    (Step.answered rfl trivial : Step _ (.answered 2 .accept (.ok ())) _)
  refine ⟨_, _, again, List.mem_cons_self, fun only => ?_⟩
  exact absurd (only.2 2 List.mem_cons_self) (by decide)

end Sfsdb.Listener

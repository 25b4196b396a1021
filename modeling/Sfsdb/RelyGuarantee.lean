import Mathlib.Logic.Function.Basic
import Sfsdb.Footprint

/-!
Processes that run programs over one shared state, interleaved at every step.
A `Protocol` fixes an invariant of the state and, for each process, what its
steps may do to the state as the others see it and what it may count on when it
makes a call; ghost values that no step reads can be chosen anew at each step.
`Meets P p Q program` says of a state that process `p` can run `program` to its
end from there, keeping to the protocol whatever the others do within it, and
that `Q` holds once the program has ended. The rules follow the text of the
program; `Reaches.holds` carries the result over to every state of a pool of
processes that begin, run and finish operations in any order.
-/

namespace Sfsdb.Program

variable {Call : Type} {Resp : Call → Type} {Pid State Ghost α β σ : Type}

structure Protocol (Call : Type) (Resp : Call → Type) (Pid State Ghost : Type) where
  sem : Pid → (c : Call) → State → Resp c → State → Prop
  inv : State → Ghost → Prop
  guar : Pid → State → Ghost → State → Ghost → Prop
  expects : Pid → Call → State → Ghost → Prop
  still : ∀ p s g, guar p s g s g

section Rules
variable (P : Protocol Call Resp Pid State Ghost) (p : Pid)

def Stable (A : State → Ghost → Prop) : Prop :=
  ∀ q s g s' g', q ≠ p → P.inv s g → P.inv s' g' → P.guar q s g s' g' → A s g → A s' g'

/-- A set of points at which `p` keeps to the protocol. -/
structure Closed (Q : α → State → Ghost → Prop)
    (X : Program Call Resp α → State → Ghost → Prop) : Prop where
  stable : ∀ program, Stable P p (X program)
  done : ∀ value s g, P.inv s g → X (.done value) s g → Q value s g
  call : ∀ c next s g, P.inv s g → X (.call c next) s g → P.expects p c s g
  step : ∀ program s g program' s', P.inv s g → X program s g →
    Step (P.sem p) program s program' s' →
    ∃ g', P.inv s' g' ∧ P.guar p s g s' g' ∧ X program' s' g'

def Meets (Q : α → State → Ghost → Prop) (program : Program Call Resp α) (s : State) (g : Ghost) :
    Prop :=
  ∃ X : Program Call Resp α → State → Ghost → Prop, Closed P p Q X ∧ X program s g

variable {P p} {Q : α → State → Ghost → Prop}

theorem meets_closed : Closed P p Q (Meets P p Q) where
  stable := by
    intro program q s g s' g' other before after step ⟨X, closed, here⟩
    exact ⟨X, closed, closed.stable program q s g s' g' other before after step here⟩
  done := by
    intro value s g inv ⟨X, closed, here⟩
    exact closed.done value s g inv here
  call := by
    intro c next s g inv ⟨X, closed, here⟩
    exact closed.call c next s g inv here
  step := by
    intro program s g program' s' inv ⟨X, closed, here⟩ step
    obtain ⟨g', kept, guar, next⟩ := closed.step program s g program' s' inv here step
    exact ⟨g', kept, guar, X, closed, next⟩

theorem meets_done {A : State → Ghost → Prop} {value : α} {s : State} {g : Ghost}
    (stable : Stable P p A) (post : ∀ s g, P.inv s g → A s g → Q value s g) (here : A s g) :
    Meets P p Q (.done value) s g := by
  refine ⟨fun program s g => program = .done value ∧ A s g, ⟨?_, ?_, ?_, ?_⟩, rfl, here⟩
  · rintro program q s g s' g' other before after step ⟨rfl, held⟩
    exact ⟨rfl, stable q s g s' g' other before after step held⟩
  · rintro _ s g inv ⟨⟨⟩, held⟩
    exact post s g inv held
  · rintro c next s g _ ⟨⟨⟩, _⟩
  · rintro _ s g program' s' inv ⟨rfl, _⟩ step
    cases step

theorem meets_call {A : State → Ghost → Prop} {c : Call} {next : Resp c → Program Call Resp α}
    {s : State} {g : Ghost} (stable : Stable P p A)
    (expected : ∀ s g, P.inv s g → A s g → P.expects p c s g)
    (step : ∀ s g r s', P.inv s g → A s g → P.sem p c s r s' →
      ∃ g', P.inv s' g' ∧ P.guar p s g s' g' ∧ Meets P p Q (next r) s' g')
    (here : A s g) : Meets P p Q (.call c next) s g := by
  -- the call waiting to be made, and every point behind its answer
  refine ⟨fun program s g => program = .call c next ∧ A s g ∨ Meets P p Q program s g,
    ⟨?_, ?_, ?_, ?_⟩, Or.inl ⟨rfl, here⟩⟩
  · rintro program q s g s' g' other before after moved (⟨rfl, held⟩ | later)
    · exact Or.inl ⟨rfl, stable q s g s' g' other before after moved held⟩
    · exact Or.inr (meets_closed.stable program q s g s' g' other before after moved later)
  · rintro value s g inv (⟨⟨⟩, _⟩ | later)
    exact meets_closed.done value s g inv later
  · rintro c' next' s g inv (⟨same, held⟩ | later)
    · cases same
      exact expected s g inv held
    · exact meets_closed.call c' next' s g inv later
  · rintro program s g program' s' inv (⟨rfl, held⟩ | later) moved
    · cases moved with
      | call answered =>
          obtain ⟨g', kept, guar, later⟩ := step s g _ s' inv held answered
          exact ⟨g', kept, guar, Or.inr later⟩
    · obtain ⟨g', kept, guar, next⟩ := meets_closed.step program s g program' s' inv later moved
      exact ⟨g', kept, guar, Or.inr next⟩

theorem meets_loop {body : σ → Program Call Resp (σ ⊕ β)} {start : σ}
    {next : β → Program Call Resp α} {s : State} {g : Ghost}
    (unrolled : Meets P p Q ((body start).bind (turn body next)) s g) :
    Meets P p Q (.loop body start next) s g := by
  refine ⟨fun program s g => program = .loop body start next ∧
      Meets P p Q ((body start).bind (turn body next)) s g ∨ Meets P p Q program s g,
    ⟨?_, ?_, ?_, ?_⟩, Or.inl ⟨rfl, unrolled⟩⟩
  · rintro program q s g s' g' other before after moved (⟨rfl, held⟩ | later)
    · exact Or.inl ⟨rfl, meets_closed.stable _ q s g s' g' other before after moved held⟩
    · exact Or.inr (meets_closed.stable program q s g s' g' other before after moved later)
  · rintro value s g inv (⟨⟨⟩, _⟩ | later)
    exact meets_closed.done value s g inv later
  · rintro c next' s g inv (⟨⟨⟩, _⟩ | later)
    exact meets_closed.call c next' s g inv later
  · rintro program s g program' s' inv (⟨rfl, held⟩ | later) moved
    · cases moved with
      | loop => exact ⟨g, inv, P.still p s g, Or.inr held⟩
    · obtain ⟨g', kept, guar, next⟩ := meets_closed.step program s g program' s' inv later moved
      exact ⟨g', kept, guar, Or.inr next⟩

theorem meets_bind {R : β → State → Ghost → Prop} {program : Program Call Resp α}
    {f : α → Program Call Resp β} {s : State} {g : Ghost} (first : Meets P p Q program s g)
    (second : ∀ value s g, P.inv s g → Q value s g → Meets P p R (f value) s g) :
    Meets P p R (program.bind f) s g := by
  -- as long as the first part runs, what is left is `front.bind f`
  refine ⟨fun whole s g => (∃ front : Program Call Resp α, whole = front.bind f ∧
      Meets P p Q front s g) ∨ Meets P p R whole s g, ⟨?_, ?_, ?_, ?_⟩,
    Or.inl ⟨program, rfl, first⟩⟩
  · rintro whole q s g s' g' other before after moved (⟨front, rfl, held⟩ | later)
    · exact Or.inl ⟨front, rfl, meets_closed.stable _ q s g s' g' other before after moved held⟩
    · exact Or.inr (meets_closed.stable whole q s g s' g' other before after moved later)
  · rintro value s g inv (⟨front, same, held⟩ | later)
    · cases front with
      | done result =>
          have later := second result s g inv (meets_closed.done result s g inv held)
          rw [show f result = .done value from same.symm] at later
          exact meets_closed.done value s g inv later
      | call c next => cases same
      | loop body start next => cases same
    · exact meets_closed.done value s g inv later
  · rintro c next s g inv (⟨front, same, held⟩ | later)
    · cases front with
      | done result =>
          have later := second result s g inv (meets_closed.done result s g inv held)
          rw [show f result = .call c next from same.symm] at later
          exact meets_closed.call c next s g inv later
      | call c' next' =>
          cases same
          exact meets_closed.call c next' s g inv held
      | loop body start next' => cases same
    · exact meets_closed.call c next s g inv later
  · rintro whole s g whole' s' inv (⟨front, rfl, held⟩ | later) moved
    · cases front with
      | done result =>
          have later := second result s g inv (meets_closed.done result s g inv held)
          obtain ⟨g', kept, guar, next⟩ := meets_closed.step _ s g whole' s' inv later moved
          exact ⟨g', kept, guar, Or.inr next⟩
      | call c next =>
          cases moved with
          | call answered =>
              obtain ⟨g', kept, guar, later⟩ :=
                meets_closed.step _ s g _ s' inv held (Step.call answered)
              exact ⟨g', kept, guar, Or.inl ⟨_, rfl, later⟩⟩
      | loop body start next =>
          cases moved with
          | loop =>
              obtain ⟨g', kept, guar, later⟩ := meets_closed.step _ s g _ s inv held Step.loop
              refine ⟨g', kept, guar, Or.inl ⟨_, ?_, later⟩⟩
              rw [bind_assoc]
              simp only [turn_bind]
    · obtain ⟨g', kept, guar, next⟩ := meets_closed.step whole s g whole' s' inv later moved
      exact ⟨g', kept, guar, Or.inr next⟩

theorem meets_mono {R : α → State → Ghost → Prop} {program : Program Call Resp α} {s : State}
    {g : Ghost} (meets : Meets P p Q program s g)
    (weaker : ∀ value s g, P.inv s g → Q value s g → R value s g) : Meets P p R program s g := by
  obtain ⟨X, closed, here⟩ := meets
  exact ⟨X, ⟨closed.stable, fun value s g inv held =>
    weaker value s g inv (closed.done value s g inv held), closed.call, closed.step⟩, here⟩

/-- A part of a program that works on what no other process touches runs as it
runs alone. `agrees` compares a state of the run alone with the shared state. -/
theorem meets_alone {State₀ : Type} {alone : (c : Call) → State₀ → Resp c → State₀ → Prop}
    (agrees : State₀ → State → Ghost → Prop) (stable : ∀ s₀, Stable P p (agrees s₀))
    (expected : ∀ c s₀ r₀ s₀' s g, alone c s₀ r₀ s₀' → P.inv s g → agrees s₀ s g → P.expects p c s g)
    (follows : ∀ c s₀ r₀ s₀' s g r s', alone c s₀ r₀ s₀' → P.inv s g → agrees s₀ s g →
      P.sem p c s r s' → r = r₀ ∧ ∃ g', P.inv s' g' ∧ P.guar p s g s' g' ∧ agrees s₀' s' g')
    {program : Program Call Resp α} {s₀ t₀ : State₀} {value : α} (run : Runs alone program s₀ value t₀)
    {s : State} {g : Ghost} (here : agrees s₀ s g) :
    Meets P p (fun result s g => result = value ∧ agrees t₀ s g) program s g := by
  -- each step of the run alone is answered the same way here
  induction run generalizing s g with
  | done => exact meets_done (stable _) (fun s g _ held => ⟨rfl, held⟩) here
  | call step _ ih =>
      refine meets_call (stable _)
        (fun s g inv held => expected _ _ _ _ s g step inv held) ?_ here
      intro s g r s' inv held answered
      obtain ⟨rfl, g', kept, guar, next⟩ := follows _ _ _ _ s g r s' step inv held answered
      exact ⟨g', kept, guar, ih next⟩
  | loop _ ih => exact meets_loop (ih here)

/-! ## Triples -/

def Triple (P : Protocol Call Resp Pid State Ghost) (p : Pid) (A : State → Ghost → Prop)
    (program : Program Call Resp α) (Q : α → State → Ghost → Prop) : Prop :=
  ∀ s g, P.inv s g → A s g → Meets P p Q program s g

section Triples
variable {A B : State → Ghost → Prop}

theorem triple_done {value : α} (stable : Stable P p A)
    (post : ∀ s g, P.inv s g → A s g → Q value s g) : Triple P p A (.done value) Q :=
  fun _ _ _ here => meets_done stable post here

theorem Triple.bind {R : α → State → Ghost → Prop} {Q : β → State → Ghost → Prop}
    {program : Program Call Resp α} {f : α → Program Call Resp β} (first : Triple P p A program R)
    (second : ∀ value, Triple P p (R value) (f value) Q) : Triple P p A (program.bind f) Q :=
  fun s g inv here => meets_bind (first s g inv here) fun value t h kept there => second value t h kept there

theorem Triple.map {R : β → State → Ghost → Prop} {program : Program Call Resp α} {f : α → β}
    (triple : Triple P p A program Q) (weaker : ∀ value s g, P.inv s g → Q value s g → R (f value) s g) :
    Triple P p A (program.bind fun value => .done (f value)) R := by
  intro s g inv here
  -- the set of points of the program says what holds at its end
  obtain ⟨X, closed, start⟩ := triple s g inv here
  have ends : Meets P p (fun value => X (.done value)) program s g :=
    ⟨X, ⟨closed.stable, fun _ _ _ _ held => held, closed.call, closed.step⟩, start⟩
  refine meets_bind ends fun value s g inv held => meets_done (closed.stable (.done value)) ?_ held
  exact fun s g inv held => weaker value s g inv (closed.done value s g inv held)

theorem Triple.mono {R : α → State → Ghost → Prop} {program : Program Call Resp α}
    (triple : Triple P p A program R) (weaker : ∀ value s g, P.inv s g → R value s g → Q value s g) :
    Triple P p A program Q :=
  fun s g inv here => meets_mono (triple s g inv here) weaker

theorem Triple.pre {program : Program Call Resp α} (triple : Triple P p B program Q)
    (stronger : ∀ s g, P.inv s g → A s g → B s g) : Triple P p A program Q :=
  fun s g inv here => triple s g inv (stronger s g inv here)

theorem triple_once {c : Call} {f : Resp c → Program Call Resp α} (stable : Stable P p A)
    (expected : ∀ s g, P.inv s g → A s g → P.expects p c s g)
    (step : ∀ s g r s', P.inv s g → A s g → P.sem p c s r s' →
      ∃ value g' B, f r = .done value ∧ P.inv s' g' ∧ P.guar p s g s' g' ∧ Stable P p B ∧ B s' g' ∧
        ∀ t h, P.inv t h → B t h → Q value t h) : Triple P p A ((issue c).bind f) Q := by
  intro s g _ here
  refine meets_call stable expected (fun s g r s' inv held answered => ?_) here
  obtain ⟨value, g', B, ends, kept, guar, stableB, now, post⟩ := step s g r s' inv held answered
  refine ⟨g', kept, guar, ?_⟩
  change Meets P p Q (f r) s' g'
  rw [ends]
  exact meets_done stableB post now

/-- A program of calls that all keep `A` keeps it, and returns what its text says. -/
theorem triple_within {covers : Call → Prop} {answers : (c : Call) → Resp c → Prop} {R : α → Prop}
    {program : Program Call Resp α} (within : Within covers answers R program) (stable : Stable P p A)
    (expected : ∀ c s g, covers c → P.inv s g → A s g → P.expects p c s g)
    (keeps : ∀ c s g r s', covers c → P.inv s g → A s g → P.sem p c s r s' →
      answers c r ∧ ∃ g', P.inv s' g' ∧ P.guar p s g s' g' ∧ A s' g') :
    Triple P p A program fun value s g => R value ∧ A s g := by
  intro s g _ here
  -- every point of the program is one that its text allows
  refine ⟨fun program s g => Within covers answers R program ∧ A s g, ⟨?_, ?_, ?_, ?_⟩, within, here⟩
  · rintro program q s g s' g' other before after moved ⟨inside, held⟩
    exact ⟨inside, stable q s g s' g' other before after moved held⟩
  · rintro value s g _ ⟨inside, held⟩
    cases inside with
    | done result => exact ⟨result, held⟩
  · rintro c next s g inv ⟨inside, held⟩
    exact expected c s g inside.covered inv held
  · rintro program s g program' s' inv ⟨inside, held⟩ moved
    cases moved with
    | call answered =>
        cases inside with
        | call covered rest =>
            obtain ⟨response, g', kept, guar, held'⟩ := keeps _ s g _ s' covered inv held answered
            exact ⟨g', kept, guar, rest _ response, held'⟩
    | loop => exact ⟨g, inv, P.still p s g, inside.unroll, held⟩

theorem Triple.returns {covers : Call → Prop} {answers : (c : Call) → Resp c → Prop} {R : α → Prop}
    {program : Program Call Resp α} (triple : Triple P p A program Q)
    (within : Within covers answers R program) (answered : ∀ c r, answers c r) :
    Triple P p A program fun value s g => Q value s g ∧ R value := by
  intro s g inv here
  obtain ⟨X, closed, start⟩ := triple s g inv here
  refine ⟨fun program s g => X program s g ∧ Within covers answers R program, ⟨?_, ?_, ?_, ?_⟩, start, within⟩
  · rintro program q s g s' g' other before after moved ⟨point, inside⟩
    exact ⟨closed.stable program q s g s' g' other before after moved point, inside⟩
  · rintro value s g inv ⟨point, inside⟩
    cases inside with
    | done result => exact ⟨closed.done value s g inv point, result⟩
  · rintro c next s g inv ⟨point, _⟩
    exact closed.call c next s g inv point
  · rintro program s g program' s' inv ⟨point, inside⟩ moved
    obtain ⟨g', kept, guar, point'⟩ := closed.step program s g program' s' inv point moved
    refine ⟨g', kept, guar, point', ?_⟩
    cases moved with
    | call _ =>
        cases inside with
        | call _ rest => exact rest _ (answered _ _)
    | loop => exact inside.unroll

end Triples
end Rules

theorem Runs.covered {covers : Call → Prop} {R : α → Prop}
    {sem : (c : Call) → State → Resp c → State → Prop} {program : Program Call Resp α} {s t : State}
    {value : α} (run : Runs sem program s value t)
    (within : Within covers (fun _ _ => True) R program) :
    Runs (fun c s r t => sem c s r t ∧ covers c) program s value t := by
  induction run with
  | done => exact Runs.done
  | call step _ ih =>
      cases within with
      | call covered rest => exact Runs.call ⟨step, covered⟩ (ih (rest _ trivial))
  | loop _ ih => exact Runs.loop (ih within.unroll)

/-! ## Pools of processes -/

/-- Operations with their programs, and what beginning and finishing one records. -/
structure Pool (Call : Type) (Resp : Call → Type) (Op Answer State : Type) where
  program : Op → Program Call Resp Answer
  admits : Op → Prop
  start : Op → State → State
  stop : Op → Answer → State → State

structure Config (Call : Type) (Resp : Call → Type) (Pid Op Answer State : Type) where
  state : State
  /-- What each process is in the middle of, if anything. -/
  procs : Pid → Option (Op × Program Call Resp Answer)

namespace Pool

variable {Op Answer : Type} [DecidableEq Pid] (pool : Pool Call Resp Op Answer State)
  (sem : Pid → (c : Call) → State → Resp c → State → Prop)

inductive Moves : Config Call Resp Pid Op Answer State → Config Call Resp Pid Op Answer State → Prop
    where
  | start {c : Config Call Resp Pid Op Answer State} {p : Pid} {op : Op} :
      c.procs p = none → pool.admits op →
      Moves c ⟨pool.start op c.state, Function.update c.procs p (some (op, pool.program op))⟩
  | step {c : Config Call Resp Pid Op Answer State} {p : Pid} {op : Op}
      {program program' : Program Call Resp Answer} {s' : State} :
      c.procs p = some (op, program) → Step (sem p) program c.state program' s' →
      Moves c ⟨s', Function.update c.procs p (some (op, program'))⟩
  | stop {c : Config Call Resp Pid Op Answer State} {p : Pid} {op : Op} {answer : Answer} :
      c.procs p = some (op, .done answer) →
      Moves c ⟨pool.stop op answer c.state, Function.update c.procs p none⟩

/-- The configurations that any order of steps leads to. -/
inductive Reaches (c : Config Call Resp Pid Op Answer State) :
    Config Call Resp Pid Op Answer State → Prop where
  | refl : Reaches c c
  | step {c' c'' : Config Call Resp Pid Op Answer State} :
      Reaches c c' → Moves pool sem c' c'' → Reaches c c''

section Schedules
variable (exec : Pid → (c : Call) → State → Option (Resp c × State))

inductive Turn (Pid Op : Type) where
  | start (p : Pid) (op : Op)
  | steps (p : Pid) (count : Nat)
  | stop (p : Pid)

def advance (p : Pid) : Nat → Program Call Resp Answer → State → Option (Program Call Resp Answer × State)
  | 0, program, s => some (program, s)
  | _ + 1, .done _, _ => none
  | count + 1, .call c next, s =>
      match exec p c s with
      | none => none
      | some (response, t) => advance p count (next response) t
  | count + 1, .loop body start next, s => advance p count ((body start).bind (turn body next)) s

def play [DecidablePred pool.admits] : List (Turn Pid Op) →
    Config Call Resp Pid Op Answer State → Option (Config Call Resp Pid Op Answer State)
  | [], c => some c
  | .start p op :: turns, c =>
      match c.procs p with
      | none =>
          if pool.admits op then play turns
            ⟨pool.start op c.state, Function.update c.procs p (some (op, pool.program op))⟩
          else none
      | some _ => none
  | .steps p count :: turns, c =>
      match c.procs p with
      | none => none
      | some (op, program) =>
          match advance exec p count program c.state with
          | none => none
          | some (program', s') =>
              play turns ⟨s', Function.update c.procs p (some (op, program'))⟩
  | .stop p :: turns, c =>
      match c.procs p with
      | some (op, .done answer) =>
          play turns ⟨pool.stop op answer c.state, Function.update c.procs p none⟩
      | _ => none

variable {exec sem pool}

theorem Reaches.trans {c c' c'' : Config Call Resp Pid Op Answer State}
    (first : Reaches pool sem c c') (second : Reaches pool sem c' c'') : Reaches pool sem c c'' := by
  induction second with
  | refl => exact first
  | step _ moves ih => exact ih.step moves

theorem advance_reaches (sound : ∀ p c s r t, exec p c s = some (r, t) → sem p c s r t) {p : Pid}
    {op : Op} (count : Nat) {c : Config Call Resp Pid Op Answer State}
    {program program' : Program Call Resp Answer} {s' : State} (runs : c.procs p = some (op, program))
    (advanced : advance exec p count program c.state = some (program', s')) :
    Reaches pool sem c ⟨s', Function.update c.procs p (some (op, program'))⟩ := by
  -- one step now, the rest by induction
  induction count generalizing c program with
  | zero =>
      simp only [advance, Option.some.injEq, Prod.mk.injEq] at advanced
      obtain ⟨rfl, rfl⟩ := advanced
      rw [← runs, Function.update_eq_self]
      exact Reaches.refl
  | succ count ih =>
      have onward : ∀ (point : Program Call Resp Answer) (t : State),
          Step (sem p) program c.state point t → advance exec p count point t = some (program', s') →
          Reaches pool sem c ⟨s', Function.update c.procs p (some (op, program'))⟩ := by
        intro point t stepped rest
        have later := ih (c := ⟨t, Function.update c.procs p (some (op, point))⟩) (by simp) rest
        dsimp only at later
        rw [Function.update_idem] at later
        exact (Reaches.refl.step (Moves.step runs stepped)).trans later
      cases program with
      | done value => cases advanced
      | call call next =>
          simp only [advance] at advanced
          split at advanced
          · cases advanced
          · rename_i answered
            exact onward _ _ (Step.call (sound _ _ _ _ _ answered)) advanced
      | loop body start next => exact onward _ _ Step.loop advanced

theorem play_reaches [DecidablePred pool.admits]
    (sound : ∀ p c s r t, exec p c s = some (r, t) → sem p c s r t) (turns : List (Turn Pid Op))
    {c c' : Config Call Resp Pid Op Answer State} (played : play pool exec turns c = some c') :
    Reaches pool sem c c' := by
  induction turns generalizing c with
  | nil =>
      cases played
      exact Reaches.refl
  | cons first turns ih =>
      cases first with
      | start p op =>
          simp only [play] at played
          split at played
          · rename_i free
            split at played
            · rename_i admitted
              exact (Reaches.refl.step (Moves.start free admitted)).trans (ih played)
            · cases played
          · cases played
      | steps p count =>
          simp only [play] at played
          split at played
          · cases played
          · rename_i op program runs
            split at played
            · cases played
            · rename_i advanced
              exact (advance_reaches sound count runs advanced).trans (ih played)
      | stop p =>
          simp only [play] at played
          split at played
          · rename_i runs
            exact (Reaches.refl.step (Moves.stop runs)).trans (ih played)
          · cases played

end Schedules

section Invariant
variable (P : Protocol Call Resp Pid State Ghost) (idle : Pid → State → Ghost → Prop)
  (post : Pid → Op → Answer → State → Ghost → Prop)

structure Holds (c : Config Call Resp Pid Op Answer State) (g : Ghost) : Prop where
  inv : P.inv c.state g
  idle : ∀ p, c.procs p = none → idle p c.state g
  busy : ∀ p op program, c.procs p = some (op, program) →
    Meets P p (post p op) program c.state g

/-- What a pool needs to know of its operations: each can begin, and its end is
within the protocol. -/
structure Sound : Prop where
  stable : ∀ p, Stable P p (idle p)
  starts : ∀ p op s g, P.inv s g → idle p s g → pool.admits op →
    ∃ g', P.inv (pool.start op s) g' ∧ P.guar p s g (pool.start op s) g' ∧
      Meets P p (post p op) (pool.program op) (pool.start op s) g'
  stops : ∀ p op answer s g, P.inv s g → post p op answer s g →
    ∃ g', P.inv (pool.stop op answer s) g' ∧ P.guar p s g (pool.stop op answer s) g' ∧
      idle p (pool.stop op answer s) g'

variable {P idle post pool}

theorem Holds.others {c : Config Call Resp Pid Op Answer State} {g g' : Ghost} {p : Pid} {s' : State}
    (sound : Sound pool P idle post) (holds : Holds P idle post c g) (kept : P.inv s' g')
    (guar : P.guar p c.state g s' g') {now : Option (Op × Program Call Resp Answer)}
    (free : now = none → idle p s' g')
    (busy : ∀ op program, now = some (op, program) → Meets P p (post p op) program s' g') :
    Holds P idle post ⟨s', Function.update c.procs p now⟩ g' := by
  -- `p` by its own outline, everyone else because outlines are stable
  refine ⟨kept, fun q none_left => ?_, fun q op program runs => ?_⟩
  · by_cases own : q = p
    · subst own
      exact free (by simpa using none_left)
    · dsimp only at none_left
      rw [Function.update_of_ne own] at none_left
      exact sound.stable q p _ _ _ _ (Ne.symm own) holds.inv kept guar (holds.idle q none_left)
  · by_cases own : q = p
    · subst own
      exact busy op program (by simpa using runs)
    · dsimp only at runs
      rw [Function.update_of_ne own] at runs
      exact meets_closed.stable program p _ _ _ _ (Ne.symm own) holds.inv kept guar
        (holds.busy q op program runs)

theorem Moves.holds {c c' : Config Call Resp Pid Op Answer State} {g : Ghost}
    (moves : Moves pool P.sem c c') (sound : Sound pool P idle post) (holds : Holds P idle post c g) :
    ∃ p g', P.guar p c.state g c'.state g' ∧ Holds P idle post c' g' := by
  cases moves with
  | @start p op free admitted =>
      obtain ⟨g', kept, guar, meets⟩ :=
        sound.starts _ _ c.state g holds.inv (holds.idle _ free) admitted
      refine ⟨p, g', guar, holds.others sound kept guar (by simp) fun op program same => ?_⟩
      cases same
      exact meets
  | @step p op program program' s' runs stepped =>
      obtain ⟨g', kept, guar, meets⟩ :=
        meets_closed.step _ _ _ _ _ holds.inv (holds.busy _ _ _ runs) stepped
      refine ⟨p, g', guar, holds.others sound kept guar (by simp) fun op program same => ?_⟩
      cases same
      exact meets
  | @stop p op answer runs =>
      have ended := meets_closed.done _ _ _ holds.inv (holds.busy _ _ _ runs)
      obtain ⟨g', kept, guar, free⟩ := sound.stops _ _ _ c.state g holds.inv ended
      exact ⟨p, g', guar, holds.others sound kept guar (fun _ => free) (by simp)⟩

/-- In every order of steps the invariant holds, every process keeps to its
operation's outline, and what all steps leave as it was still is. -/
theorem Reaches.holds {c c' : Config Call Resp Pid Op Answer State} {g : Ghost}
    (reaches : Reaches pool P.sem c c') (sound : Sound pool P idle post)
    (holds : Holds P idle post c g) (later : State → Ghost → State → Ghost → Prop)
    (start : later c.state g c.state g)
    (moves : ∀ p s h s' h', later c.state g s h → P.guar p s h s' h' → later c.state g s' h') :
    ∃ g', later c.state g c'.state g' ∧ Holds P idle post c' g' := by
  induction reaches with
  | refl => exact ⟨g, start, holds⟩
  | step _ moved ih =>
      obtain ⟨g', since, before⟩ := ih
      obtain ⟨p, g'', guar, after⟩ := moved.holds sound before
      exact ⟨g'', moves p _ _ _ _ since guar, after⟩

end Invariant
end Pool
end Sfsdb.Program

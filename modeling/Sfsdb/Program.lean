import Mathlib.Logic.Relation

/-!
Programs over an arbitrary signature of calls. A program returns a value,
issues one call and goes on with its response, or iterates a body until the
body leaves the loop. The meaning of the calls is a parameter: a relation
between the state before a call, its response and the state after it. One
program therefore has a run to completion, a set of reachable interruption
points and an interleaving with other programs, all over the same text.
-/

namespace Sfsdb

inductive Program (Call : Type) (Resp : Call → Type) : Type → Type 1 where
  | done {α : Type} (value : α) : Program Call Resp α
  | call {α : Type} (c : Call) (next : Resp c → Program Call Resp α) : Program Call Resp α
  | loop {α σ β : Type} (body : σ → Program Call Resp (σ ⊕ β)) (start : σ)
      (next : β → Program Call Resp α) : Program Call Resp α

namespace Program

variable {Call : Type} {Resp : Call → Type} {State α β γ σ : Type}

def bind {α β : Type} : Program Call Resp α → (α → Program Call Resp β) → Program Call Resp β
  | .done value, rest => rest value
  | .call c next, rest => .call c fun response => (next response).bind rest
  | .loop body start next, rest => .loop body start fun result => (next result).bind rest

instance : Monad (Program Call Resp) where
  pure := .done
  bind := .bind

def issue (c : Call) : Program Call Resp (Resp c) := .call c .done

/-- Run `body` from `start` until it returns `Sum.inr`. -/
def iterate (body : σ → Program Call Resp (σ ⊕ β)) (start : σ) : Program Call Resp β :=
  .loop body start .done

def turn (body : σ → Program Call Resp (σ ⊕ β)) (next : β → Program Call Resp α) :
    σ ⊕ β → Program Call Resp α
  | .inl again => .loop body again next
  | .inr result => next result

theorem bind_assoc {α β γ : Type} (p : Program Call Resp α) (f : α → Program Call Resp β)
    (g : β → Program Call Resp γ) :
    (p.bind f).bind g = p.bind fun value => (f value).bind g := by
  induction p with
  | done value => rfl
  | call c next ih =>
      simp only [bind, Program.call.injEq, heq_eq_eq, true_and]
      funext response
      exact ih response f
  | loop body start next _ ih =>
      simp only [bind, Program.loop.injEq, heq_eq_eq, true_and]
      funext result
      exact ih result f

theorem bind_done {α : Type} (p : Program Call Resp α) : p.bind .done = p := by
  induction p with
  | done value => rfl
  | call c next ih =>
      simp only [bind, Program.call.injEq, heq_eq_eq, true_and]
      funext response
      exact ih response
  | loop body start next _ ih =>
      simp only [bind, Program.loop.injEq, heq_eq_eq, true_and]
      funext result
      exact ih result

@[simp] theorem pure_eq_done (value : α) : (pure value : Program Call Resp α) = .done value := rfl

@[simp] theorem bind_eq_bind (p : Program Call Resp α) (f : α → Program Call Resp β) :
    p >>= f = p.bind f := rfl

theorem turn_bind (body : σ → Program Call Resp (σ ⊕ β)) (next : β → Program Call Resp α)
    (rest : α → Program Call Resp γ) (result : σ ⊕ β) :
    (turn body next result).bind rest = turn body (fun value => (next value).bind rest) result := by
  cases result <;> rfl

section Runs
variable (sem : (c : Call) → State → Resp c → State → Prop)

/-- A run to completion: the value returned and the state left behind. -/
inductive Runs : {α : Type} → Program Call Resp α → State → α → State → Prop where
  | done {α : Type} {value : α} {s : State} : Runs (.done value) s value s
  | call {α : Type} {c : Call} {next : Resp c → Program Call Resp α} {response : Resp c}
      {value : α} {s middle t : State} :
      sem c s response middle → Runs (next response) middle value t →
      Runs (.call c next) s value t
  | loop {α σ β : Type} {body : σ → Program Call Resp (σ ⊕ β)} {start : σ}
      {next : β → Program Call Resp α} {value : α} {s t : State} :
      Runs ((body start).bind (turn body next)) s value t → Runs (.loop body start next) s value t

variable {sem}

theorem Runs.of_eq {p : Program Call Resp α} {value expected : α} {s t target : State}
    (run : Runs sem p s value t) (sameValue : value = expected) (sameState : t = target) :
    Runs sem p s expected target := by
  subst sameValue sameState
  exact run

theorem runs_done_iff {value result : α} {s t : State} :
    Runs sem (.done value) s result t ↔ result = value ∧ t = s := by
  constructor
  · intro run
    cases run
    exact ⟨rfl, rfl⟩
  · rintro ⟨rfl, rfl⟩
    exact Runs.done

theorem runs_call_iff {c : Call} {next : Resp c → Program Call Resp α} {value : α}
    {s t : State} :
    Runs sem (.call c next) s value t ↔
      ∃ response middle, sem c s response middle ∧ Runs sem (next response) middle value t := by
  constructor
  · intro run
    cases run with
    | call step rest => exact ⟨_, _, step, rest⟩
  · rintro ⟨response, middle, step, rest⟩
    exact Runs.call step rest

theorem runs_loop_iff {body : σ → Program Call Resp (σ ⊕ β)} {start : σ}
    {next : β → Program Call Resp α} {value : α} {s t : State} :
    Runs sem (.loop body start next) s value t ↔
      Runs sem ((body start).bind (turn body next)) s value t := by
  constructor
  · intro run
    cases run with
    | loop rest => exact rest
  · exact Runs.loop

theorem Runs.bind {p : Program Call Resp α} {f : α → Program Call Resp β} {value : α}
    {result : β} {s middle t : State} (first : Runs sem p s value middle)
    (second : Runs sem (f value) middle result t) : Runs sem (p.bind f) s result t := by
  induction first with
  | done => exact second
  | call step _ ih => exact Runs.call step (ih second)
  | loop _ ih =>
      have unrolled := ih second
      rw [bind_assoc] at unrolled
      simp only [turn_bind] at unrolled
      exact Runs.loop unrolled

theorem runs_bind_split {p : Program Call Resp α} {f : α → Program Call Resp β} {result : β}
    {s t : State} (run : Runs sem (p.bind f) s result t) :
    ∃ value middle, Runs sem p s value middle ∧ Runs sem (f value) middle result t := by
  generalize whole : p.bind f = q at run
  induction run generalizing α with
  | done =>
      cases p with
      | done value =>
          refine ⟨value, _, Runs.done, ?_⟩
          rw [show f value = _ from whole]
          exact Runs.done
      | call c next => cases whole
      | loop body start next => cases whole
  | call step rest ih =>
      cases p with
      | done value =>
          refine ⟨value, _, Runs.done, ?_⟩
          rw [show f value = _ from whole]
          exact Runs.call step rest
      | call c next =>
          cases whole
          obtain ⟨value, middle, first, second⟩ := ih rfl
          exact ⟨value, middle, Runs.call step first, second⟩
      | loop body start next => cases whole
  | loop rest ih =>
      rename_i body start _ _ _ _
      cases p with
      | done value =>
          refine ⟨value, _, Runs.done, ?_⟩
          rw [show f value = _ from whole]
          exact Runs.loop rest
      | call c next => cases whole
      | loop body' start' next =>
          cases whole
          have unrolled : ((body start).bind (turn body next)).bind f =
              (body start).bind (turn body fun result => (next result).bind f) := by
            rw [bind_assoc]
            simp only [turn_bind]
          obtain ⟨value, middle, first, second⟩ := ih unrolled
          exact ⟨value, middle, Runs.loop first, second⟩

theorem runs_issue_iff {c : Call} {response : Resp c} {s t : State} :
    Runs sem (issue c) s response t ↔ sem c s response t := by
  constructor
  · intro run
    obtain ⟨_, _, step, rest⟩ := runs_call_iff.mp run
    obtain ⟨rfl, rfl⟩ := runs_done_iff.mp rest
    exact step
  · intro step
    exact Runs.call step Runs.done

theorem Runs.again {body : σ → Program Call Resp (σ ⊕ β)} {start next : σ} {value : β}
    {s middle t : State} (turn : Runs sem (body start) s (.inl next) middle)
    (rest : Runs sem (iterate body next) middle value t) :
    Runs sem (iterate body start) s value t :=
  Runs.loop (turn.bind rest)

theorem Runs.leave {body : σ → Program Call Resp (σ ⊕ β)} {start : σ} {value : β} {s t : State}
    (turn : Runs sem (body start) s (.inr value) t) : Runs sem (iterate body start) s value t :=
  Runs.loop (turn.bind Runs.done)

theorem Runs.mono {sem' : (c : Call) → State → Resp c → State → Prop}
    (weaker : ∀ c s r t, sem c s r t → sem' c s r t) {p : Program Call Resp α} {value : α}
    {s t : State} (run : Runs sem p s value t) : Runs sem' p s value t := by
  induction run with
  | done => exact Runs.done
  | call step _ ih => exact Runs.call (weaker _ _ _ _ step) ih
  | loop _ ih => exact Runs.loop ih

theorem runs_deterministic
    (single : ∀ c s r₁ t₁ r₂ t₂, sem c s r₁ t₁ → sem c s r₂ t₂ → r₁ = r₂ ∧ t₁ = t₂)
    {p : Program Call Resp α} {v₁ v₂ : α} {s t₁ t₂ : State}
    (first : Runs sem p s v₁ t₁) (second : Runs sem p s v₂ t₂) : v₁ = v₂ ∧ t₁ = t₂ := by
  induction first with
  | done =>
      obtain ⟨rfl, rfl⟩ := runs_done_iff.mp second
      exact ⟨rfl, rfl⟩
  | call step _ ih =>
      obtain ⟨response, middle, other, rest⟩ := runs_call_iff.mp second
      obtain ⟨rfl, rfl⟩ := single _ _ _ _ _ _ step other
      exact ih rest
  | loop _ ih => exact ih (runs_loop_iff.mp second)

/-- The calls of a program preserve `Inv`, hence so does every run of it. -/
theorem runs_invariant (Inv : State → Prop)
    (kept : ∀ c s r t, sem c s r t → Inv s → Inv t)
    {p : Program Call Resp α} {value : α} {s t : State}
    (run : Runs sem p s value t) (start : Inv s) : Inv t := by
  induction run with
  | done => exact start
  | call step _ ih => exact ih (kept _ _ _ _ step start)
  | loop _ ih => exact ih start

inductive Issues (kind : Call → Prop) : {α : Type} → Program Call Resp α → Prop where
  | done {α : Type} {value : α} : Issues kind (.done value)
  | call {α : Type} {c : Call} {next : Resp c → Program Call Resp α} :
      kind c → (∀ response, Issues kind (next response)) → Issues kind (.call c next)

theorem Issues.bind {kind : Call → Prop} {p : Program Call Resp α} {f : α → Program Call Resp β}
    (first : Issues kind p) (second : ∀ value, Issues kind (f value)) : Issues kind (p.bind f) := by
  induction first with
  | done => exact second _
  | call here _ ih => exact Issues.call here ih

theorem issues_issue {kind : Call → Prop} {c : Call} (here : kind c) :
    Issues kind (issue c : Program Call Resp (Resp c)) :=
  Issues.call here fun _ => Issues.done

theorem Issues.runs {kind : Call → Prop} {Inv : State → Prop}
    (outcome : ∀ c s, kind c → Inv s → ∃ r t, sem c s r t ∧ Inv t)
    {p : Program Call Resp α} (issues : Issues kind p) {s : State} (start : Inv s) :
    ∃ value t, Runs sem p s value t ∧ Inv t := by
  induction issues generalizing s with
  | done => exact ⟨_, s, Runs.done, start⟩
  | call here _ ih =>
      obtain ⟨r, middle, step, kept⟩ := outcome _ s here start
      obtain ⟨value, t, rest, last⟩ := ih r kept
      exact ⟨value, t, Runs.call step rest, last⟩

end Runs

section Steps
variable (sem : (c : Call) → State → Resp c → State → Prop)

/-- One step of a program: a call with its response, or the unrolling of a
loop. A run may be interrupted or interleaved between any two steps. -/
inductive Step : Program Call Resp α → State → Program Call Resp α → State → Prop where
  | call {c : Call} {next : Resp c → Program Call Resp α} {response : Resp c} {s t : State} :
      sem c s response t → Step (.call c next) s (next response) t
  | loop {σ β : Type} {body : σ → Program Call Resp (σ ⊕ β)} {start : σ}
      {next : β → Program Call Resp α} {s : State} :
      Step (.loop body start next) s ((body start).bind (turn body next)) s

/-- The points a run of `p` from `s` can reach. -/
inductive Reaches : Program Call Resp α → State → Program Call Resp α → State → Prop where
  | refl {p : Program Call Resp α} {s : State} : Reaches p s p s
  | step {p q r : Program Call Resp α} {s t u : State} :
      Step sem p s q t → Reaches q t r u → Reaches p s r u

end Steps

def mapCalls {Call' : Type} {Resp' : Call' → Type} (into : Call → Call')
    (back : (c : Call) → Resp' (into c) → Resp c) {α : Type} :
    Program Call Resp α → Program Call' Resp' α
  | .done value => .done value
  | .call c next => .call (into c) fun response => (next (back c response)).mapCalls into back
  | .loop body start next =>
      .loop (fun st => (body st).mapCalls into back) start fun result => (next result).mapCalls into back

section MapCalls
variable {Call' : Type} {Resp' : Call' → Type} {into : Call → Call'}
  {back : (c : Call) → Resp' (into c) → Resp c}

theorem mapCalls_bind (p : Program Call Resp α) (f : α → Program Call Resp β) :
    (p.bind f).mapCalls into back = (p.mapCalls into back).bind fun value => (f value).mapCalls into back := by
  induction p with
  | done value => rfl
  | call c next ih =>
      simp only [bind, mapCalls, Program.call.injEq, heq_eq_eq, true_and]
      funext response
      exact ih _ f
  | loop body start next _ ih =>
      simp only [bind, mapCalls, Program.loop.injEq, heq_eq_eq, true_and]
      funext result
      exact ih _ f

theorem turn_mapCalls (body : σ → Program Call Resp (σ ⊕ β)) (next : β → Program Call Resp α)
    (result : σ ⊕ β) :
    (turn body next result).mapCalls into back =
      turn (fun st => (body st).mapCalls into back) (fun value => (next value).mapCalls into back) result := by
  cases result <;> rfl

theorem Runs.mapCalls {sem : (c : Call) → State → Resp c → State → Prop}
    {sem' : (c : Call') → State → Resp' c → State → Prop}
    (alike : ∀ c s r t, sem c s r t → ∃ r', back c r' = r ∧ sem' (into c) s r' t)
    {p : Program Call Resp α} {value : α} {s t : State} (run : Runs sem p s value t) :
    Runs sem' (p.mapCalls into back) s value t := by
  induction run with
  | done => exact Runs.done
  | call answered _ ih =>
      obtain ⟨r', rfl, answered'⟩ := alike _ _ _ _ answered
      exact Runs.call answered' ih
  | loop _ ih =>
      apply Runs.loop
      simpa only [mapCalls_bind, turn_mapCalls] using ih

end MapCalls

theorem Step.bind {sem : (c : Call) → State → Resp c → State → Prop} {p q : Program Call Resp α}
    {f : α → Program Call Resp β} {s t : State} (step : Step sem p s q t) :
    Step sem (p.bind f) s (q.bind f) t := by
  cases step with
  | call answered => exact Step.call answered
  | loop =>
      rename_i body start next
      have unrolled : ((body start).bind (turn body next)).bind f =
          (body start).bind (turn body fun result => (next result).bind f) := by
        rw [bind_assoc]
        simp only [turn_bind]
      rw [unrolled]
      exact Step.loop

namespace Reaches

variable {sem : (c : Call) → State → Resp c → State → Prop} {p q r : Program Call Resp α}
  {f : α → Program Call Resp β} {s t u : State}

theorem trans (first : Reaches sem p s q t) (second : Reaches sem q t r u) : Reaches sem p s r u := by
  induction first with
  | refl => exact second
  | step here _ ih => exact Reaches.step here (ih second)

theorem bind (reach : Reaches sem p s q t) : Reaches sem (p.bind f) s (q.bind f) t := by
  induction reach with
  | refl => exact Reaches.refl
  | step here _ ih => exact Reaches.step here.bind ih

theorem of_runs {value : α} (run : Runs sem p s value t) : Reaches sem p s (.done value) t := by
  induction run with
  | done => exact Reaches.refl
  | call answered _ ih => exact Reaches.step (Step.call answered) ih
  | loop _ ih => exact Reaches.step Step.loop ih

theorem again {body : σ → Program Call Resp (σ ⊕ β)} {start next : σ}
    (turn : Runs sem (body start) s (.inl next) t) : Reaches sem (iterate body start) s (iterate body next) t :=
  Reaches.step Step.loop (of_runs turn).bind

theorem behind {value : α} {point : Program Call Resp β} (run : Runs sem p s value t)
    (reach : Reaches sem (f value) t point u) : Reaches sem (p.bind f) s point u :=
  (of_runs run).bind.trans reach

theorem runs {value : α} (reach : Reaches sem p s (.done value) t) : Runs sem p s value t := by
  generalize ended : Program.done value = last at reach
  induction reach with
  | refl =>
      subst ended
      exact Runs.done
  | step here _ ih =>
      have rest := ih ended
      cases here with
      | call answered => exact Runs.call answered rest
      | loop => exact Runs.loop rest

theorem bind_split {point : Program Call Resp β} (reach : Reaches sem (p.bind f) s point t) :
    (∃ inside, point = inside.bind f ∧ Reaches sem p s inside t) ∨
    (∃ value middle, Runs sem p s value middle ∧ Reaches sem (f value) middle point t) := by
  -- A point of a sequence of two programs lies in the first, or in the second behind a run of the
  -- first.
  generalize whole : p.bind f = both at reach
  induction reach generalizing p with
  | refl => exact Or.inl ⟨p, whole.symm, Reaches.refl⟩
  | step first rest ih =>
      rename_i both next point s₁ s₂ last
      have onward : ∀ {p' : Program Call Resp α}, Step sem p s₁ p' s₂ → p'.bind f = next →
          (∃ inside, point = inside.bind f ∧ Reaches sem p s₁ inside last) ∨
          (∃ value middle, Runs sem p s₁ value middle ∧ Reaches sem (f value) middle point last) := by
        intro p' here same
        rcases ih same with ⟨inside, rfl, later⟩ | ⟨value, middle, run, behind⟩
        · exact Or.inl ⟨inside, rfl, Reaches.step here later⟩
        · refine Or.inr ⟨value, middle, ?_, behind⟩
          cases here with
          | call answered => exact Runs.call answered run
          | loop => exact Runs.loop run
      cases p with
      | done value =>
          refine Or.inr ⟨value, s₁, Runs.done, ?_⟩
          rw [show f value = both from whole]
          exact Reaches.step first rest
      | call c next =>
          cases whole
          cases first with
          | call answered => exact onward (Step.call answered) rfl
      | loop body start next =>
          cases whole
          cases first with
          | loop =>
              apply onward Step.loop
              rw [bind_assoc]
              simp only [turn_bind]

/-- Where calls have one outcome, the rest of a run is ahead of each of its points. -/
theorem ahead (single : ∀ c s r₁ t₁ r₂ t₂, sem c s r₁ t₁ → sem c s r₂ t₂ → r₁ = r₂ ∧ t₁ = t₂)
    (reach : Reaches sem p s q t) {value : α} (run : Runs sem p s value u) : Runs sem q t value u := by
  induction reach with
  | refl => exact run
  | step here _ ih =>
      cases here with
      | call answered =>
          obtain ⟨response, middle, step, rest⟩ := runs_call_iff.mp run
          obtain ⟨rfl, rfl⟩ := single _ _ _ _ _ _ answered step
          exact ih rest
      | loop => exact ih (runs_loop_iff.mp run)

theorem invariant (Inv : State → Prop) (kept : ∀ c s r t, sem c s r t → Inv s → Inv t)
    (reach : Reaches sem p s q t) (start : Inv s) : Inv t := by
  induction reach with
  | refl => exact start
  | step here _ ih =>
      cases here with
      | call answered => exact ih (kept _ _ _ _ answered start)
      | loop => exact ih start

end Reaches

section Points
variable {sem : (c : Call) → State → Resp c → State → Prop} {s t : State}

theorem reaches_done {value : α} {point : Program Call Resp α} (reach : Reaches sem (.done value) s point t) :
    t = s := by
  cases reach with
  | refl => rfl
  | step here _ => cases here

theorem reaches_issue {c : Call} {point : Program Call Resp (Resp c)} (reach : Reaches sem (issue c) s point t) :
    t = s ∨ ∃ response, sem c s response t := by
  cases reach with
  | refl => exact Or.inl rfl
  | step here rest =>
      cases here with
      | call answered =>
          rw [reaches_done rest]
          exact Or.inr ⟨_, answered⟩

theorem reaches_mapped {p : Program Call Resp α} {f : α → Program Call Resp β} {point : Program Call Resp β}
    (returns : ∀ value, ∃ w, f value = .done w) (reach : Reaches sem (p.bind f) s point t) :
    ∃ inside, Reaches sem p s inside t := by
  rcases reach.bind_split with ⟨inside, _, within⟩ | ⟨value, middle, run, behind⟩
  · exact ⟨inside, within⟩
  · obtain ⟨w, same⟩ := returns value
    rw [same] at behind
    obtain rfl := reaches_done behind
    exact ⟨_, Reaches.of_runs run⟩

theorem reaches_loop {body : σ → Program Call Resp (σ ⊕ β)} {start : σ} {next : β → Program Call Resp α}
    {point : Program Call Resp α} (reach : Reaches sem (.loop body start next) s point t) :
    t = s ∨ Reaches sem ((body start).bind (turn body next)) s point t := by
  cases reach with
  | refl => exact Or.inl rfl
  | step here rest =>
      cases here with
      | loop => exact Or.inr rest

end Points

/-- Bounded executable runner for calls with at most one outcome; `fuel`
bounds the calls and loop turns together. -/
def run (exec : (c : Call) → State → Option (Resp c × State)) :
    Nat → Program Call Resp α → State → Option (α × State)
  | _, .done value, s => some (value, s)
  | 0, _, _ => none
  | fuel + 1, .call c next, s =>
      match exec c s with
      | none => none
      | some (response, t) => run exec fuel (next response) t
  | fuel + 1, .loop body start next, s =>
      run exec fuel ((body start).bind (turn body next)) s

theorem run_sound (exec : (c : Call) → State → Option (Resp c × State)) (fuel : Nat)
    (p : Program Call Resp α) (value : α) (s t : State)
    (result : run exec fuel p s = some (value, t)) :
    Runs (fun c s r t => exec c s = some (r, t)) p s value t := by
  induction fuel generalizing p s with
  | zero =>
      cases p with
      | done final =>
          simp only [run, Option.some.injEq, Prod.mk.injEq] at result
          obtain ⟨rfl, rfl⟩ := result
          exact Runs.done
      | call c next => simp [run] at result
      | loop body start next => simp [run] at result
  | succ fuel ih =>
      cases p with
      | done final =>
          simp only [run, Option.some.injEq, Prod.mk.injEq] at result
          obtain ⟨rfl, rfl⟩ := result
          exact Runs.done
      | call c next =>
          simp only [run] at result
          split at result
          · cases result
          · rename_i response middle answered
            exact Runs.call answered (ih _ _ result)
      | loop body start next =>
          simp only [run] at result
          exact Runs.loop (ih _ _ result)

end Program
end Sfsdb

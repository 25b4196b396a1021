import Sfsdb.Program

/-!
What a program may do, whatever it is answered. `Within covers answers R p` says
of the text of `p` that it makes only calls that `covers` allows and returns
only values in `R`, as long as every response is one that `answers` admits. The
rules follow the text; `Within.reaches` and `Within.runs` carry the result over
to every point a run can reach and to every run to the end, once each covered
call has been shown to keep an invariant of the state.
-/

namespace Sfsdb.Program

variable {Call : Type} {Resp : Call → Type} {State α β γ σ : Type}

section Rules
variable (covers : Call → Prop) (answers : (c : Call) → Resp c → Prop)

inductive Within : {α : Type} → (α → Prop) → Program Call Resp α → Prop where
  | done {α : Type} {R : α → Prop} {value : α} : R value → Within R (.done value)
  | call {α : Type} {R : α → Prop} {c : Call} {next : Resp c → Program Call Resp α} :
      covers c → (∀ r, answers c r → Within R (next r)) → Within R (.call c next)
  | loop {α σ β : Type} {R : α → Prop} {body : σ → Program Call Resp (σ ⊕ β)} {start : σ}
      {next : β → Program Call Resp α} (J : σ → Prop) (T : β → Prop) : J start →
      (∀ st, J st → Within (Sum.elim J T) (body st)) → (∀ result, T result → Within R (next result)) →
      Within R (.loop body start next)

variable {covers answers}

theorem Within.bind {T : α → Prop} {R : β → Prop} {p : Program Call Resp α}
    {f : α → Program Call Resp β} (first : Within covers answers T p)
    (second : ∀ value, T value → Within covers answers R (f value)) :
    Within covers answers R (p.bind f) := by
  induction first with
  | done here => exact second _ here
  | call covered _ ih => exact Within.call covered fun r answered => ih r answered second
  | loop J T' start body _ _ ih =>
      exact Within.loop J T' start body fun result left => ih result left second

theorem Within.mono {T R : α → Prop} {p : Program Call Resp α}
    (within : Within covers answers T p) (weaker : ∀ value, T value → R value) :
    Within covers answers R p := by
  have bound : Within covers answers R (p.bind .done) :=
    within.bind fun value here => Within.done (weaker value here)
  rwa [bind_done] at bound

theorem Within.imp {covers' : Call → Prop} {answers' : (c : Call) → Resp c → Prop} {R : α → Prop}
    {p : Program Call Resp α} (within : Within covers answers R p) (more : ∀ c, covers c → covers' c)
    (fewer : ∀ c r, answers' c r → answers c r) : Within covers' answers' R p := by
  induction within with
  | done here => exact Within.done here
  | call covered _ ih => exact Within.call (more _ covered) fun r answered => ih r (fewer _ r answered)
  | loop J T start _ _ ihBody ihNext => exact Within.loop J T start ihBody ihNext

theorem within_issue {c : Call} {R : Resp c → Prop} (covered : covers c)
    (answered : ∀ r, answers c r → R r) :
    Within covers answers R (issue c : Program Call Resp (Resp c)) :=
  Within.call covered fun r here => Within.done (answered r here)

theorem within_iterate {body : σ → Program Call Resp (σ ⊕ β)} {start : σ} (J : σ → Prop)
    (T : β → Prop) (begins : J start)
    (turns : ∀ st, J st → Within covers answers (Sum.elim J T) (body st)) :
    Within covers answers T (iterate body start) :=
  Within.loop J T begins turns fun _ left => Within.done left

theorem Within.unroll {R : α → Prop} {body : σ → Program Call Resp (σ ⊕ β)} {start : σ}
    {next : β → Program Call Resp α} (within : Within covers answers R (.loop body start next)) :
    Within covers answers R ((body start).bind (turn body next)) := by
  cases within with
  | loop J T begins turns rest =>
      apply (turns start begins).bind
      intro result kept
      cases result with
      | inl again => exact Within.loop J T kept turns rest
      | inr value => exact rest value kept

theorem mapCalls_within {Call' : Type} {Resp' : Call' → Type} {covers : Call' → Prop}
    {into : Call → Call'} {back : (c : Call) → Resp' (into c) → Resp c} (covered : ∀ c, covers (into c))
    (p : Program Call Resp α) :
    Within covers (fun _ _ => True) (fun _ => True) (p.mapCalls into back) := by
  induction p with
  | done value => exact Within.done trivial
  | call c next ih => exact Within.call (covered c) fun r _ => ih _
  | loop body start next ihBody ihNext =>
      refine Within.loop (fun _ => True) (fun _ => True) trivial (fun st _ => ?_) fun result _ => ihNext result
      exact (ihBody st).mono fun result _ => by cases result <;> trivial

end Rules

section Invariants
variable {covers : Call → Prop} {answers : (c : Call) → Resp c → Prop}
  {sem : (c : Call) → State → Resp c → State → Prop} {Inv : State → Prop}

/-- Covered calls are answered as expected and keep the invariant. -/
def Respects (covers : Call → Prop) (answers : (c : Call) → Resp c → Prop)
    (sem : (c : Call) → State → Resp c → State → Prop) (Inv : State → Prop) : Prop :=
  ∀ c s r t, covers c → Inv s → sem c s r t → answers c r ∧ Inv t

theorem Within.runs (respects : Respects covers answers sem Inv) {R : α → Prop}
    {p : Program Call Resp α} (within : Within covers answers R p) {s t : State} {value : α}
    (run : Runs sem p s value t) (start : Inv s) : R value ∧ Inv t := by
  induction run with
  | done =>
      cases within with
      | done here => exact ⟨here, start⟩
  | call step _ ih =>
      cases within with
      | call covered rest =>
          obtain ⟨answered, kept⟩ := respects _ _ _ _ covered start step
          exact ih (rest _ answered) kept
  | loop _ ih => exact ih within.unroll start

theorem Within.reaches (respects : Respects covers answers sem Inv) {R : α → Prop}
    {p q : Program Call Resp α} (within : Within covers answers R p) {s t : State}
    (reach : Reaches sem p s q t) (start : Inv s) : Within covers answers R q ∧ Inv t := by
  induction reach with
  | refl => exact ⟨within, start⟩
  | step first _ ih =>
      cases first with
      | call step =>
          cases within with
          | call covered rest =>
              obtain ⟨answered, kept⟩ := respects _ _ _ _ covered start step
              exact ih (rest _ answered) kept
      | loop => exact ih within.unroll start

theorem Within.covered {R : α → Prop} {c : Call} {next : Resp c → Program Call Resp α}
    (within : Within covers answers R (.call c next)) : covers c := by
  cases within with
  | call covered _ => exact covered

end Invariants

theorem reaches_call_split {sem : (c : Call) → State → Resp c → State → Prop}
    {p : Program Call Resp α} {f : α → Program Call Resp β} {c : Call}
    {next : Resp c → Program Call Resp β} {s t : State}
    (reach : Reaches sem (p.bind f) s (.call c next) t) :
    (∃ next', Reaches sem p s (.call c next') t) ∨
    (∃ value middle, Runs sem p s value middle ∧ Reaches sem (f value) middle (.call c next) t) := by
  rcases reach.bind_split with ⟨inside, point, before⟩ | behind
  · cases inside with
    | done value =>
        refine Or.inr ⟨value, t, before.runs, ?_⟩
        rw [point]
        exact Reaches.refl
    | call c' next' =>
        cases point
        exact Or.inl ⟨next', before⟩
    | loop body start next' => cases point
  · exact Or.inr behind

end Sfsdb.Program

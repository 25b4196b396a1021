import Sfsdb.Footprint

/-!
Runs that keep a log: beside the state stand the calls made so far, each with
what it was answered. Within a footprint all of whose calls are of one kind, a
run adds only events of that kind.
-/

namespace Sfsdb.Program

variable {Call : Type} {Resp : Call → Type} {State α : Type}

def logged (sem : (c : Call) → State → Resp c → State → Prop) (c : Call)
    (s : State × List (Sigma Resp)) (r : Resp c) (t : State × List (Sigma Resp)) : Prop :=
  sem c s.1 r t.1 ∧ t.2 = s.2 ++ [⟨c, r⟩]

def logging (exec : (c : Call) → State → Option (Resp c × State)) (c : Call)
    (s : State × List (Sigma Resp)) : Option (Resp c × (State × List (Sigma Resp))) :=
  (exec c s.1).map fun result => (result.1, result.2, s.2 ++ [⟨c, result.1⟩])

variable {sem : (c : Call) → State → Resp c → State → Prop}

theorem logging_runs {exec : (c : Call) → State → Option (Resp c × State)}
    (does : ∀ c s r t, exec c s = some (r, t) → sem c s r t) {fuel : Nat} {p : Program Call Resp α}
    {value : α} {s t : State × List (Sigma Resp)} (ran : run (logging exec) fuel p s = some (value, t)) :
    Runs (logged sem) p s value t := by
  apply (run_sound _ _ _ _ _ _ ran).mono
  intro c s r t answered
  rcases Option.map_eq_some_iff.mp answered with ⟨⟨r', middle⟩, here, same⟩
  cases same
  exact ⟨does c _ _ _ here, rfl⟩

theorem Runs.unlogged {p : Program Call Resp α} {s t : State × List (Sigma Resp)} {value : α}
    (run : Runs (logged sem) p s value t) : Runs sem p s.1 value t.1 := by
  induction run with
  | done => exact Runs.done
  | call step _ ih => exact Runs.call step.1 ih
  | loop _ ih => exact Runs.loop ih

theorem Runs.log_prefix {p : Program Call Resp α} {s t : State × List (Sigma Resp)} {value : α}
    (run : Runs (logged sem) p s value t) : s.2 <+: t.2 := by
  induction run with
  | done => exact List.prefix_refl _
  | call step _ ih =>
      refine List.IsPrefix.trans ?_ ih
      rw [step.2]
      exact List.prefix_append _ _
  | loop _ ih => exact ih

/-- A program does the same for the same answers: of two runs whose logs do not
differ, both end with one value and one log. -/
theorem Runs.same_log {p : Program Call Resp α} {s₁ t₁ s₂ t₂ : State × List (Sigma Resp)} {v₁ v₂ : α}
    {log : List (Sigma Resp)} (first : Runs (logged sem) p s₁ v₁ t₁) (second : Runs (logged sem) p s₂ v₂ t₂)
    (start : s₁.2 = s₂.2) (early₁ : t₁.2 <+: log) (early₂ : t₂.2 <+: log) : v₁ = v₂ ∧ t₁.2 = t₂.2 := by
  induction first generalizing s₂ with
  | done =>
      obtain ⟨rfl, rfl⟩ := runs_done_iff.mp second
      exact ⟨rfl, start⟩
  | call step rest ih =>
      cases second with
      | call step' rest' =>
          have begun := rest.log_prefix.trans early₁
          have begun' := rest'.log_prefix.trans early₂
          rw [step.2] at begun
          rw [step'.2, ← start] at begun'
          have same := (List.prefix_of_prefix_length_le begun begun' (by simp)).eq_of_length (by simp)
          cases List.append_cancel_left same
          refine ih rest' ?_ early₁
          rw [step.2, step'.2, start]
  | loop _ ih =>
      cases second with
      | loop inside => exact ih inside start early₁

/-- The log takes no part in what the calls keep. -/
theorem Within.logs {covers : Call → Prop} {answers : (c : Call) → Resp c → Prop} {Inv : State → Prop}
    (Quiet : Sigma Resp → Prop) (respects : Respects covers answers sem Inv)
    (quiet : ∀ c r, covers c → Quiet ⟨c, r⟩) {R : α → Prop} {p : Program Call Resp α}
    (within : Within covers answers R p) {s t : State × List (Sigma Resp)} {value : α}
    (run : Runs (logged sem) p s value t) (start : Inv s.1) (before : ∀ event ∈ s.2, Quiet event) :
    R value ∧ Inv t.1 ∧ ∀ event ∈ t.2, Quiet event := by
  have respects : Respects covers answers (logged sem)
      fun s => Inv s.1 ∧ ∀ event ∈ s.2, Quiet event := by
    rintro c s r t covered ⟨inv, before⟩ ⟨step, log⟩
    rcases respects c _ r _ covered inv step with ⟨answered, kept⟩
    refine ⟨answered, kept, ?_⟩
    intro event member
    rw [log] at member
    rcases List.mem_append.mp member with earlier | here
    · exact before event earlier
    · cases List.mem_singleton.mp here
      exact quiet c r covered
  exact Within.runs respects within run ⟨start, before⟩

end Sfsdb.Program

/-!
Runs of a step function that reports what it does. `Throughout` asks a condition of
every step in the state it is taken in. Where an invariant makes the acts of one
step right exactly under its guard, and is kept by guarded steps, the acts of a
whole run are right exactly where all its steps are guarded.
-/

namespace Sfsdb.Guarded

variable {State Op Act : Type} (step : State → Op → State × List Act)

def acts : State → List Op → List Act
  | _, [] => []
  | s, op :: rest => (step s op).2 ++ acts (step s op).1 rest

def Throughout (Guard : State → Op → Prop) : State → List Op → Prop
  | _, [] => True
  | s, op :: rest => Guard s op ∧ Throughout Guard (step s op).1 rest

variable {step}

theorem acts_iff {Inv : State → Prop} {Guard : State → Op → Prop} {Right : Act → Prop}
    (here : ∀ s op, Inv s → ((∀ act ∈ (step s op).2, Right act) ↔ Guard s op))
    (kept : ∀ s op, Inv s → Guard s op → Inv (step s op).1)
    (ops : List Op) (s : State) (inv : Inv s) :
    (∀ act ∈ acts step s ops, Right act) ↔ Throughout step Guard s ops := by
  -- By induction over the steps: behind the first unguarded step nothing is known, but that step
  -- has done something wrong already.
  induction ops generalizing s with
  | nil => simp [acts, Throughout]
  | cons op rest ih =>
      simp only [acts, Throughout, List.mem_append, or_imp, forall_and, here s op inv]
      constructor
      · rintro ⟨guard, later⟩
        exact ⟨guard, (ih _ (kept s op inv guard)).mp later⟩
      · rintro ⟨guard, later⟩
        exact ⟨guard, (ih _ (kept s op inv guard)).mpr later⟩

end Sfsdb.Guarded

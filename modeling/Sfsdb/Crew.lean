import Sfsdb.RelyGuarantee

/-!
Processes that take on jobs over one shared state. In contrast to the operations of
a pool, whether a process may take a job on, and what taking it on and being done
with it record, depends on the process and on the state; so a job can name the state
that it was taken on in. `Extends` says that a protocol watches a larger state than
another one does, and `Triple.extends` that the outlines of the other one hold under it.
-/

namespace Sfsdb.Program

variable {Call : Type} {Resp : Call → Type} {Pid State State' Ghost α β : Type}

/-! ## Protocols on a larger state -/

section Extensions
variable (P : Protocol Call Resp Pid State Ghost) (P' : Protocol Call Resp Pid State' Ghost)
  (view : State' → State) (p : Pid) (covers : Call → Prop)

def Makes (s s' : State') : Prop := s' = s ∨ ∃ c r, covers c ∧ P'.sem p c s r s'

structure Extends : Prop where
  inv : ∀ s g, P'.inv s g → P.inv (view s) g
  guar : ∀ q s g s' g', P'.guar q s g s' g' → P.guar q (view s) g (view s') g'
  expects : ∀ c s g, P.expects p c (view s) g → P'.expects p c s g
  sem : ∀ c s r s', P'.sem p c s r s' → P.sem p c (view s) r (view s')
  step : ∀ s g s' g', P'.inv s g → Makes P' p covers s s' → P.inv (view s') g' →
    P.guar p (view s) g (view s') g' → P'.inv s' g' ∧ P'.guar p s g s' g'

variable {P P' view p covers}

theorem Triple.extends {A : State → Ghost → Prop} {E : State' → Ghost → Prop}
    {Q : α → State → Ghost → Prop} {program : Program Call Resp α} {answers : (c : Call) → Resp c → Prop}
    {R : α → Prop} (triple : Triple P p A program Q) (wider : Extends P P' view p covers)
    (within : Within covers answers R program) (stable : Stable P' p E)
    (answered : ∀ c s g r s', P'.inv s g → P'.sem p c s r s' → answers c r)
    (own : ∀ s g s' g', P'.inv s g → P'.inv s' g' → Makes P' p covers s s' → P'.guar p s g s' g' →
      E s g → E s' g') :
    Triple P' p (fun s g => A (view s) g ∧ E s g) program fun value s g => (Q value (view s) g ∧ E s g) ∧ R value := by
  rintro s g inv ⟨before, beside⟩
  obtain ⟨X, closed, here⟩ := triple (view s) g (wider.inv s g inv) before
  refine ⟨fun program s g => X program (view s) g ∧ E s g ∧ Within covers answers R program, ⟨?_, ?_, ?_, ?_⟩,
    here, beside, within⟩
  · rintro program q s g s' g' other before after guar ⟨point, beside, within⟩
    exact ⟨closed.stable program q _ _ _ _ other (wider.inv s g before) (wider.inv s' g' after)
      (wider.guar q s g s' g' guar) point, stable q s g s' g' other before after guar beside, within⟩
  · rintro value s g inv ⟨point, beside, within⟩
    cases within with
    | done result => exact ⟨⟨closed.done value (view s) g (wider.inv s g inv) point, beside⟩, result⟩
  · rintro c next s g inv ⟨point, _, _⟩
    exact wider.expects c s g (closed.call c next (view s) g (wider.inv s g inv) point)
  · rintro program s g program' s' inv ⟨point, beside, within⟩ step
    -- the larger state moves as the smaller one does, or not at all
    have moved : Step (P.sem p) program (view s) program' (view s') ∧ Makes P' p covers s s' ∧
        Within covers answers R program' := by
      cases step with
      | call moves =>
          cases within with
          | call covered rest =>
              exact ⟨Step.call (wider.sem _ _ _ _ moves), Or.inr ⟨_, _, covered, moves⟩,
                rest _ (answered _ _ _ _ _ inv moves)⟩
      | loop => exact ⟨Step.loop, Or.inl rfl, within.unroll⟩
    obtain ⟨narrow, makes, within'⟩ := moved
    obtain ⟨g', kept, guar, point'⟩ := closed.step program (view s) g program' (view s') (wider.inv s g inv) point narrow
    obtain ⟨kept', guar'⟩ := wider.step s g s' g' inv makes kept guar
    exact ⟨g', kept', guar', point', own s g s' g' inv kept' makes guar' beside, within'⟩

end Extensions

/-! ## What no step takes away -/

section Lasting
variable (P : Protocol Call Resp Pid State Ghost)

/-- Every step within the protocol keeps `E`, whoever makes it. -/
def Lasting (E : State → Ghost → Prop) : Prop :=
  ∀ q s g s' g', P.inv s g → P.inv s' g' → P.guar q s g s' g' → E s g → E s' g'

variable {P} {p : Pid} {E E' : State → Ghost → Prop}

theorem Lasting.stable (lasting : Lasting P E) : Stable P p E :=
  fun q s g s' g' _ => lasting q s g s' g'

theorem Lasting.or (first : Lasting P E) (second : Lasting P E') : Lasting P fun s g => E s g ∨ E' s g :=
  fun q s g s' g' before after guar => Or.imp (first q s g s' g' before after guar)
    (second q s g s' g' before after guar)

theorem Lasting.and (first : Lasting P E) (second : Lasting P E') : Lasting P fun s g => E s g ∧ E' s g :=
  fun q s g s' g' before after guar => And.imp (first q s g s' g' before after guar)
    (second q s g s' g' before after guar)

theorem lasting_pure (fact : Prop) : Lasting P fun _ _ => fact := fun _ _ _ _ _ _ _ _ => id

theorem Lasting.all {ι : Sort*} {E : ι → State → Ghost → Prop} (each : ∀ x, Lasting P (E x)) :
    Lasting P fun s g => ∀ x, E x s g :=
  fun q s g s' g' before after guar held x => each x q s g s' g' before after guar (held x)

theorem Stable.and {A B : State → Ghost → Prop} (first : Stable P p A) (second : Stable P p B) :
    Stable P p fun s g => A s g ∧ B s g :=
  fun q s g s' g' other before after guar => And.imp (first q s g s' g' other before after guar)
    (second q s g s' g' other before after guar)

theorem Triple.beside {A : State → Ghost → Prop} {Q : α → State → Ghost → Prop}
    {program : Program Call Resp α} (triple : Triple P p A program Q) (lasting : Lasting P E) :
    Triple P p (fun s g => A s g ∧ E s g) program fun value s g => Q value s g ∧ E s g := by
  -- What lasts can stand beside any outline.
  rintro s g inv ⟨before, beside⟩
  obtain ⟨X, closed, here⟩ := triple s g inv before
  refine ⟨fun program s g => X program s g ∧ E s g, ⟨?_, ?_, ?_, ?_⟩, here, beside⟩
  · exact fun program => (closed.stable program).and lasting.stable
  · rintro value s g inv ⟨point, beside⟩
    exact ⟨closed.done value s g inv point, beside⟩
  · rintro c next s g inv ⟨point, _⟩
    exact closed.call c next s g inv point
  · rintro program s g program' s' inv ⟨point, beside⟩ step
    obtain ⟨g', kept, guar, point'⟩ := closed.step program s g program' s' inv point step
    exact ⟨g', kept, guar, point', lasting p s g s' g' inv kept guar beside⟩

end Lasting

/-! ## Crews -/

/-- Jobs with their programs, and what taking one on and being done with it comes to. -/
structure Crew (Call : Type) (Resp : Call → Type) (Pid Job Answer State : Type) where
  program : Job → Program Call Resp Answer
  starts : Pid → Job → State → State → Prop
  stops : Pid → Job → Answer → State → State → Prop

namespace Crew

variable {Job Answer : Type} [DecidableEq Pid] (crew : Crew Call Resp Pid Job Answer State)
  (sem : Pid → (c : Call) → State → Resp c → State → Prop)

inductive Moves : Config Call Resp Pid Job Answer State → Config Call Resp Pid Job Answer State → Prop
    where
  | start {c : Config Call Resp Pid Job Answer State} {p : Pid} {job : Job} {s' : State} :
      c.procs p = none → crew.starts p job c.state s' →
      Moves c ⟨s', Function.update c.procs p (some (job, crew.program job))⟩
  | step {c : Config Call Resp Pid Job Answer State} {p : Pid} {job : Job}
      {program program' : Program Call Resp Answer} {s' : State} :
      c.procs p = some (job, program) → Step (sem p) program c.state program' s' →
      Moves c ⟨s', Function.update c.procs p (some (job, program'))⟩
  | stop {c : Config Call Resp Pid Job Answer State} {p : Pid} {job : Job} {answer : Answer} {s' : State} :
      c.procs p = some (job, .done answer) → crew.stops p job answer c.state s' →
      Moves c ⟨s', Function.update c.procs p none⟩

/-- The configurations that any order of steps leads to. -/
inductive Reaches (c : Config Call Resp Pid Job Answer State) :
    Config Call Resp Pid Job Answer State → Prop where
  | refl : Reaches c c
  | step {c' c'' : Config Call Resp Pid Job Answer State} :
      Reaches c c' → Moves crew sem c' c'' → Reaches c c''

variable {crew sem}

theorem Reaches.trans {c c' c'' : Config Call Resp Pid Job Answer State}
    (first : Reaches crew sem c c') (second : Reaches crew sem c' c'') : Reaches crew sem c c'' := by
  induction second with
  | refl => exact first
  | step _ moves ih => exact ih.step moves

theorem Reaches.runs {p : Pid} {job : Job} {program : Program Call Resp Answer} {answer : Answer}
    {s t : State} {procs : Pid → Option (Job × Program Call Resp Answer)}
    (run : Runs (sem p) program s answer t) (busy : procs p = some (job, program)) :
    Reaches crew sem ⟨s, procs⟩ ⟨t, Function.update procs p (some (job, .done answer))⟩ := by
  induction run generalizing procs with
  | done =>
      rw [← busy, Function.update_eq_self]
      exact Reaches.refl
  | call answered _ ih =>
      have later := @ih (Function.update procs p (some (job, _))) (Function.update_self ..)
      rw [Function.update_idem] at later
      exact (Reaches.refl.step (Moves.step busy (Step.call answered))).trans later
  | loop _ ih =>
      have later := @ih (Function.update procs p (some (job, _))) (Function.update_self ..)
      rw [Function.update_idem] at later
      exact (Reaches.refl.step (Moves.step busy Step.loop)).trans later

section Invariant
variable (P : Protocol Call Resp Pid State Ghost) (idle : Pid → State → Ghost → Prop)
  (post : Pid → Job → Answer → State → Ghost → Prop) (crew)

structure Sound : Prop where
  stable : ∀ p, Stable P p (idle p)
  starts : ∀ p job s g s', P.inv s g → idle p s g → crew.starts p job s s' →
    ∃ g', P.inv s' g' ∧ P.guar p s g s' g' ∧ Meets P p (post p job) (crew.program job) s' g'
  stops : ∀ p job answer s g s', P.inv s g → post p job answer s g → crew.stops p job answer s s' →
    ∃ g', P.inv s' g' ∧ P.guar p s g s' g' ∧ idle p s' g'

variable {P idle post crew}

theorem Sound.others {c : Config Call Resp Pid Job Answer State} {g g' : Ghost} {p : Pid} {s' : State}
    (sound : Sound crew P idle post) (holds : Pool.Holds P idle post c g) (kept : P.inv s' g')
    (guar : P.guar p c.state g s' g') {now : Option (Job × Program Call Resp Answer)}
    (free : now = none → idle p s' g')
    (busy : ∀ job program, now = some (job, program) → Meets P p (post p job) program s' g') :
    Pool.Holds P idle post ⟨s', Function.update c.procs p now⟩ g' := by
  refine ⟨kept, fun q none_left => ?_, fun q job program runs => ?_⟩
  · by_cases own : q = p
    · subst own
      exact free (by simpa using none_left)
    · dsimp only at none_left
      rw [Function.update_of_ne own] at none_left
      exact sound.stable q p _ _ _ _ (Ne.symm own) holds.inv kept guar (holds.idle q none_left)
  · by_cases own : q = p
    · subst own
      exact busy job program (by simpa using runs)
    · dsimp only at runs
      rw [Function.update_of_ne own] at runs
      exact meets_closed.stable program p _ _ _ _ (Ne.symm own) holds.inv kept guar
        (holds.busy q job program runs)

theorem Moves.holds {c c' : Config Call Resp Pid Job Answer State} {g : Ghost}
    (moves : Moves crew P.sem c c') (sound : Sound crew P idle post) (holds : Pool.Holds P idle post c g) :
    ∃ g', Pool.Holds P idle post c' g' := by
  cases moves with
  | @start p job s' free takes =>
      obtain ⟨g', kept, guar, meets⟩ := sound.starts p job c.state g s' holds.inv (holds.idle p free) takes
      refine ⟨g', sound.others holds kept guar (by simp) fun job program same => ?_⟩
      cases same
      exact meets
  | @step p job program program' s' runs stepped =>
      obtain ⟨g', kept, guar, meets⟩ :=
        meets_closed.step _ _ _ _ _ holds.inv (holds.busy _ _ _ runs) stepped
      refine ⟨g', sound.others holds kept guar (by simp) fun job program same => ?_⟩
      cases same
      exact meets
  | @stop p job answer s' runs leaves =>
      have ended := meets_closed.done _ _ _ holds.inv (holds.busy _ _ _ runs)
      obtain ⟨g', kept, guar, free⟩ := sound.stops p job answer c.state g s' holds.inv ended leaves
      exact ⟨g', sound.others holds kept guar (fun _ => free) (by simp)⟩

/-- In every order of steps the invariant holds and every process keeps to the outline of its job. -/
theorem Reaches.holds {c c' : Config Call Resp Pid Job Answer State} {g : Ghost}
    (reaches : Reaches crew P.sem c c') (sound : Sound crew P idle post)
    (holds : Pool.Holds P idle post c g) : ∃ g', Pool.Holds P idle post c' g' := by
  induction reaches with
  | refl => exact ⟨g, holds⟩
  | step _ moved ih =>
      obtain ⟨g', before⟩ := ih
      exact moved.holds sound before

end Invariant
end Crew
end Sfsdb.Program

import Mathlib.Logic.Relation
import Sfsdb.Program

/-!
Two programs at the ends of a connection. What one of them says lies in its
buffer until it has been handed over, item by item, to the inbox of the other,
which takes `cap` items or as many as a waiting call needs; a program goes on
once everything it said has left. A `Port` says what the calls of one end are to
the connection. The steps of the two ends and of the wire commute, so that one
schedule that comes to an end decides how every schedule ends.
-/

namespace Sfsdb.Duplex

open Relation

/-! ## Relations all of whose schedules end alike -/

section Settling
variable {α : Type _} {R : α → α → Prop} {a b last : α}

/-- Every schedule of steps comes to its end, and to the same one. -/
inductive Settles (R : α → α → Prop) (last : α) : α → Prop where
  | ended : (∀ b, ¬ R last b) → Settles R last last
  | step {a b : α} : R a b → (∀ c, R a c → Settles R last c) → Settles R last a

/-- Two different steps can be followed up to a common state, by one step each. -/
def Diamond (R : α → α → Prop) : Prop :=
  ∀ a b c, R a b → R a c → b = c ∨ ∃ d, R b d ∧ R c d

theorem Settles.before (diamond : Diamond R) (settles : Settles R last b) (first : R a b) :
    Settles R last a := by
  -- By induction on the schedules from `b`: another step from `a` joins one of them.
  induction settles generalizing a with
  | ended stuck =>
      apply Settles.step first
      intro c other
      rcases diamond a last c first other with rfl | ⟨d, onward, _⟩
      · exact Settles.ended stuck
      · exact absurd onward (stuck d)
  | step here rest ih =>
      apply Settles.step first
      intro c other
      rcases diamond a _ c first other with rfl | ⟨d, onward, joins⟩
      · exact Settles.step here rest
      · exact ih d onward joins

theorem settles_of_reaches (diamond : Diamond R) (reach : ReflTransGen R a last)
    (stuck : ∀ b, ¬ R last b) : Settles R last a := by
  induction reach using ReflTransGen.head_induction_on with
  | refl => exact Settles.ended stuck
  | head first _ ih => exact ih.before diamond first

end Settling

/-! ## The two ends -/

/-- What the calls of one end are to the connection. `exec` is the outcome of a
call that has not to wait for the other end any more. -/
structure Port (Call : Type) (Resp : Call → Type) (State Item : Type) where
  exec : (c : Call) → State → Option (Resp c × State)
  emits : Call → State → List Item
  /-- How much has to have come in before the call is answered. -/
  needs : Call → State → Nat
  inbox : State → List Item
  deliver : State → Item → State

structure Port.Lawful {Call : Type} {Resp : Call → Type} {State Item : Type}
    (port : Port Call Resp State Item) : Prop where
  takes : ∀ c s r t, port.exec c s = some (r, t) → (port.inbox t).length ≤ (port.inbox s).length
  answers : ∀ c s item, port.needs c s ≤ (port.inbox s).length →
    port.exec c (port.deliver s item) =
      (port.exec c s).map fun result => (result.1, port.deliver result.2 item)
  emits : ∀ c s item, port.emits c (port.deliver s item) = port.emits c s
  needs : ∀ c s item, port.needs c (port.deliver s item) = port.needs c s
  grows : ∀ s item, (port.inbox s).length ≤ (port.inbox (port.deliver s item)).length

structure Side (Call : Type) (Resp : Call → Type) (State Item α : Type) where
  program : Program Call Resp α
  state : State
  /-- Said and not handed over yet. -/
  pending : List Item

namespace Side

variable {Call : Type} {Resp : Call → Type} {State Item α : Type}

def ended (side : Side Call Resp State Item α) : Bool :=
  match side.program, side.pending with
  | .done _, [] => true
  | _, _ => false

variable (port : Port Call Resp State Item)

def waits (side : Side Call Resp State Item α) : Bool :=
  match side.program with
  | .call c _ => (port.inbox side.state).length < port.needs c side.state
  | _ => false

/-- There is room for one more item; what an ended program leaves unread is nobody's. -/
def room (cap : Nat) (side : Side Call Resp State Item α) : Bool :=
  side.ended || (port.inbox side.state).length < cap || side.waits port

/-- The next step of the program; when the other end is `gone`, nothing is waited for. -/
def advance (gone : Bool) (side : Side Call Resp State Item α) : Option (Side Call Resp State Item α) :=
  match side.pending, side.program with
  | [], .call c next =>
      if port.needs c side.state ≤ (port.inbox side.state).length ∨ gone = true then
        (port.exec c side.state).map fun result =>
          ⟨next result.1, result.2, port.emits c side.state⟩
      else none
  | [], .loop body start next => some ⟨(body start).bind (Program.turn body next), side.state, []⟩
  | _, _ => none

end Side

section Wire
variable {Call₁ Call₂ : Type} {Resp₁ : Call₁ → Type} {Resp₂ : Call₂ → Type}
  {State₁ State₂ Item α β : Type}

def pass (port : Port Call₂ Resp₂ State₂ Item) (cap : Nat) (speaker : Side Call₁ Resp₁ State₁ Item α)
    (hearer : Side Call₂ Resp₂ State₂ Item β) :
    Option (Side Call₁ Resp₁ State₁ Item α × Side Call₂ Resp₂ State₂ Item β) :=
  match speaker.pending with
  | [] => none
  | item :: rest =>
      if hearer.room port cap then
        some ({ speaker with pending := rest },
          { hearer with state := port.deliver hearer.state item })
      else none

end Wire

structure Net (Call₁ Call₂ : Type) (Resp₁ : Call₁ → Type) (Resp₂ : Call₂ → Type)
    (State₁ State₂ Item α β : Type) where
  left : Side Call₁ Resp₁ State₁ Item α
  right : Side Call₂ Resp₂ State₂ Item β

section Steps
variable {Call₁ Call₂ : Type} {Resp₁ : Call₁ → Type} {Resp₂ : Call₂ → Type}
  {State₁ State₂ Item α β : Type}
  (port₁ : Port Call₁ Resp₁ State₁ Item) (port₂ : Port Call₂ Resp₂ State₂ Item) (cap : Nat)

/-- One step of one of the ends, or of the wire between them. -/
inductive Step : Net Call₁ Call₂ Resp₁ Resp₂ State₁ State₂ Item α β →
    Net Call₁ Call₂ Resp₁ Resp₂ State₁ State₂ Item α β → Prop where
  | left {l l' : Side Call₁ Resp₁ State₁ Item α} {r : Side Call₂ Resp₂ State₂ Item β} :
      l.advance port₁ r.ended = some l' → Step ⟨l, r⟩ ⟨l', r⟩
  | right {l : Side Call₁ Resp₁ State₁ Item α} {r r' : Side Call₂ Resp₂ State₂ Item β} :
      r.advance port₂ l.ended = some r' → Step ⟨l, r⟩ ⟨l, r'⟩
  | toRight {l l' : Side Call₁ Resp₁ State₁ Item α} {r r' : Side Call₂ Resp₂ State₂ Item β} :
      pass port₂ cap l r = some (l', r') → Step ⟨l, r⟩ ⟨l', r'⟩
  | toLeft {l l' : Side Call₁ Resp₁ State₁ Item α} {r r' : Side Call₂ Resp₂ State₂ Item β} :
      pass port₁ cap r l = some (r', l') → Step ⟨l, r⟩ ⟨l', r'⟩

abbrev Reaches : Net Call₁ Call₂ Resp₁ Resp₂ State₁ State₂ Item α β →
    Net Call₁ Call₂ Resp₁ Resp₂ State₁ State₂ Item α β → Prop :=
  ReflTransGen (Step port₁ port₂ cap)

def Net.swap (net : Net Call₁ Call₂ Resp₁ Resp₂ State₁ State₂ Item α β) :
    Net Call₂ Call₁ Resp₂ Resp₁ State₂ State₁ Item β α :=
  ⟨net.right, net.left⟩

variable {port₁ port₂ cap}

theorem Step.swap {net net' : Net Call₁ Call₂ Resp₁ Resp₂ State₁ State₂ Item α β}
    (step : Step port₁ port₂ cap net net') : Step port₂ port₁ cap net.swap net'.swap := by
  cases step with
  | left moves => exact Step.right moves
  | right moves => exact Step.left moves
  | toRight passes => exact Step.toLeft passes
  | toLeft passes => exact Step.toRight passes

theorem Reaches.swap {net net' : Net Call₁ Call₂ Resp₁ Resp₂ State₁ State₂ Item α β}
    (reach : Reaches port₁ port₂ cap net net') : Reaches port₂ port₁ cap net.swap net'.swap := by
  induction reach with
  | refl => exact ReflTransGen.refl
  | tail _ step ih => exact ReflTransGen.tail ih step.swap

end Steps

/-! ## Steps commute -/

section Commuting
variable {Call₁ Call₂ : Type} {Resp₁ : Call₁ → Type} {Resp₂ : Call₂ → Type}
  {State₁ State₂ Item α β : Type}
  {port₁ : Port Call₁ Resp₁ State₁ Item} {port₂ : Port Call₂ Resp₂ State₂ Item} {cap : Nat}
  {l l' l'' : Side Call₁ Resp₁ State₁ Item α} {r r' r'' : Side Call₂ Resp₂ State₂ Item β} {gone : Bool}

theorem Side.advance_silent (moves : l.advance port₁ gone = some l') : l.pending = [] ∧ l.ended = false := by
  obtain ⟨program, state, pending⟩ := l
  cases pending with
  | nil =>
      cases program with
      | done value => cases moves
      | call c next => exact ⟨rfl, rfl⟩
      | loop body start next => exact ⟨rfl, rfl⟩
  | cons item rest => cases program <;> cases moves

theorem pass_iff : pass port₂ cap l r = some (l', r') ↔ ∃ item rest, l.pending = item :: rest ∧
    r.room port₂ cap = true ∧ l' = { l with pending := rest } ∧
    r' = { r with state := port₂.deliver r.state item } := by
  unfold pass
  cases l.pending with
  | nil => simp
  | cons item rest => grind

theorem Side.advance_gone (moves : l.advance port₁ false = some l') : l.advance port₁ gone = some l' := by
  obtain ⟨program, state, pending⟩ := l
  cases pending with
  | nil =>
      cases program with
      | done value => cases moves
      | call c next =>
          simp only [Side.advance, Bool.false_eq_true, or_false] at moves ⊢
          split at moves
          · rename_i enough
            rw [if_pos (Or.inl enough)]
            exact moves
          · cases moves
      | loop body start next => exact moves
  | cons item rest => cases program <;> cases moves

theorem Side.advance_delivered (lawful : port₁.Lawful) (item : Item)
    (moves : l.advance port₁ false = some l') (room : l.room port₁ cap = true) :
    Side.advance port₁ false { l with state := port₁.deliver l.state item } =
        some { l' with state := port₁.deliver l'.state item } ∧
      l'.room port₁ cap = true := by
  -- What a moving program has heard by then makes no difference to its step, and the step leaves
  -- room for what was to come.
  obtain ⟨program, state, pending⟩ := l
  cases pending with
  | cons item rest => cases program <;> cases moves
  | nil =>
      cases program with
      | done value => cases moves
      | loop body start next =>
          cases moves
          refine ⟨rfl, ?_⟩
          simp only [Side.room, Side.ended, Side.waits, Bool.false_or, Bool.or_false] at room
          simp only [Side.room, room, Bool.or_true, Bool.true_or]
      | call c next =>
          simp only [Side.advance, Bool.false_eq_true, or_false] at moves
          split at moves
          · rename_i enough
            obtain ⟨⟨answer, t⟩, executes, rfl⟩ := Option.map_eq_some_iff.mp moves
            constructor
            · have later : port₁.needs c (port₁.deliver state item) ≤
                  (port₁.inbox (port₁.deliver state item)).length := by
                rw [lawful.needs]
                exact Nat.le_trans enough (lawful.grows state item)
              simp only [Side.advance]
              rw [if_pos (Or.inl later), lawful.answers c state item enough, executes, lawful.emits]
              rfl
            · have waits : Side.waits port₁ (⟨.call c next, state, []⟩ : Side _ _ _ _ α) = false := by
                simpa [Side.waits] using enough
              simp only [Side.room, Side.ended, waits, Bool.false_or, Bool.or_false,
                decide_eq_true_eq] at room
              have taken := lawful.takes c state answer t executes
              simp only [Side.room, Bool.or_eq_true, decide_eq_true_eq]
              exact Or.inl (Or.inr (Nat.lt_of_le_of_lt taken room))
          · cases moves

theorem speaks_not_ended {item : Item} {rest : List Item} (speaks : l.pending = item :: rest) :
    l.ended = false := by
  unfold Side.ended
  rw [speaks]
  cases l.program <;> rfl

theorem advance_pass (lawful : port₂.Lawful) (moves : r.advance port₂ l.ended = some r')
    (passes : pass port₂ cap l r = some (l', r'')) :
    ∃ r''', pass port₂ cap l r' = some (l', r''') ∧ r''.advance port₂ l'.ended = some r''' := by
  obtain ⟨item, rest, speaks, room, rfl, rfl⟩ := pass_iff.mp passes
  rw [speaks_not_ended speaks] at moves
  obtain ⟨same, still⟩ := Side.advance_delivered lawful item moves room
  exact ⟨_, pass_iff.mpr ⟨item, rest, speaks, still, rfl, rfl⟩, Side.advance_gone same⟩

theorem advance_advance (left : l.advance port₁ r.ended = some l') (right : r.advance port₂ l.ended = some r') :
    l.advance port₁ r'.ended = some l' := by
  rw [(Side.advance_silent right).2] at left
  exact Side.advance_gone left

theorem room_spoken {item : Item} {rest : List Item} (speaks : l.pending = item :: rest)
    (room : l.room port₁ cap = true) : Side.room port₁ cap { l with pending := rest } = true := by
  -- Having one item less to say, an end has no less room.
  simp only [Side.room, speaks_not_ended speaks, Bool.false_or] at room
  simp only [Side.room, Side.waits, Bool.or_assoc] at room ⊢
  rw [Bool.or_eq_true]
  exact Or.inr room

theorem pass_pass (right : pass port₂ cap l r = some (l', r')) (left : pass port₁ cap r l = some (r'', l'')) :
    ∃ l₃ r₃, pass port₁ cap r' l' = some (r₃, l₃) ∧ pass port₂ cap l'' r'' = some (l₃, r₃) := by
  obtain ⟨item, rest, speaks, room, rfl, rfl⟩ := pass_iff.mp right
  obtain ⟨item', rest', speaks', room', rfl, rfl⟩ := pass_iff.mp left
  refine ⟨_, _, pass_iff.mpr ⟨item', rest', speaks', room_spoken speaks room', rfl, rfl⟩,
    pass_iff.mpr ⟨item, rest, speaks, room_spoken speaks' room, rfl, rfl⟩⟩

theorem diamond (lawful₁ : port₁.Lawful) (lawful₂ : port₂.Lawful) :
    Diamond (Step port₁ port₂ cap : Net Call₁ Call₂ Resp₁ Resp₂ State₁ State₂ Item α β → _ → Prop) := by
  -- One case for each pair of steps; a program does not move while it speaks.
  rintro a b c first second
  cases first with
  | left moves =>
      cases second with
      | left moves' => grind
      | right moves' =>
          exact Or.inr ⟨_, Step.right (advance_advance moves' moves), Step.left (advance_advance moves moves')⟩
      | toRight passes =>
          obtain ⟨item, rest, speaks, _⟩ := pass_iff.mp passes
          rw [(Side.advance_silent moves).1] at speaks
          cases speaks
      | toLeft passes =>
          obtain ⟨l₃, passes', moves'⟩ := advance_pass lawful₁ moves passes
          exact Or.inr ⟨_, Step.toLeft passes', Step.left moves'⟩
  | right moves =>
      cases second with
      | left moves' =>
          exact Or.inr ⟨_, Step.left (advance_advance moves' moves), Step.right (advance_advance moves moves')⟩
      | right moves' => grind
      | toRight passes =>
          obtain ⟨r₃, passes', moves'⟩ := advance_pass lawful₂ moves passes
          exact Or.inr ⟨_, Step.toRight passes', Step.right moves'⟩
      | toLeft passes =>
          obtain ⟨item, rest, speaks, _⟩ := pass_iff.mp passes
          rw [(Side.advance_silent moves).1] at speaks
          cases speaks
  | toRight passes =>
      cases second with
      | left moves =>
          obtain ⟨item, rest, speaks, _⟩ := pass_iff.mp passes
          rw [(Side.advance_silent moves).1] at speaks
          cases speaks
      | right moves =>
          obtain ⟨r₃, passes', moves'⟩ := advance_pass lawful₂ moves passes
          exact Or.inr ⟨_, Step.right moves', Step.toRight passes'⟩
      | toRight passes' => grind
      | toLeft passes' =>
          obtain ⟨l₃, r₃, left, right⟩ := pass_pass passes passes'
          exact Or.inr ⟨_, Step.toLeft left, Step.toRight right⟩
  | toLeft passes =>
      cases second with
      | left moves =>
          obtain ⟨l₃, passes', moves'⟩ := advance_pass lawful₁ moves passes
          exact Or.inr ⟨_, Step.left moves', Step.toLeft passes'⟩
      | right moves =>
          obtain ⟨item, rest, speaks, _⟩ := pass_iff.mp passes
          rw [(Side.advance_silent moves).1] at speaks
          cases speaks
      | toRight passes' =>
          obtain ⟨l₃, r₃, left, right⟩ := pass_pass passes' passes
          exact Or.inr ⟨_, Step.toRight right, Step.toLeft left⟩
      | toLeft passes' => grind

end Commuting

/-! ## One end talks, the other listens -/

section Talking
variable {Call : Type} {Resp : Call → Type} {State Item α β : Type} (port : Port Call Resp State Item)

/-- From one point of a program to another, waiting for nothing; `said` is what it says. -/
inductive Talks : Program Call Resp α → State → List Item → Program Call Resp α → State → Prop where
  | refl {p : Program Call Resp α} {s : State} : Talks p s [] p s
  | call {c : Call} {next : Resp c → Program Call Resp α} {r : Resp c} {s t u : State}
      {said : List Item} {q : Program Call Resp α} : port.needs c s = 0 → port.exec c s = some (r, t) →
      Talks (next r) t said q u → Talks (.call c next) s (port.emits c s ++ said) q u
  | loop {σ γ : Type} {body : σ → Program Call Resp (σ ⊕ γ)} {start : σ}
      {next : γ → Program Call Resp α} {s u : State} {said : List Item} {q : Program Call Resp α} :
      Talks ((body start).bind (Program.turn body next)) s said q u →
      Talks (.loop body start next) s said q u

/-- From one point of a program to another, saying nothing and needing no more than there is. -/
inductive Listens : Program Call Resp α → State → Program Call Resp α → State → Prop where
  | refl {p : Program Call Resp α} {s : State} : Listens p s p s
  | call {c : Call} {next : Resp c → Program Call Resp α} {r : Resp c} {s t u : State}
      {q : Program Call Resp α} : port.needs c s ≤ (port.inbox s).length → port.emits c s = [] →
      port.exec c s = some (r, t) → Listens (next r) t q u → Listens (.call c next) s q u
  | loop {σ γ : Type} {body : σ → Program Call Resp (σ ⊕ γ)} {start : σ}
      {next : γ → Program Call Resp α} {s u : State} {q : Program Call Resp α} :
      Listens ((body start).bind (Program.turn body next)) s q u →
      Listens (.loop body start next) s q u

variable {port} {p q : Program Call Resp α} {f : α → Program Call Resp β} {s t : State} {said : List Item}

theorem bind_unrolled {σ γ : Type} (body : σ → Program Call Resp (σ ⊕ γ)) (start : σ)
    (next : γ → Program Call Resp α) (f : α → Program Call Resp β) :
    ((body start).bind (Program.turn body next)).bind f =
      (body start).bind (Program.turn body fun result => (next result).bind f) := by
  rw [Program.bind_assoc]
  simp only [Program.turn_bind]

theorem Talks.bind (talks : Talks port p s said q t) : Talks port (p.bind f) s said (q.bind f) t := by
  induction talks with
  | refl => exact Talks.refl
  | call free executes _ ih => exact Talks.call free executes ih
  | loop _ ih =>
      apply Talks.loop
      rw [← bind_unrolled]
      exact ih

theorem Listens.bind (listens : Listens port p s q t) : Listens port (p.bind f) s (q.bind f) t := by
  induction listens with
  | refl => exact Listens.refl
  | call enough silent executes _ ih => exact Listens.call enough silent executes ih
  | loop _ ih =>
      apply Listens.loop
      rw [← bind_unrolled]
      exact ih

theorem Listens.trans {r : Program Call Resp α} {u : State} (first : Listens port p s q t)
    (second : Listens port q t r u) : Listens port p s r u := by
  induction first with
  | refl => exact second
  | call enough silent executes _ ih => exact Listens.call enough silent executes (ih second)
  | loop _ ih => exact Listens.loop (ih second)

end Talking

section Streaming
variable {Call₁ Call₂ : Type} {Resp₁ : Call₁ → Type} {Resp₂ : Call₂ → Type}
  {State₁ State₂ Item α β : Type}
  {port₁ : Port Call₁ Resp₁ State₁ Item} {port₂ : Port Call₂ Resp₂ State₂ Item} {cap : Nat}
  {l : Side Call₁ Resp₁ State₁ Item α} {p p' : Program Call₁ Resp₁ α} {q q' : Program Call₂ Resp₂ β}
  {s s' : State₁} {u u' : State₂} {items said : List Item} {item : Item}

def Port.delivered {Call : Type} {Resp : Call → Type} {State Item : Type}
    (port : Port Call Resp State Item) (s : State) (items : List Item) : State :=
  items.foldl port.deliver s

namespace Port.Lawful

theorem answers_delivered (lawful : port₂.Lawful) (c : Call₂) (u : State₂) (items : List Item)
    (enough : port₂.needs c u ≤ (port₂.inbox u).length) :
    port₂.exec c (port₂.delivered u items) =
      (port₂.exec c u).map fun result => (result.1, port₂.delivered result.2 items) := by
  induction items generalizing u with
  | nil => simp [Port.delivered]
  | cons item rest ih =>
      have later : port₂.needs c (port₂.deliver u item) ≤ (port₂.inbox (port₂.deliver u item)).length := by
        rw [lawful.needs]
        exact Nat.le_trans enough (lawful.grows u item)
      simp only [Port.delivered, List.foldl_cons] at ih ⊢
      rw [ih _ later, lawful.answers c u item enough, Option.map_map]
      rfl

theorem emits_delivered (lawful : port₂.Lawful) (c : Call₂) (u : State₂) (items : List Item) :
    port₂.emits c (port₂.delivered u items) = port₂.emits c u := by
  induction items generalizing u with
  | nil => rfl
  | cons item rest ih => exact (ih _).trans (lawful.emits c u item)

theorem grows_delivered (lawful : port₂.Lawful) (u : State₂) (items : List Item) :
    (port₂.inbox u).length ≤ (port₂.inbox (port₂.delivered u items)).length := by
  induction items generalizing u with
  | nil => exact Nat.le_refl _
  | cons item rest ih => exact Nat.le_trans (lawful.grows u item) (ih _)

end Port.Lawful

theorem Listens.alone (listens : Listens port₂ q u q' u') :
    Reaches port₁ port₂ cap ⟨l, ⟨q, u, []⟩⟩ ⟨l, ⟨q', u', []⟩⟩ := by
  induction listens with
  | refl => exact ReflTransGen.refl
  | call enough silent executes _ ih =>
      refine ReflTransGen.head (Step.right ?_) ih
      simp only [Side.advance]
      rw [if_pos (Or.inl enough), executes, silent]
      rfl
  | loop _ ih => exact ReflTransGen.head (Step.right rfl) ih

variable (port₁) in
theorem Listens.makes_room (lawful : port₂.Lawful) (positive : 0 < cap)
    (listens : Listens port₂ q (port₂.delivered u items) q' u') (emptied : port₂.inbox u' = []) :
    ∃ q₁ u₁, Reaches port₁ port₂ cap ⟨l, ⟨q, u, []⟩⟩ ⟨l, ⟨q₁, u₁, []⟩⟩ ∧
      Side.room port₂ cap ⟨q₁, u₁, []⟩ = true ∧
      Listens port₂ q₁ (port₂.delivered u₁ items) q' u' := by
  -- By induction on the listening: the listener goes on until it waits or has come to its end, and
  -- there is room for one more item in either case.
  generalize heard : port₂.delivered u items = v at listens
  induction listens generalizing u with
  | refl =>
      subst heard
      have nothing := lawful.grows_delivered u items
      rw [emptied, List.length_nil, Nat.le_zero] at nothing
      refine ⟨_, u, ReflTransGen.refl, ?_, Listens.refl⟩
      simp [Side.room, nothing, positive]
  | loop rest ih =>
      obtain ⟨q₁, u₁, reach, room, onward⟩ := ih emptied heard
      exact ⟨q₁, u₁, ReflTransGen.head (Step.right rfl) reach, room, onward⟩
  | call enough silent executes rest ih =>
      rename_i c next r v₁ v₂ v₃ q₂
      by_cases here : port₂.needs c u ≤ (port₂.inbox u).length
      · -- the answer is the one it would give once everything is there
        subst heard
        rw [lawful.answers_delivered c u items here] at executes
        obtain ⟨⟨r', t⟩, answered, same⟩ := Option.map_eq_some_iff.mp executes
        cases same
        rw [lawful.emits_delivered] at silent
        obtain ⟨q₁, u₁, reach, room, onward⟩ := ih emptied rfl
        refine ⟨q₁, u₁, ReflTransGen.head (Step.right ?_) reach, room, onward⟩
        simp only [Side.advance]
        rw [if_pos (Or.inl here), answered, silent]
        rfl
      · subst heard
        refine ⟨_, u, ReflTransGen.refl, ?_, Listens.call enough silent executes rest⟩
        simp only [Side.room, Side.waits, Bool.or_eq_true, decide_eq_true_eq]
        exact Or.inr (Nat.lt_of_not_le here)

variable (port₁) in
theorem Listens.hears (lawful : port₂.Lawful) (positive : 0 < cap)
    (listens : Listens port₂ q (port₂.delivered u (items ++ said)) q' u') (emptied : port₂.inbox u' = []) :
    ∃ q₁ u₁, Reaches port₁ port₂ cap ⟨⟨p, s, items⟩, ⟨q, u, []⟩⟩ ⟨⟨p, s, []⟩, ⟨q₁, u₁, []⟩⟩ ∧
      Listens port₂ q₁ (port₂.delivered u₁ said) q' u' := by
  -- What has been said is handed over item by item, whatever the listener does meanwhile.
  induction items generalizing q u with
  | nil => exact ⟨q, u, ReflTransGen.refl, listens⟩
  | cons item rest ih =>
      obtain ⟨q₁, u₁, reach, room, onward⟩ := listens.makes_room port₁ lawful positive emptied
      obtain ⟨q₂, u₂, later, last⟩ := ih (q := q₁) (u := port₂.deliver u₁ item) onward
      refine ⟨q₂, u₂, reach.trans (ReflTransGen.head (Step.toRight ?_) later), last⟩
      exact pass_iff.mpr ⟨item, rest, rfl, room, rfl, rfl⟩

theorem Talks.heard (lawful : port₂.Lawful) (positive : 0 < cap) (talks : Talks port₁ p s said p' s')
    (listens : Listens port₂ q (port₂.delivered u said) q' u') (emptied : port₂.inbox u' = []) :
    Reaches port₁ port₂ cap ⟨⟨p, s, []⟩, ⟨q, u, []⟩⟩ ⟨⟨p', s', []⟩, ⟨q', u', []⟩⟩ := by
  -- By induction on the talking: both ends come to where they were to come to.
  induction talks generalizing q u with
  | refl => exact listens.alone
  | loop _ ih => exact ReflTransGen.head (Step.left rfl) (ih listens)
  | call free executes _ ih =>
      obtain ⟨q₁, u₁, reach, onward⟩ := listens.hears port₁ lawful positive emptied
      refine ReflTransGen.head (Step.left ?_) (reach.trans (ih onward))
      simp only [Side.advance]
      rw [if_pos (Or.inl (by rw [free]; exact Nat.zero_le _)), executes]
      rfl

theorem Talks.heard_left (lawful : port₁.Lawful) (positive : 0 < cap)
    (listens : Listens port₁ p (port₁.delivered s said) p' s') (emptied : port₁.inbox s' = [])
    (talks : Talks port₂ q u said q' u') :
    Reaches port₁ port₂ cap ⟨⟨p, s, []⟩, ⟨q, u, []⟩⟩ ⟨⟨p', s', []⟩, ⟨q', u', []⟩⟩ :=
  (talks.heard lawful positive listens emptied).swap

end Streaming

def Net.Ended {Call₁ Call₂ : Type} {Resp₁ : Call₁ → Type} {Resp₂ : Call₂ → Type}
    {State₁ State₂ Item α β : Type} (net : Net Call₁ Call₂ Resp₁ Resp₂ State₁ State₂ Item α β)
    (value : α) (value' : β) : Prop :=
  net.left.program = .done value ∧ net.left.pending = [] ∧
    net.right.program = .done value' ∧ net.right.pending = []

theorem Net.Ended.stuck {Call₁ Call₂ : Type} {Resp₁ : Call₁ → Type} {Resp₂ : Call₂ → Type}
    {State₁ State₂ Item α β : Type} {port₁ : Port Call₁ Resp₁ State₁ Item}
    {port₂ : Port Call₂ Resp₂ State₂ Item} {cap : Nat}
    {net net' : Net Call₁ Call₂ Resp₁ Resp₂ State₁ State₂ Item α β} {value : α} {value' : β}
    (ended : net.Ended value value') : ¬ Step port₁ port₂ cap net net' := by
  obtain ⟨⟨p, s, x⟩, ⟨q, u, y⟩⟩ := net
  obtain ⟨rfl, rfl, rfl, rfl⟩ := ended
  intro step
  cases step with
  | left moves => cases moves
  | right moves => cases moves
  | toRight passes => cases passes
  | toLeft passes => cases passes

/-- One schedule to the end of both programs decides all of them. -/
theorem settles {Call₁ Call₂ : Type} {Resp₁ : Call₁ → Type} {Resp₂ : Call₂ → Type}
    {State₁ State₂ Item α β : Type} {port₁ : Port Call₁ Resp₁ State₁ Item}
    {port₂ : Port Call₂ Resp₂ State₂ Item} {cap : Nat} (lawful₁ : port₁.Lawful) (lawful₂ : port₂.Lawful)
    {net last : Net Call₁ Call₂ Resp₁ Resp₂ State₁ State₂ Item α β} {value : α} {value' : β}
    (reach : Reaches port₁ port₂ cap net last) (ended : last.Ended value value') :
    Settles (Step port₁ port₂ cap) last net :=
  settles_of_reaches (diamond lawful₁ lawful₂) reach fun _ => ended.stuck

end Sfsdb.Duplex

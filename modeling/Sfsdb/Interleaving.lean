import Sfsdb.Operations

/-!
Every order of steps. The operations of a pool of processes keep to the protocol
from beginning to end, so its invariant holds in whatever state the processes
reach, and each of them knows what the outline of its operation says.
-/

namespace Sfsdb.Processes

open Posix Storage
open Volume (Dir record)

variable {t : Terms} {p : Pid} {w : World} {g : Ghost}

/-- Identifiers as the source of them makes them: one line, a plain component. -/
def Fine (source : Nat → Bytes) : Prop := ∀ m, PlainName (source m) ∧ SEPARATOR ∉ source m

/-- Between its steps every process is idle or as far as its outline says. -/
abbrev Holds (t : Terms) (c : Config) (g : Ghost) : Prop :=
  Program.Pool.Holds (protocol t) (Idle t) (Ended t) c g

theorem pool_sound (t : Terms) : Program.Pool.Sound pool (protocol t) (Idle t) (Ended t) where
  stable _ := idle_stable
  starts p op w g inv idle plain := by
    have stepped := begin_step (p := p) inv op
    obtain ⟨D, session⟩ := begin_session idle op
    exact ⟨g, stepped.inv, stepped.guar, program_outline op plain _ _ stepped.inv session⟩
  stops p op answer w g inv ended := by
    cases op with
    | store name data =>
        cases answer with
        | stored r =>
            cases r with
            | ok id =>
                obtain ⟨D, j, k, session⟩ := ended
                have stepped := finish_step inv session
                exact ⟨_, stepped.inv, stepped.guar, D, session.descs, session.held, by simp⟩
            | error e => exact ⟨g, inv, Guar.refl t p w g, ended⟩
        | _ => exact ⟨g, inv, Guar.refl t p w g, ended⟩
    | getName name =>
        cases answer with
        | listed r =>
            obtain ⟨D, session⟩ := ended
            exact ⟨g, inv, Guar.refl t p w g, session.idle⟩
        | _ => exact ⟨g, inv, Guar.refl t p w g, ended⟩
    | _ => exact ⟨g, inv, Guar.refl t p w g, ended⟩

/-! ## From a new volume on -/

section Runs
variable {source : Nat → Bytes}

def Ghost.new : Ghost := ⟨fun _ => none, fun _ => [], fun _ => [], fun _ => none, []⟩

theorem initial_holds (fine : Fine source) :
    Holds t (initial source) Ghost.new := by
  -- a new volume holds directories only
  have empty : ∀ q i, Volume.initFiles.node q ≠ some (.file i) := by
    intro q i file
    rcases Volume.initFiles_node q with dir | nothing
    · simp [dir] at file
    · simp [nothing] at file
  refine ⟨⟨?_, by simp [initial]⟩, fun p _ => ⟨fun _ => none, ?_⟩, by simp [initial]⟩
  · constructor
    case sane => exact (Volume.initKernel_ready source).sane
    case fds => exact fun _ _ => rfl
    case unborn => exact fun _ _ => rfl
    case named => exact fun d x i file => absurd file (empty _ i)
    case placed => exact fun q i d x _ file => absurd file (empty q i)
    case exclusive =>
      intro i q member
      cases member
    case ids => exact fine
    case distinct =>
      intro _ m n _ upto
      exact absurd upto (Nat.not_lt_zero n)
    case undrawn => exact fun _ d x _ _ => Volume.initFiles_entry d x
    case slashless =>
      intro i x role
      cases role
    case index =>
      intro i n role
      cases role
    case listed =>
      intro i n role
      cases role
    case published =>
      intro _ n x member
      cases member
  · refine ⟨rfl, fun i kind => ?_, by simp⟩
    exact ⟨fun member => (List.not_mem_nil member).elim, fun member => (List.not_mem_nil member).elim⟩

theorem Reached.holds {c : Config} (reached : Reached t source c) (fine : Fine source) :
    ∃ g, Holds t c g := by
  obtain ⟨g, _, holds⟩ := Program.Pool.Reaches.holds (P := protocol t) reached (pool_sound t)
    (initial_holds fine) (fun _ _ _ _ => True) trivial fun _ _ _ _ _ _ _ => trivial
  exact ⟨g, holds⟩

theorem holds_later {c c' : Config} (holds : Holds t c g)
    (later : Program.Pool.Reaches pool (Calls t) c c') :
    ∃ g', Later c.state g c'.state g' ∧ Holds t c' g' :=
  Program.Pool.Reaches.holds (P := protocol t) later (pool_sound t) holds Later (Later.refl _ _)
    fun _ _ _ _ _ since guar => since.trans guar.toLater

end Runs

end Sfsdb.Processes

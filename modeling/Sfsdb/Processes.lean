import Sfsdb.Layout
import Sfsdb.RelyGuarantee

/-!
The server's processes on one volume. Every connection has a process of its own,
so any number of them run volume operations at the same time, interleaved at the
granularity of system calls; locks are those of the kernel. Next to the kernel's
state the world records which removals have begun and which stores have
returned. The ids that will be drawn are given by the kernel's source.
-/

namespace Sfsdb.Processes

open Posix Storage

inductive Op where
  | store (name data : Bytes)
  | create (name : Bytes)
  | remove (id : Bytes)
  | getName (name : Bytes)
  | getId (id : Bytes)

inductive Answer where
  | stored (result : Except Error Bytes)
  | removed (result : Option (Except Error Unit))
  | listed (result : Except Error (List Bytes))
  | found (result : Except Error Object)

namespace Op

def program : Op → Prog Answer
  | .store name data => do return .stored (← Volume.store name data)
  | .create name => do return .stored (← Storage.create name)
  | .remove id => do return .removed (← Volume.remove id)
  | .getName name => do return .listed (← Volume.getName name)
  | .getId id => do return .found (← Volume.getId id)

def Plain : Op → Prop
  | .store name _ | .create name => PlainName name ∧ SEPARATOR ∉ name
  | .getName name => PlainName name
  | .remove id | .getId id => PlainName id

instance : DecidablePred Plain := by
  intro op
  cases op <;> unfold Plain <;> infer_instance

end Op

structure World where
  kernel : Kernel
  /-- The ids whose removal some process has begun. -/
  begun : List Bytes
  /-- Name, id and data of the stores that have returned an id. -/
  stored : List (Bytes × Bytes × Bytes)

/-- A removal counts from its first step on. -/
def begin : Op → World → World
  | .remove id, w => { w with begun := id :: w.begun }
  | _, w => w

/-- A store counts once it has returned. -/
def finish : Op → Answer → World → World
  | .store name data, .stored (.ok id), w => { w with stored := (name, id, data) :: w.stored }
  | _, _, w => w

def pool : Program.Pool Call Resp Op Answer World where
  program := Op.program
  admits := Op.Plain
  start := begin
  stop := finish

instance : DecidablePred pool.admits := inferInstanceAs (DecidablePred Op.Plain)

abbrev Config := Program.Config Call Resp Pid Op Answer World

/-! ## Calls -/

def OnLinked (p : Pid) (k : Kernel) (fd : Fd) : Prop :=
  ∀ d i, k.descOf p fd = some d → d.ino = some i → d.flags.trunc = false →
    ∃ q, k.files.node q = some (.file i)

/-- What is assumed of a run. Of all files that are locked for writing only those
of the records are opened with TRUNC. -/
structure Terms where
  /-- No write lock is granted on an index file that has lost its name since it was opened. -/
  strict : Prop
  /-- No identifier is drawn a second time. -/
  fresh : Prop

/-- Nothing is assumed. -/
def anyRun : Terms := ⟨False, False⟩

/-- No identifier is drawn twice. -/
def freshRun : Terms := ⟨False, True⟩

/-- Every index that is locked for writing is still in the directory. -/
def strictRun : Terms := ⟨True, False⟩

def Allowed (t : Terms) (p : Pid) : Call → Kernel → Prop
  | .lock fd .write, k => t.strict → OnLinked p k fd
  | .draw, k => t.fresh → ∀ m, m < k.drawn → k.source m ≠ k.source k.drawn
  | _, _ => True

def Calls (t : Terms) (p : Pid) (c : Call) (w : World) (r : Resp c) (w' : World) : Prop :=
  Allowed t p c w.kernel ∧ ∃ k', Kernel.Does p c w.kernel r k' ∧ w' = { w with kernel := k' }

def exec (p : Pid) (c : Call) (w : World) : Option (Resp c × World) :=
  (w.kernel.exec p c).map fun answered => (answered.1, { w with kernel := answered.2 })

theorem exec_calls {t : Terms} {p : Pid} {c : Call} {w w' : World} {r : Resp c} (allowed : Allowed t p c w.kernel)
    (answered : exec p c w = some (r, w')) : Calls t p c w r w' := by
  obtain ⟨⟨r', k'⟩, does, same⟩ := Option.map_eq_some_iff.mp answered
  cases same
  exact ⟨allowed, k', does, rfl⟩

theorem allowed_any (p : Pid) (c : Call) (k : Kernel) : Allowed anyRun p c k := by
  unfold Allowed
  split
  · exact False.elim
  · exact False.elim
  · trivial

def meetsTerms (p : Pid) : Call → Kernel → Bool
  | .lock fd .write, k =>
      match k.descOf p fd with
      | some d => d.flags.trunc || d.ino.all fun i =>
          k.files.tree.any fun place => k.files.node place.1 = some (.file i)
      | none => true
  | .draw, k => (List.range k.drawn).all fun m => k.source m ≠ k.source k.drawn
  | _, _ => true

theorem allowed_of_meets {t : Terms} {p : Pid} {c : Call} {k : Kernel} (meets : meetsTerms p c k = true) :
    Allowed t p c k := by
  unfold Allowed
  split
  · rename_i fd
    intro _ d i found ino whole
    simp only [meetsTerms, found, whole, ino, Bool.false_or, Option.all_some, List.any_eq_true,
      decide_eq_true_eq] at meets
    obtain ⟨place, _, file⟩ := meets
    exact ⟨place.1, file⟩
  · intro _ m before
    simpa using List.all_eq_true.mp meets m (List.mem_range.mpr before)
  · trivial

def carefully (p : Pid) (c : Call) (w : World) : Option (Resp c × World) :=
  if meetsTerms p c w.kernel then exec p c w else none

def initial (source : Nat → Bytes) : Config := ⟨⟨Volume.initKernel source, [], []⟩, fun _ => none⟩

def Reached (t : Terms) (source : Nat → Bytes) (c : Config) : Prop :=
  Program.Pool.Reaches pool (Calls t) (initial source) c

section Schedules
variable {source : Nat → Bytes} {turns : List (Program.Pool.Turn Pid Op)} {Shown : Type}
  {shows : Config → Shown} {shown : Shown}

theorem played_reached (played : (Program.Pool.play pool exec turns (initial source)).map shows = some shown) :
    ∃ c, Reached anyRun source c ∧ shows c = shown := by
  obtain ⟨c, played, same⟩ := Option.map_eq_some_iff.mp played
  have sound : ∀ p (call : Call) w (r : Resp call) w', exec p call w = some (r, w') → Calls anyRun p call w r w' :=
    fun p call w _ _ => exec_calls (allowed_any p call w.kernel)
  exact ⟨c, Program.Pool.play_reaches sound turns played, same⟩

theorem carefully_reached (t : Terms)
    (played : (Program.Pool.play pool carefully turns (initial source)).map shows = some shown) :
    ∃ c, Reached t source c ∧ shows c = shown := by
  obtain ⟨c, played, same⟩ := Option.map_eq_some_iff.mp played
  have sound : ∀ p (call : Call) w (r : Resp call) w', carefully p call w = some (r, w') → Calls t p call w r w' := by
    intro p call w r w' answered
    unfold carefully at answered
    split at answered
    · rename_i meets
      exact exec_calls (allowed_of_meets meets) answered
    · cases answered
  exact ⟨c, Program.Pool.play_reaches sound turns played, same⟩

end Schedules

end Sfsdb.Processes

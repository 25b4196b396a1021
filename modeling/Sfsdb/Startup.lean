import Sfsdb.Crew
import Sfsdb.Hooks
import Sfsdb.Layout

/-!
`storage::init` of src/storage.cpp and `volume::init` of src/volume.hpp. What they
use of `std::filesystem` is written out down to the system calls, so that servers
can be started while others are being started on the same volume. Any call may
fail, and a hook may do what it likes outside the volume. `Grows` is all that
start-ups do to a volume between them, `Raised` what one of them is done for.
-/

namespace Sfsdb.Startup

open Posix Volume
open Hooks (HookType WaitStatus)

def EEXIST : Errno := 17

def HOOK_DIR : Bytes := ascii "hooks/"

inductive FileType where
  | notFound
  | directory
  | regular
  deriving DecidableEq

inductive Call where
  | chdir (path : Bytes)
  | status (path : Bytes)
  | mkdir (path : Bytes)
  /-- The names in a directory, in whatever order. -/
  | entries (path : Bytes)
  | system (command : Bytes)

abbrev Resp : Call → Type
  | .chdir _ => Except Errno Unit
  | .status _ => Except Errno FileType
  | .mkdir _ => Except Errno Unit
  | .entries _ => Except Errno (List Bytes)
  | .system _ => WaitStatus

abbrev Start := Program Call Resp

def ask (c : Call) : Start (Resp c) := Program.issue c

/-! ## The programs -/

/-- `std::filesystem::create_directory`: a directory that is there already is no error. -/
def createDirectory (path : Bytes) : Start (Except Errno Unit) := do
  match ← ask (.mkdir path) with
  | .ok () => return .ok ()
  | .error e =>
      if e ≠ EEXIST then return .error e
      else
        match ← ask (.status path) with
        | .ok .directory => return .ok ()
        | _ => return .error e

/-- One after the other; what one of them throws ends them all. -/
def each : List (Start (Except Errno Unit)) → Start (Except Errno Unit)
  | [] => return .ok ()
  | first :: rest => do
      match ← first with
      | .error e => return .error e
      | .ok () => each rest

def text (names : List Bytes) : Bytes := [slash].intercalate names

/-- The climb over `parent_path` to what exists. The names are in reverse order,
the directories to be created are collected with the outermost in front. -/
def climb : List Bytes → List (List Bytes) → Start (Except Errno (List (List Bytes)))
  | [], missing => return .ok missing
  | name :: up, missing => do
      let missing := (name :: up).reverse :: missing
      if up = [] then return .ok missing
      else
        match ← ask (.status (text up.reverse)) with
        | .error e => return .error e
        | .ok .directory => return .ok missing
        | .ok .regular => return .error ENOTDIR
        | .ok .notFound => climb up missing

/-- `std::filesystem::create_directories`. -/
def createDirectories (path : Bytes) : Start (Except Errno Unit) := do
  match ← ask (.status path) with
  | .error e => return .error e
  | .ok .directory => return .ok ()
  | .ok .regular => return .error ENOTDIR
  | .ok .notFound =>
      match ← climb (parts (cstr path)).reverse [] with
      | .error e => return .error e
      | .ok missing => each (missing.map fun names => createDirectory (text names))

/-- `storage::init`; what is thrown is caught there. -/
def storageInit : Start (Except Error Unit) := do
  match ← each [createDirectory Storage.DATA_DIR, createDirectories Storage.ID_DIR,
      createDirectories Storage.NAME_DIR, createDirectories HOOK_DIR,
      createDirectories Hooks.HOOK_PRE_DIR, createDirectories Hooks.HOOK_POST_DIR] with
  | .error e => return .error (.ofErrno e)
  | .ok () => return .ok ()

def hookLoop : List Bytes → Start (Except Error Unit)
  | [] => return .ok ()
  | hook :: rest => do
      let wait ← ask (.system (Hooks.command hook))
      let hret := wait.raw
      let status := Hooks.WEXITSTATUS hret
      if hret < 0 then return .error (.ofErrno wait.errno)
      else if status ≠ 0 ∧ status = 164 then return .error ⟨1, .text Hooks.hookFatal⟩
      else hookLoop rest

/-- `run_hooks`; nothing catches what `directory_iterator` throws. -/
def runHooks (kind : HookType) : Start (Option (Except Error Unit)) := do
  match ← ask (.entries kind.path) with
  | .error _ => return none
  | .ok names => return some (← hookLoop (Hooks.sortHooks (names.map (Hooks.entryPath kind))))

/-- `volume::init` from its call of `storage::init` on. -/
def initHere : Start (Option (Except Error Unit)) := do
  match ← storageInit with
  | .error err => return some (.error err)
  | .ok () => runHooks .PRE

/-- `volume::init`; what `current_path` throws is caught there. -/
def volumeInit (root : Bytes) : Start (Option (Except Error Unit)) := do
  match ← ask (.chdir root) with
  | .error e => return some (.error (.ofErrno e))
  | .ok () => initHere

def Waits (wait : Bytes → WaitStatus) : (c : Call) → Resp c → Prop
  | .system command, w => w = wait command
  | _, _ => True

/-- Under these statuses the loop calls the hooks that `Hooks.loop` does, and returns what it returns. -/
theorem hookLoop_loop (wait : Bytes → WaitStatus) (hooks : List Bytes) :
    Program.Within
      (fun c => ∃ hook ∈ (Hooks.loop (fun hook => wait (Hooks.command hook)) hooks).1, c = .system (Hooks.command hook))
      (Waits wait) (· = (Hooks.loop (fun hook => wait (Hooks.command hook)) hooks).2) (hookLoop hooks) := by
  induction hooks with
  | nil => exact Program.Within.done rfl
  | cons hook rest ih =>
      refine Program.Within.call ?_ ?_
      · refine ⟨hook, ?_, rfl⟩
        unfold Hooks.loop
        dsimp only
        split
        · exact List.mem_singleton_self hook
        · split
          · exact List.mem_singleton_self hook
          · exact List.mem_cons_self
      · rintro w rfl
        change Program.Within _ _ _ (if (wait (Hooks.command hook)).raw < 0 then .done _
          else if _ ∧ _ then .done _ else hookLoop rest)
        unfold Hooks.loop
        dsimp only
        split
        · exact Program.Within.done rfl
        · split
          · exact Program.Within.done rfl
          · refine ih.imp ?_ fun _ _ => id
            rintro c ⟨other, member, rfl⟩
            exact ⟨other, List.mem_cons_of_mem hook member, rfl⟩

/-! ## Servers on one machine -/

/-- The file tree, the working directory of each process, whether a call has
failed or a hook was fatal, and whether a volume has been opened. -/
structure Machine where
  files : Files
  cwd : Pid → Path
  failed : Bool
  opened : Bool

/-- The tree as a process sees it that works in `here`. -/
def seen (f : Files) (here : Path) : Files := { f with cwd := here }

def addDir (f : Files) (q : Path) : Files := { f with tree := (q, .dir) :: f.tree }

def children (f : Files) (q : Path) : List Bytes :=
  (f.tree.filterMap fun place =>
    if place.1.dropLast = q then place.1.getLast? else none).dedup

namespace Machine

def resolve (m : Machine) (p : Pid) (path : Bytes) : Except Errno Path := (seen m.files (m.cwd p)).resolve path

def chdir (m : Machine) (p : Pid) (path : Bytes) : Except Errno Unit × Machine :=
  match m.resolve p path with
  | .error e => (.error e, m)
  | .ok q => match m.files.node q with
    | none => (.error ENOENT, m)
    | some (.file _) => (.error ENOTDIR, m)
    | some .dir => (.ok (), { m with cwd := Function.update m.cwd p q })

def status (m : Machine) (p : Pid) (path : Bytes) : FileType :=
  match m.resolve p path with
  | .error _ => .notFound
  | .ok q => match m.files.node q with
    | none => .notFound
    | some (.file _) => .regular
    | some .dir => .directory

/-- Slashes at the end of the path count for nothing. -/
def mkdir (m : Machine) (p : Pid) (path : Bytes) : Except Errno Unit × Machine :=
  if cstr path = [] then (.error ENOENT, m)
  else match walk m.files.node (if (cstr path).head? = some slash then [] else m.cwd p) (parts (cstr path)) with
  | .error e => (.error e, m)
  | .ok q => match m.files.node q with
    | some _ => (.error EEXIST, m)
    | none => (.ok (), { m with files := addDir m.files q })

def entries (m : Machine) (p : Pid) (path : Bytes) : Except Errno (List Bytes) :=
  match m.resolve p path with
  | .error e => .error e
  | .ok q => match m.files.node q with
    | none => .error ENOENT
    | some (.file _) => .error ENOTDIR
    | some .dir => .ok (children m.files q)

def fail (m : Machine) : Machine := { m with failed := true }

end Machine

/-- What hooks do to the files: before, the status they end with, after. -/
abbrev Effects := Bytes → Files → WaitStatus → Files → Prop

def Does (hook : Effects) (p : Pid) : (c : Call) → Machine → Resp c → Machine → Prop
  | .chdir path, m, r, m' => (r, m') = m.chdir p path
  | .status path, m, r, m' => r = .ok (m.status p path) ∧ m' = m
  | .mkdir path, m, r, m' => (r, m') = m.mkdir p path
  | .entries path, m, r, m' => m' = m ∧
      ((∃ e, m.entries p path = .error e ∧ r = .error e) ∨
        ∃ names listed, m.entries p path = .ok names ∧ r = .ok listed ∧ listed.Perm names)
  | .system command, m, r, m' => ¬ r.Fatal ∧ ∃ f, hook command m.files r f ∧ m' = { m with files := f }

def Fails (hook : Effects) : (c : Call) → Machine → Resp c → Machine → Prop
  | .chdir _, m, r, m' => (∃ e, r = .error e) ∧ m' = m.fail
  | .status _, m, r, m' => (∃ e, r = .error e) ∧ m' = m.fail
  | .mkdir _, m, r, m' => (∃ e, r = .error e) ∧ m' = m.fail
  | .entries _, m, r, m' => (∃ e, r = .error e) ∧ m' = m.fail
  | .system command, m, r, m' => r.Fatal ∧ ∃ f, hook command m.files r f ∧ m' = { m.fail with files := f }

def Calls (hook : Effects) (p : Pid) (c : Call) (m : Machine) (r : Resp c) (m' : Machine) : Prop :=
  Does hook p c m r m' ∨ Fails hook c m r m'

def idle : Effects := fun _ f _ f' => f' = f

def exec (p : Pid) : (c : Call) → Machine → Option (Resp c × Machine)
  | .chdir path, m => some (m.chdir p path)
  | .status path, m => some (.ok (m.status p path), m)
  | .mkdir path, m => some (m.mkdir p path)
  | .entries path, m => some (m.entries p path, m)
  | .system _, m => some (.exited 0, m)

theorem exec_calls {p : Pid} {c : Call} {m m' : Machine} {r : Resp c} (answered : exec p c m = some (r, m')) :
    Calls idle p c m r m' := by
  refine Or.inl ?_
  cases c with
  | chdir path => exact (Option.some.inj answered).symm
  | status path =>
      cases answered
      exact ⟨rfl, rfl⟩
  | mkdir path => exact (Option.some.inj answered).symm
  | entries path =>
      cases answered
      refine ⟨rfl, ?_⟩
      cases listed : m.entries p path with
      | error e => exact Or.inl ⟨e, rfl, rfl⟩
      | ok names => exact Or.inr ⟨names, names, rfl, rfl, List.Perm.refl names⟩
  | system command =>
      cases answered
      refine ⟨?_, m.files, rfl, rfl⟩
      rintro (magic | ⟨value, errno, failed⟩)
      · exact absurd magic (by decide)
      · cases failed

/-! ## What start-ups are for -/

def layout : List (List Bytes) :=
  [[ascii "data"], [ascii "map"], [ascii "map", ascii "by-id"], [ascii "map", ascii "by-name"],
    [ascii "hooks"], [ascii "hooks", ascii "pre.d"], [ascii "hooks", ascii "post.d"]]

/-- The way to `names` leads through directories only, and ends in one. -/
def Raised (R : Path) (names : List Bytes) (f : Files) : Prop :=
  ∀ front, front ≠ [] → front <+: names → f.node (R ++ front) = some .dir

def Laid (R : Path) (f : Files) : Prop := ∀ names ∈ layout, f.node (R ++ names) = some .dir

def InTheWay (R : Path) (f : Files) : Prop := ∃ names ∈ layout, ∃ i, f.node (R ++ names) = some (.file i)

/-- What start-ups do to the files. -/
structure Grows (R : Path) (f f' : Files) : Prop where
  dirs : ∀ q, f.node q = some .dir → f'.node q = some .dir
  files : ∀ q i, R <+: q → f.node q = some (.file i) → f'.node q = some (.file i) ∧ f'.data i = f.data i
  fresh : ∀ q, R <+: q → f.node q = none →
    f'.node q = none ∨ f'.node q = some .dir ∧ ∃ names ∈ layout, q = R ++ names

/-- What a hook has to leave alone: no directory goes, and in the volume nothing changes. -/
structure Harmless (R : Path) (f f' : Files) : Prop where
  sound : f'.Sound
  dirs : ∀ q, f.node q = some .dir → f'.node q = some .dir
  same : ∀ q, R <+: q → f'.node q = f.node q
  data : ∀ q i, R <+: q → f.node q = some (.file i) → f'.data i = f.data i

section Growth
variable {R : Path} {f f' f'' : Files} {names : List Bytes}

theorem Grows.refl (R : Path) (f : Files) : Grows R f f :=
  ⟨fun _ dir => dir, fun _ _ _ file => ⟨file, rfl⟩, fun _ _ nothing => Or.inl nothing⟩

theorem Grows.trans (first : Grows R f f') (second : Grows R f' f'') : Grows R f f'' where
  dirs q dir := second.dirs q (first.dirs q dir)
  files q i inside file := by
    rcases first.files q i inside file with ⟨file', data'⟩
    rcases second.files q i inside file' with ⟨file'', data''⟩
    exact ⟨file'', data''.trans data'⟩
  fresh q inside nothing := by
    rcases first.fresh q inside nothing with still | ⟨dir, place⟩
    · exact second.fresh q inside still
    · exact Or.inr ⟨second.dirs q dir, place⟩

theorem Harmless.grows (harmless : Harmless R f f') : Grows R f f' where
  dirs := harmless.dirs
  files q i inside file := ⟨(harmless.same q inside).trans file, harmless.data q i inside file⟩
  fresh q inside nothing := Or.inl ((harmless.same q inside).trans nothing)

theorem Grows.raised (grows : Grows R f f') (raised : Raised R names f) : Raised R names f' :=
  fun front some inside => grows.dirs _ (raised front some inside)

theorem Grows.laid (grows : Grows R f f') (laid : Laid R f) : Laid R f' :=
  fun names member => grows.dirs _ (laid names member)

theorem Grows.inTheWay (grows : Grows R f f') (blocked : InTheWay R f) : InTheWay R f' := by
  rcases blocked with ⟨names, member, i, file⟩
  exact ⟨names, member, i, (grows.files _ i (List.prefix_append R names) file).1⟩

theorem Laid.free (laid : Laid R f) : ¬ InTheWay R f := by
  rintro ⟨names, member, i, file⟩
  rw [laid names member] at file
  cases file

theorem layout_front {front : List Bytes} (member : names ∈ layout) (some : front ≠ []) (inside : front <+: names) :
    front ∈ layout := by
  have closed : ∀ names ∈ layout, ∀ front ∈ names.inits, front ≠ [] → front ∈ layout := by decide
  exact closed names member front ((List.mem_inits front names).mpr inside) some

theorem layout_plain (member : names ∈ layout) : names ≠ [] ∧ ∀ n ∈ names, n ≠ dot ∧ n ≠ dotdot := by
  have plain : ∀ names ∈ layout, names ≠ [] ∧ ∀ n ∈ names, n ≠ dot ∧ n ≠ dotdot := by decide
  exact plain names member

theorem Laid.raised (laid : Laid R f) (member : names ∈ layout) : Raised R names f :=
  fun front some inside => laid front (layout_front member some inside)

/-! ### One directory more -/

theorem node_addDir (f : Files) (place : Path) (some : place ≠ []) (q : Path) :
    (addDir f place).node q = if q = place then .some .dir else f.node q := by
  by_cases root : q = []
  · simp [Files.node, root, Ne.symm some]
  · by_cases same : q = place
    · simp [Files.node, addDir, same, some]
    · have other : (q == place) = false := by simpa using same
      simp [Files.node, addDir, root, same, List.lookup_cons, other]

theorem file_addDir (f : Files) (place : Path) (absent : f.node place = none) (q : Path) (i : Ino) :
    (addDir f place).node q = some (.file i) ↔ f.node q = some (.file i) := by
  have nonempty : place ≠ [] := by
    rintro rfl
    simp [Files.node] at absent
  rw [node_addDir f place nonempty]
  by_cases same : q = place
  · simp [same, absent]
  · rw [if_neg same]

theorem Sound.addDir (sound : f.Sound) {place : Path} (absent : f.node place = none) :
    (addDir f place).Sound where
  single q q' i left right := sound.single q q' i ((file_addDir f place absent q i).mp left)
    ((file_addDir f place absent q' i).mp right)
  below q i file := sound.below q i ((file_addDir f place absent q i).mp file)

theorem Grows.addDir (member : names ∈ layout) (absent : f.node (R ++ names) = none) :
    Grows R f (addDir f (R ++ names)) := by
  have nonempty : R ++ names ≠ [] := by simp [(layout_plain member).1]
  refine ⟨fun q dir => ?_, fun q i _ file => ⟨(file_addDir f _ absent q i).mpr file, rfl⟩, fun q _ nothing => ?_⟩
  · rw [node_addDir f _ nonempty]
    split
    · rfl
    · exact dir
  · rw [node_addDir f _ nonempty]
    by_cases same : q = R ++ names
    · exact Or.inr ⟨if_pos same, names, member, same⟩
    · rw [if_neg same]
      exact Or.inl nothing

/-! ### Paths -/

theorem walk_passed {node : Path → Option Node} {here q : Path} {names rest : List Bytes}
    (plain : ∀ n ∈ names, n ≠ dot ∧ n ≠ dotdot) (tail : rest = [] ∨ rest = [dot])
    (walked : walk node here (names ++ rest) = .ok q) : q = here ++ names ∧
      ∀ front, front ≠ [] → front <+: names → front ≠ names → node (here ++ front) = some .dir := by
  -- What a walk without detours has passed; a slash at its end counts as ".".
  induction names generalizing here with
  | nil =>
      have stays : walk node here rest = .ok here := by
        rcases tail with rfl | rfl
        · rfl
        · rw [walk, if_pos rfl]
          rfl
      rw [List.nil_append, stays] at walked
      cases walked
      refine ⟨by simp, fun front some inside => ?_⟩
      exact absurd (List.prefix_nil.mp inside) some
  | cons n names ih =>
      have head := plain n List.mem_cons_self
      cases more : names ++ rest with
      | nil =>
          rw [List.cons_append, more, walk_last node here n head] at walked
          cases walked
          have last : names = [] := (List.append_eq_nil_iff.mp more).1
          subst last
          refine ⟨rfl, fun front some inside other => ?_⟩
          rcases List.prefix_cons_iff.mp inside with none | ⟨front', rfl, inside'⟩
          · exact absurd none some
          · exact absurd (congrArg (n :: ·) (List.prefix_nil.mp inside')) other
      | cons next more' =>
          rw [List.cons_append, more, walk, if_neg head.1, if_neg head.2] at walked
          cases there : node (here ++ [n]) with
          | none => simp [there] at walked
          | some found =>
              cases found with
              | file i => simp [there] at walked
              | dir =>
                  rw [there, ← more] at walked
                  rcases ih (fun m member => plain m (List.mem_cons_of_mem n member)) walked with ⟨ends, passed⟩
                  refine ⟨by simp [ends], fun front some inside other => ?_⟩
                  rcases List.prefix_cons_iff.mp inside with none | ⟨front', rfl, inside'⟩
                  · exact absurd none some
                  · by_cases first : front' = []
                    · rw [first]
                      exact there
                    · have deeper := passed front' first inside' fun same => other (by rw [same])
                      simpa using deeper

structure Spells (path : Bytes) (names : List Bytes) : Prop where
  listed : names ∈ layout
  nonempty : cstr path ≠ []
  relative : (cstr path).head? ≠ some slash
  stripped : parts (cstr path) = names
  taken : components (cstr path) = names ∨ components (cstr path) = names ++ [dot]

theorem spells_text (member : names ∈ layout) : Spells (text names) names := by
  have all : ∀ names ∈ layout, cstr (text names) ≠ [] ∧ (cstr (text names)).head? ≠ some slash ∧
      parts (cstr (text names)) = names ∧ components (cstr (text names)) = names := by decide
  rcases all names member with ⟨nonempty, relative, stripped, taken⟩
  exact ⟨member, nonempty, relative, stripped, Or.inl taken⟩

end Growth

end Sfsdb.Startup

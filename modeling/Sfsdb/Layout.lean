import Mathlib.Data.List.Infix
import Sfsdb.FileView
import Sfsdb.Storage

/-!
The three directories of a volume. `entry f d x` is the file that the source's
concatenation `d.text ++ x` names once `x` is a plain component, and
`record f d x` is what that file holds. Programs never create or remove a
directory through such an entry, so the layout outlives every change to one.
-/

namespace Sfsdb

open Posix

namespace Volume

inductive Dir where
  | byId
  | byName
  | data
  deriving DecidableEq

namespace Dir

def text : Dir → Bytes
  | .byId => Storage.ID_DIR
  | .byName => Storage.NAME_DIR
  | .data => Storage.DATA_DIR

def names : Dir → List Bytes
  | .byId => [ascii "map", ascii "by-id"]
  | .byName => [ascii "map", ascii "by-name"]
  | .data => [ascii "data"]

theorem text_eq (d : Dir) : d.text = Records.render slash d.names := by
  cases d <;> decide

theorem names_ne_nil (d : Dir) : d.names ≠ [] := by
  cases d <;> simp [names]

theorem names_plain (d : Dir) : ∀ n ∈ d.names, PlainName n := by
  cases d <;> decide

theorem names_injective (d d' : Dir) (same : d.names = d'.names) : d = d' := by
  cases d <;> cases d' <;> first | rfl | exact absurd same (by decide)

end Dir

def entry (f : Files) (d : Dir) (x : Bytes) : Path := f.cwd ++ d.names ++ [x]

def record (f : Files) (d : Dir) (x : Bytes) : Option Bytes := f.content (entry f d x)

theorem entry_ne_nil (f : Files) (d : Dir) (x : Bytes) : entry f d x ≠ [] := by
  simp [entry]

theorem entry_inj (f : Files) (d d' : Dir) (x x' : Bytes) :
    entry f d x = entry f d' x' ↔ d = d' ∧ x = x' := by
  constructor
  · intro same
    obtain ⟨front, last⟩ := List.append_inj' same rfl
    exact ⟨Dir.names_injective d d' (List.append_cancel_left front), by simpa using last⟩
  · rintro ⟨rfl, rfl⟩
    rfl

/-- Everything on the way into the three directories is a directory. -/
def Layout (f : Files) : Prop :=
  ∀ (d : Dir) front, front ≠ [] → front <+: d.names → f.node (f.cwd ++ front) = some .dir

/-- As a C string, `x` is the component `y`. -/
structure Names (x y : Bytes) : Prop where
  cut : cstr x = y
  plain : PlainName y

theorem Names.of_plain {x : Bytes} (plain : PlainName x) : Names x x :=
  ⟨cstr_of_free x plain.2.2.1, plain⟩

theorem Names.resolve {x y : Bytes} (names : Names x y) (f : Files) (d : Dir) :
    f.resolve (d.text ++ x) = f.resolve (Records.render slash d.names ++ y) := by
  have free : 0 ∉ d.text := by cases d <;> decide
  have cut : cstr (d.text ++ x) = cstr (d.text ++ y) := by
    rw [cstr_append d.text x free, cstr_append d.text y free, names.cut,
      cstr_of_free y names.plain.2.2.1]
  rw [f.resolve_cstr cut, d.text_eq]

theorem resolve_entry {x y : Bytes} (f : Files) (layout : Layout f) (d : Dir) (names : Names x y) :
    f.resolve (d.text ++ x) = .ok (entry f d y) := by
  rw [names.resolve]
  exact f.resolve_child d.names y d.names_ne_nil d.names_plain names.plain (layout d)

theorem Names.target {x y : Bytes} (names : Names x y) {f : Files} {d : Dir} {q : Path}
    (resolved : f.resolve (d.text ++ x) = .ok q) : q = entry f d y := by
  rw [names.resolve, f.resolve_walk d.names y d.names_ne_nil d.names_plain names.plain] at resolved
  exact f.walk_target f.cwd d.names y (fun n member => (d.names_plain n member).2.2.2) names.plain.2.2.2
    resolved

-- More directories lead no path astray.
theorem walk_mono {node node' : Path → Option Node}
    (dirs : ∀ q, node q = some .dir → node' q = some .dir) (here : Path) (names : List Bytes)
    {q : Path} (walked : walk node here names = .ok q) : walk node' here names = .ok q := by
  induction names generalizing here with
  | nil => exact walked
  | cons name rest ih =>
      unfold walk at walked ⊢
      by_cases stay : name = dot
      · rw [if_pos stay] at walked ⊢
        exact ih here walked
      · rw [if_neg stay] at walked ⊢
        by_cases up : name = dotdot
        · rw [if_pos up] at walked ⊢
          exact ih here.dropLast walked
        · rw [if_neg up] at walked ⊢
          cases rest with
          | nil => exact walked
          | cons next more =>
              dsimp only at walked ⊢
              cases there : node (here ++ [name]) with
              | none => simp [there] at walked
              | some found =>
                  cases found with
                  | file i => simp [there] at walked
                  | dir =>
                      rw [there] at walked
                      rw [dirs _ there]
                      exact ih _ walked

def SameDirs (f f' : Files) : Prop :=
  f'.cwd = f.cwd ∧ ∀ q, f'.node q = some .dir ↔ f.node q = some .dir

namespace SameDirs

variable {f f' f'' : Files}

theorem refl (f : Files) : SameDirs f f := ⟨rfl, fun _ => Iff.rfl⟩

theorem trans (first : SameDirs f f') (second : SameDirs f' f'') : SameDirs f f'' :=
  ⟨second.1.trans first.1, fun q => (second.2 q).trans (first.2 q)⟩

theorem layout (same : SameDirs f f') (before : Layout f) : Layout f' := by
  intro d front some inside
  rw [same.1, same.2]
  exact before d front some inside

theorem entry (same : SameDirs f f') (d : Dir) (x : Bytes) :
    Volume.entry f' d x = Volume.entry f d x := by
  simp [Volume.entry, same.1]

theorem resolve (same : SameDirs f f') {path : Bytes} {q : Path} (resolved : f.resolve path = .ok q) :
    f'.resolve path = .ok q := by
  unfold Files.resolve at resolved ⊢
  rw [same.1]
  split at resolved
  · cases resolved
  · rename_i some
    rw [if_neg some]
    exact walk_mono (fun q dir => (same.2 q).mpr dir) _ _ resolved

theorem setData (f : Files) (i : Ino) (bytes : Bytes) : SameDirs f (f.setData i bytes) :=
  ⟨rfl, fun _ => Iff.rfl⟩

theorem create (path : Path) (fresh : path ≠ []) (absent : f.node path = none) :
    SameDirs f (f.create path) := by
  refine ⟨rfl, fun q => ?_⟩
  rw [f.node_create path fresh]
  by_cases same : q = path
  · simp [same, absent]
  · simp [same]

theorem unlink (path : Path) (linked : path ≠ []) (file : f.node path ≠ some .dir) :
    SameDirs f (f.unlink path) := by
  refine ⟨rfl, fun q => ?_⟩
  rw [f.node_unlink path linked]
  by_cases same : q = path
  · simp [same, file]
  · simp [same]

end SameDirs

/-! ## The files of a volume -/

/-- The directories of the volume are there and hold files only. -/
structure Sane (f : Files) : Prop where
  sound : f.Sound
  layout : Layout f
  filed : ∀ d x, f.node (entry f d x) ≠ some .dir

abbrev Contents := Dir → Bytes → Option Bytes

/-- Contents with one entry replaced or, by `none`, taken away. -/
def put (d : Dir) (x : Bytes) (bytes : Option Bytes) (r : Contents) : Contents := fun d' x' =>
  if d' = d ∧ x' = x then bytes else r d' x'

@[simp] theorem put_self (d : Dir) (x : Bytes) (bytes : Option Bytes) (r : Contents) :
    put d x bytes r d x = bytes := by
  simp [put]

theorem put_other (d d' : Dir) (x x' : Bytes) (bytes : Option Bytes) (r : Contents)
    (other : d' ≠ d ∨ x' ≠ x) : put d x bytes r d' x' = r d' x' := by
  rcases other with dir | name
  · simp [put, dir]
  · simp [put, name]

theorem put_put (d : Dir) (x : Bytes) (first second : Option Bytes) (r : Contents) :
    put d x second (put d x first r) = put d x second r := by
  funext d' x'
  by_cases same : d' = d ∧ x' = x
  · simp [put, same]
  · simp [put, same]

theorem put_same (d : Dir) (x : Bytes) (r : Contents) : put d x (r d x) r = r := by
  funext d' x'
  by_cases same : d' = d ∧ x' = x
  · obtain ⟨rfl, rfl⟩ := same
    simp
  · simp [put, same]

/-- From `f` to `f'` the volume stays sane and its contents become `now`. -/
structure Turns (f f' : Files) (now : Contents) : Prop where
  sane : Sane f'
  dirs : SameDirs f f'
  records : record f' = now

namespace Turns

variable {f f' f'' : Files} {now now' : Contents} {d : Dir} {x : Bytes} {i : Ino}

theorem refl (sane : Sane f) : Turns f f (record f) := ⟨sane, SameDirs.refl f, rfl⟩

theorem trans (first : Turns f f' now) (second : Turns f' f'' now') : Turns f f'' now' :=
  ⟨second.sane, first.dirs.trans second.dirs, second.records⟩

theorem of_changes (now : Option Bytes) (sane : Sane f) (dirs : SameDirs f f') (sound : f'.Sound)
    (changed : ∀ q, f'.content q = if q = entry f d x then now else f.content q) :
    Turns f f' (put d x now (record f)) := by
  refine ⟨⟨sound, dirs.layout sane.layout, fun d' x' dir => ?_⟩, dirs, ?_⟩
  · rw [dirs.entry, dirs.2] at dir
    exact sane.filed d' x' dir
  · funext d' x'
    simp only [record, dirs.entry, changed, entry_inj, put]

theorem setData (bytes : Bytes) (sane : Sane f) (file : f.node (entry f d x) = some (.file i)) :
    Turns f (f.setData i bytes) (put d x (some bytes) (record f)) :=
  of_changes (some bytes) sane (SameDirs.setData f i bytes)
    (sane.sound.setData i bytes)
    (Files.content_setData bytes sane.sound file)

theorem create (sane : Sane f) (absent : f.node (entry f d x) = none) :
    Turns f (f.create (entry f d x)) (put d x (some []) (record f)) :=
  of_changes (some []) sane
    (SameDirs.create (entry f d x) (entry_ne_nil f d x) absent)
    (sane.sound.create _ (entry_ne_nil f d x))
    (Files.content_create _ sane.sound (entry_ne_nil f d x))

theorem unlink (sane : Sane f) :
    Turns f (f.unlink (entry f d x)) (put d x none (record f)) :=
  of_changes none sane
    (SameDirs.unlink (entry f d x) (entry_ne_nil f d x) (sane.filed d x))
    (sane.sound.unlink _ (entry_ne_nil f d x))
    (Files.content_unlink _ (entry_ne_nil f d x))

end Turns

namespace Sane

variable {f : Files} {d : Dir} {x bytes : Bytes}

theorem entry_cases (sane : Sane f) (d : Dir) (x : Bytes) :
    (∃ i, f.node (entry f d x) = some (.file i) ∧ record f d x = some (f.data i)) ∨
    (f.node (entry f d x) = none ∧ record f d x = none) := by
  cases node : f.node (entry f d x) with
  | none => exact Or.inr ⟨rfl, by simp [record, Files.content, node]⟩
  | some node' =>
      cases node' with
      | dir => exact absurd node (sane.filed d x)
      | file i => exact Or.inl ⟨i, rfl, Files.content_of_file node⟩

theorem entry_file (sane : Sane f) (holds : record f d x = some bytes) :
    ∃ i, f.node (entry f d x) = some (.file i) ∧ f.data i = bytes := by
  rcases sane.entry_cases d x with ⟨i, file, same⟩ | ⟨_, nothing⟩
  · exact ⟨i, file, by simpa [same] using holds⟩
  · simp [nothing] at holds

theorem entry_absent (sane : Sane f) (absent : record f d x = none) :
    f.node (entry f d x) = none := by
  rcases sane.entry_cases d x with ⟨i, _, same⟩ | ⟨nothing, _⟩
  · simp [same] at absent
  · exact nothing

theorem setData (sane : Sane f) (i : Ino) (bytes : Bytes) : Sane (f.setData i bytes) :=
  ⟨sane.sound.setData i bytes, (SameDirs.setData f i bytes).layout sane.layout, sane.filed⟩

end Sane

/-! ## A volume between two operations -/

/-- The kernel state in which a volume is used: no process holds a lock. -/
structure Ready (k : Kernel) : Prop where
  sane : Sane k.files
  unlocked : ∀ i, k.locks i = []

theorem Ready.alone {k : Kernel} (ready : Ready k) (p : Pid) : Kernel.Alone p k := by
  intro i held member
  simp [ready.unlocked i] at member

/-- A volume operation that draws `draws` identifiers takes `k` to `k'` and
leaves the contents `now` in the three directories. -/
structure Becomes (k k' : Kernel) (draws : Nat) (now : Contents) : Prop where
  turns : Turns k.files k'.files now
  unlocked : ∀ i, k'.locks i = []
  source : k'.source = k.source
  drawn : k'.drawn = k.drawn + draws
  dirSize : k'.dirSize = k.dirSize
  inbox : k'.inbox = k.inbox
  sent : k'.sent = k.sent

namespace Becomes

variable {k k' k'' : Kernel} {m n : Nat} {now now' : Contents}

theorem ready (change : Becomes k k' n now) : Ready k' := ⟨change.turns.sane, change.unlocked⟩

theorem refl (ready : Ready k) : Becomes k k 0 (record k.files) :=
  ⟨Turns.refl ready.sane, ready.unlocked, rfl, rfl, rfl, rfl, rfl⟩

theorem trans (first : Becomes k k' m now) (second : Becomes k' k'' n now') :
    Becomes k k'' (m + n) now' where
  turns := first.turns.trans second.turns
  unlocked := second.unlocked
  source := second.source.trans first.source
  drawn := by rw [second.drawn, first.drawn, Nat.add_assoc]
  dirSize := second.dirSize.trans first.dirSize
  inbox := second.inbox.trans first.inbox
  sent := second.sent.trans first.sent

end Becomes

/-! ## A new volume -/

/-- The directories that `storage::init` leaves in an empty root. -/
def initFiles : Files where
  cwd := []
  tree := [([ascii "map"], .dir), ([ascii "map", ascii "by-id"], .dir),
    ([ascii "map", ascii "by-name"], .dir), ([ascii "data"], .dir)]
  data := fun _ => []
  nextIno := 0

def initKernel (source : Nat → Bytes) : Kernel where
  files := initFiles
  desc := fun _ => none
  nextFd := 0
  locks := fun _ => []
  maps := fun _ => none
  nextMap := 0
  dirSize := 4096
  source := source
  drawn := 0
  inbox := fun _ => []
  sent := fun _ => []
  short := fun _ _ => .error ()

theorem initKernel_throws (source : Nat → Bytes) : (initKernel source).Throws := fun _ _ _ => rfl

theorem initFiles_node (q : Path) : initFiles.node q = some .dir ∨ initFiles.node q = none := by
  unfold Files.node initFiles
  by_cases root : q = []
  · exact Or.inl (if_pos root)
  · rw [if_neg root]
    simp only [List.lookup_cons, List.lookup_nil]
    repeat' split
    all_goals simp

theorem initFiles_entry (d : Dir) (x : Bytes) : initFiles.node (entry initFiles d x) = none := by
  have apart : ∀ place ∈ initFiles.tree, entry initFiles d x ≠ place.1 := by
    simp only [initFiles, entry, List.mem_cons, List.not_mem_nil, or_false, List.nil_append]
    rintro place (rfl | rfl | rfl | rfl) same <;> cases d <;> simp [Dir.names] at same <;>
      exact absurd same.1 (by decide)
  rw [Files.node, if_neg (entry_ne_nil _ _ _), List.lookup_eq_none_iff]
  intro place member
  simpa using apart place member

theorem initKernel_ready (source : Nat → Bytes) : Ready (initKernel source) := by
  have noFile : ∀ q i, initFiles.node q ≠ some (.file i) := by
    intro q i file
    rcases initFiles_node q with dir | nothing
    · simp [dir] at file
    · simp [nothing] at file
  refine ⟨⟨⟨?_, ?_⟩, fun d front some inside => ?_, ?_⟩, fun _ => rfl⟩
  · exact fun q _ i file => absurd file (noFile q i)
  · exact fun q i file => absurd file (noFile q i)
  · have all : ∀ front ∈ d.names.inits, front ≠ [] → initFiles.node front = .some .dir := by
      cases d <;> decide
    exact all front ((List.mem_inits front d.names).mpr inside) some
  · intro d x dir
    have nothing := initFiles_entry d x
    change initFiles.node (entry initFiles d x) = _ at dir
    rw [nothing] at dir
    cases dir

theorem initKernel_empty (source : Nat → Bytes) :
    record (initKernel source).files = fun _ _ => none := by
  funext d x
  have nothing : initFiles.node (entry initFiles d x) = none := initFiles_entry d x
  simp only [record, Files.content, initKernel, nothing]

end Volume
end Sfsdb

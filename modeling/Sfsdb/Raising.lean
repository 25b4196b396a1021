import Sfsdb.Startup

/-!
Start-ups beside each other, outlined call by call. What an answer says about a
directory of the volume stays true whatever other servers do, for they only add
directories; so a start-up that goes wrong has a call that failed or a file in its
way to show for it, and one that goes well leaves the whole layout behind.
-/

namespace Sfsdb.Startup

open Posix Volume
open Hooks (HookType WaitStatus)
open Program (Triple Stable Lasting)

/-- Why a start-up may go wrong. -/
def Trouble (R : Path) (m : Machine) : Prop := m.failed = true ∨ InTheWay R m.files

structure Inv (R : Path) (f₀ : Files) (m : Machine) : Prop where
  sound : m.files.Sound
  grown : Grows R f₀ m.files
  opened : m.opened = true → Laid R m.files

structure Guar (R : Path) (p : Pid) (m m' : Machine) : Prop where
  grows : Grows R m.files m'.files
  cwd : ∀ q, q ≠ p → m'.cwd q = m.cwd q
  failed : m.failed = true → m'.failed = true

def protocol (hook : Effects) (R : Path) (f₀ : Files) : Program.Protocol Call Resp Pid Machine Unit where
  sem := Calls hook
  inv m _ := Inv R f₀ m
  guar p m _ m' _ := Guar R p m m'
  expects _ _ _ _ := True
  still _ m _ := ⟨Grows.refl R m.files, fun _ _ => rfl, fun failed => failed⟩

def Lasts (hook : Effects) (R : Path) (f₀ : Files) (E : Machine → Prop) : Prop :=
  Lasting (protocol hook R f₀) fun m _ => E m

def Inside (R : Path) (p : Pid) (E : Machine → Prop) (m : Machine) (_ : Unit) : Prop := m.cwd p = R ∧ E m

def Made (R : Path) (names : List Bytes) (r : Except Errno Unit) (m : Machine) : Prop :=
  match r with
  | .ok _ => Raised R names m.files
  | .error _ => Trouble R m

section Lasts
variable {hook : Effects} {R : Path} {f₀ : Files} {p : Pid} {E E' : Machine → Prop}

theorem lasts_files {P : Files → Prop} (kept : ∀ f f', Grows R f f' → P f → P f') :
    Lasts hook R f₀ fun m => P m.files :=
  fun _ _ _ _ _ _ _ guar => kept _ _ guar.grows

theorem lasts_raised (names : List Bytes) : Lasts hook R f₀ fun m => Raised R names m.files :=
  lasts_files fun _ _ grows => grows.raised

theorem lasts_laid : Lasts hook R f₀ fun m => Laid R m.files := lasts_files fun _ _ grows => grows.laid

theorem lasts_trouble : Lasts hook R f₀ (Trouble R) :=
  fun _ _ _ _ _ _ _ guar => Or.imp guar.failed guar.grows.inTheWay

theorem lasts_made (names : List Bytes) (r : Except Errno Unit) : Lasts hook R f₀ (Made R names r) := by
  cases r with
  | ok => exact lasts_raised names
  | error => exact lasts_trouble

theorem Lasts.and (first : Lasts hook R f₀ E) (second : Lasts hook R f₀ E') :
    Lasts hook R f₀ fun m => E m ∧ E' m := Lasting.and first second

theorem Lasts.or (first : Lasts hook R f₀ E) (second : Lasts hook R f₀ E') :
    Lasts hook R f₀ fun m => E m ∨ E' m := Lasting.or first second

theorem lasts_pure (fact : Prop) : Lasts hook R f₀ fun _ => fact := Program.lasting_pure fact

theorem Lasts.inside (lasts : Lasts hook R f₀ E) : Stable (protocol hook R f₀) p (Inside R p E) := by
  rintro q m g m' g' other before after guar ⟨here, held⟩
  exact ⟨(guar.cwd p other.symm).trans here, lasts q m g m' g' before after guar held⟩

end Lasts

/-! ## Calls -/

section Calls
variable {hook : Effects} {R : Path} {f₀ : Files} {p : Pid} {E : Machine → Prop}
variable {names : List Bytes} {path : Bytes} {m m' : Machine}

theorem ask_outline {c : Call} (lasts : Lasts hook R f₀ E) (tells : Resp c → Machine → Prop)
    (told : ∀ r, Lasts hook R f₀ (tells r))
    (step : ∀ m r m', Inv R f₀ m → m.cwd p = R → E m → Calls hook p c m r m' →
      Inv R f₀ m' ∧ Guar R p m m' ∧ m'.cwd p = R ∧ tells r m') :
    Triple (protocol hook R f₀) p (Inside R p E) (ask c) fun r => Inside R p fun m => E m ∧ tells r m := by
  intro m g _ here
  refine Program.meets_call lasts.inside (fun _ _ _ _ => trivial) ?_ here
  rintro m ⟨⟩ r m' inv ⟨inside, held⟩ answered
  rcases step m r m' inv inside held answered with ⟨inv', guar, inside', now⟩
  refine ⟨(), inv', guar, Program.meets_done (lasts.and (told r)).inside (fun _ _ _ held => held) ?_⟩
  exact ⟨inside', lasts p m () m' () inv inv' guar held, now⟩

theorem Inv.fail (inv : Inv R f₀ m) : Inv R f₀ m.fail := ⟨inv.sound, inv.grown, inv.opened⟩

theorem guar_fail (m : Machine) : Guar R p m m.fail := ⟨Grows.refl R m.files, fun _ _ => rfl, fun _ => rfl⟩

theorem Inv.grow {f : Files} (inv : Inv R f₀ m) (sound : f.Sound) (grows : Grows R m.files f) :
    Inv R f₀ { m with files := f } :=
  ⟨sound, inv.grown.trans grows, fun opened => grows.laid (inv.opened opened)⟩

theorem Spells.resolve (spells : Spells path names) (here : m.cwd p = R) :
    m.resolve p path = walk m.files.node R (components (cstr path)) := by
  have unfolded : m.resolve p path = if cstr path = [] then .error ENOENT else walk m.files.node
      (if (cstr path).head? = some slash then [] else m.cwd p) (components (cstr path)) := rfl
  rw [unfolded, if_neg spells.nonempty, if_neg spells.relative, here]

theorem Spells.found (spells : Spells path names) (here : m.cwd p = R) {q : Path}
    (resolved : m.resolve p path = .ok q) : q = R ++ names ∧
      ∀ front, front ≠ [] → front <+: names → front ≠ names → m.files.node (R ++ front) = some .dir := by
  have plain := (layout_plain spells.listed).2
  rw [spells.resolve here] at resolved
  rcases spells.taken with same | same
  · rw [same, ← List.append_nil names] at resolved
    exact walk_passed plain (Or.inl rfl) resolved
  · rw [same] at resolved
    exact walk_passed plain (Or.inr rfl) resolved

theorem Spells.raised (spells : Spells path names) (here : m.cwd p = R) (raised : Raised R names m.files) :
    m.resolve p path = .ok (R ++ names) := by
  have plain := layout_plain spells.listed
  rw [spells.resolve here]
  rcases spells.taken with same | same
  · rcases List.eq_nil_or_concat names with none | ⟨up, last, split⟩
    · exact absurd none plain.1
    · rw [List.concat_eq_append] at split
      subst split
      rw [same, ← List.append_assoc]
      apply m.files.walk_dirs R up last (fun n member => plain.2 n (by simp [member])) (plain.2 last (by simp))
      exact fun front nonempty inside => raised front nonempty (inside.trans (List.prefix_append ..))
  · rw [same, m.files.walk_through R names [dot] (by simp) plain.2 raised, walk, if_pos rfl]
    rfl

theorem status_raised (spells : Spells path names) (here : m.cwd p = R) :
    m.status p path = .directory ↔ Raised R names m.files := by
  constructor
  · intro directory
    unfold Machine.status at directory
    cases resolved : m.resolve p path with
    | error e => simp [resolved] at directory
    | ok q =>
        rcases spells.found here resolved with ⟨rfl, passed⟩
        have dir : m.files.node (R ++ names) = some .dir := by
          rw [resolved] at directory
          dsimp only at directory
          split at directory
          · cases directory
          · cases directory
          · assumption
        intro front some inside
        by_cases whole : front = names
        · rw [whole]
          exact dir
        · exact passed front some inside whole
  · intro raised
    have dir := raised names (layout_plain spells.listed).1 List.prefix_rfl
    simp [Machine.status, spells.raised here raised, dir]

theorem status_regular (spells : Spells path names) (here : m.cwd p = R)
    (regular : m.status p path = .regular) : InTheWay R m.files := by
  unfold Machine.status at regular
  cases resolved : m.resolve p path with
  | error e => simp [resolved] at regular
  | ok q =>
      rcases spells.found here resolved with ⟨rfl, _⟩
      rw [resolved] at regular
      dsimp only at regular
      split at regular
      · cases regular
      · exact ⟨names, spells.listed, _, by assumption⟩
      · cases regular

def Seen (R : Path) (names : List Bytes) (r : Except Errno FileType) (m : Machine) : Prop :=
  match r with
  | .ok .directory => Raised R names m.files
  | .ok .regular => InTheWay R m.files
  | .ok .notFound => True
  | .error _ => Trouble R m

theorem lasts_seen (names : List Bytes) (r : Except Errno FileType) : Lasts hook R f₀ (Seen R names r) := by
  match r with
  | .ok .directory => exact lasts_raised names
  | .ok .regular => exact lasts_files fun _ _ grows => grows.inTheWay
  | .ok .notFound => exact fun _ _ _ _ _ _ _ _ _ => trivial
  | .error _ => exact lasts_trouble

theorem status_outline (lasts : Lasts hook R f₀ E) (spells : Spells path names) :
    Triple (protocol hook R f₀) p (Inside R p E) (ask (.status path)) fun r =>
      Inside R p fun m => E m ∧ Seen R names r m := by
  refine ask_outline (c := .status path) lasts (Seen R names) (lasts_seen names) ?_
  intro m r m' inv here _ answered
  rcases answered with ⟨rfl, rfl⟩ | ⟨⟨e, rfl⟩, rfl⟩
  · refine ⟨inv, (protocol hook R f₀).still p m' (), here, ?_⟩
    cases found : m'.status p path with
    | notFound => trivial
    | directory => exact (status_raised spells here).mp found
    | regular => exact status_regular spells here found
  · exact ⟨inv.fail, guar_fail m, here, Or.inl rfl⟩

/-- What `status` tells of a name that is taken: only a directory is no error. -/
def Checked (R : Path) (names : List Bytes) (r : Except Errno FileType) (m : Machine) : Prop :=
  r = .ok .directory ∧ Raised R names m.files ∨ r ≠ .ok .directory ∧ Trouble R m

theorem lasts_checked (names : List Bytes) (r : Except Errno FileType) : Lasts hook R f₀ (Checked R names r) :=
  ((lasts_pure _).and (lasts_raised names)).or ((lasts_pure _).and lasts_trouble)

theorem check_outline (lasts : Lasts hook R f₀ E) (spells : Spells path names)
    (exist : ∀ m, E m → Raised R names m.files ∨ Trouble R m) :
    Triple (protocol hook R f₀) p (Inside R p E) (ask (.status path)) fun r =>
      Inside R p fun m => E m ∧ Checked R names r m := by
  refine ask_outline (c := .status path) lasts (Checked R names) (lasts_checked names) ?_
  intro m r m' inv here held answered
  rcases answered with ⟨rfl, rfl⟩ | ⟨⟨e, rfl⟩, rfl⟩
  · refine ⟨inv, (protocol hook R f₀).still p m' (), here, ?_⟩
    by_cases raised : Raised R names m'.files
    · exact Or.inl ⟨congrArg Except.ok ((status_raised spells here).mpr raised), raised⟩
    · refine Or.inr ⟨fun same => raised ((status_raised spells here).mp (Except.ok.inj same)), ?_⟩
      exact (exist m' held).resolve_left raised
  · exact ⟨inv.fail, guar_fail m, here, Or.inr ⟨nofun, Or.inl rfl⟩⟩

def Tried (R : Path) (names : List Bytes) (r : Except Errno Unit) (m : Machine) : Prop :=
  Made R names r m ∨ r = .error EEXIST ∧ Raised R names m.files

theorem lasts_tried (names : List Bytes) (r : Except Errno Unit) : Lasts hook R f₀ (Tried R names r) :=
  (lasts_made names r).or ((lasts_pure _).and (lasts_raised names))

theorem mkdir_outline (lasts : Lasts hook R f₀ E) (spells : Spells path names)
    (above : ∀ m, E m → Raised R names.dropLast m.files) :
    Triple (protocol hook R f₀) p (Inside R p E) (ask (.mkdir path)) fun r =>
      Inside R p fun m => E m ∧ Tried R names r m := by
  refine ask_outline (c := .mkdir path) lasts (Tried R names) (lasts_tried names) ?_
  intro m r m' inv here held answered
  rcases answered with made | ⟨⟨e, rfl⟩, rfl⟩
  · have plain := layout_plain spells.listed
    have up := above m held
    obtain ⟨last, split⟩ : ∃ last, names = names.dropLast ++ [last] :=
      ⟨_, (List.dropLast_append_getLast plain.1).symm⟩
    -- the walk ends at the place of the directory, whatever is there
    have walked : walk m.files.node R names = .ok (R ++ names) := by
      rw [split, ← List.append_assoc]
      refine m.files.walk_dirs R names.dropLast last ?_ ?_ up
      · exact fun n member => plain.2 n (List.mem_of_mem_dropLast member)
      · exact plain.2 last (by rw [split]; simp)
    have raised : ∀ f : Files, Grows R m.files f → f.node (R ++ names) = some .dir → Raised R names f := by
      intro f grows dir front nonempty inside
      rw [split] at inside
      rcases List.prefix_concat_iff.mp inside with whole | shorter
      · rw [whole, ← split]
        exact dir
      · exact grows.raised up front nonempty shorter
    change (r, m') = m.mkdir p path at made
    rw [Machine.mkdir, if_neg spells.nonempty, if_neg spells.relative, here, spells.stripped, walked] at made
    dsimp only at made
    cases there : m.files.node (R ++ names) with
    | none =>
        rw [there] at made
        cases made
        have grows := Grows.addDir spells.listed there
        have nonempty : R ++ names ≠ [] := by simp [plain.1]
        refine ⟨inv.grow (Sound.addDir inv.sound there) grows, ⟨grows, fun _ _ => rfl, fun failed => failed⟩, here,
          Or.inl (raised _ grows ?_)⟩
        exact (node_addDir m.files _ nonempty _).trans (if_pos rfl)
    | some found =>
        rw [there] at made
        cases made
        refine ⟨inv, (protocol hook R f₀).still p m (), here, ?_⟩
        cases found with
        | dir => exact Or.inr ⟨rfl, raised _ (Grows.refl R _) there⟩
        | file i => exact Or.inl (Or.inr ⟨names, spells.listed, i, there⟩)
  · exact ⟨inv.fail, guar_fail m, here, Or.inl (Or.inl rfl)⟩

end Calls

/-! ## Directories -/

section Directories
variable {hook : Effects} {R : Path} {f₀ : Files} {p : Pid} {E : Machine → Prop}
variable {names base : List Bytes} {missing : List (List Bytes)} {path : Bytes} {α : Type}

theorem done_outline {Q : α → Machine → Prop} {value : α} (lasts : Lasts hook R f₀ E)
    (post : ∀ m, E m → Q value m) :
    Triple (protocol hook R f₀) p (Inside R p E) (.done value) fun r => Inside R p (Q r) :=
  Program.triple_done lasts.inside fun m _ _ held => ⟨held.1, post m held.2⟩

theorem createDirectory_outline (lasts : Lasts hook R f₀ E) (spells : Spells path names)
    (above : ∀ m, E m → Raised R names.dropLast m.files) :
    Triple (protocol hook R f₀) p (Inside R p E) (createDirectory path) fun r =>
      Inside R p fun m => E m ∧ Made R names r m := by
  refine Triple.bind (mkdir_outline lasts spells above) fun r => ?_
  have known := lasts.and (lasts_tried names r)
  cases r with
  | ok _ =>
      refine done_outline known ?_
      rintro m ⟨held, made | ⟨⟨⟩, _⟩⟩
      exact ⟨held, made⟩
  | error e =>
      dsimp only
      by_cases other : e ≠ EEXIST
      · rw [if_pos other]
        refine done_outline known ?_
        rintro m ⟨held, trouble | ⟨same, _⟩⟩
        · exact ⟨held, trouble⟩
        · exact absurd (Except.error.inj same) other
      · rw [if_neg other]
        have exist : ∀ m, E m ∧ Tried R names (.error e) m → Raised R names m.files ∨ Trouble R m := by
          rintro m ⟨_, trouble | ⟨_, raised⟩⟩
          · exact Or.inr trouble
          · exact Or.inl raised
        refine Triple.bind (check_outline known spells exist) fun r => ?_
        -- what `status` finds decides which of the two it was
        have checked := known.and (lasts_checked names r)
        split
        · refine done_outline checked ?_
          rintro m ⟨⟨held, _⟩, ⟨_, raised⟩ | ⟨different, _⟩⟩
          · exact ⟨held, raised⟩
          · exact absurd rfl different
        · rename_i different
          refine done_outline checked ?_
          rintro m ⟨⟨held, _⟩, ⟨same, _⟩ | ⟨_, trouble⟩⟩
          · exact absurd same different
          · exact ⟨held, trouble⟩

/-- The directories from `base`, which is not among them, down to `names`. -/
inductive Ladder : List Bytes → List (List Bytes) → List Bytes → Prop where
  | top {names : List Bytes} : Ladder names [] names
  | step {base names : List Bytes} {n : Bytes} {missing : List (List Bytes)} :
      Ladder (base ++ [n]) missing names → Ladder base ((base ++ [n]) :: missing) names

theorem Ladder.front (ladder : Ladder base missing names) : base <+: names := by
  induction ladder with
  | top => exact List.prefix_rfl
  | step _ ih => exact (List.prefix_append _ _).trans ih

theorem raised_nil (R : Path) (f : Files) : Raised R [] f :=
  fun _ some inside => absurd (List.prefix_nil.mp inside) some

theorem climb_outline (lasts : Lasts hook R f₀ E) (listed : names ∈ layout) (up : List Bytes)
    (ladder : Ladder up.reverse missing names) :
    Triple (protocol hook R f₀) p (Inside R p E) (climb up missing) fun r =>
      Inside R p fun m => E m ∧ match r with
        | .ok missing => ∃ base, Ladder base missing names ∧ Raised R base m.files
        | .error _ => Trouble R m := by
  induction up generalizing missing with
  | nil => exact done_outline lasts fun m held => ⟨held, _, ladder, raised_nil R m.files⟩
  | cons name up ih =>
      rw [List.reverse_cons] at ladder
      have longer : Ladder up.reverse ((name :: up).reverse :: missing) names := by
        rw [List.reverse_cons]
        exact Ladder.step ladder
      unfold climb
      dsimp only
      by_cases none : up = []
      · rw [if_pos none]
        subst none
        exact done_outline lasts fun m held => ⟨held, _, longer, raised_nil R m.files⟩
      · rw [if_neg none]
        have place : up.reverse ∈ layout := layout_front listed (by simpa using none) longer.front
        refine Triple.bind (status_outline lasts (spells_text place)) fun r => ?_
        have known := lasts.and (lasts_seen up.reverse r)
        match r, known with
        | .error _, known => exact done_outline known fun m held => held
        | .ok .directory, known => exact done_outline known fun m held => ⟨held.1, _, longer, held.2⟩
        | .ok .regular, known => exact done_outline known fun m held => ⟨held.1, Or.inr held.2⟩
        | .ok .notFound, _ => exact (ih longer).pre fun m _ _ held => ⟨held.1, held.2.1⟩

theorem ladder_outline (lasts : Lasts hook R f₀ E) (listed : names ∈ layout) (ladder : Ladder base missing names) :
    Triple (protocol hook R f₀) p (Inside R p fun m => E m ∧ Raised R base m.files)
      (each (missing.map fun names => createDirectory (text names))) fun r =>
        Inside R p fun m => E m ∧ Made R names r m := by
  induction ladder with
  | top => exact done_outline (lasts.and (lasts_raised _)) fun m held => held
  | @step base names n missing ladder ih =>
      have place : base ++ [n] ∈ layout := layout_front listed (by simp) ladder.front
      have creates := createDirectory_outline (p := p) (lasts.and (lasts_raised base)) (spells_text place)
        fun m held => by simpa using held.2
      refine Triple.bind creates fun r => ?_
      cases r with
      | ok _ => exact (ih listed).pre fun m _ _ held => ⟨held.1, held.2.1.1, held.2.2⟩
      | error e =>
          exact done_outline ((lasts.and (lasts_raised base)).and lasts_trouble) fun m held => ⟨held.1.1, held.2⟩

theorem createDirectories_outline (lasts : Lasts hook R f₀ E) (spells : Spells path names) :
    Triple (protocol hook R f₀) p (Inside R p E) (createDirectories path) fun r =>
      Inside R p fun m => E m ∧ Made R names r m := by
  refine Triple.bind (status_outline lasts spells) fun r => ?_
  have known := lasts.and (lasts_seen names r)
  match r, known with
  | .error _, known => exact done_outline known fun m held => held
  | .ok .directory, known => exact done_outline known fun m held => held
  | .ok .regular, known => exact done_outline known fun m held => ⟨held.1, Or.inr held.2⟩
  | .ok .notFound, _ =>
      have top : Ladder names.reverse.reverse [] names := by simpa using Ladder.top
      have climbs := climb_outline (p := p) lasts spells.listed names.reverse top
      dsimp only
      rw [spells.stripped]
      refine Triple.bind (climbs.pre fun m _ _ held => ⟨held.1, held.2.1⟩) fun r => ?_
      cases r with
      | error e => exact done_outline (lasts.and lasts_trouble) fun m held => held
      | ok missing =>
          intro m g inv held
          rcases held.2.2 with ⟨base, ladder, raised⟩
          exact ladder_outline lasts spells.listed ladder m g inv ⟨held.1, held.2.1, raised⟩

def Prepared (R : Path) {ε : Type} (r : Except ε Unit) (m : Machine) : Prop :=
  match r with
  | .ok _ => Laid R m.files
  | .error _ => Trouble R m

theorem each_outline (creations : List (Start (Except Errno Unit) × List Bytes)) (lasts : Lasts hook R f₀ E)
    (makes : ∀ c ∈ creations, ∀ E, Lasts hook R f₀ E → Triple (protocol hook R f₀) p (Inside R p E) c.1 fun r =>
      Inside R p fun m => E m ∧ Made R c.2 r m) :
    Triple (protocol hook R f₀) p (Inside R p E) (each (creations.map Prod.fst)) fun r =>
      Inside R p fun m => E m ∧ match r with
        | .ok _ => ∀ c ∈ creations, Raised R c.2 m.files
        | .error _ => Trouble R m := by
  -- Programs that make one directory each, whatever is known before.
  induction creations generalizing E with
  | nil => exact done_outline lasts fun m held => ⟨held, by simp⟩
  | cons first rest ih =>
      refine Triple.bind (makes first List.mem_cons_self E lasts) fun r => ?_
      cases r with
      | error e => exact done_outline (lasts.and lasts_trouble) fun m held => held
      | ok _ =>
          have later := ih (lasts.and (lasts_raised first.2)) fun c member =>
            makes c (List.mem_cons_of_mem first member)
          refine later.mono fun r m _ _ held => ⟨held.1, held.2.1.1, ?_⟩
          cases r with
          | error e => exact held.2.2
          | ok _ => exact List.forall_mem_cons.mpr ⟨held.2.1.2, held.2.2⟩

theorem spells_data : Spells Storage.DATA_DIR [ascii "data"] :=
  ⟨by decide, by decide, by decide, by decide, Or.inr (by decide)⟩

theorem spells_id : Spells Storage.ID_DIR [ascii "map", ascii "by-id"] :=
  ⟨by decide, by decide, by decide, by decide, Or.inr (by decide)⟩

theorem spells_name : Spells Storage.NAME_DIR [ascii "map", ascii "by-name"] :=
  ⟨by decide, by decide, by decide, by decide, Or.inr (by decide)⟩

theorem spells_hook : Spells HOOK_DIR [ascii "hooks"] :=
  ⟨by decide, by decide, by decide, by decide, Or.inr (by decide)⟩

theorem spells_pre : Spells Hooks.HOOK_PRE_DIR [ascii "hooks", ascii "pre.d"] :=
  ⟨by decide, by decide, by decide, by decide, Or.inl (by decide)⟩

theorem spells_post : Spells Hooks.HOOK_POST_DIR [ascii "hooks", ascii "post.d"] :=
  ⟨by decide, by decide, by decide, by decide, Or.inl (by decide)⟩

theorem storageInit_outline (lasts : Lasts hook R f₀ E) :
    Triple (protocol hook R f₀) p (Inside R p E) storageInit fun r =>
      Inside R p fun m => E m ∧ Prepared R r m := by
  let creations : List (Start (Except Errno Unit) × List Bytes) :=
    [(createDirectory Storage.DATA_DIR, [ascii "data"]),
      (createDirectories Storage.ID_DIR, [ascii "map", ascii "by-id"]),
      (createDirectories Storage.NAME_DIR, [ascii "map", ascii "by-name"]),
      (createDirectories HOOK_DIR, [ascii "hooks"]),
      (createDirectories Hooks.HOOK_PRE_DIR, [ascii "hooks", ascii "pre.d"]),
      (createDirectories Hooks.HOOK_POST_DIR, [ascii "hooks", ascii "post.d"])]
  have makes : ∀ c ∈ creations, ∀ E, Lasts hook R f₀ E → Triple (protocol hook R f₀) p (Inside R p E) c.1 fun r =>
      Inside R p fun m => E m ∧ Made R c.2 r m := by
    intro c member E lasts
    simp only [creations, List.mem_cons, List.not_mem_nil, or_false] at member
    rcases member with rfl | rfl | rfl | rfl | rfl | rfl
    · exact createDirectory_outline lasts spells_data fun m _ => raised_nil R m.files
    · exact createDirectories_outline lasts spells_id
    · exact createDirectories_outline lasts spells_name
    · exact createDirectories_outline lasts spells_hook
    · exact createDirectories_outline lasts spells_pre
    · exact createDirectories_outline lasts spells_post
  have covers : ∀ names ∈ layout, ∃ c ∈ creations.map Prod.snd, names ∈ c.inits := by decide
  refine Triple.bind (each_outline creations lasts makes) fun r => ?_
  cases r with
  | error e => exact done_outline (lasts.and lasts_trouble) fun m held => held
  | ok _ =>
      have raised : Lasts hook R f₀ fun m => ∀ c ∈ creations, Raised R c.2 m.files :=
        lasts_files (P := fun f => ∀ c ∈ creations, Raised R c.2 f) fun _ _ grows before c member =>
          grows.raised (before c member)
      refine done_outline (lasts.and raised) fun m held => ⟨held.1, fun names member => ?_⟩
      rcases covers names member with ⟨deepest, among, front⟩
      rcases List.mem_map.mp among with ⟨c, listed, rfl⟩
      exact held.2 c listed names (layout_plain member).1 ((List.mem_inits names c.2).mp front)

end Directories

/-! ## Hooks -/

section Running
variable {hook : Effects} {R : Path} {f₀ : Files} {p : Pid} {E : Machine → Prop}

theorem entries_outline (lasts : Lasts hook R f₀ E) (laid : ∀ m, E m → Laid R m.files) :
    Triple (protocol hook R f₀) p (Inside R p E) (ask (.entries (HookType.path .PRE))) fun r =>
      Inside R p fun m => E m ∧ ((∃ names, r = .ok names) ∨ Trouble R m) := by
  refine ask_outline (c := .entries (HookType.path .PRE)) lasts (fun r m => (∃ names, r = .ok names) ∨ Trouble R m)
    (fun r => (lasts_pure _).or lasts_trouble) ?_
  intro m r m' inv here held answered
  rcases answered with ⟨rfl, told⟩ | ⟨_, rfl⟩
  · refine ⟨inv, (protocol hook R f₀).still p m' (), here, Or.inl ?_⟩
    have dir := laid m' held _ spells_pre.listed
    have resolved := spells_pre.raised here ((laid m' held).raised spells_pre.listed)
    have listed : m'.entries p (HookType.path .PRE) = .ok (children m'.files (R ++ [ascii "hooks", ascii "pre.d"])) := by
      simp only [Machine.entries, HookType.path, resolved, dir]
    rcases told with ⟨e, failed, _⟩ | ⟨_, names, _, rfl, _⟩
    · rw [listed] at failed
      cases failed
    · exact ⟨names, rfl⟩
  · exact ⟨inv.fail, guar_fail m, here, Or.inr (Or.inl rfl)⟩

/-- Hooks that leave the volume alone. -/
def Discreet (hook : Effects) (R : Path) : Prop :=
  ∀ command f w f', f.Sound → hook command f w f' → Harmless R f f'

theorem system_outline (lasts : Lasts hook R f₀ E) (discreet : Discreet hook R) (command : Bytes) :
    Triple (protocol hook R f₀) p (Inside R p E) (ask (.system command)) fun w =>
      Inside R p fun m => E m ∧ (¬ w.Fatal ∨ Trouble R m) := by
  refine ask_outline (c := .system command) lasts (fun w m => ¬ w.Fatal ∨ Trouble R m)
    (fun w => (lasts_pure _).or lasts_trouble) ?_
  intro m w m' inv here _ answered
  rcases answered with ⟨fine, f, ran, rfl⟩ | ⟨_, f, ran, rfl⟩
  · have harmless := discreet command m.files w f inv.sound ran
    exact ⟨inv.grow harmless.sound harmless.grows, ⟨harmless.grows, fun _ _ => rfl, fun failed => failed⟩, here,
      Or.inl fine⟩
  · have harmless := discreet command m.files w f inv.sound ran
    exact ⟨inv.fail.grow harmless.sound harmless.grows, ⟨harmless.grows, fun _ _ => rfl, fun _ => rfl⟩, here,
      Or.inr (Or.inl rfl)⟩

theorem hookLoop_outline (lasts : Lasts hook R f₀ E) (discreet : Discreet hook R) (hooks : List Bytes) :
    Triple (protocol hook R f₀) p (Inside R p E) (hookLoop hooks) fun r =>
      Inside R p fun m => E m ∧ (r = .ok () ∨ Trouble R m) := by
  induction hooks with
  | nil => exact done_outline lasts fun m held => ⟨held, Or.inl rfl⟩
  | cons first rest ih =>
      refine Triple.bind (system_outline lasts discreet (Hooks.command first)) fun w => ?_
      have known : Lasts hook R f₀ fun m => E m ∧ (¬ w.Fatal ∨ Trouble R m) := lasts.and ((lasts_pure _).or lasts_trouble)
      dsimp only
      by_cases negative : w.raw < 0
      · rw [if_pos negative]
        have fatal : w.Fatal := Or.inr ((Hooks.raw_negative_iff w).mp negative)
        exact done_outline known fun m held => ⟨held.1, Or.inr (held.2.resolve_left (not_not_intro fatal))⟩
      · rw [if_neg negative]
        by_cases magic : Hooks.WEXITSTATUS w.raw ≠ 0 ∧ Hooks.WEXITSTATUS w.raw = 164
        · rw [if_pos magic]
          have fatal : w.Fatal := Or.inl ((Hooks.status_magic_iff w negative).mp magic.2)
          exact done_outline known fun m held => ⟨held.1, Or.inr (held.2.resolve_left (not_not_intro fatal))⟩
        · rw [if_neg magic]
          exact ih.pre fun m _ _ held => ⟨held.1, held.2.1⟩

theorem runHooks_outline (lasts : Lasts hook R f₀ E) (discreet : Discreet hook R)
    (laid : ∀ m, E m → Laid R m.files) :
    Triple (protocol hook R f₀) p (Inside R p E) (runHooks .PRE) fun r =>
      Inside R p fun m => E m ∧ (r = some (.ok ()) ∨ Trouble R m) := by
  refine Triple.bind (entries_outline lasts laid) fun r => ?_
  cases r with
  | error e =>
      refine done_outline (lasts.and ((lasts_pure _).or lasts_trouble)) ?_
      rintro m ⟨held, ⟨names, ⟨⟩⟩ | trouble⟩
      exact ⟨held, Or.inr trouble⟩
  | ok names =>
      refine Triple.map ((hookLoop_outline lasts discreet _).pre fun m _ _ held => ⟨held.1, held.2.1⟩) ?_
      exact fun result m _ _ held => ⟨held.1, held.2.1, held.2.2.imp_left (congrArg some)⟩

/-! ## Opening a volume -/

def Ended (R : Path) (p : Pid) (answer : Option (Except Error Unit)) (m : Machine) : Prop :=
  answer = some (.ok ()) ∧ m.cwd p = R ∧ Laid R m.files ∨ answer ≠ some (.ok ()) ∧ Trouble R m

theorem chdir_stable (root : Bytes) :
    Stable (protocol hook R f₀) p fun m _ => m.resolve p root = .ok R := by
  intro q m _ m' _ other _ _ guar resolved
  unfold Machine.resolve at resolved ⊢
  rw [guar.cwd p other.symm]
  unfold Files.resolve at resolved ⊢
  split at resolved
  · cases resolved
  · rename_i some
    rw [if_neg some]
    exact walk_mono guar.grows.dirs _ _ resolved

theorem ended_stable (answer : Option (Except Error Unit)) :
    Stable (protocol hook R f₀) p fun m _ => Ended R p answer m := by
  rintro q m g m' g' other before after guar (⟨well, here, laid⟩ | ⟨ill, trouble⟩)
  · exact Or.inl ⟨well, (guar.cwd p other.symm).trans here, guar.grows.laid laid⟩
  · exact Or.inr ⟨ill, lasts_trouble q m g m' g' before after guar trouble⟩

theorem initHere_outline (discreet : Discreet hook R) :
    Triple (protocol hook R f₀) p (Inside R p fun _ => True) initHere fun answer m _ => Ended R p answer m := by
  refine Triple.bind (storageInit_outline (lasts_pure True)) fun r => ?_
  cases r with
  | error err =>
      refine Program.triple_done ((lasts_pure True).and lasts_trouble).inside fun m _ _ held => ?_
      exact Or.inr ⟨by simp, held.2.2⟩
  | ok _ =>
      have known : Lasts hook R f₀ fun m => True ∧ Laid R m.files := (lasts_pure True).and lasts_laid
      have runs := runHooks_outline (p := p) known discreet fun m held => held.2
      refine runs.mono ?_
      rintro answer m _ _ ⟨here, ⟨_, laid⟩, well | trouble⟩
      · exact Or.inl ⟨well, here, laid⟩
      · by_cases well : answer = some (.ok ())
        · exact Or.inl ⟨well, here, laid⟩
        · exact Or.inr ⟨well, trouble⟩

theorem volumeInit_outline (discreet : Discreet hook R) (root : f₀.node R = some .dir) (path : Bytes) :
    Triple (protocol hook R f₀) p (fun m _ => m.resolve p path = .ok R) (volumeInit path) fun answer m _ =>
      Ended R p answer m := by
  intro m g _ resolved
  refine Program.meets_call (chdir_stable path) (fun _ _ _ _ => trivial) ?_ resolved
  rintro m g r m' inv resolved (entered | ⟨⟨e, rfl⟩, rfl⟩)
  · have dir := inv.grown.dirs R root
    change (r, m') = m.chdir p path at entered
    simp only [Machine.chdir, resolved, dir, Prod.mk.injEq] at entered
    rcases entered with ⟨rfl, rfl⟩
    have inv' : Inv R f₀ { m with cwd := Function.update m.cwd p R } := ⟨inv.sound, inv.grown, inv.opened⟩
    refine ⟨(), inv', ⟨Grows.refl R _, fun q other => Function.update_of_ne other _ _, fun failed => failed⟩, ?_⟩
    exact initHere_outline discreet _ () inv' ⟨Function.update_self .., trivial⟩
  · have failed : Trouble R m.fail := Or.inl rfl
    refine ⟨(), inv.fail, guar_fail m, Program.meets_done (ended_stable _) (fun _ _ _ held => held) ?_⟩
    exact Or.inr ⟨by simp, failed⟩

end Running

/-! ## Servers started beside each other -/

abbrev Config := Program.Config Call Resp Pid Bytes (Option (Except Error Unit)) Machine

/-- A server is started in some directory, with a path that leads from there to the volume. -/
def crew (R : Path) : Program.Crew Call Resp Pid Bytes (Option (Except Error Unit)) Machine where
  program := volumeInit
  starts p path m m' := (∃ here, m' = { m with cwd := Function.update m.cwd p here }) ∧ m'.resolve p path = .ok R
  stops _ _ answer m m' := m' = { m with opened := m.opened || decide (answer = some (.ok ())) }

def initial (f₀ : Files) : Config := ⟨⟨f₀, fun _ => [], false, false⟩, fun _ => none⟩

/-- What any order of steps leads to. A server that is stopped takes no further step. -/
def Reached (hook : Effects) (R : Path) (f₀ : Files) (c : Config) : Prop :=
  Program.Crew.Reaches (crew R) (Calls hook) (initial f₀) c

/-- The directories of the volume hold files only. -/
def Filed (R : Path) (f : Files) : Prop := ∀ (d : Dir) x, f.node (R ++ d.names ++ [x]) ≠ some .dir

section Reached
variable {hook : Effects} {R : Path} {f f' f₀ : Files} {c : Config}

theorem entry_unlisted (d : Dir) (x : Bytes) : d.names ++ [x] ∉ layout := by
  intro member
  have twice : ∀ names ∈ layout, names.length ≤ 2 ∧ names.head? ≠ some (ascii "data") ∨ names.length = 1 := by decide
  cases d <;> simpa [Dir.names] using twice _ member

theorem Grows.entry (grows : Grows R f f') (d : Dir) (x : Bytes) (nothing : f.node (R ++ d.names ++ [x]) = none) :
    f'.node (R ++ d.names ++ [x]) = none := by
  have inside : R <+: R ++ d.names ++ [x] := by simp [List.append_assoc]
  rcases grows.fresh _ inside nothing with still | ⟨_, names, member, same⟩
  · exact still
  · rw [List.append_assoc] at same
    rw [← List.append_cancel_left same] at member
    exact absurd member (entry_unlisted d x)

theorem Grows.filed (grows : Grows R f f') (filed : Filed R f) : Filed R f' := by
  intro d x dir
  have inside : R <+: R ++ d.names ++ [x] := by simp [List.append_assoc]
  cases before : f.node (R ++ d.names ++ [x]) with
  | none =>
      rw [grows.entry d x before] at dir
      cases dir
  | some node =>
      cases node with
      | dir => exact filed d x before
      | file i =>
          rw [(grows.files _ i inside before).1] at dir
          cases dir

theorem Grows.record (grows : Grows R f f') (filed : Filed R f) :
    Volume.record (seen f' R) = Volume.record (seen f R) := by
  funext d x
  change f'.content (R ++ d.names ++ [x]) = f.content (R ++ d.names ++ [x])
  have inside : R <+: R ++ d.names ++ [x] := by simp [List.append_assoc]
  cases before : f.node (R ++ d.names ++ [x]) with
  | none => simp only [Files.content, before, grows.entry d x before]
  | some node =>
      cases node with
      | dir => exact absurd before (filed d x)
      | file i =>
          rcases grows.files _ i inside before with ⟨file, data⟩
          rw [Files.content_of_file file, Files.content_of_file before, data]

theorem Laid.sane (laid : Laid R f) (filed : Filed R f) (sound : f.Sound) : Sane (seen f R) where
  sound := ⟨sound.single, sound.below⟩
  layout := by
    intro d front nonempty inside
    have member : d.names ∈ layout := by cases d <;> decide
    exact laid.raised member front nonempty inside
  filed := filed

theorem crew_sound (discreet : Discreet hook R) (root : f₀.node R = some .dir) :
    Program.Crew.Sound (crew R) (protocol hook R f₀) (fun _ _ _ => True)
      fun p _ answer m _ => Ended R p answer m where
  stable := fun _ _ _ _ _ _ _ _ _ _ _ => trivial
  starts := by
    rintro p path m g m' inv _ ⟨⟨here, rfl⟩, resolved⟩
    have inv' : Inv R f₀ { m with cwd := Function.update m.cwd p here } := ⟨inv.sound, inv.grown, inv.opened⟩
    refine ⟨(), inv', ⟨Grows.refl R _, fun q other => Function.update_of_ne other _ _, fun failed => failed⟩, ?_⟩
    exact volumeInit_outline discreet root path _ () inv' resolved
  stops := by
    rintro p path answer m g m' inv ended rfl
    refine ⟨(), ⟨inv.sound, inv.grown, fun opened => ?_⟩, ⟨Grows.refl R _, fun _ _ => rfl, fun failed => failed⟩, trivial⟩
    rcases Bool.or_eq_true_iff.mp opened with before | now
    · exact inv.opened before
    · rcases ended with ⟨_, _, laid⟩ | ⟨ill, _⟩
      · exact laid
      · exact absurd (of_decide_eq_true now) ill

theorem Reached.holds (reached : Reached hook R f₀ c) (discreet : Discreet hook R) (sound : f₀.Sound)
    (root : f₀.node R = some .dir) : Inv R f₀ c.state ∧
      ∀ p path answer, c.procs p = some (path, .done answer) → Ended R p answer c.state := by
  have begins : Program.Pool.Holds (protocol hook R f₀) (fun _ _ _ => True)
      (fun p (_ : Bytes) answer m _ => Ended R p answer m) (initial f₀) () :=
    ⟨⟨sound, Grows.refl R f₀, nofun⟩, fun _ _ => trivial, nofun⟩
  rcases Program.Crew.Reaches.holds (P := protocol hook R f₀) reached (crew_sound discreet root) begins with
    ⟨g, holds⟩
  refine ⟨holds.inv, fun p path answer ended => ?_⟩
  exact (Program.meets_closed (Q := fun answer m _ => Ended R p answer m)).done _ _ g holds.inv
    (holds.busy p path _ ended)

end Reached

/-! ### An empty directory -/

end Sfsdb.Startup

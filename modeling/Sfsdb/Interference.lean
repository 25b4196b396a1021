import Sfsdb.Processes

/-!
What the processes of a volume may do to each other. `Inv` says what holds of
the directories and the locks between any two calls, `Guar` what one process
may change under the others. Inodes keep the entry they were created as, also
once they are unlinked. The ids listed in an index file change only when its
write lock is given back, so while the file is rewritten `members` still tells
what it listed before. Records and data are protected by nothing but their id:
what is said of them holds where no id is drawn twice.
-/

namespace Sfsdb.Processes

open Posix Storage
open Volume (Dir entry record Sane SameDirs)

structure Ghost where
  /-- The entry as which an inode was created. -/
  role : Ino → Option (Dir × Bytes)
  /-- The ids in an index file when it was last free to read. -/
  members : Ino → List Bytes
  /-- The name for which an identifier was drawn, by the number of the draw. -/
  label : Nat → Bytes
  /-- The process that is storing under an id. -/
  working : Bytes → Option Pid
  /-- The names and ids of all lines that were added to an index. -/
  published : List (Bytes × Bytes)

namespace World

def node (w : World) (d : Dir) (x : Bytes) : Option Node :=
  w.kernel.files.node (entry w.kernel.files d x)

def data (w : World) (i : Ino) : Bytes := w.kernel.files.data i

def locks (w : World) (i : Ino) : List (Pid × LockKind) := w.kernel.locks i

def after (w : World) (k : Kernel) : World := { w with kernel := k }

end World

def Drawn (k : Kernel) (x : Bytes) : Prop := ∃ m, m < k.drawn ∧ k.source m = x

/-- `x` was drawn for a store under `n`. -/
def DrawnFor (k : Kernel) (g : Ghost) (x n : Bytes) : Prop :=
  ∃ m, m < k.drawn ∧ k.source m = x ∧ g.label m = n

def WriteFree (w : World) (i : Ino) : Prop := ∀ p, (p, LockKind.write) ∉ w.locks i

structure Core (t : Terms) (w : World) (g : Ghost) : Prop where
  sane : Sane w.kernel.files
  fds : ∀ fd, w.kernel.nextFd ≤ fd → w.kernel.desc fd = none
  unborn : ∀ i, w.kernel.files.nextIno ≤ i → g.role i = none
  named : ∀ d x i, w.node d x = some (.file i) → g.role i = some (d, x)
  placed : ∀ q i d x, g.role i = some (d, x) → w.kernel.files.node q = some (.file i) →
    q = entry w.kernel.files d x
  exclusive : ∀ i p, (p, LockKind.write) ∈ w.locks i → ∀ held ∈ w.locks i, held.1 = p
  ids : ∀ m, PlainName (w.kernel.source m) ∧ SEPARATOR ∉ w.kernel.source m
  distinct : t.fresh → ∀ m n, m < n → n < w.kernel.drawn → w.kernel.source m ≠ w.kernel.source n
  undrawn : t.fresh → ∀ d x, d ≠ .byName → ¬ Drawn w.kernel x → w.node d x = none
  slashless : ∀ i x, g.role i = some (.byId, x) → slash ∉ w.data i
  index : ∀ i n, g.role i = some (.byName, n) → WriteFree w i →
    w.data i = Records.render SEPARATOR (g.members i)
  listed : ∀ i n, g.role i = some (.byName, n) → ∀ x ∈ g.members i, DrawnFor w.kernel g x n
  published : t.strict → ∀ n x, (n, x) ∈ g.published → x ∉ w.begun →
    ∃ i, w.node .byName n = some (.file i) ∧ x ∈ g.members i

/-- A store that has returned has left its line, its record and its data. -/
structure Kept (t : Terms) (w : World) (g : Ghost) (name id data : Bytes) : Prop where
  drawn : DrawnFor w.kernel g id name
  published : t.strict → (name, id) ∈ g.published
  ended : t.fresh → g.working id = none
  there : t.fresh → id ∈ w.begun ∨ record w.kernel.files .byId id = some (name ++ [SEPARATOR]) ∧
    record w.kernel.files .data id = some data

structure Inv (t : Terms) (w : World) (g : Ghost) : Prop extends Core t w g where
  stored : ∀ name id data, (name, id, data) ∈ w.stored → Kept t w g name id data

/-- What only grows. -/
structure Later (w : World) (g : Ghost) (w' : World) (g' : Ghost) : Prop where
  source : w'.kernel.source = w.kernel.source
  drawn : w.kernel.drawn ≤ w'.kernel.drawn
  cwd : w'.kernel.files.cwd = w.kernel.files.cwd
  roles : ∀ i r, g.role i = some r → g'.role i = some r
  label : ∀ m, m < w.kernel.drawn → g'.label m = g.label m
  begun : ∀ x ∈ w.begun, x ∈ w'.begun
  published : ∀ e ∈ g.published, e ∈ g'.published

/-- What a step of `q` leaves as it was. -/
structure Guar (t : Terms) (q : Pid) (w : World) (g : Ghost) (w' : World) (g' : Ghost) : Prop
    extends Later w g w' g' where
  descs : ∀ p, p ≠ q → w'.kernel.descOf p = w.kernel.descOf p
  locks : ∀ p, p ≠ q → ∀ i kind, (p, kind) ∈ w'.locks i ↔ (p, kind) ∈ w.locks i
  working : t.fresh → ∀ x, Drawn w.kernel x → g.working x ≠ some q → g'.working x = g.working x
  locked : ∀ i n, g.role i = some (.byName, n) → (q, LockKind.write) ∉ w.locks i →
    w'.data i = w.data i ∧ g'.members i = g.members i
  worked : t.fresh → ∀ i d x, g.role i = some (d, x) → d ≠ .byName → g.working x ≠ some q →
    w'.data i = w.data i
  present : ∀ d x i, d ≠ .byName → x ∉ w'.begun → w.node d x = some (.file i) →
    w'.node d x = some (.file i)
  absent : t.fresh → ∀ d x, d ≠ .byName → g.working x ≠ some q → w.node d x = none →
    w'.node d x = none
  linked : t.strict → ∀ n i, w.node .byName n = some (.file i) → (q, LockKind.write) ∉ w.locks i →
    w'.node .byName n = some (.file i)

variable {t : Terms} {p q : Pid} {w w' : World} {g g' : Ghost}

theorem Later.refl (w : World) (g : Ghost) : Later w g w g := by
  constructor <;> simp

theorem Later.trans {w'' : World} {g'' : Ghost} (first : Later w g w' g') (second : Later w' g' w'' g'') :
    Later w g w'' g'' where
  source := second.source.trans first.source
  drawn := first.drawn.trans second.drawn
  cwd := second.cwd.trans first.cwd
  roles i r role := second.roles i r (first.roles i r role)
  label m before := (second.label m (before.trans_le first.drawn)).trans (first.label m before)
  begun x member := second.begun x (first.begun x member)
  published e member := second.published e (first.published e member)

theorem Guar.refl (t : Terms) (q : Pid) (w : World) (g : Ghost) : Guar t q w g w g := by
  constructor <;> simp_all [Later.refl]

theorem Later.drawnStill (later : Later w g w' g') {x : Bytes} (drawn : Drawn w.kernel x) :
    Drawn w'.kernel x := by
  obtain ⟨m, before, same⟩ := drawn
  exact ⟨m, before.trans_le later.drawn, by rw [later.source, same]⟩

theorem Later.drawnFor (later : Later w g w' g') {x n : Bytes} (drawn : DrawnFor w.kernel g x n) :
    DrawnFor w'.kernel g' x n := by
  obtain ⟨m, before, same, label⟩ := drawn
  exact ⟨m, before.trans_le later.drawn, by rw [later.source, same], (later.label m before).trans label⟩

theorem DrawnFor.drawn {k : Kernel} {x n : Bytes} (drawn : DrawnFor k g x n) : Drawn k x := by
  obtain ⟨m, before, same, _⟩ := drawn
  exact ⟨m, before, same⟩

theorem Core.node_cases (core : Core t w g) (d : Dir) (x : Bytes) :
    w.node d x = none ∨ ∃ i, w.node d x = some (.file i) := by
  rcases core.sane.entry_cases d x with ⟨i, file, _⟩ | ⟨nothing, _⟩
  · exact Or.inr ⟨i, file⟩
  · exact Or.inl nothing

theorem record_file {d : Dir} {x : Bytes} {i : Ino} (file : w.node d x = some (.file i)) :
    record w.kernel.files d x = some (w.data i) :=
  Files.content_of_file file

theorem Guar.recordStill (guar : Guar t q w g w' g') (core : Core t w g) (fresh : t.fresh) {d : Dir}
    {x bytes : Bytes} (other : d ≠ .byName) (spared : x ∉ w'.begun) (foreign : g.working x ≠ some q)
    (holds : record w.kernel.files d x = some bytes) : record w'.kernel.files d x = some bytes := by
  -- A record or data file that no one is storing stays as it is.
  obtain ⟨i, file, rfl⟩ := core.sane.entry_file holds
  have there := guar.present d x i other spared file
  rw [record_file there, guar.worked fresh i d x (core.named d x i file) other foreign]
  rfl

theorem Kept.guar (guar : Guar t q w g w' g') (core : Core t w g) {name id data : Bytes}
    (kept : Kept t w g name id data) : Kept t w' g' name id data := by
  have foreign : t.fresh → g.working id ≠ some q := by
    intro fresh
    simp [kept.ended fresh]
  constructor
  · exact guar.drawnFor kept.drawn
  · exact fun strict => guar.published _ (kept.published strict)
  · intro fresh
    rw [guar.working fresh id kept.drawn.drawn (foreign fresh), kept.ended fresh]
  · intro fresh
    by_cases gone : id ∈ w'.begun
    · exact Or.inl gone
    · obtain ⟨recorded, stored⟩ := (kept.there fresh).resolve_left fun before => gone (guar.begun id before)
      exact Or.inr ⟨guar.recordStill core fresh (by decide) gone (foreign fresh) recorded,
        guar.recordStill core fresh (by decide) gone (foreign fresh) stored⟩

theorem Inv.of_core (inv : Inv t w g) (core : Core t w' g') (guar : Guar t q w g w' g')
    (same : w'.stored = w.stored) : Inv t w' g' :=
  ⟨core, fun name id data member => (inv.stored name id data (same ▸ member)).guar guar inv.toCore⟩

/-! ## What a process knows -/

/-- Things a process can know about the shared state in the middle of an operation. -/
inductive Fact where
  | role (i : Ino) (d : Dir) (x : Bytes)
  | drawnFor (x n : Bytes)
  | begun (x : Bytes)
  | published (n x : Bytes)
  /-- The process itself is storing under the id. -/
  | mine (x : Bytes)
  /-- What a locked index file holds, and what it listed when it was locked. -/
  | index (i : Ino) (n text : Bytes) (ids : List Bytes)
  /-- A write-locked index file is the one in the directory. -/
  | linked (i : Ino) (n : Bytes)
  /-- Until a removal begins, this file is there under an own id and holds the bytes. -/
  | own (d : Dir) (x : Bytes) (i : Ino) (bytes : Bytes)
  | absent (d : Dir) (x : Bytes)

namespace Fact

def Mine (p : Pid) (w : World) (g : Ghost) (x : Bytes) : Prop :=
  g.working x = some p ∧ Drawn w.kernel x

def Locked (p : Pid) (w : World) (i : Ino) : Prop := ∃ kind, (p, kind) ∈ w.locks i

def Holds (t : Terms) (p : Pid) (w : World) (g : Ghost) : Fact → Prop
  | .role i d x => g.role i = some (d, x)
  | .drawnFor x n => DrawnFor w.kernel g x n
  | .begun x => x ∈ w.begun
  | .published n x => t.strict → (n, x) ∈ g.published
  | .mine x => t.fresh → Mine p w g x
  | .index i n text ids => g.role i = some (.byName, n) ∧ w.data i = text ∧ g.members i = ids ∧
      Locked p w i
  | .linked i n => g.role i = some (.byName, n) ∧ (p, LockKind.write) ∈ w.locks i ∧
      (t.strict → w.node .byName n = some (.file i))
  | .own d x i bytes => d ≠ .byName ∧ g.role i = some (d, x) ∧ (t.fresh → Mine p w g x ∧
      (x ∈ w.begun ∨ w.node d x = some (.file i) ∧ w.data i = bytes))
  | .absent d x => d ≠ .byName ∧ (t.fresh → Mine p w g x ∧ w.node d x = none)

end Fact

/-- Between two calls of `p`: its open descriptors, its locks and what it knows. -/
structure Session (t : Terms) (p : Pid) (descs : Fd → Option Description)
    (held : List (Ino × LockKind)) (facts : List Fact) (w : World) (g : Ghost) : Prop where
  descs : w.kernel.descOf p = descs
  held : ∀ i kind, (p, kind) ∈ w.locks i ↔ (i, kind) ∈ held
  facts : ∀ f ∈ facts, f.Holds t p w g

/-- When `p` makes a call that may wait it holds nothing, or one index file while
it asks for the record of an id. -/
def Expects (p : Pid) : Call → World → Ghost → Prop
  | .lock fd _, w, g => (∀ i kind, (p, kind) ∉ w.locks i) ∨
      ∃ i n, g.role i = some (.byName, n) ∧
        (∀ j kind, (p, kind) ∈ w.locks j → j = i) ∧
        ∀ d j, w.kernel.descOf p fd = some d → d.ino = some j → ∃ x, g.role j = some (.byId, x)
  | _, _, _ => True

def protocol (t : Terms) : Program.Protocol Call Resp Pid World Ghost where
  sem := Calls t
  inv := Inv t
  guar := Guar t
  expects := Expects
  still := Guar.refl t

section Stability

/-- Every fact outlasts the steps of the others. -/
theorem Fact.stable {f : Fact} (other : q ≠ p) (core : Core t w g)
    (guar : Guar t q w g w' g') (holds : f.Holds t p w g) : f.Holds t p w' g' := by
  have locks : ∀ i kind, (p, kind) ∈ w'.locks i ↔ (p, kind) ∈ w.locks i :=
    guar.locks p (Ne.symm other)
  have foreign : ∀ x, Fact.Mine p w g x → g.working x ≠ some q := by
    rintro x ⟨working, _⟩
    rw [working]
    simpa using Ne.symm other
  have mine : t.fresh → ∀ x, Fact.Mine p w g x → Fact.Mine p w' g' x := by
    rintro fresh x ⟨working, drawn⟩
    refine ⟨?_, guar.drawnStill drawn⟩
    rw [guar.working fresh x drawn (by rw [working]; simpa using Ne.symm other), working]
  -- whoever writes excludes all other locks
  have unwritten : ∀ i, Fact.Locked p w i → (q, LockKind.write) ∉ w.locks i := by
    rintro i ⟨kind, member⟩ writes
    exact other (core.exclusive i q writes _ member).symm
  cases f with
  | role i d x => exact guar.roles i _ holds
  | drawnFor x n => exact guar.drawnFor holds
  | begun x => exact guar.begun x holds
  | published n x => exact fun strict => guar.published _ (holds strict)
  | mine x => exact fun fresh => mine fresh x (holds fresh)
  | index i n text ids =>
      obtain ⟨role, data, members, kind, held⟩ := holds
      obtain ⟨data', members'⟩ := guar.locked i n role (unwritten i ⟨kind, held⟩)
      exact ⟨guar.roles i _ role, data'.trans data, members'.trans members, kind, (locks i kind).mpr held⟩
  | linked i n =>
      obtain ⟨role, writes, node⟩ := holds
      exact ⟨guar.roles i _ role, (locks i _).mpr writes, fun strict =>
        guar.linked strict n i (node strict) (unwritten i ⟨_, writes⟩)⟩
  | own d x i bytes =>
      obtain ⟨kind, role, known⟩ := holds
      refine ⟨kind, guar.roles i _ role, fun fresh => ?_⟩
      obtain ⟨own, there⟩ := known fresh
      refine ⟨mine fresh x own, ?_⟩
      by_cases gone : x ∈ w'.begun
      · exact Or.inl gone
      · obtain ⟨node, data⟩ := there.resolve_left fun before => gone (guar.begun x before)
        refine Or.inr ⟨guar.present d x i kind gone node, ?_⟩
        rw [guar.worked fresh i d x role kind (foreign x own), data]
  | absent d x =>
      refine ⟨holds.1, fun fresh => ?_⟩
      obtain ⟨own, node⟩ := holds.2 fresh
      exact ⟨mine fresh x own, guar.absent fresh d x holds.1 (foreign x own) node⟩

variable {descs : Fd → Option Description} {held : List (Ino × LockKind)} {facts : List Fact}

theorem session_stable :
    Program.Stable (protocol t) p (Session t p descs held facts) := by
  intro q w g w' g' other before _ guar session
  refine ⟨by rw [guar.descs p (Ne.symm other), session.descs], fun i kind => ?_, fun f member => ?_⟩
  · rw [guar.locks p (Ne.symm other), session.held]
  · exact Fact.stable other before.toCore guar (session.facts f member)

theorem Session.weaken (session : Session t p descs held facts w g) (facts' : List Fact)
    (fewer : ∀ f ∈ facts', f ∈ facts) : Session t p descs held facts' w g :=
  ⟨session.descs, session.held, fun f member => session.facts f (fewer f member)⟩

end Stability

end Sfsdb.Processes

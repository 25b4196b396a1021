import Sfsdb.Interference

/-!
The steps of one process, seen from inside. Each change that a call can make to
the files, the locks or the draws keeps `Inv` and stays within `Guar`, under the
conditions that the operations meet; what the process knows and the change does
not touch it still knows afterwards.
-/

namespace Sfsdb.Processes

open Posix Storage
open Volume (Dir entry Sane SameDirs Turns)

/-- The two states differ in nothing but descriptors of `p`. -/
structure Alike (p : Pid) (k k' : Kernel) : Prop where
  files : k'.files = k.files
  locks : k'.locks = k.locks
  source : k'.source = k.source
  drawn : k'.drawn = k.drawn
  descs : ∀ q, q ≠ p → k'.descOf q = k.descOf q
  fds : ∀ fd, k'.nextFd ≤ fd → k'.desc fd = none

/-- A step of `p` that is within the protocol. -/
structure Stepped (t : Terms) (p : Pid) (w : World) (g : Ghost) (w' : World) (g' : Ghost) : Prop where
  inv : Inv t w' g'
  guar : Guar t p w g w' g'

/-! ## Descriptors -/

section Descriptors
variable {p : Pid} {k k' : Kernel} {fd : Fd} {d : Description}

theorem Alike.same (fds : ∀ fd, k.nextFd ≤ fd → k.desc fd = none) : Alike p k k :=
  ⟨rfl, rfl, rfl, rfl, fun _ _ => rfl, fds⟩

theorem Alike.addDesc (fds : ∀ fd, k.nextFd ≤ fd → k.desc fd = none) (own : d.pid = p) :
    Alike p k (k.addDesc d) := by
  refine ⟨rfl, rfl, rfl, rfl, fun q other => ?_, fun fd above => ?_⟩
  · funext fd
    by_cases new : fd = k.nextFd
    · subst new
      simp [Kernel.descOf, Kernel.addDesc, own, Ne.symm other, fds]
    · simp [Kernel.descOf, Kernel.addDesc, new]
  · have above : k.nextFd + 1 ≤ fd := above
    change Function.update k.desc k.nextFd (some d) fd = none
    rw [Function.update_of_ne (Nat.ne_of_gt above)]
    exact fds fd (Nat.le_of_succ_le above)

theorem below_nextFd (fds : ∀ fd, k.nextFd ≤ fd → k.desc fd = none) (found : k.descOf p fd = some d) :
    fd < k.nextFd := by
  by_contra above
  simp [Kernel.descOf, fds fd (Nat.le_of_not_lt above)] at found

theorem foreign_desc (found : k.descOf p fd = some d) {q : Pid} (other : q ≠ p) :
    k.descOf q fd = none := by
  have own := Kernel.descOf_pid found
  unfold Kernel.descOf at found ⊢
  split at found
  · rename_i d' there
    split at found
    · cases found
      simp [own, Ne.symm other]
    · cases found
  · cases found

theorem Alike.setPos (fds : ∀ fd, k.nextFd ≤ fd → k.desc fd = none) (found : k.descOf p fd = some d)
    (pos : Nat) : Alike p k (k.setPos fd d pos) := by
  have own := Kernel.descOf_pid found
  refine ⟨rfl, rfl, rfl, rfl, fun q other => ?_, fun fd' above => ?_⟩
  · funext fd'
    by_cases same : fd' = fd
    · subst same
      rw [foreign_desc found other]
      simp [Kernel.descOf, Kernel.setPos, own, Ne.symm other]
    · simp [Kernel.descOf, Kernel.setPos, same]
  · change Function.update k.desc fd _ fd' = none
    rw [Function.update_of_ne (Nat.ne_of_gt ((below_nextFd fds found).trans_le above))]
    exact fds fd' above

theorem Alike.dropDesc (fds : ∀ fd, k.nextFd ≤ fd → k.desc fd = none) (found : k.descOf p fd = some d) :
    Alike p k (k.dropDesc fd) := by
  refine ⟨rfl, rfl, rfl, rfl, fun q other => ?_, fun fd' above => ?_⟩
  · funext fd'
    rw [Kernel.descOf_dropDesc]
    split
    · rename_i same
      rw [same, foreign_desc found other]
    · rfl
  · change Function.update k.desc fd none fd' = none
    by_cases same : fd' = fd
    · simp [same]
    · rw [Function.update_of_ne same]
      exact fds fd' above

end Descriptors

/-! ## What is left as it was -/

def Fact.Unchanged (p : Pid) (w : World) (g : Ghost) (w' : World) (g' : Ghost) : Fact → Prop
  | .mine x => g.working x = some p → g'.working x = some p
  | .index i _ _ _ => w'.data i = w.data i ∧ g'.members i = g.members i ∧
      ∀ kind, (p, kind) ∈ w.locks i → (p, kind) ∈ w'.locks i
  | .linked i n => (∀ kind, (p, kind) ∈ w.locks i → (p, kind) ∈ w'.locks i) ∧
      w'.node .byName n = w.node .byName n
  | .own d x i _ => (g.working x = some p → g'.working x = some p) ∧ w'.data i = w.data i ∧
      w'.node d x = w.node d x
  | .absent d x => (g.working x = some p → g'.working x = some p) ∧ w'.node d x = w.node d x
  | _ => True

def Fact.file : Fact → Option Ino
  | .index i _ _ _ | .own _ _ i _ => some i
  | _ => none

def Fact.lock : Fact → Option Ino
  | .index i _ _ _ | .linked i _ => some i
  | _ => none

def Fact.place : Fact → Option (Dir × Bytes)
  | .linked _ n => some (.byName, n)
  | .own d x _ _ | .absent d x => some (d, x)
  | _ => none

section Frame
variable {t : Terms} {p : Pid} {w w' : World} {g g' : Ghost} {f : Fact}
  {descs descs' : Fd → Option Description} {held held' : List (Ino × LockKind)} {facts : List Fact}

theorem Fact.frame (later : Later w g w' g') (same : f.Unchanged p w g w' g')
    (holds : f.Holds t p w g) : f.Holds t p w' g' := by
  have mine : ∀ x, (g.working x = some p → g'.working x = some p) → Fact.Mine p w g x →
      Fact.Mine p w' g' x :=
    fun x kept own => ⟨kept own.1, later.drawnStill own.2⟩
  cases f with
  | role i d x => exact later.roles i _ holds
  | drawnFor x n => exact later.drawnFor holds
  | begun x => exact later.begun x holds
  | published n x => exact fun strict => later.published _ (holds strict)
  | mine x => exact fun fresh => mine x same (holds fresh)
  | index i n text ids =>
      obtain ⟨role, data, members, kind, locked⟩ := holds
      exact ⟨later.roles i _ role, same.1.trans data, same.2.1.trans members, kind, same.2.2 kind locked⟩
  | linked i n =>
      obtain ⟨role, writes, node⟩ := holds
      exact ⟨later.roles i _ role, same.1 _ writes, fun strict => same.2.trans (node strict)⟩
  | own d x i bytes =>
      obtain ⟨kind, role, known⟩ := holds
      refine ⟨kind, later.roles i _ role, fun fresh => ?_⟩
      obtain ⟨own, there⟩ := known fresh
      exact ⟨mine x same.1 own, there.imp (later.begun x) fun here =>
        ⟨same.2.2.trans here.1, same.2.1.trans here.2⟩⟩
  | absent d x =>
      refine ⟨holds.1, fun fresh => ?_⟩
      obtain ⟨own, node⟩ := holds.2 fresh
      exact ⟨mine x same.1 own, same.2.trans node⟩

theorem Session.next (session : Session t p descs held facts w g) (later : Later w g w' g')
    (new : List Fact) (kept : ∀ f ∈ facts, f.Unchanged p w g w' g')
    (learned : ∀ f ∈ new, f.Holds t p w' g') (ownDescs : w'.kernel.descOf p = descs')
    (ownLocks : ∀ i kind, (p, kind) ∈ w'.locks i ↔ (i, kind) ∈ held') :
    Session t p descs' held' (new ++ facts) w' g' := by
  refine ⟨ownDescs, ownLocks, fun f member => ?_⟩
  rcases List.mem_append.mp member with added | before
  · exact learned f added
  · exact Fact.frame later (kept f before) (session.facts f before)

end Frame

/-! ## Changes -/

section Changes
variable {t : Terms} {p : Pid} {w : World} {g : Ghost} {k' : Kernel} {i : Ino} {d : Dir} {x bytes : Bytes}

theorem Guar.relock (files : k'.files = w.kernel.files) (source : k'.source = w.kernel.source)
    (drawn : k'.drawn = w.kernel.drawn) (descs : ∀ q, q ≠ p → k'.descOf q = w.kernel.descOf q)
    (locks : ∀ q, q ≠ p → ∀ j kind, (q, kind) ∈ k'.locks j ↔ (q, kind) ∈ w.locks j) :
    Guar t p w g (w.after k') g := by
  constructor
  case toLater =>
    exact ⟨source, drawn.ge, congrArg Files.cwd files, fun _ _ role => role, fun _ _ => rfl,
      fun _ member => member, fun _ member => member⟩
  case descs => exact descs
  case locks => exact locks
  all_goals simp only [World.after, World.data, World.node, files]
  all_goals simp_all

theorem Core.relock (core : Core t w g) (files : k'.files = w.kernel.files)
    (source : k'.source = w.kernel.source) (drawn : k'.drawn = w.kernel.drawn)
    (fds : ∀ fd, k'.nextFd ≤ fd → k'.desc fd = none)
    (exclusive : ∀ i q, (q, LockKind.write) ∈ k'.locks i → ∀ held ∈ k'.locks i, held.1 = q)
    (index : ∀ i n, g.role i = some (.byName, n) → WriteFree (w.after k') i →
      w.data i = Records.render SEPARATOR (g.members i)) : Core t (w.after k') g := by
  constructor
  case fds => exact fds
  case exclusive => exact exclusive
  case index => simpa only [World.after, World.data, files] using index
  all_goals simp only [World.after, World.data, World.node, Drawn, DrawnFor, files, source, drawn]
  · exact core.sane
  · exact core.unborn
  · exact core.named
  · exact core.placed
  · exact core.ids
  · exact core.distinct
  · exact core.undrawn
  · exact core.slashless
  · exact core.listed
  · exact core.published

theorem Inv.quiet (inv : Inv t w g) (alike : Alike p w.kernel k') : Stepped t p w g (w.after k') g := by
  have guar : Guar t p w g (w.after k') g :=
    Guar.relock alike.files alike.source alike.drawn alike.descs fun _ _ _ _ => by rw [alike.locks]; rfl
  refine ⟨inv.of_core (inv.toCore.relock alike.files alike.source alike.drawn alike.fds ?_ ?_) guar rfl, guar⟩
  · rw [alike.locks]
    exact inv.exclusive
  · intro i n role free
    exact inv.index i n role fun q => by
      have unwritten := free q
      rwa [World.locks, World.after, alike.locks] at unwritten

theorem grant_locks {kind : LockKind} (alike : Alike p (w.kernel.grant p i kind) k')
    (none : ∀ kind, (p, kind) ∉ w.locks i) (j : Ino) (held : Pid × LockKind) :
    held ∈ k'.locks j ↔ held ∈ w.locks j ∨ j = i ∧ held = (p, kind) := by
  rw [alike.locks, Kernel.locks_grant]
  by_cases same : j = i
  · subst same
    have others : ((w.kernel.locks j).filter fun held => held.1 ≠ p) = w.locks j := by
      apply List.filter_eq_self.mpr
      intro other member
      simp only [ne_eq, decide_not, Bool.not_eq_eq_eq_not, Bool.not_true, decide_eq_false_iff_not]
      intro own
      exact none other.2 (by rw [← own]; exact member)
    rw [Function.update_self, others, List.mem_cons]
    simp [or_comm]
  · simp [same, World.locks]

theorem Inv.grant (inv : Inv t w g) {kind : LockKind} (alike : Alike p (w.kernel.grant p i kind) k')
    (free : w.kernel.conflicts p i kind = false) (none : ∀ kind, (p, kind) ∉ w.locks i) :
    Stepped t p w g (w.after k') g := by
  have locks := grant_locks alike none
  have compatible : ∀ held ∈ w.locks i, held.1 ≠ p → kind ≠ .write ∧ held.2 ≠ .write := by
    intro held member apart
    have conflict := List.any_eq_false.mp free held member
    simpa [apart] using conflict
  have guar : Guar t p w g (w.after k') g := by
    apply Guar.relock alike.files alike.source alike.drawn alike.descs
    intro q other j kind'
    rw [locks]
    simp [other]
  refine ⟨inv.of_core (inv.toCore.relock alike.files alike.source alike.drawn alike.fds ?_ ?_) guar rfl, guar⟩
  · intro j q writes held member
    rcases (locks j _).mp writes with before | ⟨rfl, new⟩
    · rcases (locks j _).mp member with earlier | ⟨rfl, rfl⟩
      · exact inv.exclusive j q before held earlier
      · by_contra apart
        exact (compatible _ before (Ne.symm apart)).2 rfl
    · cases new
      rcases (locks j _).mp member with earlier | ⟨_, rfl⟩
      · by_contra apart
        exact (compatible held earlier apart).1 rfl
      · rfl
  · intro j n role unwritten
    exact inv.index j n role fun q member => unwritten q ((locks j _).mpr (Or.inl member))

theorem release_locks (alike : Alike p (w.kernel.release p i) k') (j : Ino) (held : Pid × LockKind) :
    held ∈ k'.locks j ↔ held ∈ w.locks j ∧ (j = i → held.1 ≠ p) := by
  rw [alike.locks, Kernel.locks_release]
  by_cases same : j = i
  · subst same
    simp [World.locks]
  · simp [same, World.locks]

theorem Core.released (core : Core t w g) (alike : Alike p (w.kernel.release p i) k')
    (settled : ∀ n, g.role i = some (.byName, n) → (p, LockKind.write) ∈ w.locks i →
      w.data i = Records.render SEPARATOR (g.members i)) : Core t (w.after k') g := by
  have locks := release_locks alike
  refine core.relock alike.files alike.source alike.drawn alike.fds ?_ ?_
  · intro j q writes held member
    exact core.exclusive j q ((locks j _).mp writes).1 held ((locks j _).mp member).1
  · intro j n role unwritten
    -- the only file that may have become free to read is `i`
    by_cases own : j = i ∧ (p, LockKind.write) ∈ w.locks i
    · obtain ⟨rfl, writes⟩ := own
      exact settled n role writes
    · refine core.index j n role fun q member => unwritten q ((locks j _).mpr ⟨member, ?_⟩)
      rintro rfl rfl
      exact own ⟨rfl, member⟩

theorem Inv.release (inv : Inv t w g) (alike : Alike p (w.kernel.release p i) k')
    (unwritten : ∀ n, g.role i = some (.byName, n) → (p, LockKind.write) ∉ w.locks i) :
    Stepped t p w g (w.after k') g := by
  have guar : Guar t p w g (w.after k') g := by
    apply Guar.relock alike.files alike.source alike.drawn alike.descs
    intro q other j kind'
    rw [release_locks alike]
    simp [other]
  have core := inv.toCore.released alike fun n role writes => absurd writes (unwritten n role)
  exact ⟨inv.of_core core guar rfl, guar⟩

def Ghost.commit (g : Ghost) (i : Ino) (ids : List Bytes) (added : List (Bytes × Bytes)) : Ghost :=
  { g with members := Function.update g.members i ids, published := added ++ g.published }

theorem Core.commit (core : Core t w g) {n : Bytes} {ids : List Bytes} {added : List (Bytes × Bytes)}
    (role : g.role i = some (.byName, n)) (text : w.data i = Records.render SEPARATOR ids)
    (drawn : ∀ y ∈ ids, DrawnFor w.kernel g y n) (kept : ∀ y ∈ g.members i, y ∈ ids ∨ y ∈ w.begun)
    (linked : t.strict → ∀ e ∈ added, e.1 = n ∧ e.2 ∈ ids ∧ w.node .byName n = some (.file i)) :
    Core t w (g.commit i ids added) := by
  refine { core with index := ?_, listed := ?_, published := ?_ }
  · intro j m role' free
    by_cases same : j = i
    · subst same
      simpa [Ghost.commit] using text
    · simpa [Ghost.commit, same] using core.index j m role' free
  · intro j m role' y member
    by_cases same : j = i
    · subst same
      cases role.symm.trans role'
      exact drawn y (by simpa [Ghost.commit] using member)
    · exact core.listed j m role' y (by simpa [Ghost.commit, same] using member)
  · intro strict m y member spared
    rcases List.mem_append.mp member with new | before
    · obtain ⟨rfl, listed, node⟩ := linked strict _ new
      exact ⟨i, node, by simpa [Ghost.commit] using listed⟩
    -- an id that an index listed is kept in it or being removed
    · obtain ⟨j, node, listed⟩ := core.published strict m y before spared
      refine ⟨j, node, ?_⟩
      by_cases same : j = i
      · subst same
        simpa [Ghost.commit] using (kept y listed).resolve_right spared
      · simpa [Ghost.commit, same] using listed

/-- The write lock of an index is given back: from now on it lists what it holds. -/
theorem Inv.commit (inv : Inv t w g) (alike : Alike p (w.kernel.release p i) k') {n : Bytes}
    {ids : List Bytes} {added : List (Bytes × Bytes)} (role : g.role i = some (.byName, n))
    (writes : (p, LockKind.write) ∈ w.locks i) (text : w.data i = Records.render SEPARATOR ids)
    (drawn : ∀ y ∈ ids, DrawnFor w.kernel g y n) (kept : ∀ y ∈ g.members i, y ∈ ids ∨ y ∈ w.begun)
    (linked : t.strict → ∀ e ∈ added, e.1 = n ∧ e.2 ∈ ids ∧ w.node .byName n = some (.file i)) :
    Stepped t p w g (w.after k') (g.commit i ids added) := by
  have still : Guar t p w g (w.after k') g := by
    apply Guar.relock alike.files alike.source alike.drawn alike.descs
    intro q other j kind'
    rw [release_locks alike]
    simp [other]
  have guar : Guar t p w g (w.after k') (g.commit i ids added) := by
    refine { still with published := ?_, locked := ?_ }
    · exact fun e member => List.mem_append_right added (still.published e member)
    · intro j m role' unwritten
      refine ⟨(still.locked j m role' unwritten).1, Function.update_of_ne ?_ _ _⟩
      rintro rfl
      exact unwritten writes
  have core := inv.toCore.commit role text drawn kept linked
  refine ⟨inv.of_core (core.released alike fun m _ _ => ?_) guar rfl, guar⟩
  simpa [Ghost.commit] using text

/-- A call that moves no lock and draws nothing, whatever it does to the files. -/
structure Refile (p : Pid) (w : World) (k' : Kernel) : Prop where
  locks : ∀ i, (w.after k').locks i = w.locks i
  source : (w.after k').kernel.source = w.kernel.source
  drawn : (w.after k').kernel.drawn = w.kernel.drawn
  cwd : (w.after k').kernel.files.cwd = w.kernel.files.cwd
  descs : ∀ q, q ≠ p → (w.after k').kernel.descOf q = w.kernel.descOf q
  fds : ∀ fd, k'.nextFd ≤ fd → k'.desc fd = none

theorem Alike.refile {f : Files} (alike : Alike p (w.kernel.withFiles f) k') (cwd : f.cwd = w.kernel.files.cwd) :
    Refile p w k' :=
  ⟨fun i => congrFun alike.locks i, alike.source, alike.drawn, (congrArg Files.cwd alike.files).trans cwd,
    alike.descs, alike.fds⟩

theorem Guar.refile (refile : Refile p w k') {g' : Ghost} (roles : ∀ j r, g.role j = some r → g'.role j = some r)
    (label : g'.label = g.label) (published : g'.published = g.published) (working : g'.working = g.working)
    (locked : ∀ j n, g.role j = some (.byName, n) → (p, LockKind.write) ∉ w.locks j →
      (w.after k').data j = w.data j ∧ g'.members j = g.members j)
    (worked : t.fresh → ∀ j d x, g.role j = some (d, x) → d ≠ .byName → g.working x ≠ some p →
      (w.after k').data j = w.data j)
    (present : ∀ d x j, d ≠ .byName → x ∉ w.begun → w.node d x = some (.file j) →
      (w.after k').node d x = some (.file j))
    (absent : t.fresh → ∀ d x, d ≠ .byName → g.working x ≠ some p → w.node d x = none →
      (w.after k').node d x = none)
    (linked : t.strict → ∀ n j, w.node .byName n = some (.file j) → (p, LockKind.write) ∉ w.locks j →
      (w.after k').node .byName n = some (.file j)) : Guar t p w g (w.after k') g' where
  source := refile.source
  drawn := refile.drawn.ge
  cwd := refile.cwd
  roles := roles
  label m _ := congrFun label m
  begun _ member := member
  published := published ▸ fun _ member => member
  descs := refile.descs
  locks q _ j kind := by rw [refile.locks]
  working _ x _ _ := congrFun working x
  locked := locked
  worked := worked
  present := present
  absent := absent
  linked := linked

theorem Core.refile (core : Core t w g) (refile : Refile p w k') {g' : Ghost}
    (later : Later w g (w.after k') g') (sane : Sane (w.after k').kernel.files)
    (unborn : ∀ j, (w.after k').kernel.files.nextIno ≤ j → g'.role j = none)
    (named : ∀ d x j, (w.after k').node d x = some (.file j) → g'.role j = some (d, x))
    (placed : ∀ q j d x, g'.role j = some (d, x) → (w.after k').kernel.files.node q = some (.file j) →
      q = entry (w.after k').kernel.files d x)
    (undrawn : t.fresh → ∀ d x, d ≠ .byName → ¬ Drawn w.kernel x → (w.after k').node d x = none)
    (slashless : ∀ j x, g'.role j = some (.byId, x) → slash ∉ (w.after k').data j)
    (index : ∀ j n, g'.role j = some (.byName, n) → WriteFree w j →
      (w.after k').data j = Records.render SEPARATOR (g'.members j))
    (listed : ∀ j n, g'.role j = some (.byName, n) → ∀ x ∈ g'.members j, DrawnFor w.kernel g x n)
    (published : t.strict → ∀ n x, (n, x) ∈ g'.published → x ∉ w.begun →
      ∃ j, (w.after k').node .byName n = some (.file j) ∧ x ∈ g'.members j) : Core t (w.after k') g' where
  sane := sane
  fds := refile.fds
  unborn := unborn
  named := named
  placed := placed
  exclusive j q := by
    rw [refile.locks]
    exact core.exclusive j q
  ids m := by
    rw [refile.source]
    exact core.ids m
  distinct := by
    rw [refile.source, refile.drawn]
    exact core.distinct
  undrawn fresh d x other new := undrawn fresh d x other fun drawn => new (later.drawnStill drawn)
  slashless := slashless
  index j n role free := index j n role fun q member => free q (by rwa [refile.locks])
  listed j n role x member := later.drawnFor (listed j n role x member)
  published := published

/-! ### Writing -/

theorem after_data (alike : Alike p (w.kernel.setData i bytes) k') (j : Ino) :
    (w.after k').data j = if j = i then bytes else w.data j := by
  simp only [World.after, World.data, alike.files, Kernel.files_setData, Files.data_setData,
    Function.update_apply]

theorem after_node (alike : Alike p (w.kernel.setData i bytes) k') (d : Dir) (x : Bytes) :
    (w.after k').node d x = w.node d x := by
  simp only [World.after, World.node, alike.files]
  rfl

theorem Guar.setData (alike : Alike p (w.kernel.setData i bytes) k')
    (index : ∀ n, g.role i = some (.byName, n) → (p, LockKind.write) ∈ w.locks i)
    (working : t.fresh → ∀ d x, g.role i = some (d, x) → d ≠ .byName → g.working x = some p) :
    Guar t p w g (w.after k') g := by
  have node := after_node alike
  refine Guar.refile (alike.refile rfl) (fun _ _ role => role) rfl rfl rfl ?_ ?_ ?_ ?_ ?_
  · intro j n role unwritten
    rw [after_data alike, if_neg]
    · exact ⟨rfl, rfl⟩
    · rintro rfl
      exact unwritten (index n role)
  · intro fresh j d x role other foreign
    rw [after_data alike, if_neg]
    rintro rfl
    exact foreign (working fresh d x role other)
  · exact fun d x j _ _ file => (node d x).trans file
  · exact fun _ d x _ _ nothing => (node d x).trans nothing
  · exact fun _ n j file _ => (node .byName n).trans file

theorem Core.setData (core : Core t w g) (alike : Alike p (w.kernel.setData i bytes) k')
    (later : Later w g (w.after k') g)
    (index : ∀ n, g.role i = some (.byName, n) → (p, LockKind.write) ∈ w.locks i)
    (slashless : ∀ x, g.role i = some (.byId, x) → slash ∉ bytes) : Core t (w.after k') g := by
  have node := after_node alike
  have files : (w.after k').kernel.files = w.kernel.files.setData i bytes := alike.files
  refine core.refile (alike.refile rfl) later ?_ ?_ ?_ ?_ ?_ ?_ ?_ core.listed ?_
  · rw [files]
    exact core.sane.setData i bytes
  · rw [files]
    exact core.unborn
  · intro d x j file
    rw [node] at file
    exact core.named d x j file
  · rw [files]
    exact core.placed
  · intro fresh d x other undrawn
    rw [node]
    exact core.undrawn fresh d x other undrawn
  · intro j x role
    rw [after_data alike]
    split
    · rename_i same
      exact slashless x (same ▸ role)
    · exact core.slashless j x role
  · intro j n role free
    rw [after_data alike, if_neg]
    · exact core.index j n role free
    · rintro rfl
      exact free p (index n role)
  · intro strict n y member spared
    obtain ⟨j, file, listed⟩ := core.published strict n y member spared
    exact ⟨j, by rwa [node], listed⟩

/-- A file is written to: an index under its lock, a record with bytes that are no slash. -/
theorem Inv.setData (inv : Inv t w g) (alike : Alike p (w.kernel.setData i bytes) k')
    (index : ∀ n, g.role i = some (.byName, n) → (p, LockKind.write) ∈ w.locks i)
    (slashless : ∀ x, g.role i = some (.byId, x) → slash ∉ bytes)
    (working : t.fresh → ∀ d x, g.role i = some (d, x) → d ≠ .byName → g.working x = some p) :
    Stepped t p w g (w.after k') g := by
  have guar : Guar t p w g (w.after k') g := Guar.setData alike index working
  exact ⟨inv.of_core (inv.toCore.setData alike guar.toLater index slashless) guar rfl, guar⟩

/-! ### Creating -/

def Ghost.born (g : Ghost) (i : Ino) (d : Dir) (x : Bytes) : Ghost :=
  { g with role := Function.update g.role i (some (d, x)), members := Function.update g.members i [] }

section Born
variable {j : Ino}

theorem Core.born_before (core : Core t w g) {r : Dir × Bytes} (role : g.role j = some r) :
    j ≠ w.kernel.files.nextIno := by
  rintro rfl
  rw [core.unborn _ (Nat.le_refl _)] at role
  cases role

theorem Ghost.born_role (old : j ≠ i) : (g.born i d x).role j = g.role j := Function.update_of_ne old _ _

theorem Ghost.born_members (old : j ≠ i) : (g.born i d x).members j = g.members j := Function.update_of_ne old _ _

theorem Ghost.born_role_self : (g.born i d x).role i = some (d, x) := Function.update_self i _ g.role

theorem Ghost.born_members_self : (g.born i d x).members i = [] := Function.update_self i _ g.members

end Born

theorem after_create (alike : Alike p (w.kernel.create (entry w.kernel.files d x)) k') (d' : Dir) (x' : Bytes) :
    (w.after k').node d' x' =
      if d' = d ∧ x' = x then some (.file w.kernel.files.nextIno) else w.node d' x' := by
  have node := w.kernel.files.node_create (entry w.kernel.files d x) (Volume.entry_ne_nil _ _ _)
    (entry w.kernel.files d' x')
  simp only [Volume.entry_inj] at node
  simp only [World.after, World.node, alike.files]
  exact node

theorem created_data (alike : Alike p (w.kernel.create (entry w.kernel.files d x)) k') (j : Ino) :
    (w.after k').data j = if j = w.kernel.files.nextIno then [] else w.data j := by
  simp only [World.after, World.data, alike.files, Kernel.files_create, Files.data_create,
    Function.update_apply]

theorem created_file (alike : Alike p (w.kernel.create (entry w.kernel.files d x)) k')
    (absent : w.node d x = none) {d' : Dir} {x' : Bytes} {j : Ino} (file : w.node d' x' = some (.file j)) :
    (w.after k').node d' x' = some (.file j) := by
  rw [after_create alike, if_neg, file]
  rintro ⟨rfl, rfl⟩
  rw [absent] at file
  cases file

theorem Guar.create (core : Core t w g) (alike : Alike p (w.kernel.create (entry w.kernel.files d x)) k')
    (absent : w.node d x = none)
    (working : t.fresh → d ≠ .byName → g.working x = some p ∧ Drawn w.kernel x) :
    Guar t p w g (w.after k') (g.born w.kernel.files.nextIno d x) := by
  have data : ∀ {j r}, g.role j = some r → (w.after k').data j = w.data j := by
    intro j r role
    rw [created_data alike, if_neg (core.born_before role)]
  refine Guar.refile (alike.refile rfl) ?_ rfl rfl rfl ?_ ?_ ?_ ?_ ?_
  · exact fun j r role => (Ghost.born_role (core.born_before role)).trans role
  · exact fun j n role _ => ⟨data role, Ghost.born_members (core.born_before role)⟩
  · exact fun _ j d' x' role _ _ => data role
  · exact fun d' x' j _ _ file => created_file alike absent file
  · intro fresh d' x' other foreign nothing
    rw [after_create alike, if_neg, nothing]
    rintro ⟨rfl, rfl⟩
    exact foreign (working fresh other).1
  · exact fun _ n j file _ => created_file alike absent file

theorem Core.create_placed (core : Core t w g)
    (alike : Alike p (w.kernel.create (entry w.kernel.files d x)) k') {q : Path} {j : Ino} {d' : Dir} {x' : Bytes}
    (role : (g.born w.kernel.files.nextIno d x).role j = some (d', x'))
    (file : (w.after k').kernel.files.node q = some (.file j)) : q = entry (w.after k').kernel.files d' x' := by
  rw [show (w.after k').kernel.files = w.kernel.files.create (entry w.kernel.files d x) from alike.files] at file ⊢
  rw [Files.node_create _ _ (Volume.entry_ne_nil _ _ _)] at file
  by_cases born : j = w.kernel.files.nextIno
  · subst born
    cases Ghost.born_role_self.symm.trans role
    split at file
    · assumption
    · exact absurd (core.sane.sound.below _ _ file) (Nat.lt_irrefl _)
  · rw [Ghost.born_role born] at role
    split at file
    · cases file
      exact absurd rfl born
    · exact core.placed q j d' x' role file

theorem Core.create (core : Core t w g) (alike : Alike p (w.kernel.create (entry w.kernel.files d x)) k')
    (later : Later w g (w.after k') (g.born w.kernel.files.nextIno d x)) (absent : w.node d x = none)
    (drawn : t.fresh → d ≠ .byName → Drawn w.kernel x) :
    Core t (w.after k') (g.born w.kernel.files.nextIno d x) := by
  have files : (w.after k').kernel.files = w.kernel.files.create (entry w.kernel.files d x) := alike.files
  have node := after_create alike
  refine core.refile (alike.refile rfl) later ?_ ?_ ?_ ?_ ?_ ?_ ?_ ?_ ?_
  · rw [files]
    exact (Turns.create core.sane absent).sane
  · intro j above
    rw [files] at above
    rw [Ghost.born_role (Nat.ne_of_gt above)]
    exact core.unborn j (Nat.le_of_succ_le above)
  · intro d' x' j file
    rw [node] at file
    split at file
    · rename_i same
      cases file
      rw [same.1, same.2]
      exact Ghost.born_role_self
    · have role := core.named d' x' j file
      exact (Ghost.born_role (core.born_before role)).trans role
  · exact fun q j d' x' role file => core.create_placed alike role file
  · intro fresh d' x' other undrawn
    rw [node, if_neg]
    · exact core.undrawn fresh d' x' other undrawn
    · rintro ⟨rfl, rfl⟩
      exact undrawn (drawn fresh other)
  -- the new file is empty, and the others are as they were
  · intro j y role
    rw [created_data alike]
    split
    · exact List.not_mem_nil
    · rename_i old
      exact core.slashless j y (Ghost.born_role old ▸ role)
  · intro j n role free
    rw [created_data alike]
    split
    · rename_i born
      rw [born, Ghost.born_members_self]
      rfl
    · rename_i old
      rw [Ghost.born_members old]
      exact core.index j n (Ghost.born_role old ▸ role) free
  · intro j n role y member
    by_cases born : j = w.kernel.files.nextIno
    · rw [born, Ghost.born_members_self] at member
      cases member
    · rw [Ghost.born_members born] at member
      exact core.listed j n (Ghost.born_role born ▸ role) y member
  · intro strict n y member spared
    obtain ⟨j, file, listed⟩ := core.published strict n y member spared
    refine ⟨j, created_file alike absent file, ?_⟩
    rwa [Ghost.born_members (core.born_before (core.named .byName n j file))]

theorem Inv.create (inv : Inv t w g) (alike : Alike p (w.kernel.create (entry w.kernel.files d x)) k')
    (absent : w.node d x = none)
    (working : t.fresh → d ≠ .byName → g.working x = some p ∧ Drawn w.kernel x) :
    Stepped t p w g (w.after k') (g.born w.kernel.files.nextIno d x) := by
  have guar : Guar t p w g (w.after k') (g.born w.kernel.files.nextIno d x) :=
    Guar.create inv.toCore alike absent working
  have core := inv.toCore.create alike guar.toLater absent fun fresh other => (working fresh other).2
  exact ⟨inv.of_core core guar rfl, guar⟩

/-! ### Unlinking -/

theorem after_unlink (alike : Alike p (w.kernel.unlink (entry w.kernel.files d x)) k') (d' : Dir) (x' : Bytes) :
    (w.after k').node d' x' = if d' = d ∧ x' = x then none else w.node d' x' := by
  have node := w.kernel.files.node_unlink (entry w.kernel.files d x) (Volume.entry_ne_nil _ _ _)
    (entry w.kernel.files d' x')
  simp only [Volume.entry_inj] at node
  simp only [World.after, World.node, alike.files]
  exact node

theorem unlinked_data (alike : Alike p (w.kernel.unlink (entry w.kernel.files d x)) k') (j : Ino) :
    (w.after k').data j = w.data j := by
  simp only [World.after, World.data, alike.files]
  rfl

theorem Guar.unlink (alike : Alike p (w.kernel.unlink (entry w.kernel.files d x)) k')
    (begun : d ≠ .byName → x ∈ w.begun)
    (index : t.strict → d = .byName → ∀ i, w.node d x = some (.file i) → (p, LockKind.write) ∈ w.locks i) :
    Guar t p w g (w.after k') g := by
  have node := after_unlink alike
  refine Guar.refile (alike.refile rfl) (fun _ _ role => role) rfl rfl rfl ?_ ?_ ?_ ?_ ?_
  · exact fun j _ _ _ => ⟨unlinked_data alike j, rfl⟩
  · exact fun _ j _ _ _ _ _ => unlinked_data alike j
  · intro d' x' j other spared file
    rw [node, if_neg, file]
    rintro ⟨rfl, rfl⟩
    exact spared (begun other)
  · intro _ d' x' _ _ nothing
    rw [node, nothing, ite_self]
  · intro strict n j file unwritten
    rw [node, if_neg, file]
    rintro ⟨rfl, rfl⟩
    exact unwritten (index strict rfl j file)

theorem Core.unlink (core : Core t w g) (alike : Alike p (w.kernel.unlink (entry w.kernel.files d x)) k')
    (later : Later w g (w.after k') g)
    (index : t.strict → d = .byName → ∀ i, w.node d x = some (.file i) → ∀ y ∈ g.members i, y ∈ w.begun) :
    Core t (w.after k') g := by
  have node := after_unlink alike
  have files : (w.after k').kernel.files = w.kernel.files.unlink (entry w.kernel.files d x) := alike.files
  refine core.refile (alike.refile rfl) later ?_ ?_ ?_ ?_ ?_ ?_ ?_ core.listed ?_
  · rw [files]
    exact (Turns.unlink core.sane).sane
  · rw [files]
    exact core.unborn
  · intro d' x' j file
    rw [node] at file
    split at file
    · cases file
    · exact core.named d' x' j file
  · intro q j d' x' role file
    rw [files] at file ⊢
    rw [Files.node_unlink _ _ (Volume.entry_ne_nil _ _ _)] at file
    split at file
    · cases file
    · exact core.placed q j d' x' role file
  · intro fresh d' x' other undrawn
    rw [node, core.undrawn fresh d' x' other undrawn, ite_self]
  · intro j y role
    rw [unlinked_data alike]
    exact core.slashless j y role
  · intro j n role free
    rw [unlinked_data alike]
    exact core.index j n role free
  · intro strict n y member spared
    obtain ⟨j, file, listed⟩ := core.published strict n y member spared
    refine ⟨j, ?_, listed⟩
    rw [node, if_neg, file]
    rintro ⟨rfl, rfl⟩
    exact spared (index strict rfl j file y listed)

theorem Inv.unlink (inv : Inv t w g) (alike : Alike p (w.kernel.unlink (entry w.kernel.files d x)) k')
    (begun : d ≠ .byName → x ∈ w.begun)
    (index : t.strict → d = .byName → ∀ i, w.node d x = some (.file i) →
      (p, LockKind.write) ∈ w.locks i ∧ ∀ y ∈ g.members i, y ∈ w.begun) :
    Stepped t p w g (w.after k') g := by
  -- An entry is taken away: of an id whose removal has begun, or of an index that lists no other
  -- id.
  have guar : Guar t p w g (w.after k') g :=
    Guar.unlink alike begun fun strict byName i file => (index strict byName i file).1
  have core := inv.toCore.unlink alike guar.toLater fun strict byName i file => (index strict byName i file).2
  exact ⟨inv.of_core core guar rfl, guar⟩

/-! ### Drawing -/

/-- What the ghost says once `p` has drawn an id for a store under `n`. -/
def Ghost.draw (g : Ghost) (k : Kernel) (p : Pid) (n : Bytes) : Ghost :=
  { g with
    label := Function.update g.label k.drawn n
    working := Function.update g.working (k.source k.drawn) (some p) }

theorem Inv.draw (inv : Inv t w g) (alike : Alike p w.kernel.nextDraw k') (n : Bytes)
    (new : t.fresh → ∀ m, m < w.kernel.drawn → w.kernel.source m ≠ w.kernel.source w.kernel.drawn) :
    Stepped t p w g (w.after k') (g.draw w.kernel p n) := by
  have core := inv.toCore
  have files : (w.after k').kernel.files = w.kernel.files := alike.files
  have locks : ∀ j, (w.after k').locks j = w.locks j := fun j => congrFun alike.locks j
  have drawn : (w.after k').kernel.drawn = w.kernel.drawn + 1 := alike.drawn
  have source : (w.after k').kernel.source = w.kernel.source := alike.source
  have guar : Guar t p w g (w.after k') (g.draw w.kernel p n) := by
    constructor
    case toLater =>
      refine ⟨source, drawn ▸ Nat.le_succ _, congrArg Files.cwd files, fun _ _ role => role,
        fun m before => Function.update_of_ne (Nat.ne_of_lt before) _ _, fun _ member => member,
        fun _ member => member⟩
    case descs => exact alike.descs
    case locks =>
      intro q _ j kind
      rw [locks]
    case working =>
      rintro fresh x ⟨m, before, rfl⟩ _
      exact Function.update_of_ne (new fresh m before) _ _
    all_goals simp only [World.data, World.node, files]
    all_goals simp_all [Ghost.draw]
  refine ⟨inv.of_core ?_ guar rfl, guar⟩
  constructor
  case fds => exact alike.fds
  case ids =>
    intro m
    rw [source]
    exact core.ids m
  case distinct =>
    rw [source, drawn]
    intro fresh m n below upto
    -- the draws before differ, and the new one differs from each of them
    rcases Nat.lt_or_eq_of_le (Nat.le_of_lt_succ upto) with before | rfl
    · exact core.distinct fresh m n below before
    · exact new fresh m below
  case undrawn =>
    intro fresh d x other undrawn
    simp only [World.node, files]
    exact core.undrawn fresh d x other fun earlier => undrawn (guar.drawnStill earlier)
  case listed => exact fun j m role y member => guar.drawnFor (core.listed j m role y member)
  case exclusive =>
    intro j q
    rw [locks]
    exact core.exclusive j q
  case index =>
    intro j m role free
    simp only [World.data, files]
    refine core.index j m role fun q member => free q ?_
    rwa [locks]
  all_goals simp only [World.data, World.node, files]
  · exact core.sane
  · exact core.unborn
  · exact core.named
  · exact core.placed
  · exact core.slashless
  · exact core.published

end Changes

/-! ## What a change leaves to be known -/

section Unchanged
variable {t : Terms} {p : Pid} {w : World} {g : Ghost} {k' : Kernel} {i : Ino} {d : Dir} {x bytes : Bytes}
  {f : Fact}

theorem Fact.Unchanged.of {w' : World} {g' : Ghost}
    (working : ∀ x, g.working x = some p → g'.working x = some p)
    (data : ∀ j, f.file = some j → w'.data j = w.data j)
    (members : ∀ j, f.lock = some j → g'.members j = g.members j)
    (locks : ∀ j, f.lock = some j → ∀ kind, (p, kind) ∈ w.locks j → (p, kind) ∈ w'.locks j)
    (node : ∀ d x, f.place = some (d, x) → w'.node d x = w.node d x) : f.Unchanged p w g w' g' := by
  cases f with
  | mine x => exact working x
  | index j n text ids => exact ⟨data j rfl, members j rfl, locks j rfl⟩
  | linked j n => exact ⟨locks j rfl, node .byName n rfl⟩
  | own d x j bytes => exact ⟨working x, data j rfl, node d x rfl⟩
  | absent d x => exact ⟨working x, node d x rfl⟩
  | _ => trivial

theorem Fact.Holds.known {j : Ino} (holds : f.Holds t p w g) (spoken : f.file = some j ∨ f.lock = some j) :
    ∃ r, g.role j = some r := by
  cases f with
  | index j n text ids =>
      rcases spoken with file | lock
      · cases file
        exact ⟨_, holds.1⟩
      · cases lock
        exact ⟨_, holds.1⟩
  | linked j n =>
      rcases spoken with file | lock
      · cases file
      · cases lock
        exact ⟨_, holds.1⟩
  | own d x j bytes =>
      rcases spoken with file | lock
      · cases file
        exact ⟨_, holds.2.1⟩
      · cases lock
  | _ => rcases spoken with file | lock <;> contradiction

theorem Refile.kept (refile : Refile p w k') {q : Pid} {j : Ino} {kind : LockKind} (held : (q, kind) ∈ w.locks j) :
    (q, kind) ∈ (w.after k').locks j := by
  rwa [refile.locks]

theorem unchanged_files {g' : Ghost} (files : k'.files = w.kernel.files)
    (working : ∀ x, g.working x = some p → g'.working x = some p)
    (members : ∀ j, f.lock = some j → g'.members j = g.members j)
    (locks : ∀ j, f.lock = some j → ∀ kind, (p, kind) ∈ w.locks j → (p, kind) ∈ k'.locks j) :
    f.Unchanged p w g (w.after k') g' := by
  -- Where the files are as they were, only locks can be lost.
  refine Fact.Unchanged.of working ?_ members locks ?_
  · intro j _
    simp only [World.data, World.after, files]
  · intro d x _
    simp only [World.node, World.after, files]

theorem unchanged_quiet (alike : Alike p w.kernel k') : f.Unchanged p w g (w.after k') g := by
  apply unchanged_files alike.files (fun _ => id) (fun _ _ => rfl)
  intro j _ kind held
  rw [alike.locks]
  exact held

theorem unchanged_grant {kind : LockKind} (alike : Alike p (w.kernel.grant p i kind) k')
    (none : ∀ kind, (p, kind) ∉ w.locks i) : f.Unchanged p w g (w.after k') g :=
  unchanged_files alike.files (fun _ => id) (fun _ _ => rfl) fun j _ _ held =>
    (grant_locks alike none j _).mpr (Or.inl held)

theorem unchanged_commit (alike : Alike p (w.kernel.release p i) k') (apart : f.lock ≠ some i)
    {ids : List Bytes} {added : List (Bytes × Bytes)} :
    f.Unchanged p w g (w.after k') (g.commit i ids added) := by
  have other : ∀ j, f.lock = some j → j ≠ i := by
    rintro j lock rfl
    exact apart lock
  refine unchanged_files alike.files (fun _ => id) ?_ ?_
  · exact fun j lock => Function.update_of_ne (other j lock) _ _
  · exact fun j lock _ held => (release_locks alike j _).mpr ⟨held, fun same => absurd same (other j lock)⟩

theorem unchanged_release (alike : Alike p (w.kernel.release p i) k') (apart : f.lock ≠ some i) :
    f.Unchanged p w g (w.after k') g := by
  have kept : f.Unchanged p w g (w.after k') (g.commit i (g.members i) []) := unchanged_commit alike apart
  have same : g.commit i (g.members i) [] = g := by
    simp [Ghost.commit]
  rwa [same] at kept

theorem unchanged_setData (alike : Alike p (w.kernel.setData i bytes) k') (apart : f.file ≠ some i) :
    f.Unchanged p w g (w.after k') g := by
  refine Fact.Unchanged.of (fun _ => id) ?_ (fun _ _ => rfl) (fun _ _ _ => (alike.refile rfl).kept) ?_
  · intro j file
    rw [after_data alike, if_neg]
    rintro rfl
    exact apart file
  · exact fun d x _ => after_node alike d x

theorem unchanged_create (core : Core t w g)
    (alike : Alike p (w.kernel.create (entry w.kernel.files d x)) k') (apart : f.place ≠ some (d, x))
    (holds : f.Holds t p w g) :
    f.Unchanged p w g (w.after k') (g.born w.kernel.files.nextIno d x) := by
  have old : ∀ j, f.file = some j ∨ f.lock = some j → j ≠ w.kernel.files.nextIno := by
    intro j spoken
    obtain ⟨r, role⟩ := holds.known spoken
    exact core.born_before role
  refine Fact.Unchanged.of (fun _ => id) ?_ ?_ (fun _ _ _ => (alike.refile rfl).kept) ?_
  · intro j file
    rw [created_data alike, if_neg (old j (Or.inl file))]
  · exact fun j lock => Ghost.born_members (old j (Or.inr lock))
  · intro d' x' place
    rw [after_create alike, if_neg]
    rintro ⟨rfl, rfl⟩
    exact apart place

theorem unchanged_unlink (alike : Alike p (w.kernel.unlink (entry w.kernel.files d x)) k')
    (apart : f.place ≠ some (d, x)) : f.Unchanged p w g (w.after k') g := by
  refine Fact.Unchanged.of (fun _ => id) (fun j _ => unlinked_data alike j) (fun _ _ => rfl)
    (fun _ _ _ => (alike.refile rfl).kept) ?_
  intro d' x' place
  rw [after_unlink alike, if_neg]
  rintro ⟨rfl, rfl⟩
  exact apart place

theorem unchanged_draw (alike : Alike p w.kernel.nextDraw k') (n : Bytes) :
    f.Unchanged p w g (w.after k') (g.draw w.kernel p n) := by
  refine unchanged_files alike.files ?_ (fun _ _ => rfl) fun j _ kind held => ?_
  · intro x own
    simp only [Ghost.draw, Function.update_apply]
    split
    · rfl
    · exact own
  · rw [alike.locks]
    exact held

end Unchanged

end Sfsdb.Processes

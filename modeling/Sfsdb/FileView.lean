import Sfsdb.Posix

/-!
Kernel states seen through what file programs rely on: which paths are
directories, what the files hold, who holds locks, and where a descriptor
stands. Every elementary change of a kernel state has one lemma for each of
these views, so that longer runs are followed by rewriting.
-/

namespace Sfsdb.Posix

namespace Files

variable (f : Files) (ino : Ino) (path : Path) (bytes : Bytes)

@[simp] theorem node_setData : (f.setData ino bytes).node = f.node := rfl

@[simp] theorem data_setData : (f.setData ino bytes).data = Function.update f.data ino bytes := rfl

@[simp] theorem data_create : (f.create path).data = Function.update f.data f.nextIno [] := rfl

@[simp] theorem data_unlink : (f.unlink path).data = f.data := rfl

theorem node_create (fresh : path ≠ []) (q : Path) :
    (f.create path).node q = if q = path then some (.file f.nextIno) else f.node q := by
  by_cases root : q = []
  · subst root
    simp [node, Ne.symm fresh]
  · by_cases same : q = path
    · simp [node, create, same, fresh]
    · have other : (q == path) = false := by simpa using same
      simp [node, create, root, same, List.lookup_cons, other]

theorem lookup_filter (entries : List (Path × Node)) (q : Path) :
    (entries.filter fun entry => entry.1 ≠ path).lookup q =
      if q = path then none else entries.lookup q := by
  induction entries with
  | nil => simp
  | cons entry entries ih =>
      obtain ⟨name, node⟩ := entry
      by_cases gone : name = path
      · subst gone
        by_cases same : q = name
        · simpa [same] using ih
        · have other : (q == name) = false := by simpa using same
          simpa [List.lookup_cons, same, other] using ih
      · by_cases same : q = name
        · subst same
          simp [gone]
        · have other : (q == name) = false := by simpa using same
          simpa [gone, List.lookup_cons, other] using ih

theorem node_unlink (linked : path ≠ []) (q : Path) :
    (f.unlink path).node q = if q = path then none else f.node q := by
  by_cases root : q = []
  · subst root
    simp [node, Ne.symm linked]
  · simpa [node, unlink, root] using lookup_filter path f.tree q

/-! ## Paths into known directories -/

theorem resolve_cstr {path path' : Bytes} (same : cstr path = cstr path') :
    f.resolve path = f.resolve path' := by
  rw [resolve, resolve, same]

theorem walk_through (here : Path) (names rest : List Bytes) (more : rest ≠ [])
    (plain : ∀ n ∈ names, n ≠ dot ∧ n ≠ dotdot)
    (dirs : ∀ front, front ≠ [] → front <+: names → f.node (here ++ front) = some .dir) :
    walk f.node here (names ++ rest) = walk f.node (here ++ names) rest := by
  induction names generalizing here with
  | nil => simp
  | cons n names ih =>
      have present : f.node (here ++ [n]) = some .dir := dirs [n] (by simp) (by simp)
      have tail := ih (here ++ [n]) (fun m member => plain m (List.mem_cons_of_mem n member))
        (fun front some pre => by
          have deeper := dirs (n :: front) (by simp) (by simpa using pre)
          simpa using deeper)
      rw [List.cons_append, walk_dir f.node here n _ (plain n List.mem_cons_self) present
        (by simp [more]), tail]
      simp

theorem walk_dirs (here : Path) (names : List Bytes) (name : Bytes)
    (plain : ∀ n ∈ names, n ≠ dot ∧ n ≠ dotdot) (final : name ≠ dot ∧ name ≠ dotdot)
    (dirs : ∀ front, front ≠ [] → front <+: names → f.node (here ++ front) = some .dir) :
    walk f.node here (names ++ [name]) = .ok (here ++ names ++ [name]) := by
  rw [f.walk_through here names [name] (by simp) plain dirs]
  exact walk_last f.node (here ++ names) name final

theorem walk_target (here : Path) (names : List Bytes) (name : Bytes)
    (plain : ∀ n ∈ names, n ≠ dot ∧ n ≠ dotdot) (final : name ≠ dot ∧ name ≠ dotdot) {q : Path}
    (walked : walk f.node here (names ++ [name]) = .ok q) : q = here ++ names ++ [name] := by
  induction names generalizing here with
  | nil =>
      rw [List.nil_append, walk_last f.node here name final] at walked
      cases walked
      simp
  | cons n names ih =>
      have head := plain n List.mem_cons_self
      obtain ⟨next, rest, more⟩ : ∃ next rest, names ++ [name] = next :: rest := by
        cases names <;> exact ⟨_, _, rfl⟩
      rw [List.cons_append, more, walk, if_neg head.1, if_neg head.2, ← more] at walked
      cases node : f.node (here ++ [n]) with
      | none => simp [node] at walked
      | some found =>
          cases found with
          | file i => simp [node] at walked
          | dir =>
              rw [node] at walked
              have tail := ih (here ++ [n]) (fun m member => plain m (List.mem_cons_of_mem n member)) walked
              simpa using tail

theorem resolve_walk (names : List Bytes) (name : Bytes) (some : names ≠ [])
    (plain : ∀ n ∈ names, PlainName n) (final : PlainName name) :
    f.resolve (Records.render slash names ++ name) = walk f.node f.cwd (names ++ [name]) := by
  have free : 0 ∉ Records.render slash names ++ name := by
    intro member
    simp only [Records.render, List.mem_append, List.mem_flatMap, List.mem_singleton] at member
    rcases member with ⟨n, inside, here | here⟩ | here
    · exact (plain n inside).2.2.1 here
    · exact absurd here (by decide)
    · exact final.2.2.1 here
  obtain ⟨first, rest, rfl⟩ := List.exists_cons_of_ne_nil some
  have head := plain first List.mem_cons_self
  have relative : (Records.render slash (first :: rest) ++ name).head? ≠ .some slash := by
    obtain ⟨b, more, rfl⟩ := List.exists_cons_of_ne_nil head.1
    intro same
    simp only [Records.render_cons, List.cons_append, List.head?_cons, Option.some.injEq] at same
    exact head.2.1 (by simp [same])
  have nonempty : Records.render slash (first :: rest) ++ name ≠ [] := by
    simp
  rw [resolve, cstr_of_free _ free, if_neg nonempty, if_neg relative,
    components_render _ _ (fun n member => ⟨(plain n member).1, (plain n member).2.1⟩) final.1,
    components_plain name final]

theorem resolve_child (names : List Bytes) (name : Bytes) (some : names ≠ [])
    (plain : ∀ n ∈ names, PlainName n) (final : PlainName name)
    (dirs : ∀ front, front ≠ [] → front <+: names → f.node (f.cwd ++ front) = .some .dir) :
    f.resolve (Records.render slash names ++ name) = .ok (f.cwd ++ names ++ [name]) := by
  rw [f.resolve_walk names name some plain final]
  exact f.walk_dirs f.cwd names name (fun n member => (plain n member).2.2.2) final.2.2.2 dirs

/-! ## Contents -/

def content (q : Path) : Option Bytes :=
  match f.node q with
  | some (.file i) => some (f.data i)
  | _ => none

/-- No two names of one file, and only inodes already handed out. -/
structure Sound : Prop where
  single : ∀ q q' i, f.node q = some (.file i) → f.node q' = some (.file i) → q = q'
  below : ∀ q i, f.node q = some (.file i) → i < f.nextIno

variable {f}

theorem content_of_file {q : Path} {i : Ino} (file : f.node q = some (.file i)) :
    f.content q = some (f.data i) := by
  simp [content, file]

theorem Sound.setData (sound : f.Sound) : (f.setData ino bytes).Sound :=
  ⟨sound.single, sound.below⟩

theorem Sound.create (sound : f.Sound) (fresh : path ≠ []) : (f.create path).Sound := by
  constructor
  · intro q q' i left right
    rw [node_create f path fresh] at left right
    by_cases a : q = path <;> by_cases b : q' = path <;> simp only [a, b, ↓reduceIte] at left right ⊢
    · cases left
      exact absurd (sound.below q' _ right) (Nat.lt_irrefl _)
    · cases right
      exact absurd (sound.below q _ left) (Nat.lt_irrefl _)
    · exact sound.single q q' i left right
  · intro q i file
    rw [node_create f path fresh] at file
    change i < f.nextIno + 1
    by_cases same : q = path
    · simp only [same, ↓reduceIte, Option.some.injEq, Node.file.injEq] at file
      exact file ▸ Nat.lt_succ_self f.nextIno
    · simp only [same, ↓reduceIte] at file
      exact Nat.lt_succ_of_lt (sound.below q i file)

theorem Sound.unlink (sound : f.Sound) (linked : path ≠ []) : (f.unlink path).Sound := by
  have kept : ∀ q i, (f.unlink path).node q = some (.file i) → f.node q = some (.file i) := by
    intro q i file
    rw [node_unlink f path linked] at file
    by_cases same : q = path
    · simp [same] at file
    · simpa [same] using file
  exact ⟨fun q q' i left right => sound.single q q' i (kept q i left) (kept q' i right),
    fun q i file => sound.below q i (kept q i file)⟩

theorem content_setData (bytes : Bytes) (sound : f.Sound) {q : Path} {i : Ino} (file : f.node q = some (.file i))
    (q' : Path) :
    (f.setData i bytes).content q' = if q' = q then some bytes else f.content q' := by
  by_cases same : q' = q
  · subst same
    simp [content, file]
  · simp only [content, node_setData, same, ↓reduceIte]
    cases other : f.node q' with
    | none => rfl
    | some node =>
        cases node with
        | dir => rfl
        | file j =>
            have distinct : j ≠ i := by
              rintro rfl
              exact same (sound.single q' q j other file)
            simp [distinct]

theorem content_create (sound : f.Sound) (fresh : path ≠ []) (q : Path) :
    (f.create path).content q = if q = path then some [] else f.content q := by
  by_cases same : q = path
  · simp [content, node_create f path fresh, same]
  · simp only [content, node_create f path fresh, same, ↓reduceIte]
    cases other : f.node q with
    | none => rfl
    | some node =>
        cases node with
        | dir => rfl
        | file j =>
            have old : j ≠ f.nextIno := Nat.ne_of_lt (sound.below q j other)
            simp [old]

theorem content_unlink (linked : path ≠ []) (q : Path) :
    (f.unlink path).content q = if q = path then none else f.content q := by
  by_cases same : q = path
  · simp [content, node_unlink f path linked, same]
  · simp [content, node_unlink f path linked, same]

end Files

namespace Kernel

variable (k : Kernel) (p : Pid) (fd : Fd) (ino : Ino) (path : Path) (bytes : Bytes)
  (d : Description) (pos : Nat) (kind : LockKind)

/-! ## Descriptors and locks -/

@[simp] theorem files_withFiles (f : Files) : (k.withFiles f).files = f := rfl
@[simp] theorem files_nextDraw : k.nextDraw.files = k.files := rfl
@[simp] theorem files_addDesc : (k.addDesc d).files = k.files := rfl
@[simp] theorem files_setPos : (k.setPos fd d pos).files = k.files := rfl
@[simp] theorem files_dropDesc : (k.dropDesc fd).files = k.files := rfl
@[simp] theorem files_release : (k.release p ino).files = k.files := rfl
@[simp] theorem files_grant : (k.grant p ino kind).files = k.files := rfl
@[simp] theorem files_setData : (k.setData ino bytes).files = k.files.setData ino bytes := rfl
@[simp] theorem files_create : (k.create path).files = k.files.create path := rfl
@[simp] theorem files_unlink : (k.unlink path).files = k.files.unlink path := rfl

theorem locks_grant : (k.grant p ino kind).locks =
    Function.update k.locks ino ((p, kind) :: (k.locks ino).filter fun held => held.1 ≠ p) := rfl

theorem locks_release : (k.release p ino).locks =
    Function.update k.locks ino ((k.locks ino).filter fun held => held.1 ≠ p) := rfl

@[simp] theorem locks_withFiles (f : Files) : (k.withFiles f).locks = k.locks := rfl
@[simp] theorem locks_nextDraw : k.nextDraw.locks = k.locks := rfl
@[simp] theorem locks_setData : (k.setData ino bytes).locks = k.locks := rfl
@[simp] theorem locks_addDesc : (k.addDesc d).locks = k.locks := rfl
@[simp] theorem locks_setPos : (k.setPos fd d pos).locks = k.locks := rfl
@[simp] theorem locks_dropDesc : (k.dropDesc fd).locks = k.locks := rfl
@[simp] theorem locks_create : (k.create path).locks = k.locks := rfl
@[simp] theorem locks_unlink : (k.unlink path).locks = k.locks := rfl

@[simp] theorem nextFd_withFiles (f : Files) : (k.withFiles f).nextFd = k.nextFd := rfl
@[simp] theorem nextFd_nextDraw : k.nextDraw.nextFd = k.nextFd := rfl
@[simp] theorem nextFd_setData : (k.setData ino bytes).nextFd = k.nextFd := rfl
@[simp] theorem nextFd_addDesc : (k.addDesc d).nextFd = k.nextFd + 1 := rfl
@[simp] theorem nextFd_setPos : (k.setPos fd d pos).nextFd = k.nextFd := rfl
@[simp] theorem nextFd_dropDesc : (k.dropDesc fd).nextFd = k.nextFd := rfl
@[simp] theorem nextFd_release : (k.release p ino).nextFd = k.nextFd := rfl
@[simp] theorem nextFd_grant : (k.grant p ino kind).nextFd = k.nextFd := rfl
@[simp] theorem nextFd_create : (k.create path).nextFd = k.nextFd := rfl
@[simp] theorem nextFd_unlink : (k.unlink path).nextFd = k.nextFd := rfl

@[simp] theorem descOf_withFiles (f : Files) : (k.withFiles f).descOf p fd = k.descOf p fd := rfl
@[simp] theorem descOf_nextDraw : k.nextDraw.descOf p fd = k.descOf p fd := rfl
@[simp] theorem descOf_setData : (k.setData ino bytes).descOf p fd = k.descOf p fd := rfl
@[simp] theorem descOf_release (q : Pid) : (k.release q ino).descOf p fd = k.descOf p fd := rfl
@[simp] theorem descOf_grant (q : Pid) : (k.grant q ino kind).descOf p fd = k.descOf p fd := rfl
@[simp] theorem descOf_create : (k.create path).descOf p fd = k.descOf p fd := rfl
@[simp] theorem descOf_unlink : (k.unlink path).descOf p fd = k.descOf p fd := rfl

variable {k p fd d}

/-- Every lock there is belongs to `p`, so no call of `p` waits. -/
def Alone (p : Pid) (k : Kernel) : Prop := ∀ i, ∀ held ∈ k.locks i, held.1 = p

@[simp] theorem alone_withFiles (f : Files) : Alone p (k.withFiles f) ↔ Alone p k := Iff.rfl
@[simp] theorem alone_nextDraw : Alone p k.nextDraw ↔ Alone p k := Iff.rfl
@[simp] theorem alone_setData (bytes : Bytes) : Alone p (k.setData ino bytes) ↔ Alone p k := Iff.rfl
@[simp] theorem alone_addDesc (d : Description) : Alone p (k.addDesc d) ↔ Alone p k := Iff.rfl
@[simp] theorem alone_setPos : Alone p (k.setPos fd d pos) ↔ Alone p k := Iff.rfl
@[simp] theorem alone_dropDesc : Alone p (k.dropDesc fd) ↔ Alone p k := Iff.rfl

theorem descOf_addDesc (own : d.pid = p) (fd : Fd) :
    (k.addDesc d).descOf p fd = if fd = k.nextFd then some d else k.descOf p fd := by
  by_cases same : fd = k.nextFd <;> simp [descOf, addDesc, same, own]

theorem descOf_setPos (own : d.pid = p) (other : Fd) :
    (k.setPos fd d pos).descOf p other =
      if other = fd then some { d with pos := pos } else k.descOf p other := by
  by_cases same : other = fd <;> simp [descOf, setPos, same, own]

theorem descOf_dropDesc (other : Fd) :
    (k.dropDesc fd).descOf p other = if other = fd then none else k.descOf p other := by
  by_cases same : other = fd <;> simp [descOf, dropDesc, same]

theorem descOf_pid (found : k.descOf p fd = some d) : d.pid = p := by
  unfold descOf at found
  split at found
  · split at found
    · rename_i own
      cases found
      exact own
    · cases found
  · cases found

theorem Alone.free (alone : Alone p k) (i : Ino) (kind : LockKind) :
    k.conflicts p i kind = false := by
  simp only [conflicts, List.any_eq_false]
  intro held member
  simp [alone i held member]

theorem Alone.grant (alone : Alone p k) (i : Ino) (kind : LockKind) :
    Alone p (k.grant p i kind) := by
  intro j held member
  rw [locks_grant] at member
  by_cases same : j = i
  · subst same
    simp only [Function.update_self, List.mem_cons, List.mem_filter] at member
    rcases member with new | ⟨old, _⟩
    · rw [new]
    · exact alone _ held old
  · rw [Function.update_of_ne same] at member
    exact alone j held member

theorem Alone.release (alone : Alone p k) (i j : Ino) :
    (k.release p i).locks j = if j = i then [] else k.locks j := by
  rw [locks_release]
  by_cases same : j = i
  · subst same
    simp only [Function.update_self, ↓reduceIte, List.filter_eq_nil_iff]
    intro held member
    simp [alone _ held member]
  · simp [same]

theorem setPos_setPos (d' : Description) (next : Nat) :
    (k.setPos fd d pos).setPos fd d' next = k.setPos fd d' next := by
  simp [setPos]

theorem setPos_setData (i : Ino) (bytes : Bytes) (pos : Nat) :
    (k.setPos fd d pos).setData i bytes = (k.setData i bytes).setPos fd d pos := rfl

theorem setData_setData (i : Ino) (first second : Bytes) :
    (k.setData i first).setData i second = k.setData i second := by
  simp [setData, withFiles, Files.setData]

theorem release_release (i : Ino) : (k.release p i).release p i = k.release p i := by
  simp [release]

/-! ## The streams of a process -/

def said (k : Kernel) (p : Pid) (bytes : Bytes) : Kernel :=
  { k with sent := Function.update k.sent p (k.sent p ++ bytes) }

def hears (k : Kernel) (p : Pid) (rest : Bytes) : Kernel :=
  { k with inbox := Function.update k.inbox p rest }

@[simp] theorem said_sent (bytes : Bytes) : (k.said p bytes).sent p = k.sent p ++ bytes :=
  Function.update_self ..

@[simp] theorem hears_inbox (rest : Bytes) : (k.hears p rest).inbox p = rest :=
  Function.update_self ..

@[simp] theorem said_inbox (bytes : Bytes) : (k.said p bytes).inbox = k.inbox := rfl

@[simp] theorem hears_sent (rest : Bytes) : (k.hears p rest).sent = k.sent := rfl

theorem said_said (first second : Bytes) :
    (k.said p first).said p second = k.said p (first ++ second) := by
  simp [said]

theorem said_nothing : k.said p [] = k := by
  simp [said]

theorem hears_hears (first second : Bytes) : (k.hears p first).hears p second = k.hears p second := by
  simp [hears]

theorem hears_same : k.hears p (k.inbox p) = k := by
  simp [hears]

theorem overwrite_end (old bytes : Bytes) : overwrite old old.length bytes = old ++ bytes := by
  simp [overwrite]

end Kernel

namespace Kernel

/-! ## What a call can do -/

/-- What a call of `p` can do to the state it finds. -/
inductive Update (p : Pid) (k : Kernel) : Call → Kernel → Prop where
  | same {c : Call} : Update p k c k
  | drew : Update p k .draw k.nextDraw
  | opened {path : Bytes} {mode : Flags} {f : Files} {ino : Option Ino} :
      (mode.creat = false → mode.trunc = false → f = k.files) →
      Update p k (.open path mode) ((k.withFiles f).addDesc ⟨p, ino, mode, 0⟩)
  | locked {fd : Fd} {kind : LockKind} {d : Description} {i : Ino} :
      k.descOf p fd = some d → d.ino = some i → Update p k (.lock fd kind) (k.grant p i kind)
  | unlocked {fd : Fd} {d : Description} {i : Ino} :
      k.descOf p fd = some d → d.ino = some i → Update p k (.unlock fd) (k.release p i)
  | read {fd : Fd} {len pos : Nat} {d : Description} :
      k.descOf p fd = some d → Update p k (.read fd len) (k.setPos fd d pos)
  | sought {fd : Fd} {offset : Int} {d : Description} {pos : Nat} :
      k.descOf p fd = some d → Update p k (.seek fd offset) (k.setPos fd d pos)
  | wrote {fd : Fd} {bytes text : Bytes} {d : Description} {i : Ino} {pos : Nat} :
      k.descOf p fd = some d → d.ino = some i →
      Update p k (.write fd bytes) ((k.setData i text).setPos fd d pos)
  | cut {fd : Fd} {len : Nat} {text : Bytes} {d : Description} {i : Ino} :
      k.descOf p fd = some d → d.ino = some i →
      Update p k (.ftruncate fd len) (k.setData i text)
  | closed {fd : Fd} {d : Description} :
      k.descOf p fd = some d → d.ino = none → Update p k (.close fd) (k.dropDesc fd)
  | freed {fd : Fd} {d : Description} {i : Ino} :
      k.descOf p fd = some d → d.ino = some i →
      Update p k (.close fd) ((k.release p i).dropDesc fd)
  | removed {path : Bytes} {q : Path} : Update p k (.remove path) (k.unlink q)
  | mapped {fd : Fd} {len next : Nat} {maps : Nat → Option Mapping} :
      Update p k (.mmap fd len) { k with maps := maps, nextMap := next }
  | unmapped {map : Nat} {maps : Nat → Option Mapping} :
      Update p k (.munmap map) { k with maps := maps }
  | sent {bytes : Bytes} : Update p k (.send bytes) (k.said p bytes)
  | received {len : Nat} {rest : Bytes} : Update p k (.recv len) (k.hears p rest)
  | hungUp : Update p k .disconnect (k.hears p [])

variable {k k' : Kernel} {p : Pid}

theorem exec_snd {α : Type} {r : α} {pair : α × Kernel}
    (answered : some pair = some (r, k')) : k' = pair.2 := by
  rw [Option.some.inj answered]

theorem exec_update {c : Call} {r : Resp c} (answered : k.exec p c = some (r, k')) :
    Update p k c k' := by
  -- By cases on the call: every branch of its function is one of the updates.
  cases c with
  | lock fd kind =>
      simp only [exec, lockFile] at answered
      repeat' split at answered
      all_goals cases answered
      all_goals first | exact .same | exact .locked ‹_› ‹_›
  | recv len =>
      simp only [exec] at answered
      split at answered
      all_goals cases answered
      all_goals exact .received
  | _ =>
      simp only [exec, Option.some.injEq] at answered
      obtain rfl : _ = k' := congrArg Prod.snd answered
      try dsimp only [openFile, unlockFile, readFile, writeFile, tellFile, seekFile, truncateFile,
        closeFile, removeFile, mapFile]
      repeat' split
      all_goals first
        | exact .same
        | exact .drew
        | exact .opened fun _ _ => rfl
        | exact .opened (by simp_all)
        | exact .unlocked ‹_› ‹_›
        | exact .read ‹_›
        | exact .sought ‹_›
        | exact .wrote ‹_› ‹_›
        | exact .cut ‹_› ‹_›
        | exact .closed ‹_› ‹_›
        | exact .freed ‹_› ‹_›
        | exact .removed
        | exact .mapped
        | exact .unmapped
        | exact .sent
        | exact .hungUp

theorem exec_sent {c : Call} {r : Resp c} (quiet : ∀ bytes, c ≠ .send bytes)
    (answered : k.exec p c = some (r, k')) : k'.sent = k.sent := by
  cases exec_update answered with
  | sent => exact absurd rfl (quiet _)
  | _ => rfl

theorem exec_source {c : Call} {r : Resp c} (answered : k.exec p c = some (r, k')) :
    k'.source = k.source := by
  cases exec_update answered <;> rfl

theorem exec_short {c : Call} {r : Resp c} (answered : k.exec p c = some (r, k')) :
    k'.short = k.short := by
  cases exec_update answered <;> rfl

theorem runs_throws {α : Type} {program : Prog α} {value : α} (run : Runs p program k value k')
    (throws : k.Throws) : k'.Throws := by
  refine Program.runs_invariant Throws (fun c s r t answered throws => ?_) run throws
  intro len bytes less
  rw [exec_short answered]
  exact throws len bytes less

def Reading : Call → Prop
  | .open _ mode => mode.creat = false ∧ mode.trunc = false
  | .write _ _ | .ftruncate _ _ | .remove _ => False
  | _ => True

theorem exec_files {c : Call} {r : Resp c} (reading : Reading c)
    (answered : k.exec p c = some (r, k')) : k'.files = k.files := by
  cases exec_update answered with
  | opened same => exact same reading.1 reading.2
  | wrote | cut | removed => exact reading.elim
  | _ => rfl

theorem MayDo.sent {c : Call} {r : Resp c} (quiet : ∀ bytes, c ≠ .send bytes)
    (step : MayDo p c k r k') : k'.sent = k.sent := by
  rcases step with answered | ⟨rfl, _⟩
  · exact exec_sent quiet answered
  · rfl

theorem MayDo.files {c : Call} {r : Resp c} (reading : Reading c) (step : MayDo p c k r k') :
    k'.files = k.files := by
  rcases step with answered | ⟨rfl, _⟩
  · exact exec_files reading answered
  · rfl

theorem MayDo.said {bytes : Bytes} {r : Except Unit Unit} (step : MayDo p (.send bytes) k r k') :
    r = .ok () ∧ k' = k.said p bytes := by
  rcases step with answered | ⟨_, ⟨⟩⟩
  cases answered
  exact ⟨rfl, rfl⟩

theorem MayDo.loaded {map len : Nat} {r : Bytes} (step : MayDo p (.load map len) k r k') :
    r = k.loadMap map len ∧ k' = k := by
  rcases step with answered | ⟨_, ⟨⟩⟩
  cases answered
  exact ⟨rfl, rfl⟩

theorem loadMap_file {map : Nat} {i : Ino} {len : Nat} (mapped : k.maps map = some ⟨p, i, len⟩) :
    k.loadMap map (k.files.data i).length = k.files.data i := by
  simp [loadMap, mapped]

end Kernel

theorem send_runs (p : Pid) (k : Kernel) (bytes : Bytes) :
    Runs p (Sys.send bytes) k (.ok ()) (k.said p bytes) :=
  Program.runs_issue_iff.mpr rfl

theorem recv_exec {p : Pid} {k : Kernel} {front rest : Bytes} (inbox : k.inbox p = front ++ rest) :
    k.exec p (.recv front.length) = some (.ok front, k.hears p rest) := by
  have enough : ¬ (front ++ rest).length < front.length := by
    rw [List.length_append]
    omega
  simp only [Kernel.exec, inbox, if_neg enough, List.take_left, List.drop_left]
  rfl

theorem recv_runs {p : Pid} {k : Kernel} {front rest : Bytes} (inbox : k.inbox p = front ++ rest) :
    Runs p (Sys.recv front.length) k (.ok front) (k.hears p rest) :=
  Program.runs_issue_iff.mpr (recv_exec inbox)

theorem recv_failed {p : Pid} {k : Kernel} {len : Nat} (throws : k.Throws) (short : (k.inbox p).length < len) :
    Runs p (Sys.recv len) k (.error ()) (k.hears p []) := by
  apply Program.runs_issue_iff.mpr
  simp [Kernel.Does, Kernel.exec, short, throws len _ short, Kernel.hears]

/-- The one outcome of a program: it ends, with this value, in this state. -/
def Gives {α : Type} (p : Pid) (program : Prog α) (k : Kernel) (value : α) (k' : Kernel) : Prop :=
  ∀ v t, Runs p program k v t ↔ v = value ∧ t = k'

theorem Gives.unique {α : Type} {p : Pid} {program : Prog α} {k k₁ k₂ : Kernel} {v₁ v₂ : α}
    (first : Gives p program k v₁ k₁) (second : Gives p program k v₂ k₂) : v₁ = v₂ :=
  ((second v₁ k₁).mp ((first v₁ k₁).mpr ⟨rfl, rfl⟩)).1

/-- The calls have one outcome each, so one run is all there is. -/
theorem gives_of_runs {α : Type} {p : Pid} {program : Prog α} {k k' : Kernel} {value : α}
    (run : Runs p program k value k') : Gives p program k value k' := by
  intro v t
  constructor
  · intro other
    refine Program.runs_deterministic ?_ other run
    intro c s r₁ t₁ r₂ t₂ first second
    have same := first.symm.trans second
    simpa using same
  · rintro ⟨rfl, rfl⟩
    exact run

end Sfsdb.Posix

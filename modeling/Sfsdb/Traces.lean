import Sfsdb.AnyPath
import Sfsdb.Frame

/-!
What every run of a stream operation, a store or a removal makes of the files,
in any tree: the three directories need not be there and a path may lead
anywhere. `Sees` is what a process knows of the state, its files and its own
descriptors; a run of one operation takes it to the next. Locks do not occur in
it, since a run that was made to wait for one is no run to the end.
-/

namespace Sfsdb

open Posix

namespace Posix

def Files.opens (f : Files) (path : Bytes) (mode : Flags) : Except Errno (Option Ino × Files) :=
  match f.resolve path with
  | .error e => .error e
  | .ok q => match f.node q with
    | some .dir => if mode.write || mode.creat then .error EISDIR else .ok (none, f)
    | some (.file i) => .ok (some i, if mode.trunc && mode.write then f.setData i [] else f)
    | none => if mode.creat then .ok (some f.nextIno, f.create q) else .error ENOENT

theorem Kernel.openFile_eq (k : Kernel) (p : Pid) (path : Bytes) (mode : Flags) :
    k.openFile p path mode =
      match k.files.opens path mode with
      | .error e => (.error e, k)
      | .ok (ino, f) => (.ok k.nextFd, (k.withFiles f).addDesc ⟨p, ino, mode, 0⟩) := by
  unfold Kernel.openFile Files.opens
  cases resolved : k.files.resolve path with
  | error e => rfl
  | ok q =>
      cases node : k.files.node q with
      | none =>
          cases mode.creat
          · simp only [node, Bool.false_eq_true, ↓reduceIte]
          · simp only [node, ↓reduceIte]
            rfl
      | some found =>
          cases found with
          | dir =>
              cases mode.write || mode.creat
              · simp only [node, Bool.false_eq_true, ↓reduceIte]
                rfl
              · simp only [node, ↓reduceIte]
          | file i =>
              cases mode.trunc && mode.write
              · simp only [node, Bool.false_eq_true, ↓reduceIte]
                rfl
              · simp only [node, ↓reduceIte]
                rfl

namespace Files

variable {f f' : Files} {path path' : Bytes} {mode : Flags} {ino : Option Ino} {q q' : Path} {i j : Ino}

/-- What can be written to is a file, as it was before or emptied, or a new one. -/
inductive Opened (f : Files) (mode : Flags) (q : Path) : Ino → Files → Prop where
  | whole {i : Ino} : f.node q = some (.file i) → mode.trunc = false → Opened f mode q i f
  | emptied {i : Ino} : f.node q = some (.file i) → mode.trunc = true →
      Opened f mode q i (f.setData i [])
  | created : f.node q = none → mode.creat = true → Opened f mode q f.nextIno (f.create q)

theorem opens_writing (opened : f.opens path mode = .ok (ino, f')) (writes : mode.write = true) :
    ∃ q i, ino = some i ∧ f.resolve path = .ok q ∧ Opened f mode q i f' := by
  unfold opens at opened
  cases resolved : f.resolve path with
  | error e => simp [resolved] at opened
  | ok q =>
      rw [resolved] at opened
      cases node : f.node q with
      | none =>
          simp only [node] at opened
          split at opened
          · rename_i creates
            cases opened
            exact ⟨q, _, rfl, rfl, Opened.created node creates⟩
          · cases opened
      | some found =>
          cases found with
          -- a directory is not opened for writing
          | dir => simp [node, writes] at opened
          | file i =>
              simp only [node, writes, Bool.and_true] at opened
              cases opened
              refine ⟨q, i, rfl, rfl, ?_⟩
              split
              · exact Opened.emptied node ‹_›
              · exact Opened.whole node (by simpa using ‹¬ mode.trunc = true›)

namespace Opened

theorem ne_nil (opened : Opened f mode q i f') : q ≠ [] := by
  rintro rfl
  cases opened with
  | whole file | emptied file => simp [node] at file
  | created absent => simp [node] at absent

theorem node_self (opened : Opened f mode q i f') : f'.node q = some (.file i) := by
  have linked := opened.ne_nil
  cases opened with
  | whole file => exact file
  | emptied file => exact file
  | created absent => rw [node_create _ _ linked, if_pos rfl]

theorem node_file (opened : Opened f mode q i f') (file : f.node q' = some (.file j)) :
    f'.node q' = some (.file j) := by
  have linked := opened.ne_nil
  cases opened with
  | whole => exact file
  | emptied => exact file
  | created absent =>
      rw [node_create _ _ linked, if_neg, file]
      rintro rfl
      rw [absent] at file
      cases file

theorem dirs (opened : Opened f mode q i f') : Volume.SameDirs f f' := by
  have linked := opened.ne_nil
  cases opened with
  | whole => exact Volume.SameDirs.refl f
  | emptied => exact Volume.SameDirs.setData f i []
  | created absent => exact Volume.SameDirs.create q linked absent

theorem sound (opened : Opened f mode q i f') (sound : f.Sound) : f'.Sound := by
  have linked := opened.ne_nil
  cases opened with
  | whole => exact sound
  | emptied => exact sound.setData i []
  | created => exact sound.create q linked

theorem data_empty (opened : Opened f mode q i f') (cuts : mode.trunc = true) : f'.data i = [] := by
  cases opened with
  | whole _ whole => simp [whole] at cuts
  | emptied => simp
  | created => simp

end Opened
end Files
end Posix

namespace Volume

open Storage

theorem runs_source {α : Type} {p : Pid} {program : Prog α} {k k' : Kernel} {value : α}
    (run : Runs p program k value k') : k'.source = k.source :=
  Program.runs_invariant (fun s => s.source = k.source)
    (fun _ _ _ _ answered same => (Kernel.exec_source answered).trans same) run rfl

/-! ## What a process sees -/

/-- The files and the descriptors of `p`; numbers yet to be handed out stand for nothing. -/
structure Sees (p : Pid) (k : Kernel) (f : Files) (D : Fd → Option Description) : Prop where
  files : k.files = f
  descs : k.descOf p = D
  tabled : Tabled k

section Sees
variable {p : Pid} {k k' : Kernel} {f f' : Files} {D : Fd → Option Description} {s s' : Flstream}
  {fd : Fd} {d : Description} {i : Ino}

theorem Sees.free (sees : Sees p k f D) : D k.nextFd = none := by
  rw [← sees.descs]
  simp [Kernel.descOf, sees.tabled k.nextFd (Nat.le_refl _)]

theorem Sees.new (sees : Sees p k f D) {path : Bytes} {mode : Flags}
    (run : Runs p (Flstream.new path mode) k s k') :
    (∃ e, f.opens path mode = .error e ∧ s = ⟨none, e⟩ ∧ s.fail = true ∧ Sees p k' f D) ∨
    ∃ fd ino f', f.opens path mode = .ok (ino, f') ∧ s = ⟨some fd, 0⟩ ∧ D fd = none ∧
      Sees p k' f' (Function.update D fd (some ⟨p, ino, mode, 0⟩)) := by
  obtain ⟨r, middle, opens, rest⟩ := Program.runs_bind_split run
  have answered : k.exec p (.open path mode) = some (r, middle) := Program.runs_issue_iff.mp opens
  have tabled := exec_tabled answered sees.tabled
  have opened : k.openFile p path mode = (r, middle) := Option.some.inj answered
  rw [k.openFile_eq, sees.files] at opened
  cases found : f.opens path mode with
  | error e =>
      rw [found] at opened
      cases opened
      cases rest
      refine Or.inl ⟨e, rfl, rfl, ?_, sees⟩
      have failed : k.openFile p path mode = (.error e, k) := by
        rw [k.openFile_eq, sees.files, found]
      exact (Flstream.fail_iff none e).mpr (open_error failed).1
  | ok result =>
      obtain ⟨ino, f'⟩ := result
      rw [found] at opened
      cases opened
      cases rest
      refine Or.inr ⟨k.nextFd, ino, f', rfl, rfl, sees.free, rfl, ?_, tabled⟩
      funext fd
      rw [Kernel.descOf_addDesc rfl, ← sees.descs]
      by_cases own : fd = k.nextFd
      · simp [own]
      · simp [own]

theorem Sees.unseen (sees : Sees p k f D) {c : Call} {r : Resp c} (answered : k.exec p c = some (r, k'))
    (kind : (∃ fd kind, c = .lock fd kind) ∨ (∃ fd, c = .unlock fd) ∨ c = .draw) : Sees p k' f D := by
  have tabled := exec_tabled answered sees.tabled
  rcases kind with ⟨fd, kind, rfl⟩ | ⟨fd, rfl⟩ | rfl <;>
    cases Kernel.exec_update answered <;> exact ⟨sees.files, sees.descs, tabled⟩

theorem Sees.lock (sees : Sees p k f D) {kind : LockKind} (run : Runs p (s.lock kind) k s' k') :
    s'.fd = s.fd ∧ Sees p k' f D := by
  unfold Flstream.lock at run
  split at run
  · cases run
    exact ⟨rfl, sees⟩
  · obtain ⟨r, middle, locks, rest⟩ := Program.runs_bind_split run
    cases rest
    refine ⟨Flstream.outcome_follows s r, sees.unseen (Program.runs_issue_iff.mp locks) ?_⟩
    exact Or.inl ⟨_, _, rfl⟩

theorem Sees.close (sees : Sees p k f D) (run : Runs p s.close k s' k') :
    ∃ D', Sees p k' f D' ∧ ∀ fd, s.fd ≠ some fd → D' fd = D fd := by
  obtain ⟨s₁, k₁, unlocks, rest⟩ := Program.runs_bind_split run
  have unlocked : s₁.fd = s.fd ∧ Sees p k₁ f D := by
    unfold Flstream.unlockFile at unlocks
    split at unlocks
    · cases unlocks
      exact ⟨rfl, sees⟩
    · obtain ⟨r, middle, issued, final⟩ := Program.runs_bind_split unlocks
      cases final
      exact ⟨Flstream.outcome_follows s r,
        sees.unseen (Program.runs_issue_iff.mp issued) (Or.inr (Or.inl ⟨_, rfl⟩))⟩
  obtain ⟨same, sees₁⟩ := unlocked
  split at rest
  · cases rest
    exact ⟨D, sees₁, fun _ _ => rfl⟩
  · split at rest
    · cases rest
      exact ⟨D, sees₁, fun _ _ => rfl⟩
    · rename_i fd own
      obtain ⟨r, middle, issued, final⟩ := Program.runs_bind_split rest
      cases final
      have answered : k₁.exec p (.close fd) = some (r, k') := Program.runs_issue_iff.mp issued
      have tabled := exec_tabled answered sees₁.tabled
      have kept : ∀ k₂ : Kernel, k₂.desc = k₁.desc → ∀ other, s.fd ≠ some other →
          (k₂.dropDesc fd).descOf p other = D other := by
        intro k₂ descs other apart
        rw [Kernel.descOf_dropDesc, if_neg, ← sees₁.descs]
        · simp only [Kernel.descOf, descs]
        · rintro rfl
          exact apart (same ▸ own)
      -- the call may fail, or drop the descriptor with its lock or without
      refine ⟨k'.descOf p, ?_⟩
      cases Kernel.exec_update answered with
      | same => exact ⟨⟨sees₁.files, rfl, tabled⟩, fun other _ => by rw [sees₁.descs]⟩
      | closed => exact ⟨⟨sees₁.files, rfl, tabled⟩, kept k₁ rfl⟩
      | freed => exact ⟨⟨sees₁.files, rfl, tabled⟩, kept _ rfl⟩

def writesAt (f : Files) (d : Description) (i : Ino) : Nat :=
  if d.flags.append then (f.data i).length else d.pos

theorem Sees.write (sees : Sees p k f D) {bytes : Bytes} (run : Runs p (s.write bytes) k s' k')
    (own : s.fd = some fd) (found : D fd = some d) (ino : d.ino = some i) (writes : d.flags.write = true) :
    s'.fd = some fd ∧ Sees p k' (f.setData i (overwrite (f.data i) (writesAt f d i) bytes))
      (Function.update D fd (some { d with pos := writesAt f d i + bytes.length })) := by
  unfold Flstream.write at run
  rw [own] at run
  obtain ⟨r, middle, issued, final⟩ := Program.runs_bind_split run
  cases final
  have answered : k.exec p (.write fd bytes) = some (r, k') := Program.runs_issue_iff.mp issued
  have tabled := exec_tabled answered sees.tabled
  have there : k.descOf p fd = some d := by rw [sees.descs, found]
  simp only [Kernel.exec, Kernel.writeFile, there, writes, Bool.not_true, Bool.false_eq_true,
    ↓reduceIte, ino, Option.some.injEq, Prod.mk.injEq] at answered
  obtain ⟨_, rfl⟩ := answered
  refine ⟨(Flstream.outcome_follows s r).trans own, ?_, ?_, tabled⟩
  · simp only [Kernel.files_setPos, Kernel.files_setData, sees.files]
    rfl
  · funext other
    rw [Kernel.descOf_setPos _ (Kernel.descOf_pid there), Kernel.descOf_setData, sees.descs]
    by_cases same : other = fd
    · subst same
      simp [writesAt, sees.files]
    · simp [same]

theorem overwrite_overwrite (old : Bytes) (pos : Nat) (first second : Bytes) :
    overwrite (overwrite old pos first) (pos + first.length) second =
      overwrite old pos (first ++ second) := by
  -- everything in front of `pos`, filled up with zeros
  generalize front_eq : old.take pos ++ List.replicate (pos - old.length) 0 = front
  have size : front.length = pos := by
    rw [← front_eq, List.length_append, List.length_take, List.length_replicate]
    omega
  have laid : ∀ bytes, overwrite old pos bytes = front ++ (bytes ++ old.drop (pos + bytes.length)) := by
    intro bytes
    rw [overwrite, front_eq, List.append_assoc]
  have reached : (front ++ first).length = pos + first.length := by
    rw [List.length_append, size]
  have before : overwrite old pos first = (front ++ first) ++ old.drop (pos + first.length) := by
    rw [laid, List.append_assoc]
  have gapless : pos + first.length - (overwrite old pos first).length = 0 := by
    rw [before, List.length_append, reached]
    omega
  have rest : (overwrite old pos first).drop (pos + first.length + second.length) =
      old.drop (pos + (first ++ second).length) := by
    rw [before, ← reached, List.drop_append, List.drop_of_length_le (by omega), List.drop_drop]
    simp only [List.nil_append, List.length_append, size]
    congr 1
    omega
  rw [laid (first ++ second), overwrite, rest, gapless, before, ← reached, List.take_left]
  simp

theorem Sees.writeRecord (sees : Sees p k f D) {record : Bytes} {separator : Byte}
    (run : Runs p (s.writeRecord record separator) k s' k') (own : s.fd = some fd)
    (found : D fd = some d) (ino : d.ino = some i) (writes : d.flags.write = true) :
    s'.fd = some fd ∧
      Sees p k' (f.setData i (overwrite (f.data i) (writesAt f d i) (record ++ [separator])))
        (Function.update D fd (some { d with pos := writesAt f d i + (record.length + 1) })) := by
  obtain ⟨s₁, k₁, first, second⟩ := Program.runs_bind_split run
  obtain ⟨own₁, sees₁⟩ := sees.write first own found ino writes
  obtain ⟨own₂, sees₂⟩ := sees₁.write second own₁ (Function.update_self ..) ino writes
  -- the second write starts where the first has ended, appending or not
  have next : writesAt (f.setData i (overwrite (f.data i) (writesAt f d i) record))
      { d with pos := writesAt f d i + record.length } i = writesAt f d i + record.length := by
    unfold writesAt
    split
    · simp [Kernel.overwrite_end]
    · rfl
  rw [next] at sees₂
  exact ⟨own₂, by simpa [overwrite_overwrite, Files.setData, Nat.add_assoc] using sees₂⟩

theorem Sees.setPos (sees : Sees p k f D) (found : k.descOf p fd = some d) (pos : Nat) :
    (k.setPos fd d pos).descOf p fd = some { d with pos := pos } ∧
      Sees p (k.setPos fd d pos) f (Function.update D fd (some { d with pos := pos })) := by
  have own := Kernel.descOf_pid found
  have below : fd < k.nextFd := by
    by_contra above
    simp [Kernel.descOf, sees.tabled fd (Nat.le_of_not_lt above)] at found
  refine ⟨by rw [Kernel.descOf_setPos _ own, if_pos rfl], sees.files, ?_, fun other above => ?_⟩
  · funext other
    rw [Kernel.descOf_setPos _ own, sees.descs]
    by_cases same : other = fd <;> simp [same]
  · change Function.update k.desc fd _ other = none
    rw [Function.update_of_ne (Nat.ne_of_gt (below.trans_le above))]
    exact sees.tabled other above

theorem Sees.setData (sees : Sees p k f D) (i : Ino) (bytes : Bytes) :
    Sees p (k.setData i bytes) (f.setData i bytes) D :=
  ⟨by rw [Kernel.files_setData, sees.files], sees.descs, sees.tabled⟩

theorem Sees.looks {α : Type} (sees : Sees p k f D) {program : Prog α} {R : α → Prop} {value : α}
    (holds : Footprint.looking.Holds R program) (run : Runs p program k value k') :
    R value ∧ ∃ D', Sees p k' f D' := by
  obtain ⟨returned, files⟩ := holds.looks (run.mono fun _ _ _ _ => Or.inl)
  refine ⟨returned, k'.descOf p, files.trans sees.files, rfl, ?_⟩
  exact Program.runs_invariant Tabled (fun _ _ _ _ answered => exec_tabled answered) run sees.tabled

end Sees

/-! ## Stores -/

def filed (id name : Bytes) (i j : Ino) (f : Files) : Files :=
  let lined := f.setData i (f.data i ++ (id ++ [SEPARATOR]))
  lined.setData j (overwrite (lined.data j) 0 (name ++ [SEPARATOR]))

structure Begun (id name : Bytes) (f : Files) (i j : Ino) (f₁ f₂ : Files) : Prop where
  index : f.opens (NAME_DIR ++ name) CREATE_NAME = .ok (some i, f₁)
  recorded : f₁.opens (ID_DIR ++ id) CREATE_FILE = .ok (some j, f₂)

/-- How a store ends and what it leaves, by which of its files could be opened. -/
inductive StoreTrace (id name data : Bytes) (f : Files) : Except Error Bytes → Files → Prop where
  | noIndex {e : Errno} : f.opens (NAME_DIR ++ name) CREATE_NAME = .error e →
      StoreTrace id name data f (.error (.ofErrno e)) f
  | noRecord {i : Ino} {f₁ : Files} {e : Errno} :
      f.opens (NAME_DIR ++ name) CREATE_NAME = .ok (some i, f₁) →
      f₁.opens (ID_DIR ++ id) CREATE_FILE = .error e →
      StoreTrace id name data f (.error (.ofErrno e)) f₁
  | noData {i j : Ino} {f₁ f₂ : Files} {e : Errno} {err : Error} : Begun id name f i j f₁ f₂ →
      (filed id name i j f₂).opens (DATA_DIR ++ id) CREATE_FILE = .error e →
      StoreTrace id name data f (.error err) (filed id name i j f₂)
  | stored {i j l : Ino} {f₁ f₂ f₃ : Files} : Begun id name f i j f₁ f₂ →
      (filed id name i j f₂).opens (DATA_DIR ++ id) CREATE_FILE = .ok (some l, f₃) →
      StoreTrace id name data f (.ok id) (f₃.setData l data)

section Stores
variable {p : Pid} {k k' : Kernel} {f f' f₁ f₂ : Files} {D : Fd → Option Description}
  {id name data : Bytes} {i j : Ino}

/-- How `create` ends; an error of its last open is not noticed. -/
inductive CreateTrace (id name : Bytes) (f : Files) : Except Error Bytes → Files → Prop where
  | noIndex {e : Errno} : f.opens (NAME_DIR ++ name) CREATE_NAME = .error e →
      CreateTrace id name f (.error (.ofErrno e)) f
  | noRecord {i : Ino} {f₁ : Files} {e : Errno} :
      f.opens (NAME_DIR ++ name) CREATE_NAME = .ok (some i, f₁) →
      f₁.opens (ID_DIR ++ id) CREATE_FILE = .error e →
      CreateTrace id name f (.error (.ofErrno e)) f₁
  | noData {i j : Ino} {f₁ f₂ : Files} {e : Errno} : Begun id name f i j f₁ f₂ →
      (filed id name i j f₂).opens (DATA_DIR ++ id) CREATE_FILE = .error e →
      CreateTrace id name f (.ok id) (filed id name i j f₂)
  | made {i j l : Ino} {f₁ f₂ f₃ : Files} : Begun id name f i j f₁ f₂ →
      (filed id name i j f₂).opens (DATA_DIR ++ id) CREATE_FILE = .ok (some l, f₃) →
      CreateTrace id name f (.ok id) f₃

theorem opens_some {path : Bytes} {mode : Flags} {ino : Option Ino}
    (opened : f.opens path mode = .ok (ino, f')) (writes : mode.write = true) : ∃ i, ino = some i := by
  obtain ⟨_, i, same, _⟩ := Files.opens_writing opened writes
  exact ⟨i, same⟩

theorem filed_eq (id name : Bytes) (i j : Ino) (f : Files) :
    let lined := f.setData i (overwrite (f.data i) (writesAt f ⟨p, some i, CREATE_NAME, 0⟩ i)
      (id ++ [SEPARATOR]))
    lined.setData j (overwrite (lined.data j) (writesAt lined ⟨p, some j, CREATE_FILE, 0⟩ j)
      (name ++ [SEPARATOR])) = filed id name i j f := by
  have atEnd : writesAt f ⟨p, some i, CREATE_NAME, 0⟩ i = (f.data i).length := rfl
  simp only [atEnd, Kernel.overwrite_end]
  rfl

theorem create_trace (sees : Sees p k f D) {r : Except Error Bytes}
    (run : Runs p (create name) k r k') :
    ∃ f' D', Sees p k' f' D' ∧ CreateTrace (k.source k.drawn) name f r f' := by
  obtain ⟨id, _, draws, run⟩ := Program.runs_bind_split run
  have drew : k.exec p .draw = some (id, _) := Program.runs_issue_iff.mp draws
  have sees := sees.unseen drew (Or.inr (Or.inr rfl))
  cases drew
  obtain ⟨nameFile, k₁, opens, run⟩ := Program.runs_bind_split run
  rcases sees.new opens with ⟨e, failed, rfl, fails, sees₁⟩ | ⟨fd, ino, f₁, index, rfl, _, sees₁⟩
  · rw [if_pos fails] at run
    obtain ⟨s, k₂, closes, final⟩ := Program.runs_bind_split run
    cases final
    obtain ⟨D', sees₂, _⟩ := sees₁.close closes
    exact ⟨f, D', sees₂, CreateTrace.noIndex failed⟩
  obtain ⟨i, rfl⟩ := opens_some index rfl
  rw [if_neg (by simp)] at run
  obtain ⟨nameFile, k₂, locks, run⟩ := Program.runs_bind_split run
  obtain ⟨own, sees₂⟩ := sees₁.lock locks
  obtain ⟨idFile, k₃, opens, run⟩ := Program.runs_bind_split run
  rcases sees₂.new opens with ⟨e, failed, rfl, fails, sees₃⟩ | ⟨fd', ino, f₂, recorded, rfl, apart, sees₃⟩
  · rw [if_pos fails] at run
    obtain ⟨s, k₄, closes, run⟩ := Program.runs_bind_split run
    obtain ⟨D₄, sees₄, _⟩ := sees₃.close closes
    obtain ⟨s, k₅, closes, final⟩ := Program.runs_bind_split run
    cases final
    obtain ⟨D₅, sees₅, _⟩ := sees₄.close closes
    exact ⟨f₁, D₅, sees₅, CreateTrace.noRecord index failed⟩
  obtain ⟨j, rfl⟩ := opens_some recorded rfl
  rw [if_neg (by simp)] at run
  have other : fd ≠ fd' := by
    rintro rfl
    simp at apart
  obtain ⟨idFile, k₄, locks, run⟩ := Program.runs_bind_split run
  obtain ⟨own', sees₄⟩ := sees₃.lock locks
  obtain ⟨nameFile, k₅, lines, run⟩ := Program.runs_bind_split run
  obtain ⟨lined, sees₅⟩ := sees₄.writeRecord lines own
    (by rw [Function.update_of_ne other, Function.update_self]) rfl rfl
  obtain ⟨nameFile, k₆, closes, run⟩ := Program.runs_bind_split run
  obtain ⟨D₆, sees₆, kept⟩ := sees₅.close closes
  obtain ⟨idFile, k₇, records, run⟩ := Program.runs_bind_split run
  -- closing the index leaves the stream of the record as it was
  have found : D₆ fd' = some ⟨p, some j, CREATE_FILE, 0⟩ := by
    rw [kept fd' (by rw [lined]; simpa using other), Function.update_of_ne other.symm, Function.update_self]
    rfl
  obtain ⟨_, sees₇⟩ := sees₆.writeRecord records own' found rfl rfl
  have sees₇ : Sees p k₇ (filed (k.source k.drawn) name i j f₂) _ :=
    filed_eq (p := p) (k.source k.drawn) name i j f₂ ▸ sees₇
  have begun : Begun (k.source k.drawn) name f i j f₁ f₂ := ⟨index, recorded⟩
  obtain ⟨dataFile, k₈, opens, run⟩ := Program.runs_bind_split run
  -- whether the data could be opened or not, the three streams are closed
  have closing : ∀ {f' : Files} {D' : Fd → Option Description}, Sees p k₈ f' D' →
      ∃ D'', Sees p k' f' D'' ∧ r = .ok (k.source k.drawn) := by
    intro f' D' sees₈
    obtain ⟨_, k₉, closes, run⟩ := Program.runs_bind_split run
    obtain ⟨_, sees₉, _⟩ := sees₈.close closes
    obtain ⟨_, k₁₀, closes, run⟩ := Program.runs_bind_split run
    obtain ⟨_, sees₁₀, _⟩ := sees₉.close closes
    obtain ⟨_, k₁₁, closes, final⟩ := Program.runs_bind_split run
    obtain ⟨D₁₁, sees₁₁, _⟩ := sees₁₀.close closes
    cases final
    exact ⟨D₁₁, sees₁₁, rfl⟩
  rcases sees₇.new opens with ⟨e, failed, _, _, sees₈⟩ | ⟨_, ino, f₃, made, _, _, sees₈⟩
  · obtain ⟨D', ends, rfl⟩ := closing sees₈
    exact ⟨_, D', ends, CreateTrace.noData begun failed⟩
  · obtain ⟨l, rfl⟩ := opens_some made rfl
    obtain ⟨D', ends, rfl⟩ := closing sees₈
    exact ⟨_, D', ends, CreateTrace.made begun made⟩

theorem opens_again {path : Bytes} {mode again : Flags} {ino : Option Ino}
    (opened : f.opens path mode = .ok (ino, f₁)) (writes : mode.write = true)
    (dirs : SameDirs f₁ f') (files : ∀ q i, f₁.node q = some (.file i) → f'.node q = some (.file i))
    (whole : again.trunc = false) : f'.opens path again = .ok (ino, f') := by
  -- A path that was opened for writing can be opened again, as long as files are only added.
  obtain ⟨q, i, rfl, resolved, trace⟩ := Files.opens_writing opened writes
  have there : f'.resolve path = .ok q := dirs.resolve (trace.dirs.resolve resolved)
  have file : f'.node q = some (.file i) := files q i trace.node_self
  simp [Files.opens, there, file, whole]

theorem refused_again {path : Bytes} {mode again : Flags} {e : Errno}
    (refused : f.opens path mode = .error e) (creates : mode.creat = true)
    (writes : again.write = true) : ∃ e, f.opens path again = .error e := by
  unfold Files.opens at refused ⊢
  cases resolved : f.resolve path with
  | error e => exact ⟨e, rfl⟩
  | ok q =>
      rw [resolved] at refused
      cases node : f.node q with
      | none => simp [node, creates] at refused
      | some found =>
          cases found with
          | dir => exact ⟨EISDIR, by simp [node, writes]⟩
          | file i => simp [node] at refused

theorem byId_found_there (sees : Sees p k f D) {ino : Option Ino}
    (there : f.opens (ID_DIR ++ id) Flstream.RDONLY = .ok (ino, f)) {r : Except Error Object}
    (run : Runs p (byId id) k r k') : ∃ object, r = .ok object := by
  obtain ⟨s, k₁, opens, run⟩ := Program.runs_bind_split run
  rcases sees.new opens with ⟨e, failed, _⟩ | ⟨fd, _, _, _, rfl, _⟩
  · rw [there] at failed
    cases failed
  · rw [if_neg (by simp)] at run
    obtain ⟨s, k₂, locks, run⟩ := Program.runs_bind_split run
    obtain ⟨line, k₃, reads, run⟩ := Program.runs_bind_split run
    obtain ⟨_, k₄, closes, final⟩ := Program.runs_bind_split run
    cases final
    exact ⟨_, rfl⟩

theorem get_trace (sees : Sees p k f D) {object : Object} {mode : Flags} {r : Except Error Flstream}
    (run : Runs p (object.get mode) k r k') :
    (∃ e err, f.opens (DATA_DIR ++ object.id) mode = .error e ∧ r = .error err ∧ ∃ D', Sees p k' f D') ∨
    ∃ fd ino f', f.opens (DATA_DIR ++ object.id) mode = .ok (ino, f') ∧ r = .ok ⟨some fd, 0⟩ ∧
      Sees p k' f' (Function.update D fd (some ⟨p, ino, mode, 0⟩)) := by
  obtain ⟨s, k₁, opens, run⟩ := Program.runs_bind_split run
  rcases sees.new opens with ⟨e, failed, rfl, fails, sees₁⟩ | ⟨fd, ino, f', opened, rfl, _, sees₁⟩
  · rw [if_pos fails] at run
    obtain ⟨_, k₂, closes, final⟩ := Program.runs_bind_split run
    cases final
    obtain ⟨D', sees₂, _⟩ := sees₁.close closes
    exact Or.inl ⟨e, _, failed, rfl, D', sees₂⟩
  · rw [if_neg (by simp)] at run
    cases run
    exact Or.inr ⟨fd, ino, f', opened, rfl, sees₁⟩

/-- Every run of a store leaves what its trace says, wherever its paths lead. -/
theorem store_trace (sees : Sees p k f D) {r : Except Error Bytes}
    (run : Runs p (store name data) k r k') :
    ∃ f' D', Sees p k' f' D' ∧ StoreTrace (k.source k.drawn) name data f r f' := by
  obtain ⟨created, k₁, creates, run⟩ := Program.runs_bind_split run
  obtain ⟨f₁, D₁, sees₁, trace⟩ := create_trace sees creates
  generalize k.source k.drawn = id at trace ⊢
  have looking : Footprint.looking.Holds (Carries id) (byId id) := byId_holds id ⟨rfl, rfl⟩
  cases trace with
  | noIndex failed =>
      cases run
      exact ⟨_, D₁, sees₁, StoreTrace.noIndex failed⟩
  | noRecord index failed =>
      cases run
      exact ⟨_, D₁, sees₁, StoreTrace.noRecord index failed⟩
  | noData begun failed =>
      obtain ⟨found, k₂, looks, run⟩ := Program.runs_bind_split run
      obtain ⟨carries, D₂, sees₂⟩ := sees₁.looks looking looks
      cases found with
      | error e =>
          cases run
          exact ⟨_, D₂, sees₂, StoreTrace.noData begun failed⟩
      | ok object =>
          obtain ⟨opened, k₃, gets, run⟩ := Program.runs_bind_split run
          have refused : ∃ e, _ = Except.error e :=
            refused_again failed rfl (show Flstream.WRONLY.write = true from rfl)
          obtain ⟨e, refused⟩ := refused
          rcases get_trace sees₂ gets with ⟨_, _, _, rfl, D₃, sees₃⟩ | ⟨_, _, _, opens, _⟩
          · cases run
            exact ⟨_, D₃, sees₃, StoreTrace.noData begun failed⟩
          · rw [(carries object rfl).1, refused] at opens
            cases opens
  | made begun made =>
      rename_i i j l g₁ g₂
      obtain ⟨q, _, same, _, opened⟩ := Files.opens_writing made rfl
      cases same
      obtain ⟨found, k₂, looks, run⟩ := Program.runs_bind_split run
      obtain ⟨carries, D₂, sees₂⟩ := sees₁.looks looking looks
      -- what `create` opened is still there, so neither lookup can fail
      have there : f₁.opens (ID_DIR ++ id) Flstream.RDONLY = .ok (some j, f₁) :=
        opens_again begun.recorded rfl opened.dirs (fun q i file => opened.node_file file) rfl
      obtain ⟨object, rfl⟩ := byId_found_there sees₁ there looks
      obtain ⟨stream, k₃, gets, run⟩ := Program.runs_bind_split run
      have again : f₁.opens (DATA_DIR ++ id) Flstream.WRONLY = .ok (some l, f₁) :=
        opens_again made rfl (SameDirs.refl f₁) (fun _ _ file => file) rfl
      rcases get_trace sees₂ gets with ⟨_, _, failed, _⟩ | ⟨fd, _, _, opens, rfl, sees₃⟩
      · rw [(carries object rfl).1, again] at failed
        cases failed
      · rw [(carries object rfl).1, again] at opens
        cases opens
        obtain ⟨s, k₄, writes, run⟩ := Program.runs_bind_split run
        obtain ⟨_, sees₄⟩ := sees₃.write writes rfl (Function.update_self ..) rfl rfl
        obtain ⟨_, k₅, closes, final⟩ := Program.runs_bind_split run
        obtain ⟨D₅, sees₅, _⟩ := sees₄.close closes
        cases final
        have empty : f₁.data l = [] := opened.data_empty rfl
        have written : overwrite (f₁.data l) (writesAt f₁ ⟨p, some l, Flstream.WRONLY, 0⟩ l) data = data := by
          rw [empty]
          simp [overwrite, writesAt, Flstream.WRONLY]
        rw [written] at sees₅
        exact ⟨_, D₅, sees₅, StoreTrace.stored begun made⟩

end Stores

/-! ## Removals -/

inductive Prunes (f : Files) : Files → Prop where
  | refl : Prunes f f
  | unlink {f' : Files} {q : Path} : Prunes f f' → q ≠ [] → Prunes f (f'.unlink q)

theorem Prunes.trans {f f' f'' : Files} (first : Prunes f f') (second : Prunes f' f'') : Prunes f f'' := by
  induction second with
  | refl => exact first
  | unlink _ some ih => exact ih.unlink some

inductive Drops (path : Bytes) (f : Files) : Files → Prop where
  | nothing : (∀ q, f.resolve path = .ok q → f.node q = none) → Drops path f f
  | entry {q : Path} : f.resolve path = .ok q → q ≠ [] → Drops path f (f.unlink q)

theorem Drops.prunes {path : Bytes} {f f' : Files} (drops : Drops path f f') : Prunes f f' := by
  cases drops with
  | nothing => exact Prunes.refl
  | entry _ linked => exact Prunes.refl.unlink linked

/-- What a removal leaves: entries are gone, and one file may have lost the lines
with the id before the last of them went. -/
def RemoveTrace (id : Bytes) (f f' : Files) : Prop :=
  ∃ f₁, Prunes f f₁ ∧ (f' = f₁ ∨ ∃ i, Prunes
    (f₁.setData i (Records.render SEPARATOR (unlisted id (f₁.data i)))) f')

section Removals
variable {p : Pid} {k k' : Kernel} {f : Files} {D : Fd → Option Description} {s s' : Flstream}
  {fd : Fd} {d : Description} {i : Ino} {id : Bytes}

theorem Sees.removes (sees : Sees p k f D) {path : Bytes} {r : Except Errno Bool}
    (run : Runs p (Sys.remove path) k r k') :
    (∃ e, r = .error e ∧ Sees p k' f D) ∨
    ∃ there f', r = .ok there ∧ Sees p k' f' D ∧ Drops path f f' := by
  have answered : k.exec p (.remove path) = some (r, k') := Program.runs_issue_iff.mp run
  have tabled := exec_tabled answered sees.tabled
  have unlinked : ∀ q, f.resolve path = .ok q → q ≠ [] → k' = k.unlink q →
      ∃ f', Sees p k' f' D ∧ Drops path f f' := by
    rintro q resolved linked rfl
    exact ⟨f.unlink q, ⟨by rw [Kernel.files_unlink, sees.files], sees.descs, tabled⟩,
      Drops.entry resolved linked⟩
  simp only [Kernel.exec, Kernel.removeFile, Option.some.injEq, sees.files] at answered
  cases resolved : f.resolve path with
  | error e =>
      simp only [resolved] at answered
      split at answered
      · cases answered
        have absent : ∀ q, f.resolve path = .ok q → f.node q = none := by
          intro q there
          rw [resolved] at there
          cases there
        exact Or.inr ⟨false, f, rfl, sees, Drops.nothing absent⟩
      · cases answered
        exact Or.inl ⟨e, rfl, sees⟩
  | ok q =>
      simp only [resolved] at answered
      cases node : f.node q with
      | none =>
          rw [node] at answered
          cases answered
          refine Or.inr ⟨false, f, rfl, sees, Drops.nothing fun q' there => ?_⟩
          obtain rfl : q = q' := Except.ok.inj (resolved.symm.trans there)
          exact node
      | some found =>
          rw [node] at answered
          cases found with
          | file i =>
              cases answered
              have linked : q ≠ [] := by
                rintro rfl
                simp [Files.node] at node
              obtain ⟨f', sees', drops⟩ := unlinked q resolved linked rfl
              exact Or.inr ⟨true, f', rfl, sees', drops⟩
          | dir =>
              dsimp only at answered
              split at answered
              · cases answered
                exact Or.inl ⟨EINVAL, rfl, sees⟩
              · split at answered
                · cases answered
                  exact Or.inl ⟨ENOTEMPTY, rfl, sees⟩
                · rename_i full
                  cases answered
                  have linked : q ≠ [] := by
                    rintro rfl
                    simp at full
                  obtain ⟨f', sees', drops⟩ := unlinked q resolved linked rfl
                  exact Or.inr ⟨true, f', rfl, sees', drops⟩

theorem Sees.rewrite (sees : Sees p k f D) {ids : List Bytes} {empty : Bool} {r : Bool × Flstream}
    (run : Runs p (rewrite id ids empty s) k r k') (own : s.fd = some fd) (found : D fd = some d)
    (ino : d.ino = some i) (writes : d.flags.write = true) (whole : d.flags.append = false)
    (atEnd : d.pos = (f.data i).length) :
    ∃ D', Sees p k' (f.setData i (f.data i ++ Records.render SEPARATOR (ids.filter (· ≠ id)))) D' := by
  -- The lines that are written back follow each other from where the descriptor stands.
  induction ids generalizing k f D s d empty with
  | nil =>
      cases run
      exact ⟨D, by simpa [Files.setData] using sees⟩
  | cons fid ids ih =>
      unfold Storage.rewrite at run
      by_cases listed : fid = id
      · rw [if_neg (by simpa using listed)] at run
        obtain ⟨D', last⟩ := ih sees run own found ino writes whole atEnd
        exact ⟨D', by simpa [listed] using last⟩
      · rw [if_pos listed] at run
        obtain ⟨s₁, k₁, line, rest⟩ := Program.runs_bind_split run
        obtain ⟨own₁, sees₁⟩ := sees.writeRecord line own found ino writes
        have start : writesAt f d i = (f.data i).length := by
          simp [writesAt, whole, atEnd]
        rw [start, Kernel.overwrite_end] at sees₁
        obtain ⟨D', last⟩ := ih sees₁ rest own₁ (Function.update_self ..) ino writes whole
          (by simp)
        refine ⟨D', ?_⟩
        simpa [listed, Files.setData] using last

theorem rewrite_empty {ids : List Bytes} {empty : Bool} {r : Bool × Flstream}
    (run : Runs p (rewrite id ids empty s) k r k') :
    r.1 = (empty && (ids.filter (· ≠ id)).isEmpty) := by
  induction ids generalizing k empty s with
  | nil =>
      cases run
      simp
  | cons fid ids ih =>
      unfold Storage.rewrite at run
      by_cases own : fid = id
      · rw [if_neg (by simpa using own)] at run
        rw [ih run]
        simp [own]
      · rw [if_pos own] at run
        obtain ⟨_, _, _, rest⟩ := Program.runs_bind_split run
        rw [ih rest]
        simp [own]

/-- The index is rewritten without the lines of the id, and where none is left its
path is removed. -/
inductive UnlistTrace (path id : Bytes) (f : Files) : Option (Except Error Unit) → Files → Prop where
  | noIndex {e : Error} : UnlistTrace path id f (some (.error e)) f
  | rewritten {t : Path} {i : Ino} : f.resolve path = .ok t → f.node t = some (.file i) →
      unlisted id (f.data i) ≠ [] → UnlistTrace path id f (some (.ok ()))
        (f.setData i (Records.render SEPARATOR (unlisted id (f.data i))))
  | emptied {t : Path} {i : Ino} {f' : Files} : f.resolve path = .ok t → f.node t = some (.file i) →
      unlisted id (f.data i) = [] → Drops path (f.setData i []) f' →
      UnlistTrace path id f (some (.ok ())) f'
  | stuck {i : Ino} : unlisted id (f.data i) = [] → UnlistTrace path id f none (f.setData i [])

theorem UnlistTrace.outcome {path id : Bytes} {f f' : Files} {r : Option (Except Error Unit)}
    (trace : UnlistTrace path id f r f') :
    f' = f ∨ ∃ i, Prunes (f.setData i (Records.render SEPARATOR (unlisted id (f.data i)))) f' := by
  cases trace with
  | noIndex => exact Or.inl rfl
  | rewritten => exact Or.inr ⟨_, Prunes.refl⟩
  | @emptied _ i _ _ _ none_left drops =>
      refine Or.inr ⟨i, ?_⟩
      rw [none_left]
      exact drops.prunes
  | @stuck i none_left =>
      refine Or.inr ⟨i, ?_⟩
      rw [none_left]
      exact Prunes.refl

theorem unlist_trace (sees : Sees p k f D) {object : Object} {r : Option (Except Error Unit)}
    (run : Runs p object.unlist k r k') :
    ∃ f' D', Sees p k' f' D' ∧ UnlistTrace (NAME_DIR ++ object.name) object.id f r f' := by
  obtain ⟨s, k₁, opens, run⟩ := Program.runs_bind_split run
  rcases sees.new opens with ⟨e, failed, rfl, fails, sees₁⟩ | ⟨fd, ino, f₁, index, rfl, _, sees₁⟩
  · rw [if_pos fails] at run
    obtain ⟨_, k₂, closes, final⟩ := Program.runs_bind_split run
    cases final
    obtain ⟨D', sees₂, _⟩ := sees₁.close closes
    exact ⟨f, D', sees₂, UnlistTrace.noIndex⟩
  obtain ⟨q, i, rfl, resolved, opened⟩ := Files.opens_writing index rfl
  -- opening to read and write neither creates nor cuts
  have same : f₁ = f := by
    cases opened with
    | whole => rfl
    | emptied _ cuts => cases cuts
    | created _ creates => cases creates
  subst same
  have file := opened.node_self
  rw [if_neg (by simp)] at run
  obtain ⟨s, k₂, locks, run⟩ := Program.runs_bind_split run
  obtain ⟨own, sees₂⟩ := sees₁.lock locks
  obtain ⟨_, err⟩ := s
  cases own
  have found : k₂.descOf p fd = some ⟨p, some i, Flstream.RDWR, 0⟩ := by
    rw [sees₂.descs, Function.update_self]
  -- reading, rewinding and cutting have one outcome each
  obtain ⟨_, _, reads, run⟩ := Program.runs_bind_split run
  obtain ⟨rfl, rfl⟩ := (gives_of_runs (Flstream.getlines_runs SEPARATOR found rfl rfl) _ _).mp reads
  obtain ⟨found, sees₃⟩ := sees₂.setPos found (0 + (Flstream.unread k₂ i 0).length)
  obtain ⟨_, _, rewinds, run⟩ := Program.runs_bind_split run
  obtain ⟨_, rfl⟩ := (gives_of_runs (Flstream.seek_runs 0 found) _ _).mp rewinds
  obtain ⟨found, sees₄⟩ := sees₃.setPos found 0
  obtain ⟨_, _, cuts, run⟩ := Program.runs_bind_split run
  obtain ⟨_, rfl⟩ := (gives_of_runs (Flstream.truncate_runs found rfl rfl) _ _).mp cuts
  have sees₅ := sees₄.setData i []
  have text : Flstream.unread k₂ i 0 = f₁.data i := by
    rw [Flstream.unread, sees₂.files, List.drop_zero]
  obtain ⟨rewritten, k₆, rewrites, run⟩ := Program.runs_bind_split run
  obtain ⟨D₆, sees₆⟩ := sees₅.rewrite rewrites rfl (Function.update_self ..) rfl rfl rfl (by simp)
  rw [text] at sees₆
  have left : Sees p k₆ (f₁.setData i (Records.render SEPARATOR (unlisted object.id (f₁.data i)))) D₆ := by
    simpa [unlisted, Files.setData] using sees₆
  have none_left := rewrite_empty rewrites
  rw [text, Bool.true_and] at none_left
  obtain ⟨empty, stream⟩ := rewritten
  dsimp only at run none_left
  cases empty with
  | false =>
      obtain ⟨_, k₇, closes, final⟩ := Program.runs_bind_split run
      obtain ⟨D₇, sees₇, _⟩ := left.close closes
      cases final
      exact ⟨_, D₇, sees₇, UnlistTrace.rewritten resolved file (List.isEmpty_eq_false_iff.mp none_left.symm)⟩
  | true =>
      have nothing : unlisted object.id (f₁.data i) = [] := List.isEmpty_iff.mp none_left.symm
      rw [nothing] at left
      obtain ⟨gone, k₇, removes, run⟩ := Program.runs_bind_split run
      rcases left.removes removes with ⟨e, rfl, sees₇⟩ | ⟨there, f₇, rfl, sees₇, drops⟩
      · cases run
        exact ⟨_, D₆, sees₇, UnlistTrace.stuck nothing⟩
      · obtain ⟨_, k₈, closes, run⟩ := Program.runs_bind_split run
        obtain ⟨D₈, sees₈, _⟩ := sees₇.close closes
        obtain ⟨_, k₉, closes, final⟩ := Program.runs_bind_split run
        obtain ⟨D₉, sees₉, _⟩ := sees₈.close closes
        cases final
        exact ⟨f₇, D₉, sees₉, UnlistTrace.emptied resolved file nothing drops⟩

/-- Every run of a removal leaves what its trace says, wherever its paths lead. -/
theorem remove_trace (sees : Sees p k f D) {r : Option (Except Error Unit)}
    (run : Runs p (remove id) k r k') : ∃ f' D', Sees p k' f' D' ∧ RemoveTrace id f f' := by
  obtain ⟨found, k₁, looks, run⟩ := Program.runs_bind_split run
  have looking : Footprint.looking.Holds (Carries id) (byId id) := byId_holds id ⟨rfl, rfl⟩
  obtain ⟨carries, D₁, sees₁⟩ := sees.looks looking looks
  cases found with
  | error e =>
      cases run
      exact ⟨f, D₁, sees₁, f, Prunes.refl, Or.inl rfl⟩
  | ok object =>
      obtain ⟨first, k₂, removes, run⟩ := Program.runs_bind_split run
      rcases sees₁.removes removes with ⟨e, rfl, sees₂⟩ | ⟨_, f₂, rfl, sees₂, record⟩
      · cases run
        exact ⟨f, D₁, sees₂, f, Prunes.refl, Or.inl rfl⟩
      obtain ⟨second, k₃, removes, run⟩ := Program.runs_bind_split run
      rcases sees₂.removes removes with ⟨e, rfl, sees₃⟩ | ⟨_, f₃, rfl, sees₃, bytes⟩
      · cases run
        exact ⟨f₂, D₁, sees₃, f₂, record.prunes, Or.inl rfl⟩
      obtain ⟨f', D', sees', trace⟩ := unlist_trace sees₃ run
      have same := trace.outcome
      rw [(carries object rfl).1] at same
      exact ⟨f', D', sees', f₃, record.prunes.trans bytes.prunes, same⟩

end Removals

/-! ## What holds of every file of a directory -/

/-- Every file in the directory `d` has the property, whatever else the tree holds. -/
structure Shaped (d : Dir) (P : Bytes → Prop) (f : Files) : Prop where
  sound : f.Sound
  shape : ∀ x i, f.node (entry f d x) = some (.file i) → P (f.data i)

namespace Shaped
variable {d : Dir} {P : Bytes → Prop} {f f' : Files} {q : Path} {i : Ino} {x id bytes : Bytes}

theorem record (shaped : Shaped d P f) (holds : Volume.record f d x = some bytes) : P bytes := by
  simp only [Volume.record, Files.content] at holds
  split at holds
  · rename_i i file
    cases holds
    exact shaped.shape x i file
  · cases holds

theorem setData (shaped : Shaped d P f) (kept : ∀ x, f.node (entry f d x) = some (.file i) → P bytes) :
    Shaped d P (f.setData i bytes) := by
  constructor
  · exact shaped.sound.setData i bytes
  · intro x j file
    have there : f.node (entry f d x) = some (.file j) := file
    by_cases same : j = i
    · subst same
      rw [Files.data_setData, Function.update_self]
      exact kept x there
    · rw [Files.data_setData, Function.update_of_ne same]
      exact shaped.shape x j there

theorem elsewhere (shaped : Shaped d P f) (d' : Dir) (y : Bytes) (other : d' ≠ d)
    (linked : f.node (entry f d' y) = some (.file i)) (bytes : Bytes) : Shaped d P (f.setData i bytes) := by
  -- What stands in another directory may hold anything.
  apply shaped.setData
  intro x file
  have same := shaped.sound.single _ _ i linked file
  exact absurd ((entry_inj f d' d y x).mp same).1 other

theorem opened {mode : Flags} (shaped : Shaped d P f) (empty : P [])
    (opened : Files.Opened f mode q i f') : Shaped d P f' := by
  have linked := opened.ne_nil
  cases opened with
  | whole => exact shaped
  | emptied => exact shaped.setData fun _ _ => empty
  | created absent =>
      constructor
      · exact shaped.sound.create q linked
      · intro x j file
        change (f.create q).node (entry f d x) = _ at file
        rw [Files.node_create _ _ linked] at file
        split at file
        · cases file
          rw [Files.data_create, Function.update_self]
          exact empty
        · have below := shaped.sound.below _ _ file
          rw [Files.data_create, Function.update_of_ne (Nat.ne_of_lt below)]
          exact shaped.shape x j file

theorem prunes (shaped : Shaped d P f) (prunes : Prunes f f') : Shaped d P f' := by
  induction prunes with
  | refl => exact shaped
  | unlink _ linked ih =>
      constructor
      · exact ih.sound.unlink _ linked
      · intro x j file
        change (Files.unlink _ _).node (entry _ d x) = _ at file
        rw [Files.node_unlink _ _ linked] at file
        split at file
        · cases file
        · exact ih.shape x j file

theorem removed (shaped : Shaped d P f)
    (rewritten : ∀ text, P text → P (Records.render SEPARATOR (unlisted id text)))
    (trace : RemoveTrace id f f') : Shaped d P f' := by
  obtain ⟨f₁, prunes, rfl | ⟨i, later⟩⟩ := trace
  · exact shaped.prunes prunes
  · have shaped₁ := shaped.prunes prunes
    exact (shaped₁.setData fun x file => rewritten _ (shaped₁.shape x i file)).prunes later

end Shaped
end Volume
end Sfsdb

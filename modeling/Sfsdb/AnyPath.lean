import Sfsdb.VolumeRuns

/-!
Runs on strings that need not name an entry of the volume: a path can lead
nowhere, to any other file or to a directory. Looking at a record or an index
leaves every file and every lock as it was wherever the path leads; a removal
whose recorded name is no entry of the index stops with an error.
-/

namespace Sfsdb.Volume

open Posix Storage

variable {p : Pid} {k : Kernel} {id name y bytes : Bytes}

/-! ## Opening for reading -/

theorem walk_error {node : Path → Option Node} {here : Path} {names : List Bytes} {e : Errno}
    (failed : walk node here names = .error e) : e ≠ 0 := by
  fun_induction walk node here names <;> first
    | (rename_i ih; exact ih failed)
    | (cases failed; decide)
    | cases failed

theorem resolve_error {f : Files} {path : Bytes} {e : Errno} (failed : f.resolve path = .error e) :
    e ≠ 0 := by
  unfold Files.resolve at failed
  split at failed
  · cases failed
    decide
  · exact walk_error failed

theorem open_error {k' : Kernel} {path : Bytes} {mode : Flags} {e : Errno}
    (failed : k.openFile p path mode = (.error e, k')) : e ≠ 0 ∧ k' = k := by
  unfold Kernel.openFile at failed
  split at failed
  · rename_i resolved
    cases failed
    exact ⟨resolve_error resolved, rfl⟩
  · repeat' split at failed
    all_goals cases failed
    all_goals exact ⟨by decide, rfl⟩

theorem open_reading (p : Pid) (k : Kernel) (path : Bytes) :
    (∃ e, e ≠ 0 ∧ k.openFile p path Flstream.RDONLY = (.error e, k)) ∨
    ∃ ino, k.openFile p path Flstream.RDONLY =
      (.ok k.nextFd, k.addDesc ⟨p, ino, Flstream.RDONLY, 0⟩) := by
  unfold Kernel.openFile
  cases resolved : k.files.resolve path with
  | error e => exact Or.inl ⟨e, resolve_error resolved, rfl⟩
  | ok q =>
      cases node : k.files.node q with
      | none => exact Or.inl ⟨ENOENT, by decide, by simp [node, Flstream.RDONLY]⟩
      | some found =>
          cases found with
          | dir => exact Or.inr ⟨none, by simp [node, Flstream.RDONLY]⟩
          | file i => exact Or.inr ⟨some i, by simp [node, Flstream.RDONLY]⟩

section Directories
variable {fd : Fd} {d : Description} {e : Errno}

theorem lock_dir (found : k.descOf p fd = some d) (ino : d.ino = none) (reads : d.flags.read = true) :
    Runs p (Flstream.lock ⟨some fd, e⟩ .read) k ⟨some fd, 0⟩ k :=
  (Flstream.issue_runs (c := .lock fd .read) (r := .ok ()) (by
    simp [Kernel.exec, Kernel.lockFile, found, ino, reads])).bind Program.Runs.done

theorem close_dir (found : k.descOf p fd = some d) (ino : d.ino = none) :
    Runs p (Flstream.close ⟨some fd, e⟩) k ⟨some fd, 0⟩ (k.dropDesc fd) := by
  have unlocked : Runs p (Flstream.unlockFile ⟨some fd, e⟩) k ⟨some fd, 0⟩ k :=
    (Flstream.issue_runs (c := .unlock fd) (r := .ok ()) (by
      simp [Kernel.exec, Kernel.unlockFile, found, ino])).bind Program.Runs.done
  have closed : Runs p (Sys.close fd) k (.ok ()) (k.dropDesc fd) :=
    Flstream.issue_runs (c := .close fd) (by simp [Kernel.exec, Kernel.closeFile, found, ino])
  exact unlocked.bind (closed.bind Program.Runs.done)

theorem getline_dir (delim : Byte) (found : k.descOf p fd = some d) (ino : d.ino = none)
    (reads : d.flags.read = true) :
    Runs p (Flstream.getline ⟨some fd, e⟩ delim) k (false, [], ⟨some fd, EISDIR⟩) k := by
  have refused : Runs p (Flstream.read ⟨some fd, e⟩ 1024) k ([], ⟨some fd, EISDIR⟩) k :=
    (Flstream.issue_runs (c := .read fd 1024) (r := .error EISDIR) (by
      simp [Kernel.exec, Kernel.readFile, found, ino, reads])).bind Program.Runs.done
  exact Program.Runs.leave (refused.bind Program.Runs.done)

theorem getlines_dir (delim : Byte) (found : k.descOf p fd = some d) (ino : d.ino = none)
    (reads : d.flags.read = true) :
    Runs p (Flstream.getlines ⟨some fd, e⟩ delim) k ([], ⟨some fd, EISDIR⟩) k :=
  Program.Runs.leave ((getline_dir delim found ino reads).bind Program.Runs.done)

end Directories

theorem unopened_becomes (ready : Ready k) (d : Description) :
    Becomes k ((k.addDesc d).dropDesc k.nextFd) 0 (record k.files) :=
  reads_only ready rfl ready.unlocked rfl rfl rfl rfl rfl

theorem byId_looks (ready : Ready k) (id : Bytes) :
    ∃ r k', Runs p (byId id) k r k' ∧ Becomes k k' 0 (record k.files) ∧
      ∀ object, r = .ok object → object.id = id := by
  -- A record is looked up without a trace, wherever its path leads.
  rcases open_reading p k (ID_DIR ++ id) with ⟨e, some, opens⟩ | ⟨ino, opens⟩
  · have failed := (Flstream.fail_iff none e).mpr some
    refine ⟨.error (.ofErrno e), k, (Flstream.new_failed opens).bind ?_, Becomes.refl ready, by simp⟩
    rw [if_pos failed]
    exact Flstream.close_unopened.bind Program.Runs.done
  · have opened := Flstream.new_runs opens
    cases ino with
    | none =>
        have found := Kernel.descOf_addDesc (k := k) (p := p) (d := ⟨p, none, Flstream.RDONLY, 0⟩) rfl
          k.nextFd
        rw [if_pos rfl] at found
        exact ⟨_, _, opened.bind ((lock_dir found rfl rfl).bind ((getline_dir SEPARATOR found rfl
          rfl).bind ((close_dir found rfl).bind Program.Runs.done))), unopened_becomes ready _,
          by rintro object ⟨⟩; rfl⟩
    | some i =>
        obtain ⟨k₁, files, found, locked, closed⟩ := reading_runs (p := p) ready i
        have line := Flstream.getline_runs (e := 0) SEPARATOR found rfl rfl (Nat.succ_pos 1023)
        exact ⟨_, _, opened.bind (locked.bind (line.bind ((closed _).bind Program.Runs.done))),
          lookedAt_becomes ready i _, by rintro object ⟨⟩; rfl⟩

theorem byName_looks (ready : Ready k) (name : Bytes) :
    ∃ r k', Runs p (byName name) k r k' ∧ Becomes k k' 0 (record k.files) := by
  rcases open_reading p k (NAME_DIR ++ name) with ⟨e, some, opens⟩ | ⟨ino, opens⟩
  · have failed := (Flstream.fail_iff none e).mpr some
    refine ⟨.error (.ofErrno e), k, (Flstream.new_failed opens).bind ?_, Becomes.refl ready⟩
    rw [if_pos failed]
    exact Flstream.close_unopened.bind Program.Runs.done
  · have opened := Flstream.new_runs opens
    cases ino with
    | none =>
        have found := Kernel.descOf_addDesc (k := k) (p := p) (d := ⟨p, none, Flstream.RDONLY, 0⟩) rfl
          k.nextFd
        rw [if_pos rfl] at found
        exact ⟨_, _, opened.bind ((lock_dir found rfl rfl).bind ((getlines_dir SEPARATOR found rfl
          rfl).bind ((close_dir found rfl).bind Program.Runs.done))), unopened_becomes ready _⟩
    | some i =>
        obtain ⟨k₁, files, found, locked, closed⟩ := reading_runs (p := p) ready i
        have lines := Flstream.getlines_runs (e := 0) SEPARATOR found rfl rfl
        exact ⟨_, _, opened.bind (locked.bind (lines.bind ((closed _).bind Program.Runs.done))),
          lookedAt_becomes ready i _⟩

/-! ## Names that are no component -/

theorem name_cases (name : Bytes) (free : slash ∉ cstr name) :
    Names name (cstr name) ∨ cstr name = [] ∨ cstr name = dot ∨ cstr name = dotdot := by
  by_cases plain : PlainName (cstr name)
  · exact Or.inl ⟨rfl, plain⟩
  · have nul : 0 ∉ cstr name := cstr_free name
    unfold PlainName at plain
    tauto

theorem special_dir (layout : Layout k.files) (d : Dir) (nested : d ≠ .data) (name : Bytes)
    (special : cstr name = [] ∨ cstr name = dot ∨ cstr name = dotdot) :
    ∃ q, k.files.resolve (d.text ++ name) = .ok q ∧ k.files.node q = some .dir ∧
      (cstr name = dotdot → q = k.files.cwd ++ [ascii "map"]) := by
  -- What stands for a directory leads to the directory itself or to its parent.
  have tail : ∃ last, (last = dot ∨ last = dotdot) ∧ (cstr name = dotdot → last = dotdot) ∧
      d.text ++ cstr name ≠ [] ∧ (d.text ++ cstr name).head? ≠ some slash ∧
      components (d.text ++ cstr name) = d.names ++ [last] := by
    rcases special with empty | here | above
    · exact ⟨dot, Or.inl rfl, by rw [empty]; cases d <;> decide⟩
    · exact ⟨dot, Or.inl rfl, by rw [here]; cases d <;> decide⟩
    · exact ⟨dotdot, Or.inr rfl, by rw [above]; cases d <;> decide⟩
  obtain ⟨last, cases_last, above, nonempty, relative, split⟩ := tail
  have walked := k.files.walk_through k.files.cwd d.names [last] (by simp)
    (by cases d <;> decide) (layout d)
  have parent : d.names.dropLast = [ascii "map"] := by
    cases d <;> first | rfl | exact absurd rfl nested
  rw [Files.resolve, cstr_append d.text name (by cases d <;> decide), if_neg nonempty,
    if_neg relative, split, walked]
  rcases cases_last with rfl | rfl
  · refine ⟨_, rfl, layout d d.names d.names_ne_nil (List.prefix_refl _), fun same => ?_⟩
    exact absurd (above same) (by decide)
  · refine ⟨k.files.cwd ++ [ascii "map"], ?_, layout d [ascii "map"] (by simp) ?_, fun _ => rfl⟩
    · rw [walk, if_neg (by decide), if_pos rfl, walk, List.dropLast_append_of_ne_nil d.names_ne_nil,
        parent]
    · rw [← parent]
      exact List.dropLast_prefix d.names

theorem index_cases (p : Pid) (sane : Sane k.files) (name : Bytes) (free : slash ∉ cstr name) :
    (∃ file text, Names name file ∧ record k.files .byName file = some text) ∨
    ∃ e, e ≠ 0 ∧ k.openFile p (NAME_DIR ++ name) Flstream.RDWR = (.error e, k) := by
  -- Opening the index of a recorded name finds its file or fails.
  rcases name_cases name free with names | special
  · cases held : record k.files .byName (cstr name) with
    | some text => exact Or.inl ⟨_, text, names, held⟩
    | none =>
        have absent := sane.entry_absent held
        have resolved : k.files.resolve (NAME_DIR ++ name) = .ok (entry k.files .byName (cstr name)) :=
          resolve_entry k.files sane.layout .byName names
        exact Or.inr ⟨ENOENT, by decide, by
          simp [Kernel.openFile, resolved, absent, Flstream.RDWR]⟩
  · obtain ⟨q, resolved, dir, _⟩ := special_dir sane.layout .byName (by decide) name special
    rw [show Dir.byName.text = NAME_DIR from rfl] at resolved
    exact Or.inr ⟨EISDIR, by decide, by simp [Kernel.openFile, resolved, dir, Flstream.RDWR]⟩

theorem unlist_fails {object : Object} {e : Errno} (some : e ≠ 0)
    (opens : k.openFile p (NAME_DIR ++ object.name) Flstream.RDWR = (.error e, k)) :
    Runs p object.unlist k (.some (.error (.ofErrno e))) k := by
  have failed := (Flstream.fail_iff none e).mpr some
  apply (Flstream.new_failed opens).bind
  rw [if_pos failed]
  exact Flstream.close_unopened.bind Program.Runs.done

/-! ## Storing and removing under such names -/

theorem store_special (sane : Sane k.files) (name data : Bytes)
    (special : cstr name = [] ∨ cstr name = dot ∨ cstr name = dotdot) :
    Runs p (store name data) k (.error (.ofErrno EISDIR)) k.nextDraw := by
  obtain ⟨q, resolved, dir, _⟩ := special_dir sane.layout .byName (by decide) name special
  rw [show Dir.byName.text = NAME_DIR from rfl] at resolved
  have drawn : Runs p Sys.draw k _ k.nextDraw := Flstream.issue_runs (c := .draw) rfl
  have refused : k.nextDraw.openFile p (NAME_DIR ++ name) appending = (.error EISDIR, k.nextDraw) := by
    simp [Kernel.openFile, resolved, dir, appending, Flstream.WRONLY, Flstream.CREAT, Flags.union]
  have created : Runs p (create name) k (.error (.ofErrno EISDIR)) k.nextDraw :=
    drawn.bind ((Flstream.new_failed refused).bind
      (Flstream.close_unopened.bind Program.Runs.done))
  exact created.bind Program.Runs.done

theorem removeFile_special (layout : Layout k.files) (id : Bytes)
    (special : cstr id = dot ∨ cstr id = dotdot) :
    ∃ e, k.removeFile (ID_DIR ++ id) = (.error e, k) := by
  -- Neither a directory nor the parent of one that is there can be removed.
  obtain ⟨q, resolved, dir, parent⟩ :=
    special_dir layout .byId (by decide) id (special.elim (Or.inr ∘ Or.inl) (Or.inr ∘ Or.inr))
  rw [show Dir.byId.text = ID_DIR from rfl] at resolved
  have path : cstr (ID_DIR ++ id) = ID_DIR ++ cstr id := cstr_append ID_DIR id (by decide)
  unfold Kernel.removeFile
  rw [resolved]
  simp only [dir, path]
  rcases special with here | above
  · refine ⟨EINVAL, ?_⟩
    rw [here, if_pos (by decide)]
  · have child := layout .byId Dir.byId.names (by decide) (List.prefix_refl _)
    have full : k.files.emptyDir q = false := by
      rw [Files.node, if_neg (by simp [Dir.names])] at child
      obtain ⟨before, after, tree, _⟩ := List.lookup_eq_some_iff.mp child
      rw [parent above, Files.emptyDir, List.all_eq_false]
      exact ⟨(k.files.cwd ++ Dir.byId.names, .dir), by rw [tree]; simp, by simp [Dir.names]⟩
    refine ⟨ENOTEMPTY, ?_⟩
    rw [above, if_neg (by decide), full]
    simp

/-- What is left of `r` once the record and the data of `y` are taken away, or
nothing was. -/
structure Loses (y : Bytes) (r now : Contents) : Prop where
  others : ∀ x, x ≠ y → now .byId x = r .byId x ∧ now .data x = r .data x
  records : ∀ x text, now .byId x = some text → r .byId x = some text

theorem Loses.refl (y : Bytes) (r : Contents) : Loses y r r :=
  ⟨fun _ _ => ⟨rfl, rfl⟩, fun _ _ holds => holds⟩

theorem loses_files (y file : Bytes) (bytes : Option Bytes) (r : Contents) :
    Loses y r (put .byName file bytes (put .data y none (put .byId y none r))) := by
  refine ⟨fun x other => ⟨?_, ?_⟩, fun x text holds => ?_⟩
  · simp [put, other]
  · simp [put, other]
  · by_cases own : x = y <;> simp [put, own] at holds ⊢
    exact holds

/-- What becomes of a removal by a plain id: record and data are gone, and so is
the id from the index of the recorded name if there is one. -/
theorem removeObject_outcome (ready : Ready k) (object : Object) (names : Names object.id y)
    (free : slash ∉ cstr object.name) :
    ∃ r k' now, Runs p object.remove k r k' ∧ Becomes k k' 0 now ∧
      (now = put .data y none (put .byId y none (record k.files)) ∨
        ∃ file text, Names object.name file ∧ record k.files .byName file = some text ∧
          now = removed file y object.id text (record k.files)) := by
  obtain ⟨_, _, unlinkId, session⟩ := (Session.start ready p).remove .byId names
  obtain ⟨k₂, _, unlinkData, session⟩ := session.remove .data names
  rcases index_cases p session.turns.sane object.name free with
    ⟨file, text, namesFile, listed⟩ | ⟨e, some, opens⟩
  · rw [session.turns.records] at listed
    have before : record k.files .byName file = .some text := by simpa [put] using listed
    obtain ⟨k', run, change⟩ := removeObject_runs (p := p) ready object names namesFile before
    exact ⟨_, k', _, run, change, Or.inr ⟨file, text, namesFile, before, rfl⟩⟩
  · exact ⟨_, k₂, _, unlinkId.bind (unlinkData.bind (unlist_fails some opens)),
      session.finish rfl rfl, Or.inl rfl⟩

theorem removeObject_loses (ready : Ready k) (object : Object) (names : Names object.id y)
    (free : slash ∉ cstr object.name) :
    ∃ r k' now, Runs p object.remove k r k' ∧ Becomes k k' 0 now ∧ Loses y (record k.files) now := by
  obtain ⟨r, k', now, run, change, outcome⟩ := removeObject_outcome (p := p) ready object names free
  refine ⟨r, k', now, run, change, ?_⟩
  rcases outcome with rfl | ⟨file, text, _, _, rfl⟩
  · have same : put .data y none (put .byId y none (record k.files)) =
        put .byName [] (record k.files .byName []) (put .data y none
          (put .byId y none (record k.files))) := by
      conv_lhs => rw [← put_same .byName [] (put .data y none (put .byId y none (record k.files)))]
      simp [put]
    rw [same]
    exact loses_files y [] _ _
  · exact loses_files y file _ _

theorem remove_loses (ready : Ready k) (id : Bytes) (free : slash ∉ cstr id)
    (some : cstr id ≠ [])
    (recorded : ∀ y text, record k.files .byId y = .some text →
      slash ∉ cstr (Records.first SEPARATOR text)) :
    ∃ r k' now, Runs p (remove id) k r k' ∧ Becomes k k' 0 now ∧ Loses (cstr id) (record k.files) now := by
  rcases name_cases id free with names | empty | special
  · cases holds : record k.files .byId (cstr id) with
    | none =>
        exact ⟨_, k, _, remove_missing ready names holds, Becomes.refl ready, Loses.refl _ _⟩
    | some text =>
        obtain ⟨k₁, found, change⟩ := byId_found (p := p) ready names holds
        obtain ⟨r, k', now, gone, change', loses⟩ := removeObject_loses (p := p) change.ready
          ⟨id, Records.first SEPARATOR text, DATA_DIR ++ id⟩ names
          (recorded (cstr id) text holds)
        rw [change.turns.records] at loses
        exact ⟨r, k', now, found.bind gone, change.trans change', loses⟩
  · exact absurd empty some
  · obtain ⟨r, k₁, looks, change, own⟩ := byId_looks (p := p) ready id
    cases r with
    | error e => exact ⟨_, k₁, _, looks.bind Program.Runs.done, change, Loses.refl _ _⟩
    | ok object =>
        obtain ⟨e, refused⟩ := removeFile_special change.ready.sane.layout id special
        rw [← own object rfl] at refused
        have unremoved : Runs p (Sys.remove (ID_DIR ++ object.id)) k₁ (.error e) k₁ :=
          Flstream.issue_runs (c := .remove (ID_DIR ++ object.id)) (by
            simp [Kernel.exec, refused])
        exact ⟨_, k₁, _, looks.bind (unremoved.bind Program.Runs.done), change, Loses.refl _ _⟩

end Sfsdb.Volume

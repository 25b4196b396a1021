import Sfsdb.Traces

/-!
Stores on a disk that takes less than it is given. POSIX lets a write store any
smaller number of bytes or fail; what becomes of each of the writes of a run is
a parameter. `volume::store` looks at neither the count nor the error of its
last write, so the length of the data is what decides whether it is there.
-/

namespace Sfsdb.ShortWrites

open Posix Storage Volume

/-- What becomes of the successive writes: the most bytes one stores, or its error. -/
abbrev Disk := Nat → Except Errno Nat

abbrev State := Kernel × Nat

def exec (disk : Disk) (p : Pid) : (c : Call) → State → Option (Resp c × State)
  | .write fd bytes, (k, n) =>
      match disk n with
      | .ok most => (k.exec p (.write fd (bytes.take most))).map fun (r, k') => (r, k', n + 1)
      | .error e => some (.error e, k, n + 1)
  | c, (k, n) => (k.exec p c).map fun (r, k') => (r, k', n)

def Writes (disk : Disk) (p : Pid) (c : Call) (s : State) (r : Resp c) (s' : State) : Prop :=
  exec disk p c s = some (r, s')

def stored (outcome : Except Errno Nat) (bytes : Bytes) : Bytes :=
  match outcome with
  | .ok most => bytes.take most
  | .error _ => []

def dataOf (k : Kernel) (id : Bytes) : Option Bytes :=
  match k.files.resolve (DATA_DIR ++ id) with
  | .ok q => k.files.content q
  | .error _ => none

variable {disk : Disk} {p : Pid} {α : Type}

/-! ## Opening a path twice -/

theorem open_emptied {k k' later opened : Kernel} {path : Bytes} {r : Except Errno Fd} {fd : Fd}
    (emptied : k.openFile p path CREATE_FILE = (r, k')) (files : later.files = k'.files)
    (again : later.openFile p path Flstream.WRONLY = (.ok fd, opened)) :
    ∃ q i, later.files.resolve path = .ok q ∧ later.files.node q = some (.file i) ∧
      later.files.data i = [] ∧ fd = later.nextFd ∧
      opened = later.addDesc ⟨p, some i, Flstream.WRONLY, 0⟩ := by
  -- Where `path` was opened to be emptied, it can be opened for writing only if an empty file is
  -- there.
  rw [Kernel.openFile_eq] at emptied again
  cases first : k.files.opens path CREATE_FILE with
  | error e =>
      simp only [first, Prod.mk.injEq] at emptied
      obtain ⟨_, rfl⟩ := emptied
      -- what could not be emptied cannot be opened now either
      obtain ⟨e', refused⟩ : ∃ e, k.files.opens path Flstream.WRONLY = .error e :=
        refused_again first rfl rfl
      rw [files, refused] at again
      cases again
  | ok result =>
      obtain ⟨ino, f⟩ := result
      obtain ⟨q, i, rfl, resolved, trace⟩ := Files.opens_writing first rfl
      simp only [first, Prod.mk.injEq] at emptied
      obtain ⟨_, rfl⟩ := emptied
      obtain rfl : later.files = f := files
      have second : later.files.opens path Flstream.WRONLY = .ok (some i, later.files) :=
        opens_again first rfl (SameDirs.refl _) (fun _ _ file => file) rfl
      rw [second] at again
      cases again
      exact ⟨q, i, trace.dirs.resolve resolved, trace.node_self, trace.data_empty rfl, rfl, rfl⟩

/-! ## Runs on such a disk -/

theorem writes_other {c : Call} {k k' : Kernel} {n n' : Nat} {r : Resp c}
    (other : ∀ fd bytes, c ≠ .write fd bytes) (step : Writes disk p c (k, n) r (k', n')) :
    Kernel.Does p c k r k' ∧ n' = n := by
  -- only writes are cut short
  have plain : exec disk p c (k, n) = (k.exec p c).map fun (r, k') => (r, k', n) := by
    cases c <;> first | rfl | exact absurd rfl (other _ _)
  rw [Writes, plain, Option.map_eq_some_iff] at step
  obtain ⟨⟨r', after⟩, answered, same⟩ := step
  cases same
  exact ⟨answered, rfl⟩

def still : Footprint := { Footprint.all with writes := False }

theorem still_counts {R : α → Prop} {program : Prog α} (holds : still.Holds R program)
    {k k' : Kernel} {n n' : Nat} {value : α}
    (run : Program.Runs (Writes disk p) program (k, n) value (k', n')) : R value ∧ n' = n := by
  have respects : Program.Respects still.Covers still.Answers (Writes disk p) fun s => s.2 = n := by
    rintro c ⟨k₁, n₁⟩ r ⟨k₂, n₂⟩ covered before step
    have quiet : ∀ fd bytes, c ≠ .write fd bytes := by
      rintro fd bytes rfl
      exact covered
    refine ⟨?_, (writes_other quiet step).2.trans before⟩
    cases c <;> trivial
  exact Program.Within.runs respects holds run rfl

theorem looking_keeps {R : α → Prop} {program : Prog α} (holds : Footprint.looking.Holds R program)
    {k k' : Kernel} {n n' : Nat} {value : α}
    (run : Program.Runs (Writes disk p) program (k, n) value (k', n')) :
    R value ∧ k'.files = k.files ∧ n' = n := by
  have respects : Program.Respects Footprint.looking.Covers Footprint.looking.Answers
      (Writes disk p) fun s => s.1.files = k.files ∧ s.2 = n := by
    rintro c ⟨k₁, n₁⟩ r ⟨k₂, n₂⟩ covered before step
    have quiet : ∀ fd bytes, c ≠ .write fd bytes := by
      rintro fd bytes rfl
      exact covered
    have reading : Kernel.Reading c := by
      cases c <;> first | exact covered | trivial
    obtain ⟨does, count⟩ := writes_other quiet step
    refine ⟨?_, (Kernel.exec_files reading does).trans before.1, count.trans before.2⟩
    cases c <;> trivial
  exact Program.Within.runs respects holds run ⟨rfl, rfl⟩

section Streams
variable {s s' : Flstream} {k k' : Kernel} {n n' : Nat}

theorem new_opens {path : Bytes} {mode : Flags}
    (run : Program.Runs (Writes disk p) (Flstream.new path mode) (k, n) s (k', n')) :
    ∃ r, k.openFile p path mode = (r, k') ∧ n' = n ∧
      (s.fail = false → ∃ fd, r = .ok fd ∧ s = ⟨some fd, 0⟩) := by
  obtain ⟨r, ⟨middle, count⟩, opens, rest⟩ := Program.runs_bind_split run
  obtain ⟨does, rfl⟩ := writes_other (by simp) (Program.runs_issue_iff.mp opens)
  have answered : k.openFile p path mode = (r, middle) := Option.some.inj does
  cases r with
  | ok fd =>
      cases rest
      exact ⟨.ok fd, answered, rfl, fun _ => ⟨fd, rfl, rfl⟩⟩
  | error e =>
      cases rest
      refine ⟨.error e, answered, rfl, fun works => ?_⟩
      have failed := (Flstream.fail_iff none e).mpr (Volume.open_error answered).1
      rw [failed] at works
      cases works

theorem write_counts {bytes : Bytes} {fd : Fd} (descriptor : s.fd = some fd)
    (run : Program.Runs (Writes disk p) (s.write bytes) (k, n) s' (k', n')) :
    n' = n + 1 ∧ s'.fd = some fd ∧ ∃ r, Writes disk p (.write fd bytes) (k, n) r (k', n') := by
  obtain ⟨_, e⟩ := s
  obtain rfl : _ = some fd := descriptor
  obtain ⟨r, ⟨middle, count⟩, wrote, rest⟩ := Program.runs_bind_split run
  have step := Program.runs_issue_iff.mp wrote
  cases rest
  refine ⟨?_, by cases r <;> rfl, r, step⟩
  simp only [Writes, exec] at step
  split at step
  · obtain ⟨_, _, same⟩ := Option.map_eq_some_iff.mp step
    cases same
    rfl
  · cases step
    rfl

theorem writeRecord_counts {record : Bytes} {separator : Byte} {fd : Fd} (descriptor : s.fd = some fd)
    (run : Program.Runs (Writes disk p) (s.writeRecord record separator) (k, n) s' (k', n')) :
    n' = n + 2 ∧ s'.fd = some fd := by
  obtain ⟨middle, ⟨k₁, n₁⟩, first, second⟩ := Program.runs_bind_split run
  obtain ⟨rfl, kept, _⟩ := write_counts descriptor first
  obtain ⟨rfl, kept, _⟩ := write_counts kept second
  exact ⟨rfl, kept⟩

theorem write_stores {bytes : Bytes} {fd : Fd} {i : Ino}
    (found : k.descOf p fd = some ⟨p, some i, Flstream.WRONLY, 0⟩) (empty : k.files.data i = [])
    {r : Except Errno Nat} (step : Writes disk p (.write fd bytes) (k, n) r (k', n')) :
    k'.files.node = k.files.node ∧ k'.files.cwd = k.files.cwd ∧
      k'.files.data i = stored (disk n) bytes := by
  simp only [Writes, exec] at step
  split at step
  · rename_i most outcome
    obtain ⟨_, answered, same⟩ := Option.map_eq_some_iff.mp step
    cases same
    simp only [Kernel.exec, Kernel.writeFile, found, Flstream.WRONLY, Option.some.injEq] at answered
    cases answered
    refine ⟨rfl, rfl, ?_⟩
    simp [outcome, stored, overwrite, empty]
  · rename_i e outcome
    cases step
    exact ⟨rfl, rfl, by rw [empty, outcome]; rfl⟩

end Streams

/-! ## Storing -/

theorem create_empties {k k' : Kernel} {n' : Nat} {name id : Bytes}
    (run : Program.Runs (Writes disk p) (create name) (k, 0) (.ok id) (k', n')) :
    n' = 4 ∧ ∃ before r after, Kernel.openFile before p (DATA_DIR ++ id) CREATE_FILE = (r, after) ∧
      k'.files = after.files := by
  obtain ⟨drawn, ⟨k₁, n₁⟩, draws, run⟩ := Program.runs_bind_split run
  obtain ⟨_, rfl⟩ := writes_other (by simp) (Program.runs_issue_iff.mp draws)
  obtain ⟨nameFile, ⟨k₂, n₂⟩, opens, run⟩ := Program.runs_bind_split run
  obtain ⟨_, _, rfl, open₁⟩ := new_opens opens
  split at run
  · obtain ⟨_, _, _, run⟩ := Program.runs_bind_split run
    cases run
  rename_i works
  obtain ⟨a, _, rfl⟩ := open₁ (by simpa using works)
  obtain ⟨nameFile, ⟨k₃, n₃⟩, locks, run⟩ := Program.runs_bind_split run
  obtain ⟨fd₁, rfl⟩ := still_counts (Flstream.lock_uses _ .write).holds locks
  obtain ⟨idFile, ⟨k₄, n₄⟩, opens, run⟩ := Program.runs_bind_split run
  obtain ⟨_, _, rfl, open₂⟩ := new_opens opens
  split at run
  · obtain ⟨_, _, _, run⟩ := Program.runs_bind_split run
    obtain ⟨_, _, _, run⟩ := Program.runs_bind_split run
    cases run
  rename_i works
  obtain ⟨b, _, rfl⟩ := open₂ (by simpa using works)
  obtain ⟨idFile, ⟨k₅, n₅⟩, locks, run⟩ := Program.runs_bind_split run
  obtain ⟨fd₂, rfl⟩ := still_counts (Flstream.lock_uses _ .write).holds locks
  -- two writes for the line of the index, two for the record
  obtain ⟨nameFile, ⟨k₆, n₆⟩, writes, run⟩ := Program.runs_bind_split run
  obtain ⟨rfl, _⟩ := writeRecord_counts fd₁ writes
  obtain ⟨nameFile, ⟨k₇, n₇⟩, closes, run⟩ := Program.runs_bind_split run
  obtain ⟨_, rfl⟩ := still_counts (Flstream.close_holds _) closes
  obtain ⟨idFile, ⟨k₈, n₈⟩, writes, run⟩ := Program.runs_bind_split run
  obtain ⟨rfl, _⟩ := writeRecord_counts fd₂ writes
  obtain ⟨dataFile, ⟨k₉, n₉⟩, opens, run⟩ := Program.runs_bind_split run
  obtain ⟨r, emptied, rfl, _⟩ := new_opens opens
  have closing : Footprint.looking.Holds (fun result => ∀ x, result = .ok x → x = drawn)
      (dataFile.close.bind fun _ => idFile.close.bind fun _ => nameFile.close.bind fun _ =>
        (.done (.ok drawn) : Prog (Except Error Bytes))) :=
    (Flstream.close_holds _).bind fun _ _ => (Flstream.close_holds _).bind fun _ _ =>
      (Flstream.close_holds _).bind fun _ _ => Footprint.holds_done (by
        rintro x ⟨⟩
        rfl)
  obtain ⟨same, files, rfl⟩ := looking_keeps closing run
  obtain rfl := same id rfl
  exact ⟨rfl, k₈, r, k₉, emptied, files⟩

theorem store_leaves {k k' : Kernel} {n' : Nat} {name data id : Bytes}
    (run : Program.Runs (Writes disk p) (Volume.store name data) (k, 0) (.ok id) (k', n')) :
    dataOf k' id = some (stored (disk 4) data) := by
  obtain ⟨created, ⟨k₁, n₁⟩, creates, run⟩ := Program.runs_bind_split run
  cases created with
  | error e => cases run
  | ok drawn =>
  obtain ⟨rfl, before, r, after, emptied, files₁⟩ := create_empties creates
  obtain ⟨found, ⟨k₂, n₂⟩, looks, run⟩ := Program.runs_bind_split run
  obtain ⟨own, files₂, rfl⟩ := looking_keeps (byId_holds drawn ⟨rfl, rfl⟩) looks
  cases found with
  | error e => cases run
  | ok object =>
  obtain ⟨rfl, _⟩ := own object rfl
  obtain ⟨opened, ⟨k₃, n₃⟩, gets, run⟩ := Program.runs_bind_split run
  obtain ⟨stream, ⟨k₄, n₄⟩, opens, gets⟩ := Program.runs_bind_split gets
  obtain ⟨answer, again, rfl, works⟩ := new_opens opens
  split at gets
  · obtain ⟨_, _, _, gets⟩ := Program.runs_bind_split gets
    cases gets
    cases run
  rename_i open_
  cases gets
  obtain ⟨fd, rfl, rfl⟩ := works (by simpa using open_)
  obtain ⟨q, i, resolved, file, empty, rfl, rfl⟩ :=
    open_emptied emptied (files₂.trans files₁) again
  obtain ⟨stream, ⟨k₅, n₅⟩, writes, run⟩ := Program.runs_bind_split run
  obtain ⟨rfl, _, answer, wrote⟩ := write_counts rfl writes
  have found : (k₂.addDesc ⟨p, some i, Flstream.WRONLY, 0⟩).descOf p k₂.nextFd =
      some ⟨p, some i, Flstream.WRONLY, 0⟩ := by
    simp [Kernel.descOf_addDesc]
  obtain ⟨node, cwd, data⟩ := write_stores found empty wrote
  obtain ⟨stream, ⟨k₆, n₆⟩, closes, run⟩ := Program.runs_bind_split run
  obtain ⟨_, files₆, _⟩ := looking_keeps (Flstream.close_holds _) closes
  cases run
  -- the write and the close move no file
  have there : k'.files.resolve (DATA_DIR ++ object.id) = .ok q := by
    rw [files₆, Files.resolve, node, cwd]
    exact resolved
  rw [dataOf, there]
  simp only [Files.content, files₆, node, data, Kernel.files_addDesc, file]

theorem stored_whole (outcome : Except Errno Nat) (bytes : Bytes) :
    stored outcome bytes = bytes ↔ bytes = [] ∨ ∃ most, outcome = .ok most ∧ bytes.length ≤ most := by
  cases outcome with
  | ok most =>
      simp only [stored, List.take_eq_self_iff, Except.ok.injEq, exists_eq_left']
      constructor
      · exact Or.inr
      · rintro (rfl | fits)
        · exact Nat.zero_le most
        · exact fits
  | error e => simp [stored, eq_comm]

/-- A store that returns an id has stored the whole data just where its fifth
write, that of the data, was not cut short. -/
theorem store_reports_success (disk : Disk) (p : Pid) (k k' : Kernel) (n' : Nat)
    (name data id : Bytes)
    (run : Program.Runs (Writes disk p) (Volume.store name data) (k, 0) (.ok id) (k', n')) :
    dataOf k' id = some data ↔
      data = [] ∨ ∃ most, disk 4 = .ok most ∧ data.length ≤ most := by
  rw [store_leaves run, Option.some.injEq]
  exact stored_whole (disk 4) data

/-! ## A disk that fills up -/

def full : Disk := fun n => if n < 4 then .ok 100 else .ok 1

theorem full_run : ∃ k' n', Program.Runs (Writes full 1) (Volume.store (ascii "a") [7, 8])
    (Volume.initKernel fun _ => ascii "1", 0) (.ok (ascii "1")) (k', n') := by
  have ran : (Program.run (exec full 1) 40 (Volume.store (ascii "a") [7, 8])
      (Volume.initKernel fun _ => ascii "1", 0)).map Prod.fst = some (.ok (ascii "1")) := rfl
  obtain ⟨⟨value, k', n'⟩, result, same⟩ := Option.map_eq_some_iff.mp ran
  obtain rfl : value = .ok (ascii "1") := same
  exact ⟨k', n', Program.run_sound _ _ _ _ _ _ result⟩

theorem store_reports_success_full : ∃ k' n',
    Program.Runs (Writes full 1) (Volume.store (ascii "a") [7, 8])
      (Volume.initKernel fun _ => ascii "1", 0) (.ok (ascii "1")) (k', n') ∧
    (dataOf k' (ascii "1") = some [7, 8] ↔
      ([7, 8] : Bytes) = [] ∨ ∃ most, full 4 = .ok most ∧ ([7, 8] : Bytes).length ≤ most) := by
  obtain ⟨k', n', run⟩ := full_run
  exact ⟨k', n', run, store_reports_success full 1 _ k' n' _ _ _ run⟩

/-- The id is returned, and half of the data is missing. -/
theorem full_disk_unnoticed : ∃ k' n',
    Program.Runs (Writes full 1) (Volume.store (ascii "a") [7, 8])
      (Volume.initKernel fun _ => ascii "1", 0) (.ok (ascii "1")) (k', n') ∧
    dataOf k' (ascii "1") ≠ some [7, 8] := by
  obtain ⟨k', n', run⟩ := full_run
  refine ⟨k', n', run, ?_⟩
  rw [store_leaves run]
  decide

end Sfsdb.ShortWrites

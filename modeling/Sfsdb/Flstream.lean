import Sfsdb.FileView

/-!
`class flstream` of src/flstream.hpp as programs over the kernel's calls. `fd`
is `none` where the source has -1; a system call on it fails with EBADF, as it
does on a descriptor that was closed before. Every operation leaves its outcome
in `err`, which `fail` reads back. A moved-from stream has no descriptor, so
moving a stream is passing it on.
-/

namespace Sfsdb

open Posix

structure Flstream where
  fd : Option Fd
  err : Errno
  deriving DecidableEq

namespace Flstream

def RDONLY : Flags := { read := true }
def WRONLY : Flags := { write := true }
def RDWR : Flags := { read := true, write := true }
def APPEND : Flags := { append := true }
def CREAT : Flags := { creat := true }
def TRUNC : Flags := { trunc := true }

def fail (s : Flstream) : Bool := s.err ≠ 0

@[simp] theorem fail_opened (fd : Option Fd) : Flstream.fail ⟨fd, 0⟩ = false := rfl

theorem fail_iff (fd : Option Fd) (e : Errno) : Flstream.fail ⟨fd, e⟩ = true ↔ e ≠ 0 := by
  simp [fail]

def outcome {α : Type} (s : Flstream) : Except Errno α → Flstream
  | .error e => { s with err := e }
  | .ok _ => { s with err := 0 }

/-- The constructor from a path: `fd` is still -1, so `open` has nothing to close. -/
def new (path : Bytes) (mode : Flags) : Prog Flstream := do
  match ← Sys.openFile path mode with
  | .error e => return { fd := none, err := e }
  | .ok fd => return { fd := some fd, err := 0 }

def lock (s : Flstream) (kind : LockKind) : Prog Flstream :=
  match s.fd with
  | none => return { s with err := EBADF }
  | some fd => do return s.outcome (← Sys.lock fd kind)

def unlockFile (s : Flstream) : Prog Flstream :=
  match s.fd with
  | none => return { s with err := EBADF }
  | some fd => do return s.outcome (← Sys.unlock fd)

/-- Also the destructor. The descriptor number is kept, so that closing twice
unlocks a closed descriptor and stops there. -/
def close (s : Flstream) : Prog Flstream := do
  let s ← s.unlockFile
  if s.fail then return s
  match s.fd with
  | none => return { s with err := EBADF }
  | some fd => return s.outcome (← Sys.close fd)

def read (s : Flstream) (len : Nat) : Prog (Bytes × Flstream) :=
  match s.fd with
  | none => return ([], { s with err := EBADF })
  | some fd => do
      match ← Sys.read fd len with
      | .error e => return ([], { s with err := e })
      | .ok bytes => return (bytes, { s with err := 0 })

def write (s : Flstream) (bytes : Bytes) : Prog Flstream :=
  match s.fd with
  | none => return { s with err := EBADF }
  | some fd => do return s.outcome (← Sys.write fd bytes)

/-- `lseek(fd, 0, SEEK_CUR)`, which is -1 where it fails. -/
def tell (s : Flstream) : Prog Int :=
  match s.fd with
  | none => return -1
  | some fd => do
      match ← Sys.tell fd with
      | .error _ => return -1
      | .ok pos => return pos

def seek (s : Flstream) (pos : Int) : Prog Unit :=
  match s.fd with
  | none => return ()
  | some fd => do
      let _ ← Sys.seek fd pos
      return ()

/-- `ftruncate(native_handle(), len)`, whose result the caller ignores. -/
def truncate (s : Flstream) (len : Nat) : Prog Unit :=
  match s.fd with
  | none => return ()
  | some fd => do
      let _ ← Sys.ftruncate fd len
      return ()

/-- `s << record << separator`: two writes. -/
def writeRecord (s : Flstream) (record : Bytes) (separator : Byte) : Prog Flstream := do
  let s ← s.write record
  s.write [separator]

/-- What one pass of `getline` starts from: `_buf`, `passes` and the stream. -/
structure LineState where
  buf : Bytes
  passes : Nat
  stream : Flstream

/-- One pass of the `while (true)` in `getline`: read a chunk, look for the
delimiter in it, and either leave the loop or append the full chunk. -/
def linePass (delim : Byte) (chunkSize : Nat) (st : LineState) :
    Prog (LineState ⊕ (Bool × Bytes × Flstream)) := do
  let (chunk, s) ← st.stream.read chunkSize
  if s.fail then return .inr (false, st.buf, s)
  if chunk.length = 0 then return .inr (st.passes ≠ 0, st.buf, s)
  match chunk.findIdx? (· = delim) with
  | some i =>
      let pos ← s.tell
      s.seek (pos - chunk.length + i + 1)
      return .inr (true, st.buf ++ chunk.take i, s)
  | none =>
      if chunk.length < chunkSize then return .inr (true, st.buf ++ chunk, s)
      else return .inl { buf := st.buf ++ chunk, passes := st.passes + 1, stream := s }

def getline (s : Flstream) (delim : Byte) (chunkSize : Nat := 1024) :
    Prog (Bool × Bytes × Flstream) :=
  Program.iterate (linePass delim chunkSize) { buf := [], passes := 0, stream := s }

def linesPass (delim : Byte) (st : List Bytes × Flstream) :
    Prog ((List Bytes × Flstream) ⊕ (List Bytes × Flstream)) := do
  let (more, line, s) ← Flstream.getline st.2 delim
  if more then return .inl (st.1 ++ [line], s) else return .inr (st.1, s)

def getlines (s : Flstream) (delim : Byte) : Prog (List Bytes × Flstream) :=
  Program.iterate (linesPass delim) ([], s)

/-- The same loop over chunks of any size; the loops of the source leave it at 1024. -/
def linesPassBy (delim : Byte) (chunkSize : Nat) (st : List Bytes × Flstream) :
    Prog ((List Bytes × Flstream) ⊕ (List Bytes × Flstream)) := do
  let (more, line, s) ← Flstream.getline st.2 delim chunkSize
  if more then return .inl (st.1 ++ [line], s) else return .inr (st.1, s)

def getlinesBy (s : Flstream) (delim : Byte) (chunkSize : Nat) : Prog (List Bytes × Flstream) :=
  Program.iterate (linesPassBy delim chunkSize) ([], s)

theorem getlines_eq (s : Flstream) (delim : Byte) : s.getlines delim = s.getlinesBy delim 1024 := rfl

/-! ## Runs of one process, one lemma for each operation -/

/-- The bytes of inode `i` that a descriptor at `pos` has not passed yet. -/
def unread (k : Kernel) (i : Ino) (pos : Nat) : Bytes := (k.files.data i).drop pos

@[simp] theorem unread_setPos (k : Kernel) (fd : Fd) (d : Description) (i : Ino) (pos next : Nat) :
    unread (k.setPos fd d pos) i next = unread k i next := rfl

theorem unread_drop (k : Kernel) (i : Ino) (pos count : Nat) :
    (unread k i pos).drop count = unread k i (pos + count) := by
  simp [unread]

section Runs
variable {p : Pid} {k : Kernel} {fd : Fd} {d : Description} {i : Ino} {e : Errno}

theorem issue_runs {c : Call} {r : Resp c} {k' : Kernel} (answered : k.exec p c = some (r, k')) :
    Runs p (Program.issue c) k r k' :=
  Program.runs_issue_iff.mpr answered

theorem new_runs {path : Bytes} {mode : Flags} {opened : Fd} {k' : Kernel}
    (answered : k.openFile p path mode = (.ok opened, k')) :
    Runs p (new path mode) k ⟨some opened, 0⟩ k' :=
  (issue_runs (c := .open path mode) (congrArg some answered)).bind Program.Runs.done

theorem new_failed {path : Bytes} {mode : Flags} {k' : Kernel}
    (answered : k.openFile p path mode = (.error e, k')) :
    Runs p (new path mode) k ⟨none, e⟩ k' :=
  (issue_runs (c := .open path mode) (congrArg some answered)).bind Program.Runs.done

theorem new_file {path : Bytes} {q : Path} (mode : Flags) (resolved : k.files.resolve path = .ok q)
    (file : k.files.node q = some (.file i)) (whole : mode.trunc = false) :
    Runs p (new path mode) k ⟨some k.nextFd, 0⟩ (k.addDesc ⟨p, some i, mode, 0⟩) :=
  new_runs (by simp [Kernel.openFile, resolved, file, whole])

theorem new_truncated {path : Bytes} {mode : Flags} {q : Path}
    (resolved : k.files.resolve path = .ok q) (file : k.files.node q = some (.file i))
    (cut : mode.trunc = true ∧ mode.write = true) :
    Runs p (new path mode) k ⟨some k.nextFd, 0⟩
      ((k.setData i []).addDesc ⟨p, some i, mode, 0⟩) :=
  new_runs (by simp [Kernel.openFile, resolved, file, cut])

theorem new_created {path : Bytes} {mode : Flags} {q : Path}
    (resolved : k.files.resolve path = .ok q) (absent : k.files.node q = none)
    (creates : mode.creat = true) :
    Runs p (new path mode) k ⟨some k.nextFd, 0⟩
      ((k.create q).addDesc ⟨p, some k.files.nextIno, mode, 0⟩) :=
  new_runs (by simp [Kernel.openFile, resolved, absent, creates])

theorem new_missing {path : Bytes} {mode : Flags} {q : Path}
    (resolved : k.files.resolve path = .ok q) (absent : k.files.node q = none)
    (keeps : mode.creat = false) : Runs p (new path mode) k ⟨none, ENOENT⟩ k :=
  new_failed (by simp [Kernel.openFile, resolved, absent, keeps])

theorem lock_runs {kind : LockKind} (found : k.descOf p fd = some d) (ino : d.ino = some i)
    (allowed : (kind = .read ∧ d.flags.read = true) ∨ (kind = .write ∧ d.flags.write = true))
    (free : k.conflicts p i kind = false) :
    Runs p (lock ⟨some fd, e⟩ kind) k ⟨some fd, 0⟩ (k.grant p i kind) := by
  refine Program.Runs.bind (issue_runs (c := .lock fd kind) (r := .ok ()) ?_)
    Program.Runs.done
  rcases allowed with ⟨rfl, may⟩ | ⟨rfl, may⟩ <;>
    simp [Kernel.exec, Kernel.lockFile, found, ino, may, free]

theorem close_runs (found : k.descOf p fd = some d) (ino : d.ino = some i) :
    Runs p (close ⟨some fd, e⟩) k ⟨some fd, 0⟩ ((k.release p i).dropDesc fd) := by
  have unlocked : Runs p (unlockFile ⟨some fd, e⟩) k ⟨some fd, 0⟩ (k.release p i) :=
    (issue_runs (c := .unlock fd) (r := .ok ()) (by
      simp [Kernel.exec, Kernel.unlockFile, found, ino])).bind Program.Runs.done
  have closed : Runs p (Sys.close fd) (k.release p i) (.ok ()) ((k.release p i).dropDesc fd) :=
    issue_runs (c := .close fd) (by
      simp [Kernel.exec, Kernel.closeFile, found, ino, Kernel.release_release])
  exact unlocked.bind (closed.bind Program.Runs.done)

theorem close_closed (closed : k.descOf p fd = none) :
    Runs p (close ⟨some fd, e⟩) k ⟨some fd, EBADF⟩ k := by
  -- A second close stops at the unlock, which the closed descriptor refuses.
  have unlocked : Runs p (unlockFile ⟨some fd, e⟩) k ⟨some fd, EBADF⟩ k :=
    (issue_runs (c := .unlock fd) (r := .error EBADF) (by
      simp [Kernel.exec, Kernel.unlockFile, closed])).bind Program.Runs.done
  exact unlocked.bind Program.Runs.done

theorem close_unopened : Runs p (close ⟨none, e⟩) k ⟨none, EBADF⟩ k :=
  Program.Runs.done

theorem read_runs (len : Nat) (found : k.descOf p fd = some d) (ino : d.ino = some i)
    (readable : d.flags.read = true) :
    Runs p (read ⟨some fd, e⟩ len) k ((unread k i d.pos).take len, ⟨some fd, 0⟩)
      (k.setPos fd d (d.pos + ((unread k i d.pos).take len).length)) :=
  (issue_runs (c := .read fd len) (r := .ok ((unread k i d.pos).take len)) (by
    simp [Kernel.exec, Kernel.readFile, found, readable, ino, unread])).bind Program.Runs.done

theorem write_runs (bytes : Bytes) (found : k.descOf p fd = some d) (ino : d.ino = some i)
    (writable : d.flags.write = true)
    (atEnd : d.flags.append = true ∨ d.pos = (k.files.data i).length) :
    Runs p (write ⟨some fd, e⟩ bytes) k ⟨some fd, 0⟩
      ((k.setData i (k.files.data i ++ bytes)).setPos fd d
        ((k.files.data i).length + bytes.length)) := by
  refine Program.Runs.bind (issue_runs (c := .write fd bytes) (r := .ok bytes.length) ?_)
    Program.Runs.done
  have pos : (if d.flags.append then (k.files.data i).length else d.pos) =
      (k.files.data i).length := by
    rcases atEnd with append | same
    · simp [append]
    · simp [same]
  simp [Kernel.exec, Kernel.writeFile, found, ino, writable, pos, Kernel.overwrite_end]

theorem writeRecord_runs (record : Bytes) (separator : Byte) (found : k.descOf p fd = some d)
    (ino : d.ino = some i) (writable : d.flags.write = true)
    (atEnd : d.flags.append = true ∨ d.pos = (k.files.data i).length) :
    Runs p (writeRecord ⟨some fd, e⟩ record separator) k ⟨some fd, 0⟩
      ((k.setData i (k.files.data i ++ (record ++ [separator]))).setPos fd d
        ((k.files.data i).length + (record.length + 1))) := by
  have own := Kernel.descOf_pid found
  apply Program.Runs.bind (write_runs record found ino writable atEnd)
  refine (write_runs [separator] (d := { d with pos := (k.files.data i).length + record.length }) (i := i)
    ?_ ino writable (Or.inr ?_)).of_eq rfl ?_
  · simp [Kernel.descOf_setPos _ own]
  · simp
  · simp only [Kernel.files_setPos, Kernel.files_setData, Files.data_setData,
      Function.update_self, Kernel.setPos_setData, Kernel.setData_setData, Kernel.setPos_setPos,
      List.append_assoc, List.length_append, List.length_singleton, Nat.add_assoc]
    rfl

theorem tell_runs (found : k.descOf p fd = some d) : Runs p (tell ⟨some fd, e⟩) k d.pos k :=
  (issue_runs (c := .tell fd) (r := .ok d.pos) (by
    simp [Kernel.exec, Kernel.tellFile, found])).bind Program.Runs.done

theorem seek_runs (pos : Nat) (found : k.descOf p fd = some d) :
    Runs p (seek ⟨some fd, e⟩ pos) k () (k.setPos fd d pos) :=
  (issue_runs (c := .seek fd pos) (r := .ok pos) (by
    simp [Kernel.exec, Kernel.seekFile, found])).bind Program.Runs.done

theorem truncate_runs (found : k.descOf p fd = some d) (ino : d.ino = some i)
    (writable : d.flags.write = true) :
    Runs p (truncate ⟨some fd, e⟩ 0) k () (k.setData i []) :=
  (issue_runs (c := .ftruncate fd 0) (r := .ok ()) (by
    simp [Kernel.exec, Kernel.truncateFile, found, ino, writable])).bind Program.Runs.done

section Lines
variable {delim : Byte} {chunkSize : Nat}

theorem linePass_again (found : k.descOf p fd = some d) (ino : d.ino = some i)
    (readable : d.flags.read = true) (positive : 0 < chunkSize) (buf : Bytes) (passes : Nat)
    (free : delim ∉ (unread k i d.pos).take chunkSize)
    (full : chunkSize ≤ (unread k i d.pos).length) :
    Runs p (linePass delim chunkSize ⟨buf, passes, ⟨some fd, e⟩⟩) k
      (.inl ⟨buf ++ (unread k i d.pos).take chunkSize, passes + 1, ⟨some fd, 0⟩⟩)
      (k.setPos fd d (d.pos + chunkSize)) := by
  have size : ((unread k i d.pos).take chunkSize).length = chunkSize := by
    simp [full]
  apply Program.Runs.bind (read_runs chunkSize found ino readable)
  generalize chunk_eq : (unread k i d.pos).take chunkSize = chunk at *
  simp only [size, fail, ne_eq, not_true_eq_false, decide_false, Bool.false_eq_true, ↓reduceIte,
    Records.findIdx?_eq, free, Nat.ne_of_gt positive, Nat.lt_irrefl]
  exact Program.Runs.done

theorem linePass_leave (found : k.descOf p fd = some d) (ino : d.ino = some i)
    (readable : d.flags.read = true) (buf : Bytes) (passes : Nat)
    (last : delim ∈ (unread k i d.pos).take chunkSize ∨ (unread k i d.pos).length < chunkSize) :
    Runs p (linePass delim chunkSize ⟨buf, passes, ⟨some fd, e⟩⟩) k
      (.inr (decide (passes ≠ 0 ∨ unread k i d.pos ≠ []),
        buf ++ Records.first delim (unread k i d.pos), ⟨some fd, 0⟩))
      (k.setPos fd d (d.pos + ((unread k i d.pos).length -
        (Records.after delim (unread k i d.pos)).length))) := by
  have whole := List.take_append_drop chunkSize (unread k i d.pos)
  apply Program.Runs.bind (read_runs chunkSize found ino readable)
  generalize chunk_eq : (unread k i d.pos).take chunkSize = chunk at *
  generalize unread k i d.pos = rest at *
  have found' : (k.setPos fd d (d.pos + chunk.length)).descOf p fd =
      some { d with pos := d.pos + chunk.length } := by
    simp [Kernel.descOf_setPos _ (Kernel.descOf_pid found)]
  simp only [fail, ne_eq, not_true_eq_false, decide_false, Bool.false_eq_true, ↓reduceIte]
  by_cases nothing : chunk = []
  · have ended : rest = [] := by
      rcases last with member | short
      · simp [nothing] at member
      · simpa [nothing, List.drop_eq_nil_of_le (Nat.le_of_lt short)] using whole.symm
    subst nothing ended
    simp only [List.length_nil, ↓reduceIte]
    exact Program.Runs.done.of_eq (by simp [Records.first]) (by simp)
  · have some : rest ≠ [] := by
      rintro rfl
      exact nothing (by simpa using chunk_eq.symm)
    rw [if_neg (by simpa using nothing), Records.findIdx?_eq]
    by_cases hit : delim ∈ chunk
    · have present : delim ∈ rest := whole ▸ List.mem_append_left _ hit
      have same : Records.first delim rest = Records.first delim chunk := by
        rw [← whole, Records.first_within delim chunk _ hit]
      simp only [hit, ↓reduceIte, Records.length_sub_after delim rest present, same]
      apply Program.Runs.bind (tell_runs found')
      have target : ((d.pos + chunk.length : Nat) : Int) - chunk.length +
          (Records.first delim chunk).length + 1 =
          ((d.pos + ((Records.first delim chunk).length + 1) : Nat) : Int) := by
        omega
      dsimp only
      rw [target]
      apply Program.Runs.bind (seek_runs _ found')
      exact Program.Runs.done.of_eq (by simp [some, Records.take_first])
        (Kernel.setPos_setPos _ _ _)
    · have all : chunk = rest := by
        rcases last with member | short
        · exact absurd member hit
        · rw [← chunk_eq, List.take_of_length_le (Nat.le_of_lt short)]
      have short : rest.length < chunkSize := by
        rcases last with member | short
        · exact absurd member hit
        · exact short
      subst all
      simp only [hit, ↓reduceIte, short]
      exact Program.Runs.done.of_eq
        (by simp [some, Records.first_of_free delim chunk hit])
        (by simp [Records.after_of_free delim chunk hit])

/-- Whatever the size of the chunks, `getline` returns the next record and stands behind its
delimiter; it reports failure exactly where nothing was left to read. -/
theorem lines_from (n : Nat) (found : k.descOf p fd = some d) (ino : d.ino = some i)
    (readable : d.flags.read = true) (positive : 0 < chunkSize) (buf : Bytes) (passes : Nat)
    (bound : (unread k i d.pos).length ≤ n) :
    Runs p (Program.iterate (linePass delim chunkSize) ⟨buf, passes, ⟨some fd, e⟩⟩) k
      (decide (passes ≠ 0 ∨ unread k i d.pos ≠ []),
        buf ++ Records.first delim (unread k i d.pos), ⟨some fd, 0⟩)
      (k.setPos fd d (d.pos + ((unread k i d.pos).length -
        (Records.after delim (unread k i d.pos)).length))) := by
  induction n using Nat.strong_induction_on generalizing k d buf passes e with
  | _ n ih =>
      by_cases last : delim ∈ (unread k i d.pos).take chunkSize ∨
          (unread k i d.pos).length < chunkSize
      · exact Program.Runs.leave (linePass_leave found ino readable buf passes last)
      · obtain ⟨free, full⟩ := not_or.mp last
        have pass := linePass_again (e := e) found ino readable positive buf passes free
          (Nat.le_of_not_lt full)
        have found' : (k.setPos fd d (d.pos + chunkSize)).descOf p fd =
            some { d with pos := d.pos + chunkSize } := by
          simp [Kernel.descOf_setPos _ (Kernel.descOf_pid found)]
        have split := List.take_append_drop chunkSize (unread k i d.pos)
        have shorter : (unread k i (d.pos + chunkSize)).length + chunkSize =
            (unread k i d.pos).length := by
          have size := congrArg List.length split
          rw [List.length_append, List.length_take, unread_drop] at size
          omega
        refine Program.Runs.again pass ((ih (n - chunkSize) (by omega) found' ino readable
          (buf ++ (unread k i d.pos).take chunkSize) (passes + 1) ?_).of_eq ?_ ?_)
        · simp only [unread_setPos]
          omega
        · have line := Records.first_through delim _ ((unread k i d.pos).drop chunkSize) free
          rw [split, unread_drop] at line
          have some : unread k i d.pos ≠ [] := List.length_pos_iff.mp (by omega)
          simp [line, some]
        · have left := Records.after_through delim _ ((unread k i d.pos).drop chunkSize) free
          rw [split, unread_drop] at left
          have fits : (Records.after delim (unread k i (d.pos + chunkSize))).length ≤
              (unread k i (d.pos + chunkSize)).length := Records.after_length_le delim _
          have stop : d.pos + chunkSize + ((unread k i (d.pos + chunkSize)).length -
              (Records.after delim (unread k i (d.pos + chunkSize))).length) =
              d.pos + ((unread k i d.pos).length -
                (Records.after delim (unread k i (d.pos + chunkSize))).length) := by
            omega
          simp only [unread_setPos, Kernel.setPos_setPos, left, stop]
          rfl

variable (delim) in
theorem getline_runs (found : k.descOf p fd = some d) (ino : d.ino = some i)
    (readable : d.flags.read = true) (positive : 0 < chunkSize) :
    Runs p (getline ⟨some fd, e⟩ delim chunkSize) k
      (decide (unread k i d.pos ≠ []), Records.first delim (unread k i d.pos), ⟨some fd, 0⟩)
      (k.setPos fd d (d.pos + ((unread k i d.pos).length -
        (Records.after delim (unread k i d.pos)).length))) :=
  (lines_from (e := e) _ found ino readable positive [] 0 (Nat.le_refl _)).of_eq
    (by simp) rfl

theorem lines_collected (n : Nat) (found : k.descOf p fd = some d) (ino : d.ino = some i)
    (readable : d.flags.read = true) (positive : 0 < chunkSize) (lines : List Bytes)
    (bound : (unread k i d.pos).length ≤ n) :
    Runs p (Program.iterate (linesPassBy delim chunkSize) (lines, ⟨some fd, e⟩)) k
      (lines ++ Records.split delim (unread k i d.pos), ⟨some fd, 0⟩)
      (k.setPos fd d (d.pos + (unread k i d.pos).length)) := by
  induction n using Nat.strong_induction_on generalizing k d lines e with
  | _ n ih =>
      have line := getline_runs (e := e) delim found ino readable positive
      by_cases nothing : unread k i d.pos = []
      · have turn : Runs p (linesPassBy delim chunkSize (lines, ⟨some fd, e⟩)) k (.inr (lines, ⟨some fd, 0⟩))
            (k.setPos fd d d.pos) := by
          apply line.bind
          simp only [nothing, ne_eq, not_true_eq_false, decide_false, Bool.false_eq_true, ↓reduceIte]
          exact Program.Runs.done
        exact (Program.Runs.leave turn).of_eq (by simp [nothing, Records.split]) (by simp [nothing])
      · generalize stop_eq : d.pos + ((unread k i d.pos).length -
          (Records.after delim (unread k i d.pos)).length) = stop at line
        have turn : Runs p (linesPassBy delim chunkSize (lines, ⟨some fd, e⟩)) k
            (.inl (lines ++ [Records.first delim (unread k i d.pos)], ⟨some fd, 0⟩))
            (k.setPos fd d stop) := by
          apply line.bind
          simp only [nothing, ne_eq, not_false_eq_true, decide_true, ↓reduceIte]
          exact Program.Runs.done
        have found' : (k.setPos fd d stop).descOf p fd = some { d with pos := stop } := by
          simp [Kernel.descOf_setPos _ (Kernel.descOf_pid found)]
        have left : unread k i stop = Records.after delim (unread k i d.pos) := by
          rw [← stop_eq, ← unread_drop, Records.drop_after]
        have shorter := Records.after_length_lt delim _ nothing
        have fits := Records.after_length_le delim (unread k i d.pos)
        refine Program.Runs.again turn ((ih (Records.after delim (unread k i d.pos)).length
          (by omega) found' ino readable _ ?_).of_eq ?_ ?_)
        · simp [left]
        · simp [left, Records.split_eq delim _ nothing]
        · have total : stop + (unread k i stop).length = d.pos + (unread k i d.pos).length := by
            rw [left]
            omega
          simp only [unread_setPos, Kernel.setPos_setPos, total]
          rfl

variable (delim) in
theorem getlinesBy_runs (found : k.descOf p fd = some d) (ino : d.ino = some i)
    (readable : d.flags.read = true) (positive : 0 < chunkSize) :
    Runs p (getlinesBy ⟨some fd, e⟩ delim chunkSize) k
      (Records.split delim (unread k i d.pos), ⟨some fd, 0⟩)
      (k.setPos fd d (d.pos + (unread k i d.pos).length)) :=
  lines_collected _ found ino readable positive [] (Nat.le_refl _)

variable (delim) in
theorem getlines_runs (found : k.descOf p fd = some d) (ino : d.ino = some i)
    (readable : d.flags.read = true) :
    Runs p (getlines ⟨some fd, e⟩ delim) k (Records.split delim (unread k i d.pos), ⟨some fd, 0⟩)
      (k.setPos fd d (d.pos + (unread k i d.pos).length)) :=
  getlines_eq _ _ ▸ getlinesBy_runs delim found ino readable (Nat.succ_pos 1023)

end Lines

end Runs

end Flstream
end Sfsdb

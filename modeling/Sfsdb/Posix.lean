import Mathlib.Logic.Function.Basic
import Sfsdb.Program
import Sfsdb.Records

/-!
The part of a POSIX kernel that file programs and stream servers use: a
directory tree of inodes, open file descriptions, advisory whole-file record
locks, memory mappings and one byte stream per process. Paths are C strings
resolved with the usual rules for '/', '.' and '..'; there are no symbolic
links. `exec` is the outcome of a call that suffers no disk, permission or
resource error, and is undefined exactly where the call has to wait for a lock.
Descriptors are numbered once and never reused. What a stream reads that ends
before the bytes asked for is up to the library around it, and left open: `short`.
-/

namespace Sfsdb.Posix

abbrev Byte := UInt8
abbrev Bytes := List Byte
abbrev Errno := Nat
abbrev Pid := Nat
abbrev Ino := Nat
abbrev Fd := Nat

def ascii (text : String) : Bytes := text.toList.map fun c => c.toNat.toUInt8

def ENOENT : Errno := 2
def EBADF : Errno := 9
def EISDIR : Errno := 21
def ENOTDIR : Errno := 20
def EINVAL : Errno := 22
def EACCES : Errno := 13
def ENODEV : Errno := 19
def ENOTEMPTY : Errno := 39

/-! ## C strings and paths -/

/-- What a C interface sees of a byte string: everything before the first NUL. -/
def cstr (text : Bytes) : Bytes := text.takeWhile (· ≠ 0)

/-- Byte strings that can be handed over as C strings without loss. -/
def CString : Type := { text : Bytes // 0 ∉ text }

def slash : Byte := 47
def dot : Bytes := [46]
def dotdot : Bytes := [46, 46]

/-- Absolute, resolved paths: the names from the root down. -/
abbrev Path := List Bytes

inductive Node where
  | dir
  | file (ino : Ino)
  deriving DecidableEq

/-- What stands between the slashes; empty components are skipped. -/
def parts (path : Bytes) : List Bytes := (Records.split slash path).filter (· ≠ [])

/-- A trailing slash asks for a directory, as if "." followed it. -/
def components (path : Bytes) : List Bytes :=
  parts path ++ if path.getLast? = some slash then [dot] else []

def walk (node : Path → Option Node) : Path → List Bytes → Except Errno Path
  | here, [] => .ok here
  | here, name :: rest =>
      if name = dot then walk node here rest
      else if name = dotdot then walk node here.dropLast rest
      else match rest with
        | [] => .ok (here ++ [name])
        | _ :: _ => match node (here ++ [name]) with
          | some .dir => walk node (here ++ [name]) rest
          | some (.file _) => .error ENOTDIR
          | none => .error ENOENT

/-- A name that stands for itself in a directory. -/
def PlainName (name : Bytes) : Prop :=
  name ≠ [] ∧ slash ∉ name ∧ 0 ∉ name ∧ name ≠ dot ∧ name ≠ dotdot

instance (name : Bytes) : Decidable (PlainName name) := by
  unfold PlainName
  infer_instance

theorem cstr_of_free (text : Bytes) (free : 0 ∉ text) : cstr text = text :=
  Records.first_of_free 0 text free

theorem cstr_free (text : Bytes) : 0 ∉ cstr text := Records.first_free 0 text

theorem cstr_append (front text : Bytes) (free : 0 ∉ front) :
    cstr (front ++ text) = front ++ cstr text :=
  Records.first_through 0 front text free

theorem components_render (names : List Bytes) (rest : Bytes)
    (plain : ∀ name ∈ names, name ≠ [] ∧ slash ∉ name) (remains : rest ≠ []) :
    components (Records.render slash names ++ rest) = names ++ components rest := by
  have parts := Records.split_render_append slash names rest fun name member => (plain name member).2
  have kept : names.filter (· ≠ []) = names := by
    apply List.filter_eq_self.mpr
    intro name member
    simpa using (plain name member).1
  have last : (Records.render slash names ++ rest).getLast? = rest.getLast? := by
    rw [List.getLast?_append]
    cases tail : rest.getLast? with
    | none => exact absurd (List.getLast?_eq_none_iff.mp tail) remains
    | some x => rfl
  unfold components Posix.parts
  rw [parts, last, List.filter_append, kept, List.append_assoc]

theorem components_plain (name : Bytes) (plain : PlainName name) : components name = [name] := by
  obtain ⟨some, noSlash, _⟩ := plain
  have last : name.getLast? ≠ .some slash := by
    intro same
    exact noSlash (List.mem_of_getLast? same)
  unfold components Posix.parts
  rw [Records.split_of_free slash name noSlash some, if_neg last]
  simp [some]

theorem walk_dir (node : Path → Option Node) (here : Path) (name : Bytes) (rest : List Bytes)
    (plain : name ≠ dot ∧ name ≠ dotdot) (dir : node (here ++ [name]) = some .dir)
    (more : rest ≠ []) : walk node here (name :: rest) = walk node (here ++ [name]) rest := by
  cases rest with
  | nil => exact absurd rfl more
  | cons next rest => rw [walk, if_neg plain.1, if_neg plain.2, dir]

theorem walk_last (node : Path → Option Node) (here : Path) (name : Bytes)
    (plain : name ≠ dot ∧ name ≠ dotdot) : walk node here [name] = .ok (here ++ [name]) := by
  rw [walk, if_neg plain.1, if_neg plain.2]

/-! ## Kernel state -/

structure Flags where
  read : Bool := false
  write : Bool := false
  append : Bool := false
  creat : Bool := false
  trunc : Bool := false
  deriving DecidableEq

/-- The bitwise or of two sets of flags. -/
def Flags.union (a b : Flags) : Flags where
  read := a.read || b.read
  write := a.write || b.write
  append := a.append || b.append
  creat := a.creat || b.creat
  trunc := a.trunc || b.trunc

/-- An open file description; a directory has no bytes, hence no inode here. -/
structure Description where
  pid : Pid
  ino : Option Ino
  flags : Flags
  pos : Nat
  deriving DecidableEq

inductive LockKind where
  | read
  | write
  deriving DecidableEq

structure Mapping where
  pid : Pid
  ino : Ino
  len : Nat
  deriving DecidableEq

/-- The directory tree, relative to a working directory, and the bytes of the files. -/
structure Files where
  cwd : Path
  tree : List (Path × Node)
  data : Ino → Bytes
  nextIno : Ino

namespace Files

def node (f : Files) (path : Path) : Option Node :=
  if path = [] then some .dir else f.tree.lookup path

def resolve (f : Files) (path : Bytes) : Except Errno Path :=
  if cstr path = [] then .error ENOENT
  else walk f.node (if (cstr path).head? = some slash then [] else f.cwd) (components (cstr path))

def setData (f : Files) (ino : Ino) (bytes : Bytes) : Files :=
  { f with data := Function.update f.data ino bytes }

/-- Link a new empty file; its inode is `f.nextIno`. -/
def create (f : Files) (path : Path) : Files where
  cwd := f.cwd
  tree := (path, .file f.nextIno) :: f.tree
  data := Function.update f.data f.nextIno []
  nextIno := f.nextIno + 1

def unlink (f : Files) (path : Path) : Files :=
  { f with tree := f.tree.filter fun entry => entry.1 ≠ path }

/-- No entry of the tree lies directly below `path`. -/
def emptyDir (f : Files) (path : Path) : Bool :=
  f.tree.all fun entry => entry.1.dropLast ≠ path || entry.1 = []

end Files

structure Kernel where
  files : Files
  desc : Fd → Option Description
  nextFd : Fd
  locks : Ino → List (Pid × LockKind)
  maps : Nat → Option Mapping
  nextMap : Nat
  /-- What `stat` reports as the size of a directory. -/
  dirSize : Nat
  /-- The identifiers the random device and the clock will yield. -/
  source : Nat → Bytes
  drawn : Nat
  inbox : Pid → Bytes
  sent : Pid → Bytes
  /-- What a read makes of a stream that ends with these bytes before all that it
  asks for are there: an `io_error`, or a buffer that its caller takes for full. -/
  short : Nat → Bytes → Except Unit Bytes

namespace Kernel

def withFiles (k : Kernel) (f : Files) : Kernel := { k with files := f }

def setData (k : Kernel) (ino : Ino) (bytes : Bytes) : Kernel :=
  k.withFiles (k.files.setData ino bytes)

def create (k : Kernel) (path : Path) : Kernel := k.withFiles (k.files.create path)

def unlink (k : Kernel) (path : Path) : Kernel := k.withFiles (k.files.unlink path)

def nextDraw (k : Kernel) : Kernel := { k with drawn := k.drawn + 1 }

def addDesc (k : Kernel) (d : Description) : Kernel :=
  { k with desc := Function.update k.desc k.nextFd (some d), nextFd := k.nextFd + 1 }

def setPos (k : Kernel) (fd : Fd) (d : Description) (pos : Nat) : Kernel :=
  { k with desc := Function.update k.desc fd (some { d with pos := pos }) }

def dropDesc (k : Kernel) (fd : Fd) : Kernel :=
  { k with desc := Function.update k.desc fd none }

/-- A process holds at most one lock on an inode; a new one replaces it. -/
def release (k : Kernel) (p : Pid) (ino : Ino) : Kernel :=
  { k with locks := Function.update k.locks ino ((k.locks ino).filter fun held => held.1 ≠ p) }

def grant (k : Kernel) (p : Pid) (ino : Ino) (kind : LockKind) : Kernel :=
  { k with
    locks := Function.update k.locks ino
      ((p, kind) :: (k.locks ino).filter fun held => held.1 ≠ p) }

/-- Another process's lock excludes this one unless both are read locks. -/
def conflicts (k : Kernel) (p : Pid) (ino : Ino) (kind : LockKind) : Bool :=
  (k.locks ino).any fun held => held.1 ≠ p && (kind = .write || held.2 = .write)

/-- The open description behind a descriptor of process `p`. -/
def descOf (k : Kernel) (p : Pid) (fd : Fd) : Option Description :=
  match k.desc fd with
  | some d => if d.pid = p then some d else none
  | none => none

end Kernel

/-! ## Calls -/

inductive Call where
  | draw
  | open (path : Bytes) (flags : Flags)
  | lock (fd : Fd) (kind : LockKind)
  | unlock (fd : Fd)
  | read (fd : Fd) (len : Nat)
  | write (fd : Fd) (bytes : Bytes)
  | tell (fd : Fd)
  | seek (fd : Fd) (pos : Int)
  | ftruncate (fd : Fd) (len : Nat)
  | close (fd : Fd)
  | remove (path : Bytes)
  | stat (path : Bytes)
  | mmap (fd : Fd) (len : Nat)
  | load (map : Nat) (len : Nat)
  | munmap (map : Nat)
  | send (bytes : Bytes)
  | recv (len : Nat)
  | disconnect
  deriving DecidableEq

/-- `recv` and `send` fail by an exception that carries nothing a caller uses. -/
abbrev Resp : Call → Type
  | .draw => Bytes
  | .open _ _ => Except Errno Fd
  | .lock _ _ => Except Errno Unit
  | .unlock _ => Except Errno Unit
  | .read _ _ => Except Errno Bytes
  | .write _ _ => Except Errno Nat
  | .tell _ => Except Errno Nat
  | .seek _ _ => Except Errno Nat
  | .ftruncate _ _ => Except Errno Unit
  | .close _ => Except Errno Unit
  | .remove _ => Except Errno Bool
  | .stat _ => Except Errno Nat
  | .mmap _ _ => Except Errno Nat
  | .load _ _ => Bytes
  | .munmap _ => Unit
  | .send _ => Except Unit Unit
  | .recv _ => Except Unit Bytes
  | .disconnect => Unit

/-- `bytes` laid over `old` from `pos` on; a gap reads as zeros. -/
def overwrite (old : Bytes) (pos : Nat) (bytes : Bytes) : Bytes :=
  old.take pos ++ List.replicate (pos - old.length) 0 ++ bytes ++ old.drop (pos + bytes.length)

namespace Kernel

def openFile (k : Kernel) (p : Pid) (path : Bytes) (flags : Flags) : Except Errno Fd × Kernel :=
  match k.files.resolve path with
  | .error e => (.error e, k)
  | .ok q => match k.files.node q with
    | some .dir =>
        if flags.write || flags.creat then (.error EISDIR, k)
        else (.ok k.nextFd, k.addDesc ⟨p, none, flags, 0⟩)
    | some (.file ino) =>
        let cut := if flags.trunc && flags.write then k.setData ino [] else k
        (.ok k.nextFd, cut.addDesc ⟨p, some ino, flags, 0⟩)
    | none =>
        if flags.creat then (.ok k.nextFd, (k.create q).addDesc ⟨p, some k.files.nextIno, flags, 0⟩)
        else (.error ENOENT, k)

/-- A read lock needs a readable descriptor and a write lock a writable one. -/
def lockFile (k : Kernel) (p : Pid) (fd : Fd) (kind : LockKind) :
    Option (Except Errno Unit × Kernel) :=
  match k.descOf p fd with
  | none => some (.error EBADF, k)
  | some d =>
      if (kind = .read && !d.flags.read) || (kind = .write && !d.flags.write) then
        some (.error EBADF, k)
      else match d.ino with
        | none => some (.ok (), k)
        | some ino => if k.conflicts p ino kind then none else some (.ok (), k.grant p ino kind)

def unlockFile (k : Kernel) (p : Pid) (fd : Fd) : Except Errno Unit × Kernel :=
  match k.descOf p fd with
  | none => (.error EBADF, k)
  | some d => match d.ino with
    | none => (.ok (), k)
    | some ino => (.ok (), k.release p ino)

def readFile (k : Kernel) (p : Pid) (fd : Fd) (len : Nat) : Except Errno Bytes × Kernel :=
  match k.descOf p fd with
  | none => (.error EBADF, k)
  | some d =>
      if !d.flags.read then (.error EBADF, k)
      else match d.ino with
        | none => (.error EISDIR, k)
        | some ino =>
            let bytes := ((k.files.data ino).drop d.pos).take len
            (.ok bytes, k.setPos fd d (d.pos + bytes.length))

def writeFile (k : Kernel) (p : Pid) (fd : Fd) (bytes : Bytes) : Except Errno Nat × Kernel :=
  match k.descOf p fd with
  | none => (.error EBADF, k)
  | some d =>
      if !d.flags.write then (.error EBADF, k)
      else match d.ino with
        | none => (.error EBADF, k)
        | some ino =>
            let pos := if d.flags.append then (k.files.data ino).length else d.pos
            (.ok bytes.length,
              (k.setData ino (overwrite (k.files.data ino) pos bytes)).setPos fd d (pos + bytes.length))

def tellFile (k : Kernel) (p : Pid) (fd : Fd) : Except Errno Nat × Kernel :=
  match k.descOf p fd with
  | none => (.error EBADF, k)
  | some d => (.ok d.pos, k)

def seekFile (k : Kernel) (p : Pid) (fd : Fd) (pos : Int) : Except Errno Nat × Kernel :=
  match k.descOf p fd with
  | none => (.error EBADF, k)
  | some d =>
      if pos < 0 then (.error EINVAL, k) else (.ok pos.toNat, k.setPos fd d pos.toNat)

def truncateFile (k : Kernel) (p : Pid) (fd : Fd) (len : Nat) : Except Errno Unit × Kernel :=
  match k.descOf p fd with
  | none => (.error EBADF, k)
  | some d => match d.ino with
    | none => (.error EINVAL, k)
    | some ino =>
        if !d.flags.write then (.error EINVAL, k)
        else (.ok (), k.setData ino
          ((k.files.data ino).take len ++ List.replicate (len - (k.files.data ino).length) 0))

/-- Closing any descriptor of a file drops the process's locks on that file. -/
def closeFile (k : Kernel) (p : Pid) (fd : Fd) : Except Errno Unit × Kernel :=
  match k.descOf p fd with
  | none => (.error EBADF, k)
  | some d => match d.ino with
    | none => (.ok (), k.dropDesc fd)
    | some ino => (.ok (), (k.release p ino).dropDesc fd)

/-- `remove(3)` as `std::filesystem::remove` calls it: files are unlinked, empty
directories removed, and a missing entry is reported without an error. -/
def removeFile (k : Kernel) (path : Bytes) : Except Errno Bool × Kernel :=
  match k.files.resolve path with
  | .error e => if e = ENOENT then (.ok false, k) else (.error e, k)
  | .ok q => match k.files.node q with
    | none => (.ok false, k)
    | some (.file _) => (.ok true, k.unlink q)
    | some .dir =>
        if (parts (cstr path)).getLast? = some dot then (.error EINVAL, k)
        else if q = [] || !k.files.emptyDir q then (.error ENOTEMPTY, k)
        else (.ok true, k.unlink q)

def statFile (k : Kernel) (path : Bytes) : Except Errno Nat :=
  match k.files.resolve path with
  | .error e => .error e
  | .ok q => match k.files.node q with
    | none => .error ENOENT
    | some .dir => .ok k.dirSize
    | some (.file ino) => .ok (k.files.data ino).length

def mapFile (k : Kernel) (p : Pid) (fd : Fd) (len : Nat) : Except Errno Nat × Kernel :=
  match k.descOf p fd with
  | none => (.error EBADF, k)
  | some d => match d.ino with
    | none => (.error ENODEV, k)
    | some ino =>
        if len = 0 then (.error EINVAL, k)
        else if !d.flags.read then (.error EACCES, k)
        else (.ok k.nextMap, { k with
          maps := Function.update k.maps k.nextMap (some ⟨p, ino, len⟩)
          nextMap := k.nextMap + 1 })

/-- Memory behind a mapping; bytes of its last page behind the end of the file are zero. -/
def loadMap (k : Kernel) (map : Nat) (len : Nat) : Bytes :=
  match k.maps map with
  | none => List.replicate len 0
  | some m => (k.files.data m.ino).take len ++ List.replicate (len - (k.files.data m.ino).length) 0

/-- The outcome of a call of process `p` on which no error is inflicted; `none` while it waits. -/
def exec (p : Pid) : (c : Call) → Kernel → Option (Resp c × Kernel)
  | .draw, k => some (k.source k.drawn, k.nextDraw)
  | .open path flags, k => some (k.openFile p path flags)
  | .lock fd kind, k => k.lockFile p fd kind
  | .unlock fd, k => some (k.unlockFile p fd)
  | .read fd len, k => some (k.readFile p fd len)
  | .write fd bytes, k => some (k.writeFile p fd bytes)
  | .tell fd, k => some (k.tellFile p fd)
  | .seek fd pos, k => some (k.seekFile p fd pos)
  | .ftruncate fd len, k => some (k.truncateFile p fd len)
  | .close fd, k => some (k.closeFile p fd)
  | .remove path, k => some (k.removeFile path)
  | .stat path, k => some (k.statFile path, k)
  | .mmap fd len, k => some (k.mapFile p fd len)
  | .load map len, k => some (k.loadMap map len, k)
  | .munmap map, k => some ((), { k with maps := Function.update k.maps map none })
  | .send bytes, k => some (.ok (), { k with sent := Function.update k.sent p (k.sent p ++ bytes) })
  | .recv len, k =>
      if (k.inbox p).length < len then
        some (k.short len (k.inbox p), { k with inbox := Function.update k.inbox p [] })
      else some (.ok ((k.inbox p).take len),
        { k with inbox := Function.update k.inbox p ((k.inbox p).drop len) })
  | .disconnect, k => some ((), { k with inbox := Function.update k.inbox p [] })

/-- A stream that has ended, or was closed, before all that is asked for is there
is reported by an `io_error`; `con_handler` leaves its loop on nothing else. -/
def Throws (k : Kernel) : Prop := ∀ len bytes, bytes.length < len → k.short len bytes = .error ()

/-- The calls of process `p` as a relation. -/
def Does (p : Pid) (c : Call) (k : Kernel) (r : Resp c) (k' : Kernel) : Prop :=
  k.exec p c = some (r, k')

/-- An error that may be inflicted on a call: a missing permission, a full disk,
an interrupted wait. The calls of a connection that holds have none. -/
def Fails : (c : Call) → Resp c → Prop
  | .open _ _, r => ∃ e, e ≠ 0 ∧ r = .error e
  | .lock _ _, r => ∃ e, e ≠ 0 ∧ r = .error e
  | .unlock _, r => ∃ e, e ≠ 0 ∧ r = .error e
  | .read _ _, r => ∃ e, e ≠ 0 ∧ r = .error e
  | .write _ _, r => ∃ e, e ≠ 0 ∧ r = .error e
  | .tell _, r => ∃ e, e ≠ 0 ∧ r = .error e
  | .seek _ _, r => ∃ e, e ≠ 0 ∧ r = .error e
  | .ftruncate _ _, r => ∃ e, e ≠ 0 ∧ r = .error e
  | .close _, r => ∃ e, e ≠ 0 ∧ r = .error e
  | .remove _, r => ∃ e, e ≠ 0 ∧ r = .error e
  | .stat _, r => ∃ e, e ≠ 0 ∧ r = .error e
  | .mmap _ _, r => ∃ e, e ≠ 0 ∧ r = .error e
  | _, _ => False

/-- The calls of process `p` where errors may be inflicted; a call that fails
changes nothing. -/
def MayDo (p : Pid) (c : Call) (k : Kernel) (r : Resp c) (k' : Kernel) : Prop :=
  k.Does p c r k' ∨ k' = k ∧ Fails c r

end Kernel

/-- Programs over these calls. -/
abbrev Prog := Program Call Resp

/-- Runs of process `p` alone, with no error inflicted on its calls. -/
abbrev Runs {α : Type} (p : Pid) : Prog α → Kernel → α → Kernel → Prop :=
  Program.Runs (Kernel.Does p)

namespace Sys

def draw : Prog Bytes := Program.issue Call.draw
def openFile (path : Bytes) (flags : Flags) : Prog (Except Errno Fd) :=
  Program.issue (Call.open path flags)
def lock (fd : Fd) (kind : LockKind) : Prog (Except Errno Unit) := Program.issue (Call.lock fd kind)
def unlock (fd : Fd) : Prog (Except Errno Unit) := Program.issue (Call.unlock fd)
def read (fd : Fd) (len : Nat) : Prog (Except Errno Bytes) := Program.issue (Call.read fd len)
def write (fd : Fd) (bytes : Bytes) : Prog (Except Errno Nat) := Program.issue (Call.write fd bytes)
def tell (fd : Fd) : Prog (Except Errno Nat) := Program.issue (Call.tell fd)
def seek (fd : Fd) (pos : Int) : Prog (Except Errno Nat) := Program.issue (Call.seek fd pos)
def ftruncate (fd : Fd) (len : Nat) : Prog (Except Errno Unit) :=
  Program.issue (Call.ftruncate fd len)
def close (fd : Fd) : Prog (Except Errno Unit) := Program.issue (Call.close fd)
def remove (path : Bytes) : Prog (Except Errno Bool) := Program.issue (Call.remove path)
def stat (path : Bytes) : Prog (Except Errno Nat) := Program.issue (Call.stat path)
def mmap (fd : Fd) (len : Nat) : Prog (Except Errno Nat) := Program.issue (Call.mmap fd len)
def load (map len : Nat) : Prog Bytes := Program.issue (Call.load map len)
def munmap (map : Nat) : Prog Unit := Program.issue (Call.munmap map)
def send (bytes : Bytes) : Prog (Except Unit Unit) := Program.issue (Call.send bytes)
def recv (len : Nat) : Prog (Except Unit Bytes) := Program.issue (Call.recv len)
def disconnect : Prog Unit := Program.issue Call.disconnect

end Sys

end Sfsdb.Posix

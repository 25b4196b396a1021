import Sfsdb.Layout

/-!
What one process's volume operations do while no other process is in the
middle of one. Each operation has a lemma for its success and one for its
failure, which say what is returned and what the three directories hold
afterwards. Names and ids are C strings that name plain components here.
-/

namespace Sfsdb.Volume

open Posix Storage

variable {p : Pid} {k : Kernel} {d : Dir} {x y id name file bytes : Bytes}

section Opening
variable {mode : Flags} {f : Files} {i : Ino}

def opened (p : Pid) (k : Kernel) (f : Files) (i : Ino) (mode : Flags) : Kernel :=
  (k.withFiles f).addDesc ⟨p, some i, mode, 0⟩

@[simp] theorem files_opened : (opened p k f i mode).files = f := rfl

@[simp] theorem nextFd_opened : (opened p k f i mode).nextFd = k.nextFd + 1 := rfl

@[simp] theorem alone_opened : Kernel.Alone p (opened p k f i mode) ↔ Kernel.Alone p k := Iff.rfl

theorem descOf_opened (fd : Fd) : (opened p k f i mode).descOf p fd =
    if fd = k.nextFd then some ⟨p, some i, mode, 0⟩ else k.descOf p fd :=
  Kernel.descOf_addDesc rfl fd

/-- Opening a missing entry for writing makes an empty file of it; opening
one that is there leaves it or empties it. -/
theorem open_creates (sane : Sane k.files) (names : Names x y) (creates : mode.creat = true)
    (writes : mode.write = true) :
    ∃ i f, Runs p (Flstream.new (d.text ++ x) mode) k ⟨some k.nextFd, 0⟩ (opened p k f i mode) ∧
      Turns k.files f (put d y (some (if mode.trunc then [] else (record k.files d y).getD []))
        (record k.files)) ∧
      f.node (entry k.files d y) = some (.file i) ∧
      ∀ q j, k.files.node q = some (.file j) → f.node q = some (.file j) := by
  have resolved := resolve_entry k.files sane.layout d names
  rcases sane.entry_cases d y with ⟨i, file, holds⟩ | ⟨absent, nothing⟩
  · cases cut : mode.trunc with
    | true =>
        exact ⟨i, k.files.setData i [], Flstream.new_truncated resolved file ⟨cut, writes⟩,
          by simpa using Turns.setData [] sane file, file, fun q j same => same⟩
    | false =>
        refine ⟨i, k.files, Flstream.new_file mode resolved file cut, ?_, file, fun q j same => same⟩
        have unchanged := Turns.refl sane
        rw [← put_same d y (record k.files), holds] at unchanged
        simpa [holds] using unchanged
  · refine ⟨k.files.nextIno, k.files.create (entry k.files d y),
      Flstream.new_created resolved absent creates, ?_, ?_, ?_⟩
    · simpa [nothing] using Turns.create sane absent
    · simp [k.files.node_create _ (entry_ne_nil k.files d y)]
    · intro q j same
      rw [k.files.node_create _ (entry_ne_nil k.files d y)]
      by_cases new : q = entry k.files d y
      · rw [new, absent] at same
        cases same
      · simpa [new] using same

theorem open_missing (sane : Sane k.files) (names : Names x y)
    (absent : record k.files d y = none) (keeps : mode.creat = false) :
    Runs p (Flstream.new (d.text ++ x) mode) k ⟨none, ENOENT⟩ k :=
  Flstream.new_missing (resolve_entry k.files sane.layout d names) (sane.entry_absent absent) keeps

end Opening

/-! ## Reading -/

theorem byId_missing (ready : Ready k) (names : Names id y)
    (absent : record k.files .byId y = none) :
    Runs p (byId id) k (.error (.ofErrno ENOENT)) k :=
  (open_missing (d := .byId) ready.sane names absent rfl).bind
    (Flstream.close_unopened.bind Program.Runs.done)

theorem byName_missing (ready : Ready k) (names : Names name y)
    (absent : record k.files .byName y = none) :
    Runs p (byName name) k (.error (.ofErrno ENOENT)) k :=
  (open_missing (d := .byName) ready.sane names absent rfl).bind
    (Flstream.close_unopened.bind Program.Runs.done)

theorem reads_only {k' : Kernel} (ready : Ready k) (files : k'.files = k.files)
    (unlocked : ∀ i, k'.locks i = []) (source : k'.source = k.source)
    (drawn : k'.drawn = k.drawn) (dirSize : k'.dirSize = k.dirSize) (inbox : k'.inbox = k.inbox)
    (sent : k'.sent = k.sent) : Becomes k k' 0 (record k.files) :=
  ⟨by rw [files]; exact Turns.refl ready.sane, unlocked, source, drawn, dirSize, inbox, sent⟩

def lookedAt (p : Pid) (k : Kernel) (i : Ino) (pos : Nat) : Kernel :=
  (((((k.addDesc ⟨p, some i, Flstream.RDONLY, 0⟩).grant p i .read).setPos k.nextFd
    ⟨p, some i, Flstream.RDONLY, 0⟩ pos).release p i).dropDesc k.nextFd)

theorem lookedAt_becomes (ready : Ready k) (i : Ino) (pos : Nat) :
    Becomes k (lookedAt p k i pos) 0 (record k.files) := by
  refine reads_only ready rfl ?_ rfl rfl rfl rfl rfl
  intro j
  have alone := ((ready.alone p).grant i .read).release i j
  have others : j ≠ i → (k.grant p i .read).locks j = [] := by
    intro other
    rw [Kernel.locks_grant, Function.update_of_ne other, ready.unlocked]
  change ((k.grant p i .read).release p i).locks j = []
  rw [alone]
  by_cases same : j = i
  · simp [same]
  · simp [same, others]

theorem reading_runs (ready : Ready k) (i : Ino) :
    ∃ k₁ : Kernel, k₁.files = k.files ∧
      k₁.descOf p k.nextFd = some ⟨p, some i, Flstream.RDONLY, 0⟩ ∧
      Runs p (Flstream.lock ⟨some k.nextFd, 0⟩ .read)
        (k.addDesc ⟨p, some i, Flstream.RDONLY, 0⟩) ⟨some k.nextFd, 0⟩ k₁ ∧
      ∀ pos, Runs p (Flstream.close ⟨some k.nextFd, 0⟩)
        (k₁.setPos k.nextFd ⟨p, some i, Flstream.RDONLY, 0⟩ pos) ⟨some k.nextFd, 0⟩
        (lookedAt p k i pos) := by
  have opened : (k.addDesc ⟨p, some i, Flstream.RDONLY, 0⟩).descOf p k.nextFd =
      some ⟨p, some i, Flstream.RDONLY, 0⟩ := by
    simp [Kernel.descOf_addDesc]
  refine ⟨(k.addDesc ⟨p, some i, Flstream.RDONLY, 0⟩).grant p i .read, rfl, opened,
    Flstream.lock_runs opened rfl (Or.inl ⟨rfl, rfl⟩) ((ready.alone p).free i .read), fun pos => ?_⟩
  exact Flstream.close_runs (d := ⟨p, some i, Flstream.RDONLY, pos⟩)
    (by simp [Kernel.descOf_setPos]) rfl

theorem byId_found (ready : Ready k) (names : Names id y)
    (holds : record k.files .byId y = some bytes) :
    ∃ k', Runs p (byId id) k
        (.ok { id := id, name := Records.first SEPARATOR bytes, dataPath := DATA_DIR ++ id }) k' ∧
      Becomes k k' 0 (record k.files) := by
  obtain ⟨i, file, rfl⟩ := ready.sane.entry_file holds
  obtain ⟨k₁, files, found, locked, closed⟩ := reading_runs (p := p) ready i
  obtain ⟨stop, line⟩ : ∃ stop, Runs p (Flstream.getline ⟨some k.nextFd, 0⟩ SEPARATOR) k₁
      (decide (k.files.data i ≠ []), Records.first SEPARATOR (k.files.data i), ⟨some k.nextFd, 0⟩)
      (k₁.setPos k.nextFd ⟨p, some i, Flstream.RDONLY, 0⟩ stop) :=
    ⟨_, (Flstream.getline_runs SEPARATOR found rfl rfl (Nat.succ_pos 1023)).of_eq
      (by simp [Flstream.unread, files]) rfl⟩
  have opened := Flstream.new_file (p := p) Flstream.RDONLY
    (resolve_entry k.files ready.sane.layout .byId names) file rfl
  exact ⟨lookedAt p k i stop, opened.bind (locked.bind (line.bind ((closed stop).bind
    Program.Runs.done))), lookedAt_becomes ready i stop⟩

theorem byName_found (ready : Ready k) (names : Names name y)
    (holds : record k.files .byName y = some bytes) :
    ∃ k', Runs p (byName name) k (.ok (Records.split SEPARATOR bytes)) k' ∧
      Becomes k k' 0 (record k.files) := by
  obtain ⟨i, file, rfl⟩ := ready.sane.entry_file holds
  obtain ⟨k₁, files, found, locked, closed⟩ := reading_runs (p := p) ready i
  obtain ⟨stop, lines⟩ : ∃ stop, Runs p (Flstream.getlines ⟨some k.nextFd, 0⟩ SEPARATOR) k₁
      (Records.split SEPARATOR (k.files.data i), ⟨some k.nextFd, 0⟩)
      (k₁.setPos k.nextFd ⟨p, some i, Flstream.RDONLY, 0⟩ stop) :=
    ⟨_, (Flstream.getlines_runs SEPARATOR found rfl rfl).of_eq (by simp [Flstream.unread, files]) rfl⟩
  have opened := Flstream.new_file (p := p) Flstream.RDONLY
    (resolve_entry k.files ready.sane.layout .byName names) file rfl
  exact ⟨lookedAt p k i stop, opened.bind (locked.bind (lines.bind ((closed stop).bind
    Program.Runs.done))), lookedAt_becomes ready i stop⟩

theorem details_found (ready : Ready k) (names : Names id y) (object : Object)
    (same : object.id = id) (holds : record k.files .data y = some bytes) :
    Runs p object.details k (.ok bytes.length) k := by
  obtain ⟨i, file, rfl⟩ := ready.sane.entry_file holds
  have resolved := resolve_entry k.files ready.sane.layout .data names
  refine Program.Runs.bind (Flstream.issue_runs (c := .stat (DATA_DIR ++ object.id))
    (r := .ok (k.files.data i).length) ?_) Program.Runs.done
  simp only [Kernel.exec, Kernel.statFile, same, Option.some.injEq, Prod.mk.injEq, and_true]
  rw [show DATA_DIR ++ id = Dir.data.text ++ id from rfl, resolved]
  simp only [file]

/-! ## Sessions -/

/-- Inside an operation of `p` that began in `k`: what the directories hold
now, how many descriptors were handed out, which of them are open, which files
are known to be linked where, and which inodes are locked. -/
structure Session (p : Pid) (k k' : Kernel) (draws : Nat) (now : Contents) (count : Nat)
    (descs : Fd → Option Description) (links : List (Dir × Bytes × Ino)) (held : List Ino) :
    Prop where
  turns : Turns k.files k'.files now
  nextFd : k'.nextFd = k.nextFd + count
  descs : k'.descOf p = descs
  links : ∀ link ∈ links, k'.files.node (entry k'.files link.1 link.2.1) = some (.file link.2.2)
  locks : ∀ i, k'.locks i = if i ∈ held then [(p, .write)] else []
  source : k'.source = k.source
  drawn : k'.drawn = k.drawn + draws
  dirSize : k'.dirSize = k.dirSize
  inbox : k'.inbox = k.inbox
  sent : k'.sent = k.sent

namespace Session

variable {k' : Kernel} {draws count : Nat} {now : Contents} {descs : Fd → Option Description}
  {links : List (Dir × Bytes × Ino)} {held : List Ino} {fd : Fd} {D : Description} {i : Ino}
  {e : Errno}

theorem start (ready : Ready k) (p : Pid) :
    Session p k k 0 (record k.files) 0 (k.descOf p) [] [] := by
  refine ⟨Turns.refl ready.sane, rfl, rfl, by simp, fun i => ?_, rfl, rfl, rfl, rfl, rfl⟩
  simp [ready.unlocked i]

theorem finish {now' : Contents} (session : Session p k k' draws now count descs links held)
    (released : held = []) (same : now = now') : Becomes k k' draws now' := by
  subst released same
  exact ⟨session.turns, by simpa using session.locks, session.source, session.drawn,
    session.dirSize, session.inbox, session.sent⟩

theorem alone (session : Session p k k' draws now count descs links held) : Kernel.Alone p k' := by
  intro i entry member
  rw [session.locks] at member
  split at member
  · simp only [List.mem_singleton] at member
    rw [member]
  · simp at member

theorem data (session : Session p k k' draws now count descs links held)
    (linked : (d, x, i) ∈ links) (holds : now d x = some bytes) : k'.files.data i = bytes := by
  have same := Files.content_of_file (session.links _ linked)
  have now := congrFun (congrFun session.turns.records d) x
  unfold record at now
  rw [holds, same] at now
  exact Option.some.inj now

theorem draw (session : Session p k k' draws now count descs links held) :
    Runs p Sys.draw k' (k'.source k'.drawn) k'.nextDraw ∧
      Session p k k'.nextDraw (draws + 1) now count descs links held := by
  refine ⟨Flstream.issue_runs (c := .draw) rfl, { session with drawn := ?_ }⟩
  rw [← Nat.add_assoc, ← session.drawn]
  rfl

theorem openFile (session : Session p k k' draws now count descs links held) (d : Dir)
    (mode : Flags) (names : Names x y) (creates : mode.creat = true) (writes : mode.write = true) :
    ∃ i k₁, Runs p (Flstream.new (d.text ++ x) mode) k' ⟨some (k.nextFd + count), 0⟩ k₁ ∧
      Session p k k₁ draws (put d y (some (if mode.trunc then [] else (now d y).getD [])) now)
        (count + 1)
        (Function.update descs (k.nextFd + count) (some ⟨p, some i, mode, 0⟩))
        ((d, y, i) :: links) held := by
  obtain ⟨i, f, opens, turns, file, keeps⟩ :=
    open_creates (p := p) session.turns.sane names creates writes
  have next := session.nextFd
  rw [session.turns.records] at turns
  rw [next] at opens
  refine ⟨i, opened p k' f i mode, opens, session.turns.trans turns, ?_, ?_, ?_, session.locks,
    session.source, session.drawn, session.dirSize, session.inbox, session.sent⟩
  · rw [nextFd_opened, next, Nat.add_assoc]
  · funext fd
    rw [descOf_opened, next, ← session.descs]
    by_cases same : fd = k.nextFd + count <;> simp [same]
  · intro link member
    rw [files_opened, turns.dirs.entry]
    rcases List.mem_cons.mp member with rfl | old
    · exact file
    · exact keeps _ _ (session.links link old)

theorem openExisting (session : Session p k k' draws now count descs links held) (d : Dir)
    (mode : Flags) (names : Names x y) (holds : now d y = some bytes)
    (whole : mode.trunc = false) :
    ∃ i k₁, Runs p (Flstream.new (d.text ++ x) mode) k' ⟨some (k.nextFd + count), 0⟩ k₁ ∧
      Session p k k₁ draws now (count + 1)
        (Function.update descs (k.nextFd + count) (some ⟨p, some i, mode, 0⟩))
        ((d, y, i) :: links) held := by
  rw [← session.turns.records] at holds
  obtain ⟨i, file, _⟩ := session.turns.sane.entry_file holds
  have opens := Flstream.new_file (p := p) mode
    (resolve_entry k'.files session.turns.sane.layout d names) file whole
  have next := session.nextFd
  rw [next] at opens
  refine ⟨i, opened p k' k'.files i mode, opens, session.turns, ?_, ?_, ?_, session.locks,
    session.source, session.drawn, session.dirSize, session.inbox, session.sent⟩
  · rw [nextFd_opened, next, Nat.add_assoc]
  · funext fd
    rw [descOf_opened, next, ← session.descs]
    by_cases same : fd = k.nextFd + count <;> simp [same]
  · intro link member
    rcases List.mem_cons.mp member with rfl | old
    · exact file
    · exact session.links link old

theorem lock (session : Session p k k' draws now count descs links held) (fd : Fd)
    (D : Description) (found : descs fd = some D) (ino : D.ino = some i) (writes : D.flags.write = true) :
    Runs p (Flstream.lock ⟨some fd, e⟩ .write) k' ⟨some fd, 0⟩ (k'.grant p i .write) ∧
      Session p k (k'.grant p i .write) draws now count descs links (i :: held) := by
  refine ⟨Flstream.lock_runs (session.descs ▸ found) ino (Or.inr ⟨rfl, writes⟩)
    (session.alone.free i .write), { session with locks := fun j => ?_ }⟩
  rw [Kernel.locks_grant]
  by_cases same : j = i
  · subst same
    simp only [Function.update_self, List.mem_cons, true_or, ↓reduceIte, List.cons.injEq, true_and,
      List.filter_eq_nil_iff]
    intro entry member
    simp [session.alone j entry member]
  · rw [Function.update_of_ne same, session.locks]
    simp [same]

theorem close (session : Session p k k' draws now count descs links held) (fd : Fd)
    (D : Description) (found : descs fd = some D) (ino : D.ino = some i) :
    Runs p (Flstream.close ⟨some fd, e⟩) k' ⟨some fd, 0⟩ ((k'.release p i).dropDesc fd) ∧
      Session p k ((k'.release p i).dropDesc fd) draws now count (Function.update descs fd none)
        links (held.filter (· ≠ i)) := by
  refine ⟨Flstream.close_runs (session.descs ▸ found) ino,
    { session with descs := ?_, locks := fun j => ?_ }⟩
  · funext other
    rw [Kernel.descOf_dropDesc, Kernel.descOf_release, session.descs]
    by_cases same : other = fd <;> simp [same]
  · rw [Kernel.locks_dropDesc, session.alone.release, session.locks]
    by_cases same : j = i <;> simp [same]

theorem close_again (session : Session p k k' draws now count descs links held) (fd : Fd)
    (closed : descs fd = none) : Runs p (Flstream.close ⟨some fd, e⟩) k' ⟨some fd, EBADF⟩ k' :=
  Flstream.close_closed (session.descs ▸ closed)

theorem links_setData (session : Session p k k' draws now count descs links held)
    (linked : (d, x, i) ∈ links) (bytes : Bytes) :
    Turns k.files (k'.files.setData i bytes) (put d x (some bytes) now) ∧
      ∀ link ∈ links, (k'.files.setData i bytes).node
        (entry (k'.files.setData i bytes) link.1 link.2.1) = some (.file link.2.2) := by
  have turns := Turns.setData bytes session.turns.sane (session.links _ linked)
  rw [session.turns.records] at turns
  exact ⟨session.turns.trans turns, session.links⟩

theorem writeRecord (session : Session p k k' draws now count descs links held) (fd : Fd)
    (D : Description) (record bytes : Bytes) (linked : (d, x, i) ∈ links) (holds : now d x = some bytes)
    (found : descs fd = some D) (ino : D.ino = some i) (writes : D.flags.write = true)
    (atEnd : D.flags.append = true ∨ D.pos = bytes.length) :
    ∃ k₁, Runs p (Flstream.writeRecord ⟨some fd, e⟩ record SEPARATOR) k' ⟨some fd, 0⟩ k₁ ∧
      Session p k k₁ draws (put d x (some (bytes ++ (record ++ [SEPARATOR]))) now) count
        (Function.update descs fd (some { D with pos := bytes.length + (record.length + 1) }))
        links held := by
  have found' : k'.descOf p fd = some D := session.descs ▸ found
  have data := session.data linked holds
  have run := Flstream.writeRecord_runs (e := e) record SEPARATOR found' ino writes (data.symm ▸ atEnd)
  rw [data] at run
  obtain ⟨turns, linked'⟩ := session.links_setData linked (bytes ++ (record ++ [SEPARATOR]))
  refine ⟨_, run, { session with turns := turns, links := linked', descs := ?_ }⟩
  funext other
  rw [Kernel.descOf_setPos _ (Kernel.descOf_pid found'), Kernel.descOf_setData, session.descs]
  by_cases same : other = fd <;> simp [same]

theorem write (session : Session p k k' draws now count descs links held) (fd : Fd)
    (D : Description) (text bytes : Bytes) (linked : (d, x, i) ∈ links) (holds : now d x = some bytes)
    (found : descs fd = some D) (ino : D.ino = some i) (writes : D.flags.write = true)
    (atEnd : D.flags.append = true ∨ D.pos = bytes.length) :
    ∃ k₁, Runs p (Flstream.write ⟨some fd, e⟩ text) k' ⟨some fd, 0⟩ k₁ ∧
      Session p k k₁ draws (put d x (some (bytes ++ text)) now) count
        (Function.update descs fd (some { D with pos := bytes.length + text.length }))
        links held := by
  have found' : k'.descOf p fd = some D := session.descs ▸ found
  have data := session.data linked holds
  have run := Flstream.write_runs (e := e) text found' ino writes (data.symm ▸ atEnd)
  rw [data] at run
  obtain ⟨turns, linked'⟩ := session.links_setData linked (bytes ++ text)
  refine ⟨_, run, { session with turns := turns, links := linked', descs := ?_ }⟩
  funext other
  rw [Kernel.descOf_setPos _ (Kernel.descOf_pid found'), Kernel.descOf_setData, session.descs]
  by_cases same : other = fd <;> simp [same]

theorem getlines (session : Session p k k' draws now count descs links held) (fd : Fd)
    (D : Description) (linked : (d, x, i) ∈ links) (holds : now d x = some bytes)
    (found : descs fd = some D) (ino : D.ino = some i) (reads : D.flags.read = true)
    (start : D.pos = 0) :
    ∃ k₁, Runs p (Flstream.getlines ⟨some fd, e⟩ SEPARATOR) k'
        (Records.split SEPARATOR bytes, ⟨some fd, 0⟩) k₁ ∧
      Session p k k₁ draws now count
        (Function.update descs fd (some { D with pos := bytes.length })) links held := by
  have found' : k'.descOf p fd = some D := session.descs ▸ found
  have whole : Flstream.unread k' i D.pos = bytes := by
    rw [start]
    exact session.data linked holds
  have run := Flstream.getlines_runs (e := e) SEPARATOR found' ino reads
  rw [whole, start, Nat.zero_add] at run
  refine ⟨_, run, { session with descs := ?_ }⟩
  funext other
  rw [Kernel.descOf_setPos _ (Kernel.descOf_pid found'), session.descs]
  by_cases same : other = fd <;> simp [same]

theorem rewind (session : Session p k k' draws now count descs links held) (fd : Fd)
    (D : Description) (found : descs fd = some D) :
    ∃ k₁, Runs p (Flstream.seek ⟨some fd, e⟩ 0) k' () k₁ ∧
      Session p k k₁ draws now count (Function.update descs fd (some { D with pos := 0 }))
        links held := by
  have found' : k'.descOf p fd = some D := session.descs ▸ found
  refine ⟨_, Flstream.seek_runs 0 found', { session with descs := ?_ }⟩
  funext other
  rw [Kernel.descOf_setPos _ (Kernel.descOf_pid found'), session.descs]
  by_cases same : other = fd <;> simp [same]

theorem truncate (session : Session p k k' draws now count descs links held) (fd : Fd)
    (D : Description) (linked : (d, x, i) ∈ links) (found : descs fd = some D)
    (ino : D.ino = some i) (writes : D.flags.write = true) :
    Runs p (Flstream.truncate ⟨some fd, e⟩ 0) k' () (k'.setData i []) ∧
      Session p k (k'.setData i []) draws (put d x (some []) now) count descs links held := by
  obtain ⟨turns, linked'⟩ := session.links_setData linked []
  exact ⟨Flstream.truncate_runs (session.descs ▸ found) ino writes,
    { session with turns := turns, links := linked' }⟩

theorem remove (session : Session p k k' draws now count descs links held) (d : Dir)
    (names : Names x y) :
    ∃ k₁ there, Runs p (Sys.remove (d.text ++ x)) k' (.ok there) k₁ ∧
      Session p k k₁ draws (put d y none now) count descs
        (links.filter fun link => ¬ (link.1 = d ∧ link.2.1 = y)) held := by
  have resolved := resolve_entry k'.files session.turns.sane.layout d names
  rcases session.turns.sane.entry_cases d y with ⟨i, file, _⟩ | ⟨absent, nothing⟩
  · have turns := Turns.unlink (d := d) (x := y) session.turns.sane
    rw [session.turns.records] at turns
    refine ⟨k'.unlink (entry k'.files d y), true,
      Flstream.issue_runs (c := .remove (d.text ++ x)) (r := .ok true) ?_,
      { session with turns := session.turns.trans turns, links := fun link member => ?_ }⟩
    · simp [Kernel.exec, Kernel.removeFile, resolved, file]
    · obtain ⟨old, other⟩ := List.mem_filter.mp member
      have apart : entry k'.files link.1 link.2.1 ≠ entry k'.files d y := by
        rw [ne_eq, entry_inj]
        exact of_decide_eq_true other
      change (k'.files.unlink (entry k'.files d y)).node (entry k'.files link.1 link.2.1) = _
      rw [Files.node_unlink _ _ (entry_ne_nil _ _ _), if_neg apart]
      exact session.links link old
  · have gone : put d y none now = now := by
      rw [← session.turns.records, ← nothing, put_same]
    refine ⟨k', false, Flstream.issue_runs (c := .remove (d.text ++ x)) (r := .ok false) ?_, ?_⟩
    · simp [Kernel.exec, Kernel.removeFile, resolved, absent]
    · rw [gone]
      exact { session with links := fun link member => session.links link (List.mem_filter.mp member).1 }

theorem rewrite (ids : List Bytes) (id : Bytes) (empty : Bool) (bytes : Bytes) {D : Description}
    (session : Session p k k' draws now count descs links held)
    (linked : (d, x, i) ∈ links) (holds : now d x = some bytes) (found : descs fd = some D)
    (ino : D.ino = some i) (writes : D.flags.write = true) (atEnd : D.pos = bytes.length) :
    ∃ k₁ pos, Runs p (Storage.rewrite id ids empty ⟨some fd, 0⟩) k'
        (empty && (ids.filter (· ≠ id)).isEmpty, ⟨some fd, 0⟩) k₁ ∧
      Session p k k₁ draws
        (put d x (some (bytes ++ Records.render SEPARATOR (ids.filter (· ≠ id)))) now) count
        (Function.update descs fd (some { D with pos := pos })) links held := by
  -- By induction over the lines read before: every id but the removed one is written again, each
  -- behind the previous one.
  induction ids generalizing k' now descs D bytes empty with
  | nil =>
      refine ⟨k', D.pos, Program.Runs.done.of_eq (by simp) rfl, ?_⟩
      have same : Function.update descs fd (some { D with pos := D.pos }) = descs :=
        Function.update_eq_self_iff.mpr found.symm
      rw [same]
      simpa [← holds, put_same] using session
  | cons fid ids ih =>
      by_cases own : fid = id
      · obtain ⟨k₁, pos, run, after⟩ := ih empty bytes session holds found ino writes atEnd
        have skips : Storage.rewrite id (fid :: ids) empty ⟨some fd, 0⟩ =
            Storage.rewrite id ids empty ⟨some fd, 0⟩ := by
          simp [Storage.rewrite, own]
        exact ⟨k₁, pos, by rw [skips]; simpa [own] using run, by simpa [own] using after⟩
      · obtain ⟨k₁, written, after⟩ := session.writeRecord (e := 0) fd D fid bytes linked holds found
          ino writes (Or.inr atEnd)
        obtain ⟨k₂, pos, run, last⟩ := ih false (bytes ++ (fid ++ [SEPARATOR])) after (put_self ..)
          (Function.update_self ..) ino writes (by simp)
        have writesOne : Storage.rewrite id (fid :: ids) empty ⟨some fd, 0⟩ =
            (Flstream.writeRecord ⟨some fd, 0⟩ fid SEPARATOR).bind
              fun s => Storage.rewrite id ids false s := by
          simp [Storage.rewrite, own]
        refine ⟨k₂, pos, ?_, ?_⟩
        · rw [writesOne]
          exact (written.bind run).of_eq (by simp [own]) rfl
        · simpa [own, put_put] using last

end Session

/-! ## Storing -/

def appending : Flags := (Flstream.WRONLY.union Flstream.APPEND).union Flstream.CREAT

def emptying : Flags := (Flstream.WRONLY.union Flstream.CREAT).union Flstream.TRUNC

@[simp] theorem appending_trunc : appending.trunc = false := rfl

@[simp] theorem emptying_trunc : emptying.trunc = true := rfl

def listed (file name id : Bytes) (r : Contents) : Contents :=
  put .data id (some []) (put .byId id (some (name ++ [SEPARATOR]))
    (put .byName file (some ((r .byName file).getD [] ++ (id ++ [SEPARATOR]))) r))

theorem create_runs (ready : Ready k) (names : Names name file)
    (drawn : k.source k.drawn = id) (plainId : PlainName id) :
    ∃ k', Runs p (create name) k (.ok id) k' ∧
      Becomes k k' 1 (listed file name id (record k.files)) := by
  obtain ⟨draw, session⟩ := (Session.start ready p).draw
  rw [drawn] at draw
  obtain ⟨i, _, open₁, session⟩ := session.openFile .byName appending names rfl rfl
  obtain ⟨lock₁, session⟩ := session.lock (e := 0) k.nextFd ⟨p, some i, appending, 0⟩ (by simp) rfl rfl
  obtain ⟨j, _, open₂, session⟩ := session.openFile .byId emptying (Names.of_plain plainId) rfl rfl
  obtain ⟨lock₂, session⟩ :=
    session.lock (e := 0) (k.nextFd + 1) ⟨p, some j, emptying, 0⟩ (by simp) rfl rfl
  -- the line of the index
  obtain ⟨_, write₁, session⟩ := session.writeRecord (e := 0) k.nextFd ⟨p, some i, appending, 0⟩ id
    ((record k.files .byName file).getD []) (d := .byName) (x := file) (i := i) (by simp)
    (by simp [put]) (by simp) rfl rfl (Or.inl rfl)
  obtain ⟨close₁, session⟩ := session.close (e := 0) k.nextFd _ (Function.update_self ..) rfl
  -- the name in the record of the id
  obtain ⟨_, write₂, session⟩ := session.writeRecord (e := 0) (k.nextFd + 1)
    ⟨p, some j, emptying, 0⟩ name [] (d := .byId) (x := id) (i := j) (by simp)
    (by simp [put]) (by simp) rfl rfl (Or.inr rfl)
  obtain ⟨m, _, open₃, session⟩ := session.openFile .data emptying (Names.of_plain plainId) rfl rfl
  obtain ⟨close₃, session⟩ :=
    session.close (e := 0) (k.nextFd + 2) ⟨p, some m, emptying, 0⟩ (by simp) rfl
  obtain ⟨close₂, session⟩ := session.close (e := 0) (k.nextFd + 1)
    ⟨p, some j, emptying, 0 + (name.length + 1)⟩ (by simp) rfl
  have again := session.close_again (e := 0) k.nextFd (by simp)
  refine ⟨_, draw.bind (open₁.bind (lock₁.bind (open₂.bind (lock₂.bind (write₁.bind (close₁.bind
    (write₂.bind (open₃.bind (close₃.bind (close₂.bind (again.bind Program.Runs.done))))))))))), ?_⟩
  apply session.finish (by simp)
  funext d x
  cases d <;> simp [listed, put] <;> split_ifs <;> rfl

def stored (file name id data : Bytes) (r : Contents) : Contents :=
  put .data id (some data) (put .byId id (some (name ++ [SEPARATOR]))
    (put .byName file (some ((r .byName file).getD [] ++ (id ++ [SEPARATOR]))) r))

section Stored
variable (file name id data x : Bytes) (r : Contents)

@[simp] theorem stored_byId : stored file name id data r .byId x =
    if x = id then some (name ++ [SEPARATOR]) else r .byId x := by
  simp [stored, put]

@[simp] theorem stored_data : stored file name id data r .data x =
    if x = id then some data else r .data x := by
  simp [stored, put]

@[simp] theorem stored_byName : stored file name id data r .byName x =
    if x = file then some ((r .byName file).getD [] ++ (id ++ [SEPARATOR])) else r .byName x := by
  simp [stored, put]

end Stored

theorem get_runs (ready : Ready k) (object : Object) (names : Names object.id y) (mode : Flags)
    (whole : mode.trunc = false) (holds : record k.files .data y = some bytes) :
    ∃ i k', Runs p (object.get mode) k (.ok ⟨some k.nextFd, 0⟩) k' ∧
      Session p k k' 0 (record k.files) 1
        (Function.update (k.descOf p) k.nextFd (some ⟨p, some i, mode, 0⟩))
        [(.data, y, i)] [] := by
  obtain ⟨i, k', opens, session⟩ :=
    (Session.start ready p).openExisting .data mode names holds whole
  exact ⟨i, k', opens.bind Program.Runs.done, session⟩

theorem store_runs (ready : Ready k) (data : Bytes) (names : Names name file)
    (drawn : k.source k.drawn = id) (plainId : PlainName id) :
    ∃ k', Runs p (store name data) k (.ok id) k' ∧
      Becomes k k' 1 (stored file name id data (record k.files)) := by
  obtain ⟨k₁, created, change₁⟩ := create_runs (p := p) ready names drawn plainId
  have here : record k₁.files = listed file name id (record k.files) := change₁.turns.records
  obtain ⟨k₂, found, change₂⟩ := byId_found (p := p) change₁.ready (Names.of_plain plainId)
    (show record k₁.files .byId id = some (name ++ [SEPARATOR]) by
      rw [here]; simp [listed, put])
  have here₂ := change₂.turns.records.trans here
  obtain ⟨i, k₃, opens, session⟩ := get_runs (p := p) change₂.ready
    ⟨id, Records.first SEPARATOR (name ++ [SEPARATOR]), DATA_DIR ++ id⟩
    (Names.of_plain plainId) Flstream.WRONLY rfl
    (show record k₂.files .data id = some [] by rw [here₂]; simp [listed])
  obtain ⟨_, written, session⟩ := session.write (e := 0) k₂.nextFd ⟨p, some i, Flstream.WRONLY, 0⟩
    data [] (d := .data) (x := id) (i := i) (by simp) (by rw [here₂]; simp [listed]) (by simp) rfl
    rfl (Or.inr rfl)
  obtain ⟨closed, session⟩ := session.close (e := 0) k₂.nextFd _ (Function.update_self ..) rfl
  refine ⟨_, created.bind (found.bind (opens.bind (written.bind (closed.bind Program.Runs.done)))),
    change₁.trans (change₂.trans (session.finish rfl ?_))⟩
  rw [here₂, listed, put_put]
  rfl

/-- The record is looked up twice, and is the same the second time. -/
theorem getId_found (ready : Ready k) (names : Names id y)
    (holds : record k.files .byId y = some bytes) :
    ∃ k', Runs p (getId id) k
        (.ok { id := id, name := Records.first SEPARATOR bytes, dataPath := DATA_DIR ++ id }) k' ∧
      Becomes k k' 0 (record k.files) := by
  obtain ⟨k₁, first, change₁⟩ := byId_found (p := p) ready names holds
  have same : record k₁.files = record k.files := change₁.turns.records
  obtain ⟨k₂, second, change₂⟩ := byId_found (p := p) change₁.ready names (by rw [same, holds])
  rw [same] at change₂
  exact ⟨k₂, first.bind second, change₁.trans change₂⟩

theorem getId_missing (ready : Ready k) (names : Names id y)
    (absent : record k.files .byId y = none) :
    Runs p (getId id) k (.error (.ofErrno ENOENT)) k :=
  (byId_missing ready names absent).bind Program.Runs.done

/-! ## Removing -/

def unlisted (id text : Bytes) : List Bytes := (Records.split SEPARATOR text).filter (· ≠ id)

@[simp] theorem mem_unlisted (id text line : Bytes) :
    line ∈ unlisted id text ↔ line ∈ Records.split SEPARATOR text ∧ line ≠ id := by
  simp [unlisted]

theorem split_unlisted (id text : Bytes) :
    Records.split SEPARATOR (Records.render SEPARATOR (unlisted id text)) = unlisted id text := by
  -- What is written back is read as these lines again.
  apply Records.split_render
  intro line member
  exact Records.split_free SEPARATOR text line ((mem_unlisted id text line).mp member).1

/-- The contents once `remove` has returned; `y` and `file` are the components
that `id` and the name recorded for it name. -/
def removed (file y id text : Bytes) (r : Contents) : Contents :=
  put .byName file
    (if unlisted id text = [] then none else some (Records.render SEPARATOR (unlisted id text)))
    (put .data y none (put .byId y none r))

section Removed
variable (file y id text x : Bytes) (r : Contents)

@[simp] theorem removed_byId : removed file y id text r .byId x = if x = y then none else r .byId x := by
  simp [removed, put]

@[simp] theorem removed_data : removed file y id text r .data x = if x = y then none else r .data x := by
  simp [removed, put]

@[simp] theorem removed_byName : removed file y id text r .byName x =
    if x = file then
      if unlisted id text = [] then none else some (Records.render SEPARATOR (unlisted id text))
    else r .byName x := by
  simp [removed, put]

end Removed

theorem removeObject_runs (ready : Ready k) (object : Object) (namesId : Names object.id y)
    (namesFile : Names object.name file) (listed : record k.files .byName file = some bytes) :
    ∃ k', Runs p object.remove k (some (.ok ())) k' ∧
      Becomes k k' 0 (removed file y object.id bytes (record k.files)) := by
  obtain ⟨_, _, unlinkId, session⟩ := (Session.start ready p).remove .byId namesId
  obtain ⟨_, _, unlinkData, session⟩ := session.remove .data namesId
  have there : put .data y none (put .byId y none (record k.files)) .byName file = some bytes := by
    simpa [put] using listed
  obtain ⟨i, _, opens, session⟩ := session.openExisting .byName Flstream.RDWR namesFile there rfl
  obtain ⟨locks, session⟩ := session.lock (e := 0) k.nextFd ⟨p, some i, Flstream.RDWR, 0⟩
    (by simp) rfl rfl
  obtain ⟨_, reads, session⟩ := session.getlines (e := 0) k.nextFd ⟨p, some i, Flstream.RDWR, 0⟩
    (d := .byName) (x := file) (i := i) (by simp) there (by simp) rfl rfl rfl
  obtain ⟨_, rewinds, session⟩ := session.rewind (e := 0) k.nextFd _ (Function.update_self ..)
  obtain ⟨cuts, session⟩ := session.truncate (e := 0) k.nextFd _ (d := .byName)
    (x := file) (i := i) (by simp) (Function.update_self ..) rfl rfl
  obtain ⟨_, pos, writes, session⟩ := session.rewrite (Records.split SEPARATOR bytes) object.id true
    [] (d := .byName) (x := file) (i := i) (by simp) (put_self ..) (Function.update_self ..)
    rfl rfl rfl
  rw [Bool.true_and] at writes
  rw [List.nil_append, put_put] at session
  change Runs p _ _ ((unlisted object.id bytes).isEmpty, _) _ at writes
  change Session p k _ _ (put .byName file
    (some (Records.render SEPARATOR (unlisted object.id bytes))) _) _ _ _ _ at session
  by_cases none_left : unlisted object.id bytes = []
  · obtain ⟨_, _, unlinkName, session⟩ := session.remove .byName namesFile
    obtain ⟨closes, session⟩ := session.close (e := 0) k.nextFd _ (Function.update_self ..) rfl
    have again := session.close_again (e := 0) k.nextFd (by simp)
    rw [none_left] at writes
    refine ⟨_, unlinkId.bind (unlinkData.bind (opens.bind (locks.bind (reads.bind (rewinds.bind
      (cuts.bind (writes.bind (unlinkName.bind (closes.bind (again.bind
        Program.Runs.done)))))))))), session.finish (by simp) ?_⟩
    rw [put_put, removed, if_pos none_left]
  · obtain ⟨closes, session⟩ := session.close (e := 0) k.nextFd _ (Function.update_self ..) rfl
    rw [List.isEmpty_eq_false_iff.mpr none_left] at writes
    refine ⟨_, unlinkId.bind (unlinkData.bind (opens.bind (locks.bind (reads.bind (rewinds.bind
      (cuts.bind (writes.bind (closes.bind Program.Runs.done)))))))), session.finish (by simp) ?_⟩
    rw [removed, if_neg none_left]

theorem remove_missing (ready : Ready k) (names : Names id y)
    (absent : record k.files .byId y = none) :
    Runs p (remove id) k (some (.error (.ofErrno ENOENT))) k :=
  (byId_missing ready names absent).bind Program.Runs.done

theorem remove_runs {text : Bytes} (ready : Ready k) (namesId : Names id y)
    (holds : record k.files .byId y = some bytes)
    (namesFile : Names (Records.first SEPARATOR bytes) file)
    (listed : record k.files .byName file = some text) :
    ∃ k', Runs p (remove id) k (some (.ok ())) k' ∧
      Becomes k k' 0 (removed file y id text (record k.files)) := by
  obtain ⟨k₁, found, change₁⟩ := byId_found (p := p) ready namesId holds
  have same : record k₁.files = record k.files := change₁.turns.records
  obtain ⟨k₂, gone, change₂⟩ := removeObject_runs (p := p) change₁.ready
    ⟨id, Records.first SEPARATOR bytes, DATA_DIR ++ id⟩ namesId namesFile
    (show record k₁.files .byName file = some text by rw [same, listed])
  rw [same] at change₂
  exact ⟨k₂, found.bind gone, change₁.trans change₂⟩

end Sfsdb.Volume

import Sfsdb.Outlines
import Sfsdb.Traces

/-!
The rules for what changes files and gives locks back: writing, cutting short,
closing and removing. An index is written under its lock and keeps what it
listed until it is closed; what a process stores under its own id only it writes.
-/

namespace Sfsdb.Processes

open Posix Storage
open Volume (Dir entry Names writesAt)

variable {t : Terms} {p : Pid} {D : Fd → Option Description} {H H' : List (Ino × LockKind)}
  {F F' : List Fact} {w : World} {g : Ghost} {k' : Kernel} {fd : Fd} {d : Description} {i : Ino} {e : Errno}
  {dir : Dir} {n x text bytes : Bytes} {ids old : List Bytes}

/-! ## Writing -/

section Writing

theorem write_step {r : Except Errno Nat} (inv : Inv t w g) (session : Session t p D H F w g)
    (there : D fd = some d) (ino : d.ino = some i) (writable : d.flags.write = true)
    (answered : w.kernel.exec p (.write fd bytes) = some (r, k')) :
    r = .ok bytes.length ∧
      Alike p (w.kernel.setData i (overwrite (w.kernel.files.data i) (writesAt w.kernel.files d i) bytes)) k' ∧
      k'.descOf p = Function.update D fd
        (some { d with pos := writesAt w.kernel.files d i + bytes.length }) := by
  have found := session.found there
  have own := Kernel.descOf_pid found
  simp only [Kernel.exec, Kernel.writeFile, found, writable, Bool.not_true, Bool.false_eq_true, ↓reduceIte,
    ino, Option.some.injEq] at answered
  cases answered
  refine ⟨rfl, Alike.setPos (k := w.kernel.setData i _) inv.fds found _, ?_⟩
  funext other
  rw [Kernel.descOf_setPos _ own, Function.update_apply, ← session.descs]
  rfl

theorem truncate_step {r : Except Errno Unit} (inv : Inv t w g) (session : Session t p D H F w g)
    (there : D fd = some d) (ino : d.ino = some i) (writable : d.flags.write = true)
    (answered : w.kernel.exec p (.ftruncate fd 0) = some (r, k')) :
    Alike p (w.kernel.setData i []) k' ∧ k'.descOf p = D := by
  have found := session.found there
  simp only [Kernel.exec, Kernel.truncateFile, found, ino, writable, Bool.not_true, Bool.false_eq_true,
    ↓reduceIte, List.take_zero, Nat.zero_sub, List.replicate_zero, List.append_nil, Option.some.injEq] at answered
  cases answered
  exact ⟨Alike.same inv.fds, session.descs⟩

theorem Session.indexed (inv : Inv t w g) (session : Session t p D H (.index i n text ids :: F) w g)
    (writes : (i, .write) ∈ H) (apart : ∀ f ∈ F, f.file ≠ some i)
    (alike : Alike p (w.kernel.setData i bytes) k') {D' : Fd → Option Description} (descs : k'.descOf p = D') :
    Stepped t p w g (w.after k') g ∧ Session t p D' H (.index i n bytes ids :: F) (w.after k') g := by
  obtain ⟨role, _, members, _⟩ := session.facts _ List.mem_cons_self
  have held := (session.held i .write).mpr writes
  have stepped : Stepped t p w g (w.after k') g := by
    -- an index is neither a record nor a file of an id
    refine inv.setData alike (fun _ _ => held) (fun y record => ?_) fun _ d y other notIndex => ?_
    · rw [role] at record
      cases record
    · rw [role] at other
      cases other
      exact absurd rfl notIndex
  have locks : ∀ j, (w.after k').locks j = w.locks j := fun j => congrFun alike.locks j
  refine ⟨stepped, (session.weaken F fun f => List.mem_cons_of_mem _).next stepped.guar.toLater
    [.index i n bytes ids] (fun f member => unchanged_setData alike (apart f member)) ?_ descs
    fun j kind => by rw [locks, session.held]⟩
  intro f member
  cases List.mem_singleton.mp member
  refine ⟨role, ?_, members, .write, ?_⟩
  · rw [after_data alike, if_pos rfl]
  · rw [locks]
    exact held

theorem write_index (there : D fd = some d) (ino : d.ino = some i) (writable : d.flags.write = true)
    (atEnd : d.flags.append = true ∨ d.pos = text.length) (writes : (i, .write) ∈ H)
    (apart : ∀ f ∈ F, f.file ≠ some i) :
    Outline t p (Session t p D H (.index i n text ids :: F)) (Flstream.write ⟨some fd, e⟩ bytes) fun s w g =>
      s = ⟨some fd, 0⟩ ∧ Session t p
        (Function.update D fd (some { d with pos := text.length + bytes.length })) H
        (.index i n (text ++ bytes) ids :: F) w g := by
  refine outline_once (fun _ _ _ _ => trivial) fun w g r k' inv session _ answered => ?_
  obtain ⟨rfl, alike, descs⟩ := write_step inv session there ino writable answered
  have data : w.kernel.files.data i = text := (session.facts _ List.mem_cons_self).2.1
  have start : writesAt w.kernel.files d i = text.length := by
    rcases atEnd with append | same
    · simp [writesAt, append, data]
    · simp [writesAt, same, data]
  rw [start, data, Kernel.overwrite_end] at alike
  rw [start] at descs
  obtain ⟨stepped, later⟩ := session.indexed inv writes apart alike descs
  exact ⟨_, g, _, H, _, rfl, stepped, later, fun v h held => ⟨rfl, held⟩⟩

theorem truncate_index (there : D fd = some d) (ino : d.ino = some i) (writable : d.flags.write = true)
    (writes : (i, .write) ∈ H) (apart : ∀ f ∈ F, f.file ≠ some i) :
    Outline t p (Session t p D H (.index i n text ids :: F)) (Flstream.truncate ⟨some fd, e⟩ 0) fun _ w g =>
      Session t p D H (.index i n [] ids :: F) w g := by
  refine outline_once (fun _ _ _ _ => trivial) fun w g r k' inv session _ answered => ?_
  obtain ⟨alike, descs⟩ := truncate_step inv session there ino writable answered
  obtain ⟨stepped, later⟩ := session.indexed inv writes apart alike descs
  exact ⟨_, g, _, H, _, rfl, stepped, later, fun v h held => held⟩

theorem overwrite_slashless {prior : Bytes} (pos : Nat) (before : slash ∉ prior) (new : slash ∉ bytes) :
    slash ∉ overwrite prior pos bytes := by
  unfold overwrite
  simp only [List.mem_append, List.mem_replicate, not_or]
  refine ⟨⟨⟨fun member => before (List.mem_of_mem_take member), ?_⟩, new⟩,
    fun member => before (List.mem_of_mem_drop member)⟩
  rintro ⟨_, zero⟩
  exact absurd zero (by decide)

theorem write_own (there : D fd = some d) (ino : d.ino = some i) (writable : d.flags.write = true)
    (atEnd : d.flags.append = false ∧ d.pos = text.length) (slashless : dir = .byId → slash ∉ bytes)
    (apart : ∀ f ∈ F, f.place ≠ some (dir, x)) :
    Outline t p (Session t p D H (.own dir x i text :: F)) (Flstream.write ⟨some fd, e⟩ bytes) fun s w g =>
      s = ⟨some fd, 0⟩ ∧ Session t p
        (Function.update D fd (some { d with pos := text.length + bytes.length })) H
        (.own dir x i (text ++ bytes) :: F) w g := by
  -- Bytes are laid behind what the process stored under its own id.
  refine outline_once (fun _ _ _ _ => trivial) fun w g r k' inv session _ answered => ?_
  obtain ⟨rfl, alike, descs⟩ := write_step inv session there ino writable answered
  obtain ⟨other, role, known⟩ := session.facts _ List.mem_cons_self
  have start : writesAt w.kernel.files d i = text.length := by
    simp [writesAt, atEnd.1, atEnd.2]
  rw [start] at alike descs
  have stepped : Stepped t p w g (w.after k') g := by
    refine inv.setData alike (fun m index => ?_) (fun y record => ?_) fun fresh d' y own _ => ?_
    · rw [role] at index
      cases index
      exact absurd rfl other
    · have same := role.symm.trans record
      cases same
      exact overwrite_slashless _ (inv.slashless i x record) (slashless rfl)
    · have same := role.symm.trans own
      cases same
      exact (known fresh).1.1
  refine ⟨_, g, _, H, _, rfl, stepped, (session.weaken F fun f => List.mem_cons_of_mem _).next
    stepped.guar.toLater [.own dir x i (text ++ bytes)] (fun f member => ?_) ?_ descs fun j kind => ?_,
    fun v h held => ⟨rfl, held⟩⟩
  · refine unchanged_setData alike fun file => apart f member ?_
    exact (session.facts f (List.mem_cons_of_mem _ member)).placed file role other
  · intro f member
    cases List.mem_singleton.mp member
    refine ⟨other, role, fun fresh => ?_⟩
    obtain ⟨⟨working, drawn⟩, there⟩ := known fresh
    refine ⟨⟨working, stepped.guar.drawnStill drawn⟩, there.imp_right fun here => ?_⟩
    refine ⟨(after_node alike dir x).trans here.1, ?_⟩
    have data : w.kernel.files.data i = text := here.2
    rw [after_data alike, if_pos rfl, data, Kernel.overwrite_end]
  · rw [show (w.after k').locks j = w.locks j from congrFun alike.locks j, session.held]

/-! A record is its text and a separator, written one after the other. -/

theorem writeRecord_index {record : Bytes} (there : D fd = some d) (ino : d.ino = some i)
    (writable : d.flags.write = true) (atEnd : d.flags.append = true ∨ d.pos = text.length)
    (writes : (i, .write) ∈ H) (apart : ∀ f ∈ F, f.file ≠ some i) :
    Outline t p (Session t p D H (.index i n text ids :: F))
      (Flstream.writeRecord ⟨some fd, e⟩ record SEPARATOR) fun s w g =>
        s = ⟨some fd, 0⟩ ∧ Session t p
          (Function.update D fd (some { d with pos := text.length + (record.length + 1) })) H
          (.index i n (text ++ (record ++ [SEPARATOR])) ids :: F) w g := by
  apply (write_index there ino writable atEnd writes apart).bind
  intro s w g inv here
  obtain ⟨rfl, session⟩ := here
  refine Program.meets_mono (write_index (d := { d with pos := text.length + record.length })
    (Function.update_self ..) ino writable (Or.inr (by simp)) writes apart w g inv session) fun s w g _ here => ?_
  simpa [Function.update_idem, List.append_assoc, Nat.add_assoc] using here

theorem writeRecord_own {record : Bytes} (there : D fd = some d) (ino : d.ino = some i)
    (writable : d.flags.write = true) (atEnd : d.flags.append = false ∧ d.pos = text.length)
    (slashless : slash ∉ record) (apart : ∀ f ∈ F, f.place ≠ some (dir, x)) :
    Outline t p (Session t p D H (.own dir x i text :: F))
      (Flstream.writeRecord ⟨some fd, e⟩ record SEPARATOR) fun s w g =>
        s = ⟨some fd, 0⟩ ∧ Session t p
          (Function.update D fd (some { d with pos := text.length + (record.length + 1) })) H
          (.own dir x i (text ++ (record ++ [SEPARATOR])) :: F) w g := by
  apply (write_own there ino writable atEnd (fun _ => slashless) apart).bind
  intro s w g inv here
  obtain ⟨rfl, session⟩ := here
  refine Program.meets_mono (write_own (d := { d with pos := text.length + record.length })
    (Function.update_self ..) ino writable ⟨atEnd.1, by simp⟩ (fun _ => by decide) apart w g inv session)
    fun s w g _ here => ?_
  simpa [Function.update_idem, List.append_assoc, Nat.add_assoc] using here

theorem seek_outline (there : D fd = some d) (pos : Nat) :
    Outline t p (Session t p D H F) (Flstream.seek ⟨some fd, e⟩ pos) fun _ w g =>
      Session t p (Function.update D fd (some { d with pos := pos })) H F w g := by
  refine outline_once (fun _ _ _ _ => trivial) fun w g r k' inv session _ answered => ?_
  have found := session.found there
  simp only [Kernel.exec, Kernel.seekFile, found, Option.some.injEq] at answered
  rw [if_neg (by omega)] at answered
  cases answered
  obtain ⟨stepped, later⟩ := session.moved inv there pos
  exact ⟨_, g, _, H, F, rfl, stepped, later, fun v h held => held⟩

theorem rewrite_index (lines : List Bytes) {id : Bytes} {empty : Bool} (there : D fd = some d)
    (ino : d.ino = some i) (writable : d.flags.write = true) (atEnd : d.pos = text.length)
    (writes : (i, .write) ∈ H) (apart : ∀ f ∈ F, f.file ≠ some i) :
    Outline t p (Session t p D H (.index i n text ids :: F)) (Storage.rewrite id lines empty ⟨some fd, e⟩)
      fun r w g => r.1 = (empty && (lines.filter (· ≠ id)).isEmpty) ∧ (∃ e', r.2 = ⟨some fd, e'⟩) ∧
        ∃ pos, Session t p (Function.update D fd (some { d with pos := pos })) H
          (.index i n (text ++ Records.render SEPARATOR (lines.filter (· ≠ id))) ids :: F) w g := by
  -- By induction over the lines read before: every id but the removed one is written again, each
  -- behind the previous one.
  induction lines generalizing D d text e empty with
  | nil =>
      refine Program.triple_done session_stable fun w g _ session => ⟨by simp, ⟨e, rfl⟩, d.pos, ?_⟩
      simpa [← there] using session
  | cons fid lines ih =>
      by_cases own : fid = id
      · have skips : Storage.rewrite id (fid :: lines) empty ⟨some fd, e⟩ =
            Storage.rewrite id lines empty ⟨some fd, e⟩ := by
          simp [Storage.rewrite, own]
        rw [skips]
        simpa [own] using ih there ino writable atEnd
      · have keeps : Storage.rewrite id (fid :: lines) empty ⟨some fd, e⟩ =
            (Flstream.writeRecord ⟨some fd, e⟩ fid SEPARATOR).bind fun nameFile =>
              Storage.rewrite id lines false nameFile := by
          simp [Storage.rewrite, own]
        rw [keeps]
        apply (writeRecord_index there ino writable (Or.inr atEnd) writes apart).bind
        intro s w g inv here
        obtain ⟨rfl, session⟩ := here
        refine Program.meets_mono (ih (d := { d with pos := text.length + (fid.length + 1) })
          (Function.update_self ..) ino writable (by simp) w g inv session) fun r w g _ here => ?_
        simpa [own, Function.update_idem, List.append_assoc] using here

end Writing

/-! ## Closing -/

section Closing

theorem close_unopened :
    Outline t p (Session t p D H F) (Flstream.close ⟨none, e⟩) fun _ w g => Session t p D H F w g :=
  Program.triple_done session_stable fun _ _ _ session => session

theorem refused_outline {α : Type} {value : α} {next : Prog α} {Q : α → World → Ghost → Prop} (failed : e ≠ 0)
    (gives : ∀ w g, Session t p D H F w g → Q value w g) :
    Outline t p (Session t p D H F)
      (if Flstream.fail ⟨none, e⟩ then do
        let _ ← Flstream.close ⟨none, e⟩
        return value
      else next) Q := by
  rw [if_pos ((Flstream.fail_iff none e).mpr failed)]
  exact close_unopened.bind fun _ w g inv session =>
    Program.meets_done session_stable (fun w g _ later => gives w g later) session

theorem close_again (closed : D fd = none) :
    Outline t p (Session t p D H F) (Flstream.close ⟨some fd, e⟩) fun _ w g => Session t p D H F w g := by
  -- Closing once more stops at the unlock.
  have unlocked : Outline t p (Session t p D H F) (Flstream.unlockFile ⟨some fd, e⟩) fun s w g =>
      s = ⟨some fd, EBADF⟩ ∧ Session t p D H F w g := by
    refine outline_once (fun _ _ _ _ => trivial) fun w g r k' inv session _ answered => ?_
    have nothing : w.kernel.descOf p fd = none := by rw [session.descs, closed]
    simp only [Kernel.exec, Kernel.unlockFile, nothing, Option.some.injEq] at answered
    cases answered
    exact ⟨_, g, D, H, F, rfl, ⟨inv, Guar.refl t p w g⟩, session, fun v h later => ⟨rfl, later⟩⟩
  apply unlocked.bind
  intro s w g inv here
  obtain ⟨rfl, session⟩ := here
  exact Program.meets_done session_stable (fun v h _ later => later) session

theorem Fact.Holds.rests {f : Fact} (holds : f.Holds t p w g) (lock : f.lock = some i) : Fact.Locked p w i := by
  cases f with
  | index j m text ids =>
      cases lock
      exact holds.2.2.2
  | linked j m =>
      cases lock
      exact ⟨_, holds.2.1⟩
  | _ => cases lock

theorem Session.unlockable (session : Session t p D H F w g) (none : ∀ kind, (i, kind) ∉ H) :
    ∀ f ∈ F, f.lock ≠ some i := by
  intro f member lock
  obtain ⟨kind, held⟩ := (session.facts f member).rests lock
  exact session.unheld none kind held

theorem close_outline (there : D fd = some d) (ino : d.ino = some i)
    (left : ∀ j kind, (j, kind) ∈ H' ↔ (j, kind) ∈ H ∧ j ≠ i)
    (gives : ∀ w g, Inv t w g → Session t p D H F w g →
      ∃ g', Stepped t p w g (w.after (w.kernel.release p i)) g' ∧
        ∀ f ∈ F', f.Holds t p (w.after (w.kernel.release p i)) g') :
    Outline t p (Session t p D H F) (Flstream.close ⟨some fd, e⟩) fun s w g =>
      s = ⟨some fd, 0⟩ ∧ Session t p (Function.update D fd none) H' F' w g := by
  have unlocked : Outline t p (Session t p D H F) (Flstream.unlockFile ⟨some fd, e⟩) fun s w g =>
      s = ⟨some fd, 0⟩ ∧ Session t p D H' F' w g := by
    refine outline_once (fun _ _ _ _ => trivial) fun w g r k' inv session _ answered => ?_
    simp only [Kernel.exec, Kernel.unlockFile, session.found there, ino, Option.some.injEq] at answered
    cases answered
    have alike : Alike p (w.kernel.release p i) (w.kernel.release p i) := Alike.same inv.fds
    obtain ⟨g', stepped, learned⟩ := gives w g inv session
    refine ⟨_, g', D, H', F', rfl, stepped, ⟨session.descs, fun j kind => ?_, learned⟩,
      fun v h later => ⟨rfl, later⟩⟩
    rw [left, ← session.held]
    apply (release_locks alike j _).trans
    simp
  apply unlocked.bind
  intro s w g inv here
  obtain ⟨rfl, session⟩ := here
  -- the lock is gone, so closing the descriptor gives nothing back
  have free : ∀ kind, (i, kind) ∉ H' := fun kind member => ((left i kind).mp member).2 rfl
  refine outline_once (c := .close fd) (fun _ _ _ _ => trivial) (fun w g r k' inv session _ answered => ?_)
    w g inv session
  have found := session.found there
  simp only [Kernel.exec, Kernel.closeFile, found, ino, Option.some.injEq] at answered
  cases answered
  have alike : Alike p (w.kernel.release p i) ((w.kernel.release p i).dropDesc fd) :=
    Alike.dropDesc inv.fds found
  have stepped := inv.release alike fun _ _ writes => session.unheld free _ writes
  refine ⟨_, g, _, H', F', rfl, stepped, session.next stepped.guar.toLater []
    (fun f member => unchanged_release alike (session.unlockable free f member)) (by simp) ?_ fun j kind => ?_,
    fun v h later => ⟨rfl, later⟩⟩
  · funext other
    rw [World.after, Kernel.descOf_dropDesc, Kernel.descOf_release, session.descs, Function.update_apply]
  · rw [← session.held]
    refine (release_locks alike j _).trans ⟨fun both => both.1, fun member => ⟨member, ?_⟩⟩
    rintro rfl
    exact absurd member (session.unheld free kind)

theorem close_stream (H' : List (Ino × LockKind)) (there : D fd = some d) (ino : d.ino = some i)
    (left : ∀ j kind, (j, kind) ∈ H' ↔ (j, kind) ∈ H ∧ j ≠ i) (apart : ∀ f ∈ F, f.lock ≠ some i)
    (unwritten : ∀ w g, Session t p D H F w g → ∀ n, g.role i = some (.byName, n) → (i, .write) ∉ H) :
    Outline t p (Session t p D H F) (Flstream.close ⟨some fd, e⟩) fun s w g =>
      s = ⟨some fd, 0⟩ ∧ Session t p (Function.update D fd none) H' F w g := by
  -- no index was written, so nobody else learns anything
  apply close_outline there ino left
  intro w g inv session
  have alike : Alike p (w.kernel.release p i) (w.kernel.release p i) := Alike.same inv.fds
  have stepped : Stepped t p w g (w.after (w.kernel.release p i)) g := by
    apply inv.release alike
    intro n index writes
    exact unwritten w g session n index ((session.held i _).mp writes)
  exact ⟨g, stepped, fun f member =>
    Fact.frame stepped.guar.toLater (unchanged_release alike (apart f member)) (session.facts f member)⟩

theorem close_index (ids added : List Bytes) (H' : List (Ino × LockKind)) (F' : List Fact)
    (there : D fd = some d) (ino : d.ino = some i)
    (left : ∀ j kind, (j, kind) ∈ H' ↔ (j, kind) ∈ H ∧ j ≠ i) (writes : (i, .write) ∈ H)
    (index : .index i n (Records.render SEPARATOR ids) old ∈ F) (drawn : ∀ y ∈ ids, .drawnFor y n ∈ F)
    (kept : ∀ y ∈ old, y ∈ ids ∨ .begun y ∈ F) (lines : ∀ y ∈ added, y ∈ ids ∧ .linked i n ∈ F)
    (rest : ∀ f ∈ F', f ∈ F ∧ f.lock ≠ some i) :
    Outline t p (Session t p D H F) (Flstream.close ⟨some fd, e⟩) fun s w g =>
      s = ⟨some fd, 0⟩ ∧
        Session t p (Function.update D fd none) H' ((added.map fun y => .published n y) ++ F') w g := by
  -- A written index is closed: from here on it lists `ids`, and `added` are lines of it.
  apply close_outline there ino left
  intro w g inv session
  have alike : Alike p (w.kernel.release p i) (w.kernel.release p i) := Alike.same inv.fds
  obtain ⟨role, text, rfl, _⟩ := session.facts _ index
  have stepped : Stepped t p w g (w.after (w.kernel.release p i)) (g.commit i ids (added.map fun y => (n, y))) := by
    -- with the lock gone, the index lists what has been written
    refine inv.commit alike role ((session.held i .write).mpr writes) text
      (fun y member => session.facts _ (drawn y member))
      (fun y member => (kept y member).imp_right fun begun => session.facts (.begun y) begun)
      fun strict line member => ?_
    obtain ⟨y, added, rfl⟩ := List.mem_map.mp member
    obtain ⟨listed, linked⟩ := lines y added
    obtain ⟨_, _, node⟩ := session.facts _ linked
    exact ⟨rfl, listed, node strict⟩
  refine ⟨_, stepped, fun f member => ?_⟩
  rcases List.mem_append.mp member with new | before
  · obtain ⟨y, added, rfl⟩ := List.mem_map.mp new
    exact fun _ => List.mem_append_left _ (List.mem_map.mpr ⟨y, added, rfl⟩)
  · exact Fact.frame stepped.guar.toLater (unchanged_commit alike (rest f before).2)
      (session.facts f (rest f before).1)

end Closing

/-! ## Removing -/

section Removing

theorem remove_step {r : Except Errno Bool} (inv : Inv t w g) (names : Names x n)
    (answered : w.kernel.exec p (.remove (dir.text ++ x)) = some (r, k')) :
    ∃ there, r = .ok there ∧
      (k' = w.kernel ∨ k' = w.kernel.unlink (entry w.kernel.files dir n)) := by
  have resolved := Volume.resolve_entry w.kernel.files inv.sane.layout dir names
  simp only [Kernel.exec, Kernel.removeFile, resolved, Option.some.injEq] at answered
  rcases inv.toCore.node_cases dir n with nothing | ⟨i, file⟩
  · have absent : w.kernel.files.node (entry w.kernel.files dir n) = none := nothing
    rw [absent] at answered
    cases answered
    exact ⟨false, rfl, Or.inl rfl⟩
  · have present : w.kernel.files.node (entry w.kernel.files dir n) = some (.file i) := file
    rw [present] at answered
    cases answered
    exact ⟨true, rfl, Or.inr rfl⟩

theorem remove_outline (dir : Dir) (F' : List Fact) (names : Names x n)
    (rest : ∀ f ∈ F', f ∈ F ∧ f.place ≠ some (dir, n))
    (may : ∀ w g, Inv t w g → Session t p D H F w g → (dir ≠ .byName → n ∈ w.begun) ∧
      (t.strict → dir = .byName → ∀ i, w.node dir n = some (.file i) →
        (p, LockKind.write) ∈ w.locks i ∧ ∀ y ∈ g.members i, y ∈ w.begun)) :
    Outline t p (Session t p D H F) (Sys.remove (dir.text ++ x)) fun r w g =>
      (∃ there, r = .ok there) ∧ Session t p D H F' w g := by
  refine outline_call (fun _ _ _ _ => trivial) fun w g r k' inv session _ answered => ?_
  have kept := session.weaken F' fun f member => (rest f member).1
  obtain ⟨there, rfl, same | rfl⟩ := remove_step inv names answered
  · subst same
    exact ⟨g, D, H, F', ⟨inv, Guar.refl t p w g⟩, kept, fun v h later => ⟨⟨there, rfl⟩, later⟩⟩
  · have alike : Alike p (w.kernel.unlink (entry w.kernel.files dir n))
        (w.kernel.unlink (entry w.kernel.files dir n)) := Alike.same inv.fds
    have stepped := inv.unlink alike (may w g inv session).1 (may w g inv session).2
    exact ⟨g, D, H, F', stepped, kept.next stepped.guar.toLater []
      (fun f member => unchanged_unlink alike (rest f member).2) (by simp) session.descs session.held,
      fun v h later => ⟨⟨there, rfl⟩, later⟩⟩

end Removing

end Sfsdb.Processes

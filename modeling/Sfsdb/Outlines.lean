import Sfsdb.OwnSteps
import Sfsdb.Reading

/-!
What a process knows before and behind each stream operation, while others run.
An outline is a triple over sessions; the rules are those of the operations of
an `flstream` on the files that volume programs open.
-/

namespace Sfsdb.Processes

open Posix Storage
open Volume (Dir entry Names)

abbrev Outline {α : Type} (t : Terms) (p : Pid) (A : World → Ghost → Prop) (program : Prog α)
    (Q : α → World → Ghost → Prop) : Prop :=
  Program.Triple (protocol t) p A program Q

variable {t : Terms} {p : Pid} {D : Fd → Option Description} {H : List (Ino × LockKind)} {F : List Fact}
  {w : World} {g : Ghost} {k' : Kernel} {fd : Fd} {d : Description} {i : Ino} {e : Errno}

section Rules

theorem outline_once {α : Type} {c : Call} {f : Resp c → Prog α} {Q : α → World → Ghost → Prop}
    (expected : ∀ w g, Inv t w g → Session t p D H F w g → Expects p c w g)
    (step : ∀ w g r k', Inv t w g → Session t p D H F w g → Allowed t p c w.kernel →
      w.kernel.exec p c = some (r, k') → ∃ value g' D' H' F', f r = .done value ∧
        Stepped t p w g (w.after k') g' ∧ Session t p D' H' F' (w.after k') g' ∧
        ∀ v h, Session t p D' H' F' v h → Q value v h) :
    Outline t p (Session t p D H F) ((Program.issue c).bind f) Q := by
  apply Program.triple_once session_stable expected
  rintro w g r _ inv session ⟨allowed, k', answered, rfl⟩
  obtain ⟨value, g', D', H', F', ends, stepped, session', post⟩ := step w g r k' inv session allowed answered
  exact ⟨value, g', _, ends, stepped.inv, stepped.guar, session_stable, session', fun v h _ => post v h⟩

theorem outline_call {c : Call} {Q : Resp c → World → Ghost → Prop}
    (expected : ∀ w g, Inv t w g → Session t p D H F w g → Expects p c w g)
    (step : ∀ w g r k', Inv t w g → Session t p D H F w g → Allowed t p c w.kernel →
      w.kernel.exec p c = some (r, k') → ∃ g' D' H' F', Stepped t p w g (w.after k') g' ∧
        Session t p D' H' F' (w.after k') g' ∧ ∀ v h, Session t p D' H' F' v h → Q r v h) :
    Outline t p (Session t p D H F) (Program.issue c) Q := by
  rw [← Program.bind_done (Program.issue c)]
  apply outline_once expected
  intro w g r k' inv session allowed answered
  obtain ⟨g', D', H', F', stepped, session', post⟩ := step w g r k' inv session allowed answered
  exact ⟨r, g', D', H', F', rfl, stepped, session', post⟩

theorem Session.learn (session : Session t p D H F w g) {new : List Fact}
    (learned : ∀ f ∈ new, f.Holds t p w g) : Session t p D H (new ++ F) w g := by
  refine ⟨session.descs, session.held, fun f member => ?_⟩
  rcases List.mem_append.mp member with added | before
  · exact learned f added
  · exact session.facts f before

theorem Session.found (session : Session t p D H F w g) (there : D fd = some d) :
    w.kernel.descOf p fd = some d := by
  rw [session.descs, there]

theorem Session.unheld (session : Session t p D H F w g) (none : ∀ kind, (i, kind) ∉ H) :
    ∀ kind, (p, kind) ∉ w.locks i :=
  fun kind member => none kind ((session.held i kind).mp member)

end Rules

/-! ## Draws and opens -/

section Opens
variable {x n : Bytes} {dir : Dir} {mode : Flags}

theorem draw_outline (n : Bytes) : Outline t p (Session t p D H F) Sys.draw fun x w g =>
    (PlainName x ∧ SEPARATOR ∉ x) ∧
      Session t p D H ([.drawnFor x n, .mine x, .absent .byId x, .absent .data x] ++ F) w g := by
  refine outline_call (fun _ _ _ _ => trivial) fun w g r k' inv session allowed answered => ?_
  cases answered
  have alike : Alike p w.kernel.nextDraw w.kernel.nextDraw := Alike.same inv.fds
  have stepped := inv.draw alike n allowed
  have mine : Fact.Mine p (w.after w.kernel.nextDraw) (g.draw w.kernel p n) (w.kernel.source w.kernel.drawn) :=
    ⟨Function.update_self .., w.kernel.drawn, Nat.lt_succ_self _, rfl⟩
  have nothing : t.fresh → ∀ d, d ≠ .byName → w.node d (w.kernel.source w.kernel.drawn) = none := by
    intro fresh d other
    apply inv.undrawn fresh d _ other
    rintro ⟨m, before, same⟩
    exact allowed fresh m before same
  refine ⟨_, D, H, _, stepped, session.next stepped.guar.toLater _ (fun f _ => unchanged_draw alike n) ?_
    session.descs session.held, fun v h later => ⟨inv.ids _, later⟩⟩
  simp only [List.mem_cons, List.not_mem_nil, or_false, forall_eq_or_imp, forall_eq]
  refine ⟨?_, fun _ => mine, ?_, ?_⟩
  · exact ⟨w.kernel.drawn, Nat.lt_succ_self _, rfl, Function.update_self ..⟩
  · exact ⟨by decide, fun fresh => ⟨mine, nothing fresh _ (by decide)⟩⟩
  · exact ⟨by decide, fun fresh => ⟨mine, nothing fresh _ (by decide)⟩⟩

/-- The file that opening leaves at an entry, and the kernel it leaves it in. -/
def Opening (w : World) (dir : Dir) (n : Bytes) (mode : Flags) (i : Ino) (k₁ : Kernel) : Prop :=
  (w.node dir n = some (.file i) ∧
    k₁ = if mode.trunc && mode.write then w.kernel.setData i [] else w.kernel) ∨
  (mode.creat = true ∧ w.node dir n = none ∧ i = w.kernel.files.nextIno ∧
    k₁ = w.kernel.create (entry w.kernel.files dir n))

theorem Opening.locks {k₁ : Kernel} (opening : Opening w dir n mode i k₁) : k₁.locks = w.kernel.locks := by
  rcases opening with ⟨_, rfl⟩ | ⟨_, _, _, rfl⟩
  · split <;> rfl
  · rfl

/-- What opening an entry of the volume comes to. -/
theorem open_step {r : Except Errno Fd} (inv : Inv t w g) (session : Session t p D H F w g)
    (names : Names x n) (answered : w.kernel.exec p (.open (dir.text ++ x) mode) = some (r, k')) :
    (w.node dir n = none ∧ mode.creat = false ∧ r = .error ENOENT ∧ k' = w.kernel) ∨
    ∃ i k₁, r = .ok w.kernel.nextFd ∧ D w.kernel.nextFd = none ∧ Alike p k₁ k' ∧
      k'.descOf p = Function.update D w.kernel.nextFd (some ⟨p, some i, mode, 0⟩) ∧
      Opening w dir n mode i k₁ := by
  have resolved := Volume.resolve_entry w.kernel.files inv.sane.layout dir names
  have free : D w.kernel.nextFd = none := by
    rw [← session.descs]
    simp [Kernel.descOf, inv.fds]
  have added : ∀ (k₁ : Kernel) i, k₁.descOf p = w.kernel.descOf p → k₁.nextFd = w.kernel.nextFd →
      (k₁.addDesc ⟨p, some i, mode, 0⟩).descOf p =
        Function.update D w.kernel.nextFd (some ⟨p, some i, mode, 0⟩) := by
    intro k₁ i same next
    funext fd
    rw [Kernel.descOf_addDesc rfl, next, same, session.descs, Function.update_apply]
  have answered := Option.some.inj answered
  unfold Kernel.openFile at answered
  rw [resolved] at answered
  -- a directory cannot be there, so the mode decides
  rcases inv.toCore.node_cases dir n with nothing | ⟨i, file⟩
  · have absent : w.kernel.files.node (entry w.kernel.files dir n) = none := nothing
    simp only [absent] at answered
    split at answered
    · rename_i creates
      cases answered
      exact Or.inr ⟨w.kernel.files.nextIno, w.kernel.create (entry w.kernel.files dir n), rfl, free,
        Alike.addDesc inv.fds rfl, added _ _ rfl rfl, Or.inr ⟨creates, nothing, rfl, rfl⟩⟩
    · rename_i keeps
      cases answered
      exact Or.inl ⟨nothing, by simpa using keeps, rfl, rfl⟩
  · have there : w.kernel.files.node (entry w.kernel.files dir n) = some (.file i) := file
    simp only [there] at answered
    cases answered
    refine Or.inr ⟨i, _, rfl, free, Alike.addDesc ?_ rfl, added _ _ ?_ ?_, Or.inl ⟨file, rfl⟩⟩
    all_goals split
    all_goals first | exact inv.fds | rfl

/-- What the constructor of a stream leaves: no descriptor, or a new one. -/
def NewStream (t : Terms) (p : Pid) (D : Fd → Option Description) (H : List (Ino × LockKind))
    (mode : Flags) (F : List Fact) (F' : Ino → List Fact) (s : Flstream) (w : World) (g : Ghost) : Prop :=
  (mode.creat = false ∧ (∃ e, e ≠ 0 ∧ s = ⟨none, e⟩) ∧ Session t p D H F w g) ∨
    ∃ fd i, s = ⟨some fd, 0⟩ ∧ D fd = none ∧
      Session t p (Function.update D fd (some ⟨p, some i, mode, 0⟩)) H (F' i) w g

theorem new_outline (dir : Dir) {F' : Ino → List Fact} (names : Names x n)
    (opens : ∀ w g i k₁ k', Inv t w g → Session t p D H F w g → Opening w dir n mode i k₁ →
      Alike p k₁ k' → ∃ g', Stepped t p w g (w.after k') g' ∧ ∀ f ∈ F' i, f.Holds t p (w.after k') g') :
    Outline t p (Session t p D H F) (Flstream.new (dir.text ++ x) mode) (NewStream t p D H mode F F') := by
  refine outline_once (fun _ _ _ _ => trivial) fun w g r k' inv session _ answered => ?_
  rcases open_step inv session names answered with ⟨_, keeps, rfl, rfl⟩ | ⟨i, k₁, rfl, free, alike, descs, opening⟩
  · exact ⟨_, g, D, H, F, rfl, ⟨inv, Guar.refl t p w g⟩, session, fun v h later =>
      Or.inl ⟨keeps, ⟨ENOENT, by decide, rfl⟩, later⟩⟩
  · obtain ⟨g', stepped, learned⟩ := opens w g i k₁ k' inv session opening alike
    refine ⟨_, g', _, H, F' i, rfl, stepped, ⟨descs, fun j kind => ?_, learned⟩, fun v h later =>
      Or.inr ⟨_, i, rfl, free, later⟩⟩
    rw [← session.held, World.locks, World.after, alike.locks, opening.locks]
    rfl

theorem Opening.whole {k₁ : Kernel} (opening : Opening w dir n mode i k₁) (whole : mode.trunc = false)
    (file : w.node dir n = some (.file i)) : k₁ = w.kernel := by
  rcases opening with ⟨_, rfl⟩ | ⟨_, nothing, _⟩
  · simp [whole]
  · rw [nothing] at file
    cases file

theorem new_found (dir : Dir) (F' : Ino → List Fact) (names : Names x n) (keeps : mode.creat = false)
    (whole : mode.trunc = false)
    (learned : ∀ w g i, Inv t w g → Session t p D H F w g → w.node dir n = some (.file i) →
      ∀ f ∈ F' i, f.Holds t p w g) :
    Outline t p (Session t p D H F) (Flstream.new (dir.text ++ x) mode) (NewStream t p D H mode F F') := by
  apply new_outline dir names
  intro w g i k₁ k' inv session opening alike
  have file : w.node dir n = some (.file i) := by
    rcases opening with ⟨file, _⟩ | ⟨creates, _⟩
    · exact file
    · rw [keeps] at creates
      cases creates
  rw [opening.whole whole file] at alike
  have stepped := inv.quiet alike
  exact ⟨g, stepped, fun f member =>
    Fact.frame stepped.guar.toLater (unchanged_quiet alike) (learned w g i inv session file f member)⟩

theorem new_index (names : Names x n) (whole : mode.trunc = false)
    (apart : ∀ f ∈ F, f.place ≠ some (.byName, n)) :
    Outline t p (Session t p D H F) (Flstream.new (NAME_DIR ++ x) mode)
      (NewStream t p D H mode F fun i => .role i .byName n :: F) := by
  apply new_outline .byName names
  intro w g i k₁ k' inv session opening alike
  rcases opening with ⟨file, same⟩ | ⟨_, nothing, rfl, rfl⟩
  · simp only [whole, Bool.false_and, Bool.false_eq_true, ↓reduceIte] at same
    subst same
    have stepped := inv.quiet alike
    refine ⟨g, stepped, fun f member => ?_⟩
    rcases List.mem_cons.mp member with rfl | before
    · exact inv.named .byName n i file
    · exact Fact.frame stepped.guar.toLater (unchanged_quiet alike) (session.facts f before)
  · have stepped := inv.create alike nothing fun _ other => absurd rfl other
    refine ⟨_, stepped, fun f member => ?_⟩
    rcases List.mem_cons.mp member with rfl | before
    · exact Function.update_self ..
    · exact Fact.frame stepped.guar.toLater
        (unchanged_create inv.toCore alike (apart f before) (session.facts f before)) (session.facts f before)

theorem Fact.Holds.placed {f : Fact} (holds : f.Holds t p w g) (file : f.file = some i)
    (role : g.role i = some (dir, x)) (other : dir ≠ .byName) : f.place = some (dir, x) := by
  cases f with
  | index j m text ids =>
      cases file
      have index := holds.1
      rw [role] at index
      cases index
      exact absurd rfl other
  | own d y j bytes =>
      cases file
      exact holds.2.1.symm.trans role
  | _ => cases file

theorem new_own (dir : Dir) (plain : PlainName x)
    (mode' : mode.creat = true ∧ mode.trunc = true ∧ mode.write = true)
    (apart : ∀ f ∈ F, f.place ≠ some (dir, x)) :
    Outline t p (Session t p D H (.absent dir x :: F)) (Flstream.new (dir.text ++ x) mode)
      (NewStream t p D H mode (.absent dir x :: F) fun i => .own dir x i [] :: F) := by
  apply new_outline dir (Names.of_plain plain)
  intro w g i k₁ k' inv session opening alike
  obtain ⟨other, absent⟩ := session.facts _ List.mem_cons_self
  have before : ∀ f ∈ F, f.Holds t p w g := fun f member => session.facts f (List.mem_cons_of_mem _ member)
  rcases opening with ⟨file, same⟩ | ⟨_, nothing, rfl, rfl⟩
  · -- only an id that was drawn before has a file here
    have stale : ¬ t.fresh := by
      intro fresh
      rw [(absent fresh).2] at file
      cases file
    have role := inv.named dir x i file
    simp only [mode'.2.1, mode'.2.2, Bool.and_self, ↓reduceIte] at same
    subst same
    have stepped : Stepped t p w g (w.after k') g := by
      refine inv.setData alike (fun m index => ?_) (by simp) fun fresh => absurd fresh stale
      rw [role] at index
      cases index
      exact absurd rfl other
    refine ⟨g, stepped, fun f member => ?_⟩
    rcases List.mem_cons.mp member with rfl | earlier
    · exact ⟨other, role, fun fresh => absurd fresh stale⟩
    · refine Fact.frame stepped.guar.toLater (unchanged_setData alike fun written => ?_) (before f earlier)
      exact apart f earlier ((before f earlier).placed written role other)
  · have stepped := inv.create alike nothing fun fresh _ => (absent fresh).1
    refine ⟨_, stepped, fun f member => ?_⟩
    rcases List.mem_cons.mp member with rfl | earlier
    · refine ⟨other, Function.update_self .., fun fresh => ?_⟩
      obtain ⟨working, drawn⟩ := (absent fresh).1
      refine ⟨⟨working, stepped.guar.drawnStill drawn⟩, Or.inr ⟨?_, ?_⟩⟩
      · simp [after_create alike]
      · rw [World.data, World.after, alike.files]
        simp
    · exact Fact.frame stepped.guar.toLater
        (unchanged_create inv.toCore alike (apart f earlier) (before f earlier)) (before f earlier)

theorem new_again (dir : Dir) {i₀ : Ino} {bytes : Bytes} (plain : PlainName x) (keeps : mode.creat = false)
    (whole : mode.trunc = false) :
    Outline t p (Session t p D H (.own dir x i₀ bytes :: F)) (Flstream.new (dir.text ++ x) mode)
      (NewStream t p D H mode (.own dir x i₀ bytes :: F) fun i => .own dir x i bytes :: F) := by
  -- What the process stored under an id is opened again; the file is another one only where a
  -- removal of the id has begun.
  apply new_found dir _ (Names.of_plain plain) keeps whole
  intro w g i inv session file f member
  rcases List.mem_cons.mp member with rfl | before
  · obtain ⟨other, _, known⟩ := session.facts _ List.mem_cons_self
    refine ⟨other, inv.named dir x i file, fun fresh => ?_⟩
    obtain ⟨mine, there⟩ := known fresh
    refine ⟨mine, there.imp_right ?_⟩
    rintro ⟨node, data⟩
    -- as long as no removal has begun the file is the same one
    cases node.symm.trans file
    exact ⟨file, data⟩
  · exact session.facts f (List.mem_cons_of_mem _ before)

end Opens

/-! ## Locks -/

section Locks

theorem lock_step {kind : LockKind} {r : Except Errno Unit} (inv : Inv t w g)
    (session : Session t p D H F w g) (there : D fd = some d) (ino : d.ino = some i)
    (may : (kind = .read ∧ d.flags.read = true) ∨ (kind = .write ∧ d.flags.write = true))
    (none : ∀ kind, (i, kind) ∉ H) (answered : w.kernel.exec p (.lock fd kind) = some (r, k')) :
    r = .ok () ∧ w.kernel.conflicts p i kind = false ∧ k'.files = w.kernel.files ∧
      Stepped t p w g (w.after k') g ∧ Session t p D ((i, kind) :: H) F (w.after k') g := by
  have granted : r = .ok () ∧ w.kernel.conflicts p i kind = false ∧ k' = w.kernel.grant p i kind := by
    rcases may with ⟨rfl, flag⟩ | ⟨rfl, flag⟩
    all_goals
      simp only [Kernel.exec, Kernel.lockFile, session.found there, ino, flag, reduceCtorEq, decide_false,
        decide_true, Bool.not_true, Bool.false_and, Bool.and_false, Bool.or_self, Bool.false_eq_true,
        ↓reduceIte] at answered
      split at answered
      · cases answered
      · rename_i free
        cases answered
        exact ⟨rfl, by simpa using free, rfl⟩
  obtain ⟨rfl, free, rfl⟩ := granted
  have alike : Alike p (w.kernel.grant p i kind) (w.kernel.grant p i kind) := Alike.same inv.fds
  have unheld := session.unheld none
  have stepped := inv.grant alike free unheld
  refine ⟨rfl, free, rfl, stepped, ?_⟩
  refine session.next stepped.guar.toLater [] (fun f _ => unchanged_grant alike unheld) (by simp)
    session.descs fun j kind' => ?_
  change (p, kind') ∈ (w.kernel.grant p i kind).locks j ↔ _
  rw [grant_locks alike unheld, session.held, List.mem_cons]
  simp only [Prod.mk.injEq, true_and]
  tauto

theorem lock_record {kind : LockKind} (there : D fd = some d) (ino : d.ino = some i)
    (may : (kind = .read ∧ d.flags.read = true) ∨ (kind = .write ∧ d.flags.write = true))
    (order : ∀ w g, Session t p D H F w g → Expects p (.lock fd kind) w g ∧ ∀ kind, (i, kind) ∉ H) :
    Outline t p (Session t p D H F) (Flstream.lock ⟨some fd, e⟩ kind) fun s w g =>
      s = ⟨some fd, 0⟩ ∧ Session t p D ((i, kind) :: H) F w g := by
  apply outline_once (fun w g _ session => (order w g session).1)
  intro w g r k' inv session _ answered
  obtain ⟨rfl, _, _, stepped, session'⟩ :=
    lock_step inv session there ino may (order w g session).2 answered
  exact ⟨_, g, D, _, F, rfl, stepped, session', fun v h later => ⟨rfl, later⟩⟩

def locked (kind : LockKind) (i : Ino) (n : Bytes) (ids : List Bytes) : List Fact :=
  .index i n (Records.render SEPARATOR ids) ids :: (ids.map fun x => .drawnFor x n) ++
    match kind with
    | .read => []
    | .write => [.linked i n]

theorem lock_index {kind : LockKind} {n : Bytes} (there : D fd = some d) (ino : d.ino = some i)
    (may : (kind = .read ∧ d.flags.read = true) ∨ (kind = .write ∧ d.flags.write = true))
    (whole : d.flags.trunc = false) (role : .role i .byName n ∈ F) :
    Outline t p (Session t p D [] F) (Flstream.lock ⟨some fd, e⟩ kind) fun s w g =>
      s = ⟨some fd, 0⟩ ∧ ∃ ids, Session t p D [(i, kind)] (locked kind i n ids ++ F) w g := by
  have unheld : ∀ {w g}, Session t p D [] F w g → ∀ j kind, (p, kind) ∉ w.locks j :=
    fun session j => session.unheld (by simp)
  refine outline_once (fun w g _ session => Or.inl (unheld session)) fun w g r k' inv session allowed answered => ?_
  obtain ⟨rfl, free, files, stepped, session'⟩ := lock_step inv session there ino may (by simp) answered
  have index : g.role i = some (.byName, n) := session.facts _ role
  -- whoever was writing has given the index back
  have unwritten : WriteFree w i := by
    intro q writes
    by_cases own : q = p
    · exact unheld session i _ (own ▸ writes)
    · simpa [own] using List.any_eq_false.mp free _ writes
  have text := inv.index i n index unwritten
  refine ⟨_, g, D, _, locked kind i n (g.members i) ++ F, rfl, stepped, session'.learn ?_,
    fun v h later => ⟨rfl, _, later⟩⟩
  intro f member
  rcases List.mem_append.mp member with known | last
  · rcases List.mem_cons.mp known with rfl | drawn
    · refine ⟨index, ?_, rfl, kind, (session'.held i kind).mpr List.mem_cons_self⟩
      rw [← text, World.data, World.data, World.after, files]
    · obtain ⟨x, listed, rfl⟩ := List.mem_map.mp drawn
      exact stepped.guar.drawnFor (inv.listed i n index x listed)
  · cases kind with
    | read => cases last
    | write =>
        cases List.mem_singleton.mp last
        refine ⟨index, (session'.held i _).mpr List.mem_cons_self, fun strict => ?_⟩
        obtain ⟨q, file⟩ := allowed strict d i (session.found there) ino whole
        have place := inv.placed q i .byName n index file
        rw [World.node, World.after, files, ← place]
        exact file

end Locks

/-! ## Reading -/

section Reading

def Reads (fd : Fd) : Call → Prop
  | .read fd' _ | .tell fd' | .seek fd' _ => fd' = fd
  | _ => False

def Yields (kind : Byte → Prop) : (c : Call) → Resp c → Prop
  | .read _ _, .ok bytes => ∀ b ∈ bytes, kind b
  | _, _ => True

variable {kind : Byte → Prop} {s : Flstream} {delim : Byte}

theorem yields_readable (kind : Byte → Prop) (fd : Fd) :
    Flstream.Readable (Reads fd) (Yields kind) kind (some fd) where
  read _ own _ := (Option.some.inj own).symm
  tell _ own := (Option.some.inj own).symm
  seek _ own _ := (Option.some.inj own).symm
  yields _ _ _ answered := answered

theorem getline_reads (own : s.fd = some fd) : Program.Within (Reads fd) (Yields kind)
    (fun r => r.2.2.fd = some fd ∧ ∀ b ∈ r.2.1, kind b) (s.getline delim) := by
  have may := own ▸ yields_readable kind fd
  have line := Flstream.getline_within may delim
  rwa [own] at line

theorem getlines_reads (own : s.fd = some fd) : Program.Within (Reads fd) (fun _ _ => True)
    (fun r => r.2.fd = some fd) (s.getlines delim) := by
  have may := own ▸ yields_readable (fun _ => True) fd
  have lines := Flstream.getlines_within may delim
  rw [own] at lines
  apply lines.imp (fun _ covered => covered)
  intro c r _
  unfold Yields
  split <;> simp

/-- What such a call answers, and where it leaves the stream. -/
def Glance (d : Description) (data : Bytes) : (c : Call) → Resp c → Nat → Prop
  | .read _ len, r, pos =>
      if d.flags.read = true then
        r = .ok ((data.drop d.pos).take len) ∧ pos = d.pos + ((data.drop d.pos).take len).length
      else r = .error EBADF ∧ pos = d.pos
  | .tell _, r, pos => r = .ok d.pos ∧ pos = d.pos
  | .seek _ target, r, pos =>
      if target < 0 then r = .error EINVAL ∧ pos = d.pos else r = .ok target.toNat ∧ pos = target.toNat
  | _, _, _ => False

theorem reads_exec {k k' : Kernel} {c : Call} {r : Resp c} (found : k.descOf p fd = some d)
    (ino : d.ino = some i) (reads : Reads fd c) (answered : k.exec p c = some (r, k')) :
    ∃ pos, Glance d (k.files.data i) c r pos ∧ k' = k.setPos fd d pos := by
  have still : k = k.setPos fd d d.pos := by
    have there : k.desc fd = some d := by
      unfold Kernel.descOf at found
      split at found
      · split at found
        · rw [‹k.desc fd = _›, found]
        · cases found
      · cases found
    unfold Kernel.setPos
    rw [← there, Function.update_eq_self]
  cases c with
  | read fd' len =>
      cases reads
      simp only [Kernel.exec, Kernel.readFile, found, ino, Option.some.injEq] at answered
      simp only [Glance]
      split at answered
      · rename_i unreadable
        cases answered
        exact ⟨d.pos, by simpa using unreadable, still⟩
      · rename_i readable
        cases answered
        exact ⟨_, by simpa using readable, rfl⟩
  | tell fd' =>
      cases reads
      simp only [Kernel.exec, Kernel.tellFile, found, Option.some.injEq] at answered
      cases answered
      exact ⟨d.pos, ⟨rfl, rfl⟩, still⟩
  | seek fd' target =>
      cases reads
      simp only [Kernel.exec, Kernel.seekFile, found, Option.some.injEq] at answered
      simp only [Glance]
      split at answered
      · rename_i before
        cases answered
        exact ⟨d.pos, by simp [before], still⟩
      · rename_i behind
        cases answered
        exact ⟨_, by simp [behind], rfl⟩
  | _ => cases reads

theorem Glance.unique {data : Bytes} {c : Call} {r r' : Resp c} {pos pos' : Nat}
    (first : Glance d data c r pos) (second : Glance d data c r' pos') : r = r' ∧ pos = pos' := by
  cases c with
  | read _ len =>
      simp only [Glance] at first second
      split at first
      all_goals simp_all
  | tell _ => exact ⟨first.1.trans second.1.symm, first.2.trans second.2.symm⟩
  | seek _ target =>
      simp only [Glance] at first second
      split at first
      all_goals simp_all
  | _ => cases first

theorem Glance.yields {data : Bytes} {c : Call} {r : Resp c} {pos : Nat} (glance : Glance d data c r pos)
    (held : ∀ b ∈ data, kind b) : Yields kind c r := by
  cases c with
  | read _ len =>
      simp only [Glance] at glance
      split at glance
      · obtain ⟨rfl, _⟩ := glance
        exact fun b member => held b (List.mem_of_mem_drop (List.mem_of_mem_take member))
      · obtain ⟨rfl, _⟩ := glance
        trivial
  | _ => trivial

theorem reads_expected {c : Call} (reads : Reads fd c) (w : World) (g : Ghost) : Expects p c w g := by
  cases c with
  | lock _ _ => cases reads
  | _ => trivial

theorem Session.moved (inv : Inv t w g) (session : Session t p D H F w g) (there : D fd = some d) (pos : Nat) :
    Stepped t p w g (w.after (w.kernel.setPos fd d pos)) g ∧
      Session t p (Function.update D fd (some { d with pos := pos })) H F
        (w.after (w.kernel.setPos fd d pos)) g := by
  have found := session.found there
  have alike := Alike.setPos inv.fds found pos
  have stepped := inv.quiet alike
  refine ⟨stepped, session.next stepped.guar.toLater [] (fun f _ => unchanged_quiet alike) (by simp)
    ?_ session.held⟩
  funext other
  change (w.kernel.setPos fd d pos).descOf p other = _
  rw [Kernel.descOf_setPos _ (Kernel.descOf_pid found), session.descs, Function.update_apply]

theorem getline_record {x : Bytes} (there : D fd = some d) (ino : d.ino = some i)
    (role : .role i .byId x ∈ F) :
    Outline t p (Session t p D H F) (Flstream.getline ⟨some fd, e⟩ SEPARATOR) fun r w g =>
      (r.2.2.fd = some fd ∧ ∀ b ∈ r.2.1, b ≠ slash) ∧
        ∃ pos, Session t p (Function.update D fd (some { d with pos := pos })) H F w g := by
  -- A line of a record, whoever is writing it: it holds no slash.
  have start : ∀ w g, Session t p D H F w g →
      ∃ pos, Session t p (Function.update D fd (some { d with pos := pos })) H F w g := by
    intro w g session
    refine ⟨d.pos, ?_⟩
    rwa [← there, Function.update_eq_self]
  refine Program.Triple.pre (Program.triple_within (getline_reads rfl) ?_ ?_ ?_) fun w g _ => start w g
  · rintro q w g w' g' other before after guar ⟨pos, session⟩
    exact ⟨pos, session_stable q w g w' g' other before after guar session⟩
  · exact fun c w g reads _ _ => reads_expected reads w g
  · rintro c w g r _ reads inv ⟨pos, session⟩ ⟨_, k', answered, rfl⟩
    have here : Function.update D fd (some { d with pos := pos }) fd = some { d with pos := pos } :=
      Function.update_self ..
    obtain ⟨next, glance, rfl⟩ := reads_exec (session.found here) ino reads answered
    obtain ⟨stepped, later⟩ := session.moved inv here next
    rw [Function.update_idem] at later
    refine ⟨glance.yields fun b member => ?_, g, stepped.inv, stepped.guar, next, later⟩
    rintro rfl
    -- others may be writing to the record, but never a slash
    exact inv.slashless i x (session.facts _ role) member

theorem getlines_index {n text : Bytes} {ids : List Bytes} (there : D fd = some d) (ino : d.ino = some i)
    (readable : d.flags.read = true) (index : .index i n text ids ∈ F) :
    Outline t p (Session t p D H F) (Flstream.getlines ⟨some fd, e⟩ SEPARATOR) fun r w g =>
      r = (Records.split SEPARATOR (text.drop d.pos), ⟨some fd, 0⟩) ∧
        ∃ pos, Session t p (Function.update D fd (some { d with pos := pos })) H F w g := by
  intro w g _ session
  have found := session.found there
  have data : w.data i = text := (session.facts _ index).2.1
  have run := (Flstream.getlines_runs (e := e) SEPARATOR found ino readable).covered
    ((getlines_reads rfl).mono fun _ _ => trivial)
  -- the run alone and this one differ in nothing that such a stream reads
  refine Program.meets_mono (Program.meets_alone (P := protocol t)
    (fun k w g => ∃ pos, k.descOf p fd = some { d with pos := pos } ∧ k.files.data i = text ∧
      Session t p (Function.update D fd (some { d with pos := pos })) H F w g) ?_ ?_ ?_ run ?_) ?_
  · rintro k q w g w' g' other before after guar ⟨pos, desc, same, session⟩
    exact ⟨pos, desc, same, session_stable q w g w' g' other before after guar session⟩
  · exact fun c _ _ _ w g alone _ _ => reads_expected alone.2 w g
  · rintro c k r₀ k₁ w g r _ ⟨alone, reads⟩ inv ⟨pos, desc, same, session⟩ ⟨_, k', answered, rfl⟩
    have here : Function.update D fd (some { d with pos := pos }) fd = some { d with pos := pos } :=
      Function.update_self ..
    have data : w.kernel.files.data i = text := (session.facts _ index).2.1
    obtain ⟨next, glance, rfl⟩ := reads_exec (session.found here) ino reads answered
    obtain ⟨next₀, glance₀, rfl⟩ := reads_exec desc ino reads alone
    rw [same] at glance₀
    rw [data] at glance
    obtain ⟨rfl, rfl⟩ := glance.unique glance₀
    obtain ⟨stepped, later⟩ := session.moved inv here next
    rw [Function.update_idem] at later
    refine ⟨rfl, g, stepped.inv, stepped.guar, next, ?_, same, later⟩
    rw [Kernel.descOf_setPos _ (Kernel.descOf_pid desc), if_pos rfl]
  · refine ⟨d.pos, found, data, ?_⟩
    rwa [← there, Function.update_eq_self]
  · rintro r w g _ ⟨rfl, pos, _, _, session⟩
    rw [Flstream.unread, ← data]
    exact ⟨rfl, pos, session⟩

end Reading

end Sfsdb.Processes

import Sfsdb.Exceptions
import Sfsdb.Site

/-!
What a child finds out, whatever the others do in the meantime. Of a file that has
been stored it finds the record and the size, unless its removal has begun; of a
file whose removal has been answered it finds nothing. `Excuse` is what may have
happened in between that leaves the answer open.
-/

namespace Sfsdb.Parallel

open Posix Storage
open Volume (Dir entry record Names)
open Processes (World Ghost Terms Session Fact Kept Drawn)
open Service (Keeps)

variable {t : Terms} {p : Pid} {s : Site} {g : Ghost} {D : Fd → Option Description}
  {H : List (Ino × LockKind)} {F : List Fact} {name id data : Bytes} {E C : Site → Ghost → Prop}

/-- What leaves open how a request for `id` is answered, a removal of it among others. -/
structure Excuse (t : Terms) (id : Bytes) (C : Site → Ghost → Prop) : Prop where
  lasts : Lasting t C
  begun : ∀ s g, id ∈ s.world.begun → C s g

def Known (C : Site → Ghost → Prop) (name id data : Bytes) (s : Site) (g : Ghost) : Prop :=
  C s g ∨ (name, id, data) ∈ s.world.stored

theorem Excuse.known (excuse : Excuse t id C) (name data : Bytes) : Lasting t (Known C name id data) :=
  excuse.lasts.or (stored_lasts (name, id, data))

/-- A file of a stored id is behind `i`, where there is no excuse. -/
def Behind (C : Site → Ghost → Prop) (name id data : Bytes) (dir : Dir) (bytes : Bytes) (i : Ino) (s : Site)
    (g : Ghost) : Prop :=
  C s g ∨ (name, id, data) ∈ s.world.stored ∧ Settled dir id i bytes s.world g

theorem Excuse.behind (excuse : Excuse t id C) (fresh : t.fresh) {dir : Dir} (other : dir ≠ .byName)
    (name data bytes : Bytes) (i : Ino) : Lasting t (Behind C name id data dir bytes i) :=
  excuse.lasts.or ((stored_lasts (name, id, data)).and (settled_lasts fresh other))

theorem Known.opened (known : Known C name id data s g) (inv : Inv t s g) (fresh : t.fresh)
    (excuse : Excuse t id C) {dir : Dir} {bytes : Bytes}
    (holds : dir = .byId ∧ bytes = name ++ [SEPARATOR] ∨ dir = .data ∧ bytes = data) :
    C s g ∨ ∃ i, s.world.node dir id = some (.file i) ∧ Behind C name id data dir bytes i s g := by
  rcases known with excused | stored
  · exact Or.inl excused
  · rcases inv.settled fresh stored dir bytes holds with begun | ⟨i, file, settled⟩
    · exact Or.inl (excuse.begun s g begun)
    · exact Or.inr ⟨i, file, Or.inr ⟨stored, settled⟩⟩

/-! ## Records -/

section Reading
variable {α : Type} {program : Prog α} {value : α} {text : Bytes} {fd : Fd} {d : Description} {i : Ino} {e : Errno}

theorem reads_silent {c : Call} (reads : Processes.Reads fd c) : Silent c := by
  cases c with
  | read _ _ | tell _ | seek _ _ => trivial
  | _ => cases reads

variable (value) in
theorem reading_outline (lasts : Lasting t E) (known : ∀ s g, E s g → s.world.data i = text)
    (reads : Program.Within (Processes.Reads fd) (fun _ _ => True) (fun _ => True) program)
    (there : D fd = some d) (ino : d.ino = some i)
    (run : ∀ k : Kernel, k.descOf p fd = some d → k.files.data i = text → ∃ k', Runs p program k value k') :
    Outline t p (fun s g => Session t p D H F s.world g ∧ E s g) program fun r s g =>
      r = value ∧ (∃ pos, Session t p (Function.update D fd (some { d with pos := pos })) H F s.world g) ∧ E s g := by
  -- A file whose bytes nobody changes is read as it is read alone.
  rintro s g inv ⟨session, held⟩
  have found := session.found there
  obtain ⟨k', alone⟩ := run s.kernel found (known s g held)
  -- the run alone and this one differ in nothing that such a program reads
  refine Program.meets_mono (Program.meets_alone (P := protocol t)
    (fun k s g => ∃ pos, k.descOf p fd = some { d with pos := pos } ∧ k.files.data i = text ∧
      Session t p (Function.update D fd (some { d with pos := pos })) H F s.world g ∧ E s g)
    ?_ ?_ ?_ (alone.covered reads) ?_) ?_
  · rintro k q s g s' g' other before after guar ⟨pos, desc, same, session, held⟩
    exact ⟨pos, desc, same, session_beside q s g s' g' other before after guar session,
      lasts q s g s' g' before after guar held⟩
  · exact fun c _ _ _ s g alone _ _ => Processes.reads_expected alone.2 s.world g
  · rintro c k r₀ k₁ s g r ⟨w', removed⟩ ⟨alone, reads⟩ inv ⟨pos, desc, same, session, held⟩
      ⟨⟨_, k', answered, changed⟩, still⟩
    cases changed
    cases still
    have here : Function.update D fd (some { d with pos := pos }) fd = some { d with pos := pos } :=
      Function.update_self ..
    have data : s.kernel.files.data i = text := known s g held
    have mapped := exec_silent (reads_silent reads) answered
    obtain ⟨next, glance, moved⟩ := Processes.reads_exec (session.found here) ino reads answered
    obtain ⟨next₀, glance₀, rfl⟩ := Processes.reads_exec desc ino reads alone
    rw [same] at glance₀
    rw [data] at glance
    obtain ⟨rfl, rfl⟩ := glance.unique glance₀
    obtain ⟨stepped, later⟩ := Session.moved inv.volume session here next
    rw [Function.update_idem] at later
    subst moved
    obtain ⟨kept, guar⟩ := inv.call answered stepped (by rw [mapped.2.2.1, mapped.2.2.2]; exact inv.maps)
      fun m mapping there _ => by rw [mapped.2.2.1]; exact there
    refine ⟨rfl, g, kept, guar, next, ?_, same, later, lasts p s g _ g inv kept guar held⟩
    rw [Kernel.descOf_setPos _ (Kernel.descOf_pid desc), if_pos rfl]
  · refine ⟨d.pos, found, known s g held, ?_, held⟩
    rwa [← there, Function.update_eq_self]
  · rintro r s g _ ⟨rfl, pos, _, _, session, held⟩
    exact ⟨rfl, ⟨pos, session⟩, held⟩

theorem line_outline (fresh : t.fresh) (excuse : Excuse t id C) (there : D fd = some d) (ino : d.ino = some i)
    (readable : d.flags.read = true) (start : d.pos = 0) (role : .role i .byId id ∈ F) :
    Outline t p (fun s g => Session t p D H F s.world g ∧
        Behind C name id data .byId (name ++ [SEPARATOR]) i s g) (Flstream.getline ⟨some fd, e⟩ SEPARATOR)
      fun r s g => r.2.2.fd = some fd ∧
        (∃ pos, Session t p (Function.update D fd (some { d with pos := pos })) H F s.world g) ∧
        (C s g ∨ r.2.1 = name) := by
  rintro s g inv ⟨session, excused | ⟨stored, settled⟩⟩
  · refine Program.meets_mono (lift (Processes.getline_record there ino role) (getline_silent _ _)
      (Beside.of_lasting excuse.lasts) s g inv ⟨session, excused⟩) ?_
    rintro r s g _ ⟨⟨⟨same, _⟩, moved⟩, excused⟩
    exact ⟨same, moved, Or.inl excused⟩
  · have line := (inv.fits name id data stored).1
    have reads : Program.Within (Processes.Reads fd) (fun _ _ => True) (fun _ => True)
        (Flstream.getline ⟨some fd, e⟩ SEPARATOR) := by
      have may := Processes.yields_readable (fun _ => True) fd
      refine ((Flstream.getline_within (s := ⟨some fd, e⟩) may SEPARATOR).imp (fun _ reads => reads) ?_).mono
        fun _ _ => trivial
      intro c r _
      unfold Processes.Yields
      split <;> simp
    refine Program.meets_mono (reading_outline (true, name, ⟨some fd, 0⟩) (settled_lasts fresh (by decide))
      (fun s g settled => settled.data) reads there ino ?_ s g inv ⟨session, settled⟩) ?_
    · intro k found same
      have run : Runs p (Flstream.getline ⟨some fd, e⟩ SEPARATOR) k _ _ :=
        Flstream.getline_runs SEPARATOR found ino readable (Nat.succ_pos 1023)
      have unread : Flstream.unread k i d.pos = name ++ [SEPARATOR] := by
        rw [Flstream.unread, same, start, List.drop_zero]
      rw [unread, Records.first_append SEPARATOR name [] line] at run
      exact ⟨_, run.of_eq (by simp) rfl⟩
    · rintro r s g _ ⟨rfl, moved, _⟩
      exact ⟨rfl, moved, Or.inr rfl⟩

end Reading

section Lookups
variable {n x : Bytes} {mode : Flags} {N : Site → Ghost → Prop} {Y : Ino → Site → Ghost → Prop}

theorem new_outline (dir : Dir) (names : Names x n) (keeps : mode.creat = false) (whole : mode.trunc = false)
    (lasts : Lasting t E) (lastsN : Lasting t N) (lastsY : ∀ i, Lasting t (Y i))
    (missing : ∀ s g, Inv t s g → E s g → s.world.node dir n = none → N s g)
    (found : ∀ s g i, Inv t s g → E s g → s.world.node dir n = some (.file i) → Y i s g) :
    Outline t p (fun s g => Session t p D H F s.world g ∧ E s g) (Flstream.new (dir.text ++ x) mode) fun st s g =>
      (st = ⟨none, ENOENT⟩ ∧ Session t p D H F s.world g ∧ N s g) ∨
        ∃ fd i, st = ⟨some fd, 0⟩ ∧ D fd = none ∧ Session t p (Function.update D fd (some ⟨p, some i, mode, 0⟩)) H
          (.role i dir n :: F) s.world g ∧ Y i s g := by
  apply (openFile_outline dir names keeps whole lasts lastsN lastsY missing found).bind
  rintro r s g inv (⟨rfl, session, nothing⟩ | ⟨fd, i, rfl, free, session, behind⟩)
  · exact Program.meets_done (session_beside.and lastsN.stable) (fun s g _ later => Or.inl ⟨rfl, later⟩)
      ⟨session, nothing⟩
  · exact Program.meets_done (session_beside.and (lastsY i).stable)
      (fun s g _ later => Or.inr ⟨fd, i, rfl, free, later⟩) ⟨session, behind⟩

/-- A record that is looked up carries its id; where there is no excuse it is found. -/
structure Found (C : Site → Ghost → Prop) (id name : Bytes) (r : Except Error Object) (s : Site) (g : Ghost) :
    Prop where
  carries : ∀ object, r = .ok object → object.id = id ∧ object.dataPath = DATA_DIR ++ id
  found : C s g ∨ r = .ok ⟨id, name, DATA_DIR ++ id⟩

theorem Excuse.found (excuse : Excuse t id C) (name : Bytes) (r : Except Error Object) :
    Lasting t (Found C id name r) := by
  intro q s g s' g' before after guar here
  exact ⟨here.carries, here.found.imp_left (excuse.lasts q s g s' g' before after guar)⟩

theorem byId_outline (fresh : t.fresh) (plain : PlainName id) (excuse : Excuse t id C) :
    Outline t p (fun s g => Session t p D [] F s.world g ∧ Known C name id data s g) (byId id) fun r s g =>
      (∃ D', Session t p D' [] F s.world g) ∧ Found C id name r s g := by
  have behind : ∀ i, Lasting t (Behind C name id data .byId (name ++ [SEPARATOR]) i) :=
    excuse.behind fresh (by decide) name data (name ++ [SEPARATOR])
  refine (new_outline .byId (Names.of_plain plain) rfl rfl (excuse.known name data) excuse.lasts
    behind ?_ ?_).bind fun st s g inv opened => ?_
  · intro s g inv known nothing
    rcases known.opened inv fresh excuse (Or.inl ⟨rfl, rfl⟩) with excused | ⟨i, file, _⟩
    · exact excused
    · rw [nothing] at file
      cases file
  · intro s g i inv known file
    rcases known.opened inv fresh excuse (Or.inl ⟨rfl, rfl⟩) with excused | ⟨j, there, behind⟩
    · exact Or.inl excused
    · cases there.symm.trans file
      exact behind
  · rcases opened with ⟨rfl, session, excused⟩ | ⟨fd, i, rfl, free, session, stored⟩
    · rw [if_pos ((Flstream.fail_iff none ENOENT).mpr (by decide))]
      exact Program.meets_done (session_beside.and excuse.lasts.stable)
        (fun s g _ later => ⟨⟨_, later.1⟩, by simp, Or.inl later.2⟩) ⟨session, excused⟩
    · simp only [Flstream.fail_opened, Bool.false_eq_true, ↓reduceIte]
      -- no fact rests on the lock of the record
      have apart := session.unlockable (i := i) (by simp)
      refine Program.meets_bind (lift (Processes.lock_record (i := i) (Function.update_self ..) rfl
        (Or.inl ⟨rfl, rfl⟩) (fun w g session => ⟨Or.inl fun j => session.unheld (by simp), by simp⟩))
        (lock_silent _ _) (Beside.of_lasting (behind i)) s g inv ⟨session, stored⟩) fun st s g inv here => ?_
      obtain ⟨⟨rfl, session⟩, stored⟩ := here
      refine Program.meets_bind (line_outline fresh excuse (Function.update_self ..) rfl rfl rfl List.mem_cons_self
        s g inv ⟨session, stored⟩) fun read s g inv here => ?_
      obtain ⟨more, line, st, e⟩ := read
      obtain ⟨rfl, ⟨pos, session⟩, line⟩ := here
      refine Program.meets_bind (lift (Processes.close_stream [] (Function.update_self ..) rfl (by simp) apart
        (by simp)) (close_silent _) (Beside.of_lasting (excuse.lasts.or (Program.lasting_pure _)))
        s g inv ⟨session, line⟩) fun _ s g inv here => ?_
      obtain ⟨⟨_, session⟩, line⟩ := here
      refine Program.meets_done (session_beside.and (excuse.lasts.or (Program.lasting_pure _)).stable)
        (fun s g _ later => ⟨⟨_, later.1.weaken F fun f => List.mem_cons_of_mem _⟩, ?_, ?_⟩) ⟨session, line⟩
      · rintro object ⟨⟩
        exact ⟨rfl, rfl⟩
      · apply later.2.imp_right
        rintro rfl
        rfl

theorem getId_outline (fresh : t.fresh) (plain : PlainName id) (excuse : Excuse t id C) :
    Outline t p (fun s g => Session t p D [] F s.world g ∧ Known C name id data s g) (Volume.getId id) fun r s g =>
      (∃ D', Session t p D' [] F s.world g) ∧ Found C id name r s g := by
  have known := excuse.known name data
  refine (((Beside.of_lasting known).frame (byId_outline fresh plain excuse) (byId_silent id)).pre
    fun s g _ here => ⟨here, here.2⟩).bind fun r s g inv here => ?_
  obtain ⟨⟨⟨D', session⟩, found⟩, known⟩ := here
  cases r with
  | error e =>
      exact Program.meets_done (session_beside.and (excuse.found name (.error e)).stable)
        (fun s g _ later => ⟨⟨D', later.1⟩, later.2⟩) ⟨session, found⟩
  | ok object => exact byId_outline fresh plain excuse s g inv ⟨session, known⟩

def Sized {ε : Type} (C : Site → Ghost → Prop) (name id data : Bytes) (r : Except ε Nat) (s : Site) (g : Ghost) :
    Prop :=
  C s g ∨ (name, id, data) ∈ s.world.stored ∧ r = .ok data.length

theorem Excuse.sized {ε : Type} (excuse : Excuse t id C) (name data : Bytes) (r : Except ε Nat) :
    Lasting t (Sized C name id data r) :=
  excuse.lasts.or ((stored_lasts (name, id, data)).and (Program.lasting_pure _))

theorem details_outline (fresh : t.fresh) (plain : PlainName id) (excuse : Excuse t id C) {object : Object}
    (own : object.id = id) {b : Belongings} :
    Outline t p (Alone t p H F D b (Known C name id data)) object.details fun r s g =>
      Alone t p H F D b (Sized C name id data r) s g := by
  subst own
  have asks := call_outline (t := t) (p := p) (c := .stat (DATA_DIR ++ object.id)) (H := H) (F := F) (D := D)
    (b := b) (fun _ D' b' => D' = D ∧ b' = b) (fun _ _ => trivial) (excuse.known name data)
    (excuse.sized name data) ?_
  · apply Program.Triple.bind asks
    rintro r s g inv ⟨D', b', ⟨rfl, rfl⟩, alone⟩
    cases r with
    | error e =>
        exact Program.meets_done (alone_stable (excuse.sized name data (.error (Error.ofErrno e))))
          (fun s g _ later => later) (alone.imp fun sized => sized.imp_right fun told => (nomatch told.2))
    | ok size =>
        refine Program.meets_done (alone_stable (excuse.sized name data (.ok size))) (fun s g _ later => later)
          (alone.imp fun sized => sized.imp_right fun told => ⟨told.1, ?_⟩)
        rw [Except.ok.inj told.2]
  · intro s g r k' inv alone answered
    cases answered
    refine ⟨?_, Processes.Alike.same inv.volume.fds, inv.maps, fun _ _ there _ => there, b, alone.has,
      alone.session.descs, rfl⟩
    rcases alone.known.opened inv fresh excuse (Or.inr ⟨rfl, rfl⟩) with
      excused | ⟨i, file, excused | ⟨stored, settled⟩⟩
    · exact Or.inl excused
    · exact Or.inl excused
    · refine Or.inr ⟨stored, ?_⟩
      have resolved := Volume.resolve_entry s.kernel.files inv.volume.sane.layout .data (Names.of_plain plain)
      have there : s.kernel.files.node (entry s.kernel.files .data object.id) = some (.file i) := file
      change s.kernel.statFile (Dir.data.text ++ object.id) = _
      simp only [Kernel.statFile, resolved, there]
      exact congrArg (fun bytes : Bytes => Except.ok bytes.length) settled.data

end Lookups

/-! ## Removed files -/

section Removals

theorem byId_gone (fresh : t.fresh) (plain : PlainName id) :
    Outline t p (fun s g => Session t p D [] F s.world g ∧ Gone s.world g id) (byId id) fun r s g =>
      r = .error (.ofErrno ENOENT) ∧ Session t p D [] F s.world g ∧ Gone s.world g id := by
  refine (new_outline .byId (Y := fun _ _ _ => False) (Names.of_plain plain) rfl rfl (gone_lasts fresh id)
    (gone_lasts fresh id) (fun _ => Program.lasting_pure False) (fun _ _ _ gone _ => gone) ?_).bind
    fun st s g inv opened => ?_
  · intro s g i _ gone file
    rw [gone.nothing] at file
    cases file
  · rcases opened with ⟨rfl, session, gone⟩ | ⟨_, _, _, _, _, never⟩
    · rw [if_pos ((Flstream.fail_iff none ENOENT).mpr (by decide))]
      exact Program.meets_done (session_beside.and (gone_lasts fresh id).stable) (fun s g _ later => ⟨rfl, later⟩)
        ⟨session, gone⟩
    · exact never.elim

theorem getId_gone (fresh : t.fresh) (plain : PlainName id) :
    Outline t p (fun s g => Session t p D [] F s.world g ∧ Gone s.world g id) (Volume.getId id) fun r s g =>
      r = .error (.ofErrno ENOENT) ∧ Session t p D [] F s.world g ∧ Gone s.world g id := by
  apply (byId_gone fresh plain).bind
  rintro r s g inv ⟨rfl, session, gone⟩
  exact Program.meets_done (session_beside.and (gone_lasts fresh id).stable) (fun s g _ later => ⟨rfl, later⟩)
    ⟨session, gone⟩

theorem remove_gone (fresh : t.fresh) (plain : PlainName id) (lasts : Lasting t C) :
    Outline t p (fun s g => Session t p D [] [.begun id] s.world g ∧ Known C name id data s g)
      (Sys.remove (ID_DIR ++ id)) fun r s g => (∃ there, r = .ok there) ∧
        Session t p D [] [.begun id] s.world g ∧ (C s g ∨ Gone s.world g id) := by
  have knows : Lasting t (Known C name id data) := lasts.or (stored_lasts (name, id, data))
  have goes := lasts.or (gone_lasts fresh id)
  change Outline t p _ (Program.issue (Call.remove (ID_DIR ++ id))) _
  rw [← Program.bind_done (Program.issue (Call.remove (ID_DIR ++ id)))]
  refine Program.triple_once (session_beside.and knows.stable) (fun s g _ _ => trivial) ?_
  rintro s g r ⟨w', removed⟩ inv ⟨session, known⟩ ⟨⟨_, k', answered, changed⟩, still⟩
  cases changed
  cases still
  have begun : id ∈ s.world.begun := session.facts _ List.mem_cons_self
  have mapped := exec_silent (c := .remove (ID_DIR ++ id)) trivial answered
  have above : ∀ m, k'.nextMap ≤ m → k'.maps m = none := by
    rw [mapped.2.2.1, mapped.2.2.2]
    exact inv.maps
  have others : ∀ m mapping, s.kernel.maps m = some mapping → mapping.pid ≠ p → k'.maps m = some mapping := by
    intro m mapping there _
    rwa [mapped.2.2.1]
  -- what is left, whichever way the record went
  have leaves : ∀ there : Bool, r = .ok there → Processes.Stepped t p s.world g (s.world.after k') g →
      Session t p D [] [.begun id] (s.world.after k') g → (s.world.after k').node .byId id = none →
      ∃ value g' B, (Program.done r : Prog (Except Errno Bool)) = .done value ∧
        (protocol t).inv ⟨s.world.after k', s.removed⟩ g' ∧
        (protocol t).guar p s g ⟨s.world.after k', s.removed⟩ g' ∧ Program.Stable (protocol t) p B ∧
        B ⟨s.world.after k', s.removed⟩ g' ∧ ∀ v h, (protocol t).inv v h → B v h → (∃ there, value = .ok there) ∧
          Session t p D [] [.begun id] v.world h ∧ (C v h ∨ Gone v.world h id) := by
    intro there same stepped session' nothing
    obtain ⟨kept, guar⟩ := inv.call answered stepped above others
    refine ⟨r, g, _, rfl, kept, guar, session_beside.and goes.stable, ⟨session', ?_⟩,
      fun _ _ _ later => ⟨⟨there, same⟩, later⟩⟩
    rcases knows p s g _ g inv kept guar known with excused | stored
    · exact Or.inl excused
    · have stays := kept.volume.stored name id data stored
      exact Or.inr ⟨stays.drawn.drawn, stays.ended fresh, nothing⟩
  have resolved := Volume.resolve_entry s.kernel.files inv.volume.sane.layout .byId (Names.of_plain plain)
  rw [show Dir.byId.text = ID_DIR from rfl] at resolved
  have answered : s.kernel.removeFile (ID_DIR ++ id) = (r, k') := Option.some.inj answered
  simp only [Kernel.removeFile, resolved] at answered
  rcases inv.volume.toCore.node_cases .byId id with nothing | ⟨i, file⟩
  · have absent : s.kernel.files.node (entry s.kernel.files .byId id) = none := nothing
    rw [absent] at answered
    cases answered
    exact leaves false rfl ⟨inv.volume, Processes.Guar.refl t p s.world g⟩ session nothing
  · have present : s.kernel.files.node (entry s.kernel.files .byId id) = some (.file i) := file
    rw [present] at answered
    cases answered
    have alike : Processes.Alike p (s.kernel.unlink (entry s.kernel.files .byId id))
        (s.kernel.unlink (entry s.kernel.files .byId id)) := Processes.Alike.same inv.volume.fds
    have stepped := inv.volume.unlink alike (fun _ => begun) fun _ index => absurd index (by decide)
    refine leaves true rfl stepped ?_ ?_
    · exact session.next stepped.guar.toLater []
        (fun f member => Processes.unchanged_unlink alike (by cases List.mem_singleton.mp member; simp [Fact.place]))
        (by simp) session.descs session.held
    · rw [Processes.after_unlink alike, if_pos ⟨rfl, rfl⟩]

theorem removal_outline (fresh : t.fresh) (plain : PlainName id) (lasts : Lasting t C) (beside : Beside t p E) :
    Outline t p (fun s g => Session t p D [] [.begun id] s.world g ∧ Known C name id data s g ∧ E s g)
      (Volume.remove id) fun r s g => Processes.Idle t p s.world g ∧
        (r ≠ none ∧ Refuses r) ∧
        (C s g ∨ ∀ u, r = some (.ok u) → Gone s.world g id) ∧ E s g := by
  have knows : Beside t p (Known C name id data) := Beside.of_lasting (lasts.or (stored_lasts (name, id, data)))
  have goes : Beside t p fun s g => C s g ∨ Gone s.world g id := Beside.of_lasting (lasts.or (gone_lasts fresh id))
  have everything : ∀ c r, Footprint.anything.Answers c r := Footprint.answers_of_draws fun _ => trivial
  apply ((lift (Processes.byId_outline plain) (byId_silent id) (knows.and beside)).returns
    (byId_refuses id trivial) everything).bind
  rintro r s g inv ⟨⟨⟨looked, D', session⟩, known, own⟩, numbered⟩
  cases r with
  | error e =>
      refine Program.meets_done (session_beside.and beside.stable)
        (fun s g _ later => ⟨later.1.idle, ⟨by simp, ?_⟩, Or.inr (by simp), later.2⟩) ⟨session, own⟩
      rintro _ ⟨⟩
      exact numbered e rfl
  | ok object =>
      obtain ⟨same, slashless⟩ := looked object rfl
      change Program.Meets (protocol t) p _ object.remove s g
      unfold Object.remove
      rw [same]
      apply Program.meets_bind (beside.frame (remove_gone fresh plain lasts) (silent_issue trivial) s g inv
        ⟨⟨session, known⟩, own⟩)
      rintro _ s g inv ⟨⟨⟨_, rfl⟩, session, gone⟩, own⟩
      have apart : Processes.Outline t p (Session t p D' [] [.begun id]) (Sys.remove (DATA_DIR ++ id)) fun r w g =>
          (∃ there, r = .ok there) ∧ Session t p D' [] [.begun id] w g :=
        Processes.remove_outline .data [.begun id] (Names.of_plain plain) (by simp [Fact.place])
          fun w g _ session => ⟨fun _ => session.facts _ List.mem_cons_self, fun _ index => absurd index (by decide)⟩
      apply Program.meets_bind (lift apart (silent_issue trivial) (goes.and beside) s g inv ⟨session, gone, own⟩)
      rintro _ s g inv ⟨⟨⟨_, rfl⟩, session⟩, gone, own⟩
      have unlists := (unlist_lifted (D := D') same slashless (goes.and beside)).returns (unlist_refuses object) everything
      refine Program.meets_mono (unlists s g inv ⟨session, gone, own⟩) ?_
      exact fun r s g _ here => ⟨here.1.1.1, ⟨here.1.2, here.2⟩,
        here.1.1.2.1.imp_right fun gone _ _ => gone, here.1.1.2.2⟩

end Removals

/-! ## Lists -/

section Lists
variable {i : Ino}

theorem Inv.listed (inv : Inv t s g) (strict : t.strict) (stored : (name, id, data) ∈ s.world.stored) :
    id ∈ s.world.begun ∨ ∃ i, s.world.node .byName name = some (.file i) ∧ id ∈ g.members i := by
  by_cases begun : id ∈ s.world.begun
  · exact Or.inl begun
  · exact Or.inr (inv.volume.published strict name id
      ((inv.volume.stored name id data stored).published strict) begun)

/-- The index that lists the files that had been stored, up to those whose removal has begun. -/
def Indexed (t : Terms) (past : List (Bytes × Bytes × Bytes)) (name : Bytes) (i : Ino) (s : Site) : Prop :=
  t.strict → ∀ id data, (name, id, data) ∈ past → id ∈ s.world.begun ∨
    (name, id, data) ∈ s.world.stored ∧ s.world.node .byName name = some (.file i)

variable {past : List (Bytes × Bytes × Bytes)}

theorem indexed_lasts (i : Ino) : Lasting t fun s _ => Indexed t past name i s := by
  intro q s g s' g' before after guar indexed strict id data member
  rcases indexed strict id data member with begun | ⟨stored, file⟩
  · exact Or.inl (guar.volume.begun id begun)
  · have stored' := guar.stored _ stored
    refine (after.listed strict stored').imp_right ?_
    rintro ⟨j, file', _⟩
    -- no other index has taken its place
    have same : entry s'.kernel.files .byName name = entry s.kernel.files .byName name := by
      simp only [entry]
      rw [guar.volume.cwd]
    have there : s'.kernel.files.node (entry s.kernel.files .byName name) = some (.file j) := same ▸ file'
    obtain rfl := guar.steady _ i j file there
    exact ⟨stored', file'⟩

def Covers (t : Terms) (past : List (Bytes × Bytes × Bytes)) (name : Bytes) (ids : List Bytes) (s : Site) : Prop :=
  t.strict → ∀ id data, (name, id, data) ∈ past → id ∈ s.world.begun ∨ id ∈ ids

theorem covers_lasts (ids : List Bytes) : Lasting t fun s _ => Covers t past name ids s := by
  intro q s g s' g' _ _ guar covers strict id data member
  exact (covers strict id data member).imp_left (guar.volume.begun id)

theorem Indexed.covers (indexed : Indexed t past name i s) (inv : Inv t s g) :
    Covers t past name (g.members i) s := by
  intro strict id data member
  rcases indexed strict id data member with begun | ⟨stored, file⟩
  · exact Or.inl begun
  · refine (inv.listed strict stored).imp_right ?_
    rintro ⟨j, file', listed⟩
    cases file.symm.trans file'
    exact listed

theorem byName_outline (plain : PlainName name) :
    Outline t p (fun s g => Session t p D [] [] s.world g ∧ ∀ e ∈ past, e ∈ s.world.stored) (byName name)
      fun r s g => Processes.Idle t p s.world g ∧ ∃ ids, (∀ lines, r = .ok lines → lines = ids) ∧
        (∀ e, r = .error e → ids = []) ∧ Covers t past name ids s := by
  have known : Lasting t fun s _ => ∀ e ∈ past, e ∈ s.world.stored :=
    Program.Lasting.all fun e => Program.Lasting.all fun _ => stored_lasts e
  have lasts : ∀ ids, Lasting t fun s _ => Covers t past name ids s := covers_lasts
  have indexed : ∀ i, Lasting t fun s _ => Indexed t past name i s := indexed_lasts
  refine (new_outline .byName (Names.of_plain plain) rfl rfl known (lasts []) indexed ?_ ?_).bind
    fun st s g inv opened => ?_
  · intro s g inv stored nothing strict id data member
    refine (inv.listed strict (stored _ member)).imp_right ?_
    rintro ⟨i, file, _⟩
    rw [nothing] at file
    cases file
  · exact fun s g i inv stored file strict id data member => Or.inr ⟨stored _ member, file⟩
  · rcases opened with ⟨rfl, session, covers⟩ | ⟨fd, i, rfl, free, session, index⟩
    · rw [if_pos ((Flstream.fail_iff none ENOENT).mpr (by decide))]
      exact Program.meets_done (session_beside.and (lasts []).stable)
        (fun s g _ later => ⟨later.1.idle, [], by simp, by simp, later.2⟩) ⟨session, covers⟩
    · simp only [Flstream.fail_opened, Bool.false_eq_true, ↓reduceIte]
      refine Program.meets_bind (lift (Processes.lock_index (Function.update_self ..) rfl (Or.inl ⟨rfl, rfl⟩) rfl
        List.mem_cons_self) (lock_silent _ _) (Beside.of_lasting (indexed i)) s g inv ⟨session, index⟩)
        fun st s g inv here => ?_
      obtain ⟨⟨rfl, ids, session⟩, index⟩ := here
      have covers : Covers t past name ids s := by
        have members : g.members i = ids :=
          (session.facts (.index i name (Records.render SEPARATOR ids) ids) (by simp [Processes.locked])).2.2.1
        exact members ▸ index.covers inv
      refine Program.meets_bind (lift (Processes.getlines_index (Function.update_self ..) rfl rfl List.mem_cons_self)
        (getlines_silent _ _) (Beside.of_lasting (lasts ids)) s g inv ⟨session, covers⟩) fun read s g inv here => ?_
      obtain ⟨⟨rfl, pos, session⟩, covers⟩ := here
      have drawn : ∀ y ∈ ids, Fact.drawnFor y name ∈ Processes.locked .read i name ids ++ [.role i .byName name] := by
        simp +contextual [Processes.locked]
      have lines := session.lines inv.volume drawn
      have session := session.weaken [] (by simp)
      simp only [List.drop_zero, lines]
      refine Program.meets_bind (lift (Processes.close_stream [] (Function.update_self ..) rfl (by simp) (by simp)
        (by simp)) (close_silent _) (Beside.of_lasting (lasts ids)) s g inv ⟨session, covers⟩) fun _ s g inv here => ?_
      obtain ⟨⟨_, session⟩, covers⟩ := here
      exact Program.meets_done (session_beside.and (lasts ids).stable)
        (fun s g _ later => ⟨later.1.idle, ids, by simp, by simp, later.2⟩) ⟨session, covers⟩

end Lists

end Sfsdb.Parallel

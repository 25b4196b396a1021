import Sfsdb.WriteOutlines

/-!
The operations of a volume among other processes: what each has come to know
when it ends, whatever the others did meanwhile. A process between two operations
holds no lock.
-/

namespace Sfsdb.Processes

open Posix Storage
open Volume (Dir entry Names)

variable {t : Terms} {p : Pid} {D : Fd → Option Description} {F : List Fact} {w : World} {g : Ghost}

def Idle (t : Terms) (p : Pid) (w : World) (g : Ghost) : Prop := ∃ D, Session t p D [] [] w g

theorem Session.idle (session : Session t p D [] F w g) : Idle t p w g :=
  ⟨D, session.weaken [] (by simp)⟩

theorem idle_stable : Program.Stable (protocol t) p (Idle t p) := by
  rintro q w g w' g' other before after guar ⟨D, session⟩
  exact ⟨D, session_stable q w g w' g' other before after guar session⟩

theorem Core.plain {x n : Bytes} (core : Core t w g) (drawn : DrawnFor w.kernel g x n) :
    PlainName x ∧ SEPARATOR ∉ x := by
  obtain ⟨m, _, rfl, _⟩ := drawn
  exact core.ids m

/-! ## Looking up -/

section Lookups
variable {name id : Bytes}

def listing (name : Bytes) : Except Error (List Bytes) → List Fact
  | .ok ids => ids.map fun x => .drawnFor x name
  | .error _ => []

theorem Session.lines {H : List (Ino × LockKind)} {ids : List Bytes} (inv : Inv t w g)
    (session : Session t p D H F w g) (drawn : ∀ y ∈ ids, .drawnFor y name ∈ F) :
    Records.split SEPARATOR (Records.render SEPARATOR ids) = ids :=
  Records.split_render SEPARATOR ids fun y member => (inv.toCore.plain (session.facts _ (drawn y member))).2

theorem byName_outline (plain : PlainName name) :
    Outline t p (Session t p D [] []) (byName name) fun r w g =>
      ∃ D', Session t p D' [] (listing name r) w g := by
  refine (new_found .byName (fun i => [.role i .byName name]) (Names.of_plain plain) rfl rfl
    fun w g i inv session file => ?_).bind fun s w g inv opened => ?_
  · intro f member
    cases List.mem_singleton.mp member
    exact inv.named .byName name i file
  · rcases opened with ⟨_, ⟨e, failed, rfl⟩, session⟩ | ⟨fd, i, rfl, free, session⟩
    · exact refused_outline failed (fun _ _ later => ⟨_, later⟩) w g inv session
    · simp only [Flstream.fail_opened, Bool.false_eq_true, ↓reduceIte]
      refine Program.meets_bind (lock_index (Function.update_self ..) rfl (Or.inl ⟨rfl, rfl⟩) rfl
        List.mem_cons_self w g inv session) fun s w g inv here => ?_
      obtain ⟨rfl, ids, session⟩ := here
      refine Program.meets_bind (getlines_index (Function.update_self ..) rfl rfl List.mem_cons_self w g inv session)
        fun read w g inv here => ?_
      obtain ⟨rfl, pos, session⟩ := here
      have drawn : ∀ y ∈ ids, .drawnFor y name ∈ locked .read i name ids ++ [.role i .byName name] := by
        simp +contextual [locked]
      have lines := session.lines inv drawn
      -- of what was locked only the draws of the ids are remembered
      have session := session.weaken (listing name (.ok ids)) fun f member => by
        simp only [listing] at member
        simp [List.mem_map.mp member]
      simp only [List.drop_zero, lines]
      refine Program.meets_bind (close_stream [] (Function.update_self ..) rfl (by simp) ?_ (by simp)
        w g inv session) fun _ w g inv here => ?_
      · intro f member
        obtain ⟨x, _, rfl⟩ := List.mem_map.mp member
        simp [Fact.lock]
      · exact Program.meets_done session_stable (fun _ _ _ later => ⟨_, later⟩) here.2

/-- The name that a record yields may be cut short, but it holds no slash. -/
def Looked (id : Bytes) (r : Except Error Object) : Prop :=
  ∀ object, r = .ok object → object.id = id ∧ slash ∉ object.name

theorem byId_outline (plain : PlainName id) :
    Outline t p (Session t p D [] F) (byId id) fun r w g =>
      Looked id r ∧ ∃ D', Session t p D' [] F w g := by
  refine (new_found .byId (fun i => .role i .byId id :: F) (Names.of_plain plain) rfl rfl
    fun w g i inv session file => ?_).bind fun s w g inv opened => ?_
  · intro f member
    rcases List.mem_cons.mp member with rfl | before
    · exact inv.named .byId id i file
    · exact session.facts f before
  · rcases opened with ⟨_, ⟨e, failed, rfl⟩, session⟩ | ⟨fd, i, rfl, free, session⟩
    · exact refused_outline failed (fun _ _ later => ⟨by simp [Looked], _, later⟩) w g inv session
    · simp only [Flstream.fail_opened, Bool.false_eq_true, ↓reduceIte]
      -- no fact rests on the lock of the record
      have apart := session.unlockable (i := i) (by simp)
      refine Program.meets_bind (lock_record (i := i) (Function.update_self ..) rfl (Or.inl ⟨rfl, rfl⟩)
        (fun w g session => ⟨Or.inl fun j => session.unheld (by simp), by simp⟩) w g inv session)
        fun s w g inv here => ?_
      obtain ⟨rfl, session⟩ := here
      refine Program.meets_bind (getline_record (Function.update_self ..) rfl List.mem_cons_self w g inv session)
        fun read w g inv here => ?_
      obtain ⟨more, name, s, e⟩ := read
      obtain ⟨⟨rfl, slashless⟩, pos, session⟩ := here
      refine Program.meets_bind (close_stream [] (Function.update_self ..) rfl (by simp) apart (by simp)
        w g inv session) fun _ w g inv here => ?_
      refine Program.meets_done session_stable (fun _ _ _ later => ⟨?_, _, later.weaken F fun f =>
        List.mem_cons_of_mem _⟩) here.2
      rintro object ⟨⟩
      exact ⟨rfl, fun member => slashless _ member rfl⟩

end Lookups

/-! ## Storing -/

section Storing
variable {name : Bytes}

/-- The record and the data file of a store that has come as far as that. -/
def storing (name id : Bytes) (i j : Ino) (data : Bytes) : List Fact :=
  [.drawnFor id name, .published name id, .mine id, .own .byId id i (name ++ [SEPARATOR]), .own .data id j data]

theorem create_fills {id : Bytes} {fd idFd : Fd} {e e' : Errno} {d : Description} {j : Ino}
    (plain : PlainName name ∧ PlainName id) (there : D idFd = some d) (ino : d.ino = some j)
    (writable : d.flags.write = true) (start : d.flags.append = false ∧ d.pos = ([] : Bytes).length)
    (closed : D fd = none) :
    Outline t p (Session t p D [(j, .write)] [.own .byId id j [], .absent .data id, .drawnFor id name,
        .published name id, .mine id])
      (do
        let idFile ← Flstream.writeRecord ⟨some idFd, e⟩ name SEPARATOR
        let dataFile ← Flstream.new (DATA_DIR ++ id) CREATE_FILE
        let _ ← dataFile.close
        let _ ← idFile.close
        let _ ← Flstream.close ⟨some fd, e'⟩
        return .ok id)
      fun (r : Except Error Bytes) w g => r = .ok id ∧ ∃ D' k, Session t p D' [] (storing name id j k []) w g := by
  have apart : fd ≠ idFd := by
    rintro rfl
    rw [closed] at there
    cases there
  refine (writeRecord_own there ino writable start plain.1.2.1 (by simp [Fact.place])).bind
    fun s w g inv here => ?_
  obtain ⟨rfl, session⟩ := here
  have session := session.weaken [.absent .data id, .own .byId id j (name ++ [SEPARATOR]), .drawnFor id name,
    .published name id, .mine id] (by simp)
  refine Program.meets_bind (new_own .data plain.2 ⟨rfl, rfl, rfl⟩ (by simp [Fact.place]) w g inv session)
    fun s w g inv opened => ?_
  rcases opened with ⟨creates, _⟩ | ⟨dataFd, k, rfl, free, session⟩
  · cases creates
  -- a file is a record or the data of an id, not both
  · have other : k ≠ j := by
      rintro rfl
      have data := (session.facts (.own .data id k []) (by simp)).2.1
      have record := (session.facts (.own .byId id k (name ++ [SEPARATOR])) (by simp)).2.1
      cases data.symm.trans record
    have distinct : dataFd ≠ idFd := by
      rintro rfl
      simp at free
    refine Program.meets_bind (close_stream [(j, .write)] (Function.update_self ..) rfl ?_
      (by simp [Fact.lock]) ?_ w g inv session) fun _ w g inv here => ?_
    · intro j' kind
      simp only [List.mem_singleton, Prod.mk.injEq]
      refine ⟨fun same => ⟨same, ?_⟩, fun both => both.1⟩
      rw [same.1]
      exact Ne.symm other
    · simp [other]
    · refine Program.meets_bind (close_stream (i := j) [] (d := { d with pos := name.length + 1 }) ?_ ino ?_
        (by simp [Fact.lock]) ?_ w g inv here.2) fun _ w g inv here => ?_
      · simp [Ne.symm distinct]
      · simp
      · intro w g session n index
        have record := (session.facts (.own .byId id j (name ++ [SEPARATOR])) (by simp)).2.1
        cases record.symm.trans index
      · refine Program.meets_bind (close_again ?_ w g inv here.2) fun _ w g inv session => ?_
        · simp only [Function.update_apply, apart, ↓reduceIte, closed]
          split <;> rfl
        · refine Program.meets_done session_stable (fun _ _ _ later => ⟨rfl, _, k, later⟩)
            (session.weaken (storing name id j k []) ?_)
          simp [storing]

theorem create_lists {id : Bytes} {ids : List Bytes} {fd idFd : Fd} {i j : Ino} {e e' : Errno}
    (plain : PlainName name ∧ PlainName id) (index : D fd = some ⟨p, some i, CREATE_NAME, 0⟩)
    (record : D idFd = some ⟨p, some j, CREATE_FILE, 0⟩) (distinct : idFd ≠ fd) :
    Outline t p (Session t p D [(i, .write)] (.own .byId id j [] ::
        .index i name (Records.render SEPARATOR ids) ids :: .linked i name :: .mine id :: .drawnFor id name ::
          .absent .data id :: ids.map fun y => .drawnFor y name))
      (do
        let idFile ← Flstream.lock ⟨some idFd, e'⟩ .write
        let nameFile ← Flstream.writeRecord ⟨some fd, e⟩ id SEPARATOR
        let nameFile ← nameFile.close
        let idFile ← idFile.writeRecord name SEPARATOR
        let dataFile ← Flstream.new (DATA_DIR ++ id) CREATE_FILE
        let _ ← dataFile.close
        let _ ← idFile.close
        let _ ← nameFile.close
        return .ok id)
      fun (r : Except Error Bytes) w g => r = .ok id ∧ ∃ D' j k, Session t p D' [] (storing name id j k []) w g := by
  -- The id is listed while its record is locked and empty.
  intro w g inv session
  have other : j ≠ i := by
    rintro rfl
    have record := (session.facts _ List.mem_cons_self).2.1
    have index := (session.facts (.index j name (Records.render SEPARATOR ids) ids) (by simp)).1
    cases record.symm.trans index
  -- the record is the only lock that is waited for while another is held
  have waits : ∀ w g, Session t p D [(i, .write)] (.own .byId id j [] ::
      .index i name (Records.render SEPARATOR ids) ids :: .linked i name :: .mine id :: .drawnFor id name ::
        .absent .data id :: ids.map fun y => .drawnFor y name) w g → Expects p (.lock idFd .write) w g := by
    intro w g session
    refine Or.inr ⟨i, name, ?_, fun j' kind held => ?_, fun d j' found ino => ?_⟩
    · exact (session.facts (.index i name (Records.render SEPARATOR ids) ids) (by simp)).1
    · simpa using congrArg Prod.fst (List.mem_singleton.mp ((session.held j' kind).mp held))
    · rw [session.descs, record] at found
      cases found
      cases ino
      exact ⟨id, (session.facts _ List.mem_cons_self).2.1⟩
  refine Program.meets_bind (lock_record record rfl (Or.inr ⟨rfl, rfl⟩)
    (fun w g session => ⟨waits w g session, by simp [other]⟩) w g inv session) fun s w g inv here => ?_
  obtain ⟨rfl, session⟩ := here
  have session := session.weaken (.index i name (Records.render SEPARATOR ids) ids ::
    .linked i name :: .own .byId id j [] :: .mine id :: .drawnFor id name :: .absent .data id ::
      ids.map fun y => .drawnFor y name) (by simp +contextual)
  refine Program.meets_bind (writeRecord_index index rfl rfl (Or.inl rfl) (by simp) (by simp [Fact.file, other])
    w g inv session) fun s w g inv here => ?_
  obtain ⟨rfl, session⟩ := here
  have lined : Records.render SEPARATOR ids ++ (id ++ [SEPARATOR]) = Records.render SEPARATOR (ids ++ [id]) := by
    simp
  rw [lined] at session
  refine Program.meets_bind (close_index (ids ++ [id]) [id] [(j, .write)] [.own .byId id j [],
    .absent .data id, .drawnFor id name, .mine id] (Function.update_self ..) rfl ?_ (by simp)
    List.mem_cons_self ?_ ?_ (by simp) (by simp [Fact.lock]) w g inv session) fun s w g inv here => ?_
  · intro j' kind
    simp only [List.mem_cons, Prod.mk.injEq, List.not_mem_nil, or_false]
    refine ⟨?_, fun both => both.1.resolve_right fun same => both.2 same.1⟩
    rintro ⟨rfl, rfl⟩
    exact ⟨Or.inl ⟨rfl, rfl⟩, other⟩
  · intro y member
    rcases List.mem_append.mp member with listed | new
    · simp [listed]
    · simp [List.mem_singleton.mp new]
  · exact fun y member => Or.inl (List.mem_append_left _ member)
  · obtain ⟨rfl, session⟩ := here
    have session := session.weaken [.own .byId id j [], .absent .data id, .drawnFor id name,
      .published name id, .mine id] (by simp)
    refine Program.meets_mono (create_fills (d := ⟨p, some j, CREATE_FILE, 0⟩) plain ?_ rfl rfl ⟨rfl, rfl⟩
      (Function.update_self ..) w g inv session) fun r w g _ here => ?_
    · simp [distinct, record]
    · obtain ⟨rfl, D', k, session⟩ := here
      exact ⟨rfl, D', j, k, session⟩

theorem create_outline (plain : PlainName name) :
    Outline t p (Session t p D [] []) (create name) fun r w g =>
      ∃ id, r = .ok id ∧ PlainName id ∧ ∃ D' j k, Session t p D' [] (storing name id j k []) w g := by
  apply (draw_outline name).bind
  intro id w g inv here
  obtain ⟨⟨fine, oneLine⟩, session⟩ := here
  refine Program.meets_bind (new_index (Names.of_plain plain) rfl (by simp [Fact.place]) w g inv session)
    fun s w g inv opened => ?_
  rcases opened with ⟨creates, _⟩ | ⟨fd, i, rfl, _, session⟩
  · cases creates
  · simp only [Flstream.fail_opened, Bool.false_eq_true, ↓reduceIte]
    refine Program.meets_bind (lock_index (Function.update_self ..) rfl (Or.inr ⟨rfl, rfl⟩) rfl
      List.mem_cons_self w g inv session) fun s w g inv here => ?_
    obtain ⟨rfl, ids, session⟩ := here
    have session := session.weaken (.absent .byId id :: .index i name (Records.render SEPARATOR ids) ids ::
      .linked i name :: .mine id :: .drawnFor id name :: .absent .data id ::
        ids.map fun y => .drawnFor y name) (by simp +contextual [locked])
    refine Program.meets_bind (new_own .byId fine ⟨rfl, rfl, rfl⟩ (by simp [Fact.place]) w g inv session)
      fun s w g inv opened => ?_
    rcases opened with ⟨creates, _⟩ | ⟨idFd, j, rfl, free, session⟩
    · cases creates
    · simp only [Flstream.fail_opened, Bool.false_eq_true, ↓reduceIte]
      have distinct : idFd ≠ fd := by
        rintro rfl
        simp at free
      refine Program.meets_mono (create_lists ⟨plain, fine⟩ (by simp [Ne.symm distinct, CREATE_NAME])
        (by simp [CREATE_FILE]) distinct w g inv session) fun r w g _ here => ?_
      obtain ⟨rfl, D', j, k, session⟩ := here
      exact ⟨id, rfl, fine, D', j, k, session⟩

/-- What `store` has come to when it ends. -/
def Stored (t : Terms) (p : Pid) (name data : Bytes) (r : Except Error Bytes) (w : World) (g : Ghost) : Prop :=
  match r with
  | .error _ => Idle t p w g
  | .ok id => ∃ D j k, Session t p D [] (storing name id j k data) w g

theorem get_outline {id : Bytes} {object : Object} {k : Ino} (plain : PlainName id) (same : object.id = id) :
    Outline t p (Session t p D [] (.own .data id k [] :: F)) (object.get Flstream.WRONLY) fun r w g =>
      (∃ e, r = .error e) ∧ Idle t p w g ∨ ∃ fd k', r = .ok ⟨some fd, 0⟩ ∧ D fd = none ∧
        Session t p (Function.update D fd (some ⟨p, some k', Flstream.WRONLY, 0⟩)) []
          (.own .data id k' [] :: F) w g := by
  subst same
  apply (new_again .data plain rfl rfl).bind
  intro s w g inv opened
  rcases opened with ⟨_, ⟨e, failed, rfl⟩, session⟩ | ⟨fd, k', rfl, free, session⟩
  · exact refused_outline failed (fun _ _ later => Or.inl ⟨⟨_, rfl⟩, later.idle⟩) w g inv session
  · simp only [Flstream.fail_opened, Bool.false_eq_true, ↓reduceIte]
    exact Program.meets_done session_stable (fun _ _ _ later => Or.inr ⟨fd, k', rfl, free, later⟩) session

theorem store_outline (data : Bytes) (plain : PlainName name) :
    Outline t p (Session t p D [] []) (Volume.store name data) (Stored t p name data) := by
  apply (create_outline plain).bind
  intro r w g inv here
  obtain ⟨id, rfl, fine, D₁, j, k, session⟩ := here
  dsimp only
  apply Program.meets_bind (byId_outline fine w g inv session)
  intro r w g inv here
  obtain ⟨looked, D₂, session⟩ := here
  cases r with
  | error e => exact Program.meets_done session_stable (fun _ _ _ later => later.idle) session
  | ok object =>
      dsimp only
      -- the lookup returns the id that was just stored
      have session := session.weaken [.own .data id k [], .drawnFor id name, .published name id, .mine id,
        .own .byId id j (name ++ [SEPARATOR])] (by simp [storing])
      apply Program.meets_bind (get_outline fine (looked object rfl).1 w g inv session)
      intro r w g inv here
      rcases here with ⟨⟨e, rfl⟩, idle⟩ | ⟨fd, k', rfl, free, session⟩
      · exact Program.meets_done idle_stable (fun _ _ _ later => later) idle
      · dsimp only
        refine Program.meets_bind (write_own (Function.update_self ..) rfl rfl ⟨rfl, rfl⟩ (by simp)
          (by simp [Fact.place]) w g inv session) fun s w g inv here => ?_
        obtain ⟨rfl, session⟩ := here
        refine Program.meets_bind (close_stream [] (Function.update_self ..) rfl (by simp) (by simp [Fact.lock])
          (by simp) w g inv session) fun _ w g inv here => ?_
        refine Program.meets_done session_stable (fun _ _ _ later => ⟨_, j, k', later⟩)
          (here.2.weaken (storing name id j k' data) ?_)
        simp [storing]

end Storing

/-! ## Removing -/

section Removing
variable {name id : Bytes}

theorem new_recorded (slashless : slash ∉ name) :
    Outline t p (Session t p D [] F) (Flstream.new (NAME_DIR ++ name) Flstream.RDWR) fun s w g =>
      ((∃ e, e ≠ 0 ∧ s = ⟨none, e⟩) ∧ Session t p D [] F w g) ∨
        ∃ y fd i, Names name y ∧ s = ⟨some fd, 0⟩ ∧ D fd = none ∧
          Session t p (Function.update D fd (some ⟨p, some i, Flstream.RDWR, 0⟩)) [] (.role i .byName y :: F) w g := by
  have free : slash ∉ cstr name := fun member => slashless (List.takeWhile_subset _ member)
  rcases Volume.name_cases name free with names | special
  · refine (new_found .byName (fun i => .role i .byName (cstr name) :: F) names rfl rfl
      fun w g i inv session file => ?_).mono fun s w g _ opened => ?_
    · intro f member
      rcases List.mem_cons.mp member with rfl | before
      · exact inv.named .byName (cstr name) i file
      · exact session.facts f before
    · rcases opened with ⟨_, failed, session⟩ | ⟨fd, i, same, fresh, session⟩
      · exact Or.inl ⟨failed, session⟩
      · exact Or.inr ⟨cstr name, fd, i, names, same, fresh, session⟩
  · -- a directory is not opened for writing
    refine outline_once (fun _ _ _ _ => trivial) fun w g r k' inv session _ answered => ?_
    obtain ⟨q, resolved, dir, _⟩ := Volume.special_dir (k := w.kernel) inv.sane.layout .byName (by decide) name special
    rw [show Dir.byName.text = NAME_DIR from rfl] at resolved
    simp only [Kernel.exec, Kernel.openFile, resolved, dir, Flstream.RDWR, Bool.true_or, ↓reduceIte,
      Option.some.injEq] at answered
    cases answered
    exact ⟨_, g, D, [], F, rfl, ⟨inv, Guar.refl t p w g⟩, session, fun v h later =>
      Or.inl ⟨⟨EISDIR, by decide, rfl⟩, later⟩⟩

theorem unlist_empties {x y : Bytes} {ids : List Bytes} {fd : Fd} {e : Errno} {i : Ino} {d : Description}
    (names : Names x y) (there : D fd = some d) (ino : d.ino = some i) (own : ∀ y' ∈ ids, y' = id) :
    Outline t p (Session t p D [(i, .write)] [.index i y (Records.render SEPARATOR []) ids, .linked i y, .begun id])
      (do
        match ← Sys.remove (NAME_DIR ++ x) with
        | .error _ => return none
        | .ok _ =>
            let nameFile ← Flstream.close ⟨some fd, e⟩
            let _ ← nameFile.close
            return some (.ok ()))
      fun (_ : Option (Except Error Unit)) w g => Idle t p w g := by
  -- The end of a removal that leaves no id in the index: the index goes as well.
  refine (remove_outline .byName [.index i y (Records.render SEPARATOR []) ids, .begun id] names
    (by simp [Fact.place]) ?_).bind fun r w g inv here => ?_
  · intro w g inv session
    refine ⟨fun other => absurd rfl other, fun strict _ i' file => ?_⟩
    obtain ⟨_, writes, node⟩ := session.facts (.linked i y) (by simp)
    obtain ⟨_, _, members, _⟩ := session.facts _ List.mem_cons_self
    cases (node strict).symm.trans file
    refine ⟨writes, fun y' listed => ?_⟩
    rw [own y' (members ▸ listed)]
    exact session.facts (.begun id) (by simp)
  · obtain ⟨⟨_, rfl⟩, session⟩ := here
    dsimp only
    refine Program.meets_bind (close_index [] [] [] [] there ino (by simp) List.mem_cons_self List.mem_cons_self
      (by simp) ?_ (by simp) (by simp) w g inv session) fun s w g inv here => ?_
    · intro y' member
      rw [own y' member]
      simp
    · obtain ⟨rfl, session⟩ := here
      exact Program.meets_bind (close_again (Function.update_self ..) w g inv session) fun _ w g inv session =>
        Program.meets_done session_stable (fun _ _ _ later => later.idle) session

theorem unlist_outline {object : Object} (same : object.id = id) (slashless : slash ∉ object.name) :
    Outline t p (Session t p D [] [.begun id]) object.unlist fun _ w g => Idle t p w g := by
  subst same
  apply (new_recorded slashless).bind
  intro s w g inv opened
  rcases opened with ⟨⟨e, failed, rfl⟩, session⟩ | ⟨y, fd, i, names, rfl, _, session⟩
  · refine refused_outline failed ?_ w g inv session
    exact fun _ _ later => later.idle
  · simp only [Flstream.fail_opened, Bool.false_eq_true, ↓reduceIte]
    refine Program.meets_bind (lock_index (Function.update_self ..) rfl (Or.inr ⟨rfl, rfl⟩) rfl
      List.mem_cons_self w g inv session) fun s w g inv here => ?_
    obtain ⟨rfl, ids, session⟩ := here
    have drawn : ∀ y' ∈ ids, .drawnFor y' y ∈ locked .write i y ids ++ [.role i .byName y, .begun object.id] := by
      simp +contextual [locked]
    refine Program.meets_bind (getlines_index (Function.update_self ..) rfl rfl List.mem_cons_self w g inv session)
      fun read w g inv here => ?_
    obtain ⟨rfl, pos, session⟩ := here
    have lines := session.lines inv drawn
    simp only [List.drop_zero, lines]
    have session := session.weaken (.index i y (Records.render SEPARATOR ids) ids :: .linked i y ::
      .begun object.id :: ids.map fun y' => .drawnFor y' y) (by simp +contextual)
    apply Program.meets_bind (seek_outline (Function.update_self ..) 0 w g inv session)
    intro _ w g inv session
    refine Program.meets_bind (truncate_index (Function.update_self ..) rfl rfl List.mem_cons_self
      (by simp [Fact.file]) w g inv session) fun _ w g inv session => ?_
    refine Program.meets_bind (rewrite_index ids (Function.update_self ..) rfl rfl rfl List.mem_cons_self
      (by simp [Fact.file]) w g inv session) fun r w g inv here => ?_
    obtain ⟨empty, nameFile⟩ := r
    obtain ⟨none_left, ⟨e, written⟩, pos', session⟩ := here
    simp only at none_left written
    subst written
    have kept : ∀ y' ∈ ids, y' ∈ ids.filter (· ≠ object.id) ∨ y' = object.id := by
      intro y' member
      by_cases own : y' = object.id
      · exact Or.inr own
      · exact Or.inl (List.mem_filter.mpr ⟨member, by simpa using own⟩)
    cases empty with
    | true =>
        have none_kept : ids.filter (· ≠ object.id) = [] := by simpa using none_left.symm
        rw [none_kept] at session kept
        simp only [↓reduceIte]
        have session := session.weaken [.index i y (Records.render SEPARATOR []) ids, .linked i y,
          .begun object.id] (by simp)
        exact unlist_empties names (Function.update_self ..) rfl
          (fun y' member => (kept y' member).resolve_left (by simp)) w g inv session
    | false =>
        simp only [Bool.false_eq_true, ↓reduceIte]
        refine Program.meets_bind (close_index (ids.filter (· ≠ object.id)) [] [] [] (Function.update_self ..) rfl
          (by simp) List.mem_cons_self List.mem_cons_self ?_ ?_ (by simp) (by simp) w g inv session)
          fun s w g inv here => ?_
        · intro y' member
          simp [(List.mem_filter.mp member).1]
        · intro y' member
          apply (kept y' member).imp_right
          intro own
          simp [own]
        · exact Program.meets_done session_stable (fun _ _ _ later => later.idle) here.2

theorem object_outline {object : Object} (plain : PlainName id) (same : object.id = id)
    (slashless : slash ∉ object.name) :
    Outline t p (Session t p D [] [.begun id]) object.remove fun _ w g => Idle t p w g := by
  have may : ∀ (dir : Dir), dir ≠ .byName → ∀ w g, Inv t w g → Session t p D [] [.begun id] w g →
      (dir ≠ .byName → id ∈ w.begun) ∧ (t.strict → dir = .byName → ∀ i, w.node dir id = some (.file i) →
        (p, LockKind.write) ∈ w.locks i ∧ ∀ y ∈ g.members i, y ∈ w.begun) :=
    fun dir other w g _ session => ⟨fun _ => session.facts _ List.mem_cons_self, fun _ index => absurd index other⟩
  unfold Object.remove
  rw [same]
  refine (remove_outline .byId [.begun id] (Names.of_plain plain) (by simp [Fact.place])
    (may .byId (by decide))).bind fun r w g inv here => ?_
  obtain ⟨⟨_, rfl⟩, session⟩ := here
  refine Program.meets_bind (remove_outline .data [.begun id] (Names.of_plain plain) (by simp [Fact.place])
    (may .data (by decide)) w g inv session) fun r w g inv here => ?_
  obtain ⟨⟨_, rfl⟩, session⟩ := here
  exact unlist_outline same slashless w g inv session

theorem removal_outline (plain : PlainName id) :
    Outline t p (Session t p D [] [.begun id]) (Volume.remove id) fun _ w g => Idle t p w g := by
  apply (byId_outline plain).bind
  intro r w g inv here
  obtain ⟨looked, D', session⟩ := here
  cases r with
  | error e => exact Program.meets_done session_stable (fun _ _ _ later => later.idle) session
  | ok object => exact object_outline plain (looked object rfl).1 (looked object rfl).2 w g inv session

theorem getId_outline (plain : PlainName id) :
    Outline t p (Session t p D [] []) (Volume.getId id) fun _ w g => Idle t p w g := by
  apply (byId_outline plain).bind
  intro r w g inv here
  obtain ⟨_, D', session⟩ := here
  cases r with
  | error e => exact Program.meets_done session_stable (fun _ _ _ later => later.idle) session
  | ok object =>
      apply Program.meets_mono (byId_outline plain w g inv session)
      intro r w g _ here
      obtain ⟨_, D'', session⟩ := here
      exact session.idle

end Removing

/-! ## Every operation -/

def Ended (t : Terms) (p : Pid) : Op → Answer → World → Ghost → Prop
  | .store name data, .stored r => Stored t p name data r
  | .getName name, .listed r => fun w g => ∃ D, Session t p D [] (listing name r) w g
  | _, _ => Idle t p

def starting : Op → List Fact
  | .remove id => [.begun id]
  | _ => []

theorem program_outline (op : Op) (plain : op.Plain) :
    Outline t p (Session t p D [] (starting op)) op.program (Ended t p op) := by
  cases op with
  | store name data => exact (store_outline data plain.1).map fun _ _ _ _ here => here
  | create name =>
      apply (create_outline plain.1).map
      intro r w g _ here
      obtain ⟨id, _, _, D', j, k, session⟩ := here
      exact session.idle
  | remove id => exact (removal_outline plain).map fun _ _ _ _ here => here
  | getName name => exact (byName_outline plain).map fun _ _ _ _ here => here
  | getId id => exact (getId_outline plain).map fun _ _ _ _ here => here

/-! ## Beginning and ending -/

section Turns

theorem begin_step (inv : Inv t w g) (op : Op) : Stepped t p w g (begin op w) g := by
  cases op with
  | remove id =>
      have later : ∀ x ∈ w.begun, x ∈ (begin (.remove id) w).begun := fun x => List.mem_cons_of_mem id
      have guar : Guar t p w g (begin (.remove id) w) g :=
        { Guar.refl t p w g with
          begun := later
          present := fun _ _ _ _ _ file => file }
      have core : Core t (begin (.remove id) w) g :=
        { inv.toCore with
          published := fun strict n x member spared =>
            inv.published strict n x member fun before => spared (later x before) }
      exact ⟨inv.of_core core guar rfl, guar⟩
  | _ => exact ⟨inv, Guar.refl t p w g⟩

theorem begin_session (idle : Idle t p w g) (op : Op) :
    ∃ D, Session t p D [] (starting op) (begin op w) g := by
  obtain ⟨D, session⟩ := idle
  refine ⟨D, ?_⟩
  cases op with
  | remove id =>
      refine ⟨session.descs, session.held, fun f member => ?_⟩
      cases List.mem_singleton.mp member
      exact List.mem_cons_self
  | _ => exact session

def Ghost.end (g : Ghost) (id : Bytes) : Ghost := { g with working := Function.update g.working id none }

theorem finish_step (inv : Inv t w g) {name id data : Bytes} {j k : Ino}
    (session : Session t p D [] (storing name id j k data) w g) :
    Stepped t p w g { w with stored := (name, id, data) :: w.stored } (g.end id) := by
  have mine : t.fresh → Fact.Mine p w g id := session.facts (.mine id) (by simp [storing])
  have guar : Guar t p w g { w with stored := (name, id, data) :: w.stored } (g.end id) := by
    refine { Guar.refl t p w g with working := fun fresh x drawn foreign => ?_ }
    refine Function.update_of_ne ?_ _ _
    rintro rfl
    exact foreign (mine fresh).1
  have core : Core t { w with stored := (name, id, data) :: w.stored } (g.end id) :=
    { inv.toCore with }
  refine ⟨⟨core, fun n x bytes member => ?_⟩, guar⟩
  -- the store that returns now, and those that have returned
  rcases List.mem_cons.mp member with new | before
  · cases new
    have own : ∀ (dir : Dir) i bytes, .own dir id i bytes ∈ storing name id j k data → t.fresh →
        id ∈ w.begun ∨ Volume.record w.kernel.files dir id = some bytes := by
      intro dir i bytes member fresh
      obtain ⟨_, _, known⟩ := session.facts _ member
      apply (known fresh).2.imp_right
      intro here
      rw [record_file here.1, here.2]
    refine ⟨?_, session.facts (.published name id) (by simp [storing]), fun _ => Function.update_self ..,
      fun fresh => ?_⟩
    · exact session.facts (.drawnFor id name) (by simp [storing])
    · rcases own .byId j (name ++ [SEPARATOR]) (by simp [storing]) fresh with gone | recorded
      · exact Or.inl gone
      · exact (own .data k data (by simp [storing]) fresh).imp_right fun held => ⟨recorded, held⟩
  · exact (inv.stored n x bytes before).guar guar inv.toCore

end Turns

end Sfsdb.Processes

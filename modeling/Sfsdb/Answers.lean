import Sfsdb.Listings
import Sfsdb.Lookups

/-!
The programs of the five calls while other children work on the same volume. Each
comes to a reply of a kind that its call has; `Replied` says what the response will
be once the reply is sent, and what is known of it: of a file that had been stored
and whose removal has not begun, of one whose removal had been answered, and of an
id that is handed out.
-/

namespace Sfsdb.Parallel

open Posix Storage Protocol
open Handlers (Reply getFile putFile descFile delFile listFiles refuse succeed noRes sendFile)
open Volume (Dir entry record Names)
open Processes (World Ghost Terms Session Fact)
open Service (Keeps)
open Session (Command)
open Responses (Outcome toSend)

variable {t : Terms} {p : Pid} {s : Site} {g : Ghost} {D : Fd → Option Description}
  {H : List (Ino × LockKind)} {F : List Fact} {name id data : Bytes} {E C : Site → Ghost → Prop} {b : Belongings}

/-! ## Calls on what a process has for itself -/

section Own

theorem call_settled {c : Call} {value : Resp c} {D' : Fd → Option Description} {b' : Belongings}
    {Y : Site → Ghost → Prop} (patient : ∀ w g, Processes.Expects p c w g) (lasts : Lasting t E) (lastsY : Lasting t Y)
    (step : ∀ s g r k', Inv t s g → Alone t p H F D b E s g → s.kernel.exec p c = some (r, k') →
      (r = value ∧ Y s g) ∧ Processes.Alike p s.kernel k' ∧ (∀ m, k'.nextMap ≤ m → k'.maps m = none) ∧
        (∀ m mapping, s.kernel.maps m = some mapping → mapping.pid ≠ p → k'.maps m = some mapping) ∧
        k'.descOf p = D' ∧ Has p b' (s.after k') g) :
    Outline t p (Alone t p H F D b E) (Program.issue c) fun r s g => r = value ∧ Alone t p H F D' b' Y s g := by
  refine (call_outline (Y := fun r s g => r = value ∧ Y s g) (fun _ D₁ b₁ => D₁ = D' ∧ b₁ = b') patient lasts
    (fun r => (Program.lasting_pure _).and lastsY) ?_).mono ?_
  · intro s g r k' inv alone answered
    obtain ⟨told, alike, above, others, descs, has⟩ := step s g r k' inv alone answered
    exact ⟨told, alike, above, others, b', has, descs, rfl⟩
  · rintro r s g _ ⟨_, _, ⟨rfl, rfl⟩, alone⟩
    exact ⟨alone.known.1, alone.imp And.right⟩

theorem send_outline (bytes : Bytes) (lasts : Lasting t E) :
    Outline t p (Alone t p H F D b E) (Sys.send bytes) fun r s g =>
      r = .ok () ∧ Alone t p H F D { b with sent := b.sent ++ bytes } E s g := by
  refine call_settled (c := .send bytes) (fun _ _ => trivial) lasts lasts ?_
  intro s g r k' inv alone answered
  cases answered
  refine ⟨⟨rfl, alone.known⟩, ⟨rfl, rfl, rfl, rfl, fun _ _ => rfl, inv.volume.fds⟩, inv.maps,
    fun _ _ there _ => there, alone.session.descs, alone.has.inbox, ?_, alone.has.maps⟩
  rw [← alone.has.sent]
  exact Function.update_self ..

theorem recv_outline {front rest : Bytes} {len : Nat} (inbox : b.inbox = front ++ rest) (whole : front.length = len)
    (lasts : Lasting t E) :
    Outline t p (Alone t p H F D b E) (Sys.recv len) fun r s g =>
      r = .ok front ∧ Alone t p H F D { b with inbox := rest } E s g := by
  subst whole
  refine call_settled (c := .recv front.length) (fun _ _ => trivial) lasts lasts ?_
  intro s g r k' inv alone answered
  have unread : s.kernel.inbox p = front ++ rest := alone.has.inbox.trans inbox
  have enough : ¬ (s.kernel.inbox p).length < front.length := by
    rw [unread, List.length_append]
    omega
  simp only [Kernel.exec, if_neg enough, Option.some.injEq] at answered
  cases answered
  refine ⟨⟨?_, alone.known⟩, ⟨rfl, rfl, rfl, rfl, fun _ _ => rfl, inv.volume.fds⟩, inv.maps,
    fun _ _ there _ => there, alone.session.descs, ?_, alone.has.sent, alone.has.maps⟩
  · rw [unread, List.take_left]
  · refine (Function.update_self ..).trans ?_
    rw [unread, List.drop_left]

theorem munmap_outline {m i len : Nat} (own : b.maps = [(m, i, len)]) (lasts : Lasting t E) :
    Outline t p (Alone t p H F D b E) (Sys.munmap m) fun _ s g => Alone t p H F D { b with maps := [] } E s g := by
  have unmaps : Outline t p (Alone t p H F D b E) (Sys.munmap m) fun r s g =>
      r = () ∧ Alone t p H F D { b with maps := [] } E s g := ?_
  · exact unmaps.mono fun _ _ _ _ later => later.2
  refine call_settled (c := .munmap m) (fun _ _ => trivial) lasts lasts ?_
  intro s g r k' inv alone answered
  cases answered
  have mapped : s.kernel.maps m = some ⟨p, i, len⟩ := alone.has.maps (m, i, len) (by simp [own])
  refine ⟨⟨rfl, alone.known⟩, ⟨rfl, rfl, rfl, rfl, fun _ _ => rfl, inv.volume.fds⟩, fun m' above => ?_,
    fun m' mapping there foreign => ?_, alone.session.descs, alone.has.inbox, alone.has.sent, fun _ member => ?_⟩
  · change Function.update s.kernel.maps m none m' = none
    by_cases same : m' = m
    · rw [same, Function.update_self]
    · rw [Function.update_of_ne same]
      exact inv.maps m' above
  · refine (Function.update_of_ne ?_ _ _).trans there
    rintro rfl
    rw [mapped] at there
    cases there
    exact foreign rfl
  · exact (List.not_mem_nil member).elim

theorem closeFile_outline {fd : Fd} {d : Description} {i : Ino} (there : D fd = some d) (ino : d.ino = some i)
    (lasts : Lasting t E) :
    Outline t p (Alone t p [] F D b E) (Sys.close fd) fun _ s g =>
      Alone t p [] F (Function.update D fd none) b E s g := by
  have closes : Outline t p (Alone t p [] F D b E) (Sys.close fd) fun r s g =>
      r = .ok () ∧ Alone t p [] F (Function.update D fd none) b E s g := ?_
  · exact closes.mono fun _ _ _ _ later => later.2
  refine call_settled (c := .close fd) (fun _ _ => trivial) lasts lasts ?_
  intro s g r k' inv alone answered
  have found := alone.session.found there
  have unheld : s.kernel.release p i = s.kernel := by
    have free : (s.kernel.locks i).filter (fun held => held.1 ≠ p) = s.kernel.locks i := by
      refine List.filter_eq_self.mpr fun held member => ?_
      have foreign : held.1 ≠ p := by
        rintro rfl
        exact absurd ((alone.session.held i held.2).mp member) (by simp)
      simpa using foreign
    unfold Kernel.release
    rw [free, Function.update_eq_self]
  simp only [Kernel.exec, Kernel.closeFile, found, ino, unheld, Option.some.injEq] at answered
  cases answered
  refine ⟨⟨rfl, alone.known⟩, Processes.Alike.dropDesc inv.volume.fds found, inv.maps, fun _ _ there _ => there, ?_,
    alone.has.inbox, alone.has.sent, alone.has.maps⟩
  funext other
  rw [Kernel.descOf_dropDesc, alone.session.descs, Function.update_apply]

theorem mmap_outline {fd : Fd} {d : Description} {i len : Nat} (there : D fd = some d) (ino : d.ino = some i)
    (readable : d.flags.read = true) (lasts : Lasting t E) :
    Outline t p (Alone t p H F D b E) (Sys.mmap fd len) fun r s g =>
      len = 0 ∧ r = .error EINVAL ∧ Alone t p H F D b E s g ∨
        ∃ m, len ≠ 0 ∧ r = .ok m ∧ Alone t p H F D { b with maps := [(m, i, len)] } E s g := by
  refine (call_outline (c := .mmap fd len) (Y := fun _ => E)
    (fun (r : Except Errno Nat) D₁ b₁ => D₁ = D ∧ (len = 0 ∧ r = .error EINVAL ∧ b₁ = b ∨
      ∃ m, len ≠ 0 ∧ r = .ok m ∧ b₁ = { b with maps := [(m, i, len)] }))
    (fun _ _ => trivial) lasts (fun _ => lasts) ?_).mono ?_
  · intro s g r k' inv alone answered
    have found := alone.session.found there
    simp only [Kernel.exec, Kernel.mapFile, found, ino, readable, Bool.not_true, Bool.false_eq_true, ↓reduceIte,
      Option.some.injEq] at answered
    split at answered
    · rename_i empty
      cases answered
      exact ⟨alone.known, Processes.Alike.same inv.volume.fds, inv.maps, fun _ _ there _ => there, b, alone.has,
        alone.session.descs, Or.inl ⟨empty, rfl, rfl⟩⟩
    · rename_i some
      cases answered
      refine ⟨alone.known, ⟨rfl, rfl, rfl, rfl, fun _ _ => rfl, inv.volume.fds⟩, fun m above => ?_,
        fun m mapping there _ => ?_, { b with maps := [(s.kernel.nextMap, i, len)] },
        ⟨alone.has.inbox, alone.has.sent, fun m member => ?_⟩, alone.session.descs, Or.inr ⟨_, some, rfl, rfl⟩⟩
      · have above : s.kernel.nextMap + 1 ≤ m := above
        exact (Function.update_of_ne (Nat.ne_of_gt above) _ _).trans (inv.maps m (Nat.le_of_succ_le above))
      · refine (Function.update_of_ne ?_ _ _).trans there
        rintro rfl
        rw [inv.maps _ (Nat.le_refl _)] at there
        cases there
      · cases List.mem_singleton.mp member
        exact Function.update_self ..
  · rintro r s g _ ⟨_, _, ⟨rfl, ⟨empty, rfl, rfl⟩ | ⟨m, some, rfl, rfl⟩⟩, alone⟩
    · exact Or.inl ⟨empty, rfl, alone⟩
    · exact Or.inr ⟨m, some, rfl, alone⟩

theorem load_outline {m i len : Nat} (own : b.maps = [(m, i, len)]) (lasts : Lasting t E) (lastsC : Lasting t C)
    (text : ∀ s g, Inv t s g → E s g → C s g ∨ s.world.data i = data ∧ len = data.length) :
    Outline t p (Alone t p H F D b E) (Sys.load m len) fun bytes s g => bytes.length = len ∧
      Alone t p H F D b (fun s g => C s g ∨ bytes = data) s g := by
  refine (call_outline (c := .load m len) (Y := fun bytes s g => C s g ∨ bytes = data)
    (fun (bytes : Bytes) D₁ b₁ => D₁ = D ∧ b₁ = b ∧ bytes.length = len) (fun _ _ => trivial) lasts
    (fun bytes => lastsC.or (Program.lasting_pure _)) ?_).mono ?_
  · intro s g r k' inv alone answered
    have mapped : s.kernel.maps m = some ⟨p, i, len⟩ := alone.has.maps (m, i, len) (by simp [own])
    simp only [Kernel.exec, Kernel.loadMap, mapped, Option.some.injEq] at answered
    cases answered
    refine ⟨(text s g inv alone.known).imp_right ?_, Processes.Alike.same inv.volume.fds, inv.maps,
      fun _ _ there _ => there, b, alone.has, alone.session.descs, rfl, ?_⟩
    · rintro ⟨same, rfl⟩
      have same : s.kernel.files.data i = data := same
      simp [same]
    · rw [List.length_append, List.length_take, List.length_replicate]
      omega
  · rintro r s g _ ⟨_, _, ⟨rfl, rfl, sized⟩, alone⟩
    exact ⟨sized, alone⟩

theorem sendFile_outline {fd : Fd} {d : Description} {m i fsize : Nat} (there : D fd = some d) (ino : d.ino = some i)
    (own : b.maps = [(m, i, fsize)]) (lasts : Lasting t E) (lastsC : Lasting t C)
    (text : ∀ s g, Inv t s g → E s g → C s g ∨ s.world.data i = data ∧ fsize = data.length) :
    Outline t p (Alone t p [] F D b E) (sendFile fd m fsize) fun reply s g =>
      reply = noRes ∧ ∃ bytes, bytes.length = fsize ∧ Alone t p [] F (Function.update D fd none)
        ⟨b.inbox, b.sent ++ (Outcome.content bytes).frame, []⟩ (fun s g => C s g ∨ bytes = data) s g := by
  have own : ∀ sent, ({ b with sent := sent } : Belongings).maps = [(m, i, fsize)] := fun _ => own
  apply (send_outline _ lasts).bind
  rintro _ s g inv ⟨rfl, alone⟩
  apply Program.meets_bind (load_outline (own _) lasts lastsC text s g inv alone)
  rintro bytes s g inv ⟨sized, alone⟩
  have told : Lasting t fun s g => C s g ∨ bytes = data := lastsC.or (Program.lasting_pure _)
  apply Program.meets_bind (send_outline bytes told s g inv alone)
  rintro _ s g inv ⟨rfl, alone⟩
  apply Program.meets_bind (send_outline [MAGIC] told s g inv alone)
  rintro _ s g inv ⟨rfl, alone⟩
  apply Program.meets_bind (munmap_outline (own _) told s g inv alone)
  rintro _ s g inv alone
  apply Program.meets_bind (closeFile_outline there ino told s g inv alone)
  rintro _ s g inv alone
  refine Program.meets_done (alone_stable told) (fun s g _ later => ⟨rfl, bytes, sized, ?_⟩) alone
  have frame : b.sent ++ ((Types.header status.SUCCESS (Protocol.HEADER_SIZE + fsize)).toBytes ++
      (Types.bigdata fsize).toBytes) ++ bytes ++ [MAGIC] = b.sent ++ (Outcome.content bytes).frame := by
    rw [Responses.content_frame, sized]
    simp only [List.append_assoc]
  rw [← frame]
  exact later

end Own

/-! ## Replies -/

section Replies
variable {c : Command} {Y : Outcome → Site → Ghost → Prop}

def Leaves (c : Command) (o : Outcome) (F : List Fact) : Prop :=
  ∀ name data id, c = .put name data → o = .stored id → ∃ j k, F = Processes.storing name id j k data

/-- With the reply sent the response is `o`, of a kind that the call has, and `Y o` is known. -/
def Replied (t : Terms) (p : Pid) (c : Command) (b : Belongings) (Y : Outcome → Site → Ghost → Prop)
    (reply : Option Reply) (s : Site) (g : Ghost) : Prop :=
  ∃ rep o D F b', reply = some rep ∧ o.Of c.no ∧ b'.sent ++ toSend rep = b.sent ++ o.frame ∧ Leaves c o F ∧
    Alone t p [] F D b' (Y o) s g

theorem Replied.weaken {Y' : Outcome → Site → Ghost → Prop} {reply : Option Reply}
    (replied : Replied t p c b Y reply s g) (weaker : ∀ o, Y o s g → Y' o s g) : Replied t p c b Y' reply s g := by
  obtain ⟨rep, o, D, F, b', same, kind, wrote, leaves, alone⟩ := replied
  exact ⟨rep, o, D, F, b', same, kind, wrote, leaves, alone.imp (weaker o)⟩

theorem replies {rep : Reply} {o : Outcome} {b' : Belongings} (kind : o.Of c.no) (leaves : Leaves c o F)
    (wrote : b'.sent ++ toSend rep = b.sent ++ o.frame) (lasts : Lasting t (Y o))
    (alone : Alone t p [] F D b' (Y o) s g) :
    Program.Meets (protocol t) p (Replied t p c b Y) (.done (some rep)) s g :=
  Program.meets_done (alone_stable lasts)
    (fun _ _ _ later => ⟨rep, o, D, F, b', rfl, kind, wrote, leaves, later⟩) alone

theorem refuses (msg : CString) (lasts : Lasting t (Y (.refused msg)))
    (alone : Alone t p [] F D b (Y (.refused msg)) s g) :
    Program.Meets (protocol t) p (Replied t p c b Y) (.done (some (refuse msg))) s g := by
  refine replies (o := .refused msg) trivial (fun _ _ _ _ same => (nomatch same)) ?_ lasts alone
  rw [Responses.refuse_frame]

theorem succeeds (o : Outcome) (kind : o.Of c.no) (success : o.status = Protocol.status.SUCCESS) (leaves : Leaves c o F)
    (lasts : Lasting t (Y o)) (alone : Alone t p [] F D b (Y o) s g) :
    Program.Meets (protocol t) p (Replied t p c b Y) (.done (some (succeed o.payload))) s g := by
  refine replies kind leaves ?_ lasts alone
  rw [Responses.succeed_frame o success]

theorem alone_outline {α : Type} {program : Prog α} {Q : α → Site → Ghost → Prop} {H' : List (Ino × LockKind)}
    {F' : List Fact}
    (outline : Outline t p (fun s g => Session t p D H F s.world g ∧ E s g) program fun r s g =>
      (∃ D', Session t p D' H' F' s.world g) ∧ Q r s g)
    (silent : Keeps Silent program) (lasts : Lasting t E) :
    Outline t p (Alone t p H F D b E) program fun r s g =>
      ∃ D', Alone t p H' F' D' b (fun s g => Q r s g ∧ E s g) s g := by
  refine ((((has_beside b).and (Beside.of_lasting lasts)).frame outline silent).pre ?_).mono ?_
  · exact fun s g _ alone => ⟨⟨alone.session, alone.known⟩, alone.has, alone.known⟩
  · rintro r s g _ ⟨⟨⟨D', session⟩, told⟩, has, known⟩
    exact ⟨D', session, has, told, known⟩

theorem getId_silent (id : Bytes) : Keeps Silent (Volume.getId id) := by
  apply (byId_silent id).bind
  intro found _
  cases found with
  | error e => exact Program.Within.done trivial
  | ok object => exact byId_silent id

end Replies

/-! ## Downloads and details -/

section Lookups
variable {libc : Libc}

def content (libc : Libc) (data : Bytes) : Outcome :=
  if data = [] then .refused (libc.strerror EINVAL) else .content data

def Opened (C : Site → Ghost → Prop) (name id data : Bytes) (size : Nat) (i : Ino) (s : Site) (g : Ghost) : Prop :=
  C s g ∨ ((name, id, data) ∈ s.world.stored ∧ size = data.length) ∧ Settled .data id i data s.world g

theorem Excuse.opened (excuse : Excuse t id C) (fresh : t.fresh) (name data : Bytes) (size : Nat) (i : Ino) :
    Lasting t (Opened C name id data size i) :=
  excuse.lasts.or (((stored_lasts (name, id, data)).and (Program.lasting_pure _)).and
    (settled_lasts fresh (by decide)))

theorem stored_small (inv : Inv t s g) (stored : (name, id, data) ∈ s.world.stored) : data.length < 4294967296 := by
  have fits := (inv.fits name id data stored).2.2
  rw [Session.Command.body_length] at fits
  dsimp only at fits
  omega

theorem openData_outline (fresh : t.fresh) (plain : PlainName id) (excuse : Excuse t id C) {size : Nat} :
    Outline t p (Alone t p [] F D b (Sized C name id data (.ok size : Except Error Nat)))
      (Sys.openFile (DATA_DIR ++ id) Flstream.RDONLY) fun r s g =>
        (r = .error ENOENT ∧ Alone t p [] F D b C s g) ∨ ∃ fd i, r = .ok fd ∧
          Alone t p [] (.role i .data id :: F) (Function.update D fd (some ⟨p, some i, Flstream.RDONLY, 0⟩)) b
            (Opened C name id data size i) s g := by
  have sized := excuse.sized name data (.ok size : Except Error Nat)
  have opens : Outline t p (fun s g => Session t p D [] F s.world g ∧ _) (Sys.openFile (DATA_DIR ++ id) Flstream.RDONLY)
      _ :=
    openFile_outline .data (Names.of_plain plain) rfl rfl sized excuse.lasts (excuse.opened fresh name data size) ?_ ?_
  · refine (((has_beside b).frame opens (silent_issue trivial)).pre ?_).mono ?_
    · exact fun s g _ alone => ⟨⟨alone.session, alone.known⟩, alone.has⟩
    · rintro r s g _ ⟨⟨rfl, session, excused⟩ | ⟨fd, i, rfl, _, session, opened⟩, has⟩
      · exact Or.inl ⟨rfl, session, has, excused⟩
      · exact Or.inr ⟨fd, i, rfl, session, has, opened⟩
  · rintro s g inv sized nothing
    refine sized.elim (fun excused => excused) fun told => ?_
    rcases inv.settled fresh told.1 .data data (Or.inr ⟨rfl, rfl⟩) with begun | ⟨i, file, _⟩
    · exact excuse.begun s g begun
    · rw [nothing] at file
      cases file
  · rintro s g i inv sized file
    rcases sized with excused | ⟨stored, same⟩
    · exact Or.inl excused
    · rcases inv.settled fresh stored .data data (Or.inr ⟨rfl, rfl⟩) with begun | ⟨j, there, settled⟩
      · exact Or.inl (excuse.begun s g begun)
      · cases there.symm.trans file
        exact Or.inr ⟨⟨stored, Except.ok.inj same⟩, settled⟩

theorem getFile_outline (fresh : t.fresh) (plain : PlainName id) (excuse : Excuse t id C) :
    Outline t p (Alone t p [] F D b (Known C name id data)) (getFile libc id)
      (Replied t p (.get id) b fun o s g => C s g ∨ o = content libc data) := by
  have told : ∀ o, Lasting t fun s g => C s g ∨ o = content libc data :=
    fun o => excuse.lasts.or (Program.lasting_pure _)
  apply (alone_outline (getId_outline fresh plain excuse) (getId_silent id) (excuse.known name data)).bind
  rintro r s g inv ⟨D', alone⟩
  cases r with
  | error e => exact refuses _ (told _) (alone.imp fun both => Or.inl (both.1.found.resolve_right (by simp)))
  | ok object =>
      obtain ⟨own, path⟩ := alone.known.1.carries object rfl
      apply Program.meets_bind (details_outline fresh plain excuse own s g inv (alone.imp And.right))
      rintro r s g inv alone
      cases r with
      | error e => exact refuses _ (told _) (alone.imp fun sized => Or.inl (sized.resolve_right (by simp)))
      | ok size =>
          dsimp only
          rw [path]
          apply Program.meets_bind (openData_outline fresh plain excuse s g inv alone)
          rintro r s g inv (⟨rfl, alone⟩ | ⟨fd, i, rfl, alone⟩)
          · exact refuses _ (told _) (alone.imp Or.inl)
          · have opened := excuse.opened fresh name data size i
            refine Program.meets_bind (mmap_outline (Function.update_self ..) rfl rfl opened s g inv alone) ?_
            rintro r s g inv (⟨empty, rfl, alone⟩ | ⟨m, some, rfl, alone⟩)
            · refine refuses _ (told _) (alone.imp fun known => known.imp_right ?_)
              rintro ⟨⟨stored, rfl⟩, _⟩
              rw [Nat.mod_eq_of_lt (stored_small inv stored)] at empty
              rw [content, if_pos (List.length_eq_zero_iff.mp empty)]
            · have text : ∀ s g, Inv t s g → Opened C name id data size i s g →
                  C s g ∨ s.world.data i = data ∧ size % 4294967296 = data.length := by
                rintro s g inv (excused | ⟨⟨stored, rfl⟩, settled⟩)
                · exact Or.inl excused
                · exact Or.inr ⟨settled.data, Nat.mod_eq_of_lt (stored_small inv stored)⟩
              apply Program.meets_bind (sendFile_outline (Function.update_self ..) rfl rfl opened excuse.lasts text
                s g inv alone)
              rintro _ s g inv ⟨rfl, bytes, sized, alone⟩
              refine replies (o := .content bytes) rfl (fun _ _ _ _ same => (nomatch same)) ?_ (told _)
                (alone.imp fun known => known.imp_right ?_)
              · exact List.append_nil _
              · rintro rfl
                rw [content, if_neg fun none => some (sized.symm.trans (congrArg List.length none))]

theorem descFile_outline (fresh : t.fresh) (plain : PlainName id) (excuse : Excuse t id C) :
    Outline t p (Alone t p [] F D b (Known C name id data)) (descFile libc id)
      (Replied t p (.desc id) b fun o s g => C s g ∨ o = .described name data.length) := by
  have told : ∀ o : Outcome, Lasting t fun s g => C s g ∨ o = .described name data.length :=
    fun o => excuse.lasts.or (Program.lasting_pure _)
  apply (alone_outline (getId_outline fresh plain excuse) (getId_silent id) (excuse.known name data)).bind
  rintro r s g inv ⟨D', alone⟩
  cases r with
  | error e => exact refuses _ (told _) (alone.imp fun both => Or.inl (both.1.found.resolve_right (by simp)))
  | ok object =>
      have own := (alone.known.1.carries object rfl).1
      apply Program.meets_bind (details_outline fresh plain excuse own s g inv (alone.imp And.right))
      rintro r s g inv alone
      cases r with
      | error e => exact refuses _ (told _) (alone.imp fun sized => Or.inl (sized.resolve_right (by simp)))
      | ok size =>
          have sized := excuse.sized name data (.ok size : Except Error Nat)
          refine Program.meets_bind (alone_outline ((getId_outline fresh plain excuse).pre fun s g _ here =>
            ⟨here.1, here.2.imp_right And.left⟩) (getId_silent id) sized s g inv alone) ?_
          rintro r s g inv ⟨D'', alone⟩
          cases r with
          | error e =>
              exact refuses _ (told _) (alone.imp fun both => Or.inl (both.1.found.resolve_right (by simp)))
          | ok object =>
              refine succeeds (.described object.name size) rfl rfl (fun _ _ _ _ same => (nomatch same)) (told _)
                (alone.imp fun both => ?_)
              rcases both.1.found with excused | same
              · exact Or.inl excused
              · refine both.2.imp_right fun sized => ?_
                rw [Except.ok.inj same, Except.ok.inj sized.2]

theorem gone_outline (fresh : t.fresh) (plain : PlainName id) {c : Command}
    {next : Object → Prog (Option Reply)} {program : Prog (Option Reply)}
    (asks : program = (Volume.getId id).bind fun found => match found with
      | .error e => return some (refuse (e.msg.cstring libc))
      | .ok object => next object) :
    Outline t p (Alone t p [] F D b fun s g => Gone s.world g id) program
      (Replied t p c b fun o _ _ => o = Service.missing libc) := by
  subst asks
  have looks : Outline t p (fun s g => Session t p D [] F s.world g ∧ Gone s.world g id) (Volume.getId id)
      fun r s g => (∃ D', Session t p D' [] F s.world g) ∧ r = .error (.ofErrno ENOENT) :=
    (getId_gone fresh plain).mono fun r s g _ here => ⟨⟨D, here.2.1⟩, here.1⟩
  apply (alone_outline looks (getId_silent id) (gone_lasts fresh id)).bind
  rintro r s g inv ⟨D', alone⟩
  obtain ⟨rfl, _⟩ := alone.known
  exact refuses _ (Program.lasting_pure _) (alone.imp fun _ => rfl)

end Lookups

/-! ## Lists, removals and uploads -/

section Others
variable {libc : Libc} {past : List (Bytes × Bytes × Bytes)}

def Since (past : List (Bytes × Bytes × Bytes)) (s : Site) : Prop := ∀ e ∈ past, e ∈ s.world.stored

theorem since_lasts (past : List (Bytes × Bytes × Bytes)) : Lasting t fun s _ => Since past s :=
  Program.Lasting.all fun e => Program.Lasting.all fun _ => stored_lasts e

/-- The response lists the files that had been stored, up to those whose removal has begun. -/
def Lists (t : Terms) (past : List (Bytes × Bytes × Bytes)) (name : Bytes) (o : Outcome) (s : Site) : Prop :=
  t.strict → ∀ id data, (name, id, data) ∈ past → id ∈ s.world.begun ∨ ∃ ids, o = .listed ids ∧ id ∈ ids

theorem lists_lasts (o : Outcome) : Lasting t fun s _ => Lists t past name o s := by
  intro q s g s' g' _ _ guar lists strict id data member
  exact (lists strict id data member).imp_left (guar.volume.begun id)

theorem listFiles_outline (plain : PlainName name) :
    Outline t p (Alone t p [] [] D b fun s _ => Since past s) (listFiles libc name)
      (Replied t p (.list name) b fun o s _ => Lists t past name o s) := by
  apply (alone_outline (byName_outline plain) (byName_silent name) (since_lasts past)).bind
  rintro r s g inv ⟨D', alone⟩
  obtain ⟨⟨ids, lines, none, covers⟩, _⟩ := alone.known
  cases r with
  | error e =>
      refine refuses _ (lists_lasts _) (alone.imp fun _ strict id data member => Or.inl ?_)
      exact (covers strict id data member).resolve_right (by simp [none e rfl])
  | ok found =>
      refine succeeds (.listed found) rfl rfl (fun _ _ _ _ same => (nomatch same)) (lists_lasts _)
        (alone.imp fun _ strict id data member => ?_)
      exact (covers strict id data member).imp_right fun listed => ⟨found, rfl, lines found rfl ▸ listed⟩

theorem delFile_outline (fresh : t.fresh) (plain : PlainName id) (lasts : Lasting t C) :
    Outline t p (Alone t p [] [.begun id] D b (Known C name id data)) (delFile libc id)
      (Replied t p (.del id) b fun o s g => C s g ∨ (o = .deleted → Gone s.world g id)) := by
  have told : ∀ o : Outcome, Lasting t fun s g => C s g ∨ (o = .deleted → Gone s.world g id) :=
    fun o => lasts.or (Program.Lasting.all fun _ => gone_lasts fresh id)
  refine ((removal_outline fresh plain lasts (has_beside b)).pre fun s g _ alone =>
    ⟨alone.session, alone.known, alone.has⟩).bind ?_
  rintro r s g inv ⟨⟨D', session⟩, ⟨ends, numbered⟩, gone, has⟩
  cases r with
  | none => exact absurd rfl ends
  | some removed =>
      cases removed with
      | error e =>
          dsimp only
          rw [(numbered e rfl).read]
          exact refuses _ (told _) ⟨session, has, Or.inr fun same => (nomatch same)⟩
      | ok u =>
          refine succeeds .deleted rfl rfl (fun _ _ _ _ same => (nomatch same)) (told _) ⟨session, has, ?_⟩
          exact gone.imp_right fun gone _ => gone u rfl

theorem delFile_gone (fresh : t.fresh) (plain : PlainName id) :
    Outline t p (Alone t p [] F D b fun s g => Gone s.world g id) (delFile libc id)
      (Replied t p (.del id) b fun o _ _ => o = Service.missing libc) := by
  have looks : Outline t p (fun s g => Session t p D [] F s.world g ∧ Gone s.world g id) (byId id)
      fun r s g => (∃ D', Session t p D' [] F s.world g) ∧ r = .error (.ofErrno ENOENT) :=
    (byId_gone fresh plain).mono fun r s g _ here => ⟨⟨D, here.2.1⟩, here.1⟩
  have missing : Lasting t fun _ _ => (Outcome.refused (libc.strerror ENOENT)) = Service.missing libc :=
    Program.lasting_pure _
  have removes : Outline t p (Alone t p [] F D b fun s g => Gone s.world g id) (Volume.remove id)
      fun r s g => r = some (.error (.ofErrno ENOENT)) ∧ ∃ D', Alone t p [] F D' b (fun _ _ =>
        (Outcome.refused (libc.strerror ENOENT)) = Service.missing libc) s g := by
    apply (alone_outline looks (byId_silent id) (gone_lasts fresh id)).bind
    rintro r s g inv ⟨D', alone⟩
    obtain ⟨rfl, _⟩ := alone.known
    exact Program.meets_done (alone_stable missing) (fun _ _ _ later => ⟨rfl, D', later⟩) (alone.imp fun _ => rfl)
  apply removes.bind
  rintro _ s g inv ⟨rfl, D', alone⟩
  exact refuses _ missing alone

theorem putFile_outline (plain : PlainName name) :
    Outline t p (Alone t p [] [] D b fun s _ => Since past s) (putFile libc name data)
      (Replied t p (.put name data) b fun o _ _ => ∀ id, o = .stored id → t.fresh → ∀ e ∈ past, e.2.1 ≠ id) := by
  have stores : Outline t p (Alone t p [] [] D b fun s _ => Since past s) (Volume.store name data)
      fun r s g => Processes.Stored t p name data r s.world g ∧ Has p b s g ∧ Since past s :=
    (lift (Processes.store_outline data plain) (store_silent name data)
      ((has_beside b).and (Beside.of_lasting (since_lasts past)))).pre
        fun _ _ _ alone => ⟨alone.session, alone.has, alone.known⟩
  apply stores.bind
  rintro r s g inv ⟨stored, has, since⟩
  cases r with
  | error e =>
      obtain ⟨D', session⟩ := stored
      exact refuses _ (Program.lasting_pure _) ⟨session, has, fun _ same => (nomatch same)⟩
  | ok id =>
      obtain ⟨D', i, j, session⟩ := stored
      dsimp only
      rw [Responses.stored_reply]
      refine succeeds (.stored id) rfl rfl ?_ (Program.lasting_pure _) ⟨session, has, ?_⟩
      · rintro _ _ _ ⟨⟩ ⟨⟩
        exact ⟨i, j, rfl⟩
      · rintro _ ⟨⟩ fresh ⟨n, x, bytes⟩ member rfl
        -- what has been stored is nobody's work any more
        have mine : Fact.Mine p s.world g x := session.facts (.mine x) (by simp [Processes.storing]) fresh
        have ended := (inv.volume.stored n x bytes (since _ member)).ended fresh
        rw [mine.1] at ended
        cases ended

end Others

end Sfsdb.Parallel

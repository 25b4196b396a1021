import Sfsdb.Answers
import Sfsdb.Cutoff
import Sfsdb.Recovery

/-!
A server with all its children. `con_handler` of every child takes on one whole
request after the other, and its steps are those of all the others in between. A
response that has been written is one of the request's kind, and what it says is
right about everything that had been answered before the request came in, as far as
no removal of the same id has begun in the meantime.
-/

namespace Sfsdb.Parallel

open Posix Storage Protocol
open Processes (World Ghost Terms Session Fact)
open Session (Command)
open Responses (Outcome)

/-! ## Passes of the children -/

/-- One pass of the loop in `con_handler`: the call that has come in, what was in
the memory before, and the site as it was when the call came in. -/
structure Job where
  command : Command
  stale : Nat
  behind : Mem
  past : Site

def operation : Command → Processes.Op
  | .get id | .desc id => .getId id
  | .put name file => .store name file
  | .del id => .remove id
  | .list name => .getName name

/-- A whole request has come in, and whatever behind it; a removal counts from here on. -/
def Receives (p : Pid) (job : Job) (s s' : Site) : Prop :=
  job.past = s ∧ job.command.Valid ∧ (operation job.command).Plain ∧ ∃ rest, s' = { s with
    world := Processes.begin (operation job.command)
      { s.world with kernel := s.kernel.hears p (job.command.frame ++ rest) } }

/-- What counts once the response has gone out: a store, and the removal of what had been stored. -/
def Site.answered (s past : Site) (c : Command) (o : Outcome) : Site :=
  match c, o with
  | .put name file, .stored id => { s with world := { s.world with stored := (name, id, file) :: s.world.stored } }
  | .del id, .deleted =>
      if past.world.stored.any fun e => e.2.1 = id then { s with removed := id :: s.removed } else s
  | _, _ => s

/-- The response of the pass has been written, and nothing else. -/
def Wrote (p : Pid) (job : Job) (o : Outcome) (s : Site) : Prop :=
  o.Of job.command.no ∧ s.kernel.sent p = job.past.kernel.sent p ++ o.frame

abbrev Turn := Unit ⊕ Unit × Server.End

def crew (libc : Libc) : Program.Crew Call Resp Pid Job Turn Site where
  program job := Server.conPass libc job.stale (Server.serveRequest libc job.behind) ()
  starts := Receives
  stops p job turn s s' := turn = .inl () ∧ ∃ o, Wrote p job o s ∧ s' = s.answered job.past job.command o

abbrev Config := Program.Config Call Resp Pid Job Turn Site

def initial (source : Nat → Bytes) : Config := ⟨⟨⟨Volume.initKernel source, [], []⟩, []⟩, fun _ => none⟩

/-- What any order of steps makes of a new volume. -/
def Reached (t : Terms) (libc : Libc) (source : Nat → Bytes) (c : Config) : Prop :=
  Program.Crew.Reaches (crew libc) (Calls t) (initial source) c

/-! ## What is right -/

section Right
variable (t : Terms) (libc : Libc) (past now : Site)

/-- The answer of a request for an id: what had been removed is missing, and what had been stored is found. -/
def Sought (id : Bytes) (value : Bytes → Bytes → Outcome) (o : Outcome) : Prop :=
  (id ∈ past.removed → o = Service.missing libc) ∧
    ∀ name data, (name, id, data) ∈ past.world.stored → id ∈ now.world.begun ∨ o = value name data

def Right : Command → Outcome → Prop
  | .get id, o => Sought libc past now id (fun _ data => content libc data) o
  | .desc id, o => Sought libc past now id (fun name data => .described name data.length) o
  | .del id, o => id ∈ past.removed → o = Service.missing libc
  | .list name, o => Lists t past.world.stored name o now
  | .put _ _, o => ∀ id, o = .stored id → ∀ e ∈ past.world.stored, e.2.1 ≠ id

def Clears (c : Command) (o : Outcome) (g : Ghost) : Prop :=
  ∀ id, c = .del id → o = .deleted → (∃ e ∈ past.world.stored, e.2.1 = id) →
    Gone now.world g id ∧ id ∈ now.world.begun

def Told (c : Command) (o : Outcome) (g : Ghost) : Prop := Right t libc past now c o ∧ Clears past now c o g

end Right

variable {t : Terms} {libc : Libc} {p : Pid} {s past : Site} {g : Ghost} {D : Fd → Option Description}
  {F : List Fact} {name id data : Bytes} {b : Belongings} {c : Command} {o : Outcome}

theorem Sought.later {s' : Site} {value : Bytes → Bytes → Outcome} (sought : Sought libc past s id value o)
    (begun : ∀ x ∈ s.world.begun, x ∈ s'.world.begun) : Sought libc past s' id value o :=
  ⟨sought.1, fun name data member => (sought.2 name data member).imp_left (begun id)⟩

theorem right_lasts (o : Outcome) : Lasting t fun s _ => Right t libc past s c o := by
  intro q s g s' g' before after guar right
  cases c with
  | get id | desc id => exact Sought.later right guar.volume.begun
  | list name => exact lists_lasts o q s g s' g' before after guar right
  | put name file => exact right
  | del id => exact right

theorem clears_lasts (fresh : t.fresh) (o : Outcome) : Lasting t fun s g => Clears past s c o g :=
  Program.Lasting.all fun id => Program.Lasting.all fun _ => Program.Lasting.all fun _ =>
    Program.Lasting.all fun _ => (gone_lasts fresh id).and (begun_lasts id)

theorem told_lasts (fresh : t.fresh) (o : Outcome) : Lasting t fun s g => Told t libc past s c o g :=
  (right_lasts o).and (clears_lasts fresh o)

def After (past s : Site) : Prop := Since past.world.stored s ∧ ∀ id ∈ past.removed, id ∈ s.removed

theorem after_lasts (past : Site) : Lasting t fun s _ => After past s :=
  (since_lasts past.world.stored).and
    (Program.Lasting.all fun id => Program.Lasting.all fun _ => removed_lasts id)

/-! ## The calls -/

theorem stored_unique {name' data' : Bytes} (inv : Inv t s g) (fresh : t.fresh)
    (first : (name, id, data) ∈ s.world.stored) (second : (name', id, data') ∈ s.world.stored) :
    id ∈ s.world.begun ∨ name = name' ∧ data = data' := by
  rcases (inv.volume.stored name id data first).there fresh with begun | ⟨recorded, held⟩
  · exact Or.inl begun
  · refine ((inv.volume.stored name' id data' second).there fresh).imp_right ?_
    rintro ⟨recorded', held'⟩
    rw [recorded, Option.some.injEq] at recorded'
    rw [held, Option.some.injEq] at held'
    exact ⟨List.append_cancel_right recorded', held'⟩

section Calls
variable {program : Prog (Option Handlers.Reply)} {value : Bytes → Bytes → Outcome}

theorem sought_outline (fresh : t.fresh)
    (gone : Outline t p (Alone t p [] F D b fun s g => Gone s.world g id) program
      (Replied t p c b fun o _ _ => o = Service.missing libc))
    (known : ∀ C name data, Excuse t id C → Outline t p (Alone t p [] F D b (Known C name id data)) program
      (Replied t p c b fun o s g => C s g ∨ o = value name data)) :
    Outline t p (Alone t p [] F D b fun s _ => After past s) program
      (Replied t p c b fun o s _ => Sought libc past s id value o) := by
  -- A request for an id, from what it comes to where the file is gone and where it has been stored.
  intro s g inv alone
  by_cases removed : id ∈ past.removed
  · obtain ⟨nothing, begun⟩ := inv.gone fresh id (alone.known.2 id removed)
    refine Program.meets_mono ((gone.beside (begun_lasts id)) s g inv ⟨alone.imp fun _ => nothing, begun⟩) ?_
    rintro r s g _ ⟨replied, begun⟩
    exact replied.weaken fun o missing => ⟨fun _ => missing, fun _ _ _ => Or.inl begun⟩
  · by_cases stored : ∃ name data, (name, id, data) ∈ past.world.stored
    · obtain ⟨name, data, member⟩ := stored
      have excuse : Excuse t id fun s _ => id ∈ s.world.begun := ⟨begun_lasts id, fun _ _ => fun begun => begun⟩
      refine Program.meets_mono (((known _ name data excuse).beside (after_lasts past)) s g inv
        ⟨alone.imp fun since => Or.inr (since.1 _ member), alone.known⟩) ?_
      rintro r s g inv ⟨replied, since⟩
      refine replied.weaken fun o told => ⟨fun gone => absurd gone removed, fun name' data' member' => ?_⟩
      rcases told with begun | rfl
      · exact Or.inl begun
      · refine (stored_unique inv fresh (since.1 _ member) (since.1 _ member')).imp_right ?_
        rintro ⟨rfl, rfl⟩
        rfl
    · have excuse : Excuse t id fun _ _ => True := ⟨Program.lasting_pure True, fun _ _ _ => trivial⟩
      refine Program.meets_mono (known _ [] [] excuse s g inv (alone.imp fun _ => Or.inl trivial)) ?_
      rintro r s g _ replied
      exact replied.weaken fun o _ =>
        ⟨fun gone => absurd gone removed, fun name data member => absurd ⟨name, data, member⟩ stored⟩

theorem removed_outline (fresh : t.fresh) (plain : PlainName id) :
    Outline t p (Alone t p [] [.begun id] D b fun s _ => After past s) (Handlers.delFile libc id)
      (Replied t p (.del id) b fun o s g => Told t libc past s (.del id) o g) := by
  intro s g inv alone
  have begun : id ∈ s.world.begun := alone.session.facts _ List.mem_cons_self
  have right : ∀ o s g, (id ∈ past.removed → o = Service.missing libc) → id ∈ s.world.begun →
      (o = .deleted → (∃ e ∈ past.world.stored, e.2.1 = id) → Gone s.world g id) →
      Told t libc past s (.del id) o g := by
    intro o s g missing begun gone
    refine ⟨missing, ?_⟩
    rintro _ ⟨⟩ deleted stored
    exact ⟨gone deleted stored, begun⟩
  by_cases removed : id ∈ past.removed
  · have nothing := (inv.gone fresh id (alone.known.2 id removed)).1
    refine Program.meets_mono (((delFile_gone fresh plain).beside (begun_lasts id)) s g inv
      ⟨alone.imp fun _ => nothing, begun⟩) ?_
    rintro r s g _ ⟨replied, begun⟩
    refine replied.weaken fun o missing => right o s g (fun _ => missing) begun ?_
    rintro deleted
    rw [missing] at deleted
    cases deleted
  · by_cases stored : ∃ e ∈ past.world.stored, e.2.1 = id
    · obtain ⟨⟨name, x, data⟩, member, same⟩ := stored
      obtain rfl : id = x := same.symm
      have known : Outline t p (Alone t p [] [.begun id] D b (Known (fun _ _ => False) name id data))
          (Handlers.delFile libc id) _ := delFile_outline fresh plain (Program.lasting_pure False)
      refine Program.meets_mono ((known.beside (begun_lasts id)) s g inv
        ⟨alone.imp fun since => Or.inr (since.1 _ member), begun⟩) ?_
      rintro r s g _ ⟨replied, begun⟩
      exact replied.weaken fun o told => right o s g (fun gone => absurd gone removed) begun
        fun deleted _ => (told.resolve_left fun never => never) deleted
    · have unknown : Outline t p (Alone t p [] [.begun id] D b (Known (fun _ _ => True) [] id []))
          (Handlers.delFile libc id) _ := delFile_outline fresh plain (Program.lasting_pure True)
      refine Program.meets_mono ((unknown.beside (begun_lasts id)) s g inv
        ⟨alone.imp fun _ => Or.inl trivial, begun⟩) ?_
      rintro r s g _ ⟨replied, begun⟩
      exact replied.weaken fun o _ => right o s g (fun gone => absurd gone removed) begun
        fun _ listed => absurd listed stored

theorem served_outline (fresh : t.fresh) (plain : (operation c).Plain) :
    Outline t p (Alone t p [] (Processes.starting (operation c)) D b fun s _ => After past s) (c.served libc)
      (Replied t p c b fun o s g => Told t libc past s c o g) := by
  have others : ∀ {c : Command} {reply : Option Handlers.Reply} {s : Site} {g : Ghost},
      (∀ id, c ≠ .del id) → Replied t p c b (fun o s _ => Right t libc past s c o) reply s g →
      Replied t p c b (fun o s g => Told t libc past s c o g) reply s g :=
    fun keeps replied => replied.weaken fun o right => ⟨right, fun id same => absurd same (keeps id)⟩
  cases c with
  | get id =>
      exact (sought_outline fresh (gone_outline fresh plain rfl)
        fun C name data excuse => getFile_outline fresh plain excuse).mono fun _ _ _ _ => others (by simp)
  | desc id =>
      exact (sought_outline fresh (gone_outline fresh plain rfl)
        fun C name data excuse => descFile_outline fresh plain excuse).mono fun _ _ _ _ => others (by simp)
  | list name =>
      refine ((listFiles_outline plain).pre fun s g _ alone => alone.imp And.left).mono ?_
      exact fun _ _ _ _ => others (by simp)
  | put name file =>
      refine ((putFile_outline plain.1).pre fun s g _ alone => alone.imp And.left).mono ?_
      exact fun _ _ _ _ replied => others (by simp) (replied.weaken fun o other id same => other id same fresh)
  | del id => exact removed_outline fresh plain

end Calls

/-! ## A pass -/

section Passes

/-- How a pass ends: its response is there and right, and the process is done with the volume. -/
def Passed (t : Terms) (libc : Libc) (p : Pid) (job : Job) (turn : Turn) (s : Site) (g : Ghost) : Prop :=
  (turn = .inl () ∧ job.command.Valid ∧ (operation job.command).Plain) ∧ ∃ o D F, Wrote p job o s ∧
    Leaves job.command o F ∧ Session t p D [] F s.world g ∧ Told t libc job.past s job.command o g

theorem respond_outline {job : Job} {reply : Handlers.Reply} (fresh : t.fresh)
    (takes : job.command.Valid ∧ (operation job.command).Plain) (kind : o.Of job.command.no)
    (leaves : Leaves job.command o F)
    (wrote : b.sent ++ Responses.toSend reply = job.past.kernel.sent p ++ o.frame) :
    Outline t p (Alone t p [] F D b fun s g => Told t libc job.past s job.command o g) (Server.respond reply)
      (Passed t libc p job) := by
  have lasts : Lasting t fun s g => Told t libc job.past s job.command o g := told_lasts fresh o
  have ends : ∀ b' : Belongings, b'.sent = job.past.kernel.sent p ++ o.frame → ∀ s g,
      Alone t p [] F D b' (fun s g => Told t libc job.past s job.command o g) s g →
      Program.Meets (protocol t) p (Passed t libc p job) (.done (.inl ())) s g := by
    intro b' sent s g alone
    refine Program.meets_done (alone_stable lasts) (fun s g _ later => ⟨⟨rfl, takes⟩, o, D, F, ⟨kind, ?_⟩, leaves,
      later.session, later.known⟩) alone
    rw [← sent]
    exact later.has.sent
  unfold Server.respond
  unfold Responses.toSend at wrote
  split
  · rename_i sends
    rw [if_pos sends] at wrote
    apply (send_outline reply.res lasts).bind
    rintro _ s g inv ⟨rfl, alone⟩
    exact ends _ wrote s g alone
  · rename_i keeps
    rw [if_neg keeps, List.append_nil] at wrote
    exact fun s g inv alone => ends b wrote s g alone

theorem pass_outline {job : Job} {rest : Bytes} (fresh : t.fresh) (valid : job.command.Valid)
    (plain : (operation job.command).Plain) :
    Outline t p (Alone t p [] (Processes.starting (operation job.command)) D
        ⟨job.command.frame ++ rest, job.past.kernel.sent p, []⟩ fun s _ => After job.past s)
      ((crew libc).program job) (Passed t libc p job) := by
  obtain ⟨next, same, behind⟩ := Framing.conPass_eq libc (Server.serveRequest libc job.behind) ()
    (Cutoff.header_length job.command.no job.command.body.length)
    (Cutoff.headerOf_header job.command.no job.command.body.length job.command.no_lt valid.sized)
  have since : Lasting t fun s _ => After job.past s := after_lasts job.past
  change Outline t p _ (Server.conPass libc job.stale (Server.serveRequest libc job.behind) ()) _
  rw [same]
  have split : job.command.frame ++ rest =
      (Types.header job.command.no job.command.body.length).toBytes ++ (job.command.body ++ rest) := by
    rw [Command.frame, List.append_assoc]
  apply Program.Triple.bind (recv_outline split (Cutoff.header_length _ _) since)
  rintro _ s g inv ⟨rfl, alone⟩
  rw [behind]
  have sized : job.command.body.length = (Types.header job.command.no job.command.body.length).length :=
    (Nat.mod_eq_of_lt valid.sized).symm
  apply Program.meets_bind (recv_outline rfl sized since s g inv alone)
  rintro _ s g inv ⟨rfl, alone⟩
  have understood := Session.understood libc job.behind job.command valid
  have asks : History.Request.Asks libc
      ⟨p, job.behind, Types.header job.command.no job.command.body.length, job.command.body⟩ job.command :=
    ⟨Nat.mod_eq_of_lt job.command.no_lt, understood.decoded⟩
  have serves := Service.serve_eq asks
  dsimp only [History.Request.serve] at serves ⊢
  rw [serves]
  apply Program.meets_bind (served_outline fresh plain s g inv alone)
  rintro _ s g inv ⟨reply, o, D', F', b', rfl, kind, wrote, leaves, alone⟩
  exact respond_outline fresh ⟨valid, plain⟩ kind leaves wrote s g inv alone

end Passes

/-! ## Any order of steps -/

theorem begin_keeps (op : Processes.Op) (w : World) :
    (Processes.begin op w).kernel = w.kernel ∧ (Processes.begin op w).stored = w.stored := by
  cases op <;> exact ⟨rfl, rfl⟩

theorem receives_step {job : Job} {s' : Site} (inv : Inv t s g) (idle : Processes.Idle t p s.world g)
    (receives : Receives p job s s') : Inv t s' g ∧ Guar t p s g s' g ∧ ∃ D rest,
      Alone t p [] (Processes.starting (operation job.command)) D
        ⟨job.command.frame ++ rest, job.past.kernel.sent p, []⟩ (fun s _ => After job.past s) s' g := by
  obtain ⟨past, _, _, rest, same⟩ := receives
  obtain ⟨D, session⟩ := idle
  have alike : Processes.Alike p s.kernel (s.kernel.hears p (job.command.frame ++ rest)) :=
    ⟨rfl, rfl, rfl, rfl, fun _ _ => rfl, inv.volume.fds⟩
  have heard := session_quiet session inv.volume alike
  have stepped := Processes.begin_step (p := p) (inv.volume.quiet alike).inv (operation job.command)
  obtain ⟨D', started⟩ := Processes.begin_session heard.idle (operation job.command)
  have guar : Processes.Guar t p s.world g (Processes.begin (operation job.command)
      (s.world.after (s.kernel.hears p (job.command.frame ++ rest)))) g := { stepped.guar with }
  -- what the new site has, whatever the operation is
  have world : s'.world = Processes.begin (operation job.command)
      (s.world.after (s.kernel.hears p (job.command.frame ++ rest))) := by rw [same]; rfl
  have removed : s'.removed = s.removed := by rw [same]
  obtain ⟨kernel, stored⟩ := begin_keeps (operation job.command)
    (s.world.after (s.kernel.hears p (job.command.frame ++ rest)))
  have inv' := stepped.inv
  rw [← world] at inv' guar started kernel stored
  have kernel : s'.kernel = s.kernel.hears p (job.command.frame ++ rest) := kernel
  have stored : s'.world.stored = s.world.stored := stored
  refine ⟨⟨inv', ?_, ?_, fun fresh id member => ?_⟩, ⟨guar, ?_, fun q other => ?_, fun q other => ?_,
    fun m mapping there _ => ?_, fun e member => ?_, fun id member => ?_⟩, D', rest, started, ⟨?_, ?_, by simp⟩,
    fun e member => ?_, fun id member => ?_⟩
  · rw [kernel]
    exact inv.maps
  · rw [stored]
    exact inv.fits
  · rw [removed] at member
    obtain ⟨gone, begun⟩ := inv.gone fresh id member
    exact ⟨gone.guar fresh guar, guar.begun id begun⟩
  · rw [kernel]
    exact Steady.refl _
  · rw [kernel]
    exact Function.update_of_ne other _ _
  · rw [kernel]
    rfl
  · rw [kernel]
    exact there
  · rwa [stored]
  · rwa [removed]
  · rw [kernel]
    exact Kernel.hears_inbox _
  · rw [kernel, past]
    rfl
  · rwa [stored, ← past]
  · rwa [removed, ← past]

theorem Wrote.frame_eq {job : Job} {o' : Outcome} (first : Wrote p job o s) (second : Wrote p job o' s) :
    o.frame = o'.frame :=
  List.append_cancel_left (first.2.symm.trans second.2)

theorem Wrote.stored {job : Job} (first : Wrote p job o s) (second : Wrote p job (.stored id) s) : o = .stored id := by
  have frames := first.frame_eq second
  have kind := first.1
  rw [show job.command.no = 2 from second.1] at kind
  cases o with
  | stored id' => rw [History.stored_frame frames]
  | refused msg =>
      exact absurd (History.frame_eq frames).1 (show Protocol.status.ERROR ≠ Protocol.status.SUCCESS by decide)
  | _ => cases kind

theorem Wrote.deleted {job : Job} (first : Wrote p job o s) (second : Wrote p job .deleted s) : o = .deleted := by
  have frames := first.frame_eq second
  have kind := first.1
  rw [show job.command.no = 4 from second.1] at kind
  cases o with
  | deleted => rfl
  | refused msg =>
      exact absurd (History.frame_eq frames).1 (show Protocol.status.ERROR ≠ Protocol.status.SUCCESS by decide)
  | _ => cases kind

theorem answered_step {job : Job} {turn : Turn} (inv : Inv t s g) (passed : Passed t libc p job turn s g)
    (wrote : Wrote p job o s) : ∃ g', Inv t (s.answered job.past job.command o) g' ∧
      Guar t p s g (s.answered job.past job.command o) g' ∧
      Processes.Idle t p (s.answered job.past job.command o).world g' := by
  -- What a response makes known keeps to the protocol.
  obtain ⟨⟨_, valid, plain⟩, o', D, F, wrote', leaves, session, told⟩ := passed
  unfold Site.answered
  split
  · rename_i name file id call
    rw [call] at valid plain
    obtain rfl := wrote'.stored wrote
    obtain ⟨i, j, rfl⟩ := leaves name file id call rfl
    have stepped := Processes.finish_step inv.volume session
    refine ⟨g.end id, ⟨stepped.inv, inv.maps, fun n x bytes member => ?_, fun fresh x member => ?_⟩,
      ⟨stepped.guar, Steady.refl _, fun _ _ => rfl, fun _ _ => rfl, fun _ _ here _ => here,
        fun e member => List.mem_cons_of_mem _ member, fun _ here => here⟩, D, session.descs, session.held, by simp⟩
    · rcases List.mem_cons.mp member with new | before
      · cases new
        exact ⟨plain.2, plain.1, valid.sized⟩
      · exact inv.fits n x bytes before
    · obtain ⟨gone, begun⟩ := inv.gone fresh x member
      exact ⟨gone.guar fresh stepped.guar, begun⟩
  · rename_i id call
    obtain rfl := wrote'.deleted wrote
    split
    · rename_i listed
      have listed : ∃ e ∈ job.past.world.stored, e.2.1 = id := by simpa using listed
      refine ⟨g, ⟨inv.volume, inv.maps, inv.fits, fun fresh x member => ?_⟩,
        { Guar.refl t p s g with removed := fun x member => List.mem_cons_of_mem _ member }, session.idle⟩
      rcases List.mem_cons.mp member with rfl | before
      · exact told.2 x call rfl listed
      · exact inv.gone fresh x before
    · exact ⟨g, inv, Guar.refl t p s g, session.idle⟩
  · exact ⟨g, inv, Guar.refl t p s g, session.idle⟩

theorem crew_sound (fresh : t.fresh) : Program.Crew.Sound (crew libc) (protocol t)
    (fun p s g => Processes.Idle t p s.world g) (Passed t libc) where
  stable p q s g s' g' other before after guar :=
    Processes.idle_stable q s.world g s'.world g' other before.volume after.volume guar.volume
  starts p job s g s' inv idle receives := by
    obtain ⟨kept, guar, D, rest, alone⟩ := receives_step inv idle receives
    exact ⟨g, kept, guar, pass_outline fresh receives.2.1 receives.2.2.1 s' g kept alone⟩
  stops p job turn s g s' inv passed := by
    rintro ⟨_, o, wrote, rfl⟩
    exact answered_step inv passed wrote

theorem initial_holds {source : Nat → Bytes} (fine : Processes.Fine source) :
    Program.Pool.Holds (protocol t) (fun p s g => Processes.Idle t p s.world g) (Passed t libc) (initial source)
      Processes.Ghost.new := by
  have volume := Processes.initial_holds (t := t) fine
  refine ⟨⟨volume.inv, fun _ _ => rfl, fun _ _ _ member => ?_, fun _ _ member => ?_⟩, fun p _ => ?_,
    fun p job program runs => ?_⟩
  · cases member
  · cases member
  · exact volume.idle p rfl
  · cases runs

/-! ## One after the other -/

section Sequences
variable {source : Nat → Bytes} {m : Volume.Map × Nat}

theorem runs_fresh {α : Type} {program : Prog α} {k k' : Kernel} {value : α} (run : Runs p program k value k')
    (distinct : ∀ m n, m < n → n < k'.drawn → k.source m ≠ k.source n) (begun : List Bytes)
    (stored : List (Bytes × Bytes × Bytes)) (removed : List Bytes) :
    Program.Runs (Calls Processes.freshRun p) program ⟨⟨k, begun, stored⟩, removed⟩ value
      ⟨⟨k', begun, stored⟩, removed⟩ := by
  induction run with
  | done => exact Program.Runs.done
  | @call c next r v k₁ k₂ k' step rest ih =>
      have answered : k₁.exec p c = some (r, k₂) := step
      have going : Program.Runs (Kernel.MayDo p) (next r) k₂ v k' := rest.mono fun _ _ _ _ does => Or.inl does
      have upto : k₂.drawn ≤ k'.drawn := Recovery.reaches_drawn (Program.Reaches.of_runs going)
      have allowed : Processes.Allowed Processes.freshRun p c k₁ := by
        unfold Processes.Allowed
        split
        · exact False.elim
        · cases answered
          exact fun _ n before => distinct n k₁.drawn before upto
        · trivial
      have moves : Calls Processes.freshRun p c ⟨⟨k₁, begun, stored⟩, removed⟩ r ⟨⟨k₂, begun, stored⟩, removed⟩ :=
        ⟨⟨allowed, k₂, step, rfl⟩, rfl⟩
      exact Program.Runs.call moves (ih (Kernel.exec_source answered ▸ distinct))
  | loop _ ih => exact Program.Runs.loop (ih distinct)

/-- A child that is left alone while it serves a request answers as the map does. -/
theorem Reached.pass {c : Config} {call : Command} (reached : Reached Processes.freshRun libc source c)
    (free : c.procs p = none) (holds : Service.Holds c.state.kernel m)
    (admissible : Service.Admissible libc c.state.kernel.source call m) (plain : (operation call).Plain)
    (distinct : ∀ i j, i < j → j < (Service.apply c.state.kernel.source call m).2 →
      c.state.kernel.source i ≠ c.state.kernel.source j) (stale : Nat) (behind : Mem) :
    ∃ c', Reached Processes.freshRun libc source c' ∧
      c'.procs = Function.update c.procs p (some (⟨call, stale, behind, c.state⟩, .done (.inl ()))) ∧
      Wrote p ⟨call, stale, behind, c.state⟩ (Service.outcome libc c.state.kernel.source call m) c'.state ∧
      Service.Holds c'.state.kernel (Service.apply c.state.kernel.source call m) ∧
      c'.state.kernel.source = c.state.kernel.source := by
  have asks : History.Request.Asks libc ⟨p, behind, Types.header call.no call.body.length, call.body⟩ call :=
    ⟨Nat.mod_eq_of_lt call.no_lt, (Session.understood libc behind call admissible.valid).decoded⟩
  obtain ⟨k', served, wrote, holds', same⟩ := Service.serve_refines (holds.hears (p := p) []) admissible asks
  have run : Runs p ((crew libc).program ⟨call, stale, behind, c.state⟩) (c.state.kernel.hears p (call.frame ++ []))
      (.inl ()) k' := by
    refine Session.conPass_frame _ () (call.no, call.body) call.no_lt admissible.valid.sized
      (Kernel.hears_inbox (Session.framed (call.no, call.body) ++ [])) ?_
    rw [Kernel.hears_hears]
    exact served
  obtain ⟨begun, begins⟩ : ∃ begun, Processes.begin (operation call)
      { c.state.world with kernel := c.state.kernel.hears p (call.frame ++ []) } =
        ⟨c.state.kernel.hears p (call.frame ++ []), begun, c.state.world.stored⟩ := by
    cases operation call <;> exact ⟨_, rfl⟩
  have drawn : k'.drawn = (Service.apply c.state.kernel.source call m).2 := holds'.represents.drawn
  have ran := runs_fresh run (by rw [drawn]; exact distinct) begun c.state.world.stored c.state.removed
  let job : Job := ⟨call, stale, behind, c.state⟩
  have starts : Program.Crew.Moves (crew libc) (Calls Processes.freshRun) c _ :=
    Program.Crew.Moves.start free (show (crew libc).starts p job _ _ from ⟨rfl, admissible.valid, plain, [], rfl⟩)
  have runs : Program.Crew.Reaches (crew libc) (Calls Processes.freshRun) _ _ :=
    Program.Crew.Reaches.runs ran (Function.update_self p (some (job, (crew libc).program job)) c.procs)
  rw [begins] at starts
  rw [Function.update_idem] at runs
  exact ⟨_, (reached.step starts).trans runs, rfl, ⟨Service.outcome_of _ _ _ _, wrote⟩, holds', same⟩

end Sequences

/-- However the children of a server take turns, every request that one of them has
served is answered by one response, and the response is right about everything
that had been answered before. -/
theorem responses_are_right (t : Terms) (fresh : t.fresh) (libc : Libc) (source : Nat → Bytes)
    (fine : Processes.Fine source) (c : Config) (reached : Reached t libc source c) (p : Pid) (job : Job) (turn : Turn)
    (ended : c.procs p = some (job, .done turn)) :
    turn = .inl () ∧ ∃ o, Wrote p job o c.state ∧ Right t libc job.past c.state job.command o := by
  obtain ⟨g, holds⟩ := Program.Crew.Reaches.holds (P := protocol t) reached (crew_sound fresh) (initial_holds fine)
  obtain ⟨⟨back, _⟩, o, _, _, wrote, _, _, told⟩ :=
    Program.meets_closed.done turn c.state g holds.inv (holds.busy p job (.done turn) ended)
  exact ⟨back, o, wrote, told.1⟩

/-- An upload by one child, and behind it a download of what it stored by another one. -/
theorem responses_are_right_download : ∃ c job turn, Reached Processes.freshRun History.silent Volume.tick c ∧
    c.procs 2 = some (job, .done turn) ∧ job.command = .get (Volume.tick 0) ∧
    (ascii "a", Volume.tick 0, [7]) ∈ job.past.world.stored ∧ turn = .inl () ∧
    ∃ o, Wrote 2 job o c.state ∧ Right Processes.freshRun History.silent job.past c.state job.command o := by
  have format : ∀ n, Uid.Format (Volume.tick n) := fun n => Uid.get_format n 0 0 0 0 0 0
  have fine : Processes.Fine Volume.tick := fun n => ⟨(format n).plain, (format n).free SEPARATOR (by decide)⟩
  have start : Reached Processes.freshRun History.silent Volume.tick (initial Volume.tick) := Program.Crew.Reaches.refl
  have uploads : Service.Admissible History.silent Volume.tick (.put (ascii "a") [7]) ([], 0) := by
    refine ⟨by decide, ?_, by decide, by decide⟩
    rintro _ _ ⟨⟩
    exact ⟨by decide, format 0, rfl⟩
  have few : ∀ i j, i < j → j < 1 → Volume.tick i ≠ Volume.tick j := by
    intro i j before upto
    omega
  obtain ⟨c₁, first, procs, wrote, holds, source⟩ :=
    start.pass (p := 1) rfl (Service.initKernel_holds Volume.tick) uploads (by decide) few 0 fun _ => none
  let upload : Job := ⟨.put (ascii "a") [7], 0, fun _ => none, (initial Volume.tick).state⟩
  let s := c₁.state.answered upload.past upload.command (.stored (Volume.tick 0))
  have stops : (crew History.silent).stops 1 upload (.inl ()) c₁.state s := ⟨rfl, .stored (Volume.tick 0), wrote, rfl⟩
  have told : Reached Processes.freshRun History.silent Volume.tick ⟨s, Function.update c₁.procs 1 none⟩ :=
    first.step (Program.Crew.Moves.stop (by rw [procs, Function.update_self]) stops)
  have few₁ : ∀ i j, i < j → j < 1 → c₁.state.kernel.source i ≠ c₁.state.kernel.source j := by
    rw [source]
    exact few
  have asks : Service.Admissible History.silent c₁.state.kernel.source (.get (Volume.tick 0))
      ([⟨Volume.tick 0, ascii "a", [7]⟩], 1) :=
    ⟨(format 0).plain, fun _ _ same => (nomatch same), by decide,
      show (Outcome.content [7]).payload.length < 4294967296 by decide⟩
  have free : Function.update c₁.procs 1 none 2 = none := by
    rw [procs]
    rfl
  obtain ⟨c₂, second, procs, _⟩ := told.pass (p := 2) free holds asks (format 0).plain few₁ 0 fun _ => none
  have ended := congrFun procs 2
  rw [Function.update_self] at ended
  exact ⟨c₂, _, _, second, ended, rfl, List.mem_cons_self,
    responses_are_right _ trivial _ _ fine _ second 2 _ _ ended⟩

end Sfsdb.Parallel

import Sfsdb.Crew
import Sfsdb.Interleaving
import Sfsdb.Service

/-!
Where the children of a server work: the volume with what they keep to themselves,
their connections and their mappings, and beside it which deletions have been
answered. The protocol is that of the volume, and none of them touches what another
one keeps to itself; so everything that the outlines of the volume say holds here.
-/

namespace Sfsdb.Parallel

open Posix Storage
open Volume (Dir entry record Names)
open Processes (World Ghost Terms Session Fact Kept Drawn)
open Service (Keeps)

/-! ## Operations that talk to nobody -/

section Silence

def Silent : Call → Prop
  | .mmap _ _ | .load _ _ | .munmap _ | .send _ | .recv _ | .disconnect => False
  | _ => True

variable {α : Type}

theorem silent_issue {c : Call} (silent : Silent c) : Keeps Silent (Program.issue c) :=
  Program.within_issue silent fun _ _ => trivial

theorem stream_silent (fd : Option Fd) : Flstream.Readable Silent (fun _ _ => True) (fun _ => True) fd where
  read _ _ _ := trivial
  tell _ _ := trivial
  seek _ _ _ := trivial
  yields _ _ _ _ _ _ := trivial

theorem new_silent (path : Bytes) (mode : Flags) : Keeps Silent (Flstream.new path mode) := by
  apply (silent_issue (c := .open path mode) trivial).bind
  intro opened _
  cases opened with
  | error e => exact Program.Within.done trivial
  | ok fd => exact Program.Within.done trivial

theorem lock_silent (s : Flstream) (kind : LockKind) : Keeps Silent (s.lock kind) :=
  (Flstream.lock_within fun _ _ => trivial).mono fun _ _ => trivial

theorem close_silent (s : Flstream) : Keeps Silent s.close :=
  Flstream.close_within (fun _ _ => trivial) fun _ _ => trivial

theorem getline_silent (s : Flstream) (delim : Byte) : Keeps Silent (s.getline delim) :=
  (Flstream.getline_within (stream_silent s.fd) delim).mono fun _ _ => trivial

theorem getlines_silent (s : Flstream) (delim : Byte) : Keeps Silent (s.getlines delim) :=
  (Flstream.getlines_within (stream_silent s.fd) delim).mono fun _ _ => trivial

theorem write_silent (s : Flstream) (bytes : Bytes) : Keeps Silent (s.write bytes) := by
  unfold Flstream.write
  split
  · exact Program.Within.done trivial
  · rename_i fd _
    exact (silent_issue (c := .write fd bytes) trivial).bind fun _ _ => Program.Within.done trivial

theorem writeRecord_silent (s : Flstream) (text : Bytes) (delim : Byte) :
    Keeps Silent (s.writeRecord text delim) :=
  (write_silent s text).bind fun s _ => write_silent s [delim]

theorem rewrite_silent (id : Bytes) (ids : List Bytes) (empty : Bool) (s : Flstream) :
    Keeps Silent (rewrite id ids empty s) := by
  induction ids generalizing empty s with
  | nil => exact Program.Within.done trivial
  | cons fid rest ih =>
      unfold rewrite
      split
      · exact (writeRecord_silent s fid SEPARATOR).bind fun s _ => ih false s
      · exact ih empty s

theorem byName_silent (name : Bytes) : Keeps Silent (byName name) := by
  apply (new_silent _ _).bind
  intro s _
  dsimp only
  split
  · exact (close_silent s).bind fun _ _ => Program.Within.done trivial
  · apply (lock_silent s .read).bind
    intro s _
    apply (getlines_silent s SEPARATOR).bind
    intro lines _
    exact (close_silent lines.2).bind fun _ _ => Program.Within.done trivial

theorem byId_silent (id : Bytes) : Keeps Silent (byId id) := by
  apply (new_silent _ _).bind
  intro s _
  dsimp only
  split
  · exact (close_silent s).bind fun _ _ => Program.Within.done trivial
  · apply (lock_silent s .read).bind
    intro s _
    apply (getline_silent s SEPARATOR).bind
    intro line _
    exact (close_silent line.2.2).bind fun _ _ => Program.Within.done trivial

theorem create_silent (name : Bytes) : Keeps Silent (create name) := by
  apply (silent_issue (c := .draw) trivial).bind
  intro id _
  apply (new_silent _ _).bind
  intro nameFile _
  split
  · exact (close_silent nameFile).bind fun _ _ => Program.Within.done trivial
  · apply (lock_silent nameFile .write).bind
    intro nameFile _
    apply (new_silent _ _).bind
    intro idFile _
    split
    · apply (close_silent idFile).bind
      intro _ _
      exact (close_silent nameFile).bind fun _ _ => Program.Within.done trivial
    · apply (lock_silent idFile .write).bind
      intro idFile _
      apply (writeRecord_silent nameFile id SEPARATOR).bind
      intro nameFile _
      apply (close_silent nameFile).bind
      intro nameFile _
      apply (writeRecord_silent idFile name SEPARATOR).bind
      intro idFile _
      apply (new_silent _ _).bind
      intro dataFile _
      apply (close_silent dataFile).bind
      intro _ _
      apply (close_silent idFile).bind
      intro _ _
      exact (close_silent nameFile).bind fun _ _ => Program.Within.done trivial

theorem store_silent (name data : Bytes) : Keeps Silent (Volume.store name data) := by
  apply (create_silent name).bind
  intro created _
  cases created with
  | error e => exact Program.Within.done trivial
  | ok id =>
      apply (byId_silent id).bind
      intro found _
      cases found with
      | error e => exact Program.Within.done trivial
      | ok object =>
          have gets : Keeps Silent (object.get Flstream.WRONLY) := by
            apply (new_silent _ _).bind
            intro s _
            split
            · exact (close_silent s).bind fun _ _ => Program.Within.done trivial
            · exact Program.Within.done trivial
          apply gets.bind
          intro opened _
          cases opened with
          | error e => exact Program.Within.done trivial
          | ok stream =>
              apply (write_silent stream data).bind
              intro stream _
              exact (close_silent stream).bind fun _ _ => Program.Within.done trivial

def Spares (name : Bytes) : (c : Call) → Resp c → Prop
  | .«open» path mode, r => path = NAME_DIR ++ name → mode.write = true →
      (∃ y, Names name y) ∨ ∃ e, e ≠ 0 ∧ r = .error e
  | .remove path, r => path = NAME_DIR ++ name → (∃ y, Names name y) → ∃ there, r = .ok there
  | _, _ => True

theorem silent_spares {program : Prog α} (silent : Keeps Silent program) (name : Bytes) :
    Program.Within Silent (Spares name) (fun _ => True) program :=
  silent.imp (fun _ => id) fun _ _ _ => trivial

theorem truncate_silent (s : Flstream) (len : Nat) : Keeps Silent (s.truncate len) := by
  unfold Flstream.truncate
  split
  · exact Program.Within.done trivial
  · rename_i fd _
    exact (silent_issue (c := .ftruncate fd len) trivial).bind fun _ _ => Program.Within.done trivial

theorem unlist_spares (object : Object) :
    Program.Within Silent (Spares object.name) (fun r => r ≠ none) object.unlist := by
  have opens : Program.Within Silent (Spares object.name)
      (fun s => (∃ y, Names object.name y) ∨ ∃ e, e ≠ 0 ∧ s = ⟨none, e⟩)
      (Flstream.new (NAME_DIR ++ object.name) Flstream.RDWR) := by
    refine Program.Within.bind (T := fun r => (∃ y, Names object.name y) ∨ ∃ e, e ≠ 0 ∧ r = .error e)
      (Program.within_issue (c := Call.open (NAME_DIR ++ object.name) Flstream.RDWR) trivial
        fun r spares => spares rfl rfl) ?_
    rintro r known
    cases r with
    | error e =>
        refine Program.Within.done (known.imp_right ?_)
        rintro ⟨e', some, same⟩
        cases same
        exact ⟨e, some, rfl⟩
    | ok fd =>
        refine Program.Within.done (known.imp_right ?_)
        rintro ⟨_, _, same⟩
        cases same
  apply opens.bind
  intro nameFile named
  split
  · exact (silent_spares (close_silent nameFile) object.name).bind fun _ _ => Program.Within.done (by simp)
  · rename_i opened
    have names : ∃ y, Names object.name y := by
      refine named.resolve_right ?_
      rintro ⟨e, some, rfl⟩
      exact opened ((Flstream.fail_iff none e).mpr some)
    apply (silent_spares (lock_silent nameFile .write) object.name).bind
    intro nameFile _
    apply (silent_spares (getlines_silent nameFile SEPARATOR) object.name).bind
    intro lines _
    have seeks : Keeps Silent (lines.2.seek 0) := Flstream.seek_within (stream_silent lines.2.fd) 0
    apply (silent_spares seeks object.name).bind
    intro _ _
    apply (silent_spares (truncate_silent lines.2 0) object.name).bind
    intro _ _
    apply (silent_spares (rewrite_silent _ _ _ _) object.name).bind
    rintro ⟨empty, nameFile⟩ _
    dsimp only
    have closes : ∀ s : Flstream, Program.Within Silent (Spares object.name) (fun _ => True) s.close :=
      fun s => silent_spares (close_silent s) object.name
    split
    · refine Program.Within.bind (T := fun r => ∃ there, r = .ok there) (Program.within_issue
        (c := Call.remove (NAME_DIR ++ object.name)) trivial fun r spares => spares rfl names) ?_
      rintro _ ⟨_, rfl⟩
      exact (closes nameFile).bind fun again _ => (closes again).bind fun _ _ => Program.Within.done (by simp)
    · exact (closes nameFile).bind fun _ _ => Program.Within.done (by simp)

end Silence

/-! ## Sites -/

structure Site where
  world : World
  /-- The ids whose deletion has been answered, as far as they were asked for
  after their store had been answered. -/
  removed : List Bytes

namespace Site

abbrev kernel (s : Site) : Kernel := s.world.kernel

def after (s : Site) (k : Kernel) : Site := { s with world := s.world.after k }

end Site

def Steady (f f' : Files) : Prop :=
  ∀ q i j, f.node q = some (.file i) → f'.node q = some (.file j) → i = j

structure Gone (w : World) (g : Ghost) (id : Bytes) : Prop where
  drawn : Drawn w.kernel id
  free : g.working id = none
  nothing : w.node .byId id = none

/-- What was stored fits a request: a name of one line, and the data with it. -/
def Fits (name data : Bytes) : Prop :=
  SEPARATOR ∉ name ∧ PlainName name ∧ (Session.Command.put name data).body.length < 4294967296

structure Inv (t : Terms) (s : Site) (g : Ghost) : Prop where
  volume : Processes.Inv t s.world g
  maps : ∀ m, s.kernel.nextMap ≤ m → s.kernel.maps m = none
  fits : ∀ name id data, (name, id, data) ∈ s.world.stored → Fits name data
  gone : t.fresh → ∀ id ∈ s.removed, Gone s.world g id ∧ id ∈ s.world.begun

/-- What a step of `q` leaves as it was. -/
structure Guar (t : Terms) (q : Pid) (s : Site) (g : Ghost) (s' : Site) (g' : Ghost) : Prop where
  volume : Processes.Guar t q s.world g s'.world g'
  steady : Steady s.kernel.files s'.kernel.files
  inbox : ∀ p, p ≠ q → s'.kernel.inbox p = s.kernel.inbox p
  sent : ∀ p, p ≠ q → s'.kernel.sent p = s.kernel.sent p
  maps : ∀ m mapping, s.kernel.maps m = some mapping → mapping.pid ≠ q → s'.kernel.maps m = some mapping
  stored : ∀ e ∈ s.world.stored, e ∈ s'.world.stored
  removed : ∀ id ∈ s.removed, id ∈ s'.removed

theorem Steady.refl (f : Files) : Steady f f := by
  intro q i j file again
  cases file.symm.trans again
  rfl

theorem Guar.refl (t : Terms) (q : Pid) (s : Site) (g : Ghost) : Guar t q s g s g :=
  ⟨Processes.Guar.refl t q s.world g, Steady.refl _, fun _ _ => rfl, fun _ _ => rfl, fun _ _ here _ => here,
    fun _ here => here, fun _ here => here⟩

def Calls (t : Terms) (p : Pid) (c : Call) (s : Site) (r : Resp c) (s' : Site) : Prop :=
  Processes.Calls t p c s.world r s'.world ∧ s'.removed = s.removed

def protocol (t : Terms) : Program.Protocol Call Resp Pid Site Ghost where
  sem := Calls t
  inv := Inv t
  guar := Guar t
  expects p c s g := Processes.Expects p c s.world g
  still := Guar.refl t

abbrev Outline {α : Type} (t : Terms) (p : Pid) (A : Site → Ghost → Prop) (program : Prog α)
    (Q : α → Site → Ghost → Prop) : Prop :=
  Program.Triple (protocol t) p A program Q

variable {t : Terms} {p q : Pid} {s s' : Site} {w w' : World} {g g' : Ghost} {k k' : Kernel} {id : Bytes}

/-! ## Single calls -/

section Calls
variable {c : Call} {r : Resp c}

theorem unlink_node {f : Files} {path x : Path} {node : Node} (there : (f.unlink path).node x = some node) :
    f.node x = some node := by
  unfold Files.node at there ⊢
  split
  · rwa [if_pos ‹_›] at there
  · rename_i below
    rw [if_neg below] at there
    change List.lookup x (f.tree.filter fun entry => entry.1 ≠ path) = _ at there
    rw [Files.lookup_filter] at there
    split at there
    · cases there
    · exact there

theorem create_steady {f : Files} {path : Path} (absent : f.node path = none) : Steady f (f.create path) := by
  intro x i j file again
  have below : path ≠ [] := by
    rintro rfl
    cases absent
  rw [f.node_create path below] at again
  split at again
  · rename_i same
    rw [same, absent] at file
    cases file
  · cases file.symm.trans again
    rfl

theorem exec_steady (answered : k.exec p c = some (r, k')) : Steady k.files k'.files := by
  cases c with
  | «open» path mode =>
      have same := Option.some.inj answered
      unfold Kernel.openFile at same
      repeat' split at same
      all_goals cases same
      all_goals first
        | exact Steady.refl _
        | exact create_steady ‹_›
  | remove path =>
      cases Kernel.exec_update answered with
      | same => exact Steady.refl _
      | removed =>
          intro x i j file again
          cases file.symm.trans (unlink_node again)
          rfl
  | _ => cases Kernel.exec_update answered <;> exact Steady.refl _

theorem exec_apart (answered : k.exec p c = some (r, k')) (other : q ≠ p) :
    k'.inbox q = k.inbox q ∧ k'.sent q = k.sent q := by
  cases Kernel.exec_update answered with
  | sent => exact ⟨rfl, Function.update_of_ne other _ _⟩
  | received => exact ⟨Function.update_of_ne other _ _, rfl⟩
  | hungUp => exact ⟨Function.update_of_ne other _ _, rfl⟩
  | _ => exact ⟨rfl, rfl⟩

theorem exec_silent (silent : Silent c) (answered : k.exec p c = some (r, k')) :
    k'.inbox = k.inbox ∧ k'.sent = k.sent ∧ k'.maps = k.maps ∧ k'.nextMap = k.nextMap := by
  cases Kernel.exec_update answered with
  | mapped | unmapped | sent | received | hungUp => exact silent.elim
  | _ => exact ⟨rfl, rfl, rfl, rfl⟩

theorem Gone.guar (gone : Gone w g id) (fresh : t.fresh) (guar : Processes.Guar t q w g w' g') :
    Gone w' g' id := by
  have foreign : g.working id ≠ some q := by simp [gone.free]
  exact ⟨guar.drawnStill gone.drawn, (guar.working fresh id gone.drawn foreign).trans gone.free,
    guar.absent fresh .byId id (by decide) foreign gone.nothing⟩

theorem Inv.call (inv : Inv t s g) (answered : s.kernel.exec p c = some (r, k'))
    (stepped : Processes.Stepped t p s.world g (s.world.after k') g')
    (above : ∀ m, k'.nextMap ≤ m → k'.maps m = none)
    (others : ∀ m mapping, s.kernel.maps m = some mapping → mapping.pid ≠ p → k'.maps m = some mapping) :
    Inv t (s.after k') g' ∧ Guar t p s g (s.after k') g' := by
  constructor
  · refine ⟨stepped.inv, above, inv.fits, fun fresh id member => ?_⟩
    obtain ⟨gone, begun⟩ := inv.gone fresh id member
    exact ⟨gone.guar fresh stepped.guar, begun⟩
  · exact ⟨stepped.guar, exec_steady answered, fun q other => (exec_apart answered other).1,
      fun q other => (exec_apart answered other).2, others, fun _ here => here, fun _ here => here⟩

end Calls

/-! ## The outlines of the volume -/

section Lifting

theorem extends_volume : Program.Extends (Processes.protocol t) (protocol t) Site.world p Silent where
  inv _ _ inv := inv.volume
  guar _ _ _ _ _ guar := guar.volume
  expects _ _ _ expected := expected
  sem _ _ _ _ step := step.1
  step := by
    rintro s g ⟨w', removed⟩ g' inv (same | ⟨c, r, silent, ⟨allowed, k', answered, changed⟩, still⟩) kept guar
    · cases same
      refine ⟨⟨kept, inv.maps, inv.fits, fun fresh id member => ?_⟩, { Guar.refl t p _ g with volume := guar }⟩
      obtain ⟨gone, begun⟩ := inv.gone fresh id member
      exact ⟨gone.guar fresh guar, begun⟩
    · cases changed
      cases still
      obtain ⟨_, _, maps, next⟩ := exec_silent silent answered
      refine inv.call answered ⟨kept, guar⟩ ?_ fun m mapping there _ => ?_
      · rw [maps, next]
        exact inv.maps
      · rw [maps]
        exact there

structure Beside (t : Terms) (p : Pid) (E : Site → Ghost → Prop) : Prop where
  stable : Program.Stable (protocol t) p E
  own : ∀ s g s' g', Inv t s g → Inv t s' g' → Program.Makes (protocol t) p Silent s s' →
    Guar t p s g s' g' → E s g → E s' g'

variable {E E' : Site → Ghost → Prop}

theorem Beside.of_lasting (lasting : Program.Lasting (protocol t) E) : Beside t p E :=
  ⟨lasting.stable, fun s g s' g' before after _ => lasting p s g s' g' before after⟩

theorem Beside.and (first : Beside t p E) (second : Beside t p E') : Beside t p fun s g => E s g ∧ E' s g :=
  ⟨first.stable.and second.stable, fun s g s' g' before after makes guar =>
    And.imp (first.own s g s' g' before after makes guar) (second.own s g s' g' before after makes guar)⟩

/-- What a process has for itself: the bytes it has not read yet, those it has
sent, and its mappings with file and length. -/
structure Belongings where
  inbox : Bytes
  sent : Bytes
  maps : List (Nat × Ino × Nat)

structure Has (p : Pid) (b : Belongings) (s : Site) (g : Ghost) : Prop where
  inbox : s.kernel.inbox p = b.inbox
  sent : s.kernel.sent p = b.sent
  maps : ∀ m ∈ b.maps, s.kernel.maps m.1 = some ⟨p, m.2.1, m.2.2⟩

theorem has_beside (b : Belongings) : Beside t p (Has p b) := by
  constructor
  · intro q s g s' g' other _ _ guar has
    exact ⟨(guar.inbox p (Ne.symm other)).trans has.inbox, (guar.sent p (Ne.symm other)).trans has.sent,
      fun m member => guar.maps _ _ (has.maps m member) (Ne.symm other)⟩
  · rintro s g s' g' _ _ (rfl | ⟨c, r, silent, ⟨_, k', answered, changed⟩, _⟩) _ has
    · exact ⟨has.inbox, has.sent, has.maps⟩
    · obtain ⟨inbox, sent, maps, _⟩ := exec_silent silent answered
      constructor
      · rw [Site.kernel, changed]
        exact (congrFun inbox p).trans has.inbox
      · rw [Site.kernel, changed]
        exact (congrFun sent p).trans has.sent
      · intro m member
        rw [Site.kernel, changed]
        exact (congrFun maps m.1).trans (has.maps m member)

theorem lift {α : Type} {A : World → Ghost → Prop} {Q : α → World → Ghost → Prop} {program : Prog α}
    (outline : Processes.Outline t p A program Q) (silent : Keeps Silent program) (beside : Beside t p E) :
    Outline t p (fun s g => A s.world g ∧ E s g) program fun value s g => Q value s.world g ∧ E s g :=
  (outline.extends extends_volume silent beside.stable (fun _ _ _ _ _ _ _ => trivial) beside.own).mono
    fun _ _ _ _ told => told.1

theorem spares_answered {c : Call} {r : Resp c} {w w' : World} {name : Bytes} (slashless : slash ∉ name)
    (inv : Processes.Inv t w g) (moves : Processes.Calls t p c w r w') : Spares name c r := by
  obtain ⟨_, k', answered, _⟩ := moves
  have answered : w.kernel.exec p c = some (r, k') := answered
  cases c with
  | «open» path mode =>
      rintro rfl writes
      have free : slash ∉ cstr name := fun member => slashless (List.takeWhile_subset _ member)
      rcases Volume.name_cases name free with names | special
      · exact Or.inl ⟨_, names⟩
      · right
        obtain ⟨q, resolved, dir, _⟩ :=
          Volume.special_dir (k := w.kernel) inv.sane.layout .byName (by decide) name special
        rw [show Dir.byName.text = NAME_DIR from rfl] at resolved
        simp only [Kernel.exec, Kernel.openFile, resolved, dir, writes, Bool.true_or, ↓reduceIte,
          Option.some.injEq] at answered
        cases answered
        exact ⟨EISDIR, by decide, rfl⟩
  | remove path =>
      rintro rfl ⟨y, names⟩
      rw [show NAME_DIR = Dir.byName.text from rfl] at answered
      obtain ⟨there, same, _⟩ := Processes.remove_step inv names answered
      exact ⟨there, same⟩
  | _ => trivial

theorem unlist_lifted {D : Fd → Option Description} {object : Object} (own : object.id = id)
    (slashless : slash ∉ object.name) (beside : Beside t p E) :
    Outline t p (fun s g => Session t p D [] [.begun id] s.world g ∧ E s g) object.unlist fun r s g =>
      (Processes.Idle t p s.world g ∧ E s g) ∧ r ≠ none :=
  (Processes.unlist_outline own slashless).extends extends_volume (unlist_spares object) beside.stable
    (fun _ _ _ _ _ inv moves => spares_answered slashless inv.volume moves.1) beside.own

theorem session_beside {D : Fd → Option Description} {H : List (Ino × LockKind)} {F : List Fact} :
    Program.Stable (protocol t) p fun s g => Session t p D H F s.world g :=
  fun q _ g _ g' other before after guar =>
    Processes.session_stable q _ g _ g' other before.volume after.volume guar.volume

theorem Beside.frame {α : Type} {A : Site → Ghost → Prop} {Q : α → Site → Ghost → Prop} {program : Prog α}
    (beside : Beside t p E) (outline : Outline t p A program Q) (silent : Keeps Silent program) :
    Outline t p (fun s g => A s g ∧ E s g) program fun value s g => Q value s g ∧ E s g := by
  have wider : Program.Extends (protocol t) (protocol t) id p Silent :=
    ⟨fun _ _ inv => inv, fun _ _ _ _ _ guar => guar, fun _ _ _ expected => expected, fun _ _ _ _ step => step,
      fun _ _ _ _ _ _ kept guar => ⟨kept, guar⟩⟩
  exact (outline.extends wider silent beside.stable (fun _ _ _ _ _ _ _ => trivial) beside.own).mono
    fun _ _ _ _ told => told.1

end Lifting

/-! ## What lasts -/

section Lasting
variable {dir : Dir} {x bytes name data : Bytes} {i : Ino}

abbrev Lasting (t : Terms) (E : Site → Ghost → Prop) : Prop := Program.Lasting (protocol t) E

structure Settled (dir : Dir) (x : Bytes) (i : Ino) (bytes : Bytes) (w : World) (g : Ghost) : Prop where
  role : g.role i = some (dir, x)
  drawn : Drawn w.kernel x
  free : g.working x = none
  data : w.data i = bytes

theorem settled_lasts (fresh : t.fresh) (other : dir ≠ .byName) :
    Lasting t fun s g => Settled dir x i bytes s.world g := by
  intro q s g s' g' before _ guar settled
  have foreign : g.working x ≠ some q := by simp [settled.free]
  exact ⟨guar.volume.roles i _ settled.role, guar.volume.drawnStill settled.drawn,
    (guar.volume.working fresh x settled.drawn foreign).trans settled.free,
    (guar.volume.worked fresh i dir x settled.role other foreign).trans settled.data⟩

theorem gone_lasts (fresh : t.fresh) (id : Bytes) : Lasting t fun s g => Gone s.world g id :=
  fun _ _ _ _ _ _ _ guar gone => gone.guar fresh guar.volume

theorem begun_lasts (id : Bytes) : Lasting t fun s _ => id ∈ s.world.begun :=
  fun _ _ _ _ _ _ _ guar begun => guar.volume.begun id begun

theorem stored_lasts (e : Bytes × Bytes × Bytes) : Lasting t fun s _ => e ∈ s.world.stored :=
  fun _ _ _ _ _ _ _ guar member => guar.stored e member

theorem removed_lasts (id : Bytes) : Lasting t fun s _ => id ∈ s.removed :=
  fun _ _ _ _ _ _ _ guar member => guar.removed id member

theorem Inv.settled (inv : Inv t s g) (fresh : t.fresh) (stored : (name, id, data) ∈ s.world.stored)
    (dir : Dir) (bytes : Bytes) (known : dir = .byId ∧ bytes = name ++ [SEPARATOR] ∨ dir = .data ∧ bytes = data) :
    id ∈ s.world.begun ∨ ∃ i, s.world.node dir id = some (.file i) ∧ Settled dir id i bytes s.world g := by
  have kept := inv.volume.stored name id data stored
  refine (kept.there fresh).imp_right fun there => ?_
  have recorded : record s.kernel.files dir id = some bytes := by
    rcases known with ⟨rfl, rfl⟩ | ⟨rfl, rfl⟩
    · exact there.1
    · exact there.2
  obtain ⟨i, file, same⟩ := inv.volume.sane.entry_file recorded
  exact ⟨i, file, inv.volume.named dir id i file, kept.drawn.drawn, kept.ended fresh, same⟩

end Lasting

/-! ## Calls -/

section Steps
variable {D : Fd → Option Description} {H : List (Ino × LockKind)} {F : List Fact} {A : Site → Ghost → Prop}
  {E : Site → Ghost → Prop}

theorem session_quiet (session : Session t p D H F w g) (inv : Processes.Inv t w g)
    (alike : Processes.Alike p w.kernel k') : Session t p (k'.descOf p) H F (w.after k') g := by
  have stepped := inv.quiet alike
  refine session.next stepped.guar.toLater [] (fun f _ => Processes.unchanged_quiet alike) (by simp) rfl
    fun i kind => ?_
  rw [← session.held, World.locks, World.after, alike.locks]
  rfl

/-- What a call that leaves the volume alone comes to: other descriptors, other
belongings, and what its answer tells of all that was known to last. -/
structure Alone (t : Terms) (p : Pid) (H : List (Ino × LockKind)) (F : List Fact) (D : Fd → Option Description)
    (b : Belongings) (Y : Site → Ghost → Prop) (s : Site) (g : Ghost) : Prop where
  session : Session t p D H F s.world g
  has : Has p b s g
  known : Y s g

theorem Alone.imp {b : Belongings} {Y Y' : Site → Ghost → Prop} (alone : Alone t p H F D b Y s g)
    (weaker : Y s g → Y' s g) : Alone t p H F D b Y' s g :=
  ⟨alone.session, alone.has, weaker alone.known⟩

theorem alone_stable {b : Belongings} {Y : Site → Ghost → Prop} (lasts : Lasting t Y) :
    Program.Stable (protocol t) p (Alone t p H F D b Y) := by
  intro q s g s' g' other before after guar alone
  exact ⟨session_beside q s g s' g' other before after guar alone.session,
    (has_beside b).stable q s g s' g' other before after guar alone.has,
    lasts q s g s' g' before after guar alone.known⟩

theorem call_outline {c : Call} {b : Belongings} (R : Resp c → (Fd → Option Description) → Belongings → Prop)
    {Y : Resp c → Site → Ghost → Prop} (patient : ∀ w g, Processes.Expects p c w g) (lasts : Lasting t E)
    (lastsY : ∀ r, Lasting t (Y r))
    (step : ∀ s g r k', Inv t s g → Alone t p H F D b E s g → s.kernel.exec p c = some (r, k') →
      Y r s g ∧ Processes.Alike p s.kernel k' ∧ (∀ m, k'.nextMap ≤ m → k'.maps m = none) ∧
        (∀ m mapping, s.kernel.maps m = some mapping → mapping.pid ≠ p → k'.maps m = some mapping) ∧
        ∃ b', Has p b' (s.after k') g ∧ R r (k'.descOf p) b') :
    Outline t p (Alone t p H F D b E) (Program.issue c) fun r s g =>
      ∃ D' b', R r D' b' ∧ Alone t p H F D' b' (Y r) s g := by
  rw [← Program.bind_done (Program.issue c)]
  refine Program.triple_once (alone_stable lasts) (fun s g _ _ => patient s.world g) ?_
  rintro s g r ⟨w', removed⟩ inv alone ⟨⟨_, k', answered, changed⟩, still⟩
  cases changed
  cases still
  obtain ⟨told, alike, above, others, b', has, post⟩ := step s g r k' inv alone answered
  obtain ⟨kept, guar⟩ := inv.call answered (inv.volume.quiet alike) above others
  have session := session_quiet alone.session inv.volume alike
  exact ⟨r, g, _, rfl, kept, guar, alone_stable (lastsY r),
    ⟨session, has, lastsY r p s g _ g inv kept guar told⟩, fun _ _ _ later => ⟨_, b', post, later⟩⟩

theorem openFile_outline {x n : Bytes} {mode : Flags} (dir : Dir) (names : Names x n) (keeps : mode.creat = false)
    (whole : mode.trunc = false) {N : Site → Ghost → Prop} {Y : Ino → Site → Ghost → Prop} (lasts : Lasting t E)
    (lastsN : Lasting t N) (lastsY : ∀ i, Lasting t (Y i))
    (missing : ∀ s g, Inv t s g → E s g → s.world.node dir n = none → N s g)
    (found : ∀ s g i, Inv t s g → E s g → s.world.node dir n = some (.file i) → Y i s g) :
    Outline t p (fun s g => Session t p D H F s.world g ∧ E s g) (Sys.openFile (dir.text ++ x) mode) fun r s g =>
      (r = .error ENOENT ∧ Session t p D H F s.world g ∧ N s g) ∨
        ∃ fd i, r = .ok fd ∧ D fd = none ∧ Session t p (Function.update D fd (some ⟨p, some i, mode, 0⟩)) H
          (.role i dir n :: F) s.world g ∧ Y i s g := by
  change Outline t p _ (Program.issue (Call.open (dir.text ++ x) mode)) _
  rw [← Program.bind_done (Program.issue (Call.open (dir.text ++ x) mode))]
  refine Program.triple_once (session_beside.and lasts.stable) (fun s g _ _ => trivial) ?_
  rintro s g r ⟨w', removed⟩ inv ⟨session, held⟩ ⟨⟨_, k', answered, changed⟩, still⟩
  cases changed
  cases still
  rcases Processes.open_step inv.volume session names answered with
    ⟨nothing, _, rfl, rfl⟩ | ⟨i, k₁, rfl, free, alike, descs, opening⟩
  · exact ⟨_, g, _, rfl, inv, Guar.refl t p _ g, session_beside.and lastsN.stable,
      ⟨session, missing s g inv held nothing⟩, fun _ _ _ later => Or.inl ⟨rfl, later⟩⟩
  · have file : s.world.node dir n = some (.file i) := by
      rcases opening with ⟨file, _⟩ | ⟨creates, _⟩
      · exact file
      · rw [keeps] at creates
        cases creates
    rw [opening.whole whole file] at alike
    have stepped := inv.volume.quiet alike
    have mapped := exec_silent (c := .open (dir.text ++ x) mode) trivial answered
    obtain ⟨kept, guar⟩ := inv.call answered stepped (by rw [mapped.2.2.1, mapped.2.2.2]; exact inv.maps)
      fun m mapping there _ => by rw [mapped.2.2.1]; exact there
    have session' : Session t p (Function.update D s.kernel.nextFd (some ⟨p, some i, mode, 0⟩)) H
        (.role i dir n :: F) (s.world.after k') g := by
      refine session.next stepped.guar.toLater [.role i dir n] (fun f _ => Processes.unchanged_quiet alike) ?_
        descs fun j kind => ?_
      · intro f member
        cases List.mem_singleton.mp member
        exact inv.volume.named dir n i file
      · rw [← session.held, World.locks, World.after, alike.locks]
        rfl
    exact ⟨_, g, _, rfl, kept, guar, session_beside.and (lastsY i).stable,
      ⟨session', lastsY i p _ g _ g inv kept guar (found s g i inv held file)⟩,
      fun _ _ _ later => Or.inr ⟨_, i, rfl, free, later⟩⟩

end Steps

end Sfsdb.Parallel

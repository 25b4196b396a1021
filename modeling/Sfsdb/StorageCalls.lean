import Sfsdb.Reading
import Sfsdb.Storage

/-!
The calls that streams and storage programs make. A `Footprint` says which
paths a program may open and how, which it may remove or ask the size of,
whether it may write or talk to its peer, and which identifiers it may draw.
One lemma for each program names the least it needs, and says that whatever it
writes goes to descriptors that its own opens returned.
-/

namespace Sfsdb

open Posix

structure Footprint where
  opens : Bytes → Flags → Prop
  removes : Bytes → Prop
  stats : Bytes → Prop
  writes : Prop
  talks : Prop
  draws : Bytes → Prop

namespace Footprint

variable (F : Footprint)

def Covers : Call → Prop
  | .open path mode => F.opens path mode
  | .remove path => F.removes path
  | .stat path => F.stats path
  | .write _ _ | .ftruncate _ _ => F.writes
  | .send _ | .recv _ | .disconnect => F.talks
  | _ => True

def Answers : (c : Call) → Resp c → Prop
  | .draw, id => F.draws id
  | _, _ => True

variable {F} in
theorem answers_of_draws (draws : ∀ id, F.draws id) (c : Call) (r : Resp c) : F.Answers c r := by
  cases c <;> first | exact draws r | trivial

/-- A program that stays within the footprint and returns a value in `R`. -/
def Holds {α : Type} (R : α → Prop) (p : Prog α) : Prop := Program.Within F.Covers F.Answers R p

/-- A call that writes does so to a descriptor from `N` on, and cuts a file short
only under `cuts`. -/
def Owns (N : Fd) (cuts : Prop) : Call → Prop
  | .write fd _ => N ≤ fd
  | .ftruncate fd _ => cuts ∧ N ≤ fd
  | _ => True

def Hands (N : Fd) : (c : Call) → Resp c → Prop
  | .open _ _, .ok fd => N ≤ fd
  | _, _ => True

/-- Within the footprint, writing only to what was opened at `N` or later. -/
def Uses {α : Type} (N : Fd) (cuts : Prop) (R : α → Prop) (p : Prog α) : Prop :=
  Program.Within (fun c => F.Covers c ∧ Owns N cuts c) (fun c r => F.Answers c r ∧ Hands N c r) R p

def Any {α : Type} (_ : α) : Prop := True

variable {F} {α β : Type}

theorem Holds.bind {T : α → Prop} {R : β → Prop} {p : Prog α} {f : α → Prog β}
    (first : F.Holds T p) (second : ∀ value, T value → F.Holds R (f value)) :
    F.Holds R (p.bind f) :=
  Program.Within.bind first second

theorem Holds.any {T : α → Prop} {p : Prog α} (holds : F.Holds T p) : F.Holds Any p :=
  holds.mono fun _ _ => trivial

theorem holds_done {R : α → Prop} {value : α} (here : R value) : F.Holds R (.done value) :=
  Program.Within.done here

theorem holds_issue {c : Call} (covered : F.Covers c) :
    F.Holds (F.Answers c) (Program.issue c) :=
  Program.within_issue covered fun _ answered => answered

section Uses
variable {N : Fd} {cuts : Prop} {T R : α → Prop} {S : β → Prop} {p : Prog α}

theorem Uses.bind {f : α → Prog β} (first : F.Uses N cuts T p)
    (second : ∀ value, T value → F.Uses N cuts S (f value)) : F.Uses N cuts S (p.bind f) :=
  Program.Within.bind first second

theorem Uses.mono (uses : F.Uses N cuts T p) (weaker : ∀ value, T value → R value) : F.Uses N cuts R p :=
  Program.Within.mono uses weaker

theorem uses_done {value : α} (here : R value) : F.Uses N cuts R (.done value) :=
  Program.Within.done here

theorem uses_issue {c : Call} (covered : F.Covers c) (owned : Owns N cuts c) :
    F.Uses N cuts (fun r => F.Answers c r ∧ Hands N c r) (Program.issue c) :=
  Program.within_issue ⟨covered, owned⟩ fun _ answered => answered

-- Every descriptor is one from 0 on.
theorem Uses.holds (uses : F.Uses 0 True R p) : F.Holds R p := by
  refine Program.Within.imp uses (fun c both => both.1) fun c r answered => ⟨answered, ?_⟩
  unfold Hands
  split
  · exact Nat.zero_le _
  · trivial

end Uses

theorem Holds.sent {R : α → Prop} {p : Prog α} (holds : F.Holds R p) (quiet : ¬ F.talks)
    (draws : ∀ id, F.draws id) {pid : Pid} {k k' : Kernel} {value : α}
    (run : Program.Runs (Kernel.MayDo pid) p k value k') : R value ∧ k'.sent = k.sent := by
  have respects : Program.Respects F.Covers F.Answers (Kernel.MayDo pid)
      fun s => s.sent = k.sent := by
    intro c s r t covered before step
    have silent : ∀ bytes, c ≠ .send bytes := by
      rintro bytes rfl
      exact quiet covered
    exact ⟨answers_of_draws draws c r, (Kernel.MayDo.sent silent step).trans before⟩
  exact Program.Within.runs respects holds run rfl

def all : Footprint where
  opens _ _ := True
  removes _ := True
  stats _ := True
  writes := True
  talks := False
  draws _ := True

def looking : Footprint where
  opens _ mode := mode.creat = false ∧ mode.trunc = false
  removes _ := False
  stats _ := True
  writes := False
  talks := False
  draws _ := True

theorem Holds.looks {R : α → Prop} {p : Prog α} (holds : looking.Holds R p) {pid : Pid}
    {k k' : Kernel} {value : α} (run : Program.Runs (Kernel.MayDo pid) p k value k') :
    R value ∧ k'.files = k.files := by
  have respects : Program.Respects looking.Covers looking.Answers (Kernel.MayDo pid)
      fun s => s.files = k.files := by
    intro c s r t covered before step
    have reading : Kernel.Reading c := by
      cases c <;> first | exact covered | trivial
    exact ⟨answers_of_draws (fun _ => trivial) c r, (Kernel.MayDo.files reading step).trans before⟩
  exact Program.Within.runs respects holds run rfl

theorem Holds.files {R : α → Prop} {p : Prog α} (holds : looking.Holds R p) {pid : Pid}
    {k k' : Kernel} {value : α} (run : Program.Runs (Kernel.MayDo pid) p k value k') :
    k'.files = k.files :=
  (holds.looks run).2

end Footprint

namespace Flstream

open Footprint

variable {F : Footprint} {N : Fd} {cuts : Prop} (s : Flstream)

def Own (N : Fd) (s : Flstream) : Prop := ∀ fd, s.fd = some fd → N ≤ fd

def Follows (s s' : Flstream) : Prop := s'.fd = s.fd

variable {s} in
theorem Own.follows {s' : Flstream} (own : Own N s) (follows : s.Follows s') : Own N s' := by
  intro fd same
  exact own fd (follows ▸ same)

theorem outcome_follows {α : Type} (r : Except Errno α) : s.Follows (s.outcome r) := by
  cases r <;> rfl

theorem new_uses {path : Bytes} {mode : Flags} (opens : F.opens path mode) :
    F.Uses N cuts (Own N) (new path mode) := by
  refine (uses_issue (c := .open path mode) opens trivial).bind fun opened hands => ?_
  cases opened with
  | error e => exact uses_done fun fd same => by cases same
  | ok fd =>
      apply uses_done
      intro fd' same
      cases same
      exact hands.2

theorem new_holds {path : Bytes} {mode : Flags} (opens : F.opens path mode) :
    F.Holds (Own 0) (new path mode) := by
  have uses : F.Uses 0 True (Own 0) (new path mode) := new_uses opens
  exact uses.holds

theorem lock_uses (kind : LockKind) : F.Uses N cuts s.Follows (s.lock kind) := by
  unfold lock
  split
  · exact uses_done rfl
  · exact (uses_issue (c := .lock _ kind) trivial trivial).bind fun r _ =>
      uses_done (s.outcome_follows r)

theorem unlockFile_uses : F.Uses N cuts s.Follows s.unlockFile := by
  unfold unlockFile
  split
  · exact uses_done rfl
  · exact (uses_issue (c := .unlock _) trivial trivial).bind fun r _ =>
      uses_done (s.outcome_follows r)

theorem close_uses : F.Uses N cuts s.Follows s.close := by
  apply s.unlockFile_uses.bind
  intro s' follows
  split
  · exact uses_done follows
  · split
    · exact uses_done follows
    · refine (uses_issue (c := .close _) trivial trivial).bind fun r _ => uses_done ?_
      exact (s'.outcome_follows r).trans follows

theorem uses_readable (fd : Option Fd) :
    Readable (fun c => F.Covers c ∧ Owns N cuts c) (fun c r => F.Answers c r ∧ Hands N c r)
      (fun _ => True) fd where
  read _ _ _ := ⟨trivial, trivial⟩
  tell _ _ := ⟨trivial, trivial⟩
  seek _ _ _ := ⟨trivial, trivial⟩
  yields _ _ _ _ _ _ := trivial

theorem seek_uses (pos : Int) : F.Uses N cuts Any (s.seek pos) :=
  seek_within (uses_readable s.fd) pos

theorem getline_uses (delim : Byte) : F.Uses N cuts (fun r => s.Follows r.2.2) (s.getline delim) :=
  (getline_within (uses_readable s.fd) delim).mono fun _ read => read.1

theorem getlines_uses (delim : Byte) : F.Uses N cuts (fun r => s.Follows r.2) (s.getlines delim) :=
  getlines_within (uses_readable s.fd) delim

theorem write_uses (writes : F.writes) (own : Own N s) (bytes : Bytes) :
    F.Uses N cuts s.Follows (s.write bytes) := by
  unfold write
  split
  · exact uses_done rfl
  · rename_i fd same
    exact (uses_issue (c := .write fd bytes) writes (own fd same)).bind fun r _ =>
      uses_done (s.outcome_follows r)

theorem truncate_uses (writes : F.writes) (may : cuts) (own : Own N s) (len : Nat) :
    F.Uses N cuts Any (s.truncate len) := by
  unfold truncate
  split
  · exact uses_done trivial
  · rename_i fd same
    exact (uses_issue (c := .ftruncate fd len) writes ⟨may, own fd same⟩).bind fun _ _ => uses_done trivial

theorem writeRecord_uses (writes : F.writes) (own : Own N s) (record : Bytes) (separator : Byte) :
    F.Uses N cuts s.Follows (s.writeRecord record separator) := by
  apply (s.write_uses writes own record).bind
  intro s' follows
  exact (s'.write_uses writes (own.follows follows) [separator]).mono fun _ again =>
    again.trans follows

end Flstream

namespace Storage

open Footprint

variable {F : Footprint} {N : Fd} {cuts : Prop}

theorem byName_uses (name : Bytes) (opens : F.opens (NAME_DIR ++ name) Flstream.RDONLY) :
    F.Uses N cuts Any (byName name) := by
  apply (Flstream.new_uses opens).bind
  intro s _
  dsimp only
  split
  · exact s.close_uses.bind fun _ _ => uses_done trivial
  · exact (s.lock_uses .read).bind fun s _ => (s.getlines_uses SEPARATOR).bind fun read _ =>
      read.2.close_uses.bind fun _ _ => uses_done trivial

def Carries (id : Bytes) (r : Except Error Object) : Prop :=
  ∀ object, r = .ok object → object.id = id ∧ object.dataPath = DATA_DIR ++ id

theorem byId_uses (id : Bytes) (opens : F.opens (ID_DIR ++ id) Flstream.RDONLY) :
    F.Uses N cuts (Carries id) (byId id) := by
  apply (Flstream.new_uses opens).bind
  intro s _
  dsimp only
  split
  · exact s.close_uses.bind fun _ _ => uses_done fun object failed => by cases failed
  · refine (s.lock_uses .read).bind fun s _ => (s.getline_uses SEPARATOR).bind fun read _ =>
      read.2.2.close_uses.bind fun _ _ => uses_done ?_
    rintro object ⟨⟩
    exact ⟨rfl, rfl⟩

theorem get_uses (object : Object) (mode : Flags) (opens : F.opens (DATA_DIR ++ object.id) mode) :
    F.Uses N cuts (fun r => ∀ s, r = .ok s → s.Own N) (object.get mode) := by
  apply (Flstream.new_uses opens).bind
  intro s own
  split
  · exact s.close_uses.bind fun _ _ => uses_done fun s failed => by cases failed
  · apply uses_done
    rintro s ⟨⟩
    exact own

theorem details_uses (object : Object) (stats : F.stats (DATA_DIR ++ object.id)) :
    F.Uses N cuts Any object.details := by
  refine (uses_issue (c := .stat (DATA_DIR ++ object.id)) stats trivial).bind fun r _ => ?_
  cases r <;> exact uses_done trivial

theorem rewrite_uses (writes : F.writes) (id : Bytes) (ids : List Bytes) (empty : Bool)
    (s : Flstream) (own : s.Own N) : F.Uses N cuts Any (rewrite id ids empty s) := by
  induction ids generalizing empty s with
  | nil => exact uses_done trivial
  | cons fid rest ih =>
      unfold rewrite
      split
      · exact (s.writeRecord_uses writes own fid SEPARATOR).bind fun s' follows =>
          ih false s' (own.follows follows)
      · exact ih empty s own

theorem unlist_uses (object : Object) (writes : F.writes) (may : cuts)
    (opens : F.opens (NAME_DIR ++ object.name) Flstream.RDWR)
    (removes : F.removes (NAME_DIR ++ object.name)) : F.Uses N cuts Any object.unlist := by
  apply (Flstream.new_uses opens).bind
  intro s own
  dsimp only
  split
  · exact s.close_uses.bind fun _ _ => uses_done trivial
  · refine (s.lock_uses .write).bind fun s₁ locked => (s₁.getlines_uses SEPARATOR).bind fun read more => ?_
    have own : read.2.Own N := own.follows (more.trans locked)
    refine (read.2.seek_uses 0).bind fun _ _ => (read.2.truncate_uses writes may own 0).bind fun _ _ => ?_
    apply (rewrite_uses writes object.id read.1 true read.2 own).bind
    intro rewritten _
    obtain ⟨empty, s⟩ := rewritten
    dsimp only
    split
    · refine (uses_issue (c := .remove (NAME_DIR ++ object.name)) removes trivial).bind fun removed _ => ?_
      cases removed with
      | error e => exact uses_done trivial
      | ok _ =>
          exact s.close_uses.bind fun s _ => s.close_uses.bind fun _ _ => uses_done trivial
    · exact s.close_uses.bind fun _ _ => uses_done trivial

theorem remove_uses (object : Object) (writes : F.writes) (may : cuts)
    (removes : F.removes (ID_DIR ++ object.id) ∧ F.removes (DATA_DIR ++ object.id) ∧
      F.removes (NAME_DIR ++ object.name))
    (opens : F.opens (NAME_DIR ++ object.name) Flstream.RDWR) : F.Uses N cuts Any object.remove := by
  -- Which name a removal works on is what the record of the id says.
  refine (uses_issue (c := .remove (ID_DIR ++ object.id)) removes.1 trivial).bind fun first _ => ?_
  cases first with
  | error e => exact uses_done trivial
  | ok _ =>
      refine (uses_issue (c := .remove (DATA_DIR ++ object.id)) removes.2.1 trivial).bind
        fun second _ => ?_
      cases second with
      | error e => exact uses_done trivial
      | ok _ => exact unlist_uses object writes may opens removes.2.2

def CREATE_NAME : Flags := (Flstream.WRONLY.union Flstream.APPEND).union Flstream.CREAT
def CREATE_FILE : Flags := (Flstream.WRONLY.union Flstream.CREAT).union Flstream.TRUNC

/-- `create` draws an id and opens its index; where that fails, it stops. -/
theorem create_parts (name : Bytes) : ∃ rest : Bytes → Flstream → Prog (Except Error Bytes),
    create name = Sys.draw.bind (fun id =>
      (Flstream.new (NAME_DIR ++ name) CREATE_NAME).bind (rest id)) ∧
    (∀ id s, s.fail = true → looking.Holds (fun r => ∀ x, r ≠ .ok x) (rest id s)) ∧
    ∀ (F : Footprint) (N : Fd) (cuts : Prop) (id : Bytes) (s : Flstream), s.Own N → F.writes →
      F.opens (ID_DIR ++ id) CREATE_FILE → F.opens (DATA_DIR ++ id) CREATE_FILE →
      F.Uses N cuts (fun r => ∀ x, r = .ok x → x = id) (rest id s) := by
  refine ⟨_, rfl, fun id s failed => ?_, fun F N cuts id nameFile own writes opensId opensData => ?_⟩
  · rw [if_pos failed]
    exact s.close_uses.holds.bind fun _ _ => holds_done (by simp)
  split
  · exact nameFile.close_uses.bind fun _ _ => uses_done fun x failed => by cases failed
  · apply (nameFile.lock_uses .write).bind
    intro nameFile locked
    have own := own.follows locked
    apply (Flstream.new_uses opensId).bind
    intro idFile ownId
    split
    · exact idFile.close_uses.bind fun _ _ => nameFile.close_uses.bind fun _ _ =>
        uses_done fun x failed => by cases failed
    · apply (idFile.lock_uses .write).bind
      intro idFile locked
      apply (nameFile.writeRecord_uses writes own id SEPARATOR).bind
      intro nameFile _
      apply nameFile.close_uses.bind
      intro nameFile _
      refine (idFile.writeRecord_uses writes (ownId.follows locked) name SEPARATOR).bind
        fun idFile _ => ?_
      apply (Flstream.new_uses opensData).bind
      intro dataFile _
      refine dataFile.close_uses.bind fun _ _ => idFile.close_uses.bind fun _ _ => ?_
      refine nameFile.close_uses.bind fun _ _ => uses_done ?_
      rintro x ⟨⟩
      rfl

end Storage

namespace Volume

open Footprint Storage

variable {F : Footprint} {N : Fd} {cuts : Prop}

/-- So does `store`; all it does behind that is for the id that `create` has drawn. -/
theorem store_parts (name data : Bytes) : ∃ rest : Bytes → Flstream → Prog (Except Error Bytes),
    store name data = Sys.draw.bind (fun id =>
      (Flstream.new (NAME_DIR ++ name) CREATE_NAME).bind (rest id)) ∧
    (∀ id s, s.fail = true → looking.Holds (fun r => ∀ x, r ≠ .ok x) (rest id s)) ∧
    ∀ (F : Footprint) (N : Fd) (cuts : Prop) (id : Bytes) (s : Flstream), s.Own N → F.writes →
      F.opens (ID_DIR ++ id) CREATE_FILE → F.opens (DATA_DIR ++ id) CREATE_FILE →
      F.opens (ID_DIR ++ id) Flstream.RDONLY → F.opens (DATA_DIR ++ id) Flstream.WRONLY →
      F.Uses N cuts (fun r => ∀ x, r = .ok x → x = id) (rest id s) := by
  obtain ⟨front, shape, stops, creates⟩ := create_parts name
  simp only [store, shape, Program.bind_eq_bind, Program.bind_assoc]
  refine ⟨_, rfl, fun id s failed => ?_,
    fun F N cuts id s own writes opensId opensData reads fills => ?_⟩
  · apply (stops id s failed).bind
    intro created none_
    cases created with
    | error e => exact holds_done (by simp)
    | ok x => exact absurd rfl (none_ x)
  apply (creates F N cuts id s own writes opensId opensData).bind
  intro created same
  cases created with
  | error e => exact uses_done fun x failed => by cases failed
  | ok x =>
      obtain rfl := same x rfl
      apply (byId_uses x reads).bind
      intro found carries
      cases found with
      | error e => exact uses_done fun x failed => by cases failed
      | ok object =>
          obtain ⟨rfl, _⟩ := carries object rfl
          apply (get_uses object _ fills).bind
          intro opened own
          cases opened with
          | error e => exact uses_done fun x failed => by cases failed
          | ok s =>
              exact (s.write_uses writes (own s rfl) data).bind fun s _ => s.close_uses.bind
                fun _ _ => uses_done same

theorem remove_uses (id : Bytes) (writes : F.writes) (may : cuts)
    (opens : F.opens (ID_DIR ++ id) Flstream.RDONLY)
    (removes : F.removes (ID_DIR ++ id) ∧ F.removes (DATA_DIR ++ id))
    (names : ∀ name, F.removes (NAME_DIR ++ name) ∧ F.opens (NAME_DIR ++ name) Flstream.RDWR) :
    F.Uses N cuts Any (remove id) := by
  apply (byId_uses id opens).bind
  intro found same
  cases found with
  | error e => exact uses_done trivial
  | ok object =>
      obtain ⟨rfl, _⟩ := same object rfl
      obtain ⟨unlists, updates⟩ := names object.name
      exact Storage.remove_uses object writes may ⟨removes.1, removes.2, unlists⟩ updates

theorem getId_uses (id : Bytes) (opens : F.opens (ID_DIR ++ id) Flstream.RDONLY) :
    F.Uses N cuts (Carries id) (getId id) := by
  apply (byId_uses id opens).bind
  intro found _
  cases found with
  | error e => exact uses_done fun object failed => by cases failed
  | ok object => exact byId_uses id opens

end Volume

/-! ## Without regard to descriptors -/

namespace Flstream

open Footprint

variable {F : Footprint} (s : Flstream)

theorem close_holds : F.Holds Any s.close :=
  s.close_uses.holds.any

end Flstream

namespace Storage

open Footprint

variable {F : Footprint}

theorem byName_holds (name : Bytes) (opens : F.opens (NAME_DIR ++ name) Flstream.RDONLY) :
    F.Holds Any (byName name) :=
  (byName_uses name opens).holds

theorem byId_holds (id : Bytes) (opens : F.opens (ID_DIR ++ id) Flstream.RDONLY) :
    F.Holds (Carries id) (byId id) :=
  (byId_uses id opens).holds

theorem details_holds (object : Object) (stats : F.stats (DATA_DIR ++ object.id)) :
    F.Holds Any object.details :=
  (details_uses object stats).holds

theorem remove_holds (object : Object) (writes : F.writes)
    (removes : F.removes (ID_DIR ++ object.id) ∧ F.removes (DATA_DIR ++ object.id) ∧
      F.removes (NAME_DIR ++ object.name))
    (opens : F.opens (NAME_DIR ++ object.name) Flstream.RDWR) : F.Holds Any object.remove :=
  (remove_uses object writes trivial removes opens).holds

end Storage

namespace Volume

open Footprint Storage

variable {F : Footprint}

theorem store_holds (name data : Bytes) (writes : F.writes)
    (opensName : F.opens (NAME_DIR ++ name) CREATE_NAME)
    (opens : ∀ id, F.draws id → F.opens (ID_DIR ++ id) CREATE_FILE ∧
      F.opens (DATA_DIR ++ id) CREATE_FILE ∧ F.opens (ID_DIR ++ id) Flstream.RDONLY ∧
      F.opens (DATA_DIR ++ id) Flstream.WRONLY) :
    F.Holds (fun r => ∀ id, r = .ok id → F.draws id) (store name data) := by
  obtain ⟨rest, shape, _, uses⟩ := store_parts name data
  rw [shape]
  refine (holds_issue (c := .draw) trivial).bind fun id drawn => ?_
  obtain ⟨opensId, opensData, reads, fills⟩ := opens id drawn
  apply (Flstream.new_uses opensName).holds.bind
  intro s own
  apply (uses F 0 True id s own writes opensId opensData reads fills).holds.mono
  rintro r same x rfl
  rw [same x rfl]
  exact drawn

theorem remove_holds (id : Bytes) (writes : F.writes) (opens : F.opens (ID_DIR ++ id) Flstream.RDONLY)
    (removes : F.removes (ID_DIR ++ id) ∧ F.removes (DATA_DIR ++ id))
    (names : ∀ name, F.removes (NAME_DIR ++ name) ∧ F.opens (NAME_DIR ++ name) Flstream.RDWR) :
    F.Holds Any (remove id) :=
  (remove_uses id writes trivial opens removes names).holds

theorem getId_holds (id : Bytes) (opens : F.opens (ID_DIR ++ id) Flstream.RDONLY) :
    F.Holds (Carries id) (getId id) :=
  (getId_uses id opens).holds

end Volume
end Sfsdb

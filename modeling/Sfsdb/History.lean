import Sfsdb.AnyPath
import Sfsdb.Responses

/-!
What a sequence of requests does to a volume, served one after the other by any
processes. `Effect` is what one request leaves behind, whatever its strings
are, as long as no name to be stored under and no id to be removed holds a
slash; from it follow the invariants of whole sequences. A stored file is kept
until its id is removed, and a request for it is answered from what is kept.
-/

namespace Sfsdb.History

open Posix Protocol Volume
open Handlers hiding put
open Session (Command)
open Responses (Outcome toSend)

/-- A request that a server process has read, and the memory behind its buffer. -/
structure Request where
  pid : Pid
  behind : Mem
  head : Data
  body : Bytes

namespace Request

def mem (r : Request) : Mem := Mem.followedBy r.body r.behind

def serve (libc : Libc) (r : Request) : Prog (Unit ⊕ Unit × Server.End) :=
  Server.serveRequest libc r.behind () r.head r.body

/-- The server understands the request as the call `c`. -/
structure Asks (libc : Libc) (r : Request) (c : Command) : Prop where
  command : r.head.command = c.no
  decoded : c.Decoded libc r.mem

/-- No slash in a name to be stored under or in an id to be removed, as far as
the system calls see them. -/
structure Tame (libc : Libc) (r : Request) : Prop where
  stores : ∀ name data, r.Asks libc (.put name data) → slash ∉ cstr name
  removes : ∀ id, r.Asks libc (.del id) → slash ∉ cstr id ∧ cstr id ≠ []

/-- The request does not remove `id`. -/
def Spares (libc : Libc) (id : Bytes) (r : Request) : Prop :=
  ∀ x, r.Asks libc (.del x) → cstr x ≠ id

end Request

/-- The requests are served one after the other, each to its end. -/
inductive Served (libc : Libc) : Kernel → List Request → Kernel → Prop where
  | nil {k : Kernel} : Served libc k [] k
  | cons {k k₁ k' : Kernel} {r : Request} {rest : List Request} {result : Unit ⊕ Unit × Server.End} :
      Runs r.pid (r.serve libc) k result k₁ → Served libc k₁ rest k' → Served libc k (r :: rest) k'

/-- The request is answered, in `k`, with exactly this outcome. -/
def Answers (libc : Libc) (k : Kernel) (r : Request) (o : Outcome) : Prop :=
  ∃ k', Gives r.pid (r.serve libc) k (.inl ()) k' ∧ k'.sent r.pid = k.sent r.pid ++ o.frame

def Responded (p : Pid) (k : Kernel) (result : Unit ⊕ Unit × Server.End) (k' : Kernel) : Prop :=
  k' = k ∨ ∃ reply, Runs p (Server.respond reply) k result k'

theorem serve_split {libc : Libc} {r : Request} {k k' : Kernel} {result : Unit ⊕ Unit × Server.End}
    (run : Runs r.pid (r.serve libc) k result k') :
    Responded r.pid k result k' ∨
      (∃ ok k₁, k.exec r.pid .disconnect = some (ok, k₁) ∧ Responded r.pid k₁ result k') ∨
      ∃ c reply k₁, r.Asks libc c ∧ Runs r.pid (c.served libc) k reply k₁ ∧ Responded r.pid k₁ result k' := by
  unfold Request.serve Server.serveRequest at run
  cases selected : select (commands libc) r.head.command with
  | none =>
      rw [selected] at run
      exact Or.inl (Or.inr ⟨_, run⟩)
  | some handler =>
      rw [selected] at run
      dsimp only at run
      cases decoded : handler (Mem.followedBy r.body r.behind) with
      | none =>
          rw [decoded] at run
          exact Or.inl (Or.inl (Program.runs_done_iff.mp run).2)
      | some program =>
          rw [decoded] at run
          obtain ⟨reply, k₁, ran, rest⟩ := Program.runs_bind_split run
          have responded : Responded r.pid k₁ result k' := by
            cases reply with
            | none => exact Or.inl (Program.runs_done_iff.mp rest).2
            | some reply => exact Or.inr ⟨reply, rest⟩
          rcases Session.select_cases selected with known | rfl | rfl
          · rcases Session.program_cases known selected decoded with ⟨msg, rfl⟩ | ⟨c, no, _, read, rfl⟩
            · cases ran
              exact Or.inl responded
            · exact Or.inr (Or.inr ⟨c, reply, k₁, ⟨no.symm, read⟩, ran, responded⟩)
          · cases decoded
            cases ran
            exact Or.inl responded
          · cases decoded
            obtain ⟨ok, k₂, closes, final⟩ := Program.runs_bind_split ran
            cases final
            exact Or.inr (Or.inl ⟨ok, k₁, Program.runs_issue_iff.mp closes, responded⟩)

/-! ## Programs that only look -/

/-- Between two requests: no lock is held and the contents became `now`. -/
structure Leaves (k k' : Kernel) (now : Contents) : Prop where
  turns : Turns k.files k'.files now
  unlocked : ∀ i, k'.locks i = []
  source : k'.source = k.source
  drawn : k.drawn ≤ k'.drawn

namespace Leaves

variable {k k' k'' : Kernel} {now now' : Contents}

theorem ready (left : Leaves k k' now) : Ready k' := ⟨left.turns.sane, left.unlocked⟩

theorem trans (first : Leaves k k' now) (second : Leaves k' k'' now') : Leaves k k'' now' :=
  ⟨first.turns.trans second.turns, second.unlocked, second.source.trans first.source,
    first.drawn.trans second.drawn⟩

theorem of_becomes {draws : Nat} (change : Becomes k k' draws now) : Leaves k k' now :=
  ⟨change.turns, change.unlocked, change.source, by rw [change.drawn]; omega⟩

theorem of_same (ready : Ready k) (files : k'.files = k.files) (locks : ∀ i, k'.locks i = [])
    (source : k'.source = k.source) (drawn : k'.drawn = k.drawn) : Leaves k k' (record k.files) :=
  ⟨by rw [files]; exact Turns.refl ready.sane, locks, source, drawn.ge⟩

end Leaves

def Looks {α : Type} (p : Pid) (program : Prog α) : Prop :=
  ∀ k r k', Ready k → Runs p program k r k' → Leaves k k' (record k.files)

section Looking
variable {p : Pid} {α β : Type}

theorem looks_done (value : α) : Looks p (.done value : Prog α) := by
  intro k r k' ready run
  obtain ⟨_, rfl⟩ := Program.runs_done_iff.mp run
  exact Leaves.of_becomes (Becomes.refl ready)

theorem Looks.bind {program : Prog α} {f : α → Prog β} (first : Looks p program)
    (second : ∀ value, Looks p (f value)) : Looks p (program.bind f) := by
  intro k r k' ready run
  obtain ⟨value, k₁, ran, rest⟩ := Program.runs_bind_split run
  have left := first k value k₁ ready ran
  have later := second value k₁ r k' left.ready rest
  rw [left.turns.records] at later
  exact left.trans later

theorem looks_of_runs {program : Prog α}
    (runs : ∀ k, Ready k → ∃ r k', Runs p program k r k' ∧ Becomes k k' 0 (record k.files)) :
    Looks p program := by
  intro k r k' ready run
  obtain ⟨r', k₁, ran, change⟩ := runs k ready
  obtain ⟨rfl, rfl⟩ := (gives_of_runs ran _ _).mp run
  exact Leaves.of_becomes change

def Calm : Call → Prop
  | .open _ mode => mode.creat = false ∧ mode.trunc = false
  | .stat _ | .mmap _ _ | .load _ _ | .munmap _ | .send _ | .recv _ | .disconnect | .close _ => True
  | _ => False

theorem looks_issue {c : Call} (calm : Calm c) : Looks p (Program.issue c) := by
  intro k r k' ready run
  have freed : ∀ i j, (k.release p i).locks j = [] := by
    intro i j
    rw [(ready.alone p).release]
    simp [ready.unlocked]
  have answered : k.exec p c = some (r, k') := Program.runs_issue_iff.mp run
  cases Kernel.exec_update answered with
  | drew | locked | unlocked | read | sought | wrote | cut | removed => exact calm.elim
  | opened same => exact Leaves.of_same ready (same calm.1 calm.2) ready.unlocked rfl rfl
  | freed => exact Leaves.of_same ready rfl (freed _) rfl rfl
  | _ => exact Leaves.of_same ready rfl ready.unlocked rfl rfl

theorem byId_looks (id : Bytes) : Looks p (Storage.byId id) := by
  apply looks_of_runs
  intro k ready
  obtain ⟨r, k', run, change, _⟩ := Volume.byId_looks (p := p) ready id
  exact ⟨r, k', run, change⟩

theorem getId_looks (id : Bytes) : Looks p (getId id) := by
  apply (byId_looks id).bind
  intro found
  cases found with
  | error e => exact looks_done _
  | ok object => exact byId_looks id

theorem details_looks (object : Storage.Object) : Looks p object.details := by
  have sized : Looks p (Sys.stat (Storage.DATA_DIR ++ object.id)) :=
    looks_issue (c := .stat (Storage.DATA_DIR ++ object.id)) trivial
  apply sized.bind
  intro found
  cases found <;> exact looks_done _

theorem sendFile_looks (fd map fsize : Nat) : Looks p (sendFile fd map fsize) := by
  have said : ∀ bytes, Looks p (Sys.send bytes) := fun bytes =>
    looks_issue (c := .send bytes) trivial
  apply (said _).bind
  intro first
  cases first with
  | error _ => exact looks_done _
  | ok _ =>
      refine Looks.bind (looks_issue (c := .load map fsize) trivial) fun bytes => ?_
      apply (said bytes).bind
      intro second
      cases second with
      | error _ => exact looks_done _
      | ok _ =>
          apply (said [MAGIC]).bind
          intro third
          cases third with
          | error _ => exact looks_done _
          | ok _ =>
              exact Looks.bind (looks_issue (c := .munmap map) trivial) fun _ =>
                Looks.bind (looks_issue (c := .close fd) trivial) fun _ => looks_done _

variable {libc : Libc}

theorem getFile_looks (fid : Bytes) : Looks p (getFile libc fid) := by
  apply (getId_looks fid).bind
  intro found
  cases found with
  | error e => exact looks_done _
  | ok file =>
      apply (details_looks file).bind
      intro sized
      cases sized with
      | error e => exact looks_done _
      | ok size =>
          refine Looks.bind (looks_issue (c := .open file.dataPath Flstream.RDONLY) ⟨rfl, rfl⟩)
            fun opened => ?_
          cases opened with
          | error e => exact looks_done _
          | ok fd =>
              refine Looks.bind (looks_issue (c := .mmap fd (size % 4294967296)) trivial)
                fun mapped => ?_
              cases mapped with
              | error e => exact looks_done _
              | ok map => exact (sendFile_looks _ _ _).bind fun _ => looks_done _

theorem descFile_looks (fid : Bytes) : Looks p (descFile libc fid) := by
  apply (getId_looks fid).bind
  intro found
  cases found with
  | error e => exact looks_done _
  | ok fobj =>
      apply (details_looks fobj).bind
      intro sized
      cases sized with
      | error e => exact looks_done _
      | ok size =>
          apply (getId_looks fid).bind
          intro again
          cases again <;> exact looks_done _

theorem listFiles_looks (fname : Bytes) : Looks p (listFiles libc fname) := by
  have listed : Looks p (getName fname) := looks_of_runs fun k ready => byName_looks ready fname
  apply listed.bind
  intro found
  cases found <;> exact looks_done _

theorem respond_looks (reply : Reply) : Looks p (Server.respond reply) := by
  unfold Server.respond
  split
  · refine Looks.bind (looks_issue (c := .send reply.res) trivial) fun sent => ?_
    cases sent <;> exact looks_done _
  · exact looks_done _

end Looking

/-! ## What one request leaves behind -/

/-- The contents that `r` leaves behind in `k`, and how many identifiers are
drawn by then at least. -/
inductive Effect (libc : Libc) (r : Request) (k : Kernel) : Contents → Nat → Prop where
  | looks {drawn : Nat} : k.drawn ≤ drawn → Effect libc r k (record k.files) drawn
  | stores {name data file : Bytes} {drawn : Nat} : r.Asks libc (.put name data) →
      Names name file → k.drawn < drawn →
      Effect libc r k (stored file name (k.source k.drawn) data (record k.files)) drawn
  | removes {id : Bytes} {now : Contents} {drawn : Nat} : r.Asks libc (.del id) →
      Loses (cstr id) (record k.files) now → k.drawn ≤ drawn → Effect libc r k now drawn

structure Orderly (k : Kernel) : Prop where
  ready : Ready k
  recorded : ∀ y text, record k.files .byId y = some text →
    slash ∉ cstr (Records.first Storage.SEPARATOR text)

section Effects
variable {libc : Libc} {p : Pid} {k k' : Kernel} {r : Request}

theorem Effect.later {now : Contents} {drawn drawn' : Nat} (effect : Effect libc r k now drawn)
    (more : drawn ≤ drawn') : Effect libc r k now drawn' := by
  cases effect with
  | looks least => exact Effect.looks (least.trans more)
  | stores asks names least => exact Effect.stores asks names (least.trans_le more)
  | removes asks loses least => exact Effect.removes asks loses (least.trans more)

theorem putFile_effect (orderly : Orderly k) (draws : ∀ n, PlainName (k.source n)) {name data : Bytes}
    (asks : r.Asks libc (.put name data)) (free : slash ∉ cstr name) {reply : Option Reply}
    (run : Runs p (putFile libc name data) k reply k') :
    ∃ now, Leaves k k' now ∧ Effect libc r k now k'.drawn := by
  obtain ⟨stored, k₁, ran, rest⟩ := Program.runs_bind_split run
  have only : k' = k₁ := by cases stored <;> exact (Program.runs_done_iff.mp rest).2
  subst only
  rcases name_cases name free with names | special
  · obtain ⟨k₂, stores, change⟩ := store_runs (p := p) orderly.ready data names rfl (draws k.drawn)
    obtain ⟨rfl, rfl⟩ := (gives_of_runs stores _ _).mp ran
    refine ⟨_, Leaves.of_becomes change, Effect.stores asks names ?_⟩
    rw [change.drawn]
    exact Nat.lt_succ_self _
  · have stores := store_special (p := p) orderly.ready.sane name data special
    obtain ⟨rfl, rfl⟩ := (gives_of_runs stores _ _).mp ran
    exact ⟨_, ⟨Turns.refl orderly.ready.sane, orderly.ready.unlocked, rfl, Nat.le_succ _⟩,
      Effect.looks (Nat.le_succ _)⟩

theorem delFile_effect (orderly : Orderly k) {id : Bytes} (asks : r.Asks libc (.del id))
    (free : slash ∉ cstr id) (some : cstr id ≠ []) {reply : Option Reply}
    (run : Runs p (delFile libc id) k reply k') :
    ∃ now, Leaves k k' now ∧ Effect libc r k now k'.drawn := by
  obtain ⟨removed, k₁, ran, rest⟩ := Program.runs_bind_split run
  have only : k' = k₁ := by
    rcases removed with _ | _ | _ <;> exact (Program.runs_done_iff.mp rest).2
  subst only
  obtain ⟨r', k₂, now, removes, change, loses⟩ :=
    remove_loses (p := p) orderly.ready id free some orderly.recorded
  obtain ⟨rfl, rfl⟩ := (gives_of_runs removes _ _).mp ran
  exact ⟨now, Leaves.of_becomes change, Effect.removes asks loses (Leaves.of_becomes change).drawn⟩

theorem served_effect (orderly : Orderly k) (draws : ∀ n, PlainName (k.source n)) (tame : r.Tame libc)
    {c : Command} {reply : Option Reply} (asks : r.Asks libc c) (run : Runs p (c.served libc) k reply k') :
    ∃ now, Leaves k k' now ∧ Effect libc r k now k'.drawn := by
  have looking : Looks p (c.served libc) → ∃ now, Leaves k k' now ∧ Effect libc r k now k'.drawn := by
    intro looks
    have left := looks k reply k' orderly.ready run
    exact ⟨_, left, Effect.looks left.drawn⟩
  cases c with
  | get id => exact looking (getFile_looks id)
  | desc id => exact looking (descFile_looks id)
  | list name => exact looking (listFiles_looks name)
  | put name data => exact putFile_effect orderly draws asks (tame.stores _ _ asks) run
  | del id => exact delFile_effect orderly asks (tame.removes _ asks).1 (tame.removes _ asks).2 run

theorem Responded.leaves {result : Unit ⊕ Unit × Server.End} (ready : Ready k)
    (responded : Responded p k result k') : Leaves k k' (record k.files) := by
  rcases responded with rfl | ⟨reply, responds⟩
  · exact Leaves.of_becomes (Becomes.refl ready)
  · exact respond_looks reply _ _ _ ready responds

theorem serve_effect (orderly : Orderly k) (draws : ∀ n, PlainName (k.source n)) (tame : r.Tame libc)
    {result : Unit ⊕ Unit × Server.End} (run : Runs r.pid (r.serve libc) k result k') :
    ∃ now, Leaves k k' now ∧ Effect libc r k now k'.drawn := by
  rcases serve_split run with responded | ⟨ok, k₁, closes, responded⟩ | ⟨c, reply, k₁, asks, ran, responded⟩
  · have left := responded.leaves orderly.ready
    exact ⟨_, left, Effect.looks left.drawn⟩
  · have closed := looks_issue (c := .disconnect) trivial k ok k₁ orderly.ready
      (Program.runs_issue_iff.mpr closes)
    have left := responded.leaves closed.ready
    rw [closed.turns.records] at left
    exact ⟨_, closed.trans left, Effect.looks (closed.drawn.trans left.drawn)⟩
  · obtain ⟨now, left, effect⟩ := served_effect orderly draws tame asks ran
    have wrote := responded.leaves left.ready
    rw [left.turns.records] at wrote
    exact ⟨now, left.trans wrote, effect.later wrote.drawn⟩

end Effects

/-! ## What a sequence of requests keeps -/

/-- The identifiers drawn so far differ from each other. -/
def Fresh (source : Nat → Bytes) (drawn : Nat) : Prop :=
  ∀ m n, m < n → n < drawn → source m ≠ source n

/-- The file `name` with the bytes `data` is stored under `id`. -/
structure Kept (k : Kernel) (id name data : Bytes) : Prop where
  recorded : record k.files .byId id = some (name ++ [Storage.SEPARATOR])
  stored : record k.files .data id = some data
  drawn : ∃ n, n < k.drawn ∧ k.source n = id

section Sequences
variable {libc : Libc} {k k' : Kernel} {r : Request} {now : Contents} {id name data : Bytes}

theorem recorded_free {file : Bytes} (names : Names name file) :
    slash ∉ cstr (Records.first Storage.SEPARATOR (name ++ [Storage.SEPARATOR])) := by
  rw [Records.first_line]
  intro member
  have inside : slash ∈ Records.first Storage.SEPARATOR (cstr name) := by
    rw [show cstr name = Records.first 0 name from rfl, Records.first_comm]
    exact member
  exact names.plain.2.1 (names.cut ▸ Records.first_subset _ _ slash inside)

theorem Effect.orderly (effect : Effect libc r k now k'.drawn) (left : Leaves k k' now)
    (orderly : Orderly k) : Orderly k' := by
  refine ⟨left.ready, fun y text holds => ?_⟩
  rw [left.turns.records] at holds
  cases effect with
  | looks => exact orderly.recorded y text holds
  | stores asks names =>
      rw [stored_byId] at holds
      by_cases own : y = k.source k.drawn
      · rw [if_pos own] at holds
        cases holds
        exact recorded_free names
      · rw [if_neg own] at holds
        exact orderly.recorded y text holds
  | removes asks loses => exact orderly.recorded y text (loses.records y text holds)

theorem Effect.kept (effect : Effect libc r k now k'.drawn) (left : Leaves k k' now)
    (fresh : Fresh k.source k'.drawn) (spares : r.Spares libc id) (kept : Kept k id name data) :
    Kept k' id name data := by
  obtain ⟨n, earlier, same⟩ := kept.drawn
  have drawn : ∃ n, n < k'.drawn ∧ k'.source n = id :=
    ⟨n, earlier.trans_le left.drawn, by rw [left.source, same]⟩
  have unchanged : now .byId id = record k.files .byId id ∧ now .data id = record k.files .data id := by
    cases effect with
    | looks => exact ⟨rfl, rfl⟩
    | stores asks names least =>
        have other : id ≠ k.source k.drawn := same ▸ fresh n k.drawn earlier least
        simp [other]
    | removes asks loses => exact loses.others id fun own => spares _ asks own.symm
  refine ⟨?_, ?_, drawn⟩
  · rw [left.turns.records, unchanged.1]
    exact kept.recorded
  · rw [left.turns.records, unchanged.2]
    exact kept.stored

theorem served_orderly {requests : List Request} (served : Served libc k requests k')
    (draws : ∀ n, PlainName (k.source n)) (tame : ∀ r ∈ requests, r.Tame libc)
    (orderly : Orderly k) : Orderly k' ∧ k'.source = k.source ∧ k.drawn ≤ k'.drawn := by
  -- By induction over the requests: each leaves its effect, and every effect keeps the volume
  -- orderly.
  induction served with
  | nil => exact ⟨orderly, rfl, le_rfl⟩
  | cons run _ ih =>
      obtain ⟨now, left, effect⟩ := serve_effect orderly draws (tame _ List.mem_cons_self) run
      obtain ⟨last, source, drawn⟩ := ih (by rw [left.source]; exact draws)
        (fun r member => tame r (List.mem_cons_of_mem _ member)) (effect.orderly left orderly)
      exact ⟨last, source.trans left.source, left.drawn.trans drawn⟩

theorem served_kept {requests : List Request} (served : Served libc k requests k')
    (draws : ∀ n, PlainName (k.source n)) (tame : ∀ r ∈ requests, r.Tame libc)
    (fresh : Fresh k.source k'.drawn) (spares : ∀ r ∈ requests, r.Spares libc id)
    (orderly : Orderly k) (kept : Kept k id name data) : Kept k' id name data := by
  induction served with
  | nil => exact kept
  | cons run rest ih =>
      obtain ⟨now, left, effect⟩ := serve_effect orderly draws (tame _ List.mem_cons_self) run
      have later := effect.orderly left orderly
      have draws' := left.source.symm ▸ draws
      have tame' := fun r member => tame r (List.mem_cons_of_mem _ member)
      obtain ⟨_, source, drawn⟩ := served_orderly rest draws' tame' later
      have fresh' : Fresh _ _ := fun m n before least => fresh m n before (least.trans_le drawn)
      exact ih draws' tame' (left.source.symm ▸ fresh)
        (fun r member => spares r (List.mem_cons_of_mem _ member)) later
        (effect.kept left fresh' (spares _ List.mem_cons_self) kept)

end Sequences

/-! ## What is answered -/

section Answers
variable {libc : Libc} {p : Pid} {k k₁ : Kernel} {r : Request} {c : Command} {id fid name data : Bytes}

theorem serve_gives (asks : r.Asks libc c) {reply : Reply}
    (run : Runs r.pid (c.served libc) k (some reply) k₁) :
    Gives r.pid (r.serve libc) k (.inl ()) (k₁.said r.pid (toSend reply)) := by
  obtain ⟨handler, selected, decoded⟩ := asks.decoded.handled
  have responds : Runs r.pid (Server.respond reply) k₁ (.inl ()) (k₁.said r.pid (toSend reply)) := by
    unfold Server.respond toSend
    split
    · exact (send_runs r.pid k₁ reply.res).bind Program.Runs.done
    · rw [Kernel.said_nothing]
      exact Program.Runs.done
  apply gives_of_runs
  unfold Request.serve Server.serveRequest
  rw [asks.command, selected]
  dsimp only
  rw [show handler (Mem.followedBy r.body r.behind) = some (c.served libc) from decoded]
  exact run.bind responds

theorem getId_kept (ready : Ready k) (kept : Kept k id name data) (names : Names fid id)
    (line : Storage.SEPARATOR ∉ name) :
    ∃ k', Runs p (getId fid) k (.ok ⟨fid, name, Storage.DATA_DIR ++ fid⟩) k' ∧
      Becomes k k' 0 (record k.files) := by
  obtain ⟨k', found, change⟩ := getId_found (p := p) ready names kept.recorded
  rw [Records.first_append _ name [] line] at found
  exact ⟨k', found, change⟩

theorem mapping_runs (ready : Ready k) (holds : record k.files .data id = some data)
    (names : Names fid id) (sized : data.length < 4294967296) :
    ∃ k₁ fd, Runs p (Sys.openFile (Storage.DATA_DIR ++ fid) Flstream.RDONLY) k (.ok fd) k₁ ∧
      k₁.sent = k.sent ∧
      (data = [] → Runs p (Sys.mmap fd (data.length % 4294967296)) k₁ (.error EINVAL) k₁) ∧
      (data ≠ [] → ∃ k₂ map, Runs p (Sys.mmap fd (data.length % 4294967296)) k₁ (.ok map) k₂ ∧
        k₂.sent = k₁.sent ∧ k₂.loadMap map (data.length % 4294967296) = data) := by
  obtain ⟨i, file, rfl⟩ := ready.sane.entry_file holds
  have resolved : k.files.resolve (Storage.DATA_DIR ++ fid) = .ok (entry k.files .data id) :=
    resolve_entry k.files ready.sane.layout .data names
  have opens : Runs p (Sys.openFile (Storage.DATA_DIR ++ fid) Flstream.RDONLY) k (.ok k.nextFd)
      (k.addDesc ⟨p, some i, Flstream.RDONLY, 0⟩) :=
    Flstream.issue_runs (c := .open _ _) (by
      simp [Kernel.exec, Kernel.openFile, resolved, file, Flstream.RDONLY])
  have found : (k.addDesc ⟨p, some i, Flstream.RDONLY, 0⟩).descOf p k.nextFd =
      some ⟨p, some i, Flstream.RDONLY, 0⟩ := by
    simp [Kernel.descOf_addDesc]
  rw [Nat.mod_eq_of_lt sized]
  refine ⟨_, _, opens, rfl, fun empty => ?_, fun some => ?_⟩
  · refine Flstream.issue_runs (c := .mmap _ _) ?_
    rw [empty]
    simp [Kernel.exec, Kernel.mapFile, found]
  · have files : (k.addDesc ⟨p, .some i, Flstream.RDONLY, 0⟩).files = k.files := rfl
    generalize k.addDesc ⟨p, .some i, Flstream.RDONLY, 0⟩ = opened at found files ⊢
    have maps : Runs p (Sys.mmap k.nextFd (k.files.data i).length) opened (.ok opened.nextMap)
        { opened with
          maps := Function.update opened.maps opened.nextMap (.some ⟨p, i, (k.files.data i).length⟩)
          nextMap := opened.nextMap + 1 } :=
      Flstream.issue_runs (c := .mmap _ _) (by
        simp [Kernel.exec, Kernel.mapFile, found, some, Flstream.RDONLY])
    refine ⟨_, _, maps, rfl, ?_⟩
    rw [← files]
    exact Kernel.loadMap_file (p := p) (Function.update_self ..)

theorem getFile_content (libc : Libc) (ready : Ready k) (kept : Kept k id name data) (names : Names fid id)
    (line : Storage.SEPARATOR ∉ name) (sized : data.length < 4294967296) (some : data ≠ []) :
    ∃ k', Runs p (getFile libc fid) k (.some noRes) k' ∧
      k'.sent p = k.sent p ++ (Outcome.content data).frame := by
  obtain ⟨k₁, found, change⟩ := getId_kept (p := p) ready kept names line
  have holds : record k₁.files .data id = .some data := by
    rw [change.turns.records]
    exact kept.stored
  have detailed := details_found (p := p) change.ready names
    ⟨fid, name, Storage.DATA_DIR ++ fid⟩ rfl holds
  obtain ⟨k₂, fd, opens, unsent, _, mapping⟩ := mapping_runs (p := p) change.ready holds names sized
  obtain ⟨k₃, map, maps, sent, loaded⟩ := mapping some
  have sends : Runs p (sendFile fd map (data.length % 4294967296)) k₃ noRes _ :=
    (send_runs p _ _).bind (Program.Runs.bind (Flstream.issue_runs (c := .load _ _) rfl)
      ((send_runs p _ _).bind ((send_runs p _ _).bind (Program.Runs.bind
        (Flstream.issue_runs (c := .munmap map) rfl) (Program.Runs.bind
          (Flstream.issue_runs (c := .close fd) rfl) Program.Runs.done)))))
  have wrote := (Responses.sendFile_writes (sends.mono fun _ _ _ _ step => Or.inl step)).2
  refine ⟨_, found.bind (detailed.bind (opens.bind (maps.bind (sends.bind Program.Runs.done)))), ?_⟩
  rw [wrote, loaded, sent, unsent, change.sent, Nat.mod_eq_of_lt sized, Responses.content_frame]

theorem getFile_empty (libc : Libc) (ready : Ready k) (kept : Kept k id name []) (names : Names fid id)
    (line : Storage.SEPARATOR ∉ name) :
    ∃ k', Runs p (getFile libc fid) k (some (refuse (libc.strerror EINVAL))) k' ∧
      k'.sent = k.sent := by
  -- An empty file is refused with the error that mapping nothing gives.
  obtain ⟨k₁, found, change⟩ := getId_kept (p := p) ready kept names line
  have holds : record k₁.files .data id = .some [] := by
    rw [change.turns.records]
    exact kept.stored
  have detailed := details_found (p := p) change.ready names
    ⟨fid, name, Storage.DATA_DIR ++ fid⟩ rfl holds
  obtain ⟨k₂, fd, opens, sent, mapping, _⟩ := mapping_runs (p := p) change.ready holds names (by decide)
  exact ⟨k₂, found.bind (detailed.bind (opens.bind ((mapping rfl).bind Program.Runs.done))),
    sent.trans change.sent⟩

theorem descFile_described (libc : Libc) (ready : Ready k) (kept : Kept k id name data) (names : Names fid id)
    (line : Storage.SEPARATOR ∉ name) :
    ∃ k', Runs p (descFile libc fid) k (some (succeed (Outcome.described name data.length).payload)) k' ∧
      k'.sent = k.sent := by
  obtain ⟨k₁, found, change⟩ := getId_kept (p := p) ready kept names line
  have same : record k₁.files = record k.files := change.turns.records
  have holds : record k₁.files .data id = some data := by
    rw [same]
    exact kept.stored
  have detailed := details_found (p := p) change.ready names
    ⟨fid, name, Storage.DATA_DIR ++ fid⟩ rfl holds
  have drawn : ∃ n, n < k₁.drawn ∧ k₁.source n = id := by
    rw [change.source, change.drawn]
    exact kept.drawn
  obtain ⟨k₂, again, change'⟩ := getId_kept (p := p) change.ready
    ⟨by rw [same]; exact kept.recorded, holds, drawn⟩ names line
  exact ⟨k₂, found.bind (detailed.bind (again.bind Program.Runs.done)), change'.sent.trans change.sent⟩

theorem frame_eq {o o' : Outcome} (same : o.frame = o'.frame) :
    o.status = o'.status ∧ o.payload = o'.payload := by
  unfold Outcome.frame Session.framed at same
  obtain ⟨heads, payloads⟩ := List.append_inj same rfl
  have numbers : toNets (o.status % 65536) = toNets (o'.status % 65536) :=
    (List.append_inj' heads rfl).2
  refine ⟨?_, payloads⟩
  rcases o.status_cases with left | left <;> rcases o'.status_cases with right | right <;>
    rw [left, right] at numbers ⊢ <;> exact absurd numbers (by decide)

theorem stored_frame {id id' : Bytes} (same : (Outcome.stored id).frame = (Outcome.stored id').frame) :
    id = id' := by
  have payloads : toNets ids.STRING ++ toNetl _ ++ (id ++ [MAGIC]) =
      toNets ids.STRING ++ toNetl _ ++ (id' ++ [MAGIC]) := (frame_eq same).2
  exact List.append_cancel_right (List.append_inj payloads rfl).2

/-- An upload that is answered with an id has stored its file under this id. -/
theorem put_stores (orderly : Orderly k) (draws : ∀ n, PlainName (k.source n))
    (asks : r.Asks libc (.put name data)) (plain : PlainName name)
    (run : Runs r.pid (r.serve libc) k (.inl ()) k₁)
    (answered : k₁.sent r.pid = k.sent r.pid ++ (Outcome.stored id).frame) :
    Kept k₁ id name data := by
  have names := Names.of_plain plain
  obtain ⟨k₂, stores, change⟩ :=
    store_runs (p := r.pid) orderly.ready data names rfl (draws k.drawn)
  have replies : Runs r.pid (putFile libc name data) k
      (some (succeed (Outcome.stored (k.source k.drawn)).payload)) k₂ := by
    rw [← Responses.stored_reply]
    exact stores.bind Program.Runs.done
  obtain ⟨_, rfl⟩ := (serve_gives asks replies _ _).mp run
  rw [Kernel.said_sent, change.sent, Responses.succeed_frame _ rfl] at answered
  obtain rfl := stored_frame (List.append_cancel_left answered)
  refine ⟨?_, ?_, k.drawn, ?_, congrFun change.source k.drawn⟩
  · change record k₂.files .byId _ = _
    rw [change.turns.records]
    simp [stored, Volume.put]
  · change record k₂.files .data _ = _
    rw [change.turns.records]
    simp [stored, Volume.put]
  · change k.drawn < k₂.drawn
    rw [change.drawn]
    exact Nat.lt_succ_self _

theorem put_tame (asks : r.Asks libc (.put name data)) (plain : PlainName name) : r.Tame libc := by
  constructor
  · intro name' data' other
    have same := asks.decoded.symm.trans other.decoded
    cases same
    rw [cstr_of_free name plain.2.2.1]
    exact plain.2.1
  · intro id other
    exact absurd (asks.command.symm.trans other.command) (by simp [Command.no])

theorem get_answers (ready : Ready k) (kept : Kept k id name data) (plain : PlainName id)
    (line : Storage.SEPARATOR ∉ name) (sized : data.length < 4294967296)
    (asks : r.Asks libc (.get fid)) (same : cstr fid = id) :
    Answers libc k r (.content data) ↔ data ≠ [] := by
  have names : Names fid id := ⟨same, plain⟩
  constructor
  · rintro ⟨k', gives, wrote⟩ rfl
    obtain ⟨k₁, replies, unsent⟩ := getFile_empty (p := r.pid) libc ready kept names line
    obtain ⟨_, rfl⟩ := (serve_gives asks replies _ _).mp ((gives _ _).mpr ⟨rfl, rfl⟩)
    rw [Kernel.said_sent, unsent, Responses.refuse_frame] at wrote
    have status : Protocol.status.ERROR = Protocol.status.SUCCESS :=
      (frame_eq (List.append_cancel_left wrote)).1
    exact absurd status (by decide)
  · intro some
    obtain ⟨k₁, replies, wrote⟩ :=
      getFile_content (p := r.pid) libc ready kept names line sized some
    refine ⟨_, serve_gives asks replies, ?_⟩
    rw [show toSend noRes = [] from rfl, Kernel.said_nothing, wrote]

theorem desc_answers (ready : Ready k) (kept : Kept k id name data) (plain : PlainName id)
    (line : Storage.SEPARATOR ∉ name) (asks : r.Asks libc (.desc fid)) (same : cstr fid = id) :
    Answers libc k r (.described name data.length) := by
  obtain ⟨k₁, replies, unsent⟩ :=
    descFile_described (p := r.pid) libc ready kept ⟨same, plain⟩ line
  refine ⟨_, serve_gives asks replies, ?_⟩
  rw [Kernel.said_sent, unsent, Responses.succeed_frame _ rfl]

end Answers

/-- Whatever was stored and removed before, an upload that is answered with an
id can be described until the id is removed, and its content is sent to whoever
asks for the id if and only if there is any: an empty file is refused. -/
theorem stored_files_are_served (libc : Libc) (k₀ k₁ k₂ k₃ : Kernel) (before between : List Request)
    (upload : Request) (name data id : Bytes) (ready : Ready k₀)
    (empty : record k₀.files = fun _ _ => none) (draws : ∀ n, PlainName (k₀.source n))
    (fresh : Fresh k₀.source k₃.drawn) (tame : ∀ r ∈ before ++ between, r.Tame libc)
    (earlier : Served libc k₀ before k₁) (asks : upload.Asks libc (.put name data))
    (plain : PlainName name) (line : Storage.SEPARATOR ∉ name)
    (sized : (Command.put name data).body.length < 4294967296)
    (uploads : Runs upload.pid (upload.serve libc) k₁ (.inl ()) k₂)
    (answered : k₂.sent upload.pid = k₁.sent upload.pid ++ (Outcome.stored id).frame)
    (later : Served libc k₂ between k₃) (spares : ∀ r ∈ between, r.Spares libc id) :
    (∀ (r : Request) (fid : Bytes), r.Asks libc (.get fid) → cstr fid = id →
      (Answers libc k₃ r (.content data) ↔ data ≠ [])) ∧
    ∀ (r : Request) (fid : Bytes), r.Asks libc (.desc fid) → cstr fid = id →
      Answers libc k₃ r (.described name data.length) := by
  have new : Orderly k₀ := ⟨ready, fun y text holds => by rw [empty] at holds; cases holds⟩
  obtain ⟨orderly₁, source₁, _⟩ := served_orderly earlier draws
    (fun r member => tame r (List.mem_append_left _ member)) new
  have draws₁ := source₁.symm ▸ draws
  have kept₂ := put_stores orderly₁ draws₁ asks plain uploads answered
  obtain ⟨now, left, effect⟩ := serve_effect orderly₁ draws₁ (put_tame asks plain) uploads
  have orderly₂ := effect.orderly left orderly₁
  have source₂ := left.source.trans source₁
  have draws₂ := source₂.symm ▸ draws
  have tame₃ := fun r member => tame r (List.mem_append_right before member)
  obtain ⟨orderly₃, _, _⟩ := served_orderly later draws₂ tame₃ orderly₂
  have kept₃ := served_kept later draws₂ tame₃ (source₂.symm ▸ fresh) spares orderly₂ kept₂
  have room : data.length < 4294967296 := by
    rw [Command.body_length] at sized
    dsimp only at sized
    omega
  have plainId : PlainName id := by
    obtain ⟨n, _, same⟩ := kept₂.drawn
    exact same ▸ draws₂ n
  exact ⟨fun r fid asks same => get_answers orderly₃.ready kept₃ plainId line room asks same,
    fun r fid asks same => desc_answers orderly₃.ready kept₃ plainId line asks same⟩

section Examples

theorem nul_not_mem_nil : (0 : Byte) ∉ ([] : Bytes) := List.not_mem_nil

/-- Messages do not matter in the examples. -/
def silent : Libc := ⟨fun _ => ⟨[], nul_not_mem_nil⟩, fun _ _ => ⟨[], nul_not_mem_nil⟩, fun _ _ => none⟩

def request (c : Command) : Request := ⟨1, fun _ => none, Types.header c.no c.body.length, c.body⟩

theorem request_asks (c : Command) (valid : c.Valid) : (request c).Asks silent c :=
  ⟨Nat.mod_eq_of_lt c.no_lt, (Session.understood silent _ c valid).decoded⟩

/-- The upload of one byte to a new volume. -/
theorem stored_files_are_served_byte : ∃ k,
    (∀ (r : Request) (fid : Bytes), r.Asks silent (.get fid) → cstr fid = ascii "1" →
      (Answers silent k r (.content [7]) ↔ ([7] : Bytes) ≠ [])) ∧
    ∀ (r : Request) (fid : Bytes), r.Asks silent (.desc fid) → cstr fid = ascii "1" →
      Answers silent k r (.described (ascii "a") 1) := by
  have evaluated : ((Program.run (Kernel.exec 1) 100
      ((request (.put (ascii "a") [7])).serve silent) (initKernel fun _ => ascii "1")).map
        fun result => (result.1, result.2.sent 1, result.2.drawn)) =
      some (.inl (), (Outcome.stored (ascii "1")).frame, 1) := by rfl
  obtain ⟨⟨_, k⟩, result, same⟩ := Option.map_eq_some_iff.mp evaluated
  simp only [Prod.mk.injEq] at same
  obtain ⟨rfl, sent, drawn⟩ := same
  have fresh : Fresh (initKernel fun _ => ascii "1").source k.drawn := by
    intro m n before least
    rw [drawn] at least
    omega
  exact ⟨k, stored_files_are_served silent (initKernel fun _ => ascii "1") _ k k [] []
    (request (.put (ascii "a") [7])) (ascii "a") [7] (ascii "1") (initKernel_ready _)
    (initKernel_empty _) (fun _ => show PlainName (ascii "1") by decide) fresh (by simp) Served.nil
    (request_asks _ ⟨by decide, by decide, by decide⟩) (by decide) (by decide) (by decide)
    (Program.run_sound _ _ _ _ _ _ result) sent Served.nil (by simp)⟩

/-- An empty file is stored under an id with which it cannot be fetched. -/
theorem empty_files_are_refused :
    ¬ ∀ (libc : Libc) (k₀ k₁ k₂ k₃ : Kernel) (before between : List Request) (upload : Request)
      (name data id : Bytes), Ready k₀ → record k₀.files = (fun _ _ => none) →
      (∀ n, PlainName (k₀.source n)) → Fresh k₀.source k₃.drawn → Served libc k₀ before k₁ →
      upload.Asks libc (.put name data) → PlainName name → Storage.SEPARATOR ∉ name →
      (Command.put name data).body.length < 4294967296 →
      Runs upload.pid (upload.serve libc) k₁ (.inl ()) k₂ →
      k₂.sent upload.pid = k₁.sent upload.pid ++ (Outcome.stored id).frame →
      Served libc k₂ between k₃ → (∀ r ∈ between, r.Spares libc id) →
      ∀ (r : Request), r.Asks libc (.get id) → Answers libc k₃ r (.content data) := by
  intro served
  have evaluated : ((Program.run (Kernel.exec 1) 100
      ((request (.put (ascii "a") [])).serve silent) (initKernel fun _ => ascii "1")).bind
        fun first => (Program.run (Kernel.exec 1) 100 ((request (.get (ascii "1"))).serve silent)
          first.2).map fun second =>
            (first.1, first.2.sent 1, first.2.drawn, second.1, second.2.sent 1)) =
      some (.inl (), (Outcome.stored (ascii "1")).frame, 1, .inl (),
        (Outcome.stored (ascii "1")).frame ++ (Outcome.refused ⟨[], by decide⟩).frame) := by rfl
  obtain ⟨⟨_, k⟩, stores, rest⟩ := Option.bind_eq_some_iff.mp evaluated
  obtain ⟨⟨_, k'⟩, fetches, same⟩ := Option.map_eq_some_iff.mp rest
  simp only [Prod.mk.injEq] at same
  obtain ⟨rfl, sent, drawn, rfl, sent'⟩ := same
  have fresh : Fresh (initKernel fun _ => ascii "1").source k.drawn := by
    intro m n before least
    rw [drawn] at least
    omega
  obtain ⟨k'', gives, wrote⟩ := served silent (initKernel fun _ => ascii "1") _ k k [] []
    (request (.put (ascii "a") [])) (ascii "a") [] (ascii "1") (initKernel_ready _)
    (initKernel_empty _) (fun _ => show PlainName (ascii "1") by decide) fresh Served.nil
    (request_asks _ ⟨by decide, by decide, by decide⟩) (by decide) (by decide) (by decide)
    (Program.run_sound _ _ _ _ _ _ stores) sent Served.nil (by simp)
    (request (.get (ascii "1"))) (request_asks _ ⟨by decide, by decide, by decide⟩)
  obtain ⟨_, rfl⟩ := (gives _ _).mp (Program.run_sound _ _ _ _ _ _ fetches)
  rw [show (request (.get (ascii "1"))).pid = 1 from rfl, sent, sent'] at wrote
  have status : Protocol.status.ERROR = Protocol.status.SUCCESS :=
    (frame_eq (List.append_cancel_left wrote)).1
  exact absurd status (by decide)

end Examples

end Sfsdb.History

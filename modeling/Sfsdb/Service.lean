import Sfsdb.Connection
import Sfsdb.History
import Sfsdb.Refinement

/-!
What the server is for: the five calls as operations on a map from ids to names
and data. `outcome` is what a call is answered and `apply` what becomes of the
map. Served from a volume that stands for a map, a request for a call is answered
by exactly this outcome, in one frame, and leaves the volume standing for the
next map; it neither waits for its client nor hangs up.
-/

namespace Sfsdb.Service

open Posix Protocol Volume Storage
open Handlers (getFile putFile descFile delFile listFiles refuse succeed)
open Session (Command)
open Responses (Outcome)
open History (Request Leaves Kept)
open Connection (Converses)

/-! ## The calls on the map -/

section Abstract
variable (libc : Libc) (source : Nat → Bytes)

def apply : Command → Map × Nat → Map × Nat
  | .put name file, s => Op.apply source (.store name file) s
  | .del id, s => Op.apply source (.remove id) s
  | .get _, s | .desc _, s | .list _, s => s

def missing : Outcome := .refused (libc.strerror ENOENT)

/-- An empty file is refused: there is nothing to map into memory. -/
def outcome : Command → Map × Nat → Outcome
  | .put _ _, (_, n) => .stored (source n)
  | .get id, (m, _) => match m.lookup id with
    | none => missing libc
    | some e => if e.data = [] then .refused (libc.strerror EINVAL) else .content e.data
  | .desc id, (m, _) => match m.lookup id with
    | none => missing libc
    | some e => .described e.name e.data.length
  | .del id, (m, _) => if (m.lookup id).isSome then .deleted else missing libc
  | .list name, (m, _) => if m.named name = [] then missing libc else .listed (m.named name)

/-- Ids and names are plain, and those to be stored are of one line; the id that
is drawn is well formed and new. Request and response fit their headers. -/
structure Admissible (c : Command) (s : Map × Nat) : Prop where
  plain : PlainName c.text
  stores : ∀ name file, c = .put name file → (Op.store name file).Admissible source s
  asked : c.body.length < 4294967296
  answered : (outcome libc source c s).payload.length < 4294967296

end Abstract

/-- The volume stands for the map, whose ids were all drawn. -/
structure Holds (k : Kernel) (s : Map × Nat) : Prop where
  represents : Represents k s
  drawn : ∀ e ∈ s.1, ∃ n, n < s.2 ∧ k.source n = e.id

theorem Admissible.valid {libc : Libc} {source : Nat → Bytes} {c : Command} {s : Map × Nat}
    (admissible : Admissible libc source c s) : c.Valid :=
  ⟨admissible.plain.1, admissible.plain.2.2.1, admissible.asked⟩

theorem outcome_of (libc : Libc) (source : Nat → Bytes) (c : Command) (s : Map × Nat) :
    (outcome libc source c s).Of c.no := by
  obtain ⟨m, n⟩ := s
  cases c with
  | put name file => rfl
  | get id =>
      simp only [outcome]
      cases m.lookup id with
      | none => trivial
      | some e =>
          dsimp only
          split
          · trivial
          · rfl
  | desc id =>
      simp only [outcome]
      cases m.lookup id with
      | none => trivial
      | some e => rfl
  | del id =>
      simp only [outcome]
      split
      · rfl
      · trivial
  | list name =>
      simp only [outcome]
      split
      · trivial
      · rfl

/-! ## Calls that serving a request takes -/

def Looks (c : Call) : Prop := Converses c ∧ Kernel.Reading c ∧ c ≠ .draw

section Footprints
variable {covers : Call → Prop} {α : Type}

abbrev Keeps (covers : Call → Prop) {α : Type} (program : Prog α) : Prop :=
  Program.Within covers (fun _ _ => True) (fun _ => True) program

theorem looks_issue {c : Call} (looks : Looks c) : Keeps Looks (Program.issue c) :=
  Program.within_issue looks fun _ _ => trivial

theorem stream_looks (fd : Option Fd) :
    Flstream.Readable Looks (fun _ _ => True) (fun _ => True) fd where
  read n _ len := by simp [Looks, Converses, Kernel.Reading]
  tell n _ := by simp [Looks, Converses, Kernel.Reading]
  seek n _ pos := by simp [Looks, Converses, Kernel.Reading]
  yields n len bytes _ b _ := trivial

theorem new_looks (path : Bytes) : Keeps Looks (Flstream.new path Flstream.RDONLY) := by
  apply (looks_issue (c := .open path Flstream.RDONLY)
    (by simp [Looks, Converses, Kernel.Reading, Flstream.RDONLY])).bind
  intro opened _
  cases opened with
  | error e => exact Program.Within.done trivial
  | ok fd => exact Program.Within.done trivial

theorem lock_looks (s : Flstream) (kind : LockKind) : Keeps Looks (s.lock kind) := by
  unfold Flstream.lock
  split
  · exact Program.Within.done trivial
  · rename_i fd _
    apply (looks_issue (c := .lock fd kind) (by simp [Looks, Converses, Kernel.Reading])).bind
    intro r _
    exact Program.Within.done trivial

theorem close_looks (s : Flstream) : Keeps Looks s.close := by
  have unlocks : Keeps Looks s.unlockFile := by
    unfold Flstream.unlockFile
    split
    · exact Program.Within.done trivial
    · rename_i fd _
      apply (looks_issue (c := .unlock fd) (by simp [Looks, Converses, Kernel.Reading])).bind
      intro r _
      exact Program.Within.done trivial
  apply unlocks.bind
  intro s' _
  split
  · exact Program.Within.done trivial
  · split
    · exact Program.Within.done trivial
    · rename_i fd _
      apply (looks_issue (c := .close fd) (by simp [Looks, Converses, Kernel.Reading])).bind
      intro r _
      exact Program.Within.done trivial

theorem byId_looks (id : Bytes) : Keeps Looks (byId id) := by
  apply (new_looks _).bind
  intro s _
  dsimp only
  split
  · exact (close_looks s).bind fun _ _ => Program.Within.done trivial
  · apply (lock_looks s .read).bind
    intro s _
    apply (Flstream.getline_within (stream_looks s.fd) SEPARATOR).bind
    intro line _
    exact (close_looks line.2.2).bind fun _ _ => Program.Within.done trivial

theorem byName_looks (name : Bytes) : Keeps Looks (byName name) := by
  apply (new_looks _).bind
  intro s _
  dsimp only
  split
  · exact (close_looks s).bind fun _ _ => Program.Within.done trivial
  · apply (lock_looks s .read).bind
    intro s _
    apply (Flstream.getlines_within (stream_looks s.fd) SEPARATOR).bind
    intro lines _
    exact (close_looks lines.2).bind fun _ _ => Program.Within.done trivial

theorem getId_looks (id : Bytes) : Keeps Looks (getId id) := by
  apply (byId_looks id).bind
  intro found _
  cases found with
  | error e => exact Program.Within.done trivial
  | ok object => exact byId_looks id

theorem details_looks (object : Object) : Keeps Looks object.details := by
  apply (looks_issue (c := .stat (DATA_DIR ++ object.id)) (by simp [Looks, Converses, Kernel.Reading])).bind
  intro found _
  cases found with
  | error e => exact Program.Within.done trivial
  | ok size => exact Program.Within.done trivial

theorem send_looks (bytes : Bytes) : Keeps Looks (Sys.send bytes) :=
  looks_issue (c := .send bytes) (by simp [Looks, Converses, Kernel.Reading])

theorem sendFile_looks (fd map fsize : Nat) : Keeps Looks (Handlers.sendFile fd map fsize) := by
  apply (send_looks _).bind
  intro first _
  cases first with
  | error _ => exact Program.Within.done trivial
  | ok _ =>
      apply (looks_issue (c := .load map fsize) (by simp [Looks, Converses, Kernel.Reading])).bind
      intro bytes _
      apply (send_looks bytes).bind
      intro second _
      cases second with
      | error _ => exact Program.Within.done trivial
      | ok _ =>
          apply (send_looks [MAGIC]).bind
          intro third _
          cases third with
          | error _ => exact Program.Within.done trivial
          | ok _ =>
              apply (looks_issue (c := .munmap map) (by simp [Looks, Converses, Kernel.Reading])).bind
              intro _ _
              apply (looks_issue (c := .close fd) (by simp [Looks, Converses, Kernel.Reading])).bind
              intro _ _
              exact Program.Within.done trivial

variable (libc : Libc)

theorem getFile_looks (fid : Bytes) : Keeps Looks (getFile libc fid) := by
  apply (getId_looks fid).bind
  intro found _
  cases found with
  | error e => exact Program.Within.done trivial
  | ok file =>
      apply (details_looks file).bind
      intro sized _
      cases sized with
      | error e => exact Program.Within.done trivial
      | ok size =>
          apply (looks_issue (c := .open file.dataPath Flstream.RDONLY)
            (by simp [Looks, Converses, Kernel.Reading, Flstream.RDONLY])).bind
          intro opened _
          cases opened with
          | error e => exact Program.Within.done trivial
          | ok fd =>
              apply (looks_issue (c := .mmap fd (size % 4294967296))
                (by simp [Looks, Converses, Kernel.Reading])).bind
              intro mapped _
              cases mapped with
              | error e => exact Program.Within.done trivial
              | ok map => exact (sendFile_looks _ _ _).bind fun _ _ => Program.Within.done trivial

theorem descFile_looks (fid : Bytes) : Keeps Looks (descFile libc fid) := by
  apply (getId_looks fid).bind
  intro found _
  cases found with
  | error e => exact Program.Within.done trivial
  | ok fobj =>
      apply (details_looks fobj).bind
      intro sized _
      cases sized with
      | error e => exact Program.Within.done trivial
      | ok size =>
          apply (getId_looks fid).bind
          intro again _
          cases again with
          | error e => exact Program.Within.done trivial
          | ok object => exact Program.Within.done trivial

theorem listFiles_looks (fname : Bytes) : Keeps Looks (listFiles libc fname) := by
  apply (byName_looks fname).bind
  intro found _
  cases found with
  | error e => exact Program.Within.done trivial
  | ok ids => exact Program.Within.done trivial

theorem Keeps.of_holds {R : α → Prop} {program : Prog α} {F : Footprint} (holds : F.Holds R program)
    (quiet : ¬ F.talks) (draws : ∀ id, F.draws id) : Keeps Converses program := by
  refine (Program.Within.imp holds ?_ ?_).mono fun _ _ => trivial
  · intro c covered
    refine ⟨?_, ?_⟩
    · rintro len rfl
      exact quiet covered
    · rintro rfl
      exact quiet covered
  · intro c r _
    cases c <;> first | exact draws r | trivial

theorem served_converses (c : Command) : Keeps Converses (c.served libc) := by
  have looking : ∀ {program : Prog (Option Handlers.Reply)}, Keeps Looks program → Keeps Converses program :=
    fun looks => looks.imp (fun _ both => both.1) fun _ _ => id
  cases c with
  | get id => exact looking (getFile_looks libc id)
  | desc id => exact looking (descFile_looks libc id)
  | list name => exact looking (listFiles_looks libc name)
  | put name file =>
      have stores : Keeps Converses (Volume.store name file) :=
        Keeps.of_holds (F := .all) (store_holds name file trivial trivial
          fun _ _ => ⟨trivial, trivial, trivial, trivial⟩) (fun talks => talks) fun _ => trivial
      apply stores.bind
      intro stored _
      cases stored with
      | error e => exact Program.Within.done trivial
      | ok id => exact Program.Within.done trivial
  | del id =>
      have removes : Keeps Converses (Volume.remove id) :=
        Keeps.of_holds (F := .all) (remove_holds id trivial trivial ⟨trivial, trivial⟩
          fun _ => ⟨trivial, trivial⟩) (fun talks => talks) fun _ => trivial
      apply removes.bind
      intro removed _
      rcases removed with _ | _ | _
      · exact Program.Within.done trivial
      · exact Program.Within.done trivial
      · exact Program.Within.done trivial

theorem respond_looks (reply : Handlers.Reply) : Keeps Looks (Server.respond reply) := by
  unfold Server.respond
  split
  · apply (send_looks reply.res).bind
    intro sent _
    cases sent with
    | error _ => exact Program.Within.done trivial
    | ok _ => exact Program.Within.done trivial
  · exact Program.Within.done trivial

end Footprints

/-! ## Serving refines the map -/

section Serving
variable {libc : Libc} {p : Pid} {k k' : Kernel} {s : Map × Nat} {c : Command} {r : Request}

theorem serve_eq (asks : r.Asks libc c) : r.serve libc = (c.served libc).bind fun reply =>
    match reply with
    | none => .done (.inr ((), .killed))
    | some reply => Server.respond reply := by
  obtain ⟨handler, selected, decoded⟩ := asks.decoded.handled
  unfold Request.serve Server.serveRequest
  rw [asks.command, selected]
  dsimp only
  rw [show handler (Mem.followedBy r.body r.behind) = some (c.served libc) from decoded]
  rfl

theorem select_others {libc : Libc} {no : Nat} {handler : Handlers.Handler} (stays : no ≠ 6)
    (selected : Protocol.select (Handlers.commands libc) no = some handler) : no ∈ [1, 2, 3, 4, 5] ∨ handler = Handlers.invalid := by
  rcases Session.selectFrom_mem selected with nothing | own | fallback
  · cases nothing
  · simp only [Handlers.commands, List.mem_cons, Prod.mk.injEq, Option.some.injEq, List.not_mem_nil,
      or_false] at own
    simp only [List.mem_cons, List.not_mem_nil, or_false]
    tauto
  · simp only [Handlers.commands, Protocol.INVALID_COMMAND, List.mem_cons, Prod.mk.injEq, Option.some.injEq,
      List.not_mem_nil, or_false, Nat.reduceEqDiff, false_and, true_and] at fallback
    exact Or.inr fallback

theorem serve_within {covers : Call → Prop} (looks : ∀ c, Looks c → covers c)
    (quits : r.head.command = 6 → covers .disconnect)
    (writes : ∀ c, r.Asks libc c → c.no = 2 ∨ c.no = 4 → Keeps covers (c.served libc)) :
    Keeps covers (r.serve libc) := by
  -- What the calls may do and hanging up, a request may: the calls that only look are covered in
  -- any case.
  have reads : ∀ {α : Type} {program : Prog α}, Keeps Looks program → Keeps covers program :=
    fun keeps => keeps.imp looks fun _ _ => id
  unfold Request.serve Server.serveRequest
  cases selected : Protocol.select (Handlers.commands libc) r.head.command with
  | none => exact reads (respond_looks _)
  | some handler =>
      dsimp only
      cases decoded : handler (Mem.followedBy r.body r.behind) with
      | none => exact Program.Within.done trivial
      | some program =>
          have keeps : Keeps covers program := by
            by_cases leaves : r.head.command = 6
            · rw [leaves] at selected
              cases selected
              cases decoded
              exact Program.Within.call (quits leaves) fun _ _ => Program.Within.done trivial
            · rcases select_others leaves selected with known | rfl
              · rcases Session.program_cases known selected decoded with ⟨msg, rfl⟩ | ⟨c, no, _, read, rfl⟩
                · exact Program.Within.done trivial
                · cases c with
                  | get id => exact reads (getFile_looks libc id)
                  | desc id => exact reads (descFile_looks libc id)
                  | list name => exact reads (listFiles_looks libc name)
                  | put name file => exact writes _ ⟨no.symm, read⟩ (Or.inl rfl)
                  | del id => exact writes _ ⟨no.symm, read⟩ (Or.inr rfl)
              · cases decoded
                exact Program.Within.done trivial
          apply keeps.bind
          intro reply _
          cases reply with
          | none => exact Program.Within.done trivial
          | some reply => exact reads (respond_looks reply)

theorem serve_converses (asks : r.Asks libc c) : Keeps Converses (r.serve libc) := by
  rw [serve_eq asks]
  apply (served_converses libc c).bind
  intro reply _
  cases reply with
  | none => exact Program.Within.done trivial
  | some reply => exact (respond_looks reply).imp (fun _ both => both.1) fun _ _ => id

theorem Keeps.drawn {α : Type} {program : Prog α} {value : α} (keeps : Keeps Looks program)
    (run : Runs p program k value k') : k'.drawn = k.drawn := by
  have respects : Program.Respects Looks (fun _ _ => True) (Kernel.Does p) fun t => t.drawn = k.drawn := by
    intro c t r t' looks before step
    refine ⟨trivial, ?_⟩
    rw [← before]
    cases Kernel.exec_update step with
    | drew => exact absurd rfl looks.2.2
    | _ => rfl
  exact (Program.Within.runs respects keeps run rfl).2

theorem Holds.looked (holds : Holds k s) (leaves : Leaves k k' (record k.files)) (drawn : k'.drawn = k.drawn) :
    Holds k' s where
  represents := ⟨leaves.ready, leaves.turns.records.trans holds.represents.records,
    drawn.trans holds.represents.drawn, holds.represents.proper⟩
  drawn e member := by
    rw [leaves.source]
    exact holds.drawn e member

theorem initKernel_holds (source : Nat → Bytes) : Holds (initKernel source) ([], 0) := by
  refine ⟨⟨initKernel_ready source, ?_, rfl, Map.Proper.empty⟩, by simp⟩
  rw [initKernel_empty]
  funext d x
  cases d <;> rfl

theorem Holds.said (holds : Holds k s) (bytes : Bytes) : Holds (k.said p bytes) s where
  represents := ⟨⟨holds.represents.ready.sane, holds.represents.ready.unlocked⟩, holds.represents.records,
    holds.represents.drawn, holds.represents.proper⟩
  drawn := holds.drawn

theorem Holds.hears (holds : Holds k s) (rest : Bytes) : Holds (k.hears p rest) s where
  represents := ⟨⟨holds.represents.ready.sane, holds.represents.ready.unlocked⟩, holds.represents.records,
    holds.represents.drawn, holds.represents.proper⟩
  drawn := holds.drawn

def Answered (libc : Libc) (p : Pid) (k : Kernel) (c : Command) (o : Outcome) (s' : Map × Nat) : Prop :=
  ∃ reply k', Runs p (c.served libc) k (some reply) k' ∧
    k'.sent p ++ Responses.toSend reply = k.sent p ++ o.frame ∧ Holds k' s' ∧ k'.source = k.source

theorem Holds.answered (holds : Holds k s) {reply : Handlers.Reply} {o : Outcome}
    (run : Runs p (c.served libc) k (some reply) k') (keeps : Keeps Looks (c.served libc))
    (looks : History.Looks p (c.served libc))
    (wrote : k'.sent p ++ Responses.toSend reply = k.sent p ++ o.frame) : Answered libc p k c o s := by
  have leaves := looks k (some reply) k' holds.represents.ready run
  exact ⟨reply, k', run, wrote, holds.looked leaves (keeps.drawn run), leaves.source⟩

theorem Holds.kept (holds : Holds k s) {e : Entry} (member : e ∈ s.1) : Kept k e.id e.name e.data := by
  have found := holds.represents.proper.lookup_of_mem member
  refine ⟨?_, ?_, ?_⟩
  · simp [holds.represents.records, Map.contents, found]
  · simp [holds.represents.records, Map.contents, found]
  · rw [holds.represents.drawn]
    exact holds.drawn e member

theorem Holds.absent (holds : Holds k s) {id : Bytes} (found : s.1.lookup id = none) :
    record k.files .byId id = none := by
  simp [holds.represents.records, Map.contents, found]

theorem get_answered (holds : Holds k s) {id : Bytes} (plain : PlainName id)
    (sized : (outcome libc k.source (.get id) s).payload.length < 4294967296) :
    Answered libc p k (.get id) (outcome libc k.source (.get id) s) s := by
  have names := Names.of_plain plain
  have ready := holds.represents.ready
  cases found : s.1.lookup id with
  | none =>
      have run : Runs p (getFile libc id) k (some (refuse (libc.strerror ENOENT))) k :=
        (getId_missing ready names (holds.absent found)).bind Program.Runs.done
      apply holds.answered (c := .get id) run (getFile_looks libc id) (History.getFile_looks id)
      rw [Responses.refuse_frame]
      simp [outcome, found, missing]
  | some e =>
      obtain ⟨member, rfl⟩ := Map.lookup_mem found
      have line := (holds.represents.proper.names e member).2
      have kept := holds.kept member
      by_cases empty : e.data = []
      · rw [empty] at kept
        obtain ⟨k', run, unsent⟩ := History.getFile_empty (p := p) libc ready kept names line
        apply holds.answered (c := .get e.id) run (getFile_looks libc e.id) (History.getFile_looks e.id)
        rw [Responses.refuse_frame, unsent]
        simp [outcome, found, empty]
      · have payload : outcome libc k.source (.get e.id) s = .content e.data := by
          simp [outcome, found, empty]
        have room : e.data.length < 4294967296 := by
          rw [payload] at sized
          simp only [Outcome.payload, List.length_append] at sized
          omega
        obtain ⟨k', run, wrote⟩ := History.getFile_content (p := p) libc ready kept names line room empty
        apply holds.answered (c := .get e.id) run (getFile_looks libc e.id) (History.getFile_looks e.id)
        rw [payload, wrote]
        exact List.append_nil _

theorem desc_answered (holds : Holds k s) {id : Bytes} (plain : PlainName id) :
    Answered libc p k (.desc id) (outcome libc k.source (.desc id) s) s := by
  have names := Names.of_plain plain
  have ready := holds.represents.ready
  cases found : s.1.lookup id with
  | none =>
      have run : Runs p (descFile libc id) k (some (refuse (libc.strerror ENOENT))) k :=
        (getId_missing ready names (holds.absent found)).bind Program.Runs.done
      apply holds.answered (c := .desc id) run (descFile_looks libc id) (History.descFile_looks id)
      rw [Responses.refuse_frame]
      simp [outcome, found, missing]
  | some e =>
      obtain ⟨member, rfl⟩ := Map.lookup_mem found
      have line := (holds.represents.proper.names e member).2
      obtain ⟨k', run, unsent⟩ :=
        History.descFile_described (p := p) libc ready (holds.kept member) names line
      apply holds.answered (c := .desc e.id) run (descFile_looks libc e.id) (History.descFile_looks e.id)
      rw [Responses.succeed_frame _ rfl, unsent]
      simp [outcome, found]

theorem list_answered (holds : Holds k s) {name : Bytes} (plain : PlainName name) :
    Answered libc p k (.list name) (outcome libc k.source (.list name) s) s := by
  obtain ⟨k', run⟩ := getName_answers (p := p) holds.represents name plain
  have unsent : k'.sent = k.sent :=
    ((byName_holds (F := .all) name trivial).sent id (fun _ => trivial)
      (run.mono fun _ _ _ _ step => Or.inl step)).2
  by_cases nothing : s.1.named name = []
  · rw [if_pos nothing] at run
    have run : Runs p (listFiles libc name) k (some (refuse (libc.strerror ENOENT))) k' :=
      run.bind Program.Runs.done
    apply holds.answered (c := .list name) run (listFiles_looks libc name) (History.listFiles_looks name)
    rw [Responses.refuse_frame, unsent]
    simp [outcome, nothing, missing]
  · rw [if_neg nothing] at run
    have run : Runs p (listFiles libc name) k
        (some (succeed (Outcome.listed (s.1.named name)).payload)) k' := run.bind Program.Runs.done
    apply holds.answered (c := .list name) run (listFiles_looks libc name) (History.listFiles_looks name)
    rw [Responses.succeed_frame _ rfl, unsent]
    simp [outcome, nothing]

theorem put_answered (holds : Holds k s) {name file : Bytes}
    (admissible : (Op.store name file).Admissible k.source s) :
    Answered libc p k (.put name file) (outcome libc k.source (.put name file) s)
      (apply k.source (.put name file) s) := by
  obtain ⟨m, n⟩ := s
  obtain ⟨k', ran, represents, source⟩ := store_refines (p := p) holds.represents admissible
  obtain ⟨stored, k₁, run, last⟩ := Program.runs_bind_split ran
  obtain ⟨same, rfl⟩ := Program.runs_done_iff.mp last
  obtain rfl : .ok (k.source n) = stored := Answer.stored.inj same
  have unsent : k'.sent = k.sent :=
    ((store_holds (F := .all) name file trivial trivial fun _ _ => ⟨trivial, trivial, trivial, trivial⟩).sent
      id (fun _ => trivial) (run.mono fun _ _ _ _ step => Or.inl step)).2
  have replies : Runs p (putFile libc name file) k
      (some (succeed (Outcome.stored (k.source n)).payload)) k' := by
    rw [← Responses.stored_reply]
    exact run.bind Program.Runs.done
  refine ⟨_, k', replies, ?_, ⟨represents, ?_⟩, source⟩
  · rw [Responses.succeed_frame _ rfl, unsent]
    rfl
  · intro e member
    rw [source]
    rcases List.mem_append.mp (show e ∈ m ++ [⟨k.source n, name, file⟩] from member) with before | new
    · obtain ⟨i, earlier, drawn⟩ := holds.drawn e before
      exact ⟨i, Nat.lt_succ_of_lt earlier, drawn⟩
    · rw [List.mem_singleton.mp new]
      exact ⟨n, Nat.lt_succ_self n, rfl⟩

theorem del_answered (holds : Holds k s) {id : Bytes} (plain : PlainName id) :
    Answered libc p k (.del id) (outcome libc k.source (.del id) s) (apply k.source (.del id) s) := by
  obtain ⟨m, n⟩ := s
  obtain ⟨k', ran, represents, source⟩ :=
    remove_refines (p := p) holds.represents (show (Op.remove id).Admissible k.source (m, n) from plain)
  obtain ⟨removed, k₁, run, last⟩ := Program.runs_bind_split ran
  obtain ⟨same, rfl⟩ := Program.runs_done_iff.mp last
  have removed_eq := Answer.removed.inj same
  have unsent : k'.sent = k.sent :=
    ((remove_holds (F := .all) id trivial trivial ⟨trivial, trivial⟩ fun _ => ⟨trivial, trivial⟩).sent
      (fun talks => talks) (fun _ => trivial) (run.mono fun _ _ _ _ step => Or.inl step)).2
  have holds' : Holds k' (m.erase id, n) := by
    refine ⟨represents, ?_⟩
    intro e member
    rw [source]
    exact holds.drawn e (List.mem_filter.mp member).1
  rw [← removed_eq] at run
  by_cases there : (m.lookup id).isSome
  · rw [if_pos there] at run
    refine ⟨succeed [], k', run.bind Program.Runs.done, ?_, holds', source⟩
    rw [show succeed [] = succeed Outcome.deleted.payload from rfl, Responses.succeed_frame _ rfl, unsent]
    simp [outcome, there]
  · rw [if_neg there] at run
    refine ⟨refuse (libc.strerror ENOENT), k', run.bind Program.Runs.done, ?_, holds', source⟩
    rw [Responses.refuse_frame, unsent]
    simp [outcome, there, missing]

theorem call_answered (holds : Holds k s) (admissible : Admissible libc k.source c s) :
    Answered libc p k c (outcome libc k.source c s) (apply k.source c s) := by
  cases c with
  | get id => exact get_answered holds admissible.plain admissible.answered
  | put name file => exact put_answered holds (admissible.stores name file rfl)
  | desc id => exact desc_answered holds admissible.plain
  | del id => exact del_answered holds admissible.plain
  | list name => exact list_answered holds admissible.plain

/-- A request for a call is answered by its outcome and by nothing else. -/
theorem serve_refines (holds : Holds k s) (admissible : Admissible libc k.source c s)
    (asks : r.Asks libc c) : ∃ k', Runs r.pid (r.serve libc) k (.inl ()) k' ∧
      k'.sent r.pid = k.sent r.pid ++ (outcome libc k.source c s).frame ∧
      Holds k' (apply k.source c s) ∧ k'.source = k.source := by
  obtain ⟨reply, k₁, run, wrote, holds', source⟩ := call_answered (p := r.pid) holds admissible
  have gives := History.serve_gives asks run
  refine ⟨_, (gives _ _).mpr ⟨rfl, rfl⟩, ?_, holds'.said _, source⟩
  rw [Kernel.said_sent, wrote]

end Serving
end Sfsdb.Service

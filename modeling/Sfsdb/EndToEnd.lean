import Sfsdb.Service
import Sfsdb.Shell

/-!
From the lines typed into the shell to the files on the server's disk. The client
runs its shell at one end of a connection, `con_handler` serves at the other, and
the buffers between them hold as little as one byte. Each call is followed along
one schedule, on which the client says its request, the server its response, and
the call ends with the answer of the abstract service; since the steps of a
connection commute, the transcript and the volume are the same on every schedule.
-/

namespace Sfsdb.EndToEnd

open Posix Protocol
open Duplex (Talks Listens Side Net Reaches Settles Step)
open Connection (Converses Endpoint Insists port)
open Session (Command framed)
open Responses (Outcome reads)
open Service (Holds Admissible Keeps outcome)
open Shell (Action)
open Volume (Map)
open History (Request)

/-! ## The shell and what it should print -/

section Shells
variable (stale : Nat) (behind : Mem) (files : Bytes → Option Bytes)

/-- What the shell does in a turn; `files` are the local files that can be opened. -/
def act : Action → Prog (Option Client.Answer)
  | .get id => do return some (← Client.get stale behind id)
  | .put filename filepath => do return some (← Client.put stale behind filename (files filepath))
  | .desc id => do return some (← Client.desc stale behind id)
  | .del id => do return some (← Client.del stale behind id)
  | .list filename => do return some (← Client.list stale behind filename)
  | .quit => do
      Client.quit
      return none
  | .skip | .usage _ | .help | .unknown _ => return none

def acts : List Action → Prog (List (Option Client.Answer))
  | [] => return []
  | action :: rest => do
      let answer ← act stale behind files action
      let answers ← acts rest
      return answer :: answers

def command : Action → Option Command
  | .get id => some (.get id)
  | .put filename filepath => (files filepath).map (.put filename)
  | .desc id => some (.desc id)
  | .del id => some (.del id)
  | .list filename => some (.list filename)
  | _ => none

variable (libc : Libc) (source : Nat → Bytes)

def printed (action : Action) (s : Map × Nat) : Option Client.Answer :=
  match command files action with
  | some c => some (outcome libc source c s).answer
  | none => match action with
    | .put _ _ => some .noFile
    | _ => none

def after (action : Action) (s : Map × Nat) : Map × Nat :=
  match command files action with
  | some c => Service.apply source c s
  | none => s

def transcript : List Action → Map × Nat → List (Option Client.Answer)
  | [], _ => []
  | action :: rest, s => printed files libc source action s :: transcript rest (after files source action s)

def afterAll (actions : List Action) (s : Map × Nat) : Map × Nat :=
  actions.foldl (fun s action => after files source action s) s

def AdmissibleAll : List Action → Map × Nat → Prop
  | [], _ => True
  | action :: rest, s =>
      (∀ c, command files action = some c → Admissible libc source c s) ∧
        AdmissibleAll rest (after files source action s)

end Shells

/-! ## The client's end -/

section Client
variable {p : Pid} {k : Kernel} {stale : Nat} {behind : Mem} {α : Type}

theorem send_converses (bytes : Bytes) : Keeps Converses (Sys.send bytes) :=
  Program.within_issue (c := Call.send bytes) (by simp [Converses]) fun _ _ => trivial

theorem putRequest_converses (filename file : Bytes) : Keeps Converses (Client.putRequest filename file) := by
  have blocks : ∀ length written, Keeps Converses (Client.putBlock file length written) := by
    intro length written
    unfold Client.putBlock
    split
    · apply (send_converses _).bind
      intro sent _
      cases sent <;> exact Program.Within.done trivial
    · exact Program.Within.done trivial
  apply (send_converses _).bind
  intro first _
  cases first with
  | error _ => exact Program.Within.done trivial
  | ok _ =>
      apply (Program.within_iterate (fun _ => True) (fun _ => True) trivial fun written _ =>
        (blocks _ written).mono fun result _ => by cases result <;> trivial).bind
      intro second _
      cases second with
      | error _ => exact Program.Within.done trivial
      | ok _ =>
          apply (send_converses _).bind
          intro third _
          cases third with
          | error _ => exact Program.Within.done trivial
          | ok _ => exact send_converses []

theorem request_talks {request : Prog (Except Unit Unit)} {bytes : Bytes} (keeps : Keeps Converses request)
    (run : Runs p request k (.ok ()) (k.said p bytes)) :
    Talks (port p) request ⟨k, false⟩ bytes (.done (.ok ())) ⟨k.said p bytes, false⟩ := by
  obtain ⟨said, sent, _, talks⟩ := Connection.talks_of_runs keeps run
  rw [Kernel.said_sent] at sent
  obtain rfl := List.append_cancel_left sent
  exact talks

theorem issue_talks (c : Command) (valid : c.Valid) :
    Talks (port p) (c.issue stale behind) ⟨k, false⟩ c.frame (reads stale behind c)
      ⟨k.said p c.frame, false⟩ := by
  have frames := fun no => Session.request_frames no c.text valid.free valid.textSized
  have sends : ∀ bytes, Talks (port p) (Sys.send bytes) ⟨k, false⟩ bytes (.done (.ok ()))
      ⟨k.said p bytes, false⟩ := fun bytes => request_talks (send_converses bytes) (send_runs p k bytes)
  cases c with
  | get id =>
      rw [show (Command.get id).frame = _ from (frames 1).1.symm]
      exact (sends _).bind
  | put filename file =>
      exact (request_talks (putRequest_converses filename file)
        (Session.putRequest_runs filename file valid.free valid.sized k)).bind
  | desc id =>
      rw [show (Command.desc id).frame = _ from (frames 3).2.symm]
      exact (sends _).bind
  | del id =>
      rw [show (Command.del id).frame = _ from (frames 4).2.symm]
      exact (sends _).bind
  | list filename =>
      rw [show (Command.list filename).frame = _ from (frames 5).1.symm]
      exact (sends _).bind

theorem reads_insists (c : Command) : Insists Client.Answer.ioError (reads stale behind c) := by
  -- A response that breaks off is an I/O error.
  have head : ∀ f : Except Client.Answer Data → Prog Client.Answer,
      (∀ answer, f (.error answer) = .done answer) → (∀ head, Insists Client.Answer.ioError (f (.ok head))) →
      Insists Client.Answer.ioError ((Client.readHead stale).bind f) := by
    intro f lost insists
    have gone : ∀ answer, Insists Client.Answer.ioError (f (.error answer)) := by
      intro answer
      rw [lost]
      exact Insists.done
    refine Insists.recv (lost _) fun bytes => ?_
    dsimp only [Program.bind]
    split
    · exact gone _
    · split
      · exact gone _
      · exact insists _
  have body : ∀ (reply : Mem → Option Client.Answer) (head : Data),
      Insists Client.Answer.ioError (Client.readBody behind reply head) := by
    intro reply head
    refine Insists.recv rfl fun bytes => ?_
    dsimp only [Program.bind]
    split <;> exact Insists.done
  cases c with
  | del id =>
      apply head _ fun _ => rfl
      intro head
      dsimp only
      split
      · exact Insists.done
      · refine Insists.recv rfl fun bytes => ?_
        dsimp only [Program.bind]
        split <;> exact Insists.done
  | _ => exact head _ (fun _ => rfl) fun head => body _ head

theorem answer_arrives (o : Outcome) : o.answer ≠ .ioError := by
  cases o <;> simp [Outcome.answer]

end Client

/-! ## The server's end -/

section Server
variable {q : Pid} {k : Kernel} {σ : Type}

theorem conPass_listens (libc : Libc) (stale : Nat) (serve : σ → Data → Bytes → Prog (σ ⊕ σ × Server.End)) (st : σ)
    (request : Nat × Bytes) (small : request.1 < 65536) (sized : request.2.length < 4294967296)
    {rest : Bytes} (inbox : k.inbox q = framed request ++ rest) :
    Listens (port q) (Server.conPass libc stale serve st) ⟨k, false⟩
      (serve st (Types.header request.1 request.2.length) request.2) ⟨k.hears q rest, false⟩ := by
  have parts : k.inbox q =
      (Types.header request.1 request.2.length).toBytes ++ (request.2 ++ rest) := by
    rw [inbox, framed, List.append_assoc]
  have length : (Types.header request.1 request.2.length).length = request.2.length :=
    Nat.mod_eq_of_lt sized
  refine Listens.trans (Connection.receives parts) ?_
  dsimp only
  rw [Session.header_read request.1 request.2.length small sized]
  dsimp only
  rw [if_neg (by simp [Error.isError, Error.ofErrno]), length]
  rw [← Kernel.hears_hears (k := k) (p := q) (request.2 ++ rest) rest]
  exact Connection.receives (Kernel.hears_inbox _)

theorem conHandler_listens (libc : Libc) (stale : Nat) (behind : Mem) (request : Nat × Bytes) (small : request.1 < 65536)
    (sized : request.2.length < 4294967296) {rest : Bytes} (inbox : k.inbox q = framed request ++ rest) :
    Listens (port q) (Server.conHandler libc stale behind) ⟨k, false⟩
      ((Server.serveRequest libc behind () (Types.header request.1 request.2.length) request.2).bind
        (Program.turn (Server.conPass libc stale (Server.serveRequest libc behind)) .done))
      ⟨k.hears q rest, false⟩ :=
  Listens.loop (conPass_listens libc stale _ _ request small sized inbox).bind

end Server

/-! ## One call -/

section Calls
variable {libc : Libc} {p q : Pid} {kc ks : Kernel} (stale stale' : Nat) (memory : Nat → Byte) (behind' : Mem)
  {cap : Nat} {s : Map × Nat} {α : Type}

def between (program : Prog α) (client : Endpoint) (server : Prog (Unit × Server.End)) (e : Endpoint) :
    Net Call Call Resp Resp Endpoint Endpoint Byte α (Unit × Server.End) :=
  ⟨⟨program, client, []⟩, ⟨server, e, []⟩⟩

def serving (libc : Libc) (stale : Nat) (behind : Mem) (q : Pid) (c : Command) : Prog (Unit × Server.End) :=
  ((⟨q, behind, Types.header c.no c.body.length, c.body⟩ : Request).serve libc).bind
    (Program.turn (Server.conPass libc stale (Server.serveRequest libc behind)) .done)

theorem request_reaches (positive : 0 < cap) (c : Command) (valid : c.Valid) (unasked : ks.inbox q = [])
    (f : Client.Answer → Prog α) (behind : Mem) :
    Reaches (port p) (port q) cap
      (between ((c.issue stale behind).bind f) ⟨kc, false⟩ (Server.conHandler libc stale' behind') ⟨ks, false⟩)
      (between ((reads stale behind c).bind f) ⟨kc.said p c.frame, false⟩ (serving libc stale' behind' q c)
        ⟨ks.hears q [], false⟩) := by
  have asked : (ks.hears q c.frame).inbox q = framed (c.no, c.body) ++ [] := by
    rw [Kernel.hears_inbox, List.append_nil]
    rfl
  have listens := conHandler_listens libc stale' behind' (c.no, c.body) c.no_lt valid.sized asked
  rw [Kernel.hears_hears] at listens
  have heard : Listens (port q) (Server.conHandler libc stale' behind')
      ((port q).delivered ⟨ks, false⟩ c.frame) (serving libc stale' behind' q c) ⟨ks.hears q [], false⟩ := by
    rw [Connection.delivered_open, unasked]
    exact listens
  have emptied : (port q).inbox ⟨ks.hears q [], false⟩ = [] := Kernel.hears_inbox []
  exact (issue_talks c valid).bind.heard (Connection.port_lawful q) positive heard emptied

theorem serve_inbox {r : Request} {c : Command} {ks' : Kernel} (asks : r.Asks libc c)
    (run : Runs r.pid (r.serve libc) ks (.inl ()) ks') : ks'.inbox r.pid = ks.inbox r.pid := by
  obtain ⟨_, _, inbox, _⟩ := Connection.talks_of_runs (Service.serve_converses asks) run
  exact inbox

theorem response_reaches (positive : 0 < cap) (c : Command) {o : Outcome} (of : o.Of c.no)
    (sized : o.payload.length < 4294967296) (asks : (⟨q, behind', Types.header c.no c.body.length, c.body⟩ :
      Request).Asks libc c) {ks' : Kernel}
    (run : Runs q ((⟨q, behind', Types.header c.no c.body.length, c.body⟩ : Request).serve libc) ks (.inl ()) ks')
    (wrote : ks'.sent q = ks.sent q ++ o.frame) (throws : kc.Throws) (unheard : kc.inbox p = []) (f : Client.Answer → Prog α) :
    Reaches (port p) (port q) cap
      (between ((reads stale (fun i => some (memory i)) c).bind f) ⟨kc, false⟩ (serving libc stale' behind' q c)
        ⟨ks, false⟩)
      (between (f o.answer) ⟨kc.hears p [], false⟩ (Server.conHandler libc stale' behind') ⟨ks', false⟩) := by
  obtain ⟨said, sent, _, talks⟩ := Connection.talks_of_runs (Service.serve_converses asks) run
  obtain rfl := List.append_cancel_left (wrote.symm.trans sent)
  have arrived : (kc.hears p o.frame).inbox p = o.frame ++ [] := by
    rw [Kernel.hears_inbox, List.append_nil]
  have reading := Responses.reads_outcome stale o c of sized (Responses.readable_total memory o) arrived
  rw [Kernel.hears_hears] at reading
  have heard : Listens (port p) ((reads stale (fun i => some (memory i)) c).bind f)
      ((port p).delivered ⟨kc, false⟩ o.frame) (f o.answer) ⟨kc.hears p [], false⟩ := by
    rw [Connection.delivered_open, unheard]
    exact ((reads_insists c).listens reading throws (answer_arrives o)).bind
  have emptied : (port p).inbox ⟨kc.hears p [], false⟩ = [] := Kernel.hears_inbox []
  exact Talks.heard_left (Connection.port_lawful p) positive heard emptied talks.bind

theorem call_reaches (positive : 0 < cap) (c : Command) (holds : Holds ks s)
    (admissible : Admissible libc ks.source c s) (throws : kc.Throws) (unheard : kc.inbox p = []) (unasked : ks.inbox q = [])
    (f : Client.Answer → Prog α) :
    ∃ kc' ks', Reaches (port p) (port q) cap
        (between ((c.issue stale fun i => some (memory i)).bind f) ⟨kc, false⟩
          (Server.conHandler libc stale' behind') ⟨ks, false⟩)
        (between (f (outcome libc ks.source c s).answer) ⟨kc', false⟩
          (Server.conHandler libc stale' behind') ⟨ks', false⟩) ∧
      kc'.inbox p = [] ∧ ks'.inbox q = [] ∧ Holds ks' (Service.apply ks.source c s) ∧
      ks'.source = ks.source ∧ kc'.Throws ∧ (ks.Throws → ks'.Throws) := by
  have valid := admissible.valid
  have asks : Request.Asks libc ⟨q, behind', Types.header c.no c.body.length, c.body⟩ c :=
    ⟨Nat.mod_eq_of_lt c.no_lt, (Session.understood libc behind' c valid).decoded⟩
  obtain ⟨ks', run, wrote, holds', source⟩ :=
    Service.serve_refines (holds.hears (p := q) []) admissible asks
  have unread : (kc.said p c.frame).inbox p = [] := unheard
  have throws' : (kc.said p c.frame).Throws := throws
  have response := response_reaches stale stale' memory behind' positive c
    (Service.outcome_of libc ks.source c s) admissible.answered asks run wrote throws' unread f
  have lasting : ks.Throws → ks'.Throws := by
    intro answers
    have heard : (ks.hears q []).Throws := answers
    exact Kernel.runs_throws run heard
  refine ⟨_, ks', (request_reaches stale stale' behind' positive c valid unasked f _).trans response,
    Kernel.hears_inbox [], ?_, holds', source, throws, lasting⟩
  rw [serve_inbox asks run]
  exact Kernel.hears_inbox []

end Calls

/-! ## The end of a session -/

section Quitting
variable (libc : Libc) {p q : Pid} {k : Kernel} (stale : Nat) (behind : Mem) {cap : Nat} {α : Type}

theorem quit_talks : ∃ e, Talks (port p) Client.quit ⟨k, false⟩ (framed (6, [])) (.done ()) e := by
  have sends : Talks (port p) Client.quit ⟨k, false⟩ (framed (6, []) ++ ([] ++ [])) (.done ()) _ :=
    Talks.call (c := Call.send (framed (6, []))) rfl rfl (Talks.call (c := Call.disconnect) rfl rfl Talks.refl)
  exact ⟨_, sends⟩

theorem quit_listens (throws : k.Throws) (inbox : k.inbox q = framed (6, [])) :
    Listens (port q) (Server.conHandler libc stale behind) ⟨k, false⟩ (.done ((), .left))
      ⟨(k.hears q []).hears q [], true⟩ := by
  -- The handler hangs up, so that the next header cannot be received.
  have asked : k.inbox q = framed (6, []) ++ [] := by
    rw [inbox, List.append_nil]
  refine Listens.trans (conHandler_listens libc stale behind (6, []) (by decide) (by decide) asked) ?_
  refine Listens.call (c := Call.disconnect) (Nat.zero_le _) rfl rfl ?_
  refine Listens.loop ?_
  have closed : k.short HEADER_BYTES [] = .error () := throws _ _ (by decide)
  refine Listens.call (c := Call.recv HEADER_BYTES) (r := Except.error ()) (Nat.zero_le _) rfl ?_ Listens.refl
  change some (k.short HEADER_BYTES [], _) = _
  rw [closed]
  rfl

theorem quit_reaches (positive : 0 < cap) {ks : Kernel} (throws : ks.Throws) (unasked : ks.inbox q = []) (f : Unit → Prog α) :
    ∃ e, Reaches (port p) (port q) cap
      (between (Client.quit.bind f) ⟨k, false⟩ (Server.conHandler libc stale behind) ⟨ks, false⟩)
      (between (f ()) e (.done ((), .left)) ⟨ks.hears q [], true⟩) := by
  obtain ⟨e, talks⟩ := quit_talks (p := p) (k := k)
  have listens := quit_listens libc stale behind (k := ks.hears q (framed (6, []))) throws
    (Kernel.hears_inbox (k := ks) (p := q) (framed (6, [])))
  rw [Kernel.hears_hears, Kernel.hears_hears] at listens
  have heard : Listens (port q) (Server.conHandler libc stale behind)
      ((port q).delivered ⟨ks, false⟩ (framed (6, []))) (.done ((), .left)) ⟨ks.hears q [], true⟩ := by
    rw [Connection.delivered_open, unasked]
    exact listens
  have emptied : (port q).inbox ⟨ks.hears q [], true⟩ = [] := Kernel.hears_inbox []
  exact ⟨e, talks.bind.heard (Connection.port_lawful q) positive heard emptied⟩

end Quitting

section Sessions
variable {libc : Libc} {p q : Pid} {kc ks : Kernel} (stale stale' : Nat) (memory : Nat → Byte) (behind' : Mem)
  {cap : Nat} {files : Bytes → Option Bytes} {s : Map × Nat} {α : Type}

theorem act_reaches (positive : 0 < cap) (action : Action) (stays : action ≠ .quit) (holds : Holds ks s)
    (admissible : ∀ c, command files action = some c → Admissible libc ks.source c s) (throws : kc.Throws)
    (unheard : kc.inbox p = []) (unasked : ks.inbox q = []) (f : Option Client.Answer → Prog α) :
    ∃ kc' ks', Reaches (port p) (port q) cap
        (between ((act stale (fun i => some (memory i)) files action).bind f) ⟨kc, false⟩
          (Server.conHandler libc stale' behind') ⟨ks, false⟩)
        (between (f (printed files libc ks.source action s)) ⟨kc', false⟩
          (Server.conHandler libc stale' behind') ⟨ks', false⟩) ∧
      kc'.inbox p = [] ∧ ks'.inbox q = [] ∧ Holds ks' (after files ks.source action s) ∧
      ks'.source = ks.source ∧ kc'.Throws ∧ (ks.Throws → ks'.Throws) := by
  cases called : command files action with
  | some c =>
      have calls : act stale (fun i => some (memory i)) files action =
          (c.issue stale fun i => some (memory i)).bind fun answer => .done (some answer) := by
        cases action with
        | put filename filepath =>
            obtain ⟨file, read, rfl⟩ := Option.map_eq_some_iff.mp called
            simp only [act, read]
            rfl
        | quit => exact absurd rfl stays
        | skip | usage | help | unknown => cases called
        | _ =>
            cases called
            rfl
      rw [calls, Program.bind_assoc]
      simp only [printed, after, called]
      exact call_reaches stale stale' memory behind' positive c holds (admissible c called) throws unheard unasked fun answer => f (some answer)
  | none =>
      have silent : (act stale (fun i => some (memory i)) files action).bind f =
          f (printed files libc ks.source action s) := by
        cases action with
        | put filename filepath =>
            have unread : files filepath = none := by simpa [command] using called
            simp only [act, printed, called, unread]
            rfl
        | quit => exact absurd rfl stays
        | skip | usage | help | unknown => rfl
        | _ => cases called
      rw [silent]
      simp only [after, called]
      exact ⟨kc, ks, Relation.ReflTransGen.refl, unheard, unasked, holds, rfl, throws, id⟩

theorem session_reaches (positive : 0 < cap) (front : List Action) (stays : .quit ∉ front) (holds : Holds ks s)
    (admissible : AdmissibleAll files libc ks.source front s) (throws : kc.Throws) (answers : ks.Throws)
    (unheard : kc.inbox p = []) (unasked : ks.inbox q = []) (f : List (Option Client.Answer) → Prog α) :
    ∃ e ks', Reaches (port p) (port q) cap
        (between ((acts stale (fun i => some (memory i)) files (front ++ [.quit])).bind f) ⟨kc, false⟩
          (Server.conHandler libc stale' behind') ⟨ks, false⟩)
        (between (f (transcript files libc ks.source (front ++ [.quit]) s)) e (.done ((), .left)) ⟨ks', true⟩) ∧
      Holds ks' (afterAll files ks.source (front ++ [.quit]) s) := by
  -- By induction on the turns: each starts where the one before has left both ends.
  induction front generalizing kc ks s f with
  | nil =>
      obtain ⟨e, reach⟩ := quit_reaches libc (p := p) (k := kc) stale' behind' positive answers unasked
        fun _ => f [none]
      exact ⟨e, _, reach, holds.hears []⟩
  | cons action rest ih =>
      obtain ⟨kc₁, ks₁, reach, unheard₁, unasked₁, holds₁, source, throws₁, answers₁⟩ := act_reaches stale stale' memory
        behind' positive action
        (fun same => stays (by rw [same]; exact List.mem_cons_self)) holds admissible.1 throws unheard
        unasked fun answer => (acts stale (fun i => some (memory i)) files (rest ++ [.quit])).bind
          fun answers => f (answer :: answers)
      obtain ⟨e, ks', later, holds'⟩ := ih (fun member => stays (List.mem_cons_of_mem action member)) holds₁
        (by rw [source]; exact admissible.2) throws₁ (answers₁ answers) unheard₁ unasked₁
        fun answers => f (printed files libc ks.source action s :: answers)
      rw [source] at later holds'
      refine ⟨e, ks', ?_, holds'⟩
      have whole : (acts stale (fun i => some (memory i)) files ((action :: rest) ++ [.quit])).bind f =
          (act stale (fun i => some (memory i)) files action).bind fun answer =>
            (acts stale (fun i => some (memory i)) files (rest ++ [.quit])).bind
              fun answers => f (answer :: answers) := by
        simp only [acts, List.cons_append, Program.bind_eq_bind, Program.pure_eq_done, Program.bind_assoc]
        rfl
      rw [whole]
      exact reach.trans later

end Sessions

theorem turns_quit {lines : List Bytes} {actions : List Action} (typed : Shell.turns lines = some actions) :
    ∃ front, actions = front ++ [.quit] ∧ .quit ∉ front := by
  induction lines generalizing actions with
  | nil =>
      cases typed
      exact ⟨[], rfl, List.not_mem_nil⟩
  | cons input rest ih =>
      simp only [Shell.turns, Option.bind_eq_bind, Option.bind_eq_some_iff] at typed
      obtain ⟨action, turned, typed⟩ := typed
      split at typed
      · cases typed
        exact ⟨[], rfl, List.not_mem_nil⟩
      · rename_i stays
        obtain ⟨later, behind, same⟩ := Option.bind_eq_some_iff.mp typed
        cases same
        obtain ⟨front, rfl, last⟩ := ih behind
        exact ⟨action :: front, rfl, fun member => (List.mem_cons.mp member).elim (fun own => stays own.symm) last⟩

theorem admissibleAll_front {libc : Libc} {source : Nat → Bytes} {files : Bytes → Option Bytes}
    (front rest : List Action) {s : Map × Nat}
    (admissible : AdmissibleAll files libc source (front ++ rest) s) :
    AdmissibleAll files libc source front s := by
  induction front generalizing s with
  | nil => trivial
  | cons action more ih => exact ⟨admissible.1, ih admissible.2⟩

/-- Whatever admissible calls are typed into the shell, with whatever buffers
between the two ends and in whatever order they and the wire take their steps: the
session comes to its end, the client has printed what the map answers, and the
server is left with a volume that stands for the next map. -/
theorem shell_sessions_settle (libc : Libc) (p q : Pid) (stale stale' cap : Nat) (memory : Nat → Byte)
    (behind' : Mem) (files : Bytes → Option Bytes) (stdin : Bytes) (actions : List Action) (kc ks : Kernel)
    (s : Map × Nat) (positive : 0 < cap) (typed : Shell.shellLoop stdin = some actions) (holds : Holds ks s)
    (admissible : AdmissibleAll files libc ks.source actions s) (throws : kc.Throws ∧ ks.Throws)
    (unheard : kc.inbox p = []) (unasked : ks.inbox q = []) :
    ∃ last, Settles (Step (port p) (port q) cap) last
        (between (acts stale (fun i => some (memory i)) files actions) ⟨kc, false⟩
          (Server.conHandler libc stale' behind') ⟨ks, false⟩) ∧
      last.Ended (transcript files libc ks.source actions s) ((), .left) ∧
      Holds last.right.state.kernel (afterAll files ks.source actions s) := by
  obtain ⟨front, rfl, stays⟩ := turns_quit typed
  obtain ⟨e, ks', reach, holds'⟩ := session_reaches stale stale' memory behind' positive front stays holds
    (admissibleAll_front front [.quit] admissible) throws.1 throws.2 unheard unasked .done
  rw [Program.bind_done] at reach
  have ended : Net.Ended (between (.done (transcript files libc ks.source (front ++ [.quit]) s)) e
      (.done ((), .left)) ⟨ks', true⟩) _ _ := ⟨rfl, rfl, rfl, rfl⟩
  exact ⟨_, Duplex.settles (Connection.port_lawful p) (Connection.port_lawful q) reach ended, ended, holds'⟩

/-- An upload, its download and a question for a name that is not there, byte by byte. -/
theorem shell_sessions_settle_upload : ∃ last,
    Settles (Step (port 1) (port 2) 1) last
      (between (acts 0 (fun _ => some 0) (fun path => if path = ascii "f" then some [7] else none)
          [.put (ascii "a") (ascii "f"), .get (Volume.tick 0), .list (ascii "b"), .quit])
        ⟨Volume.initKernel Volume.tick, false⟩ (Server.conHandler History.silent 0 fun _ => none)
        ⟨Volume.initKernel Volume.tick, false⟩) ∧
    last.Ended [some (.fileId (Volume.tick 0)), some (.file [7]), some (.server []), none] ((), .left) ∧
    Holds last.right.state.kernel ([⟨Volume.tick 0, ascii "a", [7]⟩], 1) := by
  have format := Uid.get_format 0 0 0 0 0 0 0
  have typed : Shell.shellLoop (ascii "PUT a f\nGET " ++ Volume.tick 0 ++ ascii "\nLIST b\nQUIT\n") =
      some [.put (ascii "a") (ascii "f"), .get (Volume.tick 0), .list (ascii "b"), .quit] := by
    decide
  refine shell_sessions_settle History.silent 1 2 0 0 1 (fun _ => 0) (fun _ => none)
    (fun path => if path = ascii "f" then some [7] else none) _ _ _ _ ([], 0) Nat.one_pos typed
    (Service.initKernel_holds _) ⟨?_, ?_, ?_, ?_, trivial⟩
    ⟨Volume.initKernel_throws _, Volume.initKernel_throws _⟩ rfl rfl
  · rintro c called
    cases called
    refine ⟨by decide, ?_, by decide, by decide⟩
    intro name file same
    cases same
    exact ⟨by decide, format, rfl⟩
  · rintro c called
    cases called
    exact ⟨format.plain, fun name file same => (nomatch same), by decide, by decide⟩
  · rintro c called
    cases called
    exact ⟨by decide, fun name file same => (nomatch same), by decide, by decide⟩
  · rintro c called
    cases called

end Sfsdb.EndToEnd

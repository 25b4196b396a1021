import Mathlib.Data.List.Forall2
import Sfsdb.Client
import Sfsdb.Grammar
import Sfsdb.Layout
import Sfsdb.Server

/-!
A client session as the server reads it. `Command` is a call of one of the five
functions of src/client/client.cpp, `Command.issue` the program it runs and
`Command.frame` the request it is meant to send. The client is followed up to
the bytes it has written; the loop of `con_handler` is followed over those
bytes with a `serve` that writes down every header and body it is given.
-/

namespace Sfsdb.Session

open Posix Protocol Handlers

inductive Command where
  | get (id : Bytes)
  | put (filename file : Bytes)
  | desc (id : Bytes)
  | del (id : Bytes)
  | list (filename : Bytes)
  deriving DecidableEq

namespace Command

def no : Command → Nat
  | .get _ => 1
  | .put _ _ => 2
  | .desc _ => 3
  | .del _ => 4
  | .list _ => 5

def text : Command → Bytes
  | .get text | .put text _ | .desc text | .del text | .list text => text

def body : Command → Bytes
  | .put filename file => stringItem filename ++ dataItem file
  | .get text | .desc text | .del text | .list text => stringItem text

def frame (c : Command) : Bytes := (Types.header c.no c.body.length).toBytes ++ c.body

structure Valid (c : Command) : Prop where
  some : c.text ≠ []
  free : 0 ∉ c.text
  sized : c.body.length < 4294967296

def issue (stale : Nat) (behind : Mem) : Command → Prog Client.Answer
  | .get id => Client.get stale behind id
  | .put filename file => Client.put stale behind filename (some file)
  | .desc id => Client.desc stale behind id
  | .del id => Client.del stale behind id
  | .list filename => Client.list stale behind filename

def served (libc : Libc) : Command → Prog (Option Reply)
  | .get id => getFile libc id
  | .put filename file => putFile libc filename file
  | .desc id => descFile libc id
  | .del id => delFile libc id
  | .list filename => listFiles libc filename

def Decoded (libc : Libc) (m : Mem) : Command → Prop
  | .put filename file => putParams libc m = some (.ok (filename, file))
  | .list filename => ∃ next, fileParam libc Handlers.expectedFileName m = some (.ok (filename, next))
  | .get id | .desc id | .del id =>
      ∃ next, fileParam libc Handlers.expectedFileId m = some (.ok (id, next))

/-- A request is understood as the call `c`: its number selects a handler that
decodes the parameters of `c` and serves `c` with them. -/
structure Understood (libc : Libc) (behind : Mem) (c : Command) (request : Nat × Bytes) : Prop where
  command : request.1 = c.no
  decoded : c.Decoded libc (Mem.followedBy request.2 behind)
  handled : ∃ handler, select (commands libc) request.1 = some handler ∧
    handler (Mem.followedBy request.2 behind) = some (c.served libc)

end Command

def session (stale : Nat) (behind : Mem) : List Command → Prog (List Client.Answer)
  | [] => return []
  | c :: rest => do
      let answer ← c.issue stale behind
      let answers ← session stale behind rest
      return answer :: answers

/-! ## What the client writes -/

theorem string_toBytes (text : Bytes) (free : 0 ∉ text) (sized : text.length < 4294967296) :
    (Types.string text).toBytes = stringItem text := by
  simp [Types.string, Data.toBytes, Data.toPayload, stringItem, cstr_of_free text free,
    Nat.mod_eq_of_lt sized]

theorem bigdata_toBytes (length : Nat) (sized : length < 4294967296) :
    (Types.bigdata length).toBytes = toNets ids.BIGDATA ++ toNetl length := by
  simp [Types.bigdata, Data.toBytes, Data.toPayload, Nat.mod_eq_of_lt sized]

theorem string_length (text : Bytes) (free : 0 ∉ text) (sized : text.length < 4294967296) :
    (Types.string text).length = text.length := by
  simp [Types.string, cstr_of_free text free, Nat.mod_eq_of_lt sized]

namespace Command

theorem body_length (c : Command) : c.body.length =
    7 + c.text.length + (match c with | .put _ file => 7 + file.length | _ => 0) := by
  cases c <;> simp [body, text, stringItem_length, dataItem_length]

theorem Valid.textSized {c : Command} (valid : c.Valid) : c.text.length < 4294967296 := by
  have sized := valid.sized
  rw [c.body_length] at sized
  omega

end Command

section Writes
variable {p : Pid} (stale : Nat) (behind : Mem)

theorem request_frames (no : Nat) (text : Bytes) (free : 0 ∉ text)
    (sized : text.length < 4294967296) :
    Client.stringRequest no text =
        (Types.header no (stringItem text).length).toBytes ++ stringItem text ∧
      Client.idRequest no text =
        (Types.header no (stringItem text).length).toBytes ++ stringItem text := by
  -- The two lengths that get, list and desc, del announce are the same.
  simp only [Client.stringRequest, Client.idRequest, string_toBytes text free sized,
    string_length text free sized, stringItem_length, HEADER_SIZE, and_self]

theorem blocks_runs (file : Bytes) (length : Nat) (k : Kernel) (written : Nat) :
    Runs p (Program.iterate (Client.putBlock file length) written) k (.ok ())
      (k.said p ((file.drop written).take (length - written))) := by
  -- by induction on the bytes that are left; only the last block can be short
  induction left : length - written using Nat.strongRecOn generalizing k written with
  | ind left ih =>
      by_cases more : written < length
      · have turn : Runs p (Client.putBlock file length written) k (.inl (written + Client.BLOCK))
            (k.said p ((file.drop written).take
              (if length - written > Client.BLOCK then Client.BLOCK else length - written))) := by
          unfold Client.putBlock
          rw [if_pos more]
          exact (send_runs p k _).bind Program.Runs.done
        have rest := ih (length - (written + Client.BLOCK)) (by simp only [Client.BLOCK]; omega)
          (k.said p ((file.drop written).take
            (if length - written > Client.BLOCK then Client.BLOCK else length - written)))
          (written + Client.BLOCK) rfl
        apply (turn.again rest).of_eq rfl
        rw [Kernel.said_said, ← List.drop_drop]
        congr 1
        by_cases full : length - written > Client.BLOCK
        · rw [if_pos full, ← left,
            show length - written = Client.BLOCK + (length - (written + Client.BLOCK)) by omega,
            List.take_add]
        · rw [if_neg full, left, show length - (written + Client.BLOCK) = 0 by omega,
            List.take_zero, List.append_nil]
      · have turn : Runs p (Client.putBlock file length written) k (.inr (.ok ())) k := by
          unfold Client.putBlock
          rw [if_neg more]
          exact Program.Runs.done
        apply turn.leave.of_eq rfl
        rw [← left, show length - written = 0 by omega, List.take_zero, Kernel.said_nothing]

/-- The bytes of an upload. Both of its lengths are cut to 32 bits, and the loop
sends as many bytes as the second of them says. -/
def upload (filename file : Bytes) : Bytes :=
  (Client.putHead filename file.length).toBytes ++ (Types.string filename).toBytes ++
    (Types.bigdata file.length).toBytes ++ file.take (Types.bigdata file.length).length ++ [MAGIC]

theorem putRequest_sent (filename file : Bytes) (k : Kernel) :
    Runs p (Client.putRequest filename file) k (.ok ()) (k.said p (upload filename file)) := by
  unfold Client.putRequest
  dsimp only
  refine (Program.Runs.bind (send_runs p k _) (Program.Runs.bind (blocks_runs file _ _ 0)
    (Program.Runs.bind (send_runs p _ _) (send_runs p _ _)))).of_eq rfl ?_
  simp only [Kernel.said_said, upload, List.drop_zero, Nat.sub_zero, List.append_nil, List.append_assoc]

theorem putHead_eq (filename file : Bytes) (free : 0 ∉ filename)
    (sized : (Command.put filename file).body.length < 4294967296) :
    Client.putHead filename file.length =
      Types.header 2 (Command.put filename file).body.length := by
  rw [Command.body_length] at sized ⊢
  simp only [Command.text] at sized ⊢
  have length := string_length filename free (by omega)
  simp only [Client.putHead, Client.addLength, Types.header, length, HEADER_SIZE, Data.mk.injEq,
    true_and, and_true]
  omega

theorem putRequest_runs (filename file : Bytes) (free : 0 ∉ filename)
    (sized : (Command.put filename file).body.length < 4294967296) (k : Kernel) :
    Runs p (Client.putRequest filename file) k (.ok ())
      (k.said p (Command.put filename file).frame) := by
  have room := Command.body_length (.put filename file)
  simp only [Command.text] at room
  have length : (Types.bigdata file.length).length = file.length :=
    Nat.mod_eq_of_lt (by omega)
  have whole : upload filename file = (Command.put filename file).frame := by
    rw [upload, length, putHead_eq filename file free sized, string_toBytes filename free (by omega),
      bigdata_toBytes file.length (by omega)]
    simp only [Command.frame, Command.body, Command.no, dataItem, List.take_length, List.append_assoc]
  exact whole ▸ putRequest_sent filename file k

def Hears (c : Call) : Prop := ∃ len, c = .recv len

theorem hears_outcome (sent : Bytes) (c : Call) (k : Kernel) (kind : Hears c)
    (before : k.sent p = sent) : ∃ r k', Kernel.Does p c k r k' ∧ k'.sent p = sent := by
  obtain ⟨len, rfl⟩ := kind
  by_cases short : (k.inbox p).length < len
  · exact ⟨_, _, if_pos short, before⟩
  · exact ⟨_, _, if_neg short, before⟩

theorem recv_hears (len : Nat) : Program.Issues Hears (Sys.recv len) :=
  Program.issues_issue ⟨len, rfl⟩

theorem readHead_hears : Program.Issues Hears (Client.readHead stale) := by
  apply (recv_hears _).bind
  intro received
  cases received with
  | error _ => exact Program.Issues.done
  | ok tmp =>
      dsimp only
      split
      · exact Program.Issues.done
      · split <;> exact Program.Issues.done

theorem recvBody_hears (head : Data) (decoder : Bytes → Option Client.Answer) :
    Program.Issues Hears (do
      let .ok body ← Sys.recv head.length | return Client.Answer.ioError
      match decoder body with
      | none => return .crashed
      | some answer => return answer) := by
  apply (recv_hears _).bind
  intro received
  cases received with
  | error _ => exact Program.Issues.done
  | ok body =>
      dsimp only
      split <;> exact Program.Issues.done

theorem readResponse_hears (reply : Mem → Option Client.Answer) :
    Program.Issues Hears (Client.readResponse stale behind reply) := by
  apply (readHead_hears stale).bind
  intro received
  cases received with
  | error _ => exact Program.Issues.done
  | ok head => exact recvBody_hears head _

theorem readDeletion_hears : Program.Issues Hears (Client.readDeletion stale behind) := by
  apply (readHead_hears stale).bind
  intro received
  cases received with
  | error _ => exact Program.Issues.done
  | ok head =>
      dsimp only
      split
      · exact Program.Issues.done
      · exact recvBody_hears head _

theorem sent_before {α β : Type} {program : Prog β} {request : Prog α} {respond : α → Prog β}
    (parts : program = request.bind respond) {k : Kernel} {value : α} {bytes : Bytes}
    (asks : Runs p request k value (k.said p bytes))
    (hears : Program.Issues Hears (respond value)) :
    ∃ answer k', Runs p program k answer k' ∧ k'.sent p = k.sent p ++ bytes := by
  subst parts
  obtain ⟨answer, k', responds, kept⟩ :=
    hears.runs (hears_outcome (k.sent p ++ bytes)) (Kernel.said_sent bytes)
  exact ⟨answer, k', asks.bind responds, kept⟩

theorem issue_writes (c : Command) (valid : c.Valid) (k : Kernel) :
    ∃ answer k', Runs p (c.issue stale behind) k answer k' ∧
      k'.sent p = k.sent p ++ c.frame := by
  have frames := fun no => request_frames no c.text valid.free valid.textSized
  cases c with
  | get id =>
      rw [show (Command.get id).frame = _ from (frames 1).1.symm]
      exact sent_before rfl (send_runs p k _) (readResponse_hears stale behind Client.getReply)
  | put filename file =>
      exact sent_before rfl (putRequest_runs filename file valid.free valid.sized k)
        (readResponse_hears stale behind Client.putReply)
  | desc id =>
      rw [show (Command.desc id).frame = _ from (frames 3).2.symm]
      exact sent_before rfl (send_runs p k _) (readResponse_hears stale behind Client.descReply)
  | del id =>
      rw [show (Command.del id).frame = _ from (frames 4).2.symm]
      exact sent_before rfl (send_runs p k _) (readDeletion_hears stale behind)
  | list filename =>
      rw [show (Command.list filename).frame = _ from (frames 5).1.symm]
      exact sent_before rfl (send_runs p k _) (readResponse_hears stale behind Client.listReply)

theorem session_writes (calls : List Command) (valid : ∀ c ∈ calls, c.Valid) (k : Kernel) :
    ∃ answers k', Runs p (session stale behind calls) k answers k' ∧
      k'.sent p = k.sent p ++ calls.flatMap Command.frame := by
  induction calls generalizing k with
  | nil => exact ⟨[], k, Program.Runs.done, by simp⟩
  | cons c rest ih =>
      obtain ⟨answer, k₁, first, wrote⟩ := issue_writes stale behind c (valid c List.mem_cons_self) k
      obtain ⟨answers, k₂, last, wroteRest⟩ :=
        ih (fun other member => valid other (List.mem_cons_of_mem c member)) k₁
      refine ⟨answer :: answers, k₂, first.bind (last.bind Program.Runs.done), ?_⟩
      rw [wroteRest, wrote, List.flatMap_cons, List.append_assoc]

end Writes

/-! ## How the server splits it -/

section Splits
variable {libc : Libc} {stale : Nat} {p : Pid} {σ : Type}

def framed (request : Nat × Bytes) : Bytes :=
  (Types.header request.1 request.2.length).toBytes ++ request.2

theorem header_read (no length : Nat) (small : no < 65536) (sized : length < 4294967296) :
    getType (Mem.ofList (Types.header no length).toBytes) 0 (Server.header stale) =
      some (.ofErrno 0, Types.header no length, 8) := by
  have whole : (Types.header no length).toBytes =
      toNets ids.HEADER ++ toNetl length ++ toNets no := by
    simp [Types.header, Data.toBytes, Data.toPayload, Nat.mod_eq_of_lt sized,
      Nat.mod_eq_of_lt small]
  have fields : Types.header no length = ⟨ids.HEADER, length, .header no⟩ := by
    simp [Types.header, Nat.mod_eq_of_lt sized, Nat.mod_eq_of_lt small]
  have holds := Mem.ofList_holds (Types.header no length).toBytes
  rw [whole] at holds
  obtain ⟨front, body⟩ := (Mem.holds_append_iff _ _ _ _).mp holds
  have read := toHosts_of_holds _ 6 no body
  rw [Nat.mod_eq_of_lt small] at read
  rw [whole, fields]
  refine getType_unchecked _ 0 8 (Server.header stale) ⟨ids.HEADER, length, .header no⟩ rfl
    (show ids.HEADER < 65536 by decide) sized (Or.inl rfl) front ?_
  simp only [Data.fromPayload, Server.header, Nat.zero_add, read, Option.bind_eq_bind,
    Option.bind_some]
  rfl

theorem conPass_frame (serve : σ → Data → Bytes → Prog (σ ⊕ σ × Server.End)) (st : σ)
    (request : Nat × Bytes) (small : request.1 < 65536) (sized : request.2.length < 4294967296)
    {k k' : Kernel} {rest : Bytes} {result : σ ⊕ σ × Server.End}
    (inbox : k.inbox p = framed request ++ rest)
    (served : Runs p (serve st (Types.header request.1 request.2.length) request.2)
      (k.hears p rest) result k') :
    Runs p (Server.conPass libc stale serve st) k result k' := by
  have parts : k.inbox p =
      (Types.header request.1 request.2.length).toBytes ++ (request.2 ++ rest) := by
    rw [inbox, framed, List.append_assoc]
  have head : Runs p (Sys.recv HEADER_BYTES) k _ _ := recv_runs parts
  have body := recv_runs (Kernel.hears_inbox (k := k) (p := p) (request.2 ++ rest))
  rw [Kernel.hears_hears] at body
  apply head.bind
  dsimp only
  rw [header_read request.1 request.2.length small sized]
  have length : (Types.header request.1 request.2.length).length = request.2.length :=
    Nat.mod_eq_of_lt sized
  dsimp only
  rw [if_neg (by simp [Error.isError, Error.ofErrno]), length]
  exact body.bind served

theorem conPass_ended (serve : σ → Data → Bytes → Prog (σ ⊕ σ × Server.End)) (st : σ) {k : Kernel}
    (throws : k.Throws) (ended : k.inbox p = []) :
    Runs p (Server.conPass libc stale serve st) k (.inr (st, .left)) (k.hears p []) :=
  (recv_failed throws (by rw [ended]; decide)).bind Program.Runs.done

def record (seen : List (Nat × Bytes)) (head : Data) (req : Bytes) :
    Prog (List (Nat × Bytes) ⊕ List (Nat × Bytes) × Server.End) :=
  return .inl (seen ++ [(head.command, req)])

/-- The loop takes a stream of frames apart again, whatever it has seen before. -/
theorem conLoop_frames (requests : List (Nat × Bytes))
    (fit : ∀ r ∈ requests, r.1 < 65536 ∧ r.2.length < 4294967296) (seen : List (Nat × Bytes))
    (k : Kernel) (inbox : k.inbox p = requests.flatMap framed) :
    Program.Reaches (Kernel.Does p) (Server.conLoop libc stale record seen) k
      (Server.conLoop libc stale record (seen ++ requests)) (k.hears p []) := by
  induction requests generalizing seen k with
  | nil =>
      have unread : k.hears p [] = k := by
        rw [← show k.inbox p = [] from inbox, Kernel.hears_same]
      rw [unread, List.append_nil]
      exact Program.Reaches.refl
  | cons request rest ih =>
      obtain ⟨small, sized⟩ := fit request List.mem_cons_self
      have command : (Types.header request.1 request.2.length).command = request.1 :=
        Nat.mod_eq_of_lt small
      have turn : Runs p (Server.conPass libc stale record seen) k (.inl (seen ++ [request]))
          (k.hears p (rest.flatMap framed)) :=
        conPass_frame record seen request small sized (by rw [inbox, List.flatMap_cons])
          (Program.Runs.done.of_eq (by rw [command]) rfl)
      have others := ih (fun r member => fit r (List.mem_cons_of_mem request member))
        (seen ++ [request]) (k.hears p (rest.flatMap framed)) (Kernel.hears_inbox _)
      rw [List.append_assoc, List.singleton_append, Kernel.hears_hears] at others
      exact (Program.Reaches.again turn).trans others

theorem conLoop_ended (seen : List (Nat × Bytes)) {k : Kernel} (throws : k.Throws) (ended : k.inbox p = []) :
    Runs p (Server.conLoop libc stale record seen) k (seen, .left) (k.hears p []) :=
  (conPass_ended record seen throws ended).leave

end Splits

/-! ## What the handlers make of it -/

theorem Command.no_lt (c : Command) : c.no < 65536 := by
  cases c <;> simp [no]

theorem decodes (libc : Libc) (c : Command) (valid : c.Valid) (m : Mem) (holds : m.Holds 0 c.body) :
    c.Decoded libc m := by
  have sized := valid.textSized
  cases c with
  | put filename file =>
      have room := (Command.put filename file).body_length ▸ valid.sized
      exact putParams_holds libc m filename file valid.some sized (by dsimp only at room; omega) holds
  | get id | desc id | del id => exact ⟨_, fileParam_holds libc _ m id valid.some sized holds⟩
  | list filename => exact ⟨_, fileParam_holds libc _ m filename valid.some sized holds⟩

theorem Command.Decoded.handled {libc : Libc} {c : Command} {m : Mem} (decoded : c.Decoded libc m) :
    ∃ handler, select (commands libc) c.no = some handler ∧ handler m = some (c.served libc) := by
  cases c with
  | put filename file =>
      refine ⟨Handlers.put libc, rfl, ?_⟩
      rw [Handlers.put, show putParams libc _ = _ from decoded]
      rfl
  | get id =>
      obtain ⟨next, read⟩ := decoded
      refine ⟨Handlers.get libc, rfl, ?_⟩
      rw [Handlers.get, withFile, read]
      rfl
  | desc id =>
      obtain ⟨next, read⟩ := decoded
      refine ⟨Handlers.desc libc, rfl, ?_⟩
      rw [Handlers.desc, withFile, read]
      rfl
  | del id =>
      obtain ⟨next, read⟩ := decoded
      refine ⟨Handlers.del libc, rfl, ?_⟩
      rw [Handlers.del, withFile, read]
      rfl
  | list filename =>
      obtain ⟨next, read⟩ := decoded
      refine ⟨Handlers.list libc, rfl, ?_⟩
      rw [Handlers.list, withFile, read]
      rfl

theorem understood (libc : Libc) (behind : Mem) (c : Command) (valid : c.Valid) :
    c.Understood libc behind (c.no, c.body) := by
  have decoded := decodes libc c valid _ (Mem.followedBy_holds c.body behind)
  exact ⟨rfl, decoded, decoded.handled⟩

section Selected
variable {libc : Libc}

theorem string_program {m : Mem} {missing : CString} {use : Bytes → Prog (Option Reply)}
    {program : Prog (Option Reply)} (decoded : withFile libc missing use m = some program) :
    (∃ msg, program = .done (some (refuse msg))) ∨
      ∃ x next, x ≠ [] ∧ fileParam libc missing m = some (.ok (x, next)) ∧ program = use x := by
  simp only [withFile, Option.map_eq_some_iff] at decoded
  obtain ⟨params, read, rfl⟩ := decoded
  cases params with
  | error msg => exact Or.inl ⟨msg, rfl⟩
  | ok params =>
      obtain ⟨x, next⟩ := params
      exact Or.inr ⟨x, next, (fileParam_ok libc missing m x next read).1, read, rfl⟩

theorem program_cases {no : Nat} {m : Mem} {handler : Handler} {program : Prog (Option Reply)}
    (known : no ∈ [1, 2, 3, 4, 5]) (selected : select (commands libc) no = some handler)
    (decoded : handler m = some program) :
    (∃ msg, program = .done (some (refuse msg))) ∨
      ∃ c : Command, c.no = no ∧ c.text ≠ [] ∧ c.Decoded libc m ∧ program = c.served libc := by
  simp only [List.mem_cons, List.not_mem_nil, or_false] at known
  rcases known with rfl | rfl | rfl | rfl | rfl <;> obtain rfl := Option.some.inj selected
  · rcases string_program decoded with refused | ⟨x, next, some, read, rfl⟩
    · exact Or.inl refused
    · exact Or.inr ⟨.get x, rfl, some, ⟨next, read⟩, rfl⟩
  · simp only [Handlers.put, Option.map_eq_some_iff] at decoded
    obtain ⟨params, read, rfl⟩ := decoded
    cases params with
    | error msg => exact Or.inl ⟨msg, rfl⟩
    | ok params =>
        obtain ⟨name, data⟩ := params
        exact Or.inr ⟨.put name data, rfl, (putParams_ok libc m name data read).1, read, rfl⟩
  · rcases string_program decoded with refused | ⟨x, next, some, read, rfl⟩
    · exact Or.inl refused
    · exact Or.inr ⟨.desc x, rfl, some, ⟨next, read⟩, rfl⟩
  · rcases string_program decoded with refused | ⟨x, next, some, read, rfl⟩
    · exact Or.inl refused
    · exact Or.inr ⟨.del x, rfl, some, ⟨next, read⟩, rfl⟩
  · rcases string_program decoded with refused | ⟨x, next, some, read, rfl⟩
    · exact Or.inl refused
    · exact Or.inr ⟨.list x, rfl, some, ⟨next, read⟩, rfl⟩

theorem selectFrom_mem {H : Type _} {command : Nat} {fallback : Option H} {table : List (Nat × Option H)}
    {h : H} (selected : selectFrom command fallback table = some h) :
    fallback = some h ∨ (command, some h) ∈ table ∨ (INVALID_COMMAND, some h) ∈ table := by
  induction table generalizing fallback with
  | nil => exact Or.inl selected
  | cons entry rest ih =>
      obtain ⟨no, handler⟩ := entry
      have behind : ∀ chosen, selectFrom command chosen rest = some h →
          chosen = (if no = INVALID_COMMAND then handler else fallback) →
          fallback = some h ∨ (command, some h) ∈ (no, handler) :: rest ∨
            (INVALID_COMMAND, some h) ∈ (no, handler) :: rest := by
        rintro chosen later rfl
        rcases ih later with first | own | other
        · split at first
          · rename_i same
            rw [first, same]
            exact Or.inr (Or.inr List.mem_cons_self)
          · exact Or.inl first
        · exact Or.inr (Or.inl (List.mem_cons_of_mem _ own))
        · exact Or.inr (Or.inr (List.mem_cons_of_mem _ other))
      simp only [selectFrom] at selected
      split at selected
      · rename_i same
        cases handler with
        | some found =>
            rw [← Option.some.inj selected, same]
            exact Or.inr (Or.inl List.mem_cons_self)
        | none => exact behind _ selected rfl
      · exact behind _ selected rfl

theorem select_cases {no : Nat} {handler : Handler}
    (selected : select (commands libc) no = some handler) :
    no ∈ [1, 2, 3, 4, 5] ∨ handler = invalid ∨ handler = quit := by
  rcases selectFrom_mem selected with nothing | own | fallback
  · cases nothing
  · simp only [commands, List.mem_cons, Prod.mk.injEq, Option.some.injEq, List.not_mem_nil,
      or_false] at own
    simp only [List.mem_cons, List.not_mem_nil, or_false]
    tauto
  · simp only [commands, INVALID_COMMAND, List.mem_cons, Prod.mk.injEq, Option.some.injEq,
      List.not_mem_nil, or_false, Nat.reduceEqDiff, false_and, true_and] at fallback
    exact Or.inr (Or.inl fallback)

end Selected

/-- Whatever the server answered, the bytes a session writes are split into its
calls again, one frame each, and every frame is understood as its call. Only where
the stream ends does it matter what a read makes of that. -/
theorem server_reads_commands (libc : Libc) (stale stale' : Nat) (behind behind' : Mem) (p q : Pid)
    (calls : List Command) (valid : ∀ c ∈ calls, c.Valid) (k : Kernel) :
    ∃ answers k' written, Gives p (session stale behind calls) k answers k' ∧
      k'.sent p = k.sent p ++ written ∧
      ∀ server : Kernel, server.inbox q = written → ∃ requests,
        Program.Reaches (Kernel.Does q) (Server.conLoop libc stale' record []) server
          (Server.conLoop libc stale' record requests) (server.hears q []) ∧
        (server.Throws → Gives q (Server.conLoop libc stale' record []) server (requests, .left)
          (server.hears q [])) ∧
        List.Forall₂ (Command.Understood libc behind') calls requests := by
  obtain ⟨answers, k', run, wrote⟩ := session_writes stale behind calls valid k
  refine ⟨answers, k', _, gives_of_runs run, wrote, ?_⟩
  intro server inbox
  have stream : server.inbox q = (calls.map fun c => (c.no, c.body)).flatMap framed := by
    rw [inbox, List.flatMap_map]
    rfl
  have fit : ∀ r ∈ calls.map fun c => (c.no, c.body), r.1 < 65536 ∧ r.2.length < 4294967296 := by
    intro request member
    obtain ⟨c, called, rfl⟩ := List.mem_map.mp member
    exact ⟨c.no_lt, (valid c called).sized⟩
  have split : Program.Reaches (Kernel.Does q) (Server.conLoop libc stale' record []) server
      (Server.conLoop libc stale' record (calls.map fun c => (c.no, c.body))) (server.hears q []) :=
    conLoop_frames _ fit [] server stream
  refine ⟨calls.map fun c => (c.no, c.body), split, fun throws => gives_of_runs ?_, ?_⟩
  · have ended : Runs q (Server.conLoop libc stale' record (calls.map fun c => (c.no, c.body)))
        (server.hears q []) _ _ := conLoop_ended _ throws (Kernel.hears_inbox [])
    rw [Kernel.hears_hears] at ended
    exact (split.trans (Program.Reaches.of_runs ended)).runs
  · rw [List.forall₂_map_right_iff, List.forall₂_same]
    exact fun c called => understood libc behind' c (valid c called)

/-- An upload of the bytes `cc 00` and its download, served without error texts. -/
theorem server_reads_commands_upload : ∃ answers k' written,
    Gives 1 (session 0 (fun _ => none) [.put (ascii "a") [0xcc, 0], .get (ascii "1")])
      (Volume.initKernel fun _ => []) answers k' ∧
    k'.sent 1 = (Volume.initKernel fun _ => []).sent 1 ++ written ∧
    ∀ server : Kernel, server.inbox 2 = written → ∃ requests,
      Program.Reaches (Kernel.Does 2)
        (Server.conLoop ⟨fun _ => ⟨[], by decide⟩, fun _ _ => ⟨[], by decide⟩, fun _ _ => none⟩ 0 record []) server
        (Server.conLoop ⟨fun _ => ⟨[], by decide⟩, fun _ _ => ⟨[], by decide⟩, fun _ _ => none⟩ 0 record requests)
        (server.hears 2 []) ∧
      (server.Throws →
        Gives 2 (Server.conLoop ⟨fun _ => ⟨[], by decide⟩, fun _ _ => ⟨[], by decide⟩, fun _ _ => none⟩ 0 record [])
          server (requests, .left) (server.hears 2 [])) ∧
      List.Forall₂
        (Command.Understood ⟨fun _ => ⟨[], by decide⟩, fun _ _ => ⟨[], by decide⟩, fun _ _ => none⟩ fun _ => none)
        [.put (ascii "a") [0xcc, 0], .get (ascii "1")] requests := by
  have valid : ∀ c ∈ [Command.put (ascii "a") [0xcc, 0], .get (ascii "1")], c.Valid := by
    intro c member
    simp only [List.mem_cons, List.not_mem_nil, or_false] at member
    rcases member with rfl | rfl <;> exact ⟨by decide, by decide, by decide⟩
  exact server_reads_commands _ 0 0 _ _ 1 2 _ valid _

end Sfsdb.Session

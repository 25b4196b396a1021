import Sfsdb.Exceptions
import Sfsdb.Session

/-!
What a response means. An `Outcome` is what a handler has to report; `frame` is
the response for it and `answer` what the client makes of that response. Errors
may be inflicted on any call that serves the request, so a handler can leave at
every one of its exits; only the connection holds. A run keeps a log, which tells
what there was to report in it. Two things come between: a text that is gone when
it is to be sent, and memory behind the client's buffer that cannot be read.
-/

namespace Sfsdb.Responses

open Posix Protocol Handlers
open Session (Command framed)

inductive Outcome where
  | refused (msg : CString)
  | content (bytes : Bytes)
  | stored (id : Bytes)
  | described (name : Bytes) (size : Nat)
  | deleted
  | listed (ids : List Bytes)

namespace Outcome

def status : Outcome → Nat
  | .refused _ => Protocol.status.ERROR
  | _ => Protocol.status.SUCCESS

def payload : Outcome → Bytes
  | .refused msg => (Types.error msg.val).toBytes
  | .content bytes => (Types.bigdata bytes.length).toBytes ++ (bytes ++ [MAGIC])
  | .stored id => (Types.assignString (Types.blank (.string [])) id).toBytes
  | .described name size => (Types.string name).toBytes ++ (Types.integer size).toBytes
  | .deleted => []
  | .listed ids => (Types.smallint ids.length).toBytes ++
      ids.flatMap fun id => (Types.string id).toBytes

def frame (o : Outcome) : Bytes := framed (o.status, o.payload)

/-- What the client function prints and returns; a name ends at its first NUL
and a size, like a number of results, is cut to its width on the wire. -/
def answer : Outcome → Client.Answer
  | .refused msg => .server (msg.val.take 255)
  | .content bytes => .file bytes
  | .stored id => .fileId id
  | .described name size => .details (cstr name) (size % 4294967296)
  | .deleted => .deleted
  | .listed ids => .results (ids.length % 65536) ((ids.take (ids.length % 65536)).map cstr)

def Of : Outcome → Nat → Prop
  | .refused _, _ => True
  | .content _, no => no = 1
  | .stored _, no => no = 2
  | .described _ _, no => no = 3
  | .deleted, no => no = 4
  | .listed _, no => no = 5

theorem status_cases (o : Outcome) :
    o.status = Protocol.status.SUCCESS ∨ o.status = Protocol.status.ERROR := by
  cases o <;> simp [status]

theorem status_lt (o : Outcome) : o.status < 65536 := by
  rcases o.status_cases with same | same <;> rw [same] <;> decide

end Outcome

/-! ## The client's decoders -/

section Decoders
variable {m : Mem}

theorem error_toBytes (msg : CString) : (Types.error msg.val).toBytes =
    toNets ids.ERROR ++ toNetl (msg.val.take 255).length ++ (msg.val.take 255 ++ [MAGIC]) := by
  have whole : cstr msg.val = msg.val := cstr_of_free msg.val msg.property
  have written := error_payload msg.val
  rw [whole] at written
  rw [Data.toBytes, written]
  change toNets ids.ERROR ++ toNetl ((cstr msg.val).take 255).length ++ _ = _
  rw [whole]

theorem stringItem_cstr (text : Bytes) (sized : (cstr text).length < 4294967296) :
    (Types.string text).toBytes = stringItem (cstr text) := by
  simp [Types.string, Data.toBytes, Data.toPayload, stringItem, Nat.mod_eq_of_lt sized]

theorem string_toBytes_lt (text : Bytes) : (cstr text).length < (Types.string text).toBytes.length := by
  simp only [Data.toBytes, Data.toPayload, Types.string, List.length_append, List.length_singleton]
  omega

theorem stringItem_assigned (text : Bytes) (sized : text.length < 4294967296) :
    (Types.assignString (Types.blank (.string [])) text).toBytes = stringItem text := by
  simp [Types.assignString, Types.blank, Data.toBytes, Data.toPayload, stringItem,
    Nat.mod_eq_of_lt sized]

theorem take_free (msg : CString) : 0 ∉ msg.val.take 255 :=
  fun member => msg.property (List.mem_of_mem_take member)

theorem errorReply_refused (msg : CString) (holds : m.Holds 0 (Outcome.refused msg).payload)
    (readable : (m.strn 6 255).isSome) :
    Client.errorReply m = some (.server (msg.val.take 255)) := by
  have room : (msg.val.take 255).length ≤ 255 := List.length_take_le 255 msg.val
  rw [Outcome.payload, error_toBytes] at holds
  obtain ⟨text, read, same⟩ := getType_error m 0 (msg.val.take 255) (take_free msg) room holds readable
  simp [Client.errorReply, read, Error.ofErrno, Error.isError, Data.msg, same]

theorem errorReply_lost (msg : CString) (holds : m.Holds 0 (Outcome.refused msg).payload)
    (unreadable : m.strn 6 255 = none) : Client.errorReply m = none := by
  have room : (msg.val.take 255).length ≤ 255 := List.length_take_le 255 msg.val
  rw [Outcome.payload, error_toBytes] at holds
  have lost := getType_error_none m 0 (msg.val.take 255) (by omega) holds unreadable
  simp [Client.errorReply, lost]

theorem refused_text (msg : CString) (holds : m.Holds 0 (Outcome.refused msg).payload) :
    m.Holds 6 (msg.val.take 255 ++ [MAGIC]) := by
  rw [Outcome.payload, error_toBytes] at holds
  have text := ((Mem.holds_append_iff _ _ _ _).mp holds).2
  simpa only [List.length_append, toNets_length, toNetl_length, Nat.reduceAdd, Nat.zero_add] using text

theorem copied_isSome (msg : CString) (memory : Mem) :
    ((Mem.followedBy (Outcome.refused msg).payload memory).strn 6 255).isSome ↔
      (memory.strn 0 (254 - msg.val.length)).isSome := by
  -- The client copies up to 255 bytes of text, whatever length the response gives.
  have holds := Mem.followedBy_holds (Outcome.refused msg).payload memory
  have size : (Outcome.refused msg).payload.length = 7 + (msg.val.take 255).length := by
    rw [Outcome.payload, error_toBytes]
    simp only [List.length_append, toNets_length, toNetl_length, List.length_singleton]
    omega
  have text := refused_text msg holds
  by_cases long : 255 ≤ msg.val.length
  · -- The copy is full before it comes to the end of the response.
    have full : (msg.val.take 255).length = 255 := by rw [List.length_take]; omega
    have none_ : 254 - msg.val.length = 0 := by omega
    have front := ((Mem.holds_append_iff _ _ _ _).mp text).1
    have copied := Mem.strn_append _ 6 255 (msg.val.take 255) front (take_free msg) (Nat.le_of_eq full)
    rw [full] at copied
    rw [copied, none_]
    simp [Mem.strn]
  · have short : msg.val.take 255 = msg.val := List.take_of_length_le (by omega)
    rw [short] at text size
    have free : 0 ∉ msg.val ++ [MAGIC] := by
      rw [List.mem_append, not_or]
      exact ⟨msg.property, by decide⟩
    have room : (msg.val ++ [MAGIC]).length ≤ 255 := by
      simp only [List.length_append, List.length_singleton]
      omega
    have copied := Mem.strn_append _ 6 255 (msg.val ++ [MAGIC]) text free room
    have behind := Mem.strn_followedBy (Outcome.refused msg).payload memory 0 (254 - msg.val.length)
    have place : 6 + (msg.val ++ [MAGIC]).length = (Outcome.refused msg).payload.length + 0 := by
      rw [size]
      simp only [List.length_append, List.length_singleton]
      omega
    have left : 255 - (msg.val ++ [MAGIC]).length = 254 - msg.val.length := by
      simp only [List.length_append, List.length_singleton]
      omega
    rw [place, left, behind] at copied
    rw [copied, Option.isSome_map]

theorem getReply_content (bytes : Bytes) (sized : bytes.length < 4294967296)
    (holds : m.Holds 0 (Outcome.content bytes).payload) :
    Client.getReply m = some (.file bytes) := by
  rw [Outcome.payload, Session.bigdata_toBytes bytes.length sized] at holds
  obtain ⟨front, body⟩ := (Mem.holds_append_iff _ _ _ _).mp holds
  obtain ⟨content, last⟩ := (Mem.holds_append_iff _ _ _ _).mp body
  have probe := ((Mem.holds_cons_iff _ _ _ _).mp last).1
  have read := Mem.bytes_of_holds m _ bytes content
  simp only [List.length_append, toNets_length, toNetl_length, Nat.reduceAdd, Nat.zero_add]
    at probe read
  simp [Client.getReply, getType_bigdata m 0 bytes.length sized front, Error.ofErrno,
    Error.isError, probe, read]

theorem putReply_stored (id : Bytes) (sized : id.length < 4294967296)
    (holds : m.Holds 0 (Outcome.stored id).payload) :
    Client.putReply m = some (.fileId id) := by
  rw [Outcome.payload, stringItem_assigned id sized] at holds
  simp [Client.putReply, getType_string m 0 id sized holds, Error.ofErrno, Error.isError, Data.str]

theorem integer_toBytes (val : Nat) : (Types.integer val).toBytes =
    toNets ids.INTEGER ++ toNetl 4 ++ (toNetl (val % 4294967296) ++ [MAGIC]) := rfl

theorem smallint_toBytes (val : Nat) : (Types.smallint val).toBytes =
    toNets ids.SMALLINT ++ toNetl 2 ++ (toNets (val % 65536) ++ [MAGIC]) := rfl

theorem descReply_described (name : Bytes) (size : Nat) (sized : (cstr name).length < 4294967296)
    (holds : m.Holds 0 (Outcome.described name size).payload) :
    Client.descReply m = some (.details (cstr name) (size % 4294967296)) := by
  rw [Outcome.payload, stringItem_cstr name sized, integer_toBytes] at holds
  obtain ⟨first, second⟩ := (Mem.holds_append_iff _ _ _ _).mp holds
  rw [stringItem_length, Nat.zero_add] at second
  have text := getType_string m 0 (cstr name) sized first
  have small : size % 4294967296 < 4294967296 := Nat.mod_lt size (by omega)
  generalize size % 4294967296 = val at second small ⊢
  have number := getType_integer m (7 + (cstr name).length) val small second
  have fine : (Error.ofErrno 0).isError = false := rfl
  rw [Nat.zero_add] at text
  simp only [Client.descReply, text, number, fine, Option.bind_eq_bind, Option.bind_some,
    Bool.false_eq_true, ↓reduceIte]
  rfl

theorem readResults_listed (announced count pos : Nat) (ids seen : List Bytes)
    (enough : count ≤ ids.length) (sized : ∀ id ∈ ids, (cstr id).length < 4294967296)
    (holds : m.Holds pos (ids.flatMap fun id => (Types.string id).toBytes)) :
    Client.readResults m announced count pos seen =
      some (.results announced (seen ++ (ids.take count).map cstr)) := by
  induction count generalizing pos ids seen with
  | zero => simp [Client.readResults]
  | succ count ih =>
      cases ids with
      | nil => simp at enough
      | cons id rest =>
          have here := sized id List.mem_cons_self
          rw [List.flatMap_cons, stringItem_cstr id here] at holds
          obtain ⟨first, others⟩ := (Mem.holds_append_iff _ _ _ _).mp holds
          rw [stringItem_length] at others
          have step := ih (pos + (7 + (cstr id).length)) rest (seen ++ [cstr id])
            (by simpa using enough) (fun other member => sized other (List.mem_cons_of_mem id member))
            others
          simp [Client.readResults, getType_string m pos (cstr id) here first, Error.ofErrno,
            Error.isError, Data.str, step]

theorem listReply_listed (ids : List Bytes) (sized : ∀ id ∈ ids, (cstr id).length < 4294967296)
    (holds : m.Holds 0 (Outcome.listed ids).payload) :
    Client.listReply m = some (Outcome.listed ids).answer := by
  rw [Outcome.payload, smallint_toBytes] at holds
  obtain ⟨first, others⟩ := (Mem.holds_append_iff _ _ _ _).mp holds
  have number := getType_smallint m 0 (ids.length % 65536) (Nat.mod_lt ids.length (by omega)) first
  have results := readResults_listed (ids.length % 65536) (ids.length % 65536) 9 ids []
    (Nat.mod_le _ _) sized others
  simp [Client.listReply, number, Error.ofErrno, Error.isError, Data.val, results, Outcome.answer]

end Decoders

/-! ## The client's reading of a whole response -/

def decoder : Command → Mem → Option Client.Answer
  | .get _ => Client.getReply
  | .put _ _ => Client.putReply
  | .desc _ => Client.descReply
  | .del _ => Client.errorReply
  | .list _ => Client.listReply

def reads (stale : Nat) (behind : Mem) : Command → Prog Client.Answer
  | .del _ => Client.readDeletion stale behind
  | c => Client.readResponse stale behind (decoder c)

/-- What lies behind the body of a response can be read as far as its decoder goes. -/
def Readable (memory : Mem) : Outcome → Prop
  | .refused msg => (memory.strn 0 (254 - msg.val.length)).isSome
  | _ => True

theorem readable_total (behind : Nat → Byte) (o : Outcome) : Readable (fun i => some (behind i)) o := by
  have ends := Mem.total_terminated [] behind 0 0 (Nat.le_refl 0)
  cases o with
  | refused msg => exact ends _
  | _ => trivial

section Reads
variable {p : Pid} (stale : Nat)

theorem decode_payload (o : Outcome) (c : Command) (of : o.Of c.no)
    (sized : o.payload.length < 4294967296) (body : o ≠ .deleted) {memory : Mem}
    (readable : Readable memory o) :
    Client.decode (decoder c) o.status (Mem.followedBy o.payload memory) = some o.answer := by
  have holds := Mem.followedBy_holds o.payload memory
  cases o with
  | refused msg => exact errorReply_refused msg holds ((copied_isSome msg memory).mpr readable)
  | deleted => exact absurd rfl body
  | content bytes =>
      cases c <;> cases of
      refine getReply_content bytes ?_ holds
      simp only [Outcome.payload, List.length_append] at sized
      omega
  | stored id =>
      cases c <;> cases of
      refine putReply_stored id ?_ holds
      simp only [Outcome.payload, Data.toBytes, Data.toPayload, Types.assignString,
        List.length_append] at sized
      omega
  | described name size =>
      cases c <;> cases of
      refine descReply_described name size ?_ holds
      simp only [Outcome.payload, Data.toBytes, Data.toPayload, Types.string,
        List.length_append] at sized
      omega
  | listed ids =>
      cases c <;> cases of
      refine listReply_listed ids (fun id member => ?_) holds
      obtain ⟨front, rest, rfl⟩ := List.append_of_mem member
      have part := string_toBytes_lt id
      simp only [Outcome.payload, List.flatMap_append, List.flatMap_cons, List.length_append] at sized
      omega

theorem decode_lost (o : Outcome) (c : Command) {memory : Mem} (unreadable : ¬ Readable memory o) :
    Client.decode (decoder c) o.status (Mem.followedBy o.payload memory) = none := by
  have holds := Mem.followedBy_holds o.payload memory
  cases o with
  | refused msg =>
      have lost : (Mem.followedBy (Outcome.refused msg).payload memory).strn 6 255 = none := by
        rw [← Option.not_isSome_iff_eq_none, copied_isSome]
        exact unreadable
      exact errorReply_lost msg holds lost
  | _ => exact absurd trivial unreadable

theorem readHead_runs (no length : Nat) (small : no < 65536) (sized : length < 4294967296)
    {k : Kernel} {rest : Bytes} (inbox : k.inbox p = (Types.header no length).toBytes ++ rest) :
    Runs p (Client.readHead stale) k (.ok (Types.header no length)) (k.hears p rest) := by
  have head : Runs p (Sys.recv HEADER_BYTES) k _ _ := recv_runs inbox
  apply head.bind
  dsimp only
  rw [show getType (Mem.ofList (Types.header no length).toBytes) 0 ⟨ids.HEADER, 0, .header stale⟩ =
    some (.ofErrno 0, Types.header no length, 8) from Session.header_read no length small sized]
  exact Program.Runs.done

theorem readBody_runs (o : Outcome) (c : Command) (sized : o.payload.length < 4294967296) {memory : Mem}
    {decoded : Option Client.Answer}
    (decodes : Client.decode (decoder c) o.status (Mem.followedBy o.payload memory) = decoded)
    {k : Kernel} {rest : Bytes} (inbox : k.inbox p = o.payload ++ rest) :
    Runs p (Client.readBody memory (decoder c) (Types.header o.status o.payload.length)) k
      (decoded.getD .crashed) (k.hears p rest) := by
  have length : (Types.header o.status o.payload.length).length = o.payload.length :=
    Nat.mod_eq_of_lt sized
  have command : (Types.header o.status o.payload.length).command = o.status :=
    Nat.mod_eq_of_lt o.status_lt
  unfold Client.readBody
  rw [length, command]
  apply (recv_runs inbox).bind
  dsimp only
  rw [decodes]
  cases decoded <;> exact Program.Runs.done

theorem reads_decoded (o : Outcome) (c : Command) (of : o.Of c.no)
    (sized : o.payload.length < 4294967296) (body : o ≠ .deleted) {memory : Mem}
    {decoded : Option Client.Answer}
    (decodes : Client.decode (decoder c) o.status (Mem.followedBy o.payload memory) = decoded)
    {k : Kernel} {rest : Bytes} (inbox : k.inbox p = o.frame ++ rest) :
    Runs p (reads stale memory c) k (decoded.getD .crashed) (k.hears p rest) := by
  have parts : k.inbox p =
      (Types.header o.status o.payload.length).toBytes ++ (o.payload ++ rest) := by
    rw [inbox, Outcome.frame, framed, List.append_assoc]
  have head := readHead_runs stale o.status o.payload.length o.status_lt sized parts
  have read := readBody_runs o c sized decodes (Kernel.hears_inbox (k := k) (p := p) (o.payload ++ rest))
  rw [Kernel.hears_hears] at read
  cases c with
  | del id =>
      cases o with
      | refused msg => exact head.bind read
      | deleted => exact absurd rfl body
      | _ => cases of
  | _ => exact head.bind read

theorem reads_outcome (o : Outcome) (c : Command) (of : o.Of c.no)
    (sized : o.payload.length < 4294967296) {memory : Mem} (readable : Readable memory o)
    {k : Kernel} {rest : Bytes} (inbox : k.inbox p = o.frame ++ rest) :
    Runs p (reads stale memory c) k o.answer (k.hears p rest) := by
  by_cases nothing : o = .deleted
  · subst nothing
    have parts : k.inbox p = (Types.header Outcome.deleted.status 0).toBytes ++ rest := by
      rw [inbox, Outcome.frame, framed, List.append_assoc]
      rfl
    have head := readHead_runs stale Outcome.deleted.status 0 Outcome.deleted.status_lt (by decide) parts
    cases c <;> cases of
    exact head.bind Program.Runs.done
  · exact reads_decoded stale o c of sized nothing (decode_payload o c of sized nothing readable) inbox

theorem reads_lost (o : Outcome) (c : Command) (of : o.Of c.no)
    (sized : o.payload.length < 4294967296) {memory : Mem} (unreadable : ¬ Readable memory o)
    {k : Kernel} {rest : Bytes} (inbox : k.inbox p = o.frame ++ rest) :
    Runs p (reads stale memory c) k .crashed (k.hears p rest) := by
  have body : o ≠ .deleted := by
    rintro rfl
    exact unreadable trivial
  exact reads_decoded stale o c of sized body (decode_lost o c unreadable) inbox

theorem issue_reads (behind : Mem) (c : Command) (k : Kernel) : ∃ bytes, ∀ answer k',
    Runs p (reads stale behind c) (k.said p bytes) answer k' →
      Runs p (c.issue stale behind) k answer k' := by
  cases c with
  | put filename file =>
      exact ⟨_, fun answer k' rest => (Session.putRequest_sent filename file k).bind rest⟩
  | _ => exact ⟨_, fun answer k' rest => (send_runs p k _).bind rest⟩

theorem issue_gives (memory : Mem) (c : Command) {k : Kernel} {rest : Bytes} {answer : Client.Answer}
    (reading : ∀ k', k'.inbox p = k.inbox p → Runs p (reads stale memory c) k' answer (k'.hears p rest)) :
    ∃ k', Gives p (c.issue stale memory) k answer k' ∧ k'.inbox p = rest := by
  obtain ⟨bytes, asks⟩ := issue_reads stale memory c k
  exact ⟨_, gives_of_runs (asks _ _ (reading (k.said p bytes) rfl)), Kernel.hears_inbox rest⟩

/-- A client function in front of a response to its request: the answer is the
one that was meant, and the next response starts where this one ends. -/
theorem issue_outcome (o : Outcome) (c : Command) (of : o.Of c.no)
    (sized : o.payload.length < 4294967296) {memory : Mem} (readable : Readable memory o) (k : Kernel)
    (rest : Bytes) (inbox : k.inbox p = o.frame ++ rest) :
    ∃ k', Gives p (c.issue stale memory) k o.answer k' ∧ k'.inbox p = rest :=
  issue_gives stale memory c fun _ same => reads_outcome stale o c of sized readable (same.trans inbox)

end Reads

/-! ## What the handlers report -/

/-- In a run that begins at `k` and leaves this log, the handler of command `no` has
this to report about the request `m`. -/
def Meant (libc : Libc) (p : Pid) (k : Kernel) (log : Log) (no : Nat) (m : Mem) : Outcome → Prop
  | .refused msg => ∃ handler program s, select (commands libc) no = some handler ∧
      handler m = some program ∧ Program.Runs (Recorded p) program (k, []) (some (refuse msg)) s ∧
      s.2 <+: log
  | .content bytes => no = 1 ∧ ∃ fid next q i,
      fileParam libc Handlers.expectedFileId m = some (.ok (fid, next)) ∧
      k.files.resolve (Storage.DATA_DIR ++ fid) = .ok q ∧ k.files.node q = some (.file i) ∧
      bytes = k.files.data i
  | .stored id => no = 2 ∧ ∃ name data s, putParams libc m = some (.ok (name, data)) ∧
      Program.Runs (Recorded p) (Volume.store name data) (k, []) (.ok id) s ∧ s.2 <+: log
  | .described name size => no = 3 ∧ ∃ fid next first object s₁ s₂ s₃,
      fileParam libc Handlers.expectedFileId m = some (.ok (fid, next)) ∧
      Program.Runs (Recorded p) (Volume.getId fid) (k, []) (.ok first) s₁ ∧
      Program.Runs (Recorded p) first.details s₁ (.ok size) s₂ ∧
      Program.Runs (Recorded p) (Volume.getId fid) s₂ (.ok object) s₃ ∧ s₃.2 <+: log ∧
      s₁.1.files = k.files ∧ s₁.1.statFile (Storage.DATA_DIR ++ fid) = .ok size ∧ object.name = name
  | .deleted => no = 4 ∧ ∃ fid next s,
      fileParam libc Handlers.expectedFileId m = some (.ok (fid, next)) ∧
      Program.Runs (Recorded p) (Volume.remove fid) (k, []) (some (.ok ())) s ∧ s.2 <+: log
  | .listed ids => no = 5 ∧ ∃ name next s,
      fileParam libc Handlers.expectedFileName m = some (.ok (name, next)) ∧
      Program.Runs (Recorded p) (Volume.getName name) (k, []) (.ok ids) s ∧ s.2 <+: log

/-! ## What the handlers write -/

section Writes
variable {libc : Libc} {p : Pid} {k k' : Kernel} {s t : Kernel × Log}

/-- A reply leaves the server unless the handler has written its response itself. -/
def toSend (reply : Reply) : Bytes := if reply.code ≠ HANDLER_NO_SEND_RES then reply.res else []

theorem respond_runs {reply : Reply}
    (run : Program.Runs (Recorded p) (Server.respond reply) s (.inl ()) t) :
    t.1.sent p = s.1.sent p ++ toSend reply ∧ ∃ more, t.2 = s.2 ++ more ∧ Unfailing more := by
  unfold Server.respond at run
  unfold toSend
  split at run
  · rename_i sends
    rw [if_pos sends]
    obtain ⟨r, s₁, first, rest⟩ := Program.runs_bind_split run
    obtain ⟨step, noted⟩ := Program.runs_issue_iff.mp first
    obtain ⟨rfl, said⟩ := step.said
    obtain ⟨_, rfl⟩ := Program.runs_done_iff.mp rest
    refine ⟨?_, _, noted, by simp [Unfailing]⟩
    rw [said]
    exact Kernel.said_sent _
  · rename_i keeps
    obtain ⟨_, rfl⟩ := Program.runs_done_iff.mp run
    rw [if_neg keeps, List.append_nil]
    exact ⟨rfl, [], (List.append_nil _).symm, by simp [Unfailing]⟩

theorem refuse_frame (msg : CString) : toSend (refuse msg) = (Outcome.refused msg).frame := by
  have size : (Types.error msg.val).toBytes.length = 7 + (Types.error msg.val).length := by
    rw [Data.toBytes, error_payload]
    simp only [List.length_append, toNets_length, toNetl_length, List.length_singleton]
    change 2 + 4 + (((cstr msg.val).take 255).length + 1) = 7 + ((cstr msg.val).take 255).length
    omega
  change errorMessage msg.val = framed (_, (Types.error msg.val).toBytes)
  rw [framed, size]
  rfl

theorem succeed_frame (o : Outcome) (success : o.status = Protocol.status.SUCCESS) :
    toSend (succeed o.payload) = o.frame := by
  rw [Outcome.frame, success]
  rfl

theorem stored_reply (id : Bytes) :
    (⟨HANDLER_SUCCESS, (Types.header Protocol.status.SUCCESS (HEADER_SIZE +
      (Types.assignString (Types.blank (.string [])) id).length)).toBytes ++
        (Types.assignString (Types.blank (.string [])) id).toBytes⟩ : Reply) =
      succeed (Outcome.stored id).payload := by
  -- put announces the size of its string item by itself.
  have size : (Types.assignString (Types.blank (.string [])) id).toBytes.length = 7 + id.length := by
    simp only [Data.toBytes, Data.toPayload, Types.assignString, List.length_append,
      toNets_length, toNetl_length, List.length_singleton]
    omega
  rw [succeed, Outcome.payload, size]
  simp [Types.header, Types.assignString, HEADER_SIZE]

/-- Every run of a handler's program has an outcome to report, refused where the
reply is a refusal and otherwise one that `means` admits with the log left by then. -/
def Reports (p : Pid) (program : Prog (Option Reply)) (s : Kernel × Log)
    (means : Outcome → Log → Prop) : Prop :=
  ∀ reply t, Program.Runs (Recorded p) program s (some reply) t →
    ∃ o : Outcome, t.1.sent p ++ toSend reply = s.1.sent p ++ o.frame ∧
      ((∃ msg, reply = refuse msg ∧ o = .refused msg) ∨ means o t.2)

variable {means : Outcome → Log → Prop}

theorem reports_refuse (msg : CString) : Reports p (.done (some (refuse msg))) s means := by
  intro reply t run
  obtain ⟨same, rfl⟩ := Program.runs_done_iff.mp run
  cases same
  exact ⟨.refused msg, by rw [refuse_frame], Or.inl ⟨msg, rfl, rfl⟩⟩

theorem reports_success {body : Bytes} (o : Outcome) (same : o.payload = body)
    (success : o.status = Protocol.status.SUCCESS) (here : means o s.2) :
    Reports p (.done (some (succeed body))) s means := by
  intro reply t run
  obtain ⟨reported, rfl⟩ := Program.runs_done_iff.mp run
  cases reported
  exact ⟨o, by rw [← same, succeed_frame o success], Or.inr here⟩

theorem Reports.bind {α : Type} {R : α → Prop} {program : Prog α} {f : α → Prog (Option Reply)}
    (quiet : Footprint.all.Holds R program)
    (next : ∀ value t, Program.Runs (Recorded p) program s value t → R value →
      Reports p (f value) t means) : Reports p (program.bind f) s means := by
  intro reply t run
  obtain ⟨value, s₁, first, rest⟩ := Program.runs_bind_split run
  obtain ⟨here, kept⟩ := quiet.sent (fun talks => talks) (fun _ => trivial) first.unlogged
  have reported := next value s₁ first here reply t rest
  rwa [kept] at reported

theorem listFiles_reports (fname : Bytes) :
    Reports p (listFiles libc fname) s fun o log => ∃ ids t, o = .listed ids ∧
      Program.Runs (Recorded p) (Volume.getName fname) s (.ok ids) t ∧ t.2 = log := by
  apply Reports.bind (Storage.byName_holds fname trivial)
  intro listed t run _
  cases listed with
  | error e => exact reports_refuse _
  | ok ids => exact reports_success (.listed ids) rfl rfl ⟨ids, t, rfl, run, rfl⟩

theorem putFile_reports (fname data : Bytes) :
    Reports p (putFile libc fname data) s fun o log => ∃ id t, o = .stored id ∧
      Program.Runs (Recorded p) (Volume.store fname data) s (.ok id) t ∧ t.2 = log := by
  refine Reports.bind (Volume.store_holds fname data trivial trivial
    fun _ _ => ⟨trivial, trivial, trivial, trivial⟩) fun stored t run _ => ?_
  cases stored with
  | error e => exact reports_refuse _
  | ok id =>
      dsimp only
      rw [stored_reply]
      exact reports_success (.stored id) rfl rfl ⟨id, t, rfl, run, rfl⟩

theorem details_answer {object : Storage.Object} {size : Nat}
    (run : Program.Runs (Kernel.MayDo p) object.details k (.ok size) k') :
    k' = k ∧ k.statFile (Storage.DATA_DIR ++ object.id) = .ok size := by
  obtain ⟨r, k₁, first, rest⟩ := Program.runs_bind_split run
  have step : Kernel.MayDo p _ _ _ _ := Program.runs_issue_iff.mp first
  cases r with
  | error e => cases (Program.runs_done_iff.mp rest).1
  | ok found =>
      obtain ⟨same, rfl⟩ := Program.runs_done_iff.mp rest
      cases same
      rcases step with answered | ⟨_, e, _, failed⟩
      · simp only [Kernel.Does, Kernel.exec, Option.some.injEq, Prod.mk.injEq] at answered
        exact ⟨answered.2.symm, answered.1⟩
      · cases failed

theorem descFile_reports (fid : Bytes) :
    Reports p (descFile libc fid) s fun o log => ∃ first object size s₁ s₂ t,
      Program.Runs (Recorded p) (Volume.getId fid) s (.ok first) s₁ ∧
      Program.Runs (Recorded p) first.details s₁ (.ok size) s₂ ∧
      Program.Runs (Recorded p) (Volume.getId fid) s₂ (.ok object) t ∧ t.2 = log ∧ s₁.1.files = s.1.files ∧
      s₁.1.statFile (Storage.DATA_DIR ++ fid) = .ok size ∧ o = .described object.name size := by
  apply Reports.bind (Volume.getId_holds fid trivial)
  intro found s₁ looked same
  have kept := (Volume.getId_holds (F := Footprint.looking) fid ⟨rfl, rfl⟩).files looked.unlogged
  cases found with
  | error e => exact reports_refuse _
  | ok first =>
      obtain ⟨rfl, _⟩ := same first rfl
      apply Reports.bind (Storage.details_holds first trivial)
      intro detailed s₂ stat _
      cases detailed with
      | error e => exact reports_refuse _
      | ok size =>
          have sized := (details_answer stat.unlogged).2
          apply Reports.bind (Volume.getId_holds first.id trivial)
          intro again t run _
          cases again with
          | error e => exact reports_refuse _
          | ok object =>
              exact reports_success (.described object.name size) rfl rfl
                ⟨first, object, size, s₁, s₂, t, looked, stat, run, rfl, kept, sized, rfl⟩

theorem mapped_file {path : Bytes} {size fd map len : Nat} {k₁ k₂ : Kernel}
    (sized : k.statFile path = .ok size)
    (opened : Kernel.MayDo p (.open path Flstream.RDONLY) k (.ok fd) k₁)
    (mapped : Kernel.MayDo p (.mmap fd len) k₁ (.ok map) k₂) :
    ∃ q i, k.files.resolve path = .ok q ∧ k.files.node q = some (.file i) ∧
      size = (k.files.data i).length ∧ k₂.maps map = some ⟨p, i, len⟩ ∧ k₂.files = k.files := by
  -- A file whose size was asked for, opened and mapped without an error.
  rcases opened with opened | ⟨_, _, _, ⟨⟩⟩
  rcases mapped with mapped | ⟨_, _, _, ⟨⟩⟩
  simp only [Kernel.Does, Kernel.exec, Kernel.openFile, Option.some.injEq] at opened
  simp only [Kernel.Does, Kernel.exec, Kernel.mapFile, Option.some.injEq] at mapped
  cases resolved : k.files.resolve path with
  | error e => simp [Kernel.statFile, resolved] at sized
  | ok q =>
      cases node : k.files.node q with
      | none => simp [Kernel.statFile, resolved, node] at sized
      | some found =>
          cases found with
          | dir =>
              simp only [resolved, node, Flstream.RDONLY, Bool.or_self, Bool.false_eq_true,
                ↓reduceIte, Prod.mk.injEq, Except.ok.injEq] at opened
              obtain ⟨rfl, rfl⟩ := opened
              simp [Kernel.descOf_addDesc] at mapped
          | file i =>
              simp only [resolved, node, Flstream.RDONLY, Bool.and_self, Bool.false_eq_true,
                ↓reduceIte, Prod.mk.injEq, Except.ok.injEq] at opened
              obtain ⟨rfl, rfl⟩ := opened
              simp only [Kernel.statFile, resolved, node, Except.ok.injEq] at sized
              simp only [Kernel.descOf_addDesc, ↓reduceIte, Bool.not_true, Bool.false_eq_true] at mapped
              split at mapped
              · cases mapped
              · cases mapped
                exact ⟨q, i, rfl, node, sized.symm, Function.update_self .., rfl⟩

theorem sendFile_writes {fd map fsize : Nat} {reply : Reply}
    (run : Program.Runs (Kernel.MayDo p) (sendFile fd map fsize) k reply k') :
    reply = noRes ∧ k'.sent p = k.sent p ++
      ((Types.header Protocol.status.SUCCESS (HEADER_SIZE + fsize)).toBytes ++
        ((Types.bigdata fsize).toBytes ++ (k.loadMap map fsize ++ [MAGIC]))) := by
  obtain ⟨_, _, first, run⟩ := Program.runs_bind_split run
  obtain ⟨rfl, rfl⟩ := (Program.runs_issue_iff.mp first).said
  obtain ⟨bytes, _, second, run⟩ := Program.runs_bind_split run
  obtain ⟨rfl, rfl⟩ := (Program.runs_issue_iff.mp second).loaded
  obtain ⟨_, _, third, run⟩ := Program.runs_bind_split run
  obtain ⟨rfl, rfl⟩ := (Program.runs_issue_iff.mp third).said
  obtain ⟨_, _, fourth, run⟩ := Program.runs_bind_split run
  obtain ⟨rfl, rfl⟩ := (Program.runs_issue_iff.mp fourth).said
  obtain ⟨_, k₁, unmapped, run⟩ := Program.runs_bind_split run
  obtain ⟨_, k₂, closed, run⟩ := Program.runs_bind_split run
  obtain ⟨rfl, rfl⟩ := Program.runs_done_iff.mp run
  refine ⟨rfl, ?_⟩
  rw [(Program.runs_issue_iff.mp closed).sent (by simp),
    (Program.runs_issue_iff.mp unmapped).sent (by simp)]
  simp only [Kernel.said_sent, List.append_assoc]
  rfl

theorem content_frame (bytes : Bytes) : (Outcome.content bytes).frame =
    (Types.header Protocol.status.SUCCESS (HEADER_SIZE + bytes.length)).toBytes ++
      ((Types.bigdata bytes.length).toBytes ++ (bytes ++ [MAGIC])) := by
  have size : (Outcome.content bytes).payload.length = HEADER_SIZE + bytes.length := by
    simp only [Outcome.payload, Data.toBytes, Data.toPayload, Types.bigdata, HEADER_SIZE,
      List.length_append, toNets_length, toNetl_length, List.length_singleton, List.length_nil]
    omega
  rw [Outcome.frame, framed, size]
  rfl

theorem getFile_reports (fid : Bytes) (small : ∀ i, (s.1.files.data i).length < 4294967289) :
    Reports p (getFile libc fid) s fun o _ => ∃ q i, o = .content (s.1.files.data i) ∧
      s.1.files.resolve (Storage.DATA_DIR ++ fid) = .ok q ∧ s.1.files.node q = some (.file i) := by
  apply Reports.bind (Volume.getId_holds fid trivial)
  intro found s₁ run same
  have kept := (Volume.getId_holds (F := Footprint.looking) fid ⟨rfl, rfl⟩).files run.unlogged
  cases found with
  | error e => exact reports_refuse _
  | ok object =>
      obtain ⟨rfl, path⟩ := same object rfl
      apply Reports.bind (Storage.details_holds object trivial)
      intro detailed s₂ stat _
      cases detailed with
      | error e => exact reports_refuse _
      | ok size =>
          obtain ⟨still, sized⟩ := details_answer stat.unlogged
          rw [path]
          refine Reports.bind (Footprint.holds_issue (F := Footprint.all)
            (c := .open (Storage.DATA_DIR ++ object.id) Flstream.RDONLY) trivial)
            fun opened s₃ opens _ => ?_
          cases opened with
          | error e => exact reports_refuse _
          | ok fd =>
              refine Reports.bind (Footprint.holds_issue (F := Footprint.all)
                (c := .mmap fd (size % 4294967296)) trivial) fun mapped s₄ maps _ => ?_
              cases mapped with
              | error e => exact reports_refuse _
              | ok map =>
                  intro reply t run
                  rw [← still] at sized
                  obtain ⟨q, i, resolved, file, rfl, mapping, same⟩ := mapped_file sized
                    (Program.runs_issue_iff.mp opens).1 (Program.runs_issue_iff.mp maps).1
                  obtain ⟨sent, s₅, sends, rest⟩ := Program.runs_bind_split run
                  obtain ⟨rfl, wrote⟩ := sendFile_writes sends.unlogged
                  obtain ⟨reported, rfl⟩ := Program.runs_done_iff.mp rest
                  cases reported
                  rw [still, kept] at resolved file same
                  have room := small i
                  have loaded := Kernel.loadMap_file mapping
                  rw [same] at loaded
                  rw [still, kept, Nat.mod_eq_of_lt (by omega), loaded] at wrote
                  refine ⟨.content (s.1.files.data i), ?_, Or.inr ⟨q, i, rfl, resolved, file⟩⟩
                  rw [wrote, show toSend noRes = [] from rfl, List.append_nil, content_frame]

theorem proceed_reports {α : Type} {use : α → Prog (Option Reply)} {params : Except CString α}
    (goes : ∀ v, params = .ok v → Reports p (use v) s means) :
    Reports p (proceed use params) s means := by
  cases params with
  | error msg => exact reports_refuse msg
  | ok v => exact goes v rfl

section Requests
variable {behind : Mem} {head : Data} {req : Bytes}

/-- An answered request: its handler ran to a reply, and the rest of the log removes nothing. -/
theorem serve_split {handler : Handler} (selected : select (commands libc) head.command = some handler)
    (run : Program.Runs (Recorded p) (Server.serveRequest libc behind () head req) s (.inl ()) t) :
    ∃ program reply middle more, handler (Mem.followedBy req behind) = some program ∧
      Program.Runs (Recorded p) program s (some reply) middle ∧
      t.1.sent p = middle.1.sent p ++ toSend reply ∧ t.2 = middle.2 ++ more ∧ Unfailing more := by
  unfold Server.serveRequest at run
  rw [selected] at run
  dsimp only at run
  cases decoded : handler (Mem.followedBy req behind) with
  | none =>
      rw [decoded] at run
      cases (Program.runs_done_iff.mp run).1
  | some program =>
      rw [decoded] at run
      obtain ⟨reply, middle, handled, responds⟩ := Program.runs_bind_split run
      cases reply with
      | none => cases (Program.runs_done_iff.mp responds).1
      | some reply =>
          obtain ⟨wrote, more, noted, clean⟩ := respond_runs responds
          exact ⟨program, reply, middle, more, rfl, handled, wrote, noted, clean⟩

theorem served_reports (means : Outcome → Log → Prop) {handler : Handler}
    (selected : select (commands libc) head.command = some handler)
    (reports : ∀ program, handler (Mem.followedBy req behind) = some program →
      Reports p program s means)
    (run : Program.Runs (Recorded p) (Server.serveRequest libc behind () head req) s (.inl ()) t) :
    ∃ (o : Outcome) (log : Log), t.1.sent p = s.1.sent p ++ o.frame ∧ log <+: t.2 ∧
      ((∃ msg program middle, o = .refused msg ∧ handler (Mem.followedBy req behind) = some program ∧
        Program.Runs (Recorded p) program s (some (refuse msg)) middle ∧ middle.2 = log) ∨ means o log) := by
  obtain ⟨program, reply, middle, more, decoded, handled, wrote, noted, _⟩ := serve_split selected run
  obtain ⟨o, frame, meant⟩ := reports program decoded reply middle handled
  refine ⟨o, middle.2, wrote.trans frame, noted ▸ List.prefix_append _ _, ?_⟩
  rcases meant with ⟨msg, rfl, rfl⟩ | here
  · exact Or.inl ⟨msg, program, middle, rfl, decoded, handled, rfl⟩
  · exact Or.inr here

variable {log : Log}

theorem string_reports {missing : CString} {use : Bytes → Prog (Option Reply)}
    {report : Bytes → Outcome → Log → Prop}
    (selected : select (commands libc) head.command = some (withFile libc missing use))
    (reports : ∀ x, Reports p (use x) (k, []) (report x))
    (run : Program.Runs (Recorded p) (Server.serveRequest libc behind () head req) (k, []) (.inl ()) (k', log)) :
    ∃ o : Outcome, k'.sent p = k.sent p ++ o.frame ∧
      ((∃ msg, o = .refused msg ∧ Meant libc p k log head.command (Mem.followedBy req behind) o) ∨
        ∃ x next before, fileParam libc missing (Mem.followedBy req behind) = some (.ok (x, next)) ∧
          report x o before ∧ before <+: log) := by
  have served := served_reports (fun o before => ∃ x next,
    fileParam libc missing (Mem.followedBy req behind) = some (.ok (x, next)) ∧ report x o before)
    selected ?_ run
  · obtain ⟨o, before, wrote, early, ⟨msg, program, middle, rfl, decoded, ran, rfl⟩ | here⟩ := served
    · exact ⟨_, wrote, Or.inl ⟨msg, rfl, _, program, middle, selected, decoded, ran, early⟩⟩
    · obtain ⟨x, next, read, reported⟩ := here
      exact ⟨o, wrote, Or.inr ⟨x, next, before, read, reported, early⟩⟩
  · intro program decoded
    simp only [withFile, Option.map_eq_some_iff] at decoded
    obtain ⟨params, read, rfl⟩ := decoded
    apply proceed_reports
    rintro ⟨x, next⟩ rfl
    intro reply t ran
    obtain ⟨o, wrote, refused | here⟩ := reports x reply t ran
    · exact ⟨o, wrote, Or.inl refused⟩
    · exact ⟨o, wrote, Or.inr ⟨x, next, read, here⟩⟩

theorem serve_reports (known : head.command ∈ [1, 2, 3, 5])
    (small : ∀ i, (k.files.data i).length < 4294967289)
    (run : Program.Runs (Recorded p) (Server.serveRequest libc behind () head req) (k, []) (.inl ()) (k', log)) :
    ∃ o : Outcome, Meant libc p k log head.command (Mem.followedBy req behind) o ∧ o.Of head.command ∧
      k'.sent p = k.sent p ++ o.frame := by
  simp only [List.mem_cons, List.not_mem_nil, or_false] at known
  rcases known with no | no | no | no
  · have selected : select (commands libc) head.command = some (get libc) := by rw [no]; rfl
    obtain ⟨o, wrote, ⟨msg, rfl, meant⟩ | ⟨fid, next, _, read, ⟨q, i, rfl, resolved, file⟩, _⟩⟩ :=
      string_reports selected (fun x => getFile_reports x small) run
    · exact ⟨_, meant, trivial, wrote⟩
    · exact ⟨.content _, ⟨no, fid, next, q, i, read, resolved, file, rfl⟩, no, wrote⟩
  · have selected : select (commands libc) head.command = some (put libc) := by rw [no]; rfl
    have served := served_reports (fun o before => ∃ name data id t,
      putParams libc (Mem.followedBy req behind) = some (.ok (name, data)) ∧ o = .stored id ∧
        Program.Runs (Recorded p) (Volume.store name data) (k, []) (.ok id) t ∧ t.2 = before) selected ?_ run
    · obtain ⟨o, before, wrote, early, ⟨msg, program, t, rfl, decoded, ran, rfl⟩ |
        ⟨name, data, id, t, read, rfl, ran, rfl⟩⟩ := served
      · exact ⟨.refused msg, ⟨_, program, t, selected, decoded, ran, early⟩, trivial, wrote⟩
      · exact ⟨.stored id, ⟨no, name, data, t, read, ran, early⟩, no, wrote⟩
    · intro program decoded
      simp only [put, Option.map_eq_some_iff] at decoded
      obtain ⟨params, read, rfl⟩ := decoded
      apply proceed_reports
      rintro ⟨name, data⟩ rfl
      intro reply t ran
      obtain ⟨o, wrote, refused | ⟨id, t', rfl, stored, same⟩⟩ := putFile_reports name data reply t ran
      · exact ⟨o, wrote, Or.inl refused⟩
      · exact ⟨.stored id, wrote, Or.inr ⟨name, data, id, t', read, rfl, stored, same⟩⟩
  · have selected : select (commands libc) head.command = some (desc libc) := by rw [no]; rfl
    obtain ⟨o, wrote, ⟨msg, rfl, meant⟩ | ⟨fid, next, _, read, reported, early⟩⟩ :=
      string_reports selected descFile_reports run
    · exact ⟨_, meant, trivial, wrote⟩
    · obtain ⟨first, object, size, s₁, s₂, t, looked, stat, ran, rfl, kept, sized, rfl⟩ := reported
      exact ⟨.described _ _, ⟨no, fid, next, first, object, s₁, s₂, t, read, looked, stat, ran, early, kept,
        sized, rfl⟩, no, wrote⟩
  · have selected : select (commands libc) head.command = some (list libc) := by rw [no]; rfl
    obtain ⟨o, wrote, ⟨msg, rfl, meant⟩ | ⟨name, next, _, read, ⟨ids, t, rfl, ran, rfl⟩, early⟩⟩ :=
      string_reports selected listFiles_reports run
    · exact ⟨_, meant, trivial, wrote⟩
    · exact ⟨.listed ids, ⟨no, name, next, t, read, ran, early⟩, no, wrote⟩

end Requests

end Writes

end Sfsdb.Responses

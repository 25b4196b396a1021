import Sfsdb.Responses

/-!
Which responses arrive as what the server meant. All but one kind of refusal is
written with the text meant: after a removal that failed, the handler writes what it
finds where the text of the exception was. And a client copies up to 255 bytes of the
text of a refusal, so it needs as much memory behind a shorter one.
-/

namespace Sfsdb.Responses

open Posix Protocol Handlers
open Session (Command framed)

/-- What there was to report, and what was written for it. -/
inductive Relayed (libc : Libc) (log : Log) : Outcome → Outcome → Prop where
  | kept {o : Outcome} : Unfailing log → Relayed libc log o o
  | replaced {path : Bytes} {no : Errno} {text : CString} :
      (∀ path' no', ⟨.remove path', .error no'⟩ ∈ log ↔ path' = path ∧ no' = no) →
      libc.freed no path = some text → Relayed libc log (.refused (libc.what no path)) (.refused text)

section Deletions
variable {libc : Libc} {p : Pid} {k k' : Kernel} {log : Log} {behind : Mem} {head : Data} {req : Bytes}

theorem delFile_keeping {fid : Bytes} {e : Error} {s t : Kernel × Log}
    (run : Program.Runs (Recorded p) (Volume.remove fid) s (some (.error e)) t) :
    Program.Runs (Recorded p) (delFile libc.keeping fid) s (some (refuse (e.msg.cstring libc))) t := by
  apply run.bind
  have kept : e.msg.read libc.keeping = some (e.msg.cstring libc) := by
    cases e.msg <;> rfl
  dsimp only
  rw [kept]
  exact Program.Runs.done

theorem relayed_of_course {e : Error} {text : CString} {more : Log} (course : Course (.error e) log)
    (clean : Unfailing more) (there : e.msg.read libc = some text) :
    Relayed libc (log ++ more) (.refused (e.msg.cstring libc)) (.refused text) := by
  cases course with
  | smooth still numbered =>
      have own : e.Numbered := numbered e rfl
      rw [own.read, Option.some.injEq] at there
      have same : e.msg.cstring libc = text := by
        rw [← there, own]
        rfl
      rw [same]
      exact .kept (unfailing_append.mpr ⟨still, clean⟩)
  | @thrown path no log still =>
      refine .replaced (fun path' no' => ?_) there
      rw [List.mem_append, List.mem_append, List.mem_singleton]
      constructor
      · rintro ((before | here) | later)
        · exact absurd before (still path' no')
        · cases here
          exact ⟨rfl, rfl⟩
        · exact absurd later (clean path' no')
      · rintro ⟨rfl, rfl⟩
        exact Or.inl (Or.inr rfl)

theorem deletion_reports (no : head.command = 4)
    (run : Program.Runs (Recorded p) (Server.serveRequest libc behind () head req) (k, []) (.inl ()) (k', log)) :
    ∃ o w : Outcome, Meant libc.keeping p k log head.command (Mem.followedBy req behind) o ∧
      o.Of head.command ∧ k'.sent p = k.sent p ++ w.frame ∧ Relayed libc log o w := by
  have selected : select (commands libc) head.command = some (del libc) := by rw [no]; rfl
  have keeping : select (commands libc.keeping) head.command = some (del libc.keeping) := by rw [no]; rfl
  obtain ⟨program, reply, middle, more, decoded, handled, wrote, noted, clean⟩ := serve_split selected run
  have early : middle.2 <+: log := by
    rw [show log = middle.2 ++ more from noted]
    exact List.prefix_append _ _
  simp only [del, withFile, Option.map_eq_some_iff] at decoded
  obtain ⟨params, read, rfl⟩ := decoded
  have same : del libc.keeping (Mem.followedBy req behind) =
      some (proceed (fun params => delFile libc.keeping params.1) params) := by
    change (fileParam libc _ _).map _ = _
    rw [read]
    rfl
  cases params with
  | error msg =>
      obtain ⟨replied, rfl⟩ := Program.runs_done_iff.mp handled
      cases replied
      refine ⟨.refused msg, .refused msg, ⟨_, _, (k, []), keeping, same, Program.Runs.done, early⟩, trivial, ?_,
        .kept ?_⟩
      · rw [wrote, refuse_frame]
      · rw [show log = [] ++ more from noted]
        exact clean
  | ok params =>
      obtain ⟨result, s, removed, rest⟩ := Program.runs_bind_split handled
      have quiet := Volume.remove_holds (F := Footprint.all) params.1 trivial trivial ⟨trivial, trivial⟩
        fun _ => ⟨trivial, trivial⟩
      have unsent := (quiet.sent (fun talks => talks) (fun _ => trivial) removed.unlogged).2
      cases result with
      | none => cases (Program.runs_done_iff.mp rest).1
      | some result =>
          have course := Volume.remove_course params.1 (k, []) result s removed (by simp [Unfailing])
          cases result with
          | ok _ =>
              obtain ⟨replied, rfl⟩ := Program.runs_done_iff.mp rest
              cases replied
              refine ⟨.deleted, .deleted, ⟨no, params.1, params.2, middle, read, removed, early⟩, no, ?_, .kept ?_⟩
              · rw [wrote, unsent, show succeed [] = succeed Outcome.deleted.payload from rfl, succeed_frame _ rfl]
              · cases course with
                | smooth still _ =>
                    rw [show log = middle.2 ++ more from noted, unfailing_append]
                    exact ⟨still, clean⟩
          | error e =>
              have kept : Program.Runs (Recorded p) (delFile libc.keeping params.1) _ _ _ := delFile_keeping removed
              obtain ⟨replied, rfl⟩ := Program.runs_done_iff.mp rest
              obtain ⟨text, there, rfl⟩ := Option.map_eq_some_iff.mp replied.symm
              refine ⟨.refused (e.msg.cstring libc), .refused text,
                ⟨_, _, middle, keeping, same, kept, early⟩, trivial, ?_, ?_⟩
              · rw [wrote, unsent, refuse_frame]
              · rw [show log = middle.2 ++ more from noted]
                exact relayed_of_course course clean there

theorem meant_keeping {no : Nat} {m : Mem} {o : Outcome} (known : no ∈ [1, 2, 3, 5])
    (meant : Meant libc p k log no m o) : Meant libc.keeping p k log no m o := by
  -- The other four commands report nothing that could be gone.
  have same : select (commands libc.keeping) no = select (commands libc) no := by
    simp only [List.mem_cons, List.not_mem_nil, or_false] at known
    rcases known with rfl | rfl | rfl | rfl <;> rfl
  cases o with
  | refused msg =>
      obtain ⟨handler, program, s, selected, decoded, ran⟩ := meant
      exact ⟨handler, program, s, same.trans selected, decoded, ran⟩
  | _ => exact meant

end Deletions

/-! ## What the client makes of it -/

/-- Every client function for the command reads the response to its end and decodes
it to this outcome. -/
def Understood (q : Pid) (memory : Mem) (no : Nat) (response : Bytes) (o : Outcome) : Prop :=
  ∀ (c : Command) (stale : Nat) (client : Kernel) (rest : Bytes), c.no = no →
    client.inbox q = response ++ rest →
    ∃ client', Gives q (c.issue stale memory) client o.answer client' ∧ client'.inbox q = rest

section Clients
variable {q : Pid} {memory : Mem} {no : Nat}

theorem outcome_understood {o : Outcome} (of : o.Of no) (sized : o.payload.length < 4294967296)
    (readable : Readable memory o) : Understood q memory no o.frame o := by
  rintro c stale client rest rfl inbox
  exact issue_outcome stale o c of sized readable client rest inbox

theorem command_of (known : no ∈ [1, 2, 3, 4, 5]) : ∃ c : Command, c.no = no := by
  simp only [List.mem_cons, List.not_mem_nil, or_false] at known
  rcases known with rfl | rfl | rfl | rfl | rfl
  · exact ⟨.get [], rfl⟩
  · exact ⟨.put [] [], rfl⟩
  · exact ⟨.desc [], rfl⟩
  · exact ⟨.del [], rfl⟩
  · exact ⟨.list [], rfl⟩

theorem refused_sized (msg : CString) : (Outcome.refused msg).payload.length < 4294967296 := by
  have room : (msg.val.take 255).length ≤ 255 := List.length_take_le 255 msg.val
  rw [Outcome.payload, error_toBytes]
  simp only [List.length_append, toNets_length, toNetl_length, List.length_singleton]
  omega

/-- A refusal is understood as the one whose text begins with what was written, if
the client can read on behind it. -/
theorem refusal_understood_iff (known : no ∈ [1, 2, 3, 4, 5]) (msg text : CString) :
    Understood q memory no (Outcome.refused text).frame (.refused msg) ↔
      Readable memory (.refused text) ∧ text.val.take 255 = msg.val.take 255 := by
  have answered : text.val.take 255 = msg.val.take 255 →
      (Outcome.refused text).answer = (Outcome.refused msg).answer := congrArg Client.Answer.server
  constructor
  · intro understood
    obtain ⟨c, rfl⟩ := command_of known
    let client := (Volume.initKernel fun _ => []).hears q ((Outcome.refused text).frame ++ [])
    have inbox : client.inbox q = (Outcome.refused text).frame ++ [] := Kernel.hears_inbox _
    obtain ⟨_, gives, _⟩ := understood c 0 client [] rfl inbox
    by_cases readable : Readable memory (.refused text)
    · obtain ⟨_, gives', _⟩ :=
        issue_outcome 0 (.refused text) c trivial (refused_sized text) readable client [] inbox
      have same : Client.Answer.server (text.val.take 255) = .server (msg.val.take 255) := gives'.unique gives
      exact ⟨readable, Client.Answer.server.inj same⟩
    · obtain ⟨_, gives', _⟩ := issue_gives 0 memory c (k := client) fun k' same =>
        reads_lost 0 (.refused text) c trivial (refused_sized text) readable (same.trans inbox)
      cases gives'.unique gives
  · rintro ⟨readable, same⟩
    have understood : Understood q memory no (Outcome.refused text).frame (.refused text) :=
      outcome_understood trivial (refused_sized text) readable
    intro c stale client rest asks inbox
    rw [← answered same]
    exact understood c stale client rest asks inbox

theorem understood_iff_readable {o : Outcome} (known : no ∈ [1, 2, 3, 4, 5]) (of : o.Of no)
    (sized : o.payload.length < 4294967296) : Understood q memory no o.frame o ↔ Readable memory o := by
  refine ⟨fun understood => ?_, outcome_understood of sized⟩
  cases o with
  | refused msg => exact ((refusal_understood_iff known msg msg).mp understood).1
  | _ => trivial

end Clients

/-- Every text that a failed removal had to say is still there when it is sent, as
far as the response has room for it. -/
def Kept (libc : Libc) (log : Log) : Prop :=
  ∀ path no, ⟨.remove path, .error no⟩ ∈ log →
    ∃ text, libc.freed no path = some text ∧ text.val.take 255 = (libc.what no path).val.take 255

theorem readable_refused_iff {memory : Mem} {msg text : CString}
    (same : text.val.take 255 = msg.val.take 255) :
    Readable memory (.refused text) ↔ Readable memory (.refused msg) := by
  have lengths := congrArg List.length same
  rw [List.length_take, List.length_take] at lengths
  have left : 254 - text.val.length = 254 - msg.val.length := by omega
  rw [Readable, Readable, left]

theorem relayed_understood_iff {libc : Libc} {log : Log} {o w : Outcome} {q : Pid} {memory : Mem} {no : Nat}
    (relayed : Relayed libc log o w) (known : no ∈ [1, 2, 3, 4, 5]) (of : o.Of no)
    (sized : w.payload.length < 4294967296) :
    Understood q memory no w.frame o ↔ Kept libc log ∧ Readable memory o := by
  cases relayed with
  | kept clean =>
      have kept : Kept libc log := fun path no member => absurd member (clean path no)
      rw [understood_iff_readable known of sized]
      exact (and_iff_right kept).symm
  | @replaced path no' text only there =>
      have kept : Kept libc log ↔ text.val.take 255 = (libc.what no' path).val.take 255 := by
        constructor
        · intro kept
          obtain ⟨text', found, same⟩ := kept path no' ((only path no').mpr ⟨rfl, rfl⟩)
          cases there.symm.trans found
          exact same
        · intro same path' no'' member
          obtain ⟨rfl, rfl⟩ := (only path' no'').mp member
          exact ⟨text, there, same⟩
      rw [refusal_understood_iff known, kept]
      constructor
      · rintro ⟨readable, same⟩
        exact ⟨same, (readable_refused_iff same).mp readable⟩
      · rintro ⟨same, readable⟩
        exact ⟨(readable_refused_iff same).mpr readable, same⟩

/-- An answered request with one of the five commands is answered by one frame, and
every client function for that command reads it to its end and decodes it to what the
handler had to report if and only if no text of a failed removal has gone missing and
the memory behind the client's buffer can be read as far as its decoder goes. -/
theorem responses_are_understood (libc : Libc) (p q : Pid) (behind memory : Mem) (head : Data)
    (req : Bytes) (k k' : Kernel) (log : Log) (known : head.command ∈ [1, 2, 3, 4, 5])
    (small : ∀ i, (k.files.data i).length < 4294967289)
    (run : Program.Runs (Recorded p) (Server.serveRequest libc behind () head req) (k, []) (.inl ()) (k', log)) :
    ∃ o w : Outcome, Meant libc.keeping p k log head.command (Mem.followedBy req behind) o ∧
      (w = o ∨ ∃ msg text, o = .refused msg ∧ w = .refused text) ∧
      k'.sent p = k.sent p ++ ((Types.header w.status w.payload.length).toBytes ++ w.payload) ∧
      (w.status = Protocol.status.SUCCESS ∨ w.status = Protocol.status.ERROR) ∧
      (w.payload.length < 4294967296 →
        (Types.header w.status w.payload.length).length = w.payload.length ∧
        (Understood q memory head.command w.frame o ↔
          (head.command = 4 → Kept libc log) ∧ Readable memory o)) := by
  by_cases no : head.command = 4
  · obtain ⟨o, w, meant, of, wrote, relayed⟩ := deletion_reports no run
    refine ⟨o, w, meant, ?_, wrote, w.status_cases, fun sized => ⟨Nat.mod_eq_of_lt sized, ?_⟩⟩
    · cases relayed with
      | kept _ => exact Or.inl rfl
      | replaced _ _ => exact Or.inr ⟨_, _, rfl, rfl⟩
    · rw [relayed_understood_iff relayed known of sized]
      exact and_congr_left fun _ => (imp_iff_right no).symm
  · have others : head.command ∈ [1, 2, 3, 5] := by
      simp only [List.mem_cons, List.not_mem_nil, or_false] at known ⊢
      omega
    obtain ⟨o, meant, of, wrote⟩ := serve_reports others small run
    refine ⟨o, o, meant_keeping others meant, Or.inl rfl, wrote, o.status_cases,
      fun sized => ⟨Nat.mod_eq_of_lt sized, ?_⟩⟩
    rw [understood_iff_readable known of sized]
    exact (and_iff_right fun same => absurd same no).symm

def cannotRemove : CString := ⟨ascii "cannot remove", by decide⟩

/-- By the time it is read, the text of a destroyed exception begins with a NUL. -/
def overwritten : Libc :=
  ⟨fun _ => ⟨[], List.not_mem_nil⟩, fun _ _ => cannotRemove, fun _ _ => some ⟨[], List.not_mem_nil⟩⟩

/-- The upload of one byte to a new volume, for a client whose memory ends with its buffer. -/
theorem responses_are_understood_upload : ∃ (k' : Kernel) (log : Log) (o w : Outcome),
    Meant overwritten.keeping 1 (Volume.initKernel fun _ => ascii "1") log 2
      (Mem.followedBy (Command.put (ascii "a") [7]).body fun _ => none) o ∧
    (w = o ∨ ∃ msg text, o = .refused msg ∧ w = .refused text) ∧
    k'.sent 1 = [] ++ ((Types.header w.status w.payload.length).toBytes ++ w.payload) ∧
    (w.status = Protocol.status.SUCCESS ∨ w.status = Protocol.status.ERROR) ∧
    (w.payload.length < 4294967296 →
      (Types.header w.status w.payload.length).length = w.payload.length ∧
      (Understood 2 (fun _ => none) 2 w.frame o ↔
        ((Types.header 2 16).command = 4 → Kept overwritten log) ∧ Readable (fun _ => none) o)) := by
  have evaluated : ((Program.run (Program.logging (Kernel.exec 1)) 100
      (Server.serveRequest overwritten (fun _ => none) () (Types.header 2 16) (Command.put (ascii "a") [7]).body)
      (Volume.initKernel fun _ => ascii "1", [])).map fun result => result.1) = some (.inl ()) := by rfl
  obtain ⟨⟨_, k', log⟩, result, rfl⟩ := Option.map_eq_some_iff.mp evaluated
  have run : Program.Runs (Recorded 1) _ _ _ (k', log) :=
    Program.logging_runs (fun c s r t step => Or.inl step) result
  have small : ∀ i, ((Volume.initKernel fun _ => ascii "1").files.data i).length < 4294967289 := by
    simp [Volume.initKernel, Volume.initFiles]
  exact ⟨k', log, responses_are_understood _ 1 2 _ (fun _ => none) (Types.header 2 16) _ _ k' log (by decide) small run⟩

/-! ## A removal that fails -/

theorem deletion_meant_once {libc : Libc} {p : Pid} {k : Kernel} {log : Log} {m : Mem} {o₁ o₂ : Outcome}
    (first : Meant libc p k log 4 m o₁) (second : Meant libc p k log 4 m o₂) : o₁.frame = o₂.frame := by
  have replies : ∀ o, Meant libc p k log 4 m o → ∃ program reply s, del libc m = some program ∧
      Program.Runs (Recorded p) program (k, []) (some reply) s ∧ s.2 <+: log ∧ toSend reply = o.frame := by
    intro o meant
    cases o with
    | refused msg =>
        obtain ⟨handler, program, s, selected, decoded, ran, early⟩ := meant
        cases selected
        exact ⟨program, refuse msg, s, decoded, ran, early, refuse_frame msg⟩
    | deleted =>
        obtain ⟨_, fid, next, s, read, ran, early⟩ := meant
        refine ⟨delFile libc fid, succeed [], s, ?_, ran.bind Program.Runs.done, early, succeed_frame .deleted rfl⟩
        change (fileParam libc _ _).map _ = _
        rw [read]
        rfl
    | _ => cases meant.1
  obtain ⟨program, reply₁, s₁, decoded, ran₁, early₁, frame₁⟩ := replies o₁ first
  obtain ⟨program', reply₂, s₂, decoded', ran₂, early₂, frame₂⟩ := replies o₂ second
  cases decoded.symm.trans decoded'
  have same := (ran₁.same_log ran₂ rfl early₁ early₂).1
  rw [← frame₁, ← frame₂, Option.some.inj same]

/-- DEL of ".." on a new volume: the directory that is to be removed is not empty, and
the client is not told so. -/
theorem failed_removal_loses_its_message : ∃ (k' : Kernel) (log : Log),
    Program.Runs (Recorded 1) (Server.serveRequest overwritten (fun _ => none) () (Types.header 4 9)
      (Command.del (ascii "..")).body) (Volume.initKernel fun _ => ascii "1", []) (.inl ()) (k', log) ∧
    Meant overwritten.keeping 1 (Volume.initKernel fun _ => ascii "1") log 4
      (Mem.followedBy (Command.del (ascii "..")).body fun _ => none) (.refused cannotRemove) ∧
    k'.sent 1 = (Outcome.refused ⟨[], by decide⟩).frame ∧
    ∀ o, Meant overwritten.keeping 1 (Volume.initKernel fun _ => ascii "1") log 4
        (Mem.followedBy (Command.del (ascii "..")).body fun _ => none) o →
      ¬ Understood 2 (fun _ => some 0) 4 (k'.sent 1) o := by
  have evaluated : ((Program.run (Program.logging (Kernel.exec 1)) 100
      (Server.serveRequest overwritten (fun _ => none) () (Types.header 4 9) (Command.del (ascii "..")).body)
      (Volume.initKernel fun _ => ascii "1", [])).map fun result =>
        (result.1, result.2.1.sent 1, result.2.2[5]?)) =
      some (.inl (), (Outcome.refused ⟨[], by decide⟩).frame,
        some ⟨.remove (Storage.ID_DIR ++ ascii ".."), .error ENOTEMPTY⟩) := by rfl
  obtain ⟨⟨ended, k', log⟩, result, same⟩ := Option.map_eq_some_iff.mp evaluated
  simp only [Prod.mk.injEq] at same
  obtain ⟨rfl, sent, failed⟩ := same
  have run : Program.Runs (Recorded 1) _ _ _ (k', log) :=
    Program.logging_runs (fun c s r t step => Or.inl step) result
  obtain ⟨o, w, meant, _, wrote, relayed⟩ := deletion_reports rfl run
  have member := List.mem_of_getElem? failed
  cases relayed with
  | kept clean => exact absurd member (clean _ _)
  | replaced only there =>
      refine ⟨k', log, run, meant, sent, fun o' meant' understood => ?_⟩
      have once : (Outcome.refused cannotRemove).frame = o'.frame := deletion_meant_once meant meant'
      rw [sent] at understood
      cases o' with
      | refused msg =>
          -- Only an empty text would be understood, and that was not meant.
          have same := ((refusal_understood_iff (by decide) msg _).mp understood).2
          have empty : msg = ⟨[], by decide⟩ := by
            apply Subtype.ext
            simpa using same.symm
          rw [empty] at once
          exact absurd once (by decide)
      | deleted => exact absurd once (by decide)
      | _ => cases meant'.1

end Sfsdb.Responses

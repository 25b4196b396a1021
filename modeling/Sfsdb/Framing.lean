import Sfsdb.Bounds
import Sfsdb.Service

/-!
What `con_handler` makes of any bytes whatsoever. `parse` takes a stream apart
without running anything: into the requests whose header and body are whole, up
to the first header of another type, the first QUIT or the end. Serving those
requests one after the other is all that a run of `con_handler` does, but for the
error frame that answers the malformed header; a read that finds its stream at an
end is taken to throw.
-/

namespace Sfsdb.Framing

open Posix Protocol Handlers
open Bounds (wire16 wire32)
open Service (Keeps)
open Connection (Converses)
open Session (Command)

/-- Why no more requests are read: there is no whole one, its header is no header, or it is QUIT. -/
inductive Stop where
  | cut
  | malformed
  | quit
  deriving DecidableEq

/-- The header object behind eight bytes; an item of type 0 leaves it as it was. -/
def headerOf (stale : Nat) (head : Bytes) : Option Data :=
  if wire16 head 0 = ids.HEADER then some ⟨ids.HEADER, wire32 head 2, .header (wire16 head 6)⟩
  else if wire16 head 0 = ids.INVALID then some (Server.header stale)
  else none

def parse (stale : Nat) (stream : Bytes) : List (Data × Bytes) × Stop :=
  if stream.length < HEADER_BYTES then ([], .cut)
  else
    let behind := stream.drop HEADER_BYTES
    match headerOf stale (stream.take HEADER_BYTES) with
    | none => ([], .malformed)
    | some head =>
        if behind.length < head.length then ([], .cut)
        else if head.command = 6 then ([], .quit)
        else
          let rest := parse stale (behind.drop head.length)
          ((head, behind.take head.length) :: rest.1, rest.2)
termination_by stream.length
decreasing_by
  simp only [HEADER_BYTES, List.length_drop] at *
  omega

/-- The requests are served one after the other, until one of them ends the process or the loop. -/
inductive Serves (libc : Libc) (behind : Mem) (p : Pid) :
    List (Data × Bytes) → Kernel → Option Server.End → Kernel → Prop where
  | done {k : Kernel} : Serves libc behind p [] k none k
  | next {request : Data × Bytes} {rest : List (Data × Bytes)} {k k₁ k' : Kernel}
      {e : Option Server.End} :
      Runs p (Server.serveRequest libc behind () request.1 request.2) k (.inl ()) k₁ →
      Serves libc behind p rest k₁ e k' → Serves libc behind p (request :: rest) k e k'
  | ends {request : Data × Bytes} {rest : List (Data × Bytes)} {k k' : Kernel} {e : Server.End} :
      Runs p (Server.serveRequest libc behind () request.1 request.2) k (.inr ((), e)) k' →
      Serves libc behind p (request :: rest) k (some e) k'

/-! ## The splitting of a stream -/

section Splitting
variable {stale : Nat} {head body rest stream : Bytes} {d : Data}

theorem parse_cut (short : stream.length < HEADER_BYTES) : parse stale stream = ([], .cut) := by
  rw [parse, if_pos short]

theorem parse_header (whole : head.length = HEADER_BYTES) : parse stale (head ++ rest) =
    match headerOf stale head with
    | none => ([], .malformed)
    | some d =>
        if rest.length < d.length then ([], .cut)
        else if d.command = 6 then ([], .quit)
        else ((d, rest.take d.length) :: (parse stale (rest.drop d.length)).1,
          (parse stale (rest.drop d.length)).2) := by
  have long : ¬ (head ++ rest).length < HEADER_BYTES := by
    rw [List.length_append]
    omega
  rw [parse, if_neg long, ← whole]
  dsimp only
  rw [List.take_left, List.drop_left]

theorem parse_malformed (whole : head.length = HEADER_BYTES) (nothing : headerOf stale head = none) :
    parse stale (head ++ rest) = ([], .malformed) := by
  rw [parse_header whole, nothing]

theorem parse_short (whole : head.length = HEADER_BYTES) (found : headerOf stale head = some d)
    (short : rest.length < d.length) : parse stale (head ++ rest) = ([], .cut) := by
  rw [parse_header whole, found]
  exact if_pos short

theorem parse_quit (whole : head.length = HEADER_BYTES) (found : headerOf stale head = some d)
    (sized : body.length = d.length) (leaves : d.command = 6) :
    parse stale (head ++ (body ++ rest)) = ([], .quit) := by
  have enough : ¬ (body ++ rest).length < d.length := by
    rw [List.length_append]
    omega
  rw [parse_header whole, found]
  dsimp only
  rw [if_neg enough, if_pos leaves]

theorem parse_request (whole : head.length = HEADER_BYTES) (found : headerOf stale head = some d)
    (sized : body.length = d.length) (stays : d.command ≠ 6) :
    parse stale (head ++ (body ++ rest)) = ((d, body) :: (parse stale rest).1, (parse stale rest).2) := by
  have enough : ¬ (body ++ rest).length < d.length := by
    rw [List.length_append]
    omega
  rw [parse_header whole, found]
  dsimp only
  rw [if_neg enough, if_neg stays, ← sized, List.take_left, List.drop_left]

inductive Splits (stale : Nat) : Bytes → Prop where
  | short {stream : Bytes} : stream.length < HEADER_BYTES → Splits stale stream
  | malformed {head rest : Bytes} : head.length = HEADER_BYTES → headerOf stale head = none →
      Splits stale (head ++ rest)
  | cut {head rest : Bytes} {d : Data} : head.length = HEADER_BYTES → headerOf stale head = some d →
      rest.length < d.length → Splits stale (head ++ rest)
  | quit {head body rest : Bytes} {d : Data} : head.length = HEADER_BYTES → headerOf stale head = some d →
      body.length = d.length → d.command = 6 → Splits stale (head ++ (body ++ rest))
  | request {head body rest : Bytes} {d : Data} : head.length = HEADER_BYTES →
      headerOf stale head = some d → body.length = d.length → d.command ≠ 6 → Splits stale rest →
      Splits stale (head ++ (body ++ rest))

theorem splits (stale : Nat) (stream : Bytes) : Splits stale stream := by
  induction sized : stream.length using Nat.strong_induction_on generalizing stream with
  | _ n ih =>
      by_cases short : stream.length < HEADER_BYTES
      · exact Splits.short short
      · have whole : (stream.take HEADER_BYTES).length = HEADER_BYTES :=
          List.length_take_of_le (Nat.not_lt.mp short)
        rw [← List.take_append_drop HEADER_BYTES stream]
        cases found : headerOf stale (stream.take HEADER_BYTES) with
        | none => exact Splits.malformed whole found
        | some d =>
            by_cases cut : (stream.drop HEADER_BYTES).length < d.length
            · exact Splits.cut whole found cut
            · have body : ((stream.drop HEADER_BYTES).take d.length).length = d.length :=
                List.length_take_of_le (Nat.not_lt.mp cut)
              rw [← List.take_append_drop d.length (stream.drop HEADER_BYTES)]
              by_cases leaves : d.command = 6
              · exact Splits.quit whole found body leaves
              · apply Splits.request whole found body leaves
                apply ih _ _ _ rfl
                simp only [HEADER_BYTES, List.length_drop] at *
                omega

end Splitting

/-! ## One pass -/

section Headers
variable {stale : Nat} {head : Bytes}

theorem getType_headerOf (whole : head.length = HEADER_BYTES) {d : Data} (found : headerOf stale head = some d) :
    ∃ err pos, getType (Mem.ofList head) 0 (Server.header stale) = some (err, d, pos) ∧ err.isError = false := by
  unfold headerOf at found
  split at found
  · rename_i same
    cases found
    have length : head.length = 8 := whole
    have two : 0 + 2 ≤ head.length := by omega
    have six : 0 + 2 + 4 ≤ head.length := by omega
    have eight : 0 + 2 + 4 + 2 ≤ head.length := by omega
    refine ⟨.ofErrno 0, 8, ?_, by simp [Error.isError, Error.ofErrno]⟩
    simp only [getType, Bounds.toHosts_ofList, if_pos two, Option.bind_eq_bind, Option.bind_some, same, Server.header,
      ne_eq, not_true_eq_false, ↓reduceIte, Data.fromBytes, Bounds.toHostl_ofList, if_pos six, true_or,
      Data.fromPayload, if_pos eight, pure]
  · rename_i other
    split at found
    · rename_i zero
      cases found
      have mismatch := Bounds.getType_mismatch head 0 (Server.header stale) (by rw [whole]; decide) other
      exact ⟨_, _, mismatch, by simp [Error.isError, zero, ids.INVALID]⟩
    · cases found

theorem getType_malformed (whole : head.length = HEADER_BYTES) (nothing : headerOf stale head = none) :
    ∃ err, getType (Mem.ofList head) 0 (Server.header stale) = some (err, Server.header stale, 0) ∧
      err.isError = true ∧ err.msg = .text wrongParameterType := by
  unfold headerOf at nothing
  split at nothing
  · cases nothing
  · rename_i other
    split at nothing
    · cases nothing
    · rename_i found
      have mismatch := Bounds.getType_mismatch head 0 (Server.header stale) (by rw [whole]; decide) other
      refine ⟨_, mismatch, ?_, rfl⟩
      simpa [Error.isError, ids.INVALID] using found

end Headers

section Passes
variable {libc : Libc} {stale : Nat} {q : Pid} {k : Kernel} {σ : Type}
  {serve : σ → Data → Bytes → Prog (σ ⊕ σ × Server.End)} {st : σ}

theorem runs_behind {α β : Type} {program : Prog α} {f : α → Prog β} {value : α} {k k₁ k' : Kernel} {result : β}
    (first : Runs q program k value k₁) :
    Runs q (program.bind f) k result k' ↔ Runs q (f value) k₁ result k' := by
  constructor
  · intro run
    obtain ⟨v, t, here, rest⟩ := Program.runs_bind_split run
    obtain ⟨rfl, rfl⟩ := (gives_of_runs first v t).mp here
    exact rest
  · exact first.bind

theorem conPass_cut (throws : k.Throws) (short : (k.inbox q).length < HEADER_BYTES) :
    Runs q (Server.conPass libc stale serve st) k (.inr (st, .left)) (k.hears q []) :=
  (recv_failed throws short).bind Program.Runs.done

theorem conPass_malformed {head rest : Bytes} (whole : head.length = HEADER_BYTES)
    (inbox : k.inbox q = head ++ rest) (nothing : headerOf stale head = none) :
    Runs q (Server.conPass libc stale serve st) k (.inr (st, .left))
      ((k.hears q rest).said q (errorMessage wrongParameterType.val)) := by
  have read : Runs q (Sys.recv HEADER_BYTES) k (.ok head) (k.hears q rest) := whole ▸ recv_runs inbox
  obtain ⟨err, found, failed, msg⟩ := getType_malformed whole nothing
  apply read.bind
  dsimp only
  rw [found]
  dsimp only
  rw [if_pos failed, msg]
  exact (send_runs q _ _).bind Program.Runs.done

variable (libc serve st) in
theorem conPass_eq {head : Bytes} {d : Data} (whole : head.length = HEADER_BYTES)
    (found : headerOf stale head = some d) :
    ∃ next : Except Unit Bytes → Prog (σ ⊕ σ × Server.End),
      Server.conPass libc stale serve st = (Sys.recv HEADER_BYTES).bind next ∧
      next (.ok head) = (Sys.recv d.length).bind fun received => match received with
        | .ok req => serve st d req
        | _ => .done (.inr (st, .left)) := by
  obtain ⟨err, pos, accepted, ok⟩ := getType_headerOf whole found
  refine ⟨_, rfl, ?_⟩
  dsimp only
  rw [accepted]
  dsimp only
  rw [if_neg (by rw [ok]; decide)]
  rfl

theorem conPass_header {head rest : Bytes} {d : Data} {result : σ ⊕ σ × Server.End} {k' : Kernel}
    (whole : head.length = HEADER_BYTES) (inbox : k.inbox q = head ++ rest) (found : headerOf stale head = some d) :
    Runs q (Server.conPass libc stale serve st) k result k' ↔
      Runs q ((Sys.recv d.length).bind fun received => match received with
        | .ok req => serve st d req
        | _ => .done (.inr (st, .left))) (k.hears q rest) result k' := by
  have read : Runs q (Sys.recv HEADER_BYTES) k (.ok head) (k.hears q rest) := whole ▸ recv_runs inbox
  obtain ⟨next, same, behind⟩ := conPass_eq libc serve st whole found
  rw [same, runs_behind read, behind]

end Passes

/-! ## Serving takes no notice of what comes later -/

section Serving
variable {q : Pid} {k k' : Kernel} {α : Type} {program : Prog α} {value : α}

theorem runs_hears (keeps : Keeps Converses program) (x : Bytes) (run : Runs q program k value k') :
    Runs q program (k.hears q x) value (k'.hears q x) := by
  induction run with
  | done => exact Program.Runs.done
  | @call c next r v s middle t step _ ih =>
      cases keeps with
      | call converses rest =>
          have answered : s.exec q c = some (r, middle) := step
          apply Program.Runs.call _ (ih (rest r trivial))
          change (s.hears q x).exec q c = some (r, middle.hears q x)
          rw [Connection.exec_hears converses, answered, Option.map_some]
  | loop _ ih => exact Program.Runs.loop (ih keeps.unroll)

theorem runs_inbox (keeps : Keeps Converses program) (run : Runs q program k value k') :
    k'.inbox q = k.inbox q := by
  obtain ⟨_, _, inbox, _⟩ := Connection.talks_of_runs keeps run
  exact inbox

theorem runs_hears_iff (keeps : Keeps Converses program) (x : Bytes) :
    Runs q program (k.hears q x) value k' ↔
      ∃ k₁, Runs q program (k.hears q []) value k₁ ∧ k' = k₁.hears q x := by
  constructor
  · intro run
    have inbox := runs_inbox keeps run
    rw [Kernel.hears_inbox] at inbox
    have other := runs_hears keeps [] run
    rw [Kernel.hears_hears] at other
    refine ⟨_, other, ?_⟩
    rw [Kernel.hears_hears, ← inbox, Kernel.hears_same]
  · rintro ⟨k₁, run, rfl⟩
    have other := runs_hears keeps x run
    rwa [Kernel.hears_hears] at other

theorem serveRequest_keeps (libc : Libc) (behind : Mem) {head : Data} (stays : head.command ≠ 6) (req : Bytes) :
    Keeps Converses (Server.serveRequest libc behind () head req) :=
  Service.serve_within (r := ⟨0, behind, head, req⟩) (fun _ looks => looks.1) (fun quits => absurd quits stays)
    fun c _ _ => Service.served_converses libc c

theorem serveRequest_quit (libc : Libc) (behind : Mem) {head : Data} (leaves : head.command = 6) (req : Bytes) :
    Runs q (Server.serveRequest libc behind () head req) k (.inl ()) (k.hears q []) := by
  have selected : select (commands libc) head.command = some quit := by
    rw [leaves]
    rfl
  unfold Server.serveRequest
  rw [selected]
  exact (Program.runs_issue_iff.mpr rfl : Runs q Sys.disconnect k () (k.hears q [])).bind Program.Runs.done

end Serving

/-! ## The whole loop -/

section Loop
variable (libc : Libc) (stale : Nat) (behind : Mem) (q : Pid)

def Ends (k : Kernel) (e : Server.End) (k' : Kernel) : Prop :=
  ∃ k₁, Runs q (Server.conHandler libc stale behind) k ((), e) k₁ ∧ k' = k₁.hears q []

/-- The requests are served, and a malformed header behind them is answered by an error frame. -/
def Concludes (parsed : List (Data × Bytes) × Stop) (k : Kernel) (e : Server.End) (k' : Kernel) : Prop :=
  Serves libc behind q parsed.1 k (some e) k' ∨
    e = .left ∧ ∃ k₁, Serves libc behind q parsed.1 k none k₁ ∧
      k' = if parsed.2 = .malformed then k₁.said q (errorMessage wrongParameterType.val) else k₁

def Onward (again : Kernel → Prop) (leaves : Server.End → Kernel → Prop) :
    Unit ⊕ Unit × Server.End → Kernel → Prop
  | .inl _, k => again k
  | .inr (_, e), k => leaves e k

variable {libc stale behind q} {k k₁ k' : Kernel} {e : Server.End}

theorem ends_iff : Ends libc stale behind q k e k' ↔
    ∃ result k₁, Runs q (Server.conPass libc stale (Server.serveRequest libc behind) ()) k result k₁ ∧
      Onward (fun k₁ => Ends libc stale behind q k₁ e k') (fun e₁ k₁ => e₁ = e ∧ k' = k₁.hears q []) result k₁ := by
  constructor
  · rintro ⟨last, run, rfl⟩
    obtain ⟨result, k₁, pass, rest⟩ := Program.runs_bind_split (Program.runs_loop_iff.mp run)
    refine ⟨result, k₁, pass, ?_⟩
    rcases result with ⟨⟩ | ⟨⟨⟩, e₁⟩
    · exact ⟨last, rest, rfl⟩
    · obtain ⟨same, rfl⟩ := Program.runs_done_iff.mp rest
      cases same
      exact ⟨rfl, rfl⟩
  · rintro ⟨result, k₁, pass, onward⟩
    rcases result with ⟨⟩ | ⟨⟨⟩, e₁⟩
    · obtain ⟨last, rest, same⟩ := onward
      exact ⟨last, pass.again rest, same⟩
    · obtain ⟨rfl, same⟩ := onward
      exact ⟨k₁, pass.leave, same⟩

theorem ends_left (pass : Runs q (Server.conPass libc stale (Server.serveRequest libc behind) ()) k
    (.inr ((), .left)) k₁) : Ends libc stale behind q k e k' ↔ e = .left ∧ k' = k₁.hears q [] := by
  rw [ends_iff]
  constructor
  · rintro ⟨result, last, run, onward⟩
    obtain ⟨rfl, rfl⟩ := (gives_of_runs pass result last).mp run
    exact ⟨onward.1.symm, onward.2⟩
  · rintro ⟨rfl, same⟩
    exact ⟨_, _, pass, rfl, same⟩

theorem concludes_nil {stop : Stop} : Concludes libc behind q ([], stop) k e k' ↔
    e = .left ∧ k' = if stop = .malformed then k.said q (errorMessage wrongParameterType.val) else k := by
  constructor
  · rintro (served | ⟨rfl, k₁, served, same⟩)
    · cases served
    · cases served
      exact ⟨rfl, same⟩
  · rintro ⟨rfl, same⟩
    exact Or.inr ⟨rfl, k, Serves.done, same⟩

theorem concludes_cons {request : Data × Bytes} {rest : List (Data × Bytes)} {stop : Stop} :
    Concludes libc behind q (request :: rest, stop) k e k' ↔
      ∃ result k₁, Runs q (Server.serveRequest libc behind () request.1 request.2) k result k₁ ∧
        Onward (fun k₁ => Concludes libc behind q (rest, stop) k₁ e k') (fun e₁ k₁ => e₁ = e ∧ k' = k₁) result k₁ := by
  constructor
  · rintro (served | ⟨rfl, last, served, same⟩)
    · cases served with
      | next run others => exact ⟨_, _, run, Or.inl others⟩
      | ends run => exact ⟨_, _, run, rfl, rfl⟩
    · cases served with
      | next run others => exact ⟨_, _, run, Or.inr ⟨rfl, last, others, same⟩⟩
  · rintro ⟨result, k₁, run, onward⟩
    rcases result with ⟨⟩ | ⟨⟨⟩, e₁⟩
    · rcases onward with served | ⟨rfl, last, served, same⟩
      · exact Or.inl (Serves.next run served)
      · exact Or.inr ⟨rfl, last, Serves.next run served, same⟩
    · obtain ⟨rfl, rfl⟩ := onward
      exact Or.inl (Serves.ends run)

/-- A pass over a whole request serves it as if nothing came behind. -/
theorem conPass_request {head body rest : Bytes} {d : Data} {result : Unit ⊕ Unit × Server.End}
    (whole : head.length = HEADER_BYTES) (inbox : k.inbox q = head ++ (body ++ rest))
    (found : headerOf stale head = some d) (sized : body.length = d.length) (stays : d.command ≠ 6) :
    Runs q (Server.conPass libc stale (Server.serveRequest libc behind) ()) k result k₁ ↔
      ∃ k₂, Runs q (Server.serveRequest libc behind () d body) (k.hears q []) result k₂ ∧ k₁ = k₂.hears q rest := by
  have received : Runs q (Sys.recv d.length) (k.hears q (body ++ rest)) (.ok body) (k.hears q rest) := by
    have received := recv_runs (Kernel.hears_inbox (k := k) (p := q) (body ++ rest))
    rwa [Kernel.hears_hears, sized] at received
  exact ((conPass_header whole inbox found).trans (runs_behind received)).trans
    (runs_hears_iff (serveRequest_keeps libc behind stays body) rest)

theorem conPass_quit {head body rest : Bytes} {d : Data} (whole : head.length = HEADER_BYTES)
    (inbox : k.inbox q = head ++ (body ++ rest)) (found : headerOf stale head = some d)
    (sized : body.length = d.length) (leaves : d.command = 6) :
    Runs q (Server.conPass libc stale (Server.serveRequest libc behind) ()) k (.inl ()) (k.hears q []) := by
  -- QUIT hangs up, so that the next header cannot be received.
  have received := recv_runs (Kernel.hears_inbox (k := k) (p := q) (body ++ rest))
  rw [Kernel.hears_hears, sized] at received
  have quits := serveRequest_quit (q := q) (k := k.hears q rest) libc behind leaves body
  rw [Kernel.hears_hears] at quits
  rw [conPass_header whole inbox found]
  exact received.bind quits

theorem ends_request {head body rest : Bytes} {d : Data} (whole : head.length = HEADER_BYTES)
    (inbox : k.inbox q = head ++ (body ++ rest)) (found : headerOf stale head = some d)
    (sized : body.length = d.length) (stays : d.command ≠ 6) :
    Ends libc stale behind q k e k' ↔
      ∃ result k₁, Runs q (Server.serveRequest libc behind () d body) (k.hears q []) result k₁ ∧
        Onward (fun k₁ => Ends libc stale behind q (k₁.hears q rest) e k') (fun e₁ k₁ => e₁ = e ∧ k' = k₁)
          result k₁ := by
  have keeps := serveRequest_keeps libc behind stays body
  rw [ends_iff]
  constructor
  · rintro ⟨result, k₁, passed, onward⟩
    obtain ⟨k₂, run, rfl⟩ := (conPass_request whole inbox found sized stays).mp passed
    refine ⟨result, k₂, run, ?_⟩
    rcases result with ⟨⟩ | ⟨⟨⟩, e₁⟩
    · exact onward
    · have unread : k₂.inbox q = [] := (runs_inbox keeps run).trans (Kernel.hears_inbox [])
      refine ⟨onward.1, ?_⟩
      rw [onward.2, Kernel.hears_hears, ← unread, Kernel.hears_same]
  · rintro ⟨result, k₂, run, onward⟩
    refine ⟨result, k₂.hears q rest, (conPass_request whole inbox found sized stays).mpr ⟨k₂, run, rfl⟩, ?_⟩
    rcases result with ⟨⟩ | ⟨⟨⟩, e₁⟩
    · exact onward
    · have unread : k₂.inbox q = [] := (runs_inbox keeps run).trans (Kernel.hears_inbox [])
      refine ⟨onward.1, ?_⟩
      rw [onward.2, Kernel.hears_hears, ← unread, Kernel.hears_same]

theorem ends_malformed {head rest : Bytes} (whole : head.length = HEADER_BYTES)
    (inbox : k.inbox q = head ++ rest) (nothing : headerOf stale head = none) :
    Ends libc stale behind q k e k' ↔
      e = .left ∧ k' = (k.hears q []).said q (errorMessage wrongParameterType.val) := by
  rw [ends_left (conPass_malformed whole inbox nothing), ← Kernel.hears_hears (k := k) rest []]
  rfl

theorem ends_short {head rest : Bytes} {d : Data} (throws : k.Throws) (whole : head.length = HEADER_BYTES)
    (inbox : k.inbox q = head ++ rest) (found : headerOf stale head = some d) (short : rest.length < d.length) :
    Ends libc stale behind q k e k' ↔ e = .left ∧ k' = k.hears q [] := by
  have pass : Runs q (Server.conPass libc stale (Server.serveRequest libc behind) ()) k (.inr ((), .left))
      ((k.hears q rest).hears q []) := by
    rw [conPass_header whole inbox found]
    exact (recv_failed (k := k.hears q rest) throws (by rw [Kernel.hears_inbox]; exact short)).bind Program.Runs.done
  rw [ends_left pass, Kernel.hears_hears, Kernel.hears_hears]

theorem ends_quit {head body rest : Bytes} {d : Data} (throws : k.Throws) (whole : head.length = HEADER_BYTES)
    (inbox : k.inbox q = head ++ (body ++ rest)) (found : headerOf stale head = some d)
    (sized : body.length = d.length) (leaves : d.command = 6) :
    Ends libc stale behind q k e k' ↔ e = .left ∧ k' = k.hears q [] := by
  have pass : Runs q (Server.conPass libc stale (Server.serveRequest libc behind) ()) k (.inl ()) (k.hears q []) :=
    conPass_quit whole inbox found sized leaves
  have again : Ends libc stale behind q (k.hears q []) e k' ↔ e = .left ∧ k' = k.hears q [] := by
    rw [ends_left (conPass_cut (k := k.hears q []) throws (by rw [Kernel.hears_inbox]; decide)), Kernel.hears_hears,
      Kernel.hears_hears]
  rw [ends_iff]
  constructor
  · rintro ⟨result, k₁, run, onward⟩
    obtain ⟨rfl, rfl⟩ := (gives_of_runs pass result k₁).mp run
    exact again.mp onward
  · intro left
    exact ⟨_, _, pass, again.mpr left⟩

theorem ends_iff_concludes {stream : Bytes} (throws : k.Throws) (inbox : k.inbox q = stream) :
    Ends libc stale behind q k e k' ↔ Concludes libc behind q (parse stale stream) (k.hears q []) e k' := by
  -- By induction on the splitting of the stream, with a case for each way a pass over it can go.
  induction splits stale stream generalizing k with
  | short short =>
      rw [parse_cut short, ends_left (conPass_cut throws (by rw [inbox]; exact short)), concludes_nil,
        Kernel.hears_hears]
      rfl
  | malformed whole nothing =>
      rw [parse_malformed whole nothing, ends_malformed whole inbox nothing, concludes_nil, if_pos rfl]
  | cut whole found short =>
      rw [parse_short whole found short, ends_short throws whole inbox found short, concludes_nil]
      rfl
  | quit whole found sized leaves =>
      rw [parse_quit whole found sized leaves, ends_quit throws whole inbox found sized leaves, concludes_nil]
      rfl
  | @request head body rest d whole found sized stays _ ih =>
      rw [parse_request whole found sized stays, concludes_cons, ends_request whole inbox found sized stays]
      have onwards : ∀ result k₁, Runs q (Server.serveRequest libc behind () d body) (k.hears q []) result k₁ →
          (Onward (fun k₁ => Ends libc stale behind q (k₁.hears q rest) e k') (fun e₁ k₁ => e₁ = e ∧ k' = k₁)
            result k₁ ↔
          Onward (fun k₁ => Concludes libc behind q (parse stale rest) k₁ e k') (fun e₁ k₁ => e₁ = e ∧ k' = k₁)
            result k₁) := by
        intro result k₁ run
        have unread : k₁.inbox q = [] :=
          (runs_inbox (serveRequest_keeps libc behind stays body) run).trans (Kernel.hears_inbox [])
        rcases result with ⟨⟩ | ⟨⟨⟩, e₁⟩
        · have throws₁ : k₁.Throws := Kernel.runs_throws run throws
          have later := ih (k := k₁.hears q rest) throws₁ (Kernel.hears_inbox _)
          rw [Kernel.hears_hears, ← unread, Kernel.hears_same] at later
          exact later
        · exact Iff.rfl
      constructor
      · rintro ⟨result, k₁, run, onward⟩
        exact ⟨result, k₁, run, (onwards result k₁ run).mp onward⟩
      · rintro ⟨result, k₁, run, onward⟩
        exact ⟨result, k₁, run, (onwards result k₁ run).mpr onward⟩

end Loop

end Sfsdb.Framing

import Sfsdb.Framing

/-!
A session whose connection breaks off. However many bytes of it have come in,
the server does the calls whose frames are there to the last byte, as the map
answers them, and nothing of the call that was cut short.
-/

namespace Sfsdb.Cutoff

open Posix Protocol
open Session (Command)
open Service (Holds Admissible outcome)
open Framing (headerOf parse Serves)
open Volume (Map)

/-- The calls whose frames are within the first `n` bytes of a session. -/
def received : List Command → Nat → List Command
  | [], _ => []
  | c :: rest, n => if c.frame.length ≤ n then c :: received rest (n - c.frame.length) else []

def request (c : Command) : Data × Bytes := (Types.header c.no c.body.length, c.body)

section Abstract
variable (libc : Libc) (source : Nat → Bytes)

def applyAll (calls : List Command) (s : Map × Nat) : Map × Nat :=
  calls.foldl (fun s c => Service.apply source c s) s

def responses : List Command → Map × Nat → Bytes
  | [], _ => []
  | c :: rest, s => (outcome libc source c s).frame ++ responses rest (Service.apply source c s)

def AdmissibleAll : List Command → Map × Nat → Prop
  | [], _ => True
  | c :: rest, s => Admissible libc source c s ∧ AdmissibleAll rest (Service.apply source c s)

end Abstract

/-! ## Taking a broken session apart -/

section Splitting
variable {stale : Nat} {c : Command}

theorem header_length (no length : Nat) : (Types.header no length).toBytes.length = HEADER_BYTES := rfl

theorem headerOf_header (no length : Nat) (small : no < 65536) (sized : length < 4294967296) :
    headerOf stale (Types.header no length).toBytes = some (Types.header no length) := by
  have read : getType (Mem.ofList (Types.header no length).toBytes) 0 (Server.header stale) = some (_, _, _) :=
    Session.header_read no length small sized
  cases found : headerOf stale (Types.header no length).toBytes with
  | none =>
      obtain ⟨err, other, failed, _⟩ := Framing.getType_malformed (header_length no length) found
      rw [read, Option.some.injEq, Prod.mk.injEq] at other
      rw [← other.1] at failed
      cases failed
  | some d =>
      obtain ⟨err, pos, other, _⟩ := Framing.getType_headerOf (header_length no length) found
      rw [read, Option.some.injEq, Prod.mk.injEq, Prod.mk.injEq] at other
      rw [other.2.1]

theorem frame_length (c : Command) : c.frame.length = HEADER_BYTES + c.body.length := by
  rw [Command.frame, List.length_append, header_length]

theorem stays (c : Command) : (Types.header c.no c.body.length).command ≠ 6 := by
  rw [show (Types.header c.no c.body.length).command = c.no from Nat.mod_eq_of_lt c.no_lt]
  cases c <;> simp [Command.no]

theorem parse_frame (valid : c.Valid) (rest : Bytes) : parse stale (c.frame ++ rest) =
    (request c :: (parse stale rest).1, (parse stale rest).2) := by
  rw [Command.frame, List.append_assoc]
  exact Framing.parse_request (header_length _ _) (headerOf_header c.no c.body.length c.no_lt valid.sized)
    (Nat.mod_eq_of_lt valid.sized).symm (stays c)

theorem parse_part (valid : c.Valid) {n : Nat} (short : n < c.frame.length) (others : Bytes) :
    parse stale ((c.frame ++ others).take n) = ([], .cut) := by
  rw [List.take_append_of_le_length (Nat.le_of_lt short)]
  rw [frame_length] at short
  by_cases headed : n < HEADER_BYTES
  · apply Framing.parse_cut
    rw [List.length_take]
    exact Nat.lt_of_le_of_lt (Nat.min_le_left _ _) headed
  · have long : (Types.header c.no c.body.length).toBytes.length ≤ n := Nat.not_lt.mp headed
    rw [Command.frame, List.take_append, List.take_of_length_le long]
    apply Framing.parse_short (header_length _ _) (headerOf_header c.no c.body.length c.no_lt valid.sized)
    rw [List.length_take, header_length, show (Types.header c.no c.body.length).length = c.body.length from
      Nat.mod_eq_of_lt valid.sized]
    omega

variable (stale) in
theorem parse_taken (calls : List Command) (valid : ∀ c ∈ calls, c.Valid) (n : Nat) :
    parse stale ((calls.flatMap Command.frame).take n) = ((received calls n).map request, .cut) := by
  induction calls generalizing n with
  | nil =>
      apply Framing.parse_cut
      rw [List.flatMap_nil, List.take_nil]
      decide
  | cons c rest ih =>
      have here := valid c List.mem_cons_self
      rw [List.flatMap_cons, received]
      by_cases enough : c.frame.length ≤ n
      · rw [if_pos enough, List.take_append, List.take_of_length_le enough, parse_frame here,
          ih (fun other member => valid other (List.mem_cons_of_mem c member))]
        rfl
      · rw [if_neg enough, parse_part here (Nat.lt_of_not_le enough)]
        rfl

end Splitting

/-! ## Serving what is there -/

section Serving
variable {libc : Libc} {behind : Mem} {q : Pid} {k : Kernel} {s : Map × Nat}

theorem AdmissibleAll.valid {source : Nat → Bytes} {calls : List Command}
    (admissible : AdmissibleAll libc source calls s) : ∀ c ∈ calls, c.Valid := by
  induction calls generalizing s with
  | nil => exact fun c member => (nomatch member)
  | cons first rest ih =>
      intro c member
      rcases List.mem_cons.mp member with rfl | later
      · exact admissible.1.valid
      · exact ih admissible.2 c later

theorem AdmissibleAll.received {source : Nat → Bytes} {calls : List Command} {n : Nat}
    (admissible : AdmissibleAll libc source calls s) : AdmissibleAll libc source (received calls n) s := by
  induction calls generalizing s n with
  | nil => trivial
  | cons c rest ih =>
      rw [Cutoff.received]
      split
      · exact ⟨admissible.1, ih admissible.2⟩
      · trivial

theorem serves_all (behind : Mem) (calls : List Command) (holds : Holds k s) (admissible : AdmissibleAll libc k.source calls s) :
    ∃ k', Serves libc behind q (calls.map request) k none k' ∧
      k'.sent q = k.sent q ++ responses libc k.source calls s ∧ Holds k' (applyAll k.source calls s) := by
  -- By induction on the calls: each is served from the map the ones before it have left.
  induction calls generalizing k s with
  | nil => exact ⟨k, Serves.done, (List.append_nil _).symm, holds⟩
  | cons c rest ih =>
      have asks : History.Request.Asks libc ⟨q, behind, Types.header c.no c.body.length, c.body⟩ c :=
        ⟨Nat.mod_eq_of_lt c.no_lt, (Session.understood libc behind c admissible.1.valid).decoded⟩
      obtain ⟨k₁, run, wrote, holds₁, source⟩ := Service.serve_refines holds admissible.1 asks
      obtain ⟨k', served, wrote', holds'⟩ := ih holds₁ (by rw [source]; exact admissible.2)
      refine ⟨k', Serves.next run served, ?_, ?_⟩
      · rw [wrote', wrote, List.append_assoc, source]
        rfl
      · rw [source] at holds'
        exact holds'

theorem conHandler_cut (stale : Nat) (behind : Mem) (calls : List Command) (n : Nat) (holds : Holds k s)
    (admissible : AdmissibleAll libc k.source calls s) (throws : k.Throws)
    (inbox : k.inbox q = (calls.flatMap Command.frame).take n) :
    ∃ k', Runs q (Server.conHandler libc stale behind) k ((), .left) k' ∧
      k'.sent q = k.sent q ++ responses libc k.source (received calls n) s ∧
      Holds k' (applyAll k.source (received calls n) s) := by
  obtain ⟨k', served, wrote, holds'⟩ := serves_all behind (q := q) (received calls n)
    (holds.hears (p := q) []) admissible.received
  have parsed := parse_taken stale calls admissible.valid n
  have concludes : Framing.Concludes libc behind q (parse stale (k.inbox q)) (k.hears q []) .left k' := by
    rw [inbox, parsed]
    exact Or.inr ⟨rfl, k', served, rfl⟩
  obtain ⟨k₁, run, rfl⟩ := (Framing.ends_iff_concludes throws rfl).mpr concludes
  refine ⟨k₁, run, wrote, ?_⟩
  have whole := holds'.hears (p := q) (k₁.inbox q)
  rwa [Kernel.hears_hears, Kernel.hears_same] at whole

end Serving

/-- A session that is cut off after any number of bytes. -/
theorem con_handler_cut_off (libc : Libc) (stale : Nat) (behind : Mem) (q : Pid) (k : Kernel) (s : Map × Nat)
    (calls : List Command) (n : Nat) (holds : Holds k s) (admissible : AdmissibleAll libc k.source calls s)
    (throws : k.Throws) (inbox : k.inbox q = (calls.flatMap Command.frame).take n) :
    ∃ k', Gives q (Server.conHandler libc stale behind) k ((), .left) k' ∧
      k'.sent q = k.sent q ++ responses libc k.source (received calls n) s ∧
      Holds k' (applyAll k.source (received calls n) s) := by
  obtain ⟨k', run, wrote, holds'⟩ := conHandler_cut stale behind calls n holds admissible throws inbox
  exact ⟨k', gives_of_runs run, wrote, holds'⟩

theorem upload_admissible : AdmissibleAll History.silent Volume.tick
    [.put (ascii "a") [7], .get (Volume.tick 0)] ([], 0) := by
  have format := Uid.get_format 0 0 0 0 0 0 0
  refine ⟨⟨by decide, ?_, by decide, by decide⟩, ?_, trivial⟩
  · intro name file same
    cases same
    exact ⟨by decide, format, rfl⟩
  · exact ⟨format.plain, fun name file same => (nomatch same), by decide, by decide⟩

/-- An upload, and the first bytes of a download. -/
theorem con_handler_cut_off_download : ∃ k',
    Gives 2 (Server.conHandler History.silent 0 fun _ => none)
      ((Volume.initKernel Volume.tick).hears 2
        (([Command.put (ascii "a") [7], .get (Volume.tick 0)].flatMap Command.frame).take 40)) ((), .left) k' ∧
    k'.sent 2 = (Responses.Outcome.stored (Volume.tick 0)).frame ∧
    Holds k' ([⟨Volume.tick 0, ascii "a", [7]⟩], 1) :=
  con_handler_cut_off History.silent 0 (fun _ => none) 2 _ ([], 0)
    [.put (ascii "a") [7], .get (Volume.tick 0)] 40 ((Service.initKernel_holds _).hears _) upload_admissible
    (Volume.initKernel_throws Volume.tick) (Kernel.hears_inbox _)

end Sfsdb.Cutoff

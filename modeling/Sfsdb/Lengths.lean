import Sfsdb.Client
import Sfsdb.History
import Sfsdb.Traces

/-!
How long a stored file can be. The bound comes from the one 32-bit length that
an upload is sent under, and it is kept by everything that a server does with
the files afterwards. A removal whose id leads into the data directory closes
the last record of a file with a separator, so a file that ends with one may be
a byte longer than an upload.
-/

namespace Sfsdb.Lengths

open Posix Protocol Volume Storage
open Session (Command)
open History (Request Served)

/-- What an upload can hold, and what a removal makes of it. -/
def Small (bytes : Bytes) : Prop :=
  bytes.length + 16 ≤ 4294967296 ∨
    (bytes.length + 15 ≤ 4294967296 ∧ bytes.getLast? = some SEPARATOR)

/-- Every file of the data directory is small, whatever else the tree holds. -/
abbrev Fits : Files → Prop := Shaped .data Small

/-! ## Small files -/

section Small
variable {text data : Bytes}

theorem Small.length (small : Small text) : text.length + 15 ≤ 4294967296 := by
  rcases small with short | ⟨short, _⟩ <;> omega

theorem small_nil : Small [] := Or.inl (by decide)

theorem Small.rewritten (small : Small text) (id : Bytes) :
    Small (Records.render SEPARATOR (unlisted id text)) := by
  -- Rewriting the lines of a file closes the last one, and drops lines.
  by_cases none : unlisted id text = []
  · rw [none]
    exact small_nil
  have shorter := Records.render_filter_length SEPARATOR (· ≠ id) (Records.split SEPARATOR text)
  change (Records.render SEPARATOR (unlisted id text)).length ≤ _ at shorter
  have closed := Records.render_getLast? SEPARATOR _ none
  rw [Records.render_split] at shorter
  split at shorter
  · have bound := small.length
    exact Or.inr ⟨by omega, closed⟩
  · rename_i open_end
    rcases small with short | ⟨_, ends⟩
    · rw [List.length_append, List.length_singleton] at shorter
      exact Or.inr ⟨by omega, closed⟩
    · exact absurd (Or.inr ends) open_end

theorem small_upload {name : Bytes} (some : name ≠ [])
    (sized : (Command.put name data).body.length < 4294967296) : Small data := by
  -- Two item headers, a name and a magic byte leave this much of a 32-bit length.
  have named := List.length_pos_iff.mpr some
  rw [Command.body_length] at sized
  simp only [Command.text] at sized
  exact Or.inl (by omega)

end Small

/-! ## Requests -/

section Requests
variable {libc : Libc} {p : Pid} {k k' : Kernel} {f f' f₁ f₂ : Files} {r : Request}
  {D : Fd → Option Description} {id name data : Bytes} {i j : Ino}

theorem Fits.opens {d : Dir} {x : Bytes} {mode : Flags} {ino : Option Ino} (fits : Fits f)
    (plain : PlainName x) (opened : f.opens (d.text ++ x) mode = .ok (ino, f'))
    (writes : mode.write = true) :
    Fits f' ∧ SameDirs f f' ∧ ∃ i, ino = some i ∧ f'.node (entry f' d x) = some (.file i) := by
  obtain ⟨q, i, rfl, resolved, trace⟩ := Files.opens_writing opened writes
  refine ⟨fits.opened small_nil trace, trace.dirs, i, rfl, ?_⟩
  rw [trace.dirs.entry, ← (Names.of_plain plain).target resolved]
  exact trace.node_self

theorem Fits.begun (fits : Fits f) (plain : PlainName name) (drawn : PlainName id)
    (begun : Begun id name f i j f₁ f₂) : Fits (filed id name i j f₂) := by
  obtain ⟨fits₁, _, i', same, index⟩ := fits.opens (d := .byName) plain begun.index rfl
  cases same
  obtain ⟨q, j', same, _, opened⟩ := Files.opens_writing begun.recorded rfl
  cases same
  obtain ⟨fits₂, dirs, j', same, recorded⟩ := fits₁.opens (d := .byId) drawn begun.recorded rfl
  cases same
  -- the index is written to, then the record, and neither lies in the data directory
  have index₂ : f₂.node (entry f₂ .byName name) = some (.file i) := by
    rw [dirs.entry]
    exact opened.node_file index
  exact (fits₂.elsewhere .byName name (by decide) index₂ _).elsewhere .byId id (by decide) recorded _

theorem Fits.stored {r : Except Error Bytes} (fits : Fits f) (plain : PlainName name)
    (drawn : PlainName id) (small : Small data) (trace : StoreTrace id name data f r f') : Fits f' := by
  cases trace with
  | noIndex => exact fits
  | noRecord index => exact (fits.opens (d := .byName) plain index rfl).1
  | noData begun => exact fits.begun plain drawn begun
  | stored begun made =>
      have filed := fits.begun plain drawn begun
      exact (filed.opens (d := .data) drawn made rfl).1.setData fun _ _ => small

-- A response is bytes to a connection.
theorem respond_files {reply : Handlers.Reply} {result : Unit ⊕ Unit × Server.End}
    (run : Runs p (Server.respond reply) k result k') : k'.files = k.files := by
  unfold Server.respond at run
  split at run
  · obtain ⟨sent, k₁, sends, rest⟩ := Program.runs_bind_split run
    have answered : k.exec p (.send reply.res) = some (sent, k₁) := Program.runs_issue_iff.mp sends
    have same := Kernel.exec_files (c := .send _) trivial answered
    cases sent <;> cases rest <;> exact same
  · cases run
    rfl

theorem serve_files {result : Unit ⊕ Unit × Server.End} (run : Runs r.pid (r.serve libc) k result k') :
    k'.files = k.files ∨ ∃ c reply k₁, r.Asks libc c ∧
      Runs r.pid (c.served libc) k reply k₁ ∧ k'.files = k₁.files := by
  have responded : ∀ {k₁ : Kernel}, History.Responded r.pid k₁ result k' → k'.files = k₁.files := by
    rintro k₁ (rfl | ⟨reply, responds⟩)
    · rfl
    · exact respond_files responds
  rcases History.serve_split run with ends | ⟨ok, k₁, closes, ends⟩ | ⟨c, reply, k₁, asks, ran, ends⟩
  · exact Or.inl (responded ends)
  · exact Or.inl ((responded ends).trans (Kernel.exec_files (c := .disconnect) trivial closes))
  · exact Or.inr ⟨c, reply, k₁, asks, ran, responded ends⟩

end Requests

/-- An upload under a plain name: the body is the two items and the magic byte,
all of it counted by the 32-bit length of the header, and nothing else. -/
structure Uploads (r : Request) (name data : Bytes) : Prop where
  command : r.head.command = 2
  plain : PlainName name
  body : r.body = (Command.put name data).body
  announced : r.body.length = r.head.length
  word : r.head.length < 4294967296

/-- An upload or a removal; the id to be removed is any string, plain or not. -/
def Allowed (r : Request) : Prop := (∃ name data, Uploads r name data) ∨ r.head.command = 4

section Sequences
variable {libc : Libc} {k k' : Kernel} {r : Request} {name data : Bytes}

theorem Uploads.sized (uploads : Uploads r name data) :
    (Command.put name data).body.length < 4294967296 := by
  rw [← uploads.body, uploads.announced]
  exact uploads.word

theorem Uploads.asks (uploads : Uploads r name data) (libc : Libc) : r.Asks libc (.put name data) := by
  constructor
  · exact uploads.command
  · have valid : (Command.put name data).Valid :=
      ⟨uploads.plain.1, uploads.plain.2.2.1, uploads.sized⟩
    have understood := Session.understood libc r.behind (.put name data) valid
    rw [Request.mem, uploads.body]
    exact understood.decoded

theorem serve_fits (fits : Fits k.files) (tabled : Tabled k) (draws : ∀ n, PlainName (k.source n))
    (allowed : Allowed r) {result : Unit ⊕ Unit × Server.End}
    (run : Runs r.pid (r.serve libc) k result k') : Fits k'.files := by
  rcases serve_files run with same | ⟨c, reply, k₁, asks, ran, same⟩
  · rw [same]
    exact fits
  · rw [same]
    have sees : Sees r.pid k k.files (k.descOf r.pid) := ⟨rfl, rfl, tabled⟩
    rcases allowed with ⟨name, data, uploads⟩ | removal
    · -- no other call has the number and the parameters of the upload
      have decoded := (uploads.asks libc).decoded
      have number := asks.command.symm.trans uploads.command
      cases c with
      | put name' data' =>
          have both := asks.decoded.symm.trans decoded
          cases both
          obtain ⟨stored, k₂, stores, rest⟩ := Program.runs_bind_split ran
          have only : k₁ = k₂ := by
            cases stored <;> exact (Program.runs_done_iff.mp rest).2
          subst only
          obtain ⟨f', D', sees', trace⟩ := store_trace sees stores
          rw [sees'.files]
          exact fits.stored uploads.plain (draws k.drawn) (small_upload uploads.plain.1 uploads.sized) trace
      | get | desc | del | list => simp [Command.no] at number
    · have number := asks.command.symm.trans removal
      cases c with
      | del id =>
          obtain ⟨removed, k₂, removes, rest⟩ := Program.runs_bind_split ran
          have only : k₁ = k₂ := by
            rcases removed with _ | _ | _ <;> exact (Program.runs_done_iff.mp rest).2
          subst only
          obtain ⟨f', D', sees', trace⟩ := remove_trace sees removes
          rw [sees'.files]
          exact fits.removed (fun _ small => small.rewritten id) trace
      | get | desc | put | list => simp [Command.no] at number

theorem served_fits {requests : List Request} (served : Served libc k requests k')
    (fits : Fits k.files) (tabled : Tabled k) (draws : ∀ n, PlainName (k.source n))
    (allowed : ∀ r ∈ requests, Allowed r) : Fits k'.files := by
  -- By induction over the requests.
  induction served with
  | nil => exact fits
  | cons run _ ih =>
      have fits₁ := serve_fits fits tabled draws (allowed _ List.mem_cons_self) run
      have tabled₁ := Program.runs_invariant Tabled (fun _ _ _ _ answered => exec_tabled answered) run tabled
      apply ih fits₁ tabled₁
      · rw [runs_source run]
        exact draws
      · exact fun r member => allowed r (List.mem_cons_of_mem _ member)

end Sequences

/-! ## The lengths of the responses -/

/-- Nothing that is computed from this size in 32 bits is cut off: the size that
`get` maps and announces, the one that `desc` sends, the length of the response
and the buffer that the client reads it into. -/
structure Whole (size : Nat) : Prop where
  get : size % 4294967296 = size
  desc : (Types.integer size).val = size
  response : (Types.header status.SUCCESS (HEADER_SIZE + size % 4294967296)).length = HEADER_SIZE + size
  client : Client.allocation (Types.header status.SUCCESS (HEADER_SIZE + size % 4294967296)) =
    (HEADER_SIZE + size) + 1

theorem Small.whole {bytes : Bytes} (small : Small bytes) : Whole bytes.length := by
  have bound := small.length
  have narrow : bytes.length % 4294967296 = bytes.length := Nat.mod_eq_of_lt (by omega)
  have response : (Types.header status.SUCCESS (HEADER_SIZE + bytes.length % 4294967296)).length =
      HEADER_SIZE + bytes.length := by
    rw [narrow]
    exact Nat.mod_eq_of_lt (by simp only [HEADER_SIZE]; omega)
  refine ⟨narrow, narrow, response, ?_⟩
  rw [Client.allocation, response]
  exact Nat.mod_eq_of_lt (by simp only [HEADER_SIZE]; omega)

/-- Whatever was uploaded and removed, every file in the data directory can be
described and sent within 32-bit lengths. -/
theorem stored_files_fit (libc : Libc) (k k' : Kernel) (requests : List Request) (ready : Ready k)
    (tabled : Tabled k) (empty : record k.files = fun _ _ => none)
    (draws : ∀ n, PlainName (k.source n)) (allowed : ∀ r ∈ requests, Allowed r)
    (served : Served libc k requests k') (id bytes : Bytes)
    (stored : record k'.files .data id = some bytes) : Whole bytes.length := by
  have new : Fits k.files := by
    constructor
    · exact ready.sane.sound
    · intro x i file
      have holds := Files.content_of_file file
      change record k.files .data x = _ at holds
      rw [empty] at holds
      cases holds
  have fits := served_fits served new tabled draws allowed
  exact (fits.record stored).whole

/-- The upload of one byte to a new volume. -/
theorem stored_files_fit_byte : ∃ k' : Kernel,
    record k'.files .data (ascii "1") = some [7] ∧ Whole ([7] : Bytes).length := by
  have evaluated : ((Program.run (Kernel.exec 1) 100
      ((History.request (.put (ascii "a") [7])).serve History.silent)
        (initKernel fun _ => ascii "1")).map
          fun result => record result.2.files .data (ascii "1")) = some (some [7]) := by rfl
  obtain ⟨⟨_, k⟩, result, stored⟩ := Option.map_eq_some_iff.mp evaluated
  refine ⟨k, stored, ?_⟩
  have served : Served History.silent (initKernel fun _ => ascii "1")
      [History.request (.put (ascii "a") [7])] k :=
    .cons (Program.run_sound _ _ _ _ _ _ result) .nil
  refine stored_files_fit History.silent _ k _ (initKernel_ready _) (fun _ _ => rfl)
    (initKernel_empty _) (fun _ => show PlainName (ascii "1") by decide) ?_ served (ascii "1") [7] stored
  intro r member
  rw [List.mem_singleton.mp member]
  exact Or.inl ⟨ascii "a", [7], rfl, by decide, rfl, by decide, by decide⟩

end Sfsdb.Lengths

import Sfsdb.Responses
import Sfsdb.VolumeRuns

/-!
What arrives of an index that LIST reads. The server writes an item for every
line of the index behind a count of 16 bits, and the client reads as many items
as the count says.
-/

namespace Sfsdb.Responses

open Posix Protocol Handlers Volume Storage

section Listing
variable {p q : Pid} {k : Kernel} {name y text : Bytes}

def listing (ids : List Bytes) : Reply :=
  succeed ((Types.smallint ids.length).toBytes ++ ids.flatMap fun id => (Types.string id).toBytes)

theorem listing_frame (ids : List Bytes) : toSend (listing ids) = (Outcome.listed ids).frame :=
  succeed_frame (.listed ids) rfl

theorem listFiles_found (libc : Libc) (ready : Ready k) (names : Names name y)
    (holds : record k.files .byName y = some text) :
    ∃ k', Runs p (listFiles libc name) k (some (listing (Records.split SEPARATOR text))) k' := by
  obtain ⟨k', run, _⟩ := byName_found (p := p) ready names holds
  exact ⟨k', run.bind Program.Runs.done⟩

/-- A count of 16 bits and C strings carry the list over exactly where it is
short enough and no id holds a NUL. -/
theorem listed_answer_iff (ids : List Bytes) :
    (Outcome.listed ids).answer = .results ids.length ids ↔
      ids.length < 65536 ∧ ∀ id ∈ ids, 0 ∉ id := by
  have answer : (Outcome.listed ids).answer =
      .results (ids.length % 65536) ((ids.take (ids.length % 65536)).map cstr) := rfl
  rw [answer, Client.Answer.results.injEq]
  constructor
  · rintro ⟨count, same⟩
    rw [count, List.take_length] at same
    refine ⟨by omega, fun id member => ?_⟩
    have whole : cstr id = id := by
      have each : ids.map cstr = ids.map fun id => id := by rw [same, List.map_id']
      exact List.map_inj_left.mp each id member
    rw [← whole]
    exact cstr_free id
  · rintro ⟨short, free⟩
    have count : ids.length % 65536 = ids.length := Nat.mod_eq_of_lt short
    rw [count, List.take_length]
    refine ⟨rfl, ?_⟩
    calc ids.map cstr = ids.map fun id => id :=
          List.map_congr_left fun id member => cstr_of_free id (free id member)
      _ = ids := List.map_id' ids

end Listing

/-- For every index of every length, the list function of a client that is sent
the response of the list handler ends, and it has read all ids in order exactly
where these are fewer than 2^16 and free of NULs. -/
theorem list_delivers_every_match (libc : Libc) (p q : Pid) (stale : Nat) (behind : Nat → Byte)
    (k kc : Kernel) (name y text asked rest : Bytes) (ready : Ready k) (names : Names name y)
    (holds : record k.files .byName y = some text)
    (sized : (Outcome.listed (Records.split SEPARATOR text)).payload.length < 4294967296)
    (inbox : kc.inbox q = toSend (listing (Records.split SEPARATOR text)) ++ rest) :
    ∃ k' kc' answer,
      Gives p (listFiles libc name) k (some (listing (Records.split SEPARATOR text))) k' ∧
      Gives q (Client.list stale (fun i => some (behind i)) asked) kc answer kc' ∧
      (answer = .results (Records.split SEPARATOR text).length (Records.split SEPARATOR text) ↔
        (Records.split SEPARATOR text).length < 65536 ∧ ∀ id ∈ Records.split SEPARATOR text, 0 ∉ id) := by
  obtain ⟨k', lists⟩ := listFiles_found (p := p) libc ready names holds
  rw [listing_frame] at inbox
  obtain ⟨kc', reads, _⟩ := issue_outcome (p := q) stale (.listed (Records.split SEPARATOR text))
    (.list asked) rfl sized (readable_total behind _) kc rest inbox
  exact ⟨k', kc', _, gives_of_runs lists, reads, listed_answer_iff _⟩

/-! ## Volumes with one index -/

def indexed (text : Bytes) : Kernel :=
  ((initKernel fun _ => []).create (entry initFiles .byName (ascii "a"))).setData 0 text

theorem indexed_volume (text : Bytes) :
    Ready (indexed text) ∧ record (indexed text).files .byName (ascii "a") = some text := by
  have sane : Sane initFiles := (initKernel_ready fun _ => []).sane
  have made := Turns.create (d := .byName) (x := ascii "a") sane (initFiles_entry .byName (ascii "a"))
  have linked : (initFiles.create (entry initFiles .byName (ascii "a"))).node
      (entry (initFiles.create (entry initFiles .byName (ascii "a"))) .byName (ascii "a")) =
        some (.file 0) := by
    rw [made.dirs.entry, Files.node_create _ _ (entry_ne_nil _ _ _), if_pos rfl]
    rfl
  have filled := Turns.setData text made.sane linked
  refine ⟨⟨filled.sane, fun _ => rfl⟩, ?_⟩
  have records : record (indexed text).files = _ := filled.records
  rw [records, put_self]

theorem listed_payload_length (count : Nat) (id : Bytes) (free : 0 ∉ id) :
    (Outcome.listed (List.replicate count id)).payload.length = 9 + count * (7 + id.length) := by
  have item : (Types.string id).toBytes.length = 7 + id.length := by
    simp only [Types.string, Data.toBytes, Data.toPayload, cstr_of_free id free, List.length_append,
      toNets_length, toNetl_length, List.length_singleton]
    omega
  have number : ∀ v, (Types.smallint v).toBytes.length = 9 := fun _ => rfl
  simp only [Outcome.payload, List.length_append, number, List.length_flatMap, List.map_replicate, item,
    List.sum_replicate_nat]

theorem repeated_lines (count : Nat) (id : Bytes) (free : SEPARATOR ∉ id) :
    Records.split SEPARATOR (Records.render SEPARATOR (List.replicate count id)) =
      List.replicate count id := by
  apply Records.split_render
  intro line member
  rw [List.eq_of_mem_replicate member]
  exact free

theorem list_delivers_every_match_once : ∃ (libc : Libc) (k' kc kc' : Kernel) (answer : Client.Answer),
    Gives 1 (listFiles libc (ascii "a")) (indexed (Records.render SEPARATOR (List.replicate 1 (ascii "7"))))
      (some (listing (List.replicate 1 (ascii "7")))) k' ∧
    Gives 2 (Client.list 0 (fun _ => some 0) (ascii "a")) kc answer kc' ∧
    (answer = .results 1 [ascii "7"] ↔ 1 < 65536 ∧ ∀ id ∈ [ascii "7"], 0 ∉ id) := by
  have libc : Libc := ⟨fun _ => ⟨[], by decide⟩, fun _ _ => ⟨[], by decide⟩, fun _ _ => none⟩
  obtain ⟨ready, holds⟩ := indexed_volume (Records.render SEPARATOR (List.replicate 1 (ascii "7")))
  have lines := repeated_lines 1 (ascii "7") (by decide)
  let kc : Kernel := { initKernel fun _ => [] with inbox := fun _ => toSend (listing [ascii "7"]) }
  obtain ⟨k', kc', answer, lists, reads, read⟩ := list_delivers_every_match libc 1 2 0 (fun _ => 0) _ kc
    (ascii "a") (ascii "a") _ (ascii "a") [] ready (Names.of_plain (by decide)) holds
    (by rw [lines, listed_payload_length 1 _ (by decide)]; decide)
    (by rw [lines, List.append_nil]; rfl)
  rw [lines] at lists read
  exact ⟨libc, k', kc, kc', answer, lists, reads, read⟩

/-- 65536 ids are announced as none. -/
theorem long_list_is_lost : ∃ (libc : Libc) (k' kc kc' : Kernel),
    kc.inbox 2 = toSend (listing (List.replicate 65536 (ascii "7"))) ∧
    Gives 1 (listFiles libc (ascii "a"))
      (indexed (Records.render SEPARATOR (List.replicate 65536 (ascii "7"))))
      (some (listing (List.replicate 65536 (ascii "7")))) k' ∧
    Gives 2 (Client.list 0 (fun _ => some 0) (ascii "a")) kc (.results 0 []) kc' := by
  have libc : Libc := ⟨fun _ => ⟨[], by decide⟩, fun _ _ => ⟨[], by decide⟩, fun _ _ => none⟩
  have long : ∀ count, count = 65536 → ∃ (k' kc kc' : Kernel),
      kc.inbox 2 = toSend (listing (List.replicate count (ascii "7"))) ∧
      Gives 1 (listFiles libc (ascii "a"))
        (indexed (Records.render SEPARATOR (List.replicate count (ascii "7"))))
        (some (listing (List.replicate count (ascii "7")))) k' ∧
      Gives 2 (Client.list 0 (fun _ => some 0) (ascii "a")) kc (.results 0 []) kc' := by
    intro count size
    obtain ⟨ready, holds⟩ := indexed_volume (Records.render SEPARATOR (List.replicate count (ascii "7")))
    obtain ⟨k', lists⟩ := listFiles_found (p := 1) libc ready (Names.of_plain (by decide)) holds
    rw [repeated_lines count (ascii "7") (by decide)] at lists
    let kc : Kernel :=
      { initKernel fun _ => [] with inbox := fun _ => toSend (listing (List.replicate count (ascii "7"))) }
    have inbox : kc.inbox 2 = (Outcome.listed (List.replicate count (ascii "7"))).frame ++ [] := by
      rw [List.append_nil, ← listing_frame]
    have seven : (ascii "7").length = 1 := rfl
    have sized : (Outcome.listed (List.replicate count (ascii "7"))).payload.length < 4294967296 := by
      rw [listed_payload_length count _ (by decide), seven, size]
      decide
    obtain ⟨kc', reads, _⟩ := issue_outcome (p := 2) 0 (.listed (List.replicate count (ascii "7")))
      (.list (ascii "a")) rfl sized (readable_total (fun _ => 0) _) kc [] inbox
    have none : (Outcome.listed (List.replicate count (ascii "7"))).answer = .results 0 [] := by
      simp only [Outcome.answer, List.length_replicate, size, Nat.mod_self, List.take_zero, List.map_nil]
    rw [none] at reads
    exact ⟨k', kc, kc', rfl, gives_of_runs lists, reads⟩
  exact ⟨libc, long 65536 rfl⟩

end Sfsdb.Responses

import Sfsdb.Shell
import Sfsdb.Uploads

/-!
What get, desc, del and list of the client send of their argument. All four put
a string item behind the header, and the item is built from a C string, so it
ends in front of the first NUL. get and list announce the length of the item;
desc and del announce the length of the argument.
-/

namespace Sfsdb.Session

open Posix Protocol Bounds

inductive OneString where
  | get
  | desc
  | del
  | list
  deriving DecidableEq

def OneString.run (stale : Nat) (behind : Mem) : OneString → Bytes → Prog Client.Answer
  | .get, arg => Client.get stale behind arg
  | .desc, arg => Client.desc stale behind arg
  | .del, arg => Client.del stale behind arg
  | .list, arg => Client.list stale behind arg

def OneString.request : OneString → Bytes → Bytes
  | .get, arg => Client.stringRequest 1 arg
  | .desc, arg => Client.idRequest 3 arg
  | .del, arg => Client.idRequest 4 arg
  | .list, arg => Client.stringRequest 5 arg

structure Counted (out : Bytes) : Prop where
  whole : HEADER_BYTES ≤ out.length
  header : wire16 out 0 = ids.HEADER
  length : wire32 out 2 = out.length - HEADER_BYTES

def Counts (p : Pid) (call : Prog Client.Answer) (k : Kernel) : Prop :=
  ∃ answer k' out, Gives p call k answer k' ∧ k'.sent p = k.sent p ++ out ∧ Counted out

theorem request_parts (no length : Nat) (text : Bytes) :
    (Types.header no length).toBytes ++ (Types.string text).toBytes =
      toNets ids.HEADER ++ (toNetl (length % 4294967296) ++
        (toNets (no % 65536) ++ (Types.string text).toBytes)) := by
  simp only [Types.header, Data.toBytes, Data.toPayload, List.append_assoc]

theorem request_counted_iff (no length : Nat) (text : Bytes) :
    Counted ((Types.header no length).toBytes ++ (Types.string text).toBytes) ↔
      length % 4294967296 = 7 + (cstr text).length := by
  rw [request_parts]
  generalize out_eq : toNets ids.HEADER ++ (toNetl (length % 4294967296) ++
    (toNets (no % 65536) ++ (Types.string text).toBytes)) = out
  have size : out.length = HEADER_BYTES + (7 + (cstr text).length) := by
    rw [← out_eq, ← string_toBytes_length]
    simp only [List.length_append, toNets_length, toNetl_length, HEADER_BYTES]
    omega
  have type : wire16 out 0 = ids.HEADER := by
    rw [← out_eq]
    exact wire16_toNets [] _ ids.HEADER
  have announced : wire32 out 2 = length % 4294967296 % 4294967296 := by
    rw [← out_eq]
    exact wire32_toNetl (toNets ids.HEADER) _ _
  constructor
  · intro counted
    have same := counted.length
    omega
  · intro same
    exact ⟨by omega, type, by omega⟩

theorem cstr_length_le (text : Bytes) : (cstr text).length ≤ text.length :=
  (List.takeWhile_sublist _).length_le

theorem cstr_length_eq_iff (text : Bytes) : (cstr text).length = text.length ↔ 0 ∉ text := by
  constructor
  · intro same
    have whole : cstr text = text := (List.takeWhile_prefix _).eq_of_length same
    exact whole ▸ cstr_free text
  · intro free
    rw [cstr_of_free text free]

theorem stringRequest_counted (no : Nat) (text : Bytes) (small : text.length + 7 < 4294967296) :
    Counted (Client.stringRequest no text) := by
  have le := cstr_length_le text
  refine (request_counted_iff no _ text).mpr ?_
  simp only [Types.string, HEADER_SIZE]
  omega

theorem idRequest_counted_iff (no : Nat) (id : Bytes) (small : id.length + 7 < 4294967296) :
    Counted (Client.idRequest no id) ↔ 0 ∉ id := by
  -- The length of the argument is the length of the item where nothing is lost.
  refine (request_counted_iff no _ id).trans ?_
  rw [← cstr_length_eq_iff, HEADER_SIZE, Nat.mod_eq_of_lt (by omega)]
  omega

theorem oneString_sends (f : OneString) (p : Pid) (stale : Nat) (behind : Mem) (arg : Bytes) (k : Kernel) :
    ∃ answer k', Runs p (f.run stale behind arg) k answer k' ∧
      k'.sent p = k.sent p ++ f.request arg := by
  cases f with
  | get => exact sent_before rfl (send_runs p k _) (readResponse_hears stale behind Client.getReply)
  | desc => exact sent_before rfl (send_runs p k _) (readResponse_hears stale behind Client.descReply)
  | del => exact sent_before rfl (send_runs p k _) (readDeletion_hears stale behind)
  | list => exact sent_before rfl (send_runs p k _) (readResponse_hears stale behind Client.listReply)

theorem counts_iff (f : OneString) (p : Pid) (stale : Nat) (behind : Mem) (arg : Bytes) (k : Kernel) :
    Counts p (f.run stale behind arg) k ↔ Counted (f.request arg) := by
  rcases oneString_sends f p stale behind arg k with ⟨answer, k', run, sent⟩
  constructor
  · rintro ⟨answer', k'', out, gives, sent', counted⟩
    have same := (gives answer k').mp run
    rw [← same.2, sent] at sent'
    rw [List.append_cancel_left sent']
    exact counted
  · intro counted
    exact ⟨answer, k', f.request arg, gives_of_runs run, sent, counted⟩

/-- All four functions count their bytes exactly where the argument has no NUL;
get and list do so in any case. -/
theorem requests_are_counted_iff (p : Pid) (stale : Nat) (behind : Mem) (arg : Bytes) (k : Kernel)
    (small : arg.length < 4294967296 - 7) :
    ((∀ f : OneString, Counts p (f.run stale behind arg) k) ↔ 0 ∉ arg) ∧
      Counts p (Client.get stale behind arg) k ∧ Counts p (Client.list stale behind arg) k := by
  have fits : arg.length + 7 < 4294967296 := by omega
  have counts := fun f => counts_iff f p stale behind arg k
  have get := (counts .get).mpr (stringRequest_counted 1 arg fits)
  have list := (counts .list).mpr (stringRequest_counted 5 arg fits)
  have desc := (counts .desc).trans (idRequest_counted_iff 3 arg fits)
  have del := (counts .del).trans (idRequest_counted_iff 4 arg fits)
  refine ⟨?_, get, list⟩
  constructor
  · intro all
    exact desc.mp (all .desc)
  · intro free f
    cases f with
    | get => exact get
    | desc => exact desc.mpr free
    | del => exact del.mpr free
    | list => exact list

theorem requests_are_counted_abc :
    Counts 1 (Client.desc 0 (fun _ => none) (ascii "abc")) (Volume.initKernel fun _ => []) :=
  (requests_are_counted_iff 1 0 (fun _ => none) (ascii "abc") (Volume.initKernel fun _ => [])
    (by decide)).1.mpr (by decide) .desc

/-- A NUL inside an identifier, as a line of the shell can hold it. -/
theorem nul_is_miscounted :
    Shell.turn (ascii "DESC a\x00b") = some (.desc [97, 0, 98]) ∧
      ¬ ∀ f : OneString, Counts 1 (f.run 0 (fun _ => none) [97, 0, 98]) (Volume.initKernel fun _ => []) := by
  constructor
  · decide
  · intro all
    have counted := (counts_iff .desc 1 0 (fun _ => none) [97, 0, 98] _).mp (all .desc)
    exact (idRequest_counted_iff 3 [97, 0, 98] (by decide)).mp counted (by decide)

end Sfsdb.Session

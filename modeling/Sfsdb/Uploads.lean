import Sfsdb.Bounds
import Sfsdb.Session

/-!
What `put` of the client sends of a local file of any size. The size is cut to
32 bits once for the bigdata item and once more in the sum that the header
announces; the loop follows the first of these lengths.
-/

namespace Sfsdb.Session

open Posix Protocol Bounds

/-- Where the bigdata item of an upload starts: behind the header and the name. -/
def dataStart (filename : Bytes) : Nat := HEADER_BYTES + (Types.string filename).toBytes.length

/-- The header announces all that follows it, and behind the name stands the
whole file with its length in front and the magic byte behind it. -/
structure Whole (filename file out : Bytes) : Prop where
  header : wire16 out 0 = ids.HEADER ∧ wire32 out 2 = out.length - HEADER_BYTES
  name : (out.take (dataStart filename)).drop HEADER_BYTES = (Types.string filename).toBytes
  item : wire16 out (dataStart filename) = ids.BIGDATA
  length : wire32 out (dataStart filename + 2) = file.length
  payload : out.drop (dataStart filename + 6) = file ++ [MAGIC]

def Uploads (p : Pid) (filename : Bytes) (file : Option Bytes) (k : Kernel) (answer : Client.Answer)
    (k' : Kernel) : Prop :=
  (answer.code = -1 ∧ k'.sent p = k.sent p) ∨
    ∃ content out, file = some content ∧ k'.sent p = k.sent p ++ out ∧ Whole filename content out

section Upload
variable {filename file : Bytes}

theorem getD_behind (front rest : Bytes) (i : Nat) :
    (front ++ rest).getD (front.length + i) 0 = rest.getD i 0 := by
  rw [List.getD_eq_getElem?_getD, List.getD_eq_getElem?_getD, List.getElem?_append_right (by omega),
    Nat.add_sub_cancel_left]

theorem wire16_toNets (front rest : Bytes) (v : Nat) :
    wire16 (front ++ (toNets v ++ rest)) front.length = v % 65536 := by
  have start := getD_behind front (toNets v ++ rest) 0
  rw [wire16, getD_behind, show front.length = front.length + 0 from rfl, start]
  simp only [toNets, List.cons_append, List.getD_cons_zero, List.getD_cons_succ, UInt8.toNat_ofNat']
  omega

theorem wire32_toNetl (front rest : Bytes) (v : Nat) :
    wire32 (front ++ (toNetl v ++ rest)) front.length = v % 4294967296 := by
  have start := getD_behind front (toNetl v ++ rest) 0
  rw [wire32, getD_behind, getD_behind, getD_behind, show front.length = front.length + 0 from rfl, start]
  simp only [toNetl, List.cons_append, List.getD_cons_zero, List.getD_cons_succ, UInt8.toNat_ofNat']
  omega

theorem string_toBytes_length (text : Bytes) :
    (Types.string text).toBytes.length = 7 + (cstr text).length := by
  simp only [Types.string, Data.toBytes, Data.toPayload, List.length_append, toNets_length,
    toNetl_length, List.length_singleton]
  omega

theorem toNetl_congr {v w : Nat} (same : v % 4294967296 = w % 4294967296) : toNetl v = toNetl w := by
  -- Four bytes hold a number modulo 2^32.
  simp only [toNetl, List.cons.injEq, and_true, ← UInt8.toNat_inj, UInt8.toNat_ofNat']
  omega

theorem upload_parts (filename file : Bytes) : upload filename file =
    toNets ids.HEADER ++ (toNetl (14 + (cstr filename).length + file.length) ++
      (toNets 2 ++ ((Types.string filename).toBytes ++ (toNets ids.BIGDATA ++
        (toNetl file.length ++ (file.take (file.length % 4294967296) ++ [MAGIC])))))) := by
  have head : toNetl (Client.putHead filename file.length).length =
      toNetl (14 + (cstr filename).length + file.length) := by
    apply toNetl_congr
    simp only [Client.putHead, Client.addLength, Types.header, Types.string, HEADER_SIZE]
    omega
  have item : toNetl (Types.bigdata file.length).length = toNetl file.length :=
    toNetl_congr (Nat.mod_mod _ _)
  have parts : ∀ (d : Data), d.toBytes = toNets d.type ++ (toNetl d.length ++ d.toPayload) := by
    intro d
    rw [Data.toBytes, List.append_assoc]
  rw [upload, parts (Client.putHead _ _), head, parts (Types.bigdata _), item]
  simp only [List.append_assoc]
  rfl

structure Sent (filename file out : Bytes) : Prop where
  size : out.length = dataStart filename + 7 + (file.take (file.length % 4294967296)).length
  type : wire16 out 0 = ids.HEADER
  header : wire32 out 2 = (14 + (cstr filename).length + file.length) % 4294967296
  name : (out.take (dataStart filename)).drop HEADER_BYTES = (Types.string filename).toBytes
  item : wire16 out (dataStart filename) = ids.BIGDATA
  length : wire32 out (dataStart filename + 2) = file.length % 4294967296
  payload : out.drop (dataStart filename + 6) = file.take (file.length % 4294967296) ++ [MAGIC]

theorem upload_sent (filename file : Bytes) : Sent filename file (upload filename file) := by
  have parts := upload_parts filename file
  generalize front_eq :
    toNets ids.HEADER ++ (toNetl (14 + (cstr filename).length + file.length) ++ toNets 2) = front
  generalize name_eq : (Types.string filename).toBytes = name at parts
  generalize tail_eq : file.take (file.length % 4294967296) ++ [MAGIC] = tail at parts
  have eight : front.length = HEADER_BYTES := by
    rw [← front_eq]
    rfl
  have start : dataStart filename = (front ++ name).length := by
    rw [dataStart, name_eq, List.length_append, eight]
  -- the same bytes, cut behind the header, the name and the item
  have behindHeader : upload filename file =
      front ++ (name ++ (toNets ids.BIGDATA ++ (toNetl file.length ++ tail))) := by
    rw [parts, ← front_eq]
    simp only [List.append_assoc]
  have behindName : upload filename file =
      (front ++ name) ++ (toNets ids.BIGDATA ++ (toNetl file.length ++ tail)) := by
    rw [behindHeader, List.append_assoc]
  have behindItem : upload filename file =
      (front ++ name ++ toNets ids.BIGDATA) ++ (toNetl file.length ++ tail) := by
    rw [behindName, List.append_assoc (front ++ name)]
  have item : (front ++ name ++ toNets ids.BIGDATA).length = dataStart filename + 2 := by
    rw [start]
    simp only [List.length_append, toNets_length]
  refine ⟨?_, ?_, ?_, ?_, ?_, ?_, ?_⟩
  · rw [behindItem, List.length_append, item, ← tail_eq]
    simp only [List.length_append, toNetl_length, List.length_singleton]
    omega
  · rw [parts]
    exact wire16_toNets [] _ ids.HEADER
  · rw [parts]
    exact wire32_toNetl (toNets ids.HEADER) _ _
  · rw [behindName, start, List.take_left, ← eight, List.drop_left, name_eq]
  · rw [behindName, start]
    exact wire16_toNets _ _ ids.BIGDATA
  · rw [behindItem, ← item]
    exact wire32_toNetl _ _ _
  · rw [behindItem, show dataStart filename + 6 = dataStart filename + 2 + 4 from rfl, ← item,
      ← List.drop_drop, List.drop_left, tail_eq]
    rfl

theorem upload_whole_iff (filename file : Bytes) :
    Whole filename file (upload filename file) ↔
      HEADER_SIZE + HEADER_SIZE + (cstr filename).length + file.length < 4294967296 := by
  obtain ⟨size, type, header, name, item, length, payload⟩ := upload_sent filename file
  have start : dataStart filename = 15 + (cstr filename).length := by
    rw [dataStart, string_toBytes_length, HEADER_BYTES]
    omega
  have cut : (file.take (file.length % 4294967296)).length = file.length % 4294967296 := by
    rw [List.length_take]
    omega
  have fourteen : HEADER_SIZE + HEADER_SIZE = 14 := rfl
  rw [fourteen]
  rw [cut, start] at size
  constructor
  · intro whole
    have announced := whole.header.2
    have sized := whole.length
    rw [header, size, HEADER_BYTES] at announced
    rw [length] at sized
    omega
  · intro fits
    have short : file.length % 4294967296 = file.length := Nat.mod_eq_of_lt (by omega)
    rw [short] at size length
    rw [short, List.take_length] at payload
    refine ⟨⟨type, ?_⟩, name, item, length, payload⟩
    rw [header, size, HEADER_BYTES, Nat.mod_eq_of_lt fits]
    omega

theorem put_sends (p : Pid) (stale : Nat) (behind : Mem) (filename file : Bytes) (k : Kernel) :
    ∃ answer k', Runs p (Client.put stale behind filename (some file)) k answer k' ∧
      k'.sent p = k.sent p ++ upload filename file :=
  sent_before rfl (putRequest_sent filename file k) (readResponse_hears stale behind Client.putReply)

theorem uploads_iff {p : Pid} {k k' : Kernel} {answer : Client.Answer}
    (sent : k'.sent p = k.sent p ++ upload filename file) :
    Uploads p filename (some file) k answer k' ↔ Whole filename file (upload filename file) := by
  constructor
  · rintro (⟨_, nothing⟩ | ⟨content, out, same, sent', whole⟩)
    · rw [sent] at nothing
      have empty : upload filename file = [] := by simpa using nothing
      have size := (upload_sent filename file).size
      rw [empty, List.length_nil] at size
      omega
    · cases same
      rw [sent] at sent'
      rw [List.append_cancel_left sent']
      exact whole
  · intro whole
    exact Or.inr ⟨file, _, rfl, sent, whole⟩

end Upload

/-- Every call of put ends; it fails before it has sent anything or sends the
file as a whole exactly where the two items of the frame fit into 32 bits. -/
theorem put_uploads_whole_files (p : Pid) (stale : Nat) (behind : Mem) (filename : Bytes)
    (file : Option Bytes) (k : Kernel) :
    ∃ answer k', Gives p (Client.put stale behind filename file) k answer k' ∧
      (Uploads p filename file k answer k' ↔ ∀ content, file = some content →
        HEADER_SIZE + HEADER_SIZE + (cstr filename).length + content.length < 4294967296) := by
  cases file with
  | none =>
      refine ⟨.noFile, k, gives_of_runs Program.Runs.done, iff_of_true (Or.inl ⟨rfl, rfl⟩) ?_⟩
      intro content opened
      cases opened
  | some file =>
      obtain ⟨answer, k', run, sent⟩ := put_sends p stale behind filename file k
      refine ⟨answer, k', gives_of_runs run, ?_⟩
      rw [uploads_iff sent, upload_whole_iff]
      simp

/-- A file of 2^32 bytes is announced, and sent, as an empty one. -/
theorem huge_file_is_cut : ∃ file : Bytes, file.length = 4294967296 ∧ ∃ answer k',
    Gives 1 (Client.put 0 (fun _ => none) (ascii "a") (some file)) (Volume.initKernel fun _ => []) answer k' ∧
      ¬ Uploads 1 (ascii "a") (some file) (Volume.initKernel fun _ => []) answer k' := by
  have huge : ∀ file : Bytes, file.length = 4294967296 → ∃ answer k',
      Gives 1 (Client.put 0 (fun _ => none) (ascii "a") (some file)) (Volume.initKernel fun _ => []) answer k' ∧
        ¬ Uploads 1 (ascii "a") (some file) (Volume.initKernel fun _ => []) answer k' := by
    intro file size
    obtain ⟨answer, k', run, sent⟩ :=
      put_sends 1 0 (fun _ => none) (ascii "a") file (Volume.initKernel fun _ => [])
    refine ⟨answer, k', gives_of_runs run, ?_⟩
    rw [uploads_iff sent, upload_whole_iff]
    omega
  exact ⟨_, List.length_replicate (a := (0 : Byte)), huge _ List.length_replicate⟩

end Sfsdb.Session

import Sfsdb.Client
import Sfsdb.Handlers

/-!
When a decoder stays inside the buffer it was given. Nothing compares the
lengths announced inside a body with the length of the body, so each decoder
has an exact condition on the bytes: every item it examines must end, with the
byte behind it, inside the buffer. `wire16` and `wire32` are the numbers that
stand in a buffer in network byte order.
-/

namespace Sfsdb.Bounds

open Posix Protocol

def wire16 (buf : Bytes) (pos : Nat) : Nat :=
  (buf.getD pos 0).toNat * 256 + (buf.getD (pos + 1) 0).toNat

def wire32 (buf : Bytes) (pos : Nat) : Nat :=
  (buf.getD pos 0).toNat * 16777216 + (buf.getD (pos + 1) 0).toNat * 65536 +
    (buf.getD (pos + 2) 0).toNat * 256 + (buf.getD (pos + 3) 0).toNat

def stop (buf : Bytes) (pos : Nat) : Nat := pos + 6 + wire32 buf (pos + 2)

/-- The item at `pos`, if it has the expected type, ends inside the buffer,
and so does the byte behind it. -/
def ItemFits (buf : Bytes) (pos type : Nat) : Prop :=
  pos + 2 ≤ buf.length ∧ (wire16 buf pos = type → pos + 6 ≤ buf.length ∧ stop buf pos < buf.length)

def Accepted (buf : Bytes) (pos type : Nat) : Prop :=
  wire16 buf pos = type ∧ buf[stop buf pos]? = some MAGIC

/-- `ItemFits` for a number of `width` bytes, which is read whatever length is announced. -/
def NumberFits (buf : Bytes) (pos type width : Nat) : Prop :=
  ItemFits buf pos type ∧ (Accepted buf pos type → pos + 6 + width ≤ buf.length)

instance (buf : Bytes) (pos type : Nat) : Decidable (ItemFits buf pos type) :=
  inferInstanceAs (Decidable (_ ∧ _))

instance (buf : Bytes) (pos type : Nat) : Decidable (Accepted buf pos type) :=
  inferInstanceAs (Decidable (_ ∧ _))

theorem toHosts_ofList (buf : Bytes) (pos : Nat) :
    toHosts (Mem.ofList buf) pos =
      if pos + 2 ≤ buf.length then some (wire16 buf pos, pos + 2) else none := by
  by_cases inside : pos + 2 ≤ buf.length
  · have first : buf[pos]? = some buf[pos] := List.getElem?_eq_getElem (by omega)
    have second : buf[pos + 1]? = some buf[pos + 1] := List.getElem?_eq_getElem (by omega)
    simp [toHosts, Mem.ofList, wire16, first, second, inside]
  · rw [if_neg inside]
    have outside : buf[pos + 1]? = none := List.getElem?_eq_none (by omega)
    cases first : buf[pos]? <;> simp [toHosts, Mem.ofList, first, outside]

theorem toHostl_ofList (buf : Bytes) (pos : Nat) :
    toHostl (Mem.ofList buf) pos =
      if pos + 4 ≤ buf.length then some (wire32 buf pos, pos + 4) else none := by
  by_cases inside : pos + 4 ≤ buf.length
  · have first : buf[pos]? = some buf[pos] := List.getElem?_eq_getElem (by omega)
    have second : buf[pos + 1]? = some buf[pos + 1] := List.getElem?_eq_getElem (by omega)
    have third : buf[pos + 2]? = some buf[pos + 2] := List.getElem?_eq_getElem (by omega)
    have fourth : buf[pos + 3]? = some buf[pos + 3] := List.getElem?_eq_getElem (by omega)
    simp [toHostl, Mem.ofList, wire32, first, second, third, fourth, inside]
  · rw [if_neg inside]
    have outside : buf[pos + 3]? = none := List.getElem?_eq_none (by omega)
    cases first : buf[pos]? <;> cases second : buf[pos + 1]? <;> cases third : buf[pos + 2]? <;>
      simp [toHostl, Mem.ofList, first, second, third, outside]

theorem getType_mismatch (buf : Bytes) (pos : Nat) (expected : Data)
    (inside : pos + 2 ≤ buf.length) (other : wire16 buf pos ≠ expected.type) :
    getType (Mem.ofList buf) pos expected =
      some (⟨wire16 buf pos, .text wrongParameterType⟩, expected, pos) := by
  simp [getType, toHosts_ofList, inside, other]

section Items
variable (buf : Bytes) (pos : Nat) (expected : Data)

theorem fromBytes_checked_eq (same : wire16 buf pos = expected.type)
    (checked : expected.type ≠ ids.HEADER ∧ expected.type ≠ ids.BIGDATA)
    (inside : pos + 6 ≤ buf.length) :
    expected.fromBytes (Mem.ofList buf) pos = (do
      let object : Data := ⟨expected.type, wire32 buf (pos + 2), expected.value⟩
      let probe ← buf[stop buf pos]?
      if probe ≠ MAGIC then return (false, object, pos + 6)
      let (value, next) ← object.fromPayload (Mem.ofList buf) (pos + 6)
      return (true, { object with value := value }, next + 1)) := by
  have first : pos + 2 ≤ buf.length := by omega
  have second : pos + 2 + 4 ≤ buf.length := by omega
  simp only [Data.fromBytes, toHosts_ofList, first, ↓reduceIte, Option.bind_eq_bind,
    Option.bind_some, toHostl_ofList, second, same, checked.1, checked.2, or_self]
  rfl

theorem getType_isSome (checked : expected.type ≠ ids.HEADER ∧ expected.type ≠ ids.BIGDATA) :
    (getType (Mem.ofList buf) pos expected).isSome ↔
      ItemFits buf pos expected.type ∧ (Accepted buf pos expected.type →
        (Data.fromPayload ⟨expected.type, wire32 buf (pos + 2), expected.value⟩ (Mem.ofList buf)
          (pos + 6)).isSome) := by
  by_cases first : pos + 2 ≤ buf.length
  · by_cases same : wire16 buf pos = expected.type
    · by_cases second : pos + 6 ≤ buf.length
      · by_cases third : stop buf pos < buf.length
        · have probe : buf[stop buf pos]? = some buf[stop buf pos] := List.getElem?_eq_getElem third
          by_cases magic : buf[stop buf pos] = MAGIC
          · simp only [getType, toHosts_ofList, first, ↓reduceIte, Option.bind_eq_bind,
              Option.bind_some, same, ne_eq, not_true_eq_false,
              fromBytes_checked_eq buf pos expected same checked second, probe, magic, ItemFits,
              Accepted]
            cases Data.fromPayload ⟨expected.type, wire32 buf (pos + 2), expected.value⟩
              (Mem.ofList buf) (pos + 6) <;> simp [second, third]
          · simp [getType, toHosts_ofList, first, same,
              fromBytes_checked_eq buf pos expected same checked second, magic, ItemFits, Accepted,
              second, third]
        · have probe : buf[stop buf pos]? = none := List.getElem?_eq_none (by omega)
          simp [getType, toHosts_ofList, first, same,
            fromBytes_checked_eq buf pos expected same checked second, ItemFits, third]
      · have outside : ¬ pos + 2 + 4 ≤ buf.length := by omega
        simp [getType, toHosts_ofList, toHostl_ofList, first, same, Data.fromBytes, outside,
          ItemFits]
    · simp [getType_mismatch buf pos expected first same, ItemFits, Accepted, first, same]
  · simp [getType, toHosts_ofList, first, ItemFits]

end Items

/-- `get_type` reports no error; with type 0 it has not moved. -/
def Passed (buf : Bytes) (pos type : Nat) : Prop := Accepted buf pos type ∨ wire16 buf pos = 0

theorem getType_outcome (buf : Bytes) (pos next : Nat) (expected object : Data) (err : Error)
    (checked : expected.type ≠ ids.HEADER ∧ expected.type ≠ ids.BIGDATA)
    (nonzero : expected.type ≠ 0)
    (read : getType (Mem.ofList buf) pos expected = some (err, object, next)) :
    (err.isError = false ↔ Passed buf pos expected.type) ∧
    (wire16 buf pos = 0 → object = expected ∧ next = pos) ∧
    (Accepted buf pos expected.type → ∃ value last,
      Data.fromPayload ⟨expected.type, wire32 buf (pos + 2), expected.value⟩ (Mem.ofList buf)
          (pos + 6) = some (value, last) ∧
        object = ⟨expected.type, wire32 buf (pos + 2), value⟩ ∧ next = last + 1) := by
  have readable := (getType_isSome buf pos expected checked).mp (by simp [read])
  obtain ⟨⟨first, rest⟩, _⟩ := readable
  by_cases same : wire16 buf pos = expected.type
  · obtain ⟨second, third⟩ := rest same
    have probe : buf[stop buf pos]? = some buf[stop buf pos] := List.getElem?_eq_getElem third
    have apart : wire16 buf pos ≠ 0 := same ▸ nonzero
    simp only [getType, toHosts_ofList, first, ↓reduceIte, Option.bind_eq_bind, Option.bind_some,
      same, ne_eq, not_true_eq_false, fromBytes_checked_eq buf pos expected same checked second,
      probe] at read
    by_cases magic : buf[stop buf pos] = MAGIC
    · have accepted : Accepted buf pos expected.type := ⟨same, by rw [probe, magic]⟩
      simp only [magic, not_true_eq_false, ↓reduceIte, Option.bind_assoc, pure,
        Option.bind_some, Option.bind_eq_some_iff, Option.some.injEq, Prod.mk.injEq,
        Prod.exists] at read
      obtain ⟨value, last, payload, rfl, rfl, rfl⟩ := read
      exact ⟨by simp [Error.isError, Error.ofErrno, Passed, accepted], fun zero => absurd zero apart,
        fun _ => ⟨value, last, payload, rfl, rfl⟩⟩
    · have refused : ¬ Accepted buf pos expected.type := by
        rintro ⟨_, found⟩
        rw [probe] at found
        exact magic (Option.some.inj found)
      simp only [magic, not_false_eq_true, ↓reduceIte, pure, Option.bind_some, Bool.false_eq_true,
        Option.some.injEq, Prod.mk.injEq] at read
      obtain ⟨rfl, _, _⟩ := read
      exact ⟨by simp [Error.isError, Passed, refused, apart], fun zero => absurd zero apart,
        fun accepted => absurd accepted refused⟩
  · rw [getType_mismatch buf pos expected first same] at read
    simp only [Option.some.injEq, Prod.mk.injEq] at read
    obtain ⟨rfl, rfl, rfl⟩ := read
    have refused : ¬ Accepted buf pos expected.type := fun accepted => same accepted.1
    exact ⟨by simp [Error.isError, Passed, refused], fun _ => ⟨rfl, rfl⟩,
      fun accepted => absurd accepted refused⟩

/-! ## The single items -/

section Kinds
variable (buf : Bytes) (pos : Nat)

theorem payload_isSome (fits : pos + 6 ≤ buf.length ∧ stop buf pos < buf.length) :
    ((Mem.ofList buf).bytes (pos + 6) (wire32 buf (pos + 2))).isSome := by
  rw [Mem.ofList_bytes_isSome]
  unfold stop at fits
  omega

theorem string_isSome :
    (getType (Mem.ofList buf) pos (Types.blank (.string []))).isSome ↔
      ItemFits buf pos ids.STRING := by
  rw [getType_isSome buf pos _ (by decide)]
  constructor
  · exact fun fits => fits.1
  · intro fits
    refine ⟨fits, fun accepted => ?_⟩
    obtain ⟨text, payload⟩ := Option.isSome_iff_exists.mp
      (payload_isSome buf pos (fits.2 accepted.1))
    simp [Data.fromPayload, Types.blank, payload]

theorem smallint_isSome :
    (getType (Mem.ofList buf) pos (Types.blank (.smallint 0))).isSome ↔
      NumberFits buf pos ids.SMALLINT 2 := by
  rw [getType_isSome buf pos _ (by decide)]
  simp only [NumberFits, Types.blank, Data.fromPayload, toHosts_ofList]
  by_cases inside : pos + 6 + 2 ≤ buf.length <;> simp [inside]

theorem integer_isSome :
    (getType (Mem.ofList buf) pos (Types.blank (.integer 0))).isSome ↔
      NumberFits buf pos ids.INTEGER 4 := by
  rw [getType_isSome buf pos _ (by decide)]
  simp only [NumberFits, Types.blank, Data.fromPayload, toHostl_ofList]
  by_cases inside : pos + 6 + 4 ≤ buf.length <;> simp [inside]

/-- A bounded C string read from `pos` meets a NUL or its bound inside the buffer. -/
def TextFits (n : Nat) : Prop := (∃ i < n, buf[pos + i]? = some 0) ∨ pos + n ≤ buf.length

instance (n : Nat) : Decidable (TextFits buf pos n) := inferInstanceAs (Decidable (_ ∨ _))

theorem strn_isSome (n : Nat) :
    ((Mem.ofList buf).strn pos n).isSome ↔ n = 0 ∨ TextFits buf pos n := by
  induction n generalizing pos with
  | zero => simp [Mem.strn]
  | succ n ih =>
      cases head : buf[pos]? with
      | none =>
          have outside : buf.length ≤ pos := List.getElem?_eq_none_iff.mp head
          have beyond : ∀ i, buf[pos + i]? = none := fun i => List.getElem?_eq_none (by omega)
          simp only [Mem.strn, Mem.ofList, head, Option.bind_eq_bind, Option.bind_none,
            Option.isSome_none, Bool.false_eq_true, TextFits, beyond, reduceCtorEq, and_false,
            exists_false, false_or, false_iff]
          omega
      | some b =>
          have inside : pos < buf.length := (List.getElem?_eq_some_iff.mp head).1
          by_cases nul : b = 0
          · subst nul
            have here : TextFits buf pos (n + 1) := Or.inl ⟨0, by omega, by simpa using head⟩
            simp [Mem.strn, Mem.ofList, head, here]
          · have tail := ih (pos + 1)
            have shift : (∃ i < n + 1, buf[pos + i]? = some 0) ↔
                ∃ i < n, buf[pos + 1 + i]? = some 0 := by
              constructor
              · rintro ⟨i, small, found⟩
                cases i with
                | zero =>
                    rw [Nat.add_zero, head] at found
                    exact absurd (Option.some.inj found) nul
                | succ i => exact ⟨i, by omega, by rwa [Nat.add_assoc, Nat.add_comm 1]⟩
              · rintro ⟨i, small, found⟩
                exact ⟨i + 1, by omega, by rwa [Nat.add_comm i, ← Nat.add_assoc]⟩
            have step : ((Mem.ofList buf).strn pos (n + 1)).isSome ↔
                ((Mem.ofList buf).strn (pos + 1) n).isSome := by
              have byte : Mem.ofList buf pos = some b := head
              simp only [Mem.strn, byte, Option.bind_eq_bind, Option.bind_some, nul, ↓reduceIte]
              cases (Mem.ofList buf).strn (pos + 1) n <;> simp
            rw [step, tail, TextFits, TextFits, shift]
            have positive : ¬ n + 1 = 0 := Nat.succ_ne_zero n
            simp only [positive, false_or]
            by_cases zero : n = 0
            · subst zero
              simp
              omega
            · simp only [zero, false_or]
              constructor
              · rintro (found | fits)
                · exact Or.inl found
                · exact Or.inr (by omega)
              · rintro (found | fits)
                · exact Or.inl found
                · exact Or.inr (by omega)

theorem error_isSome :
    (getType (Mem.ofList buf) pos (Types.blank (.error []))).isSome ↔
      ItemFits buf pos ids.ERROR ∧ (Accepted buf pos ids.ERROR → TextFits buf (pos + 6) 255) := by
  rw [getType_isSome buf pos _ (by decide)]
  have readable := (strn_isSome buf (pos + 6) 255).trans (or_iff_right (by decide))
  have payload : (Data.fromPayload ⟨ids.ERROR, wire32 buf (pos + 2),
      (Types.blank (.error [])).value⟩ (Mem.ofList buf) (pos + 6)).isSome ↔
      TextFits buf (pos + 6) 255 := by
    rw [← readable]
    simp only [Types.blank, Data.fromPayload, MSG_SIZE, Nat.reduceSub]
    cases (Mem.ofList buf).strn (pos + 6) 255 with
    | none => exact Iff.rfl
    | some copied => exact Iff.rfl
  exact and_congr_right fun _ => imp_congr_right fun _ => payload

end Kinds

theorem bigdata_eq (buf : Bytes) (pos : Nat) (inside : pos + 2 ≤ buf.length)
    (same : wire16 buf pos = ids.BIGDATA) :
    getType (Mem.ofList buf) pos (Types.blank .bigdata) =
      if pos + 6 ≤ buf.length then
        some (.ofErrno 0, ⟨ids.BIGDATA, wire32 buf (pos + 2), .bigdata⟩, pos + 6)
      else none := by
  have known : wire16 buf pos = (Types.blank .bigdata).type := same
  by_cases whole : pos + 6 ≤ buf.length
  · have second : pos + 2 + 4 ≤ buf.length := by omega
    rw [if_pos whole]
    simp [getType, toHosts_ofList, toHostl_ofList, inside, known, Data.fromBytes, second,
      Types.blank, Data.fromPayload]
  · have second : ¬ pos + 2 + 4 ≤ buf.length := by omega
    rw [if_neg whole]
    simp [getType, toHosts_ofList, toHostl_ofList, inside, known, Data.fromBytes, second]

theorem data_isSome {α : Type} (buf : Bytes) (pos : Nat) (a : Error → α) (b : α) (c : Bytes → α) :
    (getType (Mem.ofList buf) pos (Types.blank .bigdata) >>= fun (err, fdata, req) =>
      if err.isError then some (a err)
      else Mem.ofList buf (req + fdata.length) >>= fun probe =>
        if probe ≠ MAGIC then some b
        else (Mem.ofList buf).bytes req fdata.length >>= fun content => some (c content)).isSome ↔
      ItemFits buf pos ids.BIGDATA := by
  by_cases first : pos + 2 ≤ buf.length
  · by_cases same : wire16 buf pos = ids.BIGDATA
    · rw [bigdata_eq buf pos first same]
      by_cases second : pos + 6 ≤ buf.length
      · by_cases third : stop buf pos < buf.length
        · have probe : Mem.ofList buf (stop buf pos) = some buf[stop buf pos] :=
            List.getElem?_eq_getElem third
          obtain ⟨text, payload⟩ := Option.isSome_iff_exists.mp
            (payload_isSome buf pos ⟨second, third⟩)
          unfold stop at probe
          by_cases magic : buf[pos + 6 + wire32 buf (pos + 2)] = MAGIC <;>
            simp [second, Error.isError, Error.ofErrno, probe, magic, payload, ItemFits, first, third]
        · have probe : Mem.ofList buf (stop buf pos) = none := List.getElem?_eq_none (by omega)
          unfold stop at probe
          simp [second, Error.isError, Error.ofErrno, probe, ItemFits, same, third]
      · simp [second, ItemFits, same]
    · rw [getType_mismatch buf pos (Types.blank .bigdata) first same]
      have fits : ItemFits buf pos ids.BIGDATA := ⟨first, fun known => absurd known same⟩
      have probe : Mem.ofList buf pos = some buf[pos] := List.getElem?_eq_getElem (by omega)
      by_cases zero : wire16 buf pos = 0
      · have low : buf[pos] ≠ MAGIC := by
          intro magic
          have value : buf.getD pos 0 = MAGIC := by
            rw [← magic, List.getD_eq_getElem?_getD, List.getElem?_eq_getElem (by omega)]
            rfl
          rw [wire16, value] at zero
          have : MAGIC.toNat = 204 := rfl
          omega
        simp [Error.isError, zero, Types.blank, probe, low, fits]
      · simp [Error.isError, zero, fits]
  · simp [getType, toHosts_ofList, first, ItemFits]

/-! ## The decoders of the server -/

/-- put: the name, and behind an accepted one that is not empty the data. -/
def PutFits (buf : Bytes) : Prop :=
  ItemFits buf 0 ids.STRING ∧
    (Accepted buf 0 ids.STRING → wire32 buf 2 ≠ 0 → ItemFits buf (stop buf 0 + 1) ids.BIGDATA)

section Server
variable (libc : Libc) (buf : Bytes)

theorem fileParam_isSome (missing : CString) :
    (Handlers.fileParam libc missing (Mem.ofList buf)).isSome ↔ ItemFits buf 0 ids.STRING := by
  rw [← string_isSome buf 0, Handlers.fileParam]
  cases getType (Mem.ofList buf) 0 (Types.blank (.string [])) with
  | none => simp
  | some result =>
      obtain ⟨err, fid, req⟩ := result
      by_cases isErr : err.isError = true <;> by_cases nothing : fid.str = [] <;>
        simp [isErr, nothing]

theorem withFile_isSome (missing : CString) (use : Bytes → Prog (Option Handlers.Reply)) :
    (Handlers.withFile libc missing use (Mem.ofList buf)).isSome ↔ ItemFits buf 0 ids.STRING := by
  rw [Handlers.withFile, Option.isSome_map, fileParam_isSome]

theorem fileParam_result (missing : CString) (fits : ItemFits buf 0 ids.STRING) :
    (Accepted buf 0 ids.STRING ∧ wire32 buf 2 ≠ 0 ∧ ∃ x,
      Handlers.fileParam libc missing (Mem.ofList buf) = some (.ok (x, stop buf 0 + 1))) ∨
    (¬ (Accepted buf 0 ids.STRING ∧ wire32 buf 2 ≠ 0) ∧ ∃ msg,
      Handlers.fileParam libc missing (Mem.ofList buf) = some (.error msg)) := by
  obtain ⟨⟨err, fid, req⟩, read⟩ := Option.isSome_iff_exists.mp ((string_isSome buf 0).mpr fits)
  obtain ⟨passed, zero, accepted⟩ := getType_outcome buf 0 req (Types.blank (.string [])) fid err
    (by decide) (by decide) read
  by_cases isErr : err.isError = true
  · refine Or.inr ⟨?_, _, by simp only [Handlers.fileParam, read, Option.bind_eq_bind,
      Option.bind_some, isErr, ↓reduceIte]; rfl⟩
    rintro ⟨ok, _⟩
    have noErr := passed.mpr (Or.inl ok)
    rw [isErr] at noErr
    cases noErr
  · have noErr : err.isError = false := by simpa using isErr
    by_cases ok : Accepted buf 0 ids.STRING
    · obtain ⟨value, last, payload, rfl, rfl⟩ := accepted ok
      simp only [Data.fromPayload, Types.blank, Option.bind_eq_bind, Option.bind_eq_some_iff, pure,
        Option.some.injEq, Prod.mk.injEq] at payload
      obtain ⟨text, bytes, rfl, rfl⟩ := payload
      have size := Mem.bytes_length _ _ _ _ bytes
      simp only [Nat.zero_add] at size
      by_cases nothing : text = []
      · subst nothing
        refine Or.inr ⟨?_, missing, by simp [Handlers.fileParam, read, noErr, Data.str]⟩
        rintro ⟨_, some⟩
        exact some size.symm
      · refine Or.inl ⟨ok, ?_, text, by simp [Handlers.fileParam, read, noErr, Data.str, nothing, stop]⟩
        intro none
        rw [none] at size
        exact nothing (List.length_eq_zero_iff.mp size)
    · have type : wire16 buf 0 = 0 := (passed.mp noErr).resolve_left ok
      obtain ⟨rfl, rfl⟩ := zero type
      refine Or.inr ⟨fun both => ok both.1, missing, ?_⟩
      simp only [Handlers.fileParam, read, Option.bind_eq_bind, Option.bind_some, noErr]
      rfl

theorem put_isSome : (Handlers.put libc (Mem.ofList buf)).isSome ↔ PutFits buf := by
  rw [Handlers.put, Option.isSome_map]
  by_cases fits : ItemFits buf 0 ids.STRING
  · rcases fileParam_result libc buf Handlers.expectedFileName fits with
      ⟨ok, some, x, name⟩ | ⟨refused, msg, name⟩
    · have data := data_isSome buf (stop buf 0 + 1)
        (fun err => (.error (err.msg.cstring libc) : Except CString (Bytes × Bytes)))
        (.error invalidDataFormat) fun content => .ok (x, content)
      simp only [PutFits, fits, ok, some, ne_eq, not_false_eq_true, true_and, forall_const]
      rw [← data]
      simp only [Handlers.putParams, name]
      rfl
    · have skipped : Accepted buf 0 ids.STRING → wire32 buf 2 ≠ 0 →
          ItemFits buf (stop buf 0 + 1) ids.BIGDATA := fun ok some => absurd ⟨ok, some⟩ refused
      simp [Handlers.putParams, name, PutFits, fits]
      exact skipped
  · have outside : Handlers.fileParam libc Handlers.expectedFileName (Mem.ofList buf) = none := by
      have readable := fileParam_isSome libc buf Handlers.expectedFileName
      cases found : Handlers.fileParam libc Handlers.expectedFileName (Mem.ofList buf) with
      | none => rfl
      | some result => exact absurd (readable.mp (by simp [found])) fits
    simp [Handlers.putParams, outside, PutFits, fits]

end Server

/-! ## The decoders of the client -/

def behind (buf : Bytes) (pos : Nat) : Nat :=
  if wire16 buf pos = 0 then pos else stop buf pos + 1

def ErrorFits (buf : Bytes) : Prop :=
  ItemFits buf 0 ids.ERROR ∧ (Accepted buf 0 ids.ERROR → TextFits buf 6 255)

def DescFits (buf : Bytes) : Prop :=
  ItemFits buf 0 ids.STRING ∧
    (Passed buf 0 ids.STRING → NumberFits buf (behind buf 0) ids.INTEGER 4)

def ResultsFit (buf : Bytes) : Nat → Nat → Prop
  | 0, _ => True
  | count + 1, pos => ItemFits buf pos ids.STRING ∧
      (Passed buf pos ids.STRING → ResultsFit buf count (behind buf pos))

def ListFits (buf : Bytes) : Prop :=
  NumberFits buf 0 ids.SMALLINT 2 ∧
    (Accepted buf 0 ids.SMALLINT → ResultsFit buf (wire16 buf 6) 9)

section Client
variable (buf : Bytes)

theorem errorReply_isSome : (Client.errorReply (Mem.ofList buf)).isSome ↔ ErrorFits buf := by
  rw [ErrorFits, ← error_isSome buf 0, Client.errorReply]
  cases getType (Mem.ofList buf) 0 (Types.blank (.error [])) with
  | none => simp
  | some result =>
      obtain ⟨err, object, next⟩ := result
      by_cases isErr : err.isError = true <;> simp [isErr]

theorem getReply_isSome :
    (Client.getReply (Mem.ofList buf)).isSome ↔ ItemFits buf 0 ids.BIGDATA := by
  rw [← data_isSome buf 0 (fun _ => Client.Answer.expected Client.expectedFileData) .noMagic .file]
  rfl

theorem putReply_isSome :
    (Client.putReply (Mem.ofList buf)).isSome ↔ ItemFits buf 0 ids.STRING := by
  rw [← string_isSome buf 0, Client.putReply]
  cases getType (Mem.ofList buf) 0 (Types.blank (.string [])) with
  | none => simp
  | some result =>
      obtain ⟨err, fid, next⟩ := result
      by_cases isErr : err.isError = true <;> simp [isErr]

theorem string_next (pos : Nat) (fits : ItemFits buf pos ids.STRING) :
    ∃ err object next,
      getType (Mem.ofList buf) pos (Types.blank (.string [])) = some (err, object, next) ∧
      (err.isError = false ↔ Passed buf pos ids.STRING) ∧
      (Passed buf pos ids.STRING → next = behind buf pos) := by
  obtain ⟨⟨err, object, next⟩, read⟩ :=
    Option.isSome_iff_exists.mp ((string_isSome buf pos).mpr fits)
  obtain ⟨passed, zero, accepted⟩ := getType_outcome buf pos next (Types.blank (.string [])) object
    err (by decide) (by decide) read
  refine ⟨err, object, next, read, passed, ?_⟩
  rintro (ok | none)
  · obtain ⟨value, last, payload, _, rfl⟩ := accepted ok
    simp only [Data.fromPayload, Types.blank, Option.bind_eq_bind, Option.bind_eq_some_iff, pure,
      Option.some.injEq, Prod.mk.injEq] at payload
    obtain ⟨text, _, _, rfl⟩ := payload
    have apart : wire16 buf pos ≠ 0 := by
      rw [ok.1]
      decide
    rw [behind, if_neg apart]
    rfl
  · rw [behind, if_pos none]
    exact (zero none).2

theorem descReply_isSome : (Client.descReply (Mem.ofList buf)).isSome ↔ DescFits buf := by
  by_cases fits : ItemFits buf 0 ids.STRING
  · obtain ⟨err, object, next, read, passed, cursor⟩ := string_next buf 0 fits
    by_cases ok : Passed buf 0 ids.STRING
    · obtain rfl := cursor ok
      simp only [Client.descReply, read, Option.bind_eq_bind, Option.bind_some, passed.mpr ok,
        Bool.false_eq_true, ↓reduceIte, DescFits, fits, ok, true_and, forall_const]
      rw [← integer_isSome buf]
      cases getType (Mem.ofList buf) (behind buf 0) (Types.blank (.integer 0)) with
      | none => simp
      | some result =>
          obtain ⟨err, fsize, next⟩ := result
          by_cases isErr : err.isError = true <;> simp [isErr]
    · have isErr : err.isError = true := by
        by_contra noErr
        exact ok (passed.mp (by simpa using noErr))
      simp [Client.descReply, read, isErr, DescFits, fits, ok]
  · have outside : getType (Mem.ofList buf) 0 (Types.blank (.string [])) = none := by
      have readable := string_isSome buf 0
      rw [← not_iff_not] at readable
      simpa using readable.mpr fits
    simp [Client.descReply, outside, DescFits, fits]

theorem readResults_isSome (announced count pos : Nat) (results : List Bytes) :
    (Client.readResults (Mem.ofList buf) announced count pos results).isSome ↔
      ResultsFit buf count pos := by
  induction count generalizing pos results with
  | zero => simp [Client.readResults, ResultsFit]
  | succ count ih =>
      by_cases fits : ItemFits buf pos ids.STRING
      · obtain ⟨err, object, next, read, passed, cursor⟩ := string_next buf pos fits
        by_cases ok : Passed buf pos ids.STRING
        · obtain rfl := cursor ok
          simp only [Client.readResults, read, Option.bind_eq_bind, Option.bind_some,
            passed.mpr ok, Bool.false_eq_true, ↓reduceIte, ResultsFit, fits, ok, true_and,
            forall_const]
          exact ih (behind buf pos) (results ++ [object.str])
        · have isErr : err.isError = true := by
            by_contra noErr
            exact ok (passed.mp (by simpa using noErr))
          simp [Client.readResults, read, isErr, ResultsFit, fits, ok]
      · have outside : getType (Mem.ofList buf) pos (Types.blank (.string [])) = none := by
          have readable := string_isSome buf pos
          rw [← not_iff_not] at readable
          simpa using readable.mpr fits
        simp [Client.readResults, outside, ResultsFit, fits]

theorem listReply_isSome : (Client.listReply (Mem.ofList buf)).isSome ↔ ListFits buf := by
  by_cases fits : NumberFits buf 0 ids.SMALLINT 2
  · obtain ⟨⟨err, resultnum, req⟩, read⟩ :=
      Option.isSome_iff_exists.mp ((smallint_isSome buf 0).mpr fits)
    obtain ⟨passed, zero, accepted⟩ := getType_outcome buf 0 req (Types.blank (.smallint 0))
      resultnum err (by decide) (by decide) read
    by_cases ok : Accepted buf 0 ids.SMALLINT
    · obtain ⟨value, last, payload, rfl, rfl⟩ := accepted ok
      have inside : 0 + 6 + 2 ≤ buf.length := fits.2 ok
      simp only [Data.fromPayload, Types.blank, toHosts_ofList, inside, ↓reduceIte,
        Option.bind_eq_bind, Option.bind_some, pure, Option.some.injEq, Prod.mk.injEq] at payload
      obtain ⟨rfl, rfl⟩ := payload
      simp only [Client.listReply, read, Option.bind_eq_bind, Option.bind_some,
        passed.mpr (Or.inl ok), Bool.false_eq_true, ↓reduceIte, ListFits, fits, ok, true_and,
        forall_const]
      exact readResults_isSome buf _ _ _ []
    · by_cases none : wire16 buf 0 = 0
      · obtain ⟨rfl, rfl⟩ := zero none
        simp only [Client.listReply, read, Option.bind_eq_bind, Option.bind_some,
          passed.mpr (Or.inr none), Bool.false_eq_true, ↓reduceIte, ListFits, fits, ok, true_and,
          false_implies, iff_true]
        rfl
      · have isErr : err.isError = true := by
          by_contra noErr
          exact (passed.mp (by simpa using noErr)).elim ok none
        simp [Client.listReply, read, isErr, ListFits, fits, ok]
  · have outside : getType (Mem.ofList buf) 0 (Types.blank (.smallint 0)) = none := by
      have readable := smallint_isSome buf 0
      rw [← not_iff_not] at readable
      simpa using readable.mpr fits
    simp [Client.listReply, outside, ListFits, fits]

end Client

/-- The buffer of `head.length + 1` bytes, in 32-bit arithmetic, after the body
has been read into it; nothing is written to its last byte. -/
def clientBuffer (body : Bytes) (last : Byte) : Bytes :=
  (body ++ [last]).take ((body.length + 1) % 4294967296)

/-- Every decoder reads inside its buffer exactly where the items it examines fit into it. -/
theorem decoders_stay_inside (libc : Libc) (body : Bytes) (last : Byte) :
    (((Handlers.get libc (Mem.ofList body)).isSome ↔ ItemFits body 0 ids.STRING) ∧
      ((Handlers.desc libc (Mem.ofList body)).isSome ↔ ItemFits body 0 ids.STRING) ∧
      ((Handlers.del libc (Mem.ofList body)).isSome ↔ ItemFits body 0 ids.STRING) ∧
      ((Handlers.list libc (Mem.ofList body)).isSome ↔ ItemFits body 0 ids.STRING) ∧
      ((Handlers.put libc (Mem.ofList body)).isSome ↔ PutFits body)) ∧
    ((Client.errorReply (Mem.ofList (clientBuffer body last))).isSome ↔
        ErrorFits (clientBuffer body last)) ∧
      ((Client.getReply (Mem.ofList (clientBuffer body last))).isSome ↔
        ItemFits (clientBuffer body last) 0 ids.BIGDATA) ∧
      ((Client.putReply (Mem.ofList (clientBuffer body last))).isSome ↔
        ItemFits (clientBuffer body last) 0 ids.STRING) ∧
      ((Client.descReply (Mem.ofList (clientBuffer body last))).isSome ↔
        DescFits (clientBuffer body last)) ∧
      ((Client.listReply (Mem.ofList (clientBuffer body last))).isSome ↔
        ListFits (clientBuffer body last)) :=
  ⟨⟨withFile_isSome .., withFile_isSome .., withFile_isSome .., withFile_isSome ..,
      put_isSome libc body⟩,
    errorReply_isSome _, getReply_isSome _, putReply_isSome _, descReply_isSome _,
    listReply_isSome _⟩

/-- A string that announces more than is there sends the probe outside the body,
and the client's copy of the message of a well-formed error frame leaves its buffer. -/
theorem decoders_leave_buffers :
    (¬ ∀ (libc : Libc) (body : Bytes), (Handlers.get libc (Mem.ofList body)).isSome) ∧
      ¬ ∀ (msg : CString) (last : Byte),
        (Client.errorReply (Mem.ofList (clientBuffer (Types.error msg.val).toBytes last))).isSome := by
  constructor
  · intro inside
    have libc : Libc := ⟨fun _ => ⟨[], by decide⟩, fun _ _ => ⟨[], by decide⟩, fun _ _ => none⟩
    have read := inside libc [0, 5, 0, 0, 0, 9]
    rw [Handlers.get, withFile_isSome] at read
    exact absurd read (by decide)
  · intro inside
    have read := inside ⟨ascii "no", by decide⟩ 1
    rw [errorReply_isSome] at read
    exact absurd (read.2 (by decide)) (by decide +kernel)

end Sfsdb.Bounds

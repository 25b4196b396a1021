import Sfsdb.Handlers
import Sfsdb.ItemStream

/-!
Which request bodies the handlers act on. `stringItem` and `dataItem` are the
two items of the request grammar. A decoder that succeeds has read exactly
these, and one that does not refuses the request before any volume call; the
wire type 0, which `get_type` reports as success, ends in the refusal of an
empty string or in the probe for the magic byte.
-/

namespace Sfsdb.Handlers

open Posix Protocol

def stringItem (text : Bytes) : Bytes :=
  toNets ids.STRING ++ toNetl text.length ++ (text ++ [MAGIC])

def dataItem (data : Bytes) : Bytes :=
  toNets ids.BIGDATA ++ toNetl data.length ++ (data ++ [MAGIC])

def AsksFor (body x : Bytes) : Prop :=
  x ≠ [] ∧ x.length < 4294967296 ∧ ∃ rest, body = stringItem x ++ rest

def AsksToStore (body name data : Bytes) : Prop :=
  name ≠ [] ∧ name.length < 4294967296 ∧ data.length < 4294967296 ∧
    ∃ rest, body = stringItem name ++ dataItem data ++ rest

/-! ## Reading back what stands in the memory -/

theorem holds_of_toHosts (m : Mem) (pos v next : Nat) (read : toHosts m pos = some (v, next)) :
    m.Holds pos (toNets v) := by
  simp only [toHosts, Option.bind_eq_bind, Option.bind_eq_some_iff, pure, Option.some.injEq,
    Prod.mk.injEq] at read
  obtain ⟨a, first, b, second, same, _⟩ := read
  have high : UInt8.ofNat (v / 256) = a := by
    apply UInt8.toNat_inj.mp
    have := a.toNat_lt
    have := b.toNat_lt
    simp only [UInt8.toNat_ofNat']
    omega
  have low : UInt8.ofNat v = b := by
    apply UInt8.toNat_inj.mp
    have := b.toNat_lt
    simp only [UInt8.toNat_ofNat']
    omega
  simp only [toNets, high, low, Mem.holds_cons_iff]
  exact ⟨first, second, Mem.holds_nil m _⟩

theorem holds_of_toHostl (m : Mem) (pos v next : Nat) (read : toHostl m pos = some (v, next)) :
    m.Holds pos (toNetl v) := by
  simp only [toHostl, Option.bind_eq_bind, Option.bind_eq_some_iff, pure, Option.some.injEq,
    Prod.mk.injEq] at read
  obtain ⟨a, first, b, second, c, third, d, fourth, same, _⟩ := read
  have bounds := And.intro (And.intro a.toNat_lt b.toNat_lt) (And.intro c.toNat_lt d.toNat_lt)
  have byte : ∀ (n : Nat) (x : UInt8), n % 256 = x.toNat → UInt8.ofNat n = x := by
    intro n x value
    apply UInt8.toNat_inj.mp
    simpa only [UInt8.toNat_ofNat'] using value
  simp only [toNetl, byte (v / 16777216) a (by omega), byte (v / 65536) b (by omega),
    byte (v / 256) c (by omega), byte v d (by omega), Mem.holds_cons_iff]
  exact ⟨first, second, third, fourth, Mem.holds_nil m _⟩

theorem ofList_holds_iff (body : Bytes) (pos : Nat) (text : Bytes) :
    (Mem.ofList body).Holds pos text ↔ text <+: body.drop pos := by
  rw [List.prefix_iff_getElem?]
  constructor
  · intro holds i inside
    simpa [Mem.ofList, inside] using holds i inside
  · intro front i inside
    simpa [Mem.ofList, inside] using front i inside

/-! ## What a successful decoder has read -/

theorem getType_cases (m : Mem) (pos next : Nat) (expected object : Data) (err : Error)
    (read : getType m pos expected = some (err, object, next)) :
    ∃ type, toHosts m pos = some (type, pos + 2) ∧
      ((type ≠ expected.type ∧ err = ⟨type, .text wrongParameterType⟩ ∧ object = expected ∧
          next = pos) ∨
        (type = expected.type ∧ ∃ accepted, expected.fromBytes m pos = some (accepted, object, next) ∧
          err = if accepted then .ofErrno 0 else ⟨-1, .text invalidDataFormat⟩)) := by
  -- `get_type` reads a type and goes on only if it is the expected one.
  simp only [getType, Option.bind_eq_bind, Option.bind_eq_some_iff, Prod.exists] at read
  obtain ⟨type, after, readType, rest⟩ := read
  have width := (toHosts_lt m pos type after readType).2
  subst width
  refine ⟨type, readType, ?_⟩
  by_cases same : type = expected.type
  · simp only [same, ne_eq, not_true_eq_false, ↓reduceIte, Option.bind_eq_some_iff,
      Prod.exists] at rest
    obtain ⟨accepted, object', next', parsed, result⟩ := rest
    refine Or.inr ⟨same, accepted, ?_, ?_⟩
    · cases accepted <;> simp only [↓reduceIte, Bool.false_eq_true, pure, Option.some.injEq,
        Prod.mk.injEq] at result <;> obtain ⟨_, rfl, rfl⟩ := result <;> exact parsed
    · cases accepted <;> simp only [↓reduceIte, Bool.false_eq_true, pure, Option.some.injEq,
        Prod.mk.injEq] at result ⊢ <;> exact result.1.symm
  · simp only [ne_eq, same, not_false_eq_true, ↓reduceIte, pure, Option.some.injEq,
      Prod.mk.injEq] at rest
    obtain ⟨rfl, rfl, rfl⟩ := rest
    exact Or.inl ⟨same, rfl, rfl, rfl⟩

theorem fromBytes_string (m : Mem) (pos next : Nat) (object : Data)
    (type : toHosts m pos = some (ids.STRING, pos + 2))
    (read : (Types.blank (.string [])).fromBytes m pos = some (true, object, next)) :
    ∃ text, m.Holds pos (stringItem text) ∧ text.length < 4294967296 ∧
      object = ⟨ids.STRING, text.length, .string text⟩ ∧ next = pos + (7 + text.length) := by
  have front := holds_of_toHosts m pos _ _ type
  simp only [Data.fromBytes, type, Option.bind_eq_bind, Option.bind_some, Option.bind_eq_some_iff,
    Prod.exists] at read
  obtain ⟨length, after, readLength, rest⟩ := read
  obtain ⟨sized, rfl⟩ := toHostl_lt m _ length after readLength
  have second := holds_of_toHostl m _ _ _ readLength
  rw [if_neg (by decide)] at rest
  simp only [Option.bind_eq_some_iff] at rest
  obtain ⟨probe, atEnd, rest⟩ := rest
  by_cases magic : probe = MAGIC
  · simp only [magic, ne_eq, not_true_eq_false, ↓reduceIte, Data.fromPayload, Types.blank,
      Option.bind_eq_bind, Option.bind_eq_some_iff, pure, Option.some.injEq, Prod.mk.injEq,
      Prod.exists] at rest
    obtain ⟨value, after, ⟨text, payload, rfl, rfl⟩, _, rfl, rfl⟩ := rest
    have size := Mem.bytes_length m _ _ _ payload
    subst size
    refine ⟨text, ?_, sized, rfl, by omega⟩
    rw [stringItem, Mem.holds_append_iff, Mem.holds_append_iff, Mem.holds_append_iff]
    refine ⟨⟨front, second⟩, ?_, ?_⟩
    · simpa [Nat.add_assoc] using Mem.holds_of_bytes m _ _ _ payload
    · rw [Mem.holds_cons_iff]
      refine ⟨?_, Mem.holds_nil m _⟩
      rw [← magic, ← atEnd]
      simp [Nat.add_assoc]
  · simp [magic] at rest

theorem fromBytes_bigdata (m : Mem) (pos next : Nat) (accepted : Bool) (object : Data)
    (type : toHosts m pos = some (ids.BIGDATA, pos + 2))
    (read : (Types.blank .bigdata).fromBytes m pos = some (accepted, object, next)) :
    ∃ length, m.Holds pos (toNets ids.BIGDATA ++ toNetl length) ∧ length < 4294967296 ∧
      accepted = true ∧ object = ⟨ids.BIGDATA, length, .bigdata⟩ ∧ next = pos + 6 := by
  have front := holds_of_toHosts m pos _ _ type
  simp only [Data.fromBytes, type, Option.bind_eq_bind, Option.bind_some, Option.bind_eq_some_iff,
    Prod.exists] at read
  obtain ⟨length, after, readLength, rest⟩ := read
  obtain ⟨sized, rfl⟩ := toHostl_lt m _ length after readLength
  have second := holds_of_toHostl m _ _ _ readLength
  rw [if_pos (by decide)] at rest
  simp only [Data.fromPayload, Types.blank, Option.bind_some, pure, Option.some.injEq,
    Prod.mk.injEq] at rest
  obtain ⟨rfl, rfl, rfl⟩ := rest
  exact ⟨length, (Mem.holds_append_iff _ _ _ _).mpr ⟨front, second⟩, sized, rfl, rfl, rfl⟩

theorem stringItem_length (text : Bytes) : (stringItem text).length = 7 + text.length := by
  simp [stringItem]
  omega

theorem dataItem_length (data : Bytes) : (dataItem data).length = 7 + data.length := by
  simp [dataItem]
  omega

section Params
variable (libc : Libc) (missing : CString) (m : Mem)

theorem fileParam_holds (text : Bytes) (some : text ≠ []) (sized : text.length < 4294967296)
    (holds : m.Holds 0 (stringItem text)) :
    fileParam libc missing m = .some (.ok (text, 7 + text.length)) := by
  simp [fileParam, getType_string m 0 text sized holds, Error.ofErrno, Error.isError, Data.str, some]

/-- A type 0 leaves the string empty, so only a string item gets past both tests. -/
theorem fileParam_ok (x : Bytes) (next : Nat)
    (ok : fileParam libc missing m = some (.ok (x, next))) :
    x ≠ [] ∧ x.length < 4294967296 ∧ m.Holds 0 (stringItem x) ∧ next = 7 + x.length := by
  simp only [fileParam, Option.bind_eq_bind, Option.bind_eq_some_iff, Prod.exists] at ok
  obtain ⟨err, fid, req, read, rest⟩ := ok
  obtain ⟨type, readType, cases⟩ := getType_cases m 0 req _ fid err read
  rcases cases with ⟨_, rfl, rfl, rfl⟩ | ⟨rfl, accepted, parsed, rfl⟩
  · cases isErr : (⟨type, .text wrongParameterType⟩ : Error).isError <;>
      simp [isErr, Types.blank, Data.str] at rest
  · cases accepted with
    | false => simp [Error.isError] at rest
    | true =>
        obtain ⟨text, holds, sized, rfl, rfl⟩ := fromBytes_string m 0 req fid readType parsed
        by_cases nothing : text = []
        · simp [Error.isError, Error.ofErrno, Data.str, nothing] at rest
        · simp only [Error.isError, Error.ofErrno, ne_eq, not_true_eq_false, decide_false,
            Bool.false_eq_true, ↓reduceIte, Data.str, nothing, pure, Option.some.injEq,
            Except.ok.injEq, Prod.mk.injEq, Nat.zero_add] at rest
          obtain ⟨rfl, rfl⟩ := rest
          exact ⟨nothing, sized, holds, rfl⟩

theorem putParams_holds (name data : Bytes) (some : name ≠ []) (sizedName : name.length < 4294967296)
    (sizedData : data.length < 4294967296) (holds : m.Holds 0 (stringItem name ++ dataItem data)) :
    putParams libc m = .some (.ok (name, data)) := by
  obtain ⟨first, second⟩ := (Mem.holds_append_iff _ _ _ _).mp holds
  rw [stringItem_length, Nat.zero_add, dataItem, Mem.holds_append_iff] at second
  obtain ⟨front, body⟩ := second
  obtain ⟨payload, last⟩ := (Mem.holds_append_iff _ _ _ _).mp body
  have probe := ((Mem.holds_cons_iff _ _ _ _).mp last).1
  have read := Mem.bytes_of_holds m _ data payload
  simp only [List.length_append, toNets_length, toNetl_length, Nat.reduceAdd] at probe read
  simp [putParams, fileParam_holds libc expectedFileName m name some sizedName first,
    getType_bigdata m _ data.length sizedData front, Error.ofErrno, Error.isError, probe, read]

/-- A type 0 in the place of the data moves the probe to its own first byte, which is 0. -/
theorem putParams_ok (name data : Bytes) (ok : putParams libc m = some (.ok (name, data))) :
    name ≠ [] ∧ name.length < 4294967296 ∧ data.length < 4294967296 ∧
      m.Holds 0 (stringItem name ++ dataItem data) := by
  simp only [putParams, Option.bind_eq_bind, Option.bind_eq_some_iff] at ok
  obtain ⟨param, first, rest⟩ := ok
  cases param with
  | error msg => simp at rest
  | ok param =>
      obtain ⟨fname, req⟩ := param
      obtain ⟨some, sized, holds, rfl⟩ := fileParam_ok libc _ m fname req first
      simp only [Option.bind_eq_some_iff, Prod.exists] at rest
      obtain ⟨err, fdata, req, read, rest⟩ := rest
      obtain ⟨type, readType, cases⟩ := getType_cases m _ req _ fdata err read
      rcases cases with ⟨_, rfl, rfl, rfl⟩ | ⟨rfl, accepted, parsed, rfl⟩
      · by_cases zero : type = 0
        · subst zero
          have bytes := (Mem.holds_cons_iff _ _ _ _).mp (holds_of_toHosts m _ _ _ readType)
          simp only [Error.isError, Int.natCast_zero, ne_eq, not_true_eq_false, decide_false,
            Bool.false_eq_true, ↓reduceIte, Types.blank, Nat.add_zero, bytes.1, Option.bind_some] at rest
          rw [if_pos (by decide)] at rest
          simp at rest
        · have isErr : (⟨type, .text wrongParameterType⟩ : Error).isError = true := by
            simp [Error.isError, zero]
          simp [isErr] at rest
      · obtain ⟨length, front, lengthSized, rfl, rfl, rfl⟩ :=
          fromBytes_bigdata m _ req accepted fdata readType parsed
        simp only [↓reduceIte, Error.isError, Error.ofErrno, ne_eq, not_true_eq_false,
          decide_false, Bool.false_eq_true, Option.bind_eq_some_iff] at rest
        obtain ⟨probe, atEnd, rest⟩ := rest
        by_cases magic : probe = MAGIC
        · simp only [magic, not_true_eq_false, ↓reduceIte, Option.bind_eq_some_iff, pure,
            Option.some.injEq, Except.ok.injEq, Prod.mk.injEq] at rest
          obtain ⟨payload, readPayload, rfl, rfl⟩ := rest
          have size := Mem.bytes_length m _ _ _ readPayload
          subst size
          refine ⟨some, sized, lengthSized, (Mem.holds_append_iff _ _ _ _).mpr ⟨holds, ?_⟩⟩
          rw [stringItem_length, Nat.zero_add, dataItem, Mem.holds_append_iff]
          refine ⟨front, (Mem.holds_append_iff _ _ _ _).mpr ⟨?_, ?_⟩⟩
          · simpa using Mem.holds_of_bytes m _ _ _ readPayload
          · refine (Mem.holds_cons_iff _ _ _ _).mpr ⟨?_, Mem.holds_nil m _⟩
            simpa [← magic] using atEnd
        · simp [magic] at rest

end Params

/-! ## Exactly the bodies of the grammar -/

section Bodies
variable (libc : Libc) (missing : CString) (body : Bytes)

theorem fileParam_iff (x : Bytes) :
    (∃ next, fileParam libc missing (Mem.ofList body) = some (.ok (x, next))) ↔ AsksFor body x := by
  constructor
  · rintro ⟨next, ok⟩
    obtain ⟨some, sized, holds, _⟩ := fileParam_ok libc missing _ x next ok
    obtain ⟨rest, same⟩ := (ofList_holds_iff body 0 _).mp holds
    exact ⟨some, sized, rest, by simpa using same.symm⟩
  · rintro ⟨some, sized, rest, rfl⟩
    exact ⟨_, fileParam_holds libc missing _ x some sized ((ofList_holds_iff _ 0 _).mpr (by simp))⟩

theorem putParams_iff (name data : Bytes) :
    putParams libc (Mem.ofList body) = some (.ok (name, data)) ↔ AsksToStore body name data := by
  constructor
  · intro ok
    obtain ⟨some, sizedName, sizedData, holds⟩ := putParams_ok libc _ name data ok
    obtain ⟨rest, same⟩ := (ofList_holds_iff body 0 _).mp holds
    exact ⟨some, sizedName, sizedData, rest, by simpa using same.symm⟩
  · rintro ⟨some, sizedName, sizedData, rest, rfl⟩
    exact putParams_holds libc _ name data some sizedName sizedData
      ((ofList_holds_iff _ 0 _).mpr (by simp))

end Bodies

/-- The four handlers with one parameter, each with what it does with it. -/
def stringHandlers (libc : Libc) : List (Handler × CString × (Bytes → Prog (Option Reply))) :=
  [(get libc, expectedFileId, getFile libc), (desc libc, expectedFileId, descFile libc),
    (del libc, expectedFileId, delFile libc), (list libc, expectedFileName, listFiles libc)]

theorem stringHandlers_eq (libc : Libc) (h : Handler) (missing : CString)
    (use : Bytes → Prog (Option Reply)) (member : (h, missing, use) ∈ stringHandlers libc) :
    h = withFile libc missing use := by
  simp only [stringHandlers, List.mem_cons, Prod.mk.injEq, List.not_mem_nil, or_false] at member
  rcases member with ⟨rfl, rfl, rfl⟩ | ⟨rfl, rfl, rfl⟩ | ⟨rfl, rfl, rfl⟩ | ⟨rfl, rfl, rfl⟩ <;> rfl

def Refuses (program : Prog (Option Reply)) : Prop :=
  ∃ msg, program = .done (some (refuse msg))

theorem refuses_runs {program : Prog (Option Reply)} (refuses : Refuses program) (p : Pid)
    (k : Kernel) (reply : Option Reply) (k' : Kernel) (run : Runs p program k reply k') :
    k' = k ∧ ∃ msg : CString, reply = some ⟨HANDLER_ERROR, errorMessage msg.val⟩ := by
  obtain ⟨msg, rfl⟩ := refuses
  obtain ⟨rfl, rfl⟩ := Program.runs_done_iff.mp run
  exact ⟨rfl, msg, rfl⟩

theorem proceed_cases {α : Type} (use : α → Prog (Option Reply)) (params : Except CString α) :
    (∃ v, params = .ok v ∧ proceed use params = use v) ∨ Refuses (proceed use params) := by
  cases params with
  | error msg => exact Or.inr ⟨msg, rfl⟩
  | ok v => exact Or.inl ⟨v, rfl, rfl⟩

theorem put_acts (libc : Libc) (body : Bytes) :
    (∀ name data, AsksToStore body name data →
      put libc (Mem.ofList body) = some (putFile libc name data)) ∧
    (∀ program, put libc (Mem.ofList body) = some program →
      (∀ name data, ¬ AsksToStore body name data) → Refuses program) := by
  constructor
  · intro name data asks
    rw [put, (putParams_iff libc body name data).mpr asks]
    rfl
  · intro program accepted never
    simp only [put, Option.map_eq_some_iff] at accepted
    obtain ⟨params, read, rfl⟩ := accepted
    rcases proceed_cases (fun params => putFile libc params.1 params.2) params with
      ⟨⟨name, data⟩, rfl, _⟩ | refuses
    · exact absurd ((putParams_iff libc body name data).mp read) (never name data)
    · exact refuses

theorem withFile_acts (libc : Libc) (missing : CString) (use : Bytes → Prog (Option Reply))
    (body : Bytes) :
    (∀ x, AsksFor body x → withFile libc missing use (Mem.ofList body) = some (use x)) ∧
    (∀ program, withFile libc missing use (Mem.ofList body) = some program →
      (∀ x, ¬ AsksFor body x) → Refuses program) := by
  constructor
  · intro x asks
    obtain ⟨next, read⟩ := (fileParam_iff libc missing body x).mpr asks
    rw [withFile, read]
    rfl
  · intro program accepted never
    simp only [withFile, Option.map_eq_some_iff] at accepted
    obtain ⟨params, read, rfl⟩ := accepted
    rcases proceed_cases (fun params => use params.1) params with ⟨⟨x, next⟩, rfl, _⟩ | refuses
    · exact absurd ((fileParam_iff libc missing body x).mp ⟨next, read⟩) (never x)
    · exact refuses

def Begins {α : Type} (program : Prog (Option Reply)) (volumeCall : Prog α) : Prop :=
  ∃ answer, program = volumeCall.bind answer

theorem string_handlers_begin (libc : Libc) (x : Bytes) :
    Begins (getFile libc x) (Volume.getId x) ∧ Begins (descFile libc x) (Volume.getId x) ∧
      Begins (delFile libc x) (Volume.remove x) ∧ Begins (listFiles libc x) (Volume.getName x) :=
  ⟨⟨_, rfl⟩, ⟨_, rfl⟩, ⟨_, rfl⟩, ⟨_, rfl⟩⟩

/-- A handler whose examined bytes lie in the body calls the volume exactly with
the parameters that the body's grammar gives, and refuses every other body
without touching anything. -/
theorem handlers_act_on_their_grammar (libc : Libc) (body : Bytes) :
    ((∀ name data, putParams libc (Mem.ofList body) = some (.ok (name, data)) ↔
        AsksToStore body name data) ∧
      (∀ name data, AsksToStore body name data → ∃ program,
        put libc (Mem.ofList body) = some program ∧ Begins program (Volume.store name data)) ∧
      (∀ program, put libc (Mem.ofList body) = some program →
        (∀ name data, ¬ AsksToStore body name data) → Refuses program ∧
          ∀ p k reply k', Runs p program k reply k' → k' = k ∧
            ∃ msg : CString, reply = some ⟨HANDLER_ERROR, errorMessage msg.val⟩)) ∧
    (∀ h missing use, (h, missing, use) ∈ stringHandlers libc →
      (∀ x, (∃ next, fileParam libc missing (Mem.ofList body) = some (.ok (x, next))) ↔
        AsksFor body x) ∧
      (∀ x, AsksFor body x → h (Mem.ofList body) = some (use x)) ∧
      (∀ program, h (Mem.ofList body) = some program → (∀ x, ¬ AsksFor body x) →
        Refuses program ∧ ∀ p k reply k', Runs p program k reply k' → k' = k ∧
          ∃ msg : CString, reply = some ⟨HANDLER_ERROR, errorMessage msg.val⟩)) ∧
    ∀ x, Begins (getFile libc x) (Volume.getId x) ∧ Begins (descFile libc x) (Volume.getId x) ∧
      Begins (delFile libc x) (Volume.remove x) ∧ Begins (listFiles libc x) (Volume.getName x) := by
  obtain ⟨stores, refuses⟩ := put_acts libc body
  refine ⟨⟨putParams_iff libc body, ?_, ?_⟩, ?_, string_handlers_begin libc⟩
  · intro name data asks
    exact ⟨_, stores name data asks, _, rfl⟩
  · intro program accepted never
    have refused := refuses program accepted never
    exact ⟨refused, refuses_runs refused⟩
  · intro h missing use member
    obtain rfl := stringHandlers_eq libc h missing use member
    obtain ⟨acts, refuses⟩ := withFile_acts libc missing use body
    refine ⟨fileParam_iff libc missing body, acts, ?_⟩
    intro program accepted never
    have refused := refuses program accepted never
    exact ⟨refused, refuses_runs refused⟩

end Sfsdb.Handlers

import Sfsdb.Protocol

/-!
Streams of protocol items. An `Item` is a value built by one of the value
constructors; a bigdata item carries the payload its caller writes behind it.
The reader expects the same types in the same order and skips every bigdata
payload with its magic byte. Each item's reader consumes what its writer wrote,
whatever lies behind, and the stream follows by induction over the items.
-/

namespace Sfsdb.Protocol

open Posix

inductive Item where
  | invalid
  | header (command : UInt16) (length : UInt32)
  | error (msg : CString)
  | smallint (val : UInt16)
  | integer (val : UInt32)
  | string (str : CString) (sized : str.val.length < 4294967296)
  | assigned (str : Bytes) (sized : str.length < 4294967296)
  | bigdata (payload : Bytes) (sized : payload.length < 4294967296)

namespace Item

def object : Item → Data
  | .invalid => Types.invalid
  | .header command length => Types.header command.toNat length.toNat
  | .error msg => Types.error msg.val
  | .smallint val => Types.smallint val.toNat
  | .integer val => Types.integer val.toNat
  | .string str _ => Types.string str.val
  | .assigned str _ => Types.assignString (Types.blank (.string [])) str
  | .bigdata payload _ => Types.bigdata payload.length

def trailer : Item → Bytes
  | .bigdata payload _ => payload ++ [MAGIC]
  | _ => []

def encode (item : Item) : Bytes := item.object.toBytes ++ item.trailer

end Item

inductive Fields where
  | invalid
  | header (command length : Nat)
  | error (text : Bytes)
  | smallint (val : Nat)
  | integer (val : Nat)
  | string (str : Bytes)
  | bigdata (length : Nat)
  deriving DecidableEq

def Data.fields (d : Data) : Fields :=
  match d.value with
  | .invalid => .invalid
  | .header command => .header command d.length
  | .error msg => .error (cstr msg)
  | .smallint val => .smallint val
  | .integer val => .integer val
  | .string str => .string str
  | .bigdata => .bigdata d.length

def Item.fields : Item → Fields
  | .invalid => .invalid
  | .header command length => .header command.toNat length.toNat
  | .error msg => .error (msg.val.take 255)
  | .smallint val => .smallint val.toNat
  | .integer val => .integer val.toNat
  | .string str _ => .string str.val
  | .assigned str _ => .string str
  | .bigdata payload _ => .bigdata payload.length

/-- Where the reader goes on: it skips the payload of a bigdata item and its magic byte. -/
def skip (object : Data) (pos : Nat) : Nat :=
  if object.type = ids.BIGDATA then pos + object.length + 1 else pos

def readItems (m : Mem) : List Data → Nat → Option (List (Error × Data) × Nat)
  | [], pos => some ([], pos)
  | expected :: rest, pos => do
      let (err, object, pos) ← getType m pos expected
      let (more, pos) ← readItems m rest (skip object pos)
      return ((err, object) :: more, pos)

def encodeItems (items : List Item) : Bytes := items.flatMap Item.encode

/-! ## One item -/

theorem header_read (m : Mem) (pos type length : Nat) (small : type < 65536)
    (sized : length < 4294967296) (front : m.Holds pos (toNets type ++ toNetl length)) :
    toHosts m pos = some (type, pos + 2) ∧ toHostl m (pos + 2) = some (length, pos + 6) := by
  obtain ⟨first, second⟩ := (Mem.holds_append_iff _ _ _ _).mp front
  constructor
  · simpa [Nat.mod_eq_of_lt small] using toHosts_of_holds m pos type first
  · simpa [Nat.mod_eq_of_lt sized] using toHostl_of_holds m (pos + 2) length second

theorem fromBytes_checked (d : Data) (m : Mem) (pos type length next : Nat) (value : Value)
    (small : type < 65536) (sized : length < 4294967296)
    (front : m.Holds pos (toNets type ++ toNetl length))
    (checked : type ≠ ids.HEADER ∧ type ≠ ids.BIGDATA)
    (probe : m (pos + 6 + length) = some MAGIC)
    (read : Data.fromPayload ⟨type, length, d.value⟩ m (pos + 6) = some (value, next)) :
    d.fromBytes m pos = some (true, ⟨type, length, value⟩, next + 1) := by
  obtain ⟨readType, readLength⟩ := header_read m pos type length small sized front
  simp [Data.fromBytes, readType, readLength, checked, probe, read]

theorem fromBytes_unchecked (d : Data) (m : Mem) (pos type length next : Nat) (value : Value)
    (small : type < 65536) (sized : length < 4294967296)
    (front : m.Holds pos (toNets type ++ toNetl length))
    (unchecked : type = ids.HEADER ∨ type = ids.BIGDATA)
    (read : Data.fromPayload ⟨type, length, d.value⟩ m (pos + 6) = some (value, next)) :
    d.fromBytes m pos = some (true, ⟨type, length, value⟩, next) := by
  obtain ⟨readType, readLength⟩ := header_read m pos type length small sized front
  simp [Data.fromBytes, readType, readLength, unchecked, read]

theorem getType_accepted (m : Mem) (pos next : Nat) (expected object : Data)
    (front : m.Holds pos (toNets expected.type)) (small : expected.type < 65536)
    (read : expected.fromBytes m pos = some (true, object, next)) :
    getType m pos expected = some (.ofErrno 0, object, next) := by
  have nextType := toHosts_of_holds m pos expected.type front
  rw [Nat.mod_eq_of_lt small] at nextType
  simp [getType, nextType, read]

theorem cstr_message (msg text more : Bytes) (free : 0 ∉ text)
    (limit : (text ++ more).length ≤ 255) (buffer : msg.length = 256) :
    cstr ((strncpy msg (text ++ more) 255).set text.length 0) = text := by
  -- The message buffer after `strncpy` and the NUL behind the announced length reads as the
  -- announced text.
  have split : strncpy msg (text ++ more) 255 =
      text ++ (more ++ List.replicate (255 - (text ++ more).length) 0 ++ msg.drop 255) := by
    rw [strncpy, List.take_of_length_le limit]
    simp only [List.append_assoc]
  cases tail : more ++ List.replicate (255 - (text ++ more).length) 0 ++ msg.drop 255 with
  | nil =>
      have size := congrArg List.length tail
      simp only [List.length_append, List.length_drop, buffer, List.length_nil] at size
      omega
  | cons b rest =>
      rw [split, tail, List.set_append_right _ _ (Nat.le_refl _), Nat.sub_self, List.set_cons_zero,
        cstr_append _ _ free]
      simp [cstr]

theorem error_payload (msg : Bytes) :
    (Types.error msg).toPayload = (cstr msg).take 255 ++ [MAGIC] := by
  have room : ((cstr msg).take 255).length ≤ 255 := List.length_take_le 255 (cstr msg)
  simp only [Types.error, Data.toPayload, MSG_SIZE, Nat.reduceSub, strncpy, List.drop_replicate,
    Nat.sub_self, List.replicate_zero, List.append_nil, List.take_length]
  rw [List.set_append_right _ _ room, List.take_left]

theorem getType_checked (m : Mem) (pos : Nat) (expected : Data) (content : Bytes) (value : Value)
    (small : expected.type < 65536) (sized : content.length < 4294967296)
    (checked : expected.type ≠ ids.HEADER ∧ expected.type ≠ ids.BIGDATA)
    (holds : m.Holds pos (toNets expected.type ++ toNetl content.length ++ (content ++ [MAGIC])))
    (read : Data.fromPayload ⟨expected.type, content.length, expected.value⟩ m (pos + 6) =
      some (value, pos + 6 + content.length)) :
    getType m pos expected =
      some (.ofErrno 0, ⟨expected.type, content.length, value⟩, pos + (7 + content.length)) := by
  obtain ⟨front, body⟩ := (Mem.holds_append_iff _ _ _ _).mp holds
  obtain ⟨type, _⟩ := (Mem.holds_append_iff _ _ _ _).mp front
  obtain ⟨_, last⟩ := (Mem.holds_append_iff _ _ _ _).mp body
  have probe : m (pos + 6 + content.length) = some MAGIC := ((Mem.holds_cons_iff _ _ _ _).mp last).1
  have accepted := fromBytes_checked expected m pos expected.type content.length _ value small sized
    front checked probe read
  rw [getType_accepted m pos _ expected _ type small accepted]
  congr 3
  omega

theorem getType_unchecked (m : Mem) (pos next : Nat) (expected object : Data)
    (same : object.type = expected.type) (small : expected.type < 65536)
    (sized : object.length < 4294967296)
    (unchecked : expected.type = ids.HEADER ∨ expected.type = ids.BIGDATA)
    (front : m.Holds pos (toNets object.type ++ toNetl object.length))
    (read : Data.fromPayload ⟨object.type, object.length, expected.value⟩ m (pos + 6) =
      some (object.value, next)) :
    getType m pos expected = some (.ofErrno 0, object, next) := by
  have type := ((Mem.holds_append_iff _ _ _ _).mp front).1
  rw [same] at type
  exact getType_accepted m pos next expected object type small
    (fromBytes_unchecked expected m pos object.type object.length next object.value
      (same ▸ small) sized front (same ▸ unchecked) read)

theorem getType_invalid (m : Mem) (pos : Nat)
    (holds : m.Holds pos (toNets ids.INVALID ++ toNetl 0 ++ [MAGIC])) :
    getType m pos (Types.blank .invalid) =
      some (.ofErrno 0, ⟨ids.INVALID, 0, .invalid⟩, pos + 7) :=
  getType_checked m pos (Types.blank .invalid) [] .invalid (by decide) (by decide) (by decide) holds rfl

theorem getType_header (m : Mem) (pos command length : Nat) (small : command < 65536)
    (sized : length < 4294967296)
    (holds : m.Holds pos (toNets ids.HEADER ++ toNetl length ++ toNets command)) :
    getType m pos (Types.blank (.header 0)) =
      some (.ofErrno 0, ⟨ids.HEADER, length, .header command⟩, pos + 8) := by
  obtain ⟨front, body⟩ := (Mem.holds_append_iff _ _ _ _).mp holds
  have read := toHosts_of_holds m (pos + 6) command body
  rw [Nat.mod_eq_of_lt small] at read
  exact getType_unchecked m pos (pos + 8) (Types.blank (.header 0)) ⟨ids.HEADER, length, .header command⟩
    rfl (by decide) sized (Or.inl rfl) front (by simp [Data.fromPayload, Types.blank, read])

theorem getType_smallint (m : Mem) (pos val : Nat) (small : val < 65536)
    (holds : m.Holds pos (toNets ids.SMALLINT ++ toNetl 2 ++ (toNets val ++ [MAGIC]))) :
    getType m pos (Types.blank (.smallint 0)) =
      some (.ofErrno 0, ⟨ids.SMALLINT, 2, .smallint val⟩, pos + 9) := by
  have body := ((Mem.holds_append_iff _ _ _ _).mp holds).2
  have read := toHosts_of_holds m (pos + 6) val ((Mem.holds_append_iff _ _ _ _).mp body).1
  rw [Nat.mod_eq_of_lt small] at read
  exact getType_checked m pos (Types.blank (.smallint 0)) (toNets val) (.smallint val) (by decide)
    (by simp) (by decide) holds (by simp [Data.fromPayload, Types.blank, read])

theorem getType_integer (m : Mem) (pos val : Nat) (small : val < 4294967296)
    (holds : m.Holds pos (toNets ids.INTEGER ++ toNetl 4 ++ (toNetl val ++ [MAGIC]))) :
    getType m pos (Types.blank (.integer 0)) =
      some (.ofErrno 0, ⟨ids.INTEGER, 4, .integer val⟩, pos + 11) := by
  have body := ((Mem.holds_append_iff _ _ _ _).mp holds).2
  have read := toHostl_of_holds m (pos + 6) val ((Mem.holds_append_iff _ _ _ _).mp body).1
  rw [Nat.mod_eq_of_lt small] at read
  exact getType_checked m pos (Types.blank (.integer 0)) (toNetl val) (.integer val) (by decide)
    (by simp) (by decide) holds (by simp [Data.fromPayload, Types.blank, read])

theorem getType_string (m : Mem) (pos : Nat) (str : Bytes) (sized : str.length < 4294967296)
    (holds : m.Holds pos (toNets ids.STRING ++ toNetl str.length ++ (str ++ [MAGIC]))) :
    getType m pos (Types.blank (.string [])) =
      some (.ofErrno 0, ⟨ids.STRING, str.length, .string str⟩, pos + (7 + str.length)) := by
  have body := ((Mem.holds_append_iff _ _ _ _).mp holds).2
  have text := Mem.bytes_of_holds m (pos + 6) str ((Mem.holds_append_iff _ _ _ _).mp body).1
  exact getType_checked m pos (Types.blank (.string [])) str (.string str) (by decide) sized
    (by decide) holds (by simp [Data.fromPayload, Types.blank, text])

theorem getType_bigdata (m : Mem) (pos length : Nat) (sized : length < 4294967296)
    (holds : m.Holds pos (toNets ids.BIGDATA ++ toNetl length)) :
    getType m pos (Types.blank .bigdata) =
      some (.ofErrno 0, ⟨ids.BIGDATA, length, .bigdata⟩, pos + 6) :=
  getType_unchecked m pos (pos + 6) (Types.blank .bigdata) ⟨ids.BIGDATA, length, .bigdata⟩ rfl
    (by decide) sized (Or.inr rfl) holds rfl

theorem fromPayload_error (type length : Nat) (old copied : Bytes) (m : Mem) (pos : Nat)
    (room : length ≤ 255) (read : m.strn pos 255 = some copied) :
    Data.fromPayload ⟨type, length, .error old⟩ m pos =
      some (.error ((strncpy old copied 255).set length 0), pos + length) := by
  have inside : ¬ 255 < length := by omega
  simp [Data.fromPayload, MSG_SIZE, read, inside]

theorem getType_error (m : Mem) (pos : Nat) (text : Bytes) (free : 0 ∉ text)
    (room : text.length ≤ 255)
    (holds : m.Holds pos (toNets ids.ERROR ++ toNetl text.length ++ (text ++ [MAGIC])))
    (readable : (m.strn (pos + 6) 255).isSome) :
    ∃ msg, getType m pos (Types.blank (.error [])) =
        some (.ofErrno 0, ⟨ids.ERROR, text.length, .error msg⟩, pos + (7 + text.length)) ∧
      cstr msg = text := by
  -- The message survives whatever the bounded copy reads behind it.
  have body := ((Mem.holds_append_iff _ _ _ _).mp holds).2
  have front := ((Mem.holds_append_iff _ _ _ _).mp body).1
  obtain ⟨copied, read⟩ := Option.isSome_iff_exists.mp readable
  obtain ⟨more, split⟩ := Mem.strn_of_holds m _ 255 text copied front free room read
  have limit := Mem.strn_length_le m _ 255 copied read
  refine ⟨(strncpy (List.replicate 256 0) copied 255).set text.length 0, ?_, ?_⟩
  · exact getType_checked m pos (Types.blank (.error [])) text _ (by decide)
      (by omega) (by decide) holds (fromPayload_error _ _ _ _ m _ room read)
  · rw [split] at limit ⊢
    exact cstr_message _ text more free limit (List.length_replicate ..)

theorem getType_error_none (m : Mem) (pos : Nat) (text : Bytes) (sized : text.length < 4294967296)
    (holds : m.Holds pos (toNets ids.ERROR ++ toNetl text.length ++ (text ++ [MAGIC])))
    (unreadable : m.strn (pos + 6) 255 = none) : getType m pos (Types.blank (.error [])) = none := by
  obtain ⟨front, body⟩ := (Mem.holds_append_iff _ _ _ _).mp holds
  obtain ⟨type, length⟩ := (Mem.holds_append_iff _ _ _ _).mp front
  have probe := ((Mem.holds_cons_iff _ _ _ _).mp ((Mem.holds_append_iff _ _ _ _).mp body).2).1
  have nextType := toHosts_of_holds m pos ids.ERROR type
  have readLength := (header_read m pos ids.ERROR text.length (by decide) sized front).2
  have lost : Data.fromPayload ⟨ids.ERROR, text.length, (Types.blank (.error [])).value⟩ m (pos + 6) = none := by
    simp only [Data.fromPayload, Types.blank, MSG_SIZE, Nat.reduceSub, unreadable]
    rfl
  have expected : (Types.blank (.error [])).type = ids.ERROR := rfl
  have checked : ¬ (ids.ERROR = ids.HEADER ∨ ids.ERROR = ids.BIGDATA) := by decide
  have same : ids.ERROR % 65536 = ids.ERROR := rfl
  have placed : m (pos + 6 + text.length) = some MAGIC := probe
  simp [getType, nextType, expected, same, Data.fromBytes, readLength, checked, placed, lost]

theorem Item.encode_eq (item : Item) : item.encode =
    toNets item.object.type ++ toNetl item.object.length ++
      (item.object.toPayload ++ item.trailer) := by
  simp [Item.encode, Data.toBytes]

theorem skip_of_checked (object : Data) (pos : Nat) (checked : object.type ≠ ids.BIGDATA) :
    skip object pos = pos := by
  rw [skip, if_neg checked]

theorem getType_item (item : Item) (m : Mem) (pos : Nat)
    (holds : m.Holds pos item.encode) (terminated : m.Terminated (pos + item.encode.length)) :
    ∃ object next, getType m pos (Types.blank item.object.value) =
        some (.ofErrno 0, object, next) ∧
      object.fields = item.fields ∧ skip object next = pos + item.encode.length := by
  have size : item.encode.length = 6 + (item.object.toPayload ++ item.trailer).length := by
    rw [Item.encode_eq]
    simp only [List.length_append, toNets_length, toNetl_length]
  rw [size] at terminated ⊢
  rw [Item.encode_eq] at holds
  cases item with
  | invalid =>
      exact ⟨_, _, getType_invalid m pos holds, rfl, rfl⟩
  | header command length =>
      have c := command.toNat_lt
      have l := length.toNat_lt
      refine ⟨_, _, getType_header m pos command.toNat length.toNat c l ?_, rfl, rfl⟩
      simpa [Item.object, Types.header, Data.toPayload, Item.trailer, Nat.mod_eq_of_lt c,
        Nat.mod_eq_of_lt l] using holds
  | error msg =>
      have free : 0 ∉ msg.val.take 255 := fun member => msg.property (List.mem_of_mem_take member)
      have payload : (Item.error msg).object.toPayload = msg.val.take 255 ++ [MAGIC] := by
        have written := error_payload msg.val
        rwa [cstr_of_free _ msg.property] at written
      have announced : (Item.error msg).object.length = (msg.val.take 255).length := by
        change ((cstr msg.val).take 255).length = _
        rw [cstr_of_free _ msg.property]
      rw [announced, payload] at holds
      rw [payload] at terminated ⊢
      rw [show (Item.error msg).trailer = [] from rfl, List.append_nil] at holds
      obtain ⟨text, read, same⟩ := getType_error m pos (msg.val.take 255) free
        (List.length_take_le 255 _) holds
        (terminated (pos + 6) (by omega) 255)
      refine ⟨_, _, read, ?_, ?_⟩
      · simp [Data.fields, Item.fields, same]
      · rw [skip_of_checked _ _ (by simp [ids.ERROR, ids.BIGDATA])]
        simp only [Item.trailer, List.append_nil, List.length_append, List.length_singleton]
        omega
  | smallint val =>
      have v := val.toNat_lt
      refine ⟨_, _, getType_smallint m pos val.toNat v ?_, rfl, rfl⟩
      simpa [Item.object, Types.smallint, Data.toPayload, Item.trailer, Nat.mod_eq_of_lt v]
        using holds
  | integer val =>
      have v := val.toNat_lt
      refine ⟨_, _, getType_integer m pos val.toNat v ?_, rfl, rfl⟩
      simpa [Item.object, Types.integer, Data.toPayload, Item.trailer, Nat.mod_eq_of_lt v]
        using holds
  | string str sized =>
      refine ⟨_, _, getType_string m pos str.val sized ?_, rfl, ?_⟩
      · simpa [Item.object, Types.string, Data.toPayload, Item.trailer,
          cstr_of_free _ str.property, Nat.mod_eq_of_lt sized] using holds
      · rw [skip_of_checked _ _ (by simp [ids.STRING, ids.BIGDATA])]
        simp only [Item.object, Types.string, Data.toPayload, Item.trailer,
          cstr_of_free _ str.property, List.append_nil, List.length_append, List.length_singleton]
        omega
  | assigned str sized =>
      refine ⟨_, _, getType_string m pos str sized ?_, rfl, ?_⟩
      · simpa [Item.object, Types.assignString, Types.blank, Data.toPayload, Item.trailer,
          Nat.mod_eq_of_lt sized] using holds
      · rw [skip_of_checked _ _ (by simp [ids.STRING, ids.BIGDATA])]
        simp only [Item.object, Types.assignString, Data.toPayload, Item.trailer, List.append_nil,
          List.length_append, List.length_singleton]
        omega
  | bigdata payload sized =>
      obtain ⟨front, _⟩ := (Mem.holds_append_iff _ _ _ _).mp holds
      refine ⟨_, _, getType_bigdata m pos payload.length sized ?_, rfl, ?_⟩
      · simpa [Item.object, Types.bigdata, Nat.mod_eq_of_lt sized] using front
      · simp only [skip, Item.object, Types.bigdata, Data.toPayload, Item.trailer, ↓reduceIte,
          List.nil_append, List.length_append, List.length_singleton]
        omega

/-! ## Streams -/

theorem readItems_encoded (items : List Item) (m : Mem)
    (pos : Nat) (holds : m.Holds pos (encodeItems items))
    (terminated : m.Terminated (pos + (encodeItems items).length)) :
    ∃ objects : List Data, readItems m (items.map fun item => Types.blank item.object.value) pos =
        some (objects.map fun object => (.ofErrno 0, object), pos + (encodeItems items).length) ∧
      objects.map Data.fields = items.map Item.fields := by
  induction items generalizing pos with
  | nil => exact ⟨[], rfl, rfl⟩
  | cons item items ih =>
      simp only [encodeItems, List.flatMap_cons, List.length_append] at holds terminated ih ⊢
      obtain ⟨head, tail⟩ := (Mem.holds_append_iff _ _ _ _).mp holds
      obtain ⟨object, next, read, fields, cursor⟩ := getType_item item m pos head
        (fun p inside => terminated p (by omega))
      obtain ⟨objects, more, rest⟩ := ih (pos + item.encode.length) tail (fun p inside => terminated p (by omega))
      refine ⟨object :: objects, ?_, by simp [fields, rest]⟩
      simp only [List.map_cons, readItems, read, Option.bind_eq_bind, Option.bind_some, cursor, more,
        pure, Option.some.injEq, Prod.mk.injEq, true_and]
      omega

/-- Decoding undoes encoding over a whole stream, in a buffer followed by any
memory and in the character buffer of any string that begins with the stream. -/
theorem encoded_stream_decodes (items : List Item) :
    (∀ behind : Nat → Byte, ∃ objects : List Data,
      readItems (Mem.followedBy (encodeItems items) fun i => some (behind i))
          (items.map fun item => Types.blank item.object.value) 0 =
        some (objects.map fun object => (.ofErrno 0, object), (encodeItems items).length) ∧
      objects.map Data.fields = items.map Item.fields) ∧
    (∀ rest : Bytes, ∃ objects : List Data,
      readItems (Mem.ofList (encodeItems items ++ rest ++ [0]))
          (items.map fun item => Types.blank item.object.value) 0 =
        some (objects.map fun object => (.ofErrno 0, object), (encodeItems items).length) ∧
      objects.map Data.fields = items.map Item.fields) := by
  constructor
  · intro behind
    obtain ⟨objects, read, fields⟩ := readItems_encoded items
      (Mem.followedBy (encodeItems items) fun i => some (behind i)) 0
      (Mem.followedBy_holds _ _) (Mem.total_terminated _ behind _)
    exact ⟨objects, by simpa using read, fields⟩
  · intro rest
    have holds := Mem.ofList_holds (encodeItems items ++ rest ++ [0])
    rw [List.append_assoc, Mem.holds_append_iff, ← List.append_assoc] at holds
    obtain ⟨objects, read, fields⟩ := readItems_encoded items
      (Mem.ofList (encodeItems items ++ rest ++ [0])) 0 holds.1
      (fun p inside => Mem.nul_terminated (encodeItems items ++ rest) p (by
        simp only [List.length_append]
        omega))
    exact ⟨objects, by simpa using read, fields⟩

end Sfsdb.Protocol

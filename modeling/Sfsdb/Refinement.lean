import Mathlib.Data.List.Nodup
import Sfsdb.Shelf

/-!
A volume is an insertion-ordered map from ids to a name and data. `contents`
says which files represent a map; each operation of the volume takes the
representation of a map to that of its abstract result, so a whole run of
operations does, and every query of the volume answers from the map.
-/

namespace Sfsdb.Volume

open Posix Storage

structure Entry where
  id : Bytes
  name : Bytes
  data : Bytes
  deriving DecidableEq

/-- The entries in the order of their stores. -/
abbrev Map := List Entry

namespace Map

def lookup (m : Map) (id : Bytes) : Option Entry := m.find? (·.id = id)

def named (m : Map) (name : Bytes) : List Bytes := (m.filter (·.name = name)).map (·.id)

def add (m : Map) (e : Entry) : Map := m ++ [e]

def erase (m : Map) (id : Bytes) : Map := m.filter (·.id ≠ id)

def contents (m : Map) : Contents
  | .byId, x => (m.lookup x).map fun e => e.name ++ [SEPARATOR]
  | .data, x => (m.lookup x).map fun e => e.data
  | .byName, x => if m.named x = [] then none else some (Records.render SEPARATOR (m.named x))

structure Proper (m : Map) : Prop where
  distinct : (m.map (·.id)).Nodup
  ids : ∀ e ∈ m, PlainName e.id ∧ SEPARATOR ∉ e.id
  names : ∀ e ∈ m, PlainName e.name ∧ SEPARATOR ∉ e.name

variable {m : Map} {e : Entry} {id name : Bytes}

theorem lookup_mem (found : m.lookup id = some e) : e ∈ m ∧ e.id = id :=
  ⟨List.mem_of_find?_eq_some found, by simpa using List.find?_some found⟩

theorem lookup_eq_none_iff : m.lookup id = none ↔ ∀ e ∈ m, e.id ≠ id := by
  simp [lookup]

theorem lookup_add_self (fresh : m.lookup e.id = none) : (m.add e).lookup e.id = some e := by
  have before : List.find? (fun entry => decide (entry.id = e.id)) m = none := fresh
  simp [lookup, add, before]

theorem lookup_add_other (other : id ≠ e.id) : (m.add e).lookup id = m.lookup id := by
  simp [lookup, add, Ne.symm other]

theorem named_add (m : Map) (e : Entry) (name : Bytes) :
    (m.add e).named name = m.named name ++ if e.name = name then [e.id] else [] := by
  by_cases same : e.name = name <;> simp [named, add, same]

theorem lookup_erase_self (m : Map) (id : Bytes) : (m.erase id).lookup id = none := by
  simp [lookup, erase]

theorem lookup_erase_other {gone : Bytes} (other : id ≠ gone) :
    (m.erase gone).lookup id = m.lookup id := by
  unfold lookup erase
  rw [List.find?_filter]
  congr 1
  funext e
  by_cases same : e.id = id <;> simp [same, other]

theorem named_erase (m : Map) (gone name : Bytes) :
    (m.erase gone).named name = (m.named name).filter (· ≠ gone) := by
  simp only [named, erase, List.filter_map, List.filter_filter]
  congr 1
  apply List.filter_congr
  intro e _
  simp [Bool.and_comm]

theorem named_subset (m : Map) (name : Bytes) : ∀ id ∈ m.named name, ∃ e ∈ m, e.id = id ∧ e.name = name := by
  intro id member
  simp only [named, List.mem_map, List.mem_filter, decide_eq_true_eq] at member
  obtain ⟨e, ⟨inside, named⟩, same⟩ := member
  exact ⟨e, inside, same, named⟩

namespace Proper

theorem empty : Proper [] := ⟨by simp, by simp, by simp⟩

theorem add (proper : Proper m) (fresh : m.lookup e.id = none)
    (id : PlainName e.id ∧ SEPARATOR ∉ e.id) (name : PlainName e.name ∧ SEPARATOR ∉ e.name) :
    Proper (m.add e) := by
  refine ⟨?_, ?_, ?_⟩
  · have new : e.id ∉ m.map (·.id) := by
      simpa using lookup_eq_none_iff.mp fresh
    simpa [Map.add, List.nodup_append, proper.distinct] using new
  · intro e' member
    rcases List.mem_append.mp member with old | new
    · exact proper.ids e' old
    · rw [List.mem_singleton.mp new]
      exact id
  · intro e' member
    rcases List.mem_append.mp member with old | new
    · exact proper.names e' old
    · rw [List.mem_singleton.mp new]
      exact name

theorem erase (proper : Proper m) (gone : Bytes) : Proper (m.erase gone) :=
  ⟨proper.distinct.sublist (List.filter_sublist.map _),
    fun e member => proper.ids e (List.mem_filter.mp member).1,
    fun e member => proper.names e (List.mem_filter.mp member).1⟩

theorem nodup_named (proper : Proper m) (name : Bytes) : (m.named name).Nodup :=
  proper.distinct.sublist (List.filter_sublist.map _)

theorem split_named (proper : Proper m) (name : Bytes) :
    Records.split SEPARATOR (Records.render SEPARATOR (m.named name)) = m.named name := by
  apply Records.split_render
  intro id member
  obtain ⟨e, inside, rfl, _⟩ := m.named_subset name id member
  exact (proper.ids e inside).2

theorem unique (proper : Proper m) {e e' : Entry} (left : e ∈ m) (right : e' ∈ m)
    (same : e.id = e'.id) : e = e' :=
  List.inj_on_of_nodup_map proper.distinct left right same

theorem lookup_of_mem (proper : Proper m) (member : e ∈ m) : m.lookup e.id = some e := by
  cases found : m.lookup e.id with
  | none => exact absurd rfl (lookup_eq_none_iff.mp found e member)
  | some e' =>
      obtain ⟨inside, same⟩ := lookup_mem found
      rw [proper.unique inside member same]

end Proper

/-! ## The shelf of a map -/

def shelf (m : Map) : Shelf where
  object id := (m.lookup id).map fun e => (e.name, e.data)
  lists := m.named

theorem contents_shelf (m : Map) : m.shelf.contents = m.contents := by
  funext d x
  cases d with
  | byId | data => simp [Shelf.contents, contents, shelf, Function.comp_def]
  | byName => rfl

theorem shelf_add (fresh : m.lookup e.id = none) : (m.add e).shelf = m.shelf.store e.id e.name e.data := by
  refine Shelf.ext (funext fun x => ?_) (funext fun n => ?_)
  · by_cases own : x = e.id
    · subst own
      simp [shelf, Shelf.store, lookup_add_self fresh]
    · simp [shelf, Shelf.store, own, lookup_add_other own]
  · by_cases own : n = e.name
    · subst own
      simp [shelf, Shelf.store, named_add]
    · simp [shelf, Shelf.store, named_add, own, Ne.symm own]

theorem shelf_erase (proper : Proper m) (id : Bytes) : (m.erase id).shelf = m.shelf.remove id := by
  cases found : m.lookup id with
  | none =>
      have unchanged : m.erase id = m := by
        rw [Map.erase, List.filter_eq_self]
        intro e member
        simpa using Map.lookup_eq_none_iff.mp found e member
      simp [unchanged, Shelf.remove, shelf, found]
  | some e =>
      obtain ⟨member, rfl⟩ := lookup_mem found
      have gone : m.shelf.object e.id = some (e.name, e.data) := by
        simp [shelf, found]
      simp only [Shelf.remove, gone]
      refine Shelf.ext (funext fun x => ?_) (funext fun n => ?_)
      · by_cases own : x = e.id
        · subst own
          simp [shelf, lookup_erase_self]
        · simp [shelf, own, lookup_erase_other own]
      · by_cases own : n = e.name
        · subst own
          simp [shelf, named_erase]
        · have others : (m.erase e.id).named n = m.named n := by
            rw [named_erase, List.filter_eq_self]
            intro id inside
            obtain ⟨e', there, rfl, named⟩ := m.named_subset n id inside
            have different : e'.id ≠ e.id := by
              intro same
              rw [proper.unique there member same] at named
              exact own named.symm
            simpa using different
          simp [shelf, own, others]

theorem Proper.shelf (proper : Proper m) : m.shelf.Proper := by
  have entry_of : ∀ x held, m.shelf.object x = some held → ∃ e ∈ m, e.id = x ∧ (e.name, e.data) = held := by
    intro x held found
    obtain ⟨e, there, same⟩ := Option.map_eq_some_iff.mp found
    exact ⟨e, (lookup_mem there).1, (lookup_mem there).2, same⟩
  refine ⟨fun x held found => ?_, fun x held found => ?_, fun x held found => ?_, fun n x member => ?_⟩
  · obtain ⟨e, member, rfl, _⟩ := entry_of x held found
    exact (proper.ids e member).1
  · obtain ⟨e, member, _, rfl⟩ := entry_of x held found
    exact proper.names e member
  · obtain ⟨e, member, rfl, rfl⟩ := entry_of x held found
    simp only [Map.shelf, named, List.mem_map, List.mem_filter, decide_eq_true_eq]
    exact ⟨e, ⟨member, rfl⟩, rfl⟩
  · obtain ⟨e, inside, rfl, _⟩ := m.named_subset n x member
    exact (proper.ids e inside).2

end Map

/-! ## Runs of operations -/

inductive Op where
  | store (name data : Bytes)
  | remove (id : Bytes)

inductive Answer where
  | stored (result : Except Error Bytes)
  | removed (result : Option (Except Error Unit))

namespace Op

def run : Op → Prog Answer
  | .store name data => do return .stored (← Volume.store name data)
  | .remove id => do return .removed (← Volume.remove id)

def runAll : List Op → Prog (List Answer)
  | [] => return []
  | op :: ops => do
      let answer ← op.run
      let answers ← runAll ops
      return answer :: answers

section Abstract
variable (source : Nat → Bytes)

def apply : Op → Map × Nat → Map × Nat
  | .store name data, (m, n) => (m.add ⟨source n, name, data⟩, n + 1)
  | .remove id, (m, n) => (m.erase id, n)

def answer : Op → Map × Nat → Answer
  | .store _ _, (_, n) => .stored (.ok (source n))
  | .remove id, (m, _) =>
      .removed (some (if (m.lookup id).isSome then .ok () else .error (.ofErrno ENOENT)))

/-- Names are plain and of one line, the id drawn is well formed and fresh. -/
def Admissible : Op → Map × Nat → Prop
  | .store name _, (m, n) =>
      (PlainName name ∧ Storage.SEPARATOR ∉ name) ∧ Uid.Format (source n) ∧
        m.lookup (source n) = none
  | .remove id, _ => PlainName id

def applyAll (ops : List Op) (s : Map × Nat) : Map × Nat :=
  ops.foldl (fun s op => op.apply source s) s

def answers : List Op → Map × Nat → List Answer
  | [], _ => []
  | op :: ops, s => op.answer source s :: answers ops (op.apply source s)

def AdmissibleAll : List Op → Map × Nat → Prop
  | [], _ => True
  | op :: ops, s => op.Admissible source s ∧ AdmissibleAll ops (op.apply source s)

end Abstract

end Op

inductive ReachedBy (allowed : Kernel → Op → Prop) (k₀ : Kernel) : Kernel → Prop where
  | start : ReachedBy allowed k₀ k₀
  | next {p : Pid} {op : Op} {answer : Answer} {k k' : Kernel} : ReachedBy allowed k₀ k →
      allowed k op → Runs p op.run k answer k' → ReachedBy allowed k₀ k'

/-- The kernel state stands for the map. -/
structure Represents (k : Kernel) (s : Map × Nat) : Prop where
  ready : Ready k
  records : record k.files = s.1.contents
  drawn : k.drawn = s.2
  proper : s.1.Proper

section Steps
variable {p : Pid} {k : Kernel} {s : Map × Nat} {op : Op}

theorem Represents.stands (represents : Represents k s) : Stands k s.1.shelf :=
  ⟨represents.ready, represents.records.trans s.1.contents_shelf.symm, represents.proper.shelf⟩

theorem store_refines {name data : Bytes} (represents : Represents k s)
    (admissible : (Op.store name data).Admissible k.source s) :
    ∃ k', Runs p (Op.store name data).run k ((Op.store name data).answer k.source s) k' ∧
      Represents k' ((Op.store name data).apply k.source s) ∧ k'.source = k.source := by
  obtain ⟨m, n⟩ := s
  obtain ⟨name_ok, format, fresh⟩ := admissible
  have drawn : k.source k.drawn = k.source n := by rw [represents.drawn]
  have oneLine := format.free SEPARATOR (by decide)
  obtain ⟨k', run, stands, source, draws⟩ :=
    represents.stands.store (p := p) data name_ok drawn format.plain oneLine
  refine ⟨k', run.bind Program.Runs.done, ⟨stands.ready, ?_, ?_, ?_⟩, source⟩
  · rw [stands.records, ← Map.shelf_add (e := ⟨k.source n, name, data⟩) fresh, Map.contents_shelf]
    rfl
  · rw [draws, represents.drawn]
    rfl
  · exact represents.proper.add fresh ⟨format.plain, oneLine⟩ name_ok

theorem remove_refines {id : Bytes} (represents : Represents k s)
    (admissible : (Op.remove id).Admissible k.source s) :
    ∃ k', Runs p (Op.remove id).run k ((Op.remove id).answer k.source s) k' ∧
      Represents k' ((Op.remove id).apply k.source s) ∧ k'.source = k.source := by
  obtain ⟨m, n⟩ := s
  have answer : (Op.remove id).answer k.source (m, n) =
      .removed (some (if (m.shelf.object id).isSome then .ok () else .error (.ofErrno ENOENT))) := by
    simp [Op.answer, Map.shelf]
  obtain ⟨k', run, stands, source, draws⟩ := represents.stands.remove (p := p) admissible
  refine ⟨k', ?_, ⟨stands.ready, ?_, ?_, represents.proper.erase id⟩, source⟩
  · rw [answer]
    exact run.bind Program.Runs.done
  · rw [stands.records, ← Map.shelf_erase represents.proper, Map.contents_shelf]
    rfl
  · rw [draws, represents.drawn]
    rfl

theorem op_refines (represents : Represents k s) (admissible : op.Admissible k.source s) :
    ∃ k', Runs p op.run k (op.answer k.source s) k' ∧ Represents k' (op.apply k.source s) ∧
      k'.source = k.source := by
  cases op with
  | store name data => exact store_refines represents admissible
  | remove id => exact remove_refines represents admissible

theorem ops_refine (ops : List Op) (represents : Represents k s)
    (admissible : Op.AdmissibleAll k.source ops s) :
    ∃ k', Runs p (Op.runAll ops) k (Op.answers k.source ops s) k' ∧
      Represents k' (Op.applyAll k.source ops s) := by
  -- By induction over the operations, each of which starts where the previous one ended.
  induction ops generalizing k s with
  | nil => exact ⟨k, Program.Runs.done, represents⟩
  | cons op ops ih =>
      obtain ⟨k₁, first, represents₁, source⟩ := op_refines (p := p) represents admissible.1
      obtain ⟨k₂, rest, represents₂⟩ := ih represents₁ (by rw [source]; exact admissible.2)
      rw [source] at rest represents₂
      exact ⟨k₂, first.bind (rest.bind Program.Runs.done), represents₂⟩

end Steps

/-! ## Queries -/

def Entry.object (e : Entry) : Object where
  id := e.id
  name := e.name
  dataPath := DATA_DIR ++ e.id

def readObject (object : Object) (len : Nat) : Prog (Except Error Bytes) := do
  match ← object.get Flstream.RDONLY with
  | .error e => return .error e
  | .ok stream =>
      let (bytes, stream) ← stream.read len
      let _ ← stream.close
      return .ok bytes

structure Serves (p : Pid) (k : Kernel) (m : Map) : Prop where
  getId : ∀ id, PlainName id → ∃ k', Gives p (Volume.getId id) k
    (match m.lookup id with
      | some e => .ok e.object
      | none => .error (.ofErrno ENOENT)) k'
  read : ∀ e ∈ m, ∀ len, ∃ k', Gives p (readObject e.object len) k (.ok (e.data.take len)) k'
  details : ∀ e ∈ m, ∃ k', Gives p e.object.details k (.ok e.data.length) k'
  getName : ∀ name, PlainName name → ∃ k', Gives p (Volume.getName name) k
    (if m.named name = [] then .error (.ofErrno ENOENT) else .ok (m.named name)) k'
  once : ∀ name, (m.named name).Nodup

section Queries
variable {p : Pid} {k : Kernel} {s : Map × Nat}

theorem getId_answers (represents : Represents k s) (id : Bytes) (plain : PlainName id) :
    ∃ k', Runs p (Volume.getId id) k
      (match s.1.lookup id with
        | some e => .ok e.object
        | none => .error (.ofErrno ENOENT)) k' := by
  cases found : s.1.lookup id with
  | none =>
      have absent : record k.files .byId id = none := by
        simp [represents.records, Map.contents, found]
      exact ⟨k, getId_missing represents.ready (Names.of_plain plain) absent⟩
  | some e =>
      obtain ⟨member, rfl⟩ := Map.lookup_mem found
      have line := Records.first_append SEPARATOR e.name [] (represents.proper.names e member).2
      have holds : record k.files .byId e.id = some (e.name ++ [SEPARATOR]) := by
        simp [represents.records, Map.contents, found]
      obtain ⟨k', run, _⟩ := getId_found (p := p) represents.ready (Names.of_plain plain) holds
      rw [line] at run
      exact ⟨k', run⟩

theorem read_answers (represents : Represents k s) (e : Entry) (member : e ∈ s.1) (len : Nat) :
    ∃ k', Runs p (readObject e.object len) k (.ok (e.data.take len)) k' := by
  have found := represents.proper.lookup_of_mem member
  have holds : record k.files .data e.object.id = some e.data := by
    simp [represents.records, Map.contents, Entry.object, found]
  obtain ⟨i, k₁, opens, session⟩ := get_runs (p := p) represents.ready e.object
    (Names.of_plain (represents.proper.ids e member).1) Flstream.RDONLY rfl holds
  have desc : k₁.descOf p k.nextFd = some ⟨p, some i, Flstream.RDONLY, 0⟩ := by
    rw [session.descs]
    exact Function.update_self ..
  have data : k₁.files.data i = e.data := session.data (List.mem_singleton.mpr rfl) holds
  have reads := Flstream.read_runs (e := 0) len desc rfl rfl
  have whole : Flstream.unread k₁ i 0 = e.data := data
  rw [whole] at reads
  generalize at₂ : k₁.setPos k.nextFd _ _ = k₂ at reads
  have desc₂ : ∃ pos, k₂.descOf p k.nextFd = some ⟨p, some i, Flstream.RDONLY, pos⟩ := by
    rw [← at₂, Kernel.descOf_setPos _ rfl, if_pos rfl]
    exact ⟨_, rfl⟩
  obtain ⟨pos, desc₂⟩ := desc₂
  have closes := Flstream.close_runs (e := 0) desc₂ rfl
  exact ⟨_, opens.bind (reads.bind (closes.bind Program.Runs.done))⟩

theorem getName_answers (represents : Represents k s) (name : Bytes) (plain : PlainName name) :
    ∃ k', Runs p (Volume.getName name) k
      (if s.1.named name = [] then .error (.ofErrno ENOENT) else .ok (s.1.named name)) k' := by
  by_cases nothing : s.1.named name = []
  · have absent : record k.files .byName name = none := by
      simp [represents.records, Map.contents, nothing]
    rw [if_pos nothing]
    exact ⟨k, byName_missing represents.ready (Names.of_plain plain) absent⟩
  · have holds : record k.files .byName name =
        some (Records.render SEPARATOR (s.1.named name)) := by
      simp [represents.records, Map.contents, nothing]
    obtain ⟨k', run, _⟩ := byName_found (p := p) represents.ready (Names.of_plain plain) holds
    rw [represents.proper.split_named] at run
    rw [if_neg nothing]
    exact ⟨k', run⟩

theorem represents_serves (represents : Represents k s) : Serves p k s.1 where
  getId id plain := by
    obtain ⟨k', run⟩ := getId_answers (p := p) represents id plain
    exact ⟨k', gives_of_runs run⟩
  read e member len := by
    obtain ⟨k', run⟩ := read_answers (p := p) represents e member len
    exact ⟨k', gives_of_runs run⟩
  details e member := by
    have found := represents.proper.lookup_of_mem member
    have holds : record k.files .data e.id = some e.data := by
      simp [represents.records, Map.contents, found]
    exact ⟨k, gives_of_runs (details_found represents.ready (Names.of_plain (represents.proper.ids e member).1)
      e.object rfl holds)⟩
  getName name plain := by
    obtain ⟨k', run⟩ := getName_answers (p := p) represents name plain
    exact ⟨k', gives_of_runs run⟩
  once := represents.proper.nodup_named

end Queries

/-- Every run of stores and removes on an empty volume answers as the map does
and ends in a state whose three directories hold what represents the map,
nothing else, and whose queries answer from it. -/
theorem volume_refines_map (p : Pid) (k : Kernel) (ops : List Op) (ready : Ready k)
    (empty : record k.files = fun _ _ => none)
    (admissible : Op.AdmissibleAll k.source ops ([], k.drawn)) :
    ∃ k', Gives p (Op.runAll ops) k (Op.answers k.source ops ([], k.drawn)) k' ∧
      Ready k' ∧ record k'.files = (Op.applyAll k.source ops ([], k.drawn)).1.contents ∧
      Serves p k' (Op.applyAll k.source ops ([], k.drawn)).1 := by
  have start : Represents k ([], k.drawn) := by
    refine ⟨ready, ?_, rfl, Map.Proper.empty⟩
    rw [empty]
    funext d x
    cases d <;> rfl
  obtain ⟨k', run, represents⟩ := ops_refine (p := p) ops start admissible
  exact ⟨k', gives_of_runs run, represents.ready, represents.records, represents_serves represents⟩

/-- Ids of a device that yields zeros, at consecutive microseconds. -/
def tick (n : Nat) : Bytes := Uid.get n 0 0 0 0 0 0

/-- Two stores under one name and the removal of the first. -/
theorem volume_refines_map_ticks : ∃ k',
    Gives 1 (Op.runAll [.store (ascii "a") [1], .store (ascii "a") [2], .remove (tick 0)])
      (initKernel tick) [.stored (.ok (tick 0)), .stored (.ok (tick 1)), .removed (some (.ok ()))] k' ∧
    Serves 1 k' [⟨tick 1, ascii "a", [2]⟩] := by
  have name : PlainName (ascii "a") ∧ SEPARATOR ∉ ascii "a" := by decide
  have format : ∀ n, Uid.Format (tick n) := fun n => Uid.get_format n 0 0 0 0 0 0
  have second : Map.lookup [⟨tick 0, ascii "a", [1]⟩] (tick 1) = none := by decide
  obtain ⟨k', run, _, _, serves⟩ := volume_refines_map 1 (initKernel tick)
    [.store (ascii "a") [1], .store (ascii "a") [2], .remove (tick 0)] (initKernel_ready tick)
    (initKernel_empty tick) ⟨⟨name, format 0, rfl⟩, ⟨name, format 1, second⟩, (format 0).plain, trivial⟩
  have left : Map.erase [⟨tick 0, ascii "a", [1]⟩, ⟨tick 1, ascii "a", [2]⟩] (tick 0) =
      [⟨tick 1, ascii "a", [2]⟩] := by
    decide
  have there : (Map.lookup [⟨tick 0, ascii "a", [1]⟩, ⟨tick 1, ascii "a", [2]⟩] (tick 0)).isSome := by
    decide
  refine ⟨k', ?_, left ▸ serves⟩
  have answers : Op.answers tick
      [.store (ascii "a") [1], .store (ascii "a") [2], .remove (tick 0)] ([], 0) =
      [.stored (.ok (tick 0)), .stored (.ok (tick 1)),
        .removed (some (if (Map.lookup [⟨tick 0, ascii "a", [1]⟩, ⟨tick 1, ascii "a", [2]⟩]
          (tick 0)).isSome then .ok () else .error (.ofErrno ENOENT)))] := rfl
  rw [if_pos there] at answers
  exact answers ▸ run

end Sfsdb.Volume

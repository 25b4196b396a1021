import Sfsdb.Uid
import Sfsdb.VolumeRuns

/-!
A volume whose ids may repeat. Nothing in a store looks whether the id it has
drawn is in use: the record and the data of an earlier store are then
overwritten while the indexes list the id once for each of them. A shelf holds
what each id stands for and what each index lists; stores and removals of
one-line names take the files of one shelf to those of the next.
-/

namespace Sfsdb.Volume

open Posix Storage

@[ext] structure Shelf where
  /-- The name and the data behind an id. -/
  object : Bytes → Option (Bytes × Bytes)
  lists : Bytes → List Bytes

namespace Shelf

def empty : Shelf := ⟨fun _ => none, fun _ => []⟩

def store (id name data : Bytes) (s : Shelf) : Shelf where
  object := Function.update s.object id (some (name, data))
  lists := Function.update s.lists name (s.lists name ++ [id])

def remove (id : Bytes) (s : Shelf) : Shelf :=
  match s.object id with
  | none => s
  | some (name, _) =>
      { object := Function.update s.object id none
        lists := Function.update s.lists name ((s.lists name).filter (· ≠ id)) }

def contents (s : Shelf) : Contents
  | .byId, x => (s.object x).map fun held => held.1 ++ [SEPARATOR]
  | .data, x => (s.object x).map fun held => held.2
  | .byName, x => if s.lists x = [] then none else some (Records.render SEPARATOR (s.lists x))

/-- Ids and names are plain names of one line, and what is there is listed. -/
structure Proper (s : Shelf) : Prop where
  ids : ∀ x held, s.object x = some held → PlainName x
  names : ∀ x held, s.object x = some held → PlainName held.1 ∧ SEPARATOR ∉ held.1
  listed : ∀ x held, s.object x = some held → x ∈ s.lists held.1
  lines : ∀ name, ∀ x ∈ s.lists name, SEPARATOR ∉ x

variable {s : Shelf} {id name data : Bytes} {held : Bytes × Bytes}

theorem contents_empty : empty.contents = fun _ _ => none := by
  funext d x
  cases d <;> rfl

theorem contents_store (s : Shelf) (id name data : Bytes) :
    stored name name id data s.contents = (s.store id name data).contents := by
  funext d x
  cases d with
  | byId | data =>
      by_cases own : x = id
      · subst own
        simp [contents, store]
      · simp [contents, store, own]
  | byName =>
      by_cases own : x = name
      · subst own
        by_cases nothing : s.lists x = []
        · simp [contents, store, nothing]
        · simp [contents, store, nothing]
      · simp [contents, store, own]

theorem split_lines (proper : s.Proper) (name : Bytes) :
    Records.split SEPARATOR (Records.render SEPARATOR (s.lists name)) = s.lists name :=
  Records.split_render SEPARATOR _ (proper.lines name)

theorem contents_remove (proper : s.Proper) (found : s.object id = some held) :
    removed held.1 id id (Records.render SEPARATOR (s.lists held.1)) s.contents =
      (s.remove id).contents := by
  have left : unlisted id (Records.render SEPARATOR (s.lists held.1)) =
      (s.lists held.1).filter (· ≠ id) := by
    rw [unlisted, split_lines proper]
  funext d x
  cases d with
  | byId | data =>
      by_cases own : x = id
      · subst own
        simp [contents, remove, found]
      · simp [contents, remove, found, own]
  | byName =>
      by_cases own : x = held.1
      · subst own
        simp only [removed, left, put_self, contents, remove, found, Function.update_self]
      · simp [contents, remove, found, own]

namespace Proper

theorem empty : Shelf.empty.Proper where
  ids x held found := by cases found
  names x held found := by cases found
  listed x held found := by cases found
  lines name x member := by cases member

theorem store (proper : s.Proper) (plainId : PlainName id) (freeId : SEPARATOR ∉ id)
    (plain : PlainName name ∧ SEPARATOR ∉ name) : (s.store id name data).Proper := by
  have cases_of : ∀ x held, (s.store id name data).object x = some held →
      x = id ∧ held = (name, data) ∨ x ≠ id ∧ s.object x = some held := by
    intro x held found
    by_cases own : x = id
    · subst own
      exact Or.inl ⟨rfl, by simpa [Shelf.store] using found.symm⟩
    · exact Or.inr ⟨own, by simpa [Shelf.store, own] using found⟩
  have grown : ∀ n x, x ∈ (s.store id name data).lists n ↔ x ∈ s.lists n ∨ n = name ∧ x = id := by
    intro n x
    by_cases own : n = name
    · subst own
      simp [Shelf.store]
    · simp [Shelf.store, own]
  refine ⟨fun x held found => ?_, fun x held found => ?_, fun x held found => ?_, fun n x member => ?_⟩
  · rcases cases_of x held found with ⟨rfl, _⟩ | ⟨_, before⟩
    · exact plainId
    · exact proper.ids x held before
  · rcases cases_of x held found with ⟨_, rfl⟩ | ⟨_, before⟩
    · exact plain
    · exact proper.names x held before
  · rw [grown]
    rcases cases_of x held found with ⟨rfl, rfl⟩ | ⟨_, before⟩
    · exact Or.inr ⟨rfl, rfl⟩
    · exact Or.inl (proper.listed x held before)
  · rcases (grown n x).mp member with before | ⟨_, rfl⟩
    · exact proper.lines n x before
    · exact freeId

theorem remove (proper : s.Proper) (id : Bytes) : (s.remove id).Proper := by
  cases found : s.object id with
  | none =>
      rw [show s.remove id = s by simp [Shelf.remove, found]]
      exact proper
  | some gone =>
      have before : ∀ x held, (s.remove id).object x = some held → x ≠ id ∧ s.object x = some held := by
        intro x held there
        by_cases own : x = id
        · subst own
          simp [Shelf.remove, found] at there
        · exact ⟨own, by simpa [Shelf.remove, found, own] using there⟩
      have left : ∀ n x, x ∈ (s.remove id).lists n ↔ x ∈ s.lists n ∧ (n = gone.1 → x ≠ id) := by
        intro n x
        by_cases own : n = gone.1
        · subst own
          simp [Shelf.remove, found]
        · simp [Shelf.remove, found, own]
      refine ⟨fun x held there => ?_, fun x held there => ?_, fun x held there => ?_, fun n x member => ?_⟩
      · exact proper.ids x held (before x held there).2
      · exact proper.names x held (before x held there).2
      · obtain ⟨other, there⟩ := before x held there
        exact (left held.1 x).mpr ⟨proper.listed x held there, fun _ => other⟩
      · exact proper.lines n x ((left n x).mp member).1

end Proper
end Shelf

structure Stands (k : Kernel) (s : Shelf) : Prop where
  ready : Ready k
  records : record k.files = s.contents
  proper : s.Proper

section Steps
variable {p : Pid} {k : Kernel} {s : Shelf} {id name : Bytes} {held : Bytes × Bytes}

theorem Stands.start (source : Nat → Bytes) : Stands (initKernel source) Shelf.empty :=
  ⟨initKernel_ready source, (initKernel_empty source).trans Shelf.contents_empty.symm, Shelf.Proper.empty⟩

theorem Stands.record_byId (stands : Stands k s) (id : Bytes) :
    record k.files .byId id = (s.object id).map fun held => held.1 ++ [SEPARATOR] := by
  rw [stands.records]
  rfl

theorem Stands.record_data (stands : Stands k s) (id : Bytes) :
    record k.files .data id = (s.object id).map fun held => held.2 := by
  rw [stands.records]
  rfl

theorem Stands.record_byName (stands : Stands k s) (found : s.object id = some held) :
    record k.files .byName held.1 = some (Records.render SEPARATOR (s.lists held.1)) := by
  rw [stands.records]
  exact if_neg (List.ne_nil_of_mem (stands.proper.listed id held found))

theorem Stands.first_line (stands : Stands k s) (found : s.object id = some held) :
    Records.first SEPARATOR (held.1 ++ [SEPARATOR]) = held.1 :=
  Records.first_append SEPARATOR held.1 [] (stands.proper.names id held found).2

theorem Stands.store (stands : Stands k s) (data : Bytes) (plain : PlainName name ∧ SEPARATOR ∉ name)
    (drawn : k.source k.drawn = id) (plainId : PlainName id) (freeId : SEPARATOR ∉ id) :
    ∃ k', Runs p (Volume.store name data) k (.ok id) k' ∧ Stands k' (s.store id name data) ∧
      k'.source = k.source ∧ k'.drawn = k.drawn + 1 := by
  obtain ⟨k', run, change⟩ := store_runs (p := p) stands.ready data (Names.of_plain plain.1) drawn plainId
  refine ⟨k', run, ⟨change.ready, ?_, stands.proper.store plainId freeId plain⟩, change.source, change.drawn⟩
  rw [change.turns.records, stands.records]
  exact s.contents_store id name data

theorem Stands.remove (stands : Stands k s) (plain : PlainName id) :
    ∃ k', Runs p (Volume.remove id) k
        (some (if (s.object id).isSome then .ok () else .error (.ofErrno ENOENT))) k' ∧
      Stands k' (s.remove id) ∧ k'.source = k.source ∧ k'.drawn = k.drawn := by
  cases found : s.object id with
  | none =>
      have absent : record k.files .byId id = none := by
        simp [stands.record_byId, found]
      refine ⟨k, remove_missing stands.ready (Names.of_plain plain) absent, ?_, rfl, rfl⟩
      rw [show s.remove id = s by simp [Shelf.remove, found]]
      exact stands
  | some held =>
      have line := stands.first_line found
      have holds : record k.files .byId id = some (held.1 ++ [SEPARATOR]) := by
        simp [stands.record_byId, found]
      obtain ⟨k', run, change⟩ := remove_runs (p := p) stands.ready (Names.of_plain plain) holds
        (by rw [line]; exact Names.of_plain (stands.proper.names id held found).1)
        (stands.record_byName found)
      refine ⟨k', run, ⟨change.ready, ?_, stands.proper.remove id⟩, change.source, change.drawn⟩
      rw [change.turns.records, stands.records]
      exact Shelf.contents_remove stands.proper found

end Steps
end Sfsdb.Volume

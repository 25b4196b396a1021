import Sfsdb.Records

/-!
The words of a text: what stands between delimiters, empty fields left out.
`IsRun` speaks of places in the text, without a word about fields, and
`words_areRuns` says that the words are the maximal stretches free of the
delimiter, all of them and from left to right.
-/

namespace Sfsdb.Words

variable {α : Type}

/-- From `i` up to `j` stands no delimiter, and the stretch cannot be made longer. -/
structure IsRun (delim : α) (text : List α) (i j : Nat) : Prop where
  nonempty : i < j
  inside : j ≤ text.length
  free : ∀ n, i ≤ n → n < j → text[n]? ≠ some delim
  starts : i = 0 ∨ text[i - 1]? = some delim
  ends : j = text.length ∨ text[j]? = some delim

def slice (text : List α) (span : Nat × Nat) : List α := (text.take span.2).drop span.1

/-- `found` are the maximal stretches of `text`, each once and from left to right. -/
def AreRuns (delim : α) (text : List α) (found : List (List α)) : Prop :=
  ∃ spans : List (Nat × Nat), spans.Pairwise (fun left right => left.2 < right.1) ∧
    (∀ i j, (i, j) ∈ spans ↔ IsRun delim text i j) ∧ found = spans.map (slice text)

/-! ## Maximal stretches -/

theorem getElem?_front (delim : α) (field rest : List α) {n : Nat} (inside : n < field.length) :
    (field ++ delim :: rest)[n]? = field[n]? :=
  List.getElem?_append_left inside

theorem getElem?_delim (delim : α) (field rest : List α) :
    (field ++ delim :: rest)[field.length]? = some delim := by
  simp

theorem getElem?_behind (delim : α) (field rest : List α) (n : Nat) :
    (field ++ delim :: rest)[n + (field.length + 1)]? = rest[n]? := by
  have past : n + (field.length + 1) - field.length = n + 1 := by omega
  rw [List.getElem?_append_right (by omega), past, List.getElem?_cons_succ]

theorem getElem?_of_free {delim : α} {field : List α} (free : delim ∉ field) (n : Nat) :
    field[n]? ≠ some delim := by
  intro found
  exact free (List.mem_of_getElem? found)

theorem isRun_last (delim : α) (field : List α) (free : delim ∉ field) (i j : Nat) :
    IsRun delim field i j ↔ field ≠ [] ∧ i = 0 ∧ j = field.length := by
  constructor
  · intro run
    have start := run.starts.resolve_right (getElem?_of_free free _)
    have stop := run.ends.resolve_right (getElem?_of_free free _)
    have some := run.nonempty
    constructor
    · apply List.length_pos_iff.mp
      omega
    · exact ⟨start, stop⟩
  · rintro ⟨some, rfl, rfl⟩
    exact ⟨List.length_pos_iff.mpr some, Nat.le_refl _, fun n _ _ => getElem?_of_free free n,
      Or.inl rfl, Or.inl rfl⟩

theorem isRun_behind (delim : α) (field rest : List α) (i j : Nat) :
    IsRun delim (field ++ delim :: rest) (i + (field.length + 1)) (j + (field.length + 1)) ↔
      IsRun delim rest i j := by
  have place := getElem?_behind delim field rest
  have size : (field ++ delim :: rest).length = rest.length + (field.length + 1) := by
    simp only [List.length_append, List.length_cons]
    omega
  -- the place in front of the rest holds the delimiter, like any other place in front of a stretch
  have before : (field ++ delim :: rest)[i + (field.length + 1) - 1]? = some delim ↔
      i = 0 ∨ rest[i - 1]? = some delim := by
    cases i with
    | zero => simp
    | succ i =>
        have earlier : i + 1 + (field.length + 1) - 1 = i + (field.length + 1) := by omega
        rw [earlier, place]
        simp
  constructor
  · intro run
    have nonempty := run.nonempty
    have inside := run.inside
    constructor
    · omega
    · omega
    · intro n from_i to_j
      have here := run.free (n + (field.length + 1)) (by omega) (by omega)
      rwa [place] at here
    · rcases run.starts with start | behind
      · omega
      · exact before.mp behind
    · rcases run.ends with stop | behind
      · exact Or.inl (by omega)
      · exact Or.inr (by rwa [place] at behind)
  · intro run
    have nonempty := run.nonempty
    have inside := run.inside
    constructor
    · omega
    · omega
    · intro n from_i to_j
      have shifted : n - (field.length + 1) + (field.length + 1) = n := by omega
      rw [← shifted, place]
      exact run.free _ (by omega) (by omega)
    · exact Or.inr (before.mpr run.starts)
    · rcases run.ends with stop | behind
      · exact Or.inl (by omega)
      · exact Or.inr (by rwa [place])

theorem isRun_front (delim : α) (field rest : List α) (free : delim ∉ field) {i : Nat} (j : Nat)
    (front : i ≤ field.length) :
    IsRun delim (field ++ delim :: rest) i j ↔ field ≠ [] ∧ i = 0 ∧ j = field.length := by
  have place := fun {n} => getElem?_front (n := n) delim field rest
  have other := getElem?_of_free free
  constructor
  · intro run
    have some := run.nonempty
    -- the delimiter behind the field cannot belong to the stretch
    have short : j ≤ field.length := by
      by_contra long
      exact run.free field.length front (by omega) (getElem?_delim delim field rest)
    have start : i = 0 := by
      rcases run.starts with start | before
      · exact start
      · rw [place (by omega)] at before
        exact absurd before (other _)
    have stop : j = field.length := by
      rcases run.ends with stop | behind
      · have size : (field ++ delim :: rest).length = field.length + 1 + rest.length := by
          simp only [List.length_append, List.length_cons]
          omega
        omega
      · by_contra inner
        rw [place (by omega)] at behind
        exact other _ behind
    exact ⟨List.length_pos_iff.mp (by omega), start, stop⟩
  · rintro ⟨some, rfl, rfl⟩
    constructor
    · exact List.length_pos_iff.mpr some
    · simp
    · intro n _ inner
      rw [place inner]
      exact other n
    · exact Or.inl rfl
    · exact Or.inr (getElem?_delim delim field rest)

theorem isRun_next (delim : α) (field rest : List α) (free : delim ∉ field) (i j : Nat) :
    IsRun delim (field ++ delim :: rest) i j ↔
      (field ≠ [] ∧ i = 0 ∧ j = field.length) ∨
        (field.length + 1 ≤ i ∧
          IsRun delim rest (i - (field.length + 1)) (j - (field.length + 1))) := by
  by_cases front : i ≤ field.length
  · rw [isRun_front delim field rest free j front]
    constructor
    · exact Or.inl
    · rintro (whole | ⟨behind, _⟩)
      · exact whole
      · omega
  · have behind := isRun_behind delim field rest (i - (field.length + 1)) (j - (field.length + 1))
    have from_i : i - (field.length + 1) + (field.length + 1) = i := by omega
    rw [from_i] at behind
    constructor
    · intro run
      have nonempty := run.nonempty
      have to_j : j - (field.length + 1) + (field.length + 1) = j := by omega
      rw [to_j] at behind
      exact Or.inr ⟨by omega, behind.mp run⟩
    · rintro (⟨_, start, _⟩ | ⟨_, run⟩)
      · omega
      · have nonempty := run.nonempty
        have to_j : j - (field.length + 1) + (field.length + 1) = j := by omega
        rw [to_j] at behind
        exact behind.mpr run

def shift (n : Nat) (span : Nat × Nat) : Nat × Nat := (span.1 + n, span.2 + n)

theorem mem_shift (n : Nat) (spans : List (Nat × Nat)) (i j : Nat) :
    (i, j) ∈ spans.map (shift n) ↔ n ≤ i ∧ n ≤ j ∧ (i - n, j - n) ∈ spans := by
  constructor
  · intro member
    rcases List.mem_map.mp member with ⟨⟨a, b⟩, old, same⟩
    cases same
    refine ⟨by omega, by omega, ?_⟩
    simpa using old
  · rintro ⟨left, right, old⟩
    refine List.mem_map.mpr ⟨_, old, ?_⟩
    simp only [shift, Prod.mk.injEq]
    omega

theorem slice_shift (delim : α) (field rest : List α) (span : Nat × Nat) :
    slice (field ++ delim :: rest) (shift (field.length + 1) span) = slice rest span := by
  have split : field ++ delim :: rest = (field ++ [delim]) ++ rest := by simp
  have size : (field ++ [delim]).length = field.length + 1 := by simp
  simp only [slice, shift]
  rw [split, Nat.add_comm span.2, Nat.add_comm span.1, ← size, List.take_length_add_append,
    List.drop_length_add_append]

/-! ## Texts from the left -/

variable [DecidableEq α]

def words (delim : α) (text : List α) : List (List α) := (Records.split delim text).filter (· ≠ [])

theorem field_induction (delim : α) {motive : List α → Prop}
    (last : ∀ field, delim ∉ field → motive field)
    (next : ∀ field rest, delim ∉ field → motive rest → motive (field ++ delim :: rest))
    (text : List α) : motive text := by
  -- A text is free of the delimiter, or it goes on behind its first one.
  generalize size : text.length = n
  induction n using Nat.strong_induction_on generalizing text with
  | _ n ih =>
      by_cases present : delim ∈ text
      · have whole := Records.first_after delim text present
        have shorter : (Records.after delim text).length < n := by
          have count := Records.length_sub_after delim text present
          omega
        rw [← whole]
        exact next _ _ (Records.first_free delim text) (ih _ shorter _ rfl)
      · exact last text present

def ofField (field : List α) : List (List α) := if field = [] then [] else [field]

theorem words_next (delim : α) (field rest : List α) (free : delim ∉ field) :
    words delim (field ++ delim :: rest) = ofField field ++ words delim rest := by
  rw [words, Records.split_append delim field rest free]
  by_cases empty : field = [] <;> simp [empty, words, ofField]

theorem words_last (delim : α) (field : List α) (free : delim ∉ field) :
    words delim field = ofField field := by
  by_cases empty : field = []
  · subst empty
    rfl
  · rw [words, Records.split_of_free delim field free empty]
    simp [empty, ofField]

theorem words_eq_nil_iff (delim : α) (text : List α) :
    words delim text = [] ↔ ∀ x ∈ text, x = delim := by
  have blank : ∀ field : List α, delim ∉ field → (ofField field = [] ↔ ∀ x ∈ field, x = delim) := by
    intro field free
    cases field with
    | nil => simp [ofField]
    | cons x field =>
        have other : x ≠ delim := Ne.symm (List.ne_of_not_mem_cons free)
        simp [ofField, other]
  induction text using field_induction delim with
  | last field free =>
      rw [words_last delim field free]
      exact blank field free
  | next field rest free ih =>
      have tail : words delim rest = [] ↔ ∀ x ∈ rest, x = delim := ih
      rw [words_next delim field rest free, List.append_eq_nil_iff, blank field free, tail,
        List.forall_mem_append, List.forall_mem_cons]
      simp

theorem words_areRuns (delim : α) (text : List α) : AreRuns delim text (words delim text) := by
  induction text using field_induction delim with
  | last field free =>
      rw [words_last delim field free]
      by_cases empty : field = []
      · refine ⟨[], List.Pairwise.nil, fun i j => ?_, by simp [ofField, empty]⟩
        rw [isRun_last delim field free]
        simp [empty]
      · refine ⟨[(0, field.length)], List.pairwise_singleton _ _, fun i j => ?_, ?_⟩
        · simp [isRun_last delim field free, empty]
        · simp [ofField, empty, slice]
  | next field rest free ih =>
      rcases ih with ⟨spans, ordered, all, found⟩
      rw [words_next delim field rest free]
      have behind : ((spans.map (shift (field.length + 1))).map (slice (field ++ delim :: rest))) =
          words delim rest := by
        rw [List.map_map, found]
        exact List.map_congr_left fun span _ => slice_shift delim field rest span
      have later : (spans.map (shift (field.length + 1))).Pairwise (fun left right => left.2 < right.1) := by
        rw [List.pairwise_map]
        exact ordered.imp fun before => by simpa [shift] using before
      have places : ∀ i j, (i, j) ∈ spans.map (shift (field.length + 1)) ↔
          field.length + 1 ≤ i ∧ IsRun delim rest (i - (field.length + 1)) (j - (field.length + 1)) := by
        intro i j
        rw [mem_shift, all]
        constructor
        · rintro ⟨left, _, run⟩
          exact ⟨left, run⟩
        · rintro ⟨left, run⟩
          have := run.nonempty
          exact ⟨left, by omega, run⟩
      by_cases empty : field = []
      · refine ⟨_, later, fun i j => ?_, by rw [behind, ofField, if_pos empty, List.nil_append]⟩
        rw [places, isRun_next delim field rest free]
        simp [empty]
      · refine ⟨(0, field.length) :: spans.map (shift (field.length + 1)),
          List.pairwise_cons.mpr ⟨fun span member => ?_, later⟩, fun i j => ?_, ?_⟩
        · have start := ((places span.1 span.2).mp member).1
          exact start
        · rw [List.mem_cons, places, isRun_next delim field rest free]
          simp [empty]
        · rw [List.map_cons, behind]
          simp [ofField, empty, slice]

end Sfsdb.Words

import Mathlib.Data.List.TakeWhile
import Mathlib.Tactic.Common

/-!
Records separated by a delimiter. `first` is what a reader positioned at the
start of `text` obtains, `after` is what it leaves unread, and `split` is the
list a reader collects by repeating this until nothing is left. A final
record may lack its delimiter; text that ends with a delimiter does not begin
an empty record behind it.
-/

namespace Sfsdb.Records

variable {α : Type}

/-- Every record followed by the delimiter. -/
def render (delim : α) (records : List (List α)) : List α :=
  records.flatMap fun record => record ++ [delim]

@[simp] theorem render_nil (delim : α) : render delim [] = [] := rfl

@[simp] theorem render_cons (delim : α) (record : List α) (records : List (List α)) :
    render delim (record :: records) = record ++ delim :: render delim records := by
  simp [render]

@[simp] theorem render_append (delim : α) (left right : List (List α)) :
    render delim (left ++ right) = render delim left ++ render delim right := by
  simp [render]

theorem render_getLast? (delim : α) (records : List (List α)) (some : records ≠ []) :
    (render delim records).getLast? = .some delim := by
  obtain ⟨front, last, rfl⟩ := List.eq_nil_or_concat records |>.resolve_left some
  simp

theorem render_filter_length (delim : α) (keep : List α → Bool) (records : List (List α)) :
    (render delim (records.filter keep)).length ≤ (render delim records).length := by
  induction records with
  | nil => rfl
  | cons record records ih =>
      by_cases kept : keep record = true
      · simpa [kept] using ih
      · simp only [List.filter_cons, kept, Bool.false_eq_true, ↓reduceIte, render_cons,
          List.length_append, List.length_cons]
        omega

variable [DecidableEq α]

def first (delim : α) (text : List α) : List α := text.takeWhile (· ≠ delim)

def after (delim : α) (text : List α) : List α := (text.dropWhile (· ≠ delim)).tail

def split (delim : α) : List α → List (List α)
  | [] => []
  | x :: rest =>
      if x = delim then [] :: split delim rest
      else match split delim rest with
        | [] => [[x]]
        | record :: records => (x :: record) :: records

theorem split_eq_nil_iff (delim : α) (text : List α) : split delim text = [] ↔ text = [] := by
  cases text with
  | nil => simp [split]
  | cons x rest =>
      simp only [split, reduceCtorEq, iff_false]
      split
      · simp
      · split <;> simp

theorem first_of_free (delim : α) (record : List α) (free : delim ∉ record) :
    first delim record = record := by
  apply List.takeWhile_eq_self_iff.mpr
  intro x member
  simp only [decide_eq_true_eq]
  rintro rfl
  exact free member

theorem first_through (delim : α) (front text : List α) (free : delim ∉ front) :
    first delim (front ++ text) = front ++ first delim text := by
  induction front with
  | nil => rfl
  | cons x rest ih =>
      simp only [List.mem_cons, not_or] at free
      simp only [first, ne_eq, List.cons_append] at ih ⊢
      rw [List.takeWhile_cons_of_pos (by simpa using Ne.symm free.1), ih free.2]

theorem after_through (delim : α) (front text : List α) (free : delim ∉ front) :
    after delim (front ++ text) = after delim text := by
  induction front with
  | nil => rfl
  | cons x rest ih =>
      simp only [List.mem_cons, not_or] at free
      simp only [after, ne_eq, List.cons_append] at ih ⊢
      rw [List.dropWhile_cons_of_pos (by simpa using Ne.symm free.1), ih free.2]

theorem first_append (delim : α) (record text : List α) (free : delim ∉ record) :
    first delim (record ++ delim :: text) = record := by
  rw [first_through delim record _ free]
  simp [first]

theorem after_append (delim : α) (record text : List α) (free : delim ∉ record) :
    after delim (record ++ delim :: text) = text := by
  rw [after_through delim record _ free]
  simp [after]

theorem findIdx?_eq (delim : α) (text : List α) :
    text.findIdx? (· = delim) = if delim ∈ text then some (first delim text).length else none := by
  induction text with
  | nil => simp
  | cons x rest ih =>
      rw [List.findIdx?_cons, ih]
      by_cases hit : x = delim
      · simp [hit, first]
      · have later : (delim ∈ x :: rest) ↔ delim ∈ rest := by
          simp [Ne.symm hit]
        simp only [hit, decide_false, Bool.false_eq_true, ↓reduceIte, later]
        by_cases present : delim ∈ rest <;> simp [present, first, hit]

theorem take_first (delim : α) (text : List α) :
    text.take (first delim text).length = first delim text :=
  List.prefix_iff_eq_take.mp (List.takeWhile_prefix _) |>.symm

theorem after_of_free (delim : α) (record : List α) (free : delim ∉ record) :
    after delim record = [] := by
  have whole := first_of_free delim record free
  unfold first at whole
  unfold after
  rw [List.dropWhile_eq_nil_iff.mpr (List.takeWhile_eq_self_iff.mp whole)]
  rfl

theorem first_free (delim : α) (text : List α) : delim ∉ first delim text := by
  intro member
  have := List.mem_takeWhile_imp member
  simp at this

theorem first_subset (delim : α) (text : List α) : ∀ x ∈ first delim text, x ∈ text :=
  fun _ member => List.takeWhile_subset _ member

theorem first_after (delim : α) (text : List α) (present : delim ∈ text) :
    first delim text ++ delim :: after delim text = text := by
  induction text with
  | nil => simp at present
  | cons x rest ih =>
      by_cases hit : x = delim
      · subst hit
        simp [first, after]
      · have later : delim ∈ rest := by
          rcases List.mem_cons.mp present with same | later
          · exact absurd same.symm hit
          · exact later
        have tail := ih later
        simp only [first, after, ne_eq] at tail ⊢
        rw [List.takeWhile_cons_of_pos (by simpa using hit),
          List.dropWhile_cons_of_pos (by simpa using hit), List.cons_append, tail]

theorem first_within (delim : α) (front text : List α) (present : delim ∈ front) :
    first delim (front ++ text) = first delim front := by
  conv_lhs => rw [← first_after delim front present]
  rw [List.append_assoc, List.cons_append, first_append delim _ _ (first_free delim front)]

theorem first_line (delim : α) (record : List α) :
    first delim (record ++ [delim]) = first delim record := by
  by_cases present : delim ∈ record
  · exact first_within delim record [delim] present
  · rw [first_append delim record [] present, first_of_free delim record present]

theorem first_comm (delim delim' : α) (text : List α) :
    first delim (first delim' text) = first delim' (first delim text) := by
  simp only [first, List.takeWhile_takeWhile, and_comm]

theorem length_sub_after (delim : α) (text : List α) (present : delim ∈ text) :
    text.length - (after delim text).length = (first delim text).length + 1 := by
  have whole := congrArg List.length (first_after delim text present)
  simp only [List.length_append, List.length_cons] at whole
  omega

theorem split_cons_eq (delim : α) (x : α) (rest : List α) :
    split delim (x :: rest) = first delim (x :: rest) :: split delim (after delim (x :: rest)) := by
  induction rest generalizing x with
  | nil =>
      by_cases hit : x = delim <;> simp [split, first, after, hit]
  | cons y rest ih =>
      by_cases hit : x = delim
      · simp [split, first, after, hit]
      · have tail := ih y
        have next : first delim (x :: y :: rest) = x :: first delim (y :: rest) := by
          simp [first, hit]
        have left : after delim (x :: y :: rest) = after delim (y :: rest) := by
          simp [after, hit]
        rw [next, left, split, if_neg hit, tail]

/-- A reader takes the first record and goes on behind it. -/
theorem split_eq (delim : α) (text : List α) (remains : text ≠ []) :
    split delim text = first delim text :: split delim (after delim text) := by
  cases text with
  | nil => exact absurd rfl remains
  | cons x rest => exact split_cons_eq delim x rest

theorem split_append (delim : α) (record text : List α) (free : delim ∉ record) :
    split delim (record ++ delim :: text) = record :: split delim text := by
  rw [split_eq _ _ (by simp), first_append _ _ _ free, after_append _ _ _ free]

theorem split_of_free (delim : α) (record : List α) (free : delim ∉ record)
    (remains : record ≠ []) : split delim record = [record] := by
  rw [split_eq _ _ remains, first_of_free _ _ free, after_of_free _ _ free]
  rfl

theorem split_render_append (delim : α) (records : List (List α)) (text : List α)
    (free : ∀ record ∈ records, delim ∉ record) :
    split delim (render delim records ++ text) = records ++ split delim text := by
  induction records with
  | nil => simp
  | cons record records ih =>
      have tail := ih fun r member => free r (List.mem_cons_of_mem record member)
      rw [render_cons, List.append_assoc, List.cons_append,
        split_append _ _ _ (free record List.mem_cons_self), tail, List.cons_append]

/-- Reading back what was written returns exactly the records, empty ones included. -/
theorem split_render (delim : α) (records : List (List α))
    (free : ∀ record ∈ records, delim ∉ record) :
    split delim (render delim records) = records := by
  simpa [split] using split_render_append delim records [] free

theorem split_free (delim : α) (text : List α) : ∀ record ∈ split delim text, delim ∉ record := by
  induction text with
  | nil => simp [split]
  | cons x rest ih =>
      intro record member
      simp only [split] at member
      by_cases hit : x = delim
      · simp only [hit, ↓reduceIte, List.mem_cons] at member
        rcases member with same | later
        · simp [same]
        · exact ih record later
      · simp only [hit, ↓reduceIte] at member
        cases tail : split delim rest with
        | nil =>
            simp only [tail, List.mem_singleton] at member
            simpa [member] using Ne.symm hit
        | cons head records =>
            simp only [tail, List.mem_cons] at member ih
            rcases member with same | later
            · subst same
              simpa using ⟨Ne.symm hit, ih head (Or.inl rfl)⟩
            · exact ih record (Or.inr later)

theorem after_suffix (delim : α) (text : List α) : after delim text <:+ text :=
  (List.tail_suffix _).trans (List.dropWhile_suffix _)

theorem after_length_le (delim : α) (text : List α) :
    (after delim text).length ≤ text.length :=
  (after_suffix delim text).length_le

theorem drop_after (delim : α) (text : List α) :
    text.drop (text.length - (after delim text).length) = after delim text :=
  (List.suffix_iff_eq_drop.mp (after_suffix delim text)).symm

theorem after_length_lt (delim : α) (text : List α) (remains : text ≠ []) :
    (after delim text).length < text.length := by
  -- What remains unread is shorter, so repeated reading ends.
  by_cases present : delim ∈ text
  · have whole := congrArg List.length (first_after delim text present)
    simp only [List.length_append, List.length_cons] at whole
    omega
  · rw [after_of_free _ _ present]
    exact List.length_pos_iff.mpr remains

theorem render_split (delim : α) (text : List α) : render delim (split delim text) =
    if text = [] ∨ text.getLast? = some delim then text else text ++ [delim] := by
  -- Writing what was read closes the last record.
  induction text with
  | nil => rfl
  | cons x rest ih =>
      have last : rest ≠ [] → (x :: rest).getLast? = rest.getLast? := by
        intro remains
        rw [List.getLast?_cons_of_ne_nil remains]
      by_cases hit : x = delim
      · subst hit
        rw [split, if_pos rfl, render_cons, ih]
        by_cases remains : rest = []
        · simp [remains]
        · rw [last remains]
          simp only [remains, false_or, reduceCtorEq]
          split <;> rfl
      · rw [split, if_neg hit]
        cases records : split delim rest with
        | nil =>
            have ends : rest = [] := (split_eq_nil_iff delim rest).mp records
            simp [ends, hit]
        | cons record records' =>
            have remains : rest ≠ [] := by
              rintro rfl
              cases records
            rw [records, render_cons] at ih
            simp only [render_cons, List.cons_append, ih, last remains, remains, false_or, reduceCtorEq]
            split <;> rfl

theorem split_subset (delim : α) (text : List α) : ∀ record ∈ split delim text, record ⊆ text := by
  intro record member x inside
  have whole := render_split delim text
  have among : x ∈ render delim (split delim text) :=
    List.mem_flatMap.mpr ⟨record, member, List.mem_append_left _ inside⟩
  have other : x ≠ delim := fun same => split_free delim text record member (same ▸ inside)
  rw [whole] at among
  split at among
  · exact among
  · simpa [other] using among

end Sfsdb.Records

import Sfsdb.Layout

/-!
What the line reader makes of a file. `NextLine` says it of the bytes that are
left, without a word about chunks; `getline` follows it from every position and
with chunks of every size, and the loop around it reads a file to its end.
-/

namespace Sfsdb.Flstream

open Posix

/-- Of the bytes that are left: whether there is a line, which one it is, and how
many bytes are passed with it. -/
inductive NextLine (delim : Byte) : Bytes → Bool → Bytes → Nat → Prop where
  | ended : NextLine delim [] false [] 0
  | closed {line rest : Bytes} : delim ∉ line →
      NextLine delim (line ++ delim :: rest) true line (line.length + 1)
  | last {line : Bytes} : delim ∉ line → line ≠ [] → NextLine delim line true line line.length

inductive AllLines (delim : Byte) : Bytes → List Bytes → Prop where
  | ended {rest : Bytes} : NextLine delim rest false [] 0 → AllLines delim rest []
  | next {rest line : Bytes} {taken : Nat} {lines : List Bytes} : NextLine delim rest true line taken →
      AllLines delim (rest.drop taken) lines → AllLines delim rest (line :: lines)

section Lines
variable {delim : Byte} {rest line : Bytes} {more : Bool} {taken : Nat} {lines lines' : List Bytes}

theorem nextLine_first (delim : Byte) (rest : Bytes) :
    NextLine delim rest (decide (rest ≠ [])) (Records.first delim rest)
      (rest.length - (Records.after delim rest).length) := by
  have free := Records.first_free delim rest
  by_cases nothing : rest = []
  · subst nothing
    exact NextLine.ended
  · rw [decide_eq_true nothing]
    by_cases present : delim ∈ rest
    · have split := Records.first_after delim rest present
      have closed : NextLine delim (Records.first delim rest ++ delim :: Records.after delim rest) true
          (Records.first delim rest) ((Records.first delim rest).length + 1) := NextLine.closed free
      rw [split] at closed
      rw [Records.length_sub_after delim rest present]
      exact closed
    · rw [Records.first_of_free delim rest present, Records.after_of_free delim rest present]
      exact NextLine.last present nothing

theorem NextLine.eq (next : NextLine delim rest more line taken) :
    more = decide (rest ≠ []) ∧ line = Records.first delim rest ∧
      taken = rest.length - (Records.after delim rest).length := by
  cases next with
  | ended => exact ⟨rfl, rfl, rfl⟩
  | closed free =>
      rename_i rest
      rw [Records.first_append delim line rest free, Records.after_append delim line rest free]
      refine ⟨by simp, rfl, ?_⟩
      simp only [List.length_append, List.length_cons]
      omega
  | last free some =>
      rw [Records.first_of_free delim rest free, Records.after_of_free delim rest free]
      exact ⟨by simp [some], rfl, rfl⟩

theorem allLines_split (delim : Byte) (rest : Bytes) : AllLines delim rest (Records.split delim rest) := by
  -- By induction over the bytes that are left, of which every line takes some.
  generalize size : rest.length = n
  induction n using Nat.strong_induction_on generalizing rest with
  | _ n ih =>
      have next := nextLine_first delim rest
      by_cases nothing : rest = []
      · subst nothing
        exact AllLines.ended NextLine.ended
      · rw [decide_eq_true nothing] at next
        rw [Records.split_eq delim rest nothing]
        refine AllLines.next next ?_
        rw [Records.drop_after]
        have shorter := Records.after_length_lt delim rest nothing
        exact ih _ (size ▸ shorter) _ rfl

theorem AllLines.eq (all : AllLines delim rest lines) : lines = Records.split delim rest := by
  induction all with
  | ended next =>
      have nothing := next.eq.1
      rename_i rest
      have empty : rest = [] := by simpa using nothing
      rw [empty]
      rfl
  | next next _ ih =>
      obtain ⟨some, rfl, rfl⟩ := next.eq
      rename_i rest _ _
      have nonempty : rest ≠ [] := by simpa using some
      rw [ih, Records.drop_after, Records.split_eq delim rest nonempty]

end Lines

/-- Whatever the file, the position, the delimiter and the size of the chunks,
one line is read and passed, the loop reads all lines that are left, and a file
of records is read as these records. -/
theorem lines_are_read (p : Pid) (k : Kernel) (fd : Fd) (d : Description) (i : Ino) (e : Errno)
    (delim : Byte) (chunkSize : Nat) (found : k.descOf p fd = some d) (ino : d.ino = some i)
    (readable : d.flags.read = true) (positive : 0 < chunkSize) :
    (∃ more line taken, NextLine delim (unread k i d.pos) more line taken ∧
      Gives p (getline ⟨some fd, e⟩ delim chunkSize) k (more, line, ⟨some fd, 0⟩)
        (k.setPos fd d (d.pos + taken))) ∧
    (∃ lines, AllLines delim (unread k i d.pos) lines ∧
      Gives p (getlinesBy ⟨some fd, e⟩ delim chunkSize) k (lines, ⟨some fd, 0⟩)
        (k.setPos fd d (d.pos + (unread k i d.pos).length))) ∧
    ∀ records, (∀ record ∈ records, delim ∉ record) → unread k i d.pos = Records.render delim records →
      Gives p (getlinesBy ⟨some fd, e⟩ delim chunkSize) k (records, ⟨some fd, 0⟩)
        (k.setPos fd d (d.pos + (unread k i d.pos).length)) := by
  have line := getline_runs (e := e) delim found ino readable positive
  have lines := getlinesBy_runs (e := e) delim found ino readable positive
  refine ⟨⟨_, _, _, nextLine_first delim _, gives_of_runs line⟩,
    ⟨_, allLines_split delim _, gives_of_runs lines⟩, fun records free written => ?_⟩
  have same : Records.split delim (unread k i d.pos) = records := by
    rw [written, Records.split_render delim records free]
  rw [same] at lines
  exact gives_of_runs lines

def threeLines : Kernel :=
  (((Volume.initKernel fun _ => []).create [ascii "f"]).setData 0 (ascii "ab\n\ncd")).addDesc
    ⟨1, some 0, RDONLY, 0⟩

/-- In chunks of two bytes the first delimiter starts a chunk of its own. -/
theorem lines_are_read_three :
    Gives 1 (getline ⟨some 0, 0⟩ 10 2) threeLines (true, ascii "ab", ⟨some 0, 0⟩)
      (threeLines.setPos 0 ⟨1, some 0, RDONLY, 0⟩ 3) ∧
    Gives 1 (getlinesBy ⟨some 0, 0⟩ 10 2) threeLines ([ascii "ab", [], ascii "cd"], ⟨some 0, 0⟩)
      (threeLines.setPos 0 ⟨1, some 0, RDONLY, 0⟩ 6) := by
  obtain ⟨⟨more, line, taken, next, one⟩, ⟨lines, all, every⟩, _⟩ :=
    lines_are_read 1 threeLines 0 ⟨1, some 0, RDONLY, 0⟩ 0 0 10 2 rfl rfl rfl (by decide)
  have text : unread threeLines 0 0 = ascii "ab\n\ncd" := rfl
  obtain ⟨rfl, rfl, rfl⟩ := next.eq
  obtain rfl := all.eq
  rw [text] at one every
  exact ⟨one, every⟩

end Sfsdb.Flstream

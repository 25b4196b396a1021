import Sfsdb.Posix
import Sfsdb.Words

/-!
`shell_loop` of src/client/client.cpp. A turn of the loop splits one input line
and acts on its first token; `args[0]` and `args.erase(args.begin())` of an empty
vector have no result. The loop ends with QUIT or at the end of the input.
-/

namespace Sfsdb.Shell

open Posix Words

def SPACE : Byte := 32
def NEWLINE : Byte := 10

inductive Action where
  | skip
  | usage (text : Bytes)
  | get (id : Bytes)
  | put (filename filepath : Bytes)
  | desc (id : Bytes)
  | del (id : Bytes)
  | list (filename : Bytes)
  | quit
  | help
  | unknown (command : Bytes)
  deriving DecidableEq

/-- `if (args.size() != 1) plog::v(LOG_NOTICE "Usage", ..); else ..(args[0]);`. -/
def withOne (usage : Bytes) (run : Bytes → Action) : List Bytes → Action
  | [arg] => run arg
  | _ => .usage usage

def withTwo (usage : Bytes) (run : Bytes → Bytes → Action) : List Bytes → Action
  | [arg, arg'] => run arg arg'
  | _ => .usage usage

def dispatch (command : Bytes) (args : List Bytes) : Action :=
  if command = ascii "GET" then withOne (ascii "GET [file id]") .get args
  else if command = ascii "PUT" then withTwo (ascii "PUT [file name] [file path]") .put args
  else if command = ascii "DESC" then withOne (ascii "DESC [file id]") .desc args
  else if command = ascii "DEL" then withOne (ascii "DEL [file id]") .del args
  else if command = ascii "LIST" then withOne (ascii "LIST [file name]") .list args
  else if command = ascii "QUIT" then .quit
  else if command = ascii "HELP" then .help
  else .unknown command

/-- `while (std::getline(tmp, arg, ' ')) if (arg != "") args.push_back(arg);`. -/
def tokens (input : Bytes) : List Bytes := (Records.split SPACE input).filter (· ≠ [])

def turn (input : Bytes) : Option Action :=
  if input = [] then some .skip
  else do
    let args := tokens input
    let command ← args[0]?
    return dispatch command (args.eraseIdx 0)

/-- The turns over the lines of the input; `exit_handler` ends both QUIT and Ctrl + D. -/
def turns : List Bytes → Option (List Action)
  | [] => some [.quit]
  | input :: rest => do
      let action ← turn input
      if action = .quit then return [.quit] else return action :: (← turns rest)

def shellLoop (stdin : Bytes) : Option (List Action) := turns (Records.split NEWLINE stdin)

/-- What is asked of a turn: the tokens are the maximal stretches without a
space, the first of them is used only where there is one, and a line without any
is skipped. -/
structure Survives (input : Bytes) : Prop where
  split : AreRuns SPACE input (tokens input)
  safe : turn input ≠ none
  skipped : tokens input = [] → turn input = some .skip

/-- The line is empty, or something other than a space stands on it. -/
def Spoken (input : Bytes) : Prop := input = [] ∨ ∃ b ∈ input, b ≠ SPACE

instance (input : Bytes) : Decidable (Spoken input) := inferInstanceAs (Decidable (_ ∨ _))

theorem tokens_eq_nil_iff (input : Bytes) : tokens input = [] ↔ ∀ b ∈ input, b = SPACE :=
  words_eq_nil_iff SPACE input

theorem turn_of_tokens (input command : Bytes) (args : List Bytes) (split : tokens input = command :: args) :
    turn input = some (dispatch command args) := by
  have some : input ≠ [] := by
    rintro rfl
    cases split
  rw [turn, if_neg some]
  simp [split]

theorem turn_of_blank (input : Bytes) (some : input ≠ []) (blank : tokens input = []) : turn input = none := by
  rw [turn, if_neg some]
  simp [blank]

theorem turn_isSome_iff (input : Bytes) : turn input ≠ none ↔ Spoken input := by
  by_cases empty : input = []
  · simp [empty, turn, Spoken]
  · cases split : tokens input with
    | nil =>
        have blank := (tokens_eq_nil_iff input).mp split
        have silent : ¬ Spoken input := by
          rintro (nothing | ⟨b, member, other⟩)
          · exact empty nothing
          · exact other (blank b member)
        simp [turn_of_blank input empty split, silent]
    | cons command args =>
        have spoken : Spoken input := by
          by_contra silent
          have blank : tokens input = [] := (tokens_eq_nil_iff input).mpr fun b member => by
            by_contra other
            exact silent (Or.inr ⟨b, member, other⟩)
          rw [split] at blank
          cases blank
        simp [turn_of_tokens input command args split, spoken]

theorem survives_iff (input : Bytes) : Survives input ↔ Spoken input := by
  constructor
  · intro survives
    exact (turn_isSome_iff input).mp survives.safe
  · intro spoken
    have safe := (turn_isSome_iff input).mpr spoken
    constructor
    · exact words_areRuns SPACE input
    · exact safe
    · intro blank
      by_cases empty : input = []
      · rw [turn, if_pos empty]
      · exact absurd (turn_of_blank input empty blank) safe

def readLines (lines : List Bytes) : List Bytes := lines.takeWhile fun input => turn input ≠ some .quit

theorem turns_isSome_iff (lines : List Bytes) :
    turns lines ≠ none ↔ ∀ input ∈ readLines lines, Spoken input := by
  induction lines with
  | nil => simp [turns, readLines]
  | cons input rest ih =>
      by_cases last : turn input = some .quit
      · simp [turns, readLines, last]
      · have more : readLines (input :: rest) = input :: readLines rest := by
          simp [readLines, last]
        rw [more, List.forall_mem_cons, ← ih, ← turn_isSome_iff]
        cases here : turn input with
        | none => simp [turns, here]
        | some action =>
            have goes_on : action ≠ .quit := by
              rintro rfl
              exact last here
            cases there : turns rest <;> simp [turns, here, there, goes_on]

/-- A turn is as it should be exactly where its line is not made of spaces alone,
and a session runs to its end exactly where no line before QUIT is. -/
theorem shell_survives_iff (input stdin : Bytes) :
    (Survives input ↔ Spoken input) ∧
      (shellLoop stdin ≠ none ↔ ∀ line ∈ readLines (Records.split NEWLINE stdin), Spoken line) :=
  ⟨survives_iff input, turns_isSome_iff (Records.split NEWLINE stdin)⟩

/-- A line of two spaces between two commands. -/
theorem blank_line_crashes :
    ¬ Survives (ascii "  ") ∧ shellLoop (ascii "HELP\n  \nQUIT\n") = none := by
  constructor
  · intro survives
    exact survives.safe (by decide)
  · decide

end Sfsdb.Shell

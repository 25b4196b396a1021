import Mathlib.Data.List.Infix
import Mathlib.Data.List.Nodup
import Sfsdb.Common
import Sfsdb.Words

/-!
`run_hooks` of src/hooks.hpp. The entries of the hook directory are sorted as byte
strings and handed to `std::system` one after the other, up to the first one that
is fatal. `system` gives its text to a shell; `sh` says which files the shell
executes for a command line, and is a parameter. A wait status is what `system`
returned for a hook, and `raw` the integer it is encoded in.
-/

namespace Sfsdb.Hooks

open Posix

def HOOK_PRE_DIR : Bytes := ascii "hooks/pre.d"
def HOOK_POST_DIR : Bytes := ascii "hooks/post.d"

inductive HookType where
  | PRE
  | POST
  deriving DecidableEq

def HookType.path : HookType → Bytes
  | .PRE => HOOK_PRE_DIR
  | .POST => HOOK_POST_DIR

def entryPath (kind : HookType) (name : Bytes) : Bytes := kind.path ++ [slash] ++ name

/-! ## Wait statuses -/

inductive WaitStatus where
  | exited (code : Byte)
  | signaled (signal : Fin 127) (core : Bool)
  | failed (value : Nat) (errno : Errno)
  deriving DecidableEq

namespace WaitStatus

def raw : WaitStatus → Int
  | .exited code => code.toNat * 256
  | .signaled signal core => signal.val + if core then 128 else 0
  | .failed value _ => -(value + 1)

def errno : WaitStatus → Errno
  | .failed _ errno => errno
  | _ => 0

/-- The hook exited with the magic number, or `system` failed. -/
def Fatal (w : WaitStatus) : Prop := w = .exited 164 ∨ ∃ value errno, w = .failed value errno

end WaitStatus

/-- `(hret & 0xff00) >> 8`. -/
def WEXITSTATUS (hret : Int) : Int := hret / 256 % 256

theorem raw_negative_iff (w : WaitStatus) : w.raw < 0 ↔ ∃ value errno, w = .failed value errno := by
  cases w with
  | exited code =>
      simp only [WaitStatus.raw, reduceCtorEq, exists_false, iff_false]
      omega
  | signaled signal core =>
      simp only [WaitStatus.raw, reduceCtorEq, exists_false, iff_false]
      split <;> omega
  | failed value errno =>
      have negative : (WaitStatus.failed value errno).raw < 0 := by
        simp only [WaitStatus.raw]
        omega
      exact iff_of_true negative ⟨value, errno, rfl⟩

theorem status_magic_iff (w : WaitStatus) (ok : ¬ w.raw < 0) : WEXITSTATUS w.raw = 164 ↔ w = .exited 164 := by
  -- No death by a signal looks like the magic number.
  cases w with
  | exited code =>
      have byte := code.toNat_lt
      have same : (code.toNat : Int) = 164 ↔ code = 164 := by
        rw [← UInt8.toNat_inj]
        exact Int.ofNat_inj
      simp only [WaitStatus.raw, WEXITSTATUS, WaitStatus.exited.injEq, ← same]
      omega
  | signaled signal core =>
      have small := signal.isLt
      simp only [WaitStatus.raw, WEXITSTATUS, reduceCtorEq, iff_false]
      split <;> omega
  | failed value errno => exact absurd ((raw_negative_iff _).mpr ⟨value, errno, rfl⟩) ok

/-! ## The hooks -/

def hookFatal : CString := ⟨ascii "Hook returned fatal status code", by decide⟩

/-- `for (const auto& hook : hooks)`: the hooks for which `system` is called, and the result. -/
def loop (wait : Bytes → WaitStatus) : List Bytes → List Bytes × Except Error Unit
  | [] => ([], .ok ())
  | hook :: rest =>
      let hret := (wait hook).raw
      let status := WEXITSTATUS hret
      if hret < 0 then ([hook], .error (.ofErrno (wait hook).errno))
      else if status ≠ 0 ∧ status = 164 then ([hook], .error ⟨1, .text hookFatal⟩)
      else
        let (called, result) := loop wait rest
        (hook :: called, result)

/-- `std::sort` of the entries with `x < y`. -/
def sortHooks (hooks : List Bytes) : List Bytes := hooks.mergeSort fun x y => decide (x ≤ y)

def command (hook : Bytes) : Bytes := ascii "./" ++ hook

/-- `run_hooks` over the names in the order of the directory iterator: the files
that are executed, and the result. -/
def runHooks (sh : Bytes → List Bytes) (wait : Bytes → WaitStatus) (kind : HookType)
    (iterated : List Bytes) : List Bytes × Except Error Unit :=
  let hooks := sortHooks (iterated.map (entryPath kind))
  let (called, result) := loop wait hooks
  (called.flatMap fun hook => sh (command hook), result)

/-- The shortest prefix that ends with a fatal hook, or all of them if there is none. -/
structure UpToFatal (wait : Bytes → WaitStatus) (hooks called : List Bytes) : Prop where
  front : called <+: hooks
  stops : (∃ before last, called = before ++ [last] ∧ (wait last).Fatal ∧ ∀ hook ∈ before, ¬ (wait hook).Fatal) ∨
    (called = hooks ∧ ∀ hook ∈ hooks, ¬ (wait hook).Fatal)

structure InOrder (kind : HookType) (names hooks : List Bytes) : Prop where
  same : hooks.Perm (names.map (entryPath kind))
  ordered : hooks.Pairwise (· < ·)

/-- Whatever the wait statuses and whatever the order of the iterator, the files
executed are the sorted hooks up to the first fatal one, each once, and the result
is an error where there is a fatal one. -/
def RunsInOrder (sh : Bytes → List Bytes) (kind : HookType) (names : List Bytes) : Prop :=
  ∀ wait, ∃ hooks called result, InOrder kind names hooks ∧ UpToFatal wait hooks called ∧
    ((∃ err, result = .error err) ↔ ∃ hook ∈ hooks, (wait hook).Fatal) ∧
    ∀ iterated, iterated.Perm names → runHooks sh wait kind iterated = (called.map command, result)

structure Directory where
  names : List Bytes
  distinct : names.Nodup
  plain : ∀ name ∈ names, PlainName name

section Loop
variable (wait : Bytes → WaitStatus)

theorem loop_fatal (hook : Bytes) (rest : List Bytes) (fatal : (wait hook).Fatal) :
    (loop wait (hook :: rest)).1 = [hook] ∧ ∃ err, (loop wait (hook :: rest)).2 = .error err := by
  by_cases negative : (wait hook).raw < 0
  · simp [loop, negative]
  · have magic : WEXITSTATUS (wait hook).raw = 164 := by
      rcases fatal with magic | failed
      · exact (status_magic_iff _ negative).mpr magic
      · exact absurd ((raw_negative_iff _).mpr failed) negative
    simp [loop, negative, magic]

theorem loop_harmless (hook : Bytes) (rest : List Bytes) (harmless : ¬ (wait hook).Fatal) :
    loop wait (hook :: rest) = (hook :: (loop wait rest).1, (loop wait rest).2) := by
  have ok : ¬ (wait hook).raw < 0 := fun negative =>
    harmless (Or.inr ((raw_negative_iff _).mp negative))
  have other : WEXITSTATUS (wait hook).raw ≠ 164 := fun magic =>
    harmless (Or.inl ((status_magic_iff _ ok).mp magic))
  simp [loop, ok, other]

theorem loop_upToFatal (hooks : List Bytes) : UpToFatal wait hooks (loop wait hooks).1 := by
  induction hooks with
  | nil => exact ⟨List.prefix_rfl, Or.inr ⟨rfl, by simp⟩⟩
  | cons hook rest ih =>
      by_cases fatal : (wait hook).Fatal
      · rw [(loop_fatal wait hook rest fatal).1]
        exact ⟨by simp, Or.inl ⟨[], hook, rfl, fatal, by simp⟩⟩
      · rw [loop_harmless wait hook rest fatal]
        refine ⟨List.cons_prefix_cons.mpr ⟨rfl, ih.front⟩, ?_⟩
        rcases ih.stops with ⟨before, last, called, stop, earlier⟩ | ⟨whole, none⟩
        · exact Or.inl ⟨hook :: before, last, by rw [called]; rfl, stop,
            List.forall_mem_cons.mpr ⟨fatal, earlier⟩⟩
        · exact Or.inr ⟨by rw [whole], List.forall_mem_cons.mpr ⟨fatal, none⟩⟩

theorem loop_error_iff (hooks : List Bytes) :
    (∃ err, (loop wait hooks).2 = .error err) ↔ ∃ hook ∈ hooks, (wait hook).Fatal := by
  induction hooks with
  | nil => simp [loop]
  | cons hook rest ih =>
      by_cases fatal : (wait hook).Fatal
      · simp [(loop_fatal wait hook rest fatal).2, fatal]
      · rw [loop_harmless wait hook rest fatal, List.exists_mem_cons_iff, ← ih]
        simp [fatal]

end Loop

theorem UpToFatal.eq_loop {wait : Bytes → WaitStatus} {hooks called : List Bytes}
    (upTo : UpToFatal wait hooks called) : called = (loop wait hooks).1 := by
  induction hooks generalizing called with
  | nil => exact List.prefix_nil.mp upTo.front
  | cons hook rest ih =>
      cases called with
      | nil =>
          rcases upTo.stops with ⟨before, last, none, _⟩ | ⟨none, _⟩
          · simp at none
          · cases none
      | cons first more =>
          rcases List.cons_prefix_cons.mp upTo.front with ⟨rfl, front⟩
          by_cases fatal : (wait first).Fatal
          · rw [(loop_fatal wait first rest fatal).1]
            rcases upTo.stops with ⟨before, last, split, _, earlier⟩ | ⟨_, none⟩
            · cases before with
              | nil => rw [(List.cons.inj split).2]
              | cons other before =>
                  cases split
                  exact absurd fatal (earlier _ List.mem_cons_self)
            · exact absurd fatal (none _ List.mem_cons_self)
          · rw [loop_harmless wait first rest fatal]
            apply congrArg (first :: ·)
            apply ih
            refine ⟨front, ?_⟩
            rcases upTo.stops with ⟨before, last, split, stop, earlier⟩ | ⟨whole, none⟩
            · cases before with
              | nil =>
                  cases split
                  exact absurd stop fatal
              | cons other before =>
                  cases split
                  exact Or.inl ⟨before, last, rfl, stop, fun hook member =>
                    earlier hook (List.mem_cons_of_mem _ member)⟩
            · exact Or.inr ⟨(List.cons.inj whole).2, fun hook member =>
                none hook (List.mem_cons_of_mem _ member)⟩

/-! ## The order -/

theorem sortHooks_ordered (hooks : List Bytes) (distinct : hooks.Nodup) :
    (sortHooks hooks).Pairwise (· < ·) := by
  have sorted : (sortHooks hooks).Pairwise fun x y => decide (x ≤ y) = true := by
    apply List.pairwise_mergeSort
    · intro x y z left right
      exact decide_eq_true (List.le_trans (of_decide_eq_true left) (of_decide_eq_true right))
    · intro x y
      rcases List.le_total x y with le | le <;> simp [le]
  have apart : (sortHooks hooks).Nodup := (List.mergeSort_perm hooks _).nodup_iff.mpr distinct
  apply (sorted.and apart).imp
  rintro x y ⟨le, different⟩
  by_contra above
  exact different (List.le_antisymm (of_decide_eq_true le) above)

theorem entryPath_injective (kind : HookType) {name name' : Bytes}
    (same : entryPath kind name = entryPath kind name') : name = name' :=
  List.append_cancel_left same

theorem sortHooks_inOrder (kind : HookType) (names : List Bytes) (distinct : names.Nodup) :
    InOrder kind names (sortHooks (names.map (entryPath kind))) := by
  constructor
  · exact List.mergeSort_perm _ _
  · apply sortHooks_ordered
    exact List.Nodup.map (fun _ _ same => entryPath_injective kind same) distinct

theorem InOrder.unique {kind : HookType} {names hooks hooks' : List Bytes} (first : InOrder kind names hooks)
    (second : InOrder kind names hooks') : hooks = hooks' := by
  apply List.Perm.eq_of_pairwise _ first.ordered second.ordered (first.same.trans second.same.symm)
  intro x y _ _ left right
  exact absurd (List.lt_trans left right) (List.lt_irrefl x)

theorem sortHooks_perm (kind : HookType) {names iterated : List Bytes} (distinct : names.Nodup)
    (same : iterated.Perm names) :
    sortHooks (iterated.map (entryPath kind)) = sortHooks (names.map (entryPath kind)) := by
  -- The order of the iterator is lost in the sort.
  have other := sortHooks_inOrder kind iterated (same.nodup_iff.mpr distinct)
  have here := sortHooks_inOrder kind names distinct
  exact InOrder.unique ⟨other.same.trans (same.map _), other.ordered⟩ here

section Shell
variable {sh : Bytes → List Bytes} {kind : HookType} {names : List Bytes}

theorem runHooks_eq (wait : Bytes → WaitStatus) {iterated : List Bytes} (distinct : names.Nodup)
    (same : iterated.Perm names) :
    runHooks sh wait kind iterated =
      ((loop wait (sortHooks (names.map (entryPath kind)))).1.flatMap fun hook => sh (command hook),
        (loop wait (sortHooks (names.map (entryPath kind)))).2) := by
  rw [runHooks, sortHooks_perm kind distinct same]

theorem loop_until (before after : List Bytes) (hook : Bytes) (absent : hook ∉ before) :
    ∃ wait, (loop wait (before ++ hook :: after)).1 = before ++ [hook] := by
  -- Under some statuses the calls end at a given hook.
  let wait : Bytes → WaitStatus := fun other => if other = hook then .exited 164 else .exited 0
  have fatal : (wait hook).Fatal := Or.inl (if_pos rfl)
  have earlier : ∀ other ∈ before, ¬ (wait other).Fatal := by
    intro other member
    have different : other ≠ hook := fun same => absent (same ▸ member)
    simp [wait, different, WaitStatus.Fatal]
  have upTo : UpToFatal wait (before ++ hook :: after) (before ++ [hook]) :=
    ⟨⟨after, by simp⟩, Or.inl ⟨before, hook, rfl, fatal, earlier⟩⟩
  exact ⟨wait, upTo.eq_loop.symm⟩

theorem prefix_executed {called : List Bytes} (distinct : names.Nodup) (runs : RunsInOrder sh kind names)
    (front : called <+: sortHooks (names.map (entryPath kind))) :
    called.flatMap (fun hook => sh (command hook)) = called.map command := by
  -- Every prefix is executed as it is called, for under some statuses it is all that is called.
  have inOrder := sortHooks_inOrder kind names distinct
  generalize hooks_eq : sortHooks (names.map (entryPath kind)) = hooks at inOrder front
  rcases List.eq_nil_or_concat called with none | ⟨before, last, some⟩
  · rw [none]
    rfl
  · rcases front with ⟨after, split⟩
    rw [some, List.concat_eq_append, List.append_assoc, List.singleton_append] at split
    have absent : last ∉ before := by
      intro member
      have ordered := inOrder.ordered
      rw [← split] at ordered
      have before_last := (List.pairwise_append.mp ordered).2.2 last member last List.mem_cons_self
      exact List.lt_irrefl last before_last
    rcases loop_until before after last absent with ⟨wait, until_last⟩
    rcases runs wait with ⟨hooks', called', result, inOrder', upTo, _, all⟩
    have here := all names (List.Perm.refl _)
    rw [runHooks_eq wait distinct (List.Perm.refl _), hooks_eq] at here
    have same : called' = (loop wait hooks).1 := inOrder'.unique inOrder ▸ upTo.eq_loop
    rw [split] at until_last
    rw [some, List.concat_eq_append, ← until_last]
    exact (congrArg Prod.fst here).trans (by rw [same])

theorem hook_executed {hook : Bytes} (distinct : names.Nodup) (runs : RunsInOrder sh kind names)
    (member : hook ∈ sortHooks (names.map (entryPath kind))) : sh (command hook) = [command hook] := by
  -- What is executed for a hook is the difference of two prefixes.
  rcases List.append_of_mem member with ⟨before, after, split⟩
  have short := prefix_executed distinct runs ⟨hook :: after, split.symm⟩
  have through : before ++ [hook] <+: sortHooks (names.map (entryPath kind)) := ⟨after, by simp [split]⟩
  have long := prefix_executed distinct runs through
  rw [List.flatMap_append, List.map_append, short] at long
  simpa using List.append_cancel_left long

theorem runsInOrder_iff (sh : Bytes → List Bytes) (kind : HookType) (d : Directory) :
    RunsInOrder sh kind d.names ↔
      ∀ name ∈ d.names, sh (command (entryPath kind name)) = [command (entryPath kind name)] := by
  have inOrder := sortHooks_inOrder kind d.names d.distinct
  have members : (∀ hook ∈ sortHooks (d.names.map (entryPath kind)), sh (command hook) = [command hook]) ↔
      ∀ name ∈ d.names, sh (command (entryPath kind name)) = [command (entryPath kind name)] := by
    simp only [inOrder.same.mem_iff, List.forall_mem_map]
  rw [← members]
  constructor
  · intro runs hook member
    exact hook_executed d.distinct runs member
  · intro reads wait
    generalize hooks_eq : sortHooks (d.names.map (entryPath kind)) = hooks at inOrder reads
    refine ⟨hooks, (loop wait hooks).1, (loop wait hooks).2, inOrder, loop_upToFatal wait hooks,
      loop_error_iff wait hooks, ?_⟩
    intro iterated same
    have executed : (loop wait hooks).1.flatMap (fun hook => sh (command hook)) =
        (loop wait hooks).1.map command := by
      rw [List.map_eq_flatMap]
      apply List.flatMap_congr
      intro hook member
      exact reads hook ((loop_upToFatal wait hooks).front.mem member)
    rw [runHooks_eq wait d.distinct same, hooks_eq, executed]

end Shell

/-! ## What the shell reads -/

/-- A character that no shell treats specially, wherever it stands in a word. -/
def PlainChar (b : Byte) : Prop :=
  (48 ≤ b ∧ b ≤ 57) ∨ (65 ≤ b ∧ b ≤ 90) ∨ (97 ≤ b ∧ b ≤ 122) ∨ b = 45 ∨ b = 46 ∨ b = 47 ∨ b = 95

instance (b : Byte) : Decidable (PlainChar b) := inferInstanceAs (Decidable (_ ∨ _))

theorem plain_of_all {text : Bytes} (checked : text.all (fun b => decide (PlainChar b)) = true) :
    ∀ b ∈ text, PlainChar b := by
  intro b member
  exact of_decide_eq_true (List.all_eq_true.mp checked b member)

/-- What a shell is documented to do with a line that is one word of such
characters, the path of a file. -/
def ReadsPlain (sh : Bytes → List Bytes) : Prop :=
  ∀ line, (∀ b ∈ line, PlainChar b) → slash ∈ line → sh line = [line]

theorem plain_names_read (sh : Bytes → List Bytes) (shell : ReadsPlain sh) (kind : HookType) (name : Bytes)
    (plain : ∀ b ∈ name, PlainChar b) : sh (command (entryPath kind name)) = [command (entryPath kind name)] := by
  have front : ∀ b ∈ ascii "./" ++ (kind.path ++ [slash]), PlainChar b := by
    apply plain_of_all
    cases kind <;> rfl
  apply shell
  · intro b member
    rw [command, entryPath, ← List.append_assoc] at member
    rcases List.mem_append.mp member with path | last
    · exact front b path
    · exact plain b last
  · simp [command, entryPath]

/-- The hooks run in order exactly where the shell reads every call as the file it
is made for, which it does for names of letters, digits, '-', '.' and '_'; the
calls themselves are made in order for any names. -/
theorem hooks_run_in_order_iff (sh : Bytes → List Bytes) (kind : HookType) (d : Directory) :
    (RunsInOrder sh kind d.names ↔
      ∀ name ∈ d.names, sh (command (entryPath kind name)) = [command (entryPath kind name)]) ∧
    (ReadsPlain sh → (∀ name ∈ d.names, ∀ b ∈ name, PlainChar b) → RunsInOrder sh kind d.names) ∧
    RunsInOrder (fun line => [line]) kind d.names := by
  constructor
  · exact runsInOrder_iff sh kind d
  constructor
  · intro shell plain
    apply (runsInOrder_iff sh kind d).mpr
    intro name member
    exact plain_names_read sh shell kind name (plain name member)
  · apply (runsInOrder_iff _ kind d).mpr
    intro name _
    rfl

/-- A simple command executes its first word and takes the others as arguments. -/
def simpleCommand (line : Bytes) : List Bytes := (Words.words 32 line).take 1

theorem simpleCommand_plain : ReadsPlain simpleCommand := by
  intro line plain path
  have free : 32 ∉ line := fun space => absurd (plain 32 space) (by decide)
  have some : line ≠ [] := List.ne_nil_of_mem path
  rw [simpleCommand, Words.words_last 32 line free, Words.ofField, if_neg some]
  rfl

def mountAndCheck : Directory where
  names := [ascii "20-check", ascii "10-mount"]
  distinct := by decide
  plain := by decide

theorem mountAndCheck_plain : ∀ name ∈ mountAndCheck.names, ∀ b ∈ name, PlainChar b := by
  intro name member
  apply plain_of_all
  simp only [mountAndCheck, List.mem_cons, List.not_mem_nil, or_false] at member
  rcases member with rfl | rfl
  · rfl
  · rfl

theorem hooks_run_in_order_mount : RunsInOrder simpleCommand .PRE mountAndCheck.names :=
  (hooks_run_in_order_iff simpleCommand .PRE mountAndCheck).2.1 simpleCommand_plain mountAndCheck_plain

def spaced : Directory where
  names := [ascii "a b"]
  distinct := by decide
  plain := by decide

/-- In its place the shell executes `./hooks/pre.d/a`. -/
theorem spaced_name_is_not_run :
    simpleCommand (command (entryPath .PRE (ascii "a b"))) = [ascii "./hooks/pre.d/a"] ∧
      ¬ RunsInOrder simpleCommand .PRE spaced.names := by
  constructor
  · decide
  · intro runs
    have read := (runsInOrder_iff simpleCommand .PRE spaced).mp runs (ascii "a b") (by decide)
    exact absurd read (by decide)

end Sfsdb.Hooks

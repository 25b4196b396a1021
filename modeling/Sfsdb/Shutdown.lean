import Mathlib.Data.List.Nodup
import Sfsdb.Decimal
import Sfsdb.FileView

/-!
`exit_handler` of src/server/server.cpp. The kernel keeps a list of children for
each thread, in a file below `/proc/self/task/` under the decimal number of the
thread; connections are forked by the listener threads. The handler appends its
process id to the path with `std::string::operator+=`, which takes it as one
character, so a path names a thread only where that character is its number.
-/

namespace Sfsdb.Shutdown

open Posix Decimal

def SPACE : Byte := 32

/-- A thread of the server, the children it has forked so far, and what the
kernel's list of them holds: numbers separated by spaces, with or without one at
the end. -/
structure Thread where
  tid : Nat
  children : List Nat
  listing : Bytes
  listed : listing = Records.render SPACE (children.map decimal) ∨
    listing ++ [SPACE] = Records.render SPACE (children.map decimal)
  small : ∀ pid ∈ children, pid < 2147483648

structure Server where
  pid : Nat
  threads : List Thread
  main : ∃ t ∈ threads, t.tid = pid
  distinct : (threads.map Thread.tid).Nodup

def TASK : Path := [ascii "proc", ascii "self", ascii "task"]
def CHILDREN : Bytes := ascii "children"

namespace Server

def children (s : Server) : List Nat := s.threads.flatMap Thread.children

def node (s : Server) (path : Path) : Option Node :=
  if path = TASK.take 1 ∨ path = TASK.take 2 ∨ path = TASK then some .dir
  else if s.threads.any fun t => path = TASK ++ [decimal t.tid] then some .dir
  else (s.threads.find? fun t => path = TASK ++ [decimal t.tid, CHILDREN]).map fun t => .file t.tid

/-- What a stream opened on an absolute path reads; a directory yields nothing. -/
def readFile (s : Server) (path : Bytes) : Option Bytes :=
  match walk s.node [] (components (cstr path)) with
  | .error _ => none
  | .ok q => (s.threads.find? fun t => q = TASK ++ [decimal t.tid, CHILDREN]).map Thread.listing

def named (s : Server) (name : Bytes) : Option Thread := s.threads.find? fun t => decimal t.tid = name

end Server

/-! ## The handler -/

inductive Event where
  | kill (pid : Int)
  | waitpid (pid : Int)
  | postHooks
  | exit (status : Nat)
  | terminate
  deriving DecidableEq

def pathWith (c : Byte) : Bytes := ascii "/proc/self/task/" ++ [c] ++ ascii "/children"

/-- `proc_path += getpid()`. -/
def procPath (getpid : Nat) : Bytes := pathWith (UInt8.ofNat getpid)

/-- `while (std::getline(chfile, chpid, ' ')) children.push_back(std::stoi(chpid));`. -/
def readPids (content : Bytes) : Option (List Int) := (Records.split SPACE content).mapM stoi

/-- A stream that could not be opened has no lines; an exception of `stoi` ends the process. -/
def exitHandler (read : Bytes → Option Bytes) (getpid : Nat) : List Event :=
  match readPids ((read (procPath getpid)).getD []) with
  | none => [.terminate]
  | some children => children.map .kill ++ children.map .waitpid ++ [.postHooks, .exit 0]

def beforeHooks (events : List Event) : List Event := events.takeWhile (· ≠ .postHooks)

/-- Exactly the children are signalled and waited for, and then the hooks run. -/
structure StopsAll (s : Server) (events : List Event) : Prop where
  hooks : .postHooks ∈ events
  signalled : ∀ pid, .kill pid ∈ beforeHooks events ↔ ∃ child ∈ s.children, (child : Int) = pid
  waited : ∀ pid, .waitpid pid ∈ beforeHooks events ↔ ∃ child ∈ s.children, (child : Int) = pid

/-! ## The lists -/

theorem listing_split (t : Thread) : Records.split SPACE t.listing = t.children.map decimal := by
  have free : ∀ text ∈ t.children.map decimal, SPACE ∉ text := by
    intro text member space
    rcases List.mem_map.mp member with ⟨n, _, rfl⟩
    exact absurd (decimal_digits n SPACE space) (by decide)
  rcases t.listed with whole | cut
  · rw [whole, Records.split_render SPACE _ free]
  · rcases List.eq_nil_or_concat (t.children.map decimal) with none | ⟨front, last, some⟩
    · simp [none] at cut
    · rw [some] at free cut
      have lastFree : SPACE ∉ last := free last (by simp)
      have frontFree : ∀ text ∈ front, SPACE ∉ text := fun text member => free text (by simp [member])
      have nonempty : last ≠ [] := by
        have member : last ∈ t.children.map decimal := by simp [some]
        rcases List.mem_map.mp member with ⟨n, _, rfl⟩
        exact decimal_ne_nil n
      have ended : t.listing ++ [SPACE] = Records.render SPACE front ++ last ++ [SPACE] := by
        rw [cut]
        simp
      have text : t.listing = Records.render SPACE front ++ last := List.append_cancel_right ended
      rw [some, text, Records.split_render_append SPACE front last frontFree,
        Records.split_of_free SPACE last lastFree nonempty]
      simp

theorem mapM_stoi (pids : List Nat) (small : ∀ pid ∈ pids, pid < 2147483648) :
    (pids.map decimal).mapM stoi = some (pids.map Int.ofNat) := by
  induction pids with
  | nil => rfl
  | cons pid rest ih =>
      have tail := ih fun other member => small other (List.mem_cons_of_mem pid member)
      rw [List.map_cons, List.mapM_cons, stoi_decimal pid (small pid List.mem_cons_self), tail]
      rfl

theorem readPids_listing (t : Thread) : readPids t.listing = some (t.children.map Int.ofNat) := by
  rw [readPids, listing_split, mapM_stoi t.children t.small]

/-! ## The path -/

/-- What stands behind `/proc/self/task`: a slash adds nothing, and a NUL ends the path. -/
def behindTask (c : Byte) : List Bytes :=
  if c = 0 then [dot] else if c = slash then [CHILDREN] else [[c], CHILDREN]

theorem components_pathWith (c : Byte) : components (cstr (pathWith c)) = TASK ++ behindTask c := by
  by_cases nul : c = 0
  · subst nul
    decide
  · by_cases sep : c = slash
    · subst sep
      decide
    · have free : 0 ∉ pathWith c := by
        simp only [pathWith, List.mem_append, List.mem_singleton, not_or]
        exact ⟨⟨by decide, Ne.symm nul⟩, by decide⟩
      have names : ∀ name ∈ [] :: (TASK ++ [[c]]), slash ∉ name := by
        intro name member
        simp only [List.mem_cons, List.mem_append, List.not_mem_nil, or_false] at member
        rcases member with rfl | member | rfl
        · simp
        · revert name
          decide
        · simpa using Ne.symm sep
      have text : pathWith c = Records.render slash ([] :: (TASK ++ [[c]])) ++ CHILDREN := rfl
      have last : (pathWith c).getLast? ≠ some slash := by
        have final : (ascii "/children").getLast? = some 110 := rfl
        rw [pathWith, List.getLast?_append, final]
        intro same
        cases same
      rw [cstr_of_free _ free, components, if_neg last, parts, text,
        Records.split_render_append slash _ CHILDREN names, behindTask, if_neg nul, if_neg sep]
      rfl

theorem walk_task (s : Server) (rest : List Bytes) (more : rest ≠ []) :
    walk s.node [] (TASK ++ rest) = walk s.node TASK rest := by
  have dir : ∀ n, s.node (TASK.take 1) = some .dir ∧ s.node (TASK.take 2) = some .dir ∧
      s.node (TASK.take (n + 3)) = some .dir := by
    intro n
    simp [Server.node, TASK]
  calc walk s.node [] (TASK ++ rest)
      = walk s.node (TASK.take 1) (TASK.drop 1 ++ rest) :=
        walk_dir s.node [] (ascii "proc") _ (by decide) (dir 0).1 (by simp)
    _ = walk s.node (TASK.take 2) (TASK.drop 2 ++ rest) :=
        walk_dir s.node (TASK.take 1) (ascii "self") _ (by decide) (dir 0).2.1 (by simp)
    _ = walk s.node TASK rest :=
        walk_dir s.node (TASK.take 2) (ascii "task") _ (by decide) (dir 0).2.2 more

theorem node_thread (s : Server) (name : Bytes) :
    s.node (TASK ++ [name]) = if (s.named name).isSome then some .dir else none := by
  have deeper : ¬ (TASK ++ [name] = TASK.take 1 ∨ TASK ++ [name] = TASK.take 2 ∨ TASK ++ [name] = TASK) := by
    simp [TASK]
  have noFile : (s.threads.find? fun t => TASK ++ [name] = TASK ++ [decimal t.tid, CHILDREN]) = none := by
    simp
  have names : (fun t : Thread => decide (TASK ++ [name] = TASK ++ [decimal t.tid])) =
      fun t => decide (decimal t.tid = name) := by
    funext t
    simp [eq_comm]
  rw [Server.node, if_neg deeper, noFile, names, ← List.isSome_find?]
  rfl

/-- The handler reads the list of the thread whose number the character is. -/
theorem readFile_pathWith (s : Server) (c : Byte) :
    s.readFile (pathWith c) = (s.named [c]).map Thread.listing := by
  have nobody : isDigit c = false → s.named [c] = none := by
    intro other
    apply List.find?_eq_none.mpr
    intro t _ same
    have digits := decimal_digits t.tid
    rw [of_decide_eq_true same] at digits
    rw [digits c (by simp)] at other
    cases other
  rw [Server.readFile, components_pathWith, behindTask]
  by_cases nul : c = 0
  · rw [if_pos nul, walk_task s _ (by simp), nobody (by rw [nul]; rfl)]
    simp [walk, TASK]
  · rw [if_neg nul]
    by_cases sep : c = slash
    · rw [if_pos sep, walk_task s _ (by simp), walk_last s.node TASK CHILDREN (by decide),
        nobody (by rw [sep]; rfl)]
      simp [TASK]
    · rw [if_neg sep, walk_task s _ (by simp)]
      by_cases here : c = 46
      · -- the path goes through ".", which leaves it where it was
        subst here
        rw [walk, if_pos (by rfl), walk_last s.node TASK CHILDREN (by decide), nobody (by rfl)]
        simp [TASK]
      · have plain : ([c] : Bytes) ≠ dot ∧ ([c] : Bytes) ≠ dotdot := by
          simp [dot, dotdot, here]
        cases found : s.named [c] with
        | none =>
            rw [walk, if_neg plain.1, if_neg plain.2, node_thread, found]
            rfl
        | some t =>
            have dir : s.node (TASK ++ [[c]]) = some .dir := by
              rw [node_thread, found]
              rfl
            have names : (fun t : Thread => decide (TASK ++ [[c]] ++ [CHILDREN] =
                TASK ++ [decimal t.tid, CHILDREN])) = fun t => decide (decimal t.tid = [c]) := by
              funext t
              simp [eq_comm]
            rw [walk_dir s.node TASK [c] _ plain dir (by simp), walk_last s.node _ CHILDREN (by decide), ← found]
            exact congrArg (fun p => (s.threads.find? p).map Thread.listing) names

/-! ## What the handler does -/

def foundChildren (s : Server) : List Nat := ((s.named [UInt8.ofNat s.pid]).map Thread.children).getD []

theorem exitHandler_eq (s : Server) : exitHandler s.readFile s.pid =
    ((foundChildren s).map Int.ofNat).map .kill ++ ((foundChildren s).map Int.ofNat).map .waitpid ++
      [.postHooks, .exit 0] := by
  rw [exitHandler, procPath, readFile_pathWith, foundChildren]
  cases s.named [UInt8.ofNat s.pid] with
  | none => rfl
  | some t =>
      have read : readPids t.listing = some (t.children.map Int.ofNat) := readPids_listing t
      simp only [Option.map_some, Option.getD_some, read]

theorem beforeHooks_handler (pids : List Int) :
    beforeHooks (pids.map .kill ++ pids.map .waitpid ++ [.postHooks, .exit 0]) =
      pids.map .kill ++ pids.map .waitpid := by
  have calls : ∀ event ∈ pids.map Event.kill ++ pids.map Event.waitpid, event ≠ .postHooks := by
    intro event member
    rcases List.mem_append.mp member with kill | wait
    · rcases List.mem_map.mp kill with ⟨pid, _, rfl⟩
      simp
    · rcases List.mem_map.mp wait with ⟨pid, _, rfl⟩
      simp
  rw [beforeHooks, List.takeWhile_append_of_pos (by simpa using calls)]
  simp

theorem stopsAll_iff (s : Server) : StopsAll s (exitHandler s.readFile s.pid) ↔
    ∀ child, child ∈ foundChildren s ↔ child ∈ s.children := by
  have kills : ∀ pid, Event.kill pid ∈ beforeHooks (exitHandler s.readFile s.pid) ↔
      ∃ child ∈ foundChildren s, (child : Int) = pid := by
    intro pid
    rw [exitHandler_eq, beforeHooks_handler]
    simp
  have waits : ∀ pid, Event.waitpid pid ∈ beforeHooks (exitHandler s.readFile s.pid) ↔
      ∃ child ∈ foundChildren s, (child : Int) = pid := by
    intro pid
    rw [exitHandler_eq, beforeHooks_handler]
    simp
  constructor
  · intro stops child
    have signalled := (kills child).symm.trans (stops.signalled child)
    simpa [Int.ofNat_inj] using signalled
  · intro same
    have children : ∀ pid : Int, (∃ child ∈ foundChildren s, (child : Int) = pid) ↔
        ∃ child ∈ s.children, (child : Int) = pid := by
      intro pid
      simp only [same]
    exact ⟨by simp [exitHandler_eq], fun pid => (kills pid).trans (children pid),
      fun pid => (waits pid).trans (children pid)⟩

theorem foundChildren_subset (s : Server) (child : Nat) (found : child ∈ foundChildren s) :
    child ∈ s.children := by
  cases named : s.named [UInt8.ofNat s.pid] with
  | none => simp [foundChildren, named] at found
  | some t =>
      have listed : child ∈ t.children := by simpa [foundChildren, named] using found
      exact List.mem_flatMap.mpr ⟨t, List.mem_of_find?_eq_some named, listed⟩

theorem named_of_mem (s : Server) (t : Thread) (name : Bytes) (member : t ∈ s.threads)
    (same : decimal t.tid = name) : s.named name = some t := by
  -- Threads have distinct numbers, so a name is the name of one of them.
  cases found : s.named name with
  | none =>
      have other := List.find?_eq_none.mp found t member
      simp [same] at other
  | some t' =>
      have name' : decimal t'.tid = name := by simpa using List.find?_some found
      have tid : t'.tid = t.tid := decimal_injective (name'.trans same.symm)
      rw [List.inj_on_of_nodup_map s.distinct (List.mem_of_find?_eq_some found) member tid]

/-- The thread that is read is never the one of `main`, which forks nothing anyway. -/
theorem named_not_main (s : Server) (t : Thread) (found : s.named [UInt8.ofNat s.pid] = some t) :
    t.tid ≠ s.pid := by
  intro same
  have name : decimal t.tid = [UInt8.ofNat s.pid] := by simpa using List.find?_some found
  rw [same, decimal_eq] at name
  by_cases small : s.pid < 10
  · rw [if_pos small] at name
    have byte := congrArg UInt8.toNat (List.head_eq_of_cons_eq name)
    rw [digit_toNat s.pid small, UInt8.toNat_ofNat'] at byte
    omega
  · rw [if_neg small] at name
    have size := congrArg List.length name
    have front := List.length_pos_iff.mpr (decimal_ne_nil (s.pid / 10))
    simp only [List.length_append, List.length_singleton] at size
    omega

/-- The handler stops all children exactly where there are none, or where the
character `pid % 256` is the number of one thread that has forked all of them. -/
theorem exitHandler_stops_all_iff (s : Server) :
    StopsAll s (exitHandler s.readFile s.pid) ↔ s.children = [] ∨
      ∃ t ∈ s.threads, decimal t.tid = [UInt8.ofNat s.pid] ∧ ∀ child ∈ s.children, child ∈ t.children := by
  rw [stopsAll_iff]
  constructor
  · intro same
    cases found : s.named [UInt8.ofNat s.pid] with
    | none =>
        apply Or.inl
        apply List.eq_nil_iff_forall_not_mem.mpr
        intro child member
        have listed := (same child).mpr member
        simp [foundChildren, found] at listed
    | some t =>
        refine Or.inr ⟨t, List.mem_of_find?_eq_some found, by simpa using List.find?_some found, ?_⟩
        intro child member
        have listed := (same child).mpr member
        simpa [foundChildren, found] using listed
  · intro cases child
    constructor
    · exact foundChildren_subset s child
    · intro member
      rcases cases with none | ⟨t, inside, name, all⟩
      · simp [none] at member
      · simpa [foundChildren, named_of_mem s t _ inside name] using all child member

def oneConnection : Server where
  pid := 1000
  threads := [
    { tid := 1000, children := [], listing := [], listed := Or.inl rfl, small := by simp },
    { tid := 1001, children := [1002], listing := decimal 1002 ++ [SPACE], listed := Or.inl rfl, small := by simp }]
  main := ⟨_, List.mem_cons_self, rfl⟩
  distinct := by decide

/-- The handler opens `/proc/self/task/\xe8/children`, which does not exist, and stops nobody. -/
theorem one_connection_is_left :
    procPath 1000 = ascii "/proc/self/task/" ++ [0xe8] ++ ascii "/children" ∧
      exitHandler oneConnection.readFile oneConnection.pid = [.postHooks, .exit 0] ∧
      ¬ StopsAll oneConnection (exitHandler oneConnection.readFile oneConnection.pid) := by
  have nobody : foundChildren oneConnection = [] := by decide
  constructor
  · rfl
  constructor
  · rw [exitHandler_eq, nobody]
    rfl
  · intro stops
    have found := ((stopsAll_iff oneConnection).mp stops 1002).mpr (by decide)
    rw [nobody] at found
    cases found

end Sfsdb.Shutdown

import Sfsdb.Confinement
import Sfsdb.History
import Sfsdb.Logs
import Sfsdb.Traces

/-!
The descriptors and mappings of a process that serves a GET. get opens the data
file itself, maps it and sends it; it gives both back only behind its last
write. Every other exit behind the open (a mapping that is refused, as that of
an empty file always is, and an `io_error` of any of the three writes) keeps
what was opened by then.
-/

namespace Sfsdb.Resources

open Posix Storage Handlers
open History (silent)

/-! ## What may become of a call -/

/-- A write to the peer may be short, or throw behind some of its bytes; every
other call may fail and change nothing, but for unlocking and closing what is open. -/
def Inflicted (p : Pid) : (c : Call) → Kernel → Resp c → Kernel → Prop
  | .send _, k, _, k' => ∃ bytes, k' = k.said p bytes
  | .unlock _, _, _, _ => False
  | .close _, _, _, _ => False
  | c, k, r, k' => k' = k ∧ Kernel.Fails c r

def Takes (p : Pid) (c : Call) (k : Kernel) (r : Resp c) (k' : Kernel) : Prop :=
  k.Does p c r k' ∨ Inflicted p c k r k'

/-- A mapping that is refused, and a write that throws. -/
def mishap : Sigma Resp → Bool
  | ⟨.mmap _ _, .error _⟩ => true
  | ⟨.send _, .error _⟩ => true
  | _ => false

def Clean (log : List (Sigma Resp)) : Prop := ∀ event ∈ log, mishap event = false

/-! ## The tables -/

/-- The open descriptors of a process: what each stands for, and how it was opened. -/
def openFds (k : Kernel) (p : Pid) (fd : Fd) : Option (Option Ino × Flags) :=
  (k.descOf p fd).map fun d => (d.ino, d.flags)

def mappings (k : Kernel) (p : Pid) (map : Nat) : Option Mapping :=
  (k.maps map).filter fun m => m.pid = p

structure Numbered (k : Kernel) : Prop where
  fds : Volume.Tabled k
  maps : ∀ map, k.nextMap ≤ map → k.maps map = none

variable {p : Pid} {k k' : Kernel} {fd : Fd} {d : Description}

theorem openFds_setPos (found : k.descOf p fd = some d) (pos : Nat) :
    openFds (k.setPos fd d pos) p = openFds k p := by
  funext other
  by_cases same : other = fd
  · simp [openFds, Kernel.descOf_setPos _ (Kernel.descOf_pid found), same, found]
  · simp [openFds, Kernel.descOf_setPos _ (Kernel.descOf_pid found), same]

theorem openFds_addDesc (own : d.pid = p) :
    openFds (k.addDesc d) p = Function.update (openFds k p) k.nextFd (some (d.ino, d.flags)) := by
  funext other
  by_cases same : other = k.nextFd
  · simp [openFds, Kernel.descOf_addDesc own, same]
  · simp [openFds, Kernel.descOf_addDesc own, same]

theorem openFds_dropDesc : openFds (k.dropDesc fd) p = Function.update (openFds k p) fd none := by
  funext other
  by_cases same : other = fd
  · simp [openFds, Kernel.descOf_dropDesc, same]
  · simp [openFds, Kernel.descOf_dropDesc, same]

theorem openFds_unused (numbered : Numbered k) : openFds k p k.nextFd = none := by
  simp [openFds, Kernel.descOf, numbered.fds k.nextFd (Nat.le_refl _)]

theorem mappings_unused (numbered : Numbered k) : mappings k p k.nextMap = none := by
  simp [mappings, numbered.maps k.nextMap (Nat.le_refl _)]

theorem given_back {β : Type} {table : Nat → Option β} {n : Nat} (unused : table n = none)
    (entry : Option β) : Function.update (Function.update table n entry) n none = table := by
  -- What is taken under an unused number and given back leaves a table as it was.
  rw [Function.update_idem, ← unused, Function.update_eq_self]

theorem still_held {β : Type} {table : Nat → Option β} {n : Nat} (unused : table n = none)
    (entry : β) : Function.update table n (some entry) ≠ table := by
  intro same
  have here := congrFun same n
  rw [Function.update_self, unused] at here
  cases here

theorem mapFile_cases {len : Nat} {r : Except Errno Nat} (answered : k.mapFile p fd len = (r, k')) :
    (∃ e, r = .error e ∧ k' = k) ∨
    ∃ ino, r = .ok k.nextMap ∧ k' = { k with
      maps := Function.update k.maps k.nextMap (some ⟨p, ino, len⟩)
      nextMap := k.nextMap + 1 } := by
  unfold Kernel.mapFile at answered
  split at answered
  · cases answered
    exact Or.inl ⟨_, rfl, rfl⟩
  · split at answered
    · cases answered
      exact Or.inl ⟨_, rfl, rfl⟩
    · split at answered
      · cases answered
        exact Or.inl ⟨_, rfl, rfl⟩
      · split at answered
        · cases answered
          exact Or.inl ⟨_, rfl, rfl⟩
        · cases answered
          exact Or.inr ⟨_, rfl, rfl⟩

theorem Numbered.does {c : Call} {r : Resp c} (numbered : Numbered k) (step : Kernel.Does p c k r k') :
    Numbered k' := by
  refine ⟨Volume.exec_tabled step numbered.fds, ?_⟩
  cases c with
  | mmap fd len =>
      rcases mapFile_cases (Option.some.inj step) with ⟨_, _, rfl⟩ | ⟨ino, _, rfl⟩
      · exact numbered.maps
      · intro map above
        have past : k.nextMap + 1 ≤ map := above
        change Function.update k.maps k.nextMap _ map = none
        rw [Function.update_of_ne (Nat.ne_of_gt past)]
        exact numbered.maps map (Nat.le_of_succ_le past)
  | munmap map =>
      cases step
      intro other above
      change Function.update k.maps map none other = none
      by_cases same : other = map
      · rw [same, Function.update_self]
      · rw [Function.update_of_ne same]
        exact numbered.maps other above
  | _ => cases Kernel.exec_update step <;> exact numbered.maps

structure Stands (p : Pid) (fds : Fd → Option (Option Ino × Flags)) (maps : Nat → Option Mapping)
    (k : Kernel) : Prop where
  fds : openFds k p = fds
  maps : mappings k p = maps
  numbered : Numbered k

variable {fds : Fd → Option (Option Ino × Flags)} {maps : Nat → Option Mapping}

/-! ## One call -/

def Looks : Call → Prop
  | .open _ _ | .close _ | .mmap _ _ | .munmap _ => False
  | _ => True

theorem Stands.looks {c : Call} {r : Resp c} (stands : Stands p fds maps k) (looks : Looks c)
    (step : Takes p c k r k') : Stands p fds maps k' := by
  rcases step with answered | inflicted
  · have numbered := stands.numbered.does answered
    cases Kernel.exec_update answered with
    | opened | closed | freed | mapped | unmapped => exact looks.elim
    | read found | sought found =>
        exact ⟨(openFds_setPos found _).trans stands.fds, stands.maps, numbered⟩
    | wrote found _ =>
        exact ⟨(openFds_setPos (k := k.setData _ _) found _).trans stands.fds, stands.maps, numbered⟩
    | _ => exact ⟨stands.fds, stands.maps, numbered⟩
  · cases c with
    | send bytes =>
        rcases inflicted with ⟨said, rfl⟩
        exact ⟨stands.fds, stands.maps, stands.numbered.fds, stands.numbered.maps⟩
    | unlock | close => exact inflicted.elim
    | _ =>
        rcases inflicted with ⟨rfl, _⟩
        exact stands

theorem Stands.open {path : Bytes} {mode : Flags} {r : Except Errno Fd}
    (stands : Stands p fds maps k) (step : Takes p (.open path mode) k r k') :
    (∃ e, e ≠ 0 ∧ r = .error e ∧ Stands p fds maps k') ∨
    ∃ fd entry, r = .ok fd ∧ fds fd = none ∧ Stands p (Function.update fds fd (some entry)) maps k' := by
  rcases step with answered | ⟨rfl, e, some, rfl⟩
  · have numbered := stands.numbered.does answered
    have opened : k.openFile p path mode = (r, k') := Option.some.inj answered
    cases r with
    | error e =>
        rcases Volume.open_error opened with ⟨some, rfl⟩
        exact Or.inl ⟨e, some, rfl, stands⟩
    | ok fd =>
        right
        rw [Kernel.openFile_eq] at opened
        split at opened
        · cases opened
        · rename_i ino f _
          cases opened
          have unused := openFds_unused (p := p) stands.numbered
          rw [stands.fds] at unused
          refine ⟨k.nextFd, (ino, mode), rfl, unused, ?_, stands.maps, numbered⟩
          rw [openFds_addDesc rfl, ← stands.fds]
          rfl
  · exact Or.inl ⟨e, some, rfl, stands⟩

theorem openFds_found {entry : Option Ino × Flags} (held : openFds k p fd = some entry) :
    ∃ d, k.descOf p fd = some d := by
  rcases Option.map_eq_some_iff.mp held with ⟨d, found, _⟩
  exact ⟨d, found⟩

theorem unlock_held {entry : Option Ino × Flags} {r : Except Errno Unit}
    (held : openFds k p fd = some entry) (step : Takes p (.unlock fd) k r k') : r = .ok () := by
  rcases openFds_found held with ⟨d, found⟩
  rcases step with answered | ⟨⟨⟩⟩
  simp only [Kernel.Does, Kernel.exec, Kernel.unlockFile, found, Option.some.injEq] at answered
  split at answered
  · cases answered
    rfl
  · cases answered
    rfl

theorem Stands.close {entry : Option Ino × Flags} {r : Except Errno Unit}
    (stands : Stands p (Function.update fds fd (some entry)) maps k) (unused : fds fd = none)
    (step : Takes p (.close fd) k r k') : Stands p fds maps k' := by
  have held : openFds k p fd = some entry := by
    rw [stands.fds, Function.update_self]
  rcases openFds_found held with ⟨d, found⟩
  rcases step with answered | ⟨⟨⟩⟩
  have numbered := stands.numbered.does answered
  have dropped : openFds k' p = Function.update (openFds k p) fd none ∧
      mappings k' p = mappings k p := by
    simp only [Kernel.Does, Kernel.exec, Kernel.closeFile, found, Option.some.injEq] at answered
    split at answered
    · cases answered
      exact ⟨openFds_dropDesc, rfl⟩
    · cases answered
      exact ⟨openFds_dropDesc, rfl⟩
  rcases dropped with ⟨fewer, same⟩
  refine ⟨?_, same.trans stands.maps, numbered⟩
  rw [fewer, stands.fds, given_back unused]

theorem mappings_update {m : Option Mapping} {map : Nat} (same : k'.maps = Function.update k.maps map m) :
    mappings k' p = Function.update (mappings k p) map (m.filter fun m => m.pid = p) := by
  funext other
  by_cases here : other = map
  · subst here
    simp [mappings, same]
  · simp [mappings, same, here]

theorem Stands.mmap {len : Nat} {r : Except Errno Nat} (stands : Stands p fds maps k)
    (step : Takes p (.mmap fd len) k r k') :
    (∃ e, r = .error e ∧ Stands p fds maps k') ∨
    ∃ map entry, r = .ok map ∧ maps map = none ∧
      Stands p fds (Function.update maps map (some entry)) k' := by
  rcases step with answered | ⟨rfl, e, _, rfl⟩
  · have numbered := stands.numbered.does answered
    rcases mapFile_cases (Option.some.inj answered) with ⟨e, rfl, rfl⟩ | ⟨ino, rfl, rfl⟩
    · exact Or.inl ⟨e, rfl, stands⟩
    · right
      have unused := mappings_unused (p := p) stands.numbered
      rw [stands.maps] at unused
      refine ⟨k.nextMap, ⟨p, ino, len⟩, rfl, unused, stands.fds, ?_, numbered⟩
      have own : (some (⟨p, ino, len⟩ : Mapping)).filter (fun m => m.pid = p) = some ⟨p, ino, len⟩ := by
        simp
      rw [mappings_update (k := k) rfl, stands.maps, own]
  · exact Or.inl ⟨e, rfl, stands⟩

theorem Stands.munmap {map : Nat} {entry : Mapping}
    (stands : Stands p fds (Function.update maps map (some entry)) k) (unused : maps map = none)
    {r : Unit} (step : Takes p (.munmap map) k r k') : Stands p fds maps k' := by
  rcases step with answered | ⟨_, ⟨⟩⟩
  have numbered := stands.numbered.does answered
  cases answered
  refine ⟨stands.fds, ?_, numbered⟩
  rw [mappings_update (k := k) rfl, stands.maps]
  exact given_back unused _

/-! ## Runs with their log -/

/-- The calls of process `p` beside the log they leave. -/
abbrev Books (p : Pid) (c : Call) (s : Kernel × List (Sigma Resp)) (r : Resp c)
    (t : Kernel × List (Sigma Resp)) : Prop :=
  Program.logged (Takes p) c s r t

structure At (p : Pid) (fds : Fd → Option (Option Ino × Flags)) (maps : Nat → Option Mapping)
    (s : Kernel × List (Sigma Resp)) : Prop where
  stands : Stands p fds maps s.1
  clean : Clean s.2

variable {s t : Kernel × List (Sigma Resp)}

theorem clean_append {log : List (Sigma Resp)} {event : Sigma Resp} :
    Clean (log ++ [event]) ↔ Clean log ∧ mishap event = false := by
  simp [Clean, or_imp, forall_and]

def Quiet (c : Call) : Prop := Looks c ∧ ∀ r, mishap ⟨c, r⟩ = false

def Idle {α : Type} (R : α → Prop) (program : Prog α) : Prop :=
  Program.Within Quiet (fun _ _ => True) R program

variable {α : Type} {R : α → Prop} {program : Prog α} {value : α}

theorem Idle.at (idle : Idle R program) (run : Program.Runs (Books p) program s value t)
    (here : At p fds maps s) : R value ∧ At p fds maps t := by
  have respects : Program.Respects Quiet (fun _ _ => True) (Takes p) (Stands p fds maps) := by
    intro c k r k' quiet stands step
    exact ⟨trivial, stands.looks quiet.1 step⟩
  have ends := Program.Within.logs (fun event => mishap event = false)
    respects (fun c r quiet => quiet.2 r) idle run here.stands here.clean
  rcases ends with ⟨returned, stands, clean⟩
  exact ⟨returned, stands, clean⟩

theorem idle_issue {c : Call} (quiet : Quiet c) : Idle (fun _ => True) (Program.issue c) :=
  Program.within_issue quiet fun _ _ => trivial

theorem At.issues {c : Call} {r : Resp c} (here : At p fds maps s)
    (run : Program.Runs (Books p) (Program.issue c) s r t) :
    Takes p c s.1 r t.1 ∧ (Clean t.2 ↔ mishap ⟨c, r⟩ = false) := by
  rcases Program.runs_issue_iff.mp run with ⟨step, log⟩
  refine ⟨step, ?_⟩
  rw [log, clean_append]
  exact ⟨fun both => both.2, fun quiet => ⟨here.clean, quiet⟩⟩

/-! ## Streams -/

theorem lock_idle {st : Flstream} (own : st.fd = some fd) (kind : LockKind) :
    Idle (fun st' => st'.fd = some fd) (st.lock kind) := by
  unfold Flstream.lock
  rw [own]
  apply (idle_issue (c := .lock fd kind) ⟨trivial, fun _ => rfl⟩).bind
  intro r _
  apply Program.Within.done
  exact (st.outcome_follows r).trans own

theorem idle_readable (fd : Option Fd) :
    Flstream.Readable Quiet (fun _ _ => True) (fun _ => True) fd where
  read _ _ _ := ⟨trivial, fun _ => rfl⟩
  tell _ _ := ⟨trivial, fun _ => rfl⟩
  seek _ _ _ := ⟨trivial, fun _ => rfl⟩
  yields _ _ _ _ _ _ := trivial

theorem getline_idle {st : Flstream} (own : st.fd = some fd) (delim : Byte) :
    Idle (fun r => r.2.2.fd = some fd) (st.getline delim) :=
  (Flstream.getline_within (idle_readable st.fd) delim).mono fun _ read => read.1.trans own

theorem new_at {path : Bytes} {mode : Flags} {st : Flstream}
    (run : Program.Runs (Books p) (Flstream.new path mode) s st t) (here : At p fds maps s) :
    (st.fd = none ∧ st.fail = true ∧ At p fds maps t) ∨
    ∃ fd entry, st = ⟨some fd, 0⟩ ∧ fds fd = none ∧ At p (Function.update fds fd (some entry)) maps t := by
  rcases Program.runs_bind_split run with ⟨r, middle, opens, rest⟩
  rcases here.issues (c := .open path mode) opens with ⟨step, quiet⟩
  have clean := quiet.mpr rfl
  rcases here.stands.open step with ⟨e, some, rfl, stands⟩ | ⟨fd, entry, rfl, unused, stands⟩
  · cases rest
    exact Or.inl ⟨rfl, (Flstream.fail_iff none e).mpr some, stands, clean⟩
  · cases rest
    exact Or.inr ⟨fd, entry, rfl, unused, stands, clean⟩

theorem close_unopened {st st' : Flstream} (unopened : st.fd = none)
    (run : Program.Runs (Books p) st.close s st' t) : t = s := by
  unfold Flstream.close Flstream.unlockFile at run
  rw [unopened] at run
  cases run
  rfl

theorem close_at {st st' : Flstream} {entry : Option Ino × Flags} (own : st.fd = some fd)
    (unused : fds fd = none) (run : Program.Runs (Books p) st.close s st' t)
    (here : At p (Function.update fds fd (some entry)) maps s) : At p fds maps t := by
  rcases Program.runs_bind_split run with ⟨unlocked, middle, unlocks, rest⟩
  unfold Flstream.unlockFile at unlocks
  rw [own] at unlocks
  rcases Program.runs_bind_split unlocks with ⟨r, _, issues, done⟩
  cases done
  rcases here.issues (c := .unlock fd) issues with ⟨step, quiet⟩
  have held : openFds s.1 p fd = some entry := by
    rw [here.stands.fds, Function.update_self]
  obtain rfl := unlock_held held step
  have stands := here.stands.looks (c := .unlock fd) trivial step
  have between : At p (Function.update fds fd (some entry)) maps middle := ⟨stands, quiet.mpr rfl⟩
  have works : (st.outcome (.ok () : Except Errno Unit)).fail = false := rfl
  have same : (st.outcome (.ok () : Except Errno Unit)).fd = some fd := own
  simp only [works, same, Bool.false_eq_true, ↓reduceIte] at rest
  rcases Program.runs_bind_split rest with ⟨r, _, issues, done⟩
  cases done
  rcases between.issues (c := .close fd) issues with ⟨step, quiet⟩
  exact ⟨between.stands.close unused step, quiet.mpr rfl⟩

/-! ## What get does -/

theorem byId_at {id : Bytes} {r : Except Error Object}
    (run : Program.Runs (Books p) (byId id) s r t) (here : At p fds maps s) : At p fds maps t := by
  rcases Program.runs_bind_split run with ⟨st, _, opens, rest⟩
  rcases new_at opens here with ⟨unopened, failed, here⟩ | ⟨fd, entry, rfl, unused, here⟩
  · rw [if_pos failed] at rest
    rcases Program.runs_bind_split rest with ⟨_, _, closes, done⟩
    cases done
    rw [close_unopened unopened closes]
    exact here
  · rcases Program.runs_bind_split rest with ⟨st, _, locks, rest⟩
    rcases (lock_idle rfl .read).at locks here with ⟨own, here⟩
    rcases Program.runs_bind_split rest with ⟨read, _, lines, rest⟩
    rcases (getline_idle own SEPARATOR).at lines here with ⟨own, here⟩
    rcases Program.runs_bind_split rest with ⟨_, _, closes, done⟩
    cases done
    exact close_at own unused closes here

theorem getId_at {id : Bytes} {r : Except Error Object}
    (run : Program.Runs (Books p) (Volume.getId id) s r t) (here : At p fds maps s) :
    At p fds maps t := by
  rcases Program.runs_bind_split run with ⟨found, _, looks, rest⟩
  have here := byId_at looks here
  cases found with
  | error e =>
      cases rest
      exact here
  | ok _ => exact byId_at rest here

theorem details_at {object : Object} {r : Except Error Nat}
    (run : Program.Runs (Books p) object.details s r t) (here : At p fds maps s) : At p fds maps t := by
  rcases Program.runs_bind_split run with ⟨found, _, stats, rest⟩
  obtain ⟨_, here⟩ :=
    (idle_issue (c := .stat (DATA_DIR ++ object.id)) ⟨trivial, fun _ => rfl⟩).at stats here
  cases found with
  | error e =>
      cases rest
      exact here
  | ok size =>
      cases rest
      exact here

structure Leaks (p : Pid) (fds : Fd → Option (Option Ino × Flags)) (s : Kernel × List (Sigma Resp)) :
    Prop where
  mishap : ¬ Clean s.2
  holds : openFds s.1 p ≠ fds

variable {entry : Option Ino × Flags} {map : Nat} {m : Mapping}

theorem leaks_of_stands (unused : fds fd = none) (mishap : ¬ Clean s.2)
    (stands : Stands p (Function.update fds fd (some entry)) maps s.1) : Leaks p fds s :=
  ⟨mishap, stands.fds ▸ still_held unused entry⟩

theorem send_at {bytes : Bytes} {r : Except Unit Unit} (unused : fds fd = none)
    (run : Program.Runs (Books p) (Sys.send bytes) s r t)
    (here : At p (Function.update fds fd (some entry)) maps s) :
    (∃ e, r = .error e ∧ Leaks p fds t) ∨
    r = .ok () ∧ At p (Function.update fds fd (some entry)) maps t := by
  rcases here.issues (c := .send bytes) run with ⟨step, quiet⟩
  have stands := here.stands.looks (c := .send bytes) trivial step
  cases r with
  | error e =>
      have mishap : ¬ Clean t.2 := by
        rw [quiet]
        exact Bool.noConfusion
      exact Or.inl ⟨e, rfl, leaks_of_stands unused mishap stands⟩
  | ok _ => exact Or.inr ⟨rfl, stands, quiet.mpr rfl⟩

theorem sendFile_at {fsize : Nat} {reply : Reply} (unused : fds fd = none) (unmapped : maps map = none)
    (run : Program.Runs (Books p) (sendFile fd map fsize) s reply t)
    (here : At p (Function.update fds fd (some entry)) (Function.update maps map (some m)) s) :
    At p fds maps t ∨ Leaks p fds t := by
  rcases Program.runs_bind_split run with ⟨r, _, sends, rest⟩
  rcases send_at unused sends here with ⟨e, rfl, leaks⟩ | ⟨rfl, here⟩
  · cases rest
    exact Or.inr leaks
  rcases Program.runs_bind_split rest with ⟨bytes, _, loads, rest⟩
  rcases (idle_issue (c := .load map fsize) ⟨trivial, fun _ => rfl⟩).at loads here with ⟨_, here⟩
  rcases Program.runs_bind_split rest with ⟨r, _, sends, rest⟩
  rcases send_at unused sends here with ⟨e, rfl, leaks⟩ | ⟨rfl, here⟩
  · cases rest
    exact Or.inr leaks
  rcases Program.runs_bind_split rest with ⟨r, _, sends, rest⟩
  rcases send_at unused sends here with ⟨e, rfl, leaks⟩ | ⟨rfl, here⟩
  · cases rest
    exact Or.inr leaks
  -- the only way out that gives back the mapping and the descriptor
  rcases Program.runs_bind_split rest with ⟨_, middle, unmaps, rest⟩
  rcases here.issues (c := .munmap map) unmaps with ⟨step, quiet⟩
  have here : At p (Function.update fds fd (some entry)) maps middle :=
    ⟨here.stands.munmap unmapped step, quiet.mpr rfl⟩
  rcases Program.runs_bind_split rest with ⟨r, _, closes, done⟩
  cases done
  rcases here.issues (c := .close fd) closes with ⟨step, quiet⟩
  exact Or.inl ⟨here.stands.close unused step, quiet.mpr rfl⟩

theorem getFile_at {libc : Libc} {fid : Bytes} {reply : Option Reply}
    (run : Program.Runs (Books p) (getFile libc fid) s reply t) (here : At p fds maps s) :
    At p fds maps t ∨ Leaks p fds t := by
  rcases Program.runs_bind_split run with ⟨found, _, looks, rest⟩
  have here := getId_at looks here
  cases found with
  | error e =>
      cases rest
      exact Or.inl here
  | ok file =>
      rcases Program.runs_bind_split rest with ⟨sized, _, stats, rest⟩
      have here := details_at stats here
      cases sized with
      | error e =>
          cases rest
          exact Or.inl here
      | ok size =>
          rcases Program.runs_bind_split rest with ⟨opened, s₁, opens, rest⟩
          rcases here.issues (c := .open file.dataPath Flstream.RDONLY) opens with ⟨step, quiet⟩
          rcases here.stands.open step with ⟨e, _, rfl, stands⟩ | ⟨fd, entry, rfl, unused, stands⟩
          · cases rest
            exact Or.inl ⟨stands, quiet.mpr rfl⟩
          have here : At p (Function.update fds fd (some entry)) maps s₁ := ⟨stands, quiet.mpr rfl⟩
          rcases Program.runs_bind_split rest with ⟨mapped, _, mmaps, rest⟩
          rcases here.issues (c := .mmap fd (size % 4294967296)) mmaps with ⟨step, quiet⟩
          rcases here.stands.mmap step with ⟨e, rfl, stands⟩ | ⟨map, m, rfl, unmapped, stands⟩
          · cases rest
            have mishap : ¬ Clean t.2 := by
              rw [quiet]
              exact Bool.noConfusion
            exact Or.inr (leaks_of_stands unused mishap stands)
          · rcases Program.runs_bind_split rest with ⟨_, _, sends, done⟩
            cases done
            exact sendFile_at unused unmapped sends ⟨stands, quiet.mpr rfl⟩

/-- A GET gives back every descriptor and mapping exactly where no mapping is refused and no write throws. -/
theorem get_gives_back_iff (libc : Libc) (body : Mem) (p : Pid) (k k' : Kernel)
    (program : Prog (Option Reply)) (reply : Option Reply) (log : List (Sigma Resp))
    (numbered : Numbered k) (handled : Handlers.get libc body = some program)
    (run : Program.Runs (Books p) program (k, []) reply (k', log)) :
    openFds k' p = openFds k p ∧ mappings k' p = mappings k p ↔ Clean log := by
  have start : At p (openFds k p) (mappings k p) (k, []) := by
    refine ⟨⟨rfl, rfl, numbered⟩, ?_⟩
    intro event member
    cases member
  have ends : At p (openFds k p) (mappings k p) (k', log) ∨ Leaks p (openFds k p) (k', log) := by
    rcases Option.map_eq_some_iff.mp handled with ⟨params, _, rfl⟩
    cases params with
    | error msg =>
        cases run
        exact Or.inl start
    | ok params => exact getFile_at run start
  rcases ends with here | leaks
  · exact ⟨fun _ => here.clean, fun _ => ⟨here.stands.fds, here.stands.maps⟩⟩
  · exact ⟨fun same => absurd same.1 leaks.holds, fun clean => absurd clean leaks.mishap⟩

section Examples

def fetched (data : Bytes) : Option ((Except Error Bytes × Kernel) × Option Reply × Kernel × List (Sigma Resp)) :=
  (Program.run (Kernel.exec 1) 100 (Volume.store (ascii "a") data)
    (Volume.initKernel fun _ => ascii "1")).bind fun stored =>
      (Program.run (Program.logging (Kernel.exec 2)) 100 (getFile silent (ascii "1")) (stored.2, [])).map
        fun result => (stored, result)

theorem fetched_runs {data : Bytes} {r : Except Error Bytes} {k k' : Kernel} {reply : Option Reply}
    {log : List (Sigma Resp)} (ran : fetched data = some ((r, k), reply, k', log)) :
    Runs 1 (Volume.store (ascii "a") data) (Volume.initKernel fun _ => ascii "1") r k ∧ Numbered k ∧
      Program.Runs (Books 2) (getFile silent (ascii "1")) (k, []) reply (k', log) := by
  rcases Option.bind_eq_some_iff.mp ran with ⟨stored, stores, rest⟩
  rcases Option.map_eq_some_iff.mp rest with ⟨_, fetches, same⟩
  cases same
  have run : Runs 1 (Volume.store (ascii "a") data) _ r k := Program.run_sound _ _ _ _ _ _ stores
  have begins : Numbered (Volume.initKernel fun _ => ascii "1") := ⟨fun _ _ => rfl, fun _ _ => rfl⟩
  refine ⟨run, ?_, ?_⟩
  · exact Program.runs_invariant Numbered (fun _ _ _ _ step kept => kept.does step) run begins
  · exact Program.logging_runs (fun _ _ _ _ answered => Or.inl answered) fetches

theorem get_one : Handlers.get silent (Mem.ofList (stringItem (ascii "1"))) =
    some (getFile silent (ascii "1")) :=
  Confinement.get_decodes silent (ascii "1") (by decide) (by decide)

/-- The GET of a file of one byte, in which nothing fails. -/
theorem get_gives_back_byte : ∃ k k' program reply log, Numbered k ∧
    Handlers.get silent (Mem.ofList (stringItem (ascii "1"))) = some program ∧
    Program.Runs (Books 2) program (k, []) reply (k', log) ∧ Clean log ∧
    (openFds k' 2 = openFds k 2 ∧ mappings k' 2 = mappings k 2 ↔ Clean log) := by
  have evaluated : (fetched [7]).map (fun result => result.2.2.2.any mishap) = some false := by rfl
  rcases Option.map_eq_some_iff.mp evaluated with ⟨⟨⟨_, k⟩, reply, k', log⟩, ran, quiet⟩
  rcases fetched_runs ran with ⟨_, numbered, run⟩
  have clean : Clean log := by
    intro event member
    simpa using List.any_eq_false.mp quiet event member
  exact ⟨k, k', getFile silent (ascii "1"), reply, log, numbered, get_one, run, clean,
    get_gives_back_iff silent _ 2 k k' _ reply log numbered get_one run⟩

/-- Nothing of an empty file can be mapped: a GET of it leaves its descriptor open. -/
theorem empty_file_stays_open : ∃ k k' program reply log,
    Runs 1 (Volume.store (ascii "a") []) (Volume.initKernel fun _ => ascii "1") (.ok (ascii "1")) k ∧
    Handlers.get silent (Mem.ofList (stringItem (ascii "1"))) = some program ∧
    Program.Runs (Books 2) program (k, []) reply (k', log) ∧
    openFds k 2 7 = none ∧ openFds k' 2 7 = some (some 2, Flstream.RDONLY) ∧
    ¬ (openFds k' 2 = openFds k 2 ∧ mappings k' 2 = mappings k 2) := by
  have evaluated : (fetched []).map (fun result =>
      (result.1.1, openFds result.1.2 2 7, openFds result.2.2.1 2 7)) =
      some (.ok (ascii "1"), none, some (some 2, Flstream.RDONLY)) := by rfl
  rcases Option.map_eq_some_iff.mp evaluated with ⟨⟨⟨_, k⟩, reply, k', log⟩, ran, tables⟩
  simp only [Prod.mk.injEq] at tables
  rcases tables with ⟨rfl, before, after⟩
  rcases fetched_runs ran with ⟨stores, _, run⟩
  refine ⟨k, k', _, reply, log, stores, get_one, run, before, after, fun same => ?_⟩
  rw [same.1, before] at after
  cases after

end Examples

end Sfsdb.Resources

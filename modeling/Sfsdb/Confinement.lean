import Sfsdb.Session
import Sfsdb.StorageCalls
import Sfsdb.VolumeRuns

/-!
Which files a request can reach. The strings of a request become paths as they
come, so a request is confined to the directories of the volume exactly as far
as its own string, and for del the name recorded under it, name components. The
programs of all handlers are followed through every point they can reach.
-/

namespace Sfsdb.Confinement

open Posix Protocol Handlers Volume Footprint
open Session (Command)

def pathOf : Call → Option Bytes
  | .open path _ | .remove path | .stat path => some path
  | _ => none

/-- The path of a call, if it has one that resolves, leads to a direct child of
the directory it begins with. -/
def Confined (f : Files) (c : Call) : Prop :=
  ∀ path q, pathOf c = some path → f.resolve path = .ok q →
    ∃ (d : Dir) (rest y : Bytes), path = d.text ++ rest ∧ q = entry f d y

def Inside (path : Bytes) : Prop := ∃ (d : Dir) (x y : Bytes), path = d.text ++ x ∧ Names x y

def inside : Footprint where
  opens path _ := Inside path
  removes path := Inside path
  stats path := Inside path
  writes := True
  talks := True
  draws id := PlainName id

structure Keeps (k : Kernel) (s : Kernel) : Prop where
  sane : Sane s.files
  source : s.source = k.source

theorem Inside.resolved {path : Bytes} {f : Files} (here : Inside path) (layout : Layout f) :
    ∃ (d : Dir) (rest y : Bytes), path = d.text ++ rest ∧ f.resolve path = .ok (entry f d y) := by
  obtain ⟨d, x, y, rfl, names⟩ := here
  exact ⟨d, x, y, rfl, resolve_entry f layout d names⟩

theorem confined_of_covered {s : Kernel} {c : Call} (sane : Sane s.files) (covered : inside.Covers c) :
    Confined s.files c := by
  intro path q has resolved
  have here : Inside path := by
    cases c <;> simp only [pathOf, Option.some.injEq, reduceCtorEq] at has <;> exact has ▸ covered
  obtain ⟨d, rest, y, same, leads⟩ := here.resolved sane.layout
  rw [leads] at resolved
  exact ⟨d, rest, y, same, (Except.ok.inj resolved).symm⟩

/-! ## The volume stays sane -/

theorem open_sane {s : Kernel} {p : Pid} {path : Bytes} {mode : Flags} (sane : Sane s.files)
    (here : Inside path) : Sane (s.openFile p path mode).2.files := by
  obtain ⟨d, _, y, _, leads⟩ := here.resolved sane.layout
  simp only [Kernel.openFile, leads]
  rcases sane.entry_cases d y with ⟨i, file, _⟩ | ⟨absent, _⟩
  · simp only [file]
    split
    · exact sane.setData i []
    · exact sane
  · simp only [absent]
    split
    · exact (Turns.create sane absent).sane
    · exact sane

theorem remove_sane {s : Kernel} {path : Bytes} (sane : Sane s.files) (here : Inside path) :
    Sane (s.removeFile path).2.files := by
  obtain ⟨d, _, y, _, leads⟩ := here.resolved sane.layout
  simp only [Kernel.removeFile, leads]
  rcases sane.entry_cases d y with ⟨i, file, _⟩ | ⟨absent, _⟩
  · simp only [file]
    exact (Turns.unlink sane).sane
  · simp only [absent]
    exact sane

theorem inside_respects (p : Pid) (k : Kernel) (draws : ∀ n, PlainName (k.source n)) :
    Program.Respects inside.Covers inside.Answers (Kernel.Does p) (Keeps k) := by
  intro c s r t covered keeps step
  have answered : s.exec p c = some (r, t) := step
  refine ⟨?_, ?_, (Kernel.exec_source answered).trans keeps.source⟩
  · cases c with
    | draw =>
        simp only [Kernel.exec, Option.some.injEq, Prod.mk.injEq] at answered
        rw [← answered.1, keeps.source]
        exact draws s.drawn
    | _ => trivial
  · cases c with
    | «open» path mode =>
        simp only [Kernel.exec] at answered
        rw [Kernel.exec_snd answered]
        exact open_sane keeps.sane covered
    | remove path =>
        simp only [Kernel.exec] at answered
        rw [Kernel.exec_snd answered]
        exact remove_sane keeps.sane covered
    | write fd bytes =>
        cases Kernel.exec_update answered with
        | same => exact keeps.sane
        | wrote => exact keeps.sane.setData _ _
    | ftruncate fd len =>
        cases Kernel.exec_update answered with
        | same => exact keeps.sane
        | cut => exact keeps.sane.setData _ _
    | _ =>
        rw [Kernel.exec_files (by exact trivial) answered]
        exact keeps.sane

/-! ## The programs of the handlers -/

section Programs
variable {libc : Libc} {p : Pid} {k : Kernel} {id name y z : Bytes}

theorem inside_text (d : Dir) {x : Bytes} (names : Names x y) : Inside (d.text ++ x) :=
  ⟨d, x, y, rfl, names⟩

theorem inside_id (names : Names id y) : Inside (Storage.ID_DIR ++ id) := inside_text .byId names
theorem inside_name (names : Names name y) : Inside (Storage.NAME_DIR ++ name) :=
  inside_text .byName names
theorem inside_data (names : Names id y) : Inside (Storage.DATA_DIR ++ id) := inside_text .data names

theorem sendFile_inside (fd map fsize : Nat) : inside.Holds Any (sendFile fd map fsize) := by
  have sends : ∀ bytes, inside.Holds Any (Sys.send bytes) := fun bytes =>
    (holds_issue (F := inside) (c := .send bytes) trivial).any
  apply (sends _).bind
  intro sent _
  cases sent with
  | error _ => exact holds_done trivial
  | ok _ =>
      refine (holds_issue (F := inside) (c := .load map fsize) trivial).bind fun bytes _ => ?_
      apply (sends bytes).bind
      intro sent _
      cases sent with
      | error _ => exact holds_done trivial
      | ok _ =>
          apply (sends [MAGIC]).bind
          intro sent _
          cases sent with
          | error _ => exact holds_done trivial
          | ok _ =>
              exact (holds_issue (F := inside) (c := .munmap map) trivial).bind fun _ _ =>
                (holds_issue (F := inside) (c := .close fd) trivial).bind fun _ _ => holds_done trivial

theorem getFile_inside (names : Names id y) : inside.Holds Any (getFile libc id) := by
  apply (getId_holds id (inside_id names)).bind
  intro found same
  cases found with
  | error e => exact holds_done trivial
  | ok object =>
      obtain ⟨rfl, path⟩ := same object rfl
      apply (Storage.details_holds object (inside_data names)).bind
      intro detailed _
      cases detailed with
      | error e => exact holds_done trivial
      | ok size =>
          dsimp only
          rw [path]
          refine (holds_issue (F := inside) (c := .open (Storage.DATA_DIR ++ object.id) Flstream.RDONLY)
            (inside_data names)).bind fun opened _ => ?_
          cases opened with
          | error e => exact holds_done trivial
          | ok fd =>
              refine (holds_issue (F := inside) (c := .mmap fd (size % 4294967296)) trivial).bind
                fun mapped _ => ?_
              cases mapped with
              | error e => exact holds_done trivial
              | ok map =>
                  exact (sendFile_inside fd map _).bind fun _ _ => holds_done trivial

theorem descFile_inside (names : Names id y) : inside.Holds Any (descFile libc id) := by
  apply (getId_holds id (inside_id names)).bind
  intro found same
  cases found with
  | error e => exact holds_done trivial
  | ok object =>
      obtain ⟨rfl, _⟩ := same object rfl
      apply (Storage.details_holds object (inside_data names)).bind
      intro detailed _
      cases detailed with
      | error e => exact holds_done trivial
      | ok size =>
          apply (getId_holds object.id (inside_id names)).bind
          intro again _
          cases again <;> exact holds_done trivial

theorem listFiles_inside (names : Names name y) : inside.Holds Any (listFiles libc name) := by
  apply (Storage.byName_holds name (inside_name names)).bind
  intro listed _
  cases listed <;> exact holds_done trivial

theorem putFile_inside (names : Names name y) (data : Bytes) :
    inside.Holds Any (putFile libc name data) := by
  refine (store_holds name data trivial (inside_name names) fun id drawn => ?_).bind
    fun stored _ => ?_
  · have plain := Names.of_plain drawn
    exact ⟨inside_id plain, inside_data plain, inside_id plain, inside_data plain⟩
  · cases stored <;> exact holds_done trivial

/-- What a request has to satisfy to be confined: its own string names a
component, and what del finds recorded under it does too. -/
structure Plain (k : Kernel) (c : Command) : Prop where
  own : ∃ y, Names c.text y
  recorded : ∀ id, c = .del id → ∀ y text, Names id y → record k.files .byId y = some text →
    ∃ z, Names (Records.first Storage.SEPARATOR text) z

theorem holds_confined {α : Type} {R : α → Prop} {program : Prog α} (holds : inside.Holds R program)
    (draws : ∀ n, PlainName (k.source n)) (sane : Sane k.files) {call : Call}
    {next : Resp call → Prog α} {k' : Kernel}
    (reach : Program.Reaches (Kernel.Does p) program k (.call call next) k') :
    Confined k'.files call := by
  obtain ⟨point, kept⟩ := holds.reaches (inside_respects p k draws) reach ⟨sane, rfl⟩
  exact confined_of_covered kept.sane point.covered

theorem remove_confined (ready : Ready k) (draws : ∀ n, PlainName (k.source n)) (names : Names id y)
    (recorded : ∀ text, record k.files .byId y = some text →
      ∃ z, Names (Records.first Storage.SEPARATOR text) z)
    {call : Call} {next : Resp call → Prog (Option (Except Error Unit))} {k' : Kernel}
    (reach : Program.Reaches (Kernel.Does p) (Volume.remove id) k (.call call next) k') :
    Confined k'.files call := by
  -- The removal works on the name that it finds recorded, so its second half is only known once the
  -- record has been read.
  rcases Program.reaches_call_split reach with ⟨later, first⟩ | ⟨found, middle, run, behind⟩
  · exact holds_confined (Storage.byId_holds id (inside_id names)) draws ready.sane first
  · cases holds : record k.files .byId y with
    | none =>
        obtain ⟨rfl, rfl⟩ := (gives_of_runs (byId_missing ready names holds) _ _).mp run
        exact holds_confined (R := Any) (holds_done trivial) draws ready.sane behind
    | some text =>
        obtain ⟨k₁, finds, change⟩ := byId_found (p := p) ready names holds
        obtain ⟨rfl, rfl⟩ := (gives_of_runs finds _ _).mp run
        obtain ⟨z, recorded⟩ := recorded text holds
        have rest := Storage.remove_holds (F := inside)
          ⟨id, Records.first Storage.SEPARATOR text, Storage.DATA_DIR ++ id⟩ trivial
          ⟨inside_id names, inside_data names, inside_name recorded⟩ (inside_name recorded)
        exact holds_confined rest (by rw [change.source]; exact draws) change.ready.sane behind

/-- Every path that a handler opens, stats or removes leads, if anywhere, to a
direct child of the directory it is meant for, provided the request names
components, the identifiers to be drawn are plain names and, for del, the name
recorded under the id names a component as well. -/
theorem requests_stay_inside (libc : Libc) (p : Pid) (no : Nat) (m : Mem) (handler : Handler)
    (program : Prog (Option Reply)) (k : Kernel) (known : no ∈ [1, 2, 3, 4, 5])
    (selected : select (commands libc) no = some handler) (decoded : handler m = some program)
    (ready : Ready k) (draws : ∀ n, PlainName (k.source n))
    (plain : ∀ c : Command, c.no = no → c.Decoded libc m → Plain k c)
    (call : Call) (next : Resp call → Prog (Option Reply)) (k' : Kernel)
    (reach : Program.Reaches (Kernel.Does p) program k (.call call next) k') :
    Confined k'.files call := by
  rcases Session.program_cases known selected decoded with ⟨msg, rfl⟩ | ⟨c, rfl, _, read, rfl⟩
  · exact holds_confined (R := Any) (holds_done trivial) draws ready.sane reach
  · obtain ⟨⟨y, names⟩, recorded⟩ := plain c rfl read
    cases c with
    | get id => exact holds_confined (getFile_inside names) draws ready.sane reach
    | put filename file => exact holds_confined (putFile_inside names file) draws ready.sane reach
    | desc id => exact holds_confined (descFile_inside names) draws ready.sane reach
    | list filename => exact holds_confined (listFiles_inside names) draws ready.sane reach
    | del id =>
        rcases Program.reaches_call_split reach with ⟨later, first⟩ | ⟨removed, middle, run, behind⟩
        · exact remove_confined ready draws names (recorded id rfl y · names ·) first
        · -- behind the removal only the reply is left
          rcases removed with _ | _ | _ <;> rcases behind with _ | ⟨⟨⟩, _⟩

end Programs

/-- The second open of an upload to a new volume: the index of its name is there by then. -/
theorem requests_stay_inside_upload : ∃ k' : Kernel, record k'.files .byName (ascii "a") = some [] ∧
    Confined k'.files (.open (Storage.ID_DIR ++ ascii "1") Storage.CREATE_FILE) := by
  have plain : PlainName (ascii "1") := by decide
  have libc : Libc := ⟨fun _ => ⟨[], by decide⟩, fun _ _ => ⟨[], by decide⟩, fun _ _ => none⟩
  have valid : (Command.put (ascii "a") [7]).Valid := ⟨by decide, by decide, by decide⟩
  obtain ⟨_, decoded, handler, selected, handled⟩ := Session.understood libc (fun _ => none) _ valid
  have own : ∀ c : Command, c.no = 2 →
      c.Decoded libc (Mem.followedBy (Command.put (ascii "a") [7]).body fun _ => none) →
      Plain (initKernel fun _ => ascii "1") c := by
    intro c no read
    cases c with
    | put name file =>
        cases decoded.symm.trans read
        exact ⟨⟨_, Names.of_plain (show PlainName (ascii "a") by decide)⟩, by simp⟩
    | _ => cases no
  have reach : Program.Reaches (Kernel.Does 1) (Command.served libc (.put (ascii "a") [7]))
      (initKernel fun _ => ascii "1") (.call (.open (Storage.ID_DIR ++ ascii "1") Storage.CREATE_FILE) _) _ :=
    .step (.call rfl) (.step (.call rfl) (.step (.call rfl) .refl))
  refine ⟨_, ?_, requests_stay_inside libc 1 2 _ _ _ _ (by decide) selected handled (initKernel_ready _)
    (fun _ => plain) own _ _ _ reach⟩
  rfl

theorem get_decodes (libc : Libc) (x : Bytes) (some : x ≠ []) (sized : x.length < 4294967296) :
    Handlers.get libc (Mem.ofList (stringItem x)) = .some (getFile libc x) := by
  rw [Handlers.get, withFile, fileParam_holds _ _ _ x some sized (Mem.ofList_holds _)]
  rfl

/-- A GET of "../../x" opens a file outside all three directories. -/
theorem requests_leave_the_volume :
    ¬ ∀ (libc : Libc) (p : Pid) (no : Nat) (m : Mem) (handler : Handler)
      (program : Prog (Option Reply)) (k : Kernel), no ∈ [1, 2, 3, 4, 5] →
      select (commands libc) no = some handler → handler m = some program → Ready k →
      (∀ n, PlainName (k.source n)) → ∀ (call : Call) (next : Resp call → Prog (Option Reply))
        (k' : Kernel), Program.Reaches (Kernel.Does p) program k (.call call next) k' →
        Confined k'.files call := by
  intro confined
  have libc : Libc := ⟨fun _ => ⟨[], by decide⟩, fun _ _ => ⟨[], by decide⟩, fun _ _ => none⟩
  have here := confined libc 1 1 _ _ _ (initKernel fun _ => ascii "1") (by decide) rfl
    (get_decodes libc (ascii "../../x") (by decide) (by decide)) (initKernel_ready _)
    (fun _ => show PlainName (ascii "1") by decide)
    (.open (Storage.ID_DIR ++ ascii "../../x") Flstream.RDONLY) _ _
    Program.Reaches.refl
  obtain ⟨d, rest, y, _, same⟩ := here _ [ascii "x"] rfl rfl
  have short := congrArg List.length same
  cases d <;> simp [entry, Dir.names, initKernel, initFiles] at short

end Sfsdb.Confinement

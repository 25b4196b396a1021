import Sfsdb.Interruption
import Sfsdb.Service
import Sfsdb.Traces

/-!
Requests that come to a bad end. Any of their system calls may fail, and their
process may be told to exit between any two of them; neither is repaired by
anything in the source. `Intact` is what a request leaves of a volume all the
same, at every point it can reach: the directories stand, the records that say
where a removal has to go are still such records, and only the entries of the id
that the request draws or removes have changed. So a file that was stored stays
stored, whatever happens to the requests behind it.
-/

namespace Sfsdb.Recovery

open Posix Volume Storage
open Session (Command)
open History (Request Kept)
open Service (Keeps Looks)

def Slashless (bytes : Bytes) : Prop := slash ∉ bytes

instance (bytes : Bytes) : Decidable (Slashless bytes) := inferInstanceAs (Decidable (slash ∉ bytes))

/-- Every state of a volume, on whatever way it came to be: no recorded name holds a slash. -/
structure Sturdy (k : Kernel) : Prop where
  standing : Standing k
  recorded : Shaped .byId Slashless k.files

/-- The entries of all ids but those that are `gone` are as they were. -/
structure Intact (gone : Bytes → Prop) (k k' : Kernel) : Prop where
  sturdy : Sturdy k'
  dirs : SameDirs k.files k'.files
  source : k'.source = k.source
  drawn : k.drawn ≤ k'.drawn
  kept : ∀ d id, d ≠ .byName → ¬ gone id → record k'.files d id = record k.files d id

/-- Names to be stored under and ids to be removed are components. -/
structure Plain (libc : Libc) (r : Request) : Prop where
  stores : ∀ name data, r.Asks libc (.put name data) → PlainName name
  removes : ∀ id, r.Asks libc (.del id) → PlainName id

/-- Requests one after the other, whose calls may fail. Each is served to its
end, or its process exits on the way. -/
inductive Lived (libc : Libc) : Kernel → List Request → Kernel → Prop where
  | nil {k : Kernel} : Lived libc k [] k
  | served {k k₁ k' : Kernel} {r : Request} {rest : List Request} {result : Unit ⊕ Unit × Server.End} :
      Program.Runs (Kernel.MayDo r.pid) (r.serve libc) k result k₁ → Lived libc k₁ rest k' →
      Lived libc k (r :: rest) k'
  | killed {k k₁ k' : Kernel} {r : Request} {rest : List Request} {point : Prog (Unit ⊕ Unit × Server.End)} :
      Program.Reaches (Kernel.MayDo r.pid) (r.serve libc) k point k₁ →
      Lived libc (Volume.exit k₁ r.pid) rest k' → Lived libc k (r :: rest) k'

section Intact
variable {gone gone' : Bytes → Prop} {k k₁ k' : Kernel}

theorem Intact.refl (sturdy : Sturdy k) : Intact gone k k :=
  ⟨sturdy, SameDirs.refl k.files, rfl, Nat.le_refl _, fun _ _ _ _ => rfl⟩

theorem Intact.trans (first : Intact gone k k₁) (second : Intact gone k₁ k') : Intact gone k k' where
  sturdy := second.sturdy
  dirs := first.dirs.trans second.dirs
  source := second.source.trans first.source
  drawn := first.drawn.trans second.drawn
  kept d id other spared := (second.kept d id other spared).trans (first.kept d id other spared)

theorem Intact.mono (intact : Intact gone k k') (more : ∀ id, gone id → gone' id) : Intact gone' k k' where
  sturdy := intact.sturdy
  dirs := intact.dirs
  source := intact.source
  drawn := intact.drawn
  kept d id other spared := intact.kept d id other fun lost => spared (more id lost)

theorem Intact.exit (intact : Intact gone k k') (p : Pid) : Intact gone k (Volume.exit k' p) where
  sturdy := by
    refine ⟨⟨intact.sturdy.standing.sane, fun fd above => ?_⟩, intact.sturdy.recorded⟩
    change (k'.desc fd).filter _ = none
    rw [intact.sturdy.standing.tabled fd above]
    rfl
  dirs := intact.dirs
  source := intact.source
  drawn := intact.drawn
  kept := intact.kept

end Intact

/-! ## Calls that may fail -/

section Calls
variable {p : Pid} {k k' : Kernel} {c : Call} {r : Resp c}

theorem mayDo_source (step : Kernel.MayDo p c k r k') : k'.source = k.source := by
  rcases step with answered | ⟨rfl, _⟩
  · exact Kernel.exec_source answered
  · rfl

theorem mayDo_drawn (step : Kernel.MayDo p c k r k') : k.drawn ≤ k'.drawn := by
  rcases step with answered | ⟨rfl, _⟩
  · cases Kernel.exec_update answered with
    | drew => exact Nat.le_succ _
    | _ => exact Nat.le_refl _
  · exact Nat.le_refl _

theorem mayDo_tabled (step : Kernel.MayDo p c k r k') (tabled : Tabled k) : Tabled k' := by
  rcases step with answered | ⟨rfl, _⟩
  · exact exec_tabled answered tabled
  · exact tabled

theorem reading_intact (reading : Kernel.Reading c) (step : Kernel.MayDo p c k r k') (sturdy : Sturdy k) :
    Intact (fun _ => False) k k' := by
  have files := Kernel.MayDo.files reading step
  refine ⟨⟨⟨?_, mayDo_tabled step sturdy.standing.tabled⟩, ?_⟩, ?_, mayDo_source step, mayDo_drawn step, ?_⟩
  · exact files ▸ sturdy.standing.sane
  · exact files ▸ sturdy.recorded
  · exact files ▸ SameDirs.refl k.files
  · intro d id _ _
    rw [files]

variable {α : Type} {program point : Prog α}

theorem reading_points (keeps : Keeps Kernel.Reading program) (sturdy : Sturdy k)
    (reach : Program.Reaches (Kernel.MayDo p) program k point k') : Intact (fun _ => False) k k' := by
  have respects : Program.Respects Kernel.Reading (fun _ _ => True) (Kernel.MayDo p)
      (Intact (fun _ => False) k) :=
    fun c s r t reading before step => ⟨trivial, before.trans (reading_intact reading step before.sturdy)⟩
  exact (Program.Within.reaches respects keeps reach (Intact.refl sturdy)).2

end Calls

/-! ## Writing no slash -/

def Tidy (c : Call) : Prop := ∀ fd bytes, c = .write fd bytes → Slashless bytes

def Draws : (c : Call) → Resp c → Prop
  | .draw, id => PlainName id
  | _, _ => True

section Tidy
variable {p : Pid} {k k' : Kernel} {f f' : Files} {α : Type} {R : α → Prop} {program : Prog α}

theorem Slashless.overwrite {old bytes : Bytes} (before : Slashless old) (new : Slashless bytes) (pos : Nat) :
    Slashless (Posix.overwrite old pos bytes) := by
  intro member
  simp only [Posix.overwrite, List.mem_append, List.mem_replicate] at member
  rcases member with ((front | fill) | new') | behind
  · exact before (List.mem_of_mem_take front)
  · exact absurd fill.2 (by decide)
  · exact new new'
  · exact before (List.mem_of_mem_drop behind)

theorem shaped_opens {d : Dir} {P : Bytes → Prop} {path : Bytes} {mode : Flags} {ino : Option Ino}
    (shaped : Shaped d P f) (empty : P []) (opened : f.opens path mode = .ok (ino, f')) : Shaped d P f' := by
  unfold Files.opens at opened
  split at opened
  · cases opened
  · rename_i q resolved
    split at opened
    · split at opened
      · cases opened
      · cases opened
        exact shaped
    · cases opened
      split
      · exact shaped.setData fun _ _ => empty
      · exact shaped
    · rename_i absent
      split at opened
      · rename_i creates
        cases opened
        exact shaped.opened empty (Files.Opened.created absent creates)
      · cases opened

theorem tidy_respects (p : Pid) (k₀ : Kernel) (draws : ∀ n, PlainName (k₀.source n)) :
    Program.Respects Tidy Draws (Kernel.MayDo p)
      (fun k => k.source = k₀.source ∧ Shaped .byId Slashless k.files) := by
  -- Where only bytes without a slash are written, all files keep to holding none.
  intro c k r k' tidy before step
  obtain ⟨source, shaped⟩ := before
  have same := (mayDo_source step).trans source
  have drawn : Draws c r := by
    cases c with
    | draw =>
        rcases step with answered | ⟨_, fails⟩
        · cases answered
          change PlainName (k.source k.drawn)
          rw [source]
          exact draws _
        · exact fails.elim
    | _ => trivial
  refine ⟨drawn, same, ?_⟩
  rcases step with answered | ⟨rfl, _⟩
  · have answered : k.exec p c = some (r, k') := answered
    cases c with
    | «open» path mode =>
        simp only [Kernel.exec, Option.some.injEq, Kernel.openFile_eq] at answered
        split at answered
        · cases answered
          exact shaped
        · rename_i opened
          cases answered
          exact shaped_opens shaped (by decide) opened
    | write fd bytes =>
        simp only [Kernel.exec, Kernel.writeFile, Option.some.injEq] at answered
        repeat' split at answered
        all_goals cases answered
        all_goals first
          | exact shaped
          | exact shaped.setData fun x file => (shaped.shape x _ file).overwrite (tidy fd bytes rfl) _
    | ftruncate fd len =>
        simp only [Kernel.exec, Kernel.truncateFile, Option.some.injEq] at answered
        repeat' split at answered
        all_goals cases answered
        all_goals first
          | exact shaped
          | skip
        apply shaped.setData
        intro x file member
        rcases List.mem_append.mp member with front | fill
        · exact shaped.shape x _ file (List.mem_of_mem_take front)
        · exact absurd (List.mem_replicate.mp fill).2 (by decide)
    | remove path =>
        simp only [Kernel.exec, Kernel.removeFile, Option.some.injEq] at answered
        split at answered
        · split at answered <;> cases answered <;> exact shaped
        · rename_i q _
          have linked : ∀ i, k.files.node q = some (.file i) → q ≠ [] := by
            rintro i file rfl
            simp [Files.node] at file
          split at answered
          · cases answered
            exact shaped
          · rename_i i file
            cases answered
            exact shaped.prunes (Prunes.refl.unlink (linked i file))
          · split at answered
            · cases answered
              exact shaped
            · split at answered
              · cases answered
                exact shaped
              · rename_i other
                cases answered
                refine shaped.prunes (Prunes.refl.unlink fun root => other ?_)
                simp [root]
    | _ =>
        rw [Kernel.exec_files (by trivial) answered]
        exact shaped
  · exact shaped

def unwriting : Footprint := { Footprint.all with writes := False, talks := True, draws := PlainName }

theorem tidy_of_unwriting (holds : unwriting.Holds R program) : Program.Within Tidy Draws R program := by
  apply Program.Within.imp holds
  · rintro c covered fd bytes rfl
    exact covered.elim
  · intro c r answered
    cases c <;> exact answered

theorem write_tidy (s : Flstream) {bytes : Bytes} (free : Slashless bytes) :
    Program.Within Tidy Draws (fun _ => True) (s.write bytes) := by
  unfold Flstream.write
  split
  · exact Program.Within.done trivial
  · rename_i fd _
    have covered : Tidy (.write fd bytes) := by
      intro fd' bytes' same
      cases same
      exact free
    exact (Program.within_issue (R := fun _ => True) covered fun _ _ => trivial).bind
      fun _ _ => Program.Within.done trivial

theorem writeRecord_tidy (s : Flstream) {text : Bytes} (free : Slashless text) :
    Program.Within Tidy Draws (fun _ => True) (s.writeRecord text SEPARATOR) :=
  (write_tidy s free).bind fun s' _ => write_tidy s' (by decide)

theorem create_tidy {name : Bytes} (free : Slashless name) :
    Program.Within Tidy Draws (fun r => ∀ id, r = .ok id → PlainName id) (create name) := by
  have opens : ∀ path mode, Program.Within Tidy Draws (fun _ => True) (Flstream.new path mode) := fun path mode =>
    tidy_of_unwriting ((Flstream.new_uses trivial).holds.mono fun _ _ => trivial)
  have locks : ∀ (s : Flstream) kind, Program.Within Tidy Draws (fun _ => True) (s.lock kind) := fun s kind =>
    tidy_of_unwriting ((s.lock_uses kind).holds.mono fun _ _ => trivial)
  have closes : ∀ s : Flstream, Program.Within Tidy Draws (fun _ => True) s.close := fun s =>
    tidy_of_unwriting (s.close_uses.holds.mono fun _ _ => trivial)
  have draws : Program.Within Tidy Draws PlainName Sys.draw :=
    Program.within_issue (c := Call.draw) (fun _ _ same => nomatch same) fun _ plain => plain
  apply draws.bind
  intro id plain
  apply (opens _ _).bind
  intro nameFile _
  split
  · exact (closes nameFile).bind fun _ _ => Program.Within.done fun id failed => by cases failed
  · apply (locks nameFile .write).bind
    intro nameFile _
    apply (opens _ _).bind
    intro idFile _
    split
    · exact (closes idFile).bind fun _ _ => (closes nameFile).bind fun _ _ =>
        Program.Within.done fun id failed => by cases failed
    · apply (locks idFile .write).bind
      intro idFile _
      apply (writeRecord_tidy nameFile plain.2.1).bind
      intro nameFile _
      apply (closes nameFile).bind
      intro nameFile _
      apply (writeRecord_tidy idFile free).bind
      intro idFile _
      apply (opens _ _).bind
      intro dataFile _
      refine (closes dataFile).bind fun _ _ => (closes idFile).bind fun _ _ => (closes nameFile).bind fun _ _ => ?_
      apply Program.Within.done
      rintro other ⟨⟩
      exact plain

end Tidy

/-! ## Frames -/

section Frames
variable {p : Pid} {k k' : Kernel} {touched grown : Dir → Bytes → Prop} {gone : Bytes → Prop} {N : Fd} {α : Type}
  {program point : Prog α} {id name : Bytes}

theorem reaches_source (reach : Program.Reaches (Kernel.MayDo p) program k point k') :
    k'.source = k.source :=
  reach.invariant (fun t => t.source = k.source) (fun _ _ _ _ step same => (mayDo_source step).trans same) rfl

theorem reaches_drawn (reach : Program.Reaches (Kernel.MayDo p) program k point k') : k.drawn ≤ k'.drawn :=
  reach.invariant (fun t => k.drawn ≤ t.drawn) (fun _ _ _ _ step before => before.trans (mayDo_drawn step))
    (Nat.le_refl _)

theorem shaped_of_spares (shaped : Shaped .byId Slashless k.files) (spares : Spares touched grown N p k k')
    (apart : ∀ id, ¬ touched .byId id ∧ ¬ grown .byId id) : Shaped .byId Slashless k'.files := by
  refine ⟨spares.sane.sound, fun id i file => ?_⟩
  have holds : record k'.files .byId id = some (k'.files.data i) := Files.content_of_file file
  rw [spares.kept .byId id (apart id).1 (apart id).2] at holds
  exact shaped.record holds

theorem intact_of_spares (spares : Spares touched grown N p k k') (shaped : Shaped .byId Slashless k'.files)
    (apart : ∀ d id, d ≠ .byName → ¬ gone id → ¬ touched d id ∧ ¬ grown d id)
    (reach : Program.Reaches (Kernel.MayDo p) program k point k') : Intact gone k k' where
  sturdy := ⟨⟨spares.sane, spares.tabled⟩, shaped⟩
  dirs := spares.dirs
  source := reaches_source reach
  drawn := reaches_drawn reach
  kept d id other spared := spares.kept d id (apart d id other spared).1 (apart d id other spared).2

theorem removal_points {d : Dir} {point : Prog (Except Errno Bool)} (sturdy : Sturdy k)
    (draws : ∀ n, PlainName (k.source n)) (plain : PlainName id) (kind : d ≠ .byName)
    (reach : Program.Reaches (Kernel.MayDo p) (Sys.remove (d.text ++ id)) k point k') : Intact (· = id) k k' := by
  have covered : (sparing (filedUnder id) fun _ _ => False).removes (d.text ++ id) :=
    ⟨d, id, id, rfl, Names.of_plain plain, kind, rfl⟩
  have uses : (sparing (filedUnder id) fun _ _ => False).Uses k.nextFd False Footprint.Any
      (Sys.remove (d.text ++ id)) :=
    (Footprint.uses_issue (c := Call.remove (d.text ++ id)) covered trivial).mono fun _ _ => trivial
  have spares := (Program.Within.reaches (sparing_respects p k fun cuts => cuts.elim) uses reach
    (Spares.refl sturdy.standing.sane sturdy.standing.tabled)).2
  have tidy : Program.Within Tidy Draws (fun _ => True) (Sys.remove (d.text ++ id)) :=
    Program.within_issue (c := Call.remove (d.text ++ id)) (fun _ _ same => nomatch same) fun _ _ => trivial
  have shaped := (Program.Within.reaches (tidy_respects p k draws) tidy reach ⟨rfl, sturdy.recorded⟩).2.2
  exact intact_of_spares spares shaped (fun d x _ other => ⟨fun own => other own.2, not_false⟩) reach

end Frames

/-! ## An upload -/

section Uploads
variable {p : Pid} {k k' : Kernel} {name file id : Bytes} {point : Prog (Except Error Bytes)}

def dataOf (id : Bytes) (d : Dir) (x : Bytes) : Prop := d = .data ∧ x = id

theorem store_fills (name file : Bytes) : ∃ next : Except Error Bytes → Prog (Except Error Bytes),
    Volume.store name file = (create name).bind next ∧ (∀ e, next (.error e) = .done (.error e)) ∧
    ∀ N id, PlainName id → (sparing (dataOf id) fun _ _ => False).Uses N False Footprint.Any (next (.ok id)) := by
  refine ⟨_, rfl, fun _ => rfl, fun N id plain => ?_⟩
  have opens : (sparing (dataOf id) fun _ _ => False).opens (DATA_DIR ++ id) Flstream.WRONLY :=
    Or.inr ⟨.data, id, id, rfl, Names.of_plain plain, Or.inl ⟨rfl, rfl⟩⟩
  apply (byId_uses id (Or.inl ⟨rfl, rfl⟩)).bind
  intro found carries
  cases found with
  | error e => exact Footprint.uses_done trivial
  | ok object =>
      rcases carries object rfl with ⟨rfl, _⟩
      apply (get_uses object _ opens).bind
      intro opened own
      cases opened with
      | error e => exact Footprint.uses_done trivial
      | ok s =>
          exact (s.write_uses trivial (own s rfl) file).bind fun s _ => s.close_uses.bind
            fun _ _ => Footprint.uses_done trivial

theorem store_spared (sturdy : Sturdy k) (draws : ∀ n, PlainName (k.source n)) (plain : PlainName name)
    (reach : Program.Reaches (Kernel.MayDo p) (Volume.store name file) k point k') :
    Standing k' ∧ SameDirs k.files k'.files ∧ ∀ d id, d ≠ .byName → ¬ (k.drawn < k'.drawn ∧ id = k.source k.drawn) →
      record k'.files d id = record k.files d id := by
  obtain ⟨rest, shape, _, opens, uses⟩ := store_within name file (k.source k.drawn) (Names.of_plain plain)
  rw [shape] at reach
  rcases reach.bind_split with ⟨inside, _, drawing⟩ | ⟨id, middle, drew, behind⟩
  · rcases Program.reaches_issue drawing with rfl | ⟨id, answered | ⟨_, fails⟩⟩
    · exact ⟨sturdy.standing, SameDirs.refl _, fun _ _ _ _ => rfl⟩
    · cases answered
      exact ⟨⟨sturdy.standing.sane, sturdy.standing.tabled⟩, SameDirs.refl _, fun _ _ _ _ => rfl⟩
    · exact fails.elim
  · have step : Kernel.MayDo p .draw k id middle := Program.runs_issue_iff.mp drew
    rcases step with answered | ⟨_, fails⟩
    · cases answered
      have later : k.drawn < k'.drawn := reaches_drawn behind
      have start : Spares (filedUnder (k.source k.drawn)) (indexOf name) k.nextFd p k.nextDraw k.nextDraw :=
        Spares.refl (k := k.nextDraw) sturdy.standing.sane sturdy.standing.tabled
      have within := (Flstream.new_uses opens).bind fun s own =>
        uses k.nextFd (k.source k.drawn) s (Names.of_plain (draws k.drawn)) own
      have spares := (Program.Within.reaches (sparing_respects p k.nextDraw fun cuts => cuts.elim) within behind
        start).2
      refine ⟨⟨spares.sane, spares.tabled⟩, spares.dirs, fun d id kind spared => spares.kept d id ?_ ?_⟩
      · exact fun own => spared ⟨later, own.2⟩
      · exact fun index => kind index.1
    · exact fails.elim

theorem store_points (sturdy : Sturdy k) (draws : ∀ n, PlainName (k.source n)) (plain : PlainName name)
    (reach : Program.Reaches (Kernel.MayDo p) (Volume.store name file) k point k') :
    Intact (fun id => k.drawn < k'.drawn ∧ id = k.source k.drawn) k k' := by
  obtain ⟨standing, dirs, kept⟩ := store_spared sturdy draws plain reach
  suffices shaped : Shaped .byId Slashless k'.files from
    ⟨⟨standing, shaped⟩, dirs, reaches_source reach, reaches_drawn reach, kept⟩
  obtain ⟨next, shape, stops, fills⟩ := store_fills name file
  have tidy := tidy_respects p k draws
  have start : k.source = k.source ∧ Shaped .byId Slashless k.files := ⟨rfl, sturdy.recorded⟩
  rw [shape] at reach
  rcases reach.bind_split with ⟨inside, _, creating⟩ | ⟨created, middle, run, behind⟩
  · exact (Program.Within.reaches tidy (create_tidy plain.2.1) creating start).2.2
  · obtain ⟨drawn, _, shaped⟩ := Program.Within.runs tidy (create_tidy plain.2.1) run start
    cases created with
    | error e =>
        rw [stops] at behind
        obtain rfl := Program.reaches_done behind
        exact shaped
    | ok id =>
        have reached : Program.Reaches (Kernel.MayDo p) (Volume.store name file) k (next (.ok id)) middle := by
          rw [shape]
          exact Program.Reaches.behind run Program.Reaches.refl
        have standing := (store_spared sturdy draws plain reached).1
        have spares := (Program.Within.reaches (sparing_respects p middle fun cuts => cuts.elim)
          (fills middle.nextFd id (drawn id rfl)) behind (Spares.refl standing.sane standing.tabled)).2
        exact shaped_of_spares shaped spares fun id => ⟨fun own => (nomatch own.1), not_false⟩

end Uploads

/-! ## A deletion -/

section Deletions
variable {p : Pid} {k k' : Kernel} {id name : Bytes}

structure Rereads (f : Files) (p : Pid) (fd : Fd) (k : Kernel) : Prop where
  files : k.files = f
  behind : ∀ D i, k.descOf p fd = some D → D.ino = some i → Slashless (f.data i)

def On (fd : Fd) : Call → Prop
  | .read n _ | .lock n _ | .unlock n | .tell n | .seek n _ | .close n => n = fd
  | _ => False

def Slashfree : (c : Call) → Resp c → Prop
  | .read _ _, .ok bytes => ∀ b ∈ bytes, b ≠ slash
  | _, _ => True

theorem rereads_respects (f : Files) (p : Pid) (fd : Fd) :
    Program.Respects (On fd) Slashfree (Kernel.MayDo p) (Rereads f p fd) := by
  intro c s r t on before step
  have free : Slashfree c r := by
    rcases step with answered | ⟨_, fails⟩
    · have answered : s.exec p c = some (r, t) := answered
      cases c with
      | read n len =>
          obtain rfl : n = fd := on
          simp only [Kernel.exec, Kernel.readFile, Option.some.injEq] at answered
          repeat' split at answered
          all_goals cases answered
          all_goals first
            | trivial
            | skip
          intro b member same
          subst same
          apply before.behind _ _ ‹_› ‹_›
          rw [← before.files]
          exact List.mem_of_mem_drop (List.mem_of_mem_take member)
      | _ => trivial
    · cases c with
      | read n len =>
          obtain ⟨e, _, rfl⟩ := fails
          trivial
      | _ => trivial
  refine ⟨free, ?_⟩
  rcases step with answered | ⟨rfl, _⟩
  · have answered : s.exec p c = some (r, t) := answered
    have reading : Kernel.Reading c := by cases c <;> first | exact on.elim | trivial
    have other : ∀ path mode, c ≠ .open path mode := by
      rintro path mode rfl
      exact on
    have inherits := (exec_inherits other answered).1
    refine ⟨(Kernel.exec_files reading answered).trans before.files, ?_⟩
    intro D i found ino
    obtain ⟨D', there, _, same⟩ := inherits fd D found
    exact before.behind D' i there (same ▸ ino)
  · exact before

def Leads (id : Bytes) (r : Except Error Object) : Prop :=
  ∀ object, r = .ok object → object.id = id ∧ Slashless object.name

theorem byId_leads (sturdy : Sturdy k) (plain : PlainName id) {r : Except Error Object}
    (run : Program.Runs (Kernel.MayDo p) (byId id) k r k') : Leads id r := by
  -- What a record yields as the name holds no slash, whatever reads fail.
  obtain ⟨s, middle, opens, rest⟩ := Program.runs_bind_split run
  obtain ⟨opened, k₁, issued, made⟩ := Program.runs_bind_split opens
  have step : Kernel.MayDo p (.open (ID_DIR ++ id) Flstream.RDONLY) k opened k₁ := Program.runs_issue_iff.mp issued
  have failing : ∀ e, e ≠ 0 → opened = .error e → ∀ object, r ≠ .ok object := by
    rintro e some rfl object rfl
    cases made
    have failed : Flstream.fail ⟨none, e⟩ = true := (Flstream.fail_iff none e).mpr some
    rw [if_pos failed] at rest
    obtain ⟨_, _, _, last⟩ := Program.runs_bind_split rest
    cases last
  have readable : ∀ fd : Fd, Flstream.Readable (On fd) Slashfree (· ≠ slash) (some fd) := fun fd =>
    { read := fun n same len => (Option.some.inj same).symm
      tell := fun n same => (Option.some.inj same).symm
      seek := fun n same pos => (Option.some.inj same).symm
      yields := fun n len bytes answered => answered }
  rcases step with answered | ⟨_, e, some, error⟩
  · have answered : k.openFile p (ID_DIR ++ id) Flstream.RDONLY = (opened, k₁) := Option.some.inj answered
    have resolved : k.files.resolve (ID_DIR ++ id) = .ok (entry k.files .byId id) :=
      resolve_entry k.files sturdy.standing.sane.layout .byId (Names.of_plain plain)
    rcases sturdy.standing.sane.entry_cases .byId id with ⟨i, file, _⟩ | ⟨absent, _⟩
    · simp only [Kernel.openFile, resolved, file, Flstream.RDONLY, Bool.and_false, Bool.false_eq_true,
        ↓reduceIte] at answered
      cases answered
      cases made
      have start : Rereads k.files p k.nextFd (k.addDesc ⟨p, some i, Flstream.RDONLY, 0⟩) := by
        refine ⟨rfl, fun D j found ino => ?_⟩
        rw [Kernel.descOf_addDesc rfl, if_pos rfl] at found
        cases found
        cases ino
        exact sturdy.recorded.shape id i file
      refine (Program.Within.runs (R := Leads id) (rereads_respects k.files p k.nextFd) ?_ rest start).1
      have own : ∀ n, some k.nextFd = some n → n = k.nextFd := fun n same => (Option.some.inj same).symm
      apply (Flstream.lock_within (s := ⟨some k.nextFd, 0⟩) own).bind
      intro idFile locked
      have locked : idFile.fd = some k.nextFd := locked
      have may : Flstream.Readable (On k.nextFd) Slashfree (· ≠ slash) idFile.fd := by
        rw [locked]
        exact readable k.nextFd
      apply (Flstream.getline_within may SEPARATOR).bind
      intro line read
      have own : ∀ n, line.2.2.fd = some n → n = k.nextFd := fun n same => own n (by rw [← same, read.1, locked])
      apply (Flstream.close_within own own).bind
      intro _ _
      apply Program.Within.done
      rintro object ⟨⟩
      exact ⟨rfl, fun member => read.2 slash member rfl⟩
    · simp only [Kernel.openFile, resolved, absent, Flstream.RDONLY, Bool.false_eq_true, ↓reduceIte] at answered
      cases answered
      intro object same
      exact absurd same (failing ENOENT (by decide) rfl object)
  · intro object same
    exact absurd same (failing e some error object)

theorem unlist_points {object : Object} {point : Prog (Option (Except Error Unit))} (sturdy : Sturdy k)
    (free : Slashless object.name) (reach : Program.Reaches (Kernel.MayDo p) object.unlist k point k') :
    Intact (fun _ => False) k k' := by
  have free : slash ∉ cstr object.name := fun member => free (Records.first_subset 0 _ slash member)
  rcases index_cases p sturdy.standing.sane object.name free with ⟨file, _, names, _⟩ | ⟨e, some, refused⟩
  · have opens : (sparing (indexOf file) fun _ _ => False).opens (NAME_DIR ++ object.name) Flstream.RDWR :=
      Or.inr ⟨.byName, _, file, rfl, names, Or.inl ⟨rfl, rfl⟩⟩
    have removes : (sparing (indexOf file) fun _ _ => False).removes (NAME_DIR ++ object.name) :=
      ⟨.byName, _, file, rfl, names, rfl, rfl⟩
    have uses : (sparing (indexOf file) fun _ _ => False).Uses k.nextFd True Footprint.Any
        object.unlist := unlist_uses object trivial trivial opens removes
    have spares := (Program.Within.reaches (sparing_respects p k fun _ _ _ => not_false) uses reach
      (Spares.refl sturdy.standing.sane sturdy.standing.tabled)).2
    have shaped := shaped_of_spares sturdy.recorded spares fun id => ⟨fun own => (nomatch own.1), not_false⟩
    exact intact_of_spares spares shaped (fun d id kind _ => ⟨fun own => kind own.1, not_false⟩) reach
  · -- a name that is no component cannot be opened
    have opening : ∀ opened k₁, Kernel.MayDo p (.open (NAME_DIR ++ object.name) Flstream.RDWR) k opened k₁ →
        k₁ = k ∧ ∃ e, e ≠ 0 ∧ opened = .error e := by
      rintro opened k₁ (answered | ⟨rfl, e, some, rfl⟩)
      · have answered : k.openFile p (NAME_DIR ++ object.name) Flstream.RDWR = (opened, k₁) :=
          Option.some.inj answered
        rw [refused] at answered
        cases answered
        exact ⟨rfl, e, some, rfl⟩
      · exact ⟨rfl, e, some, rfl⟩
    rcases reach.bind_split with ⟨inside, _, within⟩ | ⟨s, middle, run, behind⟩
    · obtain ⟨_, issuing⟩ := Program.reaches_mapped (fun value => by cases value <;> exact ⟨_, rfl⟩) within
      rcases Program.reaches_issue issuing with rfl | ⟨opened, step⟩
      · exact Intact.refl sturdy
      · rw [(opening _ _ step).1]
        exact Intact.refl sturdy
    · obtain ⟨opened, k₁, issued, made⟩ := Program.runs_bind_split run
      obtain ⟨rfl, e, some, rfl⟩ := opening opened k₁ (Program.runs_issue_iff.mp issued)
      cases made
      have failed : Flstream.fail ⟨none, e⟩ = true := (Flstream.fail_iff none e).mpr some
      rw [if_pos failed] at behind
      have closes : Keeps Kernel.Reading (Flstream.close ⟨none, e⟩) :=
        Flstream.close_within (fun _ _ => trivial) fun _ _ => trivial
      exact reading_points (closes.bind fun _ _ => Program.Within.done trivial) sturdy behind

theorem object_points {object : Object} {point : Prog (Option (Except Error Unit))} (sturdy : Sturdy k)
    (draws : ∀ n, PlainName (k.source n)) (plain : PlainName object.id) (free : Slashless object.name)
    (reach : Program.Reaches (Kernel.MayDo p) object.remove k point k') : Intact (· = object.id) k k' := by
  rcases reach.bind_split with ⟨inside, _, first⟩ | ⟨there, k₁, ran, reach⟩
  · exact removal_points (d := .byId) sturdy draws plain (by decide) first
  · have intact₁ := removal_points (d := .byId) sturdy draws plain (by decide) (Program.Reaches.of_runs ran)
    cases there with
    | error e =>
        obtain rfl := Program.reaches_done reach
        exact intact₁
    | ok _ =>
        have draws₁ : ∀ n, PlainName (k₁.source n) := intact₁.source.symm ▸ draws
        rcases reach.bind_split with ⟨inside, _, second⟩ | ⟨there, k₂, ran, reach⟩
        · exact intact₁.trans (removal_points (d := .data) intact₁.sturdy draws₁ plain (by decide) second)
        · have intact₂ := intact₁.trans (removal_points (d := .data) intact₁.sturdy draws₁ plain (by decide)
            (Program.Reaches.of_runs ran))
          cases there with
          | error e =>
              obtain rfl := Program.reaches_done reach
              exact intact₂
          | ok _ => exact intact₂.trans ((unlist_points intact₂.sturdy free reach).mono fun _ none => none.elim)

theorem remove_points {point : Prog (Option (Except Error Unit))} (sturdy : Sturdy k)
    (draws : ∀ n, PlainName (k.source n)) (plain : PlainName id)
    (reach : Program.Reaches (Kernel.MayDo p) (Volume.remove id) k point k') : Intact (· = id) k k' := by
  have looks : Keeps Kernel.Reading (byId id) :=
    (Service.byId_looks id).imp (fun _ looks => looks.2.1) fun _ _ any => any
  rcases reach.bind_split with ⟨inside, _, looking⟩ | ⟨found, middle, run, behind⟩
  · exact (reading_points looks sturdy looking).mono fun _ none => none.elim
  · have intact : Intact (· = id) k middle :=
      (reading_points looks sturdy (Program.Reaches.of_runs run)).mono fun _ none => none.elim
    cases found with
    | error e =>
        obtain rfl := Program.reaches_done behind
        exact intact
    | ok object =>
        obtain ⟨rfl, free⟩ := byId_leads sturdy plain run object rfl
        exact intact.trans (object_points intact.sturdy (intact.source.symm ▸ draws) plain free behind)

end Deletions

/-! ## A request -/

section Requests
variable {libc : Libc} {r : Request} {k k' : Kernel} {point : Prog (Unit ⊕ Unit × Server.End)}

/-- The ids whose entries a request may change: the one that it has drawn, and those it removes. -/
def Gone (libc : Libc) (r : Request) (k k' : Kernel) (id : Bytes) : Prop :=
  k.drawn < k'.drawn ∧ id = k.source k.drawn ∨ ∃ x, r.Asks libc (.del x) ∧ cstr x = id

theorem respond_reading (reply : Handlers.Reply) : Keeps Kernel.Reading (Server.respond reply) :=
  (Service.respond_looks reply).imp (fun _ looks => looks.2.1) fun _ _ => id

theorem serve_cases (libc : Libc) (r : Request) : Keeps Kernel.Reading (r.serve libc) ∨
    (∃ name file, r.Asks libc (.put name file)) ∨ ∃ id, r.Asks libc (.del id) := by
  -- A request only reads, or it is an upload or a deletion.
  by_cases writes : (∃ name file, r.Asks libc (.put name file)) ∨ ∃ id, r.Asks libc (.del id)
  · exact Or.inr writes
  · refine Or.inl (Service.serve_within (fun _ looks => looks.2.1) (fun _ => trivial) fun c asks kind => ?_)
    cases c with
    | put name file => exact absurd (Or.inl ⟨name, file, asks⟩) writes
    | del id => exact absurd (Or.inr ⟨id, asks⟩) writes
    | _ => exact absurd kind (by simp [Command.no])

theorem called_points {c : Command} (asks : r.Asks libc c)
    (reach : Program.Reaches (Kernel.MayDo r.pid) (r.serve libc) k point k')
    (called : ∀ inside t, Program.Reaches (Kernel.MayDo r.pid) (c.served libc) k inside t →
      Intact (Gone libc r k t) k t) : Intact (Gone libc r k k') k k' := by
  rw [Service.serve_eq asks] at reach
  rcases reach.bind_split with ⟨inside, _, within⟩ | ⟨reply, middle, run, behind⟩
  · exact called inside k' within
  · have intact := called _ middle (Program.Reaches.of_runs run)
    have responds : Intact (fun _ => False) middle k' := by
      cases reply with
      | none =>
          obtain rfl := Program.reaches_done behind
          exact Intact.refl intact.sturdy
      | some reply => exact reading_points (respond_reading reply) intact.sturdy behind
    have later : ∀ id, Gone libc r k middle id → Gone libc r k k' id := by
      rintro id (⟨drawn, same⟩ | removed)
      · exact Or.inl ⟨drawn.trans_le responds.drawn, same⟩
      · exact Or.inr removed
    exact (intact.mono later).trans (responds.mono fun _ none => none.elim)

theorem request_points (sturdy : Sturdy k) (draws : ∀ n, PlainName (k.source n)) (plain : Plain libc r)
    (reach : Program.Reaches (Kernel.MayDo r.pid) (r.serve libc) k point k') : Intact (Gone libc r k k') k k' := by
  rcases serve_cases libc r with reads | ⟨name, file, asks⟩ | ⟨id, asks⟩
  · exact (reading_points reads sturdy reach).mono fun _ none => none.elim
  · apply called_points asks reach
    intro inside t within
    obtain ⟨_, storing⟩ := Program.reaches_mapped (fun value => by cases value <;> exact ⟨_, rfl⟩) within
    exact (store_points sturdy draws (plain.stores name file asks) storing).mono fun _ drawn => Or.inl drawn
  · apply called_points asks reach
    intro inside t within
    obtain ⟨_, removing⟩ :=
      Program.reaches_mapped (fun value => by rcases value with _ | _ | _ <;> exact ⟨_, rfl⟩) within
    have plainId := plain.removes id asks
    apply (remove_points sturdy draws plainId removing).mono
    rintro _ rfl
    exact Or.inr ⟨_, asks, cstr_of_free _ plainId.2.2.1⟩

end Requests

/-! ## Any number of requests -/

section Histories
variable {libc : Libc} {r : Request} {k k' : Kernel} {requests : List Request} {id name data : Bytes}

theorem Intact.kept_on (intact : Intact (Gone libc r k k') k k') (fresh : History.Fresh k.source k'.drawn)
    (spares : r.Spares libc id) (kept : Kept k id name data) : Kept k' id name data := by
  obtain ⟨n, earlier, same⟩ := kept.drawn
  have spared : ¬ Gone libc r k k' id := by
    rintro (⟨later, own⟩ | ⟨x, asks, own⟩)
    · exact fresh n k.drawn earlier later (same.trans own)
    · exact spares x asks own
  refine ⟨?_, ?_, n, earlier.trans_le intact.drawn, by rw [intact.source, same]⟩
  · rw [intact.kept .byId id (by decide) spared]
    exact kept.recorded
  · rw [intact.kept .data id (by decide) spared]
    exact kept.stored

theorem lived_cons {rest : List Request} (lived : Lived libc k (r :: rest) k') (draws : ∀ n, PlainName (k.source n))
    (plain : Plain libc r) (sturdy : Sturdy k) :
    ∃ k₁, Intact (Gone libc r k k₁) k k₁ ∧ Lived libc k₁ rest k' := by
  -- However a request ended, the next one finds a volume that is intact.
  cases lived with
  | served run later => exact ⟨_, request_points sturdy draws plain (Program.Reaches.of_runs run), later⟩
  | killed reach later => exact ⟨_, (request_points sturdy draws plain reach).exit r.pid, later⟩

theorem lived_sturdy (lived : Lived libc k requests k') (draws : ∀ n, PlainName (k.source n))
    (plain : ∀ r ∈ requests, Plain libc r) (sturdy : Sturdy k) :
    Sturdy k' ∧ SameDirs k.files k'.files ∧ k'.source = k.source ∧ k.drawn ≤ k'.drawn := by
  induction requests generalizing k with
  | nil =>
      cases lived
      exact ⟨sturdy, SameDirs.refl _, rfl, Nat.le_refl _⟩
  | cons r rest ih =>
      obtain ⟨k₁, intact, later⟩ := lived_cons lived draws (plain r List.mem_cons_self) sturdy
      obtain ⟨last, dirs, source, drawn⟩ := ih later (intact.source.symm ▸ draws)
        (fun r member => plain r (List.mem_cons_of_mem _ member)) intact.sturdy
      exact ⟨last, intact.dirs.trans dirs, source.trans intact.source, intact.drawn.trans drawn⟩

theorem lived_kept (lived : Lived libc k requests k') (draws : ∀ n, PlainName (k.source n))
    (plain : ∀ r ∈ requests, Plain libc r) (fresh : History.Fresh k.source k'.drawn)
    (spares : ∀ r ∈ requests, r.Spares libc id) (sturdy : Sturdy k) (kept : Kept k id name data) :
    Kept k' id name data := by
  induction requests generalizing k with
  | nil =>
      cases lived
      exact kept
  | cons r rest ih =>
      obtain ⟨k₁, intact, later⟩ := lived_cons lived draws (plain r List.mem_cons_self) sturdy
      have draws₁ : ∀ n, PlainName (k₁.source n) := intact.source.symm ▸ draws
      have plain₁ := fun r member => plain r (List.mem_cons_of_mem _ member)
      obtain ⟨_, _, _, drawn⟩ := lived_sturdy later draws₁ plain₁ intact.sturdy
      have kept₁ := intact.kept_on (fun m n before least => fresh m n before (least.trans_le drawn))
        (spares r List.mem_cons_self) kept
      exact ih later draws₁ plain₁ (intact.source.symm ▸ fresh)
        (fun r member => spares r (List.mem_cons_of_mem _ member)) intact.sturdy kept₁

theorem Sturdy.orderly (sturdy : Sturdy k) (unlocked : ∀ i, k.locks i = []) : History.Orderly k := by
  -- Nothing holds a lock: the state is one in which requests are answered.
  refine ⟨⟨sturdy.standing.sane, unlocked⟩, fun y text holds member => ?_⟩
  apply sturdy.recorded.record holds
  exact Records.first_subset SEPARATOR text slash (Records.first_subset 0 _ slash member)

theorem sturdy_new (standing : Standing k) (empty : record k.files = fun _ _ => none) : Sturdy k := by
  refine ⟨standing, standing.sane.sound, fun id i file => ?_⟩
  have holds : record k.files .byId id = some (k.files.data i) := Files.content_of_file file
  rw [empty] at holds
  cases holds

theorem put_plain {file : Bytes} (asks : r.Asks libc (.put name file)) (plain : PlainName name) :
    Plain libc r := by
  constructor
  · intro name' file' other
    have same := asks.decoded.symm.trans other.decoded
    cases same
    exact plain
  · intro id other
    exact absurd (asks.command.symm.trans other.command) (by simp [Command.no])

end Histories

section Answers
variable {libc : Libc} {k k' : Kernel} {upload : Request} {id name data : Bytes}

theorem upload_kept (sturdy : Sturdy k) (unlocked : ∀ i, k.locks i = []) (draws : ∀ n, PlainName (k.source n))
    (asks : upload.Asks libc (.put name data)) (plain : PlainName name)
    (uploads : Runs upload.pid (upload.serve libc) k (.inl ()) k')
    (answered : k'.sent upload.pid = k.sent upload.pid ++ (Responses.Outcome.stored id).frame) :
    Intact (Gone libc upload k k') k k' ∧ Kept k' id name data := by
  have kept := History.put_stores (sturdy.orderly unlocked) draws asks plain uploads answered
  have reached : Program.Reaches (Kernel.MayDo upload.pid) (upload.serve libc) k (.done (.inl ())) k' :=
    Program.Reaches.of_runs (uploads.mono fun _ _ _ _ step => Or.inl step)
  exact ⟨request_points sturdy draws (put_plain asks plain) reached, kept⟩

theorem kept_answers (sturdy : Sturdy k) (unlocked : ∀ i, k.locks i = []) (draws : ∀ n, PlainName (k.source n))
    (kept : Kept k id name data) (line : SEPARATOR ∉ name)
    (sized : (Command.put name data).body.length < 4294967296) :
    (∀ (r : Request) (fid : Bytes), r.Asks libc (.get fid) → cstr fid = id →
      (History.Answers libc k r (.content data) ↔ data ≠ [])) ∧
    ∀ (r : Request) (fid : Bytes), r.Asks libc (.desc fid) → cstr fid = id →
      History.Answers libc k r (.described name data.length) := by
  have ready := (sturdy.orderly unlocked).ready
  have room : data.length < 4294967296 := by
    rw [Command.body_length] at sized
    dsimp only at sized
    omega
  have plainId : PlainName id := by
    obtain ⟨n, _, same⟩ := kept.drawn
    exact same ▸ draws n
  constructor
  · intro r fid asks same
    exact History.get_answers ready kept plainId line room asks same
  · intro r fid asks same
    exact History.desc_answers ready kept plainId line asks same

end Answers

/-- Before and behind an upload that is answered with an id, requests may fail
and their processes may exit wherever they like: as long as the id is not removed
it can be described, and its content is sent if there is any. Only a lock that is
still held keeps anyone waiting. -/
theorem stored_files_survive_crashes (libc : Libc) (k₀ k₁ k₂ k₃ : Kernel) (before between : List Request)
    (upload : Request) (name data id : Bytes) (standing : Standing k₀)
    (empty : record k₀.files = fun _ _ => none) (draws : ∀ n, PlainName (k₀.source n))
    (fresh : History.Fresh k₀.source k₃.drawn) (plain : ∀ r ∈ before ++ between, Plain libc r)
    (earlier : Lived libc k₀ before k₁) (unlocked₁ : ∀ i, k₁.locks i = [])
    (asks : upload.Asks libc (.put name data)) (plainName : PlainName name) (line : SEPARATOR ∉ name)
    (sized : (Command.put name data).body.length < 4294967296)
    (uploads : Runs upload.pid (upload.serve libc) k₁ (.inl ()) k₂)
    (answered : k₂.sent upload.pid = k₁.sent upload.pid ++ (Responses.Outcome.stored id).frame)
    (later : Lived libc k₂ between k₃) (unlocked₃ : ∀ i, k₃.locks i = [])
    (spares : ∀ r ∈ between, r.Spares libc id) :
    (∀ (r : Request) (fid : Bytes), r.Asks libc (.get fid) → cstr fid = id →
      (History.Answers libc k₃ r (.content data) ↔ data ≠ [])) ∧
    ∀ (r : Request) (fid : Bytes), r.Asks libc (.desc fid) → cstr fid = id →
      History.Answers libc k₃ r (.described name data.length) := by
  obtain ⟨sturdy₁, _, source₁, _⟩ := lived_sturdy earlier draws
    (fun r member => plain r (List.mem_append_left _ member)) (sturdy_new standing empty)
  have draws₁ : ∀ n, PlainName (k₁.source n) := source₁.symm ▸ draws
  obtain ⟨intact₂, kept₂⟩ := upload_kept sturdy₁ unlocked₁ draws₁ asks plainName uploads answered
  have source₂ : k₂.source = k₀.source := intact₂.source.trans source₁
  have draws₂ : ∀ n, PlainName (k₂.source n) := source₂.symm ▸ draws
  have plain₂ := fun r member => plain r (List.mem_append_right before member)
  obtain ⟨sturdy₃, _, source₃, _⟩ := lived_sturdy later draws₂ plain₂ intact₂.sturdy
  have kept₃ := lived_kept later draws₂ plain₂ (source₂.symm ▸ fresh) spares intact₂.sturdy kept₂
  exact kept_answers sturdy₃ unlocked₃ (source₃.symm ▸ draws₂) kept₃ line sized

/-- The upload of one byte to a new volume, and a deletion whose first call fails
and whose process then exits. -/
theorem stored_files_survive_crashes_byte : ∃ k,
    (∀ (r : Request) (fid : Bytes), r.Asks History.silent (.get fid) → cstr fid = ascii "1" →
      (History.Answers History.silent k r (.content [7]) ↔ ([7] : Bytes) ≠ [])) ∧
    ∀ (r : Request) (fid : Bytes), r.Asks History.silent (.desc fid) → cstr fid = ascii "1" →
      History.Answers History.silent k r (.described (ascii "a") 1) := by
  have evaluated : ((Program.run (Kernel.exec 1) 100
      ((History.request (.put (ascii "a") [7])).serve History.silent) (initKernel fun _ => ascii "1")).map
        fun result => (result.1, result.2.sent 1, result.2.drawn)) =
      some (.inl (), (Responses.Outcome.stored (ascii "1")).frame, 1) := by rfl
  obtain ⟨⟨_, k⟩, result, same⟩ := Option.map_eq_some_iff.mp evaluated
  simp only [Prod.mk.injEq] at same
  obtain ⟨rfl, sent, drawn⟩ := same
  have run := Program.run_sound _ _ _ _ _ _ result
  have draws : ∀ n, PlainName ((initKernel fun _ => ascii "1").source n) := fun _ =>
    show PlainName (ascii "1") by decide
  have fresh : History.Fresh (initKernel fun _ => ascii "1").source k.drawn := by
    intro m n before least
    rw [drawn] at least
    omega
  have asks := History.request_asks (.put (ascii "a") [7]) ⟨by decide, by decide, by decide⟩
  have unlocked : ∀ i, k.locks i = [] := by
    have orderly : History.Orderly (initKernel fun _ => ascii "1") :=
      (sturdy_new (initKernel_standing _) (initKernel_empty _)).orderly fun _ => rfl
    obtain ⟨_, left, _⟩ := History.serve_effect orderly draws
      (History.put_tame asks (by decide)) run
    exact left.unlocked
  have deletion := History.request_asks (.del (ascii "2")) ⟨by decide, by decide, by decide⟩
  have deletes : ∀ x, (History.request (.del (ascii "2"))).Asks History.silent (.del x) → x = ascii "2" := by
    intro x other
    obtain ⟨_, read⟩ := deletion.decoded
    obtain ⟨_, again⟩ := other.decoded
    cases read.symm.trans again
    rfl
  have plain : Plain History.silent (History.request (.del (ascii "2"))) := by
    constructor
    · intro name file other
      exact absurd (deletion.command.symm.trans other.command) (by simp [Command.no])
    · intro id other
      rw [deletes id other]
      decide
  have refused : Kernel.MayDo 1 (Call.open (ID_DIR ++ ascii "2") Flstream.RDONLY) k (.error EACCES) k :=
    Or.inr ⟨rfl, EACCES, by decide, rfl⟩
  have reached : ∃ point, Program.Reaches (Kernel.MayDo 1)
      ((History.request (.del (ascii "2"))).serve History.silent) k point k := by
    rw [Service.serve_eq deletion]
    exact ⟨_, Program.Reaches.step (Program.Step.call refused) Program.Reaches.refl⟩
  obtain ⟨point, reach⟩ := reached
  have killed : Lived History.silent k [History.request (.del (ascii "2"))] (Volume.exit k 1) :=
    Lived.killed reach Lived.nil
  refine ⟨Volume.exit k 1, stored_files_survive_crashes History.silent _ _ k _ [] _
    (History.request (.put (ascii "a") [7])) (ascii "a") [7] (ascii "1") (initKernel_standing _) (initKernel_empty _)
    draws fresh ?_ Lived.nil (fun _ => rfl) asks (by decide) (by decide) (by decide) run sent killed ?_ ?_⟩
  · intro r member
    obtain rfl := List.mem_singleton.mp member
    exact plain
  · intro i
    change (k.locks i).filter _ = []
    rw [unlocked i]
    rfl
  · intro r member
    obtain rfl := List.mem_singleton.mp member
    intro x asks
    rw [deletes x asks]
    decide

end Sfsdb.Recovery

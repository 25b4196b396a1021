import Sfsdb.Exceptions
import Sfsdb.Frame
import Sfsdb.VolumeRuns

/-!
Writers among calls that may fail. A stream is `Attached` to an entry while it has a
descriptor that writes at the end of it. Each lemma takes a run apart: an open or a
write that fails has done nothing, and anything else has done what it does where no
call fails; locks and closes leave files and the other writers alone.
-/

namespace Sfsdb.Volume

open Posix Storage

/-- What may be there of a record, the text and the separator of which are written in two calls. -/
def pieces (text : Bytes) : List Bytes := [[], text, [SEPARATOR], text ++ [SEPARATOR]]

/-- The path was never opened in this way. -/
def Unopened (path : Bytes) (mode : Flags) (log : Log) : Prop := ∀ fd, ⟨.open path mode, .ok fd⟩ ∉ log

/-- In an operation that began in `k`, what the directories hold by now. -/
structure Amid (k k' : Kernel) (now : Contents) : Prop where
  turns : Turns k.files k'.files now
  tabled : Tabled k'

/-- The descriptor writes at the end of the file of this entry. -/
def Attached (p : Pid) (k : Kernel) (now : Contents) (fd : Fd) (d : Dir) (x : Bytes) : Prop :=
  ∃ D i text, k.descOf p fd = some D ∧ D.ino = some i ∧ D.flags.write = true ∧
    k.files.node (entry k.files d x) = some (.file i) ∧ now d x = some text ∧
    (D.flags.append = true ∨ D.pos = text.length)

variable {p : Pid} {k : Kernel} {s t : Kernel × Log} {now : Contents} {d : Dir} {x y : Bytes} {fd : Fd}

theorem Attached.below (attached : Attached p k now fd d x) (tabled : Tabled k) : fd < k.nextFd := by
  obtain ⟨D, _, _, found, _⟩ := attached
  by_contra above
  simp [Kernel.descOf, tabled fd (Nat.le_of_not_lt above)] at found

/-! ## Opening -/

section Opening
variable {m : Flags} {st : Flstream}

def made (now : Contents) (d : Dir) (y : Bytes) (m : Flags) : Contents :=
  put d y (some (if m.trunc then [] else (now d y).getD [])) now

theorem new_amid (amid : Amid k s.1 now) (names : Names x y)
    (run : Program.Runs (Recorded p) (Flstream.new (d.text ++ x) m) s st t) (creates : m.creat = true)
    (writes : m.write = true) (ends : m.append = true ∨ m.trunc = true) :
    (∃ e, st = ⟨none, e⟩ ∧ e ≠ 0 ∧ t.1 = s.1 ∧ t.2 = s.2 ++ [⟨.open (d.text ++ x) m, .error e⟩]) ∨
    ∃ fd, st = ⟨some fd, 0⟩ ∧ t.2 = s.2 ++ [⟨.open (d.text ++ x) m, .ok fd⟩] ∧
      Amid k t.1 (made now d y m) ∧
      Attached p t.1 (made now d y m) fd d y ∧
      ∀ fd' d' x', d' ≠ d ∨ x' ≠ y → Attached p s.1 now fd' d' x' → fd' ≠ fd ∧
        Attached p t.1 (made now d y m) fd' d' x' := by
  obtain ⟨r, middle, opens, rest⟩ := Program.runs_bind_split run
  obtain ⟨step, noted⟩ : Kernel.MayDo p (.open (d.text ++ x) m) s.1 r middle.1 ∧ _ :=
    Program.runs_issue_iff.mp opens
  rcases step with answered | ⟨same, e, some_, rfl⟩
  · right
    obtain ⟨i, f, does, turns, file, keeps⟩ := open_creates (p := p) amid.turns.sane names creates writes
    obtain ⟨r', k₁, answered', rest'⟩ := Program.runs_bind_split does
    have both := answered.symm.trans (Program.runs_issue_iff.mp answered')
    simp only [Option.some.injEq, Prod.mk.injEq] at both
    obtain ⟨rfl, rfl⟩ := both
    cases r with
    | error e => cases (Program.runs_done_iff.mp rest').1
    | ok fd =>
        obtain ⟨same, rfl⟩ := Program.runs_done_iff.mp rest
        obtain ⟨number, state⟩ := Program.runs_done_iff.mp rest'
        cases number
        have tabled := exec_tabled answered amid.tabled
        rw [amid.turns.records] at turns
        rw [← state] at tabled ⊢
        have node : f.node (entry f d y) = some (.file i) := turns.dirs.entry d y ▸ file
        refine ⟨s.1.nextFd, same, noted, ⟨amid.turns.trans turns, tabled⟩, ⟨⟨p, some i, m, 0⟩, i, _, ?_, rfl,
          writes, node, put_self .., ?_⟩, fun fd' d' x' apart attached => ?_⟩
        · rw [descOf_opened, if_pos rfl]
        · refine ends.imp_right fun cut => ?_
          rw [if_pos cut]
          rfl
        · have below := attached.below amid.tabled
          obtain ⟨D, j, text, found, ino, writer, linked, holds, atEnd⟩ := attached
          refine ⟨Nat.ne_of_lt below, D, j, text, ?_, ino, writer, ?_, ?_, atEnd⟩
          · rw [descOf_opened, if_neg (Nat.ne_of_lt below)]
            exact found
          · rw [files_opened, turns.dirs.entry]
            exact keeps _ _ linked
          · rw [made, put_other _ _ _ _ _ _ apart]
            exact holds
  · left
    obtain ⟨rfl, rfl⟩ := Program.runs_done_iff.mp rest
    exact ⟨e, rfl, some_, same, noted⟩

end Opening

/-! ## Locks and closes -/

def Steady (closing : Fd → Prop) : Call → Prop
  | .lock _ _ | .unlock _ => True
  | .close fd => closing fd
  | _ => False

section Steady
variable {α : Type} {R : α → Prop} {program : Prog α} {closing : Fd → Prop} {value : α}

theorem steady_step {c : Call} {r : Resp c} {k' : Kernel} (steady : Steady closing c)
    (step : Kernel.MayDo p c k r k') :
    k'.files = k.files ∧ (Tabled k → Tabled k') ∧ ∀ fd, ¬ closing fd → k'.descOf p fd = k.descOf p fd := by
  rcases step with answered | ⟨rfl, _⟩
  · have others : ∀ fd, closing fd → ∀ fd', ¬ closing fd' → (k.dropDesc fd).descOf p fd' = k.descOf p fd' := by
      intro fd closes fd' stays
      rw [Kernel.descOf_dropDesc, if_neg]
      rintro rfl
      exact stays closes
    refine ⟨?_, exec_tabled answered, ?_⟩
    · cases Kernel.exec_update answered <;> first | rfl | exact steady.elim
    · cases Kernel.exec_update answered with
      | closed found _ | freed found _ => exact others _ steady
      | same | locked | unlocked => exact fun _ _ => rfl
      | _ => exact steady.elim
  · exact ⟨rfl, id, fun _ _ => rfl⟩

structure Unmoved (p : Pid) (s t : Kernel × Log) : Prop where
  files : t.1.files = s.1.files
  tabled : Tabled s.1 → Tabled t.1
  unopened : ∀ path mode, Unopened path mode s.2 → Unopened path mode t.2

theorem steady_run (within : Program.Within (Steady closing) (fun _ _ => True) R program)
    (run : Program.Runs (Recorded p) program s value t) :
    R value ∧ Unmoved p s t ∧ ∀ fd, ¬ closing fd → t.1.descOf p fd = s.1.descOf p fd := by
  have respects : Program.Respects (Steady closing) (fun _ _ => True) (Recorded p) fun u =>
      Unmoved p s u ∧ ∀ fd, ¬ closing fd → u.1.descOf p fd = s.1.descOf p fd := by
    rintro c u r v steady ⟨moved, descs⟩ ⟨step, noted⟩
    obtain ⟨files', tabled', descs'⟩ := steady_step steady step
    refine ⟨trivial, ⟨files'.trans moved.files, tabled' ∘ moved.tabled, fun path mode before fd member => ?_⟩,
      fun fd stays => (descs' fd stays).trans (descs fd stays)⟩
    rw [noted, List.mem_append, List.mem_singleton] at member
    rcases member with earlier | ⟨⟨⟩⟩
    · exact moved.unopened path mode before fd earlier
    · exact steady.elim
  exact Program.Within.runs respects within run ⟨⟨rfl, id, fun _ _ => id⟩, fun _ _ => rfl⟩

theorem Amid.still (amid : Amid k s.1 now) (moved : Unmoved p s t) : Amid k t.1 now :=
  ⟨moved.files ▸ amid.turns, moved.tabled amid.tabled⟩

theorem Attached.still (attached : Attached p s.1 now fd d x) (moved : Unmoved p s t)
    (desc : t.1.descOf p fd = s.1.descOf p fd) : Attached p t.1 now fd d x := by
  obtain ⟨D, i, text, found, ino, writer, linked, holds, atEnd⟩ := attached
  exact ⟨D, i, text, desc.trans found, ino, writer, moved.files ▸ linked, holds, atEnd⟩

theorem lock_run {st st' : Flstream} {kind : LockKind} (run : Program.Runs (Recorded p) (st.lock kind) s st' t) :
    st'.fd = st.fd ∧ Unmoved p s t ∧ ∀ fd, t.1.descOf p fd = s.1.descOf p fd := by
  have within : Program.Within (Steady fun _ => False) (fun _ _ => True) (fun r => r.fd = st.fd) (st.lock kind) :=
    Flstream.lock_within fun _ _ => trivial
  obtain ⟨own, moved, descs⟩ := steady_run within run
  exact ⟨own, moved, fun fd => descs fd not_false⟩

theorem close_run {st st' : Flstream} (run : Program.Runs (Recorded p) st.close s st' t) :
    Unmoved p s t ∧ ∀ fd, st.fd ≠ some fd → t.1.descOf p fd = s.1.descOf p fd := by
  have within : Program.Within (Steady fun fd => st.fd = some fd) (fun _ _ => True) (fun _ => True) st.close :=
    Flstream.close_within (fun _ _ => trivial) fun _ => id
  exact (steady_run within run).2

end Steady

/-! ## Writing -/

section Writing
variable {st st' : Flstream}

def grown (now : Contents) (d : Dir) (x more : Bytes) : Contents :=
  put d x (some ((now d x).getD [] ++ more)) now

theorem grown_nil (attached : Attached p k now fd d x) : grown now d x [] = now := by
  obtain ⟨_, _, text, _, _, _, _, holds, _⟩ := attached
  rw [grown, holds, Option.getD_some, List.append_nil, ← holds, put_same]

theorem grown_grown (first second : Bytes) :
    grown (grown now d x first) d x second = grown now d x (first ++ second) := by
  simp [grown, put_put, List.append_assoc]

structure Grew (p : Pid) (k : Kernel) (s t : Kernel × Log) (now : Contents) (fd : Fd) (d : Dir) (x more : Bytes) :
    Prop where
  amid : Amid k t.1 (grown now d x more)
  attached : Attached p t.1 (grown now d x more) fd d x
  others : ∀ fd' d' x', fd' ≠ fd → d' ≠ d ∨ x' ≠ x → Attached p s.1 now fd' d' x' →
    Attached p t.1 (grown now d x more) fd' d' x'
  log : s.2 <+: t.2

theorem Grew.trans {u : Kernel × Log} {first second : Bytes} (before : Grew p k s t now fd d x first)
    (after : Grew p k t u (grown now d x first) fd d x second) : Grew p k s u now fd d x (first ++ second) := by
  obtain ⟨amid, attached, others, log⟩ := after
  rw [grown_grown] at amid attached others
  exact ⟨amid, attached, fun fd' d' x' other apart here =>
    others fd' d' x' other apart (before.others fd' d' x' other apart here), before.log.trans log⟩

theorem Attached.data {k' : Kernel} {i : Ino} {text : Bytes} (amid : Amid k k' now)
    (linked : k'.files.node (entry k'.files d x) = some (.file i)) (holds : now d x = some text) :
    k'.files.data i = text := by
  have same := Files.content_of_file linked
  have now := congrFun (congrFun amid.turns.records d) x
  unfold record at now
  rw [holds, same] at now
  exact Option.some.inj now

theorem grew_written {k₁ k₂ : Kernel} {r : Except Errno Nat} (bytes : Bytes) (amid : Amid k k₁ now)
    (attached : Attached p k₁ now fd d x) (answered : Kernel.Does p (.write fd bytes) k₁ r k₂) :
    Amid k k₂ (grown now d x bytes) ∧ Attached p k₂ (grown now d x bytes) fd d x ∧
      ∀ fd' d' x', fd' ≠ fd → d' ≠ d ∨ x' ≠ x → Attached p k₁ now fd' d' x' →
        Attached p k₂ (grown now d x bytes) fd' d' x' := by
  obtain ⟨D, i, text, found, ino, writer, linked, holds, atEnd⟩ := attached
  have data := Attached.data amid linked holds
  have written : Runs p (Flstream.write ⟨some fd, 0⟩ bytes) k₁ _ k₂ :=
    Program.Runs.bind (Program.runs_issue_iff.mpr answered) Program.Runs.done
  have tabled := exec_tabled answered amid.tabled
  have full := Flstream.write_runs (e := 0) bytes found ino writer (data.symm ▸ atEnd)
  rw [data] at full
  obtain ⟨_, rfl⟩ := (gives_of_runs full _ _).mp written
  have turns := Turns.setData (text ++ bytes) amid.turns.sane linked
  rw [amid.turns.records] at turns
  have now' : grown now d x bytes = put d x (some (text ++ bytes)) now := by
    rw [grown, holds]
    rfl
  have descs : ∀ other, ((k₁.setData i (text ++ bytes)).setPos fd D (text.length + bytes.length)).descOf p other =
      if other = fd then some { D with pos := text.length + bytes.length } else k₁.descOf p other :=
    fun other => Kernel.descOf_setPos _ (Kernel.descOf_pid found) other
  rw [now']
  refine ⟨⟨amid.turns.trans turns, tabled⟩, ⟨{ D with pos := text.length + bytes.length }, i, text ++ bytes, ?_,
    ino, writer, linked, put_self .., ?_⟩, fun fd' d' x' other apart here => ?_⟩
  · rw [descs, if_pos rfl]
  · exact Or.inr (List.length_append ..).symm
  · obtain ⟨D', j, text', found', ino', writer', linked', holds', atEnd'⟩ := here
    refine ⟨D', j, text', ?_, ino', writer', linked', ?_, atEnd'⟩
    · rw [descs, if_neg other]
      exact found'
    · rw [put_other _ _ _ _ _ _ apart]
      exact holds'

theorem write_amid {bytes : Bytes} (amid : Amid k s.1 now) (attached : Attached p s.1 now fd d x)
    (own : st.fd = some fd) (run : Program.Runs (Recorded p) (st.write bytes) s st' t) :
    st'.fd = some fd ∧ ∃ more, (more = [] ∨ more = bytes) ∧ Grew p k s t now fd d x more := by
  have log := run.log_prefix
  obtain ⟨_, e⟩ := st
  obtain rfl : _ = some fd := own
  obtain ⟨r, middle, wrote, rest⟩ := Program.runs_bind_split run
  obtain ⟨step, noted⟩ : Kernel.MayDo p (.write fd bytes) s.1 r middle.1 ∧ _ := Program.runs_issue_iff.mp wrote
  obtain ⟨rfl, rfl⟩ := Program.runs_done_iff.mp rest
  refine ⟨by cases r <;> rfl, ?_⟩
  rcases step with answered | ⟨same, _⟩
  · have grows := grew_written bytes amid attached answered
    exact ⟨bytes, Or.inr rfl, grows.1, grows.2.1, grows.2.2, log⟩
  · refine ⟨[], Or.inl rfl, ?_, ?_, ?_, log⟩
    · rw [grown_nil attached, same]
      exact amid
    · rw [grown_nil attached, same]
      exact attached
    · intro fd' d' x' _ _ here
      rw [grown_nil attached, same]
      exact here

theorem writeRecord_amid {text : Bytes} (amid : Amid k s.1 now) (attached : Attached p s.1 now fd d x)
    (own : st.fd = some fd) (run : Program.Runs (Recorded p) (st.writeRecord text SEPARATOR) s st' t) :
    st'.fd = some fd ∧ ∃ more ∈ pieces text, Grew p k s t now fd d x more := by
  obtain ⟨middle, u, first, second⟩ := Program.runs_bind_split run
  obtain ⟨own, more, kind, grew⟩ := write_amid amid attached own first
  obtain ⟨own, more', kind', grew'⟩ := write_amid grew.amid grew.attached own second
  refine ⟨own, more ++ more', ?_, grew.trans grew'⟩
  rcases kind with rfl | rfl <;> rcases kind' with rfl | rfl <;> simp [pieces]

end Writing

/-! ## Storing -/

section Creating
variable {name id : Bytes}

/-- The index has been opened, a piece of its line and one of the record are written,
and the data may have been made empty. -/
def Partly (name id : Bytes) (r now : Contents) : Prop :=
  ∃ line ∈ pieces id, ∃ filed ∈ pieces name, ∃ data, (data = r .data id ∨ data = some []) ∧
    now = put .data id data (put .byId id (some filed) (put .byName name (some ((r .byName name).getD [] ++ line)) r))

/-- How far `create` has come when it fails, by what it has opened. -/
def Stopped (k k' : Kernel) (name id : Bytes) (log : Log) : Prop :=
  Unopened (NAME_DIR ++ name) CREATE_NAME log ∧ record k'.files = record k.files ∨
  Unopened (ID_DIR ++ id) CREATE_FILE log ∧
    record k'.files = put .byName name (some ((record k.files .byName name).getD [])) (record k.files) ∨
  Partly name id (record k.files) (record k'.files)

theorem unopened_append {path : Bytes} {mode : Flags} {log : Log} {c : Call} {r : Resp c}
    (before : Unopened path mode log) (other : ∀ fd, (⟨c, r⟩ : Sigma Resp) ≠ ⟨.open path mode, .ok fd⟩) :
    Unopened path mode (log ++ [⟨c, r⟩]) := by
  intro fd member
  rcases List.mem_append.mp member with earlier | here
  · exact before fd earlier
  · exact other fd (List.mem_singleton.mp here).symm

theorem grown_grown_apart (old line filed : Bytes) (r : Contents) :
    grown (grown (put .byId id (some []) (put .byName name (some old) r)) .byName name line) .byId id filed =
      put .byId id (some filed) (put .byName name (some (old ++ line)) r) := by
  -- The record is empty and the index whole when the two are begun.
  have index : put .byId id (some []) (put .byName name (some old) r) .byName name = some old := by
    simp [put]
  have filed' : put .byName name (some (old ++ line)) (put .byId id (some []) (put .byName name (some old) r)) .byId id =
      some [] := by
    simp [put]
  rw [grown, grown, index, Option.getD_some, filed', Option.getD_some, List.nil_append]
  funext d x
  cases d with
  | byName => by_cases same : x = name <;> simp [put, same]
  | byId => by_cases same : x = id <;> simp [put, same]
  | data => simp [put]

theorem partly_opened {old line filed : Bytes} {r : Contents} {st : Flstream} (line_ : line ∈ pieces id)
    (filed_ : filed ∈ pieces name) (indexed : (r .byName name).getD [] = old) (ids : PlainName id)
    (amid : Amid k s.1 (grown (grown (put .byId id (some []) (put .byName name (some old) r))
      .byName name line) .byId id filed))
    (opens : Program.Runs (Recorded p) (Flstream.new (DATA_DIR ++ id) CREATE_FILE) s st t) :
    Partly name id r (record t.1.files) := by
  refine ⟨line, line_, filed, filed_, ?_⟩
  rw [grown_grown_apart] at amid
  rcases new_amid (d := .data) (m := CREATE_FILE) amid (Names.of_plain ids) opens rfl rfl (Or.inr rfl) with
    ⟨_, _, _, same, _⟩ | ⟨_, _, _, opened, _⟩
  · refine ⟨_, Or.inl rfl, ?_⟩
    rw [same, amid.turns.records, indexed]
    exact (put_same .data _ _).symm
  · refine ⟨_, Or.inr rfl, ?_⟩
    rw [opened.turns.records, indexed]
    rfl

theorem create_stages {r : Except Error Bytes} (sane : Sane k.files) (tabled : Tabled k) (plain : PlainName name)
    (ids : PlainName (k.source k.drawn)) (run : Program.Runs (Recorded p) (create name) (k, []) r t) :
    (∃ e, r = .error e ∧ Stopped k t.1 name (k.source k.drawn) t.2) ∨
      r = .ok (k.source k.drawn) ∧ Partly name (k.source k.drawn) (record k.files) (record t.1.files) := by
  obtain ⟨id, s₀, draws, run⟩ := Program.runs_bind_split run
  obtain ⟨drawn, noted⟩ : Kernel.MayDo p .draw k id s₀.1 ∧ s₀.2 = [⟨.draw, id⟩] := Program.runs_issue_iff.mp draws
  rcases drawn with drawn | ⟨_, ⟨⟩⟩
  obtain ⟨rfl, next⟩ : k.source k.drawn = id ∧ k.nextDraw = s₀.1 := by
    simpa [Kernel.Does, Kernel.exec] using drawn
  have amid : Amid k s₀.1 (record k.files) := by
    rw [← next]
    exact ⟨Turns.refl sane, tabled⟩
  have fresh : ∀ path mode, Unopened path mode s₀.2 := by
    intro path mode fd member
    rw [noted] at member
    cases List.mem_singleton.mp member
  obtain ⟨nameFile, s₁, opens, run⟩ := Program.runs_bind_split run
  rcases new_amid (d := .byName) (m := CREATE_NAME) amid (Names.of_plain plain) opens rfl rfl (Or.inl rfl) with
    ⟨e, rfl, some_, same, log⟩ | ⟨a, rfl, log, amid, attached, _⟩
  · left
    rw [if_pos ((Flstream.fail_iff none e).mpr some_)] at run
    obtain ⟨_, s₂, closes, run⟩ := Program.runs_bind_split run
    obtain ⟨rfl, rfl⟩ := Program.runs_done_iff.mp run
    obtain ⟨moved, _⟩ := close_run closes
    refine ⟨_, rfl, Or.inl ⟨moved.unopened _ _ ?_, ?_⟩⟩
    · rw [log]
      exact unopened_append (fresh _ _) fun fd same => by cases same
    · rw [moved.files, same, amid.turns.records]
  simp only [made, Flstream.fail_opened, Bool.false_eq_true, ↓reduceIte, show CREATE_NAME.trunc = false from rfl]
    at run amid attached
  obtain ⟨nameFile, s₂, locks, run⟩ := Program.runs_bind_split run
  obtain ⟨own, moved, descs⟩ := lock_run locks
  have amid := amid.still moved
  have attached := attached.still moved (descs a)
  have fresh : Unopened (ID_DIR ++ k.source k.drawn) CREATE_FILE s₂.2 := by
    refine moved.unopened _ _ ?_
    rw [log]
    refine unopened_append (fresh _ _) fun fd same => ?_
    simp only [Sigma.mk.injEq, Call.open.injEq] at same
    exact absurd same.1.2 (by decide)
  obtain ⟨idFile, s₃, opens, run⟩ := Program.runs_bind_split run
  rcases new_amid (d := .byId) (m := CREATE_FILE) amid (Names.of_plain ids) opens rfl rfl (Or.inr rfl) with
    ⟨e, rfl, some_, same, log⟩ | ⟨b, rfl, _, amid, attached', others⟩
  · left
    rw [if_pos ((Flstream.fail_iff none e).mpr some_)] at run
    obtain ⟨_, s₄, closes, run⟩ := Program.runs_bind_split run
    obtain ⟨_, s₅, closes', run⟩ := Program.runs_bind_split run
    obtain ⟨rfl, rfl⟩ := Program.runs_done_iff.mp run
    obtain ⟨moved₄, _⟩ := close_run closes
    obtain ⟨moved₅, _⟩ := close_run closes'
    refine ⟨_, rfl, Or.inr (Or.inl ⟨moved₅.unopened _ _ (moved₄.unopened _ _ ?_), ?_⟩)⟩
    · rw [log]
      exact unopened_append fresh fun fd same => by cases same
    · rw [moved₅.files, moved₄.files, same, amid.turns.records]
  right
  obtain ⟨apart, attached⟩ := others a .byName name (Or.inl (by decide)) attached
  simp only [made, Flstream.fail_opened, Bool.false_eq_true, ↓reduceIte, show CREATE_FILE.trunc = true from rfl]
    at run amid attached attached'
  obtain ⟨idFile, s₄, locks, run⟩ := Program.runs_bind_split run
  obtain ⟨own', moved, descs⟩ := lock_run locks
  have amid := amid.still moved
  have attached := attached.still moved (descs a)
  have attached' := attached'.still moved (descs b)
  -- the line of the index
  obtain ⟨nameFile, s₅, writes, run⟩ := Program.runs_bind_split run
  obtain ⟨own, line, lines, grew⟩ := writeRecord_amid amid attached own writes
  obtain ⟨nameFile', s₆, closes, run⟩ := Program.runs_bind_split run
  obtain ⟨moved, descs⟩ := close_run closes
  have amid := grew.amid.still moved
  have stays : nameFile.fd ≠ some b := fun same => apart (Option.some.inj (own.symm.trans same))
  have attached' := (grew.others b .byId _ apart.symm (Or.inl (by decide)) attached').still moved (descs b stays)
  -- the record
  obtain ⟨idFile, s₇, writes, run⟩ := Program.runs_bind_split run
  obtain ⟨own', filed, fileds, grew⟩ := writeRecord_amid amid attached' own' writes
  obtain ⟨dataFile, s₈, opens, run⟩ := Program.runs_bind_split run
  obtain ⟨_, s₉, closes₉, run⟩ := Program.runs_bind_split run
  obtain ⟨_, s₁₀, closes₁₀, run⟩ := Program.runs_bind_split run
  obtain ⟨_, s₁₁, closes₁₁, run⟩ := Program.runs_bind_split run
  obtain ⟨rfl, rfl⟩ := Program.runs_done_iff.mp run
  obtain ⟨moved₉, _⟩ := close_run closes₉
  obtain ⟨moved₁₀, _⟩ := close_run closes₁₀
  obtain ⟨moved₁₁, _⟩ := close_run closes₁₁
  refine ⟨rfl, ?_⟩
  rw [moved₁₁.files, moved₁₀.files, moved₉.files]
  exact partly_opened lines fileds rfl ids grew.amid opens

end Creating

end Sfsdb.Volume

import Sfsdb.StorageCalls
import Sfsdb.VolumeRuns

/-!
What a program leaves alone, at every point it can reach and whichever of its
calls fail. `touched` are the entries that the program may empty, write or
remove; to the `grown` ones it only ever appends. Both are found from the text
of the program alone: it opens nothing else for writing, and it writes to no
descriptor that it has not opened itself.
-/

namespace Sfsdb.Volume

open Posix Storage

/-- Numbers of descriptors that are still to be handed out stand for nothing. -/
def Tabled (k : Kernel) : Prop := ∀ fd, k.nextFd ≤ fd → k.desc fd = none

section Frame
variable (touched grown : Dir → Bytes → Prop)

/-- Looking at anything, appending to what is grown, anything with what is touched. -/
def sparing : Footprint where
  opens path mode :=
    mode.write = false ∧ mode.creat = false ∨
    ∃ d x y, path = d.text ++ x ∧ Names x y ∧
      (touched d y ∨ grown d y ∧ mode.append = true ∧ mode.trunc = false)
  removes path := ∃ d x y, path = d.text ++ x ∧ Names x y ∧ touched d y
  stats _ := True
  writes := True
  talks := False
  draws _ := True

/-- From `k₀` to `k` process `p` has kept to that, and so have its descriptors from `N` on. -/
structure Spares (N : Fd) (p : Pid) (k₀ k : Kernel) : Prop where
  sane : Sane k.files
  dirs : SameDirs k₀.files k.files
  nextFd : N ≤ k.nextFd
  tabled : Tabled k
  kept : ∀ d x, ¬ touched d x → ¬ grown d x → record k.files d x = record k₀.files d x
  added : ∀ d x old, ¬ touched d x → record k₀.files d x = some old →
    ∃ more, record k.files d x = some (old ++ more)
  made : ∀ fd D i, N ≤ fd → k.descOf p fd = some D → D.ino = some i → i < k.files.nextIno
  opened : ∀ fd D i d x, N ≤ fd → k.descOf p fd = some D → D.flags.write = true →
    D.ino = some i → k.files.node (entry k.files d x) = some (.file i) →
    touched d x ∨ grown d x ∧ D.flags.append = true

variable {touched grown} {N : Fd} {p : Pid} {k₀ k k' : Kernel} {d : Dir} {x y : Bytes}

theorem Spares.refl (sane : Sane k.files) (tabled : Tabled k) : Spares touched grown k.nextFd p k k := by
  have unopened : ∀ fd, k.nextFd ≤ fd → k.descOf p fd = none := by
    intro fd above
    simp [Kernel.descOf, tabled fd above]
  refine ⟨sane, SameDirs.refl _, Nat.le_refl _, tabled, fun _ _ _ _ => rfl,
    fun d x old _ holds => ⟨[], by simpa using holds⟩, ?_, ?_⟩
  · intro fd D i above found
    rw [unopened fd above] at found
    cases found
  · intro fd D i d x above found
    rw [unopened fd above] at found
    cases found

def Inherits (p : Pid) (k k' : Kernel) : Prop :=
  ∀ fd D', k'.descOf p fd = some D' →
    ∃ D, k.descOf p fd = some D ∧ D'.flags = D.flags ∧ D'.ino = D.ino

theorem inherits_same (same : k'.desc = k.desc) : Inherits p k k' := by
  intro fd D' found
  exact ⟨D', by simpa [Kernel.descOf, same] using found, rfl, rfl⟩

theorem inherits_setPos {fd : Fd} {D : Description} (found : k.descOf p fd = some D) (pos : Nat)
    (same : k'.desc = (k.setPos fd D pos).desc) : Inherits p k k' := by
  intro other D' found'
  have there : (k.setPos fd D pos).descOf p other = some D' := by
    simpa [Kernel.descOf, same] using found'
  rw [Kernel.descOf_setPos _ (Kernel.descOf_pid found)] at there
  by_cases own : other = fd
  · subst own
    simp only [↓reduceIte, Option.some.injEq] at there
    exact ⟨D, found, by rw [← there], by rw [← there]⟩
  · rw [if_neg own] at there
    exact ⟨D', there, rfl, rfl⟩

theorem inherits_dropDesc {fd : Fd} (same : k'.desc = (k.dropDesc fd).desc) : Inherits p k k' := by
  intro other D' found
  have there : (k.dropDesc fd).descOf p other = some D' := by
    simpa [Kernel.descOf, same] using found
  rw [Kernel.descOf_dropDesc] at there
  split at there
  · cases there
  · exact ⟨D', there, rfl, rfl⟩

theorem exec_inherits {c : Call} {r : Resp c} (other : ∀ path mode, c ≠ .open path mode)
    (answered : k.exec p c = some (r, k')) : Inherits p k k' ∧ k'.nextFd = k.nextFd := by
  -- Only `open` hands out a descriptor.
  cases Kernel.exec_update answered with
  | opened => exact absurd rfl (other _ _)
  | read found | sought found => exact ⟨inherits_setPos found _ rfl, rfl⟩
  | wrote found _ => exact ⟨inherits_setPos found _ rfl, rfl⟩
  | closed found _ => exact ⟨inherits_dropDesc rfl, rfl⟩
  | freed found _ => exact ⟨inherits_dropDesc rfl, rfl⟩
  | _ => exact ⟨inherits_same rfl, rfl⟩

theorem exec_tabled {c : Call} {r : Resp c} (answered : k.exec p c = some (r, k'))
    (tabled : Tabled k) : Tabled k' := by
  have below : ∀ fd D, k.descOf p fd = some D → fd < k.nextFd := by
    intro fd D found
    by_contra above
    simp [Kernel.descOf, tabled fd (Nat.le_of_not_lt above)] at found
  intro fd above
  cases Kernel.exec_update answered with
  | opened =>
      have past : k.nextFd + 1 ≤ fd := above
      change Function.update k.desc k.nextFd _ fd = none
      rw [Function.update_of_ne (Nat.ne_of_gt past)]
      exact tabled fd (Nat.le_of_succ_le past)
  | read found | sought found | wrote found _ | closed found _ | freed found _ =>
      have past : k.nextFd ≤ fd := above
      change Function.update k.desc _ _ fd = none
      rw [Function.update_of_ne (Nat.ne_of_gt ((below _ _ found).trans_le past))]
      exact tabled fd past
  | _ => exact tabled fd above

/-! ## One call -/

theorem Spares.still (spares : Spares touched grown N p k₀ k) (files : k'.files = k.files)
    (inherits : Inherits p k k') (nextFd : k'.nextFd = k.nextFd) (tabled : Tabled k') :
    Spares touched grown N p k₀ k' := by
  refine ⟨files ▸ spares.sane, files ▸ spares.dirs, nextFd ▸ spares.nextFd, tabled, ?_, ?_, ?_, ?_⟩
  · rw [files]
    exact spares.kept
  · rw [files]
    exact spares.added
  · intro fd D' i above found ino
    obtain ⟨D, before, _, same⟩ := inherits fd D' found
    rw [files]
    exact spares.made fd D i above before (same ▸ ino)
  · intro fd D' i d x above found writes ino linked
    obtain ⟨D, before, flags, same⟩ := inherits fd D' found
    rw [files] at linked
    rw [flags] at writes ⊢
    exact spares.opened fd D i d x above before writes (same ▸ ino) linked

theorem Spares.filled (spares : Spares touched grown N p k₀ k) {i : Ino} {bytes : Bytes}
    (files : k'.files = k.files.setData i bytes) (inherits : Inherits p k k')
    (nextFd : k'.nextFd = k.nextFd) (tabled : Tabled k')
    (may : ∀ d x, k.files.node (entry k.files d x) = some (.file i) →
      touched d x ∨ grown d x ∧ ∃ more, bytes = k.files.data i ++ more) :
    Spares touched grown N p k₀ k' := by
  -- entries of other inodes hold what they held
  have same : ∀ d x, k.files.node (entry k.files d x) ≠ some (.file i) →
      record k'.files d x = record k.files d x := by
    intro d x other
    rw [files]
    unfold record Files.content
    rw [Files.node_setData, show entry (k.files.setData i bytes) d x = entry k.files d x from rfl]
    cases node : k.files.node (entry k.files d x) with
    | none => rfl
    | some found =>
        cases found with
        | dir => rfl
        | file j =>
            have distinct : j ≠ i := by
              rintro rfl
              exact other node
            simp [distinct]
  have holds : ∀ d x, k.files.node (entry k.files d x) = some (.file i) →
      record k'.files d x = some bytes ∧ record k.files d x = some (k.files.data i) := by
    intro d x linked
    refine ⟨?_, Files.content_of_file linked⟩
    rw [files]
    exact (Files.content_of_file (f := k.files.setData i bytes) linked).trans (by simp)
  refine ⟨?_, files ▸ spares.dirs.trans (SameDirs.setData _ i bytes), nextFd ▸ spares.nextFd, tabled,
    ?_, ?_, ?_, ?_⟩
  · rw [files]
    exact spares.sane.setData i bytes
  · intro d x untouched short
    by_cases linked : k.files.node (entry k.files d x) = some (.file i)
    · rcases may d x linked with here | ⟨here, _⟩
      · exact absurd here untouched
      · exact absurd here short
    · rw [same d x linked, spares.kept d x untouched short]
  · intro d x old untouched before
    obtain ⟨more, now⟩ := spares.added d x old untouched before
    by_cases linked : k.files.node (entry k.files d x) = some (.file i)
    · rcases may d x linked with here | ⟨_, rest, longer⟩
      · exact absurd here untouched
      · obtain ⟨after, held⟩ := holds d x linked
        rw [now] at held
        rw [after, longer, ← Option.some.inj held]
        exact ⟨more ++ rest, by simp⟩
    · exact ⟨more, by rw [same d x linked, now]⟩
  · intro fd D' j above found ino
    obtain ⟨D, before, _, kept⟩ := inherits fd D' found
    rw [files]
    exact spares.made fd D j above before (kept ▸ ino)
  · intro fd D' j d x above found writes ino linked
    obtain ⟨D, before, flags, kept⟩ := inherits fd D' found
    rw [files] at linked
    rw [flags] at writes ⊢
    exact spares.opened fd D j d x above before writes (kept ▸ ino) linked

theorem Spares.unlinked (spares : Spares touched grown N p k₀ k) (here : touched d y)
    (files : k'.files = k.files.unlink (entry k.files d y)) (inherits : Inherits p k k')
    (nextFd : k'.nextFd = k.nextFd) (tabled : Tabled k') : Spares touched grown N p k₀ k' := by
  have turns := Turns.unlink (d := d) (x := y) spares.sane
  rw [← files] at turns
  have other : ∀ d' x, ¬ touched d' x → record k'.files d' x = record k.files d' x := by
    intro d' x untouched
    rw [turns.records, put_other]
    by_contra both
    obtain ⟨rfl, rfl⟩ : d' = d ∧ x = y := by tauto
    exact untouched here
  refine ⟨turns.sane, spares.dirs.trans turns.dirs, nextFd ▸ spares.nextFd, tabled, ?_, ?_, ?_, ?_⟩
  · intro d' x untouched short
    rw [other d' x untouched, spares.kept d' x untouched short]
  · intro d' x old untouched before
    rw [other d' x untouched]
    exact spares.added d' x old untouched before
  · intro fd D' i above found ino
    obtain ⟨D, before, _, same⟩ := inherits fd D' found
    rw [files]
    exact spares.made fd D i above before (same ▸ ino)
  · intro fd D' i d' x above found writes ino linked
    obtain ⟨D, before, flags, same⟩ := inherits fd D' found
    rw [turns.dirs.entry, files, Files.node_unlink _ _ (entry_ne_nil _ _ _)] at linked
    split at linked
    · cases linked
    · rw [flags] at writes ⊢
      exact spares.opened fd D i d' x above before writes (same ▸ ino) linked

theorem Spares.linked (spares : Spares touched grown N p k₀ k) (here : touched d y ∨ grown d y)
    (absent : k.files.node (entry k.files d y) = none) :
    Spares touched grown N p k₀ (k.create (entry k.files d y)) := by
  -- A new file in a directory, empty and not open anywhere yet.
  have turns := Turns.create (d := d) (x := y) spares.sane absent
  have nothing : record k.files d y = none := by simp [record, Files.content, absent]
  have other : ∀ d' x, (d' ≠ d ∨ x ≠ y) →
      record (k.create (entry k.files d y)).files d' x = record k.files d' x := by
    intro d' x apart
    rw [Kernel.files_create, turns.records, put_other _ _ _ _ _ _ apart]
  refine ⟨turns.sane, spares.dirs.trans turns.dirs, spares.nextFd, spares.tabled, ?_, ?_, ?_, ?_⟩
  · intro d' x untouched short
    have apart : d' ≠ d ∨ x ≠ y := by
      by_contra both
      obtain ⟨rfl, rfl⟩ : d' = d ∧ x = y := by tauto
      exact here.elim untouched short
    rw [other d' x apart, spares.kept d' x untouched short]
  · intro d' x old untouched before
    obtain ⟨more, now⟩ := spares.added d' x old untouched before
    rw [other d' x, now]
    · exact ⟨more, rfl⟩
    · by_contra both
      obtain ⟨rfl, rfl⟩ : d' = d ∧ x = y := by tauto
      rw [nothing] at now
      cases now
  · intro fd D i above found ino
    exact Nat.lt_succ_of_lt (spares.made fd D i above found ino)
  · intro fd D i d' x above found writes ino linked
    -- an older descriptor cannot stand on the new inode
    have older := spares.made fd D i above found ino
    rw [Kernel.files_create, turns.dirs.entry, Files.node_create _ _ (entry_ne_nil _ _ _)] at linked
    split at linked
    · cases linked
      exact absurd older (Nat.lt_irrefl _)
    · exact spares.opened fd D i d' x above found writes ino linked

theorem Spares.adds (spares : Spares touched grown N p k₀ k) (D : Description)
    (made : ∀ i, D.ino = some i → i < k.files.nextIno)
    (may : D.flags.write = true → ∀ i d x, D.ino = some i →
      k.files.node (entry k.files d x) = some (.file i) → touched d x ∨ grown d x ∧ D.flags.append = true)
    (own : D.pid = p) : Spares touched grown N p k₀ (k.addDesc D) := by
  refine ⟨spares.sane, spares.dirs, Nat.le_succ_of_le spares.nextFd, ?_, spares.kept, spares.added,
    ?_, ?_⟩
  · intro fd above
    have past : k.nextFd + 1 ≤ fd := above
    change Function.update k.desc k.nextFd _ fd = none
    rw [Function.update_of_ne (Nat.ne_of_gt past)]
    exact spares.tabled fd (Nat.le_of_succ_le past)
  · intro fd D' i above found ino
    rw [Kernel.descOf_addDesc own] at found
    split at found
    · cases found
      exact made i ino
    · exact spares.made fd D' i above found ino
  · intro fd D' i d x above found writes ino linked
    rw [Kernel.descOf_addDesc own] at found
    split at found
    · cases found
      exact may writes i d x ino linked
    · exact spares.opened fd D' i d x above found writes ino linked

theorem Spares.reads (spares : Spares touched grown N p k₀ k) {path : Bytes} {mode : Flags}
    {r : Except Errno Fd} (reads : mode.write = false) (keeps : mode.creat = false)
    (answered : k.openFile p path mode = (r, k')) :
    Spares touched grown N p k₀ k' ∧ ∀ fd, r = .ok fd → N ≤ fd := by
  unfold Kernel.openFile at answered
  split at answered
  · cases answered
    exact ⟨spares, fun fd failed => by cases failed⟩
  · split at answered
    · rw [reads, keeps, if_neg (by simp)] at answered
      cases answered
      refine ⟨spares.adds _ (fun i none_ => by cases none_) (fun _ i _ _ none_ => by cases none_) rfl,
        fun fd same => ?_⟩
      cases same
      exact spares.nextFd
    · rename_i i file
      rw [reads, Bool.and_false, if_neg (by simp)] at answered
      cases answered
      refine ⟨spares.adds _ (fun j same => ?_) (fun writes => ?_) rfl, fun fd same => ?_⟩
      · cases same
        exact spares.sane.sound.below _ i file
      · exact absurd writes (by simp [reads])
      · cases same
        exact spares.nextFd
    · rw [keeps, if_neg (by simp)] at answered
      cases answered
      exact ⟨spares, fun fd failed => by cases failed⟩

theorem Spares.opensEntry (spares : Spares touched grown N p k₀ k) {x : Bytes} {mode : Flags}
    {r : Except Errno Fd} (names : Names x y)
    (may : touched d y ∨ grown d y ∧ mode.append = true ∧ mode.trunc = false)
    (answered : k.openFile p (d.text ++ x) mode = (r, k')) :
    Spares touched grown N p k₀ k' ∧ ∀ fd, r = .ok fd → N ≤ fd := by
  -- an inode is linked at one entry only
  have single : ∀ {q i d x}, k.files.node q = some (.file i) →
      k.files.node (entry k.files d x) = some (.file i) → entry k.files d x = q :=
    fun here there => spares.sane.sound.single _ _ _ there here
  have resolved := resolve_entry k.files spares.sane.layout d names
  have either : touched d y ∨ grown d y := may.imp_right And.left
  have writable : ∀ {d' x'}, entry k.files d' x' = entry k.files d y →
      touched d' x' ∨ grown d' x' ∧ mode.append = true := by
    intro d' x' same
    obtain ⟨rfl, rfl⟩ := (entry_inj k.files d' d x' y).mp same
    exact may.imp_right fun short => ⟨short.1, short.2.1⟩
  unfold Kernel.openFile at answered
  rw [resolved] at answered
  rcases spares.sane.entry_cases d y with ⟨i, file, _⟩ | ⟨absent, _⟩
  · have below := spares.sane.sound.below _ i file
    simp only [file] at answered
    cases answered
    refine ⟨?_, fun fd same => by cases same; exact spares.nextFd⟩
    split
    · rename_i cut
      have emptied : Spares touched grown N p k₀ (k.setData i []) := by
        refine spares.filled rfl (inherits_same rfl) rfl spares.tabled fun d' x' linked => ?_
        obtain ⟨rfl, rfl⟩ := (entry_inj k.files d' d x' y).mp (single file linked)
        rcases may with here | ⟨_, _, whole⟩
        · exact Or.inl here
        · simp [whole] at cut
      refine emptied.adds _ (fun j same => by cases same; exact below) (fun _ j d' x' same linked => ?_) rfl
      cases same
      exact writable (single file linked)
    · refine spares.adds _ (fun j same => by cases same; exact below) (fun _ j d' x' same linked => ?_) rfl
      cases same
      exact writable (single file linked)
  · simp only [absent] at answered
    split at answered
    · cases answered
      refine ⟨(spares.linked either absent).adds _ (fun j same => ?_) (fun _ j d' x' same linked => ?_) rfl,
        fun fd same => by cases same; exact spares.nextFd⟩
      · cases same
        exact Nat.lt_succ_self _
      · cases same
        apply writable
        by_contra other
        rw [Kernel.files_create, show entry (k.files.create (entry k.files d y)) d' x' =
          entry k.files d' x' from rfl, Files.node_create _ _ (entry_ne_nil _ _ _),
          if_neg other] at linked
        exact Nat.lt_irrefl _ (spares.sane.sound.below _ _ linked)
    · cases answered
      exact ⟨spares, fun fd failed => by cases failed⟩

theorem Spares.opens (spares : Spares touched grown N p k₀ k) {path : Bytes} {mode : Flags}
    {r : Except Errno Fd} (covered : (sparing touched grown).opens path mode)
    (answered : k.openFile p path mode = (r, k')) :
    Spares touched grown N p k₀ k' ∧ ∀ fd, r = .ok fd → N ≤ fd := by
  rcases covered with ⟨reads, keeps⟩ | ⟨d, x, y, rfl, names, may⟩
  · exact spares.reads reads keeps answered
  · exact spares.opensEntry names may answered

theorem Spares.writes (spares : Spares touched grown N p k₀ k) {fd : Fd} {bytes : Bytes}
    {r : Except Errno Nat} (own : N ≤ fd) (answered : k.exec p (.write fd bytes) = some (r, k')) :
    Spares touched grown N p k₀ k' := by
  obtain ⟨inherits, nextFd⟩ := exec_inherits (by simp) answered
  have tabled := exec_tabled answered spares.tabled
  simp only [Kernel.exec, Kernel.writeFile, Option.some.injEq] at answered
  split at answered
  · cases answered
    exact spares
  · rename_i D found
    split at answered
    · cases answered
      exact spares
    · rename_i writes
      split at answered
      · cases answered
        exact spares
      · rename_i i ino
        cases answered
        apply spares.filled rfl inherits nextFd tabled
        intro d x linked
        refine (spares.opened fd D i d x own found (by simpa using writes) ino linked).imp_right
          fun short => ⟨short.1, bytes, ?_⟩
        rw [if_pos short.2, Kernel.overwrite_end]

theorem Spares.cuts (spares : Spares touched grown N p k₀ k) {fd : Fd} {len : Nat}
    {r : Except Errno Unit} (own : N ≤ fd) (all : ∀ d x, ¬ grown d x)
    (answered : k.exec p (.ftruncate fd len) = some (r, k')) : Spares touched grown N p k₀ k' := by
  obtain ⟨inherits, nextFd⟩ := exec_inherits (by simp) answered
  have tabled := exec_tabled answered spares.tabled
  simp only [Kernel.exec, Kernel.truncateFile, Option.some.injEq] at answered
  split at answered
  · cases answered
    exact spares
  · rename_i D found
    split at answered
    · cases answered
      exact spares
    · rename_i i ino
      split at answered
      · cases answered
        exact spares
      · rename_i writes
        cases answered
        apply spares.filled rfl inherits nextFd tabled
        intro d x linked
        refine (spares.opened fd D i d x own found (by simpa using writes) ino linked).imp_right
          fun short => absurd short.1 (all d x)

theorem Spares.removes (spares : Spares touched grown N p k₀ k) {path : Bytes} {r : Except Errno Bool}
    (covered : (sparing touched grown).removes path) (answered : k.exec p (.remove path) = some (r, k')) :
    Spares touched grown N p k₀ k' := by
  obtain ⟨d, x, y, rfl, names, here⟩ := covered
  obtain ⟨inherits, nextFd⟩ := exec_inherits (by simp) answered
  have tabled := exec_tabled answered spares.tabled
  have resolved := resolve_entry k.files spares.sane.layout d names
  simp only [Kernel.exec, Kernel.removeFile, resolved, Option.some.injEq] at answered
  rcases spares.sane.entry_cases d y with ⟨i, file, _⟩ | ⟨absent, _⟩
  · simp only [file] at answered
    cases answered
    exact spares.unlinked here rfl inherits nextFd tabled
  · simp only [absent] at answered
    cases answered
    exact spares

variable {cuts : Prop}

/-- What the programs are allowed keeps within the frame, also where calls fail. -/
theorem sparing_respects (p : Pid) (k₀ : Kernel) (whole : cuts → ∀ d x, ¬ grown d x) :
    Program.Respects (fun c => (sparing touched grown).Covers c ∧ Footprint.Owns N cuts c)
      (fun c r => (sparing touched grown).Answers c r ∧ Footprint.Hands N c r)
      (Kernel.MayDo p) (Spares touched grown N p k₀) := by
  intro c k r k' covered spares step
  have handed : (∀ path mode, c ≠ .open path mode) →
      (sparing touched grown).Answers c r ∧ Footprint.Hands N c r := by
    intro other
    cases c <;> first | exact ⟨trivial, trivial⟩ | exact absurd rfl (other _ _)
  rcases step with answered | ⟨rfl, fails⟩
  · cases c with
    | «open» path mode =>
        simp only [Kernel.Does, Kernel.exec, Option.some.injEq] at answered
        obtain ⟨kept, above⟩ := spares.opens covered.1 answered
        refine ⟨⟨trivial, ?_⟩, kept⟩
        cases r with
        | error e => trivial
        | ok fd => exact above fd rfl
    | write fd bytes => exact ⟨handed (by simp), spares.writes covered.2 answered⟩
    | ftruncate fd len =>
        exact ⟨handed (by simp), spares.cuts covered.2.2 (whole covered.2.1) answered⟩
    | remove path => exact ⟨handed (by simp), spares.removes covered.1 answered⟩
    | _ =>
        obtain ⟨inherits, nextFd⟩ := exec_inherits (by simp) answered
        exact ⟨handed (by simp), spares.still (Kernel.exec_files (by trivial) answered) inherits nextFd
          (exec_tabled answered spares.tabled)⟩
  · refine ⟨⟨?_, ?_⟩, spares⟩
    · cases c <;> trivial
    · cases c <;> first
        | trivial
        | (obtain ⟨e, _, rfl⟩ := fails; trivial)

end Frame
end Sfsdb.Volume

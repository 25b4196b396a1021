import Sfsdb.Deletions
import Sfsdb.FileNames
import Sfsdb.Grammar

/-!
Index entries and what they stand for. A removal finds the files it takes away by
paths, cut at a NUL and resolved with '.' and '..', but the line it takes away by
comparing the whole string. Where the two disagree a line may stay behind.
-/

namespace Sfsdb.Dangling

open Posix Storage Volume Collisions

def Listed (r : Contents) (name x : Bytes) : Prop :=
  ∃ text, r .byName name = some text ∧ x ∈ Records.split SEPARATOR text

/-- Every listed id has its record and its data. -/
def Whole (r : Contents) : Prop := ∀ name x, Listed r name x → r .byId x ≠ none ∧ r .data x ≠ none

def Stores (k : Kernel) : Op → Prop
  | .store name _ => PlainName name ∧ Uid.Format (k.source k.drawn)
  | .remove _ => False

/-- A removal by `s` whose record is a file outside the volume with the text `bytes`
takes away neither file of `x`. -/
structure Spares (f : Files) (s bytes x : Bytes) : Prop where
  files : ∀ d, d = .byId ∨ d = .data → f.resolve (DATA_DIR ++ s) ≠ .ok (entry f d x)
  index : f.resolve (NAME_DIR ++ Records.first SEPARATOR bytes) = .ok (entry f .data x) →
    ∀ old, record f .data x = some old → unlisted s old ≠ []

/-- In by-id the string leads to the record of the id it is itself, which is listed
under the recorded name only, or else to an index or out of the volume; from there
no listed id may lose a file. -/
structure Harmless (f : Files) (s : Bytes) : Prop where
  own : ∀ x text, f.resolve (ID_DIR ++ s) = .ok (entry f .byId x) → record f .byId x = some text →
    x = s ∧ ∀ name, Listed (record f) name x → name = Records.first SEPARATOR text
  noData : ∀ x, f.resolve (ID_DIR ++ s) = .ok (entry f .data x) → record f .data x = none
  outside : ∀ q bytes, f.resolve (ID_DIR ++ s) = .ok q → f.content q = some bytes →
    (∀ d x, q ≠ entry f d x) → ∀ name x, Listed (record f) name x →
      f.resolve (DATA_DIR ++ s) ≠ .ok (entry f .byName name) → Spares f s bytes x

/-! ## What stores leave -/

structure Catalogued (r : Contents) : Prop where
  whole : Whole r
  lines : ∀ name text, r .byName name = some text →
    text ≠ [] ∧ Ended text ∧ ∀ x ∈ Records.split SEPARATOR text, PlainName x
  recorded : ∀ x text, r .byId x = some text →
    ∃ name, PlainName name ∧ text = name ++ [SEPARATOR] ∧ Listed r name x
  owned : ∀ x, r .data x ≠ none → r .byId x ≠ none

section Catalogue
variable {r : Contents} {name id data x : Bytes}

theorem Catalogued.start : Catalogued fun _ _ => none where
  whole := by
    rintro name x ⟨text, holds, _⟩
    cases holds
  lines := fun _ _ holds => nomatch holds
  recorded := fun _ _ holds => nomatch holds
  owned := fun _ some => some

theorem Catalogued.plain (catalogued : Catalogued r) (listed : Listed r name x) : PlainName x := by
  obtain ⟨text, holds, member⟩ := listed
  exact (catalogued.lines name text holds).2.2 x member

theorem listed_stored (ended : Ended ((r .byName name).getD [])) (free : SEPARATOR ∉ id) (name' : Bytes) :
    Listed (stored name name id data r) name' x ↔ Listed r name' x ∨ (name' = name ∧ x = id) := by
  have grown := split_line ended free
  by_cases own : name' = name
  · subst own
    have now : stored name' name' id data r .byName name' =
        some ((r .byName name').getD [] ++ (id ++ [SEPARATOR])) := by
      simp
    simp only [Listed, now, Option.some.injEq, exists_eq_left', grown, List.mem_append,
      List.mem_singleton, true_and]
    cases r .byName name' <;> simp [Records.split]
  · have kept : stored name name id data r .byName name' = r .byName name' := by
      simp [own]
    simp [Listed, kept, own]

theorem Catalogued.stored (catalogued : Catalogued r) (plain : PlainName name) (plainId : PlainName id)
    (free : SEPARATOR ∉ id) : Catalogued (stored name name id data r) := by
  have listed_iff : ∀ name' x, Listed (Volume.stored name name id data r) name' x ↔
      Listed r name' x ∨ (name' = name ∧ x = id) :=
    fun name' _ => listed_stored
      (FileNames.ended_index fun text holds => (catalogued.lines name text holds).2.1) free name'
  have files : ∀ d x, d = .byId ∨ d = .data → (x = id ∨ r d x ≠ none) →
      Volume.stored name name id data r d x ≠ none := by
    rintro d x (rfl | rfl) some <;> by_cases own : x = id <;> simp [own]
    · exact some.resolve_left own
    · exact some.resolve_left own
  constructor
  · intro name' x listed
    rcases (listed_iff name' x).mp listed with before | ⟨_, own⟩
    · obtain ⟨recorded, bytes⟩ := catalogued.whole name' x before
      exact ⟨files _ _ (Or.inl rfl) (Or.inr recorded), files _ _ (Or.inr rfl) (Or.inr bytes)⟩
    · exact ⟨files _ _ (Or.inl rfl) (Or.inl own), files _ _ (Or.inr rfl) (Or.inl own)⟩
  · intro name' text holds
    have lines : ∀ x ∈ Records.split SEPARATOR text, PlainName x := by
      intro x member
      rcases (listed_iff name' x).mp ⟨text, holds, member⟩ with before | ⟨_, rfl⟩
      · exact catalogued.plain before
      · exact plainId
    by_cases own : name' = name
    · obtain rfl : (r .byName name).getD [] ++ (id ++ [SEPARATOR]) = text := by
        simpa [own] using holds
      exact ⟨by simp, ended_line _ id, lines⟩
    · obtain ⟨some, ended, _⟩ := catalogued.lines name' text (by simpa [own] using holds)
      exact ⟨some, ended, lines⟩
  · intro x text holds
    by_cases own : x = id
    · obtain rfl : name ++ [SEPARATOR] = text := by simpa [own] using holds
      exact ⟨name, plain, rfl, (listed_iff name x).mpr (Or.inr ⟨rfl, own⟩)⟩
    · obtain ⟨name', plain', same, listed⟩ :=
        catalogued.recorded x text (by simpa [own] using holds)
      exact ⟨name', plain', same, (listed_iff name' x).mpr (Or.inl listed)⟩
  · intro x some
    by_cases own : x = id
    · exact files _ _ (Or.inl rfl) (Or.inl own)
    · exact files _ _ (Or.inl rfl)
        (Or.inr (catalogued.owned x (by simpa [own] using some)))

end Catalogue

/-! ## What a deletion leaves -/

section Deletion
variable {f f' : Files} {s bytes old name x : Bytes} {d : Dir} {q t : Path}

theorem kept_iff (deleted : Deleted s f f' q t bytes old) :
    record f' d x ≠ none ↔ record f d x ≠ none ∧ entry f d x ≠ q ∧
      f.resolve (DATA_DIR ++ s) ≠ .ok (entry f d x) ∧ (entry f d x = t → unlisted s old ≠ []) := by
  -- A file is there afterwards unless one of the paths led to it.
  have now : record f' d x = f'.content (entry f d x) := by
    simp only [record, entry, deleted.cwd]
  rw [now]
  by_cases isRecord : entry f d x = q
  · simp [isRecord, deleted.gone q (Or.inl rfl)]
  by_cases isData : f.resolve (DATA_DIR ++ s) = .ok (entry f d x)
  · simp [isData, deleted.gone _ (Or.inr isData)]
  by_cases isIndex : entry f d x = t
  · have before : record f d x = some old := by
      rw [record, isIndex, deleted.listing]
    rw [before]
    by_cases none_left : unlisted s old = []
    · simp [isIndex, none_left, deleted.emptied none_left]
    · simp [isIndex, none_left, deleted.left none_left, deleted.apart]
  · rw [deleted.other _ isRecord isData isIndex]
    simp [record, isRecord, isData, isIndex]

theorem listed_iff (deleted : Deleted s f f' q t bytes old) :
    Listed (record f') name x ↔ Listed (record f) name x ∧ entry f .byName name ≠ q ∧
      f.resolve (DATA_DIR ++ s) ≠ .ok (entry f .byName name) ∧ (entry f .byName name = t → x ≠ s) := by
  have now : record f' .byName name = f'.content (entry f .byName name) := by
    simp only [record, entry, deleted.cwd]
  unfold Listed
  rw [now]
  by_cases isRecord : entry f .byName name = q
  · simp [isRecord, deleted.gone q (Or.inl rfl)]
  by_cases isData : f.resolve (DATA_DIR ++ s) = .ok (entry f .byName name)
  · simp [isData, deleted.gone _ (Or.inr isData)]
  by_cases isIndex : entry f .byName name = t
  · have before : record f .byName name = some old := by
      rw [record, isIndex, deleted.listing]
    rw [before]
    by_cases none_left : unlisted s old = []
    · have lines := mem_unlisted s old x
      rw [none_left] at lines
      simpa [isIndex, deleted.emptied none_left, deleted.apart, imp_iff_not_or] using lines
    · simp [isIndex, deleted.left none_left, deleted.apart, split_unlisted]
  · rw [deleted.other _ isRecord isData isIndex]
    simp [record, isRecord, isData, isIndex]

theorem plain_record (deleted : Deleted s f f' q t bytes old) (plain : PlainName s) : q = entry f .byId s :=
  (Names.of_plain plain).target (d := .byId) deleted.record

theorem files_kept {n y : Bytes} (deleted : Deleted s f f' q t bytes old) (index : t = entry f .byName n)
    (apart : ∀ d, d ≠ .byName → entry f d y ≠ q ∧ f.resolve (DATA_DIR ++ s) ≠ .ok (entry f d y))
    (before : record f .byId y ≠ none ∧ record f .data y ≠ none) :
    record f' .byId y ≠ none ∧ record f' .data y ≠ none := by
  have kept : ∀ d, d ≠ .byName → record f d y ≠ none → record f' d y ≠ none := by
    intro d file there
    apply (kept_iff deleted).mpr
    refine ⟨there, (apart d file).1, (apart d file).2, fun same => ?_⟩
    rw [index] at same
    exact absurd ((entry_inj f _ _ _ _).mp same).1 file
  exact ⟨kept .byId (by decide) before.1, kept .data (by decide) before.2⟩

theorem harmless_iff (deleted : Deleted s f f' q t bytes old) : Harmless f s ↔
    (∀ x, q = entry f .byId x →
      x = s ∧ ∀ name, Listed (record f) name x → name = Records.first SEPARATOR bytes) ∧
    (∀ x, q ≠ entry f .data x) ∧
    ((∀ d x, q ≠ entry f d x) → ∀ name x, Listed (record f) name x →
      f.resolve (DATA_DIR ++ s) ≠ .ok (entry f .byName name) → Spares f s bytes x) := by
  have path : ∀ {q'}, f.resolve (ID_DIR ++ s) = .ok q' → q = q' := fun there =>
    Except.ok.inj (deleted.record.symm.trans there)
  constructor
  · intro harmless
    refine ⟨?_, ?_, ?_⟩
    · rintro x rfl
      exact harmless.own x bytes deleted.record deleted.found
    · rintro x rfl
      have nothing := harmless.noData x deleted.record
      rw [record, deleted.found] at nothing
      cases nothing
    · exact harmless.outside q bytes deleted.record deleted.found
  · rintro ⟨own, noData, outside⟩
    constructor
    · intro x text there holds
      obtain rfl := path there
      obtain rfl : bytes = text := Option.some.inj (deleted.found.symm.trans holds)
      exact own x rfl
    · intro x there
      exact absurd (path there) (noData x)
    · intro q' text there holds
      obtain rfl := path there
      obtain rfl : bytes = text := Option.some.inj (deleted.found.symm.trans holds)
      exact outside

variable (layout : Layout f) (deleted : Deleted s f f' q t bytes old)
include layout deleted

theorem not_special : ¬ (cstr s = [] ∨ cstr s = dot ∨ cstr s = dotdot) := by
  intro special
  have dir := special_target layout .byId (by decide) special deleted.record
  have found := deleted.found
  rw [Files.content, dir] at found
  cases found

theorem string_ne_nil : cstr s ≠ [] := fun empty => not_special layout deleted (Or.inl empty)

theorem not_a_line {text : Bytes} (elsewhere : q ≠ entry f .byId s) (clean : slash ∉ text ∧ 0 ∉ text) :
    s ∉ Records.split SEPARATOR text := by
  -- A string that leads elsewhere than to its own record is no line of a text without slash and
  -- NUL.
  intro line
  have subset := Records.split_subset SEPARATOR text s line
  have whole : cstr s = s := cstr_of_free s fun member => clean.2 (subset member)
  rcases name_cases s (by rw [whole]; exact fun member => clean.1 (subset member)) with names | special
  · rw [whole] at names
    exact elsewhere (names.target (d := .byId) deleted.record)
  · exact not_special layout deleted special

theorem index_entry (plain : PlainName name) (named : bytes = name ++ [SEPARATOR]) :
    t = entry f .byName (Records.first SEPARATOR bytes) := by
  have line : Records.first SEPARATOR bytes = Records.first SEPARATOR name := by
    rw [named, Records.first_line]
  have subset := Records.first_subset SEPARATOR name
  have whole : cstr (Records.first SEPARATOR name) = Records.first SEPARATOR name :=
    cstr_of_free _ fun member => plain.2.2.1 (subset 0 member)
  have index := deleted.index
  rw [line] at index ⊢
  rcases name_cases (Records.first SEPARATOR name)
      (by rw [whole]; exact fun member => plain.2.1 (subset slash member)) with names | special
  · rw [whole] at names
    exact names.target (d := .byName) index
  · have dir := special_target layout .byName (by decide) special index
    have listing := deleted.listing
    rw [Files.content, dir] at listing
    cases listing

/-! ## Where the record was found -/

variable (catalogued : Catalogued (record f))
include catalogued

theorem whole_own (target : q = entry f .byId x) : Whole (record f') ↔
    x = s ∧ ∀ name, Listed (record f) name x → name = Records.first SEPARATOR bytes := by
  -- The record of an id was deleted.
  subst target
  obtain ⟨name, plain, text, listed⟩ := catalogued.recorded x bytes deleted.found
  have index := index_entry layout deleted plain text
  have targets : ∀ d y, f.resolve (DATA_DIR ++ s) = .ok (entry f d y) → x = y ∧ (.byId = d ∨ d = .data) :=
    fun d y there => by
      simpa using targets_agree layout (string_ne_nil layout deleted) deleted.record there
  constructor
  · intro whole
    -- a line that stays has lost its record
    have stays : ∀ n, Listed (record f) n x → ¬ (entry f .byName n = t → x ≠ s) := by
      intro n before other
      have notData : f.resolve (DATA_DIR ++ s) ≠ .ok (entry f .byName n) :=
        fun there => by simpa using (targets _ _ there).2
      have after := (listed_iff deleted).mpr ⟨before, entry_apart (by simp), notData, other⟩
      exact ((kept_iff deleted).mp (whole n x after).1).2.1 rfl
    constructor
    · by_contra other
      exact stays name listed fun _ => other
    · intro n before
      by_contra other
      apply stays n before
      intro same
      rw [index] at same
      exact absurd ((entry_inj f _ _ _ _).mp same).2 other
  · rintro ⟨rfl, only⟩ n y after
    obtain ⟨before, _, _, apart⟩ := (listed_iff deleted).mp after
    have other : y ≠ x := by
      rintro rfl
      exact apart (by rw [only n before, index]) rfl
    apply files_kept deleted index _ (catalogued.whole n y before)
    intro d _
    exact ⟨entry_apart fun _ => other, fun data => other (targets _ _ data).1.symm⟩

theorem not_whole_data (target : q = entry f .data x) : ¬ Whole (record f') := by
  -- The data of an id were taken for a record.
  subst target
  intro whole
  have holds : record f .data x = some bytes := deleted.found
  obtain ⟨text, recorded⟩ := Option.ne_none_iff_exists'.mp (catalogued.owned x (by simp [holds]))
  obtain ⟨name, _, _, listed⟩ := catalogued.recorded x text recorded
  have other : x ≠ s := by
    rintro rfl
    have own := plain_record deleted (catalogued.plain listed)
    exact absurd ((entry_inj f _ _ _ _).mp own).1 (by decide)
  have notData : f.resolve (DATA_DIR ++ s) ≠ .ok (entry f .byName name) := by
    intro there
    have agree := targets_agree layout (string_ne_nil layout deleted) deleted.record there
    simp at agree
  have after := (listed_iff deleted).mpr ⟨listed, entry_apart (by simp), notData, fun _ => other⟩
  exact ((kept_iff deleted).mp (whole name x after).2).2.1 rfl

theorem whole_index (target : q = entry f .byName x) : Whole (record f') := by
  -- An index was taken for a record; it goes with all its lines.
  subst target
  obtain ⟨some, _, lines⟩ := catalogued.lines x bytes deleted.found
  have line : Records.first SEPARATOR bytes ∈ Records.split SEPARATOR bytes := by
    rw [Records.split_eq SEPARATOR bytes some]
    exact List.mem_cons_self
  have index : t = entry f .byName (Records.first SEPARATOR bytes) :=
    (Names.of_plain (lines _ line)).target (d := .byName) deleted.index
  intro n y after
  obtain ⟨before, _⟩ := (listed_iff deleted).mp after
  apply files_kept deleted index _ (catalogued.whole n y before)
  intro d file
  constructor
  · exact entry_apart fun same => absurd same file
  · intro data
    have agree := targets_agree layout (string_ne_nil layout deleted) deleted.record data
    exact file (by simpa [eq_comm] using agree.2)

theorem whole_outside (outside : ∀ d x, q ≠ entry f d x) : Whole (record f') ↔
    ∀ name x, Listed (record f) name x → f.resolve (DATA_DIR ++ s) ≠ .ok (entry f .byName name) →
      Spares f s bytes x := by
  -- A file outside the volume was taken for a record.
  constructor
  · intro whole name x listed notData
    have other : x ≠ s := by
      rintro rfl
      exact outside _ _ (plain_record deleted (catalogued.plain listed))
    have after := (listed_iff deleted).mpr ⟨listed, (outside _ _).symm, notData, fun _ => other⟩
    obtain ⟨recorded, data⟩ := whole name x after
    obtain ⟨_, _, spared, index⟩ := (kept_iff deleted).mp data
    constructor
    · rintro d (rfl | rfl)
      · exact ((kept_iff deleted).mp recorded).2.2.1
      · exact spared
    · intro there bytes' holds
      have same : t = entry f .data x := Except.ok.inj (deleted.index.symm.trans there)
      have held := deleted.listing
      rw [same] at held
      obtain rfl : old = bytes' := Option.some.inj (held.symm.trans holds)
      exact index same.symm
  · intro spares n y after
    obtain ⟨before, _, notData, _⟩ := (listed_iff deleted).mp after
    have spared := spares n y before notData
    obtain ⟨recorded, data⟩ := catalogued.whole n y before
    constructor
    · apply (kept_iff deleted).mpr
      refine ⟨recorded, (outside _ _).symm, spared.files _ (Or.inl rfl), fun same => ?_⟩
      -- a record is one line or more, none of which is the string
      have holds : record f .byId y = some old := by
        rw [record, same, deleted.listing]
      obtain ⟨name, plain, text, _⟩ := catalogued.recorded y old holds
      have clean : slash ∉ old ∧ 0 ∉ old := by
        rw [text, List.mem_append, List.mem_append, not_or, not_or]
        exact ⟨⟨plain.2.1, by decide⟩, ⟨plain.2.2.1, by decide⟩⟩
      have notLine := not_a_line layout deleted (outside _ _) clean
      have all : unlisted s old = Records.split SEPARATOR old := by
        apply List.filter_eq_self.mpr
        intro line member
        have other : line ≠ s := fun same => notLine (same ▸ member)
        simpa using other
      rw [all]
      intro none
      have empty := (Records.split_eq_nil_iff SEPARATOR old).mp none
      simp [text] at empty
    · apply (kept_iff deleted).mpr
      refine ⟨data, (outside _ _).symm, spared.files _ (Or.inr rfl), fun same => ?_⟩
      have there : f.resolve (NAME_DIR ++ Records.first SEPARATOR bytes) = .ok (entry f .data y) := by
        rw [same, deleted.index]
      exact spared.index there old (by rw [record, same, deleted.listing])

/-- What is listed is whole again exactly where the string is harmless. -/
theorem whole_iff : Whole (record f') ↔ Harmless f s := by
  rw [harmless_iff deleted]
  by_cases inside : ∃ d x, q = entry f d x
  · obtain ⟨d, x, target⟩ := inside
    have own : ∀ d' y, q = entry f d' y ↔ d = d' ∧ x = y := by
      intro d' y
      rw [target, entry_inj]
    cases d with
    | byId =>
        rw [whole_own layout deleted catalogued target]
        simp [own]
    | byName =>
        apply iff_of_true (whole_index layout deleted catalogued target)
        simp [own]
    | data =>
        apply iff_of_false (not_whole_data layout deleted catalogued target)
        simp [own]
  · have outside : ∀ d x, q ≠ entry f d x := fun d x target => inside ⟨d, x, target⟩
    rw [whole_outside layout deleted catalogued outside]
    simp [outside]

end Deletion

/-! ## Requests -/

structure Stocked (k : Kernel) : Prop where
  ready : Ready k
  tabled : Tabled k
  catalogued : Catalogued (record k.files)

section Requests
variable {p : Pid} {k k' k₀ : Kernel} {op : Op} {answer : Answer} {name data : Bytes}

theorem Stocked.store (stocked : Stocked k) (allowed : Stores k (.store name data)) :
    ∃ k', Gives p (store name data) k (.ok (k.source k.drawn)) k' ∧
      record k'.files = stored name name (k.source k.drawn) data (record k.files) ∧ Stocked k' := by
  obtain ⟨plain, format⟩ := allowed
  obtain ⟨k', run, change⟩ :=
    store_runs (p := p) stocked.ready data (Names.of_plain plain) rfl format.plain
  refine ⟨k', gives_of_runs run, change.turns.records, ?_⟩
  constructor
  · exact change.ready
  · exact Program.runs_invariant Tabled (fun _ _ _ _ answered => exec_tabled answered) run stocked.tabled
  · rw [change.turns.records]
    exact stocked.catalogued.stored plain format.plain (format.free SEPARATOR (by decide))

theorem Stocked.next (stocked : Stocked k) (allowed : Stores k op) (run : Runs p op.run k answer k') :
    Stocked k' := by
  cases op with
  | remove id => exact allowed.elim
  | store name data =>
      obtain ⟨_, k₁, stores, final⟩ := Program.runs_bind_split run
      cases final
      obtain ⟨k₂, gives, _, stocked'⟩ := stocked.store (p := p) allowed
      obtain ⟨_, rfl⟩ := (gives _ _).mp stores
      exact stocked'

theorem stocked_reached (stocked : Stocked k₀) (reached : ReachedBy Stores k₀ k) : Stocked k := by
  -- By induction over the stores.
  induction reached with
  | start => exact stocked
  | next _ allowed run ih => exact ih.next allowed run

theorem stocked_new (ready : Ready k) (tabled : Tabled k) (empty : record k.files = fun _ _ => none) :
    Stocked k :=
  ⟨ready, tabled, empty ▸ Catalogued.start⟩

theorem removed_of_success {libc : Libc} {s : Bytes} {reply : Handlers.Reply}
    (run : Runs p (Handlers.delFile libc s) k (some reply) k')
    (success : reply.code = Handlers.HANDLER_SUCCESS) : Runs p (remove s) k (some (.ok ())) k' := by
  obtain ⟨outcome, k₁, removes, final⟩ := Program.runs_bind_split run
  rcases outcome with _ | (e | ⟨⟩)
  · cases final
  · obtain ⟨text, _, rfl⟩ := Option.map_eq_some_iff.mp (Program.runs_done_iff.mp final).1.symm
    cases success
  · cases final
    exact removes

end Requests

/-- After any stores under plain names, whatever string a del request carries: where
it is answered with success, every listed id has its two files afterwards if and
only if the string is harmless. -/
theorem nothing_dangles (libc : Libc) (k₀ k k' : Kernel) (p : Pid) (m : Mem) (s : Bytes) (next : Nat)
    (program : Prog (Option Handlers.Reply)) (reply : Handlers.Reply) (ready : Ready k₀)
    (tabled : Tabled k₀) (empty : record k₀.files = fun _ _ => none) (reached : ReachedBy Stores k₀ k)
    (received : Handlers.fileParam libc Handlers.expectedFileId m = some (.ok (s, next)))
    (handled : Handlers.del libc m = some program) (run : Runs p program k (some reply) k')
    (success : reply.code = Handlers.HANDLER_SUCCESS) :
    Whole (record k'.files) ↔ Harmless k.files s := by
  have stocked := stocked_reached (stocked_new ready tabled empty) reached
  rw [Handlers.del, Handlers.withFile, received] at handled
  obtain rfl : Handlers.delFile libc s = program := Option.some.inj handled
  have sees : Sees p k k.files (k.descOf p) := ⟨rfl, rfl, stocked.tabled⟩
  obtain ⟨f', _, q, t, bytes, old, sees', deleted⟩ :=
    remove_deleted sees stocked.ready.sane.sound stocked.ready.sane.layout (removed_of_success run success)
  rw [sees'.files]
  exact whole_iff stocked.ready.sane.layout deleted stocked.catalogued

theorem first_removed (libc : Libc) {s : Bytes} (names : Names s (tick 0)) : ∃ k k',
    ReachedBy Stores (initKernel tick) k ∧
    Runs 1 (Handlers.delFile libc s) k (some (Handlers.succeed [])) k' ∧
    record k'.files = removed (ascii "a") (tick 0) s (tick 0 ++ [SEPARATOR])
      (stored (ascii "a") (ascii "a") (tick 0) [1] fun _ _ => none) := by
  have plain : PlainName (ascii "a") := by decide
  have stocked : Stocked (initKernel tick) :=
    stocked_new (initKernel_ready tick) (fun _ _ => rfl) (initKernel_empty tick)
  have allowed : Stores (initKernel tick) (.store (ascii "a") [1]) := ⟨plain, Uid.get_format 0 0 0 0 0 0 0⟩
  obtain ⟨k, gives, records, stocked'⟩ := stocked.store (p := 1) allowed
  rw [initKernel_empty] at records
  have reached : ReachedBy Stores (initKernel tick) k :=
    ReachedBy.start.next allowed (((gives _ _).mpr ⟨rfl, rfl⟩).bind Program.Runs.done)
  have recorded : record k.files .byId (tick 0) = some (ascii "a" ++ [SEPARATOR]) := by
    rw [records]
    simp [initKernel]
  have listed : record k.files .byName (ascii "a") = some (tick 0 ++ [SEPARATOR]) := by
    rw [records]
    simp [initKernel]
  have named : Records.first SEPARATOR (ascii "a" ++ [SEPARATOR]) = ascii "a" := by decide
  obtain ⟨k', run, change⟩ := remove_runs (p := 1) stocked'.ready names recorded
    (by rw [named]; exact Names.of_plain plain) listed
  refine ⟨k, k', reached, run.bind Program.Runs.done, ?_⟩
  rw [change.turns.records, records]
  rfl

theorem del_request (libc : Libc) {s : Bytes} (some : s ≠ []) (sized : s.length < 4294967296) :
    Handlers.fileParam libc Handlers.expectedFileId (Mem.ofList (Handlers.stringItem s)) =
      .some (.ok (s, 7 + s.length)) ∧
    Handlers.del libc (Mem.ofList (Handlers.stringItem s)) = .some (Handlers.delFile libc s) := by
  have received := Handlers.fileParam_holds libc Handlers.expectedFileId _ s some sized
    (Mem.ofList_holds (Handlers.stringItem s))
  refine ⟨received, ?_⟩
  rw [Handlers.del, Handlers.withFile, received]
  rfl

theorem nothing_dangles_first : ∃ k k' : Kernel,
    Whole (record k'.files) ↔ Harmless k.files (tick 0) := by
  have libc : Libc := ⟨fun _ => ⟨[], by decide⟩, fun _ _ => ⟨[], by decide⟩, fun _ _ => none⟩
  have format : Uid.Format (tick 0) := Uid.get_format 0 0 0 0 0 0 0
  obtain ⟨k, k', reached, run, _⟩ := first_removed libc (Names.of_plain format.plain)
  obtain ⟨received, handled⟩ := del_request libc format.plain.1 (by rw [format.length]; decide)
  exact ⟨k, k', nothing_dangles libc (initKernel tick) k k' 1 _ _ _ _ _ (initKernel_ready tick)
    (fun _ _ => rfl) (initKernel_empty tick) reached received handled run rfl⟩

/-- The id with a NUL behind it takes the two files away and leaves the line. -/
theorem nul_leaves_a_line : ∃ (libc : Libc) (k k' : Kernel) (m : Mem) (next : Nat)
    (program : Prog (Option Handlers.Reply)), ReachedBy Stores (initKernel tick) k ∧
    Handlers.fileParam libc Handlers.expectedFileId m = some (.ok (tick 0 ++ [0], next)) ∧
    Handlers.del libc m = some program ∧ Runs 1 program k (some (Handlers.succeed [])) k' ∧
    ¬ Whole (record k'.files) := by
  let libc : Libc := ⟨fun _ => ⟨[], by decide⟩, fun _ _ => ⟨[], by decide⟩, fun _ _ => none⟩
  have format : Uid.Format (tick 0) := Uid.get_format 0 0 0 0 0 0 0
  have names : Names (tick 0 ++ [0]) (tick 0) :=
    ⟨Records.first_append 0 (tick 0) [] format.plain.2.2.1, format.plain⟩
  obtain ⟨k, k', reached, run, records⟩ := first_removed libc names
  obtain ⟨received, handled⟩ := del_request libc (s := tick 0 ++ [0]) (by simp)
    (by rw [List.length_append, format.length]; decide)
  refine ⟨libc, k, k', _, _, _, reached, received, handled, run, fun whole => ?_⟩
  have line : unlisted (tick 0 ++ [0]) (tick 0 ++ [SEPARATOR]) = [tick 0] := by
    rw [unlisted, Records.split_append SEPARATOR _ [] (format.free SEPARATOR (by decide))]
    simp [Records.split]
  have listed : Listed (record k'.files) (ascii "a") (tick 0) := by
    refine ⟨tick 0 ++ [SEPARATOR], ?_, ?_⟩
    · rw [records, removed, line]
      simp
    · rw [Records.split_append SEPARATOR _ [] (format.free SEPARATOR (by decide))]
      exact List.mem_cons_self
  apply (whole _ _ listed).1
  rw [records]
  simp

end Sfsdb.Dangling

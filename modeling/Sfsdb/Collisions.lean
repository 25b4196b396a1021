import Sfsdb.Refinement
import Sfsdb.Traces

/-!
What a store does to the files stored before, under whatever name and whatever
id it draws. The index is only appended to, but the record and the data of the
id are emptied without a look at whether the id is in use, and the path of the
index may lead to the record or the data of another id.
-/

namespace Sfsdb.Collisions

open Posix Storage Volume

def idsUnder (f : Files) (name : Bytes) : List Bytes :=
  Records.split SEPARATOR ((record f .byName name).getD [])

/-- Every id recorded before keeps its name, its data and its places in the lists. -/
structure Undamaged (f f' : Files) : Prop where
  name : ∀ y text, record f .byId y = some text → ∃ text', record f' .byId y = some text' ∧
    Records.first SEPARATOR text' = Records.first SEPARATOR text
  data : ∀ y bytes, record f .byId y ≠ none → record f .data y = some bytes →
    record f' .data y = some bytes
  place : ∀ y name (j : Nat), record f .byId y ≠ none → (idsUnder f name)[j]? = some y →
    (idsUnder f' name)[j]? = some y

def Creatable (f : Files) (path : Bytes) : Prop :=
  ∃ q, f.resolve path = .ok q ∧ f.node q ≠ some .dir

/-- The id is not in use, or for the same name and data; and the path of the
index is not that of anything another id needs. -/
structure Harmless (f : Files) (name id data : Bytes) : Prop where
  recorded : ∀ text, record f .byId id = some text →
    Records.first SEPARATOR text = Records.first SEPARATOR name
  stored : Creatable f (DATA_DIR ++ id) → record f .byId id ≠ none →
    ∀ bytes, record f .data id = some bytes → bytes = data
  lines : ∀ y text, f.resolve (NAME_DIR ++ name) = .ok (entry f .byId y) →
    record f .byId y = some text → SEPARATOR ∈ text ∨ y = id
  contents : ∀ y, f.resolve (NAME_DIR ++ name) = .ok (entry f .data y) → record f .byId y ≠ none →
    record f .data y ≠ none → y = id ∧ Creatable f (DATA_DIR ++ id)

def Ended (text : Bytes) : Prop := text = [] ∨ text.getLast? = some SEPARATOR

/-! ## What a store writes -/

section Writing
variable {f f' f₁ f₂ : Files} {mode : Flags} {path : Bytes} {q : Path} {i j : Ino}
  {name id data : Bytes}

theorem creatable_of_opens {ino : Option Ino} (opened : f.opens path mode = .ok (ino, f'))
    (writes : mode.write = true) : Creatable f path := by
  obtain ⟨q, i, _, resolved, trace⟩ := Files.opens_writing opened writes
  refine ⟨q, resolved, ?_⟩
  cases trace with
  | whole file => simp [file]
  | emptied file => simp [file]
  | created absent => simp [absent]

theorem not_creatable {e : Errno} (refused : f.opens path mode = .error e) (creates : mode.creat = true) :
    ¬ Creatable f path := by
  rintro ⟨q, resolved, some⟩
  unfold Files.opens at refused
  rw [resolved] at refused
  cases node : f.node q with
  | none => simp [node, creates] at refused
  | some found =>
      cases found with
      | dir => exact some node
      | file i => simp [node] at refused

theorem creatable_iff (dirs : SameDirs f f') (path : Bytes) : Creatable f' path ↔ Creatable f path := by
  have back : SameDirs f' f := ⟨dirs.1.symm, fun q => (dirs.2 q).symm⟩
  constructor
  · rintro ⟨q, resolved, file⟩
    exact ⟨q, back.resolve resolved, fun dir => file ((dirs.2 q).mpr dir)⟩
  · rintro ⟨q, resolved, file⟩
    exact ⟨q, dirs.resolve resolved, fun dir => file ((dirs.2 q).mp dir)⟩

theorem opened_content (opened : Files.Opened f mode q i f') (sound : f.Sound) (q' : Path) :
    f'.content q' =
      if q' = q then some (if mode.trunc then [] else (f.content q).getD []) else f.content q' := by
  have linked := opened.ne_nil
  cases opened with
  | whole file whole =>
      by_cases same : q' = q
      · subst same
        simp [whole, Files.content_of_file file]
      · simp [same]
  | emptied file cuts =>
      rw [Files.content_setData [] sound file q', cuts]
      rfl
  | created absent =>
      have nothing : f.content q = none := by
        simp [Files.content, absent]
      rw [Files.content_create _ sound linked, nothing]
      split <;> simp

theorem first_overwritten (old name : Bytes) :
    Records.first SEPARATOR (overwrite old 0 (name ++ [SEPARATOR])) = Records.first SEPARATOR name := by
  -- A record is read back up to its first separator, whatever it is laid over.
  have laid : overwrite old 0 (name ++ [SEPARATOR]) =
      (name ++ [SEPARATOR]) ++ old.drop (name ++ [SEPARATOR]).length := by
    simp [overwrite]
  rw [laid, Records.first_within SEPARATOR (name ++ [SEPARATOR]) _ (by simp), Records.first_line]

/-- What a store has written once its index and its record could be opened. -/
structure Writes (f f' : Files) (name id data : Bytes) (q : Path) : Prop where
  cwd : f'.cwd = f.cwd
  index : f.resolve (NAME_DIR ++ name) = .ok q
  own : ∃ text, f'.content (entry f .byId id) = some text ∧
    Records.first SEPARATOR text = Records.first SEPARATOR name
  made : Creatable f (DATA_DIR ++ id) → f'.content (entry f .data id) = some data
  other : ∀ q', q' ≠ entry f .byId id → (Creatable f (DATA_DIR ++ id) → q' ≠ entry f .data id) →
    f'.content q' =
      if q' = q then some ((f.content q).getD [] ++ (id ++ [SEPARATOR])) else f.content q'

theorem filed_content (sound : f.Sound) (plain : PlainName id) (begun : Begun id name f i j f₁ f₂) :
    (filed id name i j f₂).Sound ∧ SameDirs f (filed id name i j f₂) ∧
    ∃ q text, f.resolve (NAME_DIR ++ name) = .ok q ∧
      Records.first SEPARATOR text = Records.first SEPARATOR name ∧
      ∀ q', (filed id name i j f₂).content q' =
        if q' = entry f .byId id then some text
        else if q' = q then some ((f.content q).getD [] ++ (id ++ [SEPARATOR])) else f.content q' := by
  obtain ⟨q, _, same, resolved, index⟩ := Files.opens_writing begun.index rfl
  cases same
  obtain ⟨e, _, same, resolved', recorded⟩ := Files.opens_writing begun.recorded rfl
  cases same
  have own : e = entry f .byId id := by
    rw [← index.dirs.entry]
    exact (Names.of_plain plain).target resolved'
  subst own
  have sound₁ := index.sound sound
  have sound₂ := recorded.sound sound₁
  have linked : f₂.node q = some (.file i) := recorded.node_file index.node_self
  let lined := f₂.setData i (f₂.data i ++ (id ++ [SEPARATOR]))
  have filed_eq : ∀ q', (filed id name i j f₂).content q' = if q' = entry f .byId id
      then some (overwrite (lined.data j) 0 (name ++ [SEPARATOR])) else lined.content q' :=
    Files.content_setData _ (sound₂.setData i _) recorded.node_self
  refine ⟨(sound₂.setData i _).setData j _, ?_, q, overwrite (lined.data j) 0 (name ++ [SEPARATOR]),
    resolved, first_overwritten _ name, fun q' => ?_⟩
  · exact ((index.dirs.trans recorded.dirs).trans (SameDirs.setData f₂ i _)).trans
      (SameDirs.setData lined j _)
  · rw [filed_eq q']
    by_cases own : q' = entry f .byId id
    · rw [if_pos own, if_pos own]
    · rw [if_neg own, if_neg own, Files.content_setData _ sound₂ linked q']
      -- the record may lie at the path of the index, so it is written last
      have before : ∀ q'', q'' ≠ entry f .byId id → f₂.content q'' =
          if q'' = q then some ((f.content q).getD []) else f.content q'' := by
        intro q'' other
        rw [opened_content recorded sound₁, if_neg other, opened_content index sound]
        rfl
      by_cases same : q' = q
      · subst same
        have held := before q' own
        rw [Files.content_of_file linked, if_pos rfl] at held
        rw [if_pos rfl, if_pos rfl, Option.some.inj held]
      · rw [if_neg same, if_neg same, before q' own, if_neg same]

theorem Writes.of_noData (data : Bytes) {e : Errno} (sound : f.Sound) (plain : PlainName id)
    (begun : Begun id name f i j f₁ f₂)
    (refused : (filed id name i j f₂).opens (DATA_DIR ++ id) CREATE_FILE = .error e) :
    ∃ q, Writes f (filed id name i j f₂) name id data q := by
  obtain ⟨_, dirs, q, text, resolved, line, contents⟩ := filed_content sound plain begun
  have stuck : ¬ Creatable f (DATA_DIR ++ id) := fun creatable =>
    not_creatable refused rfl ((creatable_iff dirs _).mpr creatable)
  refine ⟨q, dirs.1, resolved, ⟨text, ?_, line⟩, fun creatable => absurd creatable stuck, ?_⟩
  · rw [contents, if_pos rfl]
  · intro q' other _
    rw [contents, if_neg other]

theorem Writes.of_stored (data : Bytes) {l : Ino} {f₃ : Files} (sound : f.Sound) (plain : PlainName id)
    (begun : Begun id name f i j f₁ f₂)
    (made : (filed id name i j f₂).opens (DATA_DIR ++ id) CREATE_FILE = .ok (some l, f₃)) :
    ∃ q, Writes f (f₃.setData l data) name id data q := by
  obtain ⟨sound₂, dirs, q, text, resolved, line, contents⟩ := filed_content sound plain begun
  obtain ⟨g, _, same, resolved', opened⟩ := Files.opens_writing made rfl
  cases same
  have own : g = entry f .data id := by
    rw [← dirs.entry]
    exact (Names.of_plain plain).target resolved'
  subst own
  have last : ∀ q', (f₃.setData l data).content q' =
      if q' = entry f .data id then some data else (filed id name i j f₂).content q' := by
    intro q'
    rw [Files.content_setData _ (opened.sound sound₂) opened.node_self, opened_content opened sound₂]
    split <;> rfl
  have apart : entry f .byId id ≠ entry f .data id := by
    intro same
    cases ((entry_inj f .byId .data id id).mp same).1
  have creatable : Creatable f (DATA_DIR ++ id) :=
    (creatable_iff dirs _).mp (creatable_of_opens made rfl)
  refine ⟨q, opened.dirs.1.trans dirs.1, resolved, ⟨text, ?_, line⟩, fun _ => ?_, ?_⟩
  · rw [last, if_neg apart, contents, if_pos rfl]
  · rw [last, if_pos rfl]
  · intro q' other foreign
    rw [last, if_neg (foreign creatable), contents, if_neg other]

end Writing

/-! ## When that does no damage -/

section Damage
variable {f f' : Files} {name id data : Bytes} {q : Path}

theorem split_line {text : Bytes} (ended : Ended text) (free : SEPARATOR ∉ id) :
    Records.split SEPARATOR (text ++ (id ++ [SEPARATOR])) = Records.split SEPARATOR text ++ [id] := by
  have whole := Records.render_split SEPARATOR text
  rw [if_pos (show text = [] ∨ _ from ended)] at whole
  conv_lhs => rw [← whole]
  rw [Records.split_render_append SEPARATOR _ _ (Records.split_free SEPARATOR text),
    Records.split_append SEPARATOR id [] free]
  rfl

theorem entry_apart {d d' : Dir} {x y : Bytes} (other : d = d' → x ≠ y) : entry f d x ≠ entry f d' y := by
  intro same
  obtain ⟨dir, name⟩ := (entry_inj f d d' x y).mp same
  exact other dir name

namespace Writes

variable (writes : Writes f f' name id data q)
include writes

theorem record_eq (d : Dir) (x : Bytes) : record f' d x = f'.content (entry f d x) := by
  simp only [record, entry, writes.cwd]

theorem record_kept {d : Dir} {x : Bytes} (apart : d = .byName ∨ x ≠ id) (elsewhere : entry f d x ≠ q) :
    record f' d x = record f d x := by
  rw [writes.record_eq, writes.other, if_neg elsewhere]
  · rfl
  · apply entry_apart
    rcases apart with rfl | other <;> simp_all
  · intro _
    apply entry_apart
    rcases apart with rfl | other <;> simp_all

theorem record_lined {d : Dir} {x bytes : Bytes} (holds : record f d x = some bytes) (index : entry f d x = q)
    (own : entry f d x ≠ entry f .byId id)
    (foreign : Creatable f (DATA_DIR ++ id) → entry f d x ≠ entry f .data id) :
    record f' d x = some (bytes ++ (id ++ [SEPARATOR])) := by
  have held : f.content q = some bytes := index ▸ holds
  rw [writes.record_eq, writes.other _ own foreign, if_pos index, held]
  rfl

theorem place (ended : Shaped .byName Ended f) (free : SEPARATOR ∉ id) (name' : Bytes) :
    idsUnder f' name' = idsUnder f name' ∨ idsUnder f' name' = idsUnder f name' ++ [id] := by
  by_cases index : entry f .byName name' = q
  · right
    cases holds : record f .byName name' with
    | none =>
        have absent : f.content q = none := index ▸ holds
        have now : record f' .byName name' = some (id ++ [SEPARATOR]) := by
          rw [writes.record_eq, writes.other _ (entry_apart (by simp)) (fun _ => entry_apart (by simp)),
            if_pos index, absent]
          rfl
        simp only [idsUnder, holds, now, Option.getD_some, Option.getD_none]
        exact split_line (Or.inl rfl) free
    | some bytes =>
        have now := writes.record_lined holds index (entry_apart (by simp)) (fun _ => entry_apart (by simp))
        simp only [idsUnder, holds, now, Option.getD_some]
        exact split_line (ended.record holds) free
  · left
    rw [idsUnder, idsUnder, writes.record_kept (Or.inl rfl) index]

theorem name_iff (plain : PlainName id) (free : SEPARATOR ∉ id) {y text : Bytes} (other : y ≠ id)
    (holds : record f .byId y = some text) :
    (∃ text', record f' .byId y = some text' ∧
      Records.first SEPARATOR text' = Records.first SEPARATOR text) ↔
    (entry f .byId y = q → SEPARATOR ∈ text) := by
  -- The record of another id keeps its first line unless it has no end.
  by_cases index : entry f .byId y = q
  · have now := writes.record_lined holds index (entry_apart fun _ => other) (fun _ => entry_apart (by simp))
    simp only [now, Option.some.injEq, exists_eq_left', index, forall_const]
    constructor
    · intro same
      by_contra open_end
      -- the id would become part of the name
      rw [Records.first_through SEPARATOR text _ open_end, Records.first_append SEPARATOR id [] free,
        Records.first_of_free SEPARATOR text open_end] at same
      exact plain.1 (by simpa using same)
    · exact Records.first_within SEPARATOR text _
  · have now := writes.record_kept (Or.inr other) index
    exact iff_of_true ⟨text, now.trans holds, rfl⟩ fun same => absurd same index

theorem data_iff {y bytes : Bytes} (other : y = id → ¬ Creatable f (DATA_DIR ++ id))
    (holds : record f .data y = some bytes) :
    record f' .data y = some bytes ↔ entry f .data y ≠ q := by
  -- Data that are not emptied with those of the id stay as they are unless they are taken for the
  -- index.
  have foreign : Creatable f (DATA_DIR ++ id) → entry f .data y ≠ entry f .data id :=
    fun creatable => entry_apart fun _ same => other same creatable
  by_cases index : entry f .data y = q
  · have now := writes.record_lined holds index (entry_apart (by simp)) foreign
    simp [now, index]
  · have now : record f' .data y = record f .data y := by
      rw [writes.record_eq, writes.other _ (entry_apart (by simp)) foreign, if_neg index]
      rfl
    simp [now, holds, index]

theorem undamaged_iff (ended : Shaped .byName Ended f) (plain : PlainName id) (free : SEPARATOR ∉ id) :
    Undamaged f f' ↔ Harmless f name id data := by
  obtain ⟨own, wrote, line⟩ := writes.own
  have recorded : record f' .byId id = some own := by
    rw [writes.record_eq, wrote]
  have path : ∀ {q' : Path}, f.resolve (NAME_DIR ++ name) = .ok q' ↔ q' = q := by
    intro q'
    rw [writes.index]
    exact ⟨fun same => (Except.ok.inj same).symm, fun same => same ▸ rfl⟩
  constructor
  -- what is undamaged tells, entry by entry, where the writes have not gone
  · intro undamaged
    refine ⟨fun text holds => ?_, fun creatable present bytes holds => ?_, fun y text index holds => ?_,
      fun y index present some => ?_⟩
    · obtain ⟨text', now, same⟩ := undamaged.name id text holds
      rw [recorded] at now
      cases now
      exact same.symm.trans line
    · have kept := undamaged.data id bytes present holds
      rw [writes.record_eq, writes.made creatable] at kept
      exact (Option.some.inj kept).symm
    · by_cases same : y = id
      · exact Or.inr same
      · exact Or.inl ((writes.name_iff plain free same holds).mp (undamaged.name y text holds) (path.mp index))
    · by_contra both
      obtain ⟨bytes, holds⟩ := Option.ne_none_iff_exists'.mp some
      have other : y = id → ¬ Creatable f (DATA_DIR ++ id) := fun same creatable => both ⟨same, creatable⟩
      exact (writes.data_iff other holds).mp (undamaged.data y bytes present holds) (path.mp index)
  · intro harmless
    refine ⟨fun y text holds => ?_, fun y bytes present holds => ?_, fun y name' n present at_n => ?_⟩
    · by_cases same : y = id
      · subst same
        exact ⟨own, recorded, line.trans (harmless.recorded text holds).symm⟩
      · apply (writes.name_iff plain free same holds).mpr
        intro index
        exact (harmless.lines y text (path.mpr index) holds).resolve_right same
    · by_cases emptied : y = id ∧ Creatable f (DATA_DIR ++ id)
      · obtain ⟨rfl, creatable⟩ := emptied
        rw [writes.record_eq, writes.made creatable, harmless.stored creatable present bytes holds]
      · have other : y = id → ¬ Creatable f (DATA_DIR ++ id) := fun same creatable => emptied ⟨same, creatable⟩
        apply (writes.data_iff other holds).mpr
        intro index
        exact emptied (harmless.contents y (path.mpr index) present (by simp [holds]))
    · rcases writes.place ended free name' with same | grown
      · rw [same]
        exact at_n
      · obtain ⟨inside, _⟩ := List.getElem?_eq_some_iff.mp at_n
        rw [grown, List.getElem?_append_left inside]
        exact at_n

end Writes

theorem undamaged_opened {mode : Flags} {i : Ino} (opened : Files.Opened f mode q i f') (sound : f.Sound)
    (whole : mode.trunc = false) : Undamaged f f' := by
  have kept : ∀ d x bytes, record f d x = some bytes → record f' d x = some bytes := by
    intro d x bytes holds
    change f'.content (entry f' d x) = _
    rw [opened.dirs.entry, opened_content opened sound, whole]
    split
    · rename_i same
      subst same
      simp [show f.content (entry f d x) = some bytes from holds]
    · exact holds
  refine ⟨fun y text holds => ⟨text, kept .byId y text holds, rfl⟩,
    fun y bytes _ holds => kept .data y bytes holds, fun y name n _ at_n => ?_⟩
  cases holds : record f .byName name with
  | none => simp [idsUnder, holds, Records.split] at at_n
  | some bytes =>
      rw [idsUnder, kept .byName name bytes holds, ← holds]
      exact at_n

theorem trace_undamaged_iff {r : Except Error Bytes} (ended : Shaped .byName Ended f) (plain : PlainName id)
    (free : SEPARATOR ∉ id) (trace : StoreTrace id name data f r f') :
    Undamaged f f' ↔
      (Creatable f (NAME_DIR ++ name) → Creatable f (ID_DIR ++ id) → Harmless f name id data) := by
  cases trace with
  | noIndex refused =>
      have same : Undamaged f f := ⟨fun y text holds => ⟨text, holds, rfl⟩, fun _ _ _ holds => holds,
        fun _ _ _ _ holds => holds⟩
      exact iff_of_true same fun creatable => absurd creatable (not_creatable refused rfl)
  | noRecord index refused =>
      obtain ⟨q, i, _, _, opened⟩ := Files.opens_writing index rfl
      apply iff_of_true (undamaged_opened opened ended.sound rfl)
      intro _ creatable
      exact absurd ((creatable_iff opened.dirs _).mpr creatable) (not_creatable refused rfl)
  | noData begun refused =>
      obtain ⟨q, writes⟩ := Writes.of_noData data ended.sound plain begun refused
      obtain ⟨_, _, _, _, opened⟩ := Files.opens_writing begun.index rfl
      have record := (creatable_iff opened.dirs _).mp (creatable_of_opens begun.recorded rfl)
      rw [writes.undamaged_iff ended plain free]
      exact ⟨fun harmless _ _ => harmless, fun all => all (creatable_of_opens begun.index rfl) record⟩
  | stored begun made =>
      obtain ⟨q, writes⟩ := Writes.of_stored data ended.sound plain begun made
      obtain ⟨_, _, _, _, opened⟩ := Files.opens_writing begun.index rfl
      have record := (creatable_iff opened.dirs _).mp (creatable_of_opens begun.recorded rfl)
      rw [writes.undamaged_iff ended plain free]
      exact ⟨fun harmless _ _ => harmless, fun all => all (creatable_of_opens begun.index rfl) record⟩

end Damage

/-! ## In every volume -/

inductive Reached (source : Nat → Bytes) : Kernel → Prop where
  | new : Reached source (initKernel source)
  | next {p : Pid} {op : Op} {answer : Answer} {k k' : Kernel} : Reached source k →
      Runs p op.run k answer k' → Reached source k'

section Volumes
variable {source : Nat → Bytes} {p : Pid} {k k' : Kernel} {f f' : Files} {id name data : Bytes}

theorem ended_line (text line : Bytes) : Ended (text ++ (line ++ [SEPARATOR])) :=
  Or.inr (by simp)

theorem ended_stored {r : Except Error Bytes} (ended : Shaped .byName Ended f) (plain : PlainName id)
    (trace : StoreTrace id name data f r f') : Shaped .byName Ended f' := by
  have empty : Ended [] := Or.inl rfl
  have filed : ∀ {i j : Ino} {f₁ f₂ : Files}, Begun id name f i j f₁ f₂ →
      Shaped .byName Ended (filed id name i j f₂) := by
    intro i j f₁ f₂ begun
    obtain ⟨_, _, same, _, index⟩ := Files.opens_writing begun.index rfl
    cases same
    obtain ⟨e, _, same, resolved, recorded⟩ := Files.opens_writing begun.recorded rfl
    cases same
    have ended₂ := (ended.opened empty index).opened empty recorded
    have own : e = entry _ .byId id := (Names.of_plain plain).target resolved
    have linked := recorded.node_self
    rw [own, ← recorded.dirs.entry] at linked
    exact (ended₂.setData fun _ _ => ended_line _ id).elsewhere .byId id (by decide) linked _
  cases trace with
  | noIndex => exact ended
  | noRecord index =>
      obtain ⟨_, _, _, _, opened⟩ := Files.opens_writing index rfl
      exact ended.opened empty opened
  | noData begun => exact filed begun
  | stored begun made =>
      obtain ⟨e, _, same, resolved, opened⟩ := Files.opens_writing made rfl
      cases same
      have own : e = entry _ .data id := (Names.of_plain plain).target resolved
      have linked := opened.node_self
      rw [own, ← opened.dirs.entry] at linked
      exact ((filed begun).opened empty opened).elsewhere .data id (by decide) linked _

theorem ended_rewritten (id text : Bytes) : Ended (Records.render SEPARATOR (unlisted id text)) := by
  by_cases none : unlisted id text = []
  · rw [none]
    exact Or.inl rfl
  · exact Or.inr (Records.render_getLast? SEPARATOR _ none)

theorem Reached.ended (reached : Reached source k) (formats : ∀ n, Uid.Format (source n)) :
    Shaped .byName Ended k.files ∧ Tabled k ∧ k.source = source := by
  -- By induction over the operations.
  induction reached with
  | new =>
      refine ⟨⟨(initKernel_ready source).sane.sound, fun x i file => ?_⟩, fun _ _ => rfl, rfl⟩
      change initFiles.node (entry initFiles .byName x) = _ at file
      rw [initFiles_entry] at file
      cases file
  | next _ run ih =>
      obtain ⟨ended, tabled, same⟩ := ih
      have tabled' := Program.runs_invariant Tabled (fun _ _ _ _ answered => exec_tabled answered) run tabled
      have source' := (runs_source run).trans same
      rename_i p op answer k k' _
      have sees : Sees p k k.files (k.descOf p) := ⟨rfl, rfl, tabled⟩
      cases op with
      | store name data =>
          obtain ⟨r, k₁, stores, final⟩ := Program.runs_bind_split run
          cases final
          obtain ⟨f', D', sees', trace⟩ := store_trace sees stores
          rw [sees'.files]
          have plain : PlainName (k.source k.drawn) := by
            rw [same]
            exact (formats _).plain
          exact ⟨ended_stored ended plain trace, tabled', source'⟩
      | remove id =>
          obtain ⟨r, k₁, removes, final⟩ := Program.runs_bind_split run
          cases final
          obtain ⟨f', D', sees', trace⟩ := remove_trace sees removes
          rw [sees'.files]
          exact ⟨ended.removed (fun text _ => ended_rewritten id text) trace, tabled', source'⟩

end Volumes

/-- Whatever was stored and removed before, and whatever name a store is given and
whatever id it draws, it leaves the files stored before undamaged if and only if
it is refused before it writes anything or is harmless. -/
theorem store_damages_nothing (source : Nat → Bytes) (p : Pid) (k k' : Kernel) (name data : Bytes)
    (r : Except Error Bytes) (formats : ∀ n, Uid.Format (source n)) (reached : Reached source k)
    (run : Runs p (store name data) k r k') :
    Undamaged k.files k'.files ↔
      (Creatable k.files (NAME_DIR ++ name) → Creatable k.files (ID_DIR ++ k.source k.drawn) →
        Harmless k.files name (k.source k.drawn) data) := by
  obtain ⟨ended, tabled, same⟩ := reached.ended formats
  have format : Uid.Format (k.source k.drawn) := by
    rw [same]
    exact formats _
  have sees : Sees p k k.files (k.descOf p) := ⟨rfl, rfl, tabled⟩
  obtain ⟨f', D', sees', trace⟩ := store_trace sees run
  rw [sees'.files]
  exact trace_undamaged_iff ended format.plain (format.free SEPARATOR (by decide)) trace

theorem repeated_stored : ∃ k k', Reached (fun _ => tick 0) k ∧
    Runs 1 (store (ascii "b") [2]) k (.ok (tick 0)) k' ∧
    Stands k (Shelf.empty.store (tick 0) (ascii "a") [1]) ∧
    Stands k' ((Shelf.empty.store (tick 0) (ascii "a") [1]).store (tick 0) (ascii "b") [2]) := by
  have format : Uid.Format (tick 0) := Uid.get_format 0 0 0 0 0 0 0
  have free : SEPARATOR ∉ tick 0 := format.free SEPARATOR (by decide)
  obtain ⟨k, first, stands, source, _⟩ := (Stands.start fun _ => tick 0).store (p := 1) [1]
    (show PlainName (ascii "a") ∧ SEPARATOR ∉ ascii "a" by decide) rfl format.plain free
  obtain ⟨k', second, stands', _⟩ := stands.store (p := 1) [2]
    (show PlainName (ascii "b") ∧ SEPARATOR ∉ ascii "b" by decide) (by rw [source]; rfl) format.plain free
  have op : Runs 1 (Op.store (ascii "a") [1]).run (initKernel fun _ => tick 0) _ k :=
    first.bind Program.Runs.done
  exact ⟨k, k', Reached.new.next op, second, stands, stands'⟩

theorem store_damages_nothing_repeated : ∃ k k' : Kernel,
    Undamaged k.files k'.files ↔
      (Creatable k.files (NAME_DIR ++ ascii "b") → Creatable k.files (ID_DIR ++ k.source k.drawn) →
        Harmless k.files (ascii "b") (k.source k.drawn) [2]) := by
  obtain ⟨k, k', reached, run, _⟩ := repeated_stored
  have formats : ∀ n : Nat, Uid.Format (tick 0) := fun _ => Uid.get_format 0 0 0 0 0 0 0
  exact ⟨k, k', store_damages_nothing _ 1 k k' _ _ _ formats reached run⟩

/-- The data of the first are gone. -/
theorem repeated_id_overwrites : ∃ k k', Reached (fun _ => tick 0) k ∧
    Runs 1 (store (ascii "b") [2]) k (.ok (tick 0)) k' ∧ ¬ Undamaged k.files k'.files := by
  obtain ⟨k, k', reached, run, stands, stands'⟩ := repeated_stored
  refine ⟨k, k', reached, run, fun undamaged => ?_⟩
  have present : record k.files .byId (tick 0) ≠ none := by
    simp [stands.record_byId, Shelf.store]
  have before : record k.files .data (tick 0) = some [1] := by
    simp [stands.record_data, Shelf.store]
  have after := undamaged.data (tick 0) [1] present before
  simp [stands'.record_data, Shelf.store] at after

end Sfsdb.Collisions

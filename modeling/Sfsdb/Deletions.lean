import Mathlib.Data.List.DropRight
import Sfsdb.Collisions

/-!
What a removal that succeeded has done, by whatever string. The string is used
three times: as a path into by-id, as a path into data, and to be compared with
the lines of the index that the record found names. `Deleted` tells which files
the tree lost and what became of that index.
-/

namespace Sfsdb.Volume

open Posix Storage

/-- The files after a removal by `s` has succeeded: `q` was found as the record,
with `bytes` in it, and `t` as its index, which held `old`. -/
structure Deleted (s : Bytes) (f f' : Files) (q t : Path) (bytes old : Bytes) : Prop where
  cwd : f'.cwd = f.cwd
  record : f.resolve (ID_DIR ++ s) = .ok q
  found : f.content q = some bytes
  index : f.resolve (NAME_DIR ++ Records.first SEPARATOR bytes) = .ok t
  listing : f.content t = some old
  apart : t ≠ q ∧ f.resolve (DATA_DIR ++ s) ≠ .ok t
  gone : ∀ q', q' = q ∨ f.resolve (DATA_DIR ++ s) = .ok q' → f'.content q' = none
  emptied : unlisted s old = [] → f'.content t = none
  left : unlisted s old ≠ [] → f'.content t = some (Records.render SEPARATOR (unlisted s old))
  other : ∀ q', q' ≠ q → f.resolve (DATA_DIR ++ s) ≠ .ok q' → q' ≠ t → f'.content q' = f.content q'

/-! ## One entry less -/

namespace Drops
variable {f f' : Files} {path path' : Bytes} {q : Path}

theorem cwd (drops : Drops path f f') : f'.cwd = f.cwd := by
  cases drops <;> rfl

theorem data (drops : Drops path f f') : f'.data = f.data := by
  cases drops <;> rfl

theorem gone (drops : Drops path f f') (there : f.resolve path = .ok q) : f'.node q = none := by
  cases drops with
  | nothing absent => exact absent q there
  | entry resolved linked =>
      rw [f.node_unlink _ linked, if_pos (Except.ok.inj (there.symm.trans resolved))]

theorem kept (drops : Drops path f f') (elsewhere : f.resolve path ≠ .ok q) : f'.node q = f.node q := by
  cases drops with
  | nothing => rfl
  | entry resolved linked =>
      rw [f.node_unlink _ linked, if_neg]
      rintro rfl
      exact elsewhere resolved

theorem node (drops : Drops path f f') (q : Path) : f'.node q = none ∨ f'.node q = f.node q := by
  by_cases there : f.resolve path = .ok q
  · exact Or.inl (drops.gone there)
  · exact Or.inr (drops.kept there)

theorem sound (drops : Drops path f f') (sound : f.Sound) : f'.Sound := by
  cases drops with
  | nothing => exact sound
  | entry _ linked => exact sound.unlink _ linked

theorem content_gone (drops : Drops path f f') (there : f.resolve path = .ok q) : f'.content q = none := by
  rw [Files.content, drops.gone there]

theorem content_kept (drops : Drops path f f') (elsewhere : f.resolve path ≠ .ok q) :
    f'.content q = f.content q := by
  rw [Files.content, Files.content, drops.kept elsewhere, drops.data]

theorem resolve (drops : Drops path f f') (resolved : f'.resolve path' = .ok q) :
    f.resolve path' = .ok q := by
  unfold Files.resolve at resolved ⊢
  rw [drops.cwd] at resolved
  split at resolved
  · cases resolved
  · rename_i some
    rw [if_neg some]
    apply walk_mono _ _ _ resolved
    intro q' dir
    rcases drops.node q' with nothing | same
    · rw [nothing] at dir
      cases dir
    · rw [← same, dir]

theorem dirs (drops : Drops path f f') (file : ∀ q, f.resolve path = .ok q → f.node q ≠ some .dir) :
    SameDirs f f' := by
  constructor
  · exact drops.cwd
  · intro q
    by_cases there : f.resolve path = .ok q
    · exact iff_of_false (by simp [drops.gone there]) (file q there)
    · rw [drops.kept there]

theorem both {f₁ f₂ : Files} {first second : Bytes} (drops₁ : Drops first f f₁)
    (drops₂ : Drops second f₁ f₂) (record : f.resolve first = .ok q) (file : f.node q ≠ some .dir) :
    (∀ q', q' = q ∨ f.resolve second = .ok q' → f₂.content q' = none) ∧
      ∀ q', q' ≠ q → f.resolve second ≠ .ok q' → f₂.content q' = f.content q' := by
  -- the second path leads where it did, as no directory is gone
  have dirs : SameDirs f f₁ := by
    apply drops₁.dirs
    intro q' there
    obtain rfl : q = q' := Except.ok.inj (record.symm.trans there)
    exact file
  have dirs' : SameDirs f₁ f := ⟨dirs.1.symm, fun q' => (dirs.2 q').symm⟩
  constructor
  · rintro q' (rfl | data)
    · by_cases data : f₁.resolve second = .ok q'
      · exact drops₂.content_gone data
      · rw [drops₂.content_kept data, drops₁.content_gone record]
    · exact drops₂.content_gone (dirs.resolve data)
  · intro q' other data
    rw [drops₂.content_kept fun there => data (dirs'.resolve there), drops₁.content_kept]
    rw [record]
    exact fun same => other (Except.ok.inj same).symm

end Drops

/-! ## One string in two directories -/

section Paths
variable {f : Files} {s : Bytes} {q q' : Path}

theorem rdrop_dropLast (path : Path) (a : Nat) : path.dropLast.rdrop a = path.rdrop (a + 1) := by
  cases path using List.reverseRecOn with
  | nil => simp
  | append_singleton front last => rw [List.dropLast_concat, List.rdrop_concat_succ]

theorem walk_parallel {node : Path → Option Node} (names : List Bytes) {here there : Path}
    (first : walk node here names = .ok q) (second : walk node there names = .ok q') :
    ∃ (a : Nat) (w : Path), q = here.rdrop a ++ w ∧ q' = there.rdrop a ++ w := by
  -- The same names walked from two places end alike: as many steps up and then as far down.
  induction names generalizing here there with
  | nil =>
      cases first
      cases second
      exact ⟨0, [], by simp, by simp⟩
  | cons name rest ih =>
      unfold walk at first second
      by_cases stay : name = dot
      · rw [if_pos stay] at first second
        exact ih first second
      · rw [if_neg stay] at first second
        by_cases up : name = dotdot
        · rw [if_pos up] at first second
          obtain ⟨a, w, rfl, rfl⟩ := ih first second
          exact ⟨a + 1, w, by rw [rdrop_dropLast], by rw [rdrop_dropLast]⟩
        · rw [if_neg up] at first second
          cases rest with
          | nil =>
              cases first
              cases second
              exact ⟨0, [name], by simp, by simp⟩
          | cons next more =>
              have deeper : walk node (here ++ [name]) (next :: more) = .ok q ∧
                  walk node (there ++ [name]) (next :: more) = .ok q' := by
                constructor
                · dsimp only at first
                  split at first <;> simp_all
                · dsimp only at second
                  split at second <;> simp_all
              obtain ⟨a, w, rfl, rfl⟩ := ih deeper.1 deeper.2
              cases a with
              | zero => exact ⟨0, name :: w, by simp, by simp⟩
              | succ a => exact ⟨a, w, by rw [List.rdrop_concat_succ], by rw [List.rdrop_concat_succ]⟩

theorem components_ne_nil {path : Bytes} (some : path ≠ []) : components path ≠ [] := by
  intro none
  obtain ⟨noParts, noDot⟩ := List.append_eq_nil_iff.mp none
  have open_end : path.getLast? ≠ .some slash := by
    intro last
    simp [last] at noDot
  have whole := Records.render_split slash path
  rw [if_neg (not_or.mpr ⟨some, open_end⟩)] at whole
  -- every part is empty, so the path has slashes only
  have slashes : ∀ b ∈ path, b = slash := by
    intro b member
    have inside : b ∈ Records.render slash (Records.split slash path) := by
      rw [whole]
      exact List.mem_append_left _ member
    obtain ⟨part, among, within⟩ := List.mem_flatMap.mp inside
    have blank : part = [] := by
      simpa using List.filter_eq_nil_iff.mp noParts part among
    simpa [blank] using within
  obtain ⟨front, last, rfl⟩ := List.eq_nil_or_concat path |>.resolve_left some
  exact open_end (by simp [slashes last (by simp)])

theorem resolve_through (layout : Layout f) (d : Dir) (some : cstr s ≠ []) :
    f.resolve (d.text ++ s) = walk f.node (f.cwd ++ d.names) (components (cstr s)) := by
  have relative : (d.text ++ cstr s).head? ≠ .some slash := by
    rw [List.head?_append_of_ne_nil _ (by cases d <;> decide)]
    cases d <;> decide
  have nonempty : d.text ++ cstr s ≠ [] := by
    simp [some]
  have free : ∀ n ∈ d.names, n ≠ [] ∧ slash ∉ n := fun n member =>
    ⟨(d.names_plain n member).1, (d.names_plain n member).2.1⟩
  rw [Files.resolve, cstr_append d.text s (by cases d <;> decide), if_neg nonempty, if_neg relative,
    d.text_eq, components_render _ _ free some]
  exact f.walk_through f.cwd d.names _ (components_ne_nil some)
    (fun n member => (d.names_plain n member).2.2.2) (layout d)

theorem special_target (layout : Layout f) (d : Dir) (nested : d ≠ .data)
    (special : cstr s = [] ∨ cstr s = dot ∨ cstr s = dotdot)
    (resolved : f.resolve (d.text ++ s) = .ok q) : f.node q = some .dir := by
  obtain ⟨q', there, dir, _⟩ :=
    special_dir (k := { initKernel (fun _ => []) with files := f }) layout d nested s special
  obtain rfl : q = q' := Except.ok.inj (resolved.symm.trans there)
  exact dir

theorem entry_ends {d : Dir} {x y above : Bytes} {front : Path} (same : front ++ [above, y] = entry f d x) :
    y = x ∧ d.names.getLast? = some above := by
  -- The last two names of an entry are its directory and its own.
  have split : (front ++ [above]) ++ [y] = (f.cwd ++ d.names) ++ [x] := by
    rw [List.append_assoc]
    exact same
  obtain ⟨upper, last⟩ := List.append_inj' split rfl
  constructor
  · simpa using last
  · have ends := congrArg List.getLast? upper
    rw [List.getLast?_append, List.getLast?_append] at ends
    cases d <;> simpa [Dir.names] using ends.symm

/-- A string that leads to an entry from by-id and to one from data leads to the
same, or to the record and the data of one id. -/
theorem targets_agree (layout : Layout f) (some : cstr s ≠ []) {d d' : Dir} {x x' : Bytes}
    (record : f.resolve (ID_DIR ++ s) = .ok (entry f d x))
    (bytes : f.resolve (DATA_DIR ++ s) = .ok (entry f d' x')) :
    x = x' ∧ (d = d' ∨ d = .byId ∧ d' = .data) := by
  rw [show ID_DIR = Dir.byId.text from rfl, resolve_through layout .byId some] at record
  rw [show DATA_DIR = Dir.data.text from rfl, resolve_through layout .data some] at bytes
  obtain ⟨a, w, first, second⟩ := walk_parallel _ record bytes
  cases a with
  | zero =>
      simp only [List.rdrop_zero, entry, List.append_assoc, List.append_cancel_left_eq] at first second
      have isData : d' = .data := by
        cases d' with
        | data => rfl
        | byId | byName => exact absurd (List.cons.inj second).1 (by decide)
      subst isData
      obtain rfl : w = [x'] := (List.cons.inj second).2.symm
      cases d with
      | byId => exact ⟨by simpa [Dir.names] using first, Or.inr ⟨rfl, rfl⟩⟩
      | byName =>
          have names := (List.cons.inj (List.cons.inj first).2).1
          exact absurd names (by decide)
      | data => exact absurd (List.cons.inj first).1 (by decide)
  | succ a =>
      -- both have left their directory, and the rest is the end of both entries
      have up : (f.cwd ++ Dir.data.names).rdrop (a + 1) = f.cwd.rdrop a := List.rdrop_concat_succ ..
      rw [up] at second
      have long : 2 ≤ w.length := by
        have lengths := congrArg List.length second
        have upper : (f.cwd.rdrop a).length ≤ f.cwd.length := List.length_take_le' _ _
        have names : 1 ≤ d'.names.length := List.length_pos_iff.mpr d'.names_ne_nil
        simp only [entry, List.length_append, List.length_cons, List.length_nil] at lengths
        omega
      obtain ⟨upper, y, rfl⟩ := (List.eq_nil_or_concat' w).resolve_left (by rintro rfl; simp at long)
      obtain ⟨front, above, rfl⟩ :=
        (List.eq_nil_or_concat' upper).resolve_left (by rintro rfl; simp at long)
      rw [List.append_assoc, List.singleton_append] at first second
      rw [← List.append_assoc] at first second
      obtain ⟨rfl, dir⟩ := entry_ends first.symm
      obtain ⟨rfl, dir'⟩ := entry_ends second.symm
      have same : d = d' := by
        have ends := dir.trans dir'.symm
        cases d <;> cases d' <;> first | rfl | exact absurd ends (by decide)
      exact ⟨rfl, Or.inl same⟩

end Paths

/-! ## The three uses of the string -/

section Uses
variable {p : Pid} {k k' : Kernel} {f f' : Files} {D : Fd → Option Description} {s : Bytes} {q t : Path}

theorem opened_reading {path : Bytes} {ino : Option Ino}
    (opened : f.opens path Flstream.RDONLY = .ok (ino, f')) : f' = f ∧ ∃ q, f.resolve path = .ok q ∧
      (ino = none ∧ f.node q = some .dir ∨ ∃ i, ino = some i ∧ f.node q = some (.file i)) := by
  unfold Files.opens at opened
  cases resolved : f.resolve path with
  | error e => simp [resolved] at opened
  | ok q =>
      rw [resolved] at opened
      cases node : f.node q with
      | none => simp [node, Flstream.RDONLY] at opened
      | some found =>
          cases found with
          | dir =>
              simp only [node, Flstream.RDONLY, Bool.or_self, Bool.false_eq_true, ↓reduceIte] at opened
              cases opened
              exact ⟨rfl, q, rfl, Or.inl ⟨rfl, node⟩⟩
          | file i =>
              simp only [node, Flstream.RDONLY, Bool.and_self, Bool.false_eq_true, ↓reduceIte] at opened
              cases opened
              exact ⟨rfl, q, rfl, Or.inr ⟨i, rfl, node⟩⟩

theorem byId_reads (sees : Sees p k f D) {object : Object} (run : Runs p (byId s) k (.ok object) k') :
    ∃ q D', f.resolve (ID_DIR ++ s) = .ok q ∧ Sees p k' f D' ∧ object.id = s ∧
      (f.node q = some .dir ∧ object.name = [] ∨
        ∃ bytes, f.content q = some bytes ∧ object.name = Records.first SEPARATOR bytes) := by
  obtain ⟨stream, k₁, opens, run⟩ := Program.runs_bind_split run
  rcases sees.new opens with ⟨e, _, rfl, fails, _⟩ | ⟨fd, ino, f', opened, rfl, _, sees₁⟩
  · rw [if_pos fails] at run
    obtain ⟨_, _, _, final⟩ := Program.runs_bind_split run
    cases final
  rw [if_neg (by simp)] at run
  obtain ⟨rfl, q, resolved, node⟩ := opened_reading opened
  obtain ⟨stream, k₂, locks, run⟩ := Program.runs_bind_split run
  obtain ⟨own, sees₂⟩ := sees₁.lock locks
  obtain ⟨_, err⟩ := stream
  cases own
  have found : k₂.descOf p fd = some ⟨p, ino, Flstream.RDONLY, 0⟩ := by
    rw [sees₂.descs, Function.update_self]
  obtain ⟨⟨more, name, stream⟩, k₃, reads, run⟩ := Program.runs_bind_split run
  obtain ⟨_, k₄, closes, final⟩ := Program.runs_bind_split run
  cases final
  rcases node with ⟨rfl, dir⟩ | ⟨i, rfl, file⟩
  · obtain ⟨same, rfl⟩ := (gives_of_runs (getline_dir SEPARATOR found rfl rfl) _ _).mp reads
    cases same
    obtain ⟨D', sees₄, _⟩ := sees₂.close closes
    exact ⟨q, D', resolved, sees₄, rfl, Or.inl ⟨dir, rfl⟩⟩
  · have line := Flstream.getline_runs (e := err) SEPARATOR found rfl rfl (Nat.succ_pos 1023)
    obtain ⟨same, rfl⟩ := (gives_of_runs line _ _).mp reads
    cases same
    obtain ⟨_, sees₃⟩ := sees₂.setPos found _
    obtain ⟨D', sees₄, _⟩ := sees₃.close closes
    have text : Flstream.unread k₂ i 0 = f'.data i := by
      rw [Flstream.unread, sees₂.files, List.drop_zero]
    exact ⟨q, D', resolved, sees₄, rfl, Or.inr ⟨f'.data i, Files.content_of_file file, by rw [text]⟩⟩

theorem UnlistTrace.content {path id : Bytes} (sound : f.Sound)
    (trace : UnlistTrace path id f (some (.ok ())) f') :
    ∃ t old, f'.cwd = f.cwd ∧ f.resolve path = .ok t ∧ f.content t = some old ∧
      (unlisted id old = [] → f'.content t = none) ∧
      (unlisted id old ≠ [] → f'.content t = some (Records.render SEPARATOR (unlisted id old))) ∧
      ∀ q, q ≠ t → f'.content q = f.content q := by
  cases trace with
  | @rewritten t i resolved file left =>
      refine ⟨t, f.data i, rfl, resolved, Files.content_of_file file, ?_, ?_, ?_⟩
      · intro none_left
        exact absurd none_left left
      · intro _
        rw [Files.content_setData _ sound file, if_pos rfl]
      · intro q other
        rw [Files.content_setData _ sound file, if_neg other]
  | @emptied t i _ resolved file none_left drops =>
      -- the path leads where it did, as only the bytes have changed
      have there : (f.setData i []).resolve path = .ok t := resolved
      refine ⟨t, f.data i, drops.cwd, resolved, Files.content_of_file file, ?_⟩
      refine ⟨fun _ => drops.content_gone there, fun left => absurd none_left left, ?_⟩
      intro q other
      have elsewhere : (f.setData i []).resolve path ≠ .ok q := by
        rw [there]
        exact fun same => other (Except.ok.inj same).symm
      rw [drops.content_kept elsewhere, Files.content_setData _ sound file, if_neg other]

theorem nameless_not_unlisted (layout : Layout f) {f₁ : Files} {id : Bytes}
    (reaches : ∀ q, f₁.resolve NAME_DIR = .ok q → f.resolve NAME_DIR = .ok q)
    (nodes : ∀ q, f₁.node q = none ∨ f₁.node q = f.node q) :
    ¬ UnlistTrace NAME_DIR id f₁ (some (.ok ())) f' := by
  intro trace
  have listing : ∃ t i, f₁.resolve NAME_DIR = .ok t ∧ f₁.node t = some (.file i) := by
    cases trace with
    | rewritten resolved file => exact ⟨_, _, resolved, file⟩
    | emptied resolved file => exact ⟨_, _, resolved, file⟩
  obtain ⟨t, i, resolved, file⟩ := listing
  have dir : f.node t = some .dir :=
    special_target (s := []) layout .byName (by decide) (Or.inl rfl) (reaches t resolved)
  rcases nodes t with nothing | same
  · rw [nothing] at file
    cases file
  · rw [same] at file
    exact absurd (file.symm.trans dir) (by simp)

/-- Every run of a removal that succeeds has deleted what the string led to. -/
theorem remove_deleted (sees : Sees p k f D) (sound : f.Sound) (layout : Layout f)
    (run : Runs p (remove s) k (some (.ok ())) k') :
    ∃ f' D' q t bytes old, Sees p k' f' D' ∧ Deleted s f f' q t bytes old := by
  obtain ⟨found, k₁, looks, run⟩ := Program.runs_bind_split run
  cases found with
  | error e => cases run
  | ok object =>
      obtain ⟨q, D₁, record, sees₁, own, node⟩ := byId_reads sees looks
      obtain ⟨first, k₂, removes, run⟩ := Program.runs_bind_split run
      rcases sees₁.removes removes with ⟨e, rfl, _⟩ | ⟨_, f₂, rfl, sees₂, drops₁⟩
      · cases run
      obtain ⟨second, k₃, removes, run⟩ := Program.runs_bind_split run
      rcases sees₂.removes removes with ⟨e, rfl, _⟩ | ⟨_, f₃, rfl, sees₃, drops₂⟩
      · cases run
      obtain ⟨f', D', sees', trace⟩ := unlist_trace sees₃ run
      rw [own] at drops₁ drops₂ trace
      have reaches : ∀ {path q}, f₃.resolve path = .ok q → f.resolve path = .ok q :=
        fun there => drops₁.resolve (drops₂.resolve there)
      rcases node with ⟨_, nameless⟩ | ⟨bytes, found, named⟩
      · -- a directory was read, which names no index
        rw [nameless, List.append_nil] at trace
        refine absurd trace (nameless_not_unlisted layout (fun _ => reaches) fun q' => ?_)
        rcases drops₂.node q' with nothing | same
        · exact Or.inl nothing
        · rw [same]
          exact drops₁.node q'
      · obtain ⟨t, old, cwd, index, listing, emptied, left, other⟩ :=
          trace.content (drops₂.sound (drops₁.sound sound))
        have file : f.node q ≠ some .dir := by
          intro dir
          simp [Files.content, dir] at found
        rcases drops₁.both drops₂ record file with ⟨gone, kept⟩
        have apart : t ≠ q ∧ f.resolve (DATA_DIR ++ s) ≠ .ok t := by
          constructor
          · rintro rfl
            rw [gone t (Or.inl rfl)] at listing
            cases listing
          · intro data
            rw [gone t (Or.inr data)] at listing
            cases listing
        rw [named] at index
        refine ⟨f', D', q, t, bytes, old, sees', ?_⟩
        constructor
        · rw [cwd, drops₂.cwd, drops₁.cwd]
        · exact record
        · exact found
        · exact reaches index
        · rw [← kept t apart.1 apart.2, listing]
        · exact apart
        · intro q' lost
          rw [other q', gone q' lost]
          rintro rfl
          exact lost.elim apart.1 apart.2
        · exact emptied
        · exact left
        · intro q' notRecord notData notIndex
          rw [other q' notIndex, kept q' notRecord notData]

end Uses

end Sfsdb.Volume

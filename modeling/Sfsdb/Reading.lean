import Sfsdb.Flstream
import Sfsdb.Footprint

/-!
What reading a stream takes: reads, tells and seeks on its own descriptor have to
be allowed. The functions that read keep to that descriptor, and what they return
holds only what the reads have answered.
-/

namespace Sfsdb.Flstream

open Posix

/-- Streams on `fd` may be read, and a read answers only bytes of the kind. -/
structure Readable (covers : Call → Prop) (answers : (c : Call) → Resp c → Prop) (kind : Byte → Prop)
    (fd : Option Fd) : Prop where
  read : ∀ n, fd = some n → ∀ len, covers (.read n len)
  tell : ∀ n, fd = some n → covers (.tell n)
  seek : ∀ n, fd = some n → ∀ pos, covers (.seek n pos)
  yields : ∀ n len bytes, answers (.read n len) (.ok bytes) → ∀ b ∈ bytes, kind b

section Readable
variable {covers : Call → Prop} {answers : (c : Call) → Resp c → Prop} {kind : Byte → Prop} {s : Flstream}

theorem read_within (may : Readable covers answers kind s.fd) (len : Nat) :
    Program.Within covers answers (fun r => r.2.fd = s.fd ∧ ∀ b ∈ r.1, kind b) (s.read len) := by
  unfold read
  split
  · exact Program.Within.done ⟨rfl, by simp⟩
  · rename_i fd own
    apply Program.Within.call (may.read fd own len)
    intro r answered
    cases r with
    | error e => exact Program.Within.done ⟨rfl, by simp⟩
    | ok bytes => exact Program.Within.done ⟨rfl, may.yields fd len bytes answered⟩

theorem tell_within (may : Readable covers answers kind s.fd) :
    Program.Within covers answers (fun _ => True) s.tell := by
  unfold tell
  split
  · exact Program.Within.done trivial
  · rename_i fd own
    apply Program.Within.call (may.tell fd own)
    intro r _
    cases r with
    | error e => exact Program.Within.done trivial
    | ok pos => exact Program.Within.done trivial

theorem seek_within (may : Readable covers answers kind s.fd) (pos : Int) :
    Program.Within covers answers (fun _ => True) (s.seek pos) := by
  unfold seek
  split
  · exact Program.Within.done trivial
  · rename_i fd own
    apply Program.Within.call (may.seek fd own pos)
    intro r _
    exact Program.Within.done trivial

theorem linePass_within {st : LineState} (may : Readable covers answers kind st.stream.fd)
    (held : ∀ b ∈ st.buf, kind b) (delim : Byte) (chunkSize : Nat) :
    Program.Within covers answers
      (Sum.elim (fun st' => st'.stream.fd = st.stream.fd ∧ ∀ b ∈ st'.buf, kind b)
        fun r => r.2.2.fd = st.stream.fd ∧ ∀ b ∈ r.2.1, kind b)
      (linePass delim chunkSize st) := by
  apply (read_within may chunkSize).bind
  intro read got
  rcases read with ⟨chunk, s⟩
  rcases got with ⟨same, read⟩
  have may : Readable covers answers kind s.fd := same ▸ may
  have joined : ∀ count, ∀ b ∈ st.buf ++ chunk.take count, kind b := by
    intro count b member
    rcases List.mem_append.mp member with before | new
    · exact held b before
    · exact read b (List.mem_of_mem_take new)
  have whole : ∀ b ∈ st.buf ++ chunk, kind b := by
    simpa using joined chunk.length
  dsimp only
  split
  · exact Program.Within.done ⟨same, held⟩
  · split
    · exact Program.Within.done ⟨same, held⟩
    · split
      · apply (tell_within may).bind
        intro pos _
        apply (seek_within may _).bind
        intro _ _
        exact Program.Within.done ⟨same, joined _⟩
      · split
        · exact Program.Within.done ⟨same, whole⟩
        · exact Program.Within.done ⟨same, whole⟩

theorem getline_within (may : Readable covers answers kind s.fd) (delim : Byte) :
    Program.Within covers answers (fun r => r.2.2.fd = s.fd ∧ ∀ b ∈ r.2.1, kind b) (s.getline delim) := by
  apply Program.within_iterate (fun st : LineState => st.stream.fd = s.fd ∧ ∀ b ∈ st.buf, kind b)
  · exact ⟨rfl, by simp⟩
  · intro st kept
    have same : st.stream.fd = s.fd := kept.1
    have pass := linePass_within (same ▸ may) kept.2 delim 1024
    rwa [same] at pass

theorem getlines_within (may : Readable covers answers kind s.fd) (delim : Byte) :
    Program.Within covers answers (fun r => r.2.fd = s.fd) (s.getlines delim) := by
  apply Program.within_iterate (fun st : List Bytes × Flstream => st.2.fd = s.fd)
  · rfl
  · intro st same
    have may : Readable covers answers kind st.2.fd := same ▸ may
    apply (getline_within may delim).bind
    intro line got
    rcases line with ⟨more, line, s'⟩
    cases more with
    | true => exact Program.Within.done (got.1.trans same)
    | false => exact Program.Within.done (got.1.trans same)

theorem lock_within {lockKind : LockKind} (may : ∀ n, s.fd = some n → covers (.lock n lockKind)) :
    Program.Within covers answers (fun r => r.fd = s.fd) (s.lock lockKind) := by
  unfold lock
  split
  · exact Program.Within.done rfl
  · rename_i fd own
    apply Program.Within.call (may fd own)
    intro r _
    cases r with
    | error e => exact Program.Within.done rfl
    | ok _ => exact Program.Within.done rfl

theorem close_within (unlocks : ∀ n, s.fd = some n → covers (.unlock n))
    (closes : ∀ n, s.fd = some n → covers (.close n)) :
    Program.Within covers answers (fun _ => True) s.close := by
  have unlocked : Program.Within covers answers (fun r => r.fd = s.fd) s.unlockFile := by
    unfold unlockFile
    split
    · exact Program.Within.done rfl
    · rename_i fd own
      apply Program.Within.call (unlocks fd own)
      intro r _
      cases r with
      | error e => exact Program.Within.done rfl
      | ok _ => exact Program.Within.done rfl
  apply unlocked.bind
  intro s' same
  split
  · exact Program.Within.done trivial
  · split
    · exact Program.Within.done trivial
    · rename_i fd own
      apply Program.Within.call (closes fd (same ▸ own))
      intro r _
      exact Program.Within.done trivial

end Readable
end Sfsdb.Flstream

import Sfsdb.Identifiers
import Sfsdb.LineReader

/-!
`generator::get` with its `snprintf`. A conversion writes at least its width and
more where the value needs more, and the call writes no more than the buffer
holds; both limits are shown to be of no account after the masks and casts. So
the text is the identifier `get`, and as it is free of line breaks an index
of such identifiers is read back as they were appended.
-/

namespace Sfsdb.Uid

open Posix

/-- `%x`: without leading zeros. -/
def unpadded (v : Nat) : Bytes :=
  if v < 16 then [hexDigit v] else unpadded (v / 16) ++ [hexDigit (v % 16)]

/-- `%0<width>x`: the width is a minimum. -/
def padded (width v : Nat) : Bytes :=
  List.replicate (width - (unpadded v).length) 48 ++ unpadded v

/-- `snprintf(ret.data(), ret.length() + 1, ..)`: the text is cut at the end of
`ret`, and a NUL is written behind what is left of it. -/
def snprintf (ret text : Bytes) : Bytes :=
  (text.take ret.length ++ 0 :: ret.drop (text.length + 1)).take ret.length

namespace Draw

def conversions (d : Draw) : Bytes :=
  padded 8 (d.timestamp &&& 0x0000ffff).toUInt32.toNat ++ [SEPARATOR] ++
    padded 4 (d.timestamp &&& 0x00ff0000).toUInt16.toNat ++ [SEPARATOR] ++
    padded 4 (d.timestamp &&& 0xff000000).toUInt16.toNat ++ [SEPARATOR] ++
    padded 4 (d.r₀.toNat + d.r₁.toNat * 256) ++ [SEPARATOR] ++
    padded 8 (d.r₂.toNat + d.r₃.toNat * 256 + d.r₄.toNat * 65536 + d.r₅.toNat * 16777216)

/-- `ret` after `ret.resize(TOTAL_LEN)` and the call. -/
def printed (d : Draw) : Bytes := snprintf (List.replicate TOTAL_LEN 0) d.conversions

end Draw

/-! ## Widths -/

theorem hex_zero (width : Nat) : hex width 0 = List.replicate width 48 := by
  induction width with
  | zero => rfl
  | succ width ih =>
      rw [hex, Nat.zero_div, ih, List.replicate_succ']
      rfl

theorem unpadded_last (v : Nat) (long : ¬ v < 16) :
    unpadded v = unpadded (v / 16) ++ [hexDigit (v % 16)] := by
  rw [unpadded, if_neg long]

theorem padded_eq_hex (width v : Nat) (fits : v < 16 ^ (width + 1)) :
    padded (width + 1) v = hex (width + 1) v := by
  -- A value that fits into its width is written with exactly that width.
  induction width generalizing v with
  | zero =>
      have small : v < 16 := by simpa using fits
      rw [padded, unpadded, if_pos small, hex, hex, Nat.mod_eq_of_lt small]
      rfl
  | succ width ih =>
      by_cases small : v < 16
      · rw [padded, unpadded, if_pos small, hex, Nat.div_eq_of_lt small, Nat.mod_eq_of_lt small, hex_zero]
        rfl
      · have front : v / 16 < 16 ^ (width + 1) := by
          apply Nat.div_lt_of_lt_mul
          rw [Nat.mul_comm, ← Nat.pow_succ]
          exact fits
        have shorter := ih (v / 16) front
        unfold padded at shorter
        rw [hex, ← shorter, padded, unpadded_last v small, List.length_append, List.length_singleton,
          Nat.add_sub_add_right, List.append_assoc]

theorem snprintf_fits (ret text : Bytes) (same : text.length = ret.length) : snprintf ret text = text := by
  rw [snprintf, ← same, List.take_of_length_le (Nat.le_refl _), List.take_left]

namespace Draw

theorem conversions_eq (d : Draw) : d.conversions = d.id := by
  have byte : ∀ b : Byte, b.toNat < 256 := fun b => b.toNat_lt
  have := byte d.r₀; have := byte d.r₁; have := byte d.r₂
  have := byte d.r₃; have := byte d.r₄; have := byte d.r₅
  unfold conversions id get
  rw [padded_eq_hex 7 _ (UInt32.toNat_lt _), padded_eq_hex 3 _ (UInt16.toNat_lt _),
    padded_eq_hex 3 _ (UInt16.toNat_lt _), padded_eq_hex 3 _ (by omega), padded_eq_hex 7 _ (by omega)]
  simp only [UInt64.toNat_toUInt32, UInt64.toNat_toUInt16, UInt64.toNat_and]
  rfl

theorem printed_eq (d : Draw) : d.printed = d.id := by
  have format : Format d.id := get_format d.timestamp.toNat d.r₀ d.r₁ d.r₂ d.r₃ d.r₄ d.r₅
  rw [printed, conversions_eq, snprintf_fits]
  simpa using format.length

theorem printed_format (d : Draw) : Format d.printed :=
  d.printed_eq ▸ get_format d.timestamp.toNat d.r₀ d.r₁ d.r₂ d.r₃ d.r₄ d.r₅

end Draw

/-! ## The index -/

/-- Whoever appends `line` to a file of these lines, and whoever then reads the
file from its start, gets the lines followed by `line`. -/
def ReadBack (lines : List Bytes) (line : Bytes) : Prop :=
  ∀ p k fd (d : Description) i e, k.descOf p fd = some d → d.ino = some i →
    d.flags.write = true → d.flags.append = true →
    k.files.data i = Records.render Storage.SEPARATOR lines →
    ∃ k₁, Gives p (Flstream.writeRecord ⟨some fd, e⟩ line Storage.SEPARATOR) k ⟨some fd, 0⟩ k₁ ∧
      ∀ q k₂ fd' (d' : Description) e', k₂.files.data i = k₁.files.data i →
        k₂.descOf q fd' = some d' → d'.ino = some i → d'.flags.read = true → d'.pos = 0 →
        ∃ k₃, Gives q (Flstream.getlines ⟨some fd', e'⟩ Storage.SEPARATOR) k₂
          (lines ++ [line], ⟨some fd', 0⟩) k₃

theorem readBack_of_free (lines : List Bytes) (line : Bytes)
    (free : ∀ l ∈ lines ++ [line], Storage.SEPARATOR ∉ l) : ReadBack lines line := by
  intro p k fd d i e found ino writable append written
  have write := Flstream.writeRecord_runs (e := e) line Storage.SEPARATOR found ino writable (Or.inl append)
  have index : Records.render Storage.SEPARATOR (lines ++ [line]) =
      Records.render Storage.SEPARATOR lines ++ (line ++ [Storage.SEPARATOR]) := by
    simp
  refine ⟨_, gives_of_runs write, ?_⟩
  intro q k₂ fd' d' e' data found' ino' readable start
  have lines_read := Flstream.getlines_runs (e := e') Storage.SEPARATOR found' ino' readable
  have text : Flstream.unread k₂ i d'.pos = Records.render Storage.SEPARATOR (lines ++ [line]) := by
    rw [Flstream.unread, data, start, index, ← written]
    simp
  rw [text, Records.split_render _ _ free] at lines_read
  exact ⟨_, gives_of_runs lines_read⟩

/-- Whatever the clock and the device yield, the identifier is safe as the name
of a file and as a line of an index. -/
theorem printed_is_safe (d : Draw) :
    Format d.printed ∧
      (10 ∉ d.printed ∧ slash ∉ d.printed ∧ 0 ∉ d.printed ∧ 46 ∉ d.printed) ∧
      ∀ ids, (∀ id ∈ ids, Format id) → ReadBack ids d.printed := by
  have format := d.printed_format
  constructor
  · exact format
  constructor
  · exact ⟨format.free _ (by decide), format.free _ (by decide), format.free _ (by decide),
      format.free _ (by decide)⟩
  · intro ids formats
    apply readBack_of_free
    intro line member
    rcases List.mem_append.mp member with old | new
    · exact (formats line old).free _ (by decide)
    · rw [List.mem_singleton.mp new]
      exact format.free _ (by decide)

/-- The largest values of all fields, appended to an index that holds one identifier. -/
theorem printed_is_safe_largest :
    ReadBack [(Draw.mk 0 0 0 0 0 0 0).printed] (Draw.mk 0xffffffffffffffff 255 255 255 255 255 255).printed :=
  (printed_is_safe (Draw.mk 0xffffffffffffffff 255 255 255 255 255 255)).2.2 _
    (List.forall_mem_singleton.mpr (Draw.mk 0 0 0 0 0 0 0).printed_format)

end Sfsdb.Uid

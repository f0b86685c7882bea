import Png.Ihdr

namespace Png.Proofs.Header

theorem ofBytes?_toBytes (h : Ihdr) : Ihdr.ofBytes? h.toBytes = some h := by
  have hwidth := BigEndian.word_ofWord h.width []
  have hheight := BigEndian.word_ofWord h.height []
  rw [List.append_nil] at hwidth hheight
  have hread : Ihdr.ofBytes? h.toBytes = some { h with
      width := BigEndian.word (BigEndian.ofWord h.width)
      height := BigEndian.word (BigEndian.ofWord h.height) } := rfl
  rw [hread, hwidth, hheight]

theorem colorType_ne_palette (format : PixelFormat) : format.colorType ≠ 3 := by
  cases format <;> simp [PixelFormat.colorType]

theorem layout_ofFormat {width height : UInt32} (hwidth : width ≠ 0) (hheight : height ≠ 0)
    (format : PixelFormat) :
    (Ihdr.ofFormat width height format).layout = .ok (.ofFormat width height format) := by
  have hformat := PixelFormat.ofHeader?_colorType format
  have hpalette := colorType_ne_palette format
  simp only [Ihdr.layout, Ihdr.ofFormat, hwidth, hheight, hpalette, hformat, or_self, if_false,
    ne_eq, not_true_eq_false]
  rfl

theorem one_le_toNat {a : UInt32} (h : a ≠ 0) : 1 ≤ a.toNat :=
  Nat.pos_of_ne_zero fun hzero => h (UInt32.toNat_inj.mp hzero)

theorem layout_eq_ofFormat {h : Ihdr} {l : Layout} (hl : h.layout = .ok l) :
    ∃ width height format, 1 ≤ width.toNat ∧ 1 ≤ height.toNat ∧
      l = .ofFormat width height format := by
  rw [Ihdr.layout] at hl
  split at hl
  · cases hl
  · rename_i hzero
    obtain ⟨hwidth, hheight⟩ := not_or.mp hzero
    split at hl
    · cases hl
    · split at hl
      · cases hl
      · split at hl
        · cases hl
        · split at hl
          · cases hl
          · split at hl
            · cases hl
            · rename_i format _
              cases hl
              exact ⟨h.width, h.height, format, one_le_toNat hwidth, one_le_toNat hheight, rfl⟩

variable {h : Ihdr}

/-- No field has a value that it may never have. -/
structure HasSoundFields (h : Ihdr) : Prop where
  width : h.width ≠ 0
  height : h.height ≠ 0
  compression : h.compression = 0
  filter : h.filter = 0
  interlace : h.interlace = 0 ∨ h.interlace = 1

theorem layout_unsound (hunsound : ¬ HasSoundFields h) :
    ∃ failure, failure.error = .malformed .headerParse ∧ h.layout = .error failure := by
  rw [Ihdr.layout]
  by_cases hsize : h.width = 0 ∨ h.height = 0
  · exact ⟨_, rfl, if_pos hsize⟩
  · rw [if_neg hsize]
    by_cases hmethods : h.compression ≠ 0 ∨ h.filter ≠ 0
    · exact ⟨_, rfl, if_pos hmethods⟩
    · simp only [not_or, Decidable.not_not] at hsize hmethods
      have hinterlace : h.interlace ≠ 0 ∧ h.interlace ≠ 1 := by
        rw [← not_or]
        exact fun h => hunsound ⟨hsize.1, hsize.2, hmethods.1, hmethods.2, h⟩
      exact ⟨.unknownInterlace h.interlace, rfl, by simp [hmethods, hinterlace]⟩

theorem HasSoundFields.size (hsound : HasSoundFields h) : ¬ (h.width = 0 ∨ h.height = 0) :=
  not_or.mpr ⟨hsound.width, hsound.height⟩

theorem HasSoundFields.methods (hsound : HasSoundFields h) :
    ¬ (h.compression ≠ 0 ∨ h.filter ≠ 0) :=
  not_or.mpr ⟨not_not_intro hsound.compression, not_not_intro hsound.filter⟩

theorem layout_interlaced (hsound : HasSoundFields h) (hinterlace : h.interlace = 1) :
    h.layout = .error .adam7 := by
  rw [Ihdr.layout, if_neg hsound.size, if_neg hsound.methods, if_pos hinterlace]

theorem layout_plain {format : PixelFormat} (hsound : HasSoundFields h) (hplain : h.interlace = 0)
    (hformat : PixelFormat.ofHeader? h.colorType h.bitDepth = some format) :
    h.layout = .ok (.ofFormat h.width h.height format) := by
  have hpalette : h.colorType ≠ 3 := by
    intro hcolor
    rw [hcolor] at hformat
    cases hformat
  simp [Ihdr.layout, hsound.size, hsound.methods, hplain, hpalette, hformat]

theorem layout_unlisted (hsound : HasSoundFields h) (hplain : h.interlace = 0)
    (hformat : PixelFormat.ofHeader? h.colorType h.bitDepth = none) :
    ∃ failure, failure.error = .unsupportedFormat ∧ h.layout = .error failure := by
  rw [Ihdr.layout, if_neg hsound.size, if_neg hsound.methods, hplain, if_neg (by decide),
    if_neg (by decide), hformat]
  by_cases hpalette : h.colorType = 3
  · exact ⟨_, rfl, if_pos hpalette⟩
  · exact ⟨_, rfl, if_neg hpalette⟩

end Png.Proofs.Header

import Png.Proofs.SampleAccess

namespace Png.Proofs.Luminance

open Consistency SampleAccess

/-- The samples of one pixel, one for each channel of its format. -/
structure Colour where
  format : PixelFormat
  sample : Nat → UInt16
  inRange : ∀ c < format.channels, (sample c).toNat < format.depth.levels

namespace Colour

def scaled (a : Colour) (c : Nat) : UInt8 := scaleToByte a.format.depth (a.sample c)

def brightness (a : Colour) : UInt8 := Png.brightness (a.scaled 0) (a.scaled 1) (a.scaled 2)

def luma (a : Colour) : UInt8 :=
  match a.format with
  | .luminance _ => a.scaled 0
  | .luminanceAlpha _ => overWhite (a.scaled 0) (a.scaled 1)
  | .rgb _ => a.brightness
  | .rgba _ => overWhite a.brightness (a.scaled 3)

end Colour

variable {p : Picture} {row : List UInt8} {x y : Nat} {a : Colour}

/-- The samples that a picture shows of a pixel are those of a colour. -/
def HasColour (p : Picture) (x y : Nat) (a : Colour) : Prop :=
  p.format = some a.format ∧ ∀ c < a.format.channels, p.sample x y c = some (a.sample c)

theorem channels_pos (format : PixelFormat) : 0 < format.channels := by
  cases format <;> exact Nat.succ_pos _

theorem lumaOfSamples_eq {sample : Nat → Option UInt16}
    (h : ∀ c < a.format.channels, sample c = some (a.sample c)) :
    lumaOfSamples a.format sample = some a.luma := by
  obtain ⟨format, colours, inRange⟩ := a
  cases format <;> simp only [PixelFormat.channels] at h <;>
    simp [lumaOfSamples, h, Colour.luma, Colour.brightness, Colour.scaled]

theorem luma_of_hasColour (h : HoldsImage p) (ha : HasColour p x y a) :
    p.luma x y = some a.luma := by
  obtain ⟨width, height, format, -, -, hlayout⟩ := h.layout
  obtain ⟨hformat, hsample⟩ := ha
  rw [Picture.format, hlayout] at hformat
  obtain rfl : format = a.format := Option.some.inj hformat
  simp only [sample_eq hlayout] at hsample
  -- Where the first sample is shown, the pixel is in its row, and the row is there.
  obtain ⟨hfirst, hbind⟩ := Option.ite_none_right_eq_some.mp (hsample 0 (channels_pos _))
  obtain ⟨row, hrow, -⟩ := Option.bind_eq_some_iff.mp hbind
  rw [luma_eq hlayout, if_pos hfirst.1, hrow]
  apply lumaOfSamples_eq
  intro c hc
  have hc' := hsample c hc
  rwa [if_pos ⟨hfirst.1, hc⟩, hrow] at hc'

theorem exists_colour (h : HoldsImage p) (hx : x < p.width.toNat) (hy : y < p.height.toNat) :
    ∃ a, HasColour p x y a := by
  obtain ⟨l, table, htable, ⟨hlayout, -⟩, hshows⟩ := exists_table h
  rw [width_of_layout hlayout] at hx
  rw [height_of_layout hlayout] at hy
  refine ⟨⟨l.format, table y x, htable y hy x hx⟩, ?_, ?_⟩
  · rw [Picture.format, hlayout]
    rfl
  · intro c hc
    rw [hshows]
    exact if_pos ⟨hx, hy, hc⟩

theorem inside_of_sample {channel : Nat} {v : UInt16} (h : HoldsImage p)
    (hsample : p.sample x y channel = some v) : x < p.width.toNat ∧ y < p.height.toNat := by
  obtain ⟨l, table, -, ⟨hlayout, -⟩, hshows⟩ := exists_table h
  rw [hshows] at hsample
  obtain ⟨hinside, -⟩ := Option.ite_none_right_eq_some.mp hsample
  rw [width_of_layout hlayout, height_of_layout hlayout]
  exact ⟨hinside.1, hinside.2.1⟩

theorem exists_colour_of_sample {format : PixelFormat} {channel : Nat} {v : UInt16}
    (h : HoldsImage p) (hformat : p.format = some format) (hchannel : channel < format.channels)
    (hsample : p.sample x y channel = some v) :
    ∃ a, HasColour p x y a ∧ a.format = format ∧ a.sample channel = v := by
  obtain ⟨hx, hy⟩ := inside_of_sample h hsample
  obtain ⟨a, ha⟩ := exists_colour h hx hy
  obtain rfl : format = a.format := Option.some.inj (hformat.symm.trans ha.1)
  exact ⟨a, ha, rfl, Option.some.inj ((ha.2 channel hchannel).symm.trans hsample)⟩

theorem luma_eq_none (h : HoldsImage p) (hout : ¬ (x < p.width.toNat ∧ y < p.height.toNat)) :
    p.luma x y = none := by
  obtain ⟨width, height, format, -, -, hlayout⟩ := h.layout
  have hwidth : p.width = width := width_of_layout hlayout
  rw [luma_eq hlayout, ← hwidth]
  by_cases hx : x < p.width.toNat
  · rw [if_pos hx, row_eq_none fun hy => hout ⟨hx, hy⟩]
    rfl
  · exact if_neg hx

end Png.Proofs.Luminance

import Mathlib.Logic.Relation
import Png.Proofs.Drawing

namespace Png.Proofs.Conversion

open Consistency Luminance SampleAccess

variable {p q : Picture} {a b : Colour} {x y c : Nat}

/-- One pixel in two formats. Each step changes the depth, adds an alpha channel or spreads grey
over three channels. -/
inductive Converts (a b : Colour) : Prop where
  | stretched (hnarrow : a.format.depth.bits < 8) (hbyte : b.format.depth = .eight)
      (hmodel : a.format.colorType = b.format.colorType)
      (hsample : ∀ c < a.format.channels,
        (b.sample c).toNat = (a.sample c).toNat * 255 / (a.format.depth.levels - 1))
  /-- Bytes as the high bytes of words. The low bytes may be any. -/
  | deepened (hbyte : a.format.depth = .eight) (hword : b.format.depth = .sixteen)
      (hmodel : a.format.colorType = b.format.colorType)
      (hsample : ∀ c < a.format.channels, (b.sample c).toNat / 256 = (a.sample c).toNat)
  | coverGrey (depth : Depth) (ha : a.format = .luminance depth)
      (hb : b.format = .luminanceAlpha depth) (hgrey : b.sample 0 = a.sample 0)
      (hfull : (b.sample 1).toNat = depth.levels - 1)
  | spreadGrey (depth : WideDepth) (ha : a.format = .luminance depth.toDepth)
      (hb : b.format = .rgb depth) (hgrey : ∀ c < 3, b.sample c = a.sample 0)
  | coverColour (depth : WideDepth) (ha : a.format = .rgb depth) (hb : b.format = .rgba depth)
      (hcolour : ∀ c < 3, b.sample c = a.sample c)
      (hfull : (b.sample 3).toNat = depth.toDepth.levels - 1)

theorem brightness_self (grey : UInt8) : brightness grey grey grey = grey := by
  apply UInt8.toNat_inj.mp
  rw [toNat_brightness]
  omega

theorem overWhite_full (grey : UInt8) : overWhite grey 255 = grey := by
  apply UInt8.toNat_inj.mp
  simp only [toNat_overWhite, UInt8.reduceToNat]
  omega

theorem overWhite_clear (grey : UInt8) : overWhite grey 0 = 255 := by
  apply UInt8.toNat_inj.mp
  simp only [toNat_overWhite, UInt8.reduceToNat]
  omega

theorem scaled_full (h : (a.sample c).toNat = a.format.depth.levels - 1) : a.scaled c = 255 := by
  rw [Colour.scaled, ← UInt16.ofNat_toNat (x := a.sample c), h]
  cases a.format.depth <;> rfl

theorem toNat_scaled (hdepth : a.format.depth.bits ≤ 8) (hc : c < a.format.channels) :
    (a.scaled c).toNat = (a.sample c).toNat * 255 / (a.format.depth.levels - 1) := by
  have hrange := a.inRange c hc
  rw [Colour.scaled]
  generalize a.format.depth = depth at *
  cases depth with
  | sixteen => exact absurd hdepth (by decide)
  | eight =>
    rw [toNat_scaleToByte_eight]
    exact (Nat.mod_eq_of_lt hrange).trans (Nat.mul_div_cancel _ (by decide)).symm
  | one | two | four => exact toNat_scaleToByte_narrow (by decide) hrange

theorem scaled_clear (h : (a.sample c).toNat = 0 ∨
    a.format.depth = .sixteen ∧ (a.sample c).toNat / 256 = 0) : a.scaled c = 0 := by
  rw [Colour.scaled]
  obtain hzero | ⟨hword, hhigh⟩ := h
  · rw [show a.sample c = 0 from UInt16.toNat_inj.mp hzero]
    cases a.format.depth <;> rfl
  · rw [hword]
    apply UInt8.toNat_inj.mp
    rw [toNat_scaleToByte_sixteen, hhigh]
    rfl

theorem scaled_congr {c' : Nat} (hdepth : a.format.depth = b.format.depth)
    (hsample : b.sample c' = a.sample c) : b.scaled c' = a.scaled c := by
  rw [Colour.scaled, Colour.scaled, hdepth, hsample]

theorem luma_congr (hmodel : a.format.colorType = b.format.colorType)
    (hscaled : ∀ c < a.format.channels, a.scaled c = b.scaled c) : a.luma = b.luma := by
  cases ha : a.format <;> cases hb : b.format <;> simp [ha, hb, PixelFormat.colorType] at hmodel
  all_goals
    simp only [ha, PixelFormat.channels] at hscaled
    simp only [Colour.luma, Colour.brightness, ha, hb, hscaled, Nat.reduceLT]

theorem luma_of_converts (h : Converts a b) : a.luma = b.luma := by
  cases h with
  | stretched hnarrow hbyte hmodel hsample =>
    refine luma_congr hmodel fun c hc => UInt8.toNat_inj.mp ?_
    have ha : (a.scaled c).toNat = (b.sample c).toNat :=
      (toNat_scaled (Nat.le_of_lt hnarrow) hc).trans (hsample c hc).symm
    have hb : (b.scaled c).toNat = (b.sample c).toNat % 256 := by
      rw [Colour.scaled, hbyte, toNat_scaleToByte_eight]
    rw [hb, ← ha]
    exact (Nat.mod_eq_of_lt (a.scaled c).toNat_lt).symm
  | deepened hbyte hword hmodel hsample =>
    refine luma_congr hmodel fun c hc => UInt8.toNat_inj.mp ?_
    have hrange : (a.sample c).toNat < Depth.eight.levels := hbyte ▸ a.inRange c hc
    rw [Colour.scaled, Colour.scaled, hbyte, hword, toNat_scaleToByte_eight,
      toNat_scaleToByte_sixteen, hsample c hc]
    exact Nat.mod_eq_of_lt hrange
  | coverGrey depth ha hb hgrey hfull =>
    have hsame : b.scaled 0 = a.scaled 0 := scaled_congr (by rw [ha, hb]; rfl) hgrey
    have hshown : b.scaled 1 = 255 := scaled_full (by rw [hfull, hb]; rfl)
    simp only [Colour.luma, ha, hb, hsame, hshown, overWhite_full]
  | spreadGrey depth ha hb hgrey =>
    have hsame : ∀ c < 3, b.scaled c = a.scaled 0 :=
      fun c hc => scaled_congr (by rw [ha, hb]; rfl) (hgrey c hc)
    simp only [Colour.luma, Colour.brightness, ha, hb, hsame, Nat.reduceLT, brightness_self]
  | coverColour depth ha hb hcolour hfull =>
    have hsame : ∀ c < 3, b.scaled c = a.scaled c :=
      fun c hc => scaled_congr (by rw [ha, hb]; rfl) (hcolour c hc)
    have hshown : b.scaled 3 = 255 := scaled_full (by rw [hfull, hb]; rfl)
    simp only [Colour.luma, Colour.brightness, ha, hb, hsame, Nat.reduceLT, hshown, overWhite_full]

theorem luma_of_eqvGen (h : Relation.EqvGen Converts a b) : a.luma = b.luma := by
  induction h with
  | rel a b h => exact luma_of_converts h
  | refl a => rfl
  | symm a b _ ih => exact ih.symm
  | trans a b c _ _ ih ih' => exact ih.trans ih'

theorem luma_of_clear (halpha : a.format.hasAlpha = true)
    (hclear : a.scaled (a.format.channels - 1) = 0) : a.luma = 255 := by
  cases ha : a.format with
  | luminance depth | rgb depth => simp [ha, PixelFormat.hasAlpha] at halpha
  | luminanceAlpha depth | rgba depth =>
    simp only [ha, PixelFormat.channels, Nat.reduceSub] at hclear
    simp only [Colour.luma, ha, hclear, overWhite_clear]

/-- Pictures of one size whose pixels are, place by place, conversions of one another. -/
structure IsConversion (p q : Picture) : Prop where
  width : p.width = q.width
  height : p.height = q.height
  pixel : ∀ x < p.width.toNat, ∀ y < p.height.toNat, ∃ a b,
    HasColour p x y a ∧ HasColour q x y b ∧ Relation.EqvGen Converts a b

structure LooksLike (p q : Picture) : Prop where
  shown : ∀ x < p.width.toNat, ∀ y < p.height.toNat, (p.luma x y).isSome
  luma : ∀ x y, p.luma x y = q.luma x y
  draw : p.draw = q.draw
  drawWithin : ∀ area, p.drawWithin area = q.drawWithin area

/-- An alpha sample of zero. Of sixteen bits only the high byte counts. -/
def IsClearAt (p : Picture) (x y : Nat) : Prop :=
  ∃ format alpha, p.format = some format ∧ format.hasAlpha = true ∧
    p.sample x y (format.channels - 1) = some alpha ∧
    (alpha.toNat = 0 ∨ format.depth = .sixteen ∧ alpha.toNat / 256 = 0)

theorem drawWithin_congr (hview : p.viewSize = q.viewSize)
    (hluma : ∀ x y, p.luma x y = q.luma x y) (area : Rectangle) :
    p.drawWithin area = q.drawWithin area := by
  have hrow : ∀ x y, p.lumaOf (p.row y) x = q.lumaOf (q.row y) x := hluma
  simp only [Picture.drawWithin, hview, hrow]

theorem looksLike_of_isConversion (hp : HoldsImage p) (hq : HoldsImage q)
    (h : IsConversion p q) : LooksLike p q := by
  have hview : p.viewSize = q.viewSize := by
    rw [Drawing.viewSize_of_holdsImage hp, Drawing.viewSize_of_holdsImage hq, h.width, h.height]
  have hluma : ∀ x y, p.luma x y = q.luma x y := by
    intro x y
    by_cases hinside : x < p.width.toNat ∧ y < p.height.toNat
    · obtain ⟨a, b, ha, hb, hconverts⟩ := h.pixel x hinside.1 y hinside.2
      rw [luma_of_hasColour hp ha, luma_of_hasColour hq hb, luma_of_eqvGen hconverts]
    · have hinside' : ¬ (x < q.width.toNat ∧ y < q.height.toNat) := h.width ▸ h.height ▸ hinside
      rw [luma_eq_none hp hinside, luma_eq_none hq hinside']
  have hdraw := drawWithin_congr hview hluma
  refine ⟨fun x hx y hy => ?_, hluma, ?_, hdraw⟩
  · obtain ⟨a, ha⟩ := exists_colour hp hx hy
    rw [luma_of_hasColour hp ha]
    rfl
  · have hframe : p.frame = q.frame := by rw [Picture.frame, Picture.frame, hview]
    rw [Picture.draw, Picture.draw, hframe, hdraw]

theorem luma_of_isClearAt (hp : HoldsImage p) (h : IsClearAt p x y) : p.luma x y = some 255 := by
  obtain ⟨format, alpha, hformat, halpha, hsample, hclear⟩ := h
  have hchannel : format.channels - 1 < format.channels := by
    cases format <;> exact Nat.lt_succ_self _
  obtain ⟨a, ha, rfl, rfl⟩ := exists_colour_of_sample hp hformat hchannel hsample
  rw [luma_of_hasColour hp ha, luma_of_clear halpha (scaled_clear hclear)]

theorem luma_of_grey {depth : Depth} {v : UInt16} (hp : HoldsImage p)
    (hformat : p.format = some (.luminance depth)) (hdepth : depth.bits ≤ 8)
    (hsample : p.sample x y 0 = some v) : ∃ luma, p.luma x y = some luma ∧
      luma.toNat = v.toNat * 255 / (depth.levels - 1) := by
  obtain ⟨a, ha, hgrey, rfl⟩ := exists_colour_of_sample hp hformat Nat.one_pos hsample
  have hscaled := toNat_scaled (a := a) (c := 0) (by rwa [hgrey]) (by rw [hgrey]; exact Nat.one_pos)
  refine ⟨a.luma, luma_of_hasColour hp ha, ?_⟩
  simp only [hgrey] at hscaled
  simp only [Colour.luma, hgrey]
  exact hscaled

/-- Images that are conversions of one another look the same, whichever formats they have. Grey of
up to a byte is shown as what it is in all brightnesses from 0 to 255, and a pixel whose alpha is
zero as the paper. -/
theorem luma_ignores_format :
    (∀ p q, IsDecoded p → IsDecoded q → IsConversion p q → LooksLike p q) ∧
      (∀ p x y depth v, IsDecoded p → p.format = some (.luminance depth) → depth.bits ≤ 8 →
        p.sample x y 0 = some v →
        ∃ luma, p.luma x y = some luma ∧ luma.toNat = v.toNat * 255 / (depth.levels - 1)) ∧
      ∀ p x y, IsDecoded p → IsClearAt p x y → p.luma x y = some 255 := by
  refine ⟨fun p q hp hq => ?_, fun p x y depth v hp => ?_, fun p x y hp => ?_⟩
  · exact looksLike_of_isConversion (holdsImage_of_isDecoded hp) (holdsImage_of_isDecoded hq)
  · exact luma_of_grey (holdsImage_of_isDecoded hp)
  · exact luma_of_isClearAt (holdsImage_of_isDecoded hp)

section

variable (v : UInt8)

def greyByte : Colour :=
  ⟨.luminance .eight, fun _ => v.toUInt16, fun _ _ => v.toNat_lt⟩

def greyColour : Colour :=
  ⟨.rgb .eight, fun _ => v.toUInt16, fun _ _ => v.toNat_lt⟩

def coveredColour : Colour where
  format := .rgba .eight
  sample c := if c = 3 then 255 else v.toUInt16
  inRange c _ := by
    split
    · decide
    · exact v.toNat_lt

end

theorem eqvGen_of_bit {v : UInt8} (ha : a.format = .luminance .one) (hb : b.format = .rgba .sixteen)
    (hbit : (a.sample 0).toNat * 255 = v.toNat)
    (hcolour : ∀ c < 4, (b.sample c).toNat / 256 = ((coveredColour v).sample c).toNat) :
    Relation.EqvGen Converts a b := by
  have hstretched : Converts a (greyByte v) := by
    refine .stretched (by rw [ha]; decide) rfl (by rw [ha]; rfl) fun c hc => ?_
    rw [ha] at hc ⊢
    obtain rfl : c = 0 := Nat.lt_one_iff.mp hc
    exact hbit.symm.trans (Nat.div_one _).symm
  have hspread : Converts (greyByte v) (greyColour v) :=
    .spreadGrey .eight rfl rfl fun _ _ => rfl
  have hcovered : Converts (greyColour v) (coveredColour v) := by
    refine .coverColour .eight rfl rfl (fun c hc => ?_) rfl
    exact if_neg (Nat.ne_of_lt hc)
  have hdeepened : Converts (coveredColour v) b :=
    .deepened rfl (by rw [hb]; rfl) (by rw [hb]; rfl) hcolour
  exact ((Relation.EqvGen.rel _ _ hstretched).trans _ _ _ (.rel _ _ hspread)).trans _ _ _
    ((Relation.EqvGen.rel _ _ hcovered).trans _ _ _ (.rel _ _ hdeepened))

def wideLayout : Layout := .ofFormat 3 1 (.rgba .sixteen)

def widePixels : List UInt8 :=
  [255, 1, 255, 2, 255, 3, 255, 4, 0, 5, 0, 6, 0, 7, 255, 8, 255, 9, 255, 10, 255, 11, 255, 12]

def wide : Container.File where
  header := (Ihdr.ofFormat 3 1 (.rgba .sixteen)).toBytes
  headerCrc := 0
  chunks := [⟨Tag.idat, 0 :: widePixels, 0⟩]
  trailer := none
  length_header := rfl
  chunks_fit := by
    intro c hc
    obtain rfl := List.mem_singleton.mp hc
    exact ⟨show 25 < UInt32.size by decide, show Tag.idat ≠ Tag.iend by decide⟩

theorem isDecoded_wide : IsDecoded { layout := some wideLayout, pixels := some widePixels } := by
  have hhead : Container.headOf wide.header = .ok ⟨wideLayout, 33⟩ := rfl
  have hafter : Picture.blank.after [.load Range.copying wide.toBytes] =
      { layout := some wideLayout, pixels := some widePixels } :=
    Range.after_copying hhead (by decide) (by decide) (List.cons_ne_nil 0 widePixels) rfl
  exact ⟨_, hafter.symm, rfl⟩

theorem isConversion_wide :
    IsConversion { layout := some narrowLayout, pixels := some [0xA0] }
      { layout := some wideLayout, pixels := some widePixels } := by
  refine ⟨rfl, rfl, fun x hx y hy => ?_⟩
  obtain ⟨a, ha⟩ := exists_colour (holdsImage_of_isDecoded (isDecoded_threePixels (.inl rfl))) hx hy
  obtain ⟨b, hb⟩ := exists_colour (holdsImage_of_isDecoded isDecoded_wide) hx hy
  obtain rfl : y = 0 := Nat.lt_one_iff.mp hy
  have hnarrow : a.format = .luminance .one := (Option.some.inj ha.1).symm
  have hwide : b.format = .rgba .sixteen := (Option.some.inj hb.1).symm
  have hbits : ∀ x < 3, (Picture.sample { layout := some narrowLayout, pixels := some [0xA0] }
      x 0 0).map (·.toNat * 255) = some (if x = 1 then (0 : UInt8) else 255).toNat := by decide
  have hwords : ∀ x < 3, ∀ c < 4,
      (Picture.sample { layout := some wideLayout, pixels := some widePixels } x 0 c).map
        (·.toNat / 256) = some ((coveredColour (if x = 1 then 0 else 255)).sample c).toNat := by
    decide
  refine ⟨a, b, ha, hb, ?_⟩
  apply eqvGen_of_bit hnarrow hwide (v := if x = 1 then 0 else 255) ?_ fun c hc => ?_
  · have hbit := hbits x hx
    rw [ha.2 0 (by rw [hnarrow]; decide)] at hbit
    exact Option.some.inj hbit
  · have hword := hwords x hx c hc
    rw [hb.2 c (by rw [hwide]; exact hc)] at hword
    exact Option.some.inj hword

theorem luma_ignores_format_wide :
    IsDecoded { layout := some narrowLayout, pixels := some [0xA0] } ∧
      IsDecoded { layout := some wideLayout, pixels := some widePixels } ∧
      IsConversion { layout := some narrowLayout, pixels := some [0xA0] }
        { layout := some wideLayout, pixels := some widePixels } ∧
      Picture.draw { layout := some narrowLayout, pixels := some [0xA0] } =
        Picture.draw { layout := some wideLayout, pixels := some widePixels } ∧
      (∃ luma, Picture.luma { layout := some narrowLayout, pixels := some [0xA0] } 2 0 =
        some luma ∧ luma.toNat = 255) ∧
      IsDecoded Drawing.small ∧ IsClearAt Drawing.small 1 1 ∧
      Drawing.small.luma 1 1 = some 255 := by
  have hnarrow := isDecoded_threePixels (.inl (Eq.refl (0xA0 : UInt8)))
  have hsmall : IsDecoded Drawing.small := ⟨Range.oneImage, Range.after_oneImage.symm, rfl⟩
  have hclear : IsClearAt Drawing.small 1 1 :=
    ⟨.luminanceAlpha .eight, 0, rfl, rfl, by decide, .inl rfl⟩
  obtain ⟨hlooks, hgrey, hpaper⟩ := luma_ignores_format
  exact ⟨hnarrow, isDecoded_wide, isConversion_wide,
    (hlooks _ _ hnarrow isDecoded_wide isConversion_wide).draw,
    hgrey _ 2 0 .one 1 hnarrow rfl (by decide) (by decide), hsmall, hclear,
    hpaper _ 1 1 hsmall hclear⟩

end Png.Proofs.Conversion

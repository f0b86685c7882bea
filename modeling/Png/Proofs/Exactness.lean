import Mathlib.Tactic.Linarith
import Png.Proofs.Luminance

namespace Png.Proofs.Exactness

open Checked Consistency Luminance PixelRange SampleAccess

variable {p q : Picture} {x y c : Nat} {a b : Colour} {depth : Depth}

def scale (depth : Depth) (v : ℤ) : ℤ :=
  match depth with
  | .sixteen => v / 256
  | .eight => v
  | depth => v * 255 / (2 ^ depth.bits - 1)

def grey (r g b : ℤ) : ℤ := (77 * r + 150 * g + 29 * b) / 256

def blend (grey alpha : ℤ) : ℤ := (grey * alpha + 255 * (255 - alpha)) / 255

/-- The brightness that the colour channels have without the paper. -/
def unblended (format : PixelFormat) (sample : Nat → ℤ) : ℤ :=
  match format with
  | .luminance _ | .luminanceAlpha _ => scale format.depth (sample 0)
  | .rgb _ | .rgba _ =>
    grey (scale format.depth (sample 0)) (scale format.depth (sample 1))
      (scale format.depth (sample 2))

def luma (format : PixelFormat) (sample : Nat → ℤ) : ℤ :=
  if format.hasAlpha then
    blend (unblended format sample) (scale format.depth (sample (format.channels - 1)))
  else unblended format sample

def value (a : Colour) (c : Nat) : ℤ := (a.sample c).toNat

def IsAlpha (format : PixelFormat) (c : Nat) : Prop :=
  format.hasAlpha = true ∧ c = format.channels - 1

/-- A pixel of the same format whose colour samples are nowhere lighter, and whose alpha hides no
less of the paper. -/
structure IsNoLighter (a b : Colour) : Prop where
  format : a.format = b.format
  colour : ∀ c < a.format.channels, ¬ IsAlpha a.format c → a.sample c ≤ b.sample c
  alpha : ∀ c < a.format.channels, IsAlpha a.format c → b.sample c ≤ a.sample c

/-- A picture shows a pixel exactly as bright as its samples say. -/
structure ShowsExactly (p : Picture) (x y : Nat) (a : Colour) (v : UInt8) : Prop where
  colour : HasColour p x y a
  luma : p.luma x y = some v
  exact : (v.toNat : ℤ) = Exactness.luma a.format (value a)
  /-- No word on the way is too large, and none is cut down to a byte that is less. -/
  inRange : ofSamples? a.format (fun c => some (some (a.sample c).toNat)) = some (some v.toNat)
  unblended_le : unblended a.format (value a) ≤ v.toNat

theorem ofSamples?_colour (a : Colour) :
    ofSamples? a.format (fun c => some (some (a.sample c).toNat)) = some (some a.luma.toNat) := by
  have hrange : ∀ c < a.format.channels, ∀ v ∈ some (a.sample c),
      v.toNat < a.format.depth.levels := by
    intro c hc v hv
    obtain rfl := Option.mem_some.mp hv
    exact a.inRange c hc
  have hluma : lumaOfSamples a.format (fun c => some (a.sample c)) = some a.luma :=
    lumaOfSamples_eq fun _ _ => rfl
  have hchecked : ofSamples? a.format (fun c => some (some (a.sample c).toNat)) =
      some ((lumaOfSamples a.format fun c => some (a.sample c)).map (·.toNat)) :=
    ofSamples?_eq (fun _ _ => rfl) hrange
  rw [hchecked, hluma]
  rfl

theorem scale_toNat {v : UInt16} (h : v.toNat < depth.levels) :
    scale depth v.toNat = (scaleToByte depth v).toNat := by
  cases depth with
  | sixteen =>
    rw [toNat_scaleToByte_sixteen]
    rfl
  | eight =>
    have hv : v.toNat < 256 := h
    rw [toNat_scaleToByte_eight, Nat.mod_eq_of_lt hv]
    rfl
  | one | two | four =>
    rw [toNat_scaleToByte_narrow (by decide) h]
    rfl

theorem grey_toNat (r g b : UInt8) :
    grey r.toNat g.toNat b.toNat = (brightness r g b).toNat := by
  rw [toNat_brightness, grey]
  omega

theorem blend_toNat (g alpha : UInt8) : blend g.toNat alpha.toNat = (overWhite g alpha).toNat := by
  have halpha : alpha.toNat ≤ 255 := Nat.le_of_lt_succ alpha.toNat_lt
  rw [toNat_overWhite, blend]
  push_cast [halpha]
  rfl

def greyOf (a : Colour) : UInt8 :=
  match a.format with
  | .luminance _ | .luminanceAlpha _ => a.scaled 0
  | .rgb _ | .rgba _ => a.brightness

theorem luma_eq_greyOf (h : a.format.hasAlpha = false) : a.luma = greyOf a := by
  obtain ⟨format, sample, inRange⟩ := a
  cases format with
  | luminance depth | rgb depth => rfl
  | luminanceAlpha depth | rgba depth => cases h

theorem luma_eq_overWhite (h : a.format.hasAlpha = true) :
    a.luma = overWhite (greyOf a) (a.scaled (a.format.channels - 1)) := by
  obtain ⟨format, sample, inRange⟩ := a
  cases format with
  | luminance depth | rgb depth => cases h
  | luminanceAlpha depth | rgba depth => rfl

theorem scale_value (h : c < a.format.channels) :
    scale a.format.depth (value a c) = (a.scaled c).toNat :=
  scale_toNat (a.inRange c h)

theorem unblended_value (a : Colour) : unblended a.format (value a) = (greyOf a).toNat := by
  obtain ⟨format, sample, inRange⟩ := a
  cases format with
  | luminance depth | luminanceAlpha depth => exact scale_toNat (inRange 0 (Nat.succ_pos _))
  | rgb depth | rgba depth =>
    have hscaled : ∀ c < 3, scale depth.toDepth (sample c).toNat =
        (scaleToByte depth.toDepth (sample c)).toNat := fun c hc =>
      scale_toNat (inRange c (Nat.lt_of_lt_of_le hc (by simp [PixelFormat.channels])))
    rw [unblended, value, value, value, PixelFormat.depth, hscaled 0 (by decide),
      hscaled 1 (by decide), hscaled 2 (by decide)]
    exact grey_toNat _ _ _

theorem luma_value (a : Colour) : luma a.format (value a) = a.luma.toNat := by
  have hpos := channels_pos a.format
  rw [luma, unblended_value]
  by_cases halpha : a.format.hasAlpha = true
  · rw [if_pos halpha, scale_value (by omega), blend_toNat, luma_eq_overWhite halpha]
  · rw [if_neg halpha, luma_eq_greyOf (Bool.eq_false_of_not_eq_true halpha)]

theorem scale_mono (depth : Depth) {v w : ℤ} (h : v ≤ w) : scale depth v ≤ scale depth w := by
  cases depth with
  | sixteen => exact Int.ediv_le_ediv (by decide) h
  | eight => exact h
  | one | two | four =>
    exact Int.ediv_le_ediv (by decide) (Int.mul_le_mul_of_nonneg_right h (by decide))

theorem grey_mono {r g b r' g' b' : ℤ} (hr : r ≤ r') (hg : g ≤ g') (hb : b ≤ b') :
    grey r g b ≤ grey r' g' b' := by
  apply Int.ediv_le_ediv (by decide)
  omega

theorem blend_mono {g g' alpha alpha' : ℤ} (hg : g ≤ g') (hg' : g' ≤ 255) (halpha : alpha' ≤ alpha)
    (halpha' : 0 ≤ alpha') : blend g alpha ≤ blend g' alpha' := by
  -- What is missing to white gets less with more grey and with less alpha.
  have hmissing : alpha' * (255 - g') ≤ alpha * (255 - g) :=
    mul_le_mul halpha (by omega) (by omega) (by omega)
  apply Int.ediv_le_ediv (by decide)
  linarith

theorem le_blend {g alpha : ℤ} (hg : g ≤ 255) (halpha : alpha ≤ 255) : g ≤ blend g alpha := by
  have hpaper : 0 ≤ (255 - g) * (255 - alpha) := mul_nonneg (by omega) (by omega)
  apply Int.le_ediv_of_mul_le (by decide)
  linarith

theorem toNat_le_white {v : UInt8} : (v.toNat : ℤ) ≤ 255 := by
  have hv := v.toNat_lt
  omega

theorem greyOf_le_luma (a : Colour) : ((greyOf a).toNat : ℤ) ≤ a.luma.toNat := by
  by_cases halpha : a.format.hasAlpha = true
  · rw [luma_eq_overWhite halpha, ← blend_toNat]
    exact le_blend toNat_le_white toNat_le_white
  · rw [luma_eq_greyOf (Bool.eq_false_of_not_eq_true halpha)]

theorem showsExactly (h : HoldsImage p) (ha : HasColour p x y a) :
    ShowsExactly p x y a a.luma where
  colour := ha
  luma := luma_of_hasColour h ha
  exact := (luma_value a).symm
  inRange := ofSamples?_colour a
  unblended_le := by
    rw [unblended_value]
    exact greyOf_le_luma a

section

variable (h : IsNoLighter a b)

include h

theorem scaled_le (hc : c < a.format.channels) (hcolour : ¬ IsAlpha a.format c) :
    scale a.format.depth (value a c) ≤ scale b.format.depth (value b c) := by
  have hsample : (a.sample c).toNat ≤ (b.sample c).toNat :=
    UInt16.le_iff_toNat_le.mp (h.colour c hc hcolour)
  rw [← h.format]
  exact scale_mono _ (Int.ofNat_le.mpr hsample)

theorem alpha_le (halpha : a.format.hasAlpha = true) :
    scale b.format.depth (value b (b.format.channels - 1)) ≤
      scale a.format.depth (value a (a.format.channels - 1)) := by
  have hpos := channels_pos a.format
  have hsample : (b.sample (a.format.channels - 1)).toNat ≤
      (a.sample (a.format.channels - 1)).toNat :=
    UInt16.le_iff_toNat_le.mp (h.alpha _ (by omega) ⟨halpha, rfl⟩)
  rw [← h.format]
  exact scale_mono _ (Int.ofNat_le.mpr hsample)

theorem unblended_le : unblended a.format (value a) ≤ unblended b.format (value b) := by
  have hscaled : ∀ c < a.format.channels, ¬ IsAlpha a.format c →
      scale a.format.depth (value a c) ≤ scale a.format.depth (value b c) := fun c hc hcolour =>
    (scaled_le h hc hcolour).trans_eq (by rw [h.format])
  rw [← h.format]
  generalize a.format = format at hscaled ⊢
  cases format with
  | luminance depth => exact hscaled 0 Nat.one_pos (by simp [IsAlpha, PixelFormat.hasAlpha])
  | luminanceAlpha depth =>
    exact hscaled 0 Nat.two_pos (by simp [IsAlpha, PixelFormat.channels])
  | rgb depth =>
    have hcolour : ∀ c < 3, scale depth.toDepth (value a c) ≤ scale depth.toDepth (value b c) :=
      fun c hc => hscaled c hc fun halpha => Bool.noConfusion halpha.1
    exact grey_mono (hcolour 0 (by decide)) (hcolour 1 (by decide)) (hcolour 2 (by decide))
  | rgba depth =>
    have hcolour : ∀ c < 3, scale depth.toDepth (value a c) ≤ scale depth.toDepth (value b c) :=
      fun c hc => hscaled c (Nat.lt_succ_of_lt hc) fun halpha => Nat.ne_of_lt hc halpha.2
    exact grey_mono (hcolour 0 (by decide)) (hcolour 1 (by decide)) (hcolour 2 (by decide))

theorem luma_le : a.luma ≤ b.luma := by
  rw [UInt8.le_iff_toNat_le, ← Int.ofNat_le, ← luma_value, ← luma_value, luma, luma]
  have hunblended := unblended_le h
  by_cases halpha : a.format.hasAlpha = true
  · have halpha' : b.format.hasAlpha = true := h.format ▸ halpha
    have hpos := channels_pos b.format
    rw [if_pos halpha, if_pos halpha']
    apply blend_mono hunblended _ (alpha_le h halpha)
    · rw [scale_value (by omega)]
      exact Int.natCast_nonneg _
    · rw [unblended_value]
      exact toNat_le_white
  · have halpha' : ¬ b.format.hasAlpha = true := h.format ▸ halpha
    rw [if_neg halpha, if_neg halpha']
    exact hunblended

end

/-- Every pixel of an image is exactly as bright as its samples say, and no darker than its colour
is without the paper. Of two pixels of one format, the one with lighter colours and no more alpha is
no darker. -/
theorem luma_exact_and_ordered :
    (∀ p x y, IsDecoded p → x < p.width.toNat → y < p.height.toNat →
      ∃ a v, ShowsExactly p x y a v) ∧
    ∀ p q x y a b, IsDecoded p → IsDecoded q → HasColour p x y a → HasColour q x y b →
      IsNoLighter a b → ∃ v w, p.luma x y = some v ∧ q.luma x y = some w ∧ v ≤ w := by
  constructor
  · intro p x y h hx hy
    have hholds := holdsImage_of_isDecoded h
    obtain ⟨a, ha⟩ := exists_colour hholds hx hy
    exact ⟨a, a.luma, showsExactly hholds ha⟩
  · intro p q x y a b hp hq ha hb h
    exact ⟨a.luma, b.luma, luma_of_hasColour (holdsImage_of_isDecoded hp) ha,
      luma_of_hasColour (holdsImage_of_isDecoded hq) hb, luma_le h⟩

section

variable (v alpha : UInt8)

def deepLayout : Layout := .ofFormat 1 1 (.rgba .sixteen)

def deepBytes : List UInt8 := [v, 0, v, 0, v, 0, alpha, 0]

def deep : Picture := { layout := some deepLayout, pixels := some (deepBytes v alpha) }

def deepFile : Container.File where
  header := (Ihdr.ofFormat 1 1 (.rgba .sixteen)).toBytes
  headerCrc := 0
  chunks := [⟨Tag.idat, 0 :: deepBytes v alpha, 0⟩]
  trailer := none
  length_header := rfl
  chunks_fit := by
    intro c hc
    obtain rfl := List.mem_singleton.mp hc
    exact ⟨show 9 < UInt32.size by decide, show Tag.idat ≠ Tag.iend by decide⟩

def deepColour : Colour where
  format := .rgba .sixteen
  sample c := 256 * (if c = 3 then alpha else v).toUInt16
  inRange _ _ := UInt16.toNat_lt _

end

theorem isDecoded_deep {v alpha : UInt8} (h : v = 10 ∧ alpha = 200 ∨ v = 30 ∧ alpha = 100) :
    IsDecoded (deep v alpha) := by
  have hhead : Container.headOf (deepFile v alpha).header = .ok ⟨deepLayout, 33⟩ := rfl
  have hdata : (deepFile v alpha).imageData ≠ [] := List.cons_ne_nil 0 (deepBytes v alpha)
  have hafter : Picture.blank.after [.load Range.copying (deepFile v alpha).toBytes] =
      deep v alpha := by
    apply Range.after_copying hhead (by decide) (by decide) hdata
    obtain ⟨rfl, rfl⟩ | ⟨rfl, rfl⟩ := h <;> rfl
  exact ⟨_, hafter.symm, rfl⟩

theorem luma_exact_and_ordered_deep :
    (∃ a, ShowsExactly (deep 10 200) 0 0 a 62) ∧
      HasColour (deep 10 200) 0 0 (deepColour 10 200) ∧
      HasColour (deep 30 100) 0 0 (deepColour 30 100) ∧
      IsNoLighter (deepColour 10 200) (deepColour 30 100) ∧
      ∃ v w, (deep 10 200).luma 0 0 = some v ∧ (deep 30 100).luma 0 0 = some w ∧ v ≤ w := by
  have hdecoded : IsDecoded (deep 10 200) := isDecoded_deep (.inl ⟨rfl, rfl⟩)
  have hdecoded' : IsDecoded (deep 30 100) := isDecoded_deep (.inr ⟨rfl, rfl⟩)
  have hcolour : HasColour (deep 10 200) 0 0 (deepColour 10 200) := ⟨rfl, by decide⟩
  have hcolour' : HasColour (deep 30 100) 0 0 (deepColour 30 100) := ⟨rfl, by decide⟩
  have hlighter : IsNoLighter (deepColour 10 200) (deepColour 30 100) :=
    ⟨rfl, by unfold IsAlpha; decide, by unfold IsAlpha; decide⟩
  obtain ⟨hexact, hordered⟩ := luma_exact_and_ordered
  obtain ⟨a, v, hshows⟩ := hexact _ 0 0 hdecoded Nat.one_pos Nat.one_pos
  have hluma : (deep 10 200).luma 0 0 = some 62 := by decide
  obtain rfl : v = 62 := Option.some.inj (hshows.luma.symm.trans hluma)
  exact ⟨⟨a, hshows⟩, hcolour, hcolour', hlighter,
    hordered _ _ 0 0 _ _ hdecoded hdecoded' hcolour hcolour' hlighter⟩

end Png.Proofs.Exactness

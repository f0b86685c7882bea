import Png.BigEndian
import Png.Picture

namespace Png

/-- One channel of one pixel in a row, which is packed from the most significant bit of each byte
down. -/
def packedSample (row : List UInt8) (format : PixelFormat) (x channel : Nat) : Option UInt16 :=
  let depth := format.bitDepth
  let bit := (x * format.channels + channel) * depth
  let byte := bit / 8
  match format.depth with
  | .sixteen => do
    let high ← row[byte]?
    let low ← row[byte + 1]?
    some (UInt16.ofNat (BigEndian.value [high, low]))
  | .eight => row[byte]?.map (·.toUInt16)
  | _ => row[byte]?.map fun b =>
    UInt16.ofNat ((b.toNat >>> (8 - depth - bit % 8)) % format.depth.levels)

/-- A sample on the scale from 0 to 255. Of 16 bits the high byte is kept. -/
def scaleToByte (depth : Depth) (v : UInt16) : UInt8 :=
  match depth with
  | .sixteen => (v >>> 8).toUInt8
  | .eight => v.toUInt8
  | depth => (v * 255 / UInt16.ofNat (depth.levels - 1)).toUInt8

theorem toNat_scaleToByte_narrow {depth : Depth} (hdepth : depth.bits < 8) {v : UInt16}
    (hv : v.toNat < depth.levels) :
    (scaleToByte depth v).toNat = v.toNat * 255 / (depth.levels - 1) := by
  cases depth with
  | sixteen | eight => exact absurd hdepth (by decide)
  | one | two | four =>
    simp only [Depth.levels] at hv
    simp only [scaleToByte, Depth.levels, UInt16.toNat_toUInt8, UInt16.toNat_div, UInt16.toNat_mul,
      UInt16.toNat_ofNat', UInt16.reduceToNat, Nat.reduceSub, Nat.reducePow, Nat.reduceMod]
    simp (disch := omega) only [Nat.mod_eq_of_lt]

theorem toNat_scaleToByte_eight (v : UInt16) : (scaleToByte .eight v).toNat = v.toNat % 256 :=
  UInt16.toNat_toUInt8 v

theorem toNat_scaleToByte_sixteen (v : UInt16) :
    (scaleToByte .sixteen v).toNat = v.toNat / 256 := by
  have hv := v.toNat_lt
  simp only [scaleToByte, UInt16.toNat_toUInt8, UInt16.toNat_shiftRight, UInt16.reduceToNat,
    Nat.reduceMod, Nat.shiftRight_eq_div_pow, Nat.reducePow]
  omega

def brightness (r g b : UInt8) : UInt8 :=
  ((r.toUInt16 * 77 + g.toUInt16 * 150 + b.toUInt16 * 29) >>> 8).toUInt8

theorem toNat_brightness (r g b : UInt8) : (brightness r g b).toNat =
    (r.toNat * 77 + g.toNat * 150 + b.toNat * 29) / 256 := by
  have hr := r.toNat_lt
  have hg := g.toNat_lt
  have hb := b.toNat_lt
  simp only [brightness, UInt16.toNat_toUInt8, UInt16.toNat_shiftRight, UInt16.toNat_add,
    UInt16.toNat_mul, UInt8.toNat_toUInt16, UInt16.reduceToNat, Nat.reduceMod,
    Nat.shiftRight_eq_div_pow, Nat.reducePow]
  simp (disch := omega) only [Nat.mod_eq_of_lt]

def overWhite (grey alpha : UInt8) : UInt8 :=
  ((grey.toUInt16 * alpha.toUInt16 + 255 * (255 - alpha.toUInt16)) / 255).toUInt8

theorem seen_le (grey alpha : UInt8) : grey.toNat * alpha.toNat ≤ 255 * alpha.toNat :=
  Nat.mul_le_mul_right _ (Nat.le_of_lt_succ grey.toNat_lt)

theorem toNat_overWhite (grey alpha : UInt8) : (overWhite grey alpha).toNat =
    (grey.toNat * alpha.toNat + 255 * (255 - alpha.toNat)) / 255 := by
  have halpha := alpha.toNat_lt
  have hseen := seen_le grey alpha
  have hrest : (65536 - alpha.toNat + 255) % 65536 = 255 - alpha.toNat := by omega
  simp only [overWhite, UInt16.toNat_toUInt8, UInt16.toNat_div, UInt16.toNat_add,
    UInt16.toNat_mul, UInt16.toNat_sub, UInt8.toNat_toUInt16, UInt16.reduceToNat, Nat.reducePow,
    hrest]
  simp (disch := omega) only [Nat.mod_eq_of_lt]

def lumaOfSamples (format : PixelFormat) (sample : Nat → Option UInt16) : Option UInt8 := do
  let channel (c : Nat) := (sample c).map (scaleToByte format.depth)
  match format with
  | .luminance _ => channel 0
  | .luminanceAlpha _ => some (overWhite (← channel 0) (← channel 1))
  | .rgb _ => some (brightness (← channel 0) (← channel 1) (← channel 2))
  | .rgba _ =>
    some (overWhite (brightness (← channel 0) (← channel 1) (← channel 2)) (← channel 3))

def packedLuma (row : List UInt8) (format : PixelFormat) (x : Nat) : Option UInt8 :=
  lumaOfSamples format (packedSample row format x)

namespace Picture

def sampleOf (p : Picture) (row : Option (List UInt8)) (x channel : Nat) : Option UInt16 := do
  let l ← p.layout
  if x < l.width.toNat ∧ channel < l.format.channels then
    packedSample (← row) l.format x channel
  else none

def lumaOf (p : Picture) (row : Option (List UInt8)) (x : Nat) : Option UInt8 := do
  let l ← p.layout
  if x < l.width.toNat then packedLuma (← row) l.format x else none

def sample (p : Picture) (x y channel : Nat) : Option UInt16 :=
  p.sampleOf (p.row y) x channel

def luma (p : Picture) (x y : Nat) : Option UInt8 :=
  p.lumaOf (p.row y) x

end Picture

end Png

namespace Png

inductive Depth where
  | one
  | two
  | four
  | eight
  | sixteen
  deriving DecidableEq, Repr

namespace Depth

def bits : Depth → Nat
  | one => 1
  | two => 2
  | four => 4
  | eight => 8
  | sixteen => 16

def levels : Depth → Nat
  | one => 2
  | two => 4
  | four => 16
  | eight => 256
  | sixteen => 65536

def ofBits? : UInt8 → Option Depth
  | 1 => some one
  | 2 => some two
  | 4 => some four
  | 8 => some eight
  | 16 => some sixteen
  | _ => none

theorem bits_of_ofBits? {b : UInt8} {depth : Depth} (h : ofBits? b = some depth) :
    depth.bits = b.toNat := by
  unfold ofBits? at h
  split at h <;> cases h <;> rfl

end Depth

/-- Bits per sample of a colour image. -/
inductive WideDepth where
  | eight
  | sixteen
  deriving DecidableEq, Repr

namespace WideDepth

def toDepth : WideDepth → Depth
  | eight => .eight
  | sixteen => .sixteen

def ofBits? : UInt8 → Option WideDepth
  | 8 => some eight
  | 16 => some sixteen
  | _ => none

theorem bits_of_ofBits? {b : UInt8} {depth : WideDepth} (h : ofBits? b = some depth) :
    depth.toDepth.bits = b.toNat := by
  unfold ofBits? at h
  split at h <;> cases h <;> rfl

end WideDepth

inductive PixelFormat where
  | luminance (depth : Depth)
  | luminanceAlpha (depth : Depth)
  | rgb (depth : WideDepth)
  | rgba (depth : WideDepth)
  deriving DecidableEq, Repr

namespace PixelFormat

def ofHeader? (colorType bitDepth : UInt8) : Option PixelFormat :=
  match colorType with
  | 0 => (Depth.ofBits? bitDepth).map luminance
  | 2 => (WideDepth.ofBits? bitDepth).map rgb
  | 4 => (Depth.ofBits? bitDepth).map luminanceAlpha
  | 6 => (WideDepth.ofBits? bitDepth).map rgba
  | _ => none

def colorType : PixelFormat → UInt8
  | luminance _ => 0
  | rgb _ => 2
  | luminanceAlpha _ => 4
  | rgba _ => 6

def depth : PixelFormat → Depth
  | luminance d | luminanceAlpha d => d
  | rgb d | rgba d => d.toDepth

def channels : PixelFormat → Nat
  | luminance _ => 1
  | luminanceAlpha _ => 2
  | rgb _ => 3
  | rgba _ => 4

def bitDepth (f : PixelFormat) : Nat := f.depth.bits

def hasAlpha : PixelFormat → Bool
  | luminanceAlpha _ | rgba _ => true
  | luminance _ | rgb _ => false

def bitsPerPixel (f : PixelFormat) : Nat := f.bitDepth * f.channels

def bytesPerPixel (f : PixelFormat) : Nat := (f.bitsPerPixel + 7) / 8

def name (f : PixelFormat) : String :=
  let model := match f with
    | luminance _ => "Luminance"
    | luminanceAlpha _ => "LuminanceAlpha"
    | rgb _ => "Rgb"
    | rgba _ => "Rgba"
  model ++ toString f.bitDepth

def all : List PixelFormat :=
  let depths := [Depth.one, .two, .four, .eight, .sixteen]
  let wide := [WideDepth.eight, .sixteen]
  depths.map luminance ++ wide.map rgb ++ depths.map luminanceAlpha ++ wide.map rgba

theorem mem_all (f : PixelFormat) : f ∈ all := by
  cases f <;> rename_i d <;> cases d <;> decide

/-- There are few enough formats to look at each of them. -/
theorem forall_of_all {P : PixelFormat → Prop} (h : ∀ f ∈ all, P f) : ∀ f, P f :=
  fun f => h f (mem_all f)

theorem ofHeader?_colorType :
    ∀ f : PixelFormat, ofHeader? f.colorType (UInt8.ofNat f.bitDepth) = some f :=
  forall_of_all (by decide)

theorem ofHeader?_eq_some_iff {colorType bitDepth : UInt8} {format : PixelFormat} :
    ofHeader? colorType bitDepth = some format ↔
      format.colorType = colorType ∧ format.bitDepth = bitDepth.toNat := by
  constructor
  · intro h
    unfold ofHeader? at h
    split at h
    · obtain ⟨depth, hdepth, rfl⟩ := Option.map_eq_some_iff.mp h
      exact ⟨rfl, Depth.bits_of_ofBits? hdepth⟩
    · obtain ⟨depth, hdepth, rfl⟩ := Option.map_eq_some_iff.mp h
      exact ⟨rfl, WideDepth.bits_of_ofBits? hdepth⟩
    · obtain ⟨depth, hdepth, rfl⟩ := Option.map_eq_some_iff.mp h
      exact ⟨rfl, Depth.bits_of_ofBits? hdepth⟩
    · obtain ⟨depth, hdepth, rfl⟩ := Option.map_eq_some_iff.mp h
      exact ⟨rfl, WideDepth.bits_of_ofBits? hdepth⟩
    · cases h
  · rintro ⟨rfl, hdepth⟩
    have hformat := ofHeader?_colorType format
    rwa [hdepth, UInt8.ofNat_toNat] at hformat

end PixelFormat

end Png

import Png.Checked.Access
import Png.Picture.Sample

namespace Png.Checked

open InPlace

def signed? (n : Int) : Option Int :=
  if -0x8000 ≤ n ∧ n < 0x8000 then some n else none

def short? (n : Nat) : Option Nat := below? UInt16.size n

def average? (left above : UInt8) : Option UInt8 := do
  let sum ← short? (left.toNat + above.toNat)
  some (UInt8.ofNat (sum / 2))

def paeth? (left above upperLeft : UInt8) : Option UInt8 := do
  let sum ← signed? (left.toNat + above.toNat)
  let p ← signed? (sum - upperLeft.toNat)
  let pa ← signed? (p - left.toNat)
  let pb ← signed? (p - above.toNat)
  let pc ← signed? (p - upperLeft.toNat)
  some (if pa.natAbs ≤ pb.natAbs ∧ pa.natAbs ≤ pc.natAbs then left
    else if pb.natAbs ≤ pc.natAbs then above
    else upperLeft)

def predict? : FilterType → (left above upperLeft : UInt8) → Option UInt8
  | .average, left, above, _ => average? left above
  | .paeth, left, above, upperLeft => paeth? left above upperLeft
  | f, left, above, upperLeft => some (f.predict left above upperLeft)

/-- Two steps, the second only if the first finds something. -/
def following {α β : Type} (first : Option (Option α)) (second : α → Option (Option β)) :
    Option (Option β) := do
  match ← first with
  | none => some none
  | some a => second a

def row? (p : Picture) (y : Nat) : Option (Option (List UInt8)) :=
  if y < p.height.toNat then do
    let stride := p.stride
    let start ← Size.mul? y stride
    match p.pixels with
    | none => some none
    | some pixels => do
      let last ← Size.add? start stride
      some (if last ≤ pixels.length then some ((pixels.drop start).take stride) else none)
  else some none

def wideSample? (row : List UInt8) (byte : Nat) : Option (Option UInt16) :=
  following (some row[byte]?) fun high => do
    let next ← Size.add? byte 1
    some (row[next]?.map fun low => UInt16.ofNat (BigEndian.value [high, low]))

def narrowSample? (row : List UInt8) (depth bit : Nat) : Option (Option UInt16) := do
  let room ← subtract? 8 depth
  let shift ← subtract? room (bit % 8)
  let shift ← below? 8 shift
  let width ← below? 8 depth
  let mask ← subtract? (1 <<< width) 1
  some (row[bit / 8]?.map fun b => UInt16.ofNat ((b.toNat >>> shift) &&& mask))

def packedSample? (row : List UInt8) (format : PixelFormat) (x channel : Nat) :
    Option (Option UInt16) := do
  let first ← Size.mul? x format.channels
  let place ← Size.add? first channel
  let bit ← Size.mul? place format.bitDepth
  match format.depth with
  | .sixteen => wideSample? row (bit / 8)
  | .eight => some (row[bit / 8]?.map (·.toUInt16))
  | depth => narrowSample? row depth.bits bit

def byte? (n : Nat) : Option Nat := below? UInt8.size n

def scaled? (depth : Depth) (v : Nat) : Option Nat :=
  match depth with
  | .sixteen => byte? (v / 256)
  | .eight => byte? v
  | depth => do
    let width ← below? 16 depth.bits
    let most ← subtract? (1 <<< width) 1
    let product ← short? (v * 255)
    if most = 0 then none else byte? (product / most)

def weighted? (r g b : Nat) : Option Nat := do
  let red ← short? (r * 77)
  let green ← short? (g * 150)
  let blue ← short? (b * 29)
  let both ← short? (red + green)
  let sum ← short? (both + blue)
  byte? (sum / 256)

def blended? (grey alpha : Nat) : Option Nat := do
  let seen ← short? (grey * alpha)
  let rest ← subtract? 255 alpha
  let paper ← short? (255 * rest)
  let sum ← short? (seen + paper)
  byte? (sum / 255)

def channel? (depth : Depth) (sample : Nat → Option (Option Nat)) (c : Nat) :
    Option (Option Nat) :=
  following (sample c) fun v => (scaled? depth v).map some

def colour? (depth : Depth) (sample : Nat → Option (Option Nat)) : Option (Option Nat) :=
  following (channel? depth sample 0) fun r =>
    following (channel? depth sample 1) fun g =>
      following (channel? depth sample 2) fun b => (weighted? r g b).map some

def seenThrough? (grey alpha : Option (Option Nat)) : Option (Option Nat) :=
  following grey fun g => following alpha fun a => (blended? g a).map some

/-- The brightness of a pixel from its samples, of which some may be missing. Words have sixteen
bits, and no word that is cut down to a byte is more than one. -/
def ofSamples? (format : PixelFormat) (sample : Nat → Option (Option Nat)) :
    Option (Option Nat) :=
  match format with
  | .luminance depth => channel? depth sample 0
  | .luminanceAlpha depth => seenThrough? (channel? depth sample 0) (channel? depth sample 1)
  | .rgb depth => colour? depth.toDepth sample
  | .rgba depth =>
    seenThrough? (colour? depth.toDepth sample) (channel? depth.toDepth sample 3)

def packedLuma? (row : List UInt8) (format : PixelFormat) (x : Nat) : Option (Option UInt8) := do
  let luma ← ofSamples? format fun c => (packedSample? row format x c).map (Option.map (·.toNat))
  some (luma.map UInt8.ofNat)

def sample? (p : Picture) (x y channel : Nat) : Option (Option UInt16) :=
  match p.layout with
  | none => some none
  | some l =>
    if x < l.width.toNat ∧ channel < l.format.channels then
      following (row? p y) fun row => packedSample? row l.format x channel
    else some none

def luma? (p : Picture) (x y : Nat) : Option (Option UInt8) :=
  match p.layout with
  | none => some none
  | some l =>
    if x < l.width.toNat then following (row? p y) fun row => packedLuma? row l.format x
    else some none

end Png.Checked

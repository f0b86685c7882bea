import Png.Filter
import Png.Format

namespace Png

/-- The bits of a pixel, format by format. -/
def PixelFormat.bitSize : PixelFormat → Nat
  | luminance .one => 1
  | luminance .two => 2
  | luminance .four => 4
  | luminance .eight => 8
  | luminance .sixteen => 16
  | luminanceAlpha .one => 2
  | luminanceAlpha .two => 4
  | luminanceAlpha .four => 8
  | luminanceAlpha .eight => 16
  | luminanceAlpha .sixteen => 32
  | rgb .eight => 24
  | rgb .sixteen => 48
  | rgba .eight => 32
  | rgba .sixteen => 64

/-- The one of two bytes that is nearer to an estimate, and of equally near ones the first. -/
def nearer (estimate : Int) (v w : UInt8) : UInt8 :=
  if (estimate - w.toNat).natAbs < (estimate - v.toNat).natAbs then w else v

/-- What an encoder expects a byte to be. Nothing here is taken from the code that undoes the
filters. -/
def expected : FilterType → (left above upperLeft : UInt8) → UInt8
  | .none, _, _, _ => 0
  | .sub, left, _, _ => left
  | .up, _, above, _ => above
  | .average, left, above, _ => UInt8.ofNat ((left.toNat + above.toNat) / 2)
  | .paeth, left, above, upperLeft =>
    let estimate := (left.toNat : Int) + above.toNat - upperLeft.toNat
    nearer estimate (nearer estimate left above) upperLeft

/-- What remains of a row below another. Bytes outside the image count as zero. -/
def residualRow (f : FilterType) (row above : List UInt8) (distance : Nat) : List UInt8 :=
  let outside := List.replicate distance 0
  (List.range row.length).map fun i =>
    row.getD i 0 - expected f ((outside ++ row).getD i 0) (above.getD i 0)
      ((outside ++ above).getD i 0)

def residualRows (stride distance : Nat) (above : List UInt8) :
    List FilterType → List UInt8 → List UInt8
  | [], _ => []
  | f :: filters, pixels =>
    let row := pixels.take stride
    f.toByte :: residualRow f row above distance ++
      residualRows stride distance row filters (pixels.drop stride)

/-- The filtered rows of an image, from its pixels and one filter a row. -/
def residual (width : UInt32) (format : PixelFormat) (filters : List FilterType)
    (pixels : List UInt8) : List UInt8 :=
  let stride := (width.toNat * format.bitSize + 7) / 8
  let distance := (format.bitSize + 7) / 8
  residualRows stride distance [] filters pixels

end Png

import Png.Format
import Png.Size

namespace Png

/-- What a header says of an image. The two pixel sizes belong to the format, but they are fields
of their own, and all lengths follow the fields. -/
structure Layout where
  width : UInt32
  height : UInt32
  format : PixelFormat
  bitsPerPixel : UInt32
  bytesPerPixel : UInt32
  deriving DecidableEq, Repr

namespace Layout

def ofFormat (width height : UInt32) (format : PixelFormat) : Layout where
  width
  height
  format
  bitsPerPixel := UInt32.ofNat format.bitsPerPixel
  bytesPerPixel := UInt32.ofNat format.bytesPerPixel

def stride? (l : Layout) : Option Nat := do
  let bits ← Size.mul? l.width.toNat l.bitsPerPixel.toNat
  some ((bits + 7) / 8)

def filteredSize? (l : Layout) : Option Nat := do
  let stride ← l.stride?
  let line ← Size.add? stride 1
  Size.mul? line l.height.toNat

def pixelSize? (l : Layout) : Option Nat := do
  let stride ← l.stride?
  Size.mul? stride l.height.toNat

def pixelCount (l : Layout) : UInt64 :=
  l.width.toUInt64 * l.height.toUInt64

def summary (l : Layout) : String :=
  let bits := l.format.bitsPerPixel
  s!"png: {l.width}x{l.height} {l.format.name} ({bits} bpp)"

end Layout

end Png

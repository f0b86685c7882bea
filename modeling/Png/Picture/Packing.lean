import Png.Layout

namespace Png

namespace Packing

/-- The lowest `n` bits of a number, the highest of them first. -/
def bits (n v : Nat) : List Bool :=
  (List.range n).reverse.map v.testBit

def number (bits : List Bool) : Nat :=
  bits.foldl (fun n b => 2 * n + b.toNat) 0

def bitsOf (bytes : List UInt8) : List Bool :=
  bytes.flatMap fun b => bits 8 b.toNat

def bytesOf (bits : List Bool) : List UInt8 :=
  (List.range (bits.length / 8)).map fun i => UInt8.ofNat (number ((bits.drop (i * 8)).take 8))

/-- Bits of a row with as many behind them as the last byte has room for. -/
def padded (bits : List Bool) (padding : Nat → Bool) : List Bool :=
  bits ++ (List.range ((8 - bits.length % 8) % 8)).map padding

def rowBits (format : PixelFormat) (width : Nat) (row : Nat → Nat → UInt16) : List Bool :=
  (List.range width).flatMap fun x => (List.range format.channels).flatMap fun channel =>
    bits format.bitDepth (row x channel).toNat

/-- The bits of a row that belong to pixels. Any behind them only fill its last byte. -/
def pixelBits (format : PixelFormat) (width : Nat) (row : List UInt8) : List Bool :=
  (bitsOf row).take (width * format.bitsPerPixel)

@[simp] theorem length_bits (n v : Nat) : (bits n v).length = n := by
  simp [bits]

@[simp] theorem length_bytesOf (bits : List Bool) : (bytesOf bits).length = bits.length / 8 := by
  simp [bytesOf]

theorem length_padded (bits : List Bool) (padding : Nat → Bool) :
    (padded bits padding).length = (bits.length + 7) / 8 * 8 := by
  rw [padded, List.length_append, List.length_map, List.length_range]
  omega

end Packing

/-- The pixels of an image whose samples are `table y x channel`. Behind the samples of row `y` come
the bits `padding y`. -/
def Layout.pack (l : Layout) (table : Nat → Nat → Nat → UInt16) (padding : Nat → Nat → Bool) :
    List UInt8 :=
  (List.range l.height.toNat).flatMap fun y =>
    Packing.bytesOf (Packing.padded (Packing.rowBits l.format l.width.toNat (table y)) (padding y))

end Png

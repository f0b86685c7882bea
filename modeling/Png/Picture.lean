import Png.Decoder

namespace Png

structure Picture where
  layout : Option Layout := none
  pixels : Option (List UInt8) := none
  error : Option DecodeError := none
  deriving DecidableEq, Repr

namespace Picture

def blank : Picture := {}

def clear (p : Picture) : Picture :=
  { p with layout := none, pixels := none }

def fail (p : Picture) (e : DecodeError) : Picture :=
  { p with pixels := none, error := some e }

def status (p : Picture) : Except DecodeError Unit :=
  match p.error with
  | none => .ok ()
  | some e => .error e

def probe (p : Picture) (data : List UInt8) : Except DecodeError Layout × Picture :=
  let p := p.clear
  match Layout.ofBytes data with
  | .ok l => (.ok l, { p with layout := some l, error := none })
  | .error failure => (.error failure.error, p.fail failure.error)

/-- Take over what a decode found. The layout stays even if the decode failed after it. -/
def adopt (p : Picture) (r : Run) : Picture :=
  let p := { p.clear with layout := r.layout }
  match r.result with
  | .ok pixels => { p with pixels := some pixels, error := none }
  | .error failure => p.fail failure.error

def load (p : Picture) (dec : Decoder) (data : List UInt8) : Except DecodeError Unit × Picture :=
  let p := p.adopt (dec.run data)
  (p.status, p)

def width (p : Picture) : UInt32 := p.layout.elim 0 (·.width)

def height (p : Picture) : UInt32 := p.layout.elim 0 (·.height)

def format (p : Picture) : Option PixelFormat := p.layout.map (·.format)

def bitDepth (p : Picture) : Nat := p.layout.elim 0 (·.format.bitDepth)

def channels (p : Picture) : Nat := p.layout.elim 0 (·.format.channels)

def bitsPerPixel (p : Picture) : UInt32 := p.layout.elim 0 (·.bitsPerPixel)

def bytesPerPixel (p : Picture) : UInt32 := p.layout.elim 0 (·.bytesPerPixel)

def stride (p : Picture) : Nat := (p.layout.bind (·.stride?)).getD 0

def size (p : Picture) : Nat := p.pixels.elim 0 (·.length)

def isDecoded (p : Picture) : Bool := p.pixels.isSome

def row (p : Picture) (y : Nat) : Option (List UInt8) :=
  if y < p.height.toNat then
    match p.pixels with
    | none => none
    | some pixels =>
      let stride := p.stride
      if y * stride + stride ≤ pixels.length then some ((pixels.drop (y * stride)).take stride)
      else none
  else none

end Picture

def Decoder.decode (dec : Decoder) (data : List UInt8) : Except DecodeError Picture :=
  match Picture.blank.load dec data with
  | (.ok (), p) => .ok p
  | (.error e, _) => .error e

def decode (data : List UInt8) : Except DecodeError Picture :=
  Decoder.decode {} data

end Png

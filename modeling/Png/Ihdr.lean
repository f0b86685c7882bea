import Png.BigEndian
import Png.Failure
import Png.Layout

namespace Png

structure Ihdr where
  width : UInt32
  height : UInt32
  bitDepth : UInt8
  colorType : UInt8
  compression : UInt8
  filter : UInt8
  interlace : UInt8
  deriving DecidableEq, Repr

namespace Ihdr

def ofBytes? : List UInt8 → Option Ihdr
  | [w₃, w₂, w₁, w₀, h₃, h₂, h₁, h₀, bitDepth, colorType, compression, filter, interlace] =>
    some { width := BigEndian.word [w₃, w₂, w₁, w₀]
           height := BigEndian.word [h₃, h₂, h₁, h₀]
           bitDepth, colorType, compression, filter, interlace }
  | _ => none

def toBytes (h : Ihdr) : List UInt8 :=
  BigEndian.ofWord h.width ++ BigEndian.ofWord h.height ++
    [h.bitDepth, h.colorType, h.compression, h.filter, h.interlace]

def ofFormat (width height : UInt32) (format : PixelFormat) : Ihdr where
  width
  height
  bitDepth := UInt8.ofNat format.bitDepth
  colorType := format.colorType
  compression := 0
  filter := 0
  interlace := 0

/-- The image described, if the fields are sound and the image is handled. Interlacing is looked
at before the colour type. -/
def layout (h : Ihdr) : Except Failure Layout :=
  if h.width = 0 ∨ h.height = 0 then
    .error (.zeroDimensions h.width h.height)
  else if h.compression ≠ 0 ∨ h.filter ≠ 0 then
    .error (.unknownMethods h.compression h.filter)
  else if h.interlace = 1 then
    .error .adam7
  else if h.interlace ≠ 0 then
    .error (.unknownInterlace h.interlace)
  else if h.colorType = 3 then
    .error .palette
  else
    match PixelFormat.ofHeader? h.colorType h.bitDepth with
    | none => .error (.unlistedFormat h.colorType h.bitDepth)
    | some format => .ok (.ofFormat h.width h.height format)

end Ihdr

end Png

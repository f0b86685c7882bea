import Png.Error
import Png.Memory

namespace Png

/-- What exactly went wrong. Several causes share one `DecodeError`. -/
inductive Failure where
  | zeroBudget
  | badSignature
  | noChunks
  | trailingBytes (left position : Nat)
  | chunkOverrun (length : UInt32) (position : Nat)
  | notIhdr
  | zeroDimensions (width height : UInt32)
  | unknownMethods (compression filter : UInt8)
  | adam7
  | unknownInterlace (method : UInt8)
  | palette
  | unlistedFormat (colorType bitDepth : UInt8)
  | overBudget (width height : UInt32) (maxPixels : UInt64)
  | sizeOverflow
  | refused (allocation : Allocation)
  | noImageData (chunks : Nat)
  | inflate (cause : InflateError)
  | wrongCount (produced expected : Nat)
  | wrongLength (length expected : Nat)
  | unknownFilter (tag : UInt8) (row : Nat)
  | shortRowAbove (row : Nat)
  deriving DecidableEq, Repr

namespace Failure

def error : Failure → DecodeError
  | zeroBudget => .invalidArgument
  | badSignature => .notAPng
  | noChunks | notIhdr | zeroDimensions _ _ | unknownMethods _ _ | unknownInterlace _ =>
    .malformed .headerParse
  | trailingBytes _ _ | chunkOverrun _ _ | noImageData _ => .malformed .chunkScan
  | adam7 => .unsupportedInterlace
  | palette | unlistedFormat _ _ => .unsupportedFormat
  | overBudget _ _ _ | sizeOverflow | refused _ | inflate .outOfMemory => .outOfMemory
  | inflate _ | wrongCount _ _ => .malformed .decompress
  | wrongLength _ _ | unknownFilter _ _ | shortRowAbove _ => .malformed .defilter

def detail : Failure → Option String
  | noChunks => some "png: no chunks after signature"
  | trailingBytes left position => some s!"png: {left} trailing bytes at {position}"
  | chunkOverrun length position =>
    some s!"png: chunk length {length} at {position} overruns buffer"
  | zeroDimensions width height => some s!"png: zero dimensions {width}x{height}"
  | unknownMethods compression filter =>
    some s!"png: bad methods compression={compression} filter={filter}"
  | palette => some "png: palette image rejected"
  | overBudget width height maxPixels =>
    some s!"png: {width}x{height} exceeds pixel limit {maxPixels}"
  | noImageData chunks => some s!"png: no IDAT data ({chunks} chunks)"
  | inflate cause => some ("png: " ++ cause.message)
  | wrongCount produced expected => some s!"png: inflated {produced} bytes, expected {expected}"
  | wrongLength length expected => some s!"png: raw length {length} != expected {expected}"
  | unknownFilter tag row => some s!"png: bad filter type {tag} on row {row}"
  | zeroBudget | badSignature | notIhdr | adam7 | unknownInterlace _ | unlistedFormat _ _
  | sizeOverflow | refused _ | shortRowAbove _ => none

end Failure

end Png

namespace Png

inductive Stage where
  | signatureCheck
  | headerParse
  | chunkScan
  | decompress
  | defilter
  deriving DecidableEq, Repr

namespace Stage

def text : Stage → String
  | signatureCheck => "signature check"
  | headerParse => "header parse"
  | chunkScan => "chunk scan"
  | decompress => "decompress"
  | defilter => "defilter"

end Stage

/-- Why an image was refused. The two unsupported cases stand for what this decoder does not
handle. -/
inductive DecodeError where
  | notAPng
  | malformed (stage : Stage)
  | unsupportedFormat
  | unsupportedInterlace
  | outOfMemory
  | invalidArgument
  deriving DecidableEq, Repr

namespace DecodeError

def message : DecodeError → String
  | notAPng => "png: invalid signature"
  | malformed stage => "png: malformed data during " ++ stage.text
  | unsupportedFormat => "png: unsupported colour type / bit depth"
  | unsupportedInterlace => "png: interlaced PNGs not supported"
  | outOfMemory => "png: out of memory"
  | invalidArgument => "png: invalid argument"

def stage : DecodeError → Option Stage
  | notAPng => some .signatureCheck
  | malformed stage => some stage
  | unsupportedFormat | unsupportedInterlace => some .headerParse
  | outOfMemory | invalidArgument => none

def isMalformed : DecodeError → Bool
  | notAPng | malformed _ => true
  | _ => false

def isUnsupported : DecodeError → Bool
  | unsupportedFormat | unsupportedInterlace => true
  | _ => false

end DecodeError

inductive InflateError where
  | corrupt
  | truncated
  | outputOverflow
  | outOfMemory
  deriving DecidableEq, Repr

namespace InflateError

def message : InflateError → String
  | corrupt => "inflate: corrupt stream"
  | truncated => "inflate: truncated stream"
  | outputOverflow => "inflate: output buffer too small"
  | outOfMemory => "inflate: out of memory"

end InflateError

end Png

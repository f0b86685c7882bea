import Png.Chunk.Walk
import Png.Ihdr

namespace Png

/-- The image described at the head of a file, and the offset of the chunk after it. -/
structure Head where
  layout : Layout
  next : Nat
  deriving DecidableEq, Repr

/-- The fields of a chunk that is an IHDR chunk of the right length. -/
def Chunk.ihdr? (c : Chunk) (data : List UInt8) : Option Ihdr :=
  if c.tag = Tag.ihdr then Ihdr.ofBytes? (c.payload data) else none

def Head.ofBytes (data : List UInt8) : Except Failure Head :=
  if data.take signature.length ≠ signature then
    .error .badSignature
  else
    match (Walk.behindSignature data).next with
    | (none, _) => .error .noChunks
    | (some (.error failure), _) => .error failure
    | (some (.ok chunk), rest) =>
      match chunk.ihdr? data with
      | none => .error .notIhdr
      | some ihdr =>
        match ihdr.layout with
        | .error failure => .error failure
        | .ok layout => .ok { layout, next := rest.position }

def Layout.ofBytes (data : List UInt8) : Except Failure Layout :=
  (Head.ofBytes data).map (·.layout)

end Png

import Png.Chunk.Walk

namespace Png

structure Datastream where
  parts : List (List UInt8)
  deriving DecidableEq, Repr

namespace Datastream

def bytes (s : Datastream) : List UInt8 := s.parts.flatten

/-- The IDAT payloads among the items of a walk. The first item that is no chunk ends the search,
and so does memory refused to a payload that has bytes. -/
def ofItems (memory : Memory) (data : List UInt8) :
    List (Except Failure Chunk) → Except Failure Datastream
  | [] => .ok ⟨[]⟩
  | .error failure :: _ => .error failure
  | .ok chunk :: items =>
    if chunk.tag = Tag.idat then
      let part := chunk.payload data
      if part ≠ [] ∧ ¬ memory.grants .datastream then
        .error (.refused .datastream)
      else
        (ofItems memory data items).map fun s => ⟨part :: s.parts⟩
    else
      ofItems memory data items

def find (memory : Memory) (data : List UInt8) (offset : Nat) : Except Failure Datastream :=
  match ofItems memory data (Walk.startingAt data offset).items with
  | .error failure => .error failure
  | .ok stream =>
    if stream.bytes = [] then .error (.noImageData stream.parts.length) else .ok stream

def summary (s : Datastream) : String :=
  let chunks := s.parts.length
  let length := s.bytes.length
  s!"png: {chunks} IDAT chunks, {length} bytes"

end Datastream

end Png

import Png.Chunk

namespace Png

/-- A chunk with its payload, apart from any buffer. -/
structure Chunk.Content where
  tag : Tag
  payload : List UInt8
  crc : UInt32
  deriving DecidableEq, Repr

namespace Chunk.Content

/-- The bytes of a chunk. A payload of `2 ^ 32` bytes or more does not fit its length field. -/
def toBytes (c : Content) : List UInt8 :=
  BigEndian.ofWord (UInt32.ofNat c.payload.length) ++ c.tag.toList ++ c.payload ++
    BigEndian.ofWord c.crc

def serialise (chunks : List Content) : List UInt8 :=
  chunks.flatMap toBytes

@[simp] theorem length_toBytes (c : Content) :
    c.toBytes.length = c.payload.length + overhead := by
  simp only [toBytes, List.length_append, BigEndian.length_ofWord, Tag.length_toList, overhead]
  omega

theorem length_toBytes_pos (c : Content) : 0 < c.toBytes.length := by
  rw [length_toBytes]
  exact Nat.succ_pos _

theorem serialise_cons_append (c : Content) (chunks : List Content) (rest : List UInt8) :
    serialise (c :: chunks) ++ rest = c.toBytes ++ (serialise chunks ++ rest) := by
  simp only [serialise, List.flatMap_cons, List.append_assoc]

end Chunk.Content

end Png

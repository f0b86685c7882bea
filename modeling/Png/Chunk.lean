import Png.BigEndian

namespace Png

def signature : List UInt8 := [137, 80, 78, 71, 13, 10, 26, 10]

structure Tag where
  a : UInt8
  b : UInt8
  c : UInt8
  d : UInt8
  deriving DecidableEq, Repr

namespace Tag

def toList (t : Tag) : List UInt8 := [t.a, t.b, t.c, t.d]

def ofBytes : List UInt8 → Tag
  | a :: b :: c :: d :: _ => ⟨a, b, c, d⟩
  | _ => ⟨0, 0, 0, 0⟩

def ihdr : Tag := ⟨'I'.toUInt8, 'H'.toUInt8, 'D'.toUInt8, 'R'.toUInt8⟩

def idat : Tag := ⟨'I'.toUInt8, 'D'.toUInt8, 'A'.toUInt8, 'T'.toUInt8⟩

def iend : Tag := ⟨'I'.toUInt8, 'E'.toUInt8, 'N'.toUInt8, 'D'.toUInt8⟩

@[simp] theorem length_toList (t : Tag) : t.toList.length = 4 := rfl

@[simp] theorem ofBytes_toList (t : Tag) (rest : List UInt8) : ofBytes (t.toList ++ rest) = t := rfl

theorem toList_ofBytes {bytes : List UInt8} (h : 4 ≤ bytes.length) :
    (ofBytes bytes).toList = bytes.take 4 := by
  match bytes, h with
  | _ :: _ :: _ :: _ :: _, _ => rfl

end Tag

/-- A chunk found in a buffer. Its payload stays there and begins at `start`, and its checksum is
not verified. -/
structure Chunk where
  tag : Tag
  length : UInt32
  start : Nat
  crc : UInt32
  deriving DecidableEq, Repr

namespace Chunk

/-- The bytes around a payload: length, tag and checksum. -/
def overhead : Nat := 12

def payload (c : Chunk) (data : List UInt8) : List UInt8 :=
  (data.drop c.start).take c.length.toNat

end Chunk

end Png

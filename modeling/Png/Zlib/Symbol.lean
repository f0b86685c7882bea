import Png.Zlib.Code

namespace Png.Zlib

/-- A byte, the end of the block, or bytes to be repeated from `distance` places back. -/
inductive Symbol where
  | literal (byte : UInt8)
  | endOfBlock
  | copy (length distance : Nat)
  deriving DecidableEq, Repr

structure Codes where
  literals : Code
  distances : Code

def Codes.fixed : Codes where
  literals := .ofLengths (List.replicate 144 8 ++ List.replicate 112 9 ++
    List.replicate 24 7 ++ List.replicate 8 8)
  distances := .ofLengths (List.replicate 32 5)

def lengthTable : Array (Nat × Nat) :=
  #[(3, 0), (4, 0), (5, 0), (6, 0), (7, 0), (8, 0), (9, 0), (10, 0),
    (11, 1), (13, 1), (15, 1), (17, 1), (19, 2), (23, 2), (27, 2), (31, 2),
    (35, 3), (43, 3), (51, 3), (59, 3), (67, 4), (83, 4), (99, 4), (115, 4),
    (131, 5), (163, 5), (195, 5), (227, 5), (258, 0)]

def distanceTable : Array (Nat × Nat) :=
  #[(1, 0), (2, 0), (3, 0), (4, 0), (5, 1), (7, 1), (9, 2), (13, 2),
    (17, 3), (25, 3), (33, 4), (49, 4), (65, 5), (97, 5), (129, 6), (193, 6),
    (257, 7), (385, 7), (513, 8), (769, 8), (1025, 9), (1537, 9), (2049, 10), (3073, 10),
    (4097, 11), (6145, 11), (8193, 12), (12289, 12), (16385, 13), (24577, 13)]

def readEntry (table : Array (Nat × Nat)) (index : Nat) : Reader Nat :=
  match table[index]? with
  | none => .fail .corrupt
  | some (least, extra) => do
    let more ← readBits extra
    return least + more

def readSymbol (codes : Codes) : Reader Symbol := do
  let symbol ← codes.literals.read
  if symbol < 256 then return .literal (UInt8.ofNat symbol)
  else if symbol = 256 then return .endOfBlock
  else
    let length ← readEntry lengthTable (symbol - 257)
    let index ← codes.distances.read
    let distance ← readEntry distanceTable index
    return .copy length distance

theorem takes_readEntry (table : Array (Nat × Nat)) (index : Nat) :
    (readEntry table index).Takes 0 := by
  unfold readEntry
  split
  · exact Reader.takes_fail 0 _
  · exact ((takes_readBits _).mono (Nat.zero_le _)).bind_left fun _ => Reader.takes_pure _

theorem takes_readSymbol (codes : Codes) : (readSymbol codes).Takes 1 := by
  refine codes.literals.takes_read.bind_left fun symbol => ?_
  refine .ite (Reader.takes_pure _) (.ite (Reader.takes_pure _) ?_)
  exact (takes_readEntry _ _).bind_left fun _ =>
    (codes.distances.takes_read.mono (Nat.zero_le _)).bind_left fun _ =>
      (takes_readEntry _ _).bind_left fun _ => Reader.takes_pure _

def emit (room : Nat) (out : Array UInt8) (b : UInt8) : Except InflateError (Array UInt8) :=
  if out.size < room then .ok (out.push b) else .error .outputOverflow

/-- Repeat bytes of the output one at a time, so that a copy may overlap itself. -/
def emitCopy (room distance : Nat) : Nat → Array UInt8 → Except InflateError (Array UInt8)
  | 0, out => .ok out
  | n + 1, out => do
    let out ← emit room out (out.getD (out.size - distance) 0)
    emitCopy room distance n out

/-- What a symbol adds to the output. A copy may not reach back beyond its start. -/
def Symbol.write (room : Nat) (out : Array UInt8) : Symbol → Except InflateError (Array UInt8)
  | literal b => emit room out b
  | endOfBlock => .ok out
  | copy length distance =>
    if distance ≤ out.size then emitCopy room distance length out else .error .corrupt

end Png.Zlib

import Png.Zlib.Bits

namespace Png.Zlib

/-- The codewords that begin with the same bits. At a `gap` no codeword begins so. -/
inductive Codewords where
  | gap
  | symbol (symbol : Nat)
  | fork (zero one : Codewords)
  deriving DecidableEq, Repr

namespace Codewords

def read : Codewords → Reader Nat
  | gap => .fail .corrupt
  | symbol s => pure s
  | fork zero one => do
    let bit ← readBit
    if bit then one.read else zero.read

/-- Join neighbours under the bit before them. One that is left over is joined to a gap. -/
def pairUp : List Codewords → List Codewords
  | zero :: one :: rest => fork zero one :: pairUp rest
  | [zero] => [fork zero gap]
  | [] => []

theorem takes_read (w : Codewords) : w.read.Takes 0 := by
  induction w with
  | gap => exact Reader.takes_fail 0 _
  | symbol s => exact Reader.takes_pure s
  | fork zero one ih₀ ih₁ =>
    exact (takes_readBit.mono (Nat.zero_le _)).bind_left fun _ => .ite ih₁ ih₀

end Codewords

structure Code where
  zero : Codewords
  one : Codewords
  deriving DecidableEq, Repr

namespace Code

def widths : List Nat := List.range' 1 15

def symbolsOfWidth (lengths : List Nat) (width : Nat) : List Nat :=
  lengths.zipIdx.filterMap fun (length, symbol) => if length = width then some symbol else none

/-- The words of the first width that are codewords or begin longer ones, in their order. -/
def level (lengths : List Nat) : (widths : List Nat) → List Codewords
  | [] => []
  | width :: widths =>
    (symbolsOfWidth lengths width).map .symbol ++ Codewords.pairUp (level lengths widths)

/-- The canonical code with these codeword lengths: shorter codewords come first, and those of one
length follow the order of the symbols. Length 0 is a symbol without a codeword. -/
def ofLengths (lengths : List Nat) : Code :=
  let words := level lengths widths
  { zero := words.getD 0 .gap, one := words.getD 1 .gap }

/-- The whole of all codewords, of which a codeword of `n` bits takes the `2 ^ n`-th part. -/
def whole : Nat := 0x8000

def share : List Nat → Nat
  | [] => 0
  | length :: lengths => (if length = 0 then 0 else whole >>> length) + share lengths

def isComplete (lengths : List Nat) : Bool :=
  share lengths == whole

/-- A code that may be used: complete, or with at most one codeword. -/
def isUsable (lengths : List Nat) : Bool :=
  decide (lengths.countP (· ≠ 0) ≤ 1) || isComplete lengths

def read (c : Code) : Reader Nat := do
  let bit ← readBit
  if bit then c.one.read else c.zero.read

theorem takes_read (c : Code) : c.read.Takes 1 :=
  takes_readBit.bind_left fun _ => .ite c.one.takes_read c.zero.takes_read

end Code

end Png.Zlib

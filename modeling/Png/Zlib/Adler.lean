namespace Png.Zlib

/-- The sum of the bytes and the sum of those sums, each modulo the largest prime below `2 ^ 16`. -/
structure Adler where
  low : Nat := 1
  high : Nat := 0
  deriving DecidableEq, Repr

namespace Adler

def modulus : Nat := 65521

def add (s : Adler) (b : UInt8) : Adler :=
  let low := (s.low + b.toNat) % modulus
  { low, high := (s.high + low) % modulus }

def ofBytes (bytes : List UInt8) : Adler := bytes.foldl add {}

def value (s : Adler) : Nat := 0x10000 * s.high + s.low

end Adler

end Png.Zlib

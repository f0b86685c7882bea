import Png.BigEndian
import Png.Zlib.Adler

namespace Png.Zlib.Stored

def littleEndian (n : Nat) : List UInt8 :=
  [UInt8.ofNat n, UInt8.ofNat (n / 256)]

/-- A block of at most 65535 bytes. The bits that pad its head to a byte are zero. -/
def block (last : Bool) (bytes : List UInt8) : List UInt8 :=
  (if last then 1 else 0) :: littleEndian bytes.length ++
    littleEndian (65535 - bytes.length) ++ bytes

def blocks (earlier : List (List UInt8)) (final : List UInt8) : List UInt8 :=
  earlier.flatMap (block false) ++ block true final

def stream (method flags : UInt8) (earlier : List (List UInt8)) (final : List UInt8)
    (checksum : UInt32) : List UInt8 :=
  method :: flags :: blocks earlier final ++ BigEndian.ofWord checksum

end Png.Zlib.Stored

import Png.BigEndian
import Png.Zlib.Adler
import Png.Zlib.Block

namespace Png.Zlib

def readBlocks (room : Nat) (out : Array UInt8) : Reader (Array UInt8) :=
  fun bits =>
    match _h : readBits 3 bits with
    | .error e => .error e
    | .ok (head, rest) =>
      match _h' : readBlock (head / 2) room out rest with
      | .error e => .error e
      | .ok (out, rest) => if head % 2 = 1 then .ok (out, rest) else readBlocks room out rest
termination_by bits => bits.length
decreasing_by
  have := takes_readBits 3 _h
  have := takes_readBlock (head / 2) room _ _h'
  omega

theorem readBlocks_of_error {bits : Bits} {e : InflateError} (h : readBits 3 bits = .error e)
    (room : Nat) (out : Array UInt8) : readBlocks room out bits = .error e := by
  rw [readBlocks, h]

theorem readBlocks_of_head {bits rest : Bits} {head : Nat} (h : readBits 3 bits = .ok (head, rest))
    (room : Nat) (out : Array UInt8) : readBlocks room out bits =
      (readBlock (head / 2) room out rest).bind fun p =>
        if head % 2 = 1 then .ok p else readBlocks room p.1 p.2 := by
  rw [readBlocks, h]
  dsimp only
  cases readBlock (head / 2) room out rest <;> rfl

def readChecksum : Reader Nat := do
  align
  let bytes ← readMany 8 4
  return BigEndian.value (bytes.map UInt8.ofNat)

def readBody (room : Nat) : Reader (Array UInt8) := do
  let out ← readBlocks room #[]
  let checksum ← readChecksum
  if checksum = (Adler.ofBytes out.toList).value then return out
  else .fail .corrupt

/-- The two bytes of the head are a multiple of 31, name the one known method with a window of at
most 32 KiB, and ask for no dictionary. -/
def isHead (method flags : UInt8) : Bool :=
  (256 * method.toNat + flags.toNat) % 31 == 0 && method.toNat % 16 == 8 &&
    method.toNat / 16 ≤ 7 && !flags.toNat.testBit 5

structure Stream where
  output : List UInt8
  unread : Nat
  deriving DecidableEq, Repr

def inflate (room : Nat) : List UInt8 → Except InflateError Stream
  | method :: flags :: body =>
    if isHead method flags then
      match readBody room (bitsOf body) with
      | .error e => .error e
      | .ok (out, rest) => .ok { output := out.toList, unread := rest.length / 8 }
    else .error .corrupt
  | _ => .error .truncated

end Png.Zlib

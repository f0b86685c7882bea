import Png.Chunk
import Png.Failure

namespace Png

/-- A place in a buffer, and whether the walk is over. -/
structure Walk where
  data : List UInt8
  position : Nat
  ended : Bool := false
  deriving DecidableEq, Repr

namespace Walk

def startingAt (data : List UInt8) (offset : Nat) : Walk :=
  { data, position := offset }

/-- A walk that starts where the signature ends. The signature is not looked at. -/
def behindSignature (data : List UInt8) : Walk :=
  startingAt data signature.length

def stop (w : Walk) : Walk :=
  { w with ended := true }

def chunkAt (bytes : List UInt8) (position : Nat) : Except Failure Chunk :=
  if bytes.length < Chunk.overhead then
    .error (.trailingBytes bytes.length position)
  else
    let length := BigEndian.word bytes
    if bytes.length < length.toNat + Chunk.overhead then
      .error (.chunkOverrun length position)
    else
      .ok { tag := Tag.ofBytes (bytes.drop 4)
            length
            start := position + 8
            crc := BigEndian.word (bytes.drop (8 + length.toNat)) }

/-- The next item of the walk. A chunk that is cut off leaves the position where it is. -/
def next (w : Walk) : Option (Except Failure Chunk) × Walk :=
  if w.ended then (none, w)
  else if w.data.length ≤ w.position then (none, w.stop)
  else
    match chunkAt (w.data.drop w.position) w.position with
    | .error failure => (some (.error failure), w.stop)
    | .ok chunk =>
      (some (.ok chunk), { w with
        position := w.position + chunk.length.toNat + Chunk.overhead
        ended := chunk.tag == Tag.iend })

def remaining (w : Walk) : Nat :=
  if w.ended then 0 else w.data.length + 1 - w.position

theorem remaining_next_lt {w w' : Walk} {item : Except Failure Chunk}
    (h : w.next = (some item, w')) : w'.remaining < w.remaining := by
  unfold next at h
  split at h
  · cases h
  · rename_i hs
    split at h
    · cases h
    · rename_i hp
      split at h
      · cases h
        simp only [remaining, stop, hs, if_true, Bool.false_eq_true, if_false]
        omega
      · cases h
        simp only [remaining, hs, Chunk.overhead, Bool.false_eq_true, if_false]
        split <;> omega

def items (w : Walk) : List (Except Failure Chunk) :=
  match _h : w.next with
  | (none, _) => []
  | (some item, rest) => item :: rest.items
termination_by w.remaining
decreasing_by exact remaining_next_lt _h

def after (w : Walk) : Nat → Walk
  | 0 => w
  | n + 1 => w.next.2.after n

end Walk

end Png

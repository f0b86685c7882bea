import Png.BigEndian
import Png.Filter.InPlace

namespace Png.Checked

open InPlace

/-- No buffer has so many bytes. -/
def bufferLimit : Nat := 0x8000000000000000

/-- The number itself if it is below the limit. Checked steps have no result where a number or an
index is out of range. -/
def below? (limit n : Nat) : Option Nat :=
  if n < limit then some n else none

def slice? (bytes : List UInt8) (first last : Nat) : Option (List UInt8) := do
  let size ← subtract? last first
  if last ≤ bytes.length then some ((bytes.drop first).take size) else none

def byteBehind? (bytes : List UInt8) (i n : Nat) : Option UInt8 := do
  let place ← Size.add? i n
  bytes[place]?

def word? (bytes : List UInt8) (i : Nat) : Option UInt32 := do
  let a ← bytes[i]?
  let b ← byteBehind? bytes i 1
  let c ← byteBehind? bytes i 2
  let d ← byteBehind? bytes i 3
  some (BigEndian.word [a, b, c, d])

theorem bind_of_some {α β : Type} {o : Option α} {a : α} {f : α → Option β} {r : Option β}
    (h : o = some a) (hf : f a = r) : o >>= f = r := by
  rw [h]
  exact hf

theorem below?_of_lt {limit n : Nat} (h : n < limit) : below? limit n = some n := if_pos h

theorem subtract?_of_le {a b : Nat} (h : b ≤ a) : subtract? a b = some (a - b) := if_pos h

theorem slice?_of_le {bytes : List UInt8} {first size : Nat} (h : first + size ≤ bytes.length) :
    slice? bytes first (first + size) = some ((bytes.drop first).take size) := by
  apply bind_of_some (subtract?_of_le (Nat.le_add_right first size))
  rw [Nat.add_sub_cancel_left]
  exact if_pos h

theorem byteBehind?_of_lt {bytes : List UInt8} {i n : Nat} (h : i + n < bytes.length)
    (hbytes : bytes.length ≤ Size.limit) : byteBehind? bytes i n = some bytes[i + n] := by
  apply bind_of_some (Size.add?_of_lt (Nat.lt_of_lt_of_le h hbytes))
  exact List.getElem?_eq_getElem h

theorem take_four {bytes : List UInt8} {i : Nat} (h : i + 4 ≤ bytes.length) :
    (bytes.drop i).take 4 = [bytes[i], bytes[i + 1], bytes[i + 2], bytes[i + 3]] := by
  rw [List.drop_eq_getElem_cons (by omega), List.drop_eq_getElem_cons (by omega),
    List.drop_eq_getElem_cons (by omega), List.drop_eq_getElem_cons (by omega)]
  rfl

theorem word?_of_le {bytes : List UInt8} {i : Nat} (h : i + 4 ≤ bytes.length)
    (hbytes : bytes.length ≤ Size.limit) :
    word? bytes i = some (BigEndian.word (bytes.drop i)) := by
  have hword : BigEndian.word [bytes[i], bytes[i + 1], bytes[i + 2], bytes[i + 3]] =
      BigEndian.word (bytes.drop i) := by
    rw [BigEndian.word, BigEndian.word, take_four h]
    rfl
  rw [← hword]
  apply bind_of_some (List.getElem?_eq_getElem (by omega))
  apply bind_of_some (byteBehind?_of_lt (by omega) hbytes)
  apply bind_of_some (byteBehind?_of_lt (by omega) hbytes)
  apply bind_of_some (byteBehind?_of_lt (by omega) hbytes)
  rfl

end Png.Checked

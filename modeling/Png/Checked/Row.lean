import Png.Checked.Pixel

namespace Png.Checked

open InPlace

def byteBefore? (bytes : List UInt8) (i n : Nat) : Option UInt8 := do
  let place ← subtract? i n
  bytes[place]?

def addAt? (amount? : List UInt8 → Nat → Option UInt8) (row : List UInt8) (i : Nat) :
    Option (List UInt8) := do
  let x ← row[i]?
  let amount ← amount? row i
  some (row.set i (x + amount))

/-- Add to the bytes of a row from index `first` on. Each amount is read from the row as it is by
then. -/
def addFrom? (first : Nat) (amount? : List UInt8 → Nat → Option UInt8) (row : List UInt8) :
    Option (List UInt8) :=
  (List.range' first (row.length - first)).foldlM (addAt? amount?) row

/-- Undo a filter on a row. Each filter has a loop of its own, and most have another one for a row
with none above it, which begins at the first byte that has a left neighbour. -/
def reconstructRow? (f : FilterType) (row : List UInt8) (above : Option (List UInt8))
    (bpp : Nat) : Option (List UInt8) :=
  match f, above with
  | .none, _ => some row
  | .sub, _ => addFrom? bpp (fun row i => byteBefore? row i bpp) row
  | .up, none => some row
  | .up, some above => addFrom? 0 (fun _ i => above[i]?) row
  | .average, none =>
    addFrom? bpp (fun row i => do
      let left ← byteBefore? row i bpp
      some (left / 2)) row
  | .average, some above =>
    addFrom? 0 (fun row i => do
      let left ← neighbour? row i bpp
      let b ← above[i]?
      average? left b) row
  | .paeth, none => addFrom? bpp (fun row i => byteBefore? row i bpp) row
  | .paeth, some above =>
    addFrom? 0 (fun row i => do
      let left ← neighbour? row i bpp
      let b ← above[i]?
      let upperLeft ← neighbour? above i bpp
      paeth? left b upperLeft) row

end Png.Checked

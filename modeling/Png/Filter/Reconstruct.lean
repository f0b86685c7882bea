import Png.Failure
import Png.Filter
import Png.Layout

namespace Png

def reconstructFirst (f : FilterType) (bpp : Nat) (done : List UInt8) : List UInt8 → List UInt8
  | [] => done.reverse
  | x :: row =>
    let left := (x :: done).getD bpp 0
    reconstructFirst f bpp ((x + f.predictFirst left) :: done) row

/-- Undo a filter on a row with the bytes above it. There is no result if those run out. What has
been passed is kept nearest first, so that the byte `bpp` places back is at index `bpp` once the
present byte is put in front. -/
def reconstructBelow (f : FilterType) (bpp : Nat) (done passed : List UInt8) :
    (row above : List UInt8) → Option (List UInt8)
  | [], _ => some done.reverse
  | _ :: _, [] => none
  | x :: row, b :: above =>
    let left := (x :: done).getD bpp 0
    let upperLeft := (b :: passed).getD bpp 0
    reconstructBelow f bpp ((x + f.predict left b upperLeft) :: done) (b :: passed) row above

/-- Undo a filter on a row. The row above is itself already reconstructed, and `bpp` is the distance
of the left neighbour. A filter that looks at the row above needs all of it. -/
def reconstructRow (f : FilterType) (row : List UInt8) (above : Option (List UInt8)) (bpp : Nat) :
    Option (List UInt8) :=
  match above with
  | none => some (reconstructFirst f bpp [] row)
  | some above =>
    if f.readsAbove then reconstructBelow f bpp [] [] row above
    else some (reconstructFirst f bpp [] row)

def reconstructRows (stride bpp : Nat) (done : List (List UInt8)) :
    List UInt8 → Except Failure (List (List UInt8))
  | [] => .ok done.reverse
  | tag :: rest =>
    match FilterType.ofByte? tag with
    | none => .error (.unknownFilter tag done.length)
    | some f =>
      match reconstructRow f (rest.take stride) done.head? bpp with
      | none => .error (.shortRowAbove done.length)
      | some row => reconstructRows stride bpp (row :: done) (rest.drop stride)
termination_by filtered => filtered.length
decreasing_by
  simp only [List.length_drop, List.length_cons]
  omega

def reconstruct (l : Layout) (filtered : List UInt8) : Except Failure (List UInt8) :=
  match l.stride?, l.filteredSize?, l.pixelSize? with
  | some stride, some expected, some _ =>
    if filtered.length ≠ expected then
      .error (.wrongLength filtered.length expected)
    else
      (reconstructRows stride l.bytesPerPixel.toNat [] filtered).map List.flatten
  | _, _, _ => .error .sizeOverflow

end Png

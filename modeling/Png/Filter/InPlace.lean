import Png.Failure
import Png.Filter
import Png.Layout

namespace Png.InPlace

def subtract? (a b : Nat) : Option Nat :=
  if b ≤ a then some (a - b) else none

def splitAt? (bytes : List UInt8) (i : Nat) : Option (List UInt8 × List UInt8) :=
  if i ≤ bytes.length then some (bytes.take i, bytes.drop i) else none

/-- Copy the bytes from `first` up to `last` to another place of the same buffer. The two places may
overlap. -/
def copyWithin? (buffer : List UInt8) (first last target : Nat) : Option (List UInt8) := do
  let size ← subtract? last first
  let limit ← subtract? buffer.length size
  if last ≤ buffer.length ∧ target ≤ limit then
    some (buffer.take target ++ ((buffer.drop first).take size ++ buffer.drop (target + size)))
  else none

/-- The byte `bpp` places before index `i`; zero where a row has none. -/
def neighbour? (bytes : List UInt8) (i bpp : Nat) : Option UInt8 :=
  if i < bpp then some 0 else bytes[i - bpp]?

def unfilterByte (f : FilterType) (bpp : Nat) (above : Option (List UInt8)) (row : List UInt8)
    (i : Nat) : Option (List UInt8) := do
  let x ← row[i]?
  let left ← neighbour? row i bpp
  match above with
  | none => some (row.set i (x + f.predictFirst left))
  | some above =>
    if f.readsAbove then
      let b ← above[i]?
      let upperLeft ← neighbour? above i bpp
      some (row.set i (x + f.predict left b upperLeft))
    else some (row.set i (x + f.predictFirst left))

def unfilterRow (f : FilterType) (bpp : Nat) (above : Option (List UInt8)) (row : List UInt8) :
    Option (List UInt8) :=
  (List.range' 0 row.length).foldlM (unfilterByte f bpp above) row

def rowAbove? (done : List UInt8) (stride y target : Nat) : Option (Option (List UInt8)) :=
  if y = 0 then some none
  else do
    let start ← subtract? target stride
    let (_, above) ← splitAt? done start
    some (some above)

def unfilterLine (stride bpp : Nat) (f : FilterType) (y source : Nat) (buffer : List UInt8) :
    Option (List UInt8) := do
  let target ← Size.mul? y stride
  let first ← Size.add? source 1
  let last ← Size.add? first stride
  let buffer ← copyWithin? buffer first last target
  let (done, rest) ← splitAt? buffer target
  let above ← rowAbove? done stride y target
  let (row, rest) ← splitAt? rest stride
  let row ← unfilterRow f bpp above row
  some (done ++ (row ++ rest))

def unfilterLines (stride bpp : Nat) :
    (count y : Nat) → List UInt8 → Option (Except Failure (List UInt8))
  | 0, _, buffer => some (.ok buffer)
  | count + 1, y, buffer => do
    let line ← Size.add? stride 1
    let source ← Size.mul? y line
    let tag ← buffer[source]?
    match FilterType.ofByte? tag with
    | none => some (.error (.unknownFilter tag y))
    | some f =>
      let buffer ← unfilterLine stride bpp f y source buffer
      unfilterLines stride bpp count (y + 1) buffer

/-- The pixels of an image, in the first part of the buffer of its filtered rows. Row `y` moves `y +
1` places back before its filter is undone, over bytes that are no longer needed, and the row above
is read where it has come to lie. -/
def unfilter (l : Layout) (buffer : List UInt8) : Option (Except Failure (List UInt8)) :=
  match l.stride?, l.filteredSize?, l.pixelSize? with
  | some stride, some expected, some size =>
    if buffer.length ≠ expected then
      some (.error (.wrongLength buffer.length expected))
    else
      (unfilterLines stride l.bytesPerPixel.toNat l.height.toNat 0 buffer).map fun result =>
        result.map (·.take size)
  | _, _, _ => some (.error .sizeOverflow)

end Png.InPlace

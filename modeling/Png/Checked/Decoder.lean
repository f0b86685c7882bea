import Png.Checked.Container
import Png.Picture

namespace Png.Checked

def pixels? (c : Call) (l : Layout) : Option (Except Failure (List UInt8)) :=
  match c.answer with
  | .error cause => some (.error (.inflate cause))
  | .ok inflated =>
    if inflated.produced = c.slice.size then
      InPlace.unfilter l (c.slice.overwrite inflated.written).toList
    else some (.error (.wrongCount inflated.produced c.slice.size))

def runBody? (dec : Decoder) (data : List UInt8) (head : Head) : Option Run := do
  let l := head.layout
  let count ← Size.mul? l.width.toNat l.height.toNat
  if dec.budget.toNat < count then
    some { layout := l, result := .error (.overBudget l.width l.height dec.budget) }
  else
    match l.filteredSize? with
    | none => some { layout := l, result := .error .sizeOverflow }
    | some size => do
      match ← find? dec.memory data head.next with
      | .error failure => some { layout := l, result := .error failure }
      | .ok stream =>
        if size < Memory.limit ∧ dec.memory.grants .rows then do
          let call := dec.inflate stream.bytes size
          let result ← pixels? call l
          some { layout := l, stream, call, result }
        else some { layout := l, stream, result := .error (.refused .rows) }

/-- A decode with every step checked. The filters are undone in the buffer that holds the filtered
rows. -/
def run? (dec : Decoder) (data : List UInt8) : Option Run :=
  if dec.budget = 0 then some { result := .error .zeroBudget }
  else do
    match ← head? data with
    | .error failure => some { result := .error failure }
    | .ok head => runBody? dec data head

def load? (p : Picture) (dec : Decoder) (data : List UInt8) :
    Option (Except DecodeError Unit × Picture) := do
  let r ← run? dec data
  let p := p.adopt r
  some (p.status, p)

end Png.Checked

import Png.Checked.Pixel
import Png.Picture.Draw

namespace Png.Checked

/-- A signed number of 32 bits. -/
def place? (n : Int) : Option Int :=
  if -0x80000000 ≤ n ∧ n < 0x80000000 then some n else none

def index? (n : Int) : Option Nat :=
  if 0 ≤ n then below? UInt32.size n.toNat else none

/-- What a target is given of the pixel at a place of the image, if there is one. -/
def pixel? (p : Picture) (corner place : Int × Int) : Option (Option GreyPixel) := do
  let x ← place? place.1
  let y ← place? place.2
  let column ← index? x
  let row ← index? y
  following (luma? p column row) fun luma => do
    let left ← place? (x - corner.1)
    let top ← place? (y - corner.2)
    some (some ⟨left, top, luma⟩)

def drawWithin? (p : Picture) (area : Rectangle) : Option (List GreyPixel) := do
  let area := area.clip p.viewSize.1 p.viewSize.2
  let places := area.rows.flatMap fun y => area.columns.map fun x => (x, y)
  let pixels ← places.mapM (pixel? p (area.x, area.y))
  some (pixels.filterMap id)

end Png.Checked

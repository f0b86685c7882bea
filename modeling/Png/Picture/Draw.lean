import Png.Picture.Sample

namespace Png

structure Rectangle where
  x : Int
  y : Int
  width : Nat
  height : Nat
  deriving DecidableEq, Repr

namespace Rectangle

def clip (r : Rectangle) (width height : Nat) : Rectangle :=
  let left := max r.x 0
  let top := max r.y 0
  { x := left
    y := top
    width := (min (r.x + r.width) width - left).toNat
    height := (min (r.y + r.height) height - top).toNat }

def columns (r : Rectangle) : List Int :=
  (List.range r.width).map fun (i : Nat) => r.x + i

def rows (r : Rectangle) : List Int :=
  (List.range r.height).map fun (i : Nat) => r.y + i

end Rectangle

structure GreyPixel where
  x : Int
  y : Int
  luma : UInt8
  deriving DecidableEq, Repr

namespace Picture

def viewSize (p : Picture) : Nat × Nat :=
  if p.isDecoded then (p.width.toNat, p.height.toNat) else (0, 0)

/-- The pixels of the part of an image within a rectangle, row by row, moved so that its upper left
corner comes to lie at the origin. -/
def drawWithin (p : Picture) (area : Rectangle) : List GreyPixel :=
  let area := area.clip p.viewSize.1 p.viewSize.2
  area.rows.flatMap fun y =>
    let row := p.row y.toNat
    area.columns.filterMap fun x =>
      (p.lumaOf row x.toNat).map fun luma => ⟨x - area.x, y - area.y, luma⟩

def frame (p : Picture) : Rectangle :=
  ⟨0, 0, p.viewSize.1, p.viewSize.2⟩

def draw (p : Picture) : List GreyPixel :=
  p.drawWithin p.frame

end Picture

end Png

namespace Png

inductive FilterType where
  | none
  | sub
  | up
  | average
  | paeth
  deriving DecidableEq, Repr

namespace FilterType

def ofByte? : UInt8 → Option FilterType
  | 0 => some .none
  | 1 => some .sub
  | 2 => some .up
  | 3 => some .average
  | 4 => some .paeth
  | _ => Option.none

def toByte : FilterType → UInt8
  | .none => 0
  | .sub => 1
  | .up => 2
  | .average => 3
  | .paeth => 4

def name : FilterType → String
  | .none => "None"
  | .sub => "Sub"
  | .up => "Up"
  | .average => "Average"
  | .paeth => "Paeth"

@[simp] theorem ofByte?_toByte (f : FilterType) : ofByte? f.toByte = some f := by
  cases f <;> rfl

def readsAbove : FilterType → Bool
  | .up | .average | .paeth => true
  | .none | .sub => false

end FilterType

/-- Whichever neighbour is nearest to `left + above - upperLeft`. Of equally near ones the first
in the order left, above, upper left is taken. -/
def paeth (left above upperLeft : UInt8) : UInt8 :=
  let a : Int := left.toNat
  let b : Int := above.toNat
  let c : Int := upperLeft.toNat
  let p := a + b - c
  let pa := (p - a).natAbs
  let pb := (p - b).natAbs
  let pc := (p - c).natAbs
  if pa ≤ pb ∧ pa ≤ pc then left
  else if pb ≤ pc then above
  else upperLeft

namespace FilterType

def predict : FilterType → (left above upperLeft : UInt8) → UInt8
  | .none, _, _, _ => 0
  | .sub, left, _, _ => left
  | .up, _, above, _ => above
  | .average, left, above, _ => UInt8.ofNat ((left.toNat + above.toNat) / 2)
  | .paeth, left, above, upperLeft => Png.paeth left above upperLeft

def predictFirst : FilterType → (left : UInt8) → UInt8
  | .none, _ => 0
  | .sub, left => left
  | .up, _ => 0
  | .average, left => left / 2
  | .paeth, left => left

end FilterType

end Png

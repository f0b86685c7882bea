import Png.Proofs.RoundTrip

namespace Png.Proofs.Delivery

open Container Observation RoundTrip Sizes

def callFor (inflater : Inflater) (file : File) (l : Layout) : Call where
  input := file.imageData
  slice := .zeroed (filteredSize l)
  answer := inflater.inflate file.imageData (.zeroed (filteredSize l))

/-- The rows whose filters are undone, if the inflater counts as many bytes as its slice has. -/
def handedOn (c : Call) : Option (List UInt8) :=
  match c.answer with
  | .error _ => none
  | .ok inflated =>
    if inflated.produced = c.slice.size then some (c.slice.overwrite inflated.written).toList
    else none

theorem pixels_of_handedOn {c : Call} {rows : List UInt8} (h : handedOn c = some rows)
    (l : Layout) : c.pixels l = reconstruct l rows := by
  rw [handedOn] at h
  rw [Call.pixels]
  cases hanswer : c.answer with
  | error e =>
    rw [hanswer] at h
    cases h
  | ok inflated =>
    rw [hanswer] at h
    dsimp only at h ⊢
    by_cases hproduced : inflated.produced = c.slice.size
    · rw [if_pos hproduced] at h
      cases h
      exact if_pos hproduced
    · rw [if_neg hproduced] at h
      cases h

theorem pixels_of_not_handedOn {c : Call} (h : handedOn c = none)
    (hmemory : c.answer ≠ .error .outOfMemory) (l : Layout) :
    (c.pixels l).mapError Failure.error = .error (.malformed .decompress) := by
  rw [handedOn] at h
  rw [Call.pixels]
  cases hanswer : c.answer with
  | error e =>
    cases e with
    | outOfMemory => exact absurd hanswer hmemory
    | corrupt | truncated | outputOverflow => rfl
  | ok inflated =>
    rw [hanswer] at h
    dsimp only at h ⊢
    by_cases hproduced : inflated.produced = c.slice.size
    · rw [if_pos hproduced] at h
      cases h
    · rw [if_neg hproduced]
      rfl

section

variable {budget : UInt64} {file : File} {width height : UInt32} {format : PixelFormat}
  (inflater : Inflater) (hwidth : 1 ≤ width.toNat) (hheight : 1 ≤ height.toNat)
  (hheader : file.header = (Ihdr.ofFormat width height format).toBytes)
  (hbudget : width.toNat * height.toNat ≤ budget.toNat)
  (hmemory : filteredSize (.ofFormat width height format) < Memory.limit)
  (hdata : file.imageData ≠ [])

include hwidth hheight hheader hbudget hmemory hdata

theorem observe_file :
    observe (Decoder.run { budget, inflater } file.toBytes) =
      { layout := some (.ofFormat width height format)
        call := some (callFor inflater file (.ofFormat width height format))
        result := ((callFor inflater file (.ofFormat width height format)).pixels
          (.ofFormat width height format)).mapError Failure.error } := by
  have hpositive : budget ≠ 0 := by
    rintro rfl
    have hproduct : 1 * 1 ≤ width.toNat * height.toNat := Nat.mul_le_mul hwidth hheight
    exact absurd (Nat.le_trans hproduct hbudget) (by decide)
  have hhead : headOf file.header = .ok { layout := .ofFormat width height format, next := 33 } :=
    hheader ▸ headOf_ofFormat hwidth hheight format
  have hrun := run_toBytes inflater hpositive hhead hbudget hmemory hdata
  rw [inflate_ample] at hrun
  exact hrun

theorem decode_file :
    Decoder.decode { budget, inflater } file.toBytes =
      (((callFor inflater file (.ofFormat width height format)).pixels
        (.ofFormat width height format)).mapError Failure.error).map fun pixels =>
          ⟨some (.ofFormat width height format), some pixels, none⟩ := by
  rw [decode_eq, observe_file inflater hwidth hheight hheader hbudget hmemory hdata]
  dsimp only
  cases (callFor inflater file (.ofFormat width height format)).pixels
    (.ofFormat width height format) <;> rfl

end

end Png.Proofs.Delivery

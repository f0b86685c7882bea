import Mathlib.Data.List.Basic
import Png.Picture.Draw
import Png.Picture.History
import Png.Proofs.Acceptance
import Png.Proofs.Pieces

namespace Png.Proofs.Consistency

open Acceptance Observation Sizes

variable {p : Picture} {pixels : List UInt8} {stride : Nat}

structure HoldsImage (p : Picture) : Prop where
  layout : ∃ width height format, 1 ≤ width.toNat ∧ 1 ≤ height.toNat ∧
    p.layout = some (.ofFormat width height format)
  error : p.error = none
  one_le_stride : 1 ≤ p.stride
  size_eq : p.size = p.stride * p.height.toNat
  pixelSize : p.layout.bind (·.pixelSize?) = some p.size
  isSome_row : ∀ y, (p.row y).isSome ↔ y < p.height.toNat
  length_row : ∀ y, ∀ row ∈ p.row y, row.length = p.stride
  rows : p.pixels = some ((List.range p.height.toNat).filterMap p.row).flatten

structure ShowsNothing (p : Picture) : Prop where
  row : ∀ y, p.row y = none
  sample : ∀ x y channel, p.sample x y channel = none
  luma : ∀ x y, p.luma x y = none
  viewSize : p.viewSize = (0, 0)

structure IsConsistent (p : Picture) : Prop where
  failed : p.error ≠ none → p.pixels = none ∧ p.size = 0
  decoded : p.isDecoded = true → HoldsImage p
  empty : p.isDecoded = false → ShowsNothing p

theorem row_of_no_pixels (h : p.pixels = none) (y : Nat) : p.row y = none := by
  rw [Picture.row, h]
  split <;> rfl

theorem showsNothing (h : p.pixels = none) : ShowsNothing p where
  row := row_of_no_pixels h
  sample := by
    intro x y channel
    rw [Picture.sample, row_of_no_pixels h, Picture.sampleOf]
    cases p.layout with
    | none => rfl
    | some l =>
      change (if _ then _ else _) = none
      split <;> rfl
  luma := by
    intro x y
    rw [Picture.luma, row_of_no_pixels h, Picture.lumaOf]
    cases p.layout with
    | none => rfl
    | some l =>
      change (if _ then _ else _) = none
      split <;> rfl
  viewSize := by
    rw [Picture.viewSize, Picture.isDecoded, h]
    rfl

theorem isConsistent_of_no_pixels (h : p.pixels = none) : IsConsistent p where
  failed := fun _ => ⟨h, by rw [Picture.size, h]; rfl⟩
  decoded := fun hdecoded => by
    rw [Picture.isDecoded, h] at hdecoded
    cases hdecoded
  empty := fun _ => showsNothing h

theorem stride_of_layout {l : Layout} (h : p.layout = some l) : p.stride = Sizes.stride l := by
  rw [Picture.stride, h]
  exact congrArg (Option.getD · 0) (stride?_eq l)

theorem width_of_layout {l : Layout} (h : p.layout = some l) : p.width = l.width := by
  rw [Picture.width, h]
  rfl

theorem height_of_layout {l : Layout} (h : p.layout = some l) : p.height = l.height := by
  rw [Picture.height, h]
  rfl

theorem row_eq_none {y : Nat} (hy : ¬ y < p.height.toNat) : p.row y = none := by
  rw [Picture.row, if_neg hy]

section

variable (hpixels : p.pixels = some pixels) (hlength : pixels.length = p.stride * p.height.toNat)

include hlength

theorem end_of_row_le {y : Nat} (hy : y < p.height.toNat) :
    y * p.stride + p.stride ≤ pixels.length := by
  have hle : (y + 1) * p.stride ≤ p.height.toNat * p.stride := Nat.mul_le_mul_right _ hy
  rwa [Nat.succ_mul, Nat.mul_comm p.height.toNat, ← hlength] at hle

include hpixels

theorem row_eq {y : Nat} (hy : y < p.height.toNat) :
    p.row y = some ((pixels.drop (y * p.stride)).take p.stride) := by
  rw [Picture.row, if_pos hy, hpixels]
  exact if_pos (end_of_row_le hlength hy)

theorem isSome_row_iff (y : Nat) : (p.row y).isSome ↔ y < p.height.toNat := by
  by_cases hy : y < p.height.toNat
  · rw [row_eq hpixels hlength hy]
    exact iff_of_true rfl hy
  · rw [row_eq_none hy]
    exact iff_of_false (by rintro ⟨⟩) hy

theorem length_of_mem_row {y : Nat} {row : List UInt8} (h : row ∈ p.row y) :
    row.length = p.stride := by
  by_cases hy : y < p.height.toNat
  · have hend := end_of_row_le hlength hy
    rw [row_eq hpixels hlength hy] at h
    obtain rfl := Option.some.inj h
    rw [List.length_take, List.length_drop]
    omega
  · rw [row_eq_none hy] at h
    cases h

theorem flatten_rows : ((List.range p.height.toNat).filterMap p.row).flatten = pixels := by
  have hrows : (List.range p.height.toNat).filterMap p.row =
      (List.range p.height.toNat).map fun y => (pixels.drop (y * p.stride)).take p.stride := by
    apply List.filterMap_eq_map_iff_forall_eq_some.mpr
    intro y hy
    exact row_eq hpixels hlength (List.mem_range.mp hy)
  rw [hrows, ← List.flatMap_def, Pieces.flatMap_pieces, Nat.mul_comm, ← hlength, List.take_length]

end

theorem one_le_stride {width : UInt32} (h : 1 ≤ width.toNat) (height : UInt32)
    (format : PixelFormat) : 1 ≤ Sizes.stride (.ofFormat width height format) := by
  have hbits : 1 * 1 ≤ width.toNat * (Layout.ofFormat width height format).bitsPerPixel.toNat :=
    Nat.mul_le_mul h (bitsPerPixel_pos width height format)
  have hstride : Sizes.stride (.ofFormat width height format) =
    (width.toNat * (Layout.ofFormat width height format).bitsPerPixel.toNat + 7) / 8 := rfl
  omega

theorem holdsImage {width height : UInt32} {format : PixelFormat}
    (hlayout : p.layout = some (.ofFormat width height format)) (hpixels : p.pixels = some pixels)
    (herror : p.error = none) (hwidth : 1 ≤ width.toNat) (hheight : 1 ≤ height.toNat)
    (hmemory : filteredSize (.ofFormat width height format) < Size.limit)
    (hlength : pixels.length = pixelSize (.ofFormat width height format)) : HoldsImage p := by
  have hstride : p.stride = Sizes.stride (.ofFormat width height format) :=
    stride_of_layout hlayout
  have hrows : p.height = height := height_of_layout hlayout
  have hsize : p.size = pixels.length := by
    rw [Picture.size, hpixels]
    rfl
  have hall : pixels.length = p.stride * p.height.toNat := by
    rw [hlength, hstride, hrows]
    rfl
  exact
    { layout := ⟨width, height, format, hwidth, hheight, hlayout⟩
      error := herror
      one_le_stride := hstride ▸ one_le_stride hwidth height format
      size_eq := hsize.trans hall
      pixelSize := by
        rw [hlayout, hsize, hlength]
        exact pixelSize?_of_lt hmemory
      isSome_row := isSome_row_iff hpixels hall
      length_row := fun y row => length_of_mem_row hpixels hall
      rows := by rw [flatten_rows hpixels hall, hpixels] }

theorem probe_fields (p : Picture) (data : List UInt8) :
    errorOf (p.probe data).1 = (p.probe data).2.error ∧ (p.probe data).2.pixels = none := by
  rw [Picture.probe]
  cases Layout.ofBytes data <;> exact ⟨rfl, rfl⟩

theorem isConsistent_load (p : Picture) (dec : Decoder) (data : List UInt8) :
    IsConsistent (p.load dec data).2 := by
  rw [load_eq]
  cases hresult : (dec.run data).result with
  | error failure =>
    rw [observe_of_error hresult]
    exact isConsistent_of_no_pixels rfl
  | ok pixels =>
    obtain ⟨head, stream, inflated, hlayout, haccepts⟩ := run_eq_ok hresult
    obtain ⟨width, height, format, hwidth, hheight, hformat⟩ := exists_ofFormat haccepts.head_eq
    have hlength := haccepts.length_pixels
    have hmemory := Nat.lt_trans haccepts.hasMemory.1 (by decide : Memory.limit < Size.limit)
    rw [hformat] at hlayout hlength hmemory
    rw [observe_of_ok hresult]
    exact
      { failed := fun herror => absurd rfl herror
        decoded := fun _ => holdsImage hlayout rfl rfl hwidth hheight hmemory hlength
        empty := fun hempty => by cases hempty }

theorem errorOf_map {α β : Type} (f : α → β) (result : Except DecodeError α) :
    errorOf (result.map f) = errorOf result := by
  cases result <;> rfl

theorem errorOf_perform (p : Picture) (op : Operation) :
    errorOf (op.perform p).1 = (op.perform p).2.error := by
  cases op with
  | probe data =>
    rw [Operation.perform, errorOf_map]
    exact (probe_fields p data).1
  | load dec data =>
    rw [Operation.perform, errorOf_map, load_eq, errorOf_map]
    rfl

theorem isConsistent_perform (p : Picture) (op : Operation) :
    IsConsistent (op.perform p).2 := by
  cases op with
  | probe data => exact isConsistent_of_no_pixels (probe_fields p data).2
  | load dec data => exact isConsistent_load p dec data

theorem isConsistent_after (h : IsConsistent p) (history : List Operation) :
    IsConsistent (p.after history) := by
  induction history generalizing p with
  | nil => exact h
  | cons op history ih => exact ih (isConsistent_perform p op)

/-- From a blank picture on, each operation answers as the picture then says, and what the picture
says is consistent. -/
theorem consistent_throughout (history : List Operation) (op : Operation) :
    errorOf (op.perform (Picture.blank.after history)).1 =
        (op.perform (Picture.blank.after history)).2.error ∧
      IsConsistent (Picture.blank.after history) ∧
      IsConsistent (op.perform (Picture.blank.after history)).2 := by
  have hblank : IsConsistent Picture.blank := isConsistent_of_no_pixels rfl
  have hhistory := isConsistent_after hblank history
  exact ⟨errorOf_perform _ op, hhistory, isConsistent_perform _ op⟩

end Png.Proofs.Consistency

import Png.Filter.Residual
import Png.Proofs.Reconstruction

namespace Png.Proofs.Residual

open Prediction Rows Sizes Reconstruction

theorem isFirstNearest_singleton (distance : UInt8 → Nat) (v : UInt8) :
    IsFirstNearest distance [v] v :=
  ⟨[], [], rfl, by simp, by simp⟩

/-- One candidate more: it wins only if it is nearer than the first nearest of the others. -/
theorem isFirstNearest_nearer {left above upperLeft v : UInt8} {candidates : List UInt8}
    (h : IsFirstNearest (distance left above upperLeft) candidates v) (w : UInt8) :
    IsFirstNearest (distance left above upperLeft) (candidates ++ [w])
      (nearer ((left.toNat : Int) + above.toNat - upperLeft.toNat) v w) := by
  obtain ⟨before, after, hsplit, hbefore, hafter⟩ := h
  rw [nearer]
  change IsFirstNearest _ _
    (if distance left above upperLeft w < distance left above upperLeft v then w else v)
  by_cases hw : distance left above upperLeft w < distance left above upperLeft v
  · rw [if_pos hw]
    refine ⟨candidates, [], rfl, ?_, by simp⟩
    intro x hx
    rw [hsplit] at hx
    obtain hx | hx := List.mem_append.mp hx
    · exact Nat.lt_trans hw (hbefore x hx)
    · obtain rfl | hx := List.mem_cons.mp hx
      · exact hw
      · exact Nat.lt_of_lt_of_le hw (hafter x hx)
  · rw [if_neg hw]
    refine ⟨before, after ++ [w], by rw [hsplit, List.append_assoc, List.cons_append], hbefore, ?_⟩
    intro x hx
    obtain hx | hx := List.mem_append.mp hx
    · exact hafter x hx
    · obtain rfl := List.mem_singleton.mp hx
      exact Nat.not_lt.mp hw

theorem predicts_expected (f : FilterType) (left above upperLeft : UInt8) :
    Predicts left above upperLeft (expected f left above upperLeft) f := by
  cases f with
  | none | sub | up => rfl
  | average =>
    have hl := left.toNat_lt
    have ha := above.toNat_lt
    exact UInt8.toNat_ofNat_of_lt' (by change _ < 256; omega)
  | paeth =>
    have hfirst := isFirstNearest_singleton (distance left above upperLeft) left
    exact isFirstNearest_nearer (isFirstNearest_nearer hfirst above) upperLeft

theorem expected_eq (f : FilterType) (left above upperLeft : UInt8) :
    expected f left above upperLeft = f.predict left above upperLeft :=
  predicts_iff.mp (predicts_expected f left above upperLeft)

variable {f : FilterType} {bpp stride i : Nat} {row above out : List UInt8}

theorem getD_outside (bytes : List UInt8) (i distance : Nat) :
    (List.replicate distance 0 ++ bytes).getD i 0 = behind bytes i distance := by
  rw [behind]
  by_cases h : i < distance
  · have hi : i < (List.replicate distance (0 : UInt8)).length := by rwa [List.length_replicate]
    rw [if_pos h, List.getD_append _ _ _ _ hi, getD_zeros]
  · have hi : (List.replicate distance (0 : UInt8)).length ≤ i := by
      rw [List.length_replicate]
      exact Nat.not_lt.mp h
    rw [if_neg h, List.getD_append_right _ _ _ _ hi, List.length_replicate]

theorem length_residualRow (f : FilterType) (row above : List UInt8) (bpp : Nat) :
    (residualRow f row above bpp).length = row.length := by
  rw [residualRow, List.length_map, List.length_range]

theorem getElem_residualRow (f : FilterType) (above : List UInt8) (bpp : Nat)
    (hi : i < (residualRow f row above bpp).length) :
    (residualRow f row above bpp)[i] = row.getD i 0 -
      f.predict (behind row i bpp) (above.getD i 0) (behind above i bpp) := by
  simp only [residualRow, List.getElem_map, List.getElem_range, getD_outside, expected_eq]

theorem isRow_residualRow (hbpp : 0 < bpp) (f : FilterType) (row above : List UInt8) :
    IsRow f bpp (residualRow f row above bpp) above row where
  length := (length_residualRow f row above bpp).symm
  bytes := by
    intro i hi
    rw [List.getD_eq_getElem _ _ hi, getElem_residualRow, if_neg (Nat.ne_of_gt hbpp),
      UInt8.sub_add_cancel]

theorem residualRow_of_isRow (hbpp : 0 < bpp) (h : IsRow f bpp row above out) :
    residualRow f out above bpp = row := by
  apply List.ext_getElem ((length_residualRow f out above bpp).trans h.length)
  intro i hi hi'
  rw [getElem_residualRow, h.bytes i hi', if_neg (Nat.ne_of_gt hbpp), UInt8.add_sub_cancel,
    List.getD_eq_getElem _ _ hi']

theorem reconstructRow_residualRow (hbpp : 0 < bpp) (f : FilterType) (row : List UInt8)
    {prior : Option (List UInt8)} (h : ∀ above ∈ prior, row.length ≤ above.length) :
    reconstructRow f (residualRow f row (prior.getD []) bpp) prior bpp = some row := by
  have hlen := length_residualRow f row (prior.getD []) bpp
  obtain ⟨out, hout, hspec⟩ := reconstructRow_isRow f bpp (hlen.symm ▸ h)
  rw [hout, hspec.unique (isRow_residualRow hbpp f row _)]

theorem length_rows_split {n : Nat} {pixels : List UInt8}
    (h : pixels.length = (n + 1) * stride) :
    (pixels.take stride).length = stride ∧ (pixels.drop stride).length = n * stride := by
  rw [Nat.succ_mul] at h
  rw [List.length_take, List.length_drop]
  omega

theorem length_residualRows (bpp : Nat) (above : List UInt8) {filters : List FilterType}
    {pixels : List UInt8} (hlen : pixels.length = filters.length * stride) :
    (residualRows stride bpp above filters pixels).length = filters.length * (stride + 1) := by
  induction filters generalizing above pixels with
  | nil => rw [residualRows, List.length_nil, List.length_nil, Nat.zero_mul]
  | cons f filters ih =>
    obtain ⟨hrow, hrest⟩ := length_rows_split hlen
    rw [residualRows, List.length_append, List.length_cons, length_residualRow, hrow,
      ih (pixels.take stride) hrest, List.length_cons, Nat.succ_mul, Nat.add_comm]

theorem reconstructRows_residualRows (hbpp : 0 < bpp) {done : List (List UInt8)}
    (hdone : ∀ r ∈ done, r.length = stride) {filters : List FilterType} {pixels : List UInt8}
    (hlen : pixels.length = filters.length * stride) :
    (reconstructRows stride bpp done
      (residualRows stride bpp (done.head?.getD []) filters pixels)).map List.flatten =
      .ok (done.reverse.flatten ++ pixels) := by
  -- The rows done are the pixels of the rows before, which the next row was filtered below.
  induction filters generalizing done pixels with
  | nil =>
    have hnil : pixels = [] := List.length_eq_zero_iff.mp (by simpa using hlen)
    rw [hnil, List.append_nil, residualRows, reconstructRows]
    rfl
  | cons f filters ih =>
    obtain ⟨hrow, hrest⟩ := length_rows_split hlen
    have hresidual : (residualRow f (pixels.take stride) (done.head?.getD []) bpp).length =
        stride := by
      rw [length_residualRow, hrow]
    have hrec := reconstructRow_residualRow hbpp f (pixels.take stride) (le_head hrow hdone)
    have ih' := ih (List.forall_mem_cons.mpr ⟨hrow, hdone⟩) hrest
    rw [residualRows, List.cons_append, reconstructRows, FilterType.ofByte?_toByte]
    dsimp only
    rw [List.take_left' hresidual, List.drop_left' hresidual, hrec]
    refine ih'.trans ?_
    rw [List.reverse_cons, List.flatten_append, List.flatten_singleton, List.append_assoc,
      List.take_append_drop]

variable {width height : UInt32} {format : PixelFormat} {filters : List FilterType}
  {pixels : List UInt8}

theorem bitSize_eq : ∀ format : PixelFormat, format.bitSize = format.bitsPerPixel :=
  PixelFormat.forall_of_all (by decide)

theorem toNat_bytesPerPixel (width height : UInt32) (format : PixelFormat) :
    (Layout.ofFormat width height format).bytesPerPixel.toNat = (format.bitsPerPixel + 7) / 8 := by
  have hbits := (bitsPerPixel_bounds format).2
  have hbytes : (format.bitsPerPixel + 7) / 8 ≤ 8 := by omega
  exact UInt32.toNat_ofNat_of_lt' (Nat.lt_of_le_of_lt hbytes (by decide))

theorem bytesPerPixel_pos (width height : UInt32) (format : PixelFormat) :
    0 < (Layout.ofFormat width height format).bytesPerPixel.toNat := by
  have hpos := (bitsPerPixel_bounds format).1
  rw [toNat_bytesPerPixel]
  omega

/-- The rows of an encoder lie as the decoder looks for them. -/
theorem residual_eq (width height : UInt32) (format : PixelFormat) (filters : List FilterType)
    (pixels : List UInt8) :
    residual width format filters pixels =
      residualRows (Sizes.stride (.ofFormat width height format))
        (Layout.ofFormat width height format).bytesPerPixel.toNat [] filters pixels := by
  rw [residual, bitSize_eq, stride_ofFormat, toNat_bytesPerPixel]

theorem length_eq_lines (hfilters : filters.length = height.toNat)
    (hpixels : pixels.length = pixelSize (.ofFormat width height format)) :
    pixels.length = filters.length * Sizes.stride (.ofFormat width height format) := by
  rw [hpixels, hfilters, pixelSize, Nat.mul_comm]
  rfl

theorem length_residual (hfilters : filters.length = height.toNat)
    (hpixels : pixels.length = pixelSize (.ofFormat width height format)) :
    (residual width format filters pixels).length =
      filteredSize (.ofFormat width height format) := by
  rw [residual_eq width height, length_residualRows _ _ (length_eq_lines hfilters hpixels),
    hfilters, filteredSize, Nat.mul_comm]
  rfl

/-- Pixels come back from what is left of them. -/
theorem reconstruct_residual (hsize : filteredSize (.ofFormat width height format) < Size.limit)
    (hfilters : filters.length = height.toNat)
    (hpixels : pixels.length = pixelSize (.ofFormat width height format)) :
    reconstruct (.ofFormat width height format) (residual width format filters pixels) =
      .ok pixels := by
  rw [reconstruct_rows hsize (length_residual hfilters hpixels), residual_eq width height]
  exact reconstructRows_residualRows (bytesPerPixel_pos width height format)
    (List.forall_mem_nil _) (length_eq_lines hfilters hpixels)

end Png.Proofs.Residual

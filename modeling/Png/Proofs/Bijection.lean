import Png.Checked.Access
import Png.Proofs.Residual

namespace Png.Proofs.Bijection

open Checked Reconstruction Residual Rows Sizes

variable {f : FilterType} {bpp stride : Nat} {row above out filtered : List UInt8}
  {done rows : List (List UInt8)} {l : Layout}

/-- The filters that the tags of so many filtered rows stand for. -/
def filtersOf (stride n : Nat) (filtered : List UInt8) : List FilterType :=
  (List.range n).filterMap fun y => FilterType.ofByte? (tagAt stride filtered y)

structure IsImage (l : Layout) (pixels : List UInt8) : Prop where
  length : l.pixelSize? = some pixels.length
  inBuffer : pixels.length < bufferLimit

structure IsFiltered (l : Layout) (filtered : List UInt8) : Prop where
  length : l.filteredSize? = some filtered.length
  tags : ∀ y < l.height.toNat, tagAt (Sizes.stride l) filtered y ≤ 4

/-- Filtering and undoing filters are inverse to each other. So, filter by filter, there are exactly
as many images as there are filtered rows. -/
structure AreInverse (l : Layout) : Prop where
  restores : ∀ filters pixels, filters.length = l.height.toNat → IsImage l pixels →
    reconstruct l (residual l.width l.format filters pixels) = .ok pixels
  refilters : ∀ filtered, IsFiltered l filtered → ∃ pixels, reconstruct l filtered = .ok pixels ∧
    residual l.width l.format (filtersOf (Sizes.stride l) l.height.toNat filtered) pixels = filtered
  injective : ∀ filtered filtered', IsFiltered l filtered → IsFiltered l filtered' →
    filtersOf (Sizes.stride l) l.height.toNat filtered =
      filtersOf (Sizes.stride l) l.height.toNat filtered' →
    reconstruct l filtered = reconstruct l filtered' → filtered = filtered'
  surjective : ∀ filters pixels, filters.length = l.height.toNat → IsImage l pixels →
    ∃ filtered, IsFiltered l filtered ∧
      filtersOf (Sizes.stride l) l.height.toNat filtered = filters ∧
      reconstruct l filtered = .ok pixels

theorem toByte_of_ofByte? {tag : UInt8} (h : FilterType.ofByte? tag = some f) :
    f.toByte = tag := by
  unfold FilterType.ofByte? at h
  split at h <;> cases h <;> rfl

theorem filtersOf_cons {tag : UInt8} (h : FilterType.ofByte? tag = some f) (n : Nat)
    (rest : List UInt8) : filtersOf stride (n + 1) (tag :: rest) =
      f :: filtersOf stride n (rest.drop stride) := by
  have hfirst : tagAt stride (tag :: rest) 0 = tag := by
    rw [tagAt, Nat.zero_mul, List.getD_cons_zero]
  have hlater : (fun y => FilterType.ofByte? (tagAt stride (tag :: rest) y)) ∘ Nat.succ =
      fun y => FilterType.ofByte? (tagAt stride (rest.drop stride) y) := by
    funext y
    exact congrArg FilterType.ofByte? (tagAt_succ tag rest y)
  rw [filtersOf, List.range_succ_eq_map, List.filterMap_cons_some (by rw [hfirst, h]),
    List.filterMap_map, hlater, filtersOf]

theorem residualRows_of_reconstructRows (hbpp : 0 < bpp) {n : Nat}
    (hlen : filtered.length = n * (stride + 1)) (hdone : ∀ r ∈ done, r.length = stride)
    (h : reconstructRows stride bpp done filtered = .ok rows) :
    ∃ new, rows = done.reverse ++ new ∧
      residualRows stride bpp (done.head?.getD []) (filtersOf stride n filtered) new.flatten =
        filtered := by
  -- The induction is on the rows to come. Those done are the rows that the next one lies below.
  induction n generalizing done filtered with
  | zero =>
    have hnil : filtered = [] := List.length_eq_zero_iff.mp (by rw [hlen, Nat.zero_mul])
    subst hnil
    rw [reconstructRows] at h
    cases h
    exact ⟨[], by simp, rfl⟩
  | succ n ih =>
    obtain ⟨tag, rest, rfl, hrest, hlen'⟩ := exists_cons hlen
    have htake : (rest.take stride).length = stride := by
      rw [List.length_take]
      omega
    cases hf : FilterType.ofByte? tag with
    | none =>
      rw [reconstructRows, hf] at h
      cases h
    | some f =>
      obtain ⟨row, hrow, hspec⟩ := reconstructRow_isRow f bpp (le_head htake hdone)
      have hlength : row.length = stride := hspec.length.trans htake
      rw [reconstructRows, hf] at h
      dsimp only at h
      rw [hrow] at h
      obtain ⟨new, rfl, hnew⟩ := ih hlen' (List.forall_mem_cons.mpr ⟨hlength, hdone⟩) h
      have hresidual := residualRow_of_isRow hbpp hspec
      refine ⟨row :: new, by simp, ?_⟩
      rw [List.head?_cons, Option.getD_some] at hnew
      rw [filtersOf_cons hf, List.flatten_cons, residualRows, List.take_left' hlength,
        List.drop_left' hlength, hresidual, toByte_of_ofByte? hf, hnew, List.cons_append,
        List.take_append_drop]

theorem filtersOf_residualRows (bpp : Nat) (above : List UInt8) {filters : List FilterType}
    {pixels : List UInt8} (hlen : pixels.length = filters.length * stride) :
    filtersOf stride filters.length (residualRows stride bpp above filters pixels) = filters := by
  induction filters generalizing above pixels with
  | nil => rfl
  | cons f filters ih =>
    obtain ⟨hrow, hrest⟩ := length_rows_split hlen
    rw [List.length_cons, residualRows, List.cons_append,
      filtersOf_cons (FilterType.ofByte?_toByte f),
      List.drop_left' ((length_residualRow f _ above bpp).trans hrow), ih _ hrest]

theorem filteredSize_lt {pixels : List UInt8} (h : IsImage l pixels) :
    pixels.length = pixelSize l ∧ filteredSize l < Size.limit := by
  obtain ⟨-, hlength⟩ := size_eq_of_pixelSize? h.length
  have hbuffer := h.inBuffer
  have hlimit : bufferLimit + 0x100000000 < Size.limit := by decide
  have hheight := l.height.toNat_lt
  rw [filteredSize_eq, ← hlength]
  exact ⟨rfl, by omega⟩

variable {width height : UInt32} {format : PixelFormat} {filters : List FilterType}
  {pixels : List UInt8}

theorem restores (hfilters : filters.length = height.toNat)
    (h : IsImage (.ofFormat width height format) pixels) :
    reconstruct (.ofFormat width height format) (residual width format filters pixels) =
      .ok pixels := by
  obtain ⟨hpixels, hsize⟩ := filteredSize_lt h
  exact reconstruct_residual hsize hfilters hpixels

theorem refilters (h : IsFiltered (.ofFormat width height format) filtered) :
    ∃ pixels, reconstruct (.ofFormat width height format) filtered = .ok pixels ∧
      residual width format
        (filtersOf (Sizes.stride (.ofFormat width height format)) height.toNat filtered)
          pixels = filtered := by
  obtain ⟨hsize, hlength⟩ := size_eq_of_filteredSize? h.length
  have hlines : filtered.length =
      height.toNat * (Sizes.stride (.ofFormat width height format) + 1) := by
    rw [hlength, filteredSize, Nat.mul_comm]
    rfl
  have htags : ∀ y < height.toNat,
      ¬ 4 < tagAt (Sizes.stride (.ofFormat width height format)) filtered y :=
    fun y hy => UInt8.not_lt.mpr (h.tags y hy)
  obtain ⟨rows, hrows, -, -⟩ :=
    reconstructRows_ok (Layout.ofFormat width height format).bytesPerPixel.toNat hlines
      (List.forall_mem_nil _) htags
  obtain ⟨new, hnew, hresidual⟩ := residualRows_of_reconstructRows
    (bytesPerPixel_pos width height format) hlines (List.forall_mem_nil _) hrows
  refine ⟨new.flatten, ?_, ?_⟩
  · rw [reconstruct_rows hsize hlength, hrows, hnew]
    rfl
  · rw [residual_eq width height]
    exact hresidual

theorem isFiltered_residual (hfilters : filters.length = height.toNat)
    (h : IsImage (.ofFormat width height format) pixels) :
    IsFiltered (.ofFormat width height format) (residual width format filters pixels) ∧
      filtersOf (Sizes.stride (.ofFormat width height format)) height.toNat
        (residual width format filters pixels) = filters := by
  obtain ⟨hpixels, hsize⟩ := filteredSize_lt h
  have hrestored := restores hfilters h
  refine ⟨⟨?_, ?_⟩, ?_⟩
  · rw [length_residual hfilters hpixels]
    exact filteredSize?_of_lt hsize
  · obtain ⟨-, hrec⟩ | ⟨-, -, failure, -, hrec⟩ | ⟨-, -, htags, -⟩ :=
      reconstruct_cases (.ofFormat width height format) (residual width format filters pixels)
    · rw [hrec] at hrestored
      cases hrestored
    · rw [hrec] at hrestored
      cases hrestored
    · exact fun y hy => UInt8.not_lt.mp (htags y hy)
  · rw [residual_eq width height, ← hfilters]
    exact filtersOf_residualRows _ [] (length_eq_lines hfilters hpixels)

/-- Whatever the size and the format of an image are, filtering it and undoing the filters of its
rows are inverse to each other. -/
theorem filtering_bijective (width height : UInt32) (format : PixelFormat) :
    AreInverse (.ofFormat width height format) where
  restores := fun _ _ => restores
  refilters := fun _ => refilters
  injective := by
    intro filtered filtered' h h' hfilters hreconstruct
    obtain ⟨pixels, hpixels, hresidual⟩ := refilters h
    obtain ⟨pixels', hpixels', hresidual'⟩ := refilters h'
    rw [hreconstruct, hpixels'] at hpixels
    cases hpixels
    have hsame := congrArg (residual width format · pixels) hfilters
    exact hresidual.symm.trans (hsame.trans hresidual')
  surjective := by
    intro filters pixels hfilters h
    obtain ⟨hfiltered, hread⟩ := isFiltered_residual hfilters h
    exact ⟨_, hfiltered, hread, restores hfilters h⟩

end Png.Proofs.Bijection

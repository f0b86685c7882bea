import Png.Filter.InPlace
import Png.Proofs.Reconstruction

namespace Png.Proofs.InPlace

open Png.InPlace Rows Sizes Reconstruction

variable {f : FilterType} {bpp : Nat} {row above : List UInt8}

theorem neighbour?_eq {bytes : List UInt8} {i : Nat} (h : i < bytes.length) (bpp : Nat) :
    neighbour? bytes i bpp = some (behind bytes i bpp) := by
  rw [neighbour?, behind]
  by_cases hi : i < bpp
  · rw [if_pos hi, if_pos hi]
  · rw [if_neg hi, if_neg hi, List.getD_eq_getElem _ _ (by omega),
      List.getElem?_eq_getElem (by omega)]

theorem neighbour?_middle (done : List UInt8) (x : UInt8) (rest : List UInt8) (bpp : Nat) :
    neighbour? (done.reverse ++ x :: rest) done.length bpp = some ((x :: done).getD bpp 0) := by
  rw [neighbour?_eq (by simp), upperLeft_eq]

theorem getElem?_middle (done : List UInt8) (x : UInt8) (rest : List UInt8) :
    (done.reverse ++ x :: rest)[done.length]? = some x := by
  simp

theorem set_middle (done : List UInt8) (x y : UInt8) (rest : List UInt8) :
    (done.reverse ++ x :: rest).set done.length y = (y :: done).reverse ++ rest := by
  simp

theorem unfilterByte_first {prior : Option (List UInt8)}
    (h : ∀ above ∈ prior, f.readsAbove = false) (done : List UInt8) (x : UInt8)
    (rest : List UInt8) :
    unfilterByte f bpp prior (done.reverse ++ x :: rest) done.length =
      some (((x + f.predictFirst ((x :: done).getD bpp 0)) :: done).reverse ++ rest) := by
  rw [unfilterByte, getElem?_middle, neighbour?_middle, ← set_middle done x]
  cases prior with
  | none => rfl
  | some above =>
    have hreads : f.readsAbove = false := h above rfl
    simp only [Option.bind_eq_bind, Option.bind_some, hreads, Bool.false_eq_true, if_false]

/-- While a row is gone over from left to right, the bytes passed are reconstructed and the others
are as they were. -/
theorem foldlM_first {prior : Option (List UInt8)} (h : ∀ above ∈ prior, f.readsAbove = false)
    (done row : List UInt8) :
    (List.range' done.length row.length).foldlM (unfilterByte f bpp prior)
      (done.reverse ++ row) = some (reconstructFirst f bpp done row) := by
  induction row generalizing done with
  | nil => simp [reconstructFirst]
  | cons x row ih =>
    rw [List.length_cons, List.range'_succ, List.foldlM_cons, unfilterByte_first h]
    exact ih (_ :: done)

theorem unfilterByte_below (hreads : f.readsAbove = true) {passed : List UInt8} {b : UInt8}
    (hpassed : passed.length = done.length) (above : List UInt8) (x : UInt8) (rest : List UInt8) :
    unfilterByte f bpp (some (passed.reverse ++ b :: above)) (done.reverse ++ x :: rest)
        done.length =
      some (((x + f.predict ((x :: done).getD bpp 0) b ((b :: passed).getD bpp 0)) ::
        done).reverse ++ rest) := by
  have hb : (passed.reverse ++ b :: above)[done.length]? = some b := by
    rw [← hpassed, getElem?_middle]
  have hupper : neighbour? (passed.reverse ++ b :: above) done.length bpp =
      some ((b :: passed).getD bpp 0) := by
    rw [← hpassed, neighbour?_middle]
  simp only [unfilterByte, getElem?_middle, neighbour?_middle, Option.bind_eq_bind,
    Option.bind_some, hreads, if_true, hb, hupper, set_middle]

theorem foldlM_below (hreads : f.readsAbove = true) (done passed : List UInt8)
    (hpassed : passed.length = done.length) (row above : List UInt8) :
    (List.range' done.length row.length).foldlM
      (unfilterByte f bpp (some (passed.reverse ++ above))) (done.reverse ++ row) =
      reconstructBelow f bpp done passed row above := by
  induction row generalizing done passed above with
  | nil => simp [reconstructBelow]
  | cons x row ih =>
    rw [List.length_cons, List.range'_succ, List.foldlM_cons]
    cases above with
    | nil =>
      have hnone : (passed.reverse ++ [])[done.length]? = none := by
        rw [List.getElem?_eq_none (by simp [hpassed])]
      simp only [unfilterByte, getElem?_middle, neighbour?_middle, Option.bind_eq_bind,
        Option.bind_some, hreads, if_true, hnone, Option.bind_none, reconstructBelow]
    | cons b above =>
      let y := x + f.predict ((x :: done).getD bpp 0) b ((b :: passed).getD bpp 0)
      have ih' := ih (y :: done) (b :: passed) (by simp [hpassed]) above
      have habove : (b :: passed).reverse ++ above = passed.reverse ++ b :: above := by simp
      rw [habove] at ih'
      rw [unfilterByte_below hreads hpassed, reconstructBelow]
      exact ih'

theorem unfilterRow_eq (f : FilterType) (bpp : Nat) (prior : Option (List UInt8))
    (row : List UInt8) : unfilterRow f bpp prior row = reconstructRow f row prior bpp := by
  cases prior with
  | none => exact foldlM_first (by simp) [] row
  | some above =>
    rw [reconstructRow]
    by_cases hreads : f.readsAbove
    · rw [if_pos hreads]
      exact foldlM_below hreads [] [] rfl row above
    · rw [if_neg hreads]
      exact foldlM_first (by simpa using hreads) [] row

variable {stride y source : Nat} {buffer : List UInt8} {done : List (List UInt8)}

theorem splitAt?_of_le {bytes : List UInt8} {i : Nat} (h : i ≤ bytes.length) :
    splitAt? bytes i = some (bytes.take i, bytes.drop i) := if_pos h

theorem copyWithin?_eq {first size target : Nat} (hfirst : first + size ≤ buffer.length)
    (htarget : target + size ≤ buffer.length) :
    copyWithin? buffer first (first + size) target =
      some (buffer.take target ++
        ((buffer.drop first).take size ++ buffer.drop (target + size))) := by
  have hsize : subtract? (first + size) first = some size := by
    rw [subtract?, if_pos (Nat.le_add_right first size), Nat.add_sub_cancel_left]
  have hlimit : subtract? buffer.length size = some (buffer.length - size) :=
    if_pos (by omega)
  rw [copyWithin?, hsize]
  simp only [Option.bind_eq_bind, Option.bind_some]
  rw [hlimit]
  simp only [Option.bind_some]
  rw [if_pos ⟨hfirst, by omega⟩]

theorem rowAbove?_eq (hcount : done.length = y) (hdone : ∀ r ∈ done, r.length = stride) :
    rowAbove? done.reverse.flatten stride y (y * stride) = some done.head? := by
  cases done with
  | nil =>
    have hy : y = 0 := hcount.symm
    rw [rowAbove?, if_pos hy]
    rfl
  | cons r done =>
    have hr : r.length = stride := hdone r (by simp)
    have hbefore : done.reverse.flatten.length = done.length * stride := by
      have hrows : ∀ r ∈ done.reverse, r.length = stride := by
        intro r hm
        exact hdone r (by simp [List.mem_reverse.mp hm])
      rw [length_flatten_rows hrows, List.length_reverse, Nat.mul_comm]
    have hy : y = done.length + 1 := hcount.symm
    have hstart : subtract? (y * stride) stride = some (done.length * stride) := by
      rw [hy, Nat.succ_mul, subtract?, if_pos (Nat.le_add_left _ _), Nat.add_sub_cancel]
    have hflat : (r :: done).reverse.flatten = done.reverse.flatten ++ r := by simp
    rw [rowAbove?, if_neg (by omega), hstart, hflat]
    simp only [Option.bind_eq_bind, Option.bind_some]
    rw [splitAt?_of_le (by rw [List.length_append]; omega), ← hbefore, List.drop_left]
    rfl

theorem unfilterLine_eq (f : FilterType) (bpp : Nat) (hbuffer : buffer.length < Size.limit)
    (hsource : source = y * stride + y) (hle : source + 1 + stride ≤ buffer.length)
    (htake : buffer.take (y * stride) = done.reverse.flatten) (hcount : done.length = y)
    (hdone : ∀ r ∈ done, r.length = stride) :
    unfilterLine stride bpp f y source buffer =
      (reconstructRow f ((buffer.drop (source + 1)).take stride) done.head? bpp).map fun row =>
        done.reverse.flatten ++ (row ++ buffer.drop (y * stride + stride)) := by
  have htarget : Size.mul? y stride = some (y * stride) := if_pos (by omega)
  have hfirst : Size.add? source 1 = some (source + 1) := if_pos (by omega)
  have hlast : Size.add? (source + 1) stride = some (source + 1 + stride) := if_pos (by omega)
  have hlength : (buffer.take (y * stride)).length = y * stride := by
    rw [List.length_take]
    omega
  have hline : ((buffer.drop (source + 1)).take stride).length = stride := by
    rw [List.length_take, List.length_drop]
    omega
  -- Row `y` moves `y + 1` places back, so no step leaves the buffer.
  rw [unfilterLine, htarget]
  simp only [Option.bind_eq_bind, Option.bind_some]
  rw [hfirst]
  simp only [Option.bind_some]
  rw [hlast]
  simp only [Option.bind_some]
  rw [copyWithin?_eq hle (by omega)]
  simp only [Option.bind_some]
  rw [splitAt?_of_le (by rw [List.length_append]; omega), List.take_left' hlength,
    List.drop_left' hlength]
  simp only [Option.bind_some]
  rw [htake, rowAbove?_eq hcount hdone]
  simp only [Option.bind_some]
  rw [splitAt?_of_le (by rw [List.length_append]; omega), List.take_left' hline,
    List.drop_left' hline]
  simp only [Option.bind_some, unfilterRow_eq]
  cases reconstructRow f ((buffer.drop (source + 1)).take stride) done.head? bpp <;> rfl

theorem unfilterLines_succ {tag : UInt8} (n : Nat) (hstride : stride + 1 < Size.limit)
    (hsource : y * (stride + 1) < Size.limit) (htag : buffer[y * (stride + 1)]? = some tag) :
    unfilterLines stride bpp (n + 1) y buffer =
      match FilterType.ofByte? tag with
      | none => some (.error (.unknownFilter tag y))
      | some f => (unfilterLine stride bpp f y (y * (stride + 1)) buffer).bind
          (unfilterLines stride bpp n (y + 1)) := by
  have hline : Size.add? stride 1 = some (stride + 1) := if_pos hstride
  have hplace : Size.mul? y (stride + 1) = some (y * (stride + 1)) := if_pos hsource
  rw [unfilterLines, hline]
  simp only [Option.bind_eq_bind, Option.bind_some]
  rw [hplace]
  simp only [Option.bind_some]
  rw [htag]
  rfl

theorem moved_buffer {pixels row : List UInt8} (hpixels : pixels.length = y * stride)
    (hrow : row.length = stride) (hend : y * (stride + 1) + 1 + stride ≤ buffer.length) :
    (pixels ++ (row ++ buffer.drop (y * stride + stride))).length = buffer.length ∧
      (pixels ++ (row ++ buffer.drop (y * stride + stride))).take ((y + 1) * stride) =
        pixels ++ row ∧
      (pixels ++ (row ++ buffer.drop (y * stride + stride))).drop ((y + 1) * (stride + 1)) =
        (buffer.drop (y * (stride + 1) + 1)).drop stride := by
  have hline : y * (stride + 1) = y * stride + y := Nat.mul_succ y stride
  have hplace : (y + 1) * stride = y * stride + stride := Nat.succ_mul y stride
  have hnext : (y + 1) * (stride + 1) = (y * stride + stride) + (y + 1) := by
    rw [Nat.mul_succ, hplace]
  have hdone : (pixels ++ row).length = y * stride + stride := by
    rw [List.length_append, hpixels, hrow]
  rw [← List.append_assoc]
  refine ⟨?_, ?_, ?_⟩
  · rw [List.length_append, hdone, List.length_drop]
    omega
  · rw [hplace, List.take_left' hdone]
  · rw [hnext, ← List.drop_drop, List.drop_left' hdone, List.drop_drop, List.drop_drop]
    congr 1
    omega

theorem exists_line {n : Nat} (hlen : buffer.length = (y + (n + 1)) * (stride + 1)) :
    ∃ tag rest, buffer.drop (y * (stride + 1)) = tag :: rest ∧
      buffer[y * (stride + 1)]? = some tag ∧ buffer.drop (y * (stride + 1) + 1) = rest ∧
      stride ≤ rest.length ∧ y * (stride + 1) + 1 + stride ≤ buffer.length := by
  have hrest : (buffer.drop (y * (stride + 1))).length = (n + 1) * (stride + 1) := by
    rw [List.length_drop, hlen, Nat.add_mul, Nat.add_sub_cancel_left]
  obtain ⟨tag, rest, hcons, hle, -⟩ := exists_cons hrest
  refine ⟨tag, rest, hcons, ?_, ?_, hle, ?_⟩
  · have h := congrArg (·[0]?) hcons
    simpa using h
  · rw [← List.drop_drop, hcons, List.drop_succ_cons, List.drop_zero]
  · have h := congrArg List.length hcons
    rw [List.length_drop, List.length_cons] at h
    omega

/-- Before row `y` the buffer begins with the pixels of the rows done and ends with the filtered
rows to come. The `y` bytes between them are no longer needed. -/
theorem unfilterLines_eq (bpp : Nat) {n : Nat} (hbuffer : buffer.length < Size.limit)
    (hstride : stride + 1 < Size.limit) (hlen : buffer.length = (y + n) * (stride + 1))
    (htake : buffer.take (y * stride) = done.reverse.flatten) (hcount : done.length = y)
    (hdone : ∀ r ∈ done, r.length = stride) :
    (unfilterLines stride bpp n y buffer).map (fun result =>
        result.map (·.take ((y + n) * stride))) =
      some ((reconstructRows stride bpp done (buffer.drop (y * (stride + 1)))).map
        List.flatten) := by
  induction n generalizing y buffer done with
  | zero =>
    have hnil : buffer.drop (y * (stride + 1)) = [] :=
      List.drop_eq_nil_of_le (Nat.le_of_eq (by rw [hlen, Nat.add_zero]))
    rw [unfilterLines, hnil, reconstructRows, Nat.add_zero]
    simp only [Option.map_some, Except.map, htake]
  | succ n ih =>
    obtain ⟨tag, rest, hcons, htag, hdrop, hrest, hend⟩ := exists_line hlen
    rw [unfilterLines_succ n hstride (by omega) htag, hcons]
    cases hf : FilterType.ofByte? tag with
    | none =>
      rw [reconstructRows, hf, hcount]
      rfl
    | some f =>
      have hline : (rest.take stride).length = stride := by
        rw [List.length_take]
        omega
      obtain ⟨row, hrow, hspec⟩ := reconstructRow_isRow f bpp (le_head hline hdone)
      have hlength : row.length = stride := hspec.length.trans hline
      have hpixels : done.reverse.flatten.length = y * stride := by
        rw [← htake, List.length_take]
        have h : y * (stride + 1) = y * stride + y := Nat.mul_succ y stride
        omega
      -- The row lands in front of the filtered rows to come, so these are still there.
      obtain ⟨hsame, htake', hdrop'⟩ := moved_buffer hpixels hlength hend
      have hstep := unfilterLine_eq f bpp hbuffer (Nat.mul_succ y stride) hend htake hcount hdone
      rw [hdrop, hrow, Option.map_some] at hstep
      have hindex : y + 1 + n = y + (n + 1) := by omega
      have hflat : (row :: done).reverse.flatten = done.reverse.flatten ++ row := by simp
      have ih' := ih (hsame.symm ▸ hbuffer) (by rw [hsame, hlen, hindex])
        (htake'.trans hflat.symm) (by rw [List.length_cons, hcount])
        (List.forall_mem_cons.mpr ⟨hlength, hdone⟩)
      rw [hdrop', hdrop] at ih'
      rw [reconstructRows, hf]
      dsimp only
      rw [hstep, hrow]
      dsimp only
      rw [hindex] at ih'
      exact ih'

/-- The buffer is never left and no number is too large, and the pixels are those of the
reconstruction with rows of their own. -/
theorem unfilter_eq (l : Layout) (filtered : List UInt8) :
    unfilter l filtered = some (reconstruct l filtered) := by
  by_cases hsize : filteredSize l < Size.limit
  · by_cases hlen : filtered.length = filteredSize l
    · have hlines : filtered.length = (0 + l.height.toNat) * (Sizes.stride l + 1) := by
        rw [hlen, filteredSize, Nat.zero_add, Nat.mul_comm]
      have hend : (0 + l.height.toNat) * Sizes.stride l = pixelSize l := by
        rw [pixelSize, Nat.zero_add, Nat.mul_comm]
      have hnil : ∀ r ∈ ([] : List (List UInt8)), r.length = Sizes.stride l := by simp
      have h := unfilterLines_eq l.bytesPerPixel.toNat (hlen ▸ hsize) (stride_lt l) hlines
        (by simp) rfl hnil
      rw [hend, Nat.zero_mul, List.drop_zero, ← reconstruct_rows hsize hlen] at h
      rw [unfilter, filteredSize?_of_lt hsize, pixelSize?_of_lt hsize, stride?_eq]
      dsimp only
      rw [if_neg (not_not_intro hlen)]
      exact h
    · rw [reconstruct_length hsize hlen, unfilter, filteredSize?_of_lt hsize,
        pixelSize?_of_lt hsize, stride?_eq]
      dsimp only
      rw [if_pos hlen]
  · rw [reconstruct_overflow (Nat.not_lt.mp hsize), unfilter,
      filteredSize?_of_le (Nat.not_lt.mp hsize), stride?_eq]

example : unfilter (.ofFormat 3 3 (.luminance .eight)) [1, 5, 1, 1, 2, 1, 1, 1, 3, 2, 2, 2] =
    some (.ok [5, 6, 7, 6, 7, 8, 5, 8, 10]) := rfl

/-- Undoing the filters of any buffer under any layout, in place or not, ends in one of three ways,
and the pixels are the one reconstruction there is of the buffer as it was given. -/
theorem unfilter_outcome (l : Layout) (filtered : List UInt8) :
    ∃ outcome, unfilter l filtered = some outcome ∧ reconstruct l filtered = outcome ∧
      (outcome.mapError Failure.error = .error .outOfMemory ↔ Size.limit ≤ filteredSize l) ∧
      (outcome.mapError Failure.error = .error (.malformed .defilter) ↔
        filteredSize l < Size.limit ∧ (filtered.length ≠ filteredSize l ∨
          ∃ y < l.height.toNat, 4 < tagAt (Sizes.stride l) filtered y)) ∧
      ((∃ pixels, outcome = .ok pixels ∧
          ∀ out, IsReconstruction (Sizes.stride l) l.bytesPerPixel.toNat l.height.toNat
            filtered out ↔ out = pixels) ↔
        filteredSize l < Size.limit ∧ filtered.length = filteredSize l ∧
          ∀ y < l.height.toNat, ¬ 4 < tagAt (Sizes.stride l) filtered y) := by
  refine ⟨reconstruct l filtered, unfilter_eq l filtered, rfl, ?_⟩
  obtain ⟨hover, h⟩ | ⟨hsize, hbad, failure, hfailure, h⟩ |
    ⟨hsize, hlen, htags, pixels, h, hpixels⟩ := reconstruct_cases l filtered
  · have hsize : ¬ filteredSize l < Size.limit := Nat.not_lt.mpr hover
    rw [h]
    refine ⟨iff_of_true rfl hover, iff_of_false (by rintro ⟨⟩) (mt And.left hsize),
      iff_of_false ?_ (mt And.left hsize)⟩
    rintro ⟨pixels, ⟨⟩, -⟩
  · have herror : (Except.error failure : Except Failure (List UInt8)).mapError Failure.error =
        .error (.malformed .defilter) := congrArg Except.error hfailure
    rw [h, herror]
    refine ⟨iff_of_false (by rintro ⟨⟩) (Nat.not_le.mpr hsize), iff_of_true rfl ⟨hsize, hbad⟩,
      iff_of_false ?_ ?_⟩
    · rintro ⟨pixels, ⟨⟩, -⟩
    · rintro ⟨-, hlen, htags⟩
      obtain hwrong | ⟨y, hy, hlarge⟩ := hbad
      · exact hwrong hlen
      · exact htags y hy hlarge
  · rw [h]
    refine ⟨iff_of_false (by rintro ⟨⟩) (Nat.not_le.mpr hsize), iff_of_false (by rintro ⟨⟩) ?_,
      iff_of_true ⟨pixels, rfl, fun out => ⟨fun hout => hout.unique hpixels, ?_⟩⟩
        ⟨hsize, hlen, htags⟩⟩
    · rintro ⟨-, hwrong | ⟨y, hy, hlarge⟩⟩
      · exact hwrong hlen
      · exact htags y hy hlarge
    · rintro rfl
      exact hpixels

end Png.Proofs.InPlace

import Png.Checked.Row
import Png.Proofs.InPlace
import Png.Proofs.PixelRange

namespace Png.Proofs.RowLoops

open Checked Png.InPlace Png.Proofs.InPlace PixelRange Rows

variable {f : FilterType} {bpp : Nat} {row above : List UInt8} {prior : Option (List UInt8)}

theorem foldlM_congr {α β : Type} {step step' : β → α → Option β} {places : List α}
    (h : ∀ a ∈ places, ∀ b, step b a = step' b a) (b : β) :
    places.foldlM step b = places.foldlM step' b := by
  induction places generalizing b with
  | nil => rfl
  | cons a places ih =>
    rw [List.foldlM_cons, List.foldlM_cons, h a (by simp)]
    congr 1
    funext b
    exact ih (fun a ha => h a (by simp [ha])) b

theorem foldlM_eq_self {α β : Type} {step : β → α → Option β} {places : List α} {b : β}
    (h : ∀ a ∈ places, step b a = some b) : places.foldlM step b = some b := by
  induction places with
  | nil => rfl
  | cons a places ih =>
    rw [List.foldlM_cons]
    exact bind_of_some (h a (by simp)) (ih fun a ha => h a (by simp [ha]))

theorem byteBefore?_eq {i : Nat} (h : bpp ≤ i) (row : List UInt8) :
    byteBefore? row i bpp = neighbour? row i bpp := by
  rw [neighbour?, if_neg (Nat.not_lt.mpr h)]
  exact bind_of_some (subtract?_of_le h) rfl

theorem unfilterByte_alone (h : ∀ above ∈ prior, f.readsAbove = false) (row : List UInt8)
    (i : Nat) : unfilterByte f bpp prior row i =
      addAt? (fun row i => (neighbour? row i bpp).map f.predictFirst) row i := by
  rw [unfilterByte, addAt?]
  cases prior with
  | none =>
    cases row[i]? <;> cases neighbour? row i bpp <;> rfl
  | some above =>
    have hreads : f.readsAbove = false := h above rfl
    cases row[i]? <;> cases neighbour? row i bpp <;> simp [hreads]

theorem unfilterByte_idle (h : ∀ above ∈ prior, f.readsAbove = false) {i : Nat}
    (hi : i < row.length) (hzero : f.predictFirst (behind row i bpp) = 0) :
    unfilterByte f bpp prior row i = some row := by
  rw [unfilterByte_alone h]
  have hamount : (neighbour? row i bpp).map f.predictFirst = some 0 := by
    rw [neighbour?_eq hi, Option.map_some, hzero]
  apply bind_of_some (List.getElem?_eq_getElem hi)
  apply bind_of_some hamount
  rw [UInt8.add_zero, List.set_getElem_self]

theorem unfilterRow_idle (h : ∀ above ∈ prior, f.readsAbove = false)
    (hzero : ∀ left, f.predictFirst left = 0) : unfilterRow f bpp prior row = some row := by
  apply foldlM_eq_self
  intro i hi
  exact unfilterByte_idle h (by simpa using hi) (hzero _)

theorem predictFirst_zero (f : FilterType) : f.predictFirst 0 = 0 := by
  cases f <;> rfl

theorem range'_split (first n : Nat) :
    List.range' 0 n = List.range' 0 (min first n) ++ List.range' first (n - first) := by
  obtain hle | hle := Nat.le_total first n
  · have hsplit := @List.range'_append_1 0 first (n - first)
    rw [Nat.zero_add, Nat.add_sub_cancel' hle] at hsplit
    rw [Nat.min_eq_left hle]
    exact hsplit.symm
  · rw [Nat.min_eq_right hle, Nat.sub_eq_zero_of_le hle, List.range'_zero, List.append_nil]

/-- Bytes with no left neighbour are left as they are, so a loop that looks at no byte above may
begin behind them. -/
theorem unfilterRow_from (h : ∀ above ∈ prior, f.readsAbove = false)
    {amount? : List UInt8 → Nat → Option UInt8}
    (hamount : ∀ row i, amount? row i = (byteBefore? row i bpp).map f.predictFirst) :
    unfilterRow f bpp prior row = addFrom? bpp amount? row := by
  have hbefore : (List.range' 0 (min bpp row.length)).foldlM (unfilterByte f bpp prior) row =
      some row := by
    apply foldlM_eq_self
    intro i hi
    rw [List.mem_range'_1] at hi
    refine unfilterByte_idle h (by omega) ?_
    rw [behind, if_pos (by omega), predictFirst_zero]
  rw [unfilterRow, range'_split bpp, List.foldlM_append]
  apply bind_of_some hbefore
  apply foldlM_congr
  intro i hi row
  rw [List.mem_range'_1] at hi
  rw [unfilterByte_alone h, addAt?, addAt?, hamount, byteBefore?_eq hi.1]

theorem unfilterRow_whole (hreads : f.readsAbove = true)
    {amount? : List UInt8 → Nat → Option UInt8}
    (hamount : ∀ row i, i < row.length → amount? row i =
      above[i]?.map fun b => f.predict (behind row i bpp) b (behind above i bpp)) :
    unfilterRow f bpp (some above) row = addFrom? 0 amount? row := by
  apply foldlM_congr
  intro i _ row
  rw [unfilterByte, addAt?]
  by_cases hi : i < row.length
  · rw [hamount row i hi, neighbour?_eq hi, List.getElem?_eq_getElem hi]
    simp only [Option.bind_eq_bind, Option.bind_some, hreads, if_true]
    by_cases hb : i < above.length
    · rw [List.getElem?_eq_getElem hb, Option.bind_some, neighbour?_eq hb]
      rfl
    · rw [List.getElem?_eq_none (Nat.not_lt.mp hb)]
      rfl
  · rw [List.getElem?_eq_none (Nat.not_lt.mp hi)]
    rfl

theorem unfilterRow_up : unfilterRow .up bpp (some above) row =
    reconstructRow? .up row (some above) bpp :=
  unfilterRow_whole rfl fun row i _ => by cases above[i]? <;> rfl

theorem unfilterRow_average : unfilterRow .average bpp (some above) row =
    reconstructRow? .average row (some above) bpp := by
  refine unfilterRow_whole rfl fun row i hi => bind_of_some (neighbour?_eq hi bpp) ?_
  cases above[i]? with
  | none => rfl
  | some b => exact average?_eq _ b

theorem unfilterRow_paeth : unfilterRow .paeth bpp (some above) row =
    reconstructRow? .paeth row (some above) bpp := by
  refine unfilterRow_whole rfl fun row i hi => bind_of_some (neighbour?_eq hi bpp) ?_
  by_cases hb : i < above.length
  · rw [List.getElem?_eq_getElem hb]
    apply bind_of_some rfl
    exact bind_of_some (neighbour?_eq hb bpp) (paeth?_eq _ _ _)
  · rw [List.getElem?_eq_none (Nat.not_lt.mp hb)]
    rfl

theorem byteBefore?_map (h : ∀ left, f.predictFirst left = left) (row : List UInt8) (i : Nat) :
    byteBefore? row i bpp = (byteBefore? row i bpp).map f.predictFirst := by
  cases byteBefore? row i bpp with
  | none => rfl
  | some left => rw [Option.map_some, h]

/-- Each filter in its own loop, with or without a row above, gives what the reconstruction gives.
An index leaves its buffer exactly where that has no result. -/
theorem reconstructRow?_eq (f : FilterType) (row : List UInt8) (prior : Option (List UInt8))
    (bpp : Nat) : reconstructRow? f row prior bpp = reconstructRow f row prior bpp := by
  rw [← unfilterRow_eq]
  cases f with
  | none => exact (unfilterRow_idle (fun _ _ => rfl) fun _ => rfl).symm
  | sub => exact (unfilterRow_from (fun _ _ => rfl) (byteBefore?_map fun _ => rfl)).symm
  | up =>
    cases prior with
    | none => exact (unfilterRow_idle (by simp) fun _ => rfl).symm
    | some above => exact unfilterRow_up.symm
  | average =>
    cases prior with
    | none =>
      refine (unfilterRow_from (by simp) fun row i => ?_).symm
      cases byteBefore? row i bpp <;> rfl
    | some above => exact unfilterRow_average.symm
  | paeth =>
    cases prior with
    | none => exact (unfilterRow_from (by simp) (byteBefore?_map fun _ => rfl)).symm
    | some above => exact unfilterRow_paeth.symm

/-- Undoing a filter on a row leaves these bytes, and so does its loop. -/
def Leaves (f : FilterType) (bpp : Nat) (row : List UInt8) (prior : Option (List UInt8))
    (out : List UInt8) : Prop :=
  reconstructRow f row prior bpp = some out ∧ reconstructRow? f row prior bpp = some out

theorem leaves_of_eq {out : List UInt8} (h : reconstructRow f row prior bpp = some out) :
    Leaves f bpp row prior out := ⟨h, by rw [reconstructRow?_eq, h]⟩

theorem reconstructRow_zeros (f : FilterType) (bpp : Nat) {zeros : List UInt8}
    (hlen : row.length ≤ zeros.length) (hzeros : ∀ b ∈ zeros, b = 0) :
    reconstructRow f row (some zeros) bpp = reconstructRow f row none bpp := by
  rw [reconstructRow_eq_below f bpp (by simpa using hlen), Option.getD_some,
    reconstructBelow_eq_first bpp [] hlen fun _ => ⟨by simp, hzeros⟩, reconstructRow]

/-- The loops of the first row leave what the loops leave below a row of zeros that is long enough,
whatever the filter, the row and the distance to the left neighbour are. -/
theorem first_row_below_zeros (f : FilterType) (bpp : Nat) (row : List UInt8) (extra : Nat) :
    ∃ out, IsRow f bpp row [] out ∧ Leaves f bpp row none out ∧
      Leaves f bpp row (some (List.replicate (row.length + extra) 0)) out := by
  obtain ⟨out, hout, hrow⟩ := reconstructRow_first f bpp row
  have hlen : row.length ≤ (List.replicate (row.length + extra) (0 : UInt8)).length := by
    rw [List.length_replicate]
    exact Nat.le_add_right _ _
  have hzeros := reconstructRow_zeros f bpp hlen fun _ hb => List.eq_of_mem_replicate hb
  exact ⟨out, hrow, leaves_of_eq hout, leaves_of_eq (hzeros.trans hout)⟩

end Png.Proofs.RowLoops

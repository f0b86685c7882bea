import Png.Proofs.RowLoops

namespace Png.Proofs.RowFootprint

open Checked Rows RowLoops

variable {f : FilterType} {bpp : Nat} {row above above' out out' : List UInt8}
  {prior : Option (List UInt8)}

/-- A filter that looks at the row above, and a row above that is too short for it. -/
structure LacksAbove (f : FilterType) (row : List UInt8) (prior : Option (List UInt8)) : Prop where
  looksUp : f = .up ∨ f = .average ∨ f = .paeth
  short : ∃ above ∈ prior, above.length < row.length

/-- When a way of undoing a filter has a result, and what of its arguments that hangs on. -/
structure HasFootprint (f : FilterType) (bpp : Nat)
    (undo : List UInt8 → Option (List UInt8) → Option (List UInt8)) : Prop where
  outOfRange : ∀ row prior, undo row prior = none ↔ LacksAbove f row prior
  finishes : ∀ row prior, ¬ LacksAbove f row prior →
    ∃ out, undo row prior = some out ∧ out.length = row.length
  /-- Where there is no row above, its bytes count as zeros. -/
  bytes : ∀ row prior out, undo row prior = some out → IsRow f bpp row (prior.getD []) out
  /-- Bytes above that lie beyond the row do not count. -/
  beyond : ∀ row above above', above.take row.length = above'.take row.length →
    undo row (some above) = undo row (some above')
  alone : f = .none ∨ f = .sub → ∀ row prior prior', undo row prior = undo row prior'
  beginning : ∀ row prior out, undo row prior = some out →
    ∀ n, undo (row.take n) prior = some (out.take n)

theorem looksUp_iff (f : FilterType) :
    (f = .up ∨ f = .average ∨ f = .paeth) ↔ f.readsAbove = true := by
  cases f <;> simp [FilterType.readsAbove]

theorem reconstructRow_eq_none (h : LacksAbove f row prior) :
    reconstructRow f row prior bpp = none := by
  obtain ⟨above, rfl, hshort⟩ := h.short
  rw [reconstructRow, if_pos ((looksUp_iff f).mp h.looksUp)]
  exact reconstructBelow_eq_none [] [] hshort

theorem reconstructRow_alone (h : f.readsAbove = false) (prior : Option (List UInt8)) :
    reconstructRow f row prior bpp = reconstructRow f row none bpp := by
  cases prior with
  | none => rfl
  | some above => exact if_neg (by simp [h])

theorem exists_isRow (bpp : Nat) (h : ¬ LacksAbove f row prior) :
    ∃ out, reconstructRow f row prior bpp = some out ∧ IsRow f bpp row (prior.getD []) out := by
  by_cases hreads : f.readsAbove
  · apply reconstructRow_isRow
    intro above hprior
    exact Nat.not_lt.mp fun hshort => h ⟨(looksUp_iff f).mpr hreads, above, hprior, hshort⟩
  · obtain ⟨out, hout, hrow⟩ := reconstructRow_first f bpp row
    refine ⟨out, ?_, hrow.of_above fun hf => absurd hf hreads⟩
    rw [reconstructRow_alone (by simpa using hreads), hout]

theorem reconstructRow_eq_none_iff :
    reconstructRow f row prior bpp = none ↔ LacksAbove f row prior := by
  refine ⟨fun h => Classical.byContradiction fun hlacks => ?_, reconstructRow_eq_none⟩
  obtain ⟨out, hout, -⟩ := exists_isRow bpp hlacks
  rw [h] at hout
  cases hout

theorem not_lacksAbove (h : reconstructRow f row prior bpp = some out) :
    ¬ LacksAbove f row prior := by
  intro hlacks
  rw [reconstructRow_eq_none hlacks] at h
  cases h

theorem isRow_of_reconstructRow (h : reconstructRow f row prior bpp = some out) :
    IsRow f bpp row (prior.getD []) out := by
  obtain ⟨out', hout, hrow⟩ := exists_isRow bpp (not_lacksAbove h)
  rw [h] at hout
  cases hout
  exact hrow

theorem LacksAbove.of_agree (h : LacksAbove f row (some above))
    (hagree : above.take row.length = above'.take row.length) :
    LacksAbove f row (some above') := by
  obtain ⟨_, ⟨⟩, hshort⟩ := h.short
  have hlength := congrArg List.length hagree
  rw [List.length_take, List.length_take] at hlength
  exact ⟨h.looksUp, above', rfl, by omega⟩

theorem LacksAbove.of_take {n : Nat} (h : LacksAbove f (row.take n) prior) :
    LacksAbove f row prior := by
  obtain ⟨above, habove, hshort⟩ := h.short
  exact ⟨h.looksUp, above, habove, Nat.lt_of_lt_of_le hshort (List.length_take_le' n row)⟩

theorem reconstructRow_beyond (hagree : above.take row.length = above'.take row.length) :
    reconstructRow f row (some above) bpp = reconstructRow f row (some above') bpp := by
  by_cases hlacks : LacksAbove f row (some above)
  · rw [reconstructRow_eq_none hlacks, reconstructRow_eq_none (hlacks.of_agree hagree)]
  · obtain ⟨out, hout, hrow⟩ := exists_isRow bpp hlacks
    obtain ⟨out', hout', hrow'⟩ := exists_isRow bpp fun h => hlacks (h.of_agree hagree.symm)
    have hbytes : ∀ i < row.length, above.getD i 0 = above'.getD i 0 := by
      intro i hi
      rw [← getD_take hi, hagree, getD_take hi]
    rw [hout, hout', (hrow.of_above fun _ => hbytes).unique hrow']

theorem reconstructRow_take (h : reconstructRow f row prior bpp = some out) (n : Nat) :
    reconstructRow f (row.take n) prior bpp = some (out.take n) := by
  have hlacks : ¬ LacksAbove f (row.take n) prior := fun hpart => not_lacksAbove h hpart.of_take
  obtain ⟨part, hpart, hrow⟩ := exists_isRow bpp hlacks
  rw [hpart, hrow.unique ((isRow_of_reconstructRow h).take n)]

theorem hasFootprint (f : FilterType) (bpp : Nat) :
    HasFootprint f bpp fun row prior => reconstructRow f row prior bpp where
  outOfRange := fun _ _ => reconstructRow_eq_none_iff
  finishes := by
    intro row prior hlacks
    obtain ⟨out, hout, hrow⟩ := exists_isRow bpp hlacks
    exact ⟨out, hout, hrow.length⟩
  bytes := fun _ _ _ => isRow_of_reconstructRow
  beyond := fun _ _ _ => reconstructRow_beyond
  alone := by
    intro hf row prior prior'
    have hreads : f.readsAbove = false := by
      obtain rfl | rfl := hf <;> rfl
    rw [reconstructRow_alone hreads, reconstructRow_alone hreads prior']
  beginning := fun _ _ _ => reconstructRow_take

/-- Whatever the filter and the distance to the left neighbour are, a row is gone over without
leaving a buffer unless the filter looks at a row above that is too short. What comes of it hangs on
nothing above that lies beyond the row, and its beginnings come of those of the row. -/
theorem row_footprint (f : FilterType) (bpp : Nat) :
    HasFootprint f bpp (fun row prior => reconstructRow f row prior bpp) ∧
      HasFootprint f bpp (fun row prior => reconstructRow? f row prior bpp) := by
  have hloops : (fun row prior => reconstructRow? f row prior bpp) =
      fun row prior => reconstructRow f row prior bpp := by
    funext row prior
    exact reconstructRow?_eq f row prior bpp
  exact ⟨hasFootprint f bpp, hloops ▸ hasFootprint f bpp⟩

end Png.Proofs.RowFootprint

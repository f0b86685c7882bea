import Png.Proofs.Bijection
import Png.Proofs.InPlace

namespace Png.Proofs.Influence

open Bijection Reconstruction Sizes

variable {stride bpp row column first y i : Nat} {filtered filtered' pixels pixels' : List UInt8}
  {l : Layout}

/-- Undoing the filters gives these pixels, and so does undoing them in the buffer itself. -/
def Yields (l : Layout) (filtered pixels : List UInt8) : Prop :=
  reconstruct l filtered = .ok pixels ∧ InPlace.unfilter l filtered = some (.ok pixels)

def DifferAt (stride row column : Nat) (filtered filtered' : List UInt8) : Prop :=
  ∀ k, k ≠ row * (stride + 1) + (1 + column) → filtered.getD k 0 = filtered'.getD k 0

structure DifferInCones (stride bpp height : Nat) (filtered filtered' pixels pixels' : List UInt8) :
    Prop where
  /-- A byte is settled by the tags of the rows down to its own and by the bytes of its lane that
  lie above it or to its left. Rows above one whose filter does not look up do not count. -/
  settled : ∀ y < height, ∀ i < stride, ∀ first ≤ y,
    first = 0 ∨ IsFresh stride filtered first ∧ IsFresh stride filtered' first →
    AgreeFor stride bpp first y i filtered filtered' →
    pixelAt stride pixels y i = pixelAt stride pixels' y i
  /-- A damaged byte damages no earlier row, no earlier column, no other lane, and nothing from the
  next row on whose filter does not look up. -/
  damaged : ∀ row column, column < stride → DifferAt stride row column filtered filtered' →
    ∀ y < height, ∀ i < stride, pixelAt stride pixels y i ≠ pixelAt stride pixels' y i →
      row ≤ y ∧ column ≤ i ∧ column % bpp = i % bpp ∧
        ∀ r, row < r → r ≤ y → ¬ IsFresh stride filtered r

theorem exists_yields (h : IsFiltered l filtered) :
    ∃ pixels, Yields l filtered pixels ∧
      IsReconstruction (Sizes.stride l) l.bytesPerPixel.toNat l.height.toNat filtered pixels := by
  obtain ⟨hsize, hlength⟩ := size_eq_of_filteredSize? h.length
  obtain ⟨pixels, hpixels, hrec⟩ :=
    reconstruct_ok hsize hlength fun y hy => UInt8.not_lt.mpr (h.tags y hy)
  exact ⟨pixels, ⟨hpixels, by rw [InPlace.unfilter_eq, hpixels]⟩, hrec⟩

theorem place_unique {r k m : Nat} (hk : k ≤ stride) (hm : m ≤ stride)
    (h : r * (stride + 1) + k = row * (stride + 1) + m) : r = row ∧ k = m := by
  have hrow : ∀ n j, j ≤ stride → (n * (stride + 1) + j) / (stride + 1) = n := by
    intro n j hj
    rw [Nat.mul_comm, Nat.mul_add_div (Nat.succ_pos stride),
      Nat.div_eq_of_lt (Nat.lt_succ_of_le hj), Nat.add_zero]
  have hr : r = row := by rw [← hrow r k hk, h, hrow row m hm]
  subst hr
  exact ⟨rfl, Nat.add_left_cancel h⟩

theorem agreeFor_of_differAt (hcolumn : column < stride) (hi : i < stride)
    (h : DifferAt stride row column filtered filtered')
    (hfar : ¬ (first ≤ row ∧ row ≤ y ∧ column ≤ i ∧ column % bpp = i % bpp)) :
    AgreeFor stride bpp first y i filtered filtered' where
  tags := by
    intro r hfirst hr
    refine h _ fun hplace => ?_
    obtain ⟨-, hzero⟩ := place_unique (Nat.zero_le stride) (by omega) hplace
    omega
  data := by
    intro r hfirst hr k hk hlane
    refine h _ fun hplace => ?_
    rw [Nat.add_assoc] at hplace
    obtain ⟨rfl, hcolumns⟩ := place_unique (by omega) (by omega) hplace
    obtain rfl := Nat.add_left_cancel hcolumns
    exact hfar ⟨hfirst, hr, hk, hlane⟩

theorem differInCones {height : Nat} (h : IsReconstruction stride bpp height filtered pixels)
    (h' : IsReconstruction stride bpp height filtered' pixels') :
    DifferInCones stride bpp height filtered filtered' pixels pixels' where
  settled := fun y hy i hi first hfirst hstart hagree =>
    h.pixelAt_eq h' (hstart.imp_right And.left) y hfirst hy i hi hagree
  damaged := by
    intro row column hcolumn hdiffer y hy i hi hne
    have hcone : ∀ first ≤ y, first = 0 ∨ IsFresh stride filtered first →
        first ≤ row ∧ row ≤ y ∧ column ≤ i ∧ column % bpp = i % bpp := by
      intro first hfirst hstart
      refine Decidable.of_not_not fun hfar => hne ?_
      exact h.pixelAt_eq h' hstart y hfirst hy i hi (agreeFor_of_differAt hcolumn hi hdiffer hfar)
    obtain ⟨-, hrow, hleft, hlane⟩ := hcone 0 (Nat.zero_le y) (.inl rfl)
    refine ⟨hrow, hleft, hlane, fun r hbelow hr hfresh => ?_⟩
    have habove := (hcone r hr (.inr hfresh)).1
    omega

/-- Whatever two buffers of filtered rows hold, their filters can be undone, and the pixels differ
only where something that they hang on does. -/
theorem influence_in_cone (l : Layout) (h : IsFiltered l filtered) (h' : IsFiltered l filtered') :
    ∃ pixels pixels', Yields l filtered pixels ∧ Yields l filtered' pixels' ∧
      DifferInCones (Sizes.stride l) l.bytesPerPixel.toNat l.height.toNat filtered filtered' pixels
        pixels' := by
  obtain ⟨pixels, hyields, hrec⟩ := exists_yields h
  obtain ⟨pixels', hyields', hrec'⟩ := exists_yields h'
  exact ⟨pixels, pixels', hyields, hyields', differInCones hrec hrec'⟩

def grey : Layout := .ofFormat 3 3 (.luminance .eight)

def threeRows (b : UInt8) : List UInt8 := [4, 1, b, 3, 1, 1, 1, 1, 3, 4, 4, 4]

theorem influence_in_cone_threeRows :
    IsFiltered grey (threeRows 2) ∧ IsFiltered grey (threeRows 9) ∧
      ∃ pixels pixels', Yields grey (threeRows 2) pixels ∧ Yields grey (threeRows 9) pixels' ∧
        pixelAt 3 pixels 0 2 ≠ pixelAt 3 pixels' 0 2 ∧
        pixelAt 3 pixels 2 2 = pixelAt 3 pixels' 2 2 := by
  have h : IsFiltered grey (threeRows 2) := ⟨rfl, by decide⟩
  have h' : IsFiltered grey (threeRows 9) := ⟨rfl, by decide⟩
  obtain ⟨pixels, pixels', hyields, hyields', hcones⟩ := influence_in_cone grey h h'
  refine ⟨h, h', pixels, pixels', hyields, hyields', ?_, ?_⟩
  · have hpixels : InPlace.unfilter grey (threeRows 2) =
        some (.ok [1, 3, 6, 1, 2, 3, 4, 7, 9]) := rfl
    have hpixels' : InPlace.unfilter grey (threeRows 9) =
        some (.ok [1, 10, 13, 1, 2, 3, 4, 7, 9]) := rfl
    rw [hyields.2] at hpixels
    rw [hyields'.2] at hpixels'
    cases hpixels
    cases hpixels'
    decide
  · have hdiffer : DifferAt 3 0 1 (threeRows 2) (threeRows 9) := by
      intro k hk
      match k, hk with
      | 0, _ | 1, _ => rfl
      | 2, hk => exact absurd rfl hk
      | k + 3, _ => rfl
    refine Decidable.of_not_not fun hne => ?_
    obtain ⟨-, -, -, hfresh⟩ :=
      hcones.damaged 0 1 (by decide) hdiffer 2 (by decide) 2 (by decide) hne
    exact hfresh 1 (by decide) (by decide) (.inr rfl)

end Png.Proofs.Influence

import Mathlib.Algebra.Order.Floor.Semiring
import Mathlib.Data.Rat.Floor
import Png.Proofs.Sizes

namespace Png.Proofs.SizeArithmetic

open Sizes

variable {l l' : Layout} {m n : Nat}

def rowBytes (l : Layout) : Nat :=
  ⌈(l.width.toNat * l.bitsPerPixel.toNat : ℚ) / 8⌉₊

/-- The lengths of a layout are exact numbers. Only those that reach `2 ^ 64` are missing. -/
structure IsExact (l : Layout) : Prop where
  stride : l.stride? = some (rowBytes l)
  filteredSize : l.filteredSize? =
    if (rowBytes l + 1) * l.height.toNat < 2 ^ 64 then some ((rowBytes l + 1) * l.height.toNat)
    else none
  pixelSize : l.pixelSize? =
    if rowBytes l * l.height.toNat < 2 ^ 64 then some (rowBytes l * l.height.toNat) else none
  tags : ∀ size, l.filteredSize? = some size →
    l.height.toNat ≤ size ∧ l.pixelSize? = some (size - l.height.toNat)
  pixelCount : l.pixelCount.toNat = l.width.toNat * l.height.toNat

/-- A length is at most another one. A length that overflows is above all others. -/
structure IsAtMost (a b : Option Nat) : Prop where
  le : ∀ m ∈ a, ∀ n ∈ b, m ≤ n
  overflow : a = none → b = none

structure IsNoLonger (l l' : Layout) : Prop where
  stride : IsAtMost l.stride? l'.stride?
  filteredSize : IsAtMost l.filteredSize? l'.filteredSize?
  pixelSize : IsAtMost l.pixelSize? l'.pixelSize?
  pixelCount : l.pixelCount ≤ l'.pixelCount

theorem ceil_eighth (n : Nat) : ⌈(n : ℚ) / 8⌉₊ = (n + 7) / 8 := by
  apply le_antisymm
  · have hle : n ≤ (n + 7) / 8 * 8 := by omega
    rw [Nat.ceil_le, div_le_iff₀ (by norm_num)]
    exact_mod_cast hle
  · have hle : (n : ℚ) ≤ ⌈(n : ℚ) / 8⌉₊ * 8 :=
      (div_le_iff₀ (by norm_num)).mp (Nat.le_ceil _)
    have hle : n ≤ ⌈(n : ℚ) / 8⌉₊ * 8 := by exact_mod_cast hle
    omega

theorem rowBytes_eq (l : Layout) : rowBytes l = stride l := by
  rw [rowBytes, stride, ← ceil_eighth, Nat.cast_mul]

theorem tags_of_filteredSize? {size : Nat} (h : l.filteredSize? = some size) :
    l.height.toNat ≤ size ∧ l.pixelSize? = some (size - l.height.toNat) := by
  obtain ⟨hlimit, rfl⟩ := size_eq_of_filteredSize? h
  rw [pixelSize?_of_lt hlimit, filteredSize_eq, Nat.add_sub_cancel]
  exact ⟨Nat.le_add_left _ _, rfl⟩

theorem isExact (l : Layout) : IsExact l where
  stride := by rw [stride?_eq, rowBytes_eq]
  filteredSize := by
    rw [filteredSize?_eq, rowBytes_eq]
    rfl
  pixelSize := by
    rw [pixelSize?_eq, rowBytes_eq]
    rfl
  tags := fun _ => tags_of_filteredSize?
  pixelCount := toNat_pixelCount l

theorem isAtMost_some (h : m ≤ n) : IsAtMost (some m) (some n) where
  le := by
    rintro _ ⟨⟩ _ ⟨⟩
    exact h
  overflow := nofun

theorem isAtMost_ofNat? (h : m ≤ n) : IsAtMost (Size.ofNat? m) (Size.ofNat? n) := by
  by_cases hn : n < Size.limit
  · have hm : m < Size.limit := Nat.lt_of_le_of_lt h hn
    rw [Size.ofNat?, Size.ofNat?, if_pos hm, if_pos hn]
    exact isAtMost_some h
  · have hnone : Size.ofNat? n = none := if_neg hn
    rw [hnone]
    refine ⟨fun _ _ n hn => ?_, fun _ => rfl⟩
    cases hn

section

variable (hwidth : l.width ≤ l'.width) (hheight : l.height ≤ l'.height)
  (hbits : l.bitsPerPixel ≤ l'.bitsPerPixel)

include hwidth hbits

theorem stride_le : stride l ≤ stride l' := by
  apply Nat.div_le_div_right
  apply Nat.add_le_add_right
  exact Nat.mul_le_mul (UInt32.le_iff_toNat_le.mp hwidth) (UInt32.le_iff_toNat_le.mp hbits)

include hheight

theorem isNoLonger : IsNoLonger l l' := by
  have hrows : l.height.toNat ≤ l'.height.toNat := UInt32.le_iff_toNat_le.mp hheight
  have hcolumns : l.width.toNat ≤ l'.width.toNat := UInt32.le_iff_toNat_le.mp hwidth
  have hstride : stride l ≤ stride l' := stride_le hwidth hbits
  constructor
  · rw [stride?_eq, stride?_eq]
    exact isAtMost_some hstride
  · rw [filteredSize?_eq, filteredSize?_eq]
    exact isAtMost_ofNat? (Nat.mul_le_mul (Nat.succ_le_succ hstride) hrows)
  · rw [pixelSize?_eq, pixelSize?_eq]
    exact isAtMost_ofNat? (Nat.mul_le_mul hstride hrows)
  · rw [UInt64.le_iff_toNat_le, toNat_pixelCount, toNat_pixelCount]
    exact Nat.mul_le_mul hcolumns hrows

end

/-- Every length of every layout is exact or overflows. With more columns, rows or bits for a pixel
none of them gets less, and one that overflows stays so. The format and the bytes for a pixel have
no part in it. -/
theorem lengths_exact_and_monotone :
    (∀ l, IsExact l) ∧
      ∀ l l' : Layout, l.width ≤ l'.width → l.height ≤ l'.height →
        l.bitsPerPixel ≤ l'.bitsPerPixel → IsNoLonger l l' :=
  ⟨isExact, fun _ _ => isNoLonger⟩

/-- With 15 bits for a pixel the pixels have the greatest length there is. -/
def longest (bitsPerPixel : UInt32) : Layout where
  width := 2290649225
  height := 0xFFFFFFFF
  format := .rgb .eight
  bitsPerPixel
  bytesPerPixel := 0

theorem lengths_exact_and_monotone_longest :
    (longest 14).bitsPerPixel ≤ (longest 15).bitsPerPixel ∧
      (longest 15).bitsPerPixel ≤ (longest 16).bitsPerPixel ∧
      (longest 14).filteredSize? = some 17216961140329877775 ∧
      (longest 14).pixelSize? = some (17216961140329877775 - 0xFFFFFFFF) ∧
      (longest 15).pixelSize? = some 0xFFFFFFFFFFFFFFFF ∧
      (longest 15).filteredSize? = none ∧ (longest 16).filteredSize? = none ∧
      ∀ m ∈ (longest 14).pixelSize?, m ≤ 0xFFFFFFFFFFFFFFFF := by
  obtain ⟨hexact, hmonotone⟩ := lengths_exact_and_monotone
  have hfits : (longest 14).filteredSize? = some 17216961140329877775 := by decide
  have hall : (longest 15).pixelSize? = some 0xFFFFFFFFFFFFFFFF := by decide
  have hnone : (longest 15).filteredSize? = none := by decide
  have hless := hmonotone (longest 14) (longest 15) (by decide) (by decide) (by decide)
  have hmore := hmonotone (longest 15) (longest 16) (by decide) (by decide) (by decide)
  exact ⟨by decide, by decide, hfits, ((hexact _).tags _ hfits).2, hall, hnone,
    hmore.filteredSize.overflow hnone, fun m hm => hless.pixelSize.le m hm _ hall⟩

end Png.Proofs.SizeArithmetic

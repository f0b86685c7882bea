import Png.Layout

namespace Png.Proofs.Sizes

/-- The bytes of a row as a plain number, as the lengths below are. Each exists as a length exactly
if its number is one. -/
def stride (l : Layout) : Nat := (l.width.toNat * l.bitsPerPixel.toNat + 7) / 8

def filteredSize (l : Layout) : Nat := (stride l + 1) * l.height.toNat

def pixelSize (l : Layout) : Nat := stride l * l.height.toNat

theorem toNat_mul_toNat_lt (a b : UInt32) : a.toNat * b.toNat < Size.limit := by
  have h := Nat.mul_lt_mul'' a.toNat_lt b.toNat_lt
  exact Nat.lt_of_lt_of_le h (by decide)

theorem stride_lt (l : Layout) : stride l + 1 < Size.limit := by
  have h := toNat_mul_toNat_lt l.width l.bitsPerPixel
  have hlimit : Size.limit = 0x10000000000000000 := rfl
  rw [stride]
  omega

theorem stride?_eq (l : Layout) : l.stride? = some (stride l) := by
  simp only [Layout.stride?, Size.mul?, Size.ofNat?, if_pos (toNat_mul_toNat_lt _ _)]
  rfl

theorem filteredSize?_eq (l : Layout) : l.filteredSize? = Size.ofNat? (filteredSize l) := by
  have hline : Size.add? (stride l) 1 = some (stride l + 1) := if_pos (stride_lt l)
  rw [Layout.filteredSize?, stride?_eq]
  change (Size.add? (stride l) 1).bind (fun line => Size.mul? line l.height.toNat) = _
  rw [hline]
  rfl

theorem pixelSize?_eq (l : Layout) : l.pixelSize? = Size.ofNat? (pixelSize l) := by
  simp only [Layout.pixelSize?, stride?_eq]
  rfl

theorem filteredSize_eq (l : Layout) : filteredSize l = pixelSize l + l.height.toNat := by
  rw [filteredSize, pixelSize, Nat.add_mul, Nat.one_mul]

theorem filteredSize?_of_lt {l : Layout} (h : filteredSize l < Size.limit) :
    l.filteredSize? = some (filteredSize l) := by
  rw [filteredSize?_eq, Size.ofNat?, if_pos h]

theorem filteredSize?_of_le {l : Layout} (h : Size.limit ≤ filteredSize l) :
    l.filteredSize? = none := by
  rw [filteredSize?_eq, Size.ofNat?, if_neg (Nat.not_lt.mpr h)]

theorem size_eq_of_filteredSize? {l : Layout} {size : Nat} (h : l.filteredSize? = some size) :
    filteredSize l < Size.limit ∧ size = filteredSize l := by
  rw [filteredSize?_eq] at h
  exact Size.eq_of_ofNat? h

theorem size_eq_of_pixelSize? {l : Layout} {size : Nat} (h : l.pixelSize? = some size) :
    pixelSize l < Size.limit ∧ size = pixelSize l := by
  rw [pixelSize?_eq] at h
  exact Size.eq_of_ofNat? h

theorem pixelSize?_of_lt {l : Layout} (h : filteredSize l < Size.limit) :
    l.pixelSize? = some (pixelSize l) := by
  have hle := filteredSize_eq l
  rw [pixelSize?_eq, Size.ofNat?, if_pos (by omega)]

theorem toNat_pixelCount (l : Layout) :
    l.pixelCount.toNat = l.width.toNat * l.height.toNat := by
  have h := toNat_mul_toNat_lt l.width l.height
  rw [Layout.pixelCount, UInt64.toNat_mul, UInt32.toNat_toUInt64, UInt32.toNat_toUInt64]
  exact Nat.mod_eq_of_lt h

theorem bitsPerPixel_bounds :
    ∀ format : PixelFormat, 1 ≤ format.bitsPerPixel ∧ format.bitsPerPixel ≤ 64 :=
  PixelFormat.forall_of_all (by decide)

theorem toNat_bitsPerPixel (width height : UInt32) (format : PixelFormat) :
    (Layout.ofFormat width height format).bitsPerPixel.toNat = format.bitsPerPixel := by
  have hle := (bitsPerPixel_bounds format).2
  exact UInt32.toNat_ofNat_of_lt' (Nat.lt_of_le_of_lt hle (by decide))

theorem stride_ofFormat (width height : UInt32) (format : PixelFormat) :
    stride (.ofFormat width height format) = (width.toNat * format.bitsPerPixel + 7) / 8 := by
  rw [stride, toNat_bitsPerPixel]
  rfl

theorem bitsPerPixel_pos (width height : UInt32) (format : PixelFormat) :
    1 ≤ (Layout.ofFormat width height format).bitsPerPixel.toNat := by
  rw [toNat_bitsPerPixel]
  exact (bitsPerPixel_bounds format).1

theorem bitsPerPixel_le (width height : UInt32) (format : PixelFormat) :
    (Layout.ofFormat width height format).bitsPerPixel.toNat ≤ 64 := by
  rw [toNat_bitsPerPixel]
  exact (bitsPerPixel_bounds format).2

theorem stride_le_columns (width height : UInt32) (format : PixelFormat) :
    stride (.ofFormat width height format) ≤ 8 * width.toNat := by
  have hbits : width.toNat * (Layout.ofFormat width height format).bitsPerPixel.toNat ≤
      width.toNat * 64 := Nat.mul_le_mul_left _ (bitsPerPixel_le width height format)
  have hdef : stride (.ofFormat width height format) =
    (width.toNat * (Layout.ofFormat width height format).bitsPerPixel.toNat + 7) / 8 := rfl
  omega

theorem pixelSize_le (width height : UInt32) (format : PixelFormat) :
    pixelSize (.ofFormat width height format) ≤ 8 * (width.toNat * height.toNat) := by
  rw [← Nat.mul_assoc]
  exact Nat.mul_le_mul_right height.toNat (stride_le_columns width height format)

theorem filteredSize_le {width : UInt32} (h : 1 ≤ width.toNat) (height : UInt32)
    (format : PixelFormat) :
    filteredSize (.ofFormat width height format) ≤ 9 * (width.toNat * height.toNat) := by
  have hstride := stride_le_columns width height format
  rw [← Nat.mul_assoc]
  exact Nat.mul_le_mul_right height.toNat (by omega)

end Png.Proofs.Sizes

import Png.Proofs.PackedRow
import Png.Proofs.Range

namespace Png.Proofs.SampleAccess

open Consistency Packing PackedRow

variable {p q : Picture} {width height : UInt32} {format : PixelFormat} {x y channel : Nat}
  {table : Nat → Nat → Nat → UInt16} {padding : Nat → Nat → Bool}

/-- All numbers at the places of an image are samples of its depth. -/
def IsTable (l : Layout) (table : Nat → Nat → Nat → UInt16) : Prop :=
  ∀ y < l.height.toNat, ∀ x < l.width.toNat, ∀ channel < l.format.channels,
    (table y x channel).toNat < l.format.depth.levels

/-- The pixels of a picture are those of a table, with any bits behind each row. -/
def IsPacked (p : Picture) (l : Layout) (table : Nat → Nat → Nat → UInt16) : Prop :=
  p.layout = some l ∧ ∃ padding, p.pixels = some (l.pack table padding)

/-- The samples of a picture are those of a table, and there are no others. -/
def Shows (p : Picture) (l : Layout) (table : Nat → Nat → Nat → UInt16) : Prop :=
  ∀ x y channel, p.sample x y channel =
    if x < l.width.toNat ∧ y < l.height.toNat ∧ channel < l.format.channels then
      some (table y x channel)
    else none

def pixelBitsOf (p : Picture) (y : Nat) : Option (List Bool) := do
  let l ← p.layout
  (p.row y).map (pixelBits l.format l.width.toNat)

/-- A history of operations has left the picture with pixels. -/
def IsDecoded (p : Picture) : Prop :=
  ∃ history, p = Picture.blank.after history ∧ p.isDecoded = true

section

variable (hlayout : p.layout = some (.ofFormat width height format))

include hlayout

theorem stride_eq : p.stride = (width.toNat * format.bitsPerPixel + 7) / 8 := by
  rw [stride_of_layout hlayout, Sizes.stride_ofFormat]

theorem sample_eq (x y channel : Nat) : p.sample x y channel =
    if x < width.toNat ∧ channel < format.channels then
      (p.row y).bind fun row => packedSample row format x channel
    else none := by
  rw [Picture.sample, Picture.sampleOf, hlayout]
  rfl

theorem luma_eq (x y : Nat) : p.luma x y =
    if x < width.toNat then (p.row y).bind fun row => packedLuma row format x else none := by
  rw [Picture.luma, Picture.lumaOf, hlayout]
  rfl

theorem pixelBitsOf_eq (y : Nat) :
    pixelBitsOf p y = (p.row y).map (pixelBits format width.toNat) := by
  rw [pixelBitsOf, hlayout]
  rfl

theorem shows_of_rows (hrows : ∀ y < height.toNat, ∃ row, p.row y = some row ∧
      ∀ x < width.toNat, ∀ channel < format.channels,
        packedSample row format x channel = some (table y x channel)) :
    Shows p (.ofFormat width height format) table := by
  intro x y channel
  rw [sample_eq hlayout]
  by_cases hy : y < height.toNat
  · obtain ⟨row, hrow, htable⟩ := hrows y hy
    by_cases hinside : x < width.toNat ∧ channel < format.channels
    · rw [if_pos hinside, hrow]
      exact (htable x hinside.1 channel hinside.2).trans (if_pos ⟨hinside.1, hy, hinside.2⟩).symm
    · rw [if_neg hinside]
      exact (if_neg fun h => hinside ⟨h.1, h.2.2⟩).symm
  · have hnone : p.row y = none := row_eq_none (height_of_layout hlayout ▸ hy)
    rw [hnone]
    exact (ite_self none).trans (if_neg fun h => hy h.2.1).symm

theorem row_of_pack
    (hpixels : p.pixels = some (Layout.pack (.ofFormat width height format) table padding))
    (hy : y < height.toNat) :
    p.row y = some (bytesOf (padded (rowBits format width.toNat (table y)) (padding y))) := by
  have hheight : p.height = height := height_of_layout hlayout
  have hrow : ∀ y, (bytesOf (padded (rowBits format width.toNat (table y)) (padding y))).length =
      p.stride := by
    intro y
    rw [length_packed, stride_eq hlayout]
  have hlength : (Layout.pack (.ofFormat width height format) table padding).length =
      p.stride * p.height.toNat := by
    rw [hheight, Nat.mul_comm]
    exact (Pieces.length_flatMap hrow _).trans (congrArg (· * p.stride) List.length_range)
  rw [row_eq hpixels hlength (hheight ▸ hy)]
  exact congrArg some (Pieces.piece_flatMap hrow (List.getElem?_range hy))

theorem shows_of_pack (htable : IsTable (.ofFormat width height format) table)
    (hpixels : p.pixels = some (Layout.pack (.ofFormat width height format) table padding)) :
    Shows p (.ofFormat width height format) table := by
  apply shows_of_rows hlayout
  intro y hy
  refine ⟨_, row_of_pack hlayout hpixels hy, ?_⟩
  intro x hx channel hchannel
  have hlength := length_packed format width.toNat (table y) (padding y)
  exact packedSample_of_rowBits (by omega) (pixelBits_packed format width.toNat _ _) hx hchannel
    (htable y hy x hx channel hchannel)

theorem exists_row (h : HoldsImage p) (hy : y < height.toNat) :
    ∃ row, p.row y = some row ∧ row.length = (width.toNat * format.bitsPerPixel + 7) / 8 := by
  have hheight : p.height = height := height_of_layout hlayout
  obtain ⟨row, hrow⟩ := Option.isSome_iff_exists.mp ((h.isSome_row y).mpr (hheight ▸ hy))
  exact ⟨row, hrow, (h.length_row y row hrow).trans (stride_eq hlayout)⟩

end

theorem exists_table (h : HoldsImage p) :
    ∃ l table, IsTable l table ∧ IsPacked p l table ∧ Shows p l table := by
  obtain ⟨width, height, format, -, -, hlayout⟩ := h.layout
  have hheight : p.height = height := height_of_layout hlayout
  have hrows : ∀ y < height.toNat, ∃ table padding,
      p.row y = some (bytesOf (padded (rowBits format width.toNat table) padding)) ∧
        ∀ x < width.toNat, ∀ channel < format.channels,
          packedSample (bytesOf (padded (rowBits format width.toNat table) padding)) format x
            channel = some (table x channel) := by
    intro y hy
    obtain ⟨row, hrow, hlength⟩ := exists_row hlayout h hy
    obtain ⟨table, padding, rfl, htable⟩ := exists_packed hlength
    exact ⟨table, padding, hrow, htable⟩
  choose! table padding hrow htable using hrows
  have hpixels := h.rows
  rw [hheight, List.filterMap_eq_map_iff_forall_eq_some.mpr fun y hy =>
    hrow y (List.mem_range.mp hy)] at hpixels
  refine ⟨_, table, ?_, ⟨hlayout, padding, hpixels⟩, ?_⟩
  · intro y hy x hx channel hchannel
    exact PixelRange.lt_of_packedSample (htable y hy x hx channel hchannel)
  · exact shows_of_rows hlayout fun y hy => ⟨_, hrow y hy, htable y hy⟩

theorem same_of_pixelBits (hp : HoldsImage p) (hq : HoldsImage q) (hlayout : p.layout = q.layout)
    (hbits : ∀ y, pixelBitsOf p y = pixelBitsOf q y) (x y : Nat) :
    p.luma x y = q.luma x y ∧ ∀ channel, p.sample x y channel = q.sample x y channel := by
  obtain ⟨width, height, format, -, -, hofp⟩ := hp.layout
  have hofq : q.layout = some (.ofFormat width height format) := hlayout ▸ hofp
  simp only [sample_eq hofp, sample_eq hofq, luma_eq hofp, luma_eq hofq]
  by_cases hy : y < height.toNat
  · obtain ⟨row, hrow, hlength⟩ := exists_row hofp hp hy
    obtain ⟨other, hother, hlength'⟩ := exists_row hofq hq hy
    -- Both rows are there, so they have the same bits, and then the same samples.
    have hsame := hbits y
    rw [pixelBitsOf_eq hofp, pixelBitsOf_eq hofq, hrow, hother, Option.map_some, Option.map_some,
      Option.some_inj] at hsame
    have hsamples : ∀ x < width.toNat, ∀ channel < format.channels,
        packedSample row format x channel = packedSample other format x channel :=
      fun x hx channel => packedSample_congr (by omega) (by omega) hsame hx
    simp only [hrow, hother, Option.bind_some]
    refine ⟨?_, fun channel => ?_⟩
    · split
      · exact packedLuma_congr (hsamples x ‹_›)
      · rfl
    · split
      · rename_i hinside
        exact hsamples x hinside.1 channel hinside.2
      · rfl
  · have hrow : p.row y = none := row_eq_none (height_of_layout hofp ▸ hy)
    have hother : q.row y = none := row_eq_none (height_of_layout hofq ▸ hy)
    rw [hrow, hother]
    exact ⟨rfl, fun _ => rfl⟩

theorem holdsImage_of_isDecoded (h : IsDecoded p) : HoldsImage p := by
  obtain ⟨history, rfl, hdecoded⟩ := h
  have hblank : IsConsistent Picture.blank := isConsistent_of_no_pixels rfl
  exact (isConsistent_after hblank history).decoded hdecoded

/-- Reading samples undoes packing them. A picture with the pixels of a table shows the table and
nothing else, whatever bits fill up its rows. The pixels of any image that was decoded are packed
from the samples that it shows. Two images of one layout that differ only in the bits that fill up
their rows show the same samples and the same brightness. -/
theorem sample_inverts_packing :
    (∀ width height format table p, IsTable (.ofFormat width height format) table →
      IsPacked p (.ofFormat width height format) table →
      Shows p (.ofFormat width height format) table) ∧
    (∀ p, IsDecoded p → ∃ l table, IsTable l table ∧ IsPacked p l table ∧ Shows p l table) ∧
    ∀ p q, IsDecoded p → IsDecoded q → p.layout = q.layout →
      (∀ y, pixelBitsOf p y = pixelBitsOf q y) →
      ∀ x y, p.luma x y = q.luma x y ∧ ∀ channel, p.sample x y channel = q.sample x y channel := by
  refine ⟨?_, ?_, ?_⟩
  · rintro width height format table p htable ⟨hlayout, padding, hpixels⟩
    exact shows_of_pack hlayout htable hpixels
  · intro p h
    exact exists_table (holdsImage_of_isDecoded h)
  · intro p q hp hq
    exact same_of_pixelBits (holdsImage_of_isDecoded hp) (holdsImage_of_isDecoded hq)

def narrowLayout : Layout := .ofFormat 3 1 (.luminance .one)

def threePixels (row : UInt8) : Container.File where
  header := (Ihdr.ofFormat 3 1 (.luminance .one)).toBytes
  headerCrc := 0
  chunks := [⟨Tag.idat, [0, row], 0⟩]
  trailer := none
  length_header := rfl
  chunks_fit := by
    intro c hc
    obtain rfl := List.mem_singleton.mp hc
    exact ⟨show 2 < UInt32.size by decide, show Tag.idat ≠ Tag.iend by decide⟩

theorem isDecoded_threePixels {row : UInt8} (h : row = 0xA0 ∨ row = 0xBF) :
    IsDecoded { layout := some narrowLayout, pixels := some [row] } := by
  have hhead : Container.headOf (threePixels row).header = .ok ⟨narrowLayout, 33⟩ := rfl
  have hdata : (threePixels row).imageData ≠ [] := List.cons_ne_nil 0 [row]
  have hafter : Picture.blank.after [.load Range.copying (threePixels row).toBytes] =
      { layout := some narrowLayout, pixels := some [row] } := by
    apply Range.after_copying hhead (by decide) (by decide) hdata
    obtain rfl | rfl := h <;> rfl
  exact ⟨_, hafter.symm, rfl⟩

theorem sample_inverts_packing_threePixels :
    IsTable narrowLayout (fun _ x _ => if x = 1 then 0 else 1) ∧
      Shows { layout := some narrowLayout, pixels := some [0xBF] } narrowLayout
        (fun _ x _ => if x = 1 then 0 else 1) ∧
      (∃ l table, IsTable l table ∧
        IsPacked { layout := some narrowLayout, pixels := some [0xA0] } l table ∧
        Shows { layout := some narrowLayout, pixels := some [0xA0] } l table) ∧
      Picture.luma { layout := some narrowLayout, pixels := some [0xA0] } 2 0 =
        Picture.luma { layout := some narrowLayout, pixels := some [0xBF] } 2 0 := by
  have htable : IsTable narrowLayout (fun _ x _ => if x = 1 then 0 else 1) := by
    intro y _ x _ channel _
    dsimp only
    split <;> decide
  have hbits : ∀ y, pixelBitsOf { layout := some narrowLayout, pixels := some [0xA0] } y =
      pixelBitsOf { layout := some narrowLayout, pixels := some [0xBF] } y := by
    intro y
    cases y with
    | zero => decide
    | succ y => rfl
  obtain ⟨hshows, hpacked, hsame⟩ := sample_inverts_packing
  refine ⟨htable, hshows 3 1 (.luminance .one) _ _ htable ⟨rfl, fun _ _ => true, ?_⟩,
    hpacked _ (isDecoded_threePixels (.inl rfl)), ?_⟩
  · decide
  · exact (hsame _ _ (isDecoded_threePixels (.inl rfl)) (isDecoded_threePixels (.inr rfl)) rfl
      hbits 2 0).1

end Png.Proofs.SampleAccess

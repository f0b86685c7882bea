import Mathlib.Data.List.Nodup
import Mathlib.Data.List.Sort
import Png.Checked.Draw
import Png.Proofs.Luminance

namespace Png.Proofs.Drawing

open Checked Consistency Luminance SampleAccess

def Covers (r : Rectangle) (x y : Int) : Prop :=
  (r.x ≤ x ∧ x < r.x + r.width) ∧ r.y ≤ y ∧ y < r.y + r.height

def IsShown (p : Picture) (area : Rectangle) (x y : Int) : Prop :=
  Covers area x y ∧ Covers p.frame x y

def cornerOf (area : Rectangle) : Int × Int := (max area.x 0, max area.y 0)

/-- What is drawn of the place of an image, if the target's origin lies on a corner. -/
def IsPixelAt (p : Picture) (corner : Int × Int) (x y : Int) (pixel : GreyPixel) : Prop :=
  p.luma x.toNat y.toNat = some pixel.luma ∧ pixel.x = x - corner.1 ∧ pixel.y = y - corner.2

def IsBefore (a b : GreyPixel) : Prop :=
  a.y < b.y ∨ a.y = b.y ∧ a.x < b.x

/-- The pixels of all places of the image within a rectangle, and no others, in their order. -/
structure IsDrawing (p : Picture) (area : Rectangle) (pixels : List GreyPixel) : Prop where
  mem_iff : ∀ pixel, pixel ∈ pixels ↔
    ∃ x y, IsShown p area x y ∧ IsPixelAt p (cornerOf area) x y pixel
  ordered : pixels.Pairwise IsBefore

variable {p : Picture} {area : Rectangle} {pixels : List GreyPixel} {pixel : GreyPixel} {x y : Int}

theorem mem_columns_iff : x ∈ area.columns ↔ area.x ≤ x ∧ x < area.x + area.width := by
  simp only [Rectangle.columns, List.mem_map, List.mem_range]
  constructor
  · rintro ⟨i, hi, rfl⟩
    omega
  · intro h
    exact ⟨(x - area.x).toNat, by omega, by omega⟩

theorem mem_rows_iff : y ∈ area.rows ↔ area.y ≤ y ∧ y < area.y + area.height := by
  simp only [Rectangle.rows, List.mem_map, List.mem_range]
  constructor
  · rintro ⟨i, hi, rfl⟩
    omega
  · intro h
    exact ⟨(y - area.y).toNat, by omega, by omega⟩

theorem covers_clip_iff (width height : Nat) :
    Covers (area.clip width height) x y ↔ Covers area x y ∧ Covers ⟨0, 0, width, height⟩ x y := by
  simp only [Covers, Rectangle.clip]
  omega

theorem mem_drawWithin_iff : pixel ∈ p.drawWithin area ↔
    ∃ x y, IsShown p area x y ∧ IsPixelAt p (cornerOf area) x y pixel := by
  simp only [Picture.drawWithin, List.mem_flatMap, List.mem_filterMap, mem_rows_iff,
    mem_columns_iff]
  constructor
  · rintro ⟨y, hy, x, hx, hpixel⟩
    obtain ⟨luma, hluma, rfl⟩ := Option.map_eq_some_iff.mp hpixel
    exact ⟨x, y, (covers_clip_iff _ _).mp ⟨hx, hy⟩, hluma, rfl, rfl⟩
  · rintro ⟨x, y, hshown, hluma, hx, hy⟩
    obtain ⟨hcolumn, hrow⟩ := (covers_clip_iff _ _).mpr hshown
    refine ⟨y, hrow, x, hcolumn, Option.map_eq_some_iff.mpr ⟨pixel.luma, hluma, ?_⟩⟩
    obtain ⟨left, top, luma⟩ := pixel
    obtain rfl : left = _ := hx
    obtain rfl : top = _ := hy
    rfl

theorem pairwise_columns (area : Rectangle) : area.columns.Pairwise (· < ·) := by
  rw [Rectangle.columns, List.pairwise_map]
  exact List.pairwise_lt_range.imp (by omega)

theorem pairwise_rows (area : Rectangle) : area.rows.Pairwise (· < ·) := by
  rw [Rectangle.rows, List.pairwise_map]
  exact List.pairwise_lt_range.imp (by omega)

theorem pairwise_drawWithin (p : Picture) (area : Rectangle) :
    (p.drawWithin area).Pairwise IsBefore := by
  refine List.pairwise_flatMap.mpr ⟨fun y _ => ?_, ?_⟩
  · refine List.pairwise_filterMap.mpr ((pairwise_columns _).imp ?_)
    intro x x' hx a ha b hb
    obtain ⟨_, -, rfl⟩ := Option.map_eq_some_iff.mp ha
    obtain ⟨_, -, rfl⟩ := Option.map_eq_some_iff.mp hb
    exact .inr ⟨rfl, Int.sub_lt_sub_right hx _⟩
  · refine (pairwise_rows _).imp ?_
    intro y y' hy a ha b hb
    obtain ⟨x, -, ha⟩ := List.mem_filterMap.mp ha
    obtain ⟨x', -, hb⟩ := List.mem_filterMap.mp hb
    obtain ⟨_, -, rfl⟩ := Option.map_eq_some_iff.mp ha
    obtain ⟨_, -, rfl⟩ := Option.map_eq_some_iff.mp hb
    exact .inl (Int.sub_lt_sub_right hy _)

instance : Std.Irrefl IsBefore where
  irrefl a h := by
    simp only [IsBefore] at h
    omega

instance : Std.Antisymm IsBefore where
  antisymm a b h h' := by
    simp only [IsBefore] at h h'
    omega

theorem eq_drawWithin_iff : pixels = p.drawWithin area ↔ IsDrawing p area pixels := by
  constructor
  · rintro rfl
    exact ⟨fun _ => mem_drawWithin_iff, pairwise_drawWithin p area⟩
  · intro h
    exact h.ordered.eq_of_mem_iff (pairwise_drawWithin p area) fun pixel =>
      (h.mem_iff pixel).trans mem_drawWithin_iff.symm

theorem drawWithin_eq_nil (h : ∀ x y, ¬ IsShown p area x y) : p.drawWithin area = [] := by
  apply List.eq_nil_iff_forall_not_mem.mpr
  intro pixel hpixel
  obtain ⟨x, y, hshown, -⟩ := mem_drawWithin_iff.mp hpixel
  exact h x y hshown

theorem corner_of_isShown (h : IsShown p area x y) :
    IsShown p area (cornerOf area).1 (cornerOf area).2 ∧
      (cornerOf area).1 ≤ x ∧ (cornerOf area).2 ≤ y := by
  simp only [IsShown, Covers, cornerOf, Picture.frame] at h ⊢
  omega

/-- Rectangles that cover every place of another one, each of them once, and no place else. -/
structure IsPartition (whole : Rectangle) (parts : List Rectangle) : Prop where
  covers_iff : ∀ x y, Covers whole x y ↔ ∃ r ∈ parts, Covers r x y
  disjoint : parts.Pairwise fun r s => ∀ x y, ¬ (Covers r x y ∧ Covers s x y)

def moveBack (r : Rectangle) (pixel : GreyPixel) : GreyPixel :=
  { pixel with x := pixel.x + r.x, y := pixel.y + r.y }

section

variable {r : Rectangle} (hinside : ∀ x y, Covers r x y → Covers p.frame x y)

include hinside

theorem cornerOf_eq (h : Covers r x y) : cornerOf r = (r.x, r.y) := by
  have hcorner : Covers r r.x r.y := by
    simp only [Covers] at h ⊢
    omega
  have hframe := hinside _ _ hcorner
  simp only [Covers, Picture.frame] at hframe
  simp only [cornerOf, Prod.mk.injEq]
  omega

theorem mem_moveBack_iff : pixel ∈ (p.drawWithin r).map (moveBack r) ↔
    Covers r pixel.x pixel.y ∧ p.luma pixel.x.toNat pixel.y.toNat = some pixel.luma := by
  constructor
  · intro h
    obtain ⟨moved, hmoved, rfl⟩ := List.mem_map.mp h
    obtain ⟨x, y, ⟨hcovers, -⟩, hluma, hx, hy⟩ := mem_drawWithin_iff.mp hmoved
    rw [cornerOf_eq hinside hcovers] at hx hy
    have hleft : (moveBack r moved).x = x := by
      simp only [moveBack, hx]
      omega
    have htop : (moveBack r moved).y = y := by
      simp only [moveBack, hy]
      omega
    rw [hleft, htop]
    exact ⟨hcovers, hluma⟩
  · rintro ⟨hcovers, hluma⟩
    refine List.mem_map.mpr ⟨⟨pixel.x - r.x, pixel.y - r.y, pixel.luma⟩, ?_, ?_⟩
    · refine mem_drawWithin_iff.mpr
        ⟨pixel.x, pixel.y, ⟨hcovers, hinside _ _ hcovers⟩, hluma, ?_⟩
      rw [cornerOf_eq hinside hcovers]
      exact ⟨rfl, rfl⟩
    · simp only [moveBack, Int.sub_add_cancel]

end

theorem nodup_moveBack (p : Picture) (r : Rectangle) :
    ((p.drawWithin r).map (moveBack r)).Nodup := by
  refine (pairwise_drawWithin p r).nodup.map ?_
  rintro ⟨x, y, luma⟩ ⟨x', y', luma'⟩ h
  simpa [moveBack] using h

theorem draw_eq_moveBack (p : Picture) :
    p.draw = (p.drawWithin p.frame).map (moveBack p.frame) := by
  have hid : moveBack p.frame = id := by
    funext pixel
    simp [moveBack, Picture.frame]
  rw [hid, List.map_id, Picture.draw]

theorem perm_of_isPartition {parts : List Rectangle} (h : IsPartition p.frame parts) :
    (parts.flatMap fun r => (p.drawWithin r).map (moveBack r)).Perm p.draw := by
  have hinside : ∀ r ∈ parts, ∀ x y, Covers r x y → Covers p.frame x y :=
    fun r hr x y hcovers => (h.covers_iff x y).mpr ⟨r, hr, hcovers⟩
  have hnodup : (parts.flatMap fun r => (p.drawWithin r).map (moveBack r)).Nodup := by
    refine List.nodup_flatMap.mpr ⟨fun r _ => nodup_moveBack p r, ?_⟩
    refine h.disjoint.imp_of_mem fun {r s} hr hs hdisjoint pixel hpixel hpixel' => ?_
    obtain ⟨hcovers, -⟩ := (mem_moveBack_iff (hinside r hr)).mp hpixel
    obtain ⟨hcovers', -⟩ := (mem_moveBack_iff (hinside s hs)).mp hpixel'
    exact hdisjoint _ _ ⟨hcovers, hcovers'⟩
  rw [draw_eq_moveBack]
  refine (List.perm_ext_iff_of_nodup hnodup (nodup_moveBack p p.frame)).mpr fun pixel => ?_
  rw [mem_moveBack_iff fun _ _ => id, h.covers_iff, List.mem_flatMap]
  constructor
  · rintro ⟨r, hr, hpixel⟩
    obtain ⟨hcovers, hluma⟩ := (mem_moveBack_iff (hinside r hr)).mp hpixel
    exact ⟨⟨r, hr, hcovers⟩, hluma⟩
  · rintro ⟨⟨r, hr, hcovers⟩, hluma⟩
    exact ⟨r, hr, (mem_moveBack_iff (hinside r hr)).mpr ⟨hcovers, hluma⟩⟩

theorem clip_frame (p : Picture) : p.frame.clip p.viewSize.1 p.viewSize.2 = p.frame := by
  simp [Rectangle.clip, Picture.frame]

theorem mapM_of_some {α β : Type} {f : α → Option β} {g : α → β} {l : List α}
    (h : ∀ a ∈ l, f a = some (g a)) : l.mapM f = some (l.map g) := by
  induction l with
  | nil => rfl
  | cons a l ih =>
    obtain ⟨ha, hl⟩ := List.forall_mem_cons.mp h
    rw [List.mapM_cons, ha, ih hl]
    rfl

theorem place?_of_lt {n : Int} (hlow : 0 ≤ n) (hhigh : n < 0x80000000) : place? n = some n :=
  if_pos ⟨by omega, hhigh⟩

theorem index?_of_lt {n : Int} (hlow : 0 ≤ n) (hhigh : n < 0x80000000) :
    index? n = some n.toNat := by
  have hsize : UInt32.size = 0x100000000 := rfl
  rw [index?, if_pos hlow]
  exact below?_of_lt (by omega)

section

variable (h : HoldsImage p)

include h

theorem viewSize_of_holdsImage : p.viewSize = (p.width.toNat, p.height.toNat) := by
  rw [Picture.viewSize, Picture.isDecoded, h.rows]
  rfl

theorem frame_eq : p.frame = ⟨0, 0, p.width.toNat, p.height.toNat⟩ := by
  rw [Picture.frame, viewSize_of_holdsImage h]

theorem exists_pixel (hshown : IsShown p area x y) :
    ∃ pixel, IsPixelAt p (cornerOf area) x y pixel := by
  have hframe := hshown.2
  simp only [Covers, frame_eq h] at hframe
  obtain ⟨a, ha⟩ := exists_colour h (x := x.toNat) (y := y.toNat) (by omega) (by omega)
  exact ⟨⟨_, _, a.luma⟩, luma_of_hasColour h ha, rfl, rfl⟩

theorem draw_eq : p.draw = (List.range p.height.toNat).flatMap fun (y : Nat) =>
    (List.range p.width.toNat).map fun (x : Nat) => ⟨x, y, (p.luma x y).getD 0⟩ := by
  rw [Picture.draw, Picture.drawWithin, clip_frame, frame_eq h]
  simp only [Rectangle.rows, Rectangle.columns, List.flatMap_map, List.filterMap_map]
  refine List.flatMap_congr fun y hy => List.filterMap_eq_map_iff_forall_eq_some.mpr fun x hx => ?_
  obtain ⟨a, ha⟩ := exists_colour h (List.mem_range.mp hx) (List.mem_range.mp hy)
  have hluma : p.lumaOf (p.row y) x = some a.luma := luma_of_hasColour h ha
  simp [hluma, luma_of_hasColour h ha]

theorem length_draw : p.draw.length = p.width.toNat * p.height.toNat := by
  rw [draw_eq h, Pieces.length_flatMap (k := p.width.toNat) fun y => by simp, List.length_range,
    Nat.mul_comm]

theorem pixel?_eq {corner : Int × Int} (hx : corner.1 ≤ x ∧ x < 0x80000000)
    (hy : corner.2 ≤ y ∧ y < 0x80000000) (hcorner : 0 ≤ corner.1 ∧ 0 ≤ corner.2) :
    pixel? p corner (x, y) =
      some ((p.luma x.toNat y.toNat).map fun luma => ⟨x - corner.1, y - corner.2, luma⟩) := by
  rw [Option.map_eq_bind]
  apply bind_of_some (place?_of_lt (by omega) hx.2)
  apply bind_of_some (place?_of_lt (by omega) hy.2)
  apply bind_of_some (index?_of_lt (by omega) hx.2)
  apply bind_of_some (index?_of_lt (by omega) hy.2)
  apply PixelRange.following_of (PixelRange.luma?_eq h x.toNat y.toNat)
  intro luma _
  apply bind_of_some (place?_of_lt (by omega) (by omega))
  apply bind_of_some (place?_of_lt (by omega) (by omega))
  rfl

theorem drawWithin?_eq (hwidth : p.width.toNat < 0x80000000) (hheight : p.height.toNat < 0x80000000)
    (area : Rectangle) : drawWithin? p area = some (p.drawWithin area) := by
  let shown := area.clip p.viewSize.1 p.viewSize.2
  let pixelOf (place : Int × Int) : Option GreyPixel :=
    (p.luma place.1.toNat place.2.toNat).map fun luma =>
      ⟨place.1 - shown.x, place.2 - shown.y, luma⟩
  -- A place that is drawn lies in the image, so it is in range, and so is its distance to the
  -- corner.
  have hpixels : ∀ place ∈ shown.rows.flatMap fun y => shown.columns.map fun x => (x, y),
      pixel? p (shown.x, shown.y) place = some (pixelOf place) := by
    intro place hplace
    obtain ⟨y, hy, hplace⟩ := List.mem_flatMap.mp hplace
    obtain ⟨x, hx, rfl⟩ := List.mem_map.mp hplace
    rw [mem_rows_iff] at hy
    rw [mem_columns_iff] at hx
    have hcovers := (covers_clip_iff _ _).mp ⟨hx, hy⟩
    have hleft : shown.x = max area.x 0 := rfl
    have htop : shown.y = max area.y 0 := rfl
    simp only [viewSize_of_holdsImage h, Covers] at hcovers
    apply pixel?_eq h ⟨hx.1, by omega⟩ ⟨hy.1, by omega⟩
    dsimp only
    omega
  apply bind_of_some (mapM_of_some hpixels)
  rw [List.filterMap_map, Function.id_comp, List.filterMap_flatMap]
  simp only [List.filterMap_map]
  rfl

end

structure DrawsShown (p : Picture) : Prop where
  frame : p.frame = ⟨0, 0, p.width.toNat, p.height.toNat⟩
  drawn_iff : ∀ area pixels, pixels = p.drawWithin area ↔ IsDrawing p area pixels
  /-- No place is left out for want of a brightness. -/
  pixel : ∀ area x y, IsShown p area x y → ∃ pixel, IsPixelAt p (cornerOf area) x y pixel
  corner : ∀ area x y, IsShown p area x y →
    IsShown p area (cornerOf area).1 (cornerOf area).2 ∧
      (cornerOf area).1 ≤ x ∧ (cornerOf area).2 ≤ y
  nothing : ∀ area, (∀ x y, ¬ IsShown p area x y) → p.drawWithin area = []
  whole : p.draw = (List.range p.height.toNat).flatMap fun (y : Nat) =>
    (List.range p.width.toNat).map fun (x : Nat) => ⟨x, y, (p.luma x y).getD 0⟩
  length : p.draw.length = p.width.toNat * p.height.toNat
  parts : ∀ parts, IsPartition p.frame parts →
    (parts.flatMap fun r => (p.drawWithin r).map (moveBack r)).Perm p.draw
  /-- Signed numbers of 32 bits are enough for all places. -/
  inRange : p.width.toNat < 0x80000000 → p.height.toNat < 0x80000000 →
    ∀ area, drawWithin? p area = some (p.drawWithin area)

theorem drawsShown (h : HoldsImage p) : DrawsShown p where
  frame := frame_eq h
  drawn_iff := fun _ _ => eq_drawWithin_iff
  pixel := fun _ _ _ => exists_pixel h
  corner := fun _ _ _ => corner_of_isShown
  nothing := fun _ => drawWithin_eq_nil
  whole := draw_eq h
  length := length_draw h
  parts := fun _ => perm_of_isPartition
  inRange := drawWithin?_eq h

theorem drawWithin_of_not_isDecoded (h : p.isDecoded = false) (area : Rectangle) :
    p.drawWithin area = [] := by
  apply drawWithin_eq_nil
  rintro x y ⟨-, hframe⟩
  simp only [Covers, Picture.frame, Picture.viewSize, h, Bool.false_eq_true, if_false] at hframe
  omega

/-- Of an image that was decoded, the pixels within a rectangle are drawn, each once and in their
order. Of any other picture nothing is drawn. -/
theorem draws_clipped_pixels :
    (∀ p, IsDecoded p → DrawsShown p) ∧
      ∀ p : Picture, p.isDecoded = false → p.draw = [] ∧ ∀ area, p.drawWithin area = [] := by
  refine ⟨fun p h => drawsShown (holdsImage_of_isDecoded h), fun p h => ?_⟩
  exact ⟨drawWithin_of_not_isDecoded h p.frame, drawWithin_of_not_isDecoded h⟩

def small : Picture :=
  { layout := some Range.smallLayout, pixels := some [10, 255, 20, 128, 13, 250, 200, 0] }

theorem draws_clipped_pixels_small :
    IsDecoded small ∧ IsDrawing small ⟨1, -3, 9, 4⟩ [⟨0, 0, 137⟩] ∧
      drawWithin? small ⟨1, -3, 9, 4⟩ = some [⟨0, 0, 137⟩] ∧
      ([⟨0, 0, 1, 2⟩, ⟨1, 0, 1, 2⟩].flatMap fun r => (small.drawWithin r).map (moveBack r)).Perm
        small.draw ∧
      Picture.blank.isDecoded = false ∧ Picture.blank.drawWithin ⟨-1, -1, 3, 3⟩ = [] := by
  have hdecoded : IsDecoded small := ⟨Range.oneImage, Range.after_oneImage.symm, rfl⟩
  have hcolumns : IsPartition small.frame [⟨0, 0, 1, 2⟩, ⟨1, 0, 1, 2⟩] := by
    have hframe : small.frame = ⟨0, 0, 2, 2⟩ := rfl
    constructor
    · intro x y
      simp only [hframe, Covers, List.mem_cons, List.not_mem_nil, or_false, exists_eq_or_imp,
        exists_eq_left]
      omega
    · simp [Covers]
      omega
  have hdrawn : [⟨0, 0, 137⟩] = small.drawWithin ⟨1, -3, 9, 4⟩ := by decide
  obtain ⟨hdraws, hblank⟩ := draws_clipped_pixels
  refine ⟨hdecoded, ((hdraws small hdecoded).drawn_iff _ _).mp hdrawn, ?_,
    (hdraws small hdecoded).parts _ hcolumns, rfl, (hblank Picture.blank rfl).2 _⟩
  rw [(hdraws small hdecoded).inRange (by decide) (by decide), hdrawn]

end Png.Proofs.Drawing

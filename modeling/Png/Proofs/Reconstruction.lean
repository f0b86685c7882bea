import Png.Proofs.Rows
import Png.Proofs.Sizes

namespace Png.Proofs.Reconstruction

open Prediction Rows Sizes

variable {stride bpp : Nat} {filtered out : List UInt8} {done rows : List (List UInt8)}

def tagAt (stride : Nat) (filtered : List UInt8) (y : Nat) : UInt8 :=
  filtered.getD (y * (stride + 1)) 0

def dataAt (stride : Nat) (filtered : List UInt8) (y i : Nat) : UInt8 :=
  filtered.getD (y * (stride + 1) + 1 + i) 0

def pixelAt (stride : Nat) (pixels : List UInt8) (y i : Nat) : UInt8 :=
  pixels.getD (y * stride + i) 0

def lineAt (stride : Nat) (filtered : List UInt8) (y : Nat) : List UInt8 :=
  (filtered.drop (y * (stride + 1) + 1)).take stride

def AreRows (stride bpp : Nat) (filtered first : List UInt8) (rows : List (List UInt8)) : Prop :=
  ∀ y < rows.length, ∃ f, FilterType.ofByte? (tagAt stride filtered y) = some f ∧
    IsRow f bpp (lineAt stride filtered y) ((first :: rows).getD y []) (rows.getD y [])

theorem ofByte?_eq_none_iff (b : UInt8) : FilterType.ofByte? b = none ↔ 4 < b := by
  unfold FilterType.ofByte?
  split <;> try (simp; done)
  rename_i h0 h1 h2 h3 h4
  refine iff_of_true rfl (UInt8.lt_iff_toNat_lt.mpr (Nat.lt_of_not_le fun hle => ?_))
  have hle' : b.toNat ≤ 4 := hle
  have hcases : b.toNat = 0 ∨ b.toNat = 1 ∨ b.toNat = 2 ∨ b.toNat = 3 ∨ b.toNat = 4 := by omega
  obtain h | h | h | h | h := hcases
  · exact h0 (UInt8.toNat_inj.mp h)
  · exact h1 (UInt8.toNat_inj.mp h)
  · exact h2 (UInt8.toNat_inj.mp h)
  · exact h3 (UInt8.toNat_inj.mp h)
  · exact h4 (UInt8.toNat_inj.mp h)

theorem exists_ofByte? {b : UInt8} (h : ¬ 4 < b) : ∃ f, FilterType.ofByte? b = some f := by
  rw [← ofByte?_eq_none_iff] at h
  exact Option.ne_none_iff_exists'.mp h

theorem tagAt_succ (tag : UInt8) (rest : List UInt8) (y : Nat) :
    tagAt stride (tag :: rest) (y + 1) = tagAt stride (rest.drop stride) y := by
  rw [tagAt, tagAt]
  have hindex : (y + 1) * (stride + 1) = (stride + y * (stride + 1)) + 1 := by
    rw [Nat.succ_mul]
    omega
  rw [hindex, List.getD_cons_succ, List.getD_eq_getElem?_getD, List.getD_eq_getElem?_getD,
    List.getElem?_drop]

theorem lineAt_zero (tag : UInt8) (rest : List UInt8) :
    lineAt stride (tag :: rest) 0 = rest.take stride := by
  rw [lineAt, Nat.zero_mul, Nat.zero_add, List.drop_succ_cons, List.drop_zero]

theorem lineAt_succ (tag : UInt8) (rest : List UInt8) (y : Nat) :
    lineAt stride (tag :: rest) (y + 1) = lineAt stride (rest.drop stride) y := by
  rw [lineAt, lineAt]
  have hindex : (y + 1) * (stride + 1) + 1 = (stride + (y * (stride + 1) + 1)) + 1 := by
    rw [Nat.succ_mul]
    omega
  rw [hindex, List.drop_succ_cons, List.drop_drop]

theorem length_lineAt {n y : Nat} (hlen : filtered.length = n * (stride + 1)) (hy : y < n) :
    (lineAt stride filtered y).length = stride := by
  have hle : (y + 1) * (stride + 1) ≤ n * (stride + 1) := Nat.mul_le_mul_right _ hy
  rw [Nat.succ_mul] at hle
  rw [lineAt, List.length_take, List.length_drop]
  omega

theorem getD_lineAt {i : Nat} (hi : i < stride) (y : Nat) :
    (lineAt stride filtered y).getD i 0 = dataAt stride filtered y i := by
  rw [lineAt, dataAt, List.getD_eq_getElem?_getD, List.getD_eq_getElem?_getD,
    List.getElem?_take_of_lt hi, List.getElem?_drop]

theorem exists_cons {n : Nat} (hlen : filtered.length = (n + 1) * (stride + 1)) :
    ∃ tag rest, filtered = tag :: rest ∧ stride ≤ rest.length ∧
      (rest.drop stride).length = n * (stride + 1) := by
  rw [Nat.succ_mul] at hlen
  cases filtered with
  | nil => simp at hlen
  | cons tag rest =>
    rw [List.length_cons] at hlen
    refine ⟨tag, rest, rfl, by omega, ?_⟩
    rw [List.length_drop]
    omega

theorem le_head {row : List UInt8} (hrow : row.length = stride)
    (hdone : ∀ r ∈ done, r.length = stride) : ∀ above ∈ done.head?, row.length ≤ above.length := by
  intro above hm
  exact Nat.le_of_eq (hrow.trans (hdone above (List.mem_of_mem_head? hm)).symm)

theorem reconstructRows_cons {tag : UInt8} {rest : List UInt8} {f : FilterType}
    (hf : FilterType.ofByte? tag = some f) (hrest : stride ≤ rest.length)
    (hdone : ∀ r ∈ done, r.length = stride) (bpp : Nat) :
    ∃ row, IsRow f bpp (rest.take stride) (done.head?.getD []) row ∧ row.length = stride ∧
      reconstructRows stride bpp done (tag :: rest) =
        reconstructRows stride bpp (row :: done) (rest.drop stride) := by
  have htake : (rest.take stride).length = stride := by
    rw [List.length_take]
    omega
  obtain ⟨row, hrow, hspec⟩ := reconstructRow_isRow f bpp (le_head htake hdone)
  refine ⟨row, hspec, hspec.length.trans htake, ?_⟩
  rw [reconstructRows, hf]
  dsimp only
  rw [hrow]

theorem reconstructRows_ok (bpp : Nat) {n : Nat} (hlen : filtered.length = n * (stride + 1))
    (hdone : ∀ r ∈ done, r.length = stride) (htags : ∀ y < n, ¬ 4 < tagAt stride filtered y) :
    ∃ rows, reconstructRows stride bpp done filtered = .ok (done.reverse ++ rows) ∧
      rows.length = n ∧ AreRows stride bpp filtered (done.head?.getD []) rows := by
  induction n generalizing done filtered with
  | zero =>
    have hnil : filtered = [] := List.length_eq_zero_iff.mp (by rw [hlen, Nat.zero_mul])
    subst hnil
    exact ⟨[], by rw [reconstructRows, List.append_nil], rfl, fun y hy => absurd hy (by simp)⟩
  | succ n ih =>
    obtain ⟨tag, rest, rfl, hrest, hlen'⟩ := exists_cons hlen
    obtain ⟨f, hf⟩ := exists_ofByte? (htags 0 (Nat.succ_pos n))
    have htag : FilterType.ofByte? tag = some f := by
      rwa [tagAt, Nat.zero_mul, List.getD_cons_zero] at hf
    obtain ⟨row, hspec, hrow, hstep⟩ := reconstructRows_cons htag hrest hdone bpp
    have hdone' : ∀ r ∈ row :: done, r.length = stride :=
      List.forall_mem_cons.mpr ⟨hrow, hdone⟩
    have htags' : ∀ y < n, ¬ 4 < tagAt stride (rest.drop stride) y := by
      intro y hy
      rw [← tagAt_succ tag rest y]
      exact htags (y + 1) (Nat.succ_lt_succ hy)
    obtain ⟨rows, hrows, hcount, hare⟩ := ih hlen' hdone' htags'
    refine ⟨row :: rows, ?_, by rw [List.length_cons, hcount], ?_⟩
    · rw [hstep, hrows, List.reverse_cons, List.append_assoc, List.singleton_append]
    · intro y hy
      cases y with
      | zero =>
        refine ⟨f, hf, ?_⟩
        rw [lineAt_zero]
        exact hspec
      | succ y =>
        have hy' : y < rows.length := by simpa using hy
        rw [tagAt_succ, lineAt_succ]
        exact hare y hy'

theorem reconstructRows_error (bpp : Nat) {n y : Nat} (hlen : filtered.length = n * (stride + 1))
    (hdone : ∀ r ∈ done, r.length = stride) (hy : y < n) (htag : 4 < tagAt stride filtered y) :
    ∃ tag row, reconstructRows stride bpp done filtered = .error (.unknownFilter tag row) := by
  induction n generalizing done filtered y with
  | zero => exact absurd hy (Nat.not_lt_zero y)
  | succ n ih =>
    obtain ⟨tag, rest, rfl, hrest, hlen'⟩ := exists_cons hlen
    cases hf : FilterType.ofByte? tag with
    | none => exact ⟨tag, done.length, by rw [reconstructRows, hf]⟩
    | some f =>
      obtain ⟨row, -, hrow, hstep⟩ := reconstructRows_cons hf hrest hdone bpp
      have hdone' : ∀ r ∈ row :: done, r.length = stride :=
        List.forall_mem_cons.mpr ⟨hrow, hdone⟩
      cases y with
      | zero =>
        rw [tagAt, Nat.zero_mul, List.getD_cons_zero, ← ofByte?_eq_none_iff, hf] at htag
        cases htag
      | succ y =>
        rw [hstep]
        rw [tagAt_succ] at htag
        exact ih hlen' hdone' (Nat.lt_of_succ_lt_succ hy) htag

theorem length_of_areRows {n : Nat} {first : List UInt8}
    (hlen : filtered.length = n * (stride + 1)) (hcount : rows.length = n)
    (h : AreRows stride bpp filtered first rows) : ∀ r ∈ rows, r.length = stride := by
  intro r hr
  obtain ⟨y, hy, rfl⟩ := List.mem_iff_getElem.mp hr
  obtain ⟨f, -, hrow⟩ := h y hy
  rw [List.getD_eq_getElem _ _ hy] at hrow
  exact hrow.length.trans (length_lineAt hlen (hcount ▸ hy))

theorem length_flatten_rows (h : ∀ r ∈ rows, r.length = stride) :
    rows.flatten.length = stride * rows.length := by
  induction rows with
  | nil => rfl
  | cons r rows ih =>
    rw [List.flatten_cons, List.length_append, h r (by simp),
      ih fun r hr => h r (by simp [hr]), List.length_cons, Nat.mul_succ, Nat.add_comm]

theorem pixelAt_flatten (h : ∀ r ∈ rows, r.length = stride) {i : Nat} (hi : i < stride)
    (y : Nat) : pixelAt stride rows.flatten y i = (rows.getD y []).getD i 0 := by
  unfold pixelAt
  induction rows generalizing y with
  | nil => simp
  | cons r rows ih =>
    have hr : r.length = stride := h r (by simp)
    rw [List.flatten_cons]
    cases y with
    | zero => rw [Nat.zero_mul, Nat.zero_add, List.getD_append _ _ _ _ (by omega),
        List.getD_cons_zero]
    | succ y =>
      have hindex : (y + 1) * stride + i - r.length = y * stride + i := by
        rw [Nat.succ_mul, hr]
        omega
      rw [List.getD_append_right _ _ _ _ (by rw [hr, Nat.succ_mul]; omega), hindex,
        List.getD_cons_succ]
      exact ih (fun r hr => h r (by simp [hr])) y

/-- The byte to the left. For `bpp = 0` that is the byte itself, as it is before the change. -/
def leftOf (stride bpp : Nat) (filtered pixels : List UInt8) (y i : Nat) : UInt8 :=
  if bpp = 0 then dataAt stride filtered y i
  else if i < bpp then 0 else pixelAt stride pixels y (i - bpp)

def aboveOf (stride : Nat) (pixels : List UInt8) (y i : Nat) : UInt8 :=
  if y = 0 then 0 else pixelAt stride pixels (y - 1) i

def upperLeftOf (stride bpp : Nat) (pixels : List UInt8) (y i : Nat) : UInt8 :=
  if y = 0 ∨ i < bpp then 0 else pixelAt stride pixels (y - 1) (i - bpp)

/-- The pixels of `height` filtered rows. Each byte is the filtered one plus the prediction of the
row's filter, modulo 256. -/
structure IsReconstruction (stride bpp height : Nat) (filtered pixels : List UInt8) : Prop where
  length : pixels.length = stride * height
  bytes : ∀ y < height, ∀ i < stride, ∃ f v,
    FilterType.ofByte? (tagAt stride filtered y) = some f ∧
    Predicts (leftOf stride bpp filtered pixels y i) (aboveOf stride pixels y i)
      (upperLeftOf stride bpp pixels y i) v f ∧
    pixelAt stride pixels y i = dataAt stride filtered y i + v

/-- A row with a filter that does not look at the row above. -/
def IsFresh (stride : Nat) (filtered : List UInt8) (y : Nat) : Prop :=
  FilterType.ofByte? (tagAt stride filtered y) = some .none ∨
    FilterType.ofByte? (tagAt stride filtered y) = some .sub

/-- Filtered rows agree on all that a byte of the pixels hangs on if no row before `first` is looked
at: the tags down to its row, and in each row the bytes up to its column that lie a whole number of
pixels before it. -/
structure AgreeFor (stride bpp first y i : Nat) (filtered filtered' : List UInt8) : Prop where
  tags : ∀ r, first ≤ r → r ≤ y → tagAt stride filtered r = tagAt stride filtered' r
  data : ∀ r, first ≤ r → r ≤ y → ∀ k ≤ i, k % bpp = i % bpp →
    dataAt stride filtered r k = dataAt stride filtered' r k

theorem AgreeFor.of_le {first y i y' i' : Nat} {filtered' : List UInt8}
    (h : AgreeFor stride bpp first y i filtered filtered') (hy : y' ≤ y) (hi : i' ≤ i)
    (hlane : i' % bpp = i % bpp) : AgreeFor stride bpp first y' i' filtered filtered' where
  tags := fun r hfirst hr => h.tags r hfirst (Nat.le_trans hr hy)
  data := fun r hfirst hr k hk hmod =>
    h.data r hfirst (Nat.le_trans hr hy) k (Nat.le_trans hk hi) (hmod.trans hlane)

theorem lane_sub {i : Nat} (h : ¬ i < bpp) : (i - bpp) % bpp = i % bpp :=
  (Nat.mod_eq_sub_mod (Nat.le_of_not_lt h)).symm

theorem leftOf_congr {y i : Nat} {filtered' pixels pixels' : List UInt8}
    (hdata : dataAt stride filtered y i = dataAt stride filtered' y i)
    (h : ∀ k < i, k % bpp = i % bpp → pixelAt stride pixels y k = pixelAt stride pixels' y k) :
    leftOf stride bpp filtered pixels y i = leftOf stride bpp filtered' pixels' y i := by
  rw [leftOf, leftOf]
  split
  · exact hdata
  · split
    · rfl
    · exact h (i - bpp) (by omega) (lane_sub ‹_›)

theorem above_congr {y i : Nat} {pixels pixels' : List UInt8}
    (h : 0 < y → ∀ k ≤ i, k % bpp = i % bpp →
      pixelAt stride pixels (y - 1) k = pixelAt stride pixels' (y - 1) k) :
    aboveOf stride pixels y i = aboveOf stride pixels' y i ∧
      upperLeftOf stride bpp pixels y i = upperLeftOf stride bpp pixels' y i := by
  rw [aboveOf, aboveOf, upperLeftOf, upperLeftOf]
  constructor
  · split
    · rfl
    · exact h (by omega) i (Nat.le_refl i) rfl
  · split
    · rfl
    · exact h (by omega) (i - bpp) (Nat.sub_le i bpp) (lane_sub (by omega))

theorem IsReconstruction.pixelAt_eq {height first : Nat} {filtered' pixels pixels' : List UInt8}
    (h : IsReconstruction stride bpp height filtered pixels)
    (h' : IsReconstruction stride bpp height filtered' pixels')
    (hstart : first = 0 ∨ IsFresh stride filtered first) (y : Nat) (hfirst : first ≤ y)
    (hy : y < height) (i : Nat) (hi : i < stride)
    (hagree : AgreeFor stride bpp first y i filtered filtered') :
    pixelAt stride pixels y i = pixelAt stride pixels' y i := by
  -- a byte looks at the row above and at bytes before it in its own row
  induction y using Nat.strongRecOn generalizing i with
  | ind y ihy =>
    induction i using Nat.strongRecOn with
    | ind i ihi =>
      obtain ⟨f, v, hf, hv, hbyte⟩ := h.bytes y hy i hi
      obtain ⟨f', v', hf', hv', hbyte'⟩ := h'.bytes y hy i hi
      rw [← hagree.tags y hfirst (Nat.le_refl y)] at hf'
      obtain rfl := Option.some.inj (hf.symm.trans hf')
      have hdata := hagree.data y hfirst (Nat.le_refl y) i (Nat.le_refl i) rfl
      have hleft : leftOf stride bpp filtered pixels y i =
          leftOf stride bpp filtered' pixels' y i :=
        leftOf_congr hdata fun k hk hlane => ihi k hk (Nat.lt_trans hk hi)
          (hagree.of_le (Nat.le_refl y) (Nat.le_of_lt hk) hlane)
      rw [predicts_iff] at hv hv'
      rw [hbyte, hbyte', hv, hv', hdata, hleft]
      congr 1
      obtain hrow | rfl := Nat.lt_or_eq_of_le hfirst
      · obtain ⟨habove, hupper⟩ := above_congr fun _ k hk hlane =>
          ihy (y - 1) (by omega) (by omega) (by omega) k (Nat.lt_of_le_of_lt hk hi)
            (hagree.of_le (Nat.sub_le y 1) hk hlane)
        rw [habove, hupper]
      · obtain rfl | hnone | hsub := hstart
        · rfl
        · obtain rfl := Option.some.inj (hf.symm.trans hnone)
          rfl
        · obtain rfl := Option.some.inj (hf.symm.trans hsub)
          rfl

theorem IsReconstruction.pixelAt_unique {height : Nat} {pixels pixels' : List UInt8}
    (h : IsReconstruction stride bpp height filtered pixels)
    (h' : IsReconstruction stride bpp height filtered pixels') (y : Nat) (hy : y < height)
    (i : Nat) (hi : i < stride) : pixelAt stride pixels y i = pixelAt stride pixels' y i :=
  h.pixelAt_eq h' (.inl rfl) y (Nat.zero_le y) hy i hi
    ⟨fun _ _ _ => rfl, fun _ _ _ _ _ _ => rfl⟩

theorem eq_of_pixelAt {height : Nat} {pixels pixels' : List UInt8}
    (hlen : pixels.length = stride * height) (hlen' : pixels'.length = stride * height)
    (h : ∀ y < height, ∀ i < stride, pixelAt stride pixels y i = pixelAt stride pixels' y i) :
    pixels = pixels' := by
  apply List.ext_getElem (hlen.trans hlen'.symm)
  intro k hk hk'
  have hpos : 0 < stride := by
    apply Nat.pos_of_ne_zero
    intro hzero
    rw [hlen, hzero, Nat.zero_mul] at hk
    exact Nat.not_lt_zero k hk
  have hrow : k / stride < height := Nat.div_lt_of_lt_mul (hlen ▸ hk)
  have hindex : k / stride * stride + k % stride = k := Nat.div_add_mod' k stride
  have hpixel := h (k / stride) hrow (k % stride) (Nat.mod_lt k hpos)
  rwa [pixelAt, pixelAt, hindex, List.getD_eq_getElem _ _ hk,
    List.getD_eq_getElem _ _ hk'] at hpixel

theorem IsReconstruction.unique {height : Nat} {pixels pixels' : List UInt8}
    (h : IsReconstruction stride bpp height filtered pixels)
    (h' : IsReconstruction stride bpp height filtered pixels') : pixels = pixels' :=
  eq_of_pixelAt h.length h'.length (h.pixelAt_unique h')

theorem isReconstruction_flatten {n : Nat} (hlen : filtered.length = n * (stride + 1))
    (hcount : rows.length = n) (h : AreRows stride bpp filtered [] rows) :
    IsReconstruction stride bpp n filtered rows.flatten := by
  have hrows := length_of_areRows hlen hcount h
  refine ⟨by rw [length_flatten_rows hrows, hcount], fun y hy i hi => ?_⟩
  obtain ⟨f, hf, hrow⟩ := h y (hcount.symm ▸ hy)
  have hbyte := hrow.bytes i (by rwa [length_lineAt hlen hy])
  rw [getD_lineAt hi, ← pixelAt_flatten hrows hi] at hbyte
  refine ⟨f, _, hf, ?_, hbyte⟩
  have hleft : (if bpp = 0 then dataAt stride filtered y i else behind (rows.getD y []) i bpp) =
      leftOf stride bpp filtered rows.flatten y i := by
    rw [leftOf, behind, pixelAt_flatten hrows (by omega)]
  have habove : (([] :: rows).getD y []).getD i 0 = aboveOf stride rows.flatten y i := by
    unfold aboveOf
    cases y with
    | zero => rfl
    | succ y => rw [if_neg (Nat.succ_ne_zero y), pixelAt_flatten hrows hi]; rfl
  have hupper : behind (([] :: rows).getD y []) i bpp =
      upperLeftOf stride bpp rows.flatten y i := by
    rw [upperLeftOf, behind]
    cases y with
    | zero => simp
    | succ y => simp [pixelAt_flatten hrows (Nat.lt_of_le_of_lt (Nat.sub_le i bpp) hi)]
  rw [hleft, habove, hupper]
  exact predicts_predict f _ _ _

variable {l : Layout}

theorem reconstruct_overflow (h : Size.limit ≤ filteredSize l) :
    reconstruct l filtered = .error .sizeOverflow := by
  rw [reconstruct, filteredSize?_of_le h, stride?_eq]

theorem reconstruct_length (hsize : filteredSize l < Size.limit)
    (hlen : filtered.length ≠ filteredSize l) :
    reconstruct l filtered = .error (.wrongLength filtered.length (filteredSize l)) := by
  rw [reconstruct, filteredSize?_of_lt hsize, pixelSize?_of_lt hsize, stride?_eq]
  dsimp only
  rw [if_pos hlen]

theorem reconstruct_rows (hsize : filteredSize l < Size.limit)
    (hlen : filtered.length = filteredSize l) :
    reconstruct l filtered =
      (reconstructRows (Sizes.stride l) l.bytesPerPixel.toNat [] filtered).map List.flatten := by
  rw [reconstruct, filteredSize?_of_lt hsize, pixelSize?_of_lt hsize, stride?_eq]
  dsimp only
  rw [if_neg (not_not_intro hlen)]

theorem reconstruct_tag (hsize : filteredSize l < Size.limit)
    (hlen : filtered.length = filteredSize l) {y : Nat} (hy : y < l.height.toNat)
    (htag : 4 < tagAt (Sizes.stride l) filtered y) :
    ∃ tag row, reconstruct l filtered = .error (.unknownFilter tag row) := by
  have hlines : filtered.length = l.height.toNat * (Sizes.stride l + 1) := by
    rw [hlen, filteredSize, Nat.mul_comm]
  have hnil : ∀ r ∈ ([] : List (List UInt8)), r.length = Sizes.stride l := by simp
  obtain ⟨tag, row, h⟩ := reconstructRows_error l.bytesPerPixel.toNat hlines hnil hy htag
  exact ⟨tag, row, by rw [reconstruct_rows hsize hlen, h]; rfl⟩

theorem reconstruct_ok (hsize : filteredSize l < Size.limit)
    (hlen : filtered.length = filteredSize l)
    (htags : ∀ y < l.height.toNat, ¬ 4 < tagAt (Sizes.stride l) filtered y) :
    ∃ pixels, reconstruct l filtered = .ok pixels ∧
      IsReconstruction (Sizes.stride l) l.bytesPerPixel.toNat l.height.toNat filtered pixels := by
  have hlines : filtered.length = l.height.toNat * (Sizes.stride l + 1) := by
    rw [hlen, filteredSize, Nat.mul_comm]
  have hnil : ∀ r ∈ ([] : List (List UInt8)), r.length = Sizes.stride l := by simp
  obtain ⟨rows, h, hcount, hrows⟩ := reconstructRows_ok l.bytesPerPixel.toNat hlines hnil htags
  refine ⟨rows.flatten, ?_, isReconstruction_flatten hlines hcount hrows⟩
  rw [reconstruct_rows hsize hlen, h]
  rfl

theorem reconstruct_cases (l : Layout) (filtered : List UInt8) :
    (Size.limit ≤ filteredSize l ∧ reconstruct l filtered = .error .sizeOverflow) ∨
    (filteredSize l < Size.limit ∧ (filtered.length ≠ filteredSize l ∨
        ∃ y < l.height.toNat, 4 < tagAt (Sizes.stride l) filtered y) ∧
      ∃ failure, failure.error = .malformed .defilter ∧
        reconstruct l filtered = .error failure) ∨
    (filteredSize l < Size.limit ∧ filtered.length = filteredSize l ∧
        (∀ y < l.height.toNat, ¬ 4 < tagAt (Sizes.stride l) filtered y) ∧
      ∃ pixels, reconstruct l filtered = .ok pixels ∧
        IsReconstruction (Sizes.stride l) l.bytesPerPixel.toNat l.height.toNat filtered
          pixels) := by
  by_cases hsize : filteredSize l < Size.limit
  · right
    by_cases hlen : filtered.length = filteredSize l
    · by_cases htag : ∃ y < l.height.toNat, 4 < tagAt (Sizes.stride l) filtered y
      · obtain ⟨y, hy, hlarge⟩ := htag
        obtain ⟨tag, row, h⟩ := reconstruct_tag hsize hlen hy hlarge
        exact .inl ⟨hsize, .inr ⟨y, hy, hlarge⟩, _, rfl, h⟩
      · have hsmall : ∀ y < l.height.toNat, ¬ 4 < tagAt (Sizes.stride l) filtered y :=
          fun y hy hlarge => htag ⟨y, hy, hlarge⟩
        exact .inr ⟨hsize, hlen, hsmall, reconstruct_ok hsize hlen hsmall⟩
    · exact .inl ⟨hsize, .inl hlen, _, rfl, reconstruct_length hsize hlen⟩
  · exact .inl ⟨Nat.not_lt.mp hsize, reconstruct_overflow (Nat.not_lt.mp hsize)⟩

end Png.Proofs.Reconstruction

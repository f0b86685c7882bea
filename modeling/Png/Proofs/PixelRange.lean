import Png.Checked.Pixel
import Png.Proofs.Consistency

namespace Png.Proofs.PixelRange

open Checked Consistency Sizes

variable {row : List UInt8} {format : PixelFormat} {x channel : Nat} {p : Picture}

theorem signed?_of_le {n : Int} (hlow : -0x8000 ≤ n) (hhigh : n < 0x8000) :
    signed? n = some n := if_pos ⟨hlow, hhigh⟩

theorem short?_of_lt {n : Nat} (h : n < 0x10000) : short? n = some n := below?_of_lt h

theorem average?_eq (left above : UInt8) :
    average? left above = some (UInt8.ofNat ((left.toNat + above.toNat) / 2)) := by
  have hleft := left.toNat_lt
  have habove := above.toNat_lt
  apply bind_of_some (short?_of_lt (by omega))
  rfl

theorem paeth?_eq (left above upperLeft : UInt8) :
    paeth? left above upperLeft = some (paeth left above upperLeft) := by
  have hleft := left.toNat_lt
  have habove := above.toNat_lt
  have hupper := upperLeft.toNat_lt
  apply bind_of_some (signed?_of_le (by omega) (by omega))
  apply bind_of_some (signed?_of_le (by omega) (by omega))
  apply bind_of_some (signed?_of_le (by omega) (by omega))
  apply bind_of_some (signed?_of_le (by omega) (by omega))
  apply bind_of_some (signed?_of_le (by omega) (by omega))
  rfl

theorem predict?_eq (f : FilterType) (left above upperLeft : UInt8) :
    predict? f left above upperLeft = some (f.predict left above upperLeft) := by
  cases f with
  | average => exact average?_eq left above
  | paeth => exact paeth?_eq left above upperLeft
  | none | sub | up => rfl

/-- Where both steps stay in range, what they find is what the plain steps find. -/
theorem following_of {α β : Type} {first : Option (Option α)} {a : Option α}
    {second : α → Option (Option β)} {f : α → Option β} (hfirst : first = some a)
    (hsecond : ∀ v ∈ a, second v = some (f v)) : following first second = some (a.bind f) := by
  rw [hfirst]
  cases a with
  | none => rfl
  | some v => exact hsecond v rfl

theorem wideSample?_eq (row : List UInt8) {byte : Nat} (h : byte + 1 < Size.limit) :
    wideSample? row byte = some (row[byte]?.bind fun high => row[byte + 1]?.bind fun low =>
      some (UInt16.ofNat (BigEndian.value [high, low]))) := by
  apply following_of rfl
  intro high _
  apply bind_of_some (Size.add?_of_lt h)
  rw [Option.map_eq_bind]
  rfl

theorem levels_eq (depth : Depth) : depth.levels = 1 <<< depth.bits := by
  cases depth <;> rfl

theorem bits_le (depth : Depth) : depth.bits ≤ 16 := by
  cases depth <;> decide

theorem channels_le (format : PixelFormat) : format.channels ≤ 4 := by
  cases format <;> simp [PixelFormat.channels]

theorem place_in_byte {depth : Depth} (h : depth.bits < 8) (place : Nat) :
    place * depth.bits % 8 + depth.bits ≤ 8 := by
  cases depth <;> simp only [Depth.bits] at h ⊢ <;> omega

theorem narrowSample?_eq (row : List UInt8) {depth : Depth} (h : depth.bits < 8) {bit : Nat}
    (hbit : bit % 8 + depth.bits ≤ 8) :
    narrowSample? row depth.bits bit = some (row[bit / 8]?.map fun b =>
      UInt16.ofNat ((b.toNat >>> (8 - depth.bits - bit % 8)) % depth.levels)) := by
  have hbits : 1 ≤ depth.bits := by cases depth <;> decide
  -- A mask of ones keeps the remainder.
  have hmask : ∀ n, n &&& (1 <<< depth.bits - 1) = n % depth.levels := by
    intro n
    rw [levels_eq, Nat.one_shiftLeft, Nat.and_two_pow_sub_one_eq_mod]
  have hpos : 1 ≤ 1 <<< depth.bits := by
    rw [Nat.one_shiftLeft]
    exact Nat.one_le_two_pow
  apply bind_of_some (subtract?_of_le (Nat.le_of_lt h))
  apply bind_of_some (subtract?_of_le (by omega))
  apply bind_of_some (below?_of_lt (by omega))
  apply bind_of_some (below?_of_lt h)
  apply bind_of_some (subtract?_of_le hpos)
  simp only [hmask]

theorem packedSample?_eq (row : List UInt8) (hx : x < UInt32.size)
    (hchannel : channel < format.channels) :
    packedSample? row format x channel = some (packedSample row format x channel) := by
  have hchannels := channels_le format
  have hbits := bits_le format.depth
  have hx : x < 0x100000000 := hx
  have hlimit : Size.limit = 0x10000000000000000 := rfl
  have hfirst : x * format.channels ≤ x * 4 := Nat.mul_le_mul_left x hchannels
  have hplace : (x * format.channels + channel) * format.bitDepth ≤ (x * 4 + 4) * 16 :=
    Nat.mul_le_mul (by omega) hbits
  apply bind_of_some (Size.mul?_of_lt (by omega))
  apply bind_of_some (Size.add?_of_lt (by omega))
  apply bind_of_some (Size.mul?_of_lt (by omega))
  rw [packedSample, PixelFormat.bitDepth] at *
  -- Where the sample lies is all that matters from here on.
  generalize format.depth = depth at *
  generalize x * format.channels + channel = place at *
  cases depth with
  | sixteen => exact wideSample?_eq row (by omega)
  | eight => rfl
  | one | two | four => exact narrowSample?_eq row (by decide) (place_in_byte (by decide) place)

theorem lt_of_packedSample {v : UInt16} (h : v ∈ packedSample row format x channel) :
    v.toNat < format.depth.levels := by
  rw [packedSample] at h
  split at h
  · rename_i hdepth
    rw [hdepth]
    exact v.toNat_lt
  · rename_i hdepth
    obtain ⟨b, -, rfl⟩ := Option.map_eq_some_iff.mp h
    rw [hdepth, UInt8.toNat_toUInt16]
    exact b.toNat_lt
  · obtain ⟨b, -, rfl⟩ := Option.map_eq_some_iff.mp h
    have hpos : 0 < format.depth.levels := by cases format.depth <;> decide
    rw [UInt16.toNat_ofNat']
    exact Nat.lt_of_le_of_lt (Nat.mod_le _ _) (Nat.mod_lt _ hpos)

theorem byte?_of_lt {n : Nat} (h : n < 256) : byte? n = some n := below?_of_lt h

theorem scaled?_eq {depth : Depth} {v : UInt16} (h : v.toNat < depth.levels) :
    scaled? depth v.toNat = some (scaleToByte depth v).toNat := by
  cases depth with
  | sixteen =>
    have hv := v.toNat_lt
    rw [toNat_scaleToByte_sixteen]
    exact byte?_of_lt (by omega)
  | eight =>
    have hv : v.toNat < 256 := h
    rw [toNat_scaleToByte_eight, Nat.mod_eq_of_lt hv]
    exact byte?_of_lt hv
  | one | two | four =>
    have hscaled := toNat_scaleToByte_narrow (by decide) h
    rw [Depth.levels] at h
    apply bind_of_some (below?_of_lt (by decide))
    apply bind_of_some (subtract?_of_le (by decide))
    apply bind_of_some (short?_of_lt (by omega))
    exact (congrArg byte? hscaled.symm).trans (byte?_of_lt (UInt8.toNat_lt _))

theorem weighted?_eq (r g b : UInt8) :
    weighted? r.toNat g.toNat b.toNat = some (brightness r g b).toNat := by
  have hr := r.toNat_lt
  have hg := g.toNat_lt
  have hb := b.toNat_lt
  rw [toNat_brightness]
  apply bind_of_some (short?_of_lt (by omega))
  apply bind_of_some (short?_of_lt (by omega))
  apply bind_of_some (short?_of_lt (by omega))
  apply bind_of_some (short?_of_lt (by omega))
  apply bind_of_some (short?_of_lt (by omega))
  exact byte?_of_lt (by omega)

theorem blended?_eq (grey alpha : UInt8) :
    blended? grey.toNat alpha.toNat = some (overWhite grey alpha).toNat := by
  have halpha := alpha.toNat_lt
  have hseen := seen_le grey alpha
  rw [toNat_overWhite]
  apply bind_of_some (short?_of_lt (by omega))
  apply bind_of_some (subtract?_of_le (by omega))
  apply bind_of_some (short?_of_lt (by omega))
  apply bind_of_some (short?_of_lt (by omega))
  exact byte?_of_lt (by omega)

theorem following_toNat {first : Option (Option Nat)} {a : Option UInt8}
    {second : Nat → Option (Option Nat)} {f : UInt8 → Option UInt8}
    (hfirst : first = some (a.map (·.toNat)))
    (hsecond : ∀ v ∈ a, second v.toNat = some ((f v).map (·.toNat))) :
    following first second = some ((a.bind f).map (·.toNat)) := by
  rw [hfirst]
  cases a with
  | none => rfl
  | some v => exact hsecond v rfl

theorem seenThrough?_eq (grey alpha : Option UInt8) :
    seenThrough? (some (grey.map (·.toNat))) (some (alpha.map (·.toNat))) =
      some ((grey.bind fun g => alpha.bind fun a => some (overWhite g a)).map (·.toNat)) := by
  apply following_toNat rfl
  intro g _
  apply following_toNat rfl
  intro a _
  rw [blended?_eq]
  rfl

section

variable {source : Nat → Option (Option Nat)} {sample : Nat → Option UInt16}
  (hsource : ∀ c < format.channels, source c = some ((sample c).map (·.toNat)))
  (hrange : ∀ c < format.channels, ∀ v ∈ sample c, v.toNat < format.depth.levels)

include hsource hrange

theorem channel?_eq (hchannel : channel < format.channels) :
    channel? format.depth source channel =
      some (((sample channel).map (scaleToByte format.depth)).map (·.toNat)) := by
  rw [channel?, hsource channel hchannel]
  cases hv : sample channel with
  | none => rfl
  | some v =>
    change (scaled? format.depth v.toNat).map some = _
    rw [scaled?_eq (hrange channel hchannel v hv)]
    rfl

theorem colour?_eq (hchannels : 3 ≤ format.channels) :
    colour? format.depth source =
      some ((((sample 0).map (scaleToByte format.depth)).bind fun r =>
        ((sample 1).map (scaleToByte format.depth)).bind fun g =>
          ((sample 2).map (scaleToByte format.depth)).bind fun b =>
            some (brightness r g b)).map (·.toNat)) := by
  apply following_toNat (channel?_eq hsource hrange (by omega))
  intro r _
  apply following_toNat (channel?_eq hsource hrange (by omega))
  intro g _
  apply following_toNat (channel?_eq hsource hrange (by omega))
  intro b _
  rw [weighted?_eq]
  rfl

/-- No sum, difference or product on the way from the samples of a pixel to its brightness leaves
its word, and no word that is cut down to a byte loses anything. -/
theorem ofSamples?_eq :
    ofSamples? format source = some ((lumaOfSamples format sample).map (·.toNat)) := by
  cases format with
  | luminance depth => exact channel?_eq hsource hrange Nat.one_pos
  | luminanceAlpha depth =>
    have hgrey := channel?_eq hsource hrange Nat.two_pos
    have halpha := channel?_eq hsource hrange Nat.one_lt_two
    exact (congrArg₂ seenThrough? hgrey halpha).trans (seenThrough?_eq _ _)
  | rgb depth => exact colour?_eq hsource hrange (Nat.le_refl 3)
  | rgba depth =>
    have hgrey := colour?_eq hsource hrange (Nat.le_succ 3)
    have halpha := channel?_eq hsource hrange (Nat.lt_succ_self 3)
    refine (congrArg₂ seenThrough? hgrey halpha).trans ?_
    rw [seenThrough?_eq]
    simp only [Option.bind_assoc, Option.bind_some]
    rfl

end

theorem packedLuma?_eq (row : List UInt8) (hx : x < UInt32.size) (format : PixelFormat) :
    packedLuma? row format x = some (packedLuma row format x) := by
  have hsource : ∀ c < format.channels,
      (packedSample? row format x c).map (Option.map (·.toNat)) =
        some ((packedSample row format x c).map (·.toNat)) := by
    intro c hc
    rw [packedSample?_eq row hx hc]
    rfl
  apply bind_of_some (ofSamples?_eq hsource fun _ _ _ => lt_of_packedSample)
  rw [Option.map_map, ← packedLuma]
  cases packedLuma row format x with
  | none => rfl
  | some v => exact congrArg (some ∘ some) UInt8.ofNat_toNat

theorem size_lt (h : HoldsImage p) : p.size < Size.limit := by
  obtain ⟨width, height, format, -, -, hlayout⟩ := h.layout
  have hsize := h.pixelSize
  rw [hlayout, Option.bind_some] at hsize
  obtain ⟨hlimit, heq⟩ := size_eq_of_pixelSize? hsize
  exact heq ▸ hlimit

theorem row?_eq (h : HoldsImage p) (y : Nat) : row? p y = some (p.row y) := by
  rw [row?, Picture.row]
  by_cases hy : y < p.height.toNat
  · have hend : y * p.stride + p.stride ≤ p.size := by
      rw [h.size_eq, Nat.mul_comm p.stride, ← Nat.succ_mul]
      exact Nat.mul_le_mul_right p.stride hy
    have hsize := size_lt h
    rw [if_pos hy, if_pos hy]
    apply bind_of_some (Size.mul?_of_lt (by omega))
    cases p.pixels with
    | none => rfl
    | some pixels => exact bind_of_some (Size.add?_of_lt (by omega)) rfl
  · rw [if_neg hy, if_neg hy]

theorem sample?_eq (h : HoldsImage p) (x y channel : Nat) :
    sample? p x y channel = some (p.sample x y channel) := by
  rw [sample?, Picture.sample, Picture.sampleOf]
  cases p.layout with
  | none => rfl
  | some l =>
    change (if _ then _ else _) = some (if _ then _ else _)
    split
    · rename_i hinside
      apply following_of (row?_eq h y)
      intro row _
      exact packedSample?_eq row (Nat.lt_trans hinside.1 l.width.toNat_lt) hinside.2
    · rfl

theorem luma?_eq (h : HoldsImage p) (x y : Nat) : luma? p x y = some (p.luma x y) := by
  rw [luma?, Picture.luma, Picture.lumaOf]
  cases p.layout with
  | none => rfl
  | some l =>
    change (if _ then _ else _) = some (if _ then _ else _)
    split
    · rename_i hinside
      apply following_of (row?_eq h y)
      intro row _
      exact packedLuma?_eq row (Nat.lt_trans hinside l.width.toNat_lt) l.format
    · rfl

structure ShowsInRange (p : Picture) : Prop where
  row : ∀ y, row? p y = some (p.row y)
  sample : ∀ x y channel, sample? p x y channel = some (p.sample x y channel)
  luma : ∀ x y, luma? p x y = some (p.luma x y)

theorem showsInRange (h : HoldsImage p) : ShowsInRange p where
  row := row?_eq h
  sample := sample?_eq h
  luma := luma?_eq h

end Png.Proofs.PixelRange

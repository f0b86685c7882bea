import Png.Proofs.BitOrder
import Png.Proofs.PixelRange

namespace Png.Proofs.PackedRow

open BitOrder Packing Pieces PixelRange

variable {format : PixelFormat} {width x channel : Nat} {row other : List UInt8} {bs : List Bool}
  {table : Nat → Nat → UInt16}

def sampleBits (format : PixelFormat) (bs : List Bool) (x channel : Nat) : List Bool :=
  (bs.drop ((x * format.channels + channel) * format.bitDepth)).take format.bitDepth

theorem end_of_sample_le (hx : x < width) (hchannel : channel < format.channels) :
    (x * format.channels + channel) * format.bitDepth + format.bitDepth ≤
      width * format.bitsPerPixel := by
  have hpixel : (x + 1) * format.channels ≤ width * format.channels := Nat.mul_le_mul_right _ hx
  have hplace : x * format.channels + channel + 1 ≤ width * format.channels := by
    rw [Nat.succ_mul] at hpixel
    omega
  calc (x * format.channels + channel) * format.bitDepth + format.bitDepth
      = (x * format.channels + channel + 1) * format.bitDepth := (Nat.succ_mul _ _).symm
    _ ≤ width * format.channels * format.bitDepth := Nat.mul_le_mul_right _ hplace
    _ = width * format.bitsPerPixel := by
      rw [PixelFormat.bitsPerPixel, Nat.mul_assoc, Nat.mul_comm format.channels]

theorem sampleBits_take (bs : List Bool) (hx : x < width) (hchannel : channel < format.channels) :
    sampleBits format (bs.take (width * format.bitsPerPixel)) x channel =
      sampleBits format bs x channel := by
  have hpiece := piece_piece bs 0 (end_of_sample_le hx hchannel)
  rwa [List.drop_zero, Nat.zero_add] at hpiece

theorem narrow_eq (depth : Depth) {bit : Nat} (hbit : bit % 8 + depth.bits ≤ 8)
    (hend : bit + depth.bits ≤ row.length * 8) :
    (row[bit / 8]?.map fun b =>
        UInt16.ofNat ((b.toNat >>> (8 - depth.bits - bit % 8)) % depth.levels)) =
      some (UInt16.ofNat (number (((bitsOf row).drop bit).take depth.bits))) := by
  have hbits : 1 ≤ depth.bits := by cases depth <;> decide
  have hget : row[bit / 8]? = some row[bit / 8] := List.getElem?_eq_getElem (by omega)
  have hsplit : bit = bit / 8 * 8 + bit % 8 := by omega
  have hpiece := piece_piece (bitsOf row) (bit / 8 * 8) hbit
  rw [byte_of_bits hget, ← hsplit, bits_piece _ hbit] at hpiece
  rw [hget, Option.map_some, ← hpiece, number_bits, levels_eq]

theorem wide_eq {bit : Nat} (hbit : bit % 8 = 0) (hend : bit + 16 ≤ row.length * 8) :
    (row[bit / 8]?.bind fun high => row[bit / 8 + 1]?.bind fun low =>
        some (UInt16.ofNat (BigEndian.value [high, low]))) =
      some (UInt16.ofNat (number (((bitsOf row).drop bit).take 16))) := by
  have hhigh : row[bit / 8]? = some row[bit / 8] := List.getElem?_eq_getElem (by omega)
  have hlow : row[bit / 8 + 1]? = some row[bit / 8 + 1] := List.getElem?_eq_getElem (by omega)
  have hstart : bit / 8 * 8 = bit := by omega
  have hsplit := List.take_add (l := (bitsOf row).drop (bit / 8 * 8)) (i := 8) (j := 8)
  rw [List.drop_drop, ← Nat.succ_mul, byte_of_bits hhigh, byte_of_bits hlow, hstart] at hsplit
  have hbytes : ((bitsOf row).drop bit).take 16 = bitsOf [row[bit / 8], row[bit / 8 + 1]] := hsplit
  rw [hhigh, hlow, hbytes, number_bitsOf]
  rfl

theorem packedSample_eq (hrow : width * format.bitsPerPixel ≤ row.length * 8) (hx : x < width)
    (hchannel : channel < format.channels) :
    packedSample row format x channel =
      some (UInt16.ofNat (number (sampleBits format (bitsOf row) x channel))) := by
  have hend := Nat.le_trans (end_of_sample_le hx hchannel) hrow
  rw [packedSample, sampleBits, PixelFormat.bitDepth] at *
  -- What is left of the format is the depth, and what is left of the place is the bit it starts at.
  generalize format.depth = depth at *
  generalize x * format.channels + channel = place at *
  cases depth with
  | sixteen =>
    have hbit : place * 16 % 8 = 0 := by omega
    exact wide_eq hbit hend
  | eight =>
    have hbit : place * 8 % 8 = 0 := Nat.mul_mod_left place 8
    have hnarrow := narrow_eq .eight (Nat.le_of_eq (congrArg (· + 8) hbit)) hend
    -- Nothing is shifted out of a whole byte, and nothing is cut off.
    have hwhole : (fun b : UInt8 => UInt16.ofNat ((b.toNat >>> (8 - 8 - place * 8 % 8)) % 256)) =
        UInt8.toUInt16 := by
      funext b
      have hmod : b.toNat % 256 = b.toNat := Nat.mod_eq_of_lt b.toNat_lt
      rw [hbit, Nat.shiftRight_zero, hmod, UInt16.ofNat_uInt8ToNat]
    exact hwhole ▸ hnarrow
  | one => exact narrow_eq .one (place_in_byte (show Depth.one.bits < 8 by decide) place) hend
  | two => exact narrow_eq .two (place_in_byte (show Depth.two.bits < 8 by decide) place) hend
  | four => exact narrow_eq .four (place_in_byte (show Depth.four.bits < 8 by decide) place) hend

theorem sampleBits_eq (bs : List Bool) (x : Nat) (hchannel : channel < format.channels) :
    sampleBits format bs x channel =
      (((bs.drop (x * format.bitsPerPixel)).take format.bitsPerPixel).drop
        (channel * format.bitDepth)).take format.bitDepth := by
  have hplace : (x * format.channels + channel) * format.bitDepth =
      x * format.bitsPerPixel + channel * format.bitDepth := by
    rw [Nat.add_mul, Nat.mul_assoc, Nat.mul_comm format.channels, PixelFormat.bitsPerPixel]
  have hend : channel * format.bitDepth + format.bitDepth ≤ format.bitsPerPixel := by
    rw [← Nat.succ_mul, PixelFormat.bitsPerPixel, Nat.mul_comm format.bitDepth]
    exact Nat.mul_le_mul_right _ hchannel
  rw [sampleBits, hplace, piece_piece _ _ hend]

theorem length_pixel (row : Nat → Nat → UInt16) (x : Nat) :
    ((List.range format.channels).flatMap fun channel =>
      bits format.bitDepth (row x channel).toNat).length = format.bitsPerPixel := by
  rw [length_flatMap fun channel => length_bits _ (row x channel).toNat, List.length_range,
    PixelFormat.bitsPerPixel, Nat.mul_comm]

theorem length_rowBits (format : PixelFormat) (width : Nat) (table : Nat → Nat → UInt16) :
    (rowBits format width table).length = width * format.bitsPerPixel := by
  rw [rowBits, length_flatMap (length_pixel table), List.length_range]

theorem sampleBits_rowBits (table : Nat → Nat → UInt16) (hx : x < width)
    (hchannel : channel < format.channels) :
    sampleBits format (rowBits format width table) x channel =
      bits format.bitDepth (table x channel).toNat := by
  rw [sampleBits_eq _ _ hchannel, rowBits,
    piece_flatMap (length_pixel table) (List.getElem?_range hx),
    piece_flatMap (fun channel => length_bits _ (table x channel).toNat)
      (List.getElem?_range hchannel)]

/-- If every number of a table gives the bits at its place, all of them give the bits of the
pixels. -/
theorem rowBits_eq_take (htable : ∀ x < width, ∀ channel < format.channels,
      bits format.bitDepth (table x channel).toNat = sampleBits format bs x channel) :
    rowBits format width table = bs.take (width * format.bitsPerPixel) := by
  have hpixels : ∀ x ∈ List.range width,
      ((List.range format.channels).flatMap fun channel =>
        bits format.bitDepth (table x channel).toNat) =
      (bs.drop (x * format.bitsPerPixel)).take format.bitsPerPixel := by
    intro x hx
    have hsamples : ∀ channel ∈ List.range format.channels,
        bits format.bitDepth (table x channel).toNat =
          (((bs.drop (x * format.bitsPerPixel)).take format.bitsPerPixel).drop
            (channel * format.bitDepth)).take format.bitDepth := by
      intro channel hchannel
      have hinside := List.mem_range.mp hchannel
      rw [htable x (List.mem_range.mp hx) channel hinside, sampleBits_eq bs x hinside]
    rw [List.flatMap_congr hsamples, flatMap_pieces, Nat.mul_comm]
    exact List.take_of_length_le (List.length_take_le _ _)
  rw [rowBits, List.flatMap_congr hpixels, flatMap_pieces]

theorem packedSample_of_rowBits (hrow : width * format.bitsPerPixel ≤ row.length * 8)
    (hbits : pixelBits format width row = rowBits format width table) (hx : x < width)
    (hchannel : channel < format.channels)
    (htable : (table x channel).toNat < format.depth.levels) :
    packedSample row format x channel = some (table x channel) := by
  have hsample : sampleBits format (bitsOf row) x channel =
      bits format.bitDepth (table x channel).toNat := by
    rw [← sampleBits_take _ hx hchannel, ← pixelBits, hbits, sampleBits_rowBits table hx hchannel]
  rw [packedSample_eq hrow hx hchannel, hsample, number_bits, PixelFormat.bitDepth, ← levels_eq,
    Nat.mod_eq_of_lt htable, UInt16.ofNat_toNat]

theorem rowBits_of_packedSample (hrow : width * format.bitsPerPixel ≤ row.length * 8)
    (htable : ∀ x < width, ∀ channel < format.channels,
      packedSample row format x channel = some (table x channel)) :
    rowBits format width table = pixelBits format width row := by
  apply rowBits_eq_take
  intro x hx channel hchannel
  have hend := Nat.le_trans (end_of_sample_le hx hchannel) hrow
  have hlength : (sampleBits format (bitsOf row) x channel).length = format.bitDepth := by
    rw [sampleBits, List.length_take, List.length_drop, length_bitsOf]
    omega
  have hlt := number_lt (sampleBits format (bitsOf row) x channel)
  have hwide : 1 <<< format.bitDepth ≤ 65536 := by
    rw [PixelFormat.bitDepth]
    cases format.depth <;> decide
  have hsample := htable x hx channel hchannel
  rw [packedSample_eq hrow hx hchannel, Option.some_inj] at hsample
  rw [hlength] at hlt
  rw [← hsample, UInt16.toNat_ofNat_of_lt' (Nat.lt_of_lt_of_le hlt hwide), ← hlength, bits_number]

theorem packedSample_congr (hrow : width * format.bitsPerPixel ≤ row.length * 8)
    (hother : width * format.bitsPerPixel ≤ other.length * 8)
    (hbits : pixelBits format width row = pixelBits format width other) (hx : x < width)
    (hchannel : channel < format.channels) :
    packedSample row format x channel = packedSample other format x channel := by
  rw [packedSample_eq hrow hx hchannel, packedSample_eq hother hx hchannel,
    ← sampleBits_take (bitsOf row) hx hchannel, ← sampleBits_take (bitsOf other) hx hchannel,
    ← pixelBits, ← pixelBits, hbits]

theorem packedLuma_congr (h : ∀ channel < format.channels,
      packedSample row format x channel = packedSample other format x channel) :
    packedLuma row format x = packedLuma other format x := by
  cases format <;> simp only [PixelFormat.channels] at h <;> simp [packedLuma, lumaOfSamples, h]

section

variable (format : PixelFormat) (width : Nat) (table : Nat → Nat → UInt16) (padding : Nat → Bool)

theorem length_packed :
    (bytesOf (padded (rowBits format width table) padding)).length =
      (width * format.bitsPerPixel + 7) / 8 := by
  rw [length_bytesOf, length_padded, length_rowBits, Nat.mul_div_cancel _ (by decide)]

theorem pixelBits_packed :
    pixelBits format width (bytesOf (padded (rowBits format width table) padding)) =
      rowBits format width table := by
  have hwhole : (padded (rowBits format width table) padding).length % 8 = 0 := by
    rw [length_padded, Nat.mul_mod_left]
  rw [pixelBits, bitsOf_bytesOf hwhole, padded]
  exact List.take_left' (length_rowBits format width table)

end

def paddingBits (format : PixelFormat) (width : Nat) (row : List UInt8) (i : Nat) : Bool :=
  ((bitsOf row).drop (width * format.bitsPerPixel)).getD i false

theorem bytesOf_pixelBits (hrow : row.length = (width * format.bitsPerPixel + 7) / 8) :
    bytesOf (padded (pixelBits format width row) (paddingBits format width row)) = row := by
  let rest := (bitsOf row).drop (width * format.bitsPerPixel)
  have hbits : (pixelBits format width row).length = width * format.bitsPerPixel := by
    rw [pixelBits, List.length_take, length_bitsOf]
    omega
  have hrest : rest.length = (8 - width * format.bitsPerPixel % 8) % 8 := by
    rw [List.length_drop, length_bitsOf]
    omega
  have hpadding : (List.range rest.length).map (paddingBits format width row) = rest := by
    apply List.ext_getElem
    · rw [List.length_map, List.length_range]
    · intro i _ hi
      rw [List.getElem_map, List.getElem_range]
      exact List.getD_eq_getElem _ _ hi
  rw [padded, hbits, ← hrest, hpadding, pixelBits, List.take_append_drop, bytesOf_bitsOf]

/-- Every row is packed from the numbers that it shows. -/
theorem exists_packed (hrow : row.length = (width * format.bitsPerPixel + 7) / 8) :
    ∃ table padding, row = bytesOf (padded (rowBits format width table) padding) ∧
      ∀ x < width, ∀ channel < format.channels,
        packedSample row format x channel = some (table x channel) := by
  let table (x channel : Nat) : UInt16 :=
    UInt16.ofNat (number (sampleBits format (bitsOf row) x channel))
  have htable : ∀ x < width, ∀ channel < format.channels,
      packedSample row format x channel = some (table x channel) :=
    fun x hx channel => packedSample_eq (by omega) hx
  refine ⟨table, paddingBits format width row, ?_, htable⟩
  rw [rowBits_of_packedSample (by omega) htable, bytesOf_pixelBits hrow]

end Png.Proofs.PackedRow

import Png.Proofs.ImageSize

namespace Png.Proofs.StoredImage

open Checksum Container Delivery ImageSize Observation Residual RoundTrip Sizes StoredStream

variable {file : File} {rows : List UInt8}

theorem handedOn_stored (s : Parts) {checksum : UInt32} {more : List UInt8}
    (hdata : file.imageData = s.toBytes checksum ++ more) {l : Layout}
    (hsize : s.content.length = filteredSize l) :
    handedOn (callFor .zlib file l) =
        (if checksum.toNat = adler32 s.content then some s.content else none) ∧
      (callFor .zlib file l).answer ≠ .error .outOfMemory := by
  have hfull : s.content.length = (Slice.zeroed (filteredSize l)).size := by
    rw [size_zeroed, hsize]
  have hinflate := inflate_parts s checksum more (Nat.le_of_eq hfull)
  have hwritten := toList_overwrite_all (.zeroed (filteredSize l)) hfull
  rw [handedOn, callFor, hdata, zlib_inflate_eq, hinflate]
  by_cases h : checksum.toNat = adler32 s.content
  · rw [if_pos h, if_pos h]
    dsimp only
    rw [size_zeroed, if_pos hsize, hwritten]
    exact ⟨rfl, by rintro ⟨⟩⟩
  · rw [if_neg h, if_neg h]
    exact ⟨rfl, by rintro ⟨⟩⟩

/-- An image whose filtered rows are the bytes of stored blocks is decoded if and only if their
checksum is right. -/
theorem decode_stored (file : File) (width height : UInt32) (format : PixelFormat)
    (filters : List FilterType) (pixels : List UInt8) (s : Parts) (checksum : UInt32)
    (more : List UInt8) (hwidth : 1 ≤ width.toNat) (hheight : 1 ≤ height.toNat)
    (hheader : file.header = (Ihdr.ofFormat width height format).toBytes)
    (hbudget : width.toNat * height.toNat ≤ 4096 * 4096)
    (hfilters : filters.length = height.toNat)
    (hpixels : pixels.length = pixelSize (.ofFormat width height format))
    (hcontent : s.content = residual width format filters pixels)
    (hdata : file.imageData = s.toBytes checksum ++ more) :
    decode file.toBytes =
      if checksum.toNat = adler32 (residual width format filters pixels) then
        .ok { layout := some (.ofFormat width height format)
              pixels := some pixels
              error := none }
      else .error (.malformed .decompress) := by
  have hle := filteredSize_le hwidth height format
  have hmemory : filteredSize (.ofFormat width height format) < Memory.limit := by
    have hlimit : Memory.limit = 0x800000000000 := rfl
    omega
  have hlimit := Nat.lt_trans hmemory (by decide : Memory.limit < Size.limit)
  have hlength := length_residual hfilters hpixels
  have hnil : file.imageData ≠ [] := by
    rw [hdata]
    exact List.cons_ne_nil _ _
  obtain ⟨hhanded, hmem⟩ := handedOn_stored s hdata (l := .ofFormat width height format)
    (by rw [hcontent, hlength])
  have hdecode := decode_file .zlib hwidth hheight hheader
    (show _ ≤ (4096 * 4096 : UInt64).toNat from hbudget) hmemory hnil
  rw [decode, hdecode, ← hcontent]
  by_cases h : checksum.toNat = adler32 s.content
  · rw [if_pos h] at hhanded
    rw [if_pos h, pixels_of_handedOn hhanded, hcontent,
      reconstruct_residual hlimit hfilters hpixels]
    rfl
  · rw [if_neg h] at hhanded
    rw [if_neg h, pixels_of_not_handedOn hhanded hmem]
    rfl

def colourBlocks : Parts where
  method := 0x48
  flags := 0x0D
  earlier := [[3, 20, 22, 24, 11, 79, 22, 4, 30], []]
  final := [3, 244, 3, 246, 176]
  multiple := by decide
  deflated := by decide
  window := by decide
  noDictionary := by decide
  fits := by decide

/-- The blocks under a checksum, with a byte behind it, in chunks that end where no block does. -/
def inColourChunks (checksum : UInt32) : File where
  header := colours.header
  headerCrc := 0
  chunks := [⟨Tag.idat, [0x48], 1⟩, ⟨Tag.idat, [], 2⟩,
    ⟨Tag.idat, [0x0D, 0, 9, 0, 246, 255, 3, 20, 22, 24, 11, 79], 3⟩,
    ⟨Tag.idat, [22, 4, 30, 0, 0, 0, 255, 255, 1, 5, 0, 250, 255, 3, 244, 3, 246, 176] ++
      BigEndian.ofWord checksum ++ [99], 4⟩]
  trailer := none
  length_header := colours.length_header
  chunks_fit := by
    have htag : Tag.idat ≠ Tag.iend := by decide
    simp [Scan.Fits, htag, BigEndian.length_ofWord, UInt32.size]

theorem decode_stored_colours :
    (colourBlocks.content = residual 2 (.rgb .eight) [.average, .paeth]
        [20, 22, 24, 21, 90, 34, 50, 25, 12, 53, 80, 200] ∧
      (inColourChunks 0x0E850378).imageData = colourBlocks.toBytes 0x0E850378 ++ [99] ∧
      (inColourChunks 0x0E850379).imageData = colourBlocks.toBytes 0x0E850379 ++ [99]) ∧
    decode (inColourChunks 0x0E850378).toBytes =
      .ok { layout := some (.ofFormat 2 2 (.rgb .eight))
            pixels := some [20, 22, 24, 21, 90, 34, 50, 25, 12, 53, 80, 200]
            error := none } ∧
    decode (inColourChunks 0x0E850379).toBytes = .error (.malformed .decompress) := by
  have hcontent : colourBlocks.content = residual 2 (.rgb .eight) [.average, .paeth]
      [20, 22, 24, 21, 90, 34, 50, 25, 12, 53, 80, 200] := by decide
  have hright := decode_stored (inColourChunks 0x0E850378) 2 2 (.rgb .eight) [.average, .paeth]
    [20, 22, 24, 21, 90, 34, 50, 25, 12, 53, 80, 200] colourBlocks 0x0E850378 [99] (by decide)
    (by decide) rfl (by decide) rfl rfl hcontent rfl
  have hwrong := decode_stored (inColourChunks 0x0E850379) 2 2 (.rgb .eight) [.average, .paeth]
    [20, 22, 24, 21, 90, 34, 50, 25, 12, 53, 80, 200] colourBlocks 0x0E850379 [99] (by decide)
    (by decide) rfl (by decide) rfl rfl hcontent rfl
  rw [if_pos (by decide)] at hright
  rw [if_neg (by decide)] at hwrong
  exact ⟨⟨hcontent, rfl, rfl⟩, hright, hwrong⟩

end Png.Proofs.StoredImage

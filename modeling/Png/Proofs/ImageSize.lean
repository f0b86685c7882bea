import Png.Proofs.Delivery
import Png.Proofs.Room
import Png.Proofs.StoredStream

namespace Png.Proofs.ImageSize

open Container Delivery Observation Residual Sizes StoredStream Zlib

variable {input : List UInt8} {slice : Slice} {inflated : Inflated}

theorem zlib_inflate_eq (input : List UInt8) (slice : Slice) :
    Inflater.zlib.inflate input slice =
      match Zlib.inflate slice.size input with
      | .error e => .error e
      | .ok stream => .ok ⟨stream.output.length, stream.output, stream.unread⟩ := by
  change Except.bind (Zlib.inflate slice.size input) _ = _
  cases Zlib.inflate slice.size input <;> rfl

theorem exists_stream (h : Inflater.zlib.inflate input slice = .ok inflated) :
    ∃ stream, Zlib.inflate slice.size input = .ok stream ∧
      inflated = ⟨stream.output.length, stream.output, stream.unread⟩ := by
  rw [zlib_inflate_eq] at h
  cases hs : Zlib.inflate slice.size input with
  | error e =>
    rw [hs] at h
    cases h
  | ok stream =>
    rw [hs] at h
    cases h
    exact ⟨stream, rfl, rfl⟩

theorem zlib_append (h : Inflater.zlib.inflate input slice = .ok inflated) (more : List UInt8)
    (other : Slice) :
    inflated.written.length = inflated.produced ∧
      Inflater.zlib.inflate (input ++ more) other =
        if inflated.produced ≤ other.size then
          .ok { inflated with unread := inflated.unread + more.length }
        else .error .outputOverflow := by
  obtain ⟨stream, hstream, rfl⟩ := exists_stream h
  refine ⟨rfl, ?_⟩
  rw [zlib_inflate_eq, Room.inflate_room (Trailing.inflate_append hstream more)]
  dsimp only
  by_cases hroom : stream.output.length ≤ other.size
  · rw [if_pos hroom, if_pos hroom]
  · rw [if_neg hroom, if_neg hroom]

theorem take_overwrite (slice : Slice) {bytes : List UInt8} (h : bytes.length ≤ slice.size) :
    (slice.overwrite bytes).toList.take bytes.length = bytes := by
  rw [Slice.toList_overwrite, List.take_of_length_le h, List.take_left]

theorem toList_overwrite_all (slice : Slice) {bytes : List UInt8} (h : bytes.length = slice.size) :
    (slice.overwrite bytes).toList = bytes := by
  have htail : slice.toList.drop bytes.length = [] := by
    apply List.drop_eq_nil_of_le
    exact Nat.le_of_eq ((Slice.length_toList slice).trans h.symm)
  rw [Slice.toList_overwrite, htail, List.append_nil, List.take_of_length_le (Nat.le_of_eq h)]

theorem handedOn_callFor (h : Inflater.zlib.inflate input slice = .ok inflated)
    {more : List UInt8} {file : File} (hdata : file.imageData = input ++ more) (l : Layout) :
    handedOn (callFor .zlib file l) =
        (if filteredSize l = inflated.produced then some inflated.written else none) ∧
      (callFor .zlib file l).answer ≠ .error .outOfMemory := by
  obtain ⟨hlength, hanswer⟩ := zlib_append h more (.zeroed (filteredSize l))
  rw [size_zeroed] at hanswer
  rw [handedOn, callFor, hdata, hanswer, size_zeroed]
  by_cases hroom : inflated.produced ≤ filteredSize l
  · rw [if_pos hroom]
    dsimp only
    refine ⟨?_, by rintro ⟨⟩⟩
    by_cases hsize : filteredSize l = inflated.produced
    · have hwritten : inflated.written.length = (Slice.zeroed (filteredSize l)).size := by
        rw [hlength, size_zeroed, hsize]
      rw [if_pos hsize.symm, if_pos hsize, toList_overwrite_all _ hwritten]
    · rw [if_neg (Ne.symm hsize), if_neg hsize]
  · rw [if_neg hroom]
    exact ⟨(if_neg fun hsize => hroom (Nat.le_of_eq hsize.symm)).symm, by rintro ⟨⟩⟩

theorem produced_le (h : Inflater.zlib.inflate input slice = .ok inflated) :
    inflated.produced ≤ slice.size := by
  have halone := (zlib_append h [] slice).2
  apply Decidable.of_not_not
  intro hroom
  rw [List.append_nil, if_neg hroom, h] at halone
  cases halone

/-- A stream that inflates at all makes the same of itself wherever there is room for it, whatever
lies behind it. The filters are undone only in an image whose rows it fills exactly. -/
theorem stream_settles_size (input : List UInt8) (slice : Slice) (inflated : Inflated)
    (h : Inflater.zlib.inflate input slice = .ok inflated) (more : List UInt8) :
    (∀ other : Slice,
      (inflated.produced ≤ other.size →
        ∃ answer, Inflater.zlib.inflate (input ++ more) other = .ok answer ∧
          answer.produced = inflated.produced ∧
          (other.overwrite answer.written).toList.take answer.produced =
            (slice.overwrite inflated.written).toList.take inflated.produced) ∧
      (other.size < inflated.produced →
        Inflater.zlib.inflate (input ++ more) other = .error .outputOverflow)) ∧
    ∀ (budget : UInt64) (file : File) (width height : UInt32) (format : PixelFormat),
      1 ≤ width.toNat → 1 ≤ height.toNat →
      file.header = (Ihdr.ofFormat width height format).toBytes →
      width.toNat * height.toNat ≤ budget.toNat →
      filteredSize (.ofFormat width height format) < Memory.limit →
      file.imageData = input ++ more →
      let l := Layout.ofFormat width height format
      let dec : Decoder := { budget, inflater := .zlib }
      (dec.run file.toBytes).call = some (callFor .zlib file l) ∧
        (∀ rows, handedOn (callFor .zlib file l) = some rows ↔
          filteredSize l = inflated.produced ∧ rows = inflated.written) ∧
        (filteredSize l = inflated.produced → dec.decode file.toBytes =
          ((reconstruct l inflated.written).mapError Failure.error).map fun pixels =>
            ⟨some l, some pixels, none⟩) ∧
        (filteredSize l ≠ inflated.produced →
          dec.decode file.toBytes = .error (.malformed .decompress)) := by
  have hlength := (zlib_append h more slice).1
  have hfits := produced_le h
  refine ⟨fun other => ⟨fun hroom => ?_, fun hroom => ?_⟩, ?_⟩
  · refine ⟨_, (zlib_append h more other).2.trans (if_pos hroom), rfl, ?_⟩
    dsimp only
    rw [← hlength] at hroom hfits ⊢
    rw [take_overwrite other hroom, take_overwrite slice hfits]
  · exact (zlib_append h more other).2.trans (if_neg (Nat.not_le.mpr hroom))
  · intro budget file width height format hwidth hheight hheader hbudget hmemory hdata
    have hnil : file.imageData ≠ [] := by
      obtain ⟨stream, hstream, -⟩ := exists_stream h
      rw [hdata]
      exact List.append_ne_nil_of_left_ne_nil (Trailing.ne_nil_of_inflate hstream) more
    obtain ⟨hhanded, hmem⟩ := handedOn_callFor h hdata (.ofFormat width height format)
    have hobserve := observe_file .zlib hwidth hheight hheader hbudget hmemory hnil
    have hdecode := decode_file .zlib hwidth hheight hheader hbudget hmemory hnil
    refine ⟨congrArg Observed.call hobserve, fun rows => ?_, fun hsize => ?_, fun hsize => ?_⟩
    · rw [hhanded, Option.ite_none_right_eq_some, Option.some.injEq, eq_comm (a := rows)]
    · rw [if_pos hsize] at hhanded
      rw [hdecode, pixels_of_handedOn hhanded]
    · rw [if_neg hsize] at hhanded
      rw [hdecode, pixels_of_not_handedOn hhanded hmem]
      rfl

/-- An image of so many bytes, with three stored blocks and a byte behind them in three IDAT
chunks. -/
def inThreeChunks (width height checksum : UInt32) : File where
  header := (Ihdr.ofFormat width height (.luminance .eight)).toBytes
  headerCrc := 0
  chunks := [⟨Tag.idat, [0x78, 0x01, 0, 1], 1⟩, ⟨Tag.idat, [], 2⟩,
    ⟨Tag.idat, [0, 254, 255, 0, 0, 0, 0, 255, 255, 1, 3, 0, 252, 255, 42, 2, 7] ++
      BigEndian.ofWord checksum ++ [99], 3⟩]
  trailer := none
  length_header := rfl
  chunks_fit := by
    have htag : Tag.idat ≠ Tag.iend := by decide
    simp [Scan.Fits, htag, BigEndian.length_ofWord, UInt32.size]

theorem stream_settles_size_threeBlocks :
    Inflater.zlib.inflate (threeBlocks.toBytes 0x008D0034) (.zeroed 9) =
        .ok { produced := 4, written := [0, 42, 2, 7] } ∧
      (∀ other : Slice, other.size < 4 →
        Inflater.zlib.inflate (threeBlocks.toBytes 0x008D0034 ++ [99]) other =
          .error .outputOverflow) ∧
      Decoder.decode { budget := 2 } (inThreeChunks 1 2 0x008D0034).toBytes =
        .ok { layout := some (.ofFormat 1 2 (.luminance .eight))
              pixels := some [42, 49]
              error := none } ∧
      Decoder.decode { budget := 2 } (inThreeChunks 2 1 0x008D0034).toBytes =
        .error (.malformed .decompress) := by
  have hinflate : Inflater.zlib.inflate (threeBlocks.toBytes 0x008D0034) (.zeroed 9) =
      .ok { produced := 4, written := [0, 42, 2, 7] } := by
    have hparts := inflate_parts threeBlocks 0x008D0034 [] (by decide : _ ≤ 9)
    rw [List.append_nil, if_pos (by decide)] at hparts
    rw [zlib_inflate_eq, size_zeroed, hparts]
    rfl
  obtain ⟨hslices, hfiles⟩ := stream_settles_size _ _ _ hinflate [99]
  obtain ⟨-, -, hright, -⟩ := hfiles 2 (inThreeChunks 1 2 0x008D0034) 1 2 (.luminance .eight)
    (by decide) (by decide) rfl (by decide) (by decide) rfl
  obtain ⟨-, -, -, hwrong⟩ := hfiles 2 (inThreeChunks 2 1 0x008D0034) 2 1 (.luminance .eight)
    (by decide) (by decide) rfl (by decide) (by decide) rfl
  have hrows : [0, 42, 2, 7] =
      residual 1 (.luminance .eight) [.none, .up] [42, 49] := by decide
  refine ⟨hinflate, fun other => (hslices other).2, ?_, hwrong (by decide)⟩
  rw [hright (by decide), hrows, reconstruct_residual (by decide) rfl rfl]
  rfl

end Png.Proofs.ImageSize

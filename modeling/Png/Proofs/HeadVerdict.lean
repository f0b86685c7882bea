import Png.Proofs.Enumeration
import Png.Proofs.ScanRange

namespace Png.Proofs.HeadVerdict

open Dissection Enumeration Header ScanRange

variable {data : List UInt8}

def byteAt (data : List UInt8) (i : Nat) : UInt8 := data.getD i 0

def numberAt (data : List UInt8) (i : Nat) : Nat :=
  (byteAt data i).toNat * 0x1000000 + (byteAt data (i + 1)).toNat * 0x10000 +
    (byteAt data (i + 2)).toNat * 0x100 + (byteAt data (i + 3)).toNat

def supported : List (Nat × Nat) :=
  [(0, 1), (0, 2), (0, 4), (0, 8), (0, 16), (2, 8), (2, 16),
    (4, 1), (4, 2), (4, 4), (4, 8), (4, 16), (6, 8), (6, 16)]

def HasSignature (data : List UInt8) : Prop :=
  8 ≤ data.length ∧ data.take 8 = signature

/-- The chunk behind the signature lies in the buffer, down to its checksum. -/
def HasWholeChunk (data : List UInt8) : Prop :=
  8 + 12 ≤ data.length ∧ 8 + 12 + numberAt data 8 ≤ data.length

def HasIhdr (data : List UInt8) : Prop :=
  (data.drop 12).take 4 = Tag.ihdr.toList ∧ numberAt data 8 = 13

/-- That chunk is an IHDR chunk, and no field of it has a value that it may never have. -/
structure IsSound (data : List UInt8) : Prop where
  ihdr : HasIhdr data
  width : numberAt data 16 ≠ 0
  height : numberAt data 20 ≠ 0
  compression : byteAt data 26 = 0
  filter : byteAt data 27 = 0
  interlace : byteAt data 28 = 0 ∨ byteAt data 28 = 1

/-- What is to be said of a buffer. -/
inductive Verdict (data : List UInt8) : Except DecodeError Head → Prop
  | notAPng (h : ¬ HasSignature data) : Verdict data (.error .notAPng)
  | bare (hsignature : HasSignature data) (h : data.length = 8) :
    Verdict data (.error (.malformed .headerParse))
  | cut (hsignature : HasSignature data) (hmore : data.length ≠ 8) (h : ¬ HasWholeChunk data) :
    Verdict data (.error (.malformed .chunkScan))
  | unsound (hsignature : HasSignature data) (hchunk : HasWholeChunk data) (h : ¬ IsSound data) :
    Verdict data (.error (.malformed .headerParse))
  | interlaced (hsignature : HasSignature data) (hchunk : HasWholeChunk data)
    (hsound : IsSound data) (h : byteAt data 28 = 1) : Verdict data (.error .unsupportedInterlace)
  | unlisted (hsignature : HasSignature data) (hchunk : HasWholeChunk data)
    (hsound : IsSound data) (hplain : byteAt data 28 = 0)
    (h : ((byteAt data 25).toNat, (byteAt data 24).toNat) ∉ supported) :
    Verdict data (.error .unsupportedFormat)
  | accepted (hsignature : HasSignature data) (hchunk : HasWholeChunk data)
    (hsound : IsSound data) (hplain : byteAt data 28 = 0)
    (width height : UInt32) (format : PixelFormat) (hwidth : width.toNat = numberAt data 16)
    (hheight : height.toNat = numberAt data 20) (hcolor : format.colorType = byteAt data 25)
    (hdepth : format.bitDepth = (byteAt data 24).toNat) :
    Verdict data (.ok { layout := .ofFormat width height format, next := 33 })

theorem take_eq_signature_iff : data.take signature.length = signature ↔ HasSignature data := by
  refine ⟨fun h => ⟨Nat.le_of_not_lt fun hlt => take_ne_of_length_lt hlt h, h⟩, fun h => h.2⟩

theorem byteAt_add (data : List UInt8) (i k : Nat) :
    byteAt data (i + k) = (data.drop i).getD k 0 := by
  rw [byteAt, List.getD_eq_getElem?_getD, List.getD_eq_getElem?_getD, List.getElem?_drop]

theorem toNat_word {i : Nat} (h : i + 4 ≤ data.length) :
    (BigEndian.word (data.drop i)).toNat = numberAt data i := by
  have hlength : 4 ≤ (data.drop i).length := by
    rw [List.length_drop]
    omega
  have hzero := byteAt_add data i 0
  rw [Nat.add_zero] at hzero
  rw [numberAt, hzero, byteAt_add, byteAt_add, byteAt_add]
  match data.drop i, hlength with
  | a :: b :: c :: d :: rest, _ =>
    have ha := a.toNat_lt
    have hb := b.toNat_lt
    have hc := c.toNat_lt
    have hd := d.toNat_lt
    simp only [BigEndian.word, BigEndian.value, List.take_succ_cons, List.take_zero,
      List.foldl_cons, List.foldl_nil, UInt32.toNat_ofNat', List.getD_cons_zero,
      List.getD_cons_succ]
    omega

theorem ofBytes_bare (hsignature : HasSignature data) (h : data.length = 8) :
    Head.ofBytes data = .error .noChunks := by
  have hend : data.length ≤ signature.length := Nat.le_of_eq h
  rw [Head.ofBytes, if_neg (not_not_intro (take_eq_signature_iff.mpr hsignature)),
    Walk.behindSignature, next_at_end hend]

theorem isCutOff_iff_not_whole (h : 8 ≤ data.length) :
    IsCutOff (data.drop 8) ↔ ¬ HasWholeChunk data := by
  have hover : Chunk.overhead = 12 := rfl
  rw [isCutOff_iff, HasWholeChunk, List.length_drop]
  by_cases hroom : 8 + 12 ≤ data.length
  · rw [toNat_word (by omega)]
    omega
  · omega

theorem ofBytes_cut (hsignature : HasSignature data) (hmore : data.length ≠ 8)
    (h : ¬ HasWholeChunk data) :
    ∃ failure, failure.error = .malformed .chunkScan ∧ Head.ofBytes data = .error failure := by
  have hlength := hsignature.1
  have hbehind : ¬ data.length ≤ signature.length := by
    change ¬ data.length ≤ 8
    omega
  obtain ⟨failure, hfailure⟩ := exists_failure ((isCutOff_iff_not_whole hlength).mpr h) 8
  refine ⟨failure, error_of_chunkAt hfailure, ?_⟩
  have hchunk : Walk.chunkAt (data.drop signature.length) signature.length = .error failure :=
    hfailure
  rw [Head.ofBytes, if_neg (not_not_intro (take_eq_signature_iff.mpr hsignature)),
    Walk.behindSignature, next_before_end hbehind, hchunk]

def firstChunk (data : List UInt8) : Chunk where
  tag := Tag.ofBytes (data.drop 12)
  length := BigEndian.word (data.drop 8)
  start := 16
  crc := BigEndian.word (data.drop (16 + numberAt data 8))

theorem chunkAt_first (h : HasWholeChunk data) :
    Walk.chunkAt (data.drop 8) 8 = .ok (firstChunk data) := by
  have hover : Chunk.overhead = 12 := rfl
  obtain ⟨hroom, hwhole⟩ := h
  have hnumber : (BigEndian.word (data.drop 8)).toNat = numberAt data 8 := toNat_word (by omega)
  rw [Walk.chunkAt, List.length_drop, if_neg (by omega)]
  dsimp only
  rw [if_neg (by omega), hnumber, List.drop_drop, List.drop_drop, ← Nat.add_assoc]
  rfl

theorem next_first (h : HasWholeChunk data) :
    (Walk.behindSignature data).next =
      (some (.ok (firstChunk data)),
        { data
          position := 8 + (firstChunk data).length.toNat + Chunk.overhead
          ended := (firstChunk data).tag == Tag.iend }) := by
  have hbehind : ¬ data.length ≤ signature.length := by
    have hroom := h.1
    change ¬ data.length ≤ 8
    omega
  have hchunk : Walk.chunkAt (data.drop signature.length) signature.length =
    .ok (firstChunk data) := chunkAt_first h
  rw [Walk.behindSignature, next_before_end hbehind, hchunk]
  rfl

def fields (data : List UInt8) : Ihdr where
  width := BigEndian.word (data.drop 16)
  height := BigEndian.word (data.drop 20)
  bitDepth := byteAt data 24
  colorType := byteAt data 25
  compression := byteAt data 26
  filter := byteAt data 27
  interlace := byteAt data 28

theorem ofBytes?_fields (h : 29 ≤ data.length) :
    Ihdr.ofBytes? ((data.drop 16).take 13) = some (fields data) := by
  have hlength : 13 ≤ (data.drop 16).length := by
    rw [List.length_drop]
    omega
  have hheight : data.drop 20 = (data.drop 16).drop 4 := by rw [List.drop_drop]
  simp only [fields, hheight, byteAt_add data 16 8, byteAt_add data 16 9, byteAt_add data 16 10,
    byteAt_add data 16 11, byteAt_add data 16 12]
  match data.drop 16, hlength with
  | _ :: _ :: _ :: _ :: _ :: _ :: _ :: _ :: _ :: _ :: _ :: _ :: _ :: rest, _ => rfl

theorem tag_eq_ihdr_iff (h : HasWholeChunk data) :
    (firstChunk data).tag = Tag.ihdr ↔ (data.drop 12).take 4 = Tag.ihdr.toList := by
  have hlength : 4 ≤ (data.drop 12).length := by
    have hroom := h.1
    rw [List.length_drop]
    omega
  rw [← Tag.toList_ofBytes hlength]
  refine ⟨fun htag => congrArg Tag.toList htag, fun hlist => ?_⟩
  have hread := congrArg Tag.ofBytes hlist
  rwa [← List.append_nil (Tag.toList _), ← List.append_nil Tag.ihdr.toList, Tag.ofBytes_toList,
    Tag.ofBytes_toList] at hread

theorem payload_first (h : HasWholeChunk data) :
    (firstChunk data).payload data = (data.drop 16).take (numberAt data 8) := by
  have hroom := h.1
  rw [Chunk.payload, ← toNat_word (show 8 + 4 ≤ data.length by omega)]
  rfl

theorem ihdr?_of_hasIhdr (h : HasWholeChunk data) (hihdr : HasIhdr data) :
    (firstChunk data).ihdr? data = some (fields data) := by
  obtain ⟨htag, hthirteen⟩ := hihdr
  have hwhole := h.2
  rw [Chunk.ihdr?, if_pos ((tag_eq_ihdr_iff h).mpr htag), payload_first h, hthirteen]
  exact ofBytes?_fields (by omega)

theorem ihdr?_of_not_hasIhdr (h : HasWholeChunk data) (hihdr : ¬ HasIhdr data) :
    (firstChunk data).ihdr? data = none := by
  rw [Chunk.ihdr?]
  by_cases htag : (firstChunk data).tag = Tag.ihdr
  · rw [if_pos htag, payload_first h]
    cases hfields : Ihdr.ofBytes? ((data.drop 16).take (numberAt data 8)) with
    | none => rfl
    | some ihdr =>
      have hlength := length_of_ihdr hfields
      have hwhole := h.2
      rw [List.length_take, List.length_drop] at hlength
      exact absurd ⟨(tag_eq_ihdr_iff h).mp htag, by omega⟩ hihdr
  · rw [if_neg htag]

theorem ofBytes_other (hsignature : HasSignature data) (hchunk : HasWholeChunk data)
    (h : ¬ HasIhdr data) : Head.ofBytes data = .error .notIhdr := by
  rw [Head.ofBytes, if_neg (not_not_intro (take_eq_signature_iff.mpr hsignature)),
    next_first hchunk]
  dsimp only
  rw [ihdr?_of_not_hasIhdr hchunk h]

theorem ofBytes_ihdr (hsignature : HasSignature data) (hchunk : HasWholeChunk data)
    (h : HasIhdr data) :
    Head.ofBytes data = (fields data).layout.map fun layout => { layout, next := 33 } := by
  have hroom := hchunk.1
  have hlength : (firstChunk data).length.toNat = 13 :=
    (toNat_word (show 8 + 4 ≤ data.length by omega)).trans h.2
  rw [Head.ofBytes, if_neg (not_not_intro (take_eq_signature_iff.mpr hsignature)),
    next_first hchunk]
  dsimp only
  rw [ihdr?_of_hasIhdr hchunk h, hlength]
  dsimp only
  cases (fields data).layout <;> rfl

theorem mem_supported_iff (colorType bitDepth : UInt8) :
    (colorType.toNat, bitDepth.toNat) ∈ supported ↔
      ∃ format, PixelFormat.ofHeader? colorType bitDepth = some format := by
  have hall : supported = PixelFormat.all.map fun f => (f.colorType.toNat, f.bitDepth) := rfl
  simp only [hall, List.mem_map, Prod.mk.injEq, UInt8.toNat_inj, PixelFormat.ofHeader?_eq_some_iff,
    PixelFormat.mem_all, true_and]

section

variable (hsignature : HasSignature data) (hchunk : HasWholeChunk data)

include hchunk

theorem toNat_fields (hihdr : HasIhdr data) :
    (fields data).width.toNat = numberAt data 16 ∧
      (fields data).height.toNat = numberAt data 20 := by
  have hwhole := hchunk.2
  rw [hihdr.2] at hwhole
  exact ⟨toNat_word (by omega), toNat_word (by omega)⟩

theorem hasSoundFields_iff (hihdr : HasIhdr data) :
    HasSoundFields (fields data) ↔ IsSound data := by
  obtain ⟨hwidth, hheight⟩ := toNat_fields hchunk hihdr
  have hzero : ∀ n : UInt32, n = 0 ↔ n.toNat = 0 := fun n => UInt32.toNat_inj.symm
  constructor
  · intro h
    exact
      { ihdr := hihdr
        width := hwidth ▸ mt (hzero _).mpr h.width
        height := hheight ▸ mt (hzero _).mpr h.height
        compression := h.compression
        filter := h.filter
        interlace := h.interlace }
  · intro h
    exact
      { width := mt (hzero _).mp (hwidth ▸ h.width)
        height := mt (hzero _).mp (hheight ▸ h.height)
        compression := h.compression
        filter := h.filter
        interlace := h.interlace }

include hsignature

theorem ofBytes_unsound (h : ¬ IsSound data) :
    ∃ failure, failure.error = .malformed .headerParse ∧ Head.ofBytes data = .error failure := by
  by_cases hihdr : HasIhdr data
  · obtain ⟨failure, herror, hlayout⟩ :=
      layout_unsound (mt (hasSoundFields_iff hchunk hihdr).mp h)
    exact ⟨failure, herror, by rw [ofBytes_ihdr hsignature hchunk hihdr, hlayout]; rfl⟩
  · exact ⟨.notIhdr, rfl, ofBytes_other hsignature hchunk hihdr⟩

variable (hsound : IsSound data)

include hsound

theorem ofBytes_interlaced (h : byteAt data 28 = 1) : Head.ofBytes data = .error .adam7 := by
  have hfields := (hasSoundFields_iff hchunk hsound.ihdr).mpr hsound
  rw [ofBytes_ihdr hsignature hchunk hsound.ihdr, layout_interlaced hfields h]
  rfl

theorem ofBytes_unlisted (hplain : byteAt data 28 = 0)
    (h : ((byteAt data 25).toNat, (byteAt data 24).toNat) ∉ supported) :
    ∃ failure, failure.error = .unsupportedFormat ∧ Head.ofBytes data = .error failure := by
  have hfields := (hasSoundFields_iff hchunk hsound.ihdr).mpr hsound
  rw [mem_supported_iff, not_exists] at h
  have hformat : PixelFormat.ofHeader? (fields data).colorType (fields data).bitDepth = none :=
    Option.eq_none_iff_forall_ne_some.mpr h
  obtain ⟨failure, herror, hlayout⟩ := layout_unlisted hfields hplain hformat
  exact ⟨failure, herror, by rw [ofBytes_ihdr hsignature hchunk hsound.ihdr, hlayout]; rfl⟩

theorem ofBytes_accepted (hplain : byteAt data 28 = 0) {width height : UInt32}
    {format : PixelFormat} (hwidth : width.toNat = numberAt data 16)
    (hheight : height.toNat = numberAt data 20) (hcolor : format.colorType = byteAt data 25)
    (hdepth : format.bitDepth = (byteAt data 24).toNat) :
    Head.ofBytes data = .ok { layout := .ofFormat width height format, next := 33 } := by
  have hfields := (hasSoundFields_iff hchunk hsound.ihdr).mpr hsound
  have hformat : PixelFormat.ofHeader? (fields data).colorType (fields data).bitDepth =
    some format := PixelFormat.ofHeader?_eq_some_iff.mpr ⟨hcolor, hdepth⟩
  have hnumbers := toNat_fields hchunk hsound.ihdr
  obtain rfl : width = (fields data).width := UInt32.toNat_inj.mp (hwidth.trans hnumbers.1.symm)
  obtain rfl : height = (fields data).height :=
    UInt32.toNat_inj.mp (hheight.trans hnumbers.2.symm)
  rw [ofBytes_ihdr hsignature hchunk hsound.ihdr, layout_plain hfields hplain hformat]
  rfl

end

theorem exists_verdict (data : List UInt8) : ∃ result, Verdict data result := by
  by_cases hsignature : HasSignature data
  case neg => exact ⟨_, .notAPng hsignature⟩
  by_cases hbare : data.length = 8
  · exact ⟨_, .bare hsignature hbare⟩
  by_cases hchunk : HasWholeChunk data
  case neg => exact ⟨_, .cut hsignature hbare hchunk⟩
  by_cases hsound : IsSound data
  case neg => exact ⟨_, .unsound hsignature hchunk hsound⟩
  obtain hplain | hadam := hsound.interlace
  · by_cases hlisted : ((byteAt data 25).toNat, (byteAt data 24).toNat) ∈ supported
    · obtain ⟨format, hformat⟩ := (mem_supported_iff _ _).mp hlisted
      obtain ⟨hcolor, hdepth⟩ := PixelFormat.ofHeader?_eq_some_iff.mp hformat
      obtain ⟨hwidth, hheight⟩ := toNat_fields hchunk hsound.ihdr
      exact ⟨_, .accepted hsignature hchunk hsound hplain _ _ format hwidth hheight hcolor hdepth⟩
    · exact ⟨_, .unlisted hsignature hchunk hsound hplain hlisted⟩
  · exact ⟨_, .interlaced hsignature hchunk hsound hadam⟩

theorem mapError_of_error {failure : Failure} (h : Head.ofBytes data = .error failure) :
    (Head.ofBytes data).mapError Failure.error = .error failure.error := by
  rw [h]
  rfl

theorem mapError_of_verdict {result : Except DecodeError Head} (h : Verdict data result) :
    (Head.ofBytes data).mapError Failure.error = result := by
  cases h with
  | notAPng h => exact mapError_of_error (if_pos (mt take_eq_signature_iff.mp h))
  | bare hsignature h => exact mapError_of_error (ofBytes_bare hsignature h)
  | cut hsignature hmore h =>
    obtain ⟨failure, herror, hhead⟩ := ofBytes_cut hsignature hmore h
    rw [mapError_of_error hhead, herror]
  | unsound hsignature hchunk h =>
    obtain ⟨failure, herror, hhead⟩ := ofBytes_unsound hsignature hchunk h
    rw [mapError_of_error hhead, herror]
  | interlaced hsignature hchunk hsound h =>
    exact mapError_of_error (ofBytes_interlaced hsignature hchunk hsound h)
  | unlisted hsignature hchunk hsound hplain h =>
    obtain ⟨failure, herror, hhead⟩ := ofBytes_unlisted hsignature hchunk hsound hplain h
    rw [mapError_of_error hhead, herror]
  | accepted hsignature hchunk hsound hplain width height format hwidth hheight hcolor hdepth =>
    rw [ofBytes_accepted hsignature hchunk hsound hplain hwidth hheight hcolor hdepth]
    rfl

/-- There is exactly one thing to be said of a buffer, and looking for its head says it. -/
theorem head_iff_verdict (data : List UInt8) (result : Except DecodeError Head) :
    (Head.ofBytes data).mapError Failure.error = result ↔ Verdict data result := by
  refine ⟨?_, mapError_of_verdict⟩
  rintro rfl
  obtain ⟨result, hverdict⟩ := exists_verdict data
  rw [mapError_of_verdict hverdict]
  exact hverdict

end Png.Proofs.HeadVerdict

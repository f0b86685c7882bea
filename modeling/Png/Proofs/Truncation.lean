import Png.Proofs.Dissection
import Png.Proofs.ImageSize

namespace Png.Proofs.Truncation

open Acceptance Container Delivery Dissection ImageSize Observation Residual Scan Sizes

variable {chunks chunks' : List Chunk.Content} {trailer trailer' : Option Trailer}

theorem first_of_serialise {content : Chunk.Content} {rest : List UInt8} (hfits : Fits content)
    (hchunks : ∀ c ∈ chunks, Fits c ∧ c.tag ≠ Tag.iend)
    (h : content.toBytes ++ rest = Chunk.Content.serialise chunks ++ endingOf trailer) :
    (∃ later, chunks = content :: later ∧
        rest = Chunk.Content.serialise later ++ endingOf trailer) ∨
      chunks = [] ∧ ∃ t ∈ trailer, t.iend = content := by
  cases chunks with
  | cons c later =>
    rw [Chunk.Content.serialise_cons_append] at h
    obtain ⟨rfl, hrest⟩ := eq_of_toBytes_append hfits (hchunks c List.mem_cons_self).1 h
    exact .inl ⟨later, rfl, hrest⟩
  | nil =>
    cases trailer with
    | none =>
      have hpos := List.append_ne_nil_of_left_ne_nil
        (List.ne_nil_of_length_pos content.length_toBytes_pos) rest
      exact absurd h hpos
    | some t =>
      have hiend : Fits t.iend := t.fits
      change _ = t.iend.toBytes ++ t.behind at h
      exact .inr ⟨rfl, t, rfl, (eq_of_toBytes_append hfits hiend h).1.symm⟩

theorem chunks_of_serialise (hchunks' : ∀ c ∈ chunks', Fits c ∧ c.tag ≠ Tag.iend)
    (hchunks : ∀ c ∈ chunks, Fits c ∧ c.tag ≠ Tag.iend)
    (h : Chunk.Content.serialise chunks' ++ endingOf trailer' <+:
      Chunk.Content.serialise chunks ++ endingOf trailer) :
    chunks' <+: chunks ∧
      ∀ t' ∈ trailer', chunks' = chunks ∧ ∃ t ∈ trailer, t.iend = t'.iend := by
  obtain ⟨more, h⟩ := h
  -- The induction is on the chunks at the start. Each of them is the next one of the others, too.
  induction chunks' generalizing chunks with
  | nil =>
    refine ⟨List.nil_prefix, fun t' ht' => ?_⟩
    obtain rfl : trailer' = some t' := ht'
    have hiend : Fits t'.iend := t'.fits
    have hfirst : t'.iend.toBytes ++ (t'.behind ++ more) =
        Chunk.Content.serialise chunks ++ endingOf trailer := by
      rw [← h, ← List.append_assoc]
      rfl
    obtain ⟨later, rfl, -⟩ | ⟨rfl, ht⟩ := first_of_serialise hiend hchunks hfirst
    · exact absurd rfl (hchunks t'.iend List.mem_cons_self).2
    · exact ⟨rfl, ht⟩
  | cons c chunks' ih =>
    obtain ⟨⟨hfits, htag⟩, hlater'⟩ := List.forall_mem_cons.mp hchunks'
    rw [Chunk.Content.serialise_cons_append, List.append_assoc] at h
    obtain ⟨later, rfl, hrest⟩ | ⟨rfl, t, -, rfl⟩ := first_of_serialise hfits hchunks h
    · obtain ⟨hstart, hend⟩ := ih hlater' (List.forall_mem_cons.mp hchunks).2 hrest
      refine ⟨List.cons_prefix_cons.mpr ⟨rfl, hstart⟩, fun t' ht' => ?_⟩
      obtain ⟨rfl, ht⟩ := hend t' ht'
      exact ⟨rfl, ht⟩
    · exact absurd rfl htag

/-- So many bytes of the file end behind one of its chunks, or reach the end of IEND. -/
def EndsWhole (f : File) (n : Nat) : Prop :=
  (∃ k ≤ f.chunks.length, n = (f.head ++ Chunk.Content.serialise (f.chunks.take k)).length) ∨
    ∃ t ∈ f.trailer, (f.head ++ Chunk.Content.serialise f.chunks ++ t.iend.toBytes).length ≤ n

variable {f f' : File}

theorem header_eq (h : f'.toBytes <+: f.toBytes) :
    f'.header = f.header ∧ Chunk.Content.serialise f'.chunks ++ endingOf f'.trailer <+:
      Chunk.Content.serialise f.chunks ++ endingOf f.trailer := by
  obtain ⟨more, h⟩ := h
  rw [File.toBytes, File.toBytes, File.head, File.head, List.append_assoc, List.append_assoc,
    List.append_assoc, List.append_assoc] at h
  obtain ⟨hihdr, hrest⟩ := eq_of_toBytes_append (fits_ihdr f') (fits_ihdr f)
    (List.append_cancel_left h)
  exact ⟨congrArg Chunk.Content.payload hihdr, more, by rw [List.append_assoc]; exact hrest⟩

theorem imageData_start (h : f'.chunks <+: f.chunks) : f'.imageData <+: f.imageData := by
  obtain ⟨more, hmore⟩ := (h.filter fun c => c.tag = Tag.idat).map (·.payload)
  exact ⟨more.flatten, by rw [File.imageData, ← List.flatten_append]; exact congrArg _ hmore⟩

theorem endsWhole (h : f'.toBytes <+: f.toBytes) : EndsWhole f f'.toBytes.length := by
  obtain ⟨hheader, hstart⟩ := header_eq h
  obtain ⟨hchunks, htrailer⟩ := chunks_of_serialise f'.chunks_fit f.chunks_fit hstart
  have hhead : f'.head.length = f.head.length := (length_head f').trans (length_head f).symm
  cases hend : f'.trailer with
  | none =>
    refine .inl ⟨f'.chunks.length, hchunks.length_le, ?_⟩
    rw [← List.prefix_iff_eq_take.mp hchunks, File.toBytes, File.ending, hend, Option.elim_none,
      List.append_nil, List.length_append, List.length_append, hhead]
  | some t' =>
    obtain ⟨hsame, t, ht, hiend⟩ := htrailer t' hend
    refine .inr ⟨t, ht, ?_⟩
    rw [File.toBytes, File.ending, hend, Option.elim_some, hsame, hiend]
    simp only [List.length_append, hhead]
    omega

/-- Where an inflater fills its slice from the first part of an input as well as from all of it, it
fills it alike. -/
def IsSteady (inflater : Inflater) : Prop :=
  ∀ ⦃slice : Slice⦄ ⦃less more : List UInt8⦄ ⦃r r' : Inflated⦄, less <+: more →
    inflater.inflate less slice = .ok r → inflater.inflate more slice = .ok r' →
    r.produced = slice.size → r'.produced = slice.size →
    (slice.overwrite r.written).toList = (slice.overwrite r'.written).toList

theorem isSteady_zlib : IsSteady .zlib := by
  rintro slice less more r r' ⟨tail, rfl⟩ hless hmore - -
  have hall := (zlib_append hless tail slice).2
  rw [if_pos (produced_le hless), hmore] at hall
  cases hall
  rfl

theorem isSteady_copyAll : IsSteady .copyAll := by
  intro slice less more r r' hstart hless hmore hfull hfull'
  rw [Inflater.copyAll] at hless hmore
  dsimp only at hless hmore
  split at hless
  · cases hless
  · split at hmore
    · cases hmore
    · cases hless
      cases hmore
      rw [hstart.eq_of_length (hfull.trans hfull'.symm)]

theorem isSteady_copy : IsSteady .copy := by
  rintro slice less more r r' ⟨tail, rfl⟩ hless hmore hfull -
  cases hless
  cases hmore
  have hlong : slice.size ≤ less.length := by
    rw [← hfull, List.length_take]
    exact Nat.min_le_right _ _
  rw [List.take_append_of_le_length hlong]

theorem call_eq_ok {inflater : Inflater} {memory : Memory} {input : List UInt8} {slice : Slice}
    {inflated : Inflated} (h : inflater.call memory input slice = .ok inflated) :
    inflater.inflate input slice = .ok inflated := by
  rw [Inflater.call] at h
  split at h
  · cases h
  · exact h

theorem stream_bytes {dec : Decoder} {head : Head} {stream : Datastream} {inflated : Inflated}
    {pixels : List UInt8} (h : Accepts dec f.toBytes head stream inflated pixels) :
    headOf f.header = .ok head ∧ stream.bytes = f.imageData := by
  have hhead : headOf f.header = .ok head := (head_ofBytes f).symm.trans h.head_eq
  have hstream := h.stream_eq
  rw [next_of_headOf hhead, find_toBytes] at hstream
  refine ⟨hhead, ?_⟩
  split at hstream
  · cases hstream
  · split at hstream
    · cases hstream
      rfl
    · cases hstream

theorem pixels_eq_of_cut {dec : Decoder} {head head' : Head} {stream stream' : Datastream}
    {inflated inflated' : Inflated} {pixels pixels' : List UInt8} (hsteady : IsSteady dec.inflater)
    (hstart : f'.toBytes <+: f.toBytes)
    (h : Accepts dec f.toBytes head stream inflated pixels)
    (h' : Accepts dec f'.toBytes head' stream' inflated' pixels') :
    head' = head ∧ pixels' = pixels := by
  obtain ⟨hhead, hbytes⟩ := stream_bytes h
  obtain ⟨hhead', hbytes'⟩ := stream_bytes h'
  obtain ⟨hheader, hrest⟩ := header_eq hstart
  rw [hheader, hhead] at hhead'
  obtain rfl : head = head' := Except.ok.inj hhead'
  have hchunks := (chunks_of_serialise f'.chunks_fit f.chunks_fit hrest).1
  have hdata : stream'.bytes <+: stream.bytes := by
    rw [hbytes, hbytes']
    exact imageData_start hchunks
  have hrows := hsteady hdata (call_eq_ok h'.answer_eq) (call_eq_ok h.answer_eq)
    (h'.produced_eq.trans (size_zeroed _).symm) (h.produced_eq.trans (size_zeroed _).symm)
  have hpixels := h'.pixels_eq
  rw [hrows, h.pixels_eq] at hpixels
  exact ⟨rfl, (Except.ok.inj hpixels).symm⟩

/-- A file that is decoded is made of chunks, and what is left of it when it is cut is refused or
shows the same image. The latter it may do only if no chunk before IEND is cut. -/
theorem decode_cut (dec : Decoder) (data : List UInt8) (p : Picture)
    (hinflater : dec.inflater = .zlib ∨ dec.inflater = .copyAll ∨ dec.inflater = .copy)
    (h : dec.decode data = .ok p) :
    ∃ f : File, f.toBytes = data ∧ ∀ cut, cut <+: data →
      (∃ e, dec.decode cut = .error e) ∨ (dec.decode cut = .ok p ∧ EndsWhole f cut.length) := by
  have hsteady : IsSteady dec.inflater := by
    obtain hi | hi | hi := hinflater <;> rw [hi]
    · exact isSteady_zlib
    · exact isSteady_copyAll
    · exact isSteady_copy
  obtain ⟨head, stream, inflated, pixels, haccepts, rfl⟩ := decode_eq_ok h
  obtain ⟨f, rfl⟩ := exists_file haccepts
  refine ⟨f, rfl, fun cut hcut => ?_⟩
  cases hdecode : dec.decode cut with
  | error e => exact .inl ⟨e, rfl⟩
  | ok p' =>
    obtain ⟨head', stream', inflated', pixels', haccepts', rfl⟩ := decode_eq_ok hdecode
    obtain ⟨f', rfl⟩ := exists_file haccepts'
    obtain ⟨rfl, rfl⟩ := pixels_eq_of_cut hsteady hcut haccepts haccepts'
    exact .inr ⟨rfl, endsWhole hcut⟩

theorem decode_cut_scattered :
    let dec : Decoder := { budget := 4, inflater := .copyAll }
    let p : Picture :=
      { layout := some (.ofFormat 2 2 (.luminanceAlpha .eight))
        pixels := some [10, 255, 20, 128, 13, 250, 200, 0]
        error := none }
    dec.decode scattered.toBytes = .ok p ∧
      ∃ f : File, f.toBytes = scattered.toBytes ∧ ∀ cut, cut <+: scattered.toBytes →
        (∃ e, dec.decode cut = .error e) ∨ (dec.decode cut = .ok p ∧ EndsWhole f cut.length) := by
  intro dec p
  have hhanded : handedOn (callFor .copyAll scattered (.ofFormat 2 2 (.luminanceAlpha .eight))) =
      some (residual 2 (.luminanceAlpha .eight) [.paeth, .average]
        [10, 255, 20, 128, 13, 250, 200, 0]) := rfl
  have hdecode : dec.decode scattered.toBytes = .ok p := by
    have hfile : dec.decode scattered.toBytes = _ :=
      decode_file .copyAll (by decide) (by decide) rfl (by decide) (by decide) (by decide)
    rw [hfile, pixels_of_handedOn hhanded, reconstruct_residual (by decide) rfl rfl]
    rfl
  exact ⟨hdecode, decode_cut dec scattered.toBytes p (.inr (.inl rfl)) hdecode⟩

end Png.Proofs.Truncation

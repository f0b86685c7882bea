import Png.Proofs.Header
import Png.Proofs.Observation
import Png.Proofs.Reconstruction

namespace Png.Proofs.Acceptance

open Header Observation Reconstruction Sizes

variable {dec : Decoder} {data pixels : List UInt8} {head : Head} {p : Picture}

/-- What a decode that succeeds has met on its way, whatever the decoder. -/
structure Accepts (dec : Decoder) (data : List UInt8) (head : Head) (stream : Datastream)
    (inflated : Inflated) (pixels : List UInt8) : Prop where
  budget_ne : dec.budget ≠ 0
  head_eq : Head.ofBytes data = .ok head
  withinBudget : ¬ dec.budget < head.layout.pixelCount
  stream_eq : Datastream.find dec.memory data head.next = .ok stream
  hasMemory : filteredSize head.layout < Memory.limit ∧ dec.memory.grants .rows
  answer_eq : dec.inflater.call dec.memory stream.bytes (.zeroed (filteredSize head.layout)) =
    .ok inflated
  produced_eq : inflated.produced = filteredSize head.layout
  pixels_eq : reconstruct head.layout
    ((Slice.zeroed (filteredSize head.layout)).overwrite inflated.written).toList = .ok pixels

theorem pixels_eq_ok {c : Call} {l : Layout} (h : c.pixels l = .ok pixels) :
    ∃ inflated, c.answer = .ok inflated ∧ inflated.produced = c.slice.size ∧
      reconstruct l (c.slice.overwrite inflated.written).toList = .ok pixels := by
  rw [Call.pixels] at h
  split at h
  · cases h
  · rename_i inflated hanswer
    split at h
    · exact ⟨inflated, hanswer, ‹_›, h⟩
    · cases h

theorem layout_runBody (dec : Decoder) (data : List UInt8) (head : Head) :
    (dec.runBody data head).layout = some head.layout := by
  rw [Decoder.runBody]
  split
  · rfl
  · split
    · rfl
    · split
      · rfl
      · split <;> rfl

theorem runBody_eq_ok (hbudget : dec.budget ≠ 0) (hhead : Head.ofBytes data = .ok head)
    (h : (dec.runBody data head).result = .ok pixels) :
    ∃ stream inflated, Accepts dec data head stream inflated pixels := by
  rw [Decoder.runBody] at h
  split at h
  · cases h
  · rename_i hcount
    split at h
    · cases h
    · rename_i size hsize
      obtain ⟨hlimit, rfl⟩ := size_eq_of_filteredSize? hsize
      split at h
      · cases h
      · rename_i stream hstream
        split at h
        · rename_i hrows
          obtain ⟨inflated, hanswer, hproduced, hpixels⟩ := pixels_eq_ok h
          exact ⟨stream, inflated,
            { budget_ne := hbudget
              head_eq := hhead
              withinBudget := hcount
              stream_eq := hstream
              hasMemory := hrows
              answer_eq := hanswer
              produced_eq := hproduced.trans (size_zeroed _)
              pixels_eq := hpixels }⟩
        · cases h

theorem run_eq_ok (h : (dec.run data).result = .ok pixels) :
    ∃ head stream inflated, (dec.run data).layout = some head.layout ∧
      Accepts dec data head stream inflated pixels := by
  by_cases hbudget : dec.budget = 0
  · rw [Decoder.run, if_pos hbudget] at h
    cases h
  · cases hhead : Head.ofBytes data with
    | error failure =>
      rw [Decoder.run, if_neg hbudget, hhead] at h
      cases h
    | ok head =>
      rw [run_head hbudget hhead] at h ⊢
      obtain ⟨stream, inflated, haccepts⟩ := runBody_eq_ok hbudget hhead h
      exact ⟨head, stream, inflated, layout_runBody dec data head, haccepts⟩

theorem decode_eq_ok (h : dec.decode data = .ok p) :
    ∃ head stream inflated pixels, Accepts dec data head stream inflated pixels ∧
      p = { layout := some head.layout, pixels := some pixels, error := none } := by
  rw [decode_eq] at h
  cases hresult : (dec.run data).result with
  | error failure =>
    rw [observe_of_error hresult] at h
    cases h
  | ok pixels =>
    obtain ⟨head, stream, inflated, hlayout, haccepts⟩ := run_eq_ok hresult
    rw [observe_of_ok hresult, hlayout] at h
    cases h
    exact ⟨head, stream, inflated, pixels, haccepts, rfl⟩

theorem exists_ofFormat (h : Head.ofBytes data = .ok head) :
    ∃ width height format, 1 ≤ width.toNat ∧ 1 ≤ height.toNat ∧
      head.layout = .ofFormat width height format := by
  rw [Head.ofBytes] at h
  split at h
  · cases h
  · split at h
    · cases h
    · cases h
    · split at h
      · cases h
      · rename_i ihdr _
        split at h
        · cases h
        · rename_i layout hlayout
          cases h
          exact layout_eq_ofFormat hlayout

theorem Accepts.length_pixels {stream : Datastream} {inflated : Inflated}
    (h : Accepts dec data head stream inflated pixels) :
    pixels.length = Sizes.stride head.layout * head.layout.height.toNat := by
  have hpixels := h.pixels_eq
  obtain ⟨-, hrec⟩ | ⟨-, -, failure, -, hrec⟩ | ⟨-, -, -, pixels', hrec, hspec⟩ :=
    reconstruct_cases head.layout
      ((Slice.zeroed (filteredSize head.layout)).overwrite inflated.written).toList
  · rw [hrec] at hpixels
    cases hpixels
  · rw [hrec] at hpixels
    cases hpixels
  · rw [hrec] at hpixels
    cases hpixels
    exact hspec.length

end Png.Proofs.Acceptance

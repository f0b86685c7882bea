import Png.Checked.Decoder
import Png.Proofs.InPlace
import Png.Proofs.PixelRange
import Png.Proofs.Precedence
import Png.Proofs.RoundTrip
import Png.Proofs.ScanRange

namespace Png.Proofs.Range

open Checked Container PixelRange Precedence ScanRange Sizes

variable {data : List UInt8}

theorem pixels?_eq (c : Call) (l : Layout) : pixels? c l = some (c.pixels l) := by
  rw [pixels?, Call.pixels]
  cases c.answer with
  | error cause => rfl
  | ok inflated =>
    dsimp only
    rw [InPlace.unfilter_eq]
    split <;> rfl

theorem length_succ_lt (h : data.length < bufferLimit) : data.length + 1 < Size.limit := by
  have hlimit : Size.limit = 2 * bufferLimit := rfl
  have hbuffer : bufferLimit = 0x8000000000000000 := rfl
  omega

theorem runBody?_eq (dec : Decoder) (hdata : data.length < bufferLimit) (head : Head) :
    runBody? dec data head = some (dec.runBody data head) := by
  apply bind_of_some (Size.mul?_of_lt (toNat_mul_toNat_lt head.layout.width head.layout.height))
  rw [Decoder.runBody]
  by_cases hcount : dec.budget < head.layout.pixelCount
  · rw [if_pos hcount, if_pos ((lt_pixelCount_iff _ _).mp hcount)]
  · rw [if_neg hcount, if_neg (mt (lt_pixelCount_iff _ _).mpr hcount)]
    cases head.layout.filteredSize? with
    | none => rfl
    | some size =>
      apply bind_of_some (find?_eq dec.memory (length_succ_lt hdata) head.next)
      dsimp only
      cases Datastream.find dec.memory data head.next with
      | error failure => rfl
      | ok stream =>
        dsimp only
        split
        · exact bind_of_some (pixels?_eq _ _) rfl
        · rfl

theorem run?_eq (dec : Decoder) (hdata : data.length < bufferLimit) :
    run? dec data = some (dec.run data) := by
  have hhead : head? data = some (Head.ofBytes data) :=
    head?_eq (Nat.lt_of_succ_lt (length_succ_lt hdata))
  rw [run?, Decoder.run]
  by_cases hbudget : dec.budget = 0
  · rw [if_pos hbudget, if_pos hbudget]
  · rw [if_neg hbudget, if_neg hbudget]
    apply bind_of_some hhead
    cases Head.ofBytes data with
    | error failure => rfl
    | ok head => exact runBody?_eq dec hdata head

theorem load?_eq (p : Picture) (dec : Decoder) (hdata : data.length < bufferLimit) :
    load? p dec data = some (p.load dec data) :=
  bind_of_some (run?_eq dec hdata) rfl

/-- Every index, every slice and every sum, difference and product stays in range. That holds for a
walk over any buffer from any offset on, for the head and the compressed data of a buffer, for any
decode of it, for filters undone in place under any layout, for all predictions, and for the rows,
samples and brightness of whatever image a history of operations has left. -/
theorem stays_in_range (data : List UInt8) (offset : Nat) (hdata : data.length < bufferLimit)
    (hoffset : offset < Size.limit) :
    WalksInRange (.startingAt data offset) ∧
      head? data = some (Head.ofBytes data) ∧
      (∀ memory, find? memory data offset = some (Datastream.find memory data offset)) ∧
      (∀ p dec, load? p dec data = some (p.load dec data)) ∧
      (∀ l filtered, Png.InPlace.unfilter l filtered = some (reconstruct l filtered)) ∧
      (∀ f left above upperLeft,
        predict? f left above upperLeft = some (f.predict left above upperLeft)) ∧
      ∀ history, (Picture.blank.after history).isDecoded = true →
        ShowsInRange (Picture.blank.after history) := by
  have hsucc := length_succ_lt hdata
  refine ⟨walksInRange (Nat.lt_of_succ_lt hsucc) hoffset, head?_eq (Nat.lt_of_succ_lt hsucc),
    fun memory => find?_eq memory hsucc offset, fun p dec => load?_eq p dec hdata,
    InPlace.unfilter_eq, predict?_eq, fun history hdecoded => ?_⟩
  have hblank : Consistency.IsConsistent Picture.blank := Consistency.isConsistent_of_no_pixels rfl
  have hafter := Consistency.isConsistent_after hblank history
  exact showsInRange (hafter.decoded hdecoded)

def endless : List UInt8 :=
  signature ++ [255, 255, 255, 255, 73, 68, 65, 84, 1, 2, 3, 4]

def copying : Decoder := { budget := 4, inflater := .copyAll }

def smallLayout : Layout := .ofFormat 2 2 (.luminanceAlpha .eight)

def oneImage : List Operation :=
  [.load copying scattered.toBytes]

/-- A file whose image data are its filtered rows leaves a picture of what comes of them. -/
theorem after_copying {f : File} {head : Head} {pixels : List UInt8}
    (hhead : headOf f.header = .ok head)
    (hcount : head.layout.width.toNat * head.layout.height.toNat ≤ 4)
    (hsize : filteredSize head.layout < Memory.limit) (hdata : f.imageData ≠ [])
    (hpixels : pixels? (copying.inflate f.imageData (filteredSize head.layout)) head.layout =
      some (.ok pixels)) :
    Picture.blank.after [.load copying f.toBytes] =
      { layout := some head.layout, pixels := some pixels } := by
  have hrun : Observation.observe (copying.run f.toBytes) = _ :=
    RoundTrip.run_toBytes .copyAll (by decide) hhead hcount hsize hdata
  have hafter : Picture.blank.after [.load copying f.toBytes] =
      (Picture.blank.load copying f.toBytes).2 := rfl
  rw [pixels?_eq, Option.some_inj] at hpixels
  rw [hafter, Observation.load_eq, hrun]
  dsimp only
  rw [← copying, hpixels]
  rfl

theorem after_oneImage : Picture.blank.after oneImage =
    { layout := some smallLayout, pixels := some [10, 255, 20, 128, 13, 250, 200, 0] } :=
  after_copying (show headOf scattered.header = .ok ⟨smallLayout, 33⟩ from rfl) (by decide)
    (by decide) (by decide) rfl

theorem stays_in_range_endless :
    endless.length < bufferLimit ∧ 0xFFFFFFFFFFFFFFFF < Size.limit ∧
      next? (.startingAt endless 0xFFFFFFFFFFFFFFFF) =
        some (none, (Walk.startingAt endless 0xFFFFFFFFFFFFFFFF).stop) ∧
      head? endless = some (.error (.chunkOverrun 0xFFFFFFFF 8)) ∧
      sample? (Picture.blank.after oneImage) 1 1 0 = some (some 200) := by
  obtain ⟨hwalk, hhead, -, -, -, -, hshows⟩ :=
    stays_in_range endless 0xFFFFFFFFFFFFFFFF (by decide) (by decide)
  have hshown := hshows oneImage (by rw [after_oneImage]; rfl)
  refine ⟨by decide, by decide, hwalk.next 0, ?_, ?_⟩
  · rw [hhead]
    rfl
  · rw [hshown.sample, after_oneImage]
    rfl

end Png.Proofs.Range

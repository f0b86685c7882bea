import Png.Proofs.Container
import Png.Proofs.Header
import Png.Proofs.Residual

namespace Png.Proofs.RoundTrip

open Container Header Observation Sizes Residual

/-- The inflater makes exactly these bytes of its input, in a zeroed slice of their length. -/
def Inflates (inflater : Inflater) (input output : List UInt8) : Prop :=
  ∃ inflated, inflater.inflate input (.zeroed output.length) = .ok inflated ∧
    inflated.produced = output.length ∧
    ((Slice.zeroed output.length).overwrite inflated.written).toList = output

variable {inflater : Inflater} {budget : UInt64}

theorem pixels_of_inflates (budget : UInt64) {input output : List UInt8}
    (h : Inflates inflater input output) (l : Layout) :
    (Decoder.inflate { budget, inflater } input output.length).pixels l =
      reconstruct l output := by
  obtain ⟨inflated, hanswer, hproduced, hwritten⟩ := h
  rw [inflate_ample, hanswer, Call.pixels]
  dsimp only
  rw [size_zeroed, if_pos hproduced, hwritten]

theorem run_toBytes (inflater : Inflater) {f : File} {head : Head} (hbudget : budget ≠ 0)
    (hhead : headOf f.header = .ok head)
    (hpixels : head.layout.width.toNat * head.layout.height.toNat ≤ budget.toNat)
    (hsize : filteredSize head.layout < Memory.limit) (hdata : f.imageData ≠ []) :
    observe (Decoder.run { budget, inflater } f.toBytes) =
      { layout := some head.layout
        call := some (Decoder.inflate { budget, inflater } f.imageData (filteredSize head.layout))
        result := ((Decoder.inflate { budget, inflater } f.imageData
          (filteredSize head.layout)).pixels head.layout).mapError Failure.error } := by
  have hcount : ¬ budget < head.layout.pixelCount := by
    rw [UInt64.lt_iff_toNat_lt, toNat_pixelCount]
    exact Nat.not_lt.mpr hpixels
  have hlimit : filteredSize head.layout < Size.limit := Nat.lt_trans hsize (by decide)
  have hfind : Datastream.find .ample f.toBytes head.next = .ok ⟨f.parts⟩ := by
    rw [next_of_headOf hhead, find_toBytes, if_neg hdata]
    rfl
  rw [run_head hbudget ((head_ofBytes f).trans hhead)]
  exact observe_runBody_call hcount (filteredSize?_of_lt hlimit) hfind ⟨hsize, rfl⟩

theorem headOf_ofFormat {width height : UInt32} (hwidth : 1 ≤ width.toNat)
    (hheight : 1 ≤ height.toNat) (format : PixelFormat) :
    headOf (Ihdr.ofFormat width height format).toBytes =
      .ok { layout := .ofFormat width height format, next := 33 } := by
  have hw : width ≠ 0 := by
    rintro rfl
    exact absurd hwidth (by decide)
  have hh : height ≠ 0 := by
    rintro rfl
    exact absurd hheight (by decide)
  rw [headOf, ofBytes?_toBytes]
  dsimp only
  rw [layout_ofFormat hw hh]
  rfl

/-- Whatever inflates the image data of a file to the filtered rows of an image, the decoder makes
that image of the file. -/
theorem decode_filtered (inflater : Inflater) (budget : UInt64) (file : File)
    (width height : UInt32) (format : PixelFormat) (filters : List FilterType)
    (pixels : List UInt8) (hwidth : 1 ≤ width.toNat) (hheight : 1 ≤ height.toNat)
    (hheader : file.header = (Ihdr.ofFormat width height format).toBytes)
    (hbudget : width.toNat * height.toNat ≤ budget.toNat)
    (hmemory : filteredSize (.ofFormat width height format) < Memory.limit)
    (hfilters : filters.length = height.toNat)
    (hpixels : pixels.length = pixelSize (.ofFormat width height format))
    (hdata : file.imageData ≠ [])
    (hinflate : Inflates inflater file.imageData (residual width format filters pixels)) :
    Decoder.decode { budget, inflater } file.toBytes =
      .ok { layout := some (.ofFormat width height format)
            pixels := some pixels
            error := none } := by
  have hpositive : budget ≠ 0 := by
    rintro rfl
    have hproduct : 1 * 1 ≤ width.toNat * height.toNat := Nat.mul_le_mul hwidth hheight
    exact absurd (Nat.le_trans hproduct hbudget) (by decide)
  have hlimit : filteredSize (.ofFormat width height format) < Size.limit :=
    Nat.lt_trans hmemory (by decide)
  have hhead : headOf file.header = .ok { layout := .ofFormat width height format, next := 33 } :=
    hheader ▸ headOf_ofFormat hwidth hheight format
  have hlength := length_residual hfilters hpixels
  have hrun := run_toBytes inflater hpositive hhead hbudget hmemory hdata
  have hanswer := pixels_of_inflates budget hinflate (.ofFormat width height format)
  rw [hlength, reconstruct_residual hlimit hfilters hpixels] at hanswer
  rw [decode_eq, hrun]
  dsimp only
  rw [hanswer]
  rfl

/-- Four colour pixels. Below the first row, the second pixel of the Paeth row is told from each of
its neighbours in turn. -/
def colours : File where
  header := (Ihdr.ofFormat 2 2 (.rgb .eight)).toBytes
  headerCrc := 1
  chunks := [⟨Tag.idat, [3, 20, 22, 24, 11], 2⟩, ⟨⟨116, 69, 88, 116⟩, [9], 3⟩, ⟨Tag.idat, [], 4⟩,
    ⟨Tag.idat, [79, 22, 4, 30, 3, 244, 3, 246, 176], 5⟩]
  trailer := none
  length_header := rfl
  chunks_fit := by decide

theorem decode_filtered_colours :
    Inflates .copyAll colours.imageData (residual 2 (.rgb .eight) [.average, .paeth]
        [20, 22, 24, 21, 90, 34, 50, 25, 12, 53, 80, 200]) ∧
      Decoder.decode { budget := 4, inflater := .copyAll } colours.toBytes =
        .ok { layout := some (.ofFormat 2 2 (.rgb .eight))
              pixels := some [20, 22, 24, 21, 90, 34, 50, 25, 12, 53, 80, 200]
              error := none } := by
  have hinflate : Inflates .copyAll colours.imageData
      (residual 2 (.rgb .eight) [.average, .paeth]
        [20, 22, 24, 21, 90, 34, 50, 25, 12, 53, 80, 200]) := ⟨_, rfl, rfl, rfl⟩
  refine ⟨hinflate, ?_⟩
  exact decode_filtered .copyAll 4 colours 2 2 (.rgb .eight) [.average, .paeth]
    [20, 22, 24, 21, 90, 34, 50, 25, 12, 53, 80, 200] (by decide) (by decide) rfl (by decide)
    (by decide) rfl rfl (by decide) hinflate

end Png.Proofs.RoundTrip

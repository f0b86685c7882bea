import Png.Proofs.Observation
import Png.Proofs.WholeChunks

namespace Png.Proofs.Container

open Scan Observation WholeChunks

structure Trailer where
  payload : List UInt8
  crc : UInt32
  behind : List UInt8
  fits : payload.length < UInt32.size

def Trailer.iend (t : Trailer) : Chunk.Content := ⟨Tag.iend, t.payload, t.crc⟩

/-- The parts of a file. Without a trailer the buffer ends behind the last of the chunks. -/
structure File where
  header : List UInt8
  headerCrc : UInt32
  chunks : List Chunk.Content
  trailer : Option Trailer
  length_header : header.length = 13
  chunks_fit : ∀ c ∈ chunks, Fits c ∧ c.tag ≠ Tag.iend

namespace File

def ihdr (f : File) : Chunk.Content := ⟨Tag.ihdr, f.header, f.headerCrc⟩

def head (f : File) : List UInt8 := signature ++ f.ihdr.toBytes

def ending (f : File) : List UInt8 := f.trailer.elim [] fun t => t.iend.toBytes ++ t.behind

def toBytes (f : File) : List UInt8 :=
  f.head ++ (Chunk.Content.serialise f.chunks ++ f.ending)

def parts (f : File) : List (List UInt8) :=
  (f.chunks.filter fun c => c.tag = Tag.idat).map (·.payload)

def imageData (f : File) : List UInt8 := f.parts.flatten

end File

theorem fits_ihdr (f : File) : Fits f.ihdr := by
  have h : f.header.length < UInt32.size := by
    rw [f.length_header]
    decide
  exact h

theorem length_head (f : File) : f.head.length = 33 := by
  rw [File.head, List.length_append, Chunk.Content.length_toBytes]
  change signature.length + (f.header.length + Chunk.overhead) = 33
  rw [f.length_header]
  rfl

def headOf (header : List UInt8) : Except Failure Head :=
  match Ihdr.ofBytes? header with
  | none => .error .notIhdr
  | some ihdr => ihdr.layout.map fun layout => { layout, next := 33 }

theorem next_of_headOf {header : List UInt8} {head : Head} (h : headOf header = .ok head) :
    head.next = 33 := by
  rw [headOf] at h
  split at h
  · cases h
  · rename_i ihdr _
    cases hl : ihdr.layout with
    | error failure =>
      rw [hl] at h
      cases h
    | ok layout =>
      rw [hl] at h
      cases h
      rfl

theorem head_ofBytes (f : File) : Head.ofBytes f.toBytes = headOf f.header := by
  have hsig : f.toBytes.take signature.length = signature := by
    rw [File.toBytes, File.head, List.append_assoc, List.take_left]
  have hnext := next_toBytes (fits_ihdr f) signature
    (Chunk.Content.serialise f.chunks ++ f.ending)
  have hdata : signature ++ (f.ihdr.toBytes ++ (Chunk.Content.serialise f.chunks ++ f.ending)) =
      f.toBytes := by
    rw [File.toBytes, File.head, List.append_assoc]
  have hpayload := payload_found (fits_ihdr f) signature
    (Chunk.Content.serialise f.chunks ++ f.ending)
  have hpos : signature.length + f.ihdr.toBytes.length = 33 := by
    rw [← List.length_append]
    exact length_head f
  rw [hdata] at hnext hpayload
  rw [hpos] at hnext
  have hihdr : (found signature.length f.ihdr).ihdr? f.toBytes = Ihdr.ofBytes? f.header := by
    rw [Chunk.ihdr?, if_pos (by rfl), hpayload]
    rfl
  rw [Head.ofBytes, Walk.behindSignature, headOf, if_neg (not_not_intro hsig), hnext]
  dsimp only
  rw [hihdr]
  cases Ihdr.ofBytes? f.header with
  | none => rfl
  | some ihdr =>
    dsimp only
    cases ihdr.layout <;> rfl

def File.all (f : File) : List Chunk.Content := f.chunks ++ (f.trailer.map Trailer.iend).toList

theorem isWhole_file (f : File) :
    IsWhole (Chunk.Content.serialise f.chunks ++ f.ending) f.all := by
  apply IsWhole.append f.chunks_fit
  rw [File.ending]
  cases f.trailer with
  | none => exact .nil
  | some t => exact .iend t.behind t.fits rfl

theorem partsOf_file (f : File) : partsOf f.all = f.parts := by
  rw [File.all, partsOf, List.filter_append, List.map_append]
  cases f.trailer <;> exact List.append_nil _

theorem find_toBytes (memory : Memory) (f : File) :
    Datastream.find memory f.toBytes 33 =
      if f.imageData = [] then .error (.noImageData f.parts.length)
      else if memory.grants .datastream then .ok ⟨f.parts⟩
      else .error (.refused .datastream) := by
  have hfind := find_of_isWhole memory (isWhole_file f) f.head
  rwa [length_head, dataOf, partsOf_file, ← File.toBytes, ← File.imageData] at hfind

theorem observe_runBody {dec : Decoder} {f g : File} (h : f.imageData = g.imageData) {head : Head}
    (hnext : head.next = 33) :
    observe (dec.runBody f.toBytes head) = observe (dec.runBody g.toBytes head) := by
  rw [Decoder.runBody, Decoder.runBody, hnext, find_toBytes, find_toBytes, h]
  by_cases hbudget : dec.budget < head.layout.pixelCount
  · rw [if_pos hbudget, if_pos hbudget]
  · rw [if_neg hbudget, if_neg hbudget]
    cases head.layout.filteredSize? with
    | none => rfl
    | some size =>
      by_cases hnil : g.imageData = []
      · rw [if_pos hnil, if_pos hnil]
        rfl
      · rw [if_neg hnil, if_neg hnil]
        by_cases hgrant : dec.memory.grants .datastream
        · have hbytes : Datastream.bytes ⟨f.parts⟩ = Datastream.bytes ⟨g.parts⟩ := h
          rw [if_pos hgrant, if_pos hgrant]
          dsimp only
          rw [hbytes]
          by_cases hroom : size < Memory.limit ∧ dec.memory.grants .rows
          · rw [if_pos hroom, if_pos hroom]
            rfl
          · rw [if_neg hroom, if_neg hroom]
            rfl
        · rw [if_neg hgrant, if_neg hgrant]

theorem observe_run (dec : Decoder) {f g : File} (hheader : f.header = g.header)
    (hdata : f.imageData = g.imageData) :
    observe (dec.run f.toBytes) = observe (dec.run g.toBytes) := by
  by_cases hbudget : dec.budget = 0
  · rw [observe_run_zero hbudget, observe_run_zero hbudget]
  · have hf : Head.ofBytes f.toBytes = headOf g.header := by
      rw [head_ofBytes, hheader]
    have hg : Head.ofBytes g.toBytes = headOf g.header := head_ofBytes g
    cases hhead : headOf g.header with
    | error failure =>
      rw [hhead] at hf hg
      rw [observe_run_head hbudget hf, observe_run_head hbudget hg]
    | ok head =>
      rw [hhead] at hf hg
      rw [run_head hbudget hf, run_head hbudget hg]
      exact observe_runBody hdata (next_of_headOf hhead)

/-- Files with the same IHDR payload and the same image data decode alike, and the inflater is
called alike for them. -/
theorem decode_eq_of_same_content (dec : Decoder) (f g : File) (hheader : f.header = g.header)
    (hdata : f.imageData = g.imageData) :
    dec.decode f.toBytes = dec.decode g.toBytes ∧
      (dec.run f.toBytes).call = (dec.run g.toBytes).call := by
  have h := observe_run dec hheader hdata
  refine ⟨?_, congrArg Observed.call h⟩
  rw [decode_eq, decode_eq, h]

def whole : File where
  header := (Ihdr.ofFormat 2 2 (.luminanceAlpha .eight)).toBytes
  headerCrc := 0
  chunks := [⟨Tag.idat, [4, 10, 255, 10, 129, 3, 8, 123, 184, 67], 0⟩]
  trailer := none
  length_header := rfl
  chunks_fit := by decide

/-- The rows of `whole`, with a second IHDR chunk and an empty IDAT chunk, and an IDAT chunk behind
IEND. -/
def scattered : File where
  header := (Ihdr.ofFormat 2 2 (.luminanceAlpha .eight)).toBytes
  headerCrc := 1
  chunks := [⟨Tag.idat, [4, 10, 255], 2⟩, ⟨Tag.ihdr, [9], 3⟩, ⟨Tag.idat, [], 4⟩,
    ⟨Tag.idat, [10, 129, 3, 8, 123, 184, 67], 5⟩]
  trailer := some
    { payload := [6]
      crc := 7
      behind := [0, 0, 0, 1, 73, 68, 65, 84, 8, 0]
      fits := by decide }
  length_header := rfl
  chunks_fit := by decide

theorem decode_whole_eq_scattered :
    whole.header = scattered.header ∧ whole.imageData = scattered.imageData ∧
      Decoder.decode { inflater := .copyAll } whole.toBytes =
        Decoder.decode { inflater := .copyAll } scattered.toBytes ∧
      (Decoder.run { inflater := .copyAll } whole.toBytes).call =
        (Decoder.run { inflater := .copyAll } scattered.toBytes).call :=
  ⟨rfl, rfl, decode_eq_of_same_content { inflater := .copyAll } whole scattered rfl rfl⟩

end Png.Proofs.Container

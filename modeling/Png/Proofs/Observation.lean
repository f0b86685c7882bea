import Png.Picture

namespace Png.Proofs.Observation

/-- The layout that became known, the call of the inflater and the outcome. Causes that a caller is
told the same error for are the same here. -/
structure Observed where
  layout : Option Layout
  call : Option Call
  result : Except DecodeError (List UInt8)

def observe (r : Run) : Observed where
  layout := r.layout
  call := r.call
  result := r.result.mapError Failure.error

theorem observe_of_error {r : Run} {failure : Failure} (h : r.result = .error failure) :
    observe r = ⟨r.layout, r.call, .error failure.error⟩ := by
  rw [observe, h]
  rfl

theorem observe_of_ok {r : Run} {pixels : List UInt8} (h : r.result = .ok pixels) :
    observe r = ⟨r.layout, r.call, .ok pixels⟩ := by
  rw [observe, h]
  rfl

def errorOf {α : Type} : Except DecodeError α → Option DecodeError
  | .ok _ => none
  | .error e => some e

def picture (o : Observed) : Picture where
  layout := o.layout
  pixels := o.result.toOption
  error := errorOf o.result

theorem adopt_eq (p : Picture) (r : Run) : p.adopt r = picture (observe r) := by
  cases r with
  | mk layout stream call result => cases result <;> rfl

theorem status_picture (o : Observed) : (picture o).status = o.result.map fun _ => () := by
  cases o with
  | mk layout call result => cases result <;> rfl

theorem load_eq (p : Picture) (dec : Decoder) (data : List UInt8) :
    p.load dec data = ((observe (dec.run data)).result.map (fun _ => ()),
      picture (observe (dec.run data))) := by
  rw [Picture.load, adopt_eq, status_picture]

theorem decode_eq (dec : Decoder) (data : List UInt8) :
    dec.decode data =
      (observe (dec.run data)).result.map fun _ => picture (observe (dec.run data)) := by
  rw [Decoder.decode, load_eq]
  cases (observe (dec.run data)).result <;> rfl

theorem observe_run_zero {dec : Decoder} (h : dec.budget = 0) (data : List UInt8) :
    observe (dec.run data) = ⟨none, none, .error .invalidArgument⟩ := by
  rw [Decoder.run, if_pos h]
  rfl

theorem observe_run_head {dec : Decoder} (h : dec.budget ≠ 0) {data : List UInt8}
    {failure : Failure} (hhead : Head.ofBytes data = .error failure) :
    observe (dec.run data) = ⟨none, none, .error failure.error⟩ := by
  rw [Decoder.run, if_neg h, hhead]
  rfl

theorem run_head {dec : Decoder} (h : dec.budget ≠ 0) {data : List UInt8} {head : Head}
    (hhead : Head.ofBytes data = .ok head) : dec.run data = dec.runBody data head := by
  rw [Decoder.run, if_neg h, hhead]

theorem observe_runBody_call {dec : Decoder} {data : List UInt8} {head : Head} {size : Nat}
    {stream : Datastream} (hcount : ¬ dec.budget < head.layout.pixelCount)
    (hsize : head.layout.filteredSize? = some size)
    (hfind : Datastream.find dec.memory data head.next = .ok stream)
    (hroom : size < Memory.limit ∧ dec.memory.grants .rows) :
    observe (dec.runBody data head) =
      { layout := some head.layout
        call := some (dec.inflate stream.bytes size)
        result := ((dec.inflate stream.bytes size).pixels head.layout).mapError
          Failure.error } := by
  rw [Decoder.runBody, if_neg hcount, hsize]
  dsimp only
  rw [hfind]
  dsimp only
  rw [if_pos hroom]
  rfl

theorem size_zeroed (n : Nat) : (Slice.zeroed n).size = n := Nat.zero_add n

theorem call_ample (inflater : Inflater) (input : List UInt8) (slice : Slice) :
    inflater.call .ample input slice = inflater.inflate input slice := by
  have hgrant : Memory.ample.grants .inflaterState = true := rfl
  rw [Inflater.call, if_neg (fun h => h.2 hgrant)]

theorem inflate_ample (budget : UInt64) (inflater : Inflater) (input : List UInt8) (size : Nat) :
    Decoder.inflate { budget, inflater } input size =
      ⟨input, .zeroed size, inflater.inflate input (.zeroed size)⟩ := by
  rw [Decoder.inflate, call_ample]

end Png.Proofs.Observation

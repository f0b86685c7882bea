import Png.Datastream
import Png.Filter.Reconstruct
import Png.Head
import Png.Inflater

namespace Png

/-- A decoder for a budget of pixels, an inflater and a memory. Images with more pixels than the
budget are refused before anything is allocated for them. -/
structure Decoder where
  budget : UInt64 := 4096 * 4096
  inflater : Inflater := .zlib
  memory : Memory := .ample

structure Call where
  input : List UInt8
  slice : Slice
  answer : Except InflateError Inflated

/-- A decode, with all that became known before it ended. -/
structure Run where
  layout : Option Layout := none
  stream : Option Datastream := none
  call : Option Call := none
  result : Except Failure (List UInt8)

def Call.pixels (c : Call) (l : Layout) : Except Failure (List UInt8) :=
  match c.answer with
  | .error cause => .error (.inflate cause)
  | .ok inflated =>
    if inflated.produced = c.slice.size then
      reconstruct l (c.slice.overwrite inflated.written).toList
    else
      .error (.wrongCount inflated.produced c.slice.size)

namespace Decoder

def inflate (dec : Decoder) (input : List UInt8) (size : Nat) : Call :=
  let slice := Slice.zeroed size
  { input, slice, answer := dec.inflater.call dec.memory input slice }

def runBody (dec : Decoder) (data : List UInt8) (head : Head) : Run :=
  let l := head.layout
  if dec.budget < l.pixelCount then
    { layout := l, result := .error (.overBudget l.width l.height dec.budget) }
  else
    match l.filteredSize? with
    | none => { layout := l, result := .error .sizeOverflow }
    | some size =>
      match Datastream.find dec.memory data head.next with
      | .error failure => { layout := l, result := .error failure }
      | .ok stream =>
        if size < Memory.limit ∧ dec.memory.grants .rows then
          let call := dec.inflate stream.bytes size
          { layout := l, stream, call, result := call.pixels l }
        else
          { layout := l, stream, result := .error (.refused .rows) }

def run (dec : Decoder) (data : List UInt8) : Run :=
  if dec.budget = 0 then
    { result := .error .zeroBudget }
  else
    match Head.ofBytes data with
    | .error failure => { result := .error failure }
    | .ok head => dec.runBody data head

end Decoder

end Png

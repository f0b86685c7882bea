import Png.Memory
import Png.Zlib.Stream

namespace Png

/-- An output slice: some bytes, then so many zero bytes. -/
structure Slice where
  front : List UInt8
  zeros : Nat
  deriving DecidableEq, Repr

namespace Slice

def zeroed (n : Nat) : Slice := ⟨[], n⟩

def size (s : Slice) : Nat := s.front.length + s.zeros

def toList (s : Slice) : List UInt8 := s.front ++ List.replicate s.zeros 0

/-- Put bytes over the start of a slice. Those that do not fit are left out. -/
def overwrite (s : Slice) (bytes : List UInt8) : Slice :=
  let kept := bytes.take s.size
  ⟨kept ++ s.front.drop kept.length, s.zeros - (kept.length - s.front.length)⟩

@[simp] theorem length_toList (s : Slice) : s.toList.length = s.size := by
  simp [toList, size]

theorem toList_overwrite (s : Slice) (bytes : List UInt8) :
    (s.overwrite bytes).toList = bytes.take s.size ++ s.toList.drop bytes.length := by
  simp only [overwrite, toList, List.append_assoc, List.drop_append, List.drop_replicate,
    List.length_take, size]
  congr 1
  by_cases h : bytes.length ≤ s.front.length + s.zeros
  · rw [Nat.min_eq_right h]
  · rw [Nat.min_eq_left (by omega), List.drop_eq_nil_of_le (by omega),
      List.drop_eq_nil_of_le (by omega)]
    congr 2
    omega

end Slice

/-- The answer of an inflater: the bytes it put over the start of the slice, the count it gives of
them, and the input bytes it did not need. Nothing holds it to count rightly. -/
structure Inflated where
  produced : Nat
  written : List UInt8
  unread : Nat := 0
  deriving DecidableEq, Repr

def Inflated.detail (r : Inflated) : Option String :=
  if r.unread = 0 then none
  else
    let unread := r.unread
    some s!"inflate: {unread} trailing bytes after zlib stream"

structure Inflater where
  inflate : (input : List UInt8) → (slice : Slice) → Except InflateError Inflated
  hasState : Bool := false

namespace Inflater

/-- Call an inflater. Without memory for its state it gives up before it looks at the input. -/
def call (inflater : Inflater) (memory : Memory) (input : List UInt8) (slice : Slice) :
    Except InflateError Inflated :=
  if inflater.hasState ∧ ¬ memory.grants .inflaterState then .error .outOfMemory
  else inflater.inflate input slice

def zlib : Inflater where
  hasState := true
  inflate input slice := do
    let stream ← Zlib.inflate slice.size input
    return { produced := stream.output.length, written := stream.output, unread := stream.unread }

def copy : Inflater where
  inflate input slice :=
    let bytes := input.take slice.size
    .ok { produced := bytes.length, written := bytes }

def copyAll : Inflater where
  inflate input slice :=
    if slice.size < input.length then .error .outputOverflow
    else .ok { produced := input.length, written := input }

end Inflater

end Png

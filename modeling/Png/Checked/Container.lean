import Png.Checked.Access
import Png.Datastream
import Png.Head

namespace Png.Checked

open InPlace

/-- The end of a payload, if it lies in a buffer of that size with the checksum after it. A sum that
is no length counts as one behind the end of the buffer. -/
def payloadEnd? (size start length : Nat) : Option Nat := do
  let stop ← Size.add? start length
  let last ← Size.add? stop 4
  if last ≤ size then some stop else none

def chunkAt? (data : List UInt8) (position : Nat) : Option (Except Failure (Chunk × Nat)) := do
  let left ← subtract? data.length position
  if left < Chunk.overhead then
    some (.error (.trailingBytes left position))
  else do
    let length ← word? data position
    let first ← Size.add? position 4
    let start ← Size.add? position 8
    let tag ← slice? data first start
    match payloadEnd? data.length start length.toNat with
    | none => some (.error (.chunkOverrun length position))
    | some stop => do
      let crc ← word? data stop
      let position ← Size.add? stop 4
      some (.ok ({ tag := Tag.ofBytes tag, length, start, crc }, position))

def next? (w : Walk) : Option (Option (Except Failure Chunk) × Walk) :=
  if w.ended then some (none, w)
  else if w.data.length ≤ w.position then some (none, w.stop)
  else do
    match ← chunkAt? w.data w.position with
    | .error failure => some (some (.error failure), w.stop)
    | .ok (chunk, position) =>
      some (some (.ok chunk), { w with position, ended := chunk.tag == Tag.iend })

theorem eq_of_payloadEnd? {size start length stop : Nat}
    (h : payloadEnd? size start length = some stop) : stop = start + length := by
  obtain ⟨_, hstop, h⟩ := Option.bind_eq_some_iff.mp h
  obtain ⟨_, -, h⟩ := Option.bind_eq_some_iff.mp h
  split at h
  · rw [← Option.some.inj h]
    exact Size.eq_of_add? hstop
  · cases h

theorem lt_of_chunkAt? {data : List UInt8} {position next : Nat} {chunk : Chunk}
    (h : chunkAt? data position = some (.ok (chunk, next))) : position < next := by
  obtain ⟨left, -, h⟩ := Option.bind_eq_some_iff.mp h
  split at h
  · cases h
  · obtain ⟨length, -, h⟩ := Option.bind_eq_some_iff.mp h
    obtain ⟨first, -, h⟩ := Option.bind_eq_some_iff.mp h
    obtain ⟨start, hstart, h⟩ := Option.bind_eq_some_iff.mp h
    obtain ⟨tag, -, h⟩ := Option.bind_eq_some_iff.mp h
    split at h
    · cases h
    · rename_i stop hstop
      obtain ⟨crc, -, h⟩ := Option.bind_eq_some_iff.mp h
      obtain ⟨last, hlast, h⟩ := Option.bind_eq_some_iff.mp h
      cases h
      have hstart := Size.eq_of_add? hstart
      have hstop := eq_of_payloadEnd? hstop
      have hnext := Size.eq_of_add? hlast
      omega

theorem remaining_next?_lt {w w' : Walk} {item : Except Failure Chunk}
    (h : next? w = some (some item, w')) : w'.remaining < w.remaining := by
  rw [next?] at h
  split at h
  · cases h
  · rename_i hended
    split at h
    · cases h
    · rename_i hposition
      have hremaining : w.remaining = w.data.length + 1 - w.position := if_neg hended
      obtain ⟨result, hresult, h⟩ := Option.bind_eq_some_iff.mp h
      split at h
      · cases h
        have hstop : w.stop.remaining = 0 := if_pos rfl
        omega
      · cases h
        have hlt := lt_of_chunkAt? hresult
        simp only [Walk.remaining]
        split <;> omega

def items? (w : Walk) : Option (List (Except Failure Chunk)) :=
  match _h : next? w with
  | none => none
  | some (none, _) => some []
  | some (some item, rest) => (items? rest).map (item :: ·)
termination_by w.remaining
decreasing_by exact remaining_next?_lt _h

def payload? (c : Chunk) (data : List UInt8) : Option (List UInt8) := do
  let last ← Size.add? c.start c.length.toNat
  slice? data c.start last

def ofItems? (memory : Memory) (data : List UInt8) (count : Nat) :
    List (Except Failure Chunk) → Option (Except Failure Datastream)
  | [] => some (.ok ⟨[]⟩)
  | .error failure :: _ => some (.error failure)
  | .ok chunk :: items =>
    if chunk.tag = Tag.idat then do
      let part ← payload? chunk data
      if part ≠ [] ∧ ¬ memory.grants .datastream then
        some (.error (.refused .datastream))
      else do
        let count ← Size.add? count 1
        let result ← ofItems? memory data count items
        some (result.map fun s => ⟨part :: s.parts⟩)
    else
      ofItems? memory data count items

def find? (memory : Memory) (data : List UInt8) (offset : Nat) :
    Option (Except Failure Datastream) := do
  let items ← items? (Walk.startingAt data offset)
  match ← ofItems? memory data 0 items with
  | .error failure => some (.error failure)
  | .ok stream =>
    some (if stream.bytes = [] then .error (.noImageData stream.parts.length) else .ok stream)

def fields? (payload : List UInt8) : Option Ihdr := do
  let width ← word? payload 0
  let height ← word? payload 4
  let bitDepth ← payload[8]?
  let colorType ← payload[9]?
  let compression ← payload[10]?
  let filter ← payload[11]?
  let interlace ← payload[12]?
  some { width, height, bitDepth, colorType, compression, filter, interlace }

def ihdr? (c : Chunk) (data : List UInt8) : Option (Option Ihdr) :=
  if c.tag = Tag.ihdr ∧ c.length.toNat = 13 then do
    let payload ← payload? c data
    (fields? payload).map some
  else some none

/-- The layout of an image, with its bits per pixel counted in 32 bits. -/
def layout? (width height : UInt32) (format : PixelFormat) : Option Layout := do
  let bits ← below? UInt32.size (format.bitDepth * format.channels)
  some { width, height, format
         bitsPerPixel := UInt32.ofNat bits
         bytesPerPixel := UInt32.ofNat ((bits + 7) / 8) }

def described? (h : Ihdr) : Option (Except Failure Layout) :=
  match h.layout with
  | .error failure => some (.error failure)
  | .ok l => (layout? l.width l.height l.format).map .ok

def head? (data : List UInt8) : Option (Except Failure Head) :=
  if data.length < signature.length then some (.error .badSignature)
  else do
    let first ← slice? data 0 signature.length
    if first ≠ signature then some (.error .badSignature)
    else do
      match ← next? (Walk.behindSignature data) with
      | (none, _) => some (.error .noChunks)
      | (some (.error failure), _) => some (.error failure)
      | (some (.ok chunk), rest) => do
        match ← ihdr? chunk data with
        | none => some (.error .notIhdr)
        | some ihdr => do
          match ← described? ihdr with
          | .error failure => some (.error failure)
          | .ok layout => some (.ok { layout, next := rest.position })

end Png.Checked

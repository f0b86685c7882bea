import Png.Checked.Container
import Png.Proofs.Dissection

namespace Png.Proofs.ScanRange

open Checked Dissection Scan Sizes

variable {data : List UInt8} {w w' : Walk} {c : Chunk} {item : Except Failure Chunk}

def LiesIn (c : Chunk) (data : List UInt8) : Prop :=
  c.start + c.length.toNat + 4 ≤ data.length

theorem ofBytes_take (bytes : List UInt8) : Tag.ofBytes (bytes.take 4) = Tag.ofBytes bytes := by
  rcases bytes with _ | ⟨_, _ | ⟨_, _ | ⟨_, _ | ⟨_, _⟩⟩⟩⟩ <;> rfl

theorem payloadEnd?_of_le {size start length : Nat} (h : start + length + 4 ≤ size)
    (hsize : size < Size.limit) : payloadEnd? size start length = some (start + length) := by
  apply bind_of_some (Size.add?_of_lt (by omega))
  apply bind_of_some (Size.add?_of_lt (by omega))
  exact if_pos h

theorem payloadEnd?_of_lt {size start length : Nat} (h : size < start + length + 4) :
    payloadEnd? size start length = none := by
  rw [payloadEnd?]
  cases hstop : Size.add? start length with
  | none => rfl
  | some stop =>
    obtain rfl := Size.eq_of_add? hstop
    change (Size.add? (start + length) 4).bind _ = _
    cases hlast : Size.add? (start + length) 4 with
    | none => rfl
    | some last =>
      obtain rfl := Size.eq_of_add? hlast
      exact if_neg (Nat.not_le.mpr h)

theorem liesIn_of_chunkAt {position : Nat}
    (h : Walk.chunkAt (data.drop position) position = .ok c) :
    c.start = position + 8 ∧ LiesIn c data := by
  obtain ⟨content, rest, hfits, hbytes, rfl⟩ := exists_content h
  have hleft := congrArg List.length hbytes
  have hover : Chunk.overhead = 12 := rfl
  rw [List.length_drop, List.length_append, Chunk.Content.length_toBytes] at hleft
  refine ⟨rfl, ?_⟩
  rw [LiesIn, toNat_length_found hfits]
  change position + 8 + content.payload.length + 4 ≤ data.length
  omega

theorem chunkAt?_eq {position : Nat} (hposition : position < data.length)
    (hdata : data.length < Size.limit) :
    chunkAt? data position = some ((Walk.chunkAt (data.drop position) position).map
      fun c => (c, position + c.length.toNat + Chunk.overhead)) := by
  have hover : Chunk.overhead = 12 := rfl
  apply bind_of_some (subtract?_of_le (Nat.le_of_lt hposition))
  rw [Walk.chunkAt, List.length_drop]
  by_cases hleft : data.length - position < Chunk.overhead
  · rw [if_pos hleft, if_pos hleft]
    rfl
  · rw [if_neg hleft, if_neg hleft]
    have hroom : position + 4 + 4 ≤ data.length := by omega
    apply bind_of_some (word?_of_le (by omega) (Nat.le_of_lt hdata))
    apply bind_of_some (Size.add?_of_lt (by omega))
    apply bind_of_some (Size.add?_of_lt (by omega))
    apply bind_of_some (slice?_of_le hroom)
    simp only [List.drop_drop]
    generalize BigEndian.word (data.drop position) = length
    -- A payload has an end exactly where the walk, which counts what is left, has enough bytes.
    by_cases hlong : data.length - position < length.toNat + Chunk.overhead
    · rw [payloadEnd?_of_lt (by omega), if_pos hlong]
      rfl
    · rw [payloadEnd?_of_le (by omega) hdata, if_neg hlong]
      have hcrc : position + (8 + length.toNat) = position + 8 + length.toNat := by omega
      have hnext : position + length.toNat + Chunk.overhead = position + 8 + length.toNat + 4 := by
        omega
      apply bind_of_some (word?_of_le (by omega) (Nat.le_of_lt hdata))
      apply bind_of_some (Size.add?_of_lt (by omega))
      dsimp only [Except.map]
      rw [ofBytes_take, hcrc, hnext]

theorem next?_eq (hdata : w.data.length < Size.limit) : next? w = some w.next := by
  rw [next?, Walk.next]
  by_cases hended : w.ended = true
  · rw [if_pos hended, if_pos hended]
  · rw [if_neg hended, if_neg hended]
    by_cases hend : w.data.length ≤ w.position
    · rw [if_pos hend, if_pos hend]
    · rw [if_neg hend, if_neg hend, chunkAt?_eq (Nat.not_le.mp hend) hdata]
      cases Walk.chunkAt (w.data.drop w.position) w.position <;> rfl

theorem next_cases (w : Walk) :
    (∃ item ended, w.next = (item, { w with ended }) ∧ ∀ c, item ≠ some (.ok c)) ∨
      ∃ c ended, LiesIn c w.data ∧
        w.next = (some (.ok c), ⟨w.data, c.start + c.length.toNat + 4, ended⟩) := by
  rw [Walk.next]
  split
  · exact .inl ⟨none, w.ended, rfl, by rintro c ⟨⟩⟩
  · split
    · exact .inl ⟨none, true, rfl, by rintro c ⟨⟩⟩
    · split
      · rename_i failure _
        exact .inl ⟨some (.error failure), true, rfl, by rintro c ⟨⟩⟩
      · rename_i c hchunk
        obtain ⟨hstart, hlies⟩ := liesIn_of_chunkAt hchunk
        have hposition : w.position + c.length.toNat + Chunk.overhead =
            c.start + c.length.toNat + 4 := by
          rw [hstart, Chunk.overhead]
          omega
        rw [hposition]
        exact .inr ⟨c, _, hlies, rfl⟩

theorem data_next (w : Walk) : w.next.2.data = w.data := by
  obtain ⟨item, ended, hnext, -⟩ | ⟨c, ended, -, hnext⟩ := next_cases w <;> rw [hnext]

theorem position_next (hdata : w.data.length < Size.limit) (h : w.position < Size.limit) :
    w.next.2.position < Size.limit := by
  obtain ⟨item, ended, hnext, -⟩ | ⟨c, ended, hlies, hnext⟩ := next_cases w
  · rw [hnext]
    exact h
  · rw [hnext]
    exact Nat.lt_of_le_of_lt hlies hdata

theorem liesIn_of_next (h : w.next.1 = some (.ok c)) : LiesIn c w.data := by
  obtain ⟨item, ended, hnext, hother⟩ | ⟨c', ended, hlies, hnext⟩ := next_cases w
  · rw [hnext] at h
    exact absurd h (hother c)
  · rw [hnext] at h
    cases h
    exact hlies

theorem data_after (w : Walk) (n : Nat) : (w.after n).data = w.data := by
  induction n generalizing w with
  | zero => rfl
  | succ n ih => exact (ih w.next.2).trans (data_next w)

theorem position_after (hdata : w.data.length < Size.limit) (h : w.position < Size.limit)
    (n : Nat) : (w.after n).position < Size.limit := by
  induction n generalizing w with
  | zero => exact h
  | succ n ih => exact ih ((data_next w).symm ▸ hdata) (position_next hdata h)

theorem payload?_eq (h : LiesIn c data) (hdata : data.length < Size.limit) :
    payload? c data = some (c.payload data) := by
  rw [LiesIn] at h
  apply bind_of_some (Size.add?_of_lt (by omega))
  exact slice?_of_le (by omega)

/-- However far a walk has come: the next call stays in the buffer, and so does the payload of the
chunk that it reports. -/
structure WalksInRange (w : Walk) : Prop where
  position : ∀ n, (w.after n).position < Size.limit
  next : ∀ n, next? (w.after n) = some (w.after n).next
  payload : ∀ n c, (w.after n).next.1 = some (.ok c) →
    payload? c w.data = some (c.payload w.data)

theorem walksInRange (hdata : w.data.length < Size.limit) (h : w.position < Size.limit) :
    WalksInRange w where
  position := position_after hdata h
  next := fun n => next?_eq ((data_after w n).symm ▸ hdata)
  payload := by
    intro n c hnext
    have hlies := liesIn_of_next hnext
    rw [data_after] at hlies
    exact payload?_eq hlies hdata

theorem items?_of_end (h : next? w = some (none, w')) : items? w = some [] := by
  rw [items?.eq_def]
  split <;> simp_all

theorem items?_of_item (h : next? w = some (some item, w')) :
    items? w = (items? w').map (item :: ·) := by
  rw [items?.eq_def]
  split <;> simp_all

theorem items?_eq (hdata : w.data.length < Size.limit) : items? w = some w.items := by
  -- The bound on the length goes through every call, since none changes the data.
  induction w using Walk.items.induct with
  | case1 w rest hnext =>
    rw [items_eq_nil hnext]
    exact items?_of_end (by rw [next?_eq hdata, hnext])
  | case2 w item rest hnext ih =>
    have hrest : rest.data = w.data := by rw [← data_next w, hnext]
    rw [items_eq_cons hnext, items?_of_item (by rw [next?_eq hdata, hnext]),
      ih (hrest.symm ▸ hdata)]
    rfl

theorem length_items_le (w : Walk) : w.items.length ≤ w.remaining := by
  induction w using Walk.items.induct with
  | case1 w rest hnext =>
    rw [items_eq_nil hnext]
    exact Nat.zero_le _
  | case2 w item rest hnext ih =>
    rw [items_eq_cons hnext, List.length_cons]
    exact Nat.lt_of_le_of_lt ih (Walk.remaining_next_lt hnext)

theorem liesIn_of_mem (w : Walk) : ∀ c, .ok c ∈ w.items → LiesIn c w.data := by
  induction w using Walk.items.induct with
  | case1 w rest hnext =>
    rw [items_eq_nil hnext]
    rintro c ⟨⟩
  | case2 w item rest hnext ih =>
    have hrest : rest.data = w.data := by rw [← data_next w, hnext]
    intro c hc
    rw [items_eq_cons hnext] at hc
    obtain rfl | hc := List.mem_cons.mp hc
    · exact liesIn_of_next (by rw [hnext])
    · exact hrest ▸ ih c hc

theorem ofItems?_eq (memory : Memory) (hdata : data.length < Size.limit)
    {items : List (Except Failure Chunk)} (hlies : ∀ c, .ok c ∈ items → LiesIn c data)
    {count : Nat} (hcount : count + items.length < Size.limit) :
    ofItems? memory data count items = some (Datastream.ofItems memory data items) := by
  induction items generalizing count with
  | nil => rfl
  | cons item items ih =>
    have hrest : ∀ c, .ok c ∈ items → LiesIn c data := fun c hc => hlies c (.tail _ hc)
    rw [List.length_cons] at hcount
    cases item with
    | error failure => rfl
    | ok c =>
      rw [ofItems?, Datastream.ofItems]
      by_cases htag : c.tag = Tag.idat
      · rw [if_pos htag, if_pos htag]
        apply bind_of_some (payload?_eq (hlies c List.mem_cons_self) hdata)
        dsimp only
        split
        · rfl
        · apply bind_of_some (Size.add?_of_lt (by omega))
          apply bind_of_some (ih hrest (by omega))
          rfl
      · rw [if_neg htag, if_neg htag]
        exact ih hrest (by omega)

theorem find?_eq (memory : Memory) (hdata : data.length + 1 < Size.limit) (offset : Nat) :
    find? memory data offset = some (Datastream.find memory data offset) := by
  have hlength : (Walk.startingAt data offset).items.length < Size.limit := by
    have hitems := length_items_le (Walk.startingAt data offset)
    have hremaining : (Walk.startingAt data offset).remaining = data.length + 1 - offset := rfl
    omega
  have hlimit : data.length < Size.limit := Nat.lt_of_succ_lt hdata
  have hitems : items? (Walk.startingAt data offset) = some (Walk.startingAt data offset).items :=
    items?_eq hlimit
  apply bind_of_some hitems
  apply bind_of_some (ofItems?_eq memory hlimit (liesIn_of_mem _) (by omega))
  rw [Datastream.find]
  cases Datastream.ofItems memory data (Walk.startingAt data offset).items <;> rfl

theorem exists_fields {payload : List UInt8} (h : payload.length = 13) :
    ∃ ihdr, fields? payload = some ihdr ∧ Ihdr.ofBytes? payload = some ihdr := by
  match payload, h with
  | [_, _, _, _, _, _, _, _, _, _, _, _, _], _ => exact ⟨_, rfl, rfl⟩

theorem ihdr?_eq (h : LiesIn c data) (hdata : data.length < Size.limit) :
    ihdr? c data = some (c.ihdr? data) := by
  have hlength : (c.payload data).length = c.length.toNat := by
    rw [LiesIn] at h
    rw [Chunk.payload, List.length_take, List.length_drop]
    omega
  rw [ihdr?, Chunk.ihdr?]
  by_cases htag : c.tag = Tag.ihdr
  · by_cases hthirteen : c.length.toNat = 13
    · obtain ⟨ihdr, hfields, hihdr⟩ := exists_fields (hlength.trans hthirteen)
      rw [if_pos ⟨htag, hthirteen⟩, if_pos htag, hihdr]
      apply bind_of_some (payload?_eq h hdata)
      rw [hfields]
      rfl
    · rw [if_neg (fun h => hthirteen h.2), if_pos htag]
      cases hfields : Ihdr.ofBytes? (c.payload data) with
      | none => rfl
      | some ihdr => exact absurd (hlength.symm.trans (length_of_ihdr hfields)) hthirteen
  · rw [if_neg (fun h => htag h.1), if_neg htag]

theorem layout?_eq (width height : UInt32) (format : PixelFormat) :
    layout? width height format = some (.ofFormat width height format) := by
  have hbits : format.bitDepth * format.channels < UInt32.size :=
    Nat.lt_of_le_of_lt (bitsPerPixel_bounds format).2 (by decide)
  apply bind_of_some (below?_of_lt hbits)
  rfl

theorem described?_eq (h : Ihdr) : described? h = some h.layout := by
  rw [described?]
  cases hlayout : h.layout with
  | error failure => rfl
  | ok l =>
    obtain ⟨width, height, format, -, -, rfl⟩ := Header.layout_eq_ofFormat hlayout
    exact congrArg (Option.map _) (layout?_eq width height format)

theorem slice?_front {bytes : List UInt8} {n : Nat} (h : n ≤ bytes.length) :
    slice? bytes 0 n = some (bytes.take n) := by
  have hslice := slice?_of_le (show 0 + n ≤ bytes.length by omega)
  rwa [Nat.zero_add, List.drop_zero] at hslice

theorem take_ne_of_length_lt {bytes front : List UInt8} (h : bytes.length < front.length) :
    bytes.take front.length ≠ front := by
  intro heq
  have hlength := congrArg List.length heq
  rw [List.length_take] at hlength
  omega

theorem head?_eq (hdata : data.length < Size.limit) : head? data = some (Head.ofBytes data) := by
  rw [head?, Head.ofBytes]
  by_cases hshort : data.length < signature.length
  · rw [if_pos hshort, if_pos (take_ne_of_length_lt hshort)]
  · rw [if_neg hshort]
    apply bind_of_some (slice?_front (Nat.not_lt.mp hshort))
    by_cases hsignature : data.take signature.length ≠ signature
    · rw [if_pos hsignature, if_pos hsignature]
    · have hnext : next? (Walk.behindSignature data) = some (Walk.behindSignature data).next :=
        next?_eq hdata
      have hlies : ∀ c, (Walk.behindSignature data).next.1 = some (.ok c) → LiesIn c data :=
        fun c h => liesIn_of_next h
      rw [if_neg hsignature, if_neg hsignature]
      apply bind_of_some hnext
      generalize (Walk.behindSignature data).next = step at hlies
      obtain ⟨_ | failure | c, rest⟩ := step
      · rfl
      · rfl
      · apply bind_of_some (ihdr?_eq (hlies c rfl) hdata)
        dsimp only
        cases c.ihdr? data with
        | none => rfl
        | some ihdr =>
          apply bind_of_some (described?_eq ihdr)
          dsimp only
          cases ihdr.layout <;> rfl

end Png.Proofs.ScanRange

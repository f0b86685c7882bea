import Png.Proofs.Acceptance
import Png.Proofs.Container

namespace Png.Proofs.Dissection

open Acceptance Container ImageData Scan

variable {data bytes rest : List UInt8} {position offset : Nat} {c : Chunk}
  {content : Chunk.Content} {head : Head}

theorem take_append_take (m n : Nat) (bytes : List UInt8) :
    (bytes.drop m).take n ++ bytes.drop (m + n) = bytes.drop m := by
  rw [← List.drop_drop, List.take_append_drop]

theorem exists_content (h : Walk.chunkAt bytes position = .ok c) :
    ∃ content rest, Fits content ∧ bytes = content.toBytes ++ rest ∧
      c = found position content := by
  rw [Walk.chunkAt] at h
  split at h
  · cases h
  · dsimp only at h
    split at h
    · cases h
    · rename_i hlong
      cases h
      have hover : Chunk.overhead = 12 := rfl
      let length := (BigEndian.word bytes).toNat
      let content : Chunk.Content :=
        { tag := Tag.ofBytes (bytes.drop 4)
          payload := (bytes.drop 8).take length
          crc := BigEndian.word (bytes.drop (8 + length)) }
      have hpayload : content.payload.length = length := by
        rw [List.length_take, List.length_drop]
        omega
      have hword : UInt32.ofNat content.payload.length = BigEndian.word bytes := by
        rw [hpayload]
        exact UInt32.ofNat_toNat
      have htag : content.tag.toList = (bytes.drop 4).take 4 :=
        Tag.toList_ofBytes (by rw [List.length_drop]; omega)
      have hcrc : BigEndian.ofWord content.crc = (bytes.drop (8 + length)).take 4 :=
        BigEndian.ofWord_word (by rw [List.length_drop]; omega)
      refine ⟨content, bytes.drop (8 + length + 4), ?_, ?_, by rw [found, hword]⟩
      · rw [Fits, hpayload]
        exact (BigEndian.word bytes).toNat_lt
      · rw [toBytes_append, hword, BigEndian.ofWord_word (by omega), htag, hcrc, take_append_take]
        change bytes = bytes.take 4 ++ (_ ++ ((bytes.drop 8).take length ++ _))
        rw [take_append_take, take_append_take, List.take_append_drop]

theorem eq_of_toBytes_append {content' : Chunk.Content} {rest' : List UInt8} (h : Fits content)
    (h' : Fits content') (heq : content.toBytes ++ rest = content'.toBytes ++ rest') :
    content = content' ∧ rest = rest' := by
  have hfound := chunkAt_toBytes h rest 0
  rw [heq, chunkAt_toBytes h' rest' 0] at hfound
  have hchunk : found 0 content' = found 0 content := Except.ok.inj hfound
  have hpayload := payload_found h [] rest
  have hpayload' := payload_found h' [] rest'
  rw [List.nil_append, List.length_nil] at hpayload hpayload'
  rw [heq, ← hchunk, hpayload'] at hpayload
  obtain ⟨tag, payload, crc⟩ := content
  obtain ⟨tag', payload', crc'⟩ := content'
  obtain rfl : payload' = payload := hpayload
  obtain rfl : tag' = tag := congrArg Chunk.tag hchunk
  obtain rfl : crc' = crc := congrArg Chunk.crc hchunk
  exact ⟨rfl, List.append_cancel_left heq⟩

theorem not_ended (data : List UInt8) (offset : Nat) :
    ¬ (Walk.startingAt data offset).ended = true := Bool.false_ne_true

theorem next_at_end (h : data.length ≤ offset) :
    (Walk.startingAt data offset).next = (none, (Walk.startingAt data offset).stop) := by
  rw [Walk.next, if_neg (not_ended data offset)]
  exact if_pos h

theorem next_before_end (h : ¬ data.length ≤ offset) :
    (Walk.startingAt data offset).next =
      match Walk.chunkAt (data.drop offset) offset with
      | .error failure => (some (.error failure), (Walk.startingAt data offset).stop)
      | .ok c => (some (.ok c),
          { data
            position := offset + c.length.toNat + Chunk.overhead
            ended := c.tag == Tag.iend }) := by
  rw [Walk.next, if_neg (not_ended data offset)]
  exact if_neg h

theorem next_eq_chunk {w : Walk} (h : (Walk.startingAt data offset).next = (some (.ok c), w)) :
    Walk.chunkAt (data.drop offset) offset = .ok c ∧
      w = { data
            position := offset + c.length.toNat + Chunk.overhead
            ended := c.tag == Tag.iend } := by
  by_cases hend : data.length ≤ offset
  · rw [next_at_end hend] at h
    cases h
  · rw [next_before_end hend] at h
    split at h
    · cases h
    · rename_i hchunk
      cases h
      exact ⟨hchunk, rfl⟩

def endingOf (trailer : Option Trailer) : List UInt8 :=
  trailer.elim [] fun t => t.iend.toBytes ++ t.behind

theorem behind_content (h : data.drop offset = content.toBytes ++ rest) :
    data.drop (offset + content.toBytes.length) = rest ∧
      data.length - offset = content.toBytes.length + rest.length := by
  constructor
  · rw [← List.drop_drop, h, List.drop_left]
  · rw [← List.length_drop, h, List.length_append]

/-- Where a walk reports chunks only, it goes over a run of them up to IEND or the end. -/
theorem exists_chunks (hoffset : offset ≤ data.length)
    (h : ∀ item ∈ (Walk.startingAt data offset).items, ∃ c, item = .ok c) :
    ∃ chunks trailer, (∀ c ∈ chunks, Fits c ∧ c.tag ≠ Tag.iend) ∧
      data.drop offset = Chunk.Content.serialise chunks ++ endingOf trailer := by
  -- The induction is on what is left behind the offset. A chunk takes twelve bytes of it at least.
  induction hleft : data.length - offset using Nat.strongRecOn generalizing offset with
  | ind left ih =>
    by_cases hend : data.length ≤ offset
    · exact ⟨[], none, by simp, List.drop_eq_nil_of_le hend⟩
    have hnext := next_before_end hend
    cases hchunk : Walk.chunkAt (data.drop offset) offset with
    | error failure =>
      rw [hchunk] at hnext
      rw [items_eq_cons hnext] at h
      obtain ⟨c, hc⟩ := h _ List.mem_cons_self
      cases hc
    | ok c =>
      rw [hchunk] at hnext
      rw [items_eq_cons hnext] at h
      obtain ⟨content, rest, hfits, hbytes, rfl⟩ := exists_content hchunk
      have hlength := toNat_length_found hfits offset
      by_cases hiend : content.tag = Tag.iend
      · have htrailer : content.toBytes =
            (Trailer.iend ⟨content.payload, content.crc, rest, hfits⟩).toBytes := by
          rw [Trailer.iend, ← hiend]
        refine ⟨[], some ⟨content.payload, content.crc, rest, hfits⟩, by simp, ?_⟩
        rw [hbytes, htrailer]
        rfl
      · have hgo : ((found offset content).tag == Tag.iend) = false := by
          simpa [found] using hiend
        have hplace : offset + (found offset content).length.toNat + Chunk.overhead =
            offset + content.toBytes.length := by
          rw [hlength, Chunk.Content.length_toBytes, Nat.add_assoc]
        obtain ⟨hdrop, hsize⟩ := behind_content hbytes
        have hpos := content.length_toBytes_pos
        rw [hgo, hplace] at h
        obtain ⟨chunks, trailer, hchunks, hrest⟩ :=
          ih (data.length - (offset + content.toBytes.length)) (by omega) (by omega)
            (fun item hm => h item (List.mem_cons_of_mem _ hm)) rfl
        refine ⟨content :: chunks, trailer, List.forall_mem_cons.mpr ⟨⟨hfits, hiend⟩, hchunks⟩, ?_⟩
        rw [hbytes, ← hdrop, hrest, Chunk.Content.serialise_cons_append]

theorem items_of_ofItems {memory : Memory} {items : List (Except Failure Chunk)} {s : Datastream}
    (h : Datastream.ofItems memory data items = .ok s) : ∀ item ∈ items, ∃ c, item = .ok c := by
  induction items generalizing s with
  | nil => simp
  | cons item items ih =>
    cases item with
    | error failure => cases h
    | ok c =>
      rw [Datastream.ofItems] at h
      intro item hitem
      obtain rfl | hitem := List.mem_cons.mp hitem
      · exact ⟨c, rfl⟩
      split at h
      · dsimp only at h
        split at h
        · cases h
        · cases hs : Datastream.ofItems memory data items with
          | error failure =>
            rw [hs] at h
            cases h
          | ok s' => exact ih hs item hitem
      · exact ih h item hitem

theorem length_of_ihdr {ihdr : Ihdr} (h : Ihdr.ofBytes? bytes = some ihdr) :
    bytes.length = 13 := by
  unfold Ihdr.ofBytes? at h
  split at h
  · rfl
  · cases h

theorem exists_head (h : Head.ofBytes data = .ok head) :
    ∃ content rest, data = signature ++ (content.toBytes ++ rest) ∧ Fits content ∧
      content.tag = Tag.ihdr ∧ content.payload.length = 13 ∧ head.next = 33 := by
  rw [Head.ofBytes] at h
  split at h
  · cases h
  · rename_i hsignature
    split at h
    · cases h
    · cases h
    · rename_i c w hnext
      obtain ⟨hchunk, rfl⟩ := next_eq_chunk hnext
      obtain ⟨content, rest, hfits, hbytes, rfl⟩ := exists_content hchunk
      have hdata : data = signature ++ (content.toBytes ++ rest) := by
        have hsplit := List.take_append_drop signature.length data
        rw [Decidable.of_not_not hsignature, hbytes] at hsplit
        exact hsplit.symm
      split at h
      · cases h
      · rename_i ihdr hihdr
        rw [Chunk.ihdr?] at hihdr
        split at hihdr
        · rename_i htag
          have hpayload := payload_found hfits signature rest
          rw [← hdata] at hpayload
          rw [hpayload] at hihdr
          have hlength := length_of_ihdr hihdr
          split at h
          · cases h
          · cases h
            refine ⟨content, rest, hdata, hfits, htag, hlength, ?_⟩
            rw [toNat_length_found hfits, hlength]
            rfl
        · cases hihdr

theorem exists_file {dec : Decoder} {stream : Datastream} {inflated : Inflated}
    {pixels : List UInt8} (h : Accepts dec data head stream inflated pixels) :
    ∃ f : File, f.toBytes = data := by
  obtain ⟨ihdr, rest, rfl, hfits, htag, hlength, hnext⟩ := exists_head h.head_eq
  have hplace : (signature ++ ihdr.toBytes).length = 33 := by
    rw [List.length_append, Chunk.Content.length_toBytes, hlength]
    rfl
  have hstream := h.stream_eq
  rw [Datastream.find, hnext] at hstream
  split at hstream
  · cases hstream
  · rename_i hitems
    rw [← List.append_assoc] at hitems ⊢
    obtain ⟨chunks, trailer, hchunks, hrest⟩ := exists_chunks
      (by rw [List.length_append, hplace]; omega) (items_of_ofItems hitems)
    rw [← hplace, List.drop_left] at hrest
    have hihdr : ihdr.toBytes = Chunk.Content.toBytes ⟨Tag.ihdr, ihdr.payload, ihdr.crc⟩ := by
      rw [← htag]
    refine ⟨⟨ihdr.payload, ihdr.crc, chunks, trailer, hlength, hchunks⟩, ?_⟩
    rw [hrest, hihdr]
    rfl

end Png.Proofs.Dissection

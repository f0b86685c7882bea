import Png.Proofs.ImageData
import Png.Proofs.Scan

namespace Png.Proofs.WholeChunks

open Chunk.Content ImageData Scan

variable {bytes : List UInt8} {chunks more : List Chunk.Content}

/-- Whole chunks, one after the other: up to the first IEND, whatever lies behind it, or up to the
end of the bytes where there is no IEND. -/
inductive IsWhole : List UInt8 → List Chunk.Content → Prop where
  | nil : IsWhole [] []
  | iend {c : Chunk.Content} (rest : List UInt8) (fits : Fits c) (tag : c.tag = Tag.iend) :
      IsWhole (c.toBytes ++ rest) [c]
  | cons {c : Chunk.Content} {bytes : List UInt8} {chunks : List Chunk.Content} (fits : Fits c)
      (tag : c.tag ≠ Tag.iend) (whole : IsWhole bytes chunks) :
      IsWhole (c.toBytes ++ bytes) (c :: chunks)

def partsOf (chunks : List Chunk.Content) : List (List UInt8) :=
  (chunks.filter fun c => c.tag = Tag.idat).map (·.payload)

def dataOf (chunks : List Chunk.Content) : List UInt8 := (partsOf chunks).flatten

theorem IsWhole.append (h : ∀ c ∈ chunks, Fits c ∧ c.tag ≠ Tag.iend) (hmore : IsWhole bytes more) :
    IsWhole (serialise chunks ++ bytes) (chunks ++ more) := by
  induction chunks with
  | nil => exact hmore
  | cons c chunks ih =>
    obtain ⟨⟨hfits, htag⟩, hchunks⟩ := List.forall_mem_cons.mp h
    rw [serialise_cons_append]
    exact .cons hfits htag (ih hchunks)

theorem IsWhole.exists_rest (h : IsWhole bytes chunks) :
    ∃ rest, bytes = serialise chunks ++ rest ∧ ∀ c ∈ chunks, Fits c := by
  induction h with
  | nil => exact ⟨[], rfl, by simp⟩
  | @iend c rest fits tag => exact ⟨rest, by simp [serialise], by simpa using fits⟩
  | @cons c bytes chunks fits tag whole ih =>
    obtain ⟨rest, rfl, hfits⟩ := ih
    exact ⟨rest, by rw [serialise_cons_append], List.forall_mem_cons.mpr ⟨fits, hfits⟩⟩

theorem items_of_isWhole (h : IsWhole bytes chunks) (done : List UInt8) :
    (Walk.startingAt (done ++ bytes) done.length).items =
      (foundAll done.length chunks).map .ok := by
  induction h generalizing done with
  | nil =>
    rw [List.append_nil]
    exact items_at_end done
  | iend rest fits tag => exact items_iend fits tag done rest
  | @cons c bytes chunks fits tag whole ih =>
    have hgo : (c.tag == Tag.iend) = false := by simpa using tag
    have hrest := ih (done ++ c.toBytes)
    rw [List.append_assoc, List.length_append] at hrest
    rw [items_eq_cons (next_toBytes fits done bytes), hgo, foundAll, List.map_cons]
    exact congrArg _ hrest

theorem payloads_foundAll (h : ∀ c ∈ chunks, Fits c) (done rest : List UInt8) :
    payloads (done ++ (serialise chunks ++ rest)) (foundAll done.length chunks) =
      partsOf chunks := by
  induction chunks generalizing done with
  | nil => rfl
  | cons c chunks ih =>
    obtain ⟨hc, hchunks⟩ := List.forall_mem_cons.mp h
    have ih' := ih hchunks (done ++ c.toBytes)
    rw [List.append_assoc, List.length_append] at ih'
    rw [serialise_cons_append, foundAll]
    by_cases hidat : c.tag = Tag.idat
    · have hfound : (found done.length c).tag = Tag.idat := hidat
      rw [payloads_cons_idat hfound, payload_found hc, ih']
      simp [partsOf, hidat]
    · have hfound : (found done.length c).tag ≠ Tag.idat := hidat
      rw [payloads_cons_other hfound, ih']
      simp [partsOf, hidat]

theorem find_of_isWhole (memory : Memory) (h : IsWhole bytes chunks) (done : List UInt8) :
    Datastream.find memory (done ++ bytes) done.length =
      if dataOf chunks = [] then .error (.noImageData (partsOf chunks).length)
      else if memory.grants .datastream then .ok ⟨partsOf chunks⟩
      else .error (.refused .datastream) := by
  have hbytes : Datastream.bytes ⟨partsOf chunks⟩ = dataOf chunks := rfl
  have hflat : (partsOf chunks).flatten = dataOf chunks := rfl
  have hpayloads : payloads (done ++ bytes) (foundAll done.length chunks) = partsOf chunks := by
    obtain ⟨rest, rfl, hfits⟩ := h.exists_rest
    exact payloads_foundAll hfits done rest
  rw [Datastream.find, items_of_isWhole h, ofItems_chunks, hpayloads, hflat]
  by_cases hnil : dataOf chunks = []
  · rw [if_neg (fun h => h.1 hnil), if_pos hnil]
    dsimp only
    rw [hbytes, if_pos hnil]
  · rw [if_neg hnil]
    by_cases hgrant : memory.grants .datastream
    · rw [if_neg (fun h => h.2 hgrant), if_pos hgrant]
      dsimp only
      rw [hbytes, if_neg hnil]
    · rw [if_pos ⟨hnil, hgrant⟩, if_neg hgrant]

end Png.Proofs.WholeChunks

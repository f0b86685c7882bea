import Png.Proofs.Enumeration
import Png.Proofs.ScanRange

namespace Png.Proofs.Tiling

open Chunk.Content Dissection Enumeration Scan
open ScanRange (data_after)

variable {w : Walk} {data done bytes rest : List UInt8} {contents : List Chunk.Content}
  {chunks : List Chunk}

def bytesOf (data : List UInt8) (c : Chunk) : List UInt8 :=
  BigEndian.ofWord c.length ++ c.tag.toList ++ c.payload data ++ BigEndian.ofWord c.crc

def IsLast : Option (Except Failure Chunk) → Prop
  | none | some (.error _) => True
  | some (.ok c) => c.tag = Tag.iend

/-- A walk that is over for a good reason: it has met IEND, or it has come to the end. -/
def EndsWell (w : Walk) (chunks : List Chunk) : Prop :=
  (∃ c ∈ chunks, c.tag = Tag.iend) ∨ w.data.length ≤ (w.after chunks.length).position

/-- The calls of a walk report these chunks, which tile the buffer from the start of the walk up to
its end, and no other chunk. -/
structure Tiles (w : Walk) (chunks : List Chunk) : Prop where
  reported : ∀ n (hn : n < chunks.length), (w.after n).next.1 = some (.ok chunks[n])
  consecutive : ∀ n (hn : n < chunks.length),
    chunks[n].start = (w.after n).position + 8 ∧
      (w.after (n + 1)).position = (w.after n).position + 12 + chunks[n].length.toNat ∧
      (w.after (n + 1)).position ≤ w.data.length
  covered : chunks.flatMap (bytesOf w.data) =
    (w.data.drop w.position).take ((w.after chunks.length).position - w.position)
  iend_last : ∀ c ∈ chunks.dropLast, c.tag ≠ Tag.iend
  length_le : chunks.length ≤ (w.data.length - w.position) / 12
  past_end : w.data.length ≤ w.position → chunks = [] ∧ IsSilentFrom w 0 w.position
  error_once : ∀ n failure, (w.after n).next.1 = some (.error failure) →
    n = chunks.length ∧ failure.error = .malformed .chunkScan
  silent : IsSilentFrom w (chunks.length + 1) (w.after chunks.length).position
  fused : ∀ n, IsLast (w.after n).next.1 → IsSilentFrom w (n + 1) (w.after (n + 1)).position
  endsWell_iff : (∀ n failure, (w.after n).next.1 ≠ some (.error failure)) ↔ EndsWell w chunks

theorem ended_of_isLast (h : IsLast w.next.1) : w.next.2.ended = true := by
  rw [Walk.next] at h ⊢
  split
  · assumption
  · split
    · rfl
    · split
      · rfl
      · simp_all [IsLast]

theorem position_of_silent (h : ∀ c, w.next.1 ≠ some (.ok c)) :
    w.next.2.position = w.position := by
  obtain ⟨item, ended, hnext, -⟩ | ⟨c, ended, -, hnext⟩ := ScanRange.next_cases w
  · rw [hnext]
  · exact absurd (by rw [hnext]) (h c)

theorem fused (n : Nat) (h : IsLast (w.after n).next.1) :
    IsSilentFrom w (n + 1) (w.after (n + 1)).position := by
  apply isSilentFrom_of_ended
  rw [after_succ]
  exact ended_of_isLast h

theorem error_of_next {failure : Failure} (h : w.next.1 = some (.error failure)) :
    failure.error = .malformed .chunkScan := by
  rw [Walk.next] at h
  split at h
  · cases h
  · split at h
    · cases h
    · split at h
      · rename_i hchunk
        cases h
        exact error_of_chunkAt hchunk
      · cases h

theorem next_at_rest (h : w.data.length ≤ w.position) : w.next.1 = none := by
  rw [Walk.next, if_pos h]
  split <;> rfl

theorem silent_behind {n : Nat} (h : ∀ c, (w.after n).next.1 ≠ some (.ok c)) :
    IsSilentFrom w (n + 1) (w.after n).position := by
  have hlast : IsLast (w.after n).next.1 := by
    cases hnext : (w.after n).next.1 with
    | none => trivial
    | some item =>
      cases item with
      | error failure => trivial
      | ok c => exact absurd hnext (h c)
  have hposition := position_of_silent h
  rw [← after_succ] at hposition
  rw [← hposition]
  exact fused n hlast

theorem silent_of_none {n : Nat} (h : (w.after n).next.1 = none) :
    IsSilentFrom w n (w.after n).position := by
  have hlater : IsSilentFrom w (n + 1) (w.after n).position := silent_behind (by simp [h])
  intro m hm
  obtain rfl | hm := Nat.eq_or_lt_of_le hm
  · exact ⟨h, rfl⟩
  · exact hlater m hm

theorem tiles_of_reported
    (hreported : ∀ n (hn : n < chunks.length), (w.after n).next.1 = some (.ok chunks[n]))
    (hconsecutive : ∀ n (hn : n < chunks.length),
      chunks[n].start = (w.after n).position + 8 ∧
        (w.after (n + 1)).position = (w.after n).position + 12 + chunks[n].length.toNat ∧
        (w.after (n + 1)).position ≤ w.data.length)
    (hcovered : chunks.flatMap (bytesOf w.data) =
      (w.data.drop w.position).take ((w.after chunks.length).position - w.position))
    (hiend : ∀ c ∈ chunks.dropLast, c.tag ≠ Tag.iend)
    (hlength : chunks.length ≤ (w.data.length - w.position) / 12)
    (hnext : ((w.after chunks.length).next.1 = none ∧ EndsWell w chunks) ∨
      (∃ failure, (w.after chunks.length).next.1 = some (.error failure)) ∧ ¬ EndsWell w chunks) :
    Tiles w chunks := by
  have hbehind : ∀ c, (w.after chunks.length).next.1 ≠ some (.ok c) := by
    obtain ⟨h, -⟩ | ⟨⟨failure, h⟩, -⟩ := hnext <;> simp [h]
  have hsilent := silent_behind hbehind
  -- Only the call behind the chunks can report an error.
  have herror : ∀ n failure, (w.after n).next.1 = some (.error failure) →
      n = chunks.length ∧ failure.error = .malformed .chunkScan := by
    intro n failure h
    refine ⟨?_, error_of_next h⟩
    obtain hn | hn | hn := Nat.lt_trichotomy n chunks.length
    · rw [hreported n hn] at h
      cases h
    · exact hn
    · rw [(hsilent n hn).1] at h
      cases h
  refine ⟨hreported, hconsecutive, hcovered, hiend, hlength, ?_, herror, hsilent, fused, ?_⟩
  · intro hend
    rw [Nat.sub_eq_zero_of_le hend] at hlength
    exact ⟨List.length_eq_zero_iff.mp (Nat.le_zero.mp hlength),
      silent_of_none (n := 0) (next_at_rest hend)⟩
  · obtain ⟨hnone, hwell⟩ | ⟨⟨failure, hfailure⟩, hwell⟩ := hnext
    · refine iff_of_true (fun n failure h => ?_) hwell
      obtain ⟨rfl, -⟩ := herror n failure h
      rw [hnone] at h
      cases h
    · exact iff_of_false (fun h => h chunks.length failure hfailure) hwell

/-- Bytes as whole chunks, none but the last being IEND, and what is left behind them. -/
structure IsDissection (bytes : List UInt8) (contents : List Chunk.Content) (rest : List UInt8) :
    Prop where
  bytes_eq : bytes = serialise contents ++ rest
  fits : ∀ c ∈ contents, Fits c
  inner : ∀ c ∈ contents.dropLast, c.tag ≠ Tag.iend
  ending : (∃ c ∈ contents.getLast?, c.tag = Tag.iend) ∨ IsCutOff rest

theorem IsDissection.cons {c : Chunk.Content} (hfits : Fits c) (hend : c.tag ≠ Tag.iend)
    (h : IsDissection bytes contents rest) :
    IsDissection (c.toBytes ++ bytes) (c :: contents) rest where
  bytes_eq := by rw [serialise_cons_append, ← h.bytes_eq]
  fits := List.forall_mem_cons.mpr ⟨hfits, h.fits⟩
  inner := by
    cases contents with
    | nil => simp
    | cons d contents =>
      rw [List.dropLast_cons_of_ne_nil (List.cons_ne_nil d contents)]
      exact List.forall_mem_cons.mpr ⟨hend, h.inner⟩
  ending := by
    cases contents with
    | nil => exact .inr (by simpa using h.ending)
    | cons d contents =>
      rw [List.getLast?_cons_cons]
      exact h.ending

theorem exists_dissection (bytes : List UInt8) :
    ∃ contents rest, IsDissection bytes contents rest := by
  -- The induction is on how many bytes there are. A chunk takes away at least twelve of them.
  induction hsize : bytes.length using Nat.strongRecOn generalizing bytes with
  | ind size ih =>
    by_cases hcut : IsCutOff bytes
    · exact ⟨[], bytes, rfl, by simp, by simp, .inr hcut⟩
    · simp only [IsCutOff, not_forall, not_not] at hcut
      obtain ⟨c, rest, hfits, rfl⟩ := hcut
      by_cases hend : c.tag = Tag.iend
      · exact ⟨[c], rest, by simp [serialise], by simpa using hfits, by simp,
          .inl ⟨c, by simp, hend⟩⟩
      · have hpos := c.length_toBytes_pos
        rw [List.length_append] at hsize
        obtain ⟨contents, left, h⟩ := ih rest.length (by omega) rest rfl
        exact ⟨c :: contents, left, h.cons hfits hend⟩

theorem length_foundAll (offset : Nat) (contents : List Chunk.Content) :
    (foundAll offset contents).length = contents.length := by
  induction contents generalizing offset with
  | nil => rfl
  | cons c contents ih => rw [foundAll, List.length_cons, List.length_cons, ih]

theorem map_tag_foundAll (offset : Nat) (contents : List Chunk.Content) :
    (foundAll offset contents).map (·.tag) = contents.map (·.tag) := by
  induction contents generalizing offset with
  | nil => rfl
  | cons c contents ih => rw [foundAll, List.map_cons, List.map_cons, ih]; rfl

theorem getElem_foundAll (offset : Nat) {n : Nat} (hn : n < (foundAll offset contents).length)
    (hn' : n < contents.length) : (foundAll offset contents)[n] =
      found (offset + (serialise (contents.take n)).length) contents[n] := by
  induction contents generalizing offset n with
  | nil => simp at hn'
  | cons c contents ih =>
    cases n with
    | zero => rfl
    | succ n =>
      simp only [foundAll, List.getElem_cons_succ, List.take_succ_cons, serialise,
        List.flatMap_cons, List.length_append]
      rw [ih, serialise, Nat.add_assoc]

theorem bytesOf_found {c : Chunk.Content} (h : Fits c) (done rest : List UInt8) :
    bytesOf (done ++ (c.toBytes ++ rest)) (found done.length c) = c.toBytes := by
  rw [bytesOf, payload_found h]
  rfl

theorem flatMap_bytesOf (hfits : ∀ c ∈ contents, Fits c) (done rest : List UInt8) :
    (foundAll done.length contents).flatMap (bytesOf (done ++ (serialise contents ++ rest))) =
      serialise contents := by
  induction contents generalizing done with
  | nil => rfl
  | cons c contents ih =>
    obtain ⟨hc, hcontents⟩ := List.forall_mem_cons.mp hfits
    have ih' := ih hcontents (done ++ c.toBytes)
    rw [List.length_append, List.append_assoc, ← serialise_cons_append] at ih'
    rw [foundAll, List.flatMap_cons, ih', serialise_cons_append, bytesOf_found hc]
    simp only [serialise, List.flatMap_cons]

theorem length_serialise_ge (contents : List Chunk.Content) :
    contents.length * 12 ≤ (serialise contents).length := by
  induction contents with
  | nil => exact Nat.le_refl 0
  | cons c contents ih =>
    have hlength := c.length_toBytes
    have hover : Chunk.overhead = 12 := rfl
    simp only [serialise, List.flatMap_cons, List.length_append, List.length_cons] at ih ⊢
    omega

theorem exists_tag_iff (offset : Nat) (contents : List Chunk.Content) (t : Tag) :
    (∃ c ∈ foundAll offset contents, c.tag = t) ↔ ∃ c ∈ contents, c.tag = t := by
  have h := congrArg (t ∈ ·) (map_tag_foundAll offset contents)
  simpa only [List.mem_map, eq_iff_iff] using h

theorem length_serialise_take (n : Nat) (contents : List Chunk.Content) :
    (serialise (contents.take n)).length ≤ (serialise contents).length := by
  have hsplit : serialise (contents.take n) ++ serialise (contents.drop n) =
      serialise contents := by
    rw [serialise, serialise, ← List.flatMap_append, List.take_append_drop, serialise]
  rw [← hsplit, List.length_append]
  exact Nat.le_add_right _ _

section

variable (h : IsDissection bytes contents rest)

include h

theorem reported_walkOver (done : List UInt8) {n : Nat} (hn : n < contents.length) :
    ((walkOver done contents rest).after n).next.1 =
      some (.ok (found ((walkOver done contents rest).after n).position contents[n])) := by
  rw [after_take h.fits h.inner hn, next_walkOver (h.fits _ (List.getElem_mem hn))]
  rfl

theorem consecutive_walkOver (done : List UInt8) {n : Nat} (hn : n < contents.length) :
    ((walkOver done contents rest).after (n + 1)).position =
        ((walkOver done contents rest).after n).position + 12 + contents[n].payload.length ∧
      ((walkOver done contents rest).after (n + 1)).position ≤
        (walkOver done contents rest).data.length := by
  have hlength := length_serialise_take (n + 1) contents
  have hover : Chunk.overhead = 12 := rfl
  have hdata : (walkOver done contents rest).data = done ++ (serialise contents ++ rest) := rfl
  rw [position_after h.fits h.inner hn, position_after h.fits h.inner (Nat.le_of_lt hn), hdata]
  rw [serialise_take_succ hn] at hlength ⊢
  simp only [List.length_append, length_toBytes] at hlength ⊢
  omega

theorem next_behind (done : List UInt8) :
    (((walkOver done contents rest).after contents.length).next.1 = none ∧
        EndsWell (walkOver done contents rest) (foundAll done.length contents)) ∨
      (∃ failure, ((walkOver done contents rest).after contents.length).next.1 =
          some (.error failure)) ∧
        ¬ EndsWell (walkOver done contents rest) (foundAll done.length contents) := by
  have hposition := position_after h.fits h.inner (Nat.le_refl _) done rest
  have hdata : (walkOver done contents rest).data = done ++ (serialise contents ++ rest) := rfl
  rw [List.take_length] at hposition
  rw [EndsWell, exists_tag_iff, length_foundAll, hposition, hdata]
  by_cases hiend : ∃ c ∈ contents.getLast?, c.tag = Tag.iend
  · obtain ⟨c, hc, htag⟩ := hiend
    refine .inl ⟨?_, .inl ⟨c, List.mem_of_mem_getLast? hc, htag⟩⟩
    rw [next_of_ended (ended_after h.fits h.inner ⟨c, hc, htag⟩ done rest)]
  · have hwithout := without_iend h.fits h.inner hiend
    have hcut := h.ending.resolve_left hiend
    -- Without IEND the walk ends well exactly if nothing is left behind the chunks.
    by_cases hrest : rest = []
    · subst hrest
      have hend : (done ++ (serialise contents ++ [])).length ≤
          (done ++ serialise contents).length := Nat.le_of_eq (by rw [List.append_nil])
      refine .inl ⟨next_at_rest ?_, .inr hend⟩
      rw [data_after, hposition]
      exact hend
    · obtain ⟨failure, -, hnext⟩ := next_cut_off hwithout hrest hcut done
      refine .inr ⟨⟨failure, by rw [hnext]⟩, ?_⟩
      rintro (⟨c, hc, htag⟩ | hend)
      · exact (hwithout c hc).2 htag
      · have hpos := List.length_pos_iff.mpr hrest
        simp only [List.length_append] at hend
        omega

theorem tiles_walkOver (done : List UInt8) :
    Tiles (walkOver done contents rest) (foundAll done.length contents) := by
  have hlength := length_foundAll done.length contents
  have hdata : (walkOver done contents rest).data = done ++ (serialise contents ++ rest) := rfl
  have hstart : (walkOver done contents rest).position = done.length := rfl
  have hchunk : ∀ n (hn : n < (foundAll done.length contents).length) (hn' : n < contents.length),
      (foundAll done.length contents)[n] =
        found ((walkOver done contents rest).after n).position contents[n] := by
    intro n hn hn'
    rw [getElem_foundAll done.length hn hn',
      position_after h.fits h.inner (Nat.le_of_lt hn') done rest, List.length_append]
  apply tiles_of_reported
  · intro n hn
    have hn' : n < contents.length := hlength ▸ hn
    rw [hchunk n hn hn']
    exact reported_walkOver h done hn'
  · intro n hn
    have hn' : n < contents.length := hlength ▸ hn
    rw [hchunk n hn hn', toNat_length_found (h.fits _ (List.getElem_mem hn'))]
    exact ⟨rfl, consecutive_walkOver h done hn'⟩
  · rw [hlength, position_after h.fits h.inner (Nat.le_refl _) done rest, List.take_length, hdata,
      hstart, flatMap_bytesOf h.fits, List.drop_left, List.length_append, Nat.add_sub_cancel_left,
      List.take_left]
  · intro c hc htag
    have hmap := congrArg List.dropLast (map_tag_foundAll done.length contents)
    rw [← List.map_dropLast, ← List.map_dropLast] at hmap
    have hmem : Tag.iend ∈ contents.dropLast.map (·.tag) := by
      rw [← hmap]
      exact List.mem_map.mpr ⟨c, hc, htag⟩
    obtain ⟨content, hcontent, heq⟩ := List.mem_map.mp hmem
    exact h.inner content hcontent heq
  · have hle := length_serialise_ge contents
    rw [hlength, hdata, hstart, Nat.le_div_iff_mul_le (by decide)]
    simp only [List.length_append]
    omega
  · rw [hlength]
    exact next_behind h done

end

theorem tiles_past_end (h : w.data.length ≤ w.position) : Tiles w [] := by
  apply tiles_of_reported
  · simp
  · simp
  · simp [Walk.after]
  · simp
  · exact Nat.zero_le _
  · exact .inl ⟨next_at_rest h, .inr h⟩

/-- From any offset on, what a walk reports tiles the buffer, and then the walk is over. -/
theorem walk_tiles (data : List UInt8) (offset : Nat) :
    ∃ chunks, Tiles (Walk.startingAt data offset) chunks := by
  by_cases hoffset : offset ≤ data.length
  · obtain ⟨contents, rest, h⟩ := exists_dissection (data.drop offset)
    have hwalk : walkOver (data.take offset) contents rest = Walk.startingAt data offset := by
      rw [walkOver, ← h.bytes_eq, List.take_append_drop, List.length_take,
        Nat.min_eq_left hoffset]
    exact ⟨_, hwalk ▸ tiles_walkOver h (data.take offset)⟩
  · exact ⟨[], tiles_past_end (Nat.le_of_not_le hoffset)⟩

end Png.Proofs.Tiling

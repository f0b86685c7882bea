import Png.Proofs.Dissection

namespace Png.Proofs.Enumeration

open Chunk.Content Dissection Scan

variable {w : Walk} {c : Chunk.Content} {before chunks : List Chunk.Content}

theorem after_add (w : Walk) (m n : Nat) : w.after (m + n) = (w.after m).after n := by
  induction m generalizing w with
  | zero => rw [Nat.zero_add]; rfl
  | succ m ih =>
    rw [Nat.succ_add]
    exact ih w.next.2

theorem after_of_ended (h : w.ended = true) (n : Nat) : w.after n = w := by
  induction n with
  | zero => rfl
  | succ n ih => rw [Walk.after, next_of_ended h, ih]

/-- Nothing is reported from the call after so many others on, and the position stays. -/
def IsSilentFrom (w : Walk) (n position : Nat) : Prop :=
  ∀ m, n ≤ m → (w.after m).next.1 = none ∧ (w.after m).position = position

theorem isSilentFrom_of_ended {n : Nat} (h : (w.after n).ended = true) :
    IsSilentFrom w n (w.after n).position := by
  intro m hm
  obtain ⟨k, rfl⟩ := Nat.exists_eq_add_of_le hm
  rw [after_add, after_of_ended h, next_of_ended h]
  exact ⟨rfl, rfl⟩

/-- A walk over serialised chunks that lie between other bytes. -/
def walkOver (done : List UInt8) (chunks : List Chunk.Content) (rest : List UInt8) : Walk :=
  .startingAt (done ++ (serialise chunks ++ rest)) done.length

theorem data_walkOver (done : List UInt8) (before chunks : List Chunk.Content)
    (rest : List UInt8) : (walkOver (done ++ serialise before) chunks rest).data =
      (walkOver done (before ++ chunks) rest).data := by
  simp only [walkOver, Walk.startingAt, serialise, List.flatMap_append, List.append_assoc]

theorem next_walkOver (h : Fits c) (done : List UInt8) (chunks : List Chunk.Content)
    (rest : List UInt8) : (walkOver done (c :: chunks) rest).next =
      (some (.ok (found done.length c)),
        { walkOver (done ++ c.toBytes) chunks rest with ended := c.tag == Tag.iend }) := by
  have hnext := next_toBytes h done (serialise chunks ++ rest)
  rw [← serialise_cons_append] at hnext
  rw [walkOver, hnext, serialise_cons_append, walkOver, Walk.startingAt, List.append_assoc,
    List.length_append]

theorem after_walkOver (h : ∀ c ∈ before, Fits c ∧ c.tag ≠ Tag.iend) (done : List UInt8)
    (chunks : List Chunk.Content) (rest : List UInt8) :
    (walkOver done (before ++ chunks) rest).after before.length =
      walkOver (done ++ serialise before) chunks rest := by
  induction before generalizing done with
  | nil =>
    rw [serialise, List.flatMap_nil, List.append_nil]
    rfl
  | cons c before ih =>
    obtain ⟨⟨hfits, hend⟩, hbefore⟩ := List.forall_mem_cons.mp h
    have hgo : (c.tag == Tag.iend) = false := by simpa using hend
    have hdone : done ++ c.toBytes ++ serialise before = done ++ serialise (c :: before) := by
      rw [serialise, serialise, List.flatMap_cons, List.append_assoc]
    rw [List.length_cons, Walk.after, List.cons_append, next_walkOver hfits, hgo, ← hdone]
    exact ih hbefore (done ++ c.toBytes)

/-- A chunk that is reported where an offset leads to is the one that was written there. -/
structure Finds (data : List UInt8) (offset : Nat) (c : Chunk.Content) (found : Chunk) :
    Prop where
  tag : found.tag = c.tag
  length : found.length.toNat = c.payload.length
  crc : found.crc = c.crc
  start : found.start = offset + 8
  payload : found.payload data = c.payload

theorem finds_found (h : Fits c) (done : List UInt8) (chunks : List Chunk.Content)
    (rest : List UInt8) :
    Finds (walkOver done (c :: chunks) rest).data done.length c (found done.length c) where
  tag := rfl
  length := toNat_length_found h done.length
  crc := rfl
  start := rfl
  payload := by
    have hpayload := payload_found h done (serialise chunks ++ rest)
    rwa [← serialise_cons_append] at hpayload

theorem serialise_take_succ {n : Nat} (hn : n < chunks.length) :
    serialise (chunks.take (n + 1)) = serialise (chunks.take n) ++ chunks[n].toBytes := by
  rw [serialise, serialise, List.take_succ_eq_append_getElem hn, List.flatMap_append,
    List.flatMap_singleton]

section

variable (hfits : ∀ c ∈ chunks, Fits c) (hinner : ∀ c ∈ chunks.dropLast, c.tag ≠ Tag.iend)

include hfits hinner

theorem passed {n : Nat} (hn : n < chunks.length) :
    ∀ c ∈ chunks.take n, Fits c ∧ c.tag ≠ Tag.iend := by
  intro c hc
  have hlast : c ∈ chunks.dropLast := by
    rw [List.dropLast_eq_take]
    exact List.take_subset_take_left _ (by omega) hc
  exact ⟨hfits c (List.mem_of_mem_take hc), hinner c hlast⟩

theorem after_take {n : Nat} (hn : n < chunks.length) (done rest : List UInt8) :
    (walkOver done chunks rest).after n =
      walkOver (done ++ serialise (chunks.take n)) (chunks[n] :: chunks.drop (n + 1)) rest := by
  have hsplit : chunks.take n ++ (chunks[n] :: chunks.drop (n + 1)) = chunks := by
    rw [← List.drop_eq_getElem_cons hn, List.take_append_drop]
  have hafter := after_walkOver (passed hfits hinner hn) done
    (chunks[n] :: chunks.drop (n + 1)) rest
  rwa [hsplit, List.length_take, Nat.min_eq_left (Nat.le_of_lt hn)] at hafter

theorem finds_nth {n : Nat} (hn : n < chunks.length) (done rest : List UInt8) :
    ∃ found, ((walkOver done chunks rest).after n).next.1 = some (.ok found) ∧
      Finds (walkOver done chunks rest).data ((walkOver done chunks rest).after n).position
        chunks[n] found := by
  have hfit : Fits chunks[n] := hfits _ (List.getElem_mem hn)
  have hfinds := finds_found hfit (done ++ serialise (chunks.take n)) (chunks.drop (n + 1)) rest
  rw [data_walkOver, ← List.drop_eq_getElem_cons hn, List.take_append_drop] at hfinds
  rw [after_take hfits hinner hn, next_walkOver hfit]
  exact ⟨_, rfl, hfinds⟩

theorem position_after {n : Nat} (hn : n ≤ chunks.length) (done rest : List UInt8) :
    ((walkOver done chunks rest).after n).position =
      (done ++ serialise (chunks.take n)).length := by
  cases n with
  | zero =>
    rw [List.take_zero, serialise, List.flatMap_nil, List.append_nil]
    rfl
  | succ n =>
    rw [after_add, after_take hfits hinner hn, Walk.after,
      next_walkOver (hfits _ (List.getElem_mem hn)), serialise_take_succ hn, ← List.append_assoc]
    rfl

theorem ended_after (hlast : ∃ c ∈ chunks.getLast?, c.tag = Tag.iend) (done rest : List UInt8) :
    ((walkOver done chunks rest).after chunks.length).ended = true := by
  obtain ⟨c, hc, hend⟩ := hlast
  obtain ⟨init, rfl⟩ := List.getLast?_eq_some_iff.mp hc
  have hn : init.length < (init ++ [c]).length := by simp
  have hnth : (init ++ [c])[init.length] = c := List.getElem_concat_length rfl _
  rw [List.length_append, List.length_singleton, after_add, after_take hfits hinner hn, hnth,
    Walk.after, next_walkOver (hfits c (by simp))]
  exact beq_iff_eq.mpr hend

theorem without_iend (hlast : ¬ ∃ c ∈ chunks.getLast?, c.tag = Tag.iend) :
    ∀ c ∈ chunks, Fits c ∧ c.tag ≠ Tag.iend := by
  intro c hc
  refine ⟨hfits c hc, fun htag => ?_⟩
  obtain rfl | ⟨init, last, rfl⟩ := List.eq_nil_or_concat chunks
  · cases hc
  · rw [List.concat_eq_append] at hinner hlast hc
    obtain hinit | hc := List.mem_append.mp hc
    · exact hinner c (by rwa [List.dropLast_concat]) htag
    · obtain rfl := List.mem_singleton.mp hc
      exact hlast ⟨c, List.getLast?_concat, htag⟩

end

theorem after_all (h : ∀ c ∈ chunks, Fits c ∧ c.tag ≠ Tag.iend) (done rest : List UInt8) :
    (walkOver done chunks rest).after chunks.length =
      .startingAt (done ++ serialise chunks ++ rest) (done ++ serialise chunks).length := by
  have hafter := after_walkOver h done [] rest
  rw [List.append_nil] at hafter
  exact hafter

theorem after_succ (w : Walk) (n : Nat) : w.after (n + 1) = (w.after n).next.2 :=
  after_add w n 1

theorem isSilentFrom_of_next {n : Nat} (h : (w.after n).next = (none, (w.after n).stop)) :
    IsSilentFrom w n (w.after n).position := by
  have hsucc : w.after (n + 1) = (w.after n).stop := by rw [after_succ, h]
  have hlater : IsSilentFrom w (n + 1) (w.after (n + 1)).position :=
    isSilentFrom_of_ended (by rw [hsucc]; rfl)
  intro m hm
  obtain rfl | hm := Nat.eq_or_lt_of_le hm
  · exact ⟨by rw [h], rfl⟩
  · rw [hsucc] at hlater
    exact hlater m hm

theorem error_of_chunkAt {bytes : List UInt8} {position : Nat} {failure : Failure}
    (h : Walk.chunkAt bytes position = .error failure) : failure.error = .malformed .chunkScan := by
  rw [Walk.chunkAt] at h
  split at h
  · cases h
    rfl
  · dsimp only at h
    split at h
    · cases h
      rfl
    · cases h

/-- The bytes do not begin with one whole chunk. -/
def IsCutOff (bytes : List UInt8) : Prop :=
  ∀ c rest, Fits c → bytes ≠ c.toBytes ++ rest

theorem exists_failure {bytes : List UInt8} (h : IsCutOff bytes) (position : Nat) :
    ∃ failure, Walk.chunkAt bytes position = .error failure := by
  cases hchunk : Walk.chunkAt bytes position with
  | error failure => exact ⟨failure, rfl⟩
  | ok c =>
    obtain ⟨content, rest, hfits, hbytes, -⟩ := exists_content hchunk
    exact absurd hbytes (h content rest hfits)

theorem isCutOff_iff (bytes : List UInt8) :
    IsCutOff bytes ↔ bytes.length < Chunk.overhead ∨
      bytes.length < (BigEndian.word bytes).toNat + Chunk.overhead := by
  constructor
  · intro h
    obtain ⟨failure, hfailure⟩ := exists_failure h 0
    rw [Walk.chunkAt] at hfailure
    split at hfailure
    · exact .inl ‹_›
    · dsimp only at hfailure
      split at hfailure
      · exact .inr ‹_›
      · cases hfailure
  · rintro h c rest hfits rfl
    have hword : (BigEndian.word (c.toBytes ++ rest)).toNat = c.payload.length := by
      rw [toBytes_append, BigEndian.word_ofWord]
      exact UInt32.toNat_ofNat_of_lt' hfits
    rw [hword, List.length_append, length_toBytes] at h
    omega

theorem next_cut_off (h : ∀ c ∈ chunks, Fits c ∧ c.tag ≠ Tag.iend) {rest : List UInt8}
    (hrest : rest ≠ []) (hcut : IsCutOff rest) (done : List UInt8) :
    ∃ failure, failure.error = .malformed .chunkScan ∧
      ((walkOver done chunks rest).after chunks.length).next =
        (some (.error failure), ((walkOver done chunks rest).after chunks.length).stop) := by
  obtain ⟨failure, hfailure⟩ := exists_failure hcut (done ++ serialise chunks).length
  have hlt : ¬ (done ++ serialise chunks ++ rest).length ≤ (done ++ serialise chunks).length := by
    have hpos := List.length_pos_iff.mpr hrest
    rw [List.length_append]
    omega
  refine ⟨failure, error_of_chunkAt hfailure, ?_⟩
  rw [after_all h, next_before_end hlt, List.drop_left, hfailure]

/-- A walk over serialised chunks, none but the last being IEND, reports each of them where it lies.
Behind IEND, and where the bytes end with the chunks, it reports nothing more. Other bytes that do
not begin with a whole chunk are reported once as an error, and the position stays in front of
them. -/
theorem walk_over_serialised (done rest : List UInt8) (chunks : List Chunk.Content)
    (hfits : ∀ c ∈ chunks, Fits c) (hinner : ∀ c ∈ chunks.dropLast, c.tag ≠ Tag.iend) :
    (∀ n ≤ chunks.length, ((walkOver done chunks rest).after n).position =
        (done ++ serialise (chunks.take n)).length) ∧
      (∀ n (hn : n < chunks.length), ∃ found,
        ((walkOver done chunks rest).after n).next.1 = some (.ok found) ∧
          Finds (walkOver done chunks rest).data (done ++ serialise (chunks.take n)).length
            chunks[n] found) ∧
      ((rest = [] ∨ ∃ c ∈ chunks.getLast?, c.tag = Tag.iend) →
        IsSilentFrom (walkOver done chunks rest) chunks.length (done ++ serialise chunks).length) ∧
      (rest ≠ [] → (∀ c ∈ chunks, c.tag ≠ Tag.iend) → IsCutOff rest →
        (∃ failure, failure.error = .malformed .chunkScan ∧
          ((walkOver done chunks rest).after chunks.length).next.1 = some (.error failure)) ∧
        IsSilentFrom (walkOver done chunks rest) (chunks.length + 1)
          (done ++ serialise chunks).length) := by
  have hposition := fun n hn => position_after hfits hinner (n := n) hn done rest
  have hend := hposition chunks.length (Nat.le_refl _)
  rw [List.take_length] at hend
  refine ⟨hposition, fun n hn => ?_, fun h => ?_, fun hrest hiend hcut => ?_⟩
  · obtain ⟨found, hitem, hfinds⟩ := finds_nth hfits hinner hn done rest
    rw [hposition n (Nat.le_of_lt hn)] at hfinds
    exact ⟨found, hitem, hfinds⟩
  · by_cases hlast : ∃ c ∈ chunks.getLast?, c.tag = Tag.iend
    · rw [← hend]
      exact isSilentFrom_of_ended (ended_after hfits hinner hlast done rest)
    · obtain rfl : rest = [] := h.resolve_right hlast
      rw [← hend]
      apply isSilentFrom_of_next
      rw [after_all (without_iend hfits hinner hlast)]
      exact next_at_end (Nat.le_of_eq (by rw [List.append_nil]))
  · obtain ⟨failure, herror, hnext⟩ :=
      next_cut_off (fun c hc => ⟨hfits c hc, hiend c hc⟩) hrest hcut done
    have hstop : (walkOver done chunks rest).after (chunks.length + 1) =
        ((walkOver done chunks rest).after chunks.length).stop := by rw [after_succ, hnext]
    have hsilent : IsSilentFrom (walkOver done chunks rest) (chunks.length + 1)
        ((walkOver done chunks rest).after (chunks.length + 1)).position :=
      isSilentFrom_of_ended (by rw [hstop]; rfl)
    rw [hstop, Walk.stop, hend] at hsilent
    exact ⟨⟨failure, herror, by rw [hnext]⟩, hsilent⟩

def twoChunks : List Chunk.Content :=
  [⟨Tag.idat, [1, 2], 3⟩, ⟨Tag.ihdr, [], 4⟩]

/-- Bytes that say that nine bytes of payload follow, and have only one. -/
def cutChunk : List UInt8 := [0, 0, 0, 9, 73, 68, 65, 84, 5, 0, 0, 0, 6]

theorem walk_over_two_chunks :
    (∀ c ∈ twoChunks, Fits c) ∧ (∀ c ∈ twoChunks.dropLast, c.tag ≠ Tag.iend) ∧
      ((walkOver [7] twoChunks cutChunk).after 2).position = 27 ∧
      (∃ found, ((walkOver [7] twoChunks cutChunk).after 1).next.1 = some (.ok found) ∧
        Finds (walkOver [7] twoChunks cutChunk).data 15 ⟨Tag.ihdr, [], 4⟩ found) ∧
      IsSilentFrom (walkOver [7] twoChunks []) 2 27 ∧
      (∃ failure, failure.error = .malformed .chunkScan ∧
        ((walkOver [7] twoChunks cutChunk).after 2).next.1 = some (.error failure)) ∧
      IsSilentFrom (walkOver [7] twoChunks cutChunk) 3 27 := by
  have hfits : ∀ c ∈ twoChunks, Fits c := by decide
  have hinner : ∀ c ∈ twoChunks.dropLast, c.tag ≠ Tag.iend := by decide
  obtain ⟨-, -, hsilent, -⟩ := walk_over_serialised [7] [] twoChunks hfits hinner
  obtain ⟨hposition, hfound, -, hcut⟩ :=
    walk_over_serialised [7] cutChunk twoChunks hfits hinner
  obtain ⟨hfailure, hquiet⟩ :=
    hcut (by decide) (by decide) ((isCutOff_iff cutChunk).mpr (by decide))
  exact ⟨hfits, hinner, hposition 2 (by decide), hfound 1 (by decide), hsilent (.inl rfl), hfailure,
    hquiet⟩

end Png.Proofs.Enumeration

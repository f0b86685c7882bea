import Png.Proofs.Tiling

namespace Png.Proofs.Collection

open Chunk.Content Container Dissection Enumeration ImageData Scan Tiling WholeChunks

variable {memory : Memory} {data bytes rest : List UInt8} {offset : Nat}
  {chunks : List Chunk.Content}

def collect (memory : Memory) (data : List UInt8) (offset : Nat) :
    Except DecodeError (List UInt8) :=
  match Datastream.find memory data offset with
  | .ok stream => .ok stream.bytes
  | .error failure => .error failure.error

/-- Behind whole chunks, none of them IEND, the bytes go on, but not with a whole chunk. -/
def IsCutShort (bytes : List UInt8) : Prop :=
  ∃ chunks rest, (∀ c ∈ chunks, Fits c ∧ c.tag ≠ Tag.iend) ∧ rest ≠ [] ∧ IsCutOff rest ∧
    bytes = serialise chunks ++ rest

/-- Compressed data comes from whole chunks only, all of it in its order, and from IDAT chunks
before IEND only. Otherwise the scan of the chunks is what failed: where a chunk is cut short, where
no IDAT chunk has any bytes, and where the offset lies behind the buffer. -/
structure IsAllOrNothing (memory : Memory) (data : List UInt8) (offset : Nat) : Prop where
  ok_iff : ∀ bytes, collect memory data offset = .ok bytes ↔
    ∃ chunks, IsWhole (data.drop offset) chunks ∧ bytes = dataOf chunks ∧ bytes ≠ []
  otherwise : (¬ ∃ chunks, IsWhole (data.drop offset) chunks ∧ dataOf chunks ≠ []) →
    collect memory data offset = .error (.malformed .chunkScan)
  cut_short : IsCutShort (data.drop offset) →
    collect memory data offset = .error (.malformed .chunkScan)
  without_data : ∀ chunks, IsWhole (data.drop offset) chunks → dataOf chunks = [] →
    collect memory data offset = .error (.malformed .chunkScan)
  past_end : data.length ≤ offset → collect memory data offset = .error (.malformed .chunkScan)
  behind_iend : ∀ chunks iend rest rest' data' offset',
    (∀ c ∈ chunks, Fits c ∧ c.tag ≠ Tag.iend) → Fits iend → iend.tag = Tag.iend →
    data.drop offset = serialise chunks ++ (iend.toBytes ++ rest) →
    data'.drop offset' = serialise chunks ++ (iend.toBytes ++ rest') →
    collect memory data offset = collect memory data' offset'

theorem isWhole_or_isCutShort (bytes : List UInt8) :
    (∃ chunks, IsWhole bytes chunks) ∨ IsCutShort bytes := by
  obtain ⟨contents, rest, h⟩ := exists_dissection bytes
  by_cases hiend : ∃ c ∈ contents.getLast?, c.tag = Tag.iend
  · obtain ⟨c, hc, htag⟩ := hiend
    obtain ⟨init, rfl⟩ := List.getLast?_eq_some_iff.mp hc
    have hinit : ∀ c ∈ init, Fits c ∧ c.tag ≠ Tag.iend := by
      intro c hc
      exact ⟨h.fits c (by simp [hc]), h.inner c (by simpa using hc)⟩
    have hbytes : bytes = serialise init ++ (c.toBytes ++ rest) := by
      rw [h.bytes_eq]
      simp [serialise]
    refine .inl ⟨init ++ [c], ?_⟩
    rw [hbytes]
    exact .append hinit (.iend rest (h.fits c (by simp)) htag)
  · have hcontents := without_iend h.fits h.inner hiend
    by_cases hrest : rest = []
    · subst hrest
      have hwhole := IsWhole.append hcontents .nil
      rw [← h.bytes_eq, List.append_nil] at hwhole
      exact .inl ⟨contents, hwhole⟩
    · exact .inr ⟨contents, rest, hcontents, hrest, h.ending.resolve_left hiend, h.bytes_eq⟩

theorem split_at_offset (h : data.drop offset ≠ []) :
    ∃ done, data = done ++ data.drop offset ∧ done.length = offset := by
  have hoffset : offset < data.length := by
    rw [← Nat.not_le, ← List.drop_eq_nil_iff]
    exact h
  refine ⟨data.take offset, (List.take_append_drop offset data).symm, ?_⟩
  rw [List.length_take, Nat.min_eq_left (Nat.le_of_lt hoffset)]

theorem collect_of_error {failure : Failure}
    (h : Datastream.find memory data offset = .error failure) :
    collect memory data offset = .error failure.error := by
  rw [collect, h]

theorem collect_past_end (memory : Memory) (h : data.length ≤ offset) :
    collect memory data offset = .error (.malformed .chunkScan) := by
  have hfind : Datastream.find memory data offset = .error (.noImageData 0) := by
    rw [Datastream.find, items_eq_nil (next_at_end h)]
    rfl
  exact collect_of_error hfind

theorem collect_of_isWhole (memory : Memory) (h : IsWhole (data.drop offset) chunks) :
    collect memory data offset =
      if dataOf chunks = [] then .error (.malformed .chunkScan)
      else if memory.grants .datastream then .ok (dataOf chunks)
      else .error .outOfMemory := by
  by_cases hdrop : data.drop offset = []
  · rw [hdrop] at h
    cases h with
    | nil => exact collect_past_end memory (List.drop_eq_nil_iff.mp hdrop)
  · obtain ⟨done, hdata, rfl⟩ := split_at_offset hdrop
    have hfind := find_of_isWhole memory h done
    rw [← hdata] at hfind
    split at hfind
    · rw [if_pos ‹_›, collect_of_error hfind]
      rfl
    · rw [if_neg ‹_›]
      split at hfind
      · rw [if_pos ‹_›, collect, hfind]
        rfl
      · rw [if_neg ‹_›, collect_of_error hfind]
        rfl

theorem items_cut_off (hchunks : ∀ c ∈ chunks, Fits c ∧ c.tag ≠ Tag.iend) (hrest : rest ≠ [])
    (hcut : IsCutOff rest) (done : List UInt8) :
    ∃ failure, failure.error = .malformed .chunkScan ∧
      (Walk.startingAt (done ++ (serialise chunks ++ rest)) done.length).items =
        (foundAll done.length chunks).map .ok ++ [.error failure] := by
  obtain ⟨failure, hfailure⟩ := exists_failure hcut (done ++ serialise chunks).length
  refine ⟨failure, error_of_chunkAt hfailure, ?_⟩
  have hbefore :
      ¬ (done ++ serialise chunks ++ rest).length ≤ (done ++ serialise chunks).length := by
    have hpos := List.length_pos_iff.mpr hrest
    rw [List.length_append]
    omega
  have hnext := next_before_end hbefore
  rw [List.drop_left, hfailure] at hnext
  rw [items_serialise hchunks, ← List.length_append, ← List.append_assoc, items_eq_cons hnext,
    items_of_ended rfl]

theorem collect_of_isCutShort (hmemory : memory.grants .datastream)
    (h : IsCutShort (data.drop offset)) :
    collect memory data offset = .error (.malformed .chunkScan) := by
  obtain ⟨chunks, rest, hchunks, hrest, hcut, hbytes⟩ := h
  have hdrop : data.drop offset ≠ [] := by
    rw [hbytes]
    exact List.append_ne_nil_of_right_ne_nil _ hrest
  obtain ⟨done, hdata, rfl⟩ := split_at_offset hdrop
  obtain ⟨failure, hfailure, hitems⟩ := items_cut_off hchunks hrest hcut done
  rw [hbytes] at hdata
  rw [← hdata] at hitems
  rw [← hfailure]
  apply collect_of_error
  rw [Datastream.find, hitems, ofItems_append, if_neg fun h => h.2 hmemory]
  rfl

theorem collect_eq_ok_iff (hmemory : memory.grants .datastream) :
    collect memory data offset = .ok bytes ↔
      ∃ chunks, IsWhole (data.drop offset) chunks ∧ bytes = dataOf chunks ∧ bytes ≠ [] := by
  constructor
  · intro h
    obtain ⟨chunks, hwhole⟩ | hcut := isWhole_or_isCutShort (data.drop offset)
    · rw [collect_of_isWhole memory hwhole, if_pos hmemory] at h
      split at h
      · cases h
      · cases h
        exact ⟨chunks, hwhole, rfl, ‹_›⟩
    · rw [collect_of_isCutShort hmemory hcut] at h
      cases h
  · rintro ⟨chunks, hwhole, rfl, hne⟩
    rw [collect_of_isWhole memory hwhole, if_neg hne, if_pos hmemory]

theorem collect_otherwise (hmemory : memory.grants .datastream)
    (h : ¬ ∃ chunks, IsWhole (data.drop offset) chunks ∧ dataOf chunks ≠ []) :
    collect memory data offset = .error (.malformed .chunkScan) := by
  obtain ⟨chunks, hwhole⟩ | hcut := isWhole_or_isCutShort (data.drop offset)
  · have hnil : dataOf chunks = [] := Decidable.of_not_not fun hne => h ⟨chunks, hwhole, hne⟩
    rw [collect_of_isWhole memory hwhole, if_pos hnil]
  · exact collect_of_isCutShort hmemory hcut

/-- From any offset of any buffer on, compressed data is collected whole or not at all. -/
theorem collect_all_or_nothing (memory : Memory) (hmemory : memory.grants .datastream)
    (data : List UInt8) (offset : Nat) : IsAllOrNothing memory data offset where
  ok_iff := fun _ => collect_eq_ok_iff hmemory
  otherwise := collect_otherwise hmemory
  cut_short := collect_of_isCutShort hmemory
  without_data := by
    intro chunks hwhole hnil
    rw [collect_of_isWhole memory hwhole, if_pos hnil]
  past_end := collect_past_end memory
  behind_iend := by
    intro chunks iend rest rest' data' offset' hchunks hfits htag hdrop hdrop'
    have hwhole : ∀ rest, IsWhole (serialise chunks ++ (iend.toBytes ++ rest)) (chunks ++ [iend]) :=
      fun rest => .append hchunks (.iend rest hfits htag)
    rw [collect_of_isWhole memory (hdrop ▸ hwhole rest),
      collect_of_isWhole memory (hdrop' ▸ hwhole rest')]

theorem collect_all_or_nothing_scattered :
    (Memory.without .rows).grants .datastream ∧
      collect (.without .rows) scattered.toBytes 33 =
        .ok [4, 10, 255, 10, 129, 3, 8, 123, 184, 67] ∧
      collect (.without .rows) ([7] ++ (serialise twoChunks ++ cutChunk)) 1 =
        .error (.malformed .chunkScan) ∧
      collect (.without .rows) scattered.toBytes 1000 = .error (.malformed .chunkScan) := by
  have hmemory : (Memory.without .rows).grants .datastream := rfl
  have hdrop : scattered.toBytes.drop 33 = serialise scattered.chunks ++ scattered.ending := rfl
  have hwhole := isWhole_file scattered
  have hcut : IsCutShort (serialise twoChunks ++ cutChunk) :=
    ⟨twoChunks, cutChunk, by decide, by decide, (isCutOff_iff cutChunk).mpr (by decide), rfl⟩
  refine ⟨hmemory, ?_, ?_, ?_⟩
  · exact ((collect_all_or_nothing _ hmemory _ _).ok_iff _).mpr
      ⟨scattered.all, hdrop ▸ hwhole, rfl, List.cons_ne_nil _ _⟩
  · exact (collect_all_or_nothing _ hmemory _ _).cut_short hcut
  · exact (collect_all_or_nothing _ hmemory _ _).past_end (by decide)

end Png.Proofs.Collection

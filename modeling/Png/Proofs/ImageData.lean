import Png.Datastream

namespace Png.Proofs.ImageData

def payloads (data : List UInt8) (chunks : List Chunk) : List (List UInt8) :=
  (chunks.filter fun c => c.tag = Tag.idat).map (·.payload data)

def chunksOf (items : List (Except Failure Chunk)) : List Chunk :=
  items.filterMap Except.toOption

theorem payloads_cons_idat {c : Chunk} (h : c.tag = Tag.idat) (data : List UInt8)
    (chunks : List Chunk) :
    payloads data (c :: chunks) = c.payload data :: payloads data chunks := by
  simp [payloads, h]

theorem payloads_cons_other {c : Chunk} (h : c.tag ≠ Tag.idat) (data : List UInt8)
    (chunks : List Chunk) : payloads data (c :: chunks) = payloads data chunks := by
  simp [payloads, h]

theorem ofItems_append (memory : Memory) (data : List UInt8) (chunks : List Chunk)
    (items : List (Except Failure Chunk)) :
    Datastream.ofItems memory data (chunks.map .ok ++ items) =
      if (payloads data chunks).flatten ≠ [] ∧ ¬ memory.grants .datastream then
        .error (.refused .datastream)
      else
        (Datastream.ofItems memory data items).map fun s => ⟨payloads data chunks ++ s.parts⟩ := by
  induction chunks with
  | nil =>
    simp only [payloads, List.filter_nil, List.map_nil, List.flatten_nil, ne_eq, not_true_eq_false,
      false_and, if_false, List.nil_append]
    cases Datastream.ofItems memory data items <;> rfl
  | cons c chunks ih =>
    rw [List.map_cons, List.cons_append, Datastream.ofItems]
    by_cases hidat : c.tag = Tag.idat
    · rw [if_pos hidat, payloads_cons_idat hidat, ih, List.flatten_cons]
      by_cases hgrant : memory.grants .datastream
      · simp only [hgrant, not_true_eq_false, and_false, if_false]
        cases Datastream.ofItems memory data items <;> rfl
      -- A payload without bytes asks for no memory, so the later ones decide.
      · by_cases hpart : c.payload data = []
        · by_cases hrest : (payloads data chunks).flatten = []
          · simp only [hpart, hrest, List.nil_append, ne_eq, not_true_eq_false, false_and,
              if_false]
            cases Datastream.ofItems memory data items <;> rfl
          · simp [hpart, hrest, hgrant, Except.map]
        · simp [hpart, hgrant]
    · rw [if_neg hidat, payloads_cons_other hidat, ih]

theorem ofItems_chunks (memory : Memory) (data : List UInt8) (chunks : List Chunk) :
    Datastream.ofItems memory data (chunks.map .ok) =
      if (payloads data chunks).flatten ≠ [] ∧ ¬ memory.grants .datastream then
        .error (.refused .datastream)
      else .ok ⟨payloads data chunks⟩ := by
  have h := ofItems_append memory data chunks []
  rw [List.append_nil] at h
  rw [h]
  simp only [Datastream.ofItems, Except.map, List.append_nil]

theorem parts_of_ofItems {memory : Memory} {data : List UInt8} {s : Datastream}
    {items : List (Except Failure Chunk)} (h : Datastream.ofItems memory data items = .ok s) :
    s.parts = payloads data (chunksOf items) := by
  induction items generalizing s with
  | nil =>
    cases h
    rfl
  | cons item items ih =>
    cases item with
    | error failure => cases h
    | ok c =>
      rw [Datastream.ofItems] at h
      have hchunks : chunksOf (.ok c :: items) = c :: chunksOf items := rfl
      rw [hchunks]
      by_cases hidat : c.tag = Tag.idat
      · rw [if_pos hidat] at h
        rw [payloads_cons_idat hidat]
        dsimp only at h
        split at h
        · cases h
        · cases hs : Datastream.ofItems memory data items with
          | error failure =>
            rw [hs] at h
            cases h
          | ok s' =>
            rw [hs] at h
            cases h
            exact congrArg (c.payload data :: ·) (ih hs)
      · rw [if_neg hidat] at h
        rw [payloads_cons_other hidat, ih h]

/-- What is found is never empty, and is all there is in the walk's IDAT chunks. -/
theorem bytes_of_find {memory : Memory} {data : List UInt8} {offset : Nat} {s : Datastream}
    (h : Datastream.find memory data offset = .ok s) :
    s.bytes = (payloads data (chunksOf (Walk.startingAt data offset).items)).flatten ∧
      s.bytes ≠ [] := by
  rw [Datastream.find] at h
  split at h
  · cases h
  · rename_i stream hitems
    split at h
    · cases h
    · rename_i hne
      cases h
      exact ⟨by rw [Datastream.bytes, parts_of_ofItems hitems], hne⟩

end Png.Proofs.ImageData

import Png.Chunk.Serial
import Png.Chunk.Walk

namespace Png.Proofs.Scan

variable {done rest : List UInt8} {c : Chunk.Content} {chunks : List Chunk.Content}

def Fits (c : Chunk.Content) : Prop := c.payload.length < UInt32.size

instance (c : Chunk.Content) : Decidable (Fits c) :=
  inferInstanceAs (Decidable (c.payload.length < UInt32.size))

/-- A chunk as a walk reports it that meets it at an offset. -/
def found (offset : Nat) (c : Chunk.Content) : Chunk where
  tag := c.tag
  length := UInt32.ofNat c.payload.length
  start := offset + 8
  crc := c.crc

def foundAll (offset : Nat) : List Chunk.Content → List Chunk
  | [] => []
  | c :: chunks => found offset c :: foundAll (offset + c.toBytes.length) chunks

theorem toNat_length_found (h : Fits c) (offset : Nat) :
    (found offset c).length.toNat = c.payload.length :=
  UInt32.toNat_ofNat_of_lt' h

theorem toBytes_append (c : Chunk.Content) (rest : List UInt8) :
    c.toBytes ++ rest = BigEndian.ofWord (UInt32.ofNat c.payload.length) ++
      (c.tag.toList ++ (c.payload ++ (BigEndian.ofWord c.crc ++ rest))) := by
  simp only [Chunk.Content.toBytes, List.append_assoc]

theorem chunkAt_toBytes (h : Fits c) (rest : List UInt8) (offset : Nat) :
    Walk.chunkAt (c.toBytes ++ rest) offset = .ok (found offset c) := by
  have hlen : (c.toBytes ++ rest).length = c.payload.length + Chunk.overhead + rest.length := by
    rw [List.length_append, Chunk.Content.length_toBytes]
  have hword : BigEndian.word (c.toBytes ++ rest) = UInt32.ofNat c.payload.length := by
    rw [toBytes_append, BigEndian.word_ofWord]
  have hnat : (UInt32.ofNat c.payload.length).toNat = c.payload.length :=
    UInt32.toNat_ofNat_of_lt' h
  have htag : Tag.ofBytes ((c.toBytes ++ rest).drop 4) = c.tag := by
    rw [toBytes_append, List.drop_left' (BigEndian.length_ofWord _), Tag.ofBytes_toList]
  have hcrc : BigEndian.word ((c.toBytes ++ rest).drop (8 + c.payload.length)) = c.crc := by
    have hsplit : c.toBytes ++ rest =
        (BigEndian.ofWord (UInt32.ofNat c.payload.length) ++ c.tag.toList ++ c.payload) ++
          (BigEndian.ofWord c.crc ++ rest) := by
      simp only [Chunk.Content.toBytes, List.append_assoc]
    have hskip : (BigEndian.ofWord (UInt32.ofNat c.payload.length) ++ c.tag.toList ++
        c.payload).length = 8 + c.payload.length := by
      simp only [List.length_append, BigEndian.length_ofWord, Tag.length_toList]
    rw [hsplit, List.drop_left' hskip, BigEndian.word_ofWord]
  rw [Walk.chunkAt, if_neg (by omega), hword, if_neg (by omega), hnat, htag, hcrc]
  rfl

theorem next_toBytes (h : Fits c) (done rest : List UInt8) :
    (Walk.startingAt (done ++ (c.toBytes ++ rest)) done.length).next =
      (some (.ok (found done.length c)),
        { data := done ++ (c.toBytes ++ rest)
          position := done.length + c.toBytes.length
          ended := c.tag == Tag.iend }) := by
  have hlt : ¬ (done ++ (c.toBytes ++ rest)).length ≤ done.length := by
    simp only [List.length_append, Chunk.Content.length_toBytes, Chunk.overhead]
    omega
  simp only [Walk.next, Walk.startingAt, Bool.false_eq_true, if_false, if_neg hlt,
    List.drop_left, chunkAt_toBytes h, toNat_length_found h, Chunk.Content.length_toBytes,
    Nat.add_assoc]
  rfl

theorem items_eq_nil {w w' : Walk} (h : w.next = (none, w')) : w.items = [] := by
  rw [Walk.items.eq_def]
  split
  · rfl
  · rename_i heq
    rw [h] at heq
    cases heq

theorem items_eq_cons {w w' : Walk} {item : Except Failure Chunk} (h : w.next = (some item, w')) :
    w.items = item :: w'.items := by
  rw [Walk.items.eq_def]
  split
  · rename_i heq
    rw [h] at heq
    cases heq
  · rename_i heq
    rw [h] at heq
    cases heq
    rfl

theorem next_of_ended {w : Walk} (h : w.ended = true) : w.next = (none, w) := by
  rw [Walk.next, if_pos h]

theorem items_of_ended {w : Walk} (h : w.ended = true) : w.items = [] :=
  items_eq_nil (next_of_ended h)

theorem ended_of_error {w w' : Walk} {failure : Failure}
    (h : w.next = (some (.error failure), w')) : w'.ended = true := by
  rw [Walk.next] at h
  split at h
  · cases h
  · split at h
    · cases h
    · split at h
      · cases h
        rfl
      · cases h

theorem exists_items_eq (w : Walk) : ∃ (chunks : List Chunk) (ending : List (Except Failure Chunk)),
    w.items = chunks.map .ok ++ ending ∧ (ending = [] ∨ ∃ failure, ending = [.error failure]) := by
  fun_induction Walk.items w with
  | case1 w _ h => exact ⟨[], [], rfl, .inl rfl⟩
  | case2 w item rest h ih =>
    obtain ⟨chunks, ending, hitems, hending⟩ := ih
    cases item with
    | ok c => exact ⟨c :: chunks, ending, by rw [hitems]; rfl, hending⟩
    | error failure =>
      rw [items_of_ended (ended_of_error h)]
      exact ⟨[], [.error failure], rfl, .inr ⟨failure, rfl⟩⟩

theorem items_at_end (data : List UInt8) : (Walk.startingAt data data.length).items = [] :=
  items_eq_nil (by simp only [Walk.next, Walk.startingAt, Bool.false_eq_true, if_false,
    Nat.le_refl, if_true]; rfl)

theorem items_iend (h : Fits c) (hend : c.tag = Tag.iend) (done rest : List UInt8) :
    (Walk.startingAt (done ++ (c.toBytes ++ rest)) done.length).items =
      [.ok (found done.length c)] := by
  rw [items_eq_cons (next_toBytes h done rest), items_of_ended (by simp [hend])]

theorem items_serialise (h : ∀ c ∈ chunks, Fits c ∧ c.tag ≠ Tag.iend) (done rest : List UInt8) :
    (Walk.startingAt (done ++ (Chunk.Content.serialise chunks ++ rest)) done.length).items =
      (foundAll done.length chunks).map .ok ++
        (Walk.startingAt (done ++ (Chunk.Content.serialise chunks ++ rest))
          (done.length + (Chunk.Content.serialise chunks).length)).items := by
  induction chunks generalizing done with
  | nil => rfl
  | cons c chunks ih =>
    obtain ⟨hc, hend⟩ := h c (by simp)
    have hrest : ∀ c ∈ chunks, Fits c ∧ c.tag ≠ Tag.iend := fun c hm => h c (by simp [hm])
    have hser : Chunk.Content.serialise (c :: chunks) ++ rest =
        c.toBytes ++ (Chunk.Content.serialise chunks ++ rest) := by
      simp only [Chunk.Content.serialise, List.flatMap_cons, List.append_assoc]
    have hlen : (Chunk.Content.serialise (c :: chunks)).length =
        c.toBytes.length + (Chunk.Content.serialise chunks).length := by
      simp only [Chunk.Content.serialise, List.flatMap_cons, List.length_append]
    have hgo : (c.tag == Tag.iend) = false := by simpa using hend
    have ih' := ih hrest (done ++ c.toBytes)
    rw [List.append_assoc, List.length_append, Nat.add_assoc] at ih'
    rw [hser, hlen, items_eq_cons (next_toBytes hc done _), hgo]
    simp only [foundAll, List.map_cons, List.cons_append]
    exact congrArg _ ih'

theorem payload_found (h : Fits c) (done rest : List UInt8) :
    (found done.length c).payload (done ++ (c.toBytes ++ rest)) = c.payload := by
  have hsplit : done ++ (c.toBytes ++ rest) =
      (done ++ (BigEndian.ofWord (UInt32.ofNat c.payload.length) ++ c.tag.toList)) ++
        (c.payload ++ (BigEndian.ofWord c.crc ++ rest)) := by
    simp only [Chunk.Content.toBytes, List.append_assoc]
  rw [Chunk.payload, toNat_length_found h, hsplit, List.drop_left' (by simp [found]),
    List.take_left]

end Png.Proofs.Scan

namespace Png.Proofs.Pieces

variable {α β : Type} {f : α → List β} {k : Nat}

theorem length_flatMap (hf : ∀ a, (f a).length = k) (l : List α) :
    (l.flatMap f).length = l.length * k := by
  induction l with
  | nil => rw [List.flatMap_nil, List.length_nil, List.length_nil, Nat.zero_mul]
  | cons a l ih =>
    rw [List.flatMap_cons, List.length_append, hf, ih, List.length_cons, Nat.succ_mul, Nat.add_comm]

theorem drop_flatMap (hf : ∀ a, (f a).length = k) (l : List α) (i : Nat) :
    (l.flatMap f).drop (i * k) = (l.drop i).flatMap f := by
  induction i generalizing l with
  | zero => rw [Nat.zero_mul, List.drop_zero, List.drop_zero]
  | succ i ih =>
    cases l with
    | nil => simp
    | cons a l =>
      rw [List.flatMap_cons, Nat.succ_mul, Nat.add_comm, ← hf a, List.drop_length_add_append, hf,
        ih, List.drop_succ_cons]

theorem piece_flatMap (hf : ∀ a, (f a).length = k) {l : List α} {i : Nat} {a : α}
    (ha : l[i]? = some a) : ((l.flatMap f).drop (i * k)).take k = f a := by
  obtain ⟨hi, rfl⟩ := List.getElem?_eq_some_iff.mp ha
  rw [drop_flatMap hf, List.drop_eq_getElem_cons hi, List.flatMap_cons, ← hf l[i],
    List.take_append_length]

theorem flatMap_pieces (l : List α) (k n : Nat) :
    ((List.range n).flatMap fun i => (l.drop (i * k)).take k) = l.take (n * k) := by
  induction n with
  | zero => rw [Nat.zero_mul]; rfl
  | succ n ih =>
    rw [List.range_succ, List.flatMap_append, ih, List.flatMap_singleton, Nat.succ_mul,
      List.take_add]

theorem piece_piece (l : List α) (i : Nat) {j k m : Nat} (h : j + k ≤ m) :
    (((l.drop i).take m).drop j).take k = (l.drop (i + j)).take k := by
  rw [List.drop_take, List.drop_drop, List.take_take, Nat.min_eq_left (by omega)]

end Png.Proofs.Pieces

import Mathlib.Data.List.GetD
import Png.Filter.Reconstruct
import Png.Proofs.Prediction

namespace Png.Proofs.Rows

open Prediction

/-- The byte so many places before index `i`, or zero where a row has none. -/
def behind (bytes : List UInt8) (i distance : Nat) : UInt8 :=
  if i < distance then 0 else bytes.getD (i - distance) 0

theorem behind_succ (bytes : List UInt8) (i distance : Nat) :
    behind bytes (i + 1) (distance + 1) = behind bytes i distance := by
  rw [behind, behind, Nat.add_sub_add_right]
  by_cases h : i < distance
  · rw [if_pos h, if_pos (Nat.succ_lt_succ h)]
  · rw [if_neg h, if_neg (fun hs => h (Nat.lt_of_succ_lt_succ hs))]

theorem getD_eq_behind (passed rest : List UInt8) (k : Nat) :
    passed.getD k 0 = behind (passed.reverse ++ rest) passed.length (k + 1) := by
  rw [behind]
  by_cases h : passed.length < k + 1
  · rw [if_pos h, List.getD_eq_default _ _ (by omega)]
  · have hk : k < passed.length := by omega
    have hi : passed.length - (k + 1) < passed.reverse.length := by
      rw [List.length_reverse]
      omega
    rw [if_neg h, List.getD_append _ _ _ _ hi, List.getD_eq_getElem _ _ hi,
      List.getElem_reverse, List.getD_eq_getElem _ _ hk]
    congr 1
    omega

theorem getD_eq_zero {bytes : List UInt8} (h : ∀ b ∈ bytes, b = 0) (k : Nat) :
    bytes.getD k 0 = 0 := by
  by_cases hk : k < bytes.length
  · rw [List.getD_eq_getElem _ _ hk]
    exact h _ (List.getElem_mem hk)
  · exact List.getD_eq_default _ _ (Nat.not_lt.mp hk)

variable {f : FilterType} {bpp : Nat} {row above above' out out' : List UInt8}

/-- A filter that does not look up, or that sees only zeros there, works as on the first row. -/
theorem reconstructBelow_eq_first (bpp : Nat) (done : List UInt8) {passed : List UInt8}
    (hlen : row.length ≤ above.length)
    (h : f.readsAbove = true → (∀ b ∈ passed, b = 0) ∧ ∀ b ∈ above, b = 0) :
    reconstructBelow f bpp done passed row above = some (reconstructFirst f bpp done row) := by
  induction row generalizing done passed above with
  | nil => rfl
  | cons x row ih =>
    cases above with
    | nil => simp at hlen
    | cons b above =>
      have hpassed : f.readsAbove = true → ∀ c ∈ b :: passed, c = 0 := fun hf c hc => by
        obtain rfl | hc := List.mem_cons.mp hc
        · exact (h hf).2 c (by simp)
        · exact (h hf).1 c hc
      have hstep : f.predict ((x :: done).getD bpp 0) b ((b :: passed).getD bpp 0) =
          f.predictFirst ((x :: done).getD bpp 0) :=
        predict_eq_predictFirst _ fun hf =>
          ⟨hpassed hf b (by simp), getD_eq_zero (hpassed hf) bpp⟩
      rw [reconstructBelow, reconstructFirst, hstep]
      exact ih _ (by simpa using hlen) fun hf =>
        ⟨hpassed hf, fun c hc => (h hf).2 c (by simp [hc])⟩

theorem reconstructRow_eq_below (f : FilterType) (bpp : Nat) {prior : Option (List UInt8)}
    (h : ∀ above ∈ prior, row.length ≤ above.length) :
    reconstructRow f row prior bpp =
      reconstructBelow f bpp [] [] row (prior.getD (List.replicate row.length 0)) := by
  cases prior with
  | none =>
    have hlen : row.length ≤ (List.replicate row.length (0 : UInt8)).length := by simp
    rw [reconstructRow, Option.getD_none, reconstructBelow_eq_first bpp [] hlen]
    exact fun _ => ⟨by simp, fun b hb => List.eq_of_mem_replicate hb⟩
  | some above =>
    rw [reconstructRow, Option.getD_some]
    by_cases hreads : f.readsAbove
    · rw [if_pos hreads]
    · rw [if_neg hreads, reconstructBelow_eq_first bpp [] (h above rfl)]
      exact fun hf => absurd hf hreads

/-- A row as its filter gives it back. Bytes that the row above does not have count as zero, and for
`bpp = 0` the left neighbour is the byte itself before the change. -/
structure IsRow (f : FilterType) (bpp : Nat) (row above out : List UInt8) : Prop where
  length : out.length = row.length
  bytes : ∀ i < row.length, out.getD i 0 = row.getD i 0 +
    f.predict (if bpp = 0 then row.getD i 0 else behind out i bpp) (above.getD i 0)
      (behind above i bpp)

theorem left_eq (x : UInt8) (done rest : List UInt8) (bpp : Nat) :
    (x :: done).getD bpp 0 =
      if bpp = 0 then x else behind (done.reverse ++ rest) done.length bpp := by
  cases bpp with
  | zero => rfl
  | succ k => rw [List.getD_cons_succ, if_neg (Nat.succ_ne_zero k), getD_eq_behind done rest k]

theorem upperLeft_eq (b : UInt8) (passed above : List UInt8) (bpp : Nat) :
    (b :: passed).getD bpp 0 = behind (passed.reverse ++ b :: above) passed.length bpp := by
  have h := getD_eq_behind (b :: passed) above bpp
  rwa [List.length_cons, behind_succ, List.reverse_cons, List.append_assoc,
    List.singleton_append] at h

theorem reconstructBelow_spec (f : FilterType) (bpp : Nat) (done passed : List UInt8)
    (hpassed : passed.length = done.length) (hlen : row.length ≤ above.length) :
    ∃ new, reconstructBelow f bpp done passed row above = some (done.reverse ++ new) ∧
      new.length = row.length ∧ ∀ i < row.length, new.getD i 0 = row.getD i 0 +
        f.predict (if bpp = 0 then row.getD i 0
            else behind (done.reverse ++ new) (done.length + i) bpp) (above.getD i 0)
          (behind (passed.reverse ++ above) (done.length + i) bpp) := by
  -- The bytes done, and those passed above, stay in front of what is to come.
  induction row generalizing done passed above with
  | nil => exact ⟨[], by simp [reconstructBelow], rfl, by simp⟩
  | cons x row ih =>
    cases above with
    | nil => simp at hlen
    | cons b above =>
      let y := x + f.predict ((x :: done).getD bpp 0) b ((b :: passed).getD bpp 0)
      obtain ⟨new, hnew, hlength, hbytes⟩ := ih (y :: done) (b :: passed)
        (by rw [List.length_cons, List.length_cons, hpassed]) (by simpa using hlen)
      have hdone : (y :: done).reverse ++ new = done.reverse ++ y :: new := by simp
      have habove : (b :: passed).reverse ++ above = passed.reverse ++ b :: above := by simp
      rw [hdone] at hnew hbytes
      rw [habove] at hbytes
      refine ⟨y :: new, hnew, by rw [List.length_cons, List.length_cons, hlength], ?_⟩
      intro i hi
      cases i with
      | zero =>
        simp only [List.getD_cons_zero, Nat.add_zero]
        rw [← left_eq, ← hpassed, ← upperLeft_eq]
      | succ i =>
        have hi' : i < row.length := by simpa using hi
        have hindex : (y :: done).length + i = done.length + (i + 1) := by
          rw [List.length_cons]
          omega
        have hbyte := hbytes i hi'
        rw [hindex] at hbyte
        simpa only [List.getD_cons_succ] using hbyte

theorem getD_zeros (n i : Nat) : (List.replicate n (0 : UInt8)).getD i 0 = 0 :=
  getD_eq_zero (fun _ hb => List.eq_of_mem_replicate hb) i

theorem behind_zeros (n i distance : Nat) :
    behind (List.replicate n 0) i distance = behind [] i distance := by
  rw [behind, behind, getD_zeros, List.getD_nil]

theorem reconstructRow_isRow (f : FilterType) (bpp : Nat) {prior : Option (List UInt8)}
    (h : ∀ above ∈ prior, row.length ≤ above.length) :
    ∃ out, reconstructRow f row prior bpp = some out ∧ IsRow f bpp row (prior.getD []) out := by
  have hlen : row.length ≤ (prior.getD (List.replicate row.length 0)).length := by
    cases prior with
    | none => simp
    | some above => exact h above rfl
  obtain ⟨out, hout, hlength, hbytes⟩ := reconstructBelow_spec f bpp [] [] rfl hlen
  rw [← reconstructRow_eq_below f bpp h] at hout
  refine ⟨out, hout, hlength, fun i hi => ?_⟩
  have hbyte := hbytes i hi
  simp only [List.length_nil, List.reverse_nil, List.nil_append, Nat.zero_add] at hbyte
  cases prior with
  | none => rwa [Option.getD_none, getD_zeros, behind_zeros] at hbyte
  | some above => exact hbyte

theorem reconstructRow_first (f : FilterType) (bpp : Nat) (row : List UInt8) :
    ∃ out, reconstructRow f row none bpp = some out ∧ IsRow f bpp row [] out := by
  have hnone : ∀ above ∈ (none : Option (List UInt8)), row.length ≤ above.length := by simp
  exact reconstructRow_isRow f bpp hnone

theorem reconstructBelow_eq_none (done passed : List UInt8) (h : above.length < row.length) :
    reconstructBelow f bpp done passed row above = none := by
  induction row generalizing done passed above with
  | nil => exact absurd h (Nat.not_lt_zero _)
  | cons x row ih =>
    cases above with
    | nil => rfl
    | cons b above => exact ih _ _ (Nat.lt_of_succ_lt_succ h)

theorem behind_congr {bytes bytes' : List UInt8} {i distance : Nat}
    (h : distance ≤ i → bytes.getD (i - distance) 0 = bytes'.getD (i - distance) 0) :
    behind bytes i distance = behind bytes' i distance := by
  rw [behind, behind]
  split
  · rfl
  · exact h (Nat.not_lt.mp ‹_›)

theorem IsRow.of_above (h : IsRow f bpp row above out) (habove : f.readsAbove = true →
    ∀ i < row.length, above.getD i 0 = above'.getD i 0) : IsRow f bpp row above' out where
  length := h.length
  bytes := by
    intro i hi
    rw [h.bytes i hi]
    congr 1
    apply predict_congr
    intro hreads
    exact ⟨habove hreads i hi, behind_congr fun _ => habove hreads _ (by omega)⟩

theorem IsRow.unique (h : IsRow f bpp row above out) (h' : IsRow f bpp row above out') :
    out = out' := by
  have hbytes : ∀ i < row.length, out.getD i 0 = out'.getD i 0 := by
    -- a byte looks at bytes before it in its own row
    intro i
    induction i using Nat.strongRecOn with
    | ind i ih =>
      intro hi
      rw [h.bytes i hi, h'.bytes i hi]
      by_cases hbpp : bpp = 0
      · rw [if_pos hbpp, if_pos hbpp]
      · rw [if_neg hbpp, if_neg hbpp,
          behind_congr fun _ => ih (i - bpp) (by omega) (by omega)]
  apply List.ext_getElem (h.length.trans h'.length.symm)
  intro i hi hi'
  have hbyte := hbytes i (h.length ▸ hi)
  rwa [List.getD_eq_getElem _ _ hi, List.getD_eq_getElem _ _ hi'] at hbyte

theorem getD_take {bytes : List UInt8} {i n : Nat} (h : i < n) :
    (bytes.take n).getD i 0 = bytes.getD i 0 := by
  rw [List.getD_eq_getElem?_getD, List.getD_eq_getElem?_getD, List.getElem?_take_of_lt h]

theorem IsRow.take (h : IsRow f bpp row above out) (n : Nat) :
    IsRow f bpp (row.take n) above (out.take n) where
  length := by rw [List.length_take, List.length_take, h.length]
  bytes := by
    intro i hi
    rw [List.length_take] at hi
    have hn : i < n := by omega
    have hbehind : behind (out.take n) i bpp = behind out i bpp :=
      behind_congr fun _ => getD_take (by omega)
    rw [getD_take hn, getD_take hn, hbehind]
    exact h.bytes i (by omega)

end Png.Proofs.Rows

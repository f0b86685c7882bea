import Png.Filter

namespace Png.Proofs.Prediction

variable {left above upperLeft : UInt8} {f : FilterType}

/-- How far a byte is from the estimate `left + above - upperLeft`, a number without bounds. -/
def distance (left above upperLeft x : UInt8) : Nat :=
  ((left.toNat : Int) + above.toNat - upperLeft.toNat - x.toNat).natAbs

/-- The first of the candidates that no other one is nearer than. -/
def IsFirstNearest (distance : UInt8 → Nat) (candidates : List UInt8) (v : UInt8) : Prop :=
  ∃ before after, candidates = before ++ v :: after ∧
    (∀ x ∈ before, distance v < distance x) ∧ ∀ x ∈ after, distance v ≤ distance x

/-- What the five filters expect a byte to be, said without their code. -/
def Predicts (left above upperLeft v : UInt8) : FilterType → Prop
  | .none => v = 0
  | .sub => v = left
  | .up => v = above
  | .average => v.toNat = (left.toNat + above.toNat) / 2
  | .paeth => IsFirstNearest (distance left above upperLeft) [left, above, upperLeft] v

theorem paeth_isFirstNearest (left above upperLeft : UInt8) :
    IsFirstNearest (distance left above upperLeft) [left, above, upperLeft]
      (paeth left above upperLeft) := by
  simp only [paeth]
  split
  · rename_i h
    refine ⟨[], [above, upperLeft], rfl, by simp, ?_⟩
    simpa [distance] using h
  · rename_i hleft
    split
    · rename_i habove
      refine ⟨[left], [upperLeft], rfl, ?_, ?_⟩
      · intro x hx
        obtain rfl := List.mem_singleton.mp hx
        simp only [distance]
        omega
      · simpa [distance] using habove
    · rename_i habove
      refine ⟨[left, above], [], rfl, ?_, by simp⟩
      intro x hx
      obtain rfl | hx := List.mem_cons.mp hx
      · simp only [distance]
        omega
      · obtain rfl := List.mem_singleton.mp hx
        simp only [distance]
        omega

theorem IsFirstNearest.unique {distance : UInt8 → Nat} {candidates : List UInt8} {v w : UInt8}
    (hv : IsFirstNearest distance candidates v) (hw : IsFirstNearest distance candidates w) :
    v = w := by
  obtain ⟨before, after, hsplit, hbefore, hafter⟩ := hv
  obtain ⟨before', after', hsplit', hbefore', hafter'⟩ := hw
  -- the one that comes first is as near as the other, so the other is not nearer than all before it
  obtain ⟨between, hb, ha⟩ | ⟨between, hb, ha⟩ :=
    List.append_eq_append_iff.mp (hsplit.symm.trans hsplit')
  · cases between with
    | nil => exact (List.cons.inj ha).1
    | cons x between =>
      obtain ⟨rfl, rfl⟩ := List.cons.inj ha
      have hle := hafter w (by simp)
      have hlt := hbefore' v (by simp [hb])
      omega
  · cases between with
    | nil => exact (List.cons.inj ha).1.symm
    | cons x between =>
      obtain ⟨rfl, rfl⟩ := List.cons.inj ha
      have hle := hafter' v (by simp)
      have hlt := hbefore w (by simp [hb])
      omega

theorem predicts_predict (f : FilterType) (left above upperLeft : UInt8) :
    Predicts left above upperLeft (f.predict left above upperLeft) f := by
  cases f with
  | none | sub | up => rfl
  | average =>
    have hl := left.toNat_lt
    have ha := above.toNat_lt
    exact UInt8.toNat_ofNat_of_lt' (by change _ < 256; omega)
  | paeth => exact paeth_isFirstNearest left above upperLeft

theorem predicts_iff {v : UInt8} :
    Predicts left above upperLeft v f ↔ v = f.predict left above upperLeft := by
  refine ⟨fun h => ?_, fun h => h ▸ predicts_predict f left above upperLeft⟩
  have hcode := predicts_predict f left above upperLeft
  cases f with
  | none | sub | up => exact h
  | average => exact UInt8.toNat_inj.mp (h.trans hcode.symm)
  | paeth => exact h.unique hcode

theorem paeth_zero (left : UInt8) : paeth left 0 0 = left := by
  simp only [paeth]
  rw [if_pos]
  constructor <;> simp

/-- On the first row a filter expects what it would expect below a row of zeros, and a filter that
does not look up expects the same below any row. -/
theorem predict_eq_predictFirst (left : UInt8)
    (h : f.readsAbove = true → above = 0 ∧ upperLeft = 0) :
    f.predict left above upperLeft = f.predictFirst left := by
  cases f with
  | none | sub => rfl
  | up =>
    obtain ⟨rfl, rfl⟩ := h rfl
    rfl
  | average =>
    obtain ⟨rfl, rfl⟩ := h rfl
    have hlt := left.toNat_lt
    have hzero : (0 : UInt8).toNat = 0 := rfl
    have htwo : (2 : UInt8).toNat = 2 := rfl
    apply UInt8.toNat_inj.mp
    rw [FilterType.predict, FilterType.predictFirst, UInt8.toNat_div, hzero, htwo, Nat.add_zero]
    exact UInt8.toNat_ofNat_of_lt' (by change _ < 256; omega)
  | paeth =>
    obtain ⟨rfl, rfl⟩ := h rfl
    exact paeth_zero left

theorem predict_congr {upperLeft upperLeft' a a' : UInt8} (left : UInt8)
    (h : f.readsAbove = true → a = a' ∧ upperLeft = upperLeft') :
    f.predict left a upperLeft = f.predict left a' upperLeft' := by
  cases f with
  | none | sub => rfl
  | up | average | paeth =>
    obtain ⟨rfl, rfl⟩ := h rfl
    rfl

end Png.Proofs.Prediction

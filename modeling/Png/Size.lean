namespace Png.Size

def limit : Nat := UInt64.size

/-- A number that is a length, which is a 64-bit word. -/
def ofNat? (n : Nat) : Option Nat :=
  if n < limit then some n else none

def add? (a b : Nat) : Option Nat := ofNat? (a + b)

def mul? (a b : Nat) : Option Nat := ofNat? (a * b)

theorem add?_of_lt {a b : Nat} (h : a + b < limit) : add? a b = some (a + b) := if_pos h

theorem mul?_of_lt {a b : Nat} (h : a * b < limit) : mul? a b = some (a * b) := if_pos h

theorem eq_of_ofNat? {n m : Nat} (h : ofNat? n = some m) : n < limit ∧ m = n := by
  rw [ofNat?] at h
  split at h
  · exact ⟨‹_›, (Option.some.inj h).symm⟩
  · cases h

theorem eq_of_add? {a b c : Nat} (h : add? a b = some c) : c = a + b :=
  (eq_of_ofNat? h).2

end Png.Size

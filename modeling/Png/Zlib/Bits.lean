import Png.Error

namespace Png.Zlib

abbrev Bits := List Bool

def byteBits (b : UInt8) : Bits :=
  (List.range 8).map b.toNat.testBit

def bitsOf (bytes : List UInt8) : Bits :=
  bytes.flatMap byteBits

@[simp] theorem length_byteBits (b : UInt8) : (byteBits b).length = 8 := by
  simp [byteBits]

@[simp] theorem length_bitsOf (bytes : List UInt8) : (bitsOf bytes).length = 8 * bytes.length := by
  induction bytes with
  | nil => rfl
  | cons b bytes ih =>
    simp only [bitsOf, List.flatMap_cons, List.length_append, length_byteBits,
      List.length_cons] at ih ⊢
    omega

/-- A step that takes its input off the front of the bits, or says why it cannot. Each byte gives
its least significant bit first. -/
abbrev Reader (α : Type) := StateT Bits (Except InflateError) α

namespace Reader

variable {α β : Type}

def fail (e : InflateError) : Reader α := fun _ => .error e

/-- When it succeeds, the reader has taken `n` bits or more. -/
def Takes (n : Nat) (r : Reader α) : Prop :=
  ∀ ⦃bits a rest⦄, r bits = .ok (a, rest) → rest.length + n ≤ bits.length

theorem Takes.mono {m n : Nat} {r : Reader α} (h : r.Takes n) (hmn : m ≤ n) : r.Takes m := by
  intro bits a rest hr
  have := h hr
  omega

theorem takes_pure (a : α) : Takes 0 (pure a : Reader α) := by
  intro bits a rest h
  cases h
  exact Nat.le_refl _

theorem takes_fail (n : Nat) (e : InflateError) : Takes n (fail e : Reader α) := by
  intro bits a rest h
  cases h

theorem bind_eq_ok {r : Reader α} {f : α → Reader β} {bits rest : Bits} {b : β}
    (h : (r >>= f) bits = .ok (b, rest)) :
    ∃ a mid, r bits = .ok (a, mid) ∧ f a mid = .ok (b, rest) := by
  change Except.bind (r bits) (fun p => f p.1 p.2) = _ at h
  cases hr : r bits with
  | error e => simp [hr, Except.bind] at h
  | ok p => exact ⟨p.1, p.2, rfl, by simpa [hr, Except.bind] using h⟩

theorem bind_of_ok {r : Reader α} {bits mid : Bits} {a : α} (h : r bits = .ok (a, mid))
    (f : α → Reader β) : (r >>= f) bits = f a mid := by
  change Except.bind (r bits) (fun p => f p.1 p.2) = _
  rw [h]
  rfl

theorem bind_of_error {r : Reader α} {bits : Bits} {e : InflateError} (h : r bits = .error e)
    (f : α → Reader β) : (r >>= f) bits = .error e := by
  change Except.bind (r bits) (fun p => f p.1 p.2) = _
  rw [h]
  rfl

theorem Takes.bind {m n : Nat} {r : Reader α} {f : α → Reader β} (hr : r.Takes m)
    (hf : ∀ a, (f a).Takes n) : (r >>= f).Takes (m + n) := by
  intro bits b rest h
  obtain ⟨a, mid, ha, hb⟩ := bind_eq_ok h
  have := hr ha
  have := hf a hb
  omega

theorem Takes.bind_left {n : Nat} {r : Reader α} {f : α → Reader β} (hr : r.Takes n)
    (hf : ∀ a, (f a).Takes 0) : (r >>= f).Takes n :=
  (hr.bind hf).mono (Nat.le_refl _)

theorem Takes.ite {n : Nat} {c : Prop} [Decidable c] {r s : Reader α} (hr : r.Takes n)
    (hs : s.Takes n) : (if c then r else s).Takes n := by
  split <;> assumption

end Reader

def readBit : Reader Bool
  | [] => .error .truncated
  | b :: bits => .ok (b, bits)

def readBits : Nat → Reader Nat
  | 0 => pure 0
  | n + 1 => do
    let bit ← readBit
    let value ← readBits n
    return bit.toNat + 2 * value

def readMany (width : Nat) : Nat → Reader (List Nat)
  | 0 => pure []
  | n + 1 => do
    let value ← readBits width
    let values ← readMany width n
    return value :: values

def align : Reader Unit := fun bits =>
  .ok ((), bits.drop (bits.length % 8))

theorem takes_readBit : readBit.Takes 1 := by
  intro bits b rest h
  cases bits with
  | nil => cases h
  | cons =>
    cases h
    exact Nat.le_refl _

theorem takes_readBits (n : Nat) : (readBits n).Takes n := by
  induction n with
  | zero => exact Reader.takes_pure 0
  | succ n ih =>
    refine Reader.Takes.mono (m := n + 1) (n := 1 + n) ?_ (by omega)
    exact takes_readBit.bind fun _ => ih.bind_left fun _ => Reader.takes_pure _

theorem takes_readMany (width n : Nat) : (readMany width n).Takes 0 := by
  induction n with
  | zero => exact Reader.takes_pure []
  | succ n ih =>
    exact ((takes_readBits width).mono (Nat.zero_le _)).bind_left fun _ =>
      ih.bind_left fun _ => Reader.takes_pure _

theorem takes_align : align.Takes 0 := by
  intro bits u rest h
  cases h
  simp

end Png.Zlib

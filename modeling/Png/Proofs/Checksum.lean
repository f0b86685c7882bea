import Mathlib.Algebra.BigOperators.Group.List.Basic
import Mathlib.Data.Nat.ModEq
import Mathlib.Tactic.Ring
import Png.Zlib.Adler

namespace Png.Proofs.Checksum

open Zlib

def byteSum (bytes : List UInt8) : Nat := (bytes.map UInt8.toNat).sum

/-- The sum of the bytes, each taken as often as there are bytes from it on. -/
def weightedSum : List UInt8 → Nat
  | [] => 0
  | b :: bytes => (bytes.length + 1) * b.toNat + weightedSum bytes

/-- One more than the sum of the bytes in the lower half, and in the upper half the sum of what that
was after each of them. -/
def adler32 (bytes : List UInt8) : Nat :=
  0x10000 * ((bytes.length + weightedSum bytes) % 65521) + (1 + byteSum bytes) % 65521

theorem foldl_add_lt (s : Adler) (hlow : s.low < Adler.modulus) (hhigh : s.high < Adler.modulus)
    (bytes : List UInt8) :
    (bytes.foldl Adler.add s).low < Adler.modulus ∧
      (bytes.foldl Adler.add s).high < Adler.modulus := by
  induction bytes generalizing s with
  | nil => exact ⟨hlow, hhigh⟩
  | cons b bytes ih => exact ih _ (Nat.mod_lt _ (by decide)) (Nat.mod_lt _ (by decide))

theorem foldl_add_modEq (s : Adler) (bytes : List UInt8) :
    (bytes.foldl Adler.add s).low ≡ s.low + byteSum bytes [MOD Adler.modulus] ∧
      (bytes.foldl Adler.add s).high ≡
        s.high + bytes.length * s.low + weightedSum bytes [MOD Adler.modulus] := by
  induction bytes generalizing s with
  | nil =>
    rw [List.length_nil, Nat.zero_mul]
    exact ⟨Nat.ModEq.rfl, Nat.ModEq.rfl⟩
  | cons b bytes ih =>
    obtain ⟨hlow, hhigh⟩ := ih (s.add b)
    have hlow' : (s.add b).low ≡ s.low + b.toNat [MOD Adler.modulus] := Nat.mod_modEq _ _
    have hhigh' : (s.add b).high ≡ s.high + (s.low + b.toNat) [MOD Adler.modulus] :=
      (Nat.mod_modEq _ _).trans (hlow'.add_left _)
    constructor
    · calc (bytes.foldl Adler.add (s.add b)).low
        _ ≡ (s.add b).low + byteSum bytes [MOD Adler.modulus] := hlow
        _ ≡ s.low + b.toNat + byteSum bytes [MOD Adler.modulus] := hlow'.add_right _
        _ = s.low + byteSum (b :: bytes) := by
          rw [byteSum, byteSum, List.map_cons, List.sum_cons, Nat.add_assoc]
    · calc (bytes.foldl Adler.add (s.add b)).high
        _ ≡ (s.add b).high + bytes.length * (s.add b).low + weightedSum bytes [MOD Adler.modulus] :=
          hhigh
        _ ≡ s.high + (s.low + b.toNat) + bytes.length * (s.low + b.toNat) + weightedSum bytes
            [MOD Adler.modulus] := (hhigh'.add (hlow'.mul_left _)).add_right _
        _ = s.high + (b :: bytes).length * s.low + weightedSum (b :: bytes) := by
          rw [weightedSum, List.length_cons]
          ring

theorem value_ofBytes (bytes : List UInt8) : (Adler.ofBytes bytes).value = adler32 bytes := by
  obtain ⟨hlow, hhigh⟩ := foldl_add_modEq {} bytes
  obtain ⟨hlow', hhigh'⟩ := foldl_add_lt {} (by decide) (by decide) bytes
  have hlow'' := (Nat.mod_eq_of_lt hlow').symm.trans hlow
  have hhigh'' := (Nat.mod_eq_of_lt hhigh').symm.trans hhigh
  rw [Nat.zero_add, Nat.mul_one] at hhigh''
  rw [Adler.value, Adler.ofBytes, hlow'', hhigh'']
  rfl

end Png.Proofs.Checksum

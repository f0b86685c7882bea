import Mathlib.Data.List.Basic
import Mathlib.Data.List.Induction
import Png.BigEndian
import Png.Picture.Packing
import Png.Proofs.Pieces

namespace Png.Proofs.BitOrder

open Packing Pieces

theorem bits_add (m n v : Nat) : bits (m + n) v = bits m (v >>> n) ++ bits n v := by
  have hhigh : v.testBit ∘ (n + ·) = (v >>> n).testBit := by
    funext i
    exact (Nat.testBit_shiftRight v).symm
  rw [bits, Nat.add_comm m n, List.range_add, List.reverse_append, List.map_append,
    ← List.map_reverse, List.map_map, hhigh]
  rfl

theorem bits_piece (v : Nat) {n i k : Nat} (h : i + k ≤ n) :
    ((bits n v).drop i).take k = bits k (v >>> (n - k - i)) := by
  obtain ⟨rest, rfl⟩ := Nat.exists_eq_add_of_le h
  have hrest : i + k + rest - k - i = rest := by omega
  have hdrop : (bits i (v >>> (k + rest)) ++ bits (k + rest) v).drop i = bits (k + rest) v :=
    List.drop_left' (length_bits _ _)
  rw [hrest, Nat.add_assoc, bits_add i, hdrop, bits_add k]
  exact List.take_left' (length_bits _ _)

theorem number_append_singleton (bs : List Bool) (b : Bool) :
    number (bs ++ [b]) = 2 * number bs + b.toNat := by
  rw [number, List.foldl_append]
  rfl

theorem number_append (bs cs : List Bool) :
    number (bs ++ cs) = number bs <<< cs.length + number cs := by
  induction cs using List.reverseRecOn with
  | nil => rw [List.append_nil]; rfl
  | append_singleton cs c ih =>
    rw [← List.append_assoc, number_append_singleton, number_append_singleton, ih,
      List.length_append, List.length_singleton, Nat.shiftLeft_succ]
    omega

theorem number_bits (n v : Nat) : number (bits n v) = v % 1 <<< n := by
  induction n generalizing v with
  | zero => exact (Nat.mod_one v).symm
  | succ n ih =>
    have hlast : (v.testBit 0).toNat = v % 2 := by
      rw [Nat.toNat_testBit, Nat.pow_zero, Nat.div_one]
    have hbits : bits (n + 1) v = bits n (v / 2) ++ [v.testBit 0] := bits_add n 1 v
    rw [hbits, number_append_singleton, ih, hlast, Nat.shiftLeft_succ, Nat.mod_mul, Nat.add_comm]

theorem bits_number (bs : List Bool) : bits bs.length (number bs) = bs := by
  induction bs using List.reverseRecOn with
  | nil => rfl
  | append_singleton bs b ih =>
    have hbits := bits_add bs.length 1 (number (bs ++ [b]))
    have hhalf : number (bs ++ [b]) >>> 1 = number bs := by
      have hbit := b.toNat_lt
      change number (bs ++ [b]) / 2 = _
      rw [number_append_singleton]
      omega
    have hlast : bits 1 (number (bs ++ [b])) = [b] := by
      rw [number_append_singleton]
      cases b <;> simp [bits, Nat.testBit_zero]
    rw [List.length_append, List.length_singleton, hbits, hhalf, ih, hlast]

theorem number_lt (bs : List Bool) : number bs < 1 <<< bs.length := by
  have hpos : 0 < 1 <<< bs.length := by
    rw [Nat.one_shiftLeft]
    exact Nat.two_pow_pos _
  have hmod := number_bits bs.length (number bs)
  rw [bits_number] at hmod
  rw [hmod]
  exact Nat.mod_lt _ hpos

theorem byte_bits (b : UInt8) : UInt8.ofNat (number (bits 8 b.toNat)) = b := by
  have hmod : b.toNat % 1 <<< 8 = b.toNat := Nat.mod_eq_of_lt b.toNat_lt
  rw [number_bits, hmod, UInt8.ofNat_toNat]

theorem bits_byte {bs : List Bool} (h : bs.length = 8) :
    bits 8 (UInt8.ofNat (number bs)).toNat = bs := by
  have hlt := number_lt bs
  rw [h] at hlt
  rw [UInt8.toNat_ofNat_of_lt' hlt, ← h, bits_number]

@[simp] theorem length_bitsOf (bytes : List UInt8) :
    (bitsOf bytes).length = bytes.length * 8 := by
  rw [bitsOf, length_flatMap fun b : UInt8 => length_bits 8 b.toNat]

theorem byte_of_bits {bytes : List UInt8} {i : Nat} {b : UInt8} (hb : bytes[i]? = some b) :
    ((bitsOf bytes).drop (i * 8)).take 8 = bits 8 b.toNat := by
  rw [bitsOf, piece_flatMap (fun b : UInt8 => length_bits 8 b.toNat) hb]

theorem bytesOf_bitsOf (bytes : List UInt8) : bytesOf (bitsOf bytes) = bytes := by
  apply List.ext_getElem
  · rw [length_bytesOf, length_bitsOf, Nat.mul_div_cancel _ (by decide)]
  · intro i hi hbytes
    simp only [bytesOf, List.getElem_map, List.getElem_range]
    rw [byte_of_bits (List.getElem?_eq_getElem hbytes), byte_bits]

theorem bitsOf_bytesOf {bs : List Bool} (h : bs.length % 8 = 0) : bitsOf (bytesOf bs) = bs := by
  have hbytes : ∀ i ∈ List.range (bs.length / 8),
      bits 8 (UInt8.ofNat (number ((bs.drop (i * 8)).take 8))).toNat =
        (bs.drop (i * 8)).take 8 := by
    intro i hi
    have hlt := List.mem_range.mp hi
    apply bits_byte
    rw [List.length_take, List.length_drop]
    omega
  rw [bitsOf, bytesOf, List.flatMap_map, List.flatMap_congr hbytes, flatMap_pieces]
  exact List.take_of_length_le (by omega)

theorem number_bitsOf (bytes : List UInt8) : number (bitsOf bytes) = BigEndian.value bytes := by
  induction bytes using List.reverseRecOn with
  | nil => rfl
  | append_singleton bytes b ih =>
    have hbyte : number (bits 8 b.toNat) = b.toNat := by
      rw [number_bits]
      exact Nat.mod_eq_of_lt b.toNat_lt
    have hvalue : BigEndian.value (bytes ++ [b]) = 256 * BigEndian.value bytes + b.toNat := by
      rw [BigEndian.value, List.foldl_append]
      rfl
    rw [bitsOf, List.flatMap_append, List.flatMap_singleton, number_append, hbyte, length_bits,
      ← bitsOf, ih, hvalue, Nat.shiftLeft_eq, Nat.mul_comm]

end Png.Proofs.BitOrder

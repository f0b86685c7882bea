namespace Png.BigEndian

def value (bytes : List UInt8) : Nat :=
  bytes.foldl (fun n b => 256 * n + b.toNat) 0

/-- The word spelled by the first four bytes. -/
def word (bytes : List UInt8) : UInt32 :=
  UInt32.ofNat (value (bytes.take 4))

def ofWord (w : UInt32) : List UInt8 :=
  [UInt8.ofNat (w.toNat / 0x1000000), UInt8.ofNat (w.toNat / 0x10000),
    UInt8.ofNat (w.toNat / 0x100), UInt8.ofNat w.toNat]

@[simp] theorem length_ofWord (w : UInt32) : (ofWord w).length = 4 := rfl

@[simp] theorem word_ofWord (w : UInt32) (rest : List UInt8) : word (ofWord w ++ rest) = w := by
  have h := w.toNat_lt
  apply UInt32.toNat_inj.mp
  simp only [word, value, ofWord, List.cons_append, List.nil_append, List.take_succ_cons,
    List.take_zero, List.foldl_cons, List.foldl_nil, UInt8.toNat_ofNat', UInt32.toNat_ofNat']
  omega

theorem ofWord_word {bytes : List UInt8} (h : 4 ≤ bytes.length) :
    ofWord (word bytes) = bytes.take 4 := by
  match bytes, h with
  | a :: b :: c :: d :: rest, _ =>
    have ha := a.toNat_lt
    have hb := b.toNat_lt
    have hc := c.toNat_lt
    have hd := d.toNat_lt
    simp only [word, value, ofWord, List.take_succ_cons, List.take_zero, List.foldl_cons,
      List.foldl_nil, UInt32.toNat_ofNat', List.cons.injEq, and_true]
    refine ⟨?_, ?_, ?_, ?_⟩ <;> apply UInt8.toNat_inj.mp <;> rw [UInt8.toNat_ofNat'] <;> omega

end Png.BigEndian

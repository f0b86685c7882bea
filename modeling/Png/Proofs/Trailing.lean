import Png.Inflater

namespace Png.Proofs.Trailing

open Zlib

variable {α β : Type} {r : Reader α} {f : α → Reader β}

/-- Whole bytes behind those it takes are left alone by a reader that succeeds. -/
def IgnoresTail (r : Reader α) : Prop :=
  ∀ ⦃bits a rest⦄, r bits = .ok (a, rest) → ∀ more : Bits, more.length % 8 = 0 →
    r (bits ++ more) = .ok (a, rest ++ more)

namespace IgnoresTail

theorem pure (a : α) : IgnoresTail (pure a : Reader α) := by
  intro bits a rest h more _
  cases h
  rfl

theorem fail (e : InflateError) : IgnoresTail (Reader.fail e : Reader α) := by
  intro bits a rest h
  cases h

theorem bind (hr : IgnoresTail r) (hf : ∀ a, IgnoresTail (f a)) : IgnoresTail (r >>= f) := by
  intro bits b rest h more hmore
  obtain ⟨a, mid, ha, hb⟩ := Reader.bind_eq_ok h
  rw [Reader.bind_of_ok (hr ha more hmore)]
  exact hf a hb more hmore

theorem ite {c : Prop} [Decidable c] {s : Reader α} (hr : IgnoresTail r) (hs : IgnoresTail s) :
    IgnoresTail (if c then r else s) := by
  split <;> assumption

theorem readBit : IgnoresTail readBit := by
  intro bits b rest h more _
  cases bits with
  | nil => cases h
  | cons =>
    cases h
    rfl

theorem readBits (n : Nat) : IgnoresTail (readBits n) := by
  induction n with
  | zero => exact pure 0
  | succ n ih => exact readBit.bind fun _ => ih.bind fun _ => pure _

theorem readMany (width n : Nat) : IgnoresTail (readMany width n) := by
  induction n with
  | zero => exact pure []
  | succ n ih => exact (readBits width).bind fun _ => ih.bind fun _ => pure _

theorem align : IgnoresTail align := by
  intro bits u rest h more hmore
  cases h
  -- Whole bytes behind the bits do not move the boundary, which is counted from the end.
  have hphase : (bits ++ more).length % 8 = bits.length % 8 := by
    rw [List.length_append]
    omega
  rw [Zlib.align, hphase, List.drop_append_of_le_length (Nat.mod_le _ _)]

theorem codewords (w : Codewords) : IgnoresTail w.read := by
  induction w with
  | gap => exact fail _
  | symbol s => exact pure s
  | fork zero one ih₀ ih₁ => exact readBit.bind fun _ => ite ih₁ ih₀

theorem code (c : Code) : IgnoresTail c.read :=
  readBit.bind fun _ => ite (codewords c.one) (codewords c.zero)

theorem readEntry (table : Array (Nat × Nat)) (index : Nat) :
    IgnoresTail (readEntry table index) := by
  unfold Zlib.readEntry
  split
  · exact fail _
  · exact (readBits _).bind fun _ => pure _

theorem readSymbol (codes : Codes) : IgnoresTail (readSymbol codes) := by
  refine (code codes.literals).bind fun symbol => ite (pure _) (ite (pure _) ?_)
  exact (readEntry _ _).bind fun _ => (code codes.distances).bind fun _ =>
    (readEntry _ _).bind fun _ => pure _

theorem readStoredBytes (room n : Nat) (out : Array UInt8) :
    IgnoresTail (readStoredBytes room n out) := by
  induction n generalizing out with
  | zero => exact pure out
  | succ n ih => exact ite ((readBits 8).bind fun _ => ih _) (fail _)

theorem readStored (room : Nat) (out : Array UInt8) : IgnoresTail (readStored room out) :=
  align.bind fun _ => (readBits 16).bind fun _ => (readBits 16).bind fun _ =>
    ite (readStoredBytes room _ out) (fail _)

theorem readSymbols (codes : Codes) (room : Nat) (out : Array UInt8) :
    IgnoresTail (readSymbols codes room out) := by
  intro bits out' rest h more hmore
  fun_induction Zlib.readSymbols codes room out bits with
  | case1 => cases h
  | case2 out bits rest' hs =>
    cases h
    exact readSymbols_of_end (readSymbol codes hs more hmore) room _
  | case3 => cases h
  | case4 out bits symbol rest' hsymbol hs out' hwrite ih =>
    rw [readSymbols_of_symbol (readSymbol codes hs more hmore) hsymbol, hwrite]
    exact ih h

theorem readRepeat (symbol : Nat) (last : Option Nat) : IgnoresTail (readRepeat symbol last) := by
  unfold Zlib.readRepeat
  split
  · exact fail _
  all_goals exact (readBits _).bind fun _ => pure _

theorem readLength (c : Code) (lengths : Array Nat) : IgnoresTail (readLength c lengths) := by
  refine (code c).bind fun symbol => ite (pure _) ?_
  exact (readRepeat symbol _).bind fun _ => pure _

theorem readLengths (c : Code) (total : Nat) (lengths : Array Nat) :
    IgnoresTail (readLengths c total lengths) := by
  intro bits lengths' rest h more hmore
  fun_induction Zlib.readLengths c total lengths bits with
  | case1 => cases h
  | case2 lengths bits hlt lengths' rest' hl ih =>
    rw [Zlib.readLengths, if_pos hlt, readLength c _ hl more hmore]
    exact ih h
  | case3 lengths bits hlt heq =>
    cases h
    rw [Zlib.readLengths, if_neg hlt, if_pos heq]
  | case4 => cases h

theorem codes (literals distances : List Nat) : IgnoresTail (Codes.ofLengths literals distances) :=
  ite (pure _) (fail _)

theorem readCodesOfSize (literals distances given : Nat) :
    IgnoresTail (readCodesOfSize literals distances given) :=
  (readMany 3 given).bind fun _ => ite ((readLengths _ _ _).bind fun _ => codes _ _) (fail _)

theorem readCodes : IgnoresTail readCodes :=
  (readBits 5).bind fun _ => (readBits 5).bind fun _ => (readBits 4).bind fun _ =>
    ite (readCodesOfSize _ _ _) (fail _)

theorem readBlock (kind room : Nat) (out : Array UInt8) :
    IgnoresTail (readBlock kind room out) := by
  unfold Zlib.readBlock
  split
  · exact readStored room out
  · exact readSymbols _ room out
  · exact readCodes.bind fun _ => readSymbols _ room out
  · exact fail _

theorem readBlocks (room : Nat) (out : Array UInt8) : IgnoresTail (readBlocks room out) := by
  intro bits out' rest h more hmore
  fun_induction Zlib.readBlocks room out bits with
  | case1 => cases h
  | case2 => cases h
  | case3 out bits head rest' hhead out' rest'' hblock hlast =>
    cases h
    rw [readBlocks_of_head (readBits 3 hhead more hmore), readBlock _ room out hblock more hmore]
    exact if_pos hlast
  | case4 out bits head rest' hhead out' rest'' hblock hlast ih =>
    rw [readBlocks_of_head (readBits 3 hhead more hmore), readBlock _ room out hblock more hmore]
    exact (if_neg hlast).trans (ih h)

theorem readChecksum : IgnoresTail readChecksum :=
  align.bind fun _ => (readMany 8 4).bind fun _ => pure _

theorem readBody (room : Nat) : IgnoresTail (readBody room) :=
  (readBlocks room #[]).bind fun _ => readChecksum.bind fun _ => ite (pure _) (fail _)

end IgnoresTail

theorem bitsOf_append (xs ys : List UInt8) : bitsOf (xs ++ ys) = bitsOf xs ++ bitsOf ys :=
  List.flatMap_append

variable {room : Nat} {input : List UInt8} {stream : Stream}

theorem exists_body (h : Zlib.inflate room input = .ok stream) :
    ∃ method flags body out rest, input = method :: flags :: body ∧ isHead method flags = true ∧
      readBody room (bitsOf body) = .ok (out, rest) ∧
      stream = { output := out.toList, unread := rest.length / 8 } := by
  rw [Zlib.inflate.eq_def] at h
  split at h
  · rename_i method flags body
    split at h
    · rename_i hhead
      split at h
      · cases h
      · rename_i out rest hbody
        cases h
        exact ⟨method, flags, body, out, rest, rfl, hhead, hbody, rfl⟩
    · cases h
  · cases h

theorem ne_nil_of_inflate (h : Zlib.inflate room input = .ok stream) : input ≠ [] := by
  obtain ⟨method, flags, body, -, -, rfl, -⟩ := exists_body h
  exact List.cons_ne_nil _ _

theorem inflate_append (h : Zlib.inflate room input = .ok stream) (more : List UInt8) :
    Zlib.inflate room (input ++ more) =
      .ok { stream with unread := stream.unread + more.length } := by
  obtain ⟨method, flags, body, out, rest, rfl, hhead, hbody, rfl⟩ := exists_body h
  have hmore : (bitsOf more).length % 8 = 0 := by
    rw [length_bitsOf]
    exact Nat.mul_mod_right 8 _
  have hall := IgnoresTail.readBody room hbody (bitsOf more) hmore
  have hunread : (rest ++ bitsOf more).length / 8 = rest.length / 8 + more.length := by
    rw [List.length_append, length_bitsOf]
    omega
  rw [← bitsOf_append] at hall
  rw [List.cons_append, List.cons_append, Zlib.inflate, if_pos hhead, hall]
  dsimp only
  rw [hunread]

end Png.Proofs.Trailing

import Png.Proofs.Trailing

namespace Png.Proofs.Room

open Zlib

variable {α β : Type} {size : α → Nat} {least : Nat} {w : Nat → Except InflateError α}

/-- A step that has put out `least` bytes and is given some room in all. Where it succeeds, room
decides no more than whether it does. -/
def FillsRoom (size : α → Nat) (least : Nat) (w : Nat → Except InflateError α) : Prop :=
  ∀ ⦃n a⦄, w n = .ok a → least ≤ size a ∧
    ∀ m, least ≤ m → w m = if size a ≤ m then .ok a else .error .outputOverflow

def written (p : Array UInt8 × Bits) : Nat := p.1.size

namespace FillsRoom

theorem ok (size : α → Nat) (a : α) : FillsRoom size (size a) fun _ => .ok a := by
  intro n b h
  cases h
  exact ⟨Nat.le_refl _, fun m hm => (if_pos hm).symm⟩

theorem error (size : α → Nat) (least : Nat) (e : InflateError) :
    FillsRoom size least fun _ => .error e := by
  intro n a h
  cases h

theorem guard (h : FillsRoom size (least + 1) w) :
    FillsRoom size least fun n => if least < n then w n else .error .outputOverflow := by
  intro n a ha
  dsimp only at ha
  split at ha
  · obtain ⟨hle, hroom⟩ := h ha
    refine ⟨Nat.le_of_succ_le hle, fun m hm => ?_⟩
    by_cases hlt : least < m
    · exact (if_pos hlt).trans (hroom m hlt)
    · exact (if_neg hlt).trans (if_neg (by omega)).symm
  · cases ha

theorem bind {size' : β → Nat} {v : α → Nat → Except InflateError β} (hw : FillsRoom size least w)
    (hv : ∀ ⦃n a⦄, w n = .ok a → FillsRoom size' (size a) (v a)) :
    FillsRoom size' least fun n => (w n).bind fun a => v a n := by
  intro n b hb
  cases ha : w n with
  | error e =>
    dsimp only at hb
    rw [ha] at hb
    cases hb
  | ok a =>
    dsimp only at hb
    rw [ha] at hb
    obtain ⟨hleast, hroom⟩ := hw ha
    obtain ⟨hsize, hroom'⟩ := hv ha hb
    refine ⟨Nat.le_trans hleast hsize, fun m hm => ?_⟩
    dsimp only
    rw [hroom m hm]
    -- Room that is too little for the first step is too little for both.
    by_cases hfits : size a ≤ m
    · rw [if_pos hfits]
      exact hroom' m hfits
    · rw [if_neg hfits, if_neg (fun h => hfits (Nat.le_trans hsize h))]
      rfl

theorem afterRead (r : Reader α) {f : α → Nat → Reader (Array UInt8)} (bits : Bits)
    (h : ∀ a mid, FillsRoom written least fun n => f a n mid) :
    FillsRoom written least fun n => (r >>= fun a => f a n) bits := by
  cases hr : r bits with
  | error e =>
    have hall : (fun n => (r >>= fun a => f a n) bits) = fun _ => .error e :=
      funext fun n => Reader.bind_of_error hr _
    rw [hall]
    exact error written least e
  | ok p =>
    have hall : (fun n => (r >>= fun a => f a n) bits) = fun n => f p.1 n p.2 :=
      funext fun n => Reader.bind_of_ok hr _
    rw [hall]
    exact h p.1 p.2

theorem orFail {c : Prop} [Decidable c] {f : Nat → Reader (Array UInt8)} {bits : Bits}
    (h : FillsRoom written least fun n => f n bits) (e : InflateError) :
    FillsRoom written least fun n => (if c then f n else Reader.fail e) bits := by
  by_cases hc : c
  · simpa only [if_pos hc] using h
  · simp only [if_neg hc]
    exact error written least e

theorem emit (out : Array UInt8) (b : UInt8) :
    FillsRoom Array.size out.size fun n => emit n out b := by
  have h := ok Array.size (out.push b)
  rw [Array.size_push] at h
  exact h.guard

theorem emitCopy (distance length : Nat) (out : Array UInt8) :
    FillsRoom Array.size out.size fun n => emitCopy n distance length out := by
  induction length generalizing out with
  | zero => exact ok Array.size out
  | succ length ih => exact (emit out _).bind fun _ out' _ => ih out'

theorem write (symbol : Symbol) (out : Array UInt8) :
    FillsRoom Array.size out.size fun n => symbol.write n out := by
  cases symbol with
  | literal b => exact emit out b
  | endOfBlock => exact ok Array.size out
  | copy length distance =>
    by_cases hdistance : distance ≤ out.size
    · simp only [Symbol.write, if_pos hdistance]
      exact emitCopy distance length out
    · simp only [Symbol.write, if_neg hdistance]
      exact error _ _ _

theorem readStoredBytes (length : Nat) (out : Array UInt8) (bits : Bits) :
    FillsRoom written out.size fun n => readStoredBytes n length out bits := by
  induction length generalizing out bits with
  | zero => exact ok written (out, bits)
  | succ length ih =>
    have hmore : FillsRoom written (out.size + 1) fun n =>
        (readBits 8 >>= fun value =>
          Zlib.readStoredBytes n length (out.push (UInt8.ofNat value))) bits := by
      apply afterRead
      intro value mid
      have h := ih (out.push (UInt8.ofNat value)) mid
      rwa [Array.size_push] at h
    have hall : (fun n => Zlib.readStoredBytes n (length + 1) out bits) = fun n =>
        if out.size < n then (readBits 8 >>= fun value =>
          Zlib.readStoredBytes n length (out.push (UInt8.ofNat value))) bits
        else .error .outputOverflow := by
      funext n
      rw [Zlib.readStoredBytes]
      split <;> rfl
    rw [hall]
    exact hmore.guard

theorem readStored (out : Array UInt8) (bits : Bits) :
    FillsRoom written out.size fun n => readStored n out bits := by
  apply afterRead
  intro _ mid
  apply afterRead
  intro length mid
  apply afterRead
  intro complement mid
  exact (readStoredBytes length out mid).orFail _

theorem readSymbols (codes : Codes) (out : Array UInt8) (bits : Bits) :
    FillsRoom written out.size fun n => readSymbols codes n out bits := by
  -- Every symbol takes a bit at least, whatever the room.
  induction hlength : bits.length using Nat.strongRecOn generalizing out bits with
  | ind length ih =>
    cases hsymbol : readSymbol codes bits with
    | error e =>
      simp only [readSymbols_of_error hsymbol]
      exact error written out.size e
    | ok p =>
      obtain ⟨symbol, rest⟩ := p
      by_cases hend : symbol = .endOfBlock
      · subst hend
        simp only [readSymbols_of_end hsymbol]
        exact ok written (out, rest)
      · have hshorter := takes_readSymbol codes hsymbol
        simp only [readSymbols_of_symbol hsymbol hend]
        exact (write symbol out).bind fun _ out' _ => ih rest.length (by omega) out' rest rfl

theorem readBlock (kind : Nat) (out : Array UInt8) (bits : Bits) :
    FillsRoom written out.size fun n => readBlock kind n out bits := by
  unfold Zlib.readBlock
  split
  · exact readStored out bits
  · exact readSymbols .fixed out bits
  · apply afterRead
    intro codes mid
    exact readSymbols codes out mid
  · exact error written out.size _

theorem readBlocks (out : Array UInt8) (bits : Bits) :
    FillsRoom written out.size fun n => readBlocks n out bits := by
  induction hlength : bits.length using Nat.strongRecOn generalizing out bits with
  | ind length ih =>
    cases hhead : readBits 3 bits with
    | error e =>
      simp only [readBlocks_of_error hhead]
      exact error written out.size e
    | ok p =>
      obtain ⟨head, rest⟩ := p
      simp only [readBlocks_of_head hhead]
      apply (readBlock (head / 2) out rest).bind
      intro n p hp
      have hshorter := takes_readBits 3 hhead
      have hblock := takes_readBlock (head / 2) n out hp
      by_cases hlast : head % 2 = 1
      · simp only [if_pos hlast]
        exact ok written p
      · simp only [if_neg hlast]
        exact ih p.2.length (by omega) p.1 p.2 rfl

theorem readBody (bits : Bits) : FillsRoom written 0 fun n => readBody n bits := by
  apply (readBlocks #[] bits).bind
  intro n p _
  apply afterRead
  intro checksum mid
  exact (ok written (p.1, mid)).orFail _

end FillsRoom

variable {room : Nat} {input : List UInt8} {stream : Stream}

theorem inflate_room (h : Zlib.inflate room input = .ok stream) (m : Nat) :
    Zlib.inflate m input =
      if stream.output.length ≤ m then .ok stream else .error .outputOverflow := by
  obtain ⟨method, flags, body, out, rest, rfl, hhead, hbody, rfl⟩ := Trailing.exists_body h
  obtain ⟨-, hroom⟩ := FillsRoom.readBody (bitsOf body) hbody
  have hm := hroom m (Nat.zero_le m)
  dsimp only at hm
  rw [Zlib.inflate, if_pos hhead, hm]
  change _ = if out.size ≤ m then _ else _
  by_cases hfits : out.size ≤ m
  · rw [if_pos hfits, if_pos (show written (out, rest) ≤ m from hfits)]
  · rw [if_neg hfits, if_neg (show ¬ written (out, rest) ≤ m from hfits)]

end Png.Proofs.Room

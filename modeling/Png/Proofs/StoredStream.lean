import Png.Proofs.Checksum
import Png.Proofs.Trailing
import Png.Zlib.Stored

namespace Png.Proofs.StoredStream

open Checksum Trailing Zlib

variable {room : Nat} {out : Array UInt8} {bytes : List UInt8} {rest : Bits}

def value : Bits → Nat
  | [] => 0
  | b :: bits => b.toNat + 2 * value bits

theorem readBits_append (bits rest : Bits) :
    readBits bits.length (bits ++ rest) = .ok (value bits, rest) := by
  induction bits with
  | nil => rfl
  | cons b bits ih =>
    have hbit : readBit (b :: (bits ++ rest)) = .ok (b, bits ++ rest) := rfl
    rw [List.length_cons, List.cons_append, readBits, Reader.bind_of_ok hbit, Reader.bind_of_ok ih]
    rfl

theorem byteBits_eq (b : UInt8) :
    byteBits b = [b.toNat.testBit 0, b.toNat.testBit 1, b.toNat.testBit 2, b.toNat.testBit 3,
      b.toNat.testBit 4, b.toNat.testBit 5, b.toNat.testBit 6, b.toNat.testBit 7] := rfl

theorem value_byteBits_append (b : UInt8) (bits : Bits) :
    value (byteBits b ++ bits) = b.toNat + 256 * value bits := by
  have hlt := b.toNat_lt
  simp only [byteBits_eq, List.cons_append, List.nil_append, value, Nat.toNat_testBit]
  omega

theorem readBits_byte (b : UInt8) (rest : Bits) :
    readBits 8 (byteBits b ++ rest) = .ok (b.toNat, rest) := by
  have h := readBits_append (byteBits b) rest
  have hvalue := value_byteBits_append b []
  rw [List.append_nil, value, Nat.mul_zero, Nat.add_zero] at hvalue
  rw [length_byteBits, hvalue] at h
  exact h

theorem bitsOf_cons (b : UInt8) (bytes : List UInt8) :
    bitsOf (b :: bytes) = byteBits b ++ bitsOf bytes := rfl

theorem readBits_littleEndian {n : Nat} (h : n ≤ 65535) (rest : Bits) :
    readBits 16 (bitsOf (Stored.littleEndian n) ++ rest) = .ok (n, rest) := by
  have hread := readBits_append (bitsOf (Stored.littleEndian n)) rest
  have hvalue : value (bitsOf (Stored.littleEndian n)) = n := by
    have hlow : (UInt8.ofNat n).toNat = n % 256 := UInt8.toNat_ofNat'
    have hhigh : (UInt8.ofNat (n / 256)).toNat = n / 256 % 256 := UInt8.toNat_ofNat'
    rw [Stored.littleEndian, bitsOf_cons, bitsOf_cons, value_byteBits_append,
      value_byteBits_append, hlow, hhigh]
    change n % 256 + 256 * (n / 256 % 256 + 256 * 0) = n
    omega
  have hlength : (bitsOf (Stored.littleEndian n)).length = 16 := length_bitsOf _
  rw [hvalue, hlength] at hread
  exact hread

theorem readStoredBytes_append (out : Array UInt8) (h : out.size + bytes.length ≤ room)
    (rest : Bits) :
    readStoredBytes room bytes.length out (bitsOf bytes ++ rest) =
      .ok (out ++ bytes.toArray, rest) := by
  induction bytes generalizing out with
  | nil =>
    rw [Array.append_empty]
    rfl
  | cons b bytes ih =>
    rw [List.length_cons] at h
    have hroom : out.size < room := by omega
    have hrest : (out.push b).size + bytes.length ≤ room := by
      rw [Array.size_push]
      omega
    have hpush : out.push b ++ bytes.toArray = out ++ (b :: bytes).toArray := by
      apply Array.ext'
      simp
    rw [List.length_cons, bitsOf_cons, List.append_assoc, readStoredBytes, if_pos hroom,
      Reader.bind_of_ok (readBits_byte b _), UInt8.ofNat_toNat, ih (out.push b) hrest, hpush]

theorem align_append (padding : Bits) (hpadding : padding.length < 8)
    (hrest : rest.length % 8 = 0) : align (padding ++ rest) = .ok ((), rest) := by
  have hphase : (padding ++ rest).length % 8 = padding.length := by
    rw [List.length_append]
    omega
  rw [align, hphase, List.drop_left]

theorem length_bitsOf_append (bytes : List UInt8) (hrest : rest.length % 8 = 0) :
    (bitsOf bytes ++ rest).length % 8 = 0 := by
  rw [List.length_append, length_bitsOf]
  omega

theorem readStored_append (padding : Bits) (hpadding : padding.length < 8)
    (hbytes : bytes.length ≤ 65535) (hroom : out.size + bytes.length ≤ room)
    (hrest : rest.length % 8 = 0) :
    readStored room out (padding ++ (bitsOf (Stored.littleEndian bytes.length) ++
        (bitsOf (Stored.littleEndian (65535 - bytes.length)) ++ (bitsOf bytes ++ rest)))) =
      .ok (out ++ bytes.toArray, rest) := by
  have haligned := align_append padding hpadding
    (length_bitsOf_append (Stored.littleEndian bytes.length)
      (length_bitsOf_append (Stored.littleEndian (65535 - bytes.length))
        (length_bitsOf_append bytes hrest)))
  have hcomplement : bytes.length + (65535 - bytes.length) = 65535 := by omega
  rw [readStored, Reader.bind_of_ok haligned, Reader.bind_of_ok (readBits_littleEndian hbytes _),
    Reader.bind_of_ok (readBits_littleEndian (Nat.sub_le _ _) _), if_pos hcomplement]
  exact readStoredBytes_append out hroom rest

theorem readBlocks_block (last : Bool) (hbytes : bytes.length ≤ 65535)
    (hroom : out.size + bytes.length ≤ room) (hrest : rest.length % 8 = 0) :
    readBlocks room out (bitsOf (Stored.block last bytes) ++ rest) =
      if last then .ok (out ++ bytes.toArray, rest)
      else readBlocks room (out ++ bytes.toArray) rest := by
  have hbits : bitsOf (Stored.block last bytes) ++ rest = [last, false, false] ++
      (List.replicate 5 false ++ (bitsOf (Stored.littleEndian bytes.length) ++
        (bitsOf (Stored.littleEndian (65535 - bytes.length)) ++ (bitsOf bytes ++ rest)))) := by
    have hhead : byteBits (if last then 1 else 0) = [last, false, false] ++
        List.replicate 5 false := by
      cases last <;> decide
    rw [Stored.block, List.cons_append, List.cons_append, bitsOf_cons, bitsOf_append,
      bitsOf_append, hhead]
    simp only [List.append_assoc]
  have hstored := readStored_append (List.replicate 5 false) (by decide) hbytes hroom hrest
  rw [hbits, readBlocks_of_head (readBits_append [last, false, false] _)]
  cases last with
  | false | true =>
    change (readStored room out _).bind _ = _
    rw [hstored]
    rfl

theorem readBlocks_blocks (earlier : List (List UInt8)) (final : List UInt8)
    (hbytes : ∀ block ∈ earlier ++ [final], block.length ≤ 65535)
    (hroom : out.size + (earlier ++ [final]).flatten.length ≤ room) (hrest : rest.length % 8 = 0) :
    readBlocks room out (bitsOf (Stored.blocks earlier final) ++ rest) =
      .ok (out ++ (earlier ++ [final]).flatten.toArray, rest) := by
  induction earlier generalizing out with
  | nil =>
    have hfinal : Stored.blocks [] final = Stored.block true final := rfl
    rw [List.nil_append, List.flatten_singleton] at hroom ⊢
    rw [hfinal, readBlocks_block true (hbytes final (by simp)) hroom hrest, if_pos rfl]
  | cons block earlier ih =>
    have hsplit : Stored.blocks (block :: earlier) final =
        Stored.block false block ++ Stored.blocks earlier final := by
      simp only [Stored.blocks, List.flatMap_cons, List.append_assoc]
    rw [List.cons_append, List.flatten_cons, List.length_append] at hroom
    have hrest' := length_bitsOf_append (Stored.blocks earlier final) hrest
    have hfirst : out.size + block.length ≤ room := by omega
    have hlater : (out ++ block.toArray).size + (earlier ++ [final]).flatten.length ≤ room := by
      simp only [Array.size_append, List.size_toArray]
      omega
    have hall : out ++ block.toArray ++ (earlier ++ [final]).flatten.toArray =
        out ++ (block :: earlier ++ [final]).flatten.toArray := by
      apply Array.ext'
      simp
    rw [hsplit, bitsOf_append, List.append_assoc,
      readBlocks_block false (hbytes block (by simp)) hfirst hrest', if_neg Bool.false_ne_true,
      ih (fun b hb => hbytes b (by simp [hb])) hlater, hall]

theorem readMany_bytes (bytes : List UInt8) (rest : Bits) :
    readMany 8 bytes.length (bitsOf bytes ++ rest) = .ok (bytes.map UInt8.toNat, rest) := by
  induction bytes with
  | nil => rfl
  | cons b bytes ih =>
    rw [List.length_cons, bitsOf_cons, List.append_assoc, readMany,
      Reader.bind_of_ok (readBits_byte b _), Reader.bind_of_ok ih]
    rfl

theorem value_ofWord (w : UInt32) : BigEndian.value (BigEndian.ofWord w) = w.toNat := by
  have h := w.toNat_lt
  simp only [BigEndian.value, BigEndian.ofWord, List.foldl_cons, List.foldl_nil,
    UInt8.toNat_ofNat']
  omega

theorem readChecksum_ofWord (w : UInt32) (hrest : rest.length % 8 = 0) :
    readChecksum (bitsOf (BigEndian.ofWord w) ++ rest) = .ok (w.toNat, rest) := by
  have haligned := align_append [] (by decide)
    (length_bitsOf_append (BigEndian.ofWord w) hrest)
  have hbytes := readMany_bytes (BigEndian.ofWord w) rest
  have hback : (BigEndian.ofWord w).map (UInt8.ofNat ∘ UInt8.toNat) = BigEndian.ofWord w := by
    simp [Function.comp_def]
  rw [List.nil_append] at haligned
  rw [BigEndian.length_ofWord] at hbytes
  rw [readChecksum, Reader.bind_of_ok haligned, Reader.bind_of_ok hbytes, List.map_map, hback,
    value_ofWord]
  rfl

/-- A stream that is stored: a head that is in order and blocks that are short enough for their
length fields. -/
structure Parts where
  method : UInt8
  flags : UInt8
  earlier : List (List UInt8)
  final : List UInt8
  multiple : (256 * method.toNat + flags.toNat) % 31 = 0
  deflated : method.toNat % 16 = 8
  window : method.toNat / 16 ≤ 7
  noDictionary : flags.toNat.testBit 5 = false
  fits : ∀ block ∈ earlier ++ [final], block.length ≤ 65535

namespace Parts

def content (s : Parts) : List UInt8 := (s.earlier ++ [s.final]).flatten

def toBytes (s : Parts) (checksum : UInt32) : List UInt8 :=
  Stored.stream s.method s.flags s.earlier s.final checksum

end Parts

def threeBlocks : Parts where
  method := 0x78
  flags := 0x01
  earlier := [[0], []]
  final := [42, 2, 7]
  multiple := by decide
  deflated := by decide
  window := by decide
  noDictionary := by decide
  fits := by decide

theorem isHead_parts (s : Parts) : isHead s.method s.flags = true := by
  simp [isHead, s.multiple, s.deflated, s.window, s.noDictionary]

theorem readBody_parts (s : Parts) (checksum : UInt32) (hroom : s.content.length ≤ room)
    (hrest : rest.length % 8 = 0) :
    readBody room (bitsOf (Stored.blocks s.earlier s.final ++ BigEndian.ofWord checksum) ++ rest) =
      if checksum.toNat = adler32 s.content then .ok (s.content.toArray, rest)
      else .error .corrupt := by
  have hempty : (#[] : Array UInt8).size + s.content.length ≤ room := by
    rwa [Array.size_empty, Nat.zero_add]
  have hblocks := readBlocks_blocks s.earlier s.final s.fits hempty
    (length_bitsOf_append (BigEndian.ofWord checksum) hrest)
  have hcontent : (s.earlier ++ [s.final]).flatten = s.content := rfl
  rw [Array.empty_append, hcontent] at hblocks
  rw [bitsOf_append, List.append_assoc, readBody, Reader.bind_of_ok hblocks,
    Reader.bind_of_ok (readChecksum_ofWord checksum hrest), value_ofBytes]
  by_cases h : checksum.toNat = adler32 s.content
  · rw [if_pos h, if_pos h]
    rfl
  · rw [if_neg h, if_neg h]
    rfl

theorem inflate_parts (s : Parts) (checksum : UInt32) (more : List UInt8)
    (hroom : s.content.length ≤ room) :
    Zlib.inflate room (s.toBytes checksum ++ more) =
      if checksum.toNat = adler32 s.content then
        .ok { output := s.content, unread := more.length }
      else .error .corrupt := by
  have hmore : (bitsOf more).length % 8 = 0 := by
    rw [length_bitsOf]
    exact Nat.mul_mod_right 8 _
  have hbody := readBody_parts s checksum hroom hmore
  rw [← bitsOf_append] at hbody
  rw [Parts.toBytes, Stored.stream, List.cons_append, List.cons_append, List.cons_append,
    List.cons_append, Zlib.inflate, if_pos (isHead_parts s), hbody]
  by_cases h : checksum.toNat = adler32 s.content
  · rw [if_pos h, if_pos h]
    dsimp only
    rw [length_bitsOf, Nat.mul_div_cancel_left _ (by decide)]
  · rw [if_neg h, if_neg h]

end Png.Proofs.StoredStream

import Png.Zlib.Symbol

namespace Png.Zlib

/-- Stored bytes, each of which needs room before it needs input. -/
def readStoredBytes (room : Nat) : Nat → Array UInt8 → Reader (Array UInt8)
  | 0, out => pure out
  | n + 1, out =>
    if out.size < room then do
      let value ← readBits 8
      readStoredBytes room n (out.push (UInt8.ofNat value))
    else .fail .outputOverflow

def readStored (room : Nat) (out : Array UInt8) : Reader (Array UInt8) := do
  align
  let length ← readBits 16
  let complement ← readBits 16
  if length + complement = 65535 then readStoredBytes room length out
  else .fail .corrupt

def readSymbols (codes : Codes) (room : Nat) (out : Array UInt8) : Reader (Array UInt8) :=
  fun bits =>
    match _h : readSymbol codes bits with
    | .error e => .error e
    | .ok (.endOfBlock, rest) => .ok (out, rest)
    | .ok (symbol, rest) =>
      match symbol.write room out with
      | .error e => .error e
      | .ok out => readSymbols codes room out rest
termination_by bits => bits.length
decreasing_by exact takes_readSymbol codes _h

theorem readSymbols_of_error {codes : Codes} {bits : Bits} {e : InflateError}
    (h : readSymbol codes bits = .error e) (room : Nat) (out : Array UInt8) :
    readSymbols codes room out bits = .error e := by
  rw [readSymbols, h]

theorem readSymbols_of_end {codes : Codes} {bits rest : Bits}
    (h : readSymbol codes bits = .ok (.endOfBlock, rest)) (room : Nat) (out : Array UInt8) :
    readSymbols codes room out bits = .ok (out, rest) := by
  rw [readSymbols, h]

theorem readSymbols_of_symbol {codes : Codes} {bits rest : Bits} {symbol : Symbol}
    (h : readSymbol codes bits = .ok (symbol, rest)) (hne : symbol ≠ .endOfBlock) (room : Nat)
    (out : Array UInt8) : readSymbols codes room out bits =
      (symbol.write room out).bind fun out => readSymbols codes room out rest := by
  rw [readSymbols, h]
  cases symbol with
  | endOfBlock => exact absurd rfl hne
  | literal b =>
    dsimp only
    cases (Symbol.literal b).write room out <;> rfl
  | copy length distance =>
    dsimp only
    cases (Symbol.copy length distance).write room out <;> rfl

/-- The order in which a description gives the codeword lengths of its own code. -/
def lengthOrder : List Nat :=
  [16, 17, 18, 0, 8, 7, 9, 6, 10, 5, 11, 4, 12, 3, 13, 2, 14, 1, 15]

def inSymbolOrder (given : List Nat) : List Nat :=
  (List.range 19).map fun symbol => given.getD (lengthOrder.idxOf symbol) 0

/-- What one of the symbols 16, 17 and 18 repeats, and how often. Symbol 16 repeats the last
length, so it cannot come first. -/
def readRepeat (symbol : Nat) (last : Option Nat) : Reader (Nat × Nat) :=
  match symbol, last with
  | 16, none => .fail .corrupt
  | 16, some length => do return (length, 3 + (← readBits 2))
  | 17, _ => do return (0, 3 + (← readBits 3))
  | _, _ => do return (0, 11 + (← readBits 7))

def readLength (c : Code) (lengths : Array Nat) : Reader (Array Nat) := do
  let symbol ← c.read
  if symbol < 16 then return lengths.push symbol
  else
    let (length, times) ← readRepeat symbol lengths.back?
    return lengths ++ Array.replicate times length

theorem takes_readRepeat (symbol : Nat) (last : Option Nat) :
    (readRepeat symbol last).Takes 0 := by
  unfold readRepeat
  split
  · exact Reader.takes_fail 0 _
  all_goals
    exact ((takes_readBits _).mono (Nat.zero_le _)).bind_left fun _ => Reader.takes_pure _

theorem takes_readLength (c : Code) (lengths : Array Nat) : (readLength c lengths).Takes 1 := by
  refine c.takes_read.bind_left fun symbol => .ite (Reader.takes_pure _) ?_
  exact (takes_readRepeat symbol _).bind_left fun _ => Reader.takes_pure _

def readLengths (c : Code) (total : Nat) (lengths : Array Nat) : Reader (Array Nat) :=
  fun bits =>
    if lengths.size < total then
      match _h : readLength c lengths bits with
      | .error e => .error e
      | .ok (lengths, rest) => readLengths c total lengths rest
    else if lengths.size = total then .ok (lengths, bits)
    else .error .corrupt
termination_by bits => bits.length
decreasing_by exact takes_readLength c _ _h

def Codes.ofLengths (literals distances : List Nat) : Reader Codes :=
  if Code.isUsable literals ∧ Code.isUsable distances then
    return { literals := .ofLengths literals, distances := .ofLengths distances }
  else .fail .corrupt

def readCodesOfSize (literals distances given : Nat) : Reader Codes := do
  let given ← readMany 3 given
  let widths := inSymbolOrder given
  if Code.isComplete widths then
    let lengths ← readLengths (.ofLengths widths) (literals + distances) #[]
    Codes.ofLengths (lengths.toList.take literals) (lengths.toList.drop literals)
  else .fail .corrupt

def readCodes : Reader Codes := do
  let literals ← readBits 5
  let distances ← readBits 5
  let given ← readBits 4
  if literals + 257 ≤ 286 ∧ distances + 1 ≤ 30 then
    readCodesOfSize (literals + 257) (distances + 1) (given + 4)
  else .fail .corrupt

theorem takes_readStoredBytes (room n : Nat) (out : Array UInt8) :
    (readStoredBytes room n out).Takes 0 := by
  induction n generalizing out with
  | zero => exact Reader.takes_pure out
  | succ n ih =>
    exact .ite (((takes_readBits 8).mono (Nat.zero_le _)).bind_left fun _ => ih _)
      (Reader.takes_fail 0 _)

theorem takes_readStored (room : Nat) (out : Array UInt8) : (readStored room out).Takes 0 :=
  takes_align.bind_left fun _ =>
    ((takes_readBits 16).mono (Nat.zero_le _)).bind_left fun _ =>
      ((takes_readBits 16).mono (Nat.zero_le _)).bind_left fun _ =>
        .ite (takes_readStoredBytes _ _ _) (Reader.takes_fail 0 _)

theorem takes_readSymbols (codes : Codes) (room : Nat) (out : Array UInt8) :
    (readSymbols codes room out).Takes 0 := by
  intro bits out' rest h
  fun_induction readSymbols codes room out bits with
  | case1 => cases h
  | case2 _ _ _ hs =>
    cases h
    have := takes_readSymbol codes hs
    omega
  | case3 => cases h
  | case4 _ _ _ _ _ hs _ _ ih =>
    have := takes_readSymbol codes hs
    have := ih h
    omega

theorem takes_readLengths (c : Code) (total : Nat) (lengths : Array Nat) :
    (readLengths c total lengths).Takes 0 := by
  intro bits lengths' rest h
  fun_induction readLengths c total lengths bits with
  | case1 => cases h
  | case2 _ _ _ _ _ hl ih =>
    have := takes_readLength c _ hl
    have := ih h
    omega
  | case3 =>
    cases h
    exact Nat.le_refl _
  | case4 => cases h

theorem takes_readCodes : readCodes.Takes 0 := by
  refine ((takes_readBits 5).mono (Nat.zero_le _)).bind_left fun literals => ?_
  refine ((takes_readBits 5).mono (Nat.zero_le _)).bind_left fun distances => ?_
  refine ((takes_readBits 4).mono (Nat.zero_le _)).bind_left fun given => ?_
  refine .ite ?_ (Reader.takes_fail 0 _)
  refine (takes_readMany 3 _).bind_left fun given => .ite ?_ (Reader.takes_fail 0 _)
  exact (takes_readLengths _ _ _).bind_left fun lengths =>
    .ite (Reader.takes_pure _) (Reader.takes_fail 0 _)

def readBlock (kind room : Nat) (out : Array UInt8) : Reader (Array UInt8) :=
  match kind with
  | 0 => readStored room out
  | 1 => readSymbols .fixed room out
  | 2 => do
    let codes ← readCodes
    readSymbols codes room out
  | _ => .fail .corrupt

theorem takes_readBlock (kind room : Nat) (out : Array UInt8) :
    (readBlock kind room out).Takes 0 := by
  unfold readBlock
  split
  · exact takes_readStored room out
  · exact takes_readSymbols _ room out
  · exact takes_readCodes.bind_left fun _ => takes_readSymbols _ room out
  · exact Reader.takes_fail 0 _

end Png.Zlib

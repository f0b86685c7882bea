import Png.Proofs.ImageData
import Png.Proofs.Observation
import Png.Proofs.Reconstruction

namespace Png.Proofs.Precedence

open ImageData Observation Reconstruction Sizes

inductive Step where
  | budget
  | head
  | pixelCount
  | size
  | datastream
  | rows
  | inflater
  | count
  | filters
  deriving DecidableEq, Repr

def Step.setup : List Step :=
  [.budget, .head, .pixelCount, .size, .datastream, .rows]

def Step.verdict : List Step :=
  [.inflater, .count, .filters]

def Step.all : List Step :=
  Step.setup ++ Step.verdict

def imageData (data : List UInt8) (head : Head) : List UInt8 :=
  (payloads data (chunksOf (Walk.startingAt data head.next).items)).flatten

def answer (inflater : Inflater) (data : List UInt8) (head : Head) :
    Except InflateError Inflated :=
  inflater.inflate (imageData data head) (.zeroed (filteredSize head.layout))

/-- The one call of the inflater that there may be, with a slice of zeros for the filtered rows. -/
def callOf (inflater : Inflater) (data : List UInt8) (head : Head) : Call where
  input := imageData data head
  slice := .zeroed (filteredSize head.layout)
  answer := answer inflater data head

def output (head : Head) (inflated : Inflated) : List UInt8 :=
  ((Slice.zeroed (filteredSize head.layout)).overwrite inflated.written).toList

/-- What a step says of a file whose head is known, whatever the steps before it say. -/
def objection (budget : UInt64) (inflater : Inflater) (data : List UInt8) (head : Head) :
    Step → Option DecodeError
  | .budget | .head => none
  | .pixelCount =>
    if budget.toNat < head.layout.width.toNat * head.layout.height.toNat then some .outOfMemory
    else none
  | .size => if Size.limit ≤ filteredSize head.layout then some .outOfMemory else none
  | .datastream =>
    match Datastream.find .ample data head.next with
    | .error failure => some failure.error
    | .ok _ => none
  | .rows => if Memory.limit ≤ filteredSize head.layout then some .outOfMemory else none
  | .inflater =>
    match answer inflater data head with
    | .error .outOfMemory => some .outOfMemory
    | .error _ => some (.malformed .decompress)
    | .ok _ => none
  | .count =>
    match answer inflater data head with
    | .error _ => none
    | .ok inflated =>
      if inflated.produced ≠ filteredSize head.layout then some (.malformed .decompress) else none
  | .filters =>
    match answer inflater data head with
    | .error _ => none
    | .ok inflated =>
      if ∃ y < head.layout.height.toNat,
          4 < tagAt (Sizes.stride head.layout) (output head inflated) y then
        some (.malformed .defilter)
      else none

/-- What a step says of a file, whatever the steps before it say. -/
def refusal (budget : UInt64) (inflater : Inflater) (data : List UInt8) (step : Step) :
    Option DecodeError :=
  match step, Head.ofBytes data with
  | .budget, _ => if budget = 0 then some .invalidArgument else none
  | .head, .error failure => some failure.error
  | _, .error _ => none
  | step, .ok head => objection budget inflater data head step

/-- What a decode of a file comes to: the call of the inflater, the result, and the picture. -/
structure IsOutcome (budget : UInt64) (inflater : Inflater) (data : List UInt8)
    (call : Option Call) (result : Except DecodeError Unit) (p : Picture) : Prop where
  result : errorOf result = Step.all.findSome? (refusal budget inflater data)
  error : p.error = Step.all.findSome? (refusal budget inflater data)
  layout : p.layout =
    if budget = 0 then none else (Head.ofBytes data).toOption.map (·.layout)
  failed : Step.all.findSome? (refusal budget inflater data) ≠ none → p.pixels = none
  decoded : Step.all.findSome? (refusal budget inflater data) = none →
    ∃ head inflated pixels, Head.ofBytes data = .ok head ∧
      answer inflater data head = .ok inflated ∧
      reconstruct head.layout (output head inflated) = .ok pixels ∧ p.pixels = some pixels
  notCalled : Step.setup.findSome? (refusal budget inflater data) ≠ none → call = none
  called : Step.setup.findSome? (refusal budget inflater data) = none →
    ∃ head, Head.ofBytes data = .ok head ∧
      call = some (callOf inflater data head)

variable {budget : UInt64} {inflater : Inflater} {data : List UInt8} {head : Head}

def room : List Step :=
  [.pixelCount, .size, .datastream, .rows]

theorem setup_of_head (inflater : Inflater) (hbudget : budget ≠ 0)
    (hhead : Head.ofBytes data = .ok head) :
    Step.setup.findSome? (refusal budget inflater data) =
      room.findSome? (objection budget inflater data head) := by
  simp only [Step.setup, room, List.findSome?, refusal, hhead, if_neg hbudget, objection]

theorem all_of_head (inflater : Inflater) (hbudget : budget ≠ 0)
    (hhead : Head.ofBytes data = .ok head) :
    Step.all.findSome? (refusal budget inflater data) =
      (room.findSome? (objection budget inflater data head)).or
        (Step.verdict.findSome? (objection budget inflater data head)) := by
  rw [Step.all, List.findSome?_append, setup_of_head inflater hbudget hhead]
  simp only [Step.verdict, List.findSome?, refusal, hhead]

theorem lt_pixelCount_iff (budget : UInt64) (l : Layout) :
    budget < l.pixelCount ↔ budget.toNat < l.width.toNat * l.height.toNat := by
  rw [UInt64.lt_iff_toNat_lt, toNat_pixelCount]

theorem not_lt_pixelCount {l : Layout} :
    ¬ budget < l.pixelCount ↔ l.width.toNat * l.height.toNat ≤ budget.toNat := by
  rw [lt_pixelCount_iff, Nat.not_lt]

theorem observe_runBody_refused {e : DecodeError}
    (h : room.findSome? (objection budget inflater data head) = some e) :
    observe (Decoder.runBody { budget, inflater } data head) =
      ⟨some head.layout, none, .error e⟩ := by
  rw [Decoder.runBody]
  by_cases hcount : budget.toNat < head.layout.width.toNat * head.layout.height.toNat
  · simp only [room, List.findSome?, objection, if_pos hcount] at h
    cases h
    rw [if_pos ((lt_pixelCount_iff budget head.layout).mpr hcount)]
    rfl
  · rw [if_neg (mt (lt_pixelCount_iff budget head.layout).mp hcount)]
    by_cases hsize : Size.limit ≤ filteredSize head.layout
    · simp only [room, List.findSome?, objection, if_neg hcount, if_pos hsize] at h
      cases h
      rw [filteredSize?_of_le hsize]
      rfl
    · rw [filteredSize?_of_lt (Nat.not_le.mp hsize)]
      dsimp only
      cases hfind : Datastream.find .ample data head.next with
      | error failure =>
        simp only [room, List.findSome?, objection, if_neg hcount, if_neg hsize, hfind] at h
        cases h
        rfl
      | ok stream =>
        simp only [room, List.findSome?, objection, if_neg hcount, if_neg hsize, hfind] at h
        by_cases hroom : Memory.limit ≤ filteredSize head.layout
        · rw [if_pos hroom] at h
          cases h
          dsimp only
          rw [if_neg (fun hlt => Nat.not_lt.mpr hroom hlt.1)]
          rfl
        · rw [if_neg hroom] at h
          cases h

theorem observe_runBody_called
    (h : room.findSome? (objection budget inflater data head) = none) :
    filteredSize head.layout < Size.limit ∧
      observe (Decoder.runBody { budget, inflater } data head) =
        ⟨some head.layout, some (callOf inflater data head),
          ((callOf inflater data head).pixels head.layout).mapError Failure.error⟩ := by
  have hnone := List.findSome?_eq_none_iff.mp h
  have hcount := hnone .pixelCount (by decide)
  have hsize := hnone .size (by decide)
  have hdata := hnone .datastream (by decide)
  have hrows := hnone .rows (by decide)
  simp only [objection, ite_eq_right_iff, reduceCtorEq, imp_false] at hcount hsize hrows
  cases hfind : Datastream.find .ample data head.next with
  | error failure =>
    simp only [objection, hfind] at hdata
    cases hdata
  | ok stream =>
    have hbytes : stream.bytes = imageData data head := (bytes_of_find hfind).1
    have hmore : ¬ budget < head.layout.pixelCount := mt (lt_pixelCount_iff budget _).mp hcount
    refine ⟨Nat.not_le.mp hsize, ?_⟩
    rw [observe_runBody_call hmore (filteredSize?_of_lt (Nat.not_le.mp hsize)) hfind
      ⟨Nat.not_le.mp hrows, rfl⟩, inflate_ample, hbytes]
    rfl

theorem length_output (head : Head) (inflated : Inflated) :
    (output head inflated).length = filteredSize head.layout := by
  rw [output, Slice.toList_overwrite, List.length_append, List.length_take, List.length_drop,
    Slice.length_toList, size_zeroed]
  omega

theorem pixels_callOf (inflater : Inflater) (data : List UInt8) (head : Head) :
    (callOf inflater data head).pixels head.layout =
      match answer inflater data head with
      | .error cause => .error (.inflate cause)
      | .ok inflated =>
        if inflated.produced = filteredSize head.layout then
          reconstruct head.layout (output head inflated)
        else .error (.wrongCount inflated.produced (filteredSize head.layout)) := by
  have hslice : (callOf inflater data head).slice = .zeroed (filteredSize head.layout) := rfl
  rw [Call.pixels, hslice, size_zeroed]
  rfl

theorem pixels_refused {e : DecodeError} (hsize : filteredSize head.layout < Size.limit)
    (h : Step.verdict.findSome? (objection budget inflater data head) = some e) :
    ((callOf inflater data head).pixels head.layout).mapError Failure.error = .error e := by
  rw [pixels_callOf]
  cases hanswer : answer inflater data head with
  | error cause =>
    simp only [Step.verdict, List.findSome?, objection, hanswer] at h
    cases cause <;> cases h <;> rfl
  | ok inflated =>
    simp only [Step.verdict, List.findSome?, objection, hanswer] at h
    dsimp only
    by_cases hcount : inflated.produced = filteredSize head.layout
    · rw [if_neg (not_not_intro hcount)] at h
      rw [if_pos hcount]
      by_cases htag : ∃ y < head.layout.height.toNat,
          4 < tagAt (Sizes.stride head.layout) (output head inflated) y
      · rw [if_pos htag] at h
        cases h
        obtain ⟨y, hy, hlarge⟩ := htag
        obtain ⟨tag, row, hrec⟩ := reconstruct_tag hsize (length_output head inflated) hy hlarge
        rw [hrec]
        rfl
      · rw [if_neg htag] at h
        cases h
    · rw [if_pos hcount] at h
      cases h
      rw [if_neg hcount]
      rfl

theorem pixels_decoded (hsize : filteredSize head.layout < Size.limit)
    (h : Step.verdict.findSome? (objection budget inflater data head) = none) :
    ∃ inflated pixels, answer inflater data head = .ok inflated ∧
      reconstruct head.layout (output head inflated) = .ok pixels ∧
      (callOf inflater data head).pixels head.layout = .ok pixels := by
  have hnone := List.findSome?_eq_none_iff.mp h
  have hinflater := hnone .inflater (by decide)
  have hcount := hnone .count (by decide)
  have hfilters := hnone .filters (by decide)
  rw [pixels_callOf]
  cases hanswer : answer inflater data head with
  | error cause =>
    simp only [objection, hanswer] at hinflater
    cases cause <;> cases hinflater
  | ok inflated =>
    simp only [objection, hanswer, ite_eq_right_iff, reduceCtorEq, imp_false, not_not]
      at hcount hfilters
    have htags : ∀ y < head.layout.height.toNat,
        ¬ 4 < tagAt (Sizes.stride head.layout) (output head inflated) y :=
      fun y hy hlarge => hfilters ⟨y, hy, hlarge⟩
    obtain ⟨pixels, hpixels, -⟩ := reconstruct_ok hsize (length_output head inflated) htags
    refine ⟨inflated, pixels, rfl, hpixels, ?_⟩
    dsimp only
    rw [if_pos hcount, hpixels]

theorem isOutcome_refused {e : DecodeError} {layout : Option Layout} {call : Option Call}
    (hall : Step.all.findSome? (refusal budget inflater data) = some e)
    (hlayout : layout = if budget = 0 then none else (Head.ofBytes data).toOption.map (·.layout))
    (hsetup : Step.setup.findSome? (refusal budget inflater data) ≠ none → call = none)
    (hcalled : Step.setup.findSome? (refusal budget inflater data) = none →
      ∃ head, Head.ofBytes data = .ok head ∧ call = some (callOf inflater data head)) :
    IsOutcome budget inflater data call (.error e)
      { layout, pixels := none, error := some e } where
  result := hall.symm
  error := hall.symm
  layout := hlayout
  failed := fun _ => rfl
  decoded := fun hnone => by
    rw [hall] at hnone
    cases hnone
  notCalled := hsetup
  called := hcalled

theorem isOutcome_setup {e : DecodeError} {layout : Option Layout}
    (hsetup : Step.setup.findSome? (refusal budget inflater data) = some e)
    (hlayout : layout =
      if budget = 0 then none else (Head.ofBytes data).toOption.map (·.layout)) :
    IsOutcome budget inflater data none (.error e)
      { layout, pixels := none, error := some e } := by
  have hall : Step.all.findSome? (refusal budget inflater data) = some e := by
    rw [Step.all, List.findSome?_append, hsetup, Option.some_or]
  refine isOutcome_refused hall hlayout (fun _ => rfl) fun hnone => ?_
  rw [hsetup] at hnone
  cases hnone

theorem isOutcome_observe (budget : UInt64) (inflater : Inflater) (data : List UInt8) :
    IsOutcome budget inflater data (observe (Decoder.run { budget, inflater } data)).call
      ((observe (Decoder.run { budget, inflater } data)).result.map fun _ => ())
      (picture (observe (Decoder.run { budget, inflater } data))) := by
  by_cases hbudget : budget = 0
  · rw [observe_run_zero hbudget]
    refine isOutcome_setup ?_ (if_pos hbudget).symm
    simp only [Step.setup, List.findSome?, refusal, if_pos hbudget]
  · cases hhead : Head.ofBytes data with
    | error failure =>
      rw [observe_run_head hbudget hhead]
      refine isOutcome_setup ?_ ?_
      · simp only [Step.setup, List.findSome?, refusal, if_neg hbudget, hhead]
      · rw [if_neg hbudget, hhead]
        rfl
    | ok head =>
      -- From here on the head is known, and every later step looks at that head.
      rw [run_head hbudget hhead]
      have hsetup := setup_of_head inflater hbudget hhead
      have hall := all_of_head inflater hbudget hhead
      have hlayout : some head.layout =
          if budget = 0 then none else (Head.ofBytes data).toOption.map (·.layout) := by
        rw [if_neg hbudget, hhead]
        rfl
      cases hroom : room.findSome? (objection budget inflater data head) with
      | some e =>
        rw [observe_runBody_refused hroom]
        exact isOutcome_setup (hsetup.trans hroom) hlayout
      | none =>
        obtain ⟨hsize, hbody⟩ := observe_runBody_called hroom
        rw [hroom, Option.none_or] at hall
        rw [hbody]
        have hsome : Step.setup.findSome? (refusal budget inflater data) ≠ none →
            some (callOf inflater data head) = none := fun h => absurd (hsetup.trans hroom) h
        cases hverdict : Step.verdict.findSome? (objection budget inflater data head) with
        | some e =>
          rw [pixels_refused hsize hverdict]
          exact isOutcome_refused (hall.trans hverdict) hlayout hsome
            fun _ => ⟨head, hhead, rfl⟩
        | none =>
          obtain ⟨inflated, pixels, hanswer, hpixels, hcall⟩ := pixels_decoded hsize hverdict
          rw [hcall]
          exact
            { result := (hall.trans hverdict).symm
              error := (hall.trans hverdict).symm
              layout := hlayout
              failed := fun h => absurd (hall.trans hverdict) h
              decoded := fun _ => ⟨head, inflated, pixels, hhead, hanswer, hpixels, rfl⟩
              notCalled := hsome
              called := fun _ => ⟨head, hhead, rfl⟩ }

theorem observe_run_congr {other : Inflater} (h : ∀ head, Head.ofBytes data = .ok head →
      answer other data head = answer inflater data head) (budget : UInt64) :
    observe (Decoder.run { budget, inflater := other } data) =
      observe (Decoder.run { budget, inflater } data) := by
  by_cases hbudget : budget = 0
  · rw [observe_run_zero hbudget, observe_run_zero hbudget]
  · cases hhead : Head.ofBytes data with
    | error failure => rw [observe_run_head hbudget hhead, observe_run_head hbudget hhead]
    | ok head =>
      have hcall : callOf other data head = callOf inflater data head := by
        rw [callOf, callOf, h head hhead]
      have hsame : room.findSome? (objection budget other data head) =
          room.findSome? (objection budget inflater data head) := rfl
      rw [run_head hbudget hhead, run_head hbudget hhead]
      cases hroom : room.findSome? (objection budget inflater data head) with
      | some e => rw [observe_runBody_refused hroom, observe_runBody_refused (hsame.trans hroom)]
      | none =>
        rw [(observe_runBody_called hroom).2, (observe_runBody_called (hsame.trans hroom)).2, hcall]

/-- With memory for all it asks for, loading a file ends with the error of the first step that
refuses the file, whatever the picture held before. Inflaters that answer alike to the one call
there may be make no difference. -/
theorem load_outcome (budget : UInt64) (inflater : Inflater) (data : List UInt8) (p : Picture) :
    IsOutcome budget inflater data (Decoder.run { budget, inflater } data).call
        (p.load { budget, inflater } data).1 (p.load { budget, inflater } data).2 ∧
      ∀ other : Inflater, (∀ head, Head.ofBytes data = .ok head →
          answer other data head = answer inflater data head) →
        p.load { budget, inflater := other } data = p.load { budget, inflater } data := by
  rw [load_eq]
  refine ⟨isOutcome_observe budget inflater data, fun other h => ?_⟩
  rw [load_eq, observe_run_congr h budget]

end Png.Proofs.Precedence

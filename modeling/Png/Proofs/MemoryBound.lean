import Png.Proofs.Budget
import Png.Proofs.Collection
import Png.Proofs.Delivery
import Png.Proofs.HeadVerdict
import Png.Proofs.Shortage

namespace Png.Proofs.MemoryBound

open Acceptance Budget Collection Consistency Container Delivery HeadVerdict ImageData Observation
  Precedence Shortage Sizes WholeChunks

variable {dec : Decoder} {data : List UInt8} {head : Head} {c : Call} {failure : Failure}
  {memory : Memory} {offset : Nat}

/-- A decode gets as far as the compressed data: it ends for what is wrong with them, or it has
them. -/
def ComesToData (dec : Decoder) (data : List UInt8) : Prop :=
  ∃ head, Head.ofBytes data = .ok head ∧
    match Datastream.find dec.memory data head.next with
    | .error failure => (dec.run data).result = .error failure
    | .ok stream => (dec.run data).stream = some stream

/-- A decode is out of memory before it has looked for the compressed data. -/
structure RunsOutEarly (dec : Decoder) (data : List UInt8) : Prop where
  outOfMemory : ∃ failure, (dec.run data).result = .error failure ∧ failure.error = .outOfMemory
  early : ¬ ComesToData dec data

structure IsBounded (dec : Decoder) (data : List UInt8) : Prop where
  slice : ∀ c, (dec.run data).call = some c → ∃ l, (dec.run data).layout = some l ∧
    l.filteredSize? = some c.slice.size ∧ 2 * l.height.toNat ≤ c.slice.size ∧
    c.slice.size ≤ 9 * (l.width.toNat * l.height.toNat) ∧
    9 * (l.width.toNat * l.height.toNat) ≤ 9 * dec.budget.toNat
  pixels : ∀ p q : Picture, p.load dec data = (.ok (), q) → q.size ≤ 8 * dec.budget.toNat
  lengths : dec.budget.toNat ≤ 0x1000000000000000 → ∀ head, Head.ofBytes data = .ok head →
    head.layout.width.toNat * head.layout.height.toNat ≤ dec.budget.toNat →
    head.layout.stride?.isSome ∧ head.layout.filteredSize?.isSome ∧ head.layout.pixelSize?.isSome
  early : dec.budget.toNat ≤ 0x1000000000000000 → (RunsOutEarly dec data ↔
    dec.budget ≠ 0 ∧ ∃ head, Head.ofBytes data = .ok head ∧
      dec.budget.toNat < head.layout.width.toNat * head.layout.height.toNat)

theorem runBody_call (h : (dec.runBody data head).call = some c) :
    ¬ dec.budget < head.layout.pixelCount ∧ head.layout.filteredSize? = some c.slice.size := by
  rw [Decoder.runBody] at h
  by_cases hcount : dec.budget < head.layout.pixelCount
  · rw [if_pos hcount] at h
    cases h
  refine ⟨hcount, ?_⟩
  rw [if_neg hcount] at h
  cases hsize : head.layout.filteredSize? with
  | none =>
    rw [hsize] at h
    cases h
  | some size =>
    rw [hsize] at h
    cases hfind : Datastream.find dec.memory data head.next with
    | error failure =>
      rw [hfind] at h
      cases h
    | ok stream =>
      rw [hfind] at h
      dsimp only at h
      split at h
      · cases h
        exact congrArg some (size_zeroed size).symm
      · cases h

theorem exists_head_of_call (h : (dec.run data).call = some c) :
    ∃ head, dec.budget ≠ 0 ∧ Head.ofBytes data = .ok head ∧
      ¬ dec.budget < head.layout.pixelCount ∧
      head.layout.filteredSize? = some c.slice.size := by
  by_cases hbudget : dec.budget = 0
  · rw [Decoder.run, if_pos hbudget] at h
    cases h
  cases hhead : Head.ofBytes data with
  | error failure =>
    rw [Decoder.run, if_neg hbudget, hhead] at h
    cases h
  | ok head =>
    rw [run_head hbudget hhead] at h
    exact ⟨head, hbudget, rfl, runBody_call h⟩

theorem size_bounds (h : Head.ofBytes data = .ok head) :
    2 * head.layout.height.toNat ≤ filteredSize head.layout ∧
      filteredSize head.layout ≤
        9 * (head.layout.width.toNat * head.layout.height.toNat) ∧
      pixelSize head.layout ≤ 8 * (head.layout.width.toNat * head.layout.height.toNat) := by
  obtain ⟨width, height, format, hwidth, -, hlayout⟩ := exists_ofFormat h
  have hstride := one_le_stride hwidth height format
  rw [hlayout]
  exact ⟨Nat.mul_le_mul_right _ (Nat.succ_le_succ hstride), filteredSize_le hwidth height format,
    pixelSize_le width height format⟩

theorem slice_bounds (h : (dec.run data).call = some c) : ∃ l, (dec.run data).layout = some l ∧
    l.filteredSize? = some c.slice.size ∧ 2 * l.height.toNat ≤ c.slice.size ∧
    c.slice.size ≤ 9 * (l.width.toNat * l.height.toNat) ∧
    9 * (l.width.toNat * l.height.toNat) ≤ 9 * dec.budget.toNat := by
  obtain ⟨head, hbudget, hhead, hcount, hsize⟩ := exists_head_of_call h
  obtain ⟨-, hfiltered⟩ := size_eq_of_filteredSize? hsize
  obtain ⟨hleast, hmost, -⟩ := size_bounds hhead
  refine ⟨head.layout, ?_, hsize, hfiltered ▸ hleast, hfiltered ▸ hmost, ?_⟩
  · rw [run_head hbudget hhead, layout_runBody]
  · exact Nat.mul_le_mul_left 9 (not_lt_pixelCount.mp hcount)

theorem size_le_of_load {p q : Picture} (h : p.load dec data = (.ok (), q)) :
    q.size ≤ 8 * dec.budget.toNat := by
  rw [load_eq] at h
  cases hresult : (dec.run data).result with
  | error failure =>
    rw [observe_of_error hresult] at h
    cases h
  | ok pixels =>
    obtain ⟨head, stream, inflated, -, haccepts⟩ := run_eq_ok hresult
    rw [observe_of_ok hresult] at h
    cases h
    calc pixels.length
      _ = pixelSize head.layout := haccepts.length_pixels
      _ ≤ 8 * (head.layout.width.toNat * head.layout.height.toNat) :=
        (size_bounds haccepts.head_eq).2.2
      _ ≤ 8 * dec.budget.toNat :=
        Nat.mul_le_mul_left 8 (not_lt_pixelCount.mp haccepts.withinBudget)

theorem filteredSize_lt_of_budget (hbudget : dec.budget.toNat ≤ 0x1000000000000000)
    (hhead : Head.ofBytes data = .ok head)
    (hcount : head.layout.width.toNat * head.layout.height.toNat ≤ dec.budget.toNat) :
    filteredSize head.layout < Size.limit := by
  have hmost := (size_bounds hhead).2.1
  have hlimit : 9 * 0x1000000000000000 < Size.limit := by decide
  omega

theorem error_of_find_ample (h : Datastream.find .ample data offset = .error failure) :
    failure.error = .malformed .chunkScan := by
  have hcollect : collect .ample data offset = .error failure.error := collect_of_error h
  have hnone : ¬ ∃ chunks, IsWhole (data.drop offset) chunks ∧ dataOf chunks ≠ [] := by
    rintro ⟨chunks, hwhole, hne⟩
    have hok : collect .ample data offset = .ok (dataOf chunks) :=
      (collect_eq_ok_iff rfl).mpr ⟨chunks, hwhole, rfl, hne⟩
    rw [hcollect] at hok
    cases hok
  rw [collect_otherwise rfl hnone] at hcollect
  exact (Except.error.inj hcollect).symm

theorem error_of_find (h : Datastream.find memory data offset = .error failure) :
    failure = .refused .datastream ∨ failure.error = .malformed .chunkScan := by
  rw [Datastream.find, ofItems_items] at h
  split_ifs at h with hrefused
  · cases h
    exact .inl rfl
  · exact .inr (error_of_find_ample h)

theorem head_error_ne_outOfMemory (h : Head.ofBytes data = .error failure) :
    failure.error ≠ .outOfMemory := by
  intro hmemory
  obtain ⟨result, hverdict⟩ := exists_verdict data
  have hresult := (mapError_of_error h).symm.trans (mapError_of_verdict hverdict)
  rw [hmemory] at hresult
  subst hresult
  cases hverdict

theorem runsOutEarly_of_over (hbudget : dec.budget ≠ 0) (hhead : Head.ofBytes data = .ok head)
    (hover : dec.budget.toNat < head.layout.width.toNat * head.layout.height.toNat) :
    RunsOutEarly dec data := by
  have hrun := run_over hbudget hhead ((lt_pixelCount_iff _ _).mpr hover)
  refine ⟨⟨_, congrArg Run.result hrun, rfl⟩, ?_⟩
  rintro ⟨head', hhead', hcomes⟩
  cases hfind : Datastream.find dec.memory data head'.next with
  | error failure =>
    rw [hfind, hrun] at hcomes
    cases hcomes
    obtain hrefused | herror := error_of_find hfind
    · cases hrefused
    · cases herror
  | ok stream =>
    rw [hfind, hrun] at hcomes
    cases hcomes

theorem comesToData (hbudget : dec.budget ≠ 0) (hhead : Head.ofBytes data = .ok head)
    (hcount : head.layout.width.toNat * head.layout.height.toNat ≤ dec.budget.toNat)
    (hsize : filteredSize head.layout < Size.limit) : ComesToData dec data := by
  have hbody : dec.runBody data head = _ :=
    runBody_entered (not_lt_pixelCount.mpr hcount) hsize dec.inflater dec.memory data
  refine ⟨head, hhead, ?_⟩
  rw [run_head hbudget hhead, hbody]
  cases Datastream.find dec.memory data head.next with
  | error failure => rfl
  | ok stream =>
    dsimp only
    split <;> rfl

theorem runsOutEarly_iff (hbound : dec.budget.toNat ≤ 0x1000000000000000) : RunsOutEarly dec data ↔
    dec.budget ≠ 0 ∧ ∃ head, Head.ofBytes data = .ok head ∧
      dec.budget.toNat < head.layout.width.toNat * head.layout.height.toNat := by
  constructor
  · rintro ⟨⟨failure, hresult, hmemory⟩, hearly⟩
    by_cases hbudget : dec.budget = 0
    · rw [Decoder.run, if_pos hbudget] at hresult
      cases hresult
      cases hmemory
    refine ⟨hbudget, ?_⟩
    cases hhead : Head.ofBytes data with
    | error cause =>
      rw [Decoder.run, if_neg hbudget, hhead] at hresult
      cases hresult
      exact absurd hmemory (head_error_ne_outOfMemory hhead)
    | ok head =>
      refine ⟨head, rfl, ?_⟩
      rw [← Nat.not_le]
      intro hcount
      have hsize := filteredSize_lt_of_budget hbound hhead hcount
      exact hearly (comesToData hbudget hhead hcount hsize)
  · rintro ⟨hbudget, head, hhead, hover⟩
    exact runsOutEarly_of_over hbudget hhead hover

theorem isBounded (dec : Decoder) (data : List UInt8) : IsBounded dec data where
  slice := fun _ => slice_bounds
  pixels := fun _ _ => size_le_of_load
  lengths := fun hbound head hhead hcount => by
    have hsize := filteredSize_lt_of_budget hbound hhead hcount
    rw [stride?_eq, filteredSize?_of_lt hsize, pixelSize?_of_lt hsize]
    exact ⟨rfl, rfl, rfl⟩
  early := runsOutEarly_iff

/-- A file of one column of pixels, with as many bytes for each as there can be. -/
def tall (height : UInt32) : File where
  header := (Ihdr.ofFormat 1 height (.rgba .sixteen)).toBytes
  headerCrc := 0
  chunks := [⟨Tag.idat, [0], 0⟩]
  trailer := none
  length_header := rfl
  chunks_fit := by
    intro c hc
    obtain rfl := List.mem_singleton.mp hc
    exact ⟨show 1 < UInt32.size by decide, show Tag.idat ≠ Tag.iend by decide⟩

theorem filteredSize_tall (height : UInt32) :
    filteredSize (.ofFormat 1 height (.rgba .sixteen)) = 9 * height.toNat := by
  rw [filteredSize, stride_ofFormat]
  rfl

theorem call_tall (inflater : Inflater) {budget : UInt64} (hpos : 1 ≤ budget.toNat)
    (hbudget : budget.toNat < UInt32.size) :
    ∃ c, (Decoder.run { budget, inflater } (tall budget.toUInt32).toBytes).layout =
        some (.ofFormat 1 budget.toUInt32 (.rgba .sixteen)) ∧
      (Decoder.run { budget, inflater } (tall budget.toUInt32).toBytes).call = some c ∧
      c.slice.size = 9 * budget.toNat := by
  have hheight : budget.toUInt32.toNat = budget.toNat := by
    rw [UInt64.toNat_toUInt32]
    exact Nat.mod_eq_of_lt hbudget
  have hsize := filteredSize_tall budget.toUInt32
  have hmemory : filteredSize (.ofFormat 1 budget.toUInt32 (.rgba .sixteen)) < Memory.limit := by
    have hlimit : 9 * UInt32.size < Memory.limit := by decide
    omega
  have hcount : (1 : UInt32).toNat * budget.toUInt32.toNat ≤ budget.toNat := by
    rw [hheight]
    exact Nat.le_of_eq (Nat.one_mul _)
  have hheader : (tall budget.toUInt32).header =
      (Ihdr.ofFormat 1 budget.toUInt32 (.rgba .sixteen)).toBytes := rfl
  have hobserve := observe_file inflater (by decide) (by omega) hheader hcount hmemory
    (List.cons_ne_nil 0 [])
  refine ⟨_, congrArg Observed.layout hobserve, congrArg Observed.call hobserve, ?_⟩
  rw [callFor, size_zeroed, hsize, hheight]

/-- No inflater is ever called with a slice of more than nine bytes for each pixel of the budget,
and for every budget that is a height there is a file that needs them all. No image that is decoded
has more than eight. Up to a budget of `2 ^ 60` the lengths of an image within it exist, and the one
way to run out of memory before the compressed data is looked for is to have too many pixels. -/
theorem budget_bounds_memory :
    (∀ dec data, IsBounded dec data) ∧
      ∀ budget : UInt64, 1 ≤ budget.toNat → budget.toNat < UInt32.size → ∃ data, ∀ inflater, ∃ c,
        (Decoder.run { budget, inflater } data).layout =
          some (.ofFormat 1 budget.toUInt32 (.rgba .sixteen)) ∧
        (Decoder.run { budget, inflater } data).call = some c ∧
        c.slice.size = 9 * budget.toNat :=
  ⟨isBounded, fun budget hpos hbudget =>
    ⟨(tall budget.toUInt32).toBytes, fun inflater => call_tall inflater hpos hbudget⟩⟩

theorem budget_bounds_memory_highest :
    (0xFFFFFFFF : UInt64).toNat < UInt32.size ∧
      (∃ data c, (Decoder.run { budget := 0xFFFFFFFF } data).call = some c ∧
        c.slice.size = 38654705655) ∧
      RunsOutEarly { budget := 3 } scattered.toBytes ∧
      Range.smallLayout.filteredSize?.isSome := by
  obtain ⟨hbounded, hattained⟩ := budget_bounds_memory
  obtain ⟨data, hdata⟩ := hattained 0xFFFFFFFF (by decide) (by decide)
  obtain ⟨c, -, hcall, hsize⟩ := hdata .zlib
  have hhead : Head.ofBytes scattered.toBytes = .ok ⟨Range.smallLayout, 33⟩ :=
    head_ofBytes scattered
  refine ⟨by decide, ⟨data, c, hcall, hsize⟩, ?_, ?_⟩
  · exact ((hbounded { budget := 3 } _).early (by decide)).mpr ⟨by decide, _, hhead, by decide⟩
  · exact ((hbounded { budget := 4 } _).lengths (by decide) _ hhead (by decide)).2.1

end Png.Proofs.MemoryBound

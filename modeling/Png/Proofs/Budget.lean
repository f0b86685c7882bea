import Png.Proofs.Range

namespace Png.Proofs.Budget

open Container Observation Precedence Range

variable {dec : Decoder} {data : List UInt8} {head : Head} {m m' : UInt64}

/-- It is not for the budget to refuse a file: the head is refused, or the image is within it. -/
inductive IsSettled (budget : UInt64) (data : List UInt8) : Prop where
  | headless (failure : Failure) (head_eq : Head.ofBytes data = .error failure)
  | within (head : Head) (head_eq : Head.ofBytes data = .ok head)
      (count_le : head.layout.width.toNat * head.layout.height.toNat ≤ budget.toNat)

theorem over_of_not_isSettled (h : ¬ IsSettled m data) :
    ∃ head, Head.ofBytes data = .ok head ∧ m < head.layout.pixelCount := by
  cases hhead : Head.ofBytes data with
  | error failure => exact absurd (.headless failure hhead) h
  | ok head =>
    refine ⟨head, rfl, ?_⟩
    by_contra hcount
    exact h (.within head hhead (not_lt_pixelCount.mp hcount))

theorem runBody_of_budgets (hcount : ¬ m < head.layout.pixelCount)
    (hcount' : ¬ m' < head.layout.pixelCount) (data : List UInt8) :
    Decoder.runBody { dec with budget := m } data head =
      Decoder.runBody { dec with budget := m' } data head := by
  rw [Decoder.runBody, Decoder.runBody]
  dsimp only
  rw [if_neg hcount, if_neg hcount']
  rfl

theorem runBody_over (h : dec.budget < head.layout.pixelCount) (data : List UInt8) :
    dec.runBody data head =
      { layout := some head.layout
        result := .error (.overBudget head.layout.width head.layout.height dec.budget) } := by
  rw [Decoder.runBody]
  exact if_pos h

theorem run_over (hbudget : dec.budget ≠ 0) (hhead : Head.ofBytes data = .ok head)
    (h : dec.budget < head.layout.pixelCount) :
    dec.run data =
      { layout := some head.layout
        result := .error (.overBudget head.layout.width head.layout.height dec.budget) } := by
  rw [run_head hbudget hhead, runBody_over h]

theorem ne_zero_of_le (hm : 1 ≤ m) : m ≠ 0 := by
  rintro rfl
  exact absurd hm (by decide)

theorem run_of_isSettled (hm : 1 ≤ m) (hle : m ≤ m') (h : IsSettled m data) (dec : Decoder) :
    Decoder.run { dec with budget := m } data = Decoder.run { dec with budget := m' } data := by
  have hbudget : m ≠ 0 := ne_zero_of_le hm
  have hbudget' : m' ≠ 0 := ne_zero_of_le (UInt64.le_trans hm hle)
  cases h with
  | headless failure hhead =>
    rw [Decoder.run, Decoder.run, if_neg hbudget, if_neg hbudget', hhead]
  | within head hhead hcount =>
    have hcount' := Nat.le_trans hcount (UInt64.le_iff_toNat_le.mp hle)
    rw [run_head hbudget hhead, run_head hbudget' hhead]
    exact runBody_of_budgets (not_lt_pixelCount.mpr hcount) (not_lt_pixelCount.mpr hcount') data

theorem observe_of_not_isSettled (hm : 1 ≤ m) (h : ¬ IsSettled m data) (dec : Decoder) :
    ∃ head, Head.ofBytes data = .ok head ∧
      observe (Decoder.run { dec with budget := m } data) =
        ⟨some head.layout, none, .error .outOfMemory⟩ := by
  obtain ⟨head, hhead, hover⟩ := over_of_not_isSettled h
  refine ⟨head, hhead, ?_⟩
  have hrun : Decoder.run { dec with budget := m } data = _ :=
    run_over (ne_zero_of_le hm) hhead hover
  rw [hrun]
  rfl

theorem load_of_isSettled (hm : 1 ≤ m) (hle : m ≤ m') (h : IsSettled m data) (dec : Decoder)
    (p : Picture) :
    p.load { dec with budget := m } data = p.load { dec with budget := m' } data := by
  rw [Picture.load, Picture.load, run_of_isSettled hm hle h]

theorem load_of_not_isSettled (hm : 1 ≤ m) (h : ¬ IsSettled m data) (dec : Decoder)
    (p : Picture) :
    ∃ head, Head.ofBytes data = .ok head ∧
      p.load { dec with budget := m } data =
        (.error .outOfMemory,
          { layout := some head.layout, pixels := none, error := some .outOfMemory }) ∧
      (Decoder.run { dec with budget := m } data).call = none := by
  obtain ⟨head, hhead, hobserve⟩ := observe_of_not_isSettled hm h dec
  refine ⟨head, hhead, ?_, congrArg Observed.call hobserve⟩
  rw [load_eq, hobserve]
  rfl

/-- Where a budget does not refuse a file, a larger one leads to the same answer and the same
picture, by the same call of the inflater. A budget that does refuse it leaves only the layout, and
no inflater is called. So an image that is accepted stays accepted, with the same pixels. -/
theorem load_of_raised_budget (dec : Decoder) (data : List UInt8) (m m' : UInt64) (hm : 1 ≤ m)
    (hle : m ≤ m') (p : Picture) :
    (IsSettled m data →
      p.load { dec with budget := m } data = p.load { dec with budget := m' } data ∧
        Decoder.run { dec with budget := m } data = Decoder.run { dec with budget := m' } data) ∧
    (¬ IsSettled m data → ∃ head, Head.ofBytes data = .ok head ∧
      p.load { dec with budget := m } data =
        (.error .outOfMemory,
          { layout := some head.layout, pixels := none, error := some .outOfMemory }) ∧
      (Decoder.run { dec with budget := m } data).call = none) ∧
    ∀ q, p.load { dec with budget := m } data = (.ok (), q) →
      p.load { dec with budget := m' } data = (.ok (), q) := by
  refine ⟨fun h => ⟨load_of_isSettled hm hle h dec p, run_of_isSettled hm hle h dec⟩,
    fun h => load_of_not_isSettled hm h dec p, fun q hq => ?_⟩
  by_cases h : IsSettled m data
  · rw [← load_of_isSettled hm hle h]
    exact hq
  · obtain ⟨head, -, hload, -⟩ := load_of_not_isSettled hm h dec p
    rw [hload] at hq
    cases hq

theorem load_of_raised_budget_scattered :
    (1 : UInt64) ≤ 3 ∧ (3 : UInt64) ≤ 4 ∧ (4 : UInt64) ≤ 0xFFFFFFFFFFFFFFFF ∧
      ¬ IsSettled 3 scattered.toBytes ∧ IsSettled 4 scattered.toBytes ∧
      (Picture.blank.load { copying with budget := 3 } scattered.toBytes).1 =
        .error .outOfMemory ∧
      (Picture.blank.load { copying with budget := 0xFFFFFFFFFFFFFFFF } scattered.toBytes).2 =
        { layout := some smallLayout, pixels := some [10, 255, 20, 128, 13, 250, 200, 0] } := by
  have hhead : Head.ofBytes scattered.toBytes = .ok ⟨smallLayout, 33⟩ := head_ofBytes scattered
  have hover : ¬ IsSettled 3 scattered.toBytes := by
    rintro (⟨failure, herror⟩ | ⟨head, hok, hcount⟩)
    · rw [hhead] at herror
      cases herror
    · rw [hhead] at hok
      cases hok
      exact absurd hcount (by decide)
  have hwithin : IsSettled 4 scattered.toBytes := .within _ hhead (by decide)
  obtain ⟨-, hrefused, -⟩ :=
    load_of_raised_budget copying scattered.toBytes 3 4 (by decide) (by decide) .blank
  obtain ⟨hsame, -, -⟩ := load_of_raised_budget copying scattered.toBytes 4 0xFFFFFFFFFFFFFFFF
    (by decide) (by decide) .blank
  obtain ⟨head, -, hload, -⟩ := hrefused hover
  refine ⟨by decide, by decide, by decide, hover, hwithin, ?_, ?_⟩
  · rw [hload]
  · rw [← (hsame hwithin).1]
    exact after_oneImage

end Png.Proofs.Budget

import Png.Picture.History
import Png.Proofs.Acceptance
import Png.Proofs.Forgetting
import Png.Proofs.Precedence
import Png.Proofs.Scan

namespace Png.Proofs.Shortage

open Acceptance Forgetting ImageData Observation Precedence Scan Sizes

variable {budget : UInt64} {inflater : Inflater} {a : Allocation} {memory : Memory}
  {data : List UInt8} {head : Head}

/-- What must come about behind the head of a file before a decode asks for memory of a kind: an
IDAT chunk with bytes, all of the compressed data, and a call of an inflater that has a state. -/
def Asks (inflater : Inflater) (data : List UInt8) (head : Head) : Allocation → Prop
  | .datastream => ∃ c ∈ chunksOf (Walk.startingAt data head.next).items,
      c.tag = Tag.idat ∧ c.payload data ≠ []
  | .rows => ∃ stream, Datastream.find .ample data head.next = .ok stream
  | .inflaterState => (∃ stream, Datastream.find .ample data head.next = .ok stream) ∧
      filteredSize head.layout < Memory.limit ∧ inflater.hasState = true

/-- A decode that is refused nothing comes to ask for memory of a kind. -/
structure Reaches (budget : UInt64) (inflater : Inflater) (data : List UInt8) (a : Allocation)
    (head : Head) : Prop where
  budget_ne : budget ≠ 0
  head_eq : Head.ofBytes data = .ok head
  withinBudget : head.layout.width.toNat * head.layout.height.toNat ≤ budget.toNat
  size_lt : filteredSize head.layout < Size.limit
  asks : Asks inflater data head a

theorem chunksOf_items {chunks : List Chunk} {ending : List (Except Failure Chunk)}
    (h : ending = [] ∨ ∃ failure, ending = [.error failure]) :
    chunksOf (chunks.map .ok ++ ending) = chunks := by
  have hchunks : chunksOf (chunks.map .ok) = chunks := by
    rw [chunksOf, List.filterMap_map]
    exact List.filterMap_some
  rw [chunksOf, List.filterMap_append]
  obtain rfl | ⟨failure, rfl⟩ := h
  · exact (List.append_nil _).trans hchunks
  · exact (List.append_nil _).trans hchunks

theorem flatten_payloads_ne_nil_iff (data : List UInt8) (chunks : List Chunk) :
    (payloads data chunks).flatten ≠ [] ↔
      ∃ c ∈ chunks, c.tag = Tag.idat ∧ c.payload data ≠ [] := by
  rw [payloads, List.flatten_ne_nil_iff]
  constructor
  · rintro ⟨part, hpart, hne⟩
    obtain ⟨c, hc, rfl⟩ := List.mem_map.mp hpart
    obtain ⟨hmem, htag⟩ := List.mem_filter.mp hc
    exact ⟨c, hmem, of_decide_eq_true htag, hne⟩
  · rintro ⟨c, hmem, htag, hne⟩
    exact ⟨_, List.mem_map_of_mem (List.mem_filter.mpr ⟨hmem, decide_eq_true htag⟩), hne⟩

theorem ofItems_items (memory : Memory) (data : List UInt8) (w : Walk) :
    Datastream.ofItems memory data w.items =
      if (payloads data (chunksOf w.items)).flatten ≠ [] ∧ ¬ memory.grants .datastream then
        .error (.refused .datastream)
      else Datastream.ofItems .ample data w.items := by
  obtain ⟨chunks, ending, hitems, hending⟩ := exists_items_eq w
  have hsame : Datastream.ofItems memory data ending = Datastream.ofItems .ample data ending := by
    obtain rfl | ⟨failure, rfl⟩ := hending <;> rfl
  rw [hitems, chunksOf_items hending, ofItems_append, ofItems_append, hsame]
  simp only [Memory.grants_ample, not_true_eq_false, and_false, if_false]

theorem find_refused (h : Asks inflater data head .datastream) :
    Datastream.find (.without .datastream) data head.next = .error (.refused .datastream) := by
  have hbytes := (flatten_payloads_ne_nil_iff data _).mpr h
  rw [Datastream.find, ofItems_items, if_pos ⟨hbytes, Memory.not_grants_without _⟩]

theorem find_unasked (h : ¬ Asks inflater data head .datastream) (memory : Memory) :
    Datastream.find memory data head.next = Datastream.find .ample data head.next := by
  have hbytes := mt (flatten_payloads_ne_nil_iff data _).mp h
  rw [Datastream.find, Datastream.find, ofItems_items, if_neg (fun hne => hbytes hne.1)]

theorem find_granted (h : memory.grants .datastream = true) (data : List UInt8) (offset : Nat) :
    Datastream.find memory data offset = Datastream.find .ample data offset := by
  rw [Datastream.find, Datastream.find, ofItems_items, if_neg (fun hne => hne.2 h)]

theorem inflate_granted (h : memory.grants .inflaterState = true ∨ inflater.hasState ≠ true)
    (budget : UInt64) (input : List UInt8) (size : Nat) :
    Decoder.inflate { budget, inflater, memory } input size =
      Decoder.inflate { budget, inflater } input size := by
  have hcall : inflater.call memory input (.zeroed size) =
      inflater.inflate input (.zeroed size) := by
    rw [Inflater.call, if_neg]
    rintro ⟨hstate, hrefused⟩
    obtain hgrant | hnone := h
    · exact hrefused hgrant
    · exact hnone hstate
  rw [inflate_ample, Decoder.inflate, hcall]

theorem inflate_refused (h : inflater.hasState = true) (budget : UInt64) (input : List UInt8)
    (size : Nat) :
    (Decoder.inflate { budget, inflater, memory := .without .inflaterState } input size).answer =
      .error .outOfMemory :=
  if_pos ⟨h, Memory.not_grants_without _⟩

section

variable (hcount : ¬ budget < head.layout.pixelCount)
  (hsize : filteredSize head.layout < Size.limit)

include hcount hsize

theorem runBody_entered (inflater : Inflater) (memory : Memory) (data : List UInt8) :
    Decoder.runBody { budget, inflater, memory } data head =
      match Datastream.find memory data head.next with
      | .error failure => { layout := head.layout, result := .error failure }
      | .ok stream =>
        if filteredSize head.layout < Memory.limit ∧ memory.grants .rows then
          let call := Decoder.inflate { budget, inflater, memory } stream.bytes
            (filteredSize head.layout)
          { layout := head.layout, stream, call, result := call.pixels head.layout }
        else { layout := head.layout, stream, result := .error (.refused .rows) } := by
  rw [Decoder.runBody]
  dsimp only
  rw [filteredSize?_of_lt hsize]
  exact if_neg hcount

theorem runBody_granted {memory : Memory}
    (hfind : Datastream.find memory data head.next = Datastream.find .ample data head.next)
    (hrows : memory.grants .rows = true)
    (hcall : (∃ stream, Datastream.find .ample data head.next = .ok stream) →
      filteredSize head.layout < Memory.limit →
      memory.grants .inflaterState = true ∨ inflater.hasState ≠ true) :
    Decoder.runBody { budget, inflater, memory } data head =
      Decoder.runBody { budget, inflater } data head := by
  rw [runBody_entered hcount hsize, runBody_entered hcount hsize, hfind]
  cases hstream : Datastream.find .ample data head.next with
  | error failure => rfl
  | ok stream =>
    dsimp only
    by_cases hroom : filteredSize head.layout < Memory.limit
    · rw [if_pos ⟨hroom, hrows⟩, if_pos ⟨hroom, Memory.grants_ample _⟩,
        inflate_granted (hcall ⟨stream, hstream⟩ hroom)]
    · rw [if_neg (fun h => hroom h.1), if_neg (fun h => hroom h.1)]

theorem runBody_unasked (h : ¬ Asks inflater data head a) :
    Decoder.runBody { budget, inflater, memory := .without a } data head =
      Decoder.runBody { budget, inflater } data head := by
  cases a with
  | datastream =>
    exact runBody_granted hcount hsize (find_unasked h _) (Memory.grants_without (by decide))
      fun _ _ => .inl (Memory.grants_without (by decide))
  | rows =>
    have hfind : Datastream.find (.without .rows) data head.next =
        Datastream.find .ample data head.next :=
      find_granted (Memory.grants_without (by decide)) data head.next
    rw [runBody_entered hcount hsize, runBody_entered hcount hsize, hfind]
    cases hstream : Datastream.find .ample data head.next with
    | error failure => rfl
    | ok stream => exact absurd ⟨stream, hstream⟩ h
  | inflaterState =>
    exact runBody_granted hcount hsize (find_granted (Memory.grants_without (by decide)) _ _)
      (Memory.grants_without (by decide)) fun hstream hroom =>
        .inr fun hstate => h ⟨hstream, hroom, hstate⟩

end

/-- A decode that ends because memory of a kind is refused. The layout is known, and only an
inflater without memory for its state has been called. -/
structure EndsRefused (a : Allocation) (head : Head) (r : Run) : Prop where
  layout : r.layout = some head.layout
  result : ∃ failure, r.result = .error failure ∧ failure.error = .outOfMemory
  uncalled : a ≠ .inflaterState → r.call = none
  called : a = .inflaterState → ∃ c, r.call = some c ∧ c.answer = .error .outOfMemory

section

variable (hcount : ¬ budget < head.layout.pixelCount)
  (hsize : filteredSize head.layout < Size.limit)

include hcount hsize

theorem runBody_asked (h : Asks inflater data head a) :
    EndsRefused a head (Decoder.runBody { budget, inflater, memory := .without a } data head) := by
  rw [runBody_entered hcount hsize]
  cases a with
  | datastream =>
    rw [find_refused h]
    exact ⟨rfl, ⟨_, rfl, rfl⟩, fun _ => rfl, fun heq => by cases heq⟩
  | rows =>
    obtain ⟨stream, hstream⟩ := h
    rw [find_granted (Memory.grants_without (by decide)), hstream]
    dsimp only
    rw [if_neg (fun hroom => Memory.not_grants_without _ hroom.2)]
    exact ⟨rfl, ⟨_, rfl, rfl⟩, fun _ => rfl, fun heq => by cases heq⟩
  | inflaterState =>
    obtain ⟨⟨stream, hstream⟩, hroom, hstate⟩ := h
    have hanswer := inflate_refused hstate budget stream.bytes (filteredSize head.layout)
    rw [find_granted (Memory.grants_without (by decide)), hstream]
    dsimp only
    rw [if_pos ⟨hroom, Memory.grants_without (by decide)⟩]
    refine ⟨rfl, ⟨.inflate .outOfMemory, ?_, rfl⟩, fun hne => absurd rfl hne,
      fun _ => ⟨_, rfl, hanswer⟩⟩
    dsimp only
    rw [Call.pixels, hanswer]

end

theorem run_reached (h : Reaches budget inflater data a head) :
    EndsRefused a head (Decoder.run { budget, inflater, memory := .without a } data) := by
  rw [run_head h.budget_ne h.head_eq]
  exact runBody_asked (not_lt_pixelCount.mpr h.withinBudget) h.size_lt h.asks

theorem run_unreached (h : ∀ head, ¬ Reaches budget inflater data a head) :
    Decoder.run { budget, inflater, memory := .without a } data =
      Decoder.run { budget, inflater } data := by
  by_cases hbudget : budget = 0
  · rw [Decoder.run, Decoder.run, if_pos hbudget, if_pos hbudget]
  cases hhead : Head.ofBytes data with
  | error failure => rw [Decoder.run, Decoder.run, if_neg hbudget, if_neg hbudget, hhead]
  | ok head =>
    rw [run_head hbudget hhead, run_head hbudget hhead]
    by_cases hcount : budget < head.layout.pixelCount
    · rw [Decoder.runBody, Decoder.runBody, if_pos hcount, if_pos hcount]
    by_cases hsize : filteredSize head.layout < Size.limit
    · apply runBody_unasked hcount hsize
      intro hasks
      exact h head ⟨hbudget, hhead, not_lt_pixelCount.mp hcount, hsize, hasks⟩
    · rw [Decoder.runBody, Decoder.runBody]
      dsimp only
      rw [if_neg hcount, if_neg hcount, filteredSize?_of_le (Nat.not_lt.mp hsize)]

theorem exists_reaches (hstate : a = .inflaterState → inflater.hasState = true)
    {pixels : List UInt8} (h : (Decoder.run { budget, inflater } data).result = .ok pixels) :
    ∃ head, Reaches budget inflater data a head := by
  obtain ⟨head, stream, inflated, -, haccepts⟩ := run_eq_ok h
  have hstream : Datastream.find .ample data head.next = .ok stream := haccepts.stream_eq
  have hroom : filteredSize head.layout < Memory.limit := haccepts.hasMemory.1
  refine ⟨head, haccepts.budget_ne, haccepts.head_eq,
    not_lt_pixelCount.mp haccepts.withinBudget, Nat.lt_trans hroom (by decide), ?_⟩
  cases a with
  | datastream =>
    obtain ⟨hbytes, hne⟩ := bytes_of_find hstream
    rw [hbytes] at hne
    exact (flatten_payloads_ne_nil_iff data _).mp hne
  | rows => exact ⟨stream, hstream⟩
  | inflaterState => exact ⟨⟨stream, hstream⟩, hroom, hstate rfl⟩

/-- Memory of one kind is refused. A decode that comes to ask for it ends there for want of memory,
and of the file the picture keeps the layout. Any other decode goes on as if nothing were refused.
Every decode that would have given an image does ask, for an inflater's state if there is one. The
next operation finds nothing left of it, and looking at a head asks for no memory at all. -/
theorem load_without (budget : UInt64) (inflater : Inflater) (a : Allocation)
    (data : List UInt8) (p : Picture) :
    (∀ head, Reaches budget inflater data a head →
        p.load { budget, inflater, memory := .without a } data =
          (.error .outOfMemory,
            { layout := some head.layout, pixels := none, error := some .outOfMemory }) ∧
        EndsRefused a head (Decoder.run { budget, inflater, memory := .without a } data)) ∧
      ((∀ head, ¬ Reaches budget inflater data a head) →
        p.load { budget, inflater, memory := .without a } data =
          p.load { budget, inflater } data) ∧
      ((p.load { budget, inflater } data).1 = .ok () →
        (a = .inflaterState → inflater.hasState = true) →
          ∃ head, Reaches budget inflater data a head) ∧
      (∀ next : Operation,
        next.perform (p.load { budget, inflater, memory := .without a } data).2 =
          next.perform Picture.blank) ∧
      ∀ file, ((Operation.probe file).within (.without a)).perform p =
        (Operation.probe file).perform p := by
  refine ⟨fun head hreaches => ?_, fun hnone => ?_, fun hok hstate => ?_, fun next => ?_,
    fun file => rfl⟩
  · have hends := run_reached hreaches
    obtain ⟨failure, hresult, herror⟩ := hends.result
    refine ⟨?_, hends⟩
    rw [load_eq, observe_of_error hresult, hends.layout, herror]
    rfl
  · rw [Picture.load, Picture.load, run_unreached hnone]
  · rw [load_eq] at hok
    cases hresult : (Decoder.run { budget, inflater } data).result with
    | error failure =>
      rw [observe_of_error hresult] at hok
      cases hok
    | ok pixels => exact exists_reaches hstate hresult
  · rw [perform_eq, perform_eq]

end Png.Proofs.Shortage

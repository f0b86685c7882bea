import Png.Picture.History
import Png.Proofs.Observation

namespace Png.Proofs.Forgetting

open Observation

variable {dec : Decoder} {data : List UInt8}

/-- What an operation comes to without a picture at hand: the answer of looking at a head or of
decoding a file by itself, and a picture of just that. -/
def alone : Operation → Except DecodeError (Option Layout) × Picture
  | .probe data =>
    let found := (Layout.ofBytes data).mapError Failure.error
    (found.map some, { layout := found.toOption, pixels := none, error := errorOf found })
  | .load dec data =>
    match dec.decode data with
    | .ok p => (.ok none, p)
    | .error e => (.error e, { layout := (dec.run data).layout, pixels := none, error := some e })

theorem probe_eq (p : Picture) (data : List UInt8) :
    p.probe data = ((Layout.ofBytes data).mapError Failure.error,
      (alone (.probe data)).2) := by
  rw [Picture.probe, alone]
  cases Layout.ofBytes data <;> rfl

theorem decode_of_error {failure : Failure} (h : (dec.run data).result = .error failure) :
    dec.decode data = .error failure.error := by
  rw [decode_eq, observe_of_error h]
  rfl

theorem decode_of_ok {pixels : List UInt8} (h : (dec.run data).result = .ok pixels) :
    dec.decode data =
      .ok { layout := (dec.run data).layout, pixels := some pixels, error := none } := by
  rw [decode_eq, observe_of_ok h]
  rfl

theorem perform_eq (p : Picture) (op : Operation) : op.perform p = alone op := by
  cases op with
  | probe data =>
    rw [Operation.perform, probe_eq]
    rfl
  | load dec data =>
    rw [Operation.perform, load_eq, alone]
    cases h : (dec.run data).result with
    | error failure =>
      rw [decode_of_error h, observe_of_error h]
      rfl
    | ok pixels =>
      rw [decode_of_ok h, observe_of_ok h]
      rfl

theorem after_concat (p : Picture) (history : List Operation) (op : Operation) :
    p.after (history ++ [op]) = (op.perform (p.after history)).2 := by
  simp only [Picture.after, List.foldl_append, List.foldl_cons, List.foldl_nil]

/-- Whatever two pictures held and whatever was done to them, an operation answers alike on both and
leaves them equal. So a picture is always what its last operation makes of a blank one, and that is
what decoding the file, or looking at its head, reports by itself. -/
theorem perform_after (p q : Picture) (history other : List Operation) (op : Operation) :
    op.perform (p.after history) = op.perform (q.after other) ∧
      p.after (history ++ [op]) = (op.perform Picture.blank).2 ∧
      op.perform (p.after history) = alone op := by
  refine ⟨?_, ?_, perform_eq _ op⟩
  · rw [perform_eq, perform_eq]
  · rw [after_concat, perform_eq, perform_eq]

end Png.Proofs.Forgetting

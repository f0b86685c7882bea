namespace Png

/-- The buffers that a decode asks for. The pixels take over the buffer of the rows. -/
inductive Allocation where
  | datastream
  | rows
  | inflaterState
  deriving DecidableEq, Repr

/-- A memory that refuses every request of one kind, or none. A refusal at a later request of a kind
ends a decode as one at the first does. -/
structure Memory where
  refused : Option Allocation := none
  deriving DecidableEq, Repr

namespace Memory

def ample : Memory := {}

def without (a : Allocation) : Memory := { refused := some a }

def grants (m : Memory) (a : Allocation) : Bool :=
  m.refused != some a

/-- No memory holds a buffer of `2 ^ 47` bytes. -/
def limit : Nat := 0x800000000000

@[simp] theorem grants_ample (a : Allocation) : ample.grants a = true := rfl

theorem grants_without {a b : Allocation} (h : b ≠ a) : (without a).grants b = true := by
  rw [grants, without, bne_iff_ne]
  exact fun heq => h (Option.some.inj heq).symm

theorem not_grants_without (a : Allocation) : ¬ (without a).grants a = true := by
  rw [grants, without, bne_self_eq_false]
  exact Bool.false_ne_true

end Memory

end Png

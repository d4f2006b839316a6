import Mathlib

/-!
# Unsigned 64-bit counters

Sequence numbers and byte counts are unsigned 64-bit words in the programs verified here. They are
modelled by natural numbers below `2 ^ 64`; addition stays inside that range wherever it is used,
and is written `+`, while a subtraction is written `sub64` and wraps around, so that a proof that
uses its value has to show first that it does not wrap.
-/

namespace Paperboat

/-- The largest unsigned 64-bit word. -/
@[irreducible] def maxUint64 : ℕ := 2 ^ 64 - 1

/-- Subtraction of unsigned 64-bit words, which wraps around below zero. -/
def sub64 (a b : ℕ) : ℕ := if b ≤ a then a - b else a + 2 ^ 64 - b

/-- A subtraction that does not go below zero is the subtraction of natural numbers. -/
@[simp] lemma sub64_of_le {a b : ℕ} (hb : b ≤ a) : sub64 a b = a - b := if_pos hb

lemma maxUint64_lt : maxUint64 < 2 ^ 64 := by
  unfold maxUint64
  omega

end Paperboat

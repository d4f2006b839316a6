import Paperboat.Lib.FinMap

/-!
# Contexts that can be cancelled

A context is derived from a parent by a cancel function of its own, and it is done as soon as one of
the functions on the way to the root has been called. So a context is the list of these functions,
its own first, and the only state is which functions have been called, each with the cause of its first
call.
-/

namespace Paperboat

universe u v

/-- A context over cancel functions `ι`, its own first. -/
abbrev Context (ι : Type u) := List ι

/-- The cancel functions that have been called, with the cause of the first call. -/
abbrev Cancelled (ι : Type u) (κ : Type v) := FinMap ι κ

namespace Cancelled

variable {ι : Type u} {κ : Type v} [DecidableEq ι]

/-- Call a cancel function. -/
def cancel (t : Cancelled ι κ) (i : ι) (cause : κ) : Cancelled ι κ :=
  match t.lookup i with
  | some _ => t
  | none => t.insert i cause

/-- What has ended a context. -/
def causes (t : Cancelled ι κ) (c : Context ι) : List κ := c.filterMap fun i => t.lookup i

variable {t : Cancelled ι κ} {c : Context ι} {i j : ι} {x cause : κ}

lemma mem_causes : x ∈ t.causes c ↔ ∃ i ∈ c, t.lookup i = some x := List.mem_filterMap

/-- A function that has been called after a call was called before, or is the one. -/
lemma lookup_cancel (h : (t.cancel i cause).lookup j = some x) :
    t.lookup j = some x ∨ j = i ∧ x = cause := by
  unfold cancel at h
  split at h
  · exact .inl h
  rw [FinMap.lookup_insert_eq] at h
  split at h
  · next hj => exact .inr ⟨hj, (Option.some.inj h).symm⟩
  · exact .inl h

end Cancelled

end Paperboat

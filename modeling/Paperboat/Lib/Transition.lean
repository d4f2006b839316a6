import Mathlib

/-!
# Runs of a transition system

A system is a partial function `step : σ → α → Option σ`. Whatever the environment decides is part of
the label, so that a run is a list of labels and can be evaluated.
-/

namespace Paperboat

universe u v

variable {σ : Type u} {α : Type v}

/-- Take the steps of a list of labels, as long as they are enabled. -/
def run (step : σ → α → Option σ) : σ → List α → Option σ
  | s, [] => some s
  | s, a :: l => (step s a).bind fun s' => run step s' l

/-- The property survives every step. -/
def Keeps (step : σ → α → Option σ) (P : σ → Prop) : Prop :=
  ∀ ⦃s a s'⦄, P s → step s a = some s' → P s'

/-- Every step of the run from `s` along the labels satisfies the condition. -/
def Meets (step : σ → α → Option σ) (cond : σ → α → Prop) : σ → List α → Prop
  | _, [] => True
  | s, a :: l => cond s a ∧ match step s a with
    | none => True
    | some s' => Meets step cond s' l

/-- Whether a run meets a decidable condition is decidable. -/
instance decidableMeets (step : σ → α → Option σ) (cond : σ → α → Prop)
    [∀ s a, Decidable (cond s a)] (s : σ) (l : List α) : Decidable (Meets step cond s l) :=
  match l with
  | [] => inferInstanceAs (Decidable True)
  | a :: l =>
    haveI : Decidable (match step s a with
        | none => True
        | some s' => Meets step cond s' l) :=
      match step s a with
      | none => inferInstanceAs (Decidable True)
      | some s' => decidableMeets step cond s' l
    inferInstanceAs (Decidable (_ ∧ _))

/-- The property survives every step that satisfies the condition. -/
def KeepsUnder (step : σ → α → Option σ) (cond : σ → α → Prop) (P : σ → Prop) : Prop :=
  ∀ ⦃s a s'⦄, P s → cond s a → step s a = some s' → P s'

variable {step : σ → α → Option σ}

variable {s s' : σ} {l : List α}

lemma run_cons_eq_some {a : α} :
    run step s (a :: l) = some s' ↔ ∃ t, step s a = some t ∧ run step t l = some s' :=
  Option.bind_eq_some_iff

variable {P : σ → Prop}

lemma Keeps.run (h : Keeps step P) (hs : P s) (hr : run step s l = some s') : P s' := by
  induction l generalizing s with
  | nil => exact Option.some.inj hr ▸ hs
  | cons a l ih =>
    obtain ⟨t, ht, hl⟩ := run_cons_eq_some.mp hr
    exact ih (h hs ht) hl

variable {cond : σ → α → Prop}

lemma Meets.mono {cond' : σ → α → Prop} (h : ∀ s a, cond s a → cond' s a) (hm : Meets step cond s l) :
    Meets step cond' s l := by
  induction l generalizing s with
  | nil => trivial
  | cons a l ih =>
    obtain ⟨hc, hm⟩ := hm
    refine ⟨h s a hc, ?_⟩
    cases hstep : step s a with
    | none => trivial
    | some =>
      rw [hstep] at hm
      exact ih hm

lemma Meets.of_forall (h : ∀ a ∈ l, ∀ s, cond s a) (s : σ) : Meets step cond s l := by
  induction l generalizing s with
  | nil => trivial
  | cons a l ih =>
    refine ⟨h a (.head _) s, ?_⟩
    cases step s a with
    | none => trivial
    | some t => exact ih (fun b hb => h b (.tail _ hb)) t

/-- A property that survives every step under a condition survives every run that meets it. -/
lemma KeepsUnder.run (h : KeepsUnder step cond P) (hs : P s) (hm : Meets step cond s l)
    (hr : run step s l = some s') : P s' := by
  induction l generalizing s with
  | nil => exact Option.some.inj hr ▸ hs
  | cons a l ih =>
    obtain ⟨t, ht, hl⟩ := run_cons_eq_some.mp hr
    obtain ⟨hc, hm⟩ := hm
    rw [ht] at hm
    exact ih (h hs hc ht) hm hl

/-- A history grows at its end. -/
lemma forall_mem_concat {h : List α} {a : α} {Q : α → Prop} (hold : ∀ x ∈ h, Q x) (hnew : Q a) :
    ∀ x ∈ h ++ [a], Q x :=
  List.forall_mem_append.mpr ⟨hold, List.forall_mem_singleton.mpr hnew⟩

/-! ### Runs on fixed inputs -/

variable {x : Option σ} {P Q : σ → Prop} [DecidablePred P]

/-- The end of a run is evaluated, and the rest follows from what the evaluation says. -/
lemma exists_of_any (h : x.any (fun s => P s) = true) (hQ : ∀ s, x = some s → P s → Q s) :
    ∃ s, x = some s ∧ Q s := by
  obtain ⟨s, hs, hP⟩ := (Option.any_eq_true _ _).mp h
  exact ⟨s, hs, hQ s hs (of_decide_eq_true hP)⟩

lemma exists_and_of_any (h : x.any (fun s => P s) = true) (hQ : ∀ s, x = some s → Q s) :
    ∃ s, x = some s ∧ P s ∧ Q s :=
  exists_of_any h fun s hs hP => ⟨hP, hQ s hs⟩

end Paperboat

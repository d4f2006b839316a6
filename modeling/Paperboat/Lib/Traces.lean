import Paperboat.Lib.Prog

/-!
# Traces of programs

What a program does against another side that replies as it likes, knowing everything that was exchanged
before. `Guarded` is the weakest precondition for such runs: one condition on every call in the light of
the exchanges before it, and one on the returned value in the light of all exchanges.
-/

namespace Paperboat

open List

/-- A call with its reply. -/
abbrev Exchange {C : Type} (R : C → Type) : Type := (c : C) × R c

/-- The other side of a program: its reply to a call after some exchanges. -/
abbrev Behaviour {C : Type} (R : C → Type) : Type := List (Exchange R) → (c : C) → R c

namespace Prog

variable {C α β : Type} {R : C → Type}

/-- Run a program against a behaviour after some exchanges: all exchanges, and the returned value. -/
def play (b : Behaviour R) : Prog R α → List (Exchange R) → List (Exchange R) × α
  | ret a, past => (past, a)
  | call c next, past => play b (next (b past c)) (past ++ [⟨c, b past c⟩])

/-- Every call satisfies `J` after the exchanges before it, and what is returned satisfies `K` after
all exchanges. -/
def Guarded (J : List (Exchange R) → C → Prop) (K : α → List (Exchange R) → Prop) :
    Prog R α → List (Exchange R) → Prop
  | ret a, past => K a past
  | call c next, past => J past c ∧ ∀ r, Guarded J K (next r) (past ++ [⟨c, r⟩])

variable {J : List (Exchange R) → C → Prop} {K K' : α → List (Exchange R) → Prop} {p : Prog R α}
  {past : List (Exchange R)}

lemma exists_play_eq (b : Behaviour R) (p : Prog R α) (past : List (Exchange R)) :
    ∃ more, (p.play b past).1 = past ++ more := by
  induction p generalizing past with
  | ret => exact ⟨[], (append_nil past).symm⟩
  | call c next ih =>
    obtain ⟨more, hmore⟩ := ih (b past c) (past ++ [⟨c, b past c⟩])
    refine ⟨⟨c, b past c⟩ :: more, ?_⟩
    rw [play, hmore, append_assoc, singleton_append]

lemma Guarded.returns (h : p.Guarded J K past) (b : Behaviour R) :
    K (p.play b past).2 (p.play b past).1 := by
  induction p generalizing past with
  | ret => exact h
  | call c next ih => exact ih _ (h.2 _)

lemma Guarded.allows (h : p.Guarded J K past) (b : Behaviour R) {before after : List (Exchange R)}
    {e : Exchange R} (heq : (p.play b past).1 = past ++ before ++ e :: after) :
    J (past ++ before) e.1 := by
  induction p generalizing past before with
  | ret =>
    have hlength := congrArg List.length heq
    simp [play] at hlength
  | call c next ih =>
    obtain ⟨more, hmore⟩ := exists_play_eq b (next (b past c)) (past ++ [⟨c, b past c⟩])
    rw [play] at heq
    rcases before with _ | ⟨e', before⟩
    · -- the first call of the run
      rw [hmore, append_nil, append_assoc, append_cancel_left_eq,
        singleton_append, List.cons.injEq] at heq
      rw [append_nil, ← heq.1]
      exact h.1
    have hfirst := heq
    rw [hmore, append_assoc, append_assoc, append_cancel_left_eq,
      singleton_append, cons_append, List.cons.injEq] at hfirst
    rw [← hfirst.1] at heq ⊢
    have hgoes : J (past ++ [⟨c, b past c⟩] ++ before) e.1 := ih _ (h.2 _) (heq.trans (by simp))
    rwa [append_assoc, singleton_append] at hgoes

@[simp] lemma guarded_bind {p : Prog R β} {f : β → Prog R α} :
    (p >>= f).Guarded J K past ↔ p.Guarded J (fun b past => (f b).Guarded J K past) past := by
  induction p generalizing past with
  | ret => exact Iff.rfl
  | call c next ih => exact and_congr_right fun _ => forall_congr' fun r => ih r

variable {c : C}

lemma guarded_request_bind {f : R c → Prog R α} : (request c >>= f).Guarded J K past ↔
      J past c ∧ ∀ r, (f r).Guarded J K (past ++ [⟨c, r⟩]) :=
  Iff.rfl

lemma Guarded.mono (h : p.Guarded J K past) (hK : ∀ a past, K a past → K' a past) :
    p.Guarded J K' past := by
  induction p generalizing past with
  | ret a => exact hK a past h
  | call c next ih => exact ⟨h.1, fun r => ih r (h.2 r)⟩

/-- A program is guarded when each of its calls is allowed after anything; all it adds are such
calls. -/
lemma Makes.guarded {P : C → Prop} (h : p.Makes P) (hJ : ∀ past c, P c → J past c)
    (past : List (Exchange R)) :
    p.Guarded J (fun _ after => ∃ more, after = past ++ more ∧ ∀ e ∈ more, P e.1) past := by
  induction p generalizing past with
  | ret => exact ⟨[], (append_nil past).symm, by simp⟩
  | call c next ih =>
    refine ⟨hJ past c h.1, fun r => (ih r (h.2 r) (past ++ [⟨c, r⟩])).mono ?_⟩
    rintro a after ⟨more, rfl, hmore⟩
    refine ⟨⟨c, r⟩ :: more, by simp, fun e he => ?_⟩
    rcases mem_cons.mp he with rfl | he
    · exact h.1
    · exact hmore e he

end Prog

/-- At most one element satisfies a condition when none in front of such an element does. -/
lemma countP_le_one {α : Type} {P : α → Bool} {l : List α}
    (h : ∀ before x after, l = before ++ x :: after → P x = true → ∀ y ∈ before, P y = false) :
    l.countP P ≤ 1 := by
  induction l with
  | nil => simp
  | cons a l ih =>
    rcases ha : P a with _ | _
    · rw [countP_cons_of_neg (by simp [ha])]
      refine ih fun before x after hl hx y hy => ?_
      exact h (a :: before) x after (by rw [hl, cons_append]) hx y (mem_cons_of_mem _ hy)
    have hnone : l.countP P = 0 := by
      rw [countP_eq_zero]
      intro x hx hPx
      obtain ⟨before, after, rfl⟩ := append_of_mem hx
      have hfirst := h (a :: before) x after rfl hPx a mem_cons_self
      rw [ha] at hfirst
      cases hfirst
    rw [countP_cons_of_pos ha]
    omega

end Paperboat

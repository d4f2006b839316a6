import Mathlib

/-!
# Programs that can be cut off

A program makes calls and goes on with their replies. What a call does is up to an
interpretation, which also gets the fate of the call; where the list of fates ends, the program is cut
off. `Safe` is the weakest precondition of a program under rules for fates and cuts, and `Parallel` is
the same for two executions with the same fates from two states.
-/

namespace Paperboat

/-- A program: it returns a value, or makes a call and goes on with the reply. -/
inductive Prog {C : Type} (R : C → Type) (α : Type) : Type where
  | ret (a : α)
  | call (c : C) (next : R c → Prog R α)

/-- How an execution ends. -/
inductive Ending (σ α : Type) : Type where
  | finished (a : α) (s : σ)
  | cut (s : σ)

/-- The end of an execution satisfies the one condition or the other. -/
def Ending.Satisfies {σ α : Type} (Q : α → σ → Prop) (X : σ → Prop) : Ending σ α → Prop
  | finished a s => Q a s
  | cut s => X s

/-- Two executions end in the same way. -/
def Ending.Alike {σ α : Type} (Q : α → σ → σ → Prop) (X : σ → σ → Prop) : Ending σ α → Ending σ α → Prop
  | finished a₁ s₁, finished a₂ s₂ => a₁ = a₂ ∧ Q a₁ s₁ s₂
  | cut s₁, cut s₂ => X s₁ s₂
  | _, _ => False

/-- The result of an execution that has come to its end. -/
def Ending.result {σ α : Type} : Ending σ α → Option α
  | finished a _ => some a
  | cut _ => none

lemma Ending.Alike.result_eq {σ α : Type} {Q : α → σ → σ → Prop} {X : σ → σ → Prop} {e₁ e₂ : Ending σ α}
    (h : Alike Q X e₁ e₂) : e₁.result = e₂.result := by
  cases e₁ <;> cases e₂ <;> first | exact h.elim | rfl | exact congrArg some h.1

/-- What may happen during an execution. -/
structure Rules (σ C F : Type) where
  /-- The fates that a call may meet in a state. -/
  allows : σ → C → F → Prop
  /-- The states in which the program may be cut off. -/
  mayCut : σ → Prop

namespace Prog

variable {C F σ α β : Type} {R : C → Type}

/-- Run a program, and another one on its result. -/
def bind : Prog R α → (α → Prog R β) → Prog R β
  | ret a, f => f a
  | call c next, f => call c fun r => (next r).bind f

instance : Monad (Prog R) where
  pure := ret
  bind := bind

/-- One call. -/
def request (c : C) : Prog R (R c) := call c ret

/-- The same program with its calls embedded into other ones. -/
def lift {C' : Type} {R' : C' → Type} (f : C → C') (back : ∀ c, R' (f c) → R c) :
    Prog R α → Prog R' α
  | ret a => ret a
  | call c next => call (f c) fun r => (next (back c r)).lift f back

variable {C' : Type}

lemma lift_bind {R' : C' → Type} (f : C → C') (back : ∀ c, R' (f c) → R c) (p : Prog R β)
    (g : β → Prog R α) :
    (p >>= g).lift f back = p.lift f back >>= fun b => (g b).lift f back := by
  induction p with
  | ret => rfl
  | call c next ih => exact congrArg (call (f c)) (funext fun r => ih (back c r))

/-- Every call that the program can make satisfies the condition. -/
def Makes (P : C → Prop) : Prog R α → Prop
  | ret _ => True
  | call c next => P c ∧ ∀ r, (next r).Makes P

variable {P : C → Prop} {f : β → Prog R α}

lemma Makes.bind {p : Prog R β} (hp : p.Makes P) (hf : ∀ b, (f b).Makes P) : (p >>= f).Makes P := by
  induction p with
  | ret b => exact hf b
  | call c next ih => exact ⟨hp.1, fun r => ih r (hp.2 r)⟩

variable {c : C}

lemma Makes.request_bind {f : R c → Prog R α} (hc : P c) (hf : ∀ r, (f r).Makes P) :
    (request c >>= f).Makes P :=
  ⟨hc, hf⟩

variable {p : Prog R α}

lemma Makes.mono {P' : C → Prop} (hp : p.Makes P) (h : ∀ c, P c → P' c) : p.Makes P' := by
  induction p with
  | ret => trivial
  | call c next ih => exact ⟨h c hp.1, fun r => ih r (hp.2 r)⟩

lemma Makes.of_forall (h : ∀ c, P c) (p : Prog R α) : p.Makes P := by
  induction p with
  | ret => trivial
  | call c next ih => exact ⟨h c, ih⟩

lemma Makes.lift {R' : C' → Type} {f : C → C'} {back : ∀ c, R' (f c) → R c} {P : C' → Prop}
    (hp : p.Makes fun c => P (f c)) : (p.lift f back).Makes P := by
  induction p with
  | ret => trivial
  | call c next ih => exact ⟨hp.1, fun r => ih _ (hp.2 _)⟩

variable (perform : σ → (c : C) → F → σ × R c)

/-- Execute a program from a state with the fates of its calls. -/
def exec : Prog R α → σ → List F → Ending σ α
  | ret a, s, _ => .finished a s
  | call _ _, s, [] => .cut s
  | call c next, s, f :: fates => exec (next (perform s c f).2) (perform s c f).1 fates

lemma exec_request_bind (c : C) (f : R c → Prog R α) (s : σ) (fate : F) (fates : List F) :
    (request c >>= f).exec perform s (fate :: fates) =
      (f (perform s c fate).2).exec perform (perform s c fate).1 fates :=
  rfl

lemma exec_request_bind_bind (c : C) (f : R c → Prog R β) (g : β → Prog R α) (s : σ) (fate : F)
    (fates : List F) :
    ((request c >>= f) >>= g).exec perform s (fate :: fates) =
      (f (perform s c fate).2 >>= g).exec perform (perform s c fate).1 fates :=
  rfl

/-- The execution keeps to the rules. -/
def Obeys (rules : Rules σ C F) : Prog R α → σ → List F → Prop
  | ret _, _, _ => True
  | call _ _, s, [] => rules.mayCut s
  | call c next, s, f :: fates =>
    rules.allows s c f ∧ Obeys rules (next (perform s c f).2) (perform s c f).1 fates

/-- Decide whether an execution keeps to rules that can be decided. -/
def decidableObeys (rules : Rules σ C F) (allows : ∀ s c f, Decidable (rules.allows s c f))
    (mayCut : ∀ s, Decidable (rules.mayCut s)) :
    (p : Prog R α) → (s : σ) → (fates : List F) → Decidable (p.Obeys perform rules s fates)
  | ret _, _, _ => .isTrue trivial
  | call _ _, s, [] => mayCut s
  | call c next, s, f :: fates =>
    @instDecidableAnd _ _ (allows s c f)
      (decidableObeys rules allows mayCut (next (perform s c f).2) (perform s c f).1 fates)

/-- Every execution that keeps to the rules returns in a state with `Q`, or is cut off in a state
with `X`. -/
def Safe (rules : Rules σ C F) (Q : α → σ → Prop) (X : σ → Prop) : Prog R α → σ → Prop
  | ret a, s => Q a s
  | call c next, s => (rules.mayCut s → X s) ∧
      ∀ f, rules.allows s c f → Safe rules Q X (next (perform s c f).2) (perform s c f).1

variable {perform} {rules : Rules σ C F} {Q Q' : α → σ → Prop} {X X' : σ → Prop}

variable {s : σ} {fates : List F}

/-- A safe program ends as promised when the execution keeps to the rules. -/
lemma Safe.exec (h : p.Safe perform rules Q X s) (ho : p.Obeys perform rules s fates) :
    (p.exec perform s fates).Satisfies Q X := by
  induction p generalizing s fates with
  | ret => exact h
  | call c next ih =>
    cases fates with
    | nil => exact h.1 ho
    | cons f => exact ih _ (h.2 f ho.1) ho.2

lemma Obeys.mono {rules' : Rules σ C F} (h : p.Obeys perform rules s fates)
    (hallows : ∀ s c f, rules.allows s c f → rules'.allows s c f)
    (hcut : ∀ s, rules.mayCut s → rules'.mayCut s) : p.Obeys perform rules' s fates := by
  induction p generalizing s fates with
  | ret => trivial
  | call c next ih =>
    cases fates with
    | nil => exact hcut s h
    | cons f => exact ⟨hallows s c f h.1, ih _ h.2⟩

lemma Obeys.of_forall (hallows : ∀ s c f, rules.allows s c f) (hcut : ∀ s, rules.mayCut s)
    (p : Prog R α) (s : σ) (fates : List F) : p.Obeys perform rules s fates := by
  induction p generalizing s fates with
  | ret => trivial
  | call c next ih =>
    cases fates with
    | nil => exact hcut s
    | cons f fates => exact ⟨hallows s c f, ih _ _ fates⟩

variable {fate : F}

/-- A program that is safe when every call has the same fate and nothing is cut off comes to its end,
given enough fates. -/
lemma Safe.exists_exec (h : p.Safe perform ⟨fun _ _ f => f = fate, fun _ => False⟩ Q X s) :
    ∃ n a s', p.exec perform s (List.replicate n fate) = .finished a s' ∧ Q a s' := by
  induction p generalizing s with
  | ret a => exact ⟨0, a, s, rfl, h⟩
  | call c next ih =>
    obtain ⟨n, a, s', hexec, hQ⟩ := ih _ (h.2 fate rfl)
    exact ⟨n + 1, a, s', hexec, hQ⟩

/-- A program that is safe when the fate of every call is a given one, and nothing is cut off, comes to
its end. -/
lemma Safe.exists_finished {fate : C → F}
    (h : p.Safe perform ⟨fun _ c f => f = fate c, fun _ => False⟩ Q X s) :
    ∃ fates a s', p.exec perform s fates = .finished a s' ∧ Q a s' := by
  induction p generalizing s with
  | ret a => exact ⟨[], a, s, rfl, h⟩
  | call c next ih =>
    obtain ⟨fates, a, s', hexec, hQ⟩ := ih _ (h.2 (fate c) rfl)
    exact ⟨fate c :: fates, a, s', hexec, hQ⟩

/-- Weakening both conditions, where it is known that the program may be cut off. -/
lemma Safe.mono_cut (h : p.Safe perform rules Q X s) (hQ : ∀ a s, Q a s → Q' a s)
    (hX : ∀ s, rules.mayCut s → X s → X' s) :
    p.Safe perform rules Q' X' s := by
  induction p generalizing s with
  | ret a => exact hQ a s h
  | call c next ih => exact ⟨fun hc => hX s hc (h.1 hc), fun f hf => ih _ (h.2 f hf)⟩

lemma Safe.mono (h : p.Safe perform rules Q X s) (hQ : ∀ a s, Q a s → Q' a s) (hX : ∀ s, X s → X' s) :
    p.Safe perform rules Q' X' s :=
  h.mono_cut hQ fun s _ => hX s

variable {a : α}

lemma exec_append_of_finished {s' : σ} (h : p.exec perform s fates = .finished a s') (more : List F) :
    p.exec perform s (fates ++ more) = .finished a s' := by
  induction p generalizing s fates with
  | ret => exact h
  | call c next ih =>
    cases fates with
    | nil => cases h
    | cons => exact ih _ h

/-- Two executions with the same fate for every call that come to their ends agree. -/
lemma exec_replicate_unique {s₁ s₂ : σ} {a₁ a₂ : α} {n₁ n₂ : Nat}
    (h₁ : p.exec perform s (List.replicate n₁ fate) = .finished a₁ s₁)
    (h₂ : p.exec perform s (List.replicate n₂ fate) = .finished a₂ s₂) : a₁ = a₂ := by
  have hlong₁ := exec_append_of_finished h₁ (List.replicate n₂ fate)
  have hlong₂ := exec_append_of_finished h₂ (List.replicate n₁ fate)
  rw [List.replicate_append_replicate] at hlong₁ hlong₂
  rw [Nat.add_comm n₁, hlong₂] at hlong₁
  exact (Ending.finished.inj hlong₁).1.symm

@[simp] lemma safe_pure : (pure a : Prog R α).Safe perform rules Q X s ↔ Q a s := Iff.rfl

/-- Two programs one after the other: the first has to reach a state from which the second is
safe. -/
@[simp] lemma safe_bind {p : Prog R β} : (p >>= f).Safe perform rules Q X s ↔
      p.Safe perform rules (fun b s => (f b).Safe perform rules Q X s) X s := by
  induction p generalizing s with
  | ret => exact Iff.rfl
  | call c next ih => exact and_congr_right fun _ => forall_congr' fun fate => forall_congr' fun _ => ih _

lemma safe_request {Q : R c → σ → Prop} :
    (request c : Prog R (R c)).Safe perform rules Q X s ↔ (rules.mayCut s → X s) ∧
      ∀ f, rules.allows s c f → Q (perform s c f).2 (perform s c f).1 :=
  Iff.rfl

/-! ### Two executions -/

variable (perform) in
/-- The executions of a program from two states, with the same fates, get the same replies and end in
states that satisfy `Q` if the program returns and `X` if it is cut off. -/
def Parallel (Q : α → σ → σ → Prop) (X : σ → σ → Prop) : Prog R α → σ → σ → Prop
  | ret a, s₁, s₂ => Q a s₁ s₂
  | call c next, s₁, s₂ => X s₁ s₂ ∧ ∀ f, (perform s₁ c f).2 = (perform s₂ c f).2 ∧
      Parallel Q X (next (perform s₁ c f).2) (perform s₁ c f).1 (perform s₂ c f).1

variable {Q₂ Q₂' : α → σ → σ → Prop} {X₂ X₂' : σ → σ → Prop} {p : Prog R α} {s₁ s₂ : σ}

lemma Parallel.exec (h : p.Parallel perform Q₂ X₂ s₁ s₂) (fates : List F) :
    Ending.Alike Q₂ X₂ (p.exec perform s₁ fates) (p.exec perform s₂ fates) := by
  induction p generalizing s₁ s₂ fates with
  | ret => exact ⟨rfl, h⟩
  | call c next ih =>
    rcases fates with _ | ⟨f, fates⟩
    · exact h.1
    obtain ⟨hreply, hnext⟩ := h.2 f
    have hend := ih _ hnext fates
    simp only [Prog.exec]
    rwa [← hreply]

lemma Parallel.mono (h : p.Parallel perform Q₂ X₂ s₁ s₂) (hQ : ∀ a s₁ s₂, Q₂ a s₁ s₂ → Q₂' a s₁ s₂)
    (hX : ∀ s₁ s₂, X₂ s₁ s₂ → X₂' s₁ s₂) :
    p.Parallel perform Q₂' X₂' s₁ s₂ := by
  induction p generalizing s₁ s₂ with
  | ret a => exact hQ a s₁ s₂ h
  | call c next ih =>
    refine ⟨hX s₁ s₂ h.1, fun f => ?_⟩
    obtain ⟨hreply, hnext⟩ := h.2 f
    exact ⟨hreply, ih _ hnext⟩

lemma parallel_bind {p : Prog R β} {f : β → Prog R α} : (p >>= f).Parallel perform Q₂ X₂ s₁ s₂ ↔
      p.Parallel perform (fun b s₁ s₂ => (f b).Parallel perform Q₂ X₂ s₁ s₂) X₂ s₁ s₂ := by
  induction p generalizing s₁ s₂ with
  | ret => exact Iff.rfl
  | call c next ih =>
    exact and_congr_right fun _ => forall_congr' fun fate => and_congr_right fun _ => ih _

lemma Parallel.of_makes {P : C → Prop} {S : σ → σ → Prop} (hcall : ∀ c s₁ s₂ f, P c → S s₁ s₂ →
      (perform s₁ c f).2 = (perform s₂ c f).2 ∧ S (perform s₁ c f).1 (perform s₂ c f).1) (hp : p.Makes P)
    (h : S s₁ s₂) :
    p.Parallel perform (fun _ => S) S s₁ s₂ := by
  induction p generalizing s₁ s₂ with
  | ret => exact h
  | call c next ih =>
    refine ⟨h, fun f => ?_⟩
    obtain ⟨hreply, hstep⟩ := hcall c s₁ s₂ f hp.1 h
    exact ⟨hreply, ih _ (hp.2 _) hstep⟩

end Prog

end Paperboat

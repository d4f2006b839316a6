import Paperboat.Lib.FinMap
import Paperboat.Lib.Prog
import Paperboat.Lib.Transition

/-!
# Programs in parallel

Any number of operations, each a program, are in progress at a time. A move starts an operation, makes
the next call of a thread, or crashes the machine, which loses every thread. A call is atomic, and it
can wait, in which case the move is not enabled.

`RelyGuarantee` is what is needed to follow one thread at a time, `Guarded` is the weakest precondition of
a program between the steps of others, and `RelyGuarantee.run` puts the threads together.
-/

namespace Paperboat

open FinMap

/-- A machine: its operations, what a call of a thread does, and what a crash leaves. -/
structure Machine (σ : Type) {C : Type} (R : C → Type) (F O α : Type) where
  program : O → Prog R α
  perform : ℕ → σ → (c : C) → F → Option (σ × R c)
  restart : σ → σ

/-- The shared state, and what is left to do on each thread. -/
structure Pool (σ : Type) {C : Type} (R : C → Type) (α : Type) where
  shared : σ
  threads : FinMap ℕ (Prog R α)

/-- A move of a machine. -/
inductive Move (F O : Type) where
  /-- An operation starts on a new thread. -/
  | start (i : ℕ) (o : O)
  /-- A thread makes its next call. -/
  | call (i : ℕ) (f : F)
  /-- The machine stops and starts again. -/
  | crash

/-- The moves that are considered. -/
structure Conduct (σ C F O : Type) where
  mayStart : σ → O → Prop
  allows : ℕ → σ → C → F → Prop
  mayCrash : σ → Prop

variable {σ C F O α β : Type} {R : C → Type}

/-- The program has returned. -/
def Prog.finished : Prog R α → Bool
  | .ret _ => true
  | .call _ _ => false

/-- No operation is in progress. -/
def Pool.quiet (p : Pool σ R α) : Bool := p.threads.entries.all fun e => e.2.finished

/-- A pool with nothing to do. -/
def Pool.idle (s : σ) : Pool σ R α := ⟨s, ∅⟩

/-- One move. -/
def Machine.step (m : Machine σ R F O α) (p : Pool σ R α) : Move F O → Option (Pool σ R α)
  | .start i o =>
    if (p.threads.lookup i).isNone then some ⟨p.shared, p.threads.insert i (m.program o)⟩ else none
  | .call i f =>
    match p.threads.lookup i with
    | some (.call c next) =>
      (m.perform i p.shared c f).map fun r => ⟨r.1, p.threads.insert i (next r.2)⟩
    | _ => none
  | .crash => some ⟨m.restart p.shared, ∅⟩

/-- The move is one of those that are considered. -/
def Conduct.Permits (w : Conduct σ C F O) (p : Pool σ R α) : Move F O → Prop
  | .start _ o => w.mayStart p.shared o
  | .call i f =>
    match p.threads.lookup i with
    | some (.call c _) => w.allows i p.shared c f
    | _ => True
  | .crash => w.mayCrash p.shared

/-- Which moves are considered can be decided if the parts of the conduct can. -/
def Conduct.decidablePermits (w : Conduct σ C F O)
    (mayStart : ∀ s o, Decidable (w.mayStart s o)) (allows : ∀ i s c f, Decidable (w.allows i s c f))
    (mayCrash : ∀ s, Decidable (w.mayCrash s)) (p : Pool σ R α) :
    (a : Move F O) → Decidable (w.Permits p a)
  | .start _ o => mayStart p.shared o
  | .call i f =>
    match h : p.threads.lookup i with
    | some (.call c _) => decidable_of_iff (w.allows i p.shared c f) (by simp [Permits, h])
    | some (.ret _) => .isTrue (by simp [Permits, h])
    | none => .isTrue (by simp [Permits, h])
  | .crash => mayCrash p.shared

/-- What a thread relies on the others for, what every step guarantees, and what holds for a thread
that is not in use or has returned. -/
structure RelyGuarantee (σ α : Type) where
  /-- Holds in every state. -/
  Inv : σ → Prop
  /-- How the state can change between two calls of a thread. -/
  rely : ℕ → σ → σ → Prop
  /-- How the state can change at all. -/
  guarantee : σ → σ → Prop
  /-- Holds for a thread that is not in use. -/
  Idle : ℕ → σ → Prop
  /-- Holds for a thread that has returned. -/
  Done : ℕ → α → σ → Prop
  rely_refl : ∀ i s, rely i s s
  rely_trans : ∀ i {s₁ s₂ s₃}, rely i s₁ s₂ → rely i s₂ s₃ → rely i s₁ s₃
  guarantee_refl : ∀ s, guarantee s s
  guarantee_trans : ∀ {s₁ s₂ s₃}, guarantee s₁ s₂ → guarantee s₂ s₃ → guarantee s₁ s₃
  idle_stable : ∀ i {s s'}, rely i s s' → Idle i s → Idle i s'
  done_stable : ∀ i a {s s'}, rely i s s' → Done i a s → Done i a s'

namespace RelyGuarantee

variable (rg : RelyGuarantee σ α) (m : Machine σ R F O α) (w : Conduct σ C F O)

/-- A step of a thread as the other threads expect it. -/
structure Legal (i : ℕ) (s s' : σ) : Prop where
  inv : rg.Inv s'
  guarantee : rg.guarantee s s'
  rely : ∀ j, j ≠ i → rg.rely j s s'

variable {rg} in
/-- Two steps of a thread in a row are like one. -/
lemma Legal.trans {i : ℕ} {s₁ s₂ s₃ : σ} (h : rg.Legal i s₁ s₂) (h' : rg.Legal i s₂ s₃) :
    rg.Legal i s₁ s₃ :=
  ⟨h'.inv, rg.guarantee_trans h.guarantee h'.guarantee,
    fun j hj => rg.rely_trans j (h.rely j hj) (h'.rely j hj)⟩

/-- From the state on, between steps of other threads, every call of the program is legal, and the
program returns with `Q`. -/
def Guarded (perform : ℕ → σ → (c : C) → F → Option (σ × R c)) (i : ℕ) (Q : β → σ → Prop) :
    Prog R β → σ → Prop
  | .ret b, s => Q b s
  | .call c next, s => ∀ s₁, rg.rely i s s₁ → rg.Inv s₁ → ∀ f s₂ r, w.allows i s₁ c f →
      perform i s₁ c f = some (s₂, r) → rg.Legal i s₁ s₂ ∧ Guarded perform i Q (next r) s₂

variable {rg w} {perform : ℕ → σ → (c : C) → F → Option (σ × R c)} {i : ℕ}

variable {Q : β → σ → Prop} {p : Prog R β} {s : σ}

lemma Guarded.stable {s' : σ} (hQ : ∀ b s s', rg.rely i s s' → Q b s → Q b s')
    (h : rg.Guarded w perform i Q p s) (hrely : rg.rely i s s') : rg.Guarded w perform i Q p s' := by
  cases p with
  | ret b => exact hQ b s s' hrely h
  | call => exact fun s₁ hrely' => h s₁ (rg.rely_trans i hrely hrely')

lemma Guarded.mono {Q' : β → σ → Prop} (hQ : ∀ b s, Q b s → Q' b s) (h : rg.Guarded w perform i Q p s) :
    rg.Guarded w perform i Q' p s := by
  induction p generalizing s with
  | ret b => exact hQ b s h
  | call c next ih =>
    intro s₁ hrely hinv f s₂ r hallowed hperform
    obtain ⟨hlegal, hnext⟩ := h s₁ hrely hinv f s₂ r hallowed hperform
    exact ⟨hlegal, ih r hnext⟩

lemma guarded_bind {γ : Type} {Q : γ → σ → Prop} {f : β → Prog R γ} :
    rg.Guarded w perform i Q (p >>= f) s ↔
      rg.Guarded w perform i (fun b s => rg.Guarded w perform i Q (f b) s) p s := by
  induction p generalizing s with
  | ret => exact Iff.rfl
  | call c next ih =>
    constructor
    · intro h s₁ hrely hinv f s₂ r hallowed hperform
      obtain ⟨hlegal, hnext⟩ := h s₁ hrely hinv f s₂ r hallowed hperform
      exact ⟨hlegal, (ih r).mp hnext⟩
    · intro h s₁ hrely hinv f s₂ r hallowed hperform
      obtain ⟨hlegal, hnext⟩ := h s₁ hrely hinv f s₂ r hallowed hperform
      exact ⟨hlegal, (ih r).mpr hnext⟩

/-- Two programs one after the other. -/
lemma Guarded.bind {γ : Type} {Q' : γ → σ → Prop} {f : β → Prog R γ} (h : rg.Guarded w perform i Q p s)
    (hf : ∀ b s, Q b s → rg.Guarded w perform i Q' (f b) s) : rg.Guarded w perform i Q' (p >>= f) s :=
  guarded_bind.mpr (h.mono hf)

variable {K : σ → Prop}

/-- One call: what the thread knows has to survive the others, and then allow the call. -/
lemma guarded_request {c : C} {Q : R c → σ → Prop} (hs : K s)
    (hstable : ∀ s s', rg.rely i s s' → rg.Inv s' → K s → K s')
    (hcall : ∀ s f s' r, K s → rg.Inv s → w.allows i s c f → perform i s c f = some (s', r) →
      rg.Legal i s s' ∧ Q r s') :
    rg.Guarded w perform i Q (Prog.request c) s := by
  intro s₁ hrely hinv f s₂ r hallowed hperform
  exact hcall s₁ f s₂ r (hstable s s₁ hrely hinv hs) hinv hallowed hperform

lemma Guarded.of_makes {P : C → Prop} (hstable : ∀ s s', rg.rely i s s' → rg.Inv s' → K s → K s')
    (hcall : ∀ c s f s' r, P c → K s → rg.Inv s → w.allows i s c f → perform i s c f = some (s', r) →
      rg.Legal i s s' ∧ K s') (hp : p.Makes P) (hs : K s) :
    rg.Guarded w perform i (fun _ s => K s) p s := by
  induction p generalizing s with
  | ret => exact hs
  | call c next ih =>
    intro s₁ hrely hinv f s₂ r hallowed hperform
    obtain ⟨hlegal, hK⟩ := hcall c s₁ f s₂ r hp.1 (hstable s s₁ hrely hinv hs) hinv hallowed hperform
    exact ⟨hlegal, ih r (hp.2 r) hK⟩

variable (rg w)

/-- The pool is as the discipline wants it: every thread is not in use or has a guarded program. -/
structure Sound (p : Pool σ R α) : Prop where
  inv : rg.Inv p.shared
  idle : ∀ i, p.threads.lookup i = none → rg.Idle i p.shared
  guarded : ∀ i q, p.threads.lookup i = some q →
    rg.Guarded w m.perform i (rg.Done i) q p.shared

/-- The operations and the crashes of a machine keep to the discipline. -/
structure Disciplined : Prop where
  program : ∀ o i s, w.mayStart s o → rg.Inv s → rg.Idle i s →
    rg.Guarded w m.perform i (rg.Done i) (m.program o) s
  crash : ∀ s, rg.Inv s → w.mayCrash s →
    rg.Inv (m.restart s) ∧ rg.guarantee s (m.restart s) ∧ ∀ i, rg.Idle i (m.restart s)

variable {rg w m}

lemma Sound.init (hinv : rg.Inv s) (hidle : ∀ i, rg.Idle i s) : rg.Sound m w (Pool.idle s) where
  inv := hinv
  idle i _ := hidle i
  guarded i q hq := by simp [Pool.idle] at hq

variable {p' : Pool σ R α}

lemma Sound.step (hm : rg.Disciplined m w) {p : Pool σ R α} {a : Move F O} (hp : rg.Sound m w p)
    (hw : w.Permits p a) (hstep : m.step p a = some p') :
    rg.Sound m w p' ∧ rg.guarantee p.shared p'.shared := by
  cases a with
  | start i o =>
    simp only [Machine.step, Option.isNone_iff_eq_none] at hstep
    split at hstep
    · next hi =>
      cases hstep
      refine ⟨⟨hp.inv, fun j hj => ?_, forall_insert (hm.program o _ _ hw hp.inv (hp.idle _ hi))
        fun j q hq _ => hp.guarded j q hq⟩, rg.guarantee_refl _⟩
      rw [lookup_insert_eq] at hj
      split at hj
      · cases hj
      · exact hp.idle j hj
    · cases hstep
  | call i f =>
    simp only [Machine.step] at hstep
    simp only [Conduct.Permits] at hw
    split at hstep
    · next c next hi =>
      rw [hi] at hw
      obtain ⟨⟨s', r⟩, hperform, rfl⟩ := Option.map_eq_some_iff.mp hstep
      obtain ⟨hlegal, hnext⟩ := hp.guarded i _ hi _ (rg.rely_refl i _) hp.inv f s' r hw hperform
      refine ⟨⟨hlegal.inv, fun j hj => ?_, forall_insert hnext fun j q hq hji =>
        (hp.guarded j q hq).stable (fun a _ _ => rg.done_stable j a) (hlegal.rely j hji)⟩, hlegal.guarantee⟩
      rw [lookup_insert_eq] at hj
      split at hj
      · cases hj
      · next hji => exact rg.idle_stable j (hlegal.rely j hji) (hp.idle j hj)
    · cases hstep
  | crash =>
    cases hstep
    obtain ⟨hinv, hguarantee, hidle⟩ := hm.crash p.shared hp.inv hw
    exact ⟨.init hinv hidle, hguarantee⟩

lemma Sound.run (hm : rg.Disciplined m w) {p : Pool σ R α} {l : List (Move F O)} (hp : rg.Sound m w p)
    (hw : Meets m.step w.Permits p l) (hrun : Paperboat.run m.step p l = some p') :
    rg.Sound m w p' ∧ rg.guarantee p.shared p'.shared := by
  induction l generalizing p with
  | nil =>
    cases hrun
    exact ⟨hp, rg.guarantee_refl _⟩
  | cons a l ih =>
    obtain ⟨t, ht, hl⟩ := run_cons_eq_some.mp hrun
    obtain ⟨hpermits, hw⟩ := hw
    rw [ht] at hw
    obtain ⟨hsound, hfirst⟩ := hp.step hm hpermits ht
    obtain ⟨hsound', hrest⟩ := ih hsound hw hl
    exact ⟨hsound', rg.guarantee_trans hfirst hrest⟩

lemma Sound.done {p : Pool σ R α} (hp : rg.Sound m w p) {i : ℕ} {a : α}
    (hi : p.threads.lookup i = some (.ret a)) : rg.Done i a p.shared :=
  hp.guarded i _ hi

/-- When nothing is in progress every thread is not in use or has returned. -/
lemma Sound.idle_or_done {p : Pool σ R α} (hp : rg.Sound m w p) (hquiet : p.quiet = true) (i : ℕ) :
    rg.Idle i p.shared ∨ ∃ a, rg.Done i a p.shared := by
  rcases hi : p.threads.lookup i with _ | q
  · exact .inl (hp.idle i hi)
  have hmem := (lookup_eq_some_iff_mem _ _ _).mp hi
  have hq : q.finished = true := List.all_eq_true.mp hquiet _ hmem
  cases q with
  | ret a => exact .inr ⟨a, hp.done hi⟩
  | call => cases hq

end RelyGuarantee

end Paperboat

import Mathlib

/-!
# The lifecycle of a session

The model of `Lifecycle` in `internal/session/state.go`: the state of a session with the number of
processes started for it so far, its generation.
-/

namespace Paperboat.Session

/-- The state of a session. -/
inductive State where
  | creating
  | running
  | exited
  | restarting
  | closing
  | closed
  | deleted
  deriving DecidableEq

/-- The allowed changes of state. -/
def transitions : State → State → Bool
  | .creating, .running => true
  | .creating, .exited => true
  | .creating, .closed => true
  | .running, .exited => true
  | .running, .closing => true
  | .running, .restarting => true
  | .exited, .restarting => true
  | .exited, .closing => true
  | .exited, .deleted => true
  | .restarting, .running => true
  | .restarting, .exited => true
  | .restarting, .closed => true
  | .closing, .closed => true
  | .closed, .restarting => true
  | .closed, .deleted => true
  | _, _ => false

/-- `ErrInvalidTransition`, with the two states its text names where it comes from `Transition`. -/
inductive LifecycleError where
  | invalidTransition (states : Option (State × State))
  deriving DecidableEq

/-- The state of a session and its generation. -/
structure Lifecycle where
  state : State
  generation : ℕ
  deriving DecidableEq

/-- `NewLifecycle`. -/
def newLifecycle : Lifecycle := ⟨.creating, 0⟩

/-- `RecoverLifecycle`: every state has a row in the table of transitions, so only the generation is
checked. -/
def recoverLifecycle (state : State) (generation : ℕ) : Except LifecycleError Lifecycle :=
  if state = .creating ∧ generation ≠ 0 ∨
      (state = .running ∨ state = .exited ∨ state = .restarting ∨ state = .closing) ∧
        generation = 0 then
    .error (.invalidTransition none)
  else .ok ⟨state, generation⟩

/-- `Transition`. -/
def Lifecycle.transition (l : Lifecycle) (next : State) : Except LifecycleError Lifecycle :=
  if ¬ transitions l.state next then .error (.invalidTransition (some (l.state, next)))
  else if next = .running ∧ (l.state = .creating ∨ l.state = .restarting) then
    .ok ⟨next, l.generation + 1⟩
  else .ok ⟨next, l.generation⟩

/-- `Transition` where the source drops its error: a refused change leaves the state as it is. -/
def Lifecycle.transitionOrStay (l : Lifecycle) (next : State) : Lifecycle :=
  match l.transition next with
  | .ok l' => l'
  | .error _ => l

lemma Lifecycle.generation_transitionOrStay (l : Lifecycle) {next : State} (h : next ≠ .running) :
    (l.transitionOrStay next).generation = l.generation := by
  unfold transitionOrStay transition
  simp only [h, false_and, if_false]
  split
  · next hok =>
    split at hok
    · cases hok
    · rw [← Except.ok.inj hok]
  · rfl

variable {l : Lifecycle}

lemma Lifecycle.restart_eq (h : l.state = .exited ∨ l.state = .closed) :
    (l.transitionOrStay .restarting).transitionOrStay .running = ⟨.running, l.generation + 1⟩ := by
  obtain ⟨state, generation⟩ := l
  rcases h with h | h <;> obtain rfl := h <;> rfl

/-- A stored state is recovered exactly when a process had been started for every state that needs
one. -/
lemma recoverLifecycle_eq_ok {state : State} {generation : ℕ} :
    recoverLifecycle state generation = .ok l ↔
      l = ⟨state, generation⟩ ∧ (state = .creating → generation = 0) ∧
        (state = .running ∨ state = .exited ∨ state = .restarting ∨ state = .closing →
          generation ≠ 0) := by
  unfold recoverLifecycle
  split
  · next hbad =>
    constructor
    · intro h
      cases h
    · rintro ⟨-, hc, hg⟩
      rcases hbad with ⟨h, hne⟩ | ⟨h, hzero⟩
      · exact absurd (hc h) hne
      · exact absurd hzero (hg h)
  · next hgood =>
    push Not at hgood
    constructor
    · intro h
      exact ⟨(Except.ok.inj h).symm, hgood.1, hgood.2⟩
    · rintro ⟨rfl, -, -⟩
      rfl

end Paperboat.Session

import Paperboat.Lib.FinMap
import Paperboat.Lib.Transition

/-!
# The connector manager

The model of `internal/connector/manager.go`. `Accept` and the end of `Shutdown` exclude each other by
`opMu`; `Hold` says where the holder stands. Connections are lost, retired and closed by goroutines of
their own. Dialing, the loss of a connection and all timeouts are decided by the environment.

A connection that was dialed is active, retired, closed, or somebody is about to close it (`Accounted`).
Generations are compared with the active connection only, so that they increase as long as an admission
that finds none is not older than what was activated before (`fenced`).
-/

namespace Paperboat.Connector

open List Option

/-- `Admission`: what the manager compares, and whether the other fields pass their checks. -/
structure Admission where
  jti : String
  generation : ℕ
  expiresAt : ℤ
  wellFormed : Bool
  deriving DecidableEq

/-- The errors of `Accept` before it dials. -/
inductive AcceptError where
  | shuttingDown
  | admissionInvalid
  | admissionReplayed
  | generationStale
  deriving DecidableEq

/-- Where the holder of `opMu` stands. -/
inductive Hold where
  | dialing (admission : Admission)
  | dialed (admission : Admission) (connection : ℕ)
  /-- The manager was not stopping when the context was checked. -/
  | admitted (admission : Admission) (connection : ℕ)
  | refused (connection : ℕ)
  | retiring (old : ℕ)
  /-- `Shutdown`, with the connections that it has taken. -/
  | draining (connections : List ℕ)
  deriving DecidableEq

/-- The other goroutines: `WaitDisconnected`, `waitRetired`, and whoever is about to call `Close`, after
`Drain` or at once. -/
inductive Goroutine where
  | waiting (connection : ℕ)
  | awaitingRetired (connection : ℕ)
  | closing (connection : ℕ)
  deriving DecidableEq

/-- `Manager` and its connections, numbered as they were dialed. -/
structure Manager where
  used : FinMap String ℤ
  active : Option ℕ
  retired : List ℕ
  stopping : Bool
  opMu : Option Hold
  /-- The first `Shutdown` has taken the connections, and has returned. -/
  collected : Bool
  returned : Bool
  /-- The generation of each connection, and whether it is a `LifecycleConnection`. -/
  connections : List (ℕ × Bool)
  closed : List ℕ
  goroutines : List Goroutine
  /-- The last time that was read. -/
  clock : ℤ
  dials : List (Admission × ℤ)
  activated : List ℕ

/-- A step of a goroutine, with the answer of the environment. -/
inductive Event where
  | accept (admission : Admission) (now : ℤ)
  | dialFails (admission : Admission)
  | dialSucceeds (admission : Admission) (lifecycle : Bool)
  | checkContext (admission : Admission) (connection : ℕ)
  | activate (admission : Admission) (connection : ℕ)
  | refuse (connection : ℕ)
  | retire (old : ℕ) (fails : Bool)
  | waitDisconnected (connection : ℕ)
  | disconnected (connection : ℕ)
  | cancelWait (connection : ℕ)
  | retiredDone (connection : ℕ)
  | retiredCancelled (connection : ℕ)
  | close (connection : ℕ)
  | shutdown
  | collect
  | shutdownReturns (connections : List ℕ) (cancelled : Bool)
  deriving DecidableEq

namespace Manager

/-- A manager right after `New`, at some time. -/
def new (clock : ℤ) : Manager :=
  ⟨∅, none, [], false, none, false, false, [], [], [], clock, [], []⟩

/-- The generation of a connection. -/
def generationOf (s : Manager) (connection : ℕ) : ℕ := ((s.connections[connection]?).map Prod.fst).getD 0

/-- The connection is a `LifecycleConnection`. -/
def isLifecycle (s : Manager) (connection : ℕ) : Bool :=
  ((s.connections[connection]?).map Prod.snd).getD false

/-- The used identifiers without those that have expired. -/
def prune (used : FinMap String ℤ) (now : ℤ) : FinMap String ℤ :=
  used.restrict fun jti => (used.lookup jti).any (now < ·)

/-- The checks of `Accept` before it dials. -/
def check (s : Manager) (a : Admission) (now : ℤ) : Option AcceptError :=
  if s.stopping then some .shuttingDown
  else if a.jti = "" ∨ a.generation = 0 ∨ a.expiresAt ≤ now ∨ a.wellFormed = false then
    some .admissionInvalid
  else if ((prune s.used now).lookup a.jti).isSome then some .admissionReplayed
  else if a.generation < (s.active.map s.generationOf).getD 0 then some .generationStale
  else none

/-- `Accept` up to the call of the dialer. -/
def accept (s : Manager) (a : Admission) (now : ℤ) : Manager :=
  match s.check a now with
  | some .shuttingDown => s
  | some _ => { s with used := prune s.used now, clock := now }
  | none =>
    { s with
      used := (prune s.used now).insert a.jti a.expiresAt
      opMu := some (.dialing a)
      clock := now
      dials := s.dials ++ [(a, now)] }

/-- The connections that `Shutdown` takes. -/
def taken (s : Manager) : List ℕ := s.active.toList ++ s.retired

/-- When a step can be taken. -/
def enabled (s : Manager) : Event → Bool
  | .accept _ _ => s.opMu = none
  | .dialFails a | .dialSucceeds a _ => s.opMu = some (.dialing a)
  | .checkContext a c => s.opMu = some (.dialed a c)
  | .activate a c => s.opMu = some (.admitted a c)
  | .refuse c => s.opMu = some (.refused c)
  | .retire old _ => s.opMu = some (.retiring old)
  | .waitDisconnected c => s.active = some c ∧ s.isLifecycle c
  | .disconnected c | .cancelWait c => .waiting c ∈ s.goroutines
  | .retiredDone c => .awaitingRetired c ∈ s.goroutines
  | .retiredCancelled c => .awaitingRetired c ∈ s.goroutines ∧ s.isLifecycle c ∧ s.stopping
  | .close c => .closing c ∈ s.goroutines
  | .shutdown => true
  | .collect => s.stopping ∧ s.collected = false ∧ s.opMu = none
  | .shutdownReturns l cancelled => s.opMu = some (.draining l) ∧ (cancelled ∨ ∀ c ∈ l, c ∈ s.closed)

/-- The state after a step. -/
def next (s : Manager) : Event → Manager
  | .accept a now => s.accept a now
  | .dialFails _ => { s with opMu := none }
  | .dialSucceeds a lifecycle =>
    { s with
      connections := s.connections ++ [(a.generation, lifecycle)]
      opMu := some (.dialed a s.connections.length) }
  | .checkContext a c => { s with opMu := some (if s.stopping then .refused c else .admitted a c) }
  | .activate a c =>
    { s with
      active := some c
      retired := s.taken
      opMu := s.active.map .retiring
      activated := s.activated ++ [a.generation] }
  | .refuse c => { s with closed := c :: s.closed, opMu := none }
  | .retire old fails =>
    { s with
      closed := if fails then old :: s.closed else s.closed
      goroutines := .awaitingRetired old :: s.goroutines
      opMu := none }
  | .waitDisconnected c => { s with goroutines := .waiting c :: s.goroutines }
  | .disconnected c =>
    { s with
      active := if s.active = some c then none else s.active
      goroutines := .closing c :: s.goroutines.erase (.waiting c) }
  | .cancelWait c => { s with goroutines := s.goroutines.erase (.waiting c) }
  | .retiredDone c =>
    -- a connection that is no `LifecycleConnection` is closed without a look at the map
    if c ∈ s.retired ∨ s.isLifecycle c = false then
      { s with
        retired := s.retired.filter (· ≠ c)
        goroutines := .closing c :: s.goroutines.erase (.awaitingRetired c) }
    else { s with goroutines := s.goroutines.erase (.awaitingRetired c) }
  | .retiredCancelled c => { s with goroutines := s.goroutines.erase (.awaitingRetired c) }
  | .close c => { s with closed := c :: s.closed, goroutines := s.goroutines.erase (.closing c) }
  | .shutdown => { s with stopping := true }
  | .collect =>
    { s with
      active := none
      retired := []
      collected := true
      opMu := some (.draining s.taken)
      goroutines := s.taken.map .closing ++ s.goroutines }
  | .shutdownReturns l cancelled =>
    { s with
      closed := if cancelled then l ++ s.closed else s.closed
      opMu := none
      returned := true }

/-- A step of the manager. -/
def step (s : Manager) (e : Event) : Option Manager := if s.enabled e then some (s.next e) else none

variable {s s' : Manager} {e : Event}

lemma step_eq_some : s.step e = some s' ↔ s.enabled e = true ∧ s.next e = s' := by
  rw [step, ite_none_right_eq_some, some_inj]

/-! ### No connection is lost -/

/-- The connection that the holder of `opMu` will activate or close. -/
def Hold.connection : Hold → Option ℕ
  | .dialed _ c | .admitted _ c | .refused c => some c
  | _ => none

/-- The connection is active, retired, closed, or somebody will activate or close it. -/
def Accounted (s : Manager) (c : ℕ) : Prop :=
  s.active = some c ∨ c ∈ s.retired ∨ c ∈ s.closed ∨ s.opMu.bind Hold.connection = some c ∨
    .closing c ∈ s.goroutines

lemma accept_cases (s : Manager) (a : Admission) (now : ℤ) : ∃ used clock dials opMu,
    s.accept a now = { s with used, clock, dials, opMu } ∧
      (opMu = s.opMu ∨ opMu = some (.dialing a) ∧ s.check a now = none) := by
  unfold accept
  split
  · exact ⟨_, _, _, _, rfl, .inl rfl⟩
  · exact ⟨_, _, _, _, rfl, .inl rfl⟩
  · next hcheck => exact ⟨_, _, _, _, rfl, .inr ⟨rfl, hcheck⟩⟩

/-- Every step accounts for what was accounted for, and for a connection that was dialed. -/
lemma accounted_next (henabled : s.enabled e = true) {c : ℕ} (hc : c < (s.next e).connections.length)
    (h : c < s.connections.length → s.Accounted c) : (s.next e).Accounted c := by
  cases e with
  | accept a now =>
    obtain ⟨used, clock, dials, opMu, heq, hopMu⟩ := s.accept_cases a now
    have hfree : s.opMu = none := by simpa [enabled] using henabled
    simp only [next, heq] at hc ⊢
    have := h hc
    grind [Accounted, Hold.connection]
  -- the old connection becomes a retired one, and `Shutdown` gives each to a goroutine
  | activate a d | collect => grind [Accounted, Hold.connection, next, enabled, taken]
  | _ => grind [Accounted, Hold.connection, next, enabled]

/-- After the first `Shutdown` has taken the connections, nobody is about to activate another one. -/
structure Stopped (s : Manager) : Prop where
  returned : s.returned = true → s.collected = true
  draining : ∀ l, s.opMu = some (.draining l) → s.collected = true
  stopping : s.collected = true → s.stopping = true
  empty : s.collected = true → s.active = none ∧ s.retired = []
  idle : s.collected = true → s.opMu = none ∨ ∃ l, s.opMu = some (.draining l)

lemma Stopped.next (h : s.Stopped) (henabled : s.enabled e = true) : (s.next e).Stopped ∧
    (s.collected = true → (s.next e).collected = true ∧ (s.next e).activated = s.activated) := by
  obtain ⟨hreturned, hdraining, hstopping, hempty, hidle⟩ := h
  cases e with
  | accept a now =>
    obtain ⟨used, clock, dials, opMu, heq, hopMu⟩ := s.accept_cases a now
    have hcheck : s.stopping = true → s.check a now = some .shuttingDown := fun h => by simp [check, h]
    simp only [Manager.next, heq]
    refine ⟨⟨hreturned, ?_, hstopping, hempty, ?_⟩, fun h => ⟨h, trivial⟩⟩ <;> grind
  | activate _ _ | dialFails _ | dialSucceeds _ _ | checkContext _ _ | refuse _ | retire _ _ =>
    -- the holder of `opMu` is not `Shutdown`
    have hnot : s.collected ≠ true := by grind [enabled]
    refine ⟨⟨?_, ?_, ?_, ?_, ?_⟩, ?_⟩ <;> simp_all [Manager.next]
    all_goals split <;> simp
  | waitDisconnected | cancelWait | retiredCancelled | close =>
    exact ⟨⟨hreturned, hdraining, hstopping, hempty, hidle⟩, fun h => ⟨h, rfl⟩⟩
  | disconnected =>
    exact ⟨⟨hreturned, hdraining, hstopping, by grind [Manager.next], hidle⟩, fun h => ⟨h, rfl⟩⟩
  | retiredDone =>
    simp only [Manager.next]
    split
    · exact ⟨⟨hreturned, hdraining, hstopping, by grind, hidle⟩, fun h => ⟨h, rfl⟩⟩
    · exact ⟨⟨hreturned, hdraining, hstopping, hempty, hidle⟩, fun h => ⟨h, rfl⟩⟩
  | shutdown | collect | shutdownReturns _ _ =>
    refine ⟨⟨?_, ?_, ?_, ?_, ?_⟩, ?_⟩ <;> grind [Manager.next, enabled]

/-! ### Identifiers -/

/-- A dial that has not expired is still among the used identifiers. -/
structure Remembers (s : Manager) : Prop where
  used : ∀ d ∈ s.dials, s.clock < d.1.expiresAt → s.used.lookup d.1.jti = some d.1.expiresAt
  once : s.dials.Pairwise fun d d' => d.1.jti = d'.1.jti → d.1.expiresAt ≤ d'.2

/-- The clock does not go back. -/
def forward (s : Manager) : Event → Bool
  | .accept _ now => s.clock ≤ now
  | _ => true

lemma Remembers.next (h : s.Remembers) (hforward : s.forward e = true) : (s.next e).Remembers := by
  cases e with
  | accept a now =>
    have hle : s.clock ≤ now := by simpa [forward] using hforward
    have hkept : ∀ d ∈ s.dials, now < d.1.expiresAt →
        (prune s.used now).lookup d.1.jti = some d.1.expiresAt := by
      intro d hd hlt
      simp [prune, FinMap.lookup_restrict, h.used d hd (by omega), hlt]
    simp only [Manager.next, accept]
    split
    · exact h
    · exact ⟨hkept, h.once⟩
    · next hcheck =>
      -- the identifier is not among those that are left
      have hnew : (prune s.used now).lookup a.jti = none := by
        unfold check at hcheck
        split_ifs at hcheck with h₁ h₂ h₃ h₄
        exact not_isSome_iff_eq_none.mp h₃
      refine ⟨fun d hd hlt => ?_, ?_⟩
      · rw [FinMap.lookup_insert_eq]
        rcases mem_append.mp hd with hd | hd
        · have hd' := hkept d hd hlt
          rw [if_neg fun heq => ?_, hd']
          rw [heq, hnew] at hd'
          cases hd'
        · cases mem_singleton.mp hd
          exact if_pos rfl
      · refine pairwise_append.mpr ⟨h.once, pairwise_singleton _ _, fun d hd d' hd' heq => ?_⟩
        cases mem_singleton.mp hd'
        by_contra hlt
        have hd' := hkept d hd (by omega)
        rw [heq, hnew] at hd'
        cases hd'
  | retiredDone =>
    simp only [Manager.next]
    split <;> exact ⟨h.used, h.once⟩
  | _ => exact ⟨h.used, h.once⟩

/-- An identifier is used for one dial until it expires. -/
def DialedOnce (s : Manager) : Prop :=
  s.dials.Pairwise fun d d' => d.1.jti = d'.1.jti → d.1.expiresAt ≤ d'.2

/-- What the manager guarantees about its connections. -/
structure NoLeak (s : Manager) : Prop where
  accounted : ∀ c < s.connections.length, s.Accounted c
  /-- When the first `Shutdown` has returned and nobody has still to call `Close`, all are closed. -/
  finished : s.returned = true → (∀ c, .closing c ∉ s.goroutines) →
    ∀ c < s.connections.length, c ∈ s.closed
  /-- None is activated any more. -/
  stopped : s.returned = true → ∀ events s', run step s events = some s' → s'.activated = s.activated

/-- In every run no connection is lost, and if the clock does not go back, no identifier is used twice
before it expires. -/
theorem connections_never_leak {clock : ℤ} {events : List Event}
    (hrun : run step (new clock) events = some s) :
    s.NoLeak ∧ (Meets step (fun s e => s.forward e = true) (new clock) events → s.DialedOnce) := by
  have haccounted : Keeps step fun s => ∀ c < s.connections.length, s.Accounted c := by
    intro s e s' h hstep c hc
    obtain ⟨henabled, rfl⟩ := step_eq_some.mp hstep
    exact accounted_next henabled hc (h c)
  have hstopped : Keeps step Stopped := by
    intro s e s' h hstep
    obtain ⟨henabled, rfl⟩ := step_eq_some.mp hstep
    exact (h.next henabled).1
  have hremembers : KeepsUnder step (fun s e => s.forward e = true) Remembers := by
    intro s e s' h hforward hstep
    obtain ⟨-, rfl⟩ := step_eq_some.mp hstep
    exact h.next hforward
  have h : s.Stopped := hstopped.run (by constructor <;> simp [new]) hrun
  have haccounted := haccounted.run (by simp [new]) hrun
  refine ⟨⟨haccounted, fun hreturned hnone c hc => ?_, fun hreturned events s' hlater => ?_⟩,
    fun hmeets => (hremembers.run ⟨by simp [new], .nil⟩ hmeets hrun).once⟩
  · have hcollected := h.returned hreturned
    obtain ⟨hactive, hretired⟩ := h.empty hcollected
    rcases haccounted c hc with hc | hc | hc | hc | hc
    · exact nomatch hactive.symm.trans hc
    · rw [hretired] at hc
      cases hc
    · exact hc
    · rcases h.idle hcollected with hidle | ⟨l, hidle⟩ <;> rw [hidle] at hc <;> cases hc
    · exact absurd hc (hnone c)
  · have hkept : Keeps step fun s' => s'.Stopped ∧ s'.collected = true ∧ s'.activated = s.activated := by
      intro s₁ e s₂ ⟨hs, hcollected, hactivated⟩ hstep
      obtain ⟨henabled, rfl⟩ := step_eq_some.mp hstep
      obtain ⟨hs', hkept⟩ := hs.next henabled
      exact ⟨hs', (hkept hcollected).1, (hkept hcollected).2.trans hactivated⟩
    exact (hkept.run ⟨h, h.returned hreturned, rfl⟩ hlater).2.2

/-! ### Generations -/

/-- An admission that finds no active connection is not older than what was activated before. -/
def fenced (s : Manager) : Event → Bool
  | .accept a _ => s.active ≠ none ∨ ∀ g ∈ s.activated, g ≤ a.generation
  | _ => true

/-- The admission of the connection that is dialed. -/
def Hold.admission : Hold → Option Admission
  | .dialing a | .dialed a _ | .admitted a _ => some a
  | _ => none

/-- The active connection and the one that is dialed are not older than any before. -/
structure Ordered (s : Manager) : Prop where
  sorted : s.activated.Pairwise (· ≤ ·)
  active : ∀ c, s.active = some c → ∀ g ∈ s.activated, g ≤ s.generationOf c
  held : ∀ a, s.opMu.bind Hold.admission = some a → ∀ g ∈ s.activated, g ≤ a.generation
  dialed : ∀ a c, s.opMu = some (.dialed a c) ∨ s.opMu = some (.admitted a c) →
    s.generationOf c = a.generation

lemma generationOf_append (s : Manager) (x : ℕ × Bool) (c : ℕ) :
    s.generationOf c ≤ generationOf { s with connections := s.connections ++ [x] } c := by
  unfold generationOf
  rcases lt_or_ge c s.connections.length with hlt | hge
  · rw [getElem?_append_left hlt]
  · rw [getElem?_eq_none hge]
    exact Nat.zero_le _

lemma Ordered.next (h : s.Ordered) (henabled : s.enabled e = true) (hfenced : s.fenced e = true) :
    (s.next e).Ordered := by
  have ⟨hsorted, hactive, hheld, hdialed⟩ := h
  cases e with
  | accept a now =>
    obtain ⟨used, clock, dials, opMu, heq, hopMu⟩ := s.accept_cases a now
    have hfree : s.opMu = none := by simpa [enabled] using henabled
    simp only [Manager.next, heq]
    rcases hopMu with rfl | ⟨rfl, hcheck⟩
    · exact ⟨hsorted, hactive, hheld, hdialed⟩
    refine ⟨hsorted, hactive, ?_, by simp⟩
    rintro _ ⟨⟩ g hg
    -- the admission was compared with the active connection, or there is none
    unfold check at hcheck
    split_ifs at hcheck with h₁ h₂ h₃ h₄
    rcases of_decide_eq_true hfenced with hsome | hall
    · obtain ⟨c, hc⟩ := ne_none_iff_exists'.mp hsome
      rw [hc] at h₄
      exact (hactive c hc g hg).trans (not_lt.mp h₄)
    · exact hall g hg
  | dialSucceeds a =>
    have hopMu : s.opMu = some (.dialing a) := by simpa [enabled] using henabled
    refine ⟨hsorted, fun c hc g hg => (hactive c hc g hg).trans (s.generationOf_append _ c), ?_, ?_⟩
    · rintro _ ⟨⟩
      exact hheld a (by rw [hopMu]; rfl)
    · simp only [Manager.next, some.injEq, Hold.dialed.injEq, reduceCtorEq, or_false]
      rintro _ _ ⟨rfl, rfl⟩
      simp [generationOf]
  | activate a c =>
    have hopMu : s.opMu = some (.admitted a c) := by simpa [enabled] using henabled
    have hall := hheld a (by rw [hopMu]; rfl)
    have hgeneration := hdialed a c (.inr hopMu)
    refine ⟨pairwise_append.mpr ⟨hsorted, pairwise_singleton _ _, by simpa using hall⟩, ?_, ?_, ?_⟩
    · rintro _ ⟨⟩ g hg
      refine le_of_le_of_eq ?_ hgeneration.symm
      rcases mem_append.mp hg with hg | hg
      · exact hall g hg
      · exact (mem_singleton.mp hg).le
    all_goals
      simp only [Manager.next]
      cases s.active <;> simp [Hold.admission]
  | _ => refine ⟨?_, ?_, ?_, ?_⟩ <;> grind [Manager.next, enabled, Hold.admission, generationOf]

/-- In every run in which an admission that finds no active connection is not older than what was
activated before, the generations of the activated connections never decrease. -/
theorem activated_generations_ordered {clock : ℤ} {events : List Event}
    (hmeets : Meets step (fun s e => s.fenced e = true) (new clock) events)
    (hrun : run step (new clock) events = some s) : s.activated.Pairwise (· ≤ ·) := by
  have hkeeps : KeepsUnder step (fun s e => s.fenced e = true) Ordered := by
    intro s e s' h hfenced hstep
    obtain ⟨henabled, rfl⟩ := step_eq_some.mp hstep
    exact h.next henabled hfenced
  exact (hkeeps.run ⟨.nil, by simp [new], by simp [new], by simp [new]⟩ hmeets hrun).sorted

/-! ### Examples of runs -/

/-- An admission that expires at ten. -/
def admission (jti : String) (generation : ℕ) : Admission := ⟨jti, generation, 10, true⟩

/-- An admission becomes the active connection. -/
def connect (a : Admission) (c : ℕ) : List Event :=
  [.accept a 0, .dialSucceeds a true, .checkContext a c, .activate a c]

/-- A connection is replaced by one of the next generation, and the manager is shut down. -/
def replacedAndStopped : List Event :=
  connect (admission "a" 1) 0 ++ connect (admission "b" 2) 1 ++
    [.retire 0 false, .shutdown, .collect, .close 1, .close 0, .shutdownReturns [1, 0] false]

theorem replacedAndStopped_ordered : ∃ s, run step (new 0) replacedAndStopped = some s ∧
    s.activated = [1, 2] ∧ s.activated.Pairwise (· ≤ ·) :=
  exists_and_of_any (by decide +kernel) fun _ hs => activated_generations_ordered (by decide +kernel) hs

theorem replacedAndStopped_noLeak : ∃ s, run step (new 0) replacedAndStopped = some s ∧
    s.closed = [0, 1] ∧ s.NoLeak ∧ s.DialedOnce := by
  refine exists_and_of_any (by decide +kernel) fun s hs => ?_
  obtain ⟨hnoLeak, honce⟩ := connections_never_leak hs
  exact ⟨hnoLeak, honce (by decide +kernel)⟩

/-- The active connection is lost, and an older generation is accepted. -/
theorem older_generation_activated : ∃ s,
    run step (new 0) (connect (admission "a" 5) 0 ++ [.waitDisconnected 0, .disconnected 0] ++
      connect (admission "b" 3) 1) = some s ∧
      s.activated = [5, 3] ∧ ¬ s.activated.Pairwise (· ≤ ·) :=
  exists_of_any (by decide +kernel) fun _ _ h => h

/-- The active connection is lost while `Shutdown` drains it: two goroutines are about to close it. -/
theorem closed_by_two : ∃ s, run step (new 0) (connect (admission "a" 1) 0 ++
      [.waitDisconnected 0, .shutdown, .collect, .disconnected 0]) = some s ∧
      s.active = none ∧ s.retired = [] ∧ s.closed = [] ∧ s.goroutines = [.closing 0, .closing 0] :=
  exists_of_any (by decide +kernel) fun _ _ h => h

end Manager

end Paperboat.Connector

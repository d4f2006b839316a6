import Paperboat.Session.Pairing

/-!
# Every generation's worker is stopped by its own capture

`Managed.Sound` is what the persistence of a session has to guarantee in every reachable state. It does
not hold in every run. A capture may enter `stopOutputPersistence` after `Close` and `Restart` have
already put the next generation's channels into the fields, and a `Restart` whose last update of the
stored state fails leaves its worker running. `Orderly` rules out exactly these two steps.

The invariant `Inv` says which channels the fields hold: those of the one capture that has not yet
returned from `stopOutputPersistence`, if there is one, and otherwise those that a running `Restart`
has written so far. For each generation it is the relation `Paired`.
-/

namespace Paperboat.Session.Persistence

open Option Function Lifecycle CapturePC Managed Channels

open Store (OutputLog)

namespace Managed

/-- The stop channel of the generation `g` is closed. -/
def StopClosed (s : Managed) (g : ℕ) : Prop := g ∈ s.closes.map Prod.fst

/-- The capture `c` and the worker `w` of the generation `g` in the state `s`. -/
abbrev PairedAt (s : Managed) (g : ℕ) (c : Capture) (w : Worker) : Prop :=
  Paired s.history.latest s.log.latest (s.StopClosed g) (s.done g) g c w

/-- The invariant of the orderly runs. -/
structure Inv (s : Managed) : Prop where
  no_panic : s.panicked = false
  /-- A stop channel is closed by the capture it was made for. -/
  closes_own : ∀ p ∈ s.closes, p.2 = p.1
  closes_nodup : (s.closes.map Prod.fst).Nodup
  history_valid : ∃ stream, s.history.Valid stream
  log_valid : s.log.Valid
  log_le : s.log.latest ≤ s.history.latest
  /-- Every capture has a worker. -/
  paired : ∀ g c, s.captures g = some c → ∃ w, s.workers g = some w ∧ s.PairedAt g c w
  /-- A worker without a capture belongs to the running `Restart`. -/
  started : ∀ g w, s.workers g = some w → s.captures g = none →
    s.restart = some .persist ∧ g = s.lifecycle.generation ∧
      s.PairedAt g ⟨s.history.latest, .reading⟩ w
  fresh : ∀ g, s.workers g = none → s.done g = none ∧ ¬ s.StopClosed g
  le_generation : ∀ g w, s.workers g = some w → g ≤ s.lifecycle.generation
  /-- A running `Restart` has not started its capture, and starts its worker in its fourth step. -/
  restarting : ∀ r, s.restart = some r →
    s.captures s.lifecycle.generation = none ∧
      (s.workers s.lifecycle.generation = none ↔ r ≠ .persist)
  /-- The fields hold the channels of a capture that has not returned from
  `stopOutputPersistence`. -/
  active : ∀ g c ch, s.captures g = some c → c.pc.holds g = some ch →
    s.channels = ch ∧ (s.restart = none ∨ s.restart = some .writeNotify) ∧
      c.lastAppend = s.history.latest
  idle : (∀ g c, s.captures g = some c → c.pc.holds g = none) →
    s.channels = RestartPC.holds s.lifecycle.generation s.restart

variable {s : Managed} {g : ℕ} {c c' : Capture}

/-- At most one capture has not returned from `stopOutputPersistence`. -/
lemma Inv.active_unique (h : s.Inv) {g' : ℕ} (hg : s.captures g = some c) (hc : c.pc.holds g ≠ none)
    (hg' : s.captures g' = some c') (hc' : c'.pc.holds g' ≠ none) : g' = g := by
  obtain ⟨ch, hch⟩ := ne_none_iff_exists'.mp hc
  obtain ⟨ch', hch'⟩ := ne_none_iff_exists'.mp hc'
  have h₁ := persistDone_of_holds hch
  have h₂ := persistDone_of_holds hch'
  rw [← (h.active g c ch hg hch).1] at h₁
  rw [← (h.active g' c' ch' hg' hch').1, h₁] at h₂
  exact (some.inj h₂).symm

variable {s' : Managed} {w : Worker}

/-- A step of the worker `g` that appends to the log, answers and moves the worker. -/
lemma Inv.worker_step (h : s.Inv) {w' : Worker} {log : OutputLog} {done : ℕ → Option (Option FlushError)}
    {notified : ℕ → Bool} (hw : s.workers g = some w) (hdone : ∀ g' ≠ g, done g' = s.done g')
    (hlog : log.Valid) (hgrow : s.log.latest ≤ log.latest) (hle : log.latest ≤ s.history.latest)
    (hp : ∀ c, (c.pc.holds g ≠ none → c.lastAppend = s.history.latest) → s.PairedAt g c w →
      Paired s.history.latest log.latest (s.StopClosed g) (done g) g c w') :
    Inv { s with workers := update s.workers g (some w'), log, done, notified } := by
  have hpair : ∀ g' c v, (c.pc.holds g' ≠ none → c.lastAppend = s.history.latest) →
      s.workers g' = some v → s.PairedAt g' c v →
      ∃ v', update s.workers g (some w') g' = some v' ∧
        Paired s.history.latest log.latest (s.StopClosed g') (done g') g' c v' := by
    intro g' c v hlast hv hpv
    by_cases hg : g' = g
    · subst hg
      obtain rfl := some.inj (hw.symm.trans hv)
      exact ⟨w', update_self .., hp c hlast hpv⟩
    · rw [update_of_ne hg, hdone g' hg]
      exact ⟨v, hv, hpv.mono le_rfl hgrow Iff.rfl⟩
  have hex : ∀ g' v', update s.workers g (some w') g' = some v' → ∃ v, s.workers g' = some v := by
    intro g' v' hv'
    by_cases hg : g' = g
    · exact ⟨w, hg ▸ hw⟩
    · exact ⟨v', by rwa [update_of_ne hg] at hv'⟩
  refine { h with
    log_valid := hlog
    log_le := hle
    paired := fun g' c hc => ?_
    started := fun g' v' hv' hc => ?_
    fresh := fun g' hg' => ?_
    le_generation := fun g' v' hv' => ?_
    restarting := fun r hr => ?_ }
  · obtain ⟨v, hv, hpv⟩ := h.paired g' c hc
    refine hpair g' c v (fun hact => ?_) hv hpv
    obtain ⟨ch, hch⟩ := ne_none_iff_exists'.mp hact
    exact (h.active g' c ch hc hch).2.2
  · obtain ⟨v, hv⟩ := hex g' v' hv'
    obtain ⟨h₁, h₂, h₃⟩ := h.started g' v hv hc
    obtain ⟨v'', hv'', hpv⟩ := hpair g' _ v (fun _ => rfl) hv h₃
    obtain rfl := some.inj (hv'.symm.trans hv'')
    exact ⟨h₁, h₂, hpv⟩
  · by_cases hg : g' = g
    · simp [hg] at hg'
    · refine (h.fresh g' ?_).imp_left (hdone g' hg).trans
      simpa [hg] using hg'
  · obtain ⟨v, hv⟩ := hex g' v' hv'
    exact h.le_generation g' v hv
  · obtain ⟨h₁, h₂⟩ := h.restarting r hr
    refine ⟨h₁, Iff.trans ?_ h₂⟩
    by_cases hg : s.lifecycle.generation = g
    · simp [hg, hw]
    · simp [hg]

/-- A step of the one capture `g` that has not returned from `stopOutputPersistence`. -/
lemma Inv.capture_step (h : s.Inv) {history : History} {channels : Channels} {closes : List (ℕ × ℕ)}
    {done : ℕ → Option (Option FlushError)} {notified : ℕ → Bool}
    (hc : s.captures g = some c) (hact : c.pc.holds g ≠ none) (hdone : ∀ g' ≠ g, done g' = s.done g')
    (hclosed : ∀ g' ≠ g, g' ∈ closes.map Prod.fst ↔ s.StopClosed g') (hown : ∀ p ∈ closes, p.2 = p.1)
    (hnodup : (closes.map Prod.fst).Nodup) (hhist : ∃ stream, history.Valid stream)
    (hgrow : s.history.latest ≤ history.latest) (hchan : channels = (c'.pc.holds g).getD .nil)
    (hlast : c'.pc.holds g ≠ none → c'.lastAppend = history.latest)
    (hp : ∀ w, s.PairedAt g c w →
      Paired history.latest s.log.latest (g ∈ closes.map Prod.fst) (done g) g c' w) :
    Inv { s with
      captures := update s.captures g (some c'), history, channels, closes, done, notified } := by
  obtain ⟨ch, hch⟩ := ne_none_iff_exists'.mp hact
  obtain ⟨-, hrestart, -⟩ := h.active g c ch hc hch
  obtain ⟨w, hwg, hpw⟩ := h.paired g c hc
  -- every other capture has returned
  have hsettled : ∀ g' ≠ g, ∀ c₁, s.captures g' = some c₁ → c₁.pc.holds g' = none := by
    intro g' hg' c₁ hc₁
    by_contra hact'
    exact hg' (h.active_unique hc hact hc₁ hact')
  refine { h with
    closes_own := hown
    closes_nodup := hnodup
    history_valid := hhist
    log_le := h.log_le.trans hgrow
    paired := fun g' c₁ hc₁ => ?_
    started := fun g' v hv hc₁ => ?_
    fresh := fun g' hg' => ?_
    restarting := fun r hr => ?_
    active := fun g' c₁ ch' hc₁ hch' => ?_
    idle := fun hall => ?_ }
  · by_cases hg : g' = g
    · subst hg
      obtain rfl : c' = c₁ := by simpa using hc₁
      exact ⟨w, hwg, hp w hpw⟩
    · obtain ⟨v, hv, hpv⟩ := h.paired g' c₁ (by simpa [hg] using hc₁)
      have hpv' := hpv.mono hgrow le_rfl (hclosed g' hg)
      rw [← hdone g' hg] at hpv'
      exact ⟨v, hv, hpv'⟩
  · by_cases hg : g' = g
    · simp [hg] at hc₁
    · obtain ⟨h₁, -⟩ := h.started g' v hv (by simpa [hg] using hc₁)
      simp [h₁] at hrestart
  · have hg : g' ≠ g := by
      rintro rfl
      cases hwg.symm.trans hg'
    exact (h.fresh g' hg').imp (hdone g' hg).trans (mt (hclosed g' hg).mp)
  · obtain ⟨h₁, h₂⟩ := h.restarting r hr
    have hg : s.lifecycle.generation ≠ g := by
      rintro rfl
      cases hc.symm.trans h₁
    exact ⟨by simpa [hg] using h₁, h₂⟩
  · by_cases hg : g' = g
    · subst hg
      obtain rfl : c' = c₁ := by simpa using hc₁
      exact ⟨by simp [hchan, hch'], hrestart, hlast (by simp [hch'])⟩
    · cases (hsettled g' hg c₁ (by simpa [hg] using hc₁)).symm.trans hch'
  · simp only [hchan, hall g c' (update_self ..)]
    rcases hrestart with hr' | hr' <;> rw [hr'] <;> rfl

/-- A step of `stopOutputPersistence` that writes at most the fields. -/
lemma Inv.pc_step (h : s.Inv) {pc : CapturePC} {channels : Channels} (hc : s.captures g = some c)
    (hact : c.pc.holds g ≠ none) (hchan : channels = (pc.holds g).getD .nil)
    (hp : ∀ w, s.PairedAt g c w → s.PairedAt g { c with pc } w) :
    Inv { s with captures := update s.captures g (some { c with pc }), channels } := by
  obtain ⟨ch, hch⟩ := ne_none_iff_exists'.mp hact
  exact h.capture_step hc hact (fun _ _ => rfl) (fun _ _ => Iff.rfl) h.closes_own h.closes_nodup
    h.history_valid le_rfl hchan (fun _ => (h.active g c ch hc hch).2.2) hp

/-- A capture that has returned from `stopOutputPersistence` goes on to its end, and the state of the
session changes within its generation. -/
lemma Inv.settled_step (h : s.Inv) {lifecycle : Lifecycle} {process : Option ℕ}
    (hc : s.captures g = some c) (hidle : c.pc.holds g = none) (hidle' : c'.pc.holds g = none)
    (hgen : lifecycle.generation = s.lifecycle.generation)
    (hp : ∀ w, s.PairedAt g c w → s.PairedAt g c' w) :
    Inv { s with captures := update s.captures g (some c'), lifecycle, process } := by
  refine { h with
    paired := fun g' c₁ hc₁ => ?_
    started := fun g' v hv hc₁ => ?_
    le_generation := fun g' v hv => (h.le_generation g' v hv).trans_eq hgen.symm
    restarting := fun r hr => ?_
    active := fun g' c₁ ch hc₁ hch => ?_
    idle := fun hall => ?_ }
  · by_cases hg : g' = g
    · subst hg
      obtain rfl : c' = c₁ := by simpa using hc₁
      obtain ⟨w, hwg, hpw⟩ := h.paired g' c hc
      exact ⟨w, hwg, hp w hpw⟩
    · exact h.paired g' c₁ (by simpa [hg] using hc₁)
  · by_cases hg : g' = g
    · simp [hg] at hc₁
    · obtain ⟨h₁, h₂, h₃⟩ := h.started g' v hv (by simpa [hg] using hc₁)
      exact ⟨h₁, h₂.trans hgen.symm, h₃⟩
  · obtain ⟨h₁, h₂⟩ := h.restarting r hr
    have hg : s.lifecycle.generation ≠ g := by
      rintro rfl
      cases hc.symm.trans h₁
    simp only [hgen]
    exact ⟨by simpa [hg] using h₁, h₂⟩
  · by_cases hg : g' = g
    · subst hg
      obtain rfl : c' = c₁ := by simpa using hc₁
      cases hidle'.symm.trans hch
    · exact h.active g' c₁ ch (by simpa [hg] using hc₁) hch
  · simp only [hgen]
    refine h.idle fun g' c₁ hc₁ => ?_
    by_cases hg : g' = g
    · subst hg
      obtain rfl := some.inj (hc.symm.trans hc₁)
      exact hidle
    · exact hall g' c₁ (by simpa [hg] using hc₁)

/-! ### The steps of a worker -/

/-- Every worker is paired with its capture, or with the capture that is about to be started. -/
lemma Inv.exists_paired (h : s.Inv) (hw : s.workers g = some w) : ∃ c, s.PairedAt g c w := by
  rcases hc : s.captures g with _ | c
  · exact ⟨_, (h.started g w hw hc).2.2⟩
  obtain ⟨v, hv, hp⟩ := h.paired g c hc
  cases hw.symm.trans hv
  exact ⟨c, hp⟩

lemma Inv.select (h : s.Inv) {wake : Wake} (hw : s.workers g = some w)
    (hs : s.select g w wake = some s') : s'.Inv := by
  unfold Managed.select at hs
  split at hs
  · cases hs
  rename_i hpc
  rw [not_not] at hpc
  have hrun : w.pc ≠ .exited := by simp [hpc]
  cases wake with
  | notify =>
    simp only at hs
    split at hs
    · cases hs
    split at hs
    · cases hs
      refine h.worker_step hw (fun _ _ => rfl) h.log_valid le_rfl h.log_le fun c _ hp => ?_
      exact hp.move le_rfl hrun hrun hp.flush_ok (fun hc => ⟨(hp.early hc).1, (hp.early hc).2.1⟩)
        hp.aims fun hsend => hp.reached (.inl hsend)
    · cases hs
  | timer =>
    simp only at hs
    split at hs
    · cases hs
      refine h.worker_step hw (fun _ _ => rfl) h.log_valid le_rfl h.log_le fun c _ hp => ?_
      refine hp.move le_rfl hrun (by simp) ?_ (by simp) (by simp) (by simp)
      rintro _ _ ⟨⟩
      trivial
    · cases hs
  | stop =>
    simp only at hs
    split at hs
    · cases hs
    rename_i k hk
    split at hs
    · next hclosed =>
      cases hs
      refine h.worker_step hw (fun _ _ => rfl) h.log_valid le_rfl h.log_le fun c _ hp => ?_
      have hkg : k = g := by
        rw [hp.channels_eq] at hk
        exact (some.inj hk).symm
      have hclosed' : c.pc.closed = true := hp.closed_iff.mp (hkg ▸ hclosed)
      refine hp.move le_rfl hrun (by simp) ?_ (by simp [hclosed']) ?_ (by simp)
      · rintro _ _ ⟨⟩
        trivial
      · rintro - _ ⟨⟩
        trivial
    · cases hs

lemma Inv.flush (h : s.Inv) {fails : Bool} (hw : s.workers g = some w)
    (hs : s.flush g w fails = some s') : s'.Inv := by
  unfold Managed.flush at hs
  split at hs
  · next stopping f hpc =>
    have hrun : w.pc ≠ .exited := by simp [hpc]
    obtain ⟨stream, hh⟩ := h.history_valid
    obtain ⟨c₀, hp₀⟩ := h.exists_paired hw
    have hstep := Flush.step_spec s.historyBytes hh h.log_valid h.log_le fails f
      (hp₀.flush_ok stopping f hpc)
    generalize f.step s.historyBytes s.history s.log fails = r at hs hstep
    obtain ⟨next, log⟩ := r
    simp only at hs hstep
    -- the last flush of a worker aims at everything its capture has appended
    have hlast : ∀ c, (c.pc.holds g ≠ none → c.lastAppend = s.history.latest) → s.PairedAt g c w →
        stopping = true → c.pc.closed = true ∧ c.lastAppend = s.history.latest ∧
          f.Aims s.history.latest := by
      intro c hlatest hp hstop
      subst hstop
      have hclosed : c.pc.closed = true := by
        by_contra hc
        exact (hp.early (by simpa using hc)).1 f hpc
      have hanswer : c.pc.answer = none := by
        by_contra ha
        exact hrun (hp.answered ha).1
      have heq := hlatest (holds_ne_none g hanswer)
      exact ⟨hclosed, heq, heq ▸ hp.aims hclosed f hpc⟩
    have hbefore : ∀ c, s.PairedAt g c w → c.pc.closed = false → stopping = false := by
      intro c hp hc
      cases stopping with
      | false => rfl
      | true => exact absurd hpc ((hp.early hc).1 f)
    cases next with
    | goto f' =>
      cases hs
      refine h.worker_step hw (fun _ _ => rfl) hstep.valid hstep.le_log hstep.log_le
        fun c hlatest hp => ?_
      refine hp.move hstep.le_log hrun (by simp) ?_ ?_ ?_ (by simp)
      · rintro _ _ ⟨⟩
        exact hstep.ok f' rfl
      · intro hc
        simp [hbefore c hp hc]
      · rintro - _ ⟨⟩
        obtain ⟨-, heq, haims⟩ := hlast c hlatest hp rfl
        rw [heq]
        exact hstep.aims f' rfl haims
    | returns =>
      simp only at hs
      split at hs
      · next hsend =>
        cases hs
        refine h.worker_step hw (fun _ _ => rfl) hstep.valid hstep.le_log hstep.log_le
          fun c hlatest hp => ?_
        refine hp.move hstep.le_log hrun (by simp) (by simp) ?_ (by simp) ?_
        · intro hc
          have hstop := hbefore c hp hc
          simp only [hstop, Bool.false_eq_true, false_or] at hsend
          simpa using hsend
        · rintro ⟨⟩
          have hstop : stopping = true := by simpa using hsend
          obtain ⟨-, heq, haims⟩ := hlast c hlatest hp hstop
          rw [heq]
          exact hstep.reached rfl haims
      · cases hs
        refine h.worker_step hw (fun _ _ => rfl) hstep.valid hstep.le_log hstep.log_le
          fun c hlatest hp => ?_
        exact hp.move hstep.le_log hrun (by simp) (by simp) (by simp) (by simp) (by simp)
  · cases hs

lemma Inv.send (h : s.Inv) (hw : s.workers g = some w) (hs : s.send g w = some s') : s'.Inv := by
  unfold Managed.send at hs
  split at hs
  · next err k hpc hk =>
    split at hs
    · cases hs
      obtain ⟨c₀, hp₀⟩ := h.exists_paired hw
      have hkg : k = g := by
        rw [hp₀.channels_eq] at hk
        exact (some.inj hk).symm
      subst hkg
      refine h.worker_step hw (fun g' hg' => update_of_ne hg' _ _) h.log_valid le_rfl h.log_le
        fun c _ hp => ?_
      simp only [update_self]
      exact hp.send hpc
    · cases hs
  · cases hs

/-! ### The steps of a capture -/

variable {data : List UInt8}

lemma append_spec {stream : List UInt8} (hh : s.history.Valid stream) (hne : data ≠ [])
    (ha : s.append c data = (s', c')) :
    (∃ stream', s'.history.Valid stream') ∧ s.history.latest ≤ s'.history.latest ∧
      (c'.lastAppend = s'.history.latest ∨ c' = c ∧ s'.history = s.history) ∧ c'.pc = c.pc ∧
      ∃ notified, s' = { s with history := s'.history, notified := notified } := by
  unfold append at ha
  split at ha
  · cases ha
    exact ⟨⟨stream, hh⟩, le_rfl, .inr ⟨rfl, rfl⟩, rfl, s.notified, rfl⟩
  rename_i history event happend
  obtain ⟨hv, hstart, hend, -, hok, -⟩ := History.appendOwned_valid hh hne happend
  have hgrow : s.history.latest ≤ history.latest := by
    have := hok.1
    omega
  cases ha
  unfold queueOutputPersistence
  split
  · exact ⟨⟨_, hv⟩, hgrow, .inl rfl, rfl, s.notified, rfl⟩
  · exact ⟨⟨_, hv⟩, hgrow, .inl rfl, rfl, _, rfl⟩

lemma Inv.read (h : s.Inv) {eof : Bool} (hc : s.captures g = some c)
    (hs : s.read g c data eof = some s') : s'.Inv := by
  unfold Managed.read at hs
  split at hs
  · cases hs
  rename_i hpc
  rw [not_not] at hpc
  have hheld : c.pc.holds g = some (of g) := by rw [hpc]; rfl
  obtain ⟨hchan, -, hlast⟩ := h.active g c _ hc hheld
  have hact : c.pc.holds g ≠ none := by rw [hheld]; simp
  -- both control points the loop may go to have the same properties
  set pc : CapturePC := if eof then .checkStop else .reading with hpcdef
  have hholds : s.channels = (pc.holds g).getD .nil := by
    rw [hchan, hpcdef]
    split <;> rfl
  have hpaired : ∀ {latest} {c₁ : Capture} {w}, c₁.pc = .reading →
      Paired latest s.log.latest (s.StopClosed g) (s.done g) g c₁ w →
      Paired latest s.log.latest (s.StopClosed g) (s.done g) g { c₁ with pc } w := by
    intro latest c₁ w hc₁ hp
    cases eof <;> exact hp.recapture (by rw [hc₁]; rfl) (by rw [hc₁]; rfl) (by simp [hpcdef])
      (by simp [hpcdef])
  split at hs
  · cases hs
    exact h.pc_step hc hact hholds fun w hp => hpaired hpc hp
  rename_i hne
  split at hs
  · cases hs
  obtain ⟨stream, hh⟩ := h.history_valid
  obtain ⟨t, c', hap⟩ : ∃ t c', s.append c data = (t, c') := ⟨_, _, rfl⟩
  obtain ⟨hvalid, hgrow, hcap, hsame, notified, hframe⟩ := append_spec hh hne hap
  simp only [hap] at hs
  cases hs
  have hlast' : c'.lastAppend = t.history.latest := by
    rcases hcap with hcap | ⟨rfl, hsameHist⟩
    · exact hcap
    · rw [hsameHist]
      exact hlast
  rw [hframe]
  refine h.capture_step hc hact (fun _ _ => rfl) (fun _ _ => Iff.rfl) h.closes_own h.closes_nodup
    hvalid hgrow hholds (fun _ => hlast') fun w hp => ?_
  rw [hlast']
  exact hpaired rfl (hp.append hgrow hpc)

lemma Inv.stopOutputPersistence (h : s.Inv) (hc : s.captures g = some c)
    (hs : s.stopOutputPersistence g c = some s') : s'.Inv := by
  obtain ⟨w₀, hw₀, hp₀⟩ := h.paired g c hc
  obtain ⟨last, pc⟩ := c
  cases pc <;> simp only [stopOutputPersistence] at hs
  case reading | returned | finished => cases hs
  case checkStop =>
    obtain ⟨hchan, -⟩ := h.active g _ _ hc rfl
    simp only [hchan, of] at hs
    cases hs
    exact h.pc_step hc (some_ne_none _) hchan fun w hp => hp.recapture rfl rfl (by simp) (by simp)
  case closeStop =>
    obtain ⟨hchan, -, hlast⟩ := h.active g _ _ hc rfl
    have hopen : ¬ s.StopClosed g := by simp [hp₀.closed_iff, closed]
    simp only [hchan, of] at hs
    split at hs
    · next hclosed => exact absurd hclosed hopen
    cases hs
    exact h.capture_step hc (some_ne_none _) (fun _ _ => rfl)
      (fun g' hg' => by simp [StopClosed, hg']) (List.forall_mem_cons.mpr ⟨rfl, h.closes_own⟩)
      (List.nodup_cons.mpr ⟨hopen, h.closes_nodup⟩) h.history_valid le_rfl rfl (fun _ => hlast)
      fun w hp => hp.close rfl (by simp)
  case readDone =>
    obtain ⟨hchan, -⟩ := h.active g _ _ hc rfl
    cases hs
    refine h.pc_step hc (some_ne_none _) hchan fun w hp => hp.recapture rfl rfl (by simp) ?_
    rintro _ ⟨⟩
    rw [hchan]
    rfl
  case awaitDone channel =>
    obtain ⟨hchan, -, hlast⟩ := h.active g _ _ hc rfl
    obtain rfl := hp₀.await_eq channel rfl
    simp only at hs
    split at hs
    · cases hs
    rename_i err hdone
    cases hs
    refine h.capture_step hc (some_ne_none _) (fun g' hg' => update_of_ne hg' _ _)
      (fun _ _ => Iff.rfl) h.closes_own h.closes_nodup h.history_valid le_rfl hchan (fun _ => hlast)
      fun w hp => ?_
    unfold PairedAt at hp
    rw [hdone] at hp
    simp only [update_self]
    exact hp.receive rfl
  case clearNotify err | clearStop err =>
    obtain ⟨hchan, -⟩ := h.active g _ _ hc rfl
    cases hs
    exact h.pc_step hc (some_ne_none _) (by rw [hchan]; rfl)
      fun w hp => hp.recapture rfl rfl (by simp) (by simp)
  case clearDone err =>
    obtain ⟨hchan, -, hlast⟩ := h.active g _ _ hc rfl
    cases hs
    refine h.pc_step hc (some_ne_none _) (by rw [hchan]; rfl)
      fun w hp => hp.recapture rfl rfl ?_ (by simp)
    -- the log is at most as long as the history, which ends with the capture's last append
    intro n hn
    simp only [returned.injEq, reduceCtorEq, or_false] at hn
    obtain ⟨rfl, rfl⟩ := hn
    have hreached := hp.persisted rfl
    have hle := h.log_le
    omega

lemma Inv.exit (h : s.Inv) (hc : s.captures g = some c) (hs : s.exit g c = some s') : s'.Inv := by
  obtain ⟨last, pc⟩ := c
  cases pc <;> simp only [exit, reduceCtorEq] at hs
  case returned err stored =>
    have hp : ∀ w, s.PairedAt g ⟨last, .returned err stored⟩ w →
        s.PairedAt g ⟨last, .finished err stored⟩ w := by
      refine fun w hp => hp.recapture rfl rfl (fun n hn => hp.stored_eq n (.inl ?_)) (by simp)
      simpa using hn
    split at hs
    · cases hs
    split_ifs at hs with hother hrunning <;> cases hs
    · exact h.settled_step hc rfl rfl rfl hp
    · exact h.settled_step hc rfl rfl (generation_transitionOrStay _ (by decide)) hp
    · exact h.settled_step hc rfl rfl rfl hp

/-! ### Close and Restart -/

/-- `Close` and the refused calls change the state of the session within its generation. -/
lemma Inv.frame (h : s.Inv) {lifecycle : Lifecycle} {process : Option ℕ} {finishing : List ℕ}
    (hgen : lifecycle.generation = s.lifecycle.generation) :
    Inv { s with lifecycle, process, finishing } :=
  { h with
    started := fun g w hw hc => by
      obtain ⟨h₁, h₂, h₃⟩ := h.started g w hw hc
      exact ⟨h₁, h₂.trans hgen.symm, h₃⟩
    le_generation := fun g w hw => (h.le_generation g w hw).trans_eq hgen.symm
    restarting := by simpa only [hgen] using h.restarting
    idle := by simpa only [hgen] using h.idle }

lemma Inv.close (h : s.Inv) {o : CloseOutcome} (hs : s.close o = some s') : s'.Inv := by
  have hclosing : ∀ l : Lifecycle, (l.transitionOrStay .closing).generation = l.generation :=
    fun l => l.generation_transitionOrStay (by decide)
  have hclosed : ∀ l : Lifecycle, (l.transitionOrStay .closed).generation = l.generation :=
    fun l => l.generation_transitionOrStay (by decide)
  unfold Managed.close at hs
  split at hs
  · cases hs
  split at hs
  · cases hs
    exact h.frame (by simp only [hclosing, hclosed])
  · simp only at hs
    split at hs <;> cases hs
    · exact h.frame (hclosing _)
    · exact h.frame (by simp only [hclosing, hclosed])
  · split at hs <;> cases hs
    · exact h.frame rfl
    · exact h.frame (hclosed _)
  · exact some.inj hs ▸ h

lemma Inv.finishClosing (h : s.Inv) {p : ℕ} {terminated : Bool}
    (hs : s.finishClosing p terminated = some s') : s'.Inv := by
  unfold Managed.finishClosing at hs
  split at hs
  · cases hs
  simp only at hs
  split at hs <;> cases hs
  · exact h.frame rfl
  · exact h.frame (generation_transitionOrStay _ (by decide))

/-- No worker is without a capture while no `Restart` has started one. -/
lemma Inv.captured (h : s.Inv) (hr : s.restart ≠ some .persist) (hw : s.workers g = some w) :
    s.captures g ≠ none :=
  fun hc => hr (h.started g w hw hc).1

lemma Inv.capture_le (h : s.Inv) (hc : s.captures g = some c) : g ≤ s.lifecycle.generation := by
  obtain ⟨w, hw, -⟩ := h.paired g c hc
  exact h.le_generation g w hw

variable {persisted : Bool}

lemma Inv.beginRestart (h : s.Inv) {launched : Bool} (hs : s.beginRestart persisted launched = some s') :
    s'.Inv := by
  unfold Managed.beginRestart at hs
  split at hs
  · cases hs
  rename_i hfree
  have hr : s.restart = none := by simpa using hfree
  split at hs
  · exact some.inj hs ▸ h
  rename_i hstate
  have hstate' : s.lifecycle.state = .exited ∨ s.lifecycle.state = .closed := by
    by_contra hno
    push Not at hno
    exact hstate hno
  simp only at hs
  split at hs
  · cases hs
    exact h.frame ((generation_transitionOrStay _ (by decide)).trans
      (generation_transitionOrStay _ (by decide)))
  · rw [restart_eq hstate'] at hs
    cases hs
    have hnoWorker : s.workers (s.lifecycle.generation + 1) = none := by
      by_contra hw
      obtain ⟨w, hw⟩ := ne_none_iff_exists'.mp hw
      have := h.le_generation _ w hw
      omega
    have hnoCapture : s.captures (s.lifecycle.generation + 1) = none := by
      by_contra hc
      obtain ⟨c, hc⟩ := ne_none_iff_exists'.mp hc
      have := h.capture_le hc
      omega
    exact { h with
      started := fun g w hw hc => absurd hc (h.captured (by simp [hr]) hw)
      le_generation := fun g w hw => (h.le_generation g w hw).trans (Nat.le_succ _)
      restarting := by
        rintro _ ⟨⟩
        exact ⟨hnoCapture, by simp [hnoWorker]⟩
      active := fun g c ch hc hch => by
        obtain ⟨h₁, -, h₃⟩ := h.active g c ch hc hch
        exact ⟨h₁, .inr rfl, h₃⟩
      idle := fun hall => by
        have := h.idle hall
        rw [hr] at this
        exact this }

variable {r : RestartPC}

/-- Every capture has returned from `stopOutputPersistence` once `Restart` has written a field. -/
lemma Inv.all_settled (h : s.Inv) (hr : s.restart = some r) (hne : r ≠ .writeNotify)
    (hc : s.captures g = some c) :
    c.pc.holds g = none := by
  by_contra hact
  obtain ⟨ch, hch⟩ := ne_none_iff_exists'.mp hact
  obtain ⟨-, hrestart, -⟩ := h.active g c ch hc hch
  rw [hr] at hrestart
  simp [hne] at hrestart

lemma Inv.write_field (h : s.Inv) {r' : RestartPC} {ch : Channels} (hr : s.restart = some r)
    (hne : r ≠ .persist) (hne' : r' ≠ .persist)
    (hsettled : ∀ g c, s.captures g = some c → c.pc.holds g = none)
    (hch : s.channels = RestartPC.holds s.lifecycle.generation (some r) →
      ch = RestartPC.holds s.lifecycle.generation (some r')) :
    Inv { s with channels := ch, restart := some r' } :=
  { h with
    started := fun g w hw hc => absurd hc (h.captured (by simp [hr, hne]) hw)
    restarting := by
      rintro _ ⟨⟩
      obtain ⟨h₁, h₂⟩ := h.restarting r hr
      exact ⟨h₁, h₂.trans (iff_of_true hne hne')⟩
    active := fun g c ch' hc hch' => by
      rw [hsettled g c hc] at hch'
      cases hch'
    idle := fun _ => hch (hr ▸ h.idle hsettled) }

lemma Inv.spawn (h : s.Inv) (hr : s.restart = some .spawn) :
    Inv ({ s with restart := some .persist }.setWorker s.lifecycle.generation
      ⟨s.channels, false, .select⟩) := by
  obtain ⟨hc, hw⟩ := h.restarting _ hr
  have hnew : s.workers s.lifecycle.generation = none := hw.mpr (by simp)
  have hchan : s.channels = of s.lifecycle.generation := by
    rw [h.idle fun g c hc => h.all_settled hr (by simp) hc, hr]
    rfl
  obtain ⟨hdone, hopen⟩ := h.fresh _ hnew
  have hne : ∀ {g w}, s.workers g = some w → g ≠ s.lifecycle.generation := by
    rintro g w hg rfl
    cases hnew.symm.trans hg
  exact { h with
    paired := fun g c hg => by
      obtain ⟨w, hwg, hp⟩ := h.paired g c hg
      exact ⟨w, by simpa [setWorker, update_of_ne (hne hwg)] using hwg, hp⟩
    started := fun g w hwg hcg => by
      by_cases hg : g = s.lifecycle.generation
      · subst hg
        have hw' : w = ⟨s.channels, false, .select⟩ := by simpa [setWorker] using hwg.symm
        subst hw'
        exact ⟨rfl, rfl, hchan ▸ .start hdone hopen⟩
      · have hwg' : s.workers g = some w := by
          simpa [setWorker, update_of_ne hg] using hwg
        exact absurd hcg (h.captured (by simp [hr]) hwg')
    fresh := fun g hwg => by
      have hg : g ≠ s.lifecycle.generation := by
        rintro rfl
        simp [setWorker] at hwg
      exact h.fresh g (by simpa [setWorker, update_of_ne hg] using hwg)
    le_generation := fun g w hwg => by
      by_cases hg : g = s.lifecycle.generation
      · exact hg.le
      · exact h.le_generation g w (by simpa [setWorker, update_of_ne hg] using hwg)
    restarting := by
      rintro _ ⟨⟩
      exact ⟨hc, by simp [setWorker]⟩
    active := fun g c ch hg hch => by
      rw [h.all_settled hr (by simp) hg] at hch
      cases hch
    idle := fun _ => hchan }

lemma Inv.spawn_capture (h : s.Inv) (hr : s.restart = some .persist) :
    Inv ({ s with restart := none }.setCapture s.lifecycle.generation
      ⟨s.history.latest, .reading⟩) := by
  obtain ⟨hc, hw⟩ := h.restarting _ hr
  have hchan : s.channels = of s.lifecycle.generation := by
    rw [h.idle fun g c hc => h.all_settled hr (by simp) hc, hr]
    rfl
  obtain ⟨w, hw⟩ : ∃ w, s.workers s.lifecycle.generation = some w := by
    rw [← ne_none_iff_exists']
    simp [hw]
  obtain ⟨-, -, hp⟩ := h.started _ w hw hc
  exact { h with
    paired := fun g c hg => by
      by_cases hgen : g = s.lifecycle.generation
      · subst hgen
        obtain rfl : ⟨s.history.latest, .reading⟩ = c := by simpa [setCapture] using hg
        exact ⟨w, hw, hp⟩
      · exact h.paired g c (by simpa [setCapture, hgen] using hg)
    started := fun g v hv hg => by
      by_cases hgen : g = s.lifecycle.generation
      · simp [setCapture, hgen] at hg
      · exact absurd (h.started g v hv (by simpa [setCapture, hgen] using hg)).2.1 hgen
    restarting := by simp [setCapture]
    active := fun g c ch hg hch => by
      by_cases hgen : g = s.lifecycle.generation
      · subst hgen
        obtain rfl : ⟨s.history.latest, .reading⟩ = c := by simpa [setCapture] using hg
        exact ⟨hchan.trans (some.inj hch), .inl rfl, rfl⟩
      · rw [h.all_settled hr (by simp) (by simpa [setCapture, hgen] using hg)] at hch
        cases hch
    idle := fun hall => by
      have := hall _ _ (update_self ..)
      simp [holds] at this }

/-! ### Orderly runs -/

/-- The capture of the generation `g`, if it was started, has returned from
`stopOutputPersistence`. -/
def settled (s : Managed) (g : ℕ) : Bool :=
  match s.captures g with
  | some ⟨_, .returned _ _⟩ => true
  | some ⟨_, .finished _ _⟩ => true
  | some _ => false
  | none => true

/-- `Restart` starts a worker only after every earlier capture has returned from
`stopOutputPersistence`, and its last update of the stored state succeeds. -/
def Orderly (s : Managed) : Action → Prop
  | .continueRestart persisted =>
    (s.restart = some .writeNotify → ∀ g ≤ s.lifecycle.generation, s.settled g = true) ∧
      (s.restart = some .persist → persisted = true)
  | _ => True

instance (s : Managed) (a : Action) : Decidable (s.Orderly a) := by
  unfold Orderly
  split <;> infer_instance

lemma holds_of_settled (hc : s.captures g = some c) (hs : s.settled g = true) : c.pc.holds g = none := by
  obtain ⟨n, pc⟩ := c
  unfold settled at hs
  rw [hc] at hs
  cases pc <;> simp_all [holds]

lemma Inv.continueRestart (h : s.Inv) (ho : s.Orderly (.continueRestart persisted))
    (hs : s.continueRestart persisted = some s') :
    s'.Inv := by
  obtain ⟨hwait, hpersisted⟩ := ho
  unfold Managed.continueRestart at hs
  simp only at hs
  split at hs
  · cases hs
  · next hr =>
    have hall : ∀ g c, s.captures g = some c → c.pc.holds g = none := fun g c hc =>
      holds_of_settled hc (hwait hr g (h.capture_le hc))
    cases hs
    exact h.write_field hr (by simp) (by simp) hall fun hch => by rw [hch]; rfl
  iterate 2
    next hr =>
      cases hs
      exact h.write_field hr (by simp) (by simp) (fun g c => h.all_settled hr (by simp))
        fun hch => by rw [hch]; rfl
  · next hr => exact some.inj hs ▸ h.spawn hr
  · next hr =>
    rw [hpersisted hr] at hs
    exact some.inj hs ▸ h.spawn_capture hr

lemma keepsUnder_inv : KeepsUnder step Orderly Inv := by
  intro s a s' h ho hs
  unfold step at hs
  rw [if_neg (by simp [h.no_panic])] at hs
  cases a with
  | read =>
    obtain ⟨c, hc, hs⟩ := bind_eq_some_iff.mp hs
    exact h.read hc hs
  | stop =>
    obtain ⟨c, hc, hs⟩ := bind_eq_some_iff.mp hs
    exact h.stopOutputPersistence hc hs
  | exit =>
    obtain ⟨c, hc, hs⟩ := bind_eq_some_iff.mp hs
    exact h.exit hc hs
  | select =>
    obtain ⟨w, hw, hs⟩ := bind_eq_some_iff.mp hs
    exact h.select hw hs
  | flush =>
    obtain ⟨w, hw, hs⟩ := bind_eq_some_iff.mp hs
    exact h.flush hw hs
  | send =>
    obtain ⟨w, hw, hs⟩ := bind_eq_some_iff.mp hs
    exact h.send hw hs
  | close => exact h.close hs
  | finishClosing => exact h.finishClosing hs
  | beginRestart => exact h.beginRestart hs
  | continueRestart => exact h.continueRestart ho hs

lemma created_inv (historyBytes : ℕ) : (created historyBytes).Inv := by
  have hcap : ∀ {g c}, (created historyBytes).captures g = some c → g = 1 ∧ c = ⟨0, .reading⟩ := by
    intro g c hc
    by_cases hg : g = 1
    · subst hg
      exact ⟨rfl, by simpa [created] using hc.symm⟩
    · simp [created, update_of_ne hg] at hc
  have hwork : ∀ {g w}, (created historyBytes).workers g = some w → g = 1 := by
    intro g w hw
    by_contra hg
    simp [created, update_of_ne hg] at hw
  have hpair : (created historyBytes).PairedAt 1 ⟨0, .reading⟩ ⟨of 1, false, .select⟩ :=
    .start rfl (by simp [StopClosed, created])
  exact
    { no_panic := rfl
      closes_own := by simp [created]
      closes_nodup := by simp [created]
      history_valid := ⟨[], le_rfl, rfl, by simp [created, History.live], rfl, rfl, Nat.zero_le _⟩
      log_valid := OutputLog.empty_valid
      log_le := le_rfl
      paired := fun g c hc => by
        obtain ⟨rfl, rfl⟩ := hcap hc
        exact ⟨_, rfl, hpair⟩
      started := fun g w hw hc => by
        obtain rfl := hwork hw
        simp [created] at hc
      fresh := by simp [created, StopClosed]
      le_generation := fun g w hw => (hwork hw).le
      restarting := by simp [created]
      active := fun g c ch hc hch => by
        obtain ⟨rfl, rfl⟩ := hcap hc
        exact ⟨some.inj hch, .inl rfl, rfl⟩
      idle := fun hall => by
        have := hall 1 ⟨0, .reading⟩ rfl
        simp [holds] at this }

lemma recovered_inv {historyBytes : ℕ} {history : History} {log : OutputLog}
    (lifecycle : Lifecycle) (hpos : 0 < historyBytes) (hlog : log.Valid)
    (hfits : log.latest - log.earliest ≤ historyBytes)
    (hrestore : History.restore historyBytes log.earliest log.latest log.rows = .ok history) :
    (recovered historyBytes history log lifecycle).Inv := by
  obtain ⟨history', hrestore', hlatest⟩ := OutputLog.exists_restore hlog hpos hfits
  rw [hrestore] at hrestore'
  cases hrestore'
  have hvalid := History.restore_valid hrestore hlog.latest_le hlog.nonempty
    (List.length_replicate (n := log.earliest) (a := (0 : UInt8)))
  exact
    { no_panic := rfl
      closes_own := by simp [recovered]
      closes_nodup := by simp [recovered]
      history_valid := ⟨_, hvalid⟩
      log_valid := hlog
      log_le := hlatest.ge
      paired := by simp [recovered]
      started := by simp [recovered]
      fresh := by simp [recovered, StopClosed]
      le_generation := by simp [recovered]
      restarting := by simp [recovered]
      active := by simp [recovered]
      idle := fun _ => rfl }

/-- The states a session starts in: right after `Create`, or restored from a valid log that was
trimmed to the history's limit. -/
inductive Initial : Managed → Prop
  | created (historyBytes : ℕ) : Initial (created historyBytes)
  | recovered {historyBytes : ℕ} {history : History} {log : OutputLog} (lifecycle : Lifecycle)
      (hpos : 0 < historyBytes) (hlog : log.Valid)
      (hfits : log.latest - log.earliest ≤ historyBytes)
      (hrestore : History.restore historyBytes log.earliest log.latest log.rows = .ok history) :
      Initial (recovered historyBytes history log lifecycle)

lemma Initial.inv (h : s.Initial) : s.Inv := by
  cases h with
  | created historyBytes => exact created_inv historyBytes
  | recovered lifecycle hpos hlog hfits hrestore =>
    exact recovered_inv lifecycle hpos hlog hfits hrestore

/-- What the persistence of a session guarantees. -/
structure Sound (s : Managed) : Prop where
  /-- No nil or closed channel is closed. -/
  no_panic : s.panicked = false
  /-- A worker is stopped by the capture of its generation. -/
  stopped_by_own : ∀ g k, (g, k) ∈ s.closes → k = g
  /-- No worker is stopped twice. -/
  stopped_once : (s.closes.map Prod.fst).Nodup
  /-- Every worker has a capture to stop it, or is about to get it. -/
  owned : ∀ g w, s.workers g = some w →
    s.captures g ≠ none ∨ s.restart = some .persist ∧ g = s.lifecycle.generation
  /-- A capture waits for its own worker, which either still runs or has answered. -/
  waits : ∀ g c ch, s.captures g = some c → c.pc = .awaitDone ch →
    ch = some g ∧ ∃ w, s.workers g = some w ∧ (w.pc = .exited → s.done g ≠ none)
  /-- When a capture has returned from `stopOutputPersistence`, it has stopped its worker. -/
  stopped : ∀ g, s.captures g ≠ none → s.settled g = true →
    s.StopClosed g ∧ ∃ w, s.workers g = some w ∧ w.pc = .exited
  /-- If no error was returned to it, the store's `latest_sequence` was the history's `latest` as of
  its last append, and the store has kept that output. -/
  persisted : ∀ g c stored, s.captures g = some c →
    c.pc = .returned none stored ∨ c.pc = .finished none stored →
    stored = c.lastAppend ∧ c.lastAppend ≤ s.log.latest

lemma Inv.sound (h : s.Inv) : s.Sound where
  no_panic := h.no_panic
  stopped_by_own := fun g k hk => h.closes_own (g, k) hk
  stopped_once := h.closes_nodup
  owned := fun g w hw => by
    by_cases hc : s.captures g = none
    · obtain ⟨h₁, h₂, -⟩ := h.started g w hw hc
      exact .inr ⟨h₁, h₂⟩
    · exact .inl hc
  waits := fun g c ch hc hpc => by
    obtain ⟨w, hw, hp⟩ := h.paired g c hc
    exact ⟨hp.await_eq ch hpc, w, hw, (hp.exited_iff (by rw [hpc]; rfl)).mp⟩
  stopped := fun g hc hs => by
    obtain ⟨c, hc⟩ := ne_none_iff_exists'.mp hc
    obtain ⟨w, hw, hp⟩ := h.paired g c hc
    have hanswer : c.pc.answer ≠ none := fun hno =>
      holds_ne_none g hno (holds_of_settled hc hs)
    refine ⟨hp.closed_iff.mpr ?_, w, hw, (hp.answered hanswer).1⟩
    revert hanswer
    cases c.pc <;> simp [answer, closed]
  persisted := fun g c stored hc hpc => by
    obtain ⟨w, -, hp⟩ := h.paired g c hc
    refine ⟨hp.stored_eq stored hpc, hp.persisted ?_⟩
    rcases hpc with hpc | hpc <;> rw [hpc] <;> rfl

/-- In every orderly run of `Close`, `Restart`, the captures and the workers, every reachable state
is sound. -/
theorem orderly_run_sound {s₀ s : Managed} {actions : List Action} (hinit : s₀.Initial)
    (horderly : Meets Managed.step Orderly s₀ actions)
    (hrun : run Managed.step s₀ actions = some s) : s.Sound :=
  (keepsUnder_inv.run hinit.inv horderly hrun).sound

/-- Generation 1 writes one byte and ends, its capture stops its worker, and the session is
restarted. -/
def restartAfterExit : List Action :=
  [.read 1 [97] true, .stop 1, .stop 1, .stop 1, .select 1 .stop, .flush 1 false, .flush 1 false,
    .flush 1 false, .flush 1 false, .flush 1 false, .send 1, .stop 1, .stop 1, .stop 1, .stop 1,
    .exit 1, .beginRestart true true, .continueRestart true, .continueRestart true,
    .continueRestart true, .continueRestart true, .continueRestart true]

/-- The run is orderly and ends in a sound state with one byte stored. -/
theorem restartAfterExit_sound : ∃ s, run Managed.step (created 10) restartAfterExit = some s ∧
      s.captures 1 = some ⟨1, .finished none 1⟩ ∧ s.Sound :=
  exists_and_of_any (by decide +kernel) fun _ hrun =>
    orderly_run_sound (.created 10) (by decide +kernel) hrun

/-- Generation 1 is closed and restarted while its capture is still reading. The capture then stops the
worker of generation 2, which appends one byte that no worker copies. -/
def lateCapture : List Action :=
  [.read 1 [97] false, .close ⟨true, false⟩, .beginRestart true true, .continueRestart true,
    .continueRestart true, .continueRestart true, .continueRestart true, .continueRestart true,
    .read 1 [] true, .stop 1, .stop 1, .stop 1, .select 2 .stop, .flush 2 false, .flush 2 false,
    .flush 2 false, .flush 2 false, .flush 2 false, .send 2, .stop 1, .stop 1, .stop 1, .stop 1,
    .exit 1, .read 2 [98] true, .stop 2]

/-- A capture that is late stops the next generation's worker, and the next capture is told that
everything is persisted while the store lacks its output. -/
theorem late_capture_loses_output :
    ∃ s, run Managed.step (created 10) lateCapture = some s ∧ s.closes = [(2, 1)] ∧
      s.captures 2 = some ⟨2, .returned none 1⟩ ∧ s.log.latest = 1 ∧ ¬ s.Sound := by
  refine exists_of_any (P := fun s => s.closes = [(2, 1)] ∧ s.captures 2 = some ⟨2, .returned none 1⟩ ∧
    s.log.latest = 1) (by decide +kernel) ?_
  rintro s - ⟨hcloses, hcap, hlog⟩
  refine ⟨hcloses, hcap, hlog, fun hsound => ?_⟩
  have := (hsound.persisted 2 _ 1 hcap (Or.inl rfl)).1
  simp at this

end Managed

end Paperboat.Session.Persistence

import Paperboat.Session.Persistence

/-!
# Clearing the output of a session

`Manager.Clear` holds the session lock. The persistence workers do not take it: the steps of `flush` come
at any time, also between the parts of `Clear` and with values they have read before. The store accepts
a clear only when the workers have copied everything, so `Clear` fails whenever the store lags behind, and
never otherwise.
-/

namespace Paperboat.Session.Clearing

open History List

open Persistence (Flush FlushNext)
open Store (OutputLog)

/-- Where `Clear` stands: in front of `ClearOutput`, or in front of the clear of the history. -/
inductive ClearPC where
  | idle
  | store (latest : ℕ)
  | history
  deriving DecidableEq

/-- What became of a call of `Clear` whose statements succeeded: its result, and the history when it
returned. -/
structure Outcome where
  result : Except Store.Error ℕ
  history : History

/-- The output of a session: the history, the stored log, the flushes at work, and `Clear`. -/
structure Output where
  historyBytes : ℕ
  history : History
  log : OutputLog
  flushes : List Flush
  pc : ClearPC
  outcomes : List Outcome

/-- What can happen. -/
inductive Action where
  /-- The capture appends what the process has written. -/
  | append (data : List UInt8)
  /-- A worker begins to flush. -/
  | begin
  /-- A flush takes a step, in which a store call may fail. -/
  | flush (i : ℕ) (fails : Bool)
  /-- `Clear` takes the lock and reads the bounds. -/
  | clear
  /-- `Clear` calls `ClearOutput`, which may fail as a statement. -/
  | clearStore (fails : Bool)
  /-- `Clear` clears the history. -/
  | clearHistory
  /-- The helper dies and recovers the session from the store. -/
  | restart
  deriving DecidableEq

/-- What `recover` does with the output of a session. -/
def recoverOutput (historyBytes : ℕ) (log : OutputLog) : Option (History × OutputLog) :=
  match log.trimOutput historyBytes with
  | .error _ => none
  | .ok log =>
    match log.replay log.earliest 0 with
    | .error _ => none
    | .ok (events, earliest, latest) =>
      match History.restore historyBytes earliest latest events with
      | .error _ => none
      | .ok history => some (history, log)

namespace Output

/-- One step. -/
def step (s : Output) (a : Action) : Option Output :=
  match a with
  | .append data =>
    if s.pc ≠ .idle ∨ data = [] then none
    else
      match s.history.appendBuffer 1 data with
      | .error _ => none
      | .ok (history, _) => some { s with history := history }
  | .begin => some { s with flushes := s.flushes ++ [.bounds] }
  | .flush i fails =>
    match s.flushes[i]? with
    | none => none
    | some f =>
      match f.step s.historyBytes s.history s.log fails with
      | (.goto f, log) => some { s with log := log, flushes := s.flushes.set i f }
      | (.returns _, log) => some { s with log := log, flushes := s.flushes.eraseIdx i }
  | .clear => if s.pc = .idle then some { s with pc := .store s.history.latest } else none
  | .clearStore fails =>
    match s.pc with
    | .store latest =>
      if fails then some { s with pc := .idle }
      else
        match s.log.clearOutput latest with
        | .error e => some { s with pc := .idle, outcomes := ⟨.error e, s.history⟩ :: s.outcomes }
        | .ok log => some { s with log := log, pc := .history }
    | _ => none
  | .clearHistory =>
    if s.pc = .history then
      some { s with
        history := s.history.clear.1
        pc := .idle
        outcomes := ⟨.ok s.history.clear.2, s.history.clear.1⟩ :: s.outcomes }
    else none
  | .restart =>
    match recoverOutput s.historyBytes s.log with
    | none => none
    | some (history, log) => some { s with history := history, log := log, flushes := [], pc := .idle }

/-- The output of a new session. -/
def initial (historyBytes : ℕ) : Output :=
  ⟨historyBytes, ⟨historyBytes, 0, 0, 0, [], 0⟩, .empty, [], .idle, []⟩

end Output

/-! ### Steps of a flush -/

/-- The values a flush has read: it advances the log only forward. -/
def FlushOK : Flush → Prop
  | .outputBounds earliest _ => earliest ≤ maxUint64
  | .advance earliest _ persistedLatest => persistedLatest < earliest ∧ earliest ≤ maxUint64
  | _ => True

variable {historyBytes : ℕ} {history : History} {log log' : OutputLog} {fails : Bool}
  {stream : List UInt8}

/-- A step of a flush keeps the log valid and moves its lower bound forward, whatever has happened since
the flush has read its values. -/
lemma flush_step {f : Flush} {next : FlushNext} (hlog : log.Valid) (hhistory : history.Valid stream)
    (hf : FlushOK f) (h : f.step historyBytes history log fails = (next, log')) :
    log'.Valid ∧ log.earliest ≤ log'.earliest ∧ ∀ g, next = .goto g → FlushOK g := by
  cases f with
  | bounds =>
    cases h
    refine ⟨hlog, le_rfl, ?_⟩
    rintro _ ⟨⟩
    exact hhistory.earliest_le.trans hhistory.latest_le
  | outputBounds =>
    simp only [Flush.step] at h
    split_ifs at h with hfails hbehind hdone
    all_goals
      cases h
      refine ⟨hlog, le_rfl, ?_⟩
      rintro _ ⟨⟩
    · exact ⟨hbehind, hf⟩
    · trivial
  | advance earliest =>
    simp only [Flush.step] at h
    split at h
    · cases h
      exact ⟨hlog, le_rfl, nofun⟩
    split at h
    · cases h
      exact ⟨hlog, le_rfl, nofun⟩
    rename_i log₁ hadvance
    obtain ⟨hexpected, -, rfl⟩ := OutputLog.advanceOutput_spec hadvance
    have hle := hlog.tiles.le
    have hearliest : log.earliest ≤ earliest := by
      have := hf.1
      omega
    have hvalid := OutputLog.valid_of_no_rows hf.2
    split at h
    all_goals
      cases h
      refine ⟨hvalid, hearliest, ?_⟩
      rintro _ ⟨⟩
    trivial
  | replay =>
    simp only [Flush.step] at h
    split at h
    all_goals
      cases h
      refine ⟨hlog, le_rfl, ?_⟩
      rintro _ ⟨⟩
    all_goals trivial
  | append latest toSequence events =>
    cases events with
    | nil =>
      simp only [Flush.step] at h
      split at h
      all_goals
        cases h
        refine ⟨hlog, le_rfl, ?_⟩
        rintro _ ⟨⟩
      trivial
    | cons =>
      simp only [Flush.step] at h
      split at h
      · cases h
        exact ⟨hlog, le_rfl, nofun⟩
      split at h
      · cases h
        exact ⟨hlog, le_rfl, nofun⟩
      rename_i log₁ happend
      obtain ⟨hvalid, -, -, hearliest⟩ := OutputLog.appendOutput_spec hlog happend
      cases h
      refine ⟨hvalid, hearliest, ?_⟩
      rintro _ ⟨⟩
      trivial

/-! ### Recovery -/

/-- What is recovered from a valid log starts at the log's lower bound or behind it. -/
lemma recoverOutput_spec (hlog : log.Valid) (h : recoverOutput historyBytes log = some (history, log')) :
    log'.Valid ∧ log.earliest ≤ log'.earliest ∧ history.earliest = log'.earliest ∧
      ∃ stream, history.Valid stream := by
  unfold recoverOutput at h
  rcases htrim : log.trimOutput historyBytes with _ | log₁
  · simp [htrim] at h
  have htrim' : log.trim historyBytes = .ok log₁ := by
    unfold OutputLog.trimOutput at htrim
    split at htrim
    · cases htrim
    · exact htrim
  obtain ⟨log₂, htrim₂, hvalid, -⟩ := OutputLog.trim_spec hlog historyBytes
  obtain rfl := Except.ok.inj (htrim'.symm.trans htrim₂)
  simp only [htrim, OutputLog.replay_earliest hvalid] at h
  rcases hrestore : History.restore historyBytes log₁.earliest log₁.latest log₁.rows with _ | _
  · simp [hrestore] at h
  simp only [hrestore, Option.some.injEq, Prod.mk.injEq] at h
  obtain ⟨rfl, rfl⟩ := h
  have hv := restore_valid hrestore hvalid.latest_le hvalid.nonempty
    (length_replicate (n := log₁.earliest) (a := 0))
  exact ⟨hvalid, OutputLog.trim_earliest_le hlog htrim',
    restore_earliest hrestore, _, hv⟩

/-! ### Runs -/

/-- No byte below `n` is replayed from the history, or from what is recovered from the store. -/
structure Gone (n : ℕ) (s : Output) : Prop where
  live : ∀ fromSequence limit r, s.history.replayOwned fromSequence limit = .ok r →
    ∀ e ∈ r.events, n ≤ e.startSequence
  recovered : ∀ history log, recoverOutput s.historyBytes s.log = some (history, log) →
    ∀ fromSequence limit r, history.replayOwned fromSequence limit = .ok r →
      ∀ e ∈ r.events, n ≤ e.startSequence

/-- Every `Clear` whose statements succeeded has returned no error and has left an empty history at the
latest sequence number, and nothing below that is replayed any more. -/
def Output.Sound (s : Output) : Prop :=
  ∀ o ∈ s.outcomes, ∃ n, o.result = .ok n ∧ o.history.live = [] ∧ o.history.earliest = n ∧
    o.history.latest = n ∧ Gone n s

/-- `ClearOutput` is called only when the store has everything that is in the history. -/
def CaughtUp (s : Output) : Action → Prop
  | .clearStore false => s.log.latest = s.history.latest
  | _ => True

/-- The invariant of runs in which the store has caught up at every clear. -/
structure Inv (s : Output) : Prop where
  history : ∃ stream, s.history.Valid stream
  log : s.log.Valid
  flushes : ∀ f ∈ s.flushes, FlushOK f
  /-- The lock keeps the end of the history where `Clear` has read it. -/
  reading : ∀ latest, s.pc = .store latest → latest = s.history.latest
  clearing : s.pc = .history → s.history.latest ≤ s.log.earliest
  outcomes : ∀ o ∈ s.outcomes, ∃ n, o.result = .ok n ∧ o.history.live = [] ∧
    o.history.earliest = n ∧ o.history.latest = n ∧ n ≤ s.history.earliest ∧ n ≤ s.log.earliest

lemma le_of_replay {fromSequence limit n : ℕ} {r : History.Replay} (hv : history.Valid stream)
    (hn : n ≤ history.earliest) (hr : history.replayOwned fromSequence limit = .ok r) :
    ∀ e ∈ r.events, n ≤ e.startSequence := by
  have hreplay := replayOwned_spec hv hr
  intro e he
  exact (hn.trans hreplay.earliest_le).trans (hreplay.tiles.bounds he).1

variable {s : Output}

lemma Inv.sound (h : Inv s) : s.Sound := by
  intro o ho
  obtain ⟨n, hresult, hlive, hearliest, hlatest, hhistory, hlog⟩ := h.outcomes o ho
  obtain ⟨stream, hv⟩ := h.history
  refine ⟨n, hresult, hlive, hearliest, hlatest, fun _ _ _ hr => le_of_replay hv hhistory hr, ?_⟩
  intro history log hrec fromSequence limit r hr
  obtain ⟨-, hle, heq, stream', hv'⟩ := recoverOutput_spec h.log hrec
  exact le_of_replay hv' (hlog.trans (hle.trans heq.ge)) hr

lemma Inv.logged (h : Inv s) {flushes : List Flush} (hlog : log.Valid)
    (hle : s.log.earliest ≤ log.earliest) (hflushes : ∀ f ∈ flushes, FlushOK f) :
    Inv { s with log := log, flushes := flushes } where
  history := h.history
  log := hlog
  flushes := hflushes
  reading := h.reading
  clearing := fun hpc => (h.clearing hpc).trans hle
  outcomes := by
    intro o ho
    obtain ⟨n, hresult, hlive, hearliest, hlatest, hhistory, hbelow⟩ := h.outcomes o ho
    exact ⟨n, hresult, hlive, hearliest, hlatest, hhistory, hbelow.trans hle⟩

variable {s' : Output}

lemma Inv.flush {i : ℕ} (h : Inv s) (hstep : s.step (.flush i fails) = some s') : Inv s' := by
  simp only [Output.step] at hstep
  rcases hf : s.flushes[i]? with _ | f
  · simp [hf] at hstep
  obtain ⟨stream, hv⟩ := h.history
  have hmem : f ∈ s.flushes := mem_of_getElem? hf
  simp only [hf] at hstep
  cases hnext : f.step s.historyBytes s.history s.log fails with
  | mk next =>
    obtain ⟨hlog, hle, hgoto⟩ := flush_step h.log hv (h.flushes f hmem) hnext
    rw [hnext] at hstep
    cases next with
    | goto =>
      cases hstep
      refine h.logged hlog hle fun f' hf' => ?_
      rcases mem_or_eq_of_mem_set hf' with hold | rfl
      · exact h.flushes f' hold
      · exact hgoto f' rfl
    | returns =>
      cases hstep
      exact h.logged hlog hle fun f' hf' => h.flushes f' (mem_of_mem_eraseIdx hf')

lemma Inv.append {data : List UInt8} (h : Inv s) (hstep : s.step (.append data) = some s') : Inv s' := by
  simp only [Output.step] at hstep
  split_ifs at hstep with hgo
  push Not at hgo
  split at hstep
  · cases hstep
  rename_i history event happend
  cases hstep
  obtain ⟨stream, hv⟩ := h.history
  have hle := (appendOwned_live hv.consistent hgo.2 happend).2.2
  refine ⟨⟨_, (appendOwned_valid hv hgo.2 happend).1⟩, h.log, h.flushes, ?_, ?_, ?_⟩
  · intro latest hpc
    exact nomatch hgo.1.symm.trans hpc
  · intro hpc
    exact nomatch hgo.1.symm.trans hpc
  · intro o ho
    obtain ⟨n, hresult, hlive, hearliest, hlatest, hhistory, hlog⟩ := h.outcomes o ho
    exact ⟨n, hresult, hlive, hearliest, hlatest, hhistory.trans hle, hlog⟩

lemma Inv.clearStore (h : Inv s) (hc : CaughtUp s (.clearStore fails))
    (hstep : s.step (.clearStore fails) = some s') : Inv s' := by
  simp only [Output.step] at hstep
  split at hstep
  · next latest hpc =>
    cases fails with
    | true =>
      cases hstep
      exact ⟨h.history, h.log, h.flushes, nofun, nofun, h.outcomes⟩
    | false =>
      have hlatest := h.reading latest hpc
      have hclear : s.log.clearOutput latest = .ok ⟨latest, latest, []⟩ := by
        have hcaught : s.log.latest = s.history.latest := hc
        rw [OutputLog.clearOutput, if_neg (by rw [hcaught, hlatest]; simp)]
      simp only [hclear] at hstep
      cases hstep
      obtain ⟨stream, hv⟩ := h.history
      have hle : s.log.earliest ≤ latest := by
        have := h.log.tiles.le
        have hcaught : s.log.latest = s.history.latest := hc
        omega
      have hword : latest ≤ maxUint64 := hlatest ▸ hv.latest_le
      refine ⟨⟨stream, hv⟩, OutputLog.valid_of_no_rows hword, h.flushes, nofun, ?_, ?_⟩
      · intro _
        exact hlatest.ge
      · intro o ho
        obtain ⟨n, hresult, hlive, hearliest, hlatest', hhistory, hlog⟩ := h.outcomes o ho
        exact ⟨n, hresult, hlive, hearliest, hlatest', hhistory, hlog.trans hle⟩
  · cases hstep

lemma Inv.clearHistory (h : Inv s) (hstep : s.step .clearHistory = some s') : Inv s' := by
  simp only [Output.step] at hstep
  split at hstep
  · next hpc =>
    cases hstep
    obtain ⟨stream, hv⟩ := h.history
    refine ⟨⟨stream, clear_valid hv⟩, h.log, h.flushes, nofun, nofun, fun o ho => ?_⟩
    rcases mem_cons.mp ho with rfl | ho
    · exact ⟨s.history.latest, rfl, (clear_frame s.history).1, rfl, rfl, le_rfl,
        h.clearing hpc⟩
    · obtain ⟨n, hresult, hlive, hearliest, hlatest, hhistory, hlog⟩ := h.outcomes o ho
      exact ⟨n, hresult, hlive, hearliest, hlatest, hhistory.trans hv.earliest_le, hlog⟩
  · cases hstep

/-- The invariant survives every step that clears a store that has caught up. -/
lemma inv_keeps : KeepsUnder Output.step CaughtUp Inv := by
  intro s a s' h hc hstep
  cases a with
  | append => exact h.append hstep
  | begin =>
    cases hstep
    exact { h with flushes := forall_mem_concat h.flushes trivial }
  | flush => exact h.flush hstep
  | clear =>
    simp only [Output.step] at hstep
    split at hstep
    · cases hstep
      refine ⟨h.history, h.log, h.flushes, ?_, nofun, h.outcomes⟩
      rintro _ ⟨⟩
      rfl
    · cases hstep
  | clearStore => exact h.clearStore hc hstep
  | clearHistory => exact h.clearHistory hstep
  | restart =>
    simp only [Output.step] at hstep
    split at hstep
    · cases hstep
    rename_i history log hrec
    cases hstep
    obtain ⟨hlog, hle, heq, hv⟩ := recoverOutput_spec h.log hrec
    refine ⟨hv, hlog, by simp, nofun, nofun, fun o ho => ?_⟩
    obtain ⟨n, hresult, hlive, hearliest, hlatest, -, hbelow⟩ := h.outcomes o ho
    exact ⟨n, hresult, hlive, hearliest, hlatest, (hbelow.trans hle).trans heq.ge,
      hbelow.trans hle⟩

/-- In every run in which the store has caught up with the history whenever `Clear` calls it, every
`Clear` whose statements succeed returns no error and leaves an empty history, and what it cleared is
never replayed. -/
theorem caught_up_clears_succeed {historyBytes : ℕ} (hpos : 0 < historyBytes) {actions : List Action}
    {s : Output} (hm : Meets Output.step CaughtUp (Output.initial historyBytes) actions)
    (hr : run Output.step (Output.initial historyBytes) actions = some s) : s.Sound := by
  have hinitial : Inv (Output.initial historyBytes) :=
    ⟨⟨[], new_valid (if_neg hpos.ne')⟩, OutputLog.empty_valid, by simp [Output.initial],
      nofun, nofun, by simp [Output.initial]⟩
  exact (inv_keeps.run hinitial hm hr).sound

/-! ### Examples of runs -/

instance (s : Output) (a : Action) : Decidable (CaughtUp s a) := by
  unfold CaughtUp
  split <;> infer_instance

/-- Output is flushed and cleared, and a flush that has read its bounds before goes on after it. -/
def clearBehindFlush : List Action :=
  [.append [1, 2, 3], .begin, .flush 0 false, .flush 0 false, .flush 0 false, .flush 0 false,
    .begin, .flush 1 false, .clear, .clearStore false, .clearHistory, .flush 1 false, .restart]

/-- After that run the clear has succeeded, and nothing of what it has cleared comes back. -/
theorem clearBehindFlush_sound : ∃ s, run Output.step (Output.initial 8) clearBehindFlush = some s ∧
    s.outcomes.length = 1 ∧ s.Sound :=
  exists_and_of_any (by decide +kernel) fun _ hs =>
    caught_up_clears_succeed (by decide) (by decide +kernel) hs

/-- Output is cleared before any worker has copied it. -/
def clearBeforeFlush : List Action := [.append [1, 2, 3], .clear, .clearStore false]

/-- The clear of that run returns an error, although its statements succeed. -/
theorem lagging_clear_fails : ∃ s, run Output.step (Output.initial 8) clearBeforeFlush = some s ∧
    ¬ s.Sound := by
  refine exists_of_any (P := fun s => s.outcomes.map (fun o => o.result) = [.error .conflict])
    (by decide +kernel) fun s hs hresults hsound => ?_
  obtain ⟨o, ho, herror⟩ := mem_map.mp (hresults ▸ mem_singleton_self _)
  obtain ⟨n, hok, -⟩ := hsound o ho
  rw [herror] at hok
  cases hok

end Paperboat.Session.Clearing

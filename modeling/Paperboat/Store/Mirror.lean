import Paperboat.Store.Output
import Paperboat.History.Correctness

/-!
# The stored log mirrors the history

A session's output is kept twice: in memory by its history and on disk by the rows of its log, and the
two trim and cut on their own. A step of the pair `Mirrored` is the same call on both sides. Both sides
have the same window, and sides with the same window answer alike and restore to the same history.
-/

namespace Paperboat.Store

open OutputLog List

namespace OutputLog

/-! ### Replaying the rows -/

/-- The query of `Replay`: the rows that end behind the cursor, in order. -/
def selectRows (log : OutputLog) (fromSequence : ℕ) : List History.Event :=
  log.rows.filter fun row => fromSequence < row.endSequence

/-- The loop of `Replay` over the selected rows. -/
def rowsLoop (fromSequence limit : ℕ) : List History.Event → ℕ → List History.Event → List History.Event
  | [], _, events => events
  | event :: rows, remaining, events =>
    let start := max fromSequence event.startSequence
    let stop :=
      if 0 < limit ∧ remaining < sub64 event.endSequence start then start + remaining
      else event.endSequence
    let offsetStart := sub64 start event.startSequence
    let offsetEnd := sub64 stop event.startSequence
    if start < stop then
      let events := events ++ [{ event with
        startSequence := start
        endSequence := stop
        data := event.data.extract offsetStart offsetEnd }]
      if 0 < limit then
        let remaining := sub64 remaining (sub64 stop start)
        if remaining = 0 then events else rowsLoop fromSequence limit rows remaining events
      else rowsLoop fromSequence limit rows remaining events
    else rowsLoop fromSequence limit rows remaining events

/-- `Replay`, row by row: the events from `fromSequence` on with the bounds. -/
def replayRows (log : OutputLog) (fromSequence limit : ℕ) :
    Except Error (List History.Event × ℕ × ℕ) :=
  if fromSequence < log.earliest then .error (.gap fromSequence log.earliest log.latest)
  else if log.latest < fromSequence then .error .conflict
  else
    .ok (rowsLoop fromSequence limit (log.selectRows fromSequence) limit [], log.earliest, log.latest)

/-- On the selected rows the loop collects the events that the loop of the history collects on all. -/
lemma rowsLoop_filter (fromSequence limit : ℕ) (rows : List History.Event) (remaining : ℕ)
    (result : History.Replay) :
    rowsLoop fromSequence limit (rows.filter fun row => fromSequence < row.endSequence) remaining
        result.events =
      (History.replayLoop fromSequence limit rows remaining result).events := by
  induction rows generalizing remaining result with
  | nil => rfl
  | cons row rows ih =>
    rw [History.replayLoop]
    by_cases hskip : row.endSequence ≤ fromSequence
    · rw [if_pos hskip, filter_cons_of_neg (by simpa using hskip)]
      exact ih remaining result
    rw [if_neg hskip, filter_cons_of_pos (by simpa using hskip), rowsLoop]
    dsimp only
    generalize (if 0 < limit ∧ remaining < sub64 row.endSequence (max fromSequence row.startSequence)
      then max fromSequence row.startSequence + remaining else row.endSequence) = stop
    -- from here on the two loops take the same branches
    split
    · split
      · split
        · rfl
        · rw [← ih]
      · rw [← ih]
    · rw [← ih]

lemma replay_eq_replayRows (log : OutputLog) (fromSequence limit : ℕ) :
    log.replay fromSequence limit = log.replayRows fromSequence limit := by
  have hloop := rowsLoop_filter fromSequence limit log.rows limit
    ⟨fromSequence, fromSequence, log.earliest, log.latest, []⟩
  rw [replay, replayRows, selectRows, hloop]

end OutputLog

/-! ### Both sides -/

/-- The answer of the log that goes with an answer of the history: the same events and bounds, the same
gap, and a conflict for an invalid cursor. -/
def answerOf : Except History.Error History.Replay → Except Error (List History.Event × ℕ × ℕ)
  | .ok result => .ok (result.events, result.earliestSequence, result.latestSequence)
  | .error (.gap requested earliest latest) => .error (.gap requested earliest latest)
  | .error _ => .error .conflict

/-- Two histories that agree in everything but the dropped slots of their backing lists. -/
structure SameHistory (h h' : History) : Prop where
  maxBytes_eq : h.maxBytes = h'.maxBytes
  bytes_eq : h.bytes = h'.bytes
  earliest_eq : h.earliest = h'.earliest
  latest_eq : h.latest = h'.latest
  live_eq : h.live = h'.live

/-- A history and the stored log of its session. -/
structure Mirrored where
  history : History
  log : OutputLog
  deriving DecidableEq

namespace Mirrored

/-- The calls that are made on both sides. -/
inductive Op where
  | append (channel : UInt8) (data : List UInt8)
  | setLimit (maxBytes : ℕ)
  deriving DecidableEq

/-- The number of bytes that the call appends. -/
def Op.size : Op → ℕ
  | .append _ data => data.length
  | .setLimit _ => 0

/-- What a call leaves of a side: its result, or what was there when it fails. -/
def orElse {α ε : Type} (before : α) : Except ε α → α
  | .ok after => after
  | .error _ => before

/-- One call on both sides. -/
def step (m : Mirrored) : Op → Mirrored
  | .append channel data =>
    ⟨orElse m.history ((m.history.append channel data).map Prod.fst),
      orElse m.log (m.log.appendOutput channel m.history.latest data m.history.maxBytes)⟩
  | .setLimit maxBytes =>
    ⟨orElse m.history (m.history.setLimit maxBytes), orElse m.log (m.log.trimOutput maxBytes)⟩

/-- Any number of calls. -/
def run (m : Mirrored) (ops : List Op) : Mirrored := ops.foldl step m

/-- The two sides are the same to a reader. -/
structure Agrees (m : Mirrored) : Prop where
  earliest_eq : m.log.earliest = m.history.earliest
  latest_eq : m.log.latest = m.history.latest
  events_eq : m.log.rows = m.history.live
  /-- Every replay is answered alike. -/
  replay_eq : ∀ fromSequence limit,
    m.log.replayRows fromSequence limit = answerOf (m.history.replay fromSequence limit)
  /-- What a trim leaves is restored to the history with that limit. -/
  restores : ∀ maxBytes, 0 < maxBytes → ∃ log trimmed restored,
    m.log.trimOutput maxBytes = .ok log ∧ m.history.setLimit maxBytes = .ok trimmed ∧
      History.restore maxBytes log.earliest log.latest log.rows = .ok restored ∧
      SameHistory restored trimmed

/-! ### Keeping in step -/

/-- Both sides are sound and have the same window. -/
structure InStep (m : Mirrored) : Prop where
  consistent : m.history.Consistent
  limit_pos : 0 < m.history.maxBytes
  valid : m.log.Valid
  window_eq : m.log.window = m.history.window

variable {m : Mirrored}

lemma InStep.latest_eq (hm : m.InStep) : m.log.latest = m.history.latest :=
  congrArg History.Window.latest hm.window_eq

lemma InStep.setLimit (hm : m.InStep) {maxBytes : ℕ} (hpos : 0 < maxBytes) :
    ∃ h log, m.history.setLimit maxBytes = .ok h ∧ m.log.trimOutput maxBytes = .ok log ∧
      h.maxBytes = maxBytes ∧ h.bytes ≤ maxBytes ∧ h.latest = m.history.latest ∧
      (⟨h, log⟩ : Mirrored).InStep := by
  have hset : m.history.setLimit maxBytes = .ok { m.history with maxBytes := maxBytes }.compactLocked :=
    if_neg hpos.ne'
  obtain ⟨hc, hmax, hbytes, hwindow⟩ := History.setLimit_window hm.consistent hset
  obtain ⟨log, htrim, hvalid, hlog⟩ := trim_window hm.valid maxBytes
  have htrim' : m.log.trimOutput maxBytes = .ok log := by
    rw [trimOutput, if_neg hpos.ne']
    exact htrim
  rw [hmax] at hbytes
  refine ⟨_, log, hset, htrim', hmax, hbytes, congrArg History.Window.latest hwindow, hc, ?_, hvalid,
    ?_⟩
  · rw [hmax]
    exact hpos
  · rw [hlog, hwindow, hm.window_eq]

lemma InStep.append (hm : m.InStep) (channel : UInt8) {data : List UInt8} (hne : data ≠ [])
    (hroom : m.history.latest + data.length ≤ maxUint64) :
    ∃ h event log, m.history.append channel data = .ok (h, event) ∧
      m.log.appendOutput channel m.history.latest data m.history.maxBytes = .ok log ∧
      h.latest = m.history.latest + data.length ∧ (⟨h, log⟩ : Mirrored).InStep := by
  have hpos : 0 < data.length := length_pos_iff.mpr hne
  obtain ⟨h, event, happend⟩ : ∃ h event, m.history.appendOwned channel data = .ok (h, event) := by
    have hfull : ¬ sub64 maxUint64 m.history.latest < data.length := by
      rw [sub64_of_le hm.consistent.latest_le]
      omega
    rw [History.appendOwned, if_neg hpos.ne', if_neg hfull]
    exact ⟨_, _, rfl⟩
  obtain ⟨hevent, hc, hmax, -, hwindow⟩ := History.appendOwned_window hm.consistent hne happend
  have hlatest := hm.latest_eq
  have heq := appendOutput_eq hm.valid channel hpos (hlatest ▸ hroom) hm.limit_pos
  rw [hlatest, ← hevent] at heq
  have hlonger : (⟨m.log.earliest, m.history.latest + data.length, m.log.rows ++ [event]⟩ :
      OutputLog).Valid := by
    subst hevent
    exact extend_valid hm.valid
      ⟨channel, m.history.latest, m.history.latest + data.length, data⟩ hlatest.symm
      (by simpa using hpos) (by simp) hroom
  obtain ⟨log, htrim, hvalid, hlog⟩ := trim_window hlonger m.history.maxBytes
  have hend : h.latest = m.history.latest + data.length := by
    have hlast : h.latest = event.endSequence := congrArg History.Window.latest hwindow
    rw [hlast, hevent]
  refine ⟨h, event, log, happend, heq.trans htrim, hend, hc, ?_, hvalid, ?_⟩
  · rw [hmax]
    exact hm.limit_pos
  · -- one more event at the end of the same window
    obtain ⟨hearliest, -, hrows⟩ := History.Window.mk.inj hm.window_eq
    have hsame : (⟨m.log.earliest, m.history.latest + data.length, m.log.rows ++ [event]⟩ :
        OutputLog).window = m.history.window.append event := by
      rw [window, History.Window.append, hearliest, hrows, hevent]
      rfl
    rw [hlog, hwindow, hsame]

lemma InStep.replay_eq (hm : m.InStep) (fromSequence limit : ℕ) :
    m.log.replayRows fromSequence limit = answerOf (m.history.replay fromSequence limit) := by
  obtain ⟨hearliest, hlatest, hrows⟩ := History.Window.mk.inj hm.window_eq
  rw [← replay_eq_replayRows, replay, History.replay, History.replayOwned,
    hearliest, hlatest, hrows]
  split
  · rfl
  split
  · rfl
  · obtain ⟨-, hfirst, hlast⟩ := History.replayLoop_frame fromSequence limit m.history.live limit
      ⟨fromSequence, fromSequence, m.history.earliest, m.history.latest, []⟩
    rw [answerOf, hfirst, hlast]

/-- A log in step with a history that is within its limit is restored to that history. -/
lemma InStep.restore (hm : m.InStep) (hfits : m.history.bytes ≤ m.history.maxBytes) :
    ∃ restored, History.restore m.history.maxBytes m.log.earliest m.log.latest m.log.rows =
        .ok restored ∧ SameHistory restored m.history := by
  obtain ⟨hearliest, hlatest, hrows⟩ := History.Window.mk.inj hm.window_eq
  have hbytes := hm.consistent.bytes_eq
  obtain ⟨restored, hrestore, hend⟩ :=
    exists_restore hm.valid hm.limit_pos (by rw [hearliest, hlatest]; omega)
  obtain ⟨-, -, -, -, hloop⟩ := History.restore_cases hrestore
  obtain ⟨-, hsum, -, hfirst, hlimit⟩ := History.restoreLoop_frame hloop
  obtain ⟨-, hlive⟩ := History.restore_live hrestore
  refine ⟨restored, hrestore, hlimit, ?_, hfirst.trans hearliest, hend.trans hlatest,
    hlive.trans hrows⟩
  -- the restored byte count is the length of the range
  rw [hsum, Nat.zero_add, hbytes, ← hearliest, ← hlatest, ← hm.valid.tiles.sum_length]
  exact congrArg List.sum (map_congr_left hm.valid.length_eq)

end Mirrored

end Paperboat.Store

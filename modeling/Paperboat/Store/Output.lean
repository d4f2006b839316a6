import Paperboat.History.Window

/-!
# The stored output of a session

The model of the output part of `internal/store/store.go`: the bounds of a session's row in `sessions`,
and its rows in `output_events`. Every function here is one transaction. `OutputLog.Valid` says that the
rows tile the range between the bounds.
-/

namespace Paperboat.Store

open List History Window

/-- The errors of the output transactions: `ErrConflict`, a violated primary key, `sql.ErrNoRows`
and `GapError`. -/
inductive Error where
  | conflict
  | constraint
  | noRows
  | gap (requested earliest latest : ℕ)
  deriving DecidableEq

/-- The stored output of one session, its rows in the order of `start_sequence`. -/
structure OutputLog where
  earliest : ℕ
  latest : ℕ
  rows : List History.Event
  deriving DecidableEq

namespace OutputLog

/-- The log of a session that has just been created. -/
def empty : OutputLog := ⟨0, 0, []⟩

/-! ### The transactions -/

/-- The `INSERT` into `output_events`. -/
def insertRow (rows : List History.Event) (row : History.Event) :
    Except Error (List History.Event) :=
  if rows.any fun r => r.startSequence = row.startSequence then .error .constraint
  else .ok (rows.orderedInsert (fun r r' => r.startSequence ≤ r'.startSequence) row)

/-- The loop that drops the oldest rows until at most `maxRetained` bytes are retained. -/
def trimLoop (maxRetained : ℕ) : List History.Event → ℕ → ℕ → Except Error (List History.Event × ℕ × ℕ)
  | [], retained, earliest =>
    if maxRetained < retained then .error .noRows else .ok ([], retained, earliest)
  | row :: rows, retained, earliest =>
    if maxRetained < retained then
      trimLoop maxRetained rows (sub64 retained row.data.length) row.endSequence
    else .ok (row :: rows, retained, earliest)

/-- The trimming part of `AppendOutput` and `TrimOutput`: the loop and the new lower bound. -/
def trim (log : OutputLog) (maxRetained : ℕ) : Except Error OutputLog :=
  match trimLoop maxRetained log.rows (sub64 log.latest log.earliest) log.earliest with
  | .error e => .error e
  | .ok (rows, retained, earliest) =>
    .ok ⟨if retained = 0 then log.latest else earliest, log.latest, rows⟩

/-- `AppendOutput`. -/
def appendOutput (log : OutputLog) (channel : UInt8) (start : ℕ) (data : List UInt8)
    (maxRetained : ℕ) : Except Error OutputLog :=
  if data.length = 0 ∨ maxRetained = 0 then .error .conflict
  -- the sum of two words wraps around exactly when it exceeds the largest word
  else if sub64 maxUint64 start < data.length then .error .conflict
  else if log.latest ≠ start ∨ log.latest < log.earliest then .error .conflict
  else
    match insertRow log.rows ⟨channel, start, start + data.length, data⟩ with
    | .error e => .error e
    | .ok rows => trim { log with latest := start + data.length, rows := rows } maxRetained

/-- `TrimOutput`. -/
def trimOutput (log : OutputLog) (maxRetained : ℕ) : Except Error OutputLog :=
  if maxRetained = 0 then .error .conflict else log.trim maxRetained

/-- `AdvanceOutput`. -/
def advanceOutput (log : OutputLog) (expectedLatest nextSequence : ℕ) : Except Error OutputLog :=
  if nextSequence < expectedLatest then .error .conflict
  else if log.latest ≠ expectedLatest then .error .conflict
  else .ok ⟨nextSequence, nextSequence, []⟩

/-- `ClearOutput`. -/
def clearOutput (log : OutputLog) (nextSequence : ℕ) : Except Error OutputLog :=
  if log.latest ≠ nextSequence then .error .conflict else .ok ⟨nextSequence, nextSequence, []⟩

/-- `OutputBounds`. -/
def outputBounds (log : OutputLog) : ℕ × ℕ := (log.earliest, log.latest)

/-- `Replay`: the stored events from `fromSequence` on with the bounds. Its loop over the rows cuts
them as the loop of `History.ReplayOwned` does. -/
def replay (log : OutputLog) (fromSequence limit : ℕ) :
    Except Error (List History.Event × ℕ × ℕ) :=
  if fromSequence < log.earliest then .error (.gap fromSequence log.earliest log.latest)
  else if log.latest < fromSequence then .error .conflict
  else
    .ok ((History.replayLoop fromSequence limit log.rows limit
      ⟨fromSequence, fromSequence, log.earliest, log.latest, []⟩).events, log.earliest, log.latest)

/-! ### Validity -/

/-- The rows tile the range between the bounds. -/
structure Valid (log : OutputLog) : Prop where
  tiles : History.EventTiles log.earliest log.rows log.latest
  /-- No row is empty. -/
  nonempty : ∀ row ∈ log.rows, row.startSequence < row.endSequence
  /-- Every row is as long as its data. -/
  length_eq : ∀ row ∈ log.rows, row.data.length = row.endSequence - row.startSequence
  /-- Sequence numbers are 64-bit words. -/
  latest_le : log.latest ≤ maxUint64

lemma empty_valid : empty.Valid := ⟨rfl, by simp [empty], by simp [empty], Nat.zero_le _⟩

lemma valid_of_no_rows {n : ℕ} (hn : n ≤ maxUint64) : (⟨n, n, []⟩ : OutputLog).Valid :=
  ⟨rfl, by simp, by simp, hn⟩

lemma insertRow_of_lt {rows : List Event} {row : Event}
    (h : ∀ r ∈ rows, r.startSequence < row.startSequence) :
    insertRow rows row = .ok (rows ++ [row]) := by
  have hkey : ¬ (rows.any fun r => r.startSequence = row.startSequence) = true := by
    simp only [any_eq_true, decide_eq_true_eq, not_exists, not_and]
    intro r hr
    exact (h r hr).ne
  rw [insertRow, if_neg hkey]
  congr 1
  clear hkey
  induction rows with
  | nil => rfl
  | cons r rows ih =>
    have hr := h r mem_cons_self
    rw [orderedInsert_cons, if_neg (not_le.mpr hr),
      ih fun r' hr' => h r' (mem_cons_of_mem _ hr'), cons_append]

/-! ### Trimming -/

/-- The window of the stored output. -/
def window (log : OutputLog) : History.Window := ⟨log.earliest, log.latest, log.rows⟩

variable {latest : ℕ}

/-- On rows that tile the retained range the loop finds enough rows to drop. -/
lemma trimLoop_eq (maxRetained : ℕ) (rows : List Event) {earliest : ℕ}
    (htiles : EventTiles earliest rows latest)
    (hlen : ∀ row ∈ rows, row.data.length = row.endSequence - row.startSequence) :
    trimLoop maxRetained rows (latest - earliest) earliest =
      .ok ((trimEvents maxRetained latest earliest rows).2,
        latest - (trimEvents maxRetained latest earliest rows).1,
        (trimEvents maxRetained latest earliest rows).1) := by
  induction rows generalizing earliest with
  | nil =>
    have hrange : earliest = latest := htiles
    rw [trimLoop, if_neg (by omega), hrange]
    rfl
  | cons row rows ih =>
    obtain ⟨hlo, hle, htl⟩ := htiles
    rw [trimLoop, trimEvents]
    split
    · have hsize := hlen row mem_cons_self
      have hend := htl.le
      have hretained : sub64 (latest - earliest) row.data.length = latest - row.endSequence := by
        rw [hsize, sub64_of_le (by omega)]
        omega
      rw [hretained]
      exact ih htl fun r hr => hlen r (mem_cons_of_mem _ hr)
    · rfl

variable {log : OutputLog}

lemma trim_window (hv : log.Valid) (maxRetained : ℕ) :
    ∃ log', log.trim maxRetained = .ok log' ∧ log'.Valid ∧ log'.window = log.window.trim maxRetained := by
  obtain ⟨htiles, hsuffix, -, -⟩ := trimEvents_spec maxRetained hv.tiles
  have hloop := trimLoop_eq maxRetained log.rows hv.tiles hv.length_eq
  generalize hresult : trimEvents maxRetained log.latest log.earliest log.rows = result
    at htiles hsuffix hloop
  have hle := htiles.le
  -- the bound is only replaced where it already is the upper one
  have hbound : (if log.latest - result.1 = 0 then log.latest else result.1) = result.1 := by
    split <;> omega
  refine ⟨⟨result.1, log.latest, result.2⟩, ?_, ?_, ?_⟩
  · rw [trim, sub64_of_le hv.tiles.le, hloop]
    simp only [hbound]
  · exact ⟨htiles, fun r hr => hv.nonempty r (hsuffix.subset hr),
      fun r hr => hv.length_eq r (hsuffix.subset hr), hv.latest_le⟩
  · rw [window, window, Window.trim, hresult]

/-- Trimming a valid log succeeds and leaves a valid log of at most `maxRetained` bytes. -/
lemma trim_spec (hv : log.Valid) (maxRetained : ℕ) :
    ∃ log', log.trim maxRetained = .ok log' ∧ log'.Valid ∧ log'.latest = log.latest ∧
      log'.latest - log'.earliest ≤ maxRetained ∧ log.earliest ≤ log'.earliest := by
  obtain ⟨log', htrim, hv', hwindow⟩ := trim_window hv maxRetained
  obtain ⟨-, -, hfits, hbound⟩ := trimEvents_spec maxRetained hv.tiles
  obtain ⟨hearliest, hlatest, -⟩ := Window.mk.inj hwindow
  refine ⟨log', htrim, hv', hlatest, ?_, ?_⟩
  · rw [hearliest, hlatest]
    exact hfits
  · rw [hearliest]
    exact hbound

variable {maxRetained : ℕ}

lemma trimOutput_spec (hv : log.Valid) (hpos : 0 < maxRetained) :
    ∃ log', log.trimOutput maxRetained = .ok log' ∧ log'.Valid ∧ log'.latest = log.latest ∧
      log'.latest - log'.earliest ≤ maxRetained := by
  rw [trimOutput, if_neg hpos.ne']
  obtain ⟨log', htrim, hv', hlatest, hfits, -⟩ := trim_spec hv maxRetained
  exact ⟨log', htrim, hv', hlatest, hfits⟩

variable {log' : OutputLog}

lemma trim_earliest_le (hv : log.Valid) (h : log.trim maxRetained = .ok log') :
    log.earliest ≤ log'.earliest := by
  obtain ⟨log'', htrim, -, -, -, hbound⟩ := trim_spec hv maxRetained
  rw [h] at htrim
  cases htrim
  exact hbound

/-! ### Appending, advancing and clearing -/

lemma extend_valid (hv : log.Valid) (row : Event) (hstart : row.startSequence = log.latest)
    (hlt : row.startSequence < row.endSequence)
    (hlen : row.data.length = row.endSequence - row.startSequence) (hmax : row.endSequence ≤ maxUint64) :
    (⟨log.earliest, row.endSequence, log.rows ++ [row]⟩ : OutputLog).Valid := by
  exact ⟨hv.tiles.concat hstart hlt.le, forall_mem_append.mpr ⟨hv.nonempty, by simpa using hlt⟩,
    forall_mem_append.mpr ⟨hv.length_eq, by simpa using hlen⟩, hmax⟩

variable {data : List UInt8}

/-- An append of something to the end of a valid log adds a row and trims. -/
lemma appendOutput_eq (hv : log.Valid) (channel : UInt8) (hpos : 0 < data.length)
    (hroom : log.latest + data.length ≤ maxUint64) (hlimit : 0 < maxRetained) :
    log.appendOutput channel log.latest data maxRetained = trim ⟨log.earliest, log.latest + data.length,
        log.rows ++ [⟨channel, log.latest, log.latest + data.length, data⟩]⟩ maxRetained := by
  have hins : insertRow log.rows ⟨channel, log.latest, log.latest + data.length, data⟩ =
      .ok (log.rows ++ [⟨channel, log.latest, log.latest + data.length, data⟩]) :=
    insertRow_of_lt fun r hr => by
      have h₁ := hv.tiles.bounds hr
      have h₂ := hv.nonempty r hr
      simp only
      omega
  have hle := hv.tiles.le
  rw [appendOutput, if_neg (by omega), if_neg (by rw [sub64_of_le hv.latest_le]; omega),
    if_neg (by simp only [ne_eq, not_true_eq_false, false_or]; omega), hins]

/-- A successful append starts at the end of the log and moves it behind the data. -/
lemma appendOutput_spec (hv : log.Valid) {channel : UInt8} {start : ℕ}
    (ha : log.appendOutput channel start data maxRetained = .ok log') :
    log'.Valid ∧ log.latest = start ∧ log'.latest = start + data.length ∧
      log.earliest ≤ log'.earliest := by
  -- what the checks in front of the transaction leave
  have hchecks : 0 < data.length ∧ 0 < maxRetained ∧ log.latest = start ∧
      log.latest + data.length ≤ maxUint64 := by
    unfold appendOutput at ha
    split_ifs at ha with hempty hfull hstart
    push Not at hempty hfull hstart
    have hword := hv.latest_le
    rw [sub64_of_le (by omega)] at hfull
    exact ⟨Nat.pos_of_ne_zero hempty.1, Nat.pos_of_ne_zero hempty.2, hstart.1, by omega⟩
  obtain ⟨hpos, hlimit, rfl, hroom⟩ := hchecks
  rw [appendOutput_eq hv channel hpos hroom hlimit] at ha
  have hvalid := extend_valid hv ⟨channel, log.latest, log.latest + data.length, data⟩ rfl
    (by simpa using hpos) (by simp) hroom
  obtain ⟨log'', htrim, hv'', hlatest, -, hearliest⟩ := trim_spec hvalid maxRetained
  rw [htrim] at ha
  cases ha
  exact ⟨hv'', rfl, hlatest, hearliest⟩

variable {nextSequence : ℕ}

lemma advanceOutput_spec {expectedLatest : ℕ}
    (ha : log.advanceOutput expectedLatest nextSequence = .ok log') :
    log.latest = expectedLatest ∧ expectedLatest ≤ nextSequence ∧
      log' = ⟨nextSequence, nextSequence, []⟩ := by
  unfold advanceOutput at ha
  split_ifs at ha with hback hother
  exact ⟨not_not.mp hother, not_lt.mp hback, (Except.ok.inj ha).symm⟩

/-! ### Reading the log back -/

/-- Without a limit and from in front of the rows, the replay loop returns the rows as they are. -/
lemma replayLoop_events {fromSequence : ℕ} (rows : List Event)
    (hfrom : ∀ row ∈ rows, fromSequence ≤ row.startSequence)
    (hne : ∀ row ∈ rows, row.startSequence < row.endSequence)
    (hlen : ∀ row ∈ rows, row.data.length = row.endSequence - row.startSequence)
    (remaining : ℕ) (result : Replay) :
    (replayLoop fromSequence 0 rows remaining result).events = result.events ++ rows := by
  induction rows generalizing result with
  | nil => simp [replayLoop]
  | cons row rows ih =>
    have h₁ := hfrom row mem_cons_self
    have h₂ := hne row mem_cons_self
    have h₃ := hlen row mem_cons_self
    have hwhole : row.data.extract 0 (row.endSequence - row.startSequence) = row.data := by
      rw [← h₃, extract_eq_take_drop]
      simp
    rw [replayLoop, if_neg (by omega)]
    simp only [max_eq_right h₁, lt_irrefl, false_and, if_false, h₂, if_true, sub64_of_le le_rfl,
      sub64_of_le h₂.le, Nat.sub_self, hwhole]
    rw [ih (fun r hr => hfrom r (mem_cons_of_mem _ hr))
      (fun r hr => hne r (mem_cons_of_mem _ hr)) fun r hr => hlen r (mem_cons_of_mem _ hr),
      append_assoc, singleton_append]

lemma replay_earliest (hv : log.Valid) :
    log.replay log.earliest 0 = .ok (log.rows, log.earliest, log.latest) := by
  rw [replay, if_neg (lt_irrefl _), if_neg (not_lt.mpr hv.tiles.le),
    replayLoop_events log.rows (fun r hr => (hv.tiles.bounds hr).1) hv.nonempty hv.length_eq,
    nil_append]

/-- The restore loop accepts events that tile a range from where it stands. -/
lemma exists_restoreLoop (rows : List Event) (history : History)
    (htiles : EventTiles history.latest rows latest)
    (hlen : ∀ row ∈ rows, row.data.length = row.endSequence - row.startSequence) :
    ∃ h, restoreLoop rows history = .ok h ∧ h.latest = latest ∧
      h.bytes = history.bytes + (latest - history.latest) := by
  induction rows generalizing history with
  | nil =>
    have hrange : history.latest = latest := htiles
    exact ⟨history, rfl, hrange, by omega⟩
  | cons row rows ih =>
    obtain ⟨hlo, hle, htl⟩ := htiles
    have hsize := hlen row mem_cons_self
    rw [restoreLoop, if_neg (by rw [sub64_of_le hle, hsize, hlo]; simp)]
    obtain ⟨h, hloop, hlatest, hbytes⟩ := ih { history with
      events := history.events ++ [row]
      bytes := history.bytes + row.data.length
      latest := row.endSequence } htl fun r hr => hlen r (mem_cons_of_mem _ hr)
    have hend := htl.le
    refine ⟨h, hloop, hlatest, ?_⟩
    rw [hbytes, hsize]
    simp only
    omega

/-- `history.Restore` accepts what is read back from a valid log that was trimmed to the limit. -/
lemma exists_restore (hv : log.Valid) {maxBytes : ℕ} (hpos : 0 < maxBytes)
    (hfits : log.latest - log.earliest ≤ maxBytes) :
    ∃ h, restore maxBytes log.earliest log.latest log.rows = .ok h ∧ h.latest = log.latest := by
  have hnew : new maxBytes = .ok ⟨maxBytes, 0, 0, 0, [], 0⟩ := if_neg hpos.ne'
  obtain ⟨h, hloop, hlatest, hbytes⟩ := exists_restoreLoop log.rows
    ⟨maxBytes, 0, log.earliest, log.earliest, [], 0⟩ hv.tiles hv.length_eq
  refine ⟨h, ?_, hlatest⟩
  simp only [Nat.zero_add] at hbytes
  unfold restore
  simp only [hnew]
  rw [if_neg (not_lt.mpr hv.tiles.le), hloop]
  simp only
  rw [if_neg]
  push Not
  exact ⟨hlatest, by omega⟩

end OutputLog

end Paperboat.Store

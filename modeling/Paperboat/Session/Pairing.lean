import Paperboat.Session.Persistence

/-!
# A capture and the worker of its generation

`Flush.step_spec` says that every step of a flush copies output that the history has, in order.
`Paired` relates a capture to its worker: the worker ends after the capture has closed its stop channel,
or before that with an error, and answers once.
-/

namespace Paperboat.Session.Persistence

open Store (OutputLog)

/-! ### A step of a flush -/

/-- The values a flush has read belong to the past of a history of length `latest` and of a log of
length `stored`. -/
def Flush.OK (latest stored : ℕ) : Flush → Prop
  | .bounds => True
  | .outputBounds earliest l => earliest ≤ l ∧ l ≤ latest
  | .advance earliest l _ => earliest ≤ l ∧ l ≤ latest
  | .replay _ persisted => persisted ≤ stored
  | .append _ toSequence events =>
    toSequence ≤ latest ∧
      (∃ p ≤ stored, History.EventTiles p events toSequence) ∧
      ∀ e ∈ events, e.data.length = e.endSequence - e.startSequence

/-- The flush does not return before the log has the length `n`. -/
def Flush.Aims (n : ℕ) : Flush → Prop
  | .bounds => True
  | .outputBounds _ latest => latest = n
  | .advance _ latest _ => latest = n
  | .replay latest _ => latest = n
  | .append latest _ _ => latest = n

variable {latest stored latest' stored' : ℕ} {f : Flush}

lemma Flush.OK.mono (h : f.OK latest stored) (hl : latest ≤ latest') (hs : stored ≤ stored') :
    f.OK latest' stored' := by
  cases f with
  | bounds => trivial
  | outputBounds | advance => exact ⟨h.1, h.2.trans hl⟩
  | replay => exact Nat.le_trans h hs
  | append =>
    obtain ⟨h₁, ⟨p, hp, htiles⟩, h₃⟩ := h
    exact ⟨h₁.trans hl, ⟨p, hp.trans hs, htiles⟩, h₃⟩

/-- What one step of a flush may do. -/
structure Flush.Advances (latest : ℕ) (f : Flush) (log : OutputLog) (next : FlushNext)
    (log' : OutputLog) : Prop where
  valid : log'.Valid
  /-- The log only grows. -/
  le_log : log.latest ≤ log'.latest
  /-- It never overtakes the history. -/
  log_le : log'.latest ≤ latest
  ok : ∀ f', next = .goto f' → f'.OK latest log'.latest
  aims : ∀ f', next = .goto f' → f.Aims latest → f'.Aims latest
  /-- A flush that returns no error has reached its aim. -/
  reached : next = .returns none → f.Aims latest → latest ≤ log'.latest

variable {log : OutputLog}

lemma Flush.advances_error (hv : log.Valid) (hle : log.latest ≤ latest) (e : FlushError) :
    f.Advances latest log (.returns (some e)) log :=
  ⟨hv, le_rfl, hle, by simp, by simp, by simp⟩

lemma Flush.advances_goto {f' : Flush} (hv : log.Valid) (hle : log.latest ≤ latest)
    (hok : f'.OK latest log.latest) (haims : f.Aims latest → f'.Aims latest) :
    f.Advances latest log (.goto f') log := by
  refine ⟨hv, le_rfl, hle, ?_, ?_, by simp⟩
  · rintro _ ⟨⟩
    exact hok
  · rintro _ ⟨⟩
    exact haims

/-- Every step of a flush copies output that the history has, in order. -/
lemma Flush.step_spec (historyBytes : ℕ) {history : History} {stream : List UInt8}
    (hh : history.Valid stream) (hv : log.Valid) (hle : log.latest ≤ history.latest) (fails : Bool)
    (f : Flush) (hok : f.OK history.latest log.latest) :
    f.Advances history.latest log (f.step historyBytes history log fails).1
      (f.step historyBytes history log fails).2 := by
  cases f with
  | bounds => exact advances_goto hv hle ⟨hh.earliest_le, le_rfl⟩ fun _ => rfl
  | outputBounds earliest latest =>
    rw [step]
    split
    · exact advances_error hv hle _
    extract_lets persistedLatest
    split
    · exact advances_goto hv hle hok id
    split
    · next hdone =>
      have hreach : latest ≤ log.latest := hdone
      exact ⟨hv, le_rfl, hle, by simp, by simp, fun _ haims => haims ▸ hreach⟩
    · exact advances_goto hv hle (Nat.le_refl _) id
  | advance earliest =>
    rw [step]
    split
    · exact advances_error hv hle _
    split
    · exact advances_error hv hle _
    rename_i log' hadvance
    obtain ⟨hfrom, hforward, rfl⟩ := OutputLog.advanceOutput_spec hadvance
    obtain ⟨h₁, h₂⟩ := hok
    have hvalid := OutputLog.valid_of_no_rows (n := earliest) (by have := hh.latest_le; omega)
    split
    · next hdone =>
      exact ⟨hvalid, hfrom.trans_le hforward, h₁.trans h₂, by simp, by simp,
        fun _ haims => haims ▸ hdone⟩
    · refine ⟨hvalid, hfrom.trans_le hforward, h₁.trans h₂, ?_, ?_, by simp⟩
      · rintro _ ⟨⟩
        exact Nat.le_refl _
      · rintro _ ⟨⟩
        exact id
  | replay latest persisted =>
    rw [step]
    split
    · exact advances_goto hv hle trivial fun _ => trivial
    · exact advances_error hv hle _
    · next result hreplay =>
      have hr := History.replayOwned_spec hh hreplay
      refine advances_goto hv hle ⟨?_, ⟨persisted, hok, hr.tiles⟩, fun e he => ?_⟩ id
      · rw [hr.to_eq]
        split <;> omega
      · obtain ⟨_, _, _, hholds, _⟩ := hr.parts e he
        exact hholds.length
  | append latest toSequence events =>
    obtain ⟨hto, ⟨p, hp, htiles⟩, hlen⟩ := hok
    cases events with
    | nil =>
      have hreach : p = toSequence := htiles
      rw [step]
      split
      · next hdone =>
        have hdone' : latest ≤ log.latest := by omega
        exact ⟨hv, le_rfl, hle, by simp, by simp, fun _ haims => haims ▸ hdone'⟩
      · exact advances_goto hv hle trivial fun _ => trivial
    | cons event =>
      rw [step]
      split
      · exact advances_error hv hle _
      split
      · exact advances_error hv hle _
      rename_i log' happend
      obtain ⟨hvalid, hstart, hend, -⟩ := OutputLog.appendOutput_spec hv happend
      obtain ⟨-, hpos, htl⟩ := htiles
      have hsize := hlen event List.mem_cons_self
      have hlatest : log'.latest = event.endSequence := by omega
      have hbound := htl.le
      have hgrow : log.latest ≤ log'.latest := by omega
      have hwithin : log'.latest ≤ history.latest := by omega
      refine ⟨hvalid, hgrow, hwithin, ?_, ?_, by simp⟩
      · rintro _ ⟨⟩
        exact ⟨hto, ⟨event.endSequence, hlatest.ge, htl⟩,
          fun e he => hlen e (List.mem_cons_of_mem _ he)⟩
      · rintro _ ⟨⟩
        exact id

/-! ### A capture and its worker -/

/-- The channels in the fields of the session while the capture `g` has not yet returned from
`stopOutputPersistence`. -/
def CapturePC.holds (g : ℕ) : CapturePC → Option Channels
  | .clearStop _ => some ⟨none, some g, some g⟩
  | .clearDone _ => some ⟨none, none, some g⟩
  | .returned _ _ => none
  | .finished _ _ => none
  | _ => some (Channels.of g)

/-- The capture has closed a stop channel. -/
def CapturePC.closed : CapturePC → Bool
  | .reading => false
  | .checkStop => false
  | .closeStop => false
  | _ => true

/-- The answer the capture has received on a done channel. -/
def CapturePC.answer : CapturePC → Option (Option FlushError)
  | .clearNotify err => some err
  | .clearStop err => some err
  | .clearDone err => some err
  | .returned err _ => some err
  | .finished err _ => some err
  | _ => none

/-- The channels in the fields when every capture has returned from `stopOutputPersistence`: those
that a running `Restart` has written for the generation `g`. -/
def RestartPC.holds (g : ℕ) : Option RestartPC → Channels
  | some .writeStop => ⟨some g, none, none⟩
  | some .writeDone => ⟨some g, some g, none⟩
  | some .spawn => Channels.of g
  | some .persist => Channels.of g
  | _ => Channels.nil

variable {g : ℕ} {pc : CapturePC}

lemma CapturePC.persistDone_of_holds {ch : Channels} (h : pc.holds g = some ch) :
    ch.persistDone = some g := by
  cases pc <;> simp only [holds, Channels.of, Option.some.injEq, reduceCtorEq] at h <;> rw [← h]

/-- The capture `c` of the generation `g` and its worker `w`, where the history and the log have the
lengths `latest` and `stored`, `closed` says that the stop channel is closed, and `answer` is in the
buffer of the done channel. -/
structure Paired (latest stored : ℕ) (closed : Prop) (answer : Option (Option FlushError)) (g : ℕ)
    (c : Capture) (w : Worker) : Prop where
  channels_eq : w.channels = Channels.of g
  flush_ok : ∀ stopping f, w.pc = .flushing stopping f → f.OK latest stored
  closed_iff : closed ↔ c.pc.closed = true
  /-- Before the stop channel is closed, the worker only ends with an error. -/
  early : c.pc.closed = false →
    (∀ f, w.pc ≠ .flushing true f) ∧ w.pc ≠ .sending none ∧ answer ≠ some none
  /-- The last flush copies everything the capture has appended. -/
  aims : c.pc.closed = true → ∀ f, w.pc = .flushing true f → f.Aims c.lastAppend
  reached : w.pc = .sending none ∨ answer = some none → c.lastAppend ≤ stored
  /-- A worker that has ended has answered. -/
  exited_iff : c.pc.answer = none → (w.pc = .exited ↔ answer ≠ none)
  /-- There is one answer. -/
  answered : c.pc.answer ≠ none → w.pc = .exited ∧ answer = none
  persisted : c.pc.answer = some none → c.lastAppend ≤ stored
  stored_eq : ∀ n, c.pc = .returned none n ∨ c.pc = .finished none n → n = c.lastAppend
  await_eq : ∀ ch, c.pc = .awaitDone ch → ch = some g

variable {closed closed' : Prop} {answer : Option (Option FlushError)} {c : Capture} {w : Worker}

/-- A worker right after its start, with the capture that is about to be started. -/
lemma Paired.start {n : ℕ} (hanswer : answer = none) (hopen : ¬ closed) :
    Paired latest stored closed answer g ⟨n, .reading⟩ ⟨Channels.of g, false, .select⟩ where
  channels_eq := rfl
  flush_ok := by simp
  closed_iff := iff_of_false hopen (by simp [CapturePC.closed])
  early := by simp [hanswer]
  aims := by simp
  reached := by simp [hanswer]
  exited_iff := by simp [hanswer]
  answered := by simp [CapturePC.answer]
  persisted := by simp [CapturePC.answer]
  stored_eq := by simp
  await_eq := by simp

lemma Paired.mono (h : Paired latest stored closed answer g c w) (hl : latest ≤ latest')
    (hs : stored ≤ stored') (hc : closed' ↔ closed) : Paired latest' stored' closed' answer g c w where
  channels_eq := h.channels_eq
  flush_ok := fun b f hf => (h.flush_ok b f hf).mono hl hs
  closed_iff := hc.trans h.closed_iff
  early := h.early
  aims := h.aims
  reached := fun hr => (h.reached hr).trans hs
  exited_iff := h.exited_iff
  answered := h.answered
  persisted := fun hp => (h.persisted hp).trans hs
  stored_eq := h.stored_eq
  await_eq := h.await_eq

lemma Paired.move (h : Paired latest stored closed answer g c w) (hs : stored ≤ stored')
    (hrun : w.pc ≠ .exited) {dirty : Bool} {pc : WorkerPC} (hrun' : pc ≠ .exited)
    (hok : ∀ stopping f, pc = .flushing stopping f → f.OK latest stored')
    (hearly : c.pc.closed = false → (∀ f, pc ≠ .flushing true f) ∧ pc ≠ .sending none)
    (haims : c.pc.closed = true → ∀ f, pc = .flushing true f → f.Aims c.lastAppend)
    (hreached : pc = .sending none → c.lastAppend ≤ stored') :
    Paired latest stored' closed answer g c ⟨w.channels, dirty, pc⟩ where
  channels_eq := h.channels_eq
  flush_ok := hok
  closed_iff := h.closed_iff
  early := fun hc => ⟨(hearly hc).1, (hearly hc).2, (h.early hc).2.2⟩
  aims := haims
  reached := by
    rintro (hpc | hans)
    · exact hreached hpc
    · exact (h.reached (.inr hans)).trans hs
  exited_iff := fun ha => by
    have := h.exited_iff ha
    simp only [hrun, false_iff] at this
    simp only [hrun', false_iff]
    exact this
  answered := fun ha => absurd (h.answered ha).1 hrun
  persisted := fun hp => (h.persisted hp).trans hs
  stored_eq := h.stored_eq
  await_eq := h.await_eq

/-- The capture moves on without closing a channel or receiving an answer. -/
lemma Paired.recapture (h : Paired latest stored closed answer g c w) (hc : pc.closed = c.pc.closed)
    (ha : pc.answer = c.pc.answer)
    (hs : ∀ n, pc = .returned none n ∨ pc = .finished none n → n = c.lastAppend)
    (hw : ∀ ch, pc = .awaitDone ch → ch = some g) :
    Paired latest stored closed answer g { c with pc := pc } w where
  channels_eq := h.channels_eq
  flush_ok := h.flush_ok
  closed_iff := by simpa only [hc] using h.closed_iff
  early := by simpa only [hc] using h.early
  aims := by simpa only [hc] using h.aims
  reached := h.reached
  exited_iff := by simpa only [ha] using h.exited_iff
  answered := by simpa only [ha] using h.answered
  persisted := by simpa only [ha] using h.persisted
  stored_eq := hs
  await_eq := hw

lemma Paired.append (h : Paired latest stored closed answer g c w) (hl : latest ≤ latest')
    (hc : c.pc = .reading) : Paired latest' stored closed answer g ⟨latest', .reading⟩ w where
  channels_eq := h.channels_eq
  flush_ok := fun b f hf => (h.flush_ok b f hf).mono hl le_rfl
  closed_iff := by simpa only [hc] using h.closed_iff
  early := by simpa only [hc] using h.early
  aims := by simp [CapturePC.closed]
  reached := by
    obtain ⟨-, h₂, h₃⟩ := h.early (by rw [hc]; rfl)
    rintro (hpc | hans)
    · exact absurd hpc h₂
    · exact absurd hans h₃
  exited_iff := by simpa only [hc] using h.exited_iff
  answered := by simp [CapturePC.answer]
  persisted := by simp [CapturePC.answer]
  stored_eq := by simp
  await_eq := by simp

lemma Paired.close (h : Paired latest stored closed answer g c w) (hc : c.pc = .closeStop)
    (hclosed : closed') :
    Paired latest stored closed' answer g { c with pc := .readDone } w := by
  obtain ⟨h₁, h₂, h₃⟩ := h.early (by rw [hc]; rfl)
  exact
    { channels_eq := h.channels_eq
      flush_ok := h.flush_ok
      closed_iff := by simp [CapturePC.closed, hclosed]
      early := by simp [CapturePC.closed]
      aims := fun _ f hf => absurd hf (h₁ f)
      reached := h.reached
      exited_iff := fun _ => h.exited_iff (by rw [hc]; rfl)
      answered := by simp [CapturePC.answer]
      persisted := by simp [CapturePC.answer]
      stored_eq := by simp
      await_eq := by simp }

variable {err : Option FlushError}

lemma Paired.receive {ch : Option ℕ} (h : Paired latest stored closed (some err) g c w)
    (hc : c.pc = .awaitDone ch) :
    Paired latest stored closed none g { c with pc := .clearNotify err } w := by
  have hexit : w.pc = .exited := (h.exited_iff (by rw [hc]; rfl)).mpr (by simp)
  exact
    { channels_eq := h.channels_eq
      flush_ok := h.flush_ok
      closed_iff := by
        have := h.closed_iff
        rw [hc] at this
        exact this
      early := by simp [CapturePC.closed]
      aims := by simp [hexit]
      reached := by simp [hexit]
      exited_iff := by simp [CapturePC.answer]
      answered := fun _ => ⟨hexit, rfl⟩
      persisted := fun herr => h.reached (.inr herr)
      stored_eq := by simp
      await_eq := by simp }

lemma Paired.send (h : Paired latest stored closed answer g c w) (hw : w.pc = .sending err) :
    Paired latest stored closed (some err) g c { w with pc := .exited } where
  channels_eq := h.channels_eq
  flush_ok := by simp
  closed_iff := h.closed_iff
  early := fun hc => by
    have hne := (h.early hc).2.1
    rw [hw] at hne
    simpa using hne
  aims := by simp
  reached := by
    rintro (hpc | hans)
    · cases hpc
    · exact h.reached (.inl (by rw [hw, Option.some.inj hans]))
  exited_iff := by simp
  answered := fun ha => by
    have := (h.answered ha).1
    rw [hw] at this
    cases this
  persisted := h.persisted
  stored_eq := h.stored_eq
  await_eq := h.await_eq

/-- A capture that has not received an answer has not returned from `stopOutputPersistence`. -/
lemma CapturePC.holds_ne_none (g : ℕ) (h : pc.answer = none) : pc.holds g ≠ none := by
  cases pc <;> simp_all [holds, answer]

end Paperboat.Session.Persistence

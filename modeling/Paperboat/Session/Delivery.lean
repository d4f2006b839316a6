import Paperboat.Lib.Transition
import Paperboat.Session.Fanout

/-!
# Delivery of terminal output

One session as the system of its history, its fan-out and the calls that drive them. Capturing,
attaching and clearing hold the session lock; reading and detaching do not, so they may run between
any two fan-out calls of an `attachLocked`, and the model takes these calls one at a time.

What the calls return is a list of outcomes, and an `Observer` reads off it what the session has
output and, for each attachment, what it has received.
-/

namespace Paperboat.Session.Delivery

open Fanout History FinMap Function AttachmentCursor

open History (Event EventOK EventHolds EventTiles Replay IsReplay)

open Fanout (AttachmentCursor RingOK RingCovers Aligned Eviction)

/-! ### The system -/

/-- The limits of the manager that attaching reads. -/
structure Config where
  maxAttachments : ℕ
  attachmentBytes : ℕ

/-- `initialReplayBytes`: the longest replay of an attachment. -/
def initialReplayBytes : ℕ := 65536

/-- `attachmentReplayLimit`: half of the attachment's budget, at least one byte. -/
def attachmentReplayLimit (attachmentBytes : ℕ) : ℕ :=
  let limit := attachmentBytes / 2
  let limit := if limit = 0 then 1 else limit
  if initialReplayBytes < limit then initialReplayBytes else limit

/-- The replay of `attachLocked`: from `fromSequence`, and from the newest bounded tail if that does
not reach the end of the history. -/
def attachReplay (config : Config) (h : History) (fromSequence : ℕ) : Except History.Error Replay :=
  let replayLimit := attachmentReplayLimit config.attachmentBytes
  match h.replayOwned fromSequence replayLimit with
  | .error e => .error e
  | .ok replay =>
    if replay.toSequence < replay.latestSequence then
      let boundary := sub64 replay.latestSequence replayLimit
      let boundary :=
        if boundary < replay.earliestSequence then replay.earliestSequence else boundary
      h.replayOwned boundary replayLimit
    else .ok replay

/-- Why an attach is refused. -/
inductive AttachError where
  | resourceLimit
  | history (e : History.Error)
  | fanout (e : Fanout.Error)
  deriving DecidableEq

/-- An `attachLocked` call that holds the session lock: the replay, the events of it that are still
to be enqueued, and whether the fan-out knows the attachment yet. -/
structure Attaching where
  attachmentID : String
  replay : Replay
  pending : List Event
  registered : Bool

/-- The state of a session's output side. -/
structure Terminal where
  history : History
  fanout : Fanout
  attaching : Option Attaching

/-- The calls. An attach is the four calls `attach`, `register`, `enqueue` (once for each replayed
event) and `finish`. -/
inductive Action where
  | capture (channel : UInt8) (data : List UInt8)
  | attach (attachmentID : String) (fromSequence : ℕ)
  | register
  | enqueue
  | finish
  | next (attachmentID : String)
  | waitNext (attachmentID : String)
  | detach (attachmentID : String)
  | clear

/-- What a call returns. -/
inductive Outcome where
  | captured (event : Event) (published : Except Fanout.Error (List Eviction))
  | captureFailed (e : History.Error)
  | replayed (attachmentID : String)
  | registered (attachmentID : String) (fromSequence : ℕ)
  | enqueued (attachmentID : String)
  | attached (attachmentID : String) (replay : Replay)
  | attachFailed (attachmentID : String) (e : AttachError)
  | read (attachmentID : String) (result : Except Fanout.Error (Option Event))
  | detached (attachmentID : String) (result : Except Fanout.Error Unit)
  | cleared (sequence : ℕ)

/-- `Fanout.Detach` on the failure paths of `attachLocked`, its error dropped. -/
def Terminal.giveUp (t : Terminal) (attachmentID : String) (e : AttachError) : Terminal × Outcome :=
  match t.fanout.detach attachmentID with
  | .ok f => (⟨t.history, f, none⟩, .attachFailed attachmentID e)
  | .error _ => (⟨t.history, t.fanout, none⟩, .attachFailed attachmentID e)

/-- The result of a read of the fan-out. -/
def Terminal.afterRead (t : Terminal) (attachmentID : String)
    (r : Except Fanout.Error (Fanout × Option Event)) : Terminal × Outcome :=
  match r with
  | .ok (f, event) => ({ t with fanout := f }, .read attachmentID (.ok event))
  | .error e => (t, .read attachmentID (.error e))

/-- One call. The calls that take the session lock wait for an attach in progress. -/
def Terminal.step (config : Config) (t : Terminal) : Action → Option (Terminal × Outcome)
  | .capture channel data =>
    -- `capture` publishes only what `Read` returned, which is not empty
    if t.attaching.isSome ∨ data = [] then none
    else
      match t.history.appendBuffer channel data with
      | .error e => some (t, .captureFailed e)
      | .ok (history, event) =>
        match t.fanout.publishOwned event with
        | .error e => some ({ t with history := history }, .captured event (.error e))
        | .ok (fanout, evictions) =>
          some ({ t with history := history, fanout := fanout }, .captured event (.ok evictions))
  | .attach attachmentID fromSequence =>
    if t.attaching.isSome then none
    else if config.maxAttachments ≤ t.fanout.count then
      some (t, .attachFailed attachmentID .resourceLimit)
    else
      match attachReplay config t.history fromSequence with
      | .error e => some (t, .attachFailed attachmentID (.history e))
      | .ok replay =>
        some ({ t with attaching := some ⟨attachmentID, replay, replay.events, false⟩ },
          .replayed attachmentID)
  | .register =>
    match t.attaching with
    | some ⟨attachmentID, replay, pending, false⟩ =>
      match t.fanout.attach attachmentID config.attachmentBytes with
      | .error e => some ({ t with attaching := none }, .attachFailed attachmentID (.fanout e))
      | .ok fanout =>
        some ({ t with
          fanout := fanout
          attaching := some ⟨attachmentID, replay, pending, true⟩ },
          .registered attachmentID replay.fromSequence)
    | _ => none
  | .enqueue =>
    match t.attaching with
    | some ⟨attachmentID, replay, event :: pending, true⟩ =>
      match t.fanout.enqueueOwned attachmentID event with
      | .error e => some (t.giveUp attachmentID (.fanout e))
      | .ok (fanout, some _) =>
        some ({ t with fanout := fanout }.giveUp attachmentID (.fanout .attachmentEvicted))
      | .ok (fanout, none) =>
        some ({ t with
          fanout := fanout
          attaching := some ⟨attachmentID, replay, pending, true⟩ }, .enqueued attachmentID)
    | _ => none
  | .finish =>
    match t.attaching with
    | some ⟨attachmentID, replay, [], true⟩ =>
      some ({ t with attaching := none }, .attached attachmentID replay)
    | _ => none
  | .next attachmentID => some (t.afterRead attachmentID (t.fanout.next attachmentID))
  | .waitNext attachmentID => some (t.afterRead attachmentID (t.fanout.waitNextOwned attachmentID))
  | .detach attachmentID =>
    match t.fanout.detach attachmentID with
    | .ok f => some ({ t with fanout := f }, .detached attachmentID (.ok ()))
    | .error e => some (t, .detached attachmentID (.error e))
  | .clear =>
    if t.attaching.isSome then none
    else
      let (history, sequence) := t.history.clear
      some ({ t with history := history }, .cleared sequence)

/-! ### The observer -/

/-- What one attachment has received since it was registered. -/
structure Ledger where
  fromSequence : ℕ
  delivered : List Event

/-- What can be read off the outcomes: the output of the session, and for each attachment id the
deliveries since its last registration. -/
structure Observer where
  stream : List UInt8
  ledger : String → Ledger

/-- The ledger after a delivery. -/
def Ledger.receive (l : Ledger) (event : Event) : Ledger :=
  { l with delivered := l.delivered ++ [event] }

/-- Read one outcome. -/
def Observer.see (o : Observer) : Outcome → Observer
  | .captured event _ => { o with stream := o.stream ++ event.data }
  | .registered id fromSequence =>
    { o with ledger := Function.update o.ledger id ⟨fromSequence, []⟩ }
  | .read id (.ok (some event)) =>
    { o with ledger := Function.update o.ledger id ((o.ledger id).receive event) }
  | _ => o

/-- The session together with an observer. -/
structure Watched where
  terminal : Terminal
  observer : Observer

/-- One call, observed. -/
def Watched.step (config : Config) (w : Watched) (a : Action) : Option Watched :=
  (w.terminal.step config a).map fun r => ⟨r.1, w.observer.see r.2⟩

/-- A session before its first call: a history that `New` made, or that `Restore` rebuilt from
nonempty stored events, behind `dropped` bytes that are no longer kept; no attachments. -/
inductive Starts : Watched → Prop
  | new {maxBytes : ℕ} {h : History} (hn : History.new maxBytes = .ok h) (ledger : String → Ledger) :
      Starts ⟨⟨h, .newFanout, none⟩, ⟨[], ledger⟩⟩
  | restore {maxBytes earliest latest : ℕ} {events : List Event} {h : History}
      (hr : History.restore maxBytes earliest latest events = .ok h) (hmax : latest ≤ maxUint64)
      (hword : ∀ e ∈ events, e.endSequence ≤ maxUint64)
      (hne : ∀ e ∈ events, e.startSequence < e.endSequence) {dropped : List UInt8}
      (hdropped : dropped.length = earliest) (ledger : String → Ledger) :
      Starts ⟨⟨h, .newFanout, none⟩, ⟨dropped ++ events.flatMap Event.data, ledger⟩⟩

/-! ### The invariant -/

/-- The position of the next byte to be delivered: the start of the attachment until its cursor is
set. -/
def Ledger.position (l : Ledger) (c : AttachmentCursor) : ℕ :=
  if c.hasCursor then c.cursor else l.fromSequence

/-- The end of what has been queued. -/
def Ledger.frontier (l : Ledger) (c : AttachmentCursor) : ℕ :=
  if c.hasCursor then c.enqueuedEnd else l.fromSequence

/-- The attachment has received the stream up to its position, and the ring holds what is queued. -/
structure Serves (stream : List UInt8) (ring : List Event) (l : Ledger) (c : AttachmentCursor) :
    Prop where
  /-- The deliveries are consecutive, from the start of the attachment to its position. -/
  tiles : EventTiles l.fromSequence l.delivered (l.position c)
  /-- Every delivery holds its part of the stream. -/
  holds : ∀ e ∈ l.delivered, EventHolds stream e
  position_le : l.position c ≤ l.frontier c
  /-- The byte count is the length of the queued range. -/
  queued_eq : c.queuedBytes = l.frontier c - l.position c
  queued_le : c.queuedBytes ≤ c.maxBytes
  /-- The ring holds every queued byte. -/
  covered : ∀ q, l.position c ≤ q → q < l.frontier c → RingCovers ring q
  /-- No ring event goes on beyond what has been queued, so that reading one to its end is safe. -/
  whole : c.hasCursor = true → ∀ x ∈ ring, x.startSequence < c.enqueuedEnd →
    x.endSequence ≤ c.enqueuedEnd

/-- The replayed events that an attachment is still to get. -/
def Terminal.pending (t : Terminal) (attachmentID : String) : List Event :=
  match t.attaching with
  | some a => if a.registered = true ∧ a.attachmentID = attachmentID then a.pending else []
  | none => []

/-- The invariant of a session. -/
structure Inv (t : Terminal) (o : Observer) : Prop where
  /-- The history retains a suffix of the observed stream. -/
  history : t.history.Valid o.stream
  /-- The ring is ordered and holds parts of the stream. -/
  ring : RingOK o.stream t.fanout.ring
  /-- Ring events and history events end together where they overlap. -/
  aligned : ∀ x ∈ t.fanout.ring, ∀ e ∈ t.history.live, Aligned x e
  /-- Every attachment is served, and with its pending events has everything up to `latest`. -/
  serves : ∀ id c, t.fanout.attachments.lookup id = some c → c.state = .attached →
    Serves o.stream t.fanout.ring (o.ledger id) c ∧
      EventTiles ((o.ledger id).frontier c) (t.pending id)
        t.history.latest
  /-- The pending events are tails of history events. -/
  tails : ∀ a, t.attaching = some a → ∀ x ∈ a.pending, EventOK o.stream x ∧
    ∃ e ∈ t.history.live, x.PartOf e ∧ x.endSequence = e.endSequence
  /-- Until the attachment is registered its pending events are the whole replay. -/
  fresh : ∀ a, t.attaching = some a → a.registered = false →
    EventTiles a.replay.fromSequence a.pending t.history.latest
  /-- The observer has seen where the attachment starts. -/
  seen : ∀ a, t.attaching = some a → a.registered = true →
    (o.ledger a.attachmentID).fromSequence = a.replay.fromSequence

lemma Starts.inv {w : Watched} (h : Starts w) : Inv w.terminal w.observer := by
  cases h with
  | new hn =>
    exact ⟨new_valid hn, ⟨List.Pairwise.nil, by simp [newFanout]⟩,
      by simp [newFanout], by simp [newFanout], by simp, by simp, by simp⟩
  | restore hr hmax hword hne hdropped =>
    exact ⟨restore_valid hr hmax hne hdropped, ⟨List.Pairwise.nil, by simp [newFanout]⟩,
      by simp [newFanout], by simp [newFanout], by simp, by simp, by simp⟩

/-! ### Serving through the fan-out operations -/

section
variable {stream : List UInt8} {ring ring' : List Event} {l : Ledger} {c : AttachmentCursor}

lemma Serves.append (h : Serves stream ring l c) (data : List UInt8) : Serves (stream ++ data) ring l c :=
  { h with holds := fun e he => (h.holds e he).append data }

/-- A ring may change as long as it keeps the queued bytes and gets no crossing event. -/
lemma Serves.ring_change (h : Serves stream ring l c)
    (hcov : ∀ q, l.position c ≤ q → q < l.frontier c → RingCovers ring q → RingCovers ring' q)
    (hnew : c.hasCursor = true → ∀ x ∈ ring', x ∈ ring ∨ x.endSequence ≤ c.enqueuedEnd) :
    Serves stream ring' l c :=
  { h with
    covered := fun q hlo hhi => hcov q hlo hhi (h.covered q hlo hhi)
    whole := fun hc x hx hlt => (hnew hc x hx).elim (fun hx => h.whole hc x hx hlt) id }

lemma Serves.compact {f : Fanout} {id : String} (hc : f.attachments.lookup id = some c)
    (hstate : c.state = .attached) (h : Serves stream f.ring l c) :
    Serves stream f.compactLocked.ring l c := by
  refine h.ring_change (fun q hlo hhi hq => ?_) fun _ x hx =>
    .inl ((compactLocked_suffix f).subset hx)
  cases hcur : c.hasCursor with
  | false =>
    -- without a cursor nothing is queued
    simp only [Ledger.position, Ledger.frontier, hcur] at hlo hhi
    exact absurd hlo (not_le.mpr hhi)
  | true =>
    have hback : c.holdsBack = some c.cursor := by simp [holdsBack, hstate, hcur]
    obtain ⟨minimum, hmin, hover⟩ := minOver_le hc hback
    unfold Fanout.compactLocked
    rw [hover]
    exact dropWhile_covers hq (hmin.trans (by simpa [Ledger.position, hcur] using hlo))

@[simp] lemma Ledger.frontier_queue (e : Event) : l.frontier (c.queue e) = e.endSequence := rfl

lemma Serves.queue (h : Serves stream ring l c) {e : Event} (he : EventOK stream e)
    (hstart : e.startSequence = l.frontier c) (hfit : c.overflows e = false)
    (hcov : ∀ q, RingCovers ring q → RingCovers ring' q)
    (hcov' : ∀ q, e.startSequence ≤ q → q < e.endSequence → RingCovers ring' q)
    (hwhole : ∀ x ∈ ring', x.startSequence < e.endSequence → x.endSequence ≤ e.endSequence) :
    Serves stream ring' l (c.queue e) := by
  have hpos : l.position (c.queue e) = l.position c := by
    cases hcur : c.hasCursor with
    | false => simpa [Ledger.position, Ledger.frontier, AttachmentCursor.queue, hcur] using hstart
    | true => simp [Ledger.position, AttachmentCursor.queue, hcur]
  have hlen := he.length
  have hlt := he.1
  have hple := h.position_le
  have hqueued := h.queued_eq
  have hroom : e.data.length ≤ c.maxBytes - c.queuedBytes := by
    simpa [overflows, sub64_of_le h.queued_le] using hfit
  have hqmax := h.queued_le
  refine ⟨hpos ▸ h.tiles, h.holds, ?_, ?_, ?_, fun q hlo hhi => ?_, fun _ => hwhole⟩
  · rw [hpos, Ledger.frontier_queue]
    omega
  · rw [hpos, Ledger.frontier_queue]
    change c.queuedBytes + e.data.length = _
    omega
  · change c.queuedBytes + e.data.length ≤ c.maxBytes
    omega
  · rw [hpos] at hlo
    rw [Ledger.frontier_queue] at hhi
    by_cases hq : q < l.frontier c
    · exact hcov q (h.covered q hlo hq)
    · exact hcov' q (by omega) hhi

lemma Serves.advance (h : Serves stream ring l c) (hring : RingOK stream ring)
    (hcur : c.hasCursor = true) {x : Event} (hx : x ∈ ring) (hlo : x.startSequence ≤ c.cursor)
    (hhi : c.cursor < x.endSequence) (hmore : c.cursor < c.enqueuedEnd) :
    Serves stream ring (l.receive (rest x c.cursor)) (c.advance x) ∧
      (l.receive (rest x c.cursor)).frontier (c.advance x) = l.frontier c := by
  have hpos : l.position c = c.cursor := by simp [Ledger.position, hcur]
  have hfront : l.frontier c = c.enqueuedEnd := by simp [Ledger.frontier, hcur]
  have hend := h.whole hcur x hx (by omega)
  have hok := rest_ok (hring.ok x hx) hlo hhi
  have hqueued := h.queued_eq
  rw [hpos, hfront] at hqueued
  have hpos' : (l.receive (rest x c.cursor)).position (c.advance x) = x.endSequence := by
    simp [Ledger.position, AttachmentCursor.advance, hcur]
  have hfront' : (l.receive (rest x c.cursor)).frontier (c.advance x) = c.enqueuedEnd := by
    simp [Ledger.frontier, AttachmentCursor.advance, hcur]
  have hbytes : (c.advance x).queuedBytes = c.enqueuedEnd - x.endSequence := by
    simp only [AttachmentCursor.advance]
    rw [sub64_of_le hhi.le, sub64_of_le (by omega)]
    omega
  refine ⟨⟨?_, forall_mem_concat h.holds hok.2, ?_, ?_, ?_, fun q hq₁ hq₂ => ?_, fun _ => h.whole hcur⟩,
    hfront'.trans hfront.symm⟩
  · rw [hpos']
    have htiles := h.tiles
    rw [hpos] at htiles
    exact htiles.concat (x := rest x c.cursor) rfl hhi.le
  · rw [hpos', hfront']
    exact hend
  · rw [hpos', hfront', hbytes]
  · have hmax := h.queued_le
    change (c.advance x).queuedBytes ≤ c.maxBytes
    omega
  · rw [hpos'] at hq₁
    rw [hfront'] at hq₂
    exact h.covered q (by omega) (by omega)

end

/-! ### The operations restore the invariant -/

variable {t : Terminal}

lemma Terminal.pending_of_none (h : t.attaching = none) (id : String) : t.pending id = [] := by
  simp [Terminal.pending, h]

variable {o : Observer} {id : String} {c : AttachmentCursor}

/-- Without an attach in progress every attachment has been offered the whole stream. -/
lemma Inv.frontier_eq (h : Inv t o) (hnone : t.attaching = none)
    (hc : t.fanout.attachments.lookup id = some c) (hstate : c.state = .attached) :
    (o.ledger id).frontier c = t.history.latest := by
  have htiles := (h.serves id c hc hstate).2
  rw [Terminal.pending_of_none hnone] at htiles
  exact htiles

lemma Inv.compact (h : Inv t o) : Inv { t with fanout := t.fanout.compactLocked } o := by
  have hsub := compactLocked_suffix t.fanout
  refine { h with
    ring := h.ring.sublist hsub.sublist, aligned := fun x hx => h.aligned x (hsub.subset hx)
    serves := fun id c hc hstate => ?_ }
  rw [compactLocked_attachments] at hc
  obtain ⟨hserves, htiles⟩ := h.serves id c hc hstate
  exact ⟨hserves.compact hc hstate, htiles⟩

variable {event : Event}

/-- Capturing: the published event is expected by every attachment, and the invariant holds after
it. -/
lemma Inv.capture (h : Inv t o) (hnone : t.attaching = none) {channel : UInt8} {data : List UInt8}
    (hne : data ≠ []) {history : History}
    (ha : t.history.appendBuffer channel data = .ok (history, event)) :
    ∃ fanout evictions, t.fanout.publishOwned event = .ok (fanout, evictions) ∧
      Inv { t with history := history, fanout := fanout }
        { o with stream := o.stream ++ event.data } := by
  obtain ⟨-, hevent, -⟩ := appendOwned_cases hne ha
  obtain ⟨hvalid, hstart, hend, -, hok, hlive⟩ := appendOwned_valid h.history hne ha
  have hdata : event.data = data := by rw [hevent]
  have hlatest : t.history.latest = o.stream.length := h.history.latest_eq
  have hrange := hok.1
  -- the event is beyond everything in the ring and in the history
  have hbeyond : ∀ x, EventOK o.stream x →
      ¬ Overlap Event.startSequence Event.endSequence x event := by
    intro x hx hov
    have hxend := hx.2.1
    unfold Overlap at hov
    omega
  have hfind : t.fanout.attachments.entries.find?
      (fun e => e.2.unexpected event.startSequence) = none := by
    rw [List.find?_eq_none]
    rintro ⟨id, c⟩ hmem hbad
    have hc := (lookup_eq_some_iff_mem t.fanout.attachments id c).mpr hmem
    simp only [unexpected, decide_eq_true_eq] at hbad
    have hfront := h.frontier_eq hnone hc hbad.1
    simp only [Ledger.frontier, hbad.2.1, if_true] at hfront
    exact hbad.2.2 (hfront.trans hstart.symm)
  obtain ⟨hring, hmem, hcov, hcov'⟩ := insertEvent_spec hok t.fanout.ring.length rfl
    (h.ring.append data) fun x hx hov => absurd hov (hbeyond x (h.ring.ok x hx))
  have hpublish : t.fanout.publishOwned event =
      .ok ((t.fanout.offerAll event).compactLocked, t.fanout.evictions event) := by
    unfold publishOwned
    rw [validOutputEvent_of_ok hok, hfind]
    rfl
  refine ⟨_, _, hpublish, Inv.compact (t := ⟨history, t.fanout.offerAll event, t.attaching⟩) ?_⟩
  · rw [hdata]
    refine ⟨hvalid, hring, fun x hx e he => ?_, fun id c hc hstate => ?_, by simp [hnone],
      by simp [hnone], by simp [hnone]⟩
    · -- the new event is aligned with itself, and overlaps nothing else
      rcases hmem x hx with hold | hnew <;> rcases hlive e he with hold' | hnew'
      · exact h.aligned x hold e hold'
      · rw [hnew']
        exact fun hov => absurd hov (hbeyond x (h.ring.ok x hold))
      · rw [hnew]
        exact fun hov => absurd hov.symm (hbeyond e (h.history.ok e hold'))
      · rw [hnew, hnew']
        exact fun _ => ⟨rfl, rfl⟩
    · simp only [offerAll, lookup_mapVals, Option.map_eq_some_iff] at hc
      obtain ⟨b, hb, rfl⟩ := hc
      unfold publish at hstate ⊢
      split at hstate
      · next hnot => exact absurd hstate hnot
      rename_i hattached
      rw [not_not] at hattached
      rw [if_neg (not_not.mpr hattached)]
      split at hstate
      · cases hstate
      rename_i hfits
      rw [if_neg hfits]
      have hserves := (h.serves id b hb hattached).1.append data
      have hfront := h.frontier_eq hnone hb hattached
      refine ⟨hserves.queue hok (hstart.trans hfront.symm) (by simpa using hfits) hcov hcov'
        fun x hx _ => ?_, ?_⟩
      · have := (hring.ok x hx).2.1
        have := hvalid.latest_eq
        omega
      · rw [Terminal.pending_of_none (by exact hnone)]
        exact hend

/-- Reading: the ring holds the queued byte under the cursor, and the invariant holds after the
read. -/
lemma Inv.read (h : Inv t o) (id : String) :
    (∀ e, t.fanout.takeLocked id = .error e → e.isOutputOrder = false) ∧
      Inv (t.afterRead id (t.fanout.takeLocked id)).1
        (o.see (t.afterRead id (t.fanout.takeLocked id)).2) := by
  rcases hcur : t.fanout.attachedCursor id with e | c
  · have htake : t.fanout.takeLocked id = .error e := by simp [takeLocked, hcur]
    rw [htake]
    refine ⟨fun e' he => ?_, h⟩
    rw [← Except.error.inj he]
    exact attachedCursor_isOutputOrder hcur
  obtain ⟨hc, hstate⟩ := attachedCursor_eq_ok.mp hcur
  obtain ⟨hserves, htiles⟩ := h.serves id c hc hstate
  by_cases hmore : c.hasCursor = true ∧ c.cursor < c.enqueuedEnd
  · obtain ⟨hhas, hlt⟩ := hmore
    have hcov : RingCovers t.fanout.ring c.cursor :=
      hserves.covered c.cursor (by simp [Ledger.position, hhas])
        (by simpa [Ledger.frontier, hhas] using hlt)
    obtain ⟨x, hx, hlo, hhi⟩ := hcov
    have hat : t.fanout.eventAtLocked c.cursor = some x := by
      unfold eventAtLocked
      rw [getElem?_firstBeyond h.ring.ordered (fun y hy => (h.ring.ok y hy).1) hx hlo hhi]
      simp [not_lt.mpr hlo]
    set f : Fanout := { t.fanout with
      attachments := t.fanout.attachments.insert id (c.advance x) } with hf
    have htake : t.fanout.takeLocked id = .ok (f.compactLocked, some (rest x c.cursor)) := by
      simp [takeLocked, hcur, hhas, hlt, hat, hf]
    rw [htake]
    set ledger := (o.ledger id).receive (rest x c.cursor) with hledger
    refine ⟨by simp, ?_⟩
    change Inv { t with fanout := f.compactLocked }
      { o with ledger := Function.update o.ledger id ledger }
    refine Inv.compact (t := { t with fanout := f }) { h with
      serves := forall_insert (fun _ => ?_) fun id' c' hc' hid hstate' => ?_
      seen := fun a ha hreg => ?_ }
    · obtain ⟨hserves', hfront⟩ := hserves.advance h.ring hhas hx hlo hhi hlt
      simp only [update_self]
      exact ⟨hserves', hfront.symm ▸ htiles⟩
    · simp only [update_of_ne hid]
      exact h.serves id' c' hc' hstate'
    · have hseen := h.seen a ha hreg
      by_cases hid : a.attachmentID = id
      · subst hid
        simp only [update_self]
        exact hseen
      · simpa only [update_of_ne hid] using hseen
  · have htake : t.fanout.takeLocked id = .ok (t.fanout, none) := by
      simp only [takeLocked, hcur]
      rw [if_neg (by simpa using hmore)]
    rw [htake]
    exact ⟨by simp, h⟩

variable {f : Fanout}

lemma detach_cases {f' : Fanout} (hd : f.detach id = .ok f') :
    ∃ f₀ : Fanout, f₀.attachments = f.attachments.erase id ∧ f₀.ring = f.ring ∧
      f' = f₀.compactLocked := by
  unfold Fanout.detach at hd
  split at hd
  · cases hd
  split at hd
  · cases hd
  · exact ⟨⟨f.attachments.erase id, f.ring⟩, rfl, rfl, (Except.ok.inj hd).symm⟩

lemma Inv.detach (h : Inv t o) (hd : t.fanout.detach id = .ok f) : Inv { t with fanout := f } o := by
  obtain ⟨f₀, hatt, hring, rfl⟩ := detach_cases hd
  refine Inv.compact (t := { t with fanout := f₀ }) { h with
    ring := hring ▸ h.ring, aligned := fun x hx => h.aligned x (hring ▸ hx), serves := ?_ }
  simp only [hatt, hring]
  exact forall_erase fun id' c hc _ => h.serves id' c hc

lemma not_attached_of_detach_error {e : Fanout.Error} (hd : f.detach id = .error e)
    (hc : f.attachments.lookup id = some c) :
    c.state ≠ .attached := by
  unfold Fanout.detach at hd
  rw [hc] at hd
  simp only at hd
  split at hd
  · next hstate => exact hstate.1
  · cases hd

variable {a : Attaching}

/-- Dropping an attach restores the invariant once its attachment is not attached. -/
lemma Inv.drop_attaching (h : Inv t o) (ha : t.attaching = some a)
    (hgone : a.registered = true → ∀ c, t.fanout.attachments.lookup a.attachmentID = some c →
      c.state = .attached → a.pending = []) : Inv { t with attaching := none } o := by
  refine ⟨h.history, h.ring, h.aligned, fun id c hc hstate => ?_, by simp, by simp, by simp⟩
  obtain ⟨hserves, htiles⟩ := h.serves id c hc hstate
  refine ⟨hserves, ?_⟩
  rw [Terminal.pending_of_none rfl]
  have hpending : t.pending id = [] := by
    simp only [Terminal.pending, ha]
    split
    · next hid =>
      obtain ⟨hreg, rfl⟩ := hid
      exact hgone hreg c hc hstate
    · rfl
  rwa [hpending] at htiles

lemma Inv.giveUp (h : Inv t o) (ha : t.attaching = some a) (e : AttachError) :
    Inv (t.giveUp a.attachmentID e).1 (o.see (t.giveUp a.attachmentID e).2) := by
  unfold Terminal.giveUp
  cases hd : t.fanout.detach a.attachmentID with
  | ok =>
    refine (h.detach hd).drop_attaching (a := a) ha fun _ c hc => ?_
    obtain ⟨f₀, hatt, -, rfl⟩ := detach_cases hd
    rw [compactLocked_attachments, hatt] at hc
    simp at hc
  | error =>
    exact h.drop_attaching ha fun _ c hc hstate =>
      absurd hstate (not_attached_of_detach_error hd hc)

variable {config : Config} {fromSequence : ℕ} {replay : Replay}

lemma attachReplay_spec {h : History} {stream : List UInt8} (hv : h.Valid stream)
    (hr : attachReplay config h fromSequence = .ok replay) :
    ∃ byteLimit, IsReplay h stream replay.fromSequence byteLimit replay ∧
      replay.toSequence = h.latest := by
  unfold attachReplay at hr
  have hlimit : attachmentReplayLimit config.attachmentBytes ≠ 0 := by
    unfold attachmentReplayLimit initialReplayBytes
    simp only
    split <;> split <;> omega
  generalize attachmentReplayLimit config.attachmentBytes = limit at hr hlimit
  simp only at hr
  split at hr
  · cases hr
  rename_i first hfirst
  have hspec := replayOwned_spec hv hfirst
  have hto := hspec.to_eq
  rw [if_neg hlimit] at hto
  split at hr
  · next hshort =>
    -- the replay stops short of the end, so more than `limit` bytes are behind its start
    rw [hspec.latest_eq] at hshort
    rw [hspec.latest_eq, hspec.earliest_eq, sub64_of_le (by omega)] at hr
    have hspec' := replayOwned_spec hv hr
    have hto' := hspec'.to_eq
    rw [if_neg hlimit] at hto'
    refine ⟨limit, hspec'.from_eq.symm ▸ hspec', ?_⟩
    rw [hto']
    split <;> omega
  · next hfull =>
    rw [hspec.latest_eq] at hfull
    cases hr
    refine ⟨limit, hspec.from_eq.symm ▸ hspec, ?_⟩
    omega

lemma Inv.attach (h : Inv t o) (hnone : t.attaching = none)
    (hr : attachReplay config t.history fromSequence = .ok replay) (id : String) :
    Inv { t with attaching := some ⟨id, replay, replay.events, false⟩ } o := by
  obtain ⟨byteLimit, hspec, hto⟩ := attachReplay_spec h.history hr
  refine ⟨h.history, h.ring, h.aligned, fun id' c hc hstate => ?_, ?_, ?_, ?_⟩
  · obtain ⟨hserves, htiles⟩ := h.serves id' c hc hstate
    rw [Terminal.pending_of_none hnone] at htiles
    exact ⟨hserves, by simpa [Terminal.pending] using htiles⟩
  · rintro _ ⟨⟩ x hx
    obtain ⟨e, he, hpart, hholds, hend⟩ := hspec.parts x hx
    refine ⟨⟨hpart.2.2.1, hholds⟩, e, he, hpart, ?_⟩
    -- an event cut where the replay ends is cut at the end of the history
    have hle := hpart.2.2.2
    have hbound := (h.history.bounds he).2.2
    omega
  · rintro _ ⟨⟩ -
    exact hto ▸ hspec.tiles
  · rintro _ ⟨⟩ ⟨⟩

variable {pending : List Event}

lemma Inv.register (h : Inv t o) (ha : t.attaching = some ⟨id, replay, pending, false⟩)
    (hf : t.fanout.attach id config.attachmentBytes = .ok f) :
    Inv { t with fanout := f, attaching := some ⟨id, replay, pending, true⟩ }
      { o with ledger := Function.update o.ledger id ⟨replay.fromSequence, []⟩ } := by
  have hfresh := h.fresh _ ha rfl
  have htails := h.tails _ ha
  unfold Fanout.attach at hf
  split_ifs at hf with hbad hexists
  cases hf
  refine ⟨h.history, h.ring, h.aligned, forall_insert (fun _ => ?_) fun id' c hc hid hstate => ?_,
    ?_, ?_, ?_⟩
  · simp only [update_self]
    refine ⟨⟨rfl, by simp, le_rfl, (Nat.sub_self _).symm, Nat.zero_le _, fun q hlo hhi => ?_, by simp⟩, ?_⟩
    · exact absurd hlo (not_le.mpr hhi)
    · simpa [Terminal.pending, Ledger.frontier] using hfresh
  · simp only [update_of_ne hid]
    obtain ⟨hserves, htiles⟩ := h.serves id' c hc hstate
    exact ⟨hserves, by simpa [Terminal.pending, ha, Ne.symm hid] using htiles⟩
  · rintro _ ⟨⟩
    exact htails
  · rintro _ ⟨⟩ ⟨⟩
  · rintro _ ⟨⟩ -
    simp

/-- Enqueueing the next replayed event for an attachment that is still attached: it is expected and
goes into the ring, or the attachment is evicted. -/
lemma Inv.enqueue (h : Inv t o) (ha : t.attaching = some ⟨id, replay, event :: pending, true⟩) :
    match t.fanout.enqueueOwned id event with
    | .error e => e.isOutputOrder = false
    | .ok (f, some _) => Inv { t with fanout := f } o
    | .ok (f, none) => Inv { t with fanout := f, attaching := some ⟨id, replay, pending, true⟩ } o := by
  have htails := h.tails _ ha
  obtain ⟨hok, e, he, hpart, hend⟩ := htails event List.mem_cons_self
  obtain ⟨hchannel, hstart, hlt, -⟩ := hpart
  have halign : ∀ x ∈ t.fanout.ring, Aligned x event := by
    intro x hx hov
    unfold Overlap at hov
    obtain ⟨h₁, h₂⟩ := h.aligned x hx e he ⟨by omega, by omega⟩
    exact ⟨h₁.trans hend.symm, h₂.trans hchannel.symm⟩
  have hpending : ∀ id', id' ≠ id → t.pending id' = [] := by
    intro id' hid
    simp [Terminal.pending, ha, Ne.symm hid]
  rcases hcur : t.fanout.attachedCursor id with err | c
  · have henq : t.fanout.enqueueOwned id event = .error err := by
      simp [enqueueOwned, validOutputEvent_of_ok hok, hcur]
    rw [henq]
    exact attachedCursor_isOutputOrder hcur
  obtain ⟨hc, hstate⟩ := attachedCursor_eq_ok.mp hcur
  obtain ⟨hserves, htiles⟩ := h.serves id c hc hstate
  simp only [Terminal.pending, ha, and_self, if_true] at htiles
  obtain ⟨hfront, -, htiles⟩ := htiles
  have hexpected : c.unexpected event.startSequence = false := by
    cases hhas : c.hasCursor with
    | false => simp [unexpected, hhas]
    | true =>
      simp only [Ledger.frontier, hhas, if_true] at hfront
      simp [unexpected, hfront]
  cases hover : c.overflows event with
  | true =>
    set f : Fanout := { t.fanout with attachments := t.fanout.attachments.insert id c.evict } with hf
    have henq : t.fanout.enqueueOwned id event =
        .ok (f.compactLocked, some ⟨id, c.queuedBytes, "slow_consumer"⟩) := by
      simp [enqueueOwned, validOutputEvent_of_ok hok, hcur, hexpected, hover, hf]
    rw [henq]
    refine Inv.compact (t := { t with fanout := f }) { h with serves := ?_ }
    simp only [hf]
    exact forall_insert (fun h => by cases h) fun id' c' hc' _ => h.serves id' c' hc'
  | false =>
    obtain ⟨hring, hmem, hcov, hcov'⟩ := insertEvent_spec hok t.fanout.ring.length rfl h.ring halign
    have henq : t.fanout.enqueueOwned id event = .ok (⟨t.fanout.attachments.insert id
        (c.queue event), (t.fanout.insertEventLocked event).ring⟩, none) := by
      simp [enqueueOwned, validOutputEvent_of_ok hok, hcur, hexpected, hover, insertEventLocked]
    rw [henq]
    refine ⟨h.history, hring, fun x hx e' he' => ?_, forall_insert (fun _ => ?_)
      fun id' c' hc' hid hstate' => ?_, ?_, ?_, ?_⟩
    · rcases hmem x hx with hold | hnew
      · exact h.aligned x hold e' he'
      -- the event is a tail of `e`, and `e` overlaps no other history event
      rw [hnew]
      intro hov
      unfold Overlap at hov
      obtain rfl := h.history.tiles.ordered.eq_of_overlap he he' ⟨by omega, by omega⟩
      exact ⟨hend, hchannel⟩
    · refine ⟨hserves.queue hok hfront hover hcov hcov' fun x hx hxlt => ?_,
        by simpa [Terminal.pending] using htiles⟩
      rcases hmem x hx with hold | rfl
      · by_contra hgt
        have := (halign x hold ⟨hxlt, by omega⟩).1
        omega
      · exact le_rfl
    · obtain ⟨hserves', htiles'⟩ := h.serves id' c' hc' hstate'
      rw [hpending id' hid] at htiles'
      refine ⟨hserves'.ring_change (fun q _ _ hq => hcov q hq) fun hhas x hx => ?_,
        by simpa [Terminal.pending, Ne.symm hid] using htiles'⟩
      refine (hmem x hx).imp_right fun hnew => ?_
      have hlatest : c'.enqueuedEnd = t.history.latest := by
        simpa [Ledger.frontier, hhas] using htiles'
      have := (h.history.bounds he).2.2
      rw [hnew]
      omega
    · rintro _ ⟨⟩ x hx
      exact htails x (List.mem_cons_of_mem _ hx)
    · rintro _ ⟨⟩ ⟨⟩
    · rintro _ ⟨⟩ -
      exact h.seen ⟨id, replay, event :: pending, true⟩ ha rfl

lemma Inv.clear (h : Inv t o) (hnone : t.attaching = none) :
    Inv { t with history := t.history.clear.1 } o := by
  obtain ⟨hlive, hlatest⟩ := clear_frame t.history
  refine ⟨clear_valid h.history, h.ring, fun x _ e he => ?_, h.serves, by simp [hnone],
    by simp [hnone], by simp [hnone]⟩
  simp only [hlive] at he
  cases he

/-- The call reports an output order error. -/
def Outcome.isOrderError : Outcome → Bool
  | .captured _ (.error e) => e.isOutputOrder
  | .read _ (.error e) => e.isOutputOrder
  | .attachFailed _ (.fanout e) => e.isOutputOrder
  | _ => false

lemma isOrderError_afterRead (t : Terminal) (id : String)
    {r : Except Fanout.Error (Fanout × Option Event)}
    (hr : ∀ e, r = .error e → e.isOutputOrder = false) :
    (t.afterRead id r).2.isOrderError = false := by
  cases r with
  | ok => rfl
  | error e => exact hr e rfl

lemma isOrderError_giveUp (t : Terminal) (id : String) (e : Fanout.Error) :
    (t.giveUp id (.fanout e)).2.isOrderError = e.isOutputOrder := by
  unfold Terminal.giveUp
  split <;> rfl

lemma Inv.step {t' : Terminal} (h : Inv t o) {a : Action} {out : Outcome}
    (hs : t.step config a = some (t', out)) :
    Inv t' (o.see out) ∧ out.isOrderError = false := by
  cases a
  case next id | waitNext id =>
    obtain ⟨horder, hinv⟩ := h.read id
    obtain ⟨rfl, rfl⟩ := Prod.mk.inj (Option.some.inj hs)
    exact ⟨hinv, isOrderError_afterRead t id horder⟩
  all_goals simp only [Terminal.step, Option.ite_none_left_eq_some, not_or, Bool.not_eq_true,
    Option.isSome_eq_false_iff, Option.isNone_iff_eq_none] at hs
  case capture channel data =>
    obtain ⟨⟨hnone, hne⟩, hs⟩ := hs
    split at hs
    · cases hs
      exact ⟨h, rfl⟩
    rename_i history event happend
    obtain ⟨f, evictions, hpublish, hinv⟩ := h.capture hnone hne happend
    rw [hpublish] at hs
    cases hs
    exact ⟨hinv, rfl⟩
  case attach id fromSequence =>
    obtain ⟨hnone, hs⟩ := hs
    split at hs
    · cases hs
      exact ⟨h, rfl⟩
    split at hs <;> cases hs
    · exact ⟨h, rfl⟩
    · next replay hreplay => exact ⟨h.attach hnone hreplay id, rfl⟩
  case clear =>
    obtain ⟨hnone, hs⟩ := hs
    cases hs
    exact ⟨h.clear hnone, rfl⟩
  case register =>
    split at hs
    · next id replay pending hattaching =>
      split at hs <;> cases hs
      · next e herror =>
        refine ⟨h.drop_attaching hattaching (by simp), ?_⟩
        unfold Fanout.attach at herror
        split_ifs at herror <;> (obtain rfl := Except.error.inj herror; rfl)
      · next f hf => exact ⟨h.register hattaching hf, rfl⟩
    · cases hs
  case enqueue =>
    split at hs
    · next id replay event pending hattaching =>
      have hnext := h.enqueue hattaching
      split at hs <;> rename_i henq <;> rw [henq] at hnext
      · next e =>
        have hgive := h.giveUp hattaching (.fanout e)
        have hreport := isOrderError_giveUp t id e
        rw [Option.some.inj hs] at hgive hreport
        exact ⟨hgive, hreport.trans hnext⟩
      · next f eviction =>
        have hgive := hnext.giveUp hattaching (.fanout .attachmentEvicted)
        have hreport := isOrderError_giveUp { t with fanout := f } id .attachmentEvicted
        rw [Option.some.inj hs] at hgive hreport
        exact ⟨hgive, hreport⟩
      · cases hs
        exact ⟨hnext, rfl⟩
    · cases hs
  case finish =>
    split at hs <;> cases hs
    next id replay hattaching => exact ⟨h.drop_attaching hattaching fun _ _ _ _ => rfl, rfl⟩
  case detach id =>
    split at hs <;> cases hs
    · next f hf => exact ⟨h.detach hf, rfl⟩
    · exact ⟨h, rfl⟩

lemma keeps_inv (config : Config) : Keeps (Watched.step config) fun w => Inv w.terminal w.observer := by
  intro w a w' h hs
  obtain ⟨⟨t, out⟩, ht, rfl⟩ := Option.map_eq_some_iff.mp hs
  exact (h.step ht).1

/-! ### Delivery -/

/-- In every run of a session no call reports an output order error; what an attachment has received
since it was registered is exactly the output of the session from the start of its replay to its
position, in order; and a completed attach returns a replay that starts there. -/
theorem attachment_receives_stream (config : Config) {w₀ w : Watched} (hs : Starts w₀)
    {l : List Action} (hr : run (Watched.step config) w₀ l = some w) :
    (∀ a t out, w.terminal.step config a = some (t, out) → out.isOrderError = false) ∧
      (∀ id c, w.terminal.fanout.attachments.lookup id = some c → c.state = .attached →
        EventTiles (w.observer.ledger id).fromSequence (w.observer.ledger id).delivered
          ((w.observer.ledger id).position c) ∧
        (w.observer.ledger id).position c ≤ w.observer.stream.length ∧
        (w.observer.ledger id).delivered.flatMap Event.data =
          w.observer.stream.extract (w.observer.ledger id).fromSequence
            ((w.observer.ledger id).position c)) ∧
      ∀ t id replay, w.terminal.step config .finish = some (t, .attached id replay) →
        (w.observer.ledger id).fromSequence = replay.fromSequence := by
  have h := (keeps_inv config).run hs.inv hr
  refine ⟨fun a t out ht => (h.step ht).2, fun id c hc hstate => ?_, fun t id replay ht => ?_⟩
  · obtain ⟨hserves, htiles⟩ := h.serves id c hc hstate
    refine ⟨hserves.tiles, ?_, hserves.tiles.flatMap_data hserves.holds⟩
    calc (w.observer.ledger id).position c ≤ (w.observer.ledger id).frontier c := hserves.position_le
      _ ≤ w.terminal.history.latest := htiles.le
      _ = w.observer.stream.length := h.history.latest_eq
  · simp only [Terminal.step] at ht
    split at ht
    · next id' replay' hattaching =>
      obtain ⟨-, hout⟩ := Prod.mk.inj (Option.some.inj ht)
      obtain ⟨rfl, rfl⟩ := Outcome.attached.inj hout
      exact h.seen _ hattaching rfl
    · cases ht

/-- An empty session with room for sixteen bytes. -/
def emptySession : Watched := ⟨⟨⟨16, 0, 0, 0, [], 0⟩, .newFanout, none⟩, ⟨[], fun _ => ⟨0, []⟩⟩⟩

/-- Two chunks are output, an attachment starts inside the first of them and reads once. -/
def readInside : List Action :=
  [.capture 1 [104, 105], .capture 1 [33], .attach "a" 1, .register, .enqueue, .enqueue, .finish,
    .next "a"]

/-- In that run the attachment has received the second byte of the stream. -/
theorem readInside_receives_stream : ∃ w, run (Watched.step ⟨4, 64⟩) emptySession readInside = some w ∧
      (w.observer.ledger "a").delivered = [⟨1, 1, 2, [105]⟩] ∧
      (w.observer.ledger "a").delivered.flatMap Event.data = w.observer.stream.extract 1 2 := by
  refine exists_of_any (P := fun w => (w.observer.ledger "a").fromSequence = 1 ∧
    (w.observer.ledger "a").delivered = [⟨1, 1, 2, [105]⟩] ∧
    w.terminal.fanout.attachments.lookup "a" = some ⟨.attached, 64, 1, 2, 3, true⟩)
    (by decide +kernel) ?_
  rintro w hw ⟨hfrom, hdelivered, hcursor⟩
  have hstart : Starts emptySession := Starts.new (show History.new 16 = .ok _ from rfl) _
  have h := (attachment_receives_stream ⟨4, 64⟩ hstart hw).2.1 "a" _ hcursor rfl
  refine ⟨hdelivered, ?_⟩
  rw [h.2.2, hfrom]
  rfl

/-- In every run, what an attachment has not received of the output is queued, within its limit, and in the
ring, as soon as its attach has nothing more to enqueue. -/
theorem output_accounted (config : Config) {w₀ w : Watched} (hs : Starts w₀) {l : List Action}
    (hr : run (Watched.step config) w₀ l = some w) {id : String} {c : AttachmentCursor}
    (hc : w.terminal.fanout.attachments.lookup id = some c) (hstate : c.state = .attached)
    (hpending : w.terminal.pending id = []) :
    (w.observer.ledger id).position c + c.queuedBytes = w.observer.stream.length ∧
      c.queuedBytes ≤ c.maxBytes ∧ ∀ q, (w.observer.ledger id).position c ≤ q →
        q < w.observer.stream.length → RingCovers w.terminal.fanout.ring q := by
  have h := (keeps_inv config).run hs.inv hr
  obtain ⟨hserves, htiles⟩ := h.serves id c hc hstate
  rw [hpending] at htiles
  have hfrontier : (w.observer.ledger id).frontier c = w.observer.stream.length :=
    htiles.trans h.history.latest_eq
  have hle := hserves.position_le
  have hqueued := hserves.queued_eq
  exact ⟨by omega, hserves.queued_le, fun q hq hlt => hserves.covered q hq (hfrontier ▸ hlt)⟩

/-- In the run above the last byte is still queued. -/
theorem readInside_accounted : ∃ w, run (Watched.step ⟨4, 64⟩) emptySession readInside = some w ∧
    ∃ c, w.terminal.fanout.attachments.lookup "a" = some c ∧ c.queuedBytes = 1 ∧
      (w.observer.ledger "a").position c + c.queuedBytes = w.observer.stream.length ∧
      ∀ q, (w.observer.ledger "a").position c ≤ q → q < w.observer.stream.length →
        RingCovers w.terminal.fanout.ring q := by
  refine exists_of_any (P := fun w => w.terminal.fanout.attachments.lookup "a" =
    some ⟨.attached, 64, 1, 2, 3, true⟩ ∧ w.terminal.pending "a" = []) (by decide +kernel) ?_
  rintro w hw ⟨hcursor, hpending⟩
  have hstart : Starts emptySession := Starts.new (show History.new 16 = .ok _ from rfl) _
  obtain ⟨hall, -, hring⟩ := output_accounted ⟨4, 64⟩ hstart hw hcursor rfl hpending
  exact ⟨_, hcursor, rfl, hall, hring⟩

end Paperboat.Session.Delivery

import Paperboat.History.Window
import Paperboat.Lib.FinMap

/-!
# The output fan-out

The model of `internal/session/fanout.go`: one ring of output events shared by all attachments of a
session. An attachment owns no events, only a cursor into the ring, the end of what has been queued
for it and a byte count. The second half says what each operation does to the ring.

Reference counts and the notification channels are left out: the first only say when a buffer may be
reused, the second only when a blocked reader tries again.
-/

namespace Paperboat.Session

open List

open History (Event EventOK EventHolds EventTiles)

/-- The states of an attachment. -/
inductive AttachmentState where
  | attaching
  | attached
  | detached
  | evicted
  deriving DecidableEq

namespace Fanout

/-- The errors of the fan-out. An order error of `PublishOwned` names the first attachment that did
not expect the event, with the sequence expected and the one met. -/
inductive Error where
  | attachmentExists
  | attachmentUnknown
  | attachmentEvicted
  | outputOrder (detail : Option (String × ℕ × ℕ))
  | invalidQueueLimit
  | invalidTransition
  deriving DecidableEq

/-- `errors.Is(err, ErrOutputOrder)`. -/
def Error.isOutputOrder : Error → Bool
  | .outputOrder _ => true
  | _ => false

/-- The report of an eviction. -/
structure Eviction where
  attachmentID : String
  queuedBytes : ℕ
  reason : String
  deriving DecidableEq

/-- What the fan-out keeps for one attachment. -/
structure AttachmentCursor where
  state : AttachmentState
  maxBytes : ℕ
  queuedBytes : ℕ
  cursor : ℕ
  enqueuedEnd : ℕ
  hasCursor : Bool
  deriving DecidableEq

end Fanout

/-- The fan-out of one session. -/
structure Fanout where
  attachments : FinMap String Fanout.AttachmentCursor
  ring : List Event

namespace Fanout

/-- `NewFanout`. -/
def newFanout : Fanout := ⟨∅, []⟩

/-! ### The ring -/

/-- `validOutputEvent`: the sequence range is as long as the data, and not empty. -/
def validOutputEvent (event : Event) : Bool :=
  event.startSequence ≤ event.endSequence ∧
    sub64 event.endSequence event.startSequence = event.data.length ∧ event.data.length ≠ 0

/-- `outer` contains `inner`: its range, its channel and its bytes. -/
def covers (outer inner : Event) : Bool :=
  outer.startSequence ≤ inner.startSequence ∧ inner.endSequence ≤ outer.endSequence ∧
    outer.channel = inner.channel ∧
    outer.data.extract (sub64 inner.startSequence outer.startSequence)
      (sub64 inner.endSequence outer.startSequence) = inner.data

/-- The order in which the ring is sorted: by start, the longer event first. -/
def ringLE (a b : Event) : Prop :=
  a.startSequence < b.startSequence ∨
    a.startSequence = b.startSequence ∧ b.endSequence ≤ a.endSequence

instance : DecidableRel ringLE := fun _ _ => inferInstanceAs (Decidable (_ ∨ _ ∧ _))

/-- `insertEventLocked` on a ring of `fuel` events: an event that the ring already contains is not
added, and one that contains a ring event replaces it. -/
def insertEvent (event : Event) : ℕ → List Event → List Event
  | 0, ring => ring ++ [event]
  | fuel + 1, ring =>
    match ring.findIdx? fun existing => covers existing event || covers event existing with
    | none => (ring ++ [event]).insertionSort ringLE
    | some index =>
      if covers (ring.getD index Event.zero) event then ring
      else insertEvent event fuel (ring.eraseIdx index)

/-- `insertEventLocked`. -/
def insertEventLocked (f : Fanout) (event : Event) : Fanout :=
  { f with ring := insertEvent event f.ring.length f.ring }

/-- `eventAtLocked`: the ring event that contains a sequence, by binary search. -/
def eventAtLocked (f : Fanout) (sequence : ℕ) : Option Event :=
  match f.ring[firstBeyond Event.endSequence f.ring sequence]? with
  | none => none
  | some event => if sequence < event.startSequence then none else some event

/-- The cursor that holds the ring back: only attached cursors that have a position count. -/
def AttachmentCursor.holdsBack (c : AttachmentCursor) : Option ℕ :=
  if c.state ≠ .attached ∨ c.hasCursor = false then none else some c.cursor

/-- `compactLocked`: drop the events behind the slowest cursor, and all of them without one. -/
def compactLocked (f : Fanout) : Fanout :=
  match FinMap.minOver AttachmentCursor.holdsBack f.attachments with
  | none => { f with ring := [] }
  | some minimum => { f with ring := f.ring.dropWhile fun event => event.endSequence ≤ minimum }

/-! ### Attaching and detaching -/

/-- `Attach`: a new cursor without a position. An attached id cannot be attached again. -/
def attach (f : Fanout) (attachmentID : String) (maxPendingBytes : ℕ) : Except Error Fanout :=
  if attachmentID = "" ∨ maxPendingBytes = 0 then .error .invalidQueueLimit
  else if ((f.attachments.lookup attachmentID).map AttachmentCursor.state) = some .attached then
    .error .attachmentExists
  else
    .ok { f with
      attachments := f.attachments.insert attachmentID ⟨.attached, maxPendingBytes, 0, 0, 0, false⟩ }

/-- `Detach`. -/
def detach (f : Fanout) (attachmentID : String) : Except Error Fanout :=
  match f.attachments.lookup attachmentID with
  | none => .error .attachmentUnknown
  | some cursor =>
    if cursor.state ≠ .attached ∧ cursor.state ≠ .evicted then .error .invalidTransition
    else
      .ok { f with attachments := f.attachments.erase attachmentID }.compactLocked

/-- `Count`: the number of attached cursors. -/
def count (f : Fanout) : ℕ :=
  (f.attachments.entries.filter fun e => e.2.state = .attached).length

/-! ### Publishing and enqueueing -/

/-- The event does not fit into what is left of the budget. -/
def AttachmentCursor.overflows (c : AttachmentCursor) (event : Event) : Bool :=
  sub64 c.maxBytes c.queuedBytes < event.data.length

/-- The cursor of an evicted attachment. -/
def AttachmentCursor.evict (c : AttachmentCursor) : AttachmentCursor :=
  { c with queuedBytes := 0, state := .evicted }

/-- The cursor of an attachment for which the event has been queued. -/
def AttachmentCursor.queue (c : AttachmentCursor) (event : Event) : AttachmentCursor :=
  { c with
    cursor := if c.hasCursor then c.cursor else event.startSequence
    hasCursor := true
    enqueuedEnd := event.endSequence
    queuedBytes := c.queuedBytes + event.data.length }

/-- What `PublishOwned` does to one cursor. -/
def AttachmentCursor.publish (event : Event) (c : AttachmentCursor) : AttachmentCursor :=
  if c.state ≠ .attached then c else if c.overflows event then c.evict else c.queue event

/-- The attachment is in the way of an event that starts at `start`. -/
def AttachmentCursor.unexpected (c : AttachmentCursor) (start : ℕ) : Bool :=
  c.state = .attached ∧ c.hasCursor ∧ c.enqueuedEnd ≠ start

/-- The report on an attachment that an event makes overflow. -/
def evictionOf (event : Event) (e : Sigma fun _ : String => AttachmentCursor) : Option Eviction :=
  if e.2.state = .attached ∧ e.2.overflows event then
    some ⟨e.1, e.2.queuedBytes, "slow_consumer"⟩
  else none

/-- The evictions that publishing an event causes. -/
def evictions (f : Fanout) (event : Event) : List Eviction :=
  f.attachments.entries.filterMap (evictionOf event)

/-- The loop of `PublishOwned` over the attachments, the event in the ring. -/
def offerAll (f : Fanout) (event : Event) : Fanout where
  ring := (f.insertEventLocked event).ring
  attachments := FinMap.mapVals (fun _ => AttachmentCursor.publish event) f.attachments

/-- `PublishOwned`: offer an event to every attachment. An error leaves the fan-out as it was. -/
def publishOwned (f : Fanout) (event : Event) : Except Error (Fanout × List Eviction) :=
  if validOutputEvent event = false then .error (.outputOrder none)
  else
    match f.attachments.entries.find? fun e => e.2.unexpected event.startSequence with
    | some e => .error (.outputOrder (some (e.1, e.2.enqueuedEnd, event.startSequence)))
    | none => .ok ((f.offerAll event).compactLocked, f.evictions event)

/-- The cursor of an attachment that may take part in an exchange. -/
def attachedCursor (f : Fanout) (attachmentID : String) : Except Error AttachmentCursor :=
  match f.attachments.lookup attachmentID with
  | none => .error .attachmentUnknown
  | some cursor =>
    if cursor.state = .evicted then .error .attachmentEvicted
    else if cursor.state ≠ .attached then .error .invalidTransition
    else .ok cursor

/-- `EnqueueOwned`: offer an event to one attachment. -/
def enqueueOwned (f : Fanout) (attachmentID : String) (event : Event) :
    Except Error (Fanout × Option Eviction) :=
  if validOutputEvent event = false then .error (.outputOrder none)
  else
    match f.attachedCursor attachmentID with
    | .error e => .error e
    | .ok cursor =>
      if cursor.unexpected event.startSequence then .error (.outputOrder none)
      else if cursor.overflows event then
        .ok ({ f with attachments := f.attachments.insert attachmentID cursor.evict }.compactLocked,
          some ⟨attachmentID, cursor.queuedBytes, "slow_consumer"⟩)
      else
        let inserted := f.insertEventLocked event
        .ok ({ inserted with
          attachments := f.attachments.insert attachmentID (cursor.queue event) }, none)

/-! ### Reading -/

/-- The rest of a ring event from `start` on. -/
def rest (event : Event) (start : ℕ) : Event :=
  { event with startSequence := start, data := event.data.drop (sub64 start event.startSequence) }

/-- The cursor after the ring event has been read to its end. -/
def AttachmentCursor.advance (c : AttachmentCursor) (event : Event) : AttachmentCursor :=
  { c with
    cursor := event.endSequence
    queuedBytes := sub64 c.queuedBytes (sub64 event.endSequence c.cursor) }

/-- The part that `Next` and one pass of `WaitNextOwned` share: take the rest of the event under the
cursor, if anything is queued. -/
def takeLocked (f : Fanout) (attachmentID : String) : Except Error (Fanout × Option Event) :=
  match f.attachedCursor attachmentID with
  | .error e => .error e
  | .ok cursor =>
    if cursor.hasCursor ∧ cursor.cursor < cursor.enqueuedEnd then
      match f.eventAtLocked cursor.cursor with
      | none => .error (.outputOrder none)
      | some event =>
        .ok ({ f with
          attachments := f.attachments.insert attachmentID (cursor.advance event) }.compactLocked,
          some (rest event cursor.cursor))
    else .ok (f, none)

/-- `Next`: the next queued event, or nothing. -/
def next (f : Fanout) (attachmentID : String) : Except Error (Fanout × Option Event) :=
  f.takeLocked attachmentID

/-- One pass of the loop of `WaitNextOwned`: the next queued event; with nothing queued the caller
waits and makes another pass. -/
def waitNextOwned (f : Fanout) (attachmentID : String) : Except Error (Fanout × Option Event) :=
  f.takeLocked attachmentID

/-! ### What the operations do to the ring -/

/-- Two ring events of one stream that share a byte end together, on one channel. -/
def Aligned (x y : Event) : Prop :=
  Overlap Event.startSequence Event.endSequence x y →
    x.endSequence = y.endSequence ∧ x.channel = y.channel

/-- The ring is ordered and every event of it is a nonempty part of the stream. -/
structure RingOK (stream : List UInt8) (ring : List Event) : Prop where
  ordered : Ordered Event.startSequence Event.endSequence ring
  ok : ∀ x ∈ ring, EventOK stream x

/-- The ring holds the byte at position `q`. -/
abbrev RingCovers (ring : List Event) (q : ℕ) : Prop :=
  Covered Event.startSequence Event.endSequence ring q

variable {stream : List UInt8} {ring : List Event}

lemma RingOK.sublist {ring' : List Event} (h : RingOK stream ring) (hs : ring'.Sublist ring) :
    RingOK stream ring' :=
  ⟨h.ordered.sublist hs, fun x hx => h.ok x (hs.subset hx)⟩

lemma RingOK.append (h : RingOK stream ring) (data : List UInt8) : RingOK (stream ++ data) ring :=
  ⟨h.ordered, fun x hx => (h.ok x hx).append data⟩

variable {event : Event}

lemma validOutputEvent_of_ok (h : EventOK stream event) : validOutputEvent event = true := by
  have hlen := h.length
  have hlt := h.1
  simp only [validOutputEvent, decide_eq_true_eq, sub64_of_le hlt.le]
  omega

variable {x y : Event}

/-- Of two parts of one stream on one channel, the longer range covers the shorter. -/
lemma covers_of_le (hx : EventOK stream x) (hy : EventOK stream y) (hchannel : x.channel = y.channel)
    (hstart : x.startSequence ≤ y.startSequence) (hend : y.endSequence ≤ x.endSequence) :
    covers x y = true := by
  have hlt := hy.1
  have hbytes : x.data.extract (y.startSequence - x.startSequence)
      (y.endSequence - x.startSequence) = y.data := by
    rw [hx.2.2, hy.2.2, extract_extract_of_le stream (by omega)]
    congr 1 <;> omega
  simp [covers, hstart, hend, hchannel, sub64_of_le, hbytes, hstart.trans hlt.le]

lemma covers_le (h : covers x y = true) :
    x.startSequence ≤ y.startSequence ∧ y.endSequence ≤ x.endSequence := by
  simp only [covers, decide_eq_true_eq] at h
  exact ⟨h.1, h.2.1⟩

instance : IsTrans Event ringLE :=
  ⟨fun a b c hab hbc => by unfold ringLE at *; omega⟩

instance : Std.Total ringLE :=
  ⟨fun a b => by unfold ringLE; omega⟩

/-- Sorting an event that overlaps nothing into a good ring gives a good ring. -/
lemma insertionSort_ringOK (hring : RingOK stream ring) (hevent : EventOK stream event)
    (hfree : ∀ x ∈ ring, ¬ Overlap Event.startSequence Event.endSequence x event) :
    RingOK stream ((ring ++ [event]).insertionSort ringLE) := by
  have hperm := perm_insertionSort ringLE (ring ++ [event])
  have hok : ∀ x ∈ (ring ++ [event]).insertionSort ringLE, EventOK stream x := by
    have hall := forall_mem_append.mpr ⟨hring.ok, forall_mem_singleton.mpr hevent⟩
    exact fun x hx => hall x (hperm.mem_iff.mp hx)
  have hsorted : ((ring ++ [event]).insertionSort ringLE).Pairwise fun x y =>
      x.startSequence ≤ y.startSequence :=
    (pairwise_insertionSort ringLE _).imp fun hxy => by unfold ringLE at hxy; omega
  have hdisj : (ring ++ [event]).Pairwise fun x y =>
      ¬ Overlap Event.startSequence Event.endSequence x y := by
    rw [pairwise_append]
    refine ⟨hring.ordered.disjoint, pairwise_singleton _ _, fun x hx y hy => ?_⟩
    rw [mem_singleton.mp hy]
    exact hfree x hx
  have hdisj' := (hperm.symm.pairwise_iff (R := fun x y =>
    ¬ Overlap Event.startSequence Event.endSequence x y) fun h h' => h h'.symm).mp hdisj
  exact ⟨ordered_of_sorted_of_disjoint hsorted hdisj' fun x hx => (hok x hx).1, hok⟩

/-- Inserting an aligned event keeps the ring good, adds only that event, and loses no byte. -/
lemma insertEvent_spec (hevent : EventOK stream event) (fuel : ℕ) (hfuel : ring.length = fuel)
    (hring : RingOK stream ring) (halign : ∀ x ∈ ring, Aligned x event) :
    RingOK stream (insertEvent event fuel ring) ∧
      (∀ x ∈ insertEvent event fuel ring, x ∈ ring ∨ x = event) ∧
      (∀ q, RingCovers ring q → RingCovers (insertEvent event fuel ring) q) ∧
      ∀ q, event.startSequence ≤ q → q < event.endSequence →
        RingCovers (insertEvent event fuel ring) q := by
  induction fuel generalizing ring with
  | zero =>
    obtain rfl := length_eq_zero_iff.mp hfuel
    refine ⟨⟨pairwise_singleton _ _, by simpa [insertEvent] using hevent⟩,
      by simp [insertEvent], by simp [Covered], fun q hlo hhi => ⟨event, by simp [insertEvent], hlo, hhi⟩⟩
  | succ fuel ih =>
    rw [insertEvent]
    split
    · next hfind =>
      have hperm := perm_insertionSort ringLE (ring ++ [event])
      refine ⟨insertionSort_ringOK hring hevent fun x hx hov => ?_, fun x hx => ?_,
        fun q ⟨x, hx, hq⟩ => ⟨x, hperm.mem_iff.mpr (mem_append_left _ hx), hq⟩,
        fun q hlo hhi => ⟨event, hperm.mem_iff.mpr (by simp), hlo, hhi⟩⟩
      · -- what overlaps the new event covers it or is covered by it
        obtain ⟨hend, hchannel⟩ := halign x hx hov
        have hnone := findIdx?_eq_none_iff.mp hfind x hx
        rcases Nat.le_total x.startSequence event.startSequence with hle | hle
        · rw [covers_of_le (hring.ok x hx) hevent hchannel hle hend.ge] at hnone
          simp at hnone
        · rw [covers_of_le hevent (hring.ok x hx) hchannel.symm hle hend.le] at hnone
          simp at hnone
      · simpa using hperm.mem_iff.mp hx
    · next index hfind =>
      obtain ⟨hindex, hcov, -⟩ := findIdx?_eq_some_iff_getElem.mp hfind
      have hget : ring.getD index Event.zero = ring[index] := getD_eq_getElem _ _ hindex
      rw [hget]
      split
      · next hin =>
        have hle := covers_le hin
        exact ⟨hring, fun x hx => .inl hx, fun q hq => hq, fun q hlo hhi =>
          ⟨ring[index], getElem_mem hindex, hle.1.trans hlo, lt_of_lt_of_le hhi hle.2⟩⟩
      · next hout =>
        have hle := covers_le ((Bool.or_eq_true_iff.mp hcov).resolve_left hout)
        have hsub := eraseIdx_sublist ring index
        obtain ⟨h₁, h₂, h₃, h₄⟩ := ih (by rw [length_eraseIdx_of_lt hindex, hfuel]; rfl)
          (hring.sublist hsub) fun x hx => halign x (hsub.subset hx)
        refine ⟨h₁, fun x hx => ?_, fun q hq => ?_, h₄⟩
        · exact (h₂ x hx).imp_left fun h => hsub.subset h
        · -- a byte of the erased event is a byte of the event that replaces it
          obtain ⟨x, hx, hlo, hhi⟩ := hq
          obtain ⟨m, hm, rfl⟩ := mem_iff_getElem.mp hx
          by_cases hmi : m = index
          · subst hmi
            exact h₄ q (hle.1.trans hlo) (lt_of_lt_of_le hhi hle.2)
          · exact h₃ q ⟨ring[m], mem_eraseIdx_iff_getElem.mpr ⟨m, hm, hmi, rfl⟩, hlo, hhi⟩

lemma compactLocked_suffix (f : Fanout) : f.compactLocked.ring <:+ f.ring := by
  unfold compactLocked
  split
  · exact nil_suffix
  · exact dropWhile_suffix _

@[simp] lemma compactLocked_attachments (f : Fanout) : f.compactLocked.attachments = f.attachments := by
  unfold compactLocked
  split <;> rfl

variable {q : ℕ}

/-- In an ordered ring, dropping the events that end by `minimum` drops no later byte. -/
lemma dropWhile_covers {minimum : ℕ} (hq : RingCovers ring q) (hle : minimum ≤ q) :
    RingCovers (ring.dropWhile fun event => event.endSequence ≤ minimum) q := by
  induction ring with
  | nil => exact hq
  | cons x ring ih =>
    rw [dropWhile_cons]
    split
    · next hdrop =>
      obtain ⟨y, hy, hlo, hhi⟩ := hq
      rw [decide_eq_true_eq] at hdrop
      rcases mem_cons.mp hy with rfl | hy
      · exact absurd hhi (not_lt.mpr (hdrop.trans hle))
      · exact ih ⟨y, hy, hlo, hhi⟩
    · exact hq

variable {f : Fanout} {id : String} {c : AttachmentCursor}

lemma rest_ok (hx : EventOK stream x) (hlo : x.startSequence ≤ q) (hhi : q < x.endSequence) :
    EventOK stream (rest x q) := by
  refine ⟨hhi, hx.2.1, ?_⟩
  change x.data.drop (sub64 q x.startSequence) = stream.extract q x.endSequence
  have hlen : x.endSequence - x.startSequence - (q - x.startSequence) = x.endSequence - q := by
    omega
  rw [sub64_of_le hlo, hx.2.2]
  simp only [extract_eq_take_drop, drop_take, drop_drop, hlen, Nat.add_sub_cancel' hlo]

lemma attachedCursor_eq_ok :
    f.attachedCursor id = .ok c ↔ f.attachments.lookup id = some c ∧ c.state = .attached := by
  unfold attachedCursor
  rcases f.attachments.lookup id with _ | _
  · simp
  simp only [Option.some.injEq]
  constructor
  · intro h
    split_ifs at h with hev hat
    cases h
    exact ⟨rfl, not_not.mp hat⟩
  · rintro ⟨rfl, hat⟩
    simp [hat]

lemma attachedCursor_isOutputOrder {e : Error} (h : f.attachedCursor id = .error e) :
    e.isOutputOrder = false := by
  unfold attachedCursor at h
  split at h
  · obtain rfl := Except.error.inj h
    rfl
  · split_ifs at h <;> (obtain rfl := Except.error.inj h; rfl)

end Fanout

end Paperboat.Session

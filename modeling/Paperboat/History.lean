import Paperboat.Lib.Segments
import Paperboat.Lib.Word64

/-!
# The bounded output history

The model of `internal/history/history.go`: a session keeps the newest bytes of its terminal output
as a list of events, each a chunk `[startSequence, endSequence)` of the output stream. Dropped slots stay
in the backing list in front of `head` until the list is emptied.

`History.Valid h stream` says that the live events tile `[earliest, latest)` and hold exactly the
bytes of `stream` there.
-/

namespace Paperboat.History

/-- One chunk of output. -/
structure Event where
  channel : UInt8
  startSequence : ℕ
  endSequence : ℕ
  data : List UInt8
  deriving DecidableEq

/-- The zero event, left in a dropped slot of the backing list. -/
def Event.zero : Event := ⟨0, 0, 0, []⟩

/-- The errors of the package: `ErrInvalidLimit`, `ErrInvalidCursor`, `ErrSequenceFull` and
`GapError`. -/
inductive Error where
  | invalidLimit
  | invalidCursor
  | sequenceFull
  | gap (requestedSequence earliestSequence latestSequence : ℕ)
  deriving DecidableEq

/-- The result of a replay. -/
structure Replay where
  fromSequence : ℕ
  toSequence : ℕ
  earliestSequence : ℕ
  latestSequence : ℕ
  events : List Event
  deriving DecidableEq

end History

/-- The retained output of one session. `events` is the whole backing list; the slots in front of
`head` are dropped. -/
structure History where
  maxBytes : ℕ
  bytes : ℕ
  earliest : ℕ
  latest : ℕ
  events : List History.Event
  head : ℕ
  deriving DecidableEq

namespace History

/-- The retained events. -/
def live (h : History) : List Event := h.events.drop h.head

/-! ### The operations -/

/-- `New`: an empty history, which needs a positive limit. -/
def new (maxBytes : ℕ) : Except Error History :=
  if maxBytes = 0 then .error .invalidLimit else .ok ⟨maxBytes, 0, 0, 0, [], 0⟩

/-- The loop of `Restore`: every event starts where the previous one ended and is as long as its
data. -/
def restoreLoop : List Event → History → Except Error History
  | [], history => .ok history
  | event :: events, history =>
    if event.startSequence ≠ history.latest ∨
        sub64 event.endSequence event.startSequence ≠ event.data.length then
      .error .invalidCursor
    else
      restoreLoop events { history with
        events := history.events ++ [event]
        bytes := history.bytes + event.data.length
        latest := event.endSequence }

/-- `Restore`: rebuild a history from stored events. -/
def restore (maxBytes earliest latest : ℕ) (events : List Event) : Except Error History :=
  match new maxBytes with
  | .error _ => .error .invalidCursor
  | .ok history =>
    if latest < earliest then .error .invalidCursor
    else
      match restoreLoop events { history with earliest := earliest, latest := earliest } with
      | .error e => .error e
      | .ok history =>
        if history.latest ≠ latest ∨ maxBytes < history.bytes then .error .invalidCursor
        else .ok history

/-- One iteration of the loop of `compactLocked`: drop the oldest live event. -/
def dropHead (h : History) : History :=
  let event := h.events.getD h.head Event.zero
  { h with
    bytes := sub64 h.bytes event.data.length
    earliest := event.endSequence
    events := h.events.set h.head Event.zero
    head := h.head + 1 }

/-- The loop of `compactLocked`, at most `fuel` iterations. -/
def compactLoop : ℕ → History → History
  | 0, h => h
  | fuel + 1, h =>
    if h.maxBytes < h.bytes ∧ h.head < h.events.length then compactLoop fuel h.dropHead else h

/-- `compactLocked`: drop events until the limit is met; an emptied backing list is reset. -/
def compactLocked (h : History) : History :=
  let h := compactLoop (h.events.length - h.head) h
  if h.head = h.events.length then { h with earliest := h.latest, events := [], head := 0 } else h

/-- `appendOwned`, the body of `Append`, `AppendOwned` and `AppendBuffer`. -/
def appendOwned (h : History) (channel : UInt8) (data : List UInt8) : Except Error (History × Event) :=
  if data.length = 0 then .ok (h, ⟨channel, h.latest, h.latest, []⟩)
  else if sub64 maxUint64 h.latest < data.length then .error .sequenceFull
  else
    let event : Event := ⟨channel, h.latest, h.latest + data.length, data⟩
    .ok ({ h with
      latest := event.endSequence
      bytes := h.bytes + data.length
      events := h.events ++ [event] }.compactLocked, event)

/-- `AppendBuffer`: an append that takes the buffer over. -/
def appendBuffer (h : History) (channel : UInt8) (data : List UInt8) : Except Error (History × Event) :=
  h.appendOwned channel data

/-- `SetLimit`. -/
def setLimit (h : History) (maxBytes : ℕ) : Except Error History :=
  if maxBytes = 0 then .error .invalidLimit else .ok { h with maxBytes := maxBytes }.compactLocked

/-- `Clear`: drop all events; the next sequence number does not change. -/
def clear (h : History) : History × ℕ :=
  ({ h with events := [], head := 0, bytes := 0, earliest := h.latest }, h.latest)

/-- The loop of `ReplayOwned` over the live events. -/
def replayLoop (fromSequence byteLimit : ℕ) : List Event → ℕ → Replay → Replay
  | [], _, result => result
  | event :: events, remaining, result =>
    if event.endSequence ≤ fromSequence then replayLoop fromSequence byteLimit events remaining result
    else
      let start := max fromSequence event.startSequence
      let stop :=
        if 0 < byteLimit ∧ remaining < sub64 event.endSequence start then start + remaining
        else event.endSequence
      if start < stop then
        let retained : Event := { event with
          startSequence := start
          endSequence := stop
          data := event.data.extract (sub64 start event.startSequence) (sub64 stop event.startSequence) }
        let result := { result with events := result.events ++ [retained], toSequence := stop }
        if 0 < byteLimit then
          let remaining := sub64 remaining (sub64 stop start)
          if remaining = 0 then result
          else replayLoop fromSequence byteLimit events remaining result
        else replayLoop fromSequence byteLimit events remaining result
      else replayLoop fromSequence byteLimit events remaining result

/-- `ReplayOwned`: the retained bytes from `fromSequence` on, at most `byteLimit` of them unless
`byteLimit` is zero. -/
def replayOwned (h : History) (fromSequence byteLimit : ℕ) : Except Error Replay :=
  if fromSequence < h.earliest then .error (.gap fromSequence h.earliest h.latest)
  else if h.latest < fromSequence then .error .invalidCursor
  else
    .ok (replayLoop fromSequence byteLimit h.live byteLimit
      ⟨fromSequence, fromSequence, h.earliest, h.latest, []⟩)

/-! ### Validity -/

/-- The events tile the range from `a` to `b`. -/
abbrev EventTiles (a : ℕ) (l : List Event) (b : ℕ) : Prop :=
  Tiles Event.startSequence Event.endSequence a l b

/-- The event holds its part of the output stream. -/
abbrev EventHolds (stream : List UInt8) (e : Event) : Prop :=
  Holds Event.startSequence Event.endSequence Event.data stream e

/-- The event is not empty and holds its part of the output stream. -/
def EventOK (stream : List UInt8) (e : Event) : Prop :=
  e.startSequence < e.endSequence ∧ EventHolds stream e

/-- The history retains a suffix of the output stream `stream`. -/
structure Valid (h : History) (stream : List UInt8) : Prop where
  /-- The dropped slots are in front of the live ones. -/
  head_le : h.head ≤ h.events.length
  /-- The live events tile `[earliest, latest)`. -/
  tiles : EventTiles h.earliest h.live h.latest
  /-- Every live event is a nonempty part of the stream. -/
  ok : ∀ e ∈ h.live, EventOK stream e
  /-- The byte count is the length of the retained range. -/
  bytes_eq : h.bytes = h.latest - h.earliest
  /-- The stream ends at the next sequence number. -/
  latest_eq : h.latest = stream.length
  /-- Sequence numbers are 64-bit words. -/
  latest_le : h.latest ≤ maxUint64

variable {stream : List UInt8} {e : Event}

lemma EventOK.append (h : EventOK stream e) (data : List UInt8) : EventOK (stream ++ data) e :=
  ⟨h.1, h.2.append data⟩

lemma EventOK.length (h : EventOK stream e) : e.data.length = e.endSequence - e.startSequence :=
  h.2.length

variable {h : History}

lemma Valid.earliest_le (hv : h.Valid stream) : h.earliest ≤ h.latest := hv.tiles.le

lemma Valid.bounds (hv : h.Valid stream) (he : e ∈ h.live) :
    h.earliest ≤ e.startSequence ∧ e.startSequence ≤ e.endSequence ∧ e.endSequence ≤ h.latest :=
  hv.tiles.bounds he

variable {maxBytes : ℕ}

/-! ### Compaction -/

lemma live_eq_cons (hlt : h.head < h.events.length) :
    h.live = h.events.getD h.head Event.zero :: h.dropHead.live := by
  have hset : h.dropHead.live = h.events.drop (h.head + 1) := by
    simp [live, dropHead, List.drop_set_of_lt]
  rw [hset, live, List.drop_eq_getElem_cons hlt, List.getD_eq_getElem _ _ hlt]

/-! ### Appending and clearing -/

variable {h' : History} {channel : UInt8} {data : List UInt8} {event : Event}

lemma appendOwned_cases (hne : data ≠ []) (ha : h.appendOwned channel data = .ok (h', event)) :
    data.length ≤ sub64 maxUint64 h.latest ∧ event = ⟨channel, h.latest, h.latest + data.length, data⟩ ∧
      h' = { h with
        latest := h.latest + data.length
        bytes := h.bytes + data.length
        events := h.events ++ [event] }.compactLocked := by
  unfold appendOwned at ha
  have hlen : data.length ≠ 0 := by simpa using hne
  simp only [hlen, if_false] at ha
  split at ha
  · cases ha
  · next hfull =>
    cases ha
    exact ⟨not_lt.mp hfull, rfl, rfl⟩

/-- Clearing keeps a history valid for the same stream, at the same position. -/
lemma clear_valid (hv : h.Valid stream) : h.clear.1.Valid stream :=
  ⟨le_rfl, rfl, by simp [clear, live], (Nat.sub_self _).symm, hv.latest_eq, hv.latest_le⟩

@[simp] lemma clear_frame (h : History) : h.clear.1.live = [] ∧ h.clear.1.latest = h.latest := by
  simp [clear, live]

/-! ### Restoring -/

variable {events : List Event} {history : History}

/-- What the restore loop leaves in the history, whatever the events are. -/
lemma restoreLoop_frame (hr : restoreLoop events history = .ok h) : h.events = history.events ++ events ∧
      h.bytes = history.bytes + (events.map fun e => e.data.length).sum ∧ h.head = history.head ∧
      h.earliest = history.earliest ∧ h.maxBytes = history.maxBytes := by
  induction events generalizing history with
  | nil =>
    cases hr
    simp
  | cons e events ih =>
    unfold restoreLoop at hr
    split at hr
    · cases hr
    obtain ⟨hevents, hbytes, hrest⟩ := ih hr
    refine ⟨?_, ?_, hrest⟩
    · rw [hevents, List.append_assoc, List.singleton_append]
    · rw [hbytes, List.map_cons, List.sum_cons, Nat.add_assoc]

/-- The restore loop accepts events that continue a tiling, unless an event runs backwards. -/
lemma restoreLoop_tiles (hr : restoreLoop events history = .ok h)
    (hle : ∀ e ∈ events, e.startSequence ≤ e.endSequence) :
    EventTiles history.latest events h.latest ∧
      ∀ e ∈ events, e.data.length = e.endSequence - e.startSequence := by
  induction events generalizing history with
  | nil =>
    cases hr
    simp
  | cons e events ih =>
    unfold restoreLoop at hr
    split_ifs at hr with hc
    push Not at hc
    obtain ⟨hstart, hlen⟩ := hc
    have hforward := hle e List.mem_cons_self
    rw [sub64_of_le hforward] at hlen
    obtain ⟨htiles, hlens⟩ := ih hr fun e' he' => hle e' (List.mem_cons_of_mem _ he')
    refine ⟨⟨hstart, hforward, htiles⟩, fun e' he' => ?_⟩
    rcases List.mem_cons.mp he' with rfl | he'
    · exact hlen.symm
    · exact hlens e' he'

/-- An event that runs backwards is accepted only where its data are long enough to wrap the sequence
number around. -/
lemma restoreLoop_wraps (hr : restoreLoop events history = .ok h)
    (hword : ∀ e ∈ events, e.endSequence ≤ maxUint64) (hlatest : history.latest ≤ maxUint64) :
    h.latest ≤ history.latest + (events.map fun e => e.data.length).sum ∧
      ((∃ e ∈ events, e.endSequence < e.startSequence) →
        h.latest + 2 ^ 64 ≤ history.latest + (events.map fun e => e.data.length).sum) := by
  induction events generalizing history with
  | nil =>
    cases hr
    simp
  | cons e events ih =>
    unfold restoreLoop at hr
    split_ifs at hr with hc
    push Not at hc
    obtain ⟨hstart, hlen⟩ := hc
    have hend := hword e List.mem_cons_self
    obtain ⟨hle, hwraps⟩ := ih hr (fun e' he' => hword e' (List.mem_cons_of_mem _ he')) hend
    simp only at hle hwraps
    have hmax : maxUint64 < 2 ^ 64 := maxUint64_lt
    simp only [List.map_cons, List.sum_cons]
    rcases le_or_gt e.startSequence e.endSequence with hforward | hback
    · rw [sub64_of_le hforward] at hlen
      refine ⟨by omega, ?_⟩
      rintro ⟨e', he', hback⟩
      rcases List.mem_cons.mp he' with rfl | he'
      · omega
      · have hfull := hwraps ⟨e', he', hback⟩
        omega
    · rw [sub64, if_neg (not_le.mpr hback)] at hlen
      exact ⟨by omega, fun _ => by omega⟩

variable {earliest latest : ℕ}

lemma restore_cases (hr : restore maxBytes earliest latest events = .ok h) :
    0 < maxBytes ∧ earliest ≤ latest ∧ h.latest = latest ∧ h.bytes ≤ maxBytes ∧
      restoreLoop events ⟨maxBytes, 0, earliest, earliest, [], 0⟩ = .ok h := by
  unfold restore new at hr
  split at hr
  · cases hr
  rename_i h₀ hnew
  split_ifs at hnew with hpos
  cases hnew
  split_ifs at hr with hle
  split at hr
  · cases hr
  rename_i hloop
  split at hr
  · cases hr
  rename_i hend
  push Not at hend
  cases hr
  exact ⟨Nat.pos_of_ne_zero hpos, not_lt.mp hle, hend.1, hend.2, hloop⟩

lemma restore_earliest (hr : restore maxBytes earliest latest events = .ok h) :
    h.earliest = earliest := by
  obtain ⟨-, -, -, -, hloop⟩ := restore_cases hr
  obtain ⟨-, -, -, hearliest, -⟩ := restoreLoop_frame hloop
  exact hearliest

lemma restore_live (hr : restore maxBytes earliest latest events = .ok h) :
    h.head = 0 ∧ h.live = events := by
  obtain ⟨-, -, -, -, hloop⟩ := restore_cases hr
  obtain ⟨hevents, -, hhead, -, -⟩ := restoreLoop_frame hloop
  refine ⟨hhead, ?_⟩
  rw [live, hhead, hevents]
  rfl

/-! ### Replaying -/

/-- `x` is a nonempty part of the event `e`. -/
def Event.PartOf (x e : Event) : Prop :=
  x.channel = e.channel ∧ e.startSequence ≤ x.startSequence ∧ x.startSequence < x.endSequence ∧
    x.endSequence ≤ e.endSequence

/-- Cut the part `[start, stop)` out of an event. -/
def Event.cut (e : Event) (start stop : ℕ) : Event :=
  { e with
    startSequence := start
    endSequence := stop
    data := e.data.extract (sub64 start e.startSequence) (sub64 stop e.startSequence) }

/-- A nonempty cut of an event is a part of it and holds its part of the stream. -/
lemma cut_partOf (he : EventHolds stream e) (start stop : ℕ) (hstart : e.startSequence ≤ start)
    (hlt : start < stop) (hstop : stop ≤ e.endSequence) :
    (e.cut start stop).PartOf e ∧ EventHolds stream (e.cut start stop) := by
  refine ⟨⟨rfl, hstart, hlt, hstop⟩, le_trans hstop he.1, ?_⟩
  change e.data.extract (sub64 start e.startSequence) (sub64 stop e.startSequence) =
    stream.extract start stop
  rw [sub64_of_le hstart, sub64_of_le (by omega), he.2, extract_extract_of_le stream (by omega)]
  congr 1 <;> omega

variable {fromSequence byteLimit : ℕ}

/-- What a replay adds to the events `before` from the events `l`, and where it stops. -/
structure Replays (stream : List UInt8) (fromSequence stop : ℕ) (before l : List Event) (r : Replay) :
    Prop where
  to_eq : r.toSequence = stop
  tiles : EventTiles fromSequence r.events r.toSequence
  /-- Each event is a part of one of `l`, cut at its end only where the replay stops. -/
  parts : ∀ x ∈ r.events, x ∈ before ∨ ∃ e ∈ l, x.PartOf e ∧ EventHolds stream x ∧
    (x.endSequence = e.endSequence ∨ x.endSequence = r.toSequence)

variable {stop : ℕ} {before l : List Event} {r : Replay}

/-- Nothing is taken from an event. -/
lemma Replays.skip (hr : Replays stream fromSequence stop before l r) (e : Event) :
    Replays stream fromSequence stop before (e :: l) r := by
  refine { hr with parts := fun x hx => (hr.parts x hx).imp_right ?_ }
  rintro ⟨e', he', hx⟩
  exact ⟨e', List.mem_cons_of_mem _ he', hx⟩

/-- A part of an event is taken. -/
lemma Replays.take {x : Event} (hr : Replays stream fromSequence stop (before ++ [x]) l r)
    (hpart : x.PartOf e ∧ EventHolds stream x)
    (hend : x.endSequence = e.endSequence ∨ x.endSequence = r.toSequence) :
    Replays stream fromSequence stop before (e :: l) r := by
  refine { hr.skip e with parts := fun y hy => ?_ }
  rcases (hr.skip e).parts y hy with hy | hy
  · refine (List.mem_append.mp hy).imp_right fun hy => ?_
    obtain rfl := List.mem_singleton.mp hy
    exact ⟨e, List.mem_cons_self, hpart.1, hpart.2, hend⟩
  · exact .inr hy

/-- The replay loop on the events still to come goes on from its position, and stops at their end or
where the byte limit runs out. -/
lemma replayLoop_spec {a b : ℕ} (htiles : EventTiles a l b) (hok : ∀ e ∈ l, EventHolds stream e)
    (hb : fromSequence ≤ b) (remaining : ℕ) (hrem : 0 < byteLimit → 0 < remaining) (result : Replay)
    (hto : result.toSequence = max fromSequence a)
    (hprev : EventTiles fromSequence result.events result.toSequence) :
    Replays stream fromSequence (if byteLimit = 0 then b else min b (max fromSequence a + remaining))
      result.events l (replayLoop fromSequence byteLimit l remaining result) := by
  induction l generalizing a remaining result with
  | nil =>
    have hab : a = b := htiles
    refine ⟨?_, hprev, fun x hx => .inl hx⟩
    rw [replayLoop, hto]
    split <;> omega
  | cons e l ih =>
    obtain ⟨hlo, hle, htl⟩ := htiles
    obtain ⟨he, hok⟩ := List.forall_mem_cons.mp hok
    have heb := htl.le
    generalize hgoal : (if byteLimit = 0 then b else min b (max fromSequence a + remaining)) = goal
    -- an event from which nothing is taken
    have hpass (hpos : max fromSequence a = max fromSequence e.endSequence) :
        Replays stream fromSequence goal result.events (e :: l)
          (replayLoop fromSequence byteLimit l remaining result) := by
      rw [← hgoal, hpos]
      exact (ih htl hok remaining hrem result (hto.trans hpos) hprev).skip e
    rw [replayLoop]
    split
    · -- the event ends before the replay starts
      exact hpass (by omega)
    rename_i hskip
    rw [not_le] at hskip
    have hstart : max fromSequence e.startSequence = result.toSequence := by rw [hto, hlo]
    rcases Nat.eq_or_lt_of_le hle with hempty | hfilled
    · -- the event is empty
      have hend : result.toSequence = e.endSequence := by omega
      simp only [hstart, hend, sub64_of_le le_rfl, Nat.sub_self, Nat.not_lt_zero, and_false, if_false,
        lt_irrefl]
      exact hpass (by omega)
    have hbefore : result.toSequence < e.endSequence := by omega
    simp only [hstart, sub64_of_le hbefore.le]
    set p := result.toSequence with hp
    set stop := (if 0 < byteLimit ∧ remaining < e.endSequence - p then p + remaining
      else e.endSequence) with hstop
    have hlt : p < stop := by
      rw [hstop]
      split <;> omega
    have hle' : stop ≤ e.endSequence := by
      rw [hstop]
      split <;> omega
    have hpart := cut_partOf he p stop (by omega) hlt hle'
    simp only [hlt, if_true]
    have htiles' : EventTiles fromSequence (result.events ++ [e.cut p stop]) stop :=
      Tiles.concat hprev (x := e.cut p stop) rfl hlt.le
    have hgo (remaining' : ℕ) (hrem' : 0 < byteLimit → 0 < remaining') (hfull : stop = e.endSequence) :=
      (ih htl hok remaining' hrem'
        { result with events := result.events ++ [e.cut p stop], toSequence := stop }
        (by simp only; omega) htiles').take hpart (.inl hfull)
    split
    · next hlimit =>
      rw [sub64_of_le hlt.le, sub64_of_le (by rw [hstop]; split <;> omega)]
      have hlimit' : byteLimit ≠ 0 := by omega
      split
      · next hzero =>
        refine Replays.take ⟨?_, htiles', fun x hx => .inl hx⟩ hpart (.inr rfl)
        change stop = _
        rw [← hgoal, hstop]
        rw [hstop] at hzero
        split at hzero <;> split <;> omega
      · next hmore =>
        have hfull : stop = e.endSequence := by
          rw [hstop] at hmore ⊢
          split at hmore <;> split <;> omega
        have hrest := hgo (remaining - (stop - p)) (by omega) hfull
        refine { hrest with to_eq := hrest.to_eq.trans ?_ }
        rw [← hgoal, ← hto]
        split <;> omega
    · next hlimit =>
      have hlimit' : byteLimit = 0 := by omega
      have hfull : stop = e.endSequence := by simp [hstop, hlimit']
      have hrest := hgo remaining hrem hfull
      refine { hrest with to_eq := hrest.to_eq.trans ?_ }
      rw [← hgoal, if_pos hlimit', if_pos hlimit']

lemma replayLoop_frame (fromSequence byteLimit : ℕ) (l : List Event) (remaining : ℕ) (result : Replay) :
    (replayLoop fromSequence byteLimit l remaining result).fromSequence = result.fromSequence ∧
      (replayLoop fromSequence byteLimit l remaining result).earliestSequence = result.earliestSequence ∧
      (replayLoop fromSequence byteLimit l remaining result).latestSequence = result.latestSequence := by
  induction l generalizing remaining result with
  | nil => exact ⟨rfl, rfl, rfl⟩
  | cons e l ih =>
    unfold replayLoop
    simp only
    split_ifs
    all_goals first | exact ih _ _ | exact ⟨rfl, rfl, rfl⟩

/-- What a replay of the history `h` from `fromSequence` is. -/
structure IsReplay (h : History) (stream : List UInt8) (fromSequence byteLimit : ℕ) (r : Replay) :
    Prop where
  from_eq : r.fromSequence = fromSequence
  earliest_eq : r.earliestSequence = h.earliest
  latest_eq : r.latestSequence = h.latest
  /-- The replay starts inside the retained range. -/
  earliest_le : h.earliest ≤ fromSequence
  le_latest : fromSequence ≤ h.latest
  /-- It ends where the limit runs out, or with the history. -/
  to_eq : r.toSequence = if byteLimit = 0 then h.latest else min h.latest (fromSequence + byteLimit)
  /-- Its events tile the replayed range. -/
  tiles : EventTiles fromSequence r.events r.toSequence
  /-- Each is a part of a live event, cut at its end only where the replay ends. -/
  parts : ∀ x ∈ r.events, ∃ e ∈ h.live, x.PartOf e ∧ EventHolds stream x ∧
    (x.endSequence = e.endSequence ∨ x.endSequence = r.toSequence)

/-- A successful replay returns exactly the retained bytes it was asked for. -/
lemma replayOwned_spec (hv : h.Valid stream) (hr : h.replayOwned fromSequence byteLimit = .ok r) :
    IsReplay h stream fromSequence byteLimit r := by
  unfold replayOwned at hr
  split at hr
  · cases hr
  rename_i hearly
  split at hr
  · cases hr
  rename_i hlate
  rw [not_lt] at hearly hlate
  have hmax : max fromSequence h.earliest = fromSequence := max_eq_left hearly
  have hr' := replayLoop_spec hv.tiles (fun e he => (hv.ok e he).2) hlate byteLimit id
    ⟨fromSequence, fromSequence, h.earliest, h.latest, []⟩ hmax.symm rfl
  obtain ⟨hf, he, hl⟩ := replayLoop_frame fromSequence byteLimit h.live byteLimit
    ⟨fromSequence, fromSequence, h.earliest, h.latest, []⟩
  cases hr
  refine ⟨hf, he, hl, hearly, hlate, ?_, hr'.tiles, fun x hx => (hr'.parts x hx).resolve_left (by simp)⟩
  rw [hr'.to_eq, hmax]

end Paperboat.History

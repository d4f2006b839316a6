import Paperboat.History.Window

/-!
# The history and the stream

A `Recorded` history carries the output stream of the session as a ghost. `Recorded.Correct` says what a
reader may rely on: the retained events tile `[earliest, latest)` and hold the stream there, the byte
count is the length of that range and within the limit, and a replay returns the stream's bytes from
where it was asked to start, or says that they are gone, or that they are not there yet.
-/

namespace Paperboat.History

open List

/-- `Append`: an append whose caller gets a copy of the event. -/
def append (h : History) (channel : UInt8) (data : List UInt8) : Except Error (History × Event) :=
  h.appendOwned channel data

/-- `Replay`: a replay whose caller gets copies of the events. -/
def replay (h : History) (fromSequence byteLimit : ℕ) : Except Error Replay :=
  h.replayOwned fromSequence byteLimit

/-- The bytes of an event with the channel they came on. -/
def Event.tagged (e : Event) : List (UInt8 × UInt8) := e.data.map (Prod.mk e.channel)

/-- The event holds its part of the stream, bytes and channel. -/
abbrev EventRecords (stream : List (UInt8 × UInt8)) (e : Event) : Prop :=
  Holds Event.startSequence Event.endSequence Event.tagged stream e

/-- The calls that change a history. -/
inductive Op where
  | append (channel : UInt8) (data : List UInt8)
  | appendOwned (channel : UInt8) (data : List UInt8)
  | appendBuffer (channel : UInt8) (data : List UInt8)
  | setLimit (maxBytes : ℕ)
  | clear
  deriving DecidableEq

/-- A history with the stream of everything that was appended. -/
structure Recorded where
  history : History
  stream : List (UInt8 × UInt8)
  deriving DecidableEq

namespace Recorded

/-- The outcome of an append: the data join the stream where it succeeds. -/
def appended (r : Recorded) (channel : UInt8) (data : List UInt8) :
    Except Error (History × Event) → Recorded
  | .ok (h, _) => ⟨h, r.stream ++ data.map (Prod.mk channel)⟩
  | .error _ => r

/-- One call. -/
def step (r : Recorded) : Op → Recorded
  | .append channel data => r.appended channel data (r.history.append channel data)
  | .appendOwned channel data => r.appended channel data (r.history.appendOwned channel data)
  | .appendBuffer channel data => r.appended channel data (r.history.appendBuffer channel data)
  | .setLimit maxBytes =>
    match r.history.setLimit maxBytes with
    | .ok h => { r with history := h }
    | .error _ => r
  | .clear => { r with history := r.history.clear.1 }

/-- Any number of calls. -/
def run (r : Recorded) (ops : List Op) : Recorded := ops.foldl step r

/-- Where a history starts: new, or restored from stored events, in front of which the stream was
anything of the right length. The restored numbers are 64-bit words. -/
inductive Starts : Recorded → Prop where
  | new {maxBytes : ℕ} {h : History} (hn : History.new maxBytes = .ok h) : Starts ⟨h, []⟩
  | restore {maxBytes earliest latest : ℕ} {events : List Event} {h : History}
      (hr : History.restore maxBytes earliest latest events = .ok h) (hmax : maxBytes ≤ maxUint64)
      (hlatest : latest ≤ maxUint64) (hword : ∀ e ∈ events, e.endSequence ≤ maxUint64)
      {dropped : List (UInt8 × UInt8)} (hdropped : dropped.length = earliest) :
      Starts ⟨h, dropped ++ events.flatMap Event.tagged⟩

/-! ### What a reader may rely on -/

/-- A replay from `fromSequence`: the stream's bytes up to the limit, cut into events. -/
structure Replays (r : Recorded) (fromSequence byteLimit : ℕ) (result : Replay) : Prop where
  from_eq : result.fromSequence = fromSequence
  to_eq : result.toSequence = if byteLimit = 0 then r.history.latest
    else min r.history.latest (fromSequence + byteLimit)
  earliest_eq : result.earliestSequence = r.history.earliest
  latest_eq : result.latestSequence = r.history.latest
  tiles : EventTiles fromSequence result.events result.toSequence
  records : ∀ e ∈ result.events, EventRecords r.stream e
  bytes_eq : result.events.flatMap Event.tagged = r.stream.extract fromSequence result.toSequence

/-- What `Replay` answers on a correct history. -/
structure Answers (r : Recorded) (fromSequence byteLimit : ℕ) : Prop where
  /-- A gap is reported exactly in front of the retained range, with its bounds. -/
  gap_iff : ∀ requested earliest latest,
    r.history.replay fromSequence byteLimit = .error (.gap requested earliest latest) ↔
      fromSequence < r.history.earliest ∧ requested = fromSequence ∧
        earliest = r.history.earliest ∧ latest = r.history.latest
  /-- A cursor is invalid exactly behind the retained range. -/
  invalidCursor_iff : r.history.replay fromSequence byteLimit = .error .invalidCursor ↔
    r.history.latest < fromSequence
  /-- From inside it the replay succeeds. -/
  replays : r.history.earliest ≤ fromSequence → fromSequence ≤ r.history.latest →
    ∃ result, r.history.replay fromSequence byteLimit = .ok result ∧
      r.Replays fromSequence byteLimit result

/-- A history that is a correct window on its stream. -/
structure Correct (r : Recorded) : Prop where
  /-- The retained events tile the retained range, in order. -/
  tiles : EventTiles r.history.earliest r.history.live r.history.latest
  /-- They hold the stream's bytes there. -/
  records : ∀ e ∈ r.history.live, EventRecords r.stream e
  /-- The stream ends at the next sequence number. -/
  latest_eq : r.history.latest = r.stream.length
  bytes_eq : r.history.bytes = r.history.latest - r.history.earliest
  bytes_le : r.history.bytes ≤ r.history.maxBytes
  /-- An append is refused only where the sequence numbers run out. -/
  accepts : ∀ channel data, r.stream.length + data.length ≤ maxUint64 →
    ∃ h event, r.history.append channel data = .ok (h, event)
  answers : ∀ fromSequence byteLimit, r.Answers fromSequence byteLimit

/-! ### The representation invariant -/

/-- The history is consistent, within its limit, and its events are the stream's. -/
structure Retains (r : Recorded) : Prop where
  consistent : r.history.Consistent
  bytes_le : r.history.bytes ≤ r.history.maxBytes
  latest_eq : r.history.latest = r.stream.length
  records : ∀ e ∈ r.history.live, EventRecords r.stream e

variable {stream : List (UInt8 × UInt8)} {e : Event}

lemma eventHolds_of_records (he : EventRecords stream e) : EventHolds (stream.map Prod.snd) e := by
  refine ⟨by simpa using he.1, ?_⟩
  have hdata : e.data = e.tagged.map Prod.snd := by simp [Event.tagged, Function.comp_def]
  rw [hdata, he.2]
  simp only [extract_eq_take_drop, map_take, map_drop]

/-- A part of an event records its own part of the stream: the channel is the same all along. -/
lemma eventRecords_of_partOf {x : Event} (he : EventRecords stream e) (hpart : x.PartOf e)
    (hx : EventHolds (stream.map Prod.snd) x) :
    EventRecords stream x := by
  obtain ⟨hchannel, hstart, hlt, hend⟩ := hpart
  refine ⟨hend.trans he.1, ?_⟩
  -- the part of the stream is a part of the bytes of `e`, all on its channel
  have hpart : stream.extract x.startSequence x.endSequence =
      (e.data.extract (x.startSequence - e.startSequence)
        (x.endSequence - e.startSequence)).map (Prod.mk e.channel) := by
    have hwhole : stream.extract x.startSequence x.endSequence =
        (stream.extract e.startSequence e.endSequence).extract
          (x.startSequence - e.startSequence) (x.endSequence - e.startSequence) := by
      rw [extract_extract_of_le stream (by omega)]
      congr 1 <;> omega
    have hbytes : stream.extract e.startSequence e.endSequence = e.data.map (Prod.mk e.channel) :=
      he.2.symm
    rw [hwhole, hbytes]
    simp only [extract_eq_take_drop, map_take, map_drop]
  have hdata : x.data = (stream.extract x.startSequence x.endSequence).map Prod.snd := by
    rw [hx.2]
    simp only [extract_eq_take_drop, map_take, map_drop]
  rw [Event.tagged, hdata, hpart, hchannel, map_map, map_map]
  rfl

/-- A trimmed window of the same stream: what is left was there before. -/
lemma records_of_trim {h : History} {w : Window} {maxBytes : ℕ} (hwindow : h.window = w.trim maxBytes)
    (htiles : EventTiles w.earliest w.events w.latest) (hw : ∀ e ∈ w.events, EventRecords stream e) :
    h.latest = w.latest ∧ ∀ e ∈ h.live, EventRecords stream e := by
  obtain ⟨-, hlatest, hlive⟩ := Window.mk.inj hwindow
  obtain ⟨-, hsuffix, -⟩ := Window.trimEvents_spec maxBytes htiles
  refine ⟨hlatest, fun e he => hw e ?_⟩
  rw [hlive] at he
  exact hsuffix.subset he

variable {r : Recorded}

lemma appended_retains (hr : r.Retains) (channel : UInt8) (data : List UInt8) :
    (r.appended channel data (r.history.appendOwned channel data)).Retains := by
  rcases hresult : r.history.appendOwned channel data with e | ⟨h, event⟩
  · exact hr
  rcases eq_or_ne data [] with rfl | hne
  · -- nothing is appended
    obtain ⟨rfl, rfl⟩ := Prod.mk.inj (Except.ok.inj hresult)
    simpa [appended] using hr
  obtain ⟨hevent, hc, -, hfits, hwindow⟩ := appendOwned_window hr.consistent hne hresult
  have hlatest := hr.latest_eq
  have hnew : EventRecords (r.stream ++ data.map (Prod.mk channel)) event := by
    subst hevent
    refine ⟨by simp [hlatest], ?_⟩
    have hright := extract_append_right r.stream (data.map (Prod.mk channel))
    rw [length_map] at hright
    simp only [hlatest]
    exact hright.symm
  have htiles : EventTiles r.history.earliest (r.history.live ++ [event]) event.endSequence :=
    hr.consistent.tiles.concat (by rw [hevent]) (by rw [hevent]; simp)
  have hall : ∀ e ∈ r.history.live ++ [event],
      EventRecords (r.stream ++ data.map (Prod.mk channel)) e :=
    forall_mem_append.mpr ⟨fun e he => (hr.records e he).append _, forall_mem_singleton.mpr hnew⟩
  obtain ⟨hend, hrecords⟩ := records_of_trim hwindow htiles hall
  refine ⟨hc, hfits, hend.trans ?_, hrecords⟩
  simp [Window.append, hevent, hlatest, appended]

lemma step_retains (hr : r.Retains) (op : Op) : (r.step op).Retains := by
  cases op with
  | append channel data => exact appended_retains hr channel data
  | appendOwned channel data => exact appended_retains hr channel data
  | appendBuffer channel data => exact appended_retains hr channel data
  | setLimit maxBytes =>
    rw [step]
    rcases hresult : r.history.setLimit maxBytes with e | h
    · exact hr
    · obtain ⟨hc, -, hfits, hwindow⟩ := setLimit_window hr.consistent hresult
      obtain ⟨hend, hrecords⟩ := records_of_trim hwindow hr.consistent.tiles hr.records
      exact ⟨hc, hfits, hend.trans hr.latest_eq, hrecords⟩
  | clear =>
    obtain ⟨hc, -⟩ := clear_window hr.consistent
    exact ⟨hc, Nat.zero_le _, hr.latest_eq, by simp [step]⟩

lemma Starts.retains (hs : Starts r) : r.Retains := by
  cases hs with
  | new hn =>
    obtain ⟨rfl, -, hc⟩ := new_consistent hn
    exact ⟨hc, Nat.zero_le _, rfl, by simp [live]⟩
  | @restore _ _ _ events _ hr hmax hlatest hword _ hdropped =>
    have hc := restore_consistent hr hmax hlatest hword
    obtain ⟨-, -, -, hfits, hloop⟩ := restore_cases hr
    obtain ⟨-, -, -, -, hlimit⟩ := restoreLoop_frame hloop
    obtain ⟨-, hlive⟩ := restore_live hr
    have htiles := hc.tiles
    have hlength := hc.length_eq
    rw [hlive] at htiles hlength
    have htagged : ∀ e ∈ events, e.tagged.length = e.endSequence - e.startSequence := by
      intro e he
      rw [Event.tagged, length_map]
      exact hlength e he
    obtain ⟨hend, hholds⟩ :=
      htiles.holds_flatMap htagged (hdropped.trans (restore_earliest hr).symm)
    refine ⟨hc, ?_, hend.symm, ?_⟩
    · rw [hlimit]
      exact hfits
    · rw [hlive]
      exact hholds

lemma run_retains (hr : r.Retains) (ops : List Op) : (r.run ops).Retains := by
  induction ops generalizing r with
  | nil => exact hr
  | cons op ops ih => exact ih (step_retains hr op)

/-! ### Correctness -/

lemma Retains.replays (hr : r.Retains) {fromSequence : ℕ} (byteLimit : ℕ)
    (hearly : r.history.earliest ≤ fromSequence) (hlate : fromSequence ≤ r.history.latest) :
    ∃ result, r.history.replay fromSequence byteLimit = .ok result ∧
      r.Replays fromSequence byteLimit result := by
  have hmax : max fromSequence r.history.earliest = fromSequence := max_eq_left hearly
  obtain ⟨hto, htiles, hparts⟩ := replayLoop_spec hr.consistent.tiles
    (fun e he => eventHolds_of_records (hr.records e he)) hlate byteLimit id
    ⟨fromSequence, fromSequence, r.history.earliest, r.history.latest, []⟩ hmax.symm rfl
  obtain ⟨hfrom, hearliest, hlatest⟩ := replayLoop_frame fromSequence byteLimit r.history.live
    byteLimit ⟨fromSequence, fromSequence, r.history.earliest, r.history.latest, []⟩
  rw [hmax] at hto
  have hresult : r.history.replay fromSequence byteLimit = .ok (replayLoop fromSequence byteLimit
      r.history.live byteLimit ⟨fromSequence, fromSequence, r.history.earliest, r.history.latest, []⟩) := by
    rw [replay, replayOwned, if_neg (not_lt.mpr hearly), if_neg (not_lt.mpr hlate)]
  generalize replayLoop fromSequence byteLimit r.history.live byteLimit
    ⟨fromSequence, fromSequence, r.history.earliest, r.history.latest, []⟩ = result at *
  have hrecords : ∀ e ∈ result.events, EventRecords r.stream e := by
    intro x hx
    rcases hparts x hx with hnone | ⟨e, he, hpart, hholds, -⟩
    · cases hnone
    · exact eventRecords_of_partOf (hr.records e he) hpart hholds
  exact ⟨result, hresult, hfrom, hto, hearliest, hlatest, htiles, hrecords,
    htiles.flatMap_data hrecords⟩

lemma Retains.answers (hr : r.Retains) (fromSequence byteLimit : ℕ) :
    r.Answers fromSequence byteLimit := by
  have hbounds := hr.consistent.tiles.le
  rcases lt_or_ge fromSequence r.history.earliest with hgap | hearly
  · have hresult : r.history.replay fromSequence byteLimit =
        .error (.gap fromSequence r.history.earliest r.history.latest) := if_pos hgap
    refine ⟨fun requested earliest latest => ?_, ?_, fun hearly => absurd hgap (not_lt.mpr hearly)⟩
    · rw [hresult]
      simp only [Except.error.injEq, Error.gap.injEq, hgap, true_and]
      exact ⟨fun ⟨h₁, h₂, h₃⟩ => ⟨h₁.symm, h₂.symm, h₃.symm⟩,
        fun ⟨h₁, h₂, h₃⟩ => ⟨h₁.symm, h₂.symm, h₃.symm⟩⟩
    · rw [hresult]
      exact ⟨nofun, fun hlate => by omega⟩
  rcases lt_or_ge r.history.latest fromSequence with hbehind | hlate
  · have hresult : r.history.replay fromSequence byteLimit = .error .invalidCursor := by
      rw [replay, replayOwned, if_neg (not_lt.mpr hearly), if_pos hbehind]
    refine ⟨fun requested earliest latest => ?_, ?_, fun _ hlate => absurd hbehind (not_lt.mpr hlate)⟩
    · rw [hresult]
      exact ⟨nofun, fun h => absurd h.1 (not_lt.mpr hearly)⟩
    · rw [hresult]
      exact ⟨fun _ => hbehind, fun _ => rfl⟩
  · have hresult := hr.replays byteLimit hearly hlate
    obtain ⟨result, hok, -⟩ := hresult
    refine ⟨fun requested earliest latest => ?_, ?_, fun _ _ => hr.replays byteLimit hearly hlate⟩
    · rw [hok]
      exact ⟨nofun, fun h => absurd h.1 (not_lt.mpr hearly)⟩
    · rw [hok]
      exact ⟨nofun, fun h => absurd h (not_lt.mpr hlate)⟩

/-- An append to a consistent history is refused only where the sequence numbers run out. -/
lemma Retains.accepts (hr : r.Retains) (channel : UInt8) {data : List UInt8}
    (hfits : r.stream.length + data.length ≤ maxUint64) :
    ∃ h event, r.history.append channel data = .ok (h, event) := by
  have hlatest := hr.latest_eq
  have hroom : ¬ sub64 maxUint64 r.history.latest < data.length := by
    rw [sub64_of_le hr.consistent.latest_le]
    omega
  rw [append, appendOwned, if_neg hroom]
  split
  · exact ⟨_, _, rfl⟩
  · exact ⟨_, _, rfl⟩

lemma Retains.correct (hr : r.Retains) : r.Correct :=
  ⟨hr.consistent.tiles, hr.records, hr.latest_eq, hr.consistent.bytes_eq, hr.bytes_le,
    fun channel _ hfits => hr.accepts channel hfits, hr.answers⟩

/-- After any calls, from a new or a restored history, the history is a correct window on the stream
of everything that was appended. -/
theorem run_correct {r : Recorded} (hs : Starts r) (ops : List Op) : (r.run ops).Correct :=
  (run_retains hs.retains ops).correct

/-- A history of three bytes that gets two chunks, is cut down to two bytes, and gets an empty chunk
and one that is longer than the limit. -/
theorem smallHistory_correct : Starts ⟨⟨3, 0, 0, 0, [], 0⟩, []⟩ ∧
      (Recorded.run ⟨⟨3, 0, 0, 0, [], 0⟩, []⟩ [.append 0 [1, 2], .appendOwned 1 [3], .setLimit 2,
        .appendBuffer 0 [], .append 0 [4, 5, 6]]).Correct :=
  have hstart : Starts ⟨⟨3, 0, 0, 0, [], 0⟩, []⟩ := .new (rfl : History.new 3 = _)
  ⟨hstart, run_correct hstart _⟩

/-- Nothing is dropped before it has to be: an append keeps exactly the events from whose start on the
output fits into the limit. -/
def Thrifty (r : Recorded) : Prop :=
  ∀ channel data h event, data ≠ [] → r.history.append channel data = .ok (h, event) →
    ∀ e, e ∈ h.live ↔ e ∈ r.history.live ++ [event] ∧ h.latest - e.startSequence ≤ h.maxBytes

/-- So it is after any calls. -/
theorem run_thrifty {r : Recorded} (hs : Starts r) (ops : List Op) : (r.run ops).Thrifty := by
  intro channel data h event hne ha e
  have hc := (run_retains hs.retains ops).consistent
  obtain ⟨rfl, -, hmax, -, hwindow⟩ := appendOwned_window hc hne ha
  obtain ⟨-, hlatest, hlive⟩ := Window.mk.inj hwindow
  rw [hlive, hlatest, hmax]
  exact Window.mem_trimEvents (hc.tiles.concat rfl (Nat.le_add_right _ _))

/-- So it is in the history of three bytes after one of them. -/
theorem smallHistory_thrifty : (Recorded.run ⟨⟨3, 0, 0, 0, [], 0⟩, []⟩ [.append 0 [1]]).Thrifty :=
  run_thrifty (.new (rfl : History.new 3 = _)) _

end Recorded

end Paperboat.History

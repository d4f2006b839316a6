import Paperboat.History

/-!
# The window of retained output

What a history is for, without its representation: a window `[earliest, latest)` on the output stream,
cut into events. On a consistent history, one whose byte count and events agree with its bounds, every
operation is the operation on the window, which is how a history is compared with the stream and with
the stored log.
-/

namespace Paperboat.History

open List

/-- A range of the output stream and its events. -/
structure Window where
  earliest : ℕ
  latest : ℕ
  events : List Event
  deriving DecidableEq

namespace Window

/-- Drop the oldest events until at most `maxBytes` bytes are left: the new lower bound and the events. -/
def trimEvents (maxBytes latest : ℕ) : ℕ → List Event → ℕ × List Event
  | _, [] => (latest, [])
  | earliest, e :: l =>
    if maxBytes < latest - earliest then trimEvents maxBytes latest e.endSequence l
    else (earliest, e :: l)

/-- A window of at most `maxBytes` bytes. -/
def trim (w : Window) (maxBytes : ℕ) : Window :=
  ⟨(trimEvents maxBytes w.latest w.earliest w.events).1, w.latest,
    (trimEvents maxBytes w.latest w.earliest w.events).2⟩

/-- One more event. -/
def append (w : Window) (e : Event) : Window := ⟨w.earliest, e.endSequence, w.events ++ [e]⟩

/-- Trimming moves the lower bound forward and leaves a suffix of the events, which tiles what is
left. -/
lemma trimEvents_spec (maxBytes : ℕ) {earliest latest : ℕ} {l : List Event}
    (h : EventTiles earliest l latest) :
    EventTiles (trimEvents maxBytes latest earliest l).1 (trimEvents maxBytes latest earliest l).2 latest ∧
      (trimEvents maxBytes latest earliest l).2 <:+ l ∧
      latest - (trimEvents maxBytes latest earliest l).1 ≤ maxBytes ∧
      earliest ≤ (trimEvents maxBytes latest earliest l).1 := by
  induction l generalizing earliest with
  | nil => exact ⟨rfl, suffix_rfl, by simp [trimEvents], h.le⟩
  | cons e l ih =>
    obtain ⟨hlo, hle, htl⟩ := h
    rw [trimEvents]
    split
    · obtain ⟨htiles, hsuffix, hfits, hbound⟩ := ih htl
      exact ⟨htiles, hsuffix.trans (suffix_cons e l), hfits, by omega⟩
    · next hfits => exact ⟨⟨hlo, hle, htl⟩, suffix_rfl, not_lt.mp hfits, le_rfl⟩

/-- It keeps the events from whose start on the bytes fit. -/
lemma mem_trimEvents {maxBytes earliest latest : ℕ} {l : List Event} {e : Event}
    (h : EventTiles earliest l latest) : e ∈ (trimEvents maxBytes latest earliest l).2 ↔
      e ∈ l ∧ latest - e.startSequence ≤ maxBytes := by
  induction l generalizing earliest with
  | nil => simp [trimEvents]
  | cons x l ih =>
    rw [trimEvents]
    split
    · obtain ⟨hlo, -, htl⟩ := h
      rw [ih htl, mem_cons]
      refine and_congr_left fun hfits => (or_iff_right ?_).symm
      rintro rfl
      omega
    · refine (and_iff_left_of_imp fun he => ?_).symm
      have := (h.bounds he).1
      omega

end Window

/-- The window of a history. -/
def window (h : History) : Window := ⟨h.earliest, h.latest, h.live⟩

/-- The byte count and the events of a history agree with its bounds. -/
structure Consistent (h : History) : Prop where
  head_le : h.head ≤ h.events.length
  tiles : EventTiles h.earliest h.live h.latest
  length_eq : ∀ e ∈ h.live, e.data.length = e.endSequence - e.startSequence
  bytes_eq : h.bytes = h.latest - h.earliest
  latest_le : h.latest ≤ maxUint64

variable {h h' : History}

lemma dropHead_consistent (hc : h.Consistent) (hlt : h.head < h.events.length) :
    h.dropHead.Consistent := by
  have hlive := live_eq_cons hlt
  have hmem : h.events.getD h.head Event.zero ∈ h.live := by
    rw [hlive]
    exact mem_cons_self
  have htiles := hc.tiles
  rw [hlive] at htiles
  obtain ⟨hlo, hle, htl⟩ := htiles
  have hlen := hc.length_eq _ hmem
  have hend := htl.le
  refine ⟨?_, htl, fun e he => hc.length_eq e ?_, ?_, hc.latest_le⟩
  · simpa [dropHead] using hlt
  · rw [hlive]
    exact mem_cons_of_mem _ he
  · change sub64 h.bytes _ = h.latest - (h.events.getD h.head Event.zero).endSequence
    rw [hc.bytes_eq, hlen, sub64_of_le (by omega)]
    omega

lemma compactLoop_window (fuel : ℕ) (hc : h.Consistent) (hfuel : fuel = h.events.length - h.head) :
    (compactLoop fuel h).Consistent ∧ (compactLoop fuel h).maxBytes = h.maxBytes ∧
      (compactLoop fuel h).window = h.window.trim h.maxBytes := by
  induction fuel generalizing h with
  | zero =>
    -- nothing is live, so that the range is empty
    have hnil : h.live = [] := drop_eq_nil_of_le (by omega)
    have hrange : h.earliest = h.latest := by
      have htiles := hc.tiles
      rw [hnil] at htiles
      exact htiles
    refine ⟨hc, rfl, ?_⟩
    simp only [compactLoop, window, Window.trim, hnil, Window.trimEvents, hrange]
  | succ fuel ih =>
    have hlt : h.head < h.events.length := by omega
    have hlive := live_eq_cons hlt
    unfold compactLoop
    split
    · next hover =>
      obtain ⟨hc', hmax, hwindow⟩ := ih (dropHead_consistent hc hlt) (by simp [dropHead]; omega)
      refine ⟨hc', hmax, hwindow.trans ?_⟩
      have hlong : h.maxBytes < h.latest - h.earliest := hc.bytes_eq ▸ hover.1
      have htrim : Window.trimEvents h.maxBytes h.latest h.earliest h.live =
          Window.trimEvents h.maxBytes h.latest (h.events.getD h.head Event.zero).endSequence
            h.dropHead.live := by
        rw [hlive, Window.trimEvents, if_pos hlong]
      simp only [window, Window.trim, htrim]
      rfl
    · next hfits =>
      have hshort : ¬ h.maxBytes < h.latest - h.earliest := by
        rw [← hc.bytes_eq]
        exact fun hover => hfits ⟨hover, hlt⟩
      refine ⟨hc, rfl, ?_⟩
      simp only [window, Window.trim]
      rw [hlive, Window.trimEvents, if_neg hshort]

lemma compactLocked_window (hc : h.Consistent) :
    h.compactLocked.Consistent ∧ h.compactLocked.maxBytes = h.maxBytes ∧
      h.compactLocked.window = h.window.trim h.maxBytes := by
  obtain ⟨hc', hmax, hwindow⟩ := compactLoop_window _ hc rfl
  unfold compactLocked
  generalize compactLoop (h.events.length - h.head) h = k at hc' hmax hwindow
  simp only
  split
  · next hend =>
    have hnil : k.live = [] := by
      rw [live, hend]
      exact drop_length
    have hrange : k.earliest = k.latest := by
      have htiles := hc'.tiles
      rw [hnil] at htiles
      exact htiles
    refine ⟨⟨le_rfl, rfl, by simp [live], by rw [hc'.bytes_eq, hrange], hc'.latest_le⟩, hmax, ?_⟩
    rw [← hwindow, window, window, hnil, hrange]
    rfl
  · exact ⟨hc', hmax, hwindow⟩

lemma compactLocked_bytes_le (hc : h.Consistent) : h.compactLocked.bytes ≤ h.maxBytes := by
  obtain ⟨hc', -, hwindow⟩ := compactLocked_window hc
  obtain ⟨hearliest, hlatest, -⟩ := Window.mk.inj hwindow
  rw [hc'.bytes_eq, hearliest, hlatest]
  exact (Window.trimEvents_spec h.maxBytes hc.tiles).2.2.1

/-- One more event, before the history is compacted. -/
def extend (h : History) (event : Event) : History :=
  { h with
    latest := event.endSequence
    bytes := h.bytes + event.data.length
    events := h.events ++ [event] }

lemma live_extend (hc : h.Consistent) (event : Event) : (h.extend event).live = h.live ++ [event] :=
  drop_append_of_le_length hc.head_le

variable {event : Event}

/-- A history that is extended at its end by an event of the right length is consistent. -/
lemma extend_consistent (hc : h.Consistent) (hstart : event.startSequence = h.latest)
    (hend : event.endSequence = h.latest + event.data.length) (hmax : event.endSequence ≤ maxUint64) :
    (h.extend event).Consistent := by
  have hle : event.startSequence ≤ event.endSequence := by omega
  refine ⟨?_, ?_, ?_, ?_, hmax⟩
  · simpa [extend] using le_trans hc.head_le (Nat.le_succ _)
  · rw [live_extend hc]
    exact hc.tiles.concat hstart hle
  · rw [live_extend hc]
    refine forall_mem_append.mpr ⟨hc.length_eq, forall_mem_singleton.mpr ?_⟩
    omega
  · have hbytes := hc.bytes_eq
    have hbounds := hc.tiles.le
    simp only [extend]
    omega

lemma appendOwned_window (hc : h.Consistent) {channel : UInt8} {data : List UInt8} (hne : data ≠ [])
    (ha : h.appendOwned channel data = .ok (h', event)) :
    event = ⟨channel, h.latest, h.latest + data.length, data⟩ ∧ h'.Consistent ∧
      h'.maxBytes = h.maxBytes ∧ h'.bytes ≤ h'.maxBytes ∧
      h'.window = (h.window.append event).trim h.maxBytes := by
  obtain ⟨hfull, rfl, rfl⟩ := appendOwned_cases hne ha
  rw [sub64_of_le hc.latest_le] at hfull
  have hle := hc.latest_le
  set event : Event := ⟨channel, h.latest, h.latest + data.length, data⟩ with hevent
  have hlonger : (h.extend event).Consistent :=
    extend_consistent hc rfl rfl (by simp only [hevent]; omega)
  have happend : (h.extend event).window = h.window.append event := by
    rw [window, live_extend hc]
    rfl
  obtain ⟨hc', hmax, hwindow⟩ := compactLocked_window hlonger
  have hbytes := compactLocked_bytes_le hlonger
  rw [← hmax] at hbytes
  rw [happend] at hwindow
  exact ⟨rfl, hc', hmax, hbytes, hwindow⟩

variable {maxBytes : ℕ}

lemma setLimit_window (hc : h.Consistent) (hs : h.setLimit maxBytes = .ok h') :
    h'.Consistent ∧ h'.maxBytes = maxBytes ∧ h'.bytes ≤ h'.maxBytes ∧
      h'.window = h.window.trim maxBytes := by
  unfold setLimit at hs
  split at hs
  · cases hs
  cases hs
  have hc₀ : ({ h with maxBytes := maxBytes } : History).Consistent :=
    ⟨hc.head_le, hc.tiles, hc.length_eq, hc.bytes_eq, hc.latest_le⟩
  obtain ⟨hc', hmax, hwindow⟩ := compactLocked_window hc₀
  have hbytes := compactLocked_bytes_le hc₀
  rw [← hmax] at hbytes
  exact ⟨hc', hmax, hbytes, hwindow⟩

lemma clear_window (hc : h.Consistent) :
    h.clear.1.Consistent ∧ h.clear.1.window = ⟨h.latest, h.latest, []⟩ :=
  ⟨⟨le_rfl, rfl, by simp [clear, live], (Nat.sub_self _).symm, hc.latest_le⟩, rfl⟩

lemma new_consistent (hn : new maxBytes = .ok h) :
    h = ⟨maxBytes, 0, 0, 0, [], 0⟩ ∧ 0 < maxBytes ∧ h.Consistent := by
  unfold new at hn
  split at hn
  · cases hn
  · next hpos =>
    cases hn
    exact ⟨rfl, Nat.pos_of_ne_zero hpos, le_rfl, rfl, by simp [live], rfl, Nat.zero_le _⟩

variable {earliest latest : ℕ} {events : List Event}

lemma restore_forward (hr : restore maxBytes earliest latest events = .ok h) (hlatest : latest ≤ maxUint64)
    (hforward : ∀ e ∈ events, e.startSequence ≤ e.endSequence) : h.Consistent := by
  obtain ⟨-, -, hend, -, hloop⟩ := restore_cases hr
  obtain ⟨hhead, hlive⟩ := restore_live hr
  obtain ⟨-, hbytes, -, hearliest, -⟩ := restoreLoop_frame hloop
  obtain ⟨htiles, hlen⟩ := restoreLoop_tiles hloop hforward
  have htiles' : EventTiles h.earliest events h.latest := hearliest ▸ htiles
  refine ⟨hhead ▸ Nat.zero_le _, hlive ▸ htiles', hlive ▸ hlen, ?_, hend ▸ hlatest⟩
  rw [hbytes, ← htiles'.sum_length, Nat.zero_add]
  exact congrArg List.sum (map_congr_left hlen)

/-- A restored history is consistent, whatever the restored events were: their data are at most
`maxBytes` bytes, too few for a sequence number to wrap around. -/
lemma restore_consistent (hr : restore maxBytes earliest latest events = .ok h)
    (hmax : maxBytes ≤ maxUint64) (hlatest : latest ≤ maxUint64)
    (hword : ∀ e ∈ events, e.endSequence ≤ maxUint64) : h.Consistent := by
  obtain ⟨-, hle, hend, hfits, hloop⟩ := restore_cases hr
  obtain ⟨-, hbytes, -, -, -⟩ := restoreLoop_frame hloop
  refine restore_forward hr hlatest ?_
  by_contra hback
  push Not at hback
  obtain ⟨-, hwraps⟩ := restoreLoop_wraps hloop hword (hle.trans hlatest)
  have hfull := hwraps hback
  have hlt := maxUint64_lt
  simp only at hfull hbytes
  omega

/-! ### The stream -/

variable {stream data : List UInt8} {channel : UInt8}

lemma Valid.consistent (hv : h.Valid stream) : h.Consistent :=
  ⟨hv.head_le, hv.tiles, fun e he => (hv.ok e he).length, hv.bytes_eq, hv.latest_le⟩

lemma Consistent.valid (hc : h.Consistent) (hok : ∀ e ∈ h.live, EventOK stream e)
    (hlatest : h.latest = stream.length) : h.Valid stream :=
  ⟨hc.head_le, hc.tiles, hok, hc.bytes_eq, hlatest, hc.latest_le⟩

lemma new_valid (hn : new maxBytes = .ok h) : h.Valid [] := by
  obtain ⟨rfl, -, hc⟩ := new_consistent hn
  exact hc.valid nofun rfl

/-- `Restore` of nonempty stored events gives a valid history: its stream is anything that ends with
the restored bytes. -/
lemma restore_valid (hr : restore maxBytes earliest latest events = .ok h) (hmax : latest ≤ maxUint64)
    (hne : ∀ e ∈ events, e.startSequence < e.endSequence) {dropped : List UInt8}
    (hdropped : dropped.length = earliest) :
    h.Valid (dropped ++ events.flatMap Event.data) := by
  have hc := restore_forward hr hmax fun e he => (hne e he).le
  obtain ⟨-, hlive⟩ := restore_live hr
  have htiles := hc.tiles
  rw [hlive, restore_earliest hr] at htiles
  obtain ⟨hlength, hholds⟩ := htiles.holds_flatMap (hlive ▸ hc.length_eq) hdropped
  refine hc.valid (fun e he => ?_) hlength.symm
  rw [hlive] at he
  exact ⟨hne e he, hholds e he⟩

/-- A nonempty append leaves a suffix of the events and the new one, and never an older byte. -/
lemma appendOwned_live (hc : h.Consistent) (hne : data ≠ [])
    (ha : h.appendOwned channel data = .ok (h', event)) :
    h'.live <:+ h.live ++ [event] ∧ h'.latest = event.endSequence ∧ h.earliest ≤ h'.earliest := by
  obtain ⟨rfl, -, -, -, hwindow⟩ := appendOwned_window hc hne ha
  obtain ⟨hearliest, hlatest, hlive⟩ := Window.mk.inj hwindow
  obtain ⟨-, hsuffix, -, hle⟩ := Window.trimEvents_spec h.maxBytes
    (hc.tiles.concat (x := ⟨channel, h.latest, h.latest + data.length, data⟩) rfl (Nat.le_add_right _ _))
  exact ⟨hlive ▸ hsuffix, hlatest, hearliest ▸ hle⟩

/-- A nonempty append extends the stream by its data and returns the event that holds it. -/
lemma appendOwned_valid (hv : h.Valid stream) (hne : data ≠ [])
    (ha : h.appendOwned channel data = .ok (h', event)) :
    h'.Valid (stream ++ data) ∧ event.startSequence = h.latest ∧ event.endSequence = h'.latest ∧
      event.channel = channel ∧ EventOK (stream ++ data) event ∧
      ∀ e ∈ h'.live, e ∈ h.live ∨ e = event := by
  obtain ⟨hsuffix, hlatest, -⟩ := appendOwned_live hv.consistent hne ha
  obtain ⟨rfl, hc, -⟩ := appendOwned_window hv.consistent hne ha
  have hok : EventOK (stream ++ data) ⟨channel, h.latest, h.latest + data.length, data⟩ := by
    refine ⟨by simpa using length_pos_iff.mpr hne, ?_, ?_⟩
    · simp [hv.latest_eq]
    · simp only [hv.latest_eq]
      exact (extract_append_right stream data).symm
  have hlive : ∀ e ∈ h'.live, e ∈ h.live ∨ e = ⟨channel, h.latest, h.latest + data.length, data⟩ := by
    intro e he
    exact (mem_append.mp (hsuffix.subset he)).imp_right mem_singleton.mp
  refine ⟨hc.valid (fun e he => ?_) ?_, rfl, hlatest.symm, rfl, hok, hlive⟩
  · rcases hlive e he with hold | rfl
    · exact (hv.ok e hold).append data
    · exact hok
  · rw [hlatest, hv.latest_eq, length_append]

end Paperboat.History

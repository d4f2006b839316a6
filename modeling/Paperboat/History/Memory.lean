import Paperboat.History.Window
import Paperboat.Lib.Transition

/-!
# The memory of a history

`compactLocked` clears the slots of the events that it drops, but the slice is cut back only when no
event is left. A history that is full drops as many events as it takes up, so that its slice grows
with every append (`slots_unbounded`).
-/

namespace Paperboat.History

/-- One append; the history stays as it is when the sequence numbers are used up. -/
def appendStep (h : History) (chunk : UInt8 × List UInt8) : Option History :=
  match h.appendOwned chunk.1 chunk.2 with
  | .ok (h', _) => some h'
  | .error _ => some h

/-- The chunk fits into what is left of the limit, or is longer than the limit, so that nothing
remains. -/
def DropsAllOrNone (h : History) (chunk : UInt8 × List UInt8) : Prop :=
  h.bytes + chunk.2.length ≤ h.maxBytes ∨ h.maxBytes < chunk.2.length

instance (h : History) (chunk : UInt8 × List UInt8) : Decidable (DropsAllOrNone h chunk) :=
  inferInstanceAs (Decidable (_ ∨ _))

/-- The slice has no dropped slot, and no more slots than bytes. -/
structure Tight (M : ℕ) (h : History) : Prop where
  consistent : h.Consistent
  maxBytes : h.maxBytes = M
  head : h.head = 0
  slots : h.events.length ≤ h.bytes
  bytes : h.bytes ≤ M

variable {h : History} {M : ℕ}

lemma compactLoop_of_le (h : History) (hle : h.bytes ≤ h.maxBytes) (fuel : ℕ) : compactLoop fuel h = h := by
  cases fuel with
  | zero => rfl
  | succ => exact if_neg fun hover => absurd hover.1 (not_lt.mpr hle)

/-- A compacted history without an event has an empty slice. -/
lemma events_of_live_eq_nil (hc : h.Consistent) (hlive : h.compactLocked.live = []) :
    h.compactLocked.events = [] ∧ h.compactLocked.head = 0 := by
  obtain ⟨hc', -, -⟩ := compactLoop_window _ hc rfl
  unfold compactLocked at hlive ⊢
  simp only at hlive ⊢
  split at hlive
  · next hend => simp [hend]
  · next hend => exact absurd (le_antisymm hc'.head_le (List.drop_eq_nil_iff.mp hlive)) hend

lemma Tight.append (ht : Tight M h) (event : Event) (hstart : event.startSequence = h.latest)
    (hend : event.endSequence = h.latest + event.data.length) (hmax : event.endSequence ≤ maxUint64)
    (hne : event.data ≠ []) (hfits : h.bytes + event.data.length ≤ M ∨ M < event.data.length) :
    Tight M (h.extend event).compactLocked := by
  have hc := extend_consistent ht.consistent hstart hend hmax
  obtain ⟨hc', hmax', hwindow⟩ := compactLocked_window hc
  have hbytes : (h.extend event).compactLocked.bytes ≤ M := ht.maxBytes ▸ compactLocked_bytes_le hc
  rcases hfits with hfits | hlong
  · have hsame : (h.extend event).compactLocked = h.extend event := by
      unfold compactLocked
      rw [compactLoop_of_le _ (by simpa [extend, ht.maxBytes] using hfits)]
      exact if_neg (by simp [extend, ht.head])
    rw [hsame] at hc' ⊢
    have hpos := List.length_pos_iff.mpr hne
    have hslots := ht.slots
    refine ⟨hc', ht.maxBytes, ht.head, ?_, hfits⟩
    simp only [extend, List.length_append, List.length_singleton]
    omega
  · -- the chunk is in every window that is not empty
    obtain ⟨hearliest, hlatest, hevents⟩ := Window.mk.inj hwindow
    have hlive : (h.extend event).compactLocked.live = [] := by
      obtain ⟨-, hsuffix, -⟩ := Window.trimEvents_spec h.maxBytes hc.tiles
      rw [← ht.maxBytes] at hlong hbytes
      have hsub : (h.extend event).compactLocked.live <:+ h.live ++ [event] := by
        rw [hevents, ← live_extend ht.consistent]
        exact hsuffix
      rcases List.suffix_concat_iff.mp hsub with hnil | ⟨l, hl, -⟩
      · exact hnil
      have hmem : event ∈ (h.extend event).compactLocked.live := by simp [hl]
      have hbounds := hc'.tiles.bounds hmem
      have hcount := hc'.bytes_eq
      omega
    obtain ⟨hnil, hhead⟩ := events_of_live_eq_nil hc hlive
    exact ⟨hc', hmax'.trans ht.maxBytes, hhead, by simp [hnil], hbytes⟩

lemma keeps_tight : KeepsUnder appendStep DropsAllOrNone (Tight M) := by
  rintro h ⟨channel, data⟩ h' ht hfits hstep
  unfold appendStep at hstep
  split at hstep
  · next h₁ event happend =>
    cases hstep
    by_cases hne : data = []
    · subst hne
      cases happend
      exact ht
    · obtain ⟨hfull, rfl, rfl⟩ := appendOwned_cases hne happend
      rw [sub64_of_le ht.consistent.latest_le] at hfull
      have hle := ht.consistent.latest_le
      rw [DropsAllOrNone, ht.maxBytes] at hfits
      exact ht.append ⟨channel, h.latest, h.latest + data.length, data⟩ rfl rfl
        (by simp only; omega) hne hfits
  · cases hstep
    exact ht

/-- In every run in which a chunk fits into what is left of the limit, or is longer than the limit, the
slice of a new history is never longer than its limit. -/
theorem slots_bounded {h' : History} {chunks : List (UInt8 × List UInt8)} (hnew : new M = .ok h)
    (hmeets : Meets appendStep DropsAllOrNone h chunks) (hrun : run appendStep h chunks = some h') :
    h'.events.length ≤ M := by
  obtain ⟨rfl, -, hc⟩ := new_consistent hnew
  have ht := keeps_tight.run ⟨hc, rfl, rfl, le_rfl, Nat.zero_le M⟩ hmeets hrun
  exact ht.slots.trans ht.bytes

/-- Chunks that fit, one that is longer than the limit, and one more. -/
theorem slots_bounded_of_two : ∃ h', run appendStep ⟨2, 0, 0, 0, [], 0⟩
    [(1, [1]), (1, [2]), (1, [3, 4, 5]), (1, [6])] = some h' ∧ h'.events.length ≤ 2 := by
  refine ⟨⟨2, 1, 5, 6, [⟨1, 5, 6, [6]⟩], 0⟩, by decide +kernel, ?_⟩
  have hmeets : Meets appendStep DropsAllOrNone ⟨2, 0, 0, 0, [], 0⟩
    [(1, [1]), (1, [2]), (1, [3, 4, 5]), (1, [6])] := by decide +kernel
  exact slots_bounded rfl hmeets (by decide +kernel)

/-- A full history of one byte, after some events were dropped. -/
def full (n : ℕ) : History :=
  ⟨1, 1, n, n + 1, List.replicate n Event.zero ++ [⟨1, n, n + 1, [0]⟩], n⟩

/-- A history of one byte has as many slots as bytes were appended to it. -/
theorem slots_unbounded : ∃ h, new 1 = .ok h ∧ ∀ n < 2 ^ 63, ∃ h',
    run appendStep h (List.replicate (n + 1) (1, [0])) = some h' ∧ h'.events.length = n + 1 := by
  have hrun : ∀ k n, n + k ≤ 2 ^ 63 →
      run appendStep (full n) (List.replicate k (1, [0])) = some (full (n + k)) := by
    intro k
    induction k with
    | zero => exact fun n _ => rfl
    | succ k ih =>
      intro n hn
      refine run_cons_eq_some.mpr ⟨full (n + 1), ?_, ?_⟩
      · have hfree : ¬ sub64 maxUint64 (n + 1) < 1 := by
          have hmax : n + 2 ≤ maxUint64 := by unfold maxUint64; omega
          rw [sub64_of_le (by omega)]
          omega
        simp [appendStep, appendOwned, full, hfree, compactLocked, compactLoop, dropHead, List.replicate_succ']
      rw [ih (n + 1) (by omega), Nat.add_right_comm, Nat.add_assoc]
  refine ⟨_, rfl, fun n hn => ⟨full n, run_cons_eq_some.mpr ⟨full 0, by decide +kernel, ?_⟩, by simp [full]⟩⟩
  simpa using hrun n 0 (by omega)

end Paperboat.History

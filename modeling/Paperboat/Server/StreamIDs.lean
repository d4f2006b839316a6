import Paperboat.Lib.FinMap
import Paperboat.Lib.Transition

/-!
# The IDs of terminal streams

`bind` in `internal/server/server.go` searches the IDs of a connection in a circle, from a 32-bit counter
on. Under the mutex a binding is entered once and removed once, by the request that made it, so that the
map of the connection is the inverse of the map from the bindings to their IDs.
-/

namespace Paperboat.Server.StreamIDs

open FinMap

/-- `terminalConnectionState`; a binding is a number. -/
structure TerminalConnectionState where
  nextID : UInt32
  streams : FinMap UInt32 ℕ

/-- The ID after another one, which is never 0. -/
def next (id : UInt32) : UInt32 := if id + 1 = 0 then id + 1 + 1 else id + 1

/-- The loop of `bind`. -/
def bindLoop (binding : ℕ) : ℕ → TerminalConnectionState → TerminalConnectionState × Option UInt32
  | 0, s => (s, none)
  | attempts + 1, s =>
    if s.streams.lookup (next s.nextID) ≠ none then
      bindLoop binding attempts { s with nextID := next s.nextID }
    else (⟨next s.nextID, s.streams.insert (next s.nextID) binding⟩, some (next s.nextID))

/-- The part of `bind` under the mutex. -/
def TerminalConnectionState.bind (s : TerminalConnectionState) (binding : ℕ) :
    TerminalConnectionState × Option UInt32 :=
  bindLoop binding (2 ^ 32 - 1) s

def TerminalConnectionState.remove (s : TerminalConnectionState) (streamID : UInt32) :
    TerminalConnectionState :=
  { s with streams := s.streams.erase streamID }

/-- The connection, and the ID that each live binding was given. -/
structure State where
  connection : TerminalConnectionState
  live : FinMap ℕ UInt32

/-- A request binds a stream, or it removes its binding. -/
inductive Action where
  | bind (n : ℕ)
  | remove (n : ℕ)

def State.initial (nextID : UInt32) : State := ⟨⟨nextID, ∅⟩, ∅⟩

def step (s : State) : Action → Option State
  | .bind n =>
    if s.live.lookup n ≠ none then none
    else match s.connection.bind n with
      | (connection, some id) => some ⟨connection, s.live.insert n id⟩
      | (connection, none) => some { s with connection }
  | .remove n => (s.live.lookup n).map fun id => ⟨s.connection.remove id, s.live.erase n⟩

/-! ### The search -/

section
variable {c c' : TerminalConnectionState} {n attempts : ℕ} {id : UInt32} {r : Option UInt32}

lemma toNat_next (id : UInt32) : (next id).toNat = if id.toNat = 2 ^ 32 - 1 then 1 else id.toNat + 1 := by
  have hlt := id.toNat_lt
  have hadd : (id + 1).toNat = (id.toNat + 1) % 2 ^ 32 := UInt32.toNat_add id 1
  unfold next
  split
  · next hzero =>
    rw [hzero] at hadd ⊢
    have hwrap : id.toNat = 2 ^ 32 - 1 := by
      have hadd' : 0 = (id.toNat + 1) % 2 ^ 32 := hadd
      omega
    rw [if_pos hwrap]
    rfl
  · next hne =>
    have hne' : (id + 1).toNat ≠ 0 := fun h => hne (UInt32.toNat_inj.mp h)
    rw [if_neg (by omega)]
    omega

lemma next_ne_zero (id : UInt32) : next id ≠ 0 := by
  intro h
  have hnat := toNat_next id
  rw [h] at hnat
  have hnat' : 0 = if id.toNat = 2 ^ 32 - 1 then 1 else id.toNat + 1 := hnat
  split at hnat' <;> omega

/-- As long as the search has not gone round, it has counted on from where it began. -/
lemma toNat_iterate_next (id : UInt32) {k : ℕ} (hk : k ≤ 2 ^ 32 - 1) : (next^[k] id).toNat =
    if id.toNat + k ≤ 2 ^ 32 - 1 then id.toNat + k else id.toNat + k - (2 ^ 32 - 1) := by
  have hlt := id.toNat_lt
  induction k with
  | zero => simp; omega
  | succ k ih =>
    rw [Function.iterate_succ_apply', toNat_next, ih (by omega)]
    split_ifs <;> omega

/-- The search comes to every ID. -/
lemma exists_iterate_next (start : UInt32) (hid : id ≠ 0) : ∃ k < 2 ^ 32 - 1, next^[k + 1] start = id := by
  have hstart := start.toNat_lt
  have hlt := id.toNat_lt
  have hpos : id.toNat ≠ 0 := fun h => hid (UInt32.toNat_inj.mp h)
  obtain ⟨k, hk, hend⟩ : ∃ k < 2 ^ 32 - 1, start.toNat + (k + 1) = id.toNat ∨
      start.toNat + (k + 1) = id.toNat + (2 ^ 32 - 1) := by
    rcases lt_or_ge start.toNat id.toNat with hless | hge
    · exact ⟨id.toNat - start.toNat - 1, by omega, .inl (by omega)⟩
    · exact ⟨id.toNat + (2 ^ 32 - 1) - start.toNat - 1, by omega, .inr (by omega)⟩
  refine ⟨k, hk, UInt32.toNat_inj.mp ?_⟩
  rw [toNat_iterate_next start (by omega)]
  split_ifs <;> omega

/-- The loop enters the binding under a free ID, or all IDs that it has tried are taken. -/
lemma bindLoop_spec (h : bindLoop n attempts c = (c', r)) : match r with
    | some id => id ≠ 0 ∧ c.streams.lookup id = none ∧ c'.streams = c.streams.insert id n
    | none => c'.streams = c.streams ∧ ∀ k < attempts, c.streams.lookup (next^[k + 1] c.nextID) ≠ none := by
  induction attempts generalizing c with
  | zero =>
    cases h
    exact ⟨rfl, nofun⟩
  | succ attempts ih =>
    rw [bindLoop] at h
    split at h
    · next htaken =>
      have hrest := ih h
      cases r with
      | some id => exact hrest
      | none =>
        refine ⟨hrest.1, fun k hk => ?_⟩
        cases k with
        | zero => exact htaken
        | succ k => exact hrest.2 k (by omega)
    · next hfree =>
      cases h
      exact ⟨next_ne_zero _, not_not.mp hfree, rfl⟩

end

/-! ### Runs -/

/-- The map of the connection and the map of the live bindings are inverse to each other. -/
structure Consistent (s : State) : Prop where
  inverse : ∀ n id, s.live.lookup n = some id ↔ s.connection.streams.lookup id = some n
  ne_zero : ∀ n id, s.live.lookup n = some id → id ≠ 0

lemma keeps_consistent : Keeps step Consistent := by
  intro s a s' h hstep
  cases a with
  | bind n =>
    simp only [step] at hstep
    split at hstep
    · cases hstep
    rename_i hnew
    split at hstep <;> rename_i hbind <;> cases hstep
    · obtain ⟨hzero, hfree, hstreams⟩ := bindLoop_spec hbind
      refine ⟨fun n' id' => ?_, forall_insert hzero fun n' id' hid _ => h.ne_zero n' id' hid⟩
      rw [hstreams, lookup_insert_eq, lookup_insert_eq]
      split_ifs with hn hid hid
      · simp [hn, hid]
      · rw [← h.inverse, hn, not_not.mp hnew]
        simp [Ne.symm hid]
      · rw [h.inverse, hid, hfree]
        simp [Ne.symm hn]
      · exact h.inverse n' id'
    · exact ⟨(bindLoop_spec hbind).1 ▸ h.inverse, h.ne_zero⟩
  | remove n =>
    obtain ⟨id, hid, rfl⟩ := Option.map_eq_some_iff.mp hstep
    refine ⟨fun n' id' => ?_, forall_erase fun n' id' hid _ => h.ne_zero n' id' hid⟩
    simp only [TerminalConnectionState.remove, lookup_erase_eq]
    split_ifs with hn hid' hid'
    · rfl
    · rw [← h.inverse, hn, hid]
      simp [Ne.symm hid']
    · rw [h.inverse, hid', (h.inverse n id).mp hid]
      simp [Ne.symm hn]
    · exact h.inverse n' id'

/-- In every state of every run, wherever the counter began: live bindings have
different IDs, none of them 0, an ID allocated now is not 0 and not in use, and an allocation fails only
where all IDs are in use. -/
theorem stream_ids_unique {start : UInt32} {actions : List Action} {s : State}
    (hrun : run step (.initial start) actions = some s) :
    (∀ n n' id, s.live.lookup n = some id → id ≠ 0 ∧ (s.live.lookup n' = some id → n' = n)) ∧
    ∀ n c r, s.connection.bind n = (c, r) → match r with
      | some id => id ≠ 0 ∧ ∀ n', s.live.lookup n' ≠ some id
      | none => ∀ id ≠ 0, ∃ n', s.live.lookup n' = some id := by
  have h : Consistent s := keeps_consistent.run ⟨by simp [State.initial], by simp [State.initial]⟩ hrun
  refine ⟨fun n n' id hid => ⟨h.ne_zero n id hid, fun hid' => ?_⟩, fun n c r hbind => ?_⟩
  · exact Option.some.inj (((h.inverse n' id).mp hid').symm.trans ((h.inverse n id).mp hid))
  have hspec := bindLoop_spec hbind
  cases r with
  | some id =>
    refine ⟨hspec.1, fun n' hid => ?_⟩
    cases hspec.2.1.symm.trans ((h.inverse n' id).mp hid)
  | none =>
    intro id hid
    obtain ⟨k, hk, rfl⟩ := exists_iterate_next s.connection.nextID hid
    obtain ⟨n', hn'⟩ := Option.ne_none_iff_exists'.mp (hspec.2 k hk)
    exact ⟨n', (h.inverse n' _).mpr hn'⟩

/-- The counter wraps around past 0. -/
theorem stream_ids_unique_after_wrap : ∃ s,
    run step (.initial (2 ^ 32 - 2)) [.bind 1, .bind 2, .remove 1, .bind 3] = some s ∧
      s.live.entries = [⟨3, 2⟩, ⟨2, 1⟩] ∧
      ∀ n n' id, s.live.lookup n = some id → id ≠ 0 ∧ (s.live.lookup n' = some id → n' = n) :=
  exists_and_of_any (by decide +kernel) fun _ hs => (stream_ids_unique hs).1

end Paperboat.Server.StreamIDs

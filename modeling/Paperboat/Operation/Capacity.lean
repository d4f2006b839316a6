import Paperboat.Operation.AtMostOnce

/-!
# How many operations the journal can hold

`Execute` evicts the entries in `order`, and only an entry whose outcome was stored, or was in the store
when the journal was built, gets there. An entry whose outcome is uncertain stays for as long as the
helper runs, also when its row has long expired, so that `max` of them leave the journal full for good.
-/

namespace Paperboat.Operation

open List

/-- The operations with entries that are never evicted as things stand. -/
def Memory.unlisted (m : Memory) : List String := m.entries.keys.filter (· ∉ m.order)

/-- Eviction makes room, or evicts everything it can. -/
lemma evict_cases (max : ℕ) (order : List String) (entries : FinMap String ℕ) :
    (evict max order entries).2.size < max ∨ (evict max order entries).1 = [] := by
  induction order generalizing entries with
  | nil => exact .inr rfl
  | cons oldest order ih =>
    unfold evict
    split
    · exact .inl ‹_›
    · exact ih _

/-- If eviction cannot make room, it leaves the entries that are not in the order. -/
lemma size_evict_lt_iff (m : Memory) (max : ℕ) :
    (evict max m.order m.entries).2.size < max ↔ m.unlisted.length < max := by
  obtain ⟨gone, horder, hlookup⟩ := evict_spec max m.order m.entries
  have hcases := evict_cases max m.order m.entries
  generalize evict max m.order m.entries = left at horder hlookup hcases ⊢
  have hkeys : ∀ id, id ∈ left.2.keys ↔ id ∈ m.entries.keys ∧ id ∉ gone := by
    intro id
    rw [FinMap.mem_keys, FinMap.mem_keys, hlookup id]
    split <;> simp [*]
  have hsize : left.2.size = left.2.keys.length := (length_map _).symm
  rw [hsize]
  constructor <;> intro hlt
  · have hnodup : m.unlisted.Nodup := m.entries.keys_nodup.filter _
    refine (subperm_of_subset hnodup fun id hid => ?_).length_le.trans_lt hlt
    obtain ⟨hentry, hnot⟩ := mem_filter.mp hid
    refine (hkeys id).mpr ⟨hentry, fun hgone => of_decide_eq_true hnot ?_⟩
    rw [horder]
    exact mem_append_left _ hgone
  · refine hcases.elim (fun hlt => hsize ▸ hlt) fun hnil => ?_
    refine (subperm_of_subset left.2.keys_nodup fun id hid => ?_).length_le.trans_lt hlt
    rw [hnil, append_nil] at horder
    obtain ⟨hentry, hnot⟩ := (hkeys id).mp hid
    exact mem_filter.mpr ⟨hentry, decide_eq_true (horder ▸ hnot)⟩

namespace System

variable (cfg : JournalConfig) (s : System) (m : Memory) (n : ℕ) (id : String) (request : List UInt8)
  (now : ℕ)

/-- A call for an operation that the journal does not know. -/
structure Fresh : Prop where
  call : m.calls.lookup n = none
  size : 8 ≤ id.utf8ByteSize ∧ id.utf8ByteSize ≤ 128
  request : ∃ hash, cfg.canonicalHash request = some hash
  entry : m.entries.lookup id = none
  row : s.table.lookup id = none

/-- The steps of `Execute` up to the call of its run function, on a store that works. -/
def admission : List Action :=
  .execute n id request now ::
    (if m.lastCleanup + cleanupInterval ≤ now then [.cleanup n .ok] else []) ++ [.reserve n now .ok]

/-- `Execute` comes to call the run function. -/
def Admitted : Prop :=
  ∃ s', run (fun s a => step cfg s a) s (admission m n id request now) = some s' ∧
    s'.history.started = s.history.started ++ [⟨s.history.reservations.length, id, request⟩]

variable {cfg s m n id request now}

/-- Eviction passes over the operations whose outcomes are still to come or were not stored, and over
those whose rows were pending when the journal was built. -/
lemma mem_unlisted_iff (hs : SystemOK cfg s) (hmem : s.memory = some m) {id : String} :
    id ∈ m.unlisted ↔ ∃ ref e, m.entries.lookup id = some ref ∧ m.heap[ref]? = some e ∧
      e.stored = false := by
  have hm := hs.memory m hmem
  rw [Memory.unlisted, mem_filter, FinMap.mem_keys, decide_eq_true_eq]
  constructor
  · rintro ⟨hentry, hnot⟩
    obtain ⟨ref, href⟩ := Option.ne_none_iff_exists'.mp hentry
    obtain ⟨e, he, -⟩ := hm.entries id ref href
    exact ⟨ref, e, href, he, Bool.eq_false_iff.mpr fun hstored => hnot (hm.listed id ref e href he hstored)⟩
  · rintro ⟨ref, e, href, he, hstored⟩
    refine ⟨by simp [href], fun hmem => ?_⟩
    obtain ⟨ref', e', href', he', hstored'⟩ := hm.order id hmem
    cases href.symm.trans href'
    cases he.symm.trans he'
    cases hstored.symm.trans hstored'

/-- In every state, as soon as the mutex is free, `Execute` admits a fresh operation exactly if fewer than
`max` entries are not in the order of eviction. In every run these are the entries whose outcomes were
not stored. -/
theorem admitted_iff (hmem : s.memory = some m) (hmutex : m.mutex = none)
    (hfresh : Fresh cfg s m n id request) :
    (Admitted cfg s m n id request now ↔ m.unlisted.length < cfg.max) ∧
      ∀ legacy actions, run (fun s a => step cfg s a) (left cfg legacy) actions = some s → ∀ id,
        id ∈ m.unlisted ↔ ∃ ref e, m.entries.lookup id = some ref ∧ m.heap[ref]? = some e ∧
          e.stored = false := by
  refine ⟨?_, fun legacy actions hrun id =>
    mem_unlisted_iff ((keeps_systemOK cfg).run (left_ok cfg legacy) hrun) hmem⟩
  rw [← size_evict_lt_iff]
  obtain ⟨hash, hhash⟩ := hfresh.request
  have hsize : ¬(id.utf8ByteSize < 8 ∨ 128 < id.utf8ByteSize) := by
    have := hfresh.size
    omega
  have hexecute : step cfg s (.execute n id request now) = s.lookup cfg m n id request hash now := by
    simp [step, hmem, execute, hfresh.call, hsize, hhash, hmutex]
  rw [Admitted, admission, List.cons_append, run, hexecute, lookup, hfresh.entry]
  dsimp only
  split
  · next hfull =>
    -- the call has returned, and takes no further step
    refine iff_of_false ?_ (not_lt.mpr hfull)
    rintro ⟨s', hrun', -⟩
    split at hrun' <;> simp [run, step, fail, reply, hfresh.call] at hrun'
  · next hroom =>
    refine iff_of_true ?_ (not_le.mp hroom)
    split
    · have hrow : (s.table.deleteExpiredOperations now).lookup id = none := by
        rw [Table.deleteExpiredOperations, FinMap.lookup_restrict, hfresh.row, ite_self]
      simp [run, step, cleanup, reserve, begin, System.insert, expire, hrow]
    · simp [run, step, reserve, begin, System.insert, hfresh.row]

/-- Operations of a journal for two, with outcomes that are not stored. -/
def notStored (ids : List String) : List Action :=
  .start 0 3 :: ids.flatMap fun id =>
    [.execute 0 id [1] 0, .reserve 0 0 .ok, .finish 0 ⟨[], ""⟩ 0, .complete 0 .fails, .record 0]

/-- After one of them there is room for another operation. -/
theorem admitted_after_one : ∃ s, run (fun s a => step smallJournal s a) (left smallJournal [])
    (notStored ["operation-a"]) = some s ∧ ∃ m, s.memory = some m ∧ m.unlisted = ["operation-a"] ∧
      Admitted smallJournal s m 0 "operation-c" [1] (10 ^ 12) := by
  refine exists_of_any (P := fun s => (s.memory.any fun m =>
    m.mutex = none ∧ m.calls.lookup 0 = none ∧ m.entries.lookup "operation-c" = none ∧
      s.table.lookup "operation-c" = none ∧ m.unlisted = ["operation-a"]) = true)
    (by decide +kernel) fun s hrun hany => ?_
  obtain ⟨m, hmem, hm⟩ := (Option.any_eq_true _ _).mp hany
  obtain ⟨hmutex, hcall, hentry, hrow, hunlisted⟩ := of_decide_eq_true hm
  have hfresh : Fresh smallJournal s m 0 "operation-c" [1] := ⟨hcall, by decide, ⟨_, rfl⟩, hentry, hrow⟩
  refine ⟨m, hmem, hunlisted, (admitted_iff hmem hmutex hfresh).1.mpr ?_⟩
  rw [hunlisted]
  decide

/-- After two the journal refuses a third one, although no call is under way and every row has
expired. -/
theorem full_after_expiry : ∃ s, run (fun s a => step smallJournal s a) (left smallJournal [])
    (notStored ["operation-a", "operation-b"] ++ [.execute 0 "operation-c" [1] (10 ^ 12)]) = some s ∧
      (s.table.entries.all fun e => e.2.expiresAt ≤ 10 ^ 12) = true ∧
      (s.memory.any fun m => m.mutex = none ∧ m.calls.keys = []) = true ∧
      s.history.answers[2]? = some ⟨"operation-c", [1], none, .empty, some .full⟩ :=
  exists_of_any (by decide +kernel) fun _ _ h => h

end System

end Paperboat.Operation

import Paperboat.Operation.Journal

/-!
# Operations run at most once

The run function is only called for a row that was just inserted, and a row is only inserted where there
is none, so that a second reservation of an operation means that the first has passed its expiry.

What is left is that every answer belongs to the right run. `Stored` says it of the rows, `EntryOK` of
the entries, evicted ones included, since a duplicate may still wait for one, and `MemoryOK.linked`
that an entry and a row of one operation are about the same reservation.
-/

namespace Paperboat.Operation

open List FinMap Option AList Function Table

/-! ### The history -/

/-- An answer belongs to its reservation: without an error it is the outcome of its run, and a request
with another form gets an error and no outcome. -/
def AnswerOK (form : List UInt8 → Option String) (h : History) (a : Answer) : Prop :=
  ∀ k, a.reservation = some k → ∃ r, h.reservations[k]? = some r ∧ r.id = a.id ∧
    (a.error = none → (k, a.outcome) ∈ h.ended) ∧
    (form a.request ≠ form r.request → a.error ≠ none ∧ a.outcome = .empty)

/-- The history of runs. The journal tells requests apart by their digests. -/
structure Recorded (cfg : JournalConfig) (h : History) : Prop where
  once : h.started.Pairwise fun x y => x.reservation < y.reservation
  known : ∀ x ∈ h.started, ∃ r, h.reservations[x.reservation]? = some r ∧ r.id = x.id ∧
    r.request = x.request
  ended : ∀ x ∈ h.ended, ∃ y ∈ h.started, y.reservation = x.1
  unique : ∀ k o o', (k, o) ∈ h.ended → (k, o') ∈ h.ended → o = o'
  answers : ∀ a ∈ h.answers, AnswerOK cfg.canonicalHash h a
  hash : ∀ r ∈ h.reservations, cfg.canonicalHash r.request = some r.hash

/-- What the rows say about the history. -/
structure Stored (t : Table) (h : History) : Prop where
  row : ∀ id row, t.lookup id = some row →
    ∃ r, h.reservations[row.reservation]? = some r ∧ r.id = id ∧ r.hash = row.hash
  latest : ∀ id row, t.lookup id = some row →
    ∀ k r, h.reservations[k]? = some r → r.id = id → k ≤ row.reservation
  covered : ∀ k r, h.reservations[k]? = some r →
    (∃ row, t.lookup r.id = some row ∧ row.reservation = k) ∨ ∃ e ∈ h.expired, e.reservation = k
  aged : ∀ e ∈ h.expired, e.expiresAt ≤ e.now
  completed : ∀ id row o, t.lookup id = some row → row.completed = some o →
    (row.reservation, o) ∈ h.ended

/-- Nothing that matters to the rows, entries and answers is forgotten. -/
structure Extends (h h' : History) : Prop where
  reservations : ∀ (k : ℕ) r, h.reservations[k]? = some r → h'.reservations[k]? = some r
  started : ∀ x ∈ h.started, x ∈ h'.started
  ended : ∀ x ∈ h.ended, x ∈ h'.ended

section
variable {cfg : JournalConfig} {h h' : History} {t : Table} {a : Answer}
  {form : List UInt8 → Option String}

lemma Extends.refl (h : History) : Extends h h := ⟨fun _ _ hr => hr, fun _ hx => hx, fun _ hx => hx⟩

/-- Digests that do not collide tell the canonical forms apart. -/
lemma AnswerOK.canonical (ha : AnswerOK cfg.canonicalHash h a) (hcfg : Injective cfg.sha256) :
    AnswerOK cfg.canonical h a := by
  intro k hk
  obtain ⟨r, hr, hid, houtcome, hother⟩ := ha k hk
  exact ⟨r, hr, hid, houtcome, fun hne => hother fun heq => hne (map_injective hcfg heq)⟩

/-- Answers stay right when the history goes on. -/
lemma AnswerOK.mono (ha : AnswerOK form h a) (he : Extends h h') : AnswerOK form h' a := by
  intro k hk
  obtain ⟨r, hr, hid, houtcome, hother⟩ := ha k hk
  exact ⟨r, he.reservations k r hr, hid, fun herror => he.ended _ (houtcome herror), hother⟩

variable {id : String} {request : List UInt8}

/-- An answer with an error is about its own operation, and has no outcome. -/
lemma answerOK_error {k : Option ℕ} (error : JournalError)
    (hk : ∀ k', k = some k' → ∃ r, h.reservations[k']? = some r ∧ r.id = id) :
    AnswerOK form h ⟨id, request, k, .empty, some error⟩ := by
  intro k' hk'
  obtain ⟨r, hr, hid⟩ := hk k' hk'
  exact ⟨r, hr, hid, nofun, fun _ => ⟨nofun, rfl⟩⟩

/-- The history stays in order when an answer is given. -/
lemma Recorded.answer (hr : Recorded cfg h) (ha : AnswerOK cfg.canonicalHash h a) :
    Recorded cfg { h with answers := h.answers ++ [a] } :=
  { hr with answers := forall_mem_concat hr.answers ha }

/-- A run that was started ends once. -/
lemma Recorded.ends (hr : Recorded cfg h) {k : ℕ} {o : Outcome}
    (hstarted : ∃ y ∈ h.started, y.reservation = k) (hnot : ∀ o, (k, o) ∉ h.ended) :
    Recorded cfg { h with ended := h.ended ++ [(k, o)] } := by
  refine { hr with
    ended := forall_mem_concat hr.ended hstarted
    unique := fun k' o₁ o₂ h₁ h₂ => ?_
    answers := fun a ha => (hr.answers a ha).mono
      ⟨fun _ _ h => h, fun _ h => h, fun _ hx => mem_append.mpr (.inl hx)⟩ }
  -- no other outcome of this reservation was recorded
  simp only [mem_append, mem_singleton, Prod.mk.injEq] at h₁ h₂
  rcases h₁ with hold | ⟨rfl, rfl⟩ <;> rcases h₂ with hold' | ⟨hk, rfl⟩
  · exact hr.unique k' o₁ o₂ hold hold'
  · exact absurd (hk ▸ hold) (hnot o₁)
  · exact absurd hold' (hnot o₂)
  · rfl

/-- What the rows say stays true when the history grows. -/
lemma Stored.mono (ht : Stored t h) (hext : Extends h h') (hres : h'.reservations = h.reservations)
    (hexp : h'.expired = h.expired) : Stored t h' := by
  have hcompleted id row o hrow ho := hext.ended _ (ht.completed id row o hrow ho)
  obtain ⟨hrow, hlatest, hcovered, haged, -⟩ := ht
  rw [← hres] at hrow hlatest hcovered
  rw [← hexp] at hcovered haged
  exact ⟨hrow, hlatest, hcovered, haged, hcompleted⟩

/-- The reservation of a live row is one of its operation. -/
lemma Stored.live {s : System} (hs : Stored s.table s.history) :
    ∀ k, s.live id = some k → ∃ r, s.history.reservations[k]? = some r ∧ r.id = id := by
  intro k hk
  obtain ⟨row, hrow, rfl⟩ := map_eq_some_iff.mp hk
  obtain ⟨r, hr, hid, -⟩ := hs.row id row hrow
  exact ⟨r, hr, hid⟩

end

/-! ### The memory -/

/-- The outcome of the entry was stored, or was in the store when the journal was built. -/
def Entry.stored (e : Entry) : Bool := e.complete && e.err.isNone

/-- What an entry says about the history. -/
structure EntryOK (h : History) (e : Entry) : Prop where
  reserved : ∃ r, h.reservations[e.reservation]? = some r ∧ r.hash = e.hash
  ended : e.complete = true → e.err = none → (e.reservation, e.outcome) ∈ h.ended

/-- The entry of a call that runs its function. -/
structure Active (m : Memory) (n : ℕ) (c : Call) (ref : ℕ) (e : Entry) : Prop where
  heap : m.heap[ref]? = some e
  entries : m.entries.lookup c.id = some ref
  complete : e.complete = false
  hash : e.hash = c.hash
  owner : e.owner = n
  reservation : c.reservation = some e.reservation

/-- Where a call stands. -/
def PhaseOK (h : History) (m : Memory) (n : ℕ) (c : Call) : Phase → Prop
  | .waiting ref => ∃ e, m.heap[ref]? = some e ∧ e.hash = c.hash ∧
      ∀ k, c.reservation = some k →
        e.reservation = k ∧ ∃ r, h.reservations[k]? = some r ∧ r.id = c.id
  | .cleaning _ | .reserving => m.mutex = some n ∧ m.entries.lookup c.id = none
  | .running ref => ∃ e, Active m n c ref e ∧ (∃ x ∈ h.started, x.reservation = e.reservation) ∧
      ∀ o, (e.reservation, o) ∉ h.ended
  | .completing ref o _ | .recording ref o _ =>
    ∃ e, Active m n c ref e ∧ (e.reservation, o) ∈ h.ended

/-- The invariant of the memory. -/
structure MemoryOK (cfg : JournalConfig) (t : Table) (h : History) (m : Memory) : Prop where
  heap : ∀ (ref : ℕ) e, m.heap[ref]? = some e → EntryOK h e
  entries : ∀ id ref, m.entries.lookup id = some ref → ∃ e, m.heap[ref]? = some e ∧
    ∃ r, h.reservations[e.reservation]? = some r ∧ r.id = id
  /-- An entry and a row of one operation are about one reservation. -/
  linked : ∀ id ref e row, m.entries.lookup id = some ref → m.heap[ref]? = some e →
    t.lookup id = some row → row.reservation = e.reservation
  nodup : m.order.Nodup
  order : ∀ id ∈ m.order, ∃ ref e, m.entries.lookup id = some ref ∧ m.heap[ref]? = some e ∧
    e.stored = true
  listed : ∀ id ref e, m.entries.lookup id = some ref → m.heap[ref]? = some e → e.stored = true →
    id ∈ m.order
  hash : ∀ n c, m.calls.lookup n = some c → cfg.canonicalHash c.request = some c.hash
  calls : ∀ n c, m.calls.lookup n = some c → PhaseOK h m n c c.phase

/-- The invariant of the system. -/
structure SystemOK (cfg : JournalConfig) (s : System) : Prop where
  recorded : Recorded cfg s.history
  stored : Stored s.table s.history
  memory : ∀ m, s.memory = some m → MemoryOK cfg s.table s.history m

section
variable {cfg : JournalConfig} {t t' : Table} {h h' : History} {m m' : Memory} {n n' : ℕ} {c c' : Call}

/-- What an entry says stays true when the history grows. -/
lemma EntryOK.mono {e : Entry} (he : EntryOK h e) (hext : Extends h h') : EntryOK h' e := by
  obtain ⟨r, hr, hhash⟩ := he.reserved
  exact ⟨⟨r, hext.reservations _ _ hr, hhash⟩, fun hc herr => hext.ended _ (he.ended hc herr)⟩

/-- What the other calls need of a step. -/
structure Undisturbed (h h' : History) (m m' : Memory) (n : ℕ) (c : Call) : Prop where
  history : Extends h h'
  heap : ∀ (ref : ℕ) e, m.heap[ref]? = some e →
    ∃ e', m'.heap[ref]? = some e' ∧ e'.hash = e.hash ∧ e'.reservation = e.reservation
  active : ∀ ref e, Active m n c ref e → Active m' n c ref e
  locked : m.mutex = some n → m.entries.lookup c.id = none →
    m'.mutex = some n ∧ m'.entries.lookup c.id = none
  unended : ∀ ref e, Active m n c ref e → (∀ o, (e.reservation, o) ∉ h.ended) →
    ∀ o, (e.reservation, o) ∉ h'.ended

/-- A call stays where it stands under a step that does not disturb it. -/
lemma PhaseOK.mono {phase : Phase} (hp : PhaseOK h m n c phase) (hu : Undisturbed h h' m m' n c) :
    PhaseOK h' m' n c phase := by
  cases phase with
  | waiting ref =>
    obtain ⟨e, he, hhash, hres⟩ := hp
    obtain ⟨e', he', hhash', hres'⟩ := hu.heap ref e he
    refine ⟨e', he', hhash'.trans hhash, fun k hk => ?_⟩
    obtain ⟨hek, r, hr, hid⟩ := hres k hk
    exact ⟨hres'.trans hek, r, hu.history.reservations k r hr, hid⟩
  | cleaning | reserving => exact hu.locked hp.1 hp.2
  | running ref =>
    obtain ⟨e, hactive, ⟨x, hx, hxe⟩, hended⟩ := hp
    exact ⟨e, hu.active ref e hactive, ⟨x, hu.history.started x hx, hxe⟩,
      hu.unended ref e hactive hended⟩
  | completing ref | recording ref =>
    obtain ⟨e, hactive, hended⟩ := hp
    exact ⟨e, hu.active ref e hactive, hu.history.ended _ hended⟩

lemma Undisturbed.of_entries (hext : Extends h h') (hheap : m'.heap = m.heap)
    (hentries : m'.entries = m.entries) (hmutex : m.mutex = some n → m'.mutex = some n)
    (hended : ∀ ref e, Active m n c ref e → (∀ o, (e.reservation, o) ∉ h.ended) →
      ∀ o, (e.reservation, o) ∉ h'.ended) : Undisturbed h h' m m' n c where
  history := hext
  heap := fun _ e he => ⟨e, by rw [hheap, he], rfl, rfl⟩
  active := fun _ _ ha => { ha with heap := hheap ▸ ha.heap, entries := hentries ▸ ha.entries }
  locked := fun hlocked hnone => ⟨hmutex hlocked, hentries ▸ hnone⟩
  unended := hended

lemma Undisturbed.of_calls {calls : FinMap ℕ Call} {lastCleanup : ℕ} :
    Undisturbed h h m { m with calls, lastCleanup } n c :=
  .of_entries (.refl h) rfl rfl id fun _ _ _ ho => ho

/-- A call that moves on changes nothing for the others. -/
lemma MemoryOK.insert (hm : MemoryOK cfg t h m) (hhash : cfg.canonicalHash c.request = some c.hash)
    (hphase : PhaseOK h { m with calls := m.calls.insert n c } n c c.phase) :
    MemoryOK cfg t h { m with calls := m.calls.insert n c } := by
  exact { hm with
    hash := forall_insert hhash fun n' c' hc' _ => hm.hash n' c' hc'
    calls := forall_insert hphase fun n' c' hc' _ => (hm.calls n' c' hc').mono .of_calls }

/-- A call may leave. -/
lemma MemoryOK.erase (hm : MemoryOK cfg t h m) (n : ℕ) :
    MemoryOK cfg t h { m with calls := m.calls.erase n } :=
  { hm with
    hash := forall_erase fun n' c' hc' _ => hm.hash n' c' hc'
    calls := forall_erase fun n' c' hc' _ => (hm.calls n' c' hc').mono .of_calls }

/-- A call may leave with the mutex. -/
lemma MemoryOK.unlock (hm : MemoryOK cfg t h m) (hmutex : m.mutex = some n) :
    MemoryOK cfg t h { m with mutex := none, calls := m.calls.erase n } := by
  refine { hm.erase n with calls := forall_erase fun n' c' hc' hne => ?_ }
  refine (hm.calls n' c' hc').mono (.of_entries (.refl h) rfl rfl (fun hother => ?_) fun _ _ _ ho => ho)
  exact absurd (some.inj (hother.symm.trans hmutex)) hne

lemma MemoryOK.extend (hm : MemoryOK cfg t h m) (hext : Extends h h')
    (hended : ∀ x ∈ h'.ended, x ∈ h.ended) : MemoryOK cfg t h' m := by
  refine { hm with
    heap := fun ref e he => (hm.heap ref e he).mono hext
    entries := fun id ref href => ?_
    calls := fun n c hc => (hm.calls n c hc).mono (.of_entries hext rfl rfl id
      fun _ _ _ ho o hmem => ho o (hended _ hmem)) }
  obtain ⟨e, he, r, hr, hid⟩ := hm.entries id ref href
  exact ⟨e, he, r, hext.reservations _ _ hr, hid⟩

lemma MemoryOK.table (hm : MemoryOK cfg t h m)
    (ht : ∀ id ref row', m.entries.lookup id = some ref → t'.lookup id = some row' →
      ∃ row, t.lookup id = some row ∧ row.reservation = row'.reservation) :
    MemoryOK cfg t' h m := by
  refine { hm with linked := fun id ref e row' href he hrow' => ?_ }
  obtain ⟨row, hrow, heq⟩ := ht id ref row' href hrow'
  rw [← heq]
  exact hm.linked id ref e row href he hrow

end

/-! ### Answers -/

section
variable {cfg : JournalConfig} {s : System} {m : Memory} {n : ℕ} {c : Call}

lemma SystemOK.of_memory (hr : Recorded cfg s.history) (ht : Stored s.table s.history)
    (hmem : s.memory = some m) (hm : MemoryOK cfg s.table s.history m) : SystemOK cfg s := by
  refine ⟨hr, ht, fun m' hm' => ?_⟩
  cases hmem.symm.trans hm'
  exact hm

/-- What is known about a call in a phase. -/
lemma SystemOK.call (hs : SystemOK cfg s) (hmem : s.memory = some m) (hc : m.calls.lookup n = some c)
    {phase : Phase} (hphase : c.phase = phase) : MemoryOK cfg s.table s.history m ∧
      cfg.canonicalHash c.request = some c.hash ∧ PhaseOK s.history m n c phase :=
  have hm := hs.memory m hmem
  ⟨hm, hm.hash n c hc, hphase ▸ hm.calls n c hc⟩

/-- An answer keeps the invariant. -/
lemma systemOK_reply (hr : Recorded cfg s.history) (ht : Stored s.table s.history)
    (hm : MemoryOK cfg s.table s.history m) {id : String} {request : List UInt8} {k : Option ℕ}
    {outcome : Outcome} {error : Option JournalError}
    (ha : AnswerOK cfg.canonicalHash s.history ⟨id, request, k, outcome, error⟩) :
    SystemOK cfg (s.reply m id request k outcome error) := by
  have hext : Extends s.history (s.reply m id request k outcome error).history :=
    ⟨fun _ _ h => h, fun _ h => h, fun _ h => h⟩
  exact .of_memory (hr.answer ha) { ht with } rfl (hm.extend hext fun _ h => h)

lemma systemOK_fail (hr : Recorded cfg s.history) (ht : Stored s.table s.history)
    (hm : MemoryOK cfg s.table s.history m) (id : String) (request : List UInt8)
    (error : JournalError) : SystemOK cfg (s.fail m id request error) :=
  systemOK_reply hr ht hm (answerOK_error error ht.live)

lemma systemOK_failLocked (hr : Recorded cfg s.history) (ht : Stored s.table s.history)
    (hm : MemoryOK cfg s.table s.history m) (hmutex : m.mutex = some n) (c : Call)
    (error : JournalError) : SystemOK cfg (s.failLocked m n c error) :=
  systemOK_fail hr ht (hm.unlock hmutex) c.id c.request error

end

/-! ### Rows -/

section
variable {cfg : JournalConfig} {s : System} {m : Memory} {n : ℕ} {c : Call} {now : ℕ}

variable {t : Table} {id : String} {row : Row}

/-- A row that is left was there before, and has not passed its expiry. -/
lemma lookup_deleteExpiredOperations (h : (t.deleteExpiredOperations now).lookup id = some row) :
    t.lookup id = some row ∧ now < row.expiresAt := by
  rw [deleteExpiredOperations, lookup_restrict] at h
  split at h
  · next hkeep =>
    refine ⟨h, ?_⟩
    simp only [isExpired, h, Bool.not_eq_true', decide_eq_false_iff_not, not_le] at hkeep
    exact hkeep
  · cases h

/-- A row that has not expired survives the deletion. -/
lemma lookup_deleteExpiredOperations_of_lt (h : t.lookup id = some row) (hlt : now < row.expiresAt) :
    (t.deleteExpiredOperations now).lookup id = some row := by
  rw [deleteExpiredOperations, lookup_restrict, if_pos]
  · exact h
  · simp only [isExpired, h, Bool.not_eq_true', decide_eq_false_iff_not, not_le]
    exact hlt

lemma Recorded.expire (hr : Recorded cfg s.history) (now : ℕ) :
    Recorded cfg (s.expire now).history := { hr with }

/-- Expired rows leave the table and are noted in the history. -/
lemma Stored.expire (ht : Stored s.table s.history) (now : ℕ) :
    Stored (s.expire now).table (s.expire now).history := by
  refine ⟨fun id row h => ?_, fun id row h => ?_, fun k r hk => ?_, fun e he => ?_,
    fun id row o h => ?_⟩
  · exact ht.row id row (lookup_deleteExpiredOperations h).1
  · exact ht.latest id row (lookup_deleteExpiredOperations h).1
  · rcases ht.covered k r hk with ⟨row, hrow, hrk⟩ | ⟨e, he, hek⟩
    · by_cases hlt : now < row.expiresAt
      · exact .inl ⟨row, lookup_deleteExpiredOperations_of_lt hrow hlt, hrk⟩
      have hmem := (lookup_eq_some_iff_mem s.table r.id row).mp hrow
      have hle : row.expiresAt ≤ now := not_lt.mp hlt
      refine .inr ⟨⟨row.reservation, row.expiresAt, now⟩, mem_append.mpr (.inr ?_), hrk⟩
      exact mem_map.mpr ⟨_, mem_filter.mpr ⟨hmem, decide_eq_true hle⟩, rfl⟩
    · exact .inr ⟨e, mem_append.mpr (.inl he), hek⟩
  · rcases mem_append.mp he with he | he
    · exact ht.aged e he
    · obtain ⟨x, hx, rfl⟩ := mem_map.mp he
      exact of_decide_eq_true (mem_filter.mp hx).2
  · exact ht.completed id row o (lookup_deleteExpiredOperations h).1

lemma MemoryOK.expire (hm : MemoryOK cfg s.table s.history m) (now : ℕ) :
    MemoryOK cfg (s.expire now).table (s.expire now).history m := by
  have hext : Extends s.history (s.expire now).history := ⟨fun _ _ h => h, fun _ h => h, fun _ h => h⟩
  refine (hm.extend hext fun _ h => h).table fun id ref row' _ hrow' => ?_
  exact ⟨row', (lookup_deleteExpiredOperations hrow').1, rfl⟩

variable {k : ℕ}

section
variable {α : Type} {l : List α} {a b : α}

lemma getElem?_concat_eq_some : (l ++ [a])[k]? = some b ↔ l[k]? = some b ∨ k = l.length ∧ b = a := by
  rcases lt_trichotomy k l.length with hlt | heq | hgt
  · rw [getElem?_append_left hlt]
    simp [hlt.ne]
  · subst heq
    simp [eq_comm]
  · rw [getElem?_append_right hgt.le, getElem?_eq_none, getElem?_eq_none hgt.le]
    · simp [hgt.ne']
    · simp only [length_singleton]
      omega

lemma getElem?_concat_old (h : l[k]? = some b) : (l ++ [a])[k]? = some b :=
  getElem?_concat_eq_some.mpr (.inl h)

lemma forall_concat {P : ℕ → α → Prop} (hold : ∀ (k : ℕ) b, l[k]? = some b → P k b) (hnew : P l.length a)
    (k : ℕ) (b : α) (h : (l ++ [a])[k]? = some b) : P k b := by
  rcases getElem?_concat_eq_some.mp h with h | ⟨rfl, rfl⟩
  · exact hold k b h
  · exact hnew

end

lemma extends_insert (s : System) (c : Call) (expiresAt : ℕ) :
    Extends s.history (s.insert c expiresAt).history :=
  ⟨fun _ _ => getElem?_concat_old, fun _ h => h, fun _ h => h⟩

lemma reservation_insert (s : System) (c : Call) (expiresAt : ℕ) :
    (s.insert c expiresAt).history.reservations[s.history.reservations.length]? =
      some ⟨c.id, c.request, c.hash⟩ := getElem?_concat_length

lemma Recorded.insert (hr : Recorded cfg s.history)
    (hhash : cfg.canonicalHash c.request = some c.hash) (expiresAt : ℕ) :
    Recorded cfg (s.insert c expiresAt).history := by
  have hext := extends_insert s c expiresAt
  refine { hr with
    known := fun x hx => ?_, answers := fun a ha => (hr.answers a ha).mono hext
    hash := forall_mem_concat hr.hash hhash }
  obtain ⟨r, hrx, hid⟩ := hr.known x hx
  exact ⟨r, hext.reservations _ _ hrx, hid⟩

lemma Stored.insert (ht : Stored s.table s.history) (hnone : s.table.lookup c.id = none) (expiresAt : ℕ) :
    Stored (s.insert c expiresAt).table (s.insert c expiresAt).history := by
  have hext := extends_insert s c expiresAt
  refine ⟨forall_insert ⟨_, reservation_insert s c expiresAt, rfl, rfl⟩ fun id row h _ => ?_,
    -- the new reservation is the last one
    forall_insert (forall_concat (fun k r hk _ => (List.getElem?_eq_some_iff.mp hk).1.le)
      fun _ => le_rfl) fun id row h hne => forall_concat (ht.latest id row h) fun hid => absurd hid.symm hne,
    forall_concat (fun k r hk => ?_) (.inl ⟨_, lookup_insert _, rfl⟩), ht.aged,
    fun id row o h => forall_insert (P := fun _ row => row.completed = some o → (row.reservation, o) ∈ _)
      (fun ho => by cases ho) (fun id row h _ => ht.completed id row o h) id row h⟩
  · obtain ⟨r, hr, hrow⟩ := ht.row id row h
    exact ⟨r, hext.reservations _ _ hr, hrow⟩
  · refine (ht.covered k r hk).imp_left ?_
    rintro ⟨row, hrow, hrk⟩
    exact ⟨row, lookup_insert_of_none hnone hrow, hrk⟩

/-- A row is inserted for an operation without an entry. -/
lemma MemoryOK.insert_row (hm : MemoryOK cfg s.table s.history m)
    (hnone : m.entries.lookup c.id = none) (expiresAt : ℕ) :
    MemoryOK cfg (s.insert c expiresAt).table (s.insert c expiresAt).history m := by
  refine (hm.extend (extends_insert s c expiresAt) fun _ h => h).table fun id ref row' href hrow' => ?_
  rw [System.insert, lookup_insert_ne (ne_of_lookup hnone href)] at hrow'
  exact ⟨row', hrow', rfl⟩

end

/-! ### The locked part of `Execute` -/

/-- What eviction leaves: some of the oldest completed entries are gone. -/
lemma evict_spec (max : ℕ) (order : List String) (entries : FinMap String ℕ) :
    ∃ gone, order = gone ++ (evict max order entries).1 ∧
      ∀ id, (evict max order entries).2.lookup id = if id ∈ gone then none else entries.lookup id := by
  induction order generalizing entries with
  | nil => exact ⟨[], rfl, fun _ => rfl⟩
  | cons oldest order ih =>
    unfold evict
    split
    · exact ⟨[], rfl, fun _ => rfl⟩
    obtain ⟨gone, horder, hlookup⟩ := ih (entries.erase oldest)
    refine ⟨oldest :: gone, by rw [cons_append, ← horder], fun id => ?_⟩
    rw [hlookup id, lookup_erase_eq]
    by_cases hmem : id ∈ gone
    · rw [if_pos hmem, if_pos (mem_cons_of_mem _ hmem)]
    rw [if_neg hmem]
    by_cases heq : id = oldest
    · rw [if_pos heq, if_pos (mem_cons.mpr (.inl heq))]
    · rw [if_neg heq, if_neg fun h => (mem_cons.mp h).elim heq hmem]

section
variable {cfg : JournalConfig} {t : Table} {h : History} {s s' : System} {m : Memory} {n : ℕ} {c : Call}
  {id : String} {request : List UInt8} {hash : String} {now : ℕ}

/-- The entry of a running function is not complete. -/
lemma Active.not_mem_order {ref : ℕ} {e : Entry} (ha : Active m n c ref e) (hm : MemoryOK cfg t h m) :
    c.id ∉ m.order := by
  intro hmem
  obtain ⟨ref', e', href', he', hstored⟩ := hm.order c.id hmem
  cases ha.entries.symm.trans href'
  cases ha.heap.symm.trans he'
  rw [Entry.stored, ha.complete] at hstored
  cases hstored

/-- An eviction takes entries whose outcomes are stored. -/
lemma MemoryOK.evict (hm : MemoryOK cfg t h m) (hmutex : m.mutex = none) : MemoryOK cfg t h { m with
      order := (evict cfg.max m.order m.entries).1
      entries := (evict cfg.max m.order m.entries).2 } := by
  obtain ⟨gone, horder, hlookup⟩ := evict_spec cfg.max m.order m.entries
  generalize Operation.evict cfg.max m.order m.entries = left at horder hlookup ⊢
  have hkept : ∀ id ref, left.2.lookup id = some ref → m.entries.lookup id = some ref := by
    intro id ref href
    rw [hlookup id] at href
    split at href
    · cases href
    · exact href
  have hnodup : (gone ++ left.1).Nodup := horder ▸ hm.nodup
  refine { hm with
    entries := fun id ref href => hm.entries id ref (hkept id ref href)
    linked := fun id ref e row href => hm.linked id ref e row (hkept id ref href)
    nodup := ?_
    order := fun id hid => ?_
    listed := fun id ref e href he hstored => ?_
    calls := fun n c hc => (hm.calls n c hc).mono ⟨.refl h, fun _ e he => ⟨e, he, rfl, rfl⟩,
      fun ref e ha => ?_, fun hlocked => ?_, fun _ _ _ ho => ho⟩ }
  · exact (nodup_append.mp hnodup).2.1
  · obtain ⟨ref, e, href, he⟩ := hm.order id (horder ▸ mem_append.mpr (.inr hid))
    refine ⟨ref, e, ?_, he⟩
    have hnot : id ∉ gone := fun hmem => (nodup_append.mp hnodup).2.2 id hmem id hid rfl
    rw [hlookup id, if_neg hnot, href]
  · have hmem := hm.listed id ref e (hkept id ref href) he hstored
    rw [horder] at hmem
    refine (mem_append.mp hmem).resolve_left fun hgone => ?_
    rw [hlookup id, if_pos hgone] at href
    cases href
  · refine { ha with entries := ?_ }
    have hnot : c.id ∉ gone := fun hmem => ha.not_mem_order hm (horder ▸ mem_append.mpr (.inl hmem))
    change left.2.lookup c.id = some ref
    rw [hlookup c.id, if_neg hnot, ha.entries]
  · rw [hmutex] at hlocked
    cases hlocked

/-- A call takes the mutex. -/
lemma MemoryOK.lock (hm : MemoryOK cfg t h m) (hmutex : m.mutex = none) (n : ℕ) :
    MemoryOK cfg t h { m with mutex := some n } := by
  refine { hm with
    calls := fun n c hc => (hm.calls n c hc).mono
      (.of_entries (.refl h) rfl rfl (fun hlocked => ?_) fun _ _ _ ho => ho) }
  rw [hmutex] at hlocked
  cases hlocked

/-- The look-up at the start of `Execute` keeps the invariant. -/
lemma SystemOK.lookup (hs : SystemOK cfg s) (hmem : s.memory = some m) (hmutex : m.mutex = none)
    (hhash : cfg.canonicalHash request = some hash)
    (hstep : s.lookup cfg m n id request hash now = some s') : SystemOK cfg s' := by
  have hm := hs.memory m hmem
  unfold System.lookup at hstep
  split at hstep
  · next ref href =>
    split at hstep
    · cases hstep
    rename_i e he
    split at hstep
    · cases hstep
      exact systemOK_fail hs.recorded hs.stored hm id request .conflict
    rename_i hne
    cases hstep
    refine .of_memory hs.recorded hs.stored rfl (hm.insert hhash ?_)
    -- the entry is about the reservation that the operation has now
    refine ⟨e, he, not_not.mp hne, fun k hk => ⟨?_, hs.stored.live k hk⟩⟩
    obtain ⟨row, hrow, rfl⟩ := map_eq_some_iff.mp hk
    exact (hm.linked id ref e row href he hrow).symm
  · next hnone =>
    have hm' := hm.evict hmutex
    obtain ⟨gone, -, hlookup⟩ := evict_spec cfg.max m.order m.entries
    have hnone' : (Operation.evict cfg.max m.order m.entries).2.lookup id = none := by
      rw [hlookup id, hnone, ite_self]
    simp only at hstep
    split at hstep
    · cases hstep
      exact systemOK_fail hs.recorded hs.stored hm' id request .full
    cases hstep
    refine .of_memory hs.recorded hs.stored rfl ((hm'.lock hmutex n).insert hhash ?_)
    dsimp only
    split <;> exact ⟨rfl, hnone'⟩

/-- So does the start of a call. -/
lemma SystemOK.execute (hs : SystemOK cfg s) (hmem : s.memory = some m)
    (hstep : s.execute cfg m n id request now = some s') : SystemOK cfg s' := by
  have hm := hs.memory m hmem
  unfold System.execute at hstep
  split at hstep
  · cases hstep
  split at hstep
  · cases hstep
    exact systemOK_fail hs.recorded hs.stored hm id request .invalidOperationID
  split at hstep
  · cases hstep
    exact systemOK_fail hs.recorded hs.stored hm id request .invalidRequest
  rename_i hash hhash
  split at hstep
  · cases hstep
  · next hmutex => exact hs.lookup hmem (not_isSome_iff_eq_none.mp hmutex) hhash hstep

end

/-! ### Runs -/

section
variable {cfg : JournalConfig} {t : Table} {h : History} {s s' : System} {m : Memory} {n n' : ℕ}
  {c c' : Call} {ref ref' : ℕ} {e e' : Entry} {outcome : Outcome} {now : ℕ}

/-- Two calls never run the function of one reservation. -/
lemma Active.eq_of_reservation (hm : MemoryOK cfg t h m) (ha : Active m n c ref e)
    (ha' : Active m n' c' ref' e') (heq : e.reservation = e'.reservation) : n = n' := by
  obtain ⟨e₁, he₁, r₁, hr₁, hid₁⟩ := hm.entries c.id ref ha.entries
  obtain ⟨e₂, he₂, r₂, hr₂, hid₂⟩ := hm.entries c'.id ref' ha'.entries
  cases ha.heap.symm.trans he₁
  cases ha'.heap.symm.trans he₂
  rw [heq] at hr₁
  cases hr₁.symm.trans hr₂
  have hrefs : ref = ref' := by
    have hentries := ha'.entries
    rw [← hid₂, hid₁] at hentries
    exact some.inj (ha.entries.symm.trans hentries)
  subst hrefs
  cases ha.heap.symm.trans ha'.heap
  exact ha.owner.symm.trans ha'.owner

lemma Recorded.started_lt (hr : Recorded cfg h) {x : Start} (hx : x ∈ h.started) :
    x.reservation < h.reservations.length := by
  obtain ⟨r, hrx, -⟩ := hr.known x hx
  exact (List.getElem?_eq_some_iff.mp hrx).1

/-- The next reservation has not ended. -/
lemma Recorded.not_ended (hr : Recorded cfg h) (o : Outcome) : (h.reservations.length, o) ∉ h.ended := by
  intro ho
  obtain ⟨x, hx, hxk⟩ := hr.ended _ ho
  exact (hr.started_lt hx).ne hxk

/-- The history after a run function was called for the reservation that was just made. -/
lemma Recorded.begin (hr : Recorded cfg s.history)
    (hhash : cfg.canonicalHash c.request = some c.hash) (expiresAt : ℕ) :
    Recorded cfg ((s.insert c expiresAt).begin m n c s.history.reservations.length).history := by
  have hr' := hr.insert hhash expiresAt
  refine ⟨?_, forall_mem_concat hr'.known ?_, fun x hx => ?_, hr'.unique, fun a ha => ?_, hr'.hash⟩
  · refine pairwise_append.mpr ⟨hr.once, pairwise_singleton _ _, fun x hx y hy => ?_⟩
    obtain rfl := mem_singleton.mp hy
    exact hr.started_lt hx
  · exact ⟨_, reservation_insert s c expiresAt, rfl, rfl⟩
  · obtain ⟨y, hy, hyx⟩ := hr'.ended x hx
    exact ⟨y, mem_append.mpr (.inl hy), hyx⟩
  · exact (hr'.answers a ha).mono ⟨fun _ _ h => h, fun _ hx => mem_append.mpr (.inl hx),
      fun _ h => h⟩

/-- A call starts its function: it gets a new entry under the mutex. -/
lemma MemoryOK.begin (hm : MemoryOK cfg s.table s.history m) (hr : Recorded cfg s.history)
    (hhash : cfg.canonicalHash c.request = some c.hash) (hmutex : m.mutex = some n)
    (hnone : m.entries.lookup c.id = none) (expiresAt : ℕ) :
    ∀ m', ((s.insert c expiresAt).begin m n c s.history.reservations.length).memory = some m' →
      MemoryOK cfg (s.insert c expiresAt).table
        ((s.insert c expiresAt).begin m n c s.history.reservations.length).history m' := by
  intro m' hm'
  cases hm'
  have hnew := reservation_insert s c expiresAt
  have hext : Extends (s.insert c expiresAt).history
      ((s.insert c expiresAt).begin m n c s.history.reservations.length).history :=
    ⟨fun _ _ h => h, fun _ hx => mem_append.mpr (.inl hx), fun _ h => h⟩
  have hm₁ := (hm.insert_row (c := c) hnone expiresAt).extend hext fun _ h => h
  -- the operations that have an entry are other ones
  have hother : ∀ id ref, m.entries.lookup id = some ref →
      (m.entries.insert c.id m.heap.length).lookup id = some ref :=
    fun id ref => lookup_insert_of_none hnone
  refine ⟨forall_concat hm₁.heap ⟨⟨_, hnew, rfl⟩, nofun⟩, forall_insert ?_ fun id ref href _ => ?_,
    fun id ref e row href he hrow => ?_, hm.nodup, fun id hid => ?_,
    fun id ref e href he hstored => ?_, forall_insert hhash fun n' c' hc' _ => hm.hash n' c' hc',
    forall_insert ?_ fun n' c' hc' hne => ?_⟩
  · exact ⟨_, getElem?_concat_length, _, hnew, rfl⟩
  · obtain ⟨e, he, hr⟩ := hm₁.entries id ref href
    exact ⟨e, (getElem?_concat_old he), hr⟩
  · rw [lookup_insert_eq] at href
    split at href
    · next heq =>
      cases href
      rw [System.insert, lookup_insert_eq, if_pos heq] at hrow
      cases hrow
      cases getElem?_concat_length.symm.trans he
      rfl
    · obtain ⟨e', he', -⟩ := hm₁.entries id ref href
      have heq := some.inj (((getElem?_concat_old he')).symm.trans he)
      subst heq
      exact hm₁.linked id ref e' row href he' hrow
  · obtain ⟨ref, e, href, he, hstored⟩ := hm.order id hid
    exact ⟨ref, e, hother id ref href, (getElem?_concat_old he), hstored⟩
  · rw [lookup_insert_eq] at href
    split at href
    · cases href
      cases getElem?_concat_length.symm.trans he
      cases hstored
    · obtain ⟨e', he', -⟩ := hm.entries id ref href
      cases (getElem?_concat_old he').symm.trans he
      exact hm.listed id ref e href he' hstored
  · refine ⟨⟨c.hash, false, .empty, none, s.history.reservations.length, n⟩,
      ⟨getElem?_concat_length, lookup_insert _, rfl, rfl, rfl, rfl⟩,
      ⟨_, mem_append.mpr (.inr (mem_singleton_self _)), rfl⟩, hr.not_ended⟩
  · refine (hm₁.calls n' c' hc').mono ⟨.refl _, fun ref e he => ?_, fun ref e ha => ?_, fun hlocked => ?_,
      fun _ _ _ ho => ho⟩
    · exact ⟨e, (getElem?_concat_old he), rfl, rfl⟩
    · exact { ha with
        heap := getElem?_concat_old (ha.heap), entries := hother _ _ ha.entries }
    · exact absurd (some.inj (hlocked.symm.trans hmutex)) hne

/-- Rows change what they hold, but not their reservations, and hold only outcomes of their runs. -/
structure Revised (h : History) (t t' : Table) : Prop where
  back : ∀ id row', t'.lookup id = some row' → ∃ row, t.lookup id = some row ∧
    row'.reservation = row.reservation ∧ row'.hash = row.hash ∧
    ∀ o, row'.completed = some o → (row.reservation, o) ∈ h.ended
  forth : ∀ id row, t.lookup id = some row →
    ∃ row', t'.lookup id = some row' ∧ row'.reservation = row.reservation

variable {t' : Table}

/-- Revised rows still say what they said. -/
lemma Stored.revise (ht : Stored t h) (hrev : Revised h t t') : Stored t' h := by
  refine ⟨fun id row' hrow' => ?_, fun id row' hrow' => ?_, fun k r hk => ?_, ht.aged,
    fun id row' o hrow' ho => ?_⟩
  · obtain ⟨row, hrow, hres, hhash, -⟩ := hrev.back id row' hrow'
    rw [hres, hhash]
    exact ht.row id row hrow
  · obtain ⟨row, hrow, hres, -⟩ := hrev.back id row' hrow'
    rw [hres]
    exact ht.latest id row hrow
  · rcases ht.covered k r hk with ⟨row, hrow, hrk⟩ | hexpired
    · obtain ⟨row', hrow', hres⟩ := hrev.forth r.id row hrow
      exact .inl ⟨row', hrow', hres.trans hrk⟩
    · exact .inr hexpired
  · obtain ⟨row, hrow, hres, -, hended⟩ := hrev.back id row' hrow'
    rw [hres]
    exact hended o ho

lemma MemoryOK.revise (hm : MemoryOK cfg t h m) (hrev : Revised h t t') : MemoryOK cfg t' h m := by
  refine hm.table fun id ref row' _ hrow' => ?_
  obtain ⟨row, hrow, hres, -⟩ := hrev.back id row' hrow'
  exact ⟨row, hrow, hres.symm⟩

lemma Revised.refl (ht : Stored t h) : Revised h t t :=
  ⟨fun id row hrow => ⟨row, hrow, rfl, rfl, fun o ho => ht.completed id row o hrow ho⟩,
    fun _ row hrow => ⟨row, hrow, rfl⟩⟩

/-- The outcome of a run is stored in its row. -/
lemma revised_completeOperation (ht : Stored t h) {id hash : String} {completedAt expiresAt : ℕ}
    (hended : ∀ row, t.lookup id = some row → (row.reservation, outcome) ∈ h.ended) :
    Revised h t (t.completeOperation id hash outcome completedAt expiresAt).1 := by
  unfold completeOperation
  split
  · exact .refl ht
  rename_i row hrow
  split
  · refine ⟨forall_insert ⟨row, hrow, rfl, rfl, fun o ho => ?_⟩
      fun id' row' hrow' _ => (Revised.refl ht).back id' row' hrow', fun id' row₀ hrow₀ => ?_⟩
    · cases ho
      exact hended row hrow
    · rw [lookup_insert_eq]
      split
      · next heq =>
        subst heq
        cases hrow.symm.trans hrow₀
        exact ⟨_, rfl, rfl⟩
      · exact ⟨row₀, hrow₀, rfl⟩
  · exact .refl ht

/-- The outcome of an entry answers every request of the same form. -/
lemma answerOK_entry (hr : Recorded cfg h)
    (he : EntryOK h e) (hhash : cfg.canonicalHash c.request = some c.hash) (heq : e.hash = c.hash)
    (hk : ∀ k, c.reservation = some k →
      e.reservation = k ∧ ∃ r, h.reservations[k]? = some r ∧ r.id = c.id)
    {error : Option JournalError} (houtcome : error = none → (e.reservation, outcome) ∈ h.ended) :
    AnswerOK cfg.canonicalHash h ⟨c.id, c.request, c.reservation, outcome, error⟩ := by
  intro k hck
  obtain ⟨rfl, r, hrk, hid⟩ := hk k hck
  refine ⟨r, hrk, hid, houtcome, fun hother => ?_⟩
  obtain ⟨r', hr', hrhash⟩ := he.reserved
  cases hrk.symm.trans hr'
  exact absurd (by rw [hhash, hr.hash r (mem_of_getElem? hrk), hrhash, heq]) hother

lemma getElem?_set_eq {α : Type} {l : List α} {k : ℕ} {a b : α} (h : l[k]? = some a) (k' : ℕ) :
    (l.set k b)[k']? = if k' = k then some b else l[k']? := by
  rw [getElem?_set]
  by_cases heq : k = k'
  · subst heq
    rw [if_pos rfl, if_pos (List.getElem?_eq_some_iff.mp h).1, if_pos rfl]
  · rw [if_neg heq, if_neg fun h => heq h.symm]

/-- A call records the end of its run in its entry. -/
lemma MemoryOK.record (hm : MemoryOK cfg t h m) (hactive : Active m n c ref e) (e' : Entry) (he' : EntryOK h e')
    (hhash : e'.hash = e.hash) (hres : e'.reservation = e.reservation) {persisted : Bool}
    (hpersisted : e'.stored = persisted) :
    MemoryOK cfg t h { m with
      heap := m.heap.set ref e'
      order := if persisted then m.order ++ [c.id] else m.order
      calls := m.calls.erase n } := by
  have hset := getElem?_set_eq (b := e') hactive.heap
  have hkeep : ∀ (ref' : ℕ) e₁, m.heap[ref']? = some e₁ → ∃ e₂, (m.heap.set ref e')[ref']? = some e₂ ∧
      e₂.hash = e₁.hash ∧ e₂.reservation = e₁.reservation ∧ (e₁.stored = true → e₂.stored = true) := by
    intro ref' e₁ he₁
    rw [hset ref']
    split
    · next heq =>
      subst heq
      cases hactive.heap.symm.trans he₁
      exact ⟨e', rfl, hhash, hres, by simp [Entry.stored, hactive.complete]⟩
    · exact ⟨e₁, he₁, rfl, rfl, fun h => h⟩
  refine { hm.erase n with
    heap := fun ref' e₁ he₁ => ?_
    entries := fun id ref' href' => ?_
    linked := fun id ref' e₁ row href' he₁ hrow => ?_
    nodup := ?_
    order := fun id hid => ?_
    listed := fun id ref' e₁ href' he₁ hstored => ?_
    calls := forall_erase fun n' c' hc' hne => ?_ }
  · rw [hset ref'] at he₁
    split at he₁
    · cases he₁
      exact he'
    · exact hm.heap ref' e₁ he₁
  · obtain ⟨e₁, he₁, hr⟩ := hm.entries id ref' href'
    obtain ⟨e₂, he₂, -, hres', -⟩ := hkeep ref' e₁ he₁
    exact ⟨e₂, he₂, by rw [hres']; exact hr⟩
  · rw [hset ref'] at he₁
    split at he₁
    · next heq =>
      subst heq
      cases he₁
      exact (hm.linked id ref' e row href' hactive.heap hrow).trans hres.symm
    · exact hm.linked id ref' e₁ row href' he₁ hrow
  · dsimp only
    split
    · refine nodup_append.mpr ⟨hm.nodup, nodup_singleton _, ?_⟩
      rintro id hid _ hself rfl
      exact hactive.not_mem_order hm (mem_singleton.mp hself ▸ hid)
    · exact hm.nodup
  · have hcases : id ∈ m.order ∨ id = c.id ∧ persisted = true := by
      dsimp only at hid
      split at hid
      · next hp => exact (mem_append.mp hid).imp_right fun h => ⟨mem_singleton.mp h, hp⟩
      · exact .inl hid
    rcases hcases with hid | ⟨rfl, hp⟩
    · obtain ⟨ref', e₁, href', he₁, hstored⟩ := hm.order id hid
      obtain ⟨e₂, he₂, -, -, hstored'⟩ := hkeep ref' e₁ he₁
      exact ⟨ref', e₂, href', he₂, hstored' hstored⟩
    · exact ⟨ref, e', hactive.entries, by rw [hset ref, if_pos rfl], hpersisted.trans hp⟩
  · rw [hset ref'] at he₁
    split at he₁
    · next heq =>
      subst heq
      cases he₁
      obtain ⟨e₁, he₁, r₁, hr₁, rfl⟩ := hm.entries id ref' href'
      obtain ⟨e₂, he₂, r₂, hr₂, hid⟩ := hm.entries c.id ref' hactive.entries
      cases he₁.symm.trans he₂
      cases hr₁.symm.trans hr₂
      rw [hid, if_pos (hpersisted.symm.trans hstored)]
      exact mem_append.mpr (.inr (mem_singleton_self _))
    · have hmem := hm.listed id ref' e₁ href' he₁ hstored
      dsimp only
      split
      · exact mem_append.mpr (.inl hmem)
      · exact hmem
  · refine (hm.calls n' c' hc').mono ⟨.refl h, fun ref' e₁ he₁ => ?_, fun ref' e₁ ha => ?_,
      fun hmutex hnone => ⟨hmutex, hnone⟩, fun _ _ _ ho => ho⟩
    · obtain ⟨e₂, he₂, hhash, hres, -⟩ := hkeep ref' e₁ he₁
      exact ⟨e₂, he₂, hhash, hres⟩
    · -- another run has another entry
      refine { ha with heap := ?_ }
      rw [hset ref', if_neg]
      · exact ha.heap
      · rintro rfl
        cases hactive.heap.symm.trans ha.heap
        exact hne (ha.owner.symm.trans hactive.owner)

/-! ### The steps of a call -/

variable (hs : SystemOK cfg s) (hmem : s.memory = some m) (hc : m.calls.lookup n = some c)

include hs hmem hc

/-- The clean-up of expired rows keeps the invariant. -/
lemma SystemOK.cleanup (hphase : c.phase = .cleaning now) (fate : Fate) :
    SystemOK cfg (s.cleanup m n c now fate) := by
  obtain ⟨hm, hhash, hmutex, hnone⟩ := hs.call hmem hc hphase
  cases fate with
  | ok =>
    have hm' : MemoryOK cfg (s.expire now).table (s.expire now).history { m with lastCleanup := now } :=
      { hm.expire now with
        calls := fun n c hc => ((hm.expire now).calls n c hc).mono .of_calls }
    exact .of_memory (hs.recorded.expire now) (hs.stored.expire now) rfl
      (hm'.insert (c := { c with phase := .reserving }) hhash ⟨hmutex, hnone⟩)
  | fails => exact systemOK_failLocked hs.recorded hs.stored hm hmutex c .store
  | failsLate =>
    exact systemOK_failLocked (hs.recorded.expire now) (hs.stored.expire now) (hm.expire now) hmutex c .store

/-- `ReserveOperation` in `Execute`, and what follows under the mutex. -/
lemma SystemOK.reserve (hphase : c.phase = .reserving) (now : ℕ) (fate : Fate) : SystemOK cfg (s.reserve cfg m n c now fate) := by
  obtain ⟨hm, hhash, hmutex, hnone⟩ := hs.call hmem hc hphase
  have hfail : ∀ error, SystemOK cfg (s.failLocked m n c error) :=
    systemOK_failLocked hs.recorded hs.stored hm hmutex c
  unfold System.reserve
  split
  · exact hfail .store
  · next hrow =>
    exact systemOK_failLocked (hs.recorded.insert hhash _) (hs.stored.insert hrow _)
      (hm.insert_row hnone _) hmutex c .store
  · exact hfail .store
  · next hrow =>
    have ht := hs.stored.insert hrow (now + cfg.retention)
    exact ⟨hs.recorded.begin hhash _, { ht with }, hm.begin hs.recorded hhash hmutex hnone _⟩
  · next row hrow =>
    split
    · exact hfail .conflict
    rename_i hne
    split
    · exact hfail .uncertain
    rename_i o ho
    refine systemOK_reply hs.recorded hs.stored (hm.unlock hmutex) ?_
    -- the row holds the outcome of the run of its reservation
    intro k hk
    have hlive : s.live c.id = some row.reservation := by rw [System.live, hrow, map_some]
    cases hlive.symm.trans hk
    obtain ⟨r, hr, hid, hrhash⟩ := hs.stored.row c.id row hrow
    refine ⟨r, hr, hid, fun _ => hs.stored.completed c.id row o hrow ho, fun hother => ?_⟩
    exact absurd (by rw [hhash, hs.recorded.hash r (mem_of_getElem? hr), hrhash, not_not.mp hne]) hother

/-- A function that returns keeps the invariant. -/
lemma SystemOK.finish (hphase : c.phase = .running ref) (he : m.heap[ref]? = some e) (outcome : Outcome)
    (now : ℕ) : SystemOK cfg (s.finish m n c ref e outcome now) := by
  obtain ⟨hm, hhash, e', hactive, hstarted, hended⟩ := hs.call hmem hc hphase
  obtain rfl := some.inj (hactive.heap.symm.trans he)
  have hext : Extends s.history
      { s.history with ended := s.history.ended ++ [(e'.reservation, outcome)] } :=
    ⟨fun _ _ h => h, fun _ h => h, fun _ hx => mem_append.mpr (.inl hx)⟩
  have hself : (e'.reservation, outcome) ∈ s.history.ended ++ [(e'.reservation, outcome)] :=
    mem_append.mpr (.inr (mem_singleton_self _))
  refine .of_memory (hs.recorded.ends hstarted hended) (hs.stored.mono hext rfl rfl) rfl { hm with
    heap := fun ref e he => (hm.heap ref e he).mono hext
    hash := forall_insert hhash fun n' c' hc' _ => hm.hash n' c' hc'
    calls := forall_insert ?_ fun n' c' hc' hne => ?_ }
  · dsimp only
    split <;> exact ⟨e', { hactive with }, hself⟩
  · refine (hm.calls n' c' hc').mono (.of_entries hext rfl rfl id fun ref'' e'' ha ho o hmem => ?_)
    rcases mem_append.mp hmem with hmem | hmem
    · exact ho o hmem
    · have hres := (Prod.mk.inj (mem_singleton.mp hmem)).1
      exact hne (ha.eq_of_reservation hm hactive hres)

/-- Storing the outcome keeps the invariant, also when it fails. -/
lemma SystemOK.complete (hphase : c.phase = .completing ref outcome now) (fate : Fate) :
    SystemOK cfg (s.complete cfg m n c ref outcome now fate) := by
  obtain ⟨hm, hhash, e, hactive, hended⟩ := hs.call hmem hc hphase
  have hrev : Revised s.history s.table (s.complete cfg m n c ref outcome now fate).table := by
    unfold System.complete
    dsimp only
    split
    · exact .refl hs.stored
    · refine revised_completeOperation hs.stored fun row hrow => ?_
      rw [hm.linked c.id ref e row hactive.entries hactive.heap hrow]
      exact hended
  refine .of_memory hs.recorded (hs.stored.revise hrev) rfl ((hm.revise hrev).insert hhash ?_)
  exact ⟨e, { hactive with }, hended⟩

/-- A duplicate gets the outcome of the entry it waits for. -/
lemma SystemOK.answer (hphase : c.phase = .waiting ref) (he : m.heap[ref]? = some e)
    (hcomplete : e.complete = true) : SystemOK cfg
      (s.reply { m with calls := m.calls.erase n } c.id c.request c.reservation e.outcome e.err) := by
  obtain ⟨hm, hhash, e', he', heq, hres⟩ := hs.call hmem hc hphase
  cases he.symm.trans he'
  exact systemOK_reply hs.recorded hs.stored (hm.erase n) (answerOK_entry hs.recorded
    (hm.heap ref e he) hhash heq hres ((hm.heap ref e he).ended hcomplete))

lemma SystemOK.cancel (hphase : c.phase = .waiting ref) : SystemOK cfg
    (s.reply { m with calls := m.calls.erase n } c.id c.request c.reservation .empty (some .context)) := by
  obtain ⟨hm, -, e, -, -, hres⟩ := hs.call hmem hc hphase
  exact systemOK_reply hs.recorded hs.stored (hm.erase n)
    (answerOK_error .context fun k hk => (hres k hk).2)

/-- Recording the outcome keeps the invariant. -/
lemma SystemOK.record {persisted : Bool}
    (hphase : c.phase = .recording ref outcome persisted) (he : m.heap[ref]? = some e) :
    SystemOK cfg (s.record m n c ref e outcome persisted) := by
  obtain ⟨hm, hhash, e', hactive, hended⟩ := hs.call hmem hc hphase
  obtain rfl := some.inj (hactive.heap.symm.trans he)
  refine systemOK_reply hs.recorded hs.stored (hm.record hactive
    { e' with outcome := outcome, complete := true, err := if persisted then none else some .uncertain }
    ⟨(hm.heap ref e' he).reserved, fun _ _ => hended⟩ rfl rfl (by cases persisted <;> rfl))
    (answerOK_entry hs.recorded (hm.heap ref e' he) hhash hactive.hash ?_ fun _ => hended)
  intro k hk
  obtain ⟨e₁, he₁, r, hr, hid⟩ := hm.entries c.id ref hactive.entries
  cases he.symm.trans he₁
  cases hactive.reservation.symm.trans hk
  exact ⟨rfl, r, hr, hid⟩

end

/-! ### Starting -/

section
variable {cfg : JournalConfig} {t : Table} {h : History} {s : System} {m : Memory} {now : ℕ}

/-- A journal that is loaded from some rows. -/
structure Loaded (t : Table) (m : Memory) : Prop where
  entries : ∀ id ref, m.entries.lookup id = some ref →
    ∃ row, t.lookup id = some row ∧ m.heap[ref]? = some row.entry
  heap : ∀ (ref : ℕ) e, m.heap[ref]? = some e → ∃ id row, t.lookup id = some row ∧ e = row.entry
  nodup : m.order.Nodup
  order : ∀ id, id ∈ m.order ↔ ∃ ref row, m.entries.lookup id = some ref ∧ t.lookup id = some row ∧
    row.completed ≠ none
  calls : m.calls = ∅

/-- The rows are loaded one by one. -/
lemma Loaded.load {l : List (Sigma fun _ : String => Row)} (hm : Loaded t m)
    (hl : ∀ x ∈ l, t.lookup x.1 = some x.2) (hkeys : l.NodupKeys)
    (hnew : ∀ x ∈ l, m.entries.lookup x.1 = none) : Loaded t (load l m) := by
  induction l generalizing m with
  | nil => exact hm
  | cons x l ih =>
    rw [Operation.load]
    have hx := hnew x mem_cons_self
    have hxrow := hl x mem_cons_self
    have hxorder : x.1 ∉ m.order := by simp [hm.order, hx]
    obtain ⟨hnot, hkeys⟩ := nodupKeys_cons.mp hkeys
    refine ih ⟨forall_insert ⟨x.2, hxrow, getElem?_concat_length⟩
        fun id ref href _ => ?_, forall_concat hm.heap ⟨x.1, x.2, hxrow, rfl⟩, ?_,
        fun id => ?_, hm.calls⟩
      (fun y hy => hl y (mem_cons_of_mem _ hy)) hkeys fun y hy => ?_
    · obtain ⟨row, hrow, he⟩ := hm.entries id ref href
      exact ⟨row, hrow, (getElem?_concat_old he)⟩
    · dsimp only
      split
      · exact hm.nodup
      refine nodup_append.mpr ⟨hm.nodup, nodup_singleton _, ?_⟩
      rintro id hid _ hself rfl
      exact hxorder (mem_singleton.mp hself ▸ hid)
    · by_cases hid : id = x.1
      · subst hid
        by_cases hpending : x.2.completed = none <;> simp [hxrow, hpending, hxorder]
      · rw [lookup_insert_ne hid, ← hm.order id]
        split <;> simp [hid]
    · rw [lookup_insert_ne fun heq : y.1 = x.1 => hnot (heq ▸ mem_keys_of_mem hy)]
      exact hnew y (mem_cons_of_mem _ hy)

/-- The entry that is made of a row is right. -/
lemma Row.entryOK (ht : Stored t h) {id : String} {row : Row} (hrow : t.lookup id = some row) :
    EntryOK h row.entry ∧ row.entry.reservation = row.reservation ∧
      (row.entry.stored = true ↔ row.completed ≠ none) := by
  obtain ⟨r, hr, -, hhash⟩ := ht.row id row hrow
  unfold Row.entry
  split
  · next hpending => exact ⟨⟨⟨r, hr, hhash⟩, nofun⟩, rfl, by simp [Entry.stored, hpending]⟩
  · next o ho =>
    exact ⟨⟨⟨r, hr, hhash⟩, fun _ _ => ht.completed id row o hrow ho⟩, rfl, by simp [Entry.stored, ho]⟩

/-- A loaded journal meets the invariant. -/
lemma Loaded.memoryOK (hm : Loaded t m) (ht : Stored t h) : MemoryOK cfg t h m := by
  refine ⟨fun ref e he => ?_, fun id ref href => ?_, fun id ref e row href he hrow => ?_, hm.nodup,
    fun id hid => ?_, fun id ref e href he hstored => ?_, fun n c hc => ?_, fun n c hc => ?_⟩
  · obtain ⟨id, row, hrow, rfl⟩ := hm.heap ref e he
    exact (Row.entryOK ht hrow).1
  · obtain ⟨row, hrow, he⟩ := hm.entries id ref href
    obtain ⟨r, hr, hid, -⟩ := ht.row id row hrow
    exact ⟨_, he, r, by rw [(Row.entryOK ht hrow).2.1]; exact hr, hid⟩
  · obtain ⟨row', hrow', he'⟩ := hm.entries id ref href
    cases hrow'.symm.trans hrow
    cases he.symm.trans he'
    exact (Row.entryOK ht hrow).2.1.symm
  · obtain ⟨ref, row, href, hrow, hcompleted⟩ := (hm.order id).mp hid
    obtain ⟨row', hrow', he⟩ := hm.entries id ref href
    cases hrow.symm.trans hrow'
    exact ⟨ref, _, href, he, (Row.entryOK ht hrow).2.2.mpr hcompleted⟩
  · obtain ⟨row, hrow, he'⟩ := hm.entries id ref href
    cases he.symm.trans he'
    exact (hm.order id).mpr ⟨ref, row, href, hrow, (Row.entryOK ht hrow).2.2.mp hstored⟩
  · rw [hm.calls] at hc
    cases hc
  · rw [hm.calls] at hc
    cases hc

/-- Rows with large results become pending again. -/
lemma revised_demote (ht : Stored t h) : Revised h t t.demote := by
  have hlookup : ∀ id, t.demote.lookup id = (t.lookup id).map _ := fun id => lookup_mapVals _ t id
  refine ⟨fun id row' hrow' => ?_, fun id row hrow => ?_⟩
  · rw [hlookup id] at hrow'
    obtain ⟨row, hrow, rfl⟩ := map_eq_some_iff.mp hrow'
    refine ⟨row, hrow, ?_⟩
    split
    · next hpending =>
      refine ⟨rfl, rfl, fun o ho => ?_⟩
      rw [hpending] at ho
      cases ho
    · split
      · exact ⟨rfl, rfl, nofun⟩
      · exact ⟨rfl, rfl, fun o ho => ht.completed id row o hrow ho⟩
  · rw [hlookup id, hrow]
    refine ⟨_, rfl, ?_⟩
    dsimp only
    split
    · rfl
    · split <;> rfl

/-- Building the journal keeps the invariant, wherever it is cut off. -/
lemma SystemOK.start (hs : SystemOK cfg s) (hmem : s.memory = none) (now statements : ℕ) :
    SystemOK cfg (s.start cfg now statements) := by
  have hr := hs.recorded.expire now
  have ht := hs.stored.expire now
  have ht' := ht.revise (revised_demote ht)
  have hnone : ∀ m, s.memory ≠ some m := by
    intro m hm
    rw [hmem] at hm
    cases hm
  unfold System.start
  split
  · exact hs
  · exact ⟨hr, ht, fun m hm => absurd hm (hnone m)⟩
  · exact ⟨hr, ht', fun m hm => absurd hm (hnone m)⟩
  · refine .of_memory hr ht' rfl (Loaded.memoryOK (Loaded.load ⟨nofun, nofun, nodup_nil, by simp, rfl⟩
      (fun x hx => ?_) ?_ fun _ _ => rfl) ht')
    · have hmem : x ∈ (s.expire now).table.demote.entries :=
        (perm_insertionSort _ _).mem_iff.mp (mem_of_mem_take hx)
      exact (lookup_eq_some_iff_mem _ x.1 x.2).mpr hmem
    · have hsorted := (perm_nodupKeys (perm_insertionSort before
        (s.expire now).table.demote.entries)).mpr (s.expire now).table.demote.nodupKeys
      exact hsorted.sublist (take_sublist _ _)

end

/-! ### Whole runs -/

namespace System

variable {cfg : JournalConfig} {s s' : System}

/-- Every step keeps the invariant. -/
lemma keeps_systemOK (cfg : JournalConfig) : Keeps (fun s a => step cfg s a) (SystemOK cfg) := by
  intro s a s' hs hstep
  cases effect_of_step hstep with
  | start hmem => exact hs.start hmem _ _
  | crash => exact ⟨hs.recorded, hs.stored, nofun⟩
  | execute hmem hexecute => exact hs.execute hmem hexecute
  | cleanup hmem hc hphase => exact hs.cleanup hmem hc hphase _
  | reserve hmem hc hphase => exact hs.reserve hmem hc hphase _ _
  | finish hmem hc hphase he => exact hs.finish hmem hc hphase he _ _
  | complete hmem hc hphase => exact hs.complete hmem hc hphase _
  | record hmem hc hphase he => exact hs.record hmem hc hphase he
  | answer hmem hc hphase he hcomplete => exact hs.answer hmem hc hphase he hcomplete
  | cancel hmem hc hphase => exact hs.cancel hmem hc hphase

lemma initial_ok (cfg : JournalConfig) : SystemOK cfg initial :=
  ⟨⟨List.Pairwise.nil, nofun, nofun, nofun, nofun, nofun⟩, ⟨nofun, nofun, nofun, nofun, nofun⟩, nofun⟩

lemma leave_ok (hs : SystemOK cfg s) (hmem : s.memory = none) (x : Legacy) :
    SystemOK cfg (s.leave cfg x) ∧ (s.leave cfg x).memory = none := by
  unfold leave
  split
  · next hash hrow hhash =>
    -- the row is a reservation whose function was called and has perhaps returned
    let c : Call := ⟨x.id, x.request, hash, .reserving, none⟩
    have hr := hs.recorded.begin (m := ⟨[], ∅, [], 0, none, ∅⟩) (n := 0) (c := c) hhash x.expiresAt
    have ht := hs.stored.insert (c := c) hrow x.expiresAt
    have hext : Extends (s.insert c x.expiresAt).history
        { (s.insert c x.expiresAt).history with
          started := s.history.started ++ [⟨s.history.reservations.length, x.id, x.request⟩]
          ended := s.history.ended ++
            (x.outcome.map fun o => (s.history.reservations.length, o)).toList } :=
      ⟨fun _ _ h => h, fun _ hx => mem_append.mpr (.inl hx), fun _ hx => mem_append.mpr (.inl hx)⟩
    refine ⟨⟨?_, ?_, fun m hm => ?_⟩, hmem⟩
    · cases x.outcome with
      | none =>
        simp only [map_none, toList_none, append_nil]
        exact hr
      | some =>
        exact hr.ends ⟨_, mem_append.mpr (.inr (mem_singleton_self _)), rfl⟩ hs.recorded.not_ended
    · have ht' : Stored (s.insert c x.expiresAt).table _ := ht.mono hext rfl rfl
      refine ht'.revise ⟨forall_insert ⟨_, lookup_insert _, rfl, rfl, fun o ho => ?_⟩
        fun id row' hrow' hne => ?_, forall_insert ⟨_, lookup_insert _, rfl⟩
        fun id row hrow hne => ⟨row, (lookup_insert_ne hne).trans hrow, rfl⟩⟩
      · refine mem_append.mpr (.inr (mem_toList.mpr ?_))
        exact map_eq_some_iff.mpr ⟨o, ho, rfl⟩
      · have hold : (s.insert c x.expiresAt).table.lookup id = some row' :=
          (lookup_insert_ne hne).trans hrow'
        exact ⟨row', hold, rfl, rfl, fun o ho => ht'.completed id row' o hold ho⟩
    · rw [hmem] at hm
      cases hm
  · exact ⟨hs, hmem⟩

lemma left_ok (cfg : JournalConfig) (legacy : List Legacy) : SystemOK cfg (left cfg legacy) := by
  suffices h : ∀ s : System, SystemOK cfg s → s.memory = none →
      SystemOK cfg (legacy.foldl (leave cfg) s) from h initial (initial_ok cfg) rfl
  induction legacy with
  | nil => exact fun s hs _ => hs
  | cons x legacy ih =>
    intro s hs hmem
    obtain ⟨hs', hmem'⟩ := leave_ok hs hmem x
    exact ih _ hs' hmem'

end System

/-- The journal is at most once: the earlier one of two runs of an operation belongs to a reservation
that has passed its stored expiry, a function only runs for the request of its reservation and has one
outcome, and every answer belongs to the reservation that it was given under. -/
structure AtMostOnce (cfg : JournalConfig) (h : History) : Prop where
  runs : h.started.Pairwise fun x y => x.id = y.id →
    ∃ e ∈ h.expired, e.reservation = x.reservation ∧ e.expiresAt ≤ e.now
  requests : ∀ x ∈ h.started, ∃ r, h.reservations[x.reservation]? = some r ∧ r.id = x.id ∧
    r.request = x.request
  outcomes : ∀ k o o', (k, o) ∈ h.ended → (k, o') ∈ h.ended → o = o'
  answers : ∀ a ∈ h.answers, AnswerOK cfg.canonical h a

namespace System

/-- In every state of every run on the store of any earlier helpers the journal is at most once. -/
theorem journal_at_most_once {cfg : JournalConfig} (hcfg : Function.Injective cfg.sha256)
    {legacy : List Legacy} {actions : List Action} {s : System}
    (hr : run (fun s a => step cfg s a) (left cfg legacy) actions = some s) :
    AtMostOnce cfg s.history := by
  have hs := (keeps_systemOK cfg).run (left_ok cfg legacy) hr
  refine ⟨?_, hs.recorded.known, hs.recorded.unique, fun a ha => (hs.recorded.answers a ha).canonical hcfg⟩
  refine hs.recorded.once.imp_of_mem fun hx hy hlt hid => ?_
  obtain ⟨r, hk, hrx, -⟩ := hs.recorded.known _ hx
  obtain ⟨r', hk', hry, -⟩ := hs.recorded.known _ hy
  -- an operation that is reserved again has passed the expiry of its earlier reservation
  rcases hs.stored.covered _ r hk with ⟨row, hrow, heq⟩ | ⟨e, he, hek⟩
  · have hle := hs.stored.latest r.id row hrow _ r' hk' (by rw [hrx, hry, hid])
    omega
  · exact ⟨e, he, hek, hs.stored.aged e he⟩

/-! ### An example of a run -/

/-- A journal of two entries; every request that is not empty is its own canonical form and digest. -/
def smallJournal : JournalConfig where
  max := 2
  retention := 100
  canonical := fun request => if request = [] then none else some (JsonText.latinText request)
  sha256 := fun canonical => canonical
  max_pos := by decide
  retention_pos := by decide

/-- The steps of a call that runs its function. -/
def runOperation (n : ℕ) (id : String) (code : String) : List Action :=
  [.execute n id [1] 0, .reserve n 0 .ok, .finish n ⟨[], code⟩ 0, .complete n .ok, .record n]

/-- Three operations run; the first is evicted and asked for again, with its request and with another
one; a fourth is cut off, and the journal is rebuilt. -/
def evictedAndRebuilt : List Action :=
  .start 0 3 :: runOperation 1 "operation-a" "a" ++ runOperation 2 "operation-b" "b" ++
    runOperation 3 "operation-c" "c" ++
    [.execute 4 "operation-a" [1] 0, .reserve 4 0 .ok, .execute 5 "operation-a" [2] 0,
      .reserve 5 0 .ok, .execute 6 "operation-d" [1] 0, .reserve 6 0 .ok, .crash, .start 0 3,
      .execute 7 "operation-d" [1] 0, .answer 7]

/-- In that run every operation runs once. -/
theorem evictedAndRebuilt_once : ∃ s,
    run (fun s a => step smallJournal s a) (left smallJournal []) evictedAndRebuilt = some s ∧
      s.history.started.map Start.id = ["operation-a", "operation-b", "operation-c", "operation-d"] ∧
      AtMostOnce smallJournal s.history :=
  exists_and_of_any (by decide +kernel) fun _ hs => journal_at_most_once Function.injective_id hs

/-- In every run, while a call runs its function, its entry is found by the other calls and is not
evicted, and no other call for the operation runs one. -/
theorem journal_single_flight {cfg : JournalConfig} {legacy : List Legacy} {actions : List Action}
    {s : System} {m : Memory} (hr : run (fun s a => step cfg s a) (left cfg legacy) actions = some s)
    (hmem : s.memory = some m) {n : ℕ} {c : Call} {ref : ℕ} (hc : m.calls.lookup n = some c)
    (hphase : c.phase = .running ref) :
    m.entries.lookup c.id = some ref ∧ c.id ∉ m.order ∧
      ∀ n' c' ref', m.calls.lookup n' = some c' → c'.phase = .running ref' → c'.id = c.id → n' = n := by
  have hm := ((keeps_systemOK cfg).run (left_ok cfg legacy) hr).memory m hmem
  have hactive : ∀ n c ref, m.calls.lookup n = some c → c.phase = .running ref →
      ∃ e, Active m n c ref e := by
    intro n c ref hc hphase
    obtain ⟨e, he, -⟩ : PhaseOK s.history m n c (.running ref) := hphase ▸ hm.calls n c hc
    exact ⟨e, he⟩
  obtain ⟨e, he⟩ := hactive n c ref hc hphase
  refine ⟨he.entries, he.not_mem_order hm, fun n' c' ref' hc' hphase' hid => ?_⟩
  -- the two have one entry, and it has one owner
  obtain ⟨e', he'⟩ := hactive n' c' ref' hc' hphase'
  cases he.entries.symm.trans (hid ▸ he'.entries)
  cases he.heap.symm.trans he'.heap
  exact he'.owner.symm.trans he.owner

/-- Two calls for an operation: the first runs its function, and the second waits for its entry. -/
theorem duplicate_single_flight : ∃ s, run (fun s a => step smallJournal s a) (left smallJournal [])
      [.start 0 3, .execute 1 "operation-a" [1] 0, .reserve 1 0 .ok, .execute 2 "operation-a" [1] 0] =
        some s ∧
    ∃ m c, s.memory = some m ∧ m.calls.lookup 1 = some c ∧ c.phase = .running 0 ∧
      m.entries.lookup c.id = some 0 ∧ ∀ n' c' ref', m.calls.lookup n' = some c' →
        c'.phase = .running ref' → c'.id = c.id → n' = 1 := by
  refine exists_of_any (P := fun s => (s.memory.any fun m => (m.calls.lookup 1).any fun c =>
    c.phase = .running 0) = true) (by decide +kernel) fun s hrun hany => ?_
  obtain ⟨m, hmem, hany⟩ := (Option.any_eq_true _ _).mp hany
  obtain ⟨c, hc, hphase⟩ := (Option.any_eq_true _ _).mp hany
  obtain ⟨hentry, -, hother⟩ := journal_single_flight hrun hmem hc (of_decide_eq_true hphase)
  exact ⟨m, c, hmem, hc, of_decide_eq_true hphase, hentry, hother⟩

end System

end Paperboat.Operation

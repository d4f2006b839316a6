import Paperboat.Operation.AtMostOnce

/-!
# What one step of the journal does

What a step can do to the calls, to the runs that have ended and to the answers, so that what is built on
the journal does not open its steps again.
-/

namespace Paperboat.Operation

open Option FinMap Operation.System

/-- The run function of a call is at work. -/
def Phase.isRunning : Phase → Bool
  | .running _ => true
  | _ => false

/-- The call numbered `n` that is under way. -/
def System.call (s : System) (n : ℕ) : Option Call := s.memory.bind fun m => m.calls.lookup n

section
variable {cfg : JournalConfig} {s s' : System} {m m' : Memory} {n k : ℕ} {c c' : Call} {a : Action}

lemma call_eq (hmem : s.memory = some m) (k : ℕ) : s.call k = m.calls.lookup k := by
  rw [call, hmem, bind_some]

variable {now : ℕ}

/-- `Execute` up to its first store call returns an error, or makes a call that does not run yet. -/
lemma execute_spec {id : String} {request : List UInt8} (h : s.execute cfg m n id request now = some s') :
    (∃ m' error, m'.calls = m.calls ∧ s' = s.fail m' id request error) ∨
      ∃ m' c', m'.calls = m.calls.insert n c' ∧ c'.phase.isRunning = false ∧ c'.id = id ∧
        c'.request = request ∧ s' = { s with memory := some m' } := by
  unfold execute at h
  split at h
  · cases h
  split at h
  · exact .inl ⟨m, _, rfl, (some.inj h).symm⟩
  split at h
  · exact .inl ⟨m, _, rfl, (some.inj h).symm⟩
  split at h
  · cases h
  unfold lookup at h
  split at h
  · split at h
    · cases h
    split at h
    · exact .inl ⟨m, _, rfl, (some.inj h).symm⟩
    · exact .inr ⟨_, ⟨id, request, _, .waiting _, s.live id⟩, rfl, rfl, rfl, rfl, (some.inj h).symm⟩
  · dsimp only at h
    split at h
    · refine .inl ⟨_, _, ?_, (some.inj h).symm⟩
      rfl
    · refine .inr ⟨_, _, rfl, ?_, rfl, rfl, (some.inj h).symm⟩
      dsimp only
      split <;> rfl

lemma load_calls (l : List (Sigma fun _ : String => Row)) (m : Memory) : (load l m).calls = m.calls := by
  induction l generalizing m with
  | nil => rfl
  | cons e l ih => exact ih _

/-- How a call comes to be where it is after a step. -/
inductive Source (s : System) (a : Action) (k : ℕ) (c' : Call) : Prop where
  /-- It was there, and its function does not run unless it ran before or was just called. -/
  | old (c : Call) (hc : s.call k = some c)
      (hrun : c'.phase.isRunning = true → c.phase.isRunning = true ∨
        (∃ now, a = .reserve k now .ok) ∧ s.table.lookup c.id = none)
      (hsame : c'.id = c.id ∧ c'.request = c.request)
  /-- `Execute` was just called. -/
  | new (id : String) (request : List UInt8) (now : ℕ) (ha : a = .execute k id request now)
      (hrun : c'.phase.isRunning = false) (hsame : c'.id = id ∧ c'.request = request)

lemma Source.same (hc : s.call k = some c) : Source s a k c := .old c hc .inl ⟨rfl, rfl⟩

lemma Source.leave (hmem : s.memory = some m) (hmem' : s'.memory = some m')
    (hcalls : m'.calls = m.calls.erase n) (hc : s'.call k = some c) : Source s a k c := by
  rw [call_eq hmem', hcalls, lookup_erase_eq] at hc
  split at hc
  · cases hc
  · exact .same ((call_eq hmem k).trans hc)

/-- The call moves on, and the others stay. -/
lemma Source.advance (hmem : s.memory = some m) (hn : m.calls.lookup n = some c) {c₁ : Call}
    (hmem' : s'.memory = some m') (hcalls : m'.calls = m.calls.insert n c₁)
    (hrun : c₁.phase.isRunning = true → (∃ now, a = .reserve n now .ok) ∧ s.table.lookup c.id = none)
    (hsame : c₁.id = c.id ∧ c₁.request = c.request) (hc : s'.call k = some c') :
    Source s a k c' := by
  rw [call_eq hmem', hcalls, lookup_insert_eq] at hc
  split at hc
  · next hk =>
    cases hc
    obtain rfl := hk
    exact .old c ((call_eq hmem k).trans hn) (fun h => .inr (hrun h)) hsame
  · exact .same ((call_eq hmem k).trans hc)

lemma source_reserve {fate : Fate} (hmem : s.memory = some m) (hn : m.calls.lookup n = some c)
    (hc : (s.reserve cfg m n c now fate).call k = some c') :
    Source s (.reserve n now fate) k c' := by
  unfold System.reserve at hc
  split at hc
  · exact .leave hmem rfl rfl hc
  · exact .leave hmem rfl rfl hc
  · exact .leave hmem rfl rfl hc
  · next hrow => exact .advance hmem hn rfl rfl (fun _ => ⟨⟨now, rfl⟩, hrow⟩) (by exact ⟨rfl, rfl⟩) hc
  · split at hc
    · exact .leave hmem rfl rfl hc
    · split at hc
      · exact .leave hmem rfl rfl hc
      · exact .leave hmem rfl rfl hc

/-- Every call was there before the step or has just started. -/
lemma source_of_step (hstep : s.step cfg a = some s') (hc : s'.call k = some c') : Source s a k c' := by
  cases effect_of_step hstep with
  | start =>
    unfold start at hc
    split at hc
    · exact .same hc
    · exact .same hc
    · exact .same hc
    · rw [call, bind_some, load_calls] at hc
      cases hc
  | crash => cases hc
  | @execute m n id request now _ hmem hexecute =>
    rcases execute_spec hexecute with ⟨m', error, hcalls, rfl⟩ | ⟨m', c₁, hcalls, hrun, hid, hrequest, rfl⟩
    · have hmem' : (s.fail m' id request error).memory = some m' := rfl
      rw [call_eq hmem', hcalls, ← call_eq hmem] at hc
      exact .same hc
    · rw [call, bind_some, hcalls, lookup_insert_eq] at hc
      split at hc
      · next hk =>
        cases hc
        obtain rfl := hk
        exact .new id request now rfl hrun ⟨hid, hrequest⟩
      · exact .same ((call_eq hmem k).trans hc)
  | @cleanup m n c now fate hmem hn =>
    cases fate with
    | ok =>
      refine .advance hmem hn rfl rfl (fun hrun => ?_) (by exact ⟨rfl, rfl⟩) hc
      cases hrun
    | fails | failsLate => exact .leave hmem rfl rfl hc
  | reserve hmem hn => exact source_reserve hmem hn hc
  | finish hmem hn =>
    refine .advance hmem hn rfl rfl (fun hrun => ?_) (by exact ⟨rfl, rfl⟩) hc
    dsimp only at hrun
    split at hrun <;> cases hrun
  | complete hmem hn =>
    refine .advance hmem hn rfl rfl (fun hrun => ?_) (by exact ⟨rfl, rfl⟩) hc
    cases hrun
  | record hmem => exact .leave hmem rfl rfl hc
  | answer hmem => exact .leave hmem rfl rfl hc
  | cancel hmem => exact .leave hmem rfl rfl hc

/-- Only a crash loses the memory. -/
lemma memory_of_step (hstep : s.step cfg a = some s') (hcrash : a ≠ .crash)
    (hmem : s.memory.isSome = true) : s'.memory.isSome = true := by
  cases effect_of_step hstep with
  | start hnone =>
    rw [hnone] at hmem
    cases hmem
  | crash => exact absurd rfl hcrash
  | execute _ hexecute =>
    rcases execute_spec hexecute with ⟨m', error, -, rfl⟩ | ⟨m', c₁, -, -, -, -, rfl⟩ <;> rfl
  | @cleanup m n c now fate => cases fate <;> rfl
  | reserve =>
    unfold System.reserve
    split
    · rfl
    · rfl
    · rfl
    · rfl
    · split
      · rfl
      · split <;> rfl
  | finish _ hn hphase he | complete _ hn hphase | record _ hn hphase he
  | answer | cancel => rfl

end

/-! ### Rows -/

section
variable {cfg : JournalConfig} {s s' : System} {n : ℕ} {c : Call} {a : Action} {id : String} {row : Row}

/-- A row that has passed its expiry is deleted when a call cleans up. -/
def Outdates (s : System) (a : Action) (id : String) : Prop :=
  ∃ n fate c now, a = .cleanup n fate ∧ fate ≠ .fails ∧ s.call n = some c ∧ c.phase = .cleaning now ∧
    s.table.isExpired now id = true

lemma isSome_reserve {m : Memory} (hrow : (s.table.lookup id).isSome = true) (now : ℕ) (fate : Fate) :
    ((s.reserve cfg m n c now fate).table.lookup id).isSome = true := by
  have hinsert : ((s.insert c (now + cfg.retention)).table.lookup id).isSome = true := by
    rw [System.insert, lookup_insert_eq]
    split
    · rfl
    · exact hrow
  unfold System.reserve
  split
  · exact hrow
  · exact hinsert
  · exact hrow
  · exact hinsert
  · split
    · exact hrow
    · split <;> exact hrow

/-- A row only leaves when it is outdated. -/
lemma row_of_step (hstep : s.step cfg a = some s') (hmem : s.memory.isSome = true)
    (hrow : (s.table.lookup id).isSome = true) :
    (s'.table.lookup id).isSome = true ∨ Outdates s a id := by
  cases effect_of_step hstep with
  | start hnone =>
    rw [hnone] at hmem
    cases hmem
  | crash hmem | finish hmem hn hphase he | record hmem hn hphase he
  | answer | cancel => exact .inl hrow
  | execute hmem hexecute =>
    left
    rcases execute_spec hexecute with ⟨m', error, -, rfl⟩ | ⟨m', c₁, -, -, -, -, rfl⟩ <;> exact hrow
  | @cleanup m n c now fate hmem hn hphase =>
    obtain ⟨row, hrow'⟩ := isSome_iff_exists.mp hrow
    have hcall := (call_eq hmem n).trans hn
    cases fate with
    | ok | failsLate =>
      by_cases hlt : now < row.expiresAt
      · exact .inl (isSome_of_eq_some (lookup_deleteExpiredOperations_of_lt hrow' hlt))
      refine .inr ⟨n, _, c, now, rfl, by simp, hcall, hphase, ?_⟩
      rw [Table.isExpired, hrow']
      exact decide_eq_true (not_lt.mp hlt)
    | fails => exact .inl hrow
  | reserve => exact .inl (isSome_reserve hrow _ _)
  | @complete =>
    left
    simp only [complete]
    split
    · exact hrow
    unfold Table.completeOperation
    split
    · exact hrow
    split
    · rw [lookup_insert_eq]
      split
      · rfl
      · exact hrow
    · exact hrow

/-- A reservation that succeeds has a row. -/
lemma row_of_reserve {now : ℕ} (hstep : s.step cfg (.reserve n now .ok) = some s')
    (hc : s.call n = some c) (hrow : s.table.lookup c.id = none) :
    (s'.table.lookup c.id).isSome = true := by
  cases effect_of_step hstep with
  | reserve hmem hn =>
    rw [call_eq hmem, hn] at hc
    cases hc
    simp only [System.reserve, hrow, System.begin, System.insert, lookup_insert_eq, if_true,
      isSome_some]

/-- An operation runs once at a time. -/
lemma eq_of_isRunning {n' : ℕ} {c' : Call} (hs : SystemOK cfg s) (hc : s.call n = some c)
    (hc' : s.call n' = some c') (hrun : c.phase.isRunning = true) (hrun' : c'.phase.isRunning = true)
    (hid : c.id = c'.id) : n = n' := by
  obtain ⟨m, hmem, hn⟩ := bind_eq_some_iff.mp hc
  rw [call_eq hmem] at hc'
  have hown : ∀ k (x : Call), m.calls.lookup k = some x → x.phase.isRunning = true →
      ∃ ref e, Active m k x ref e := by
    intro k x hx hrunning
    have hphase := (hs.memory m hmem).calls k x hx
    cases hp : x.phase with
    | running ref =>
      rw [hp] at hphase
      obtain ⟨e, hactive, -⟩ := hphase
      exact ⟨ref, e, hactive⟩
    | waiting | cleaning | reserving | completing | recording => simp [hp, Phase.isRunning] at hrunning
  obtain ⟨ref, e, hactive⟩ := hown n c hn hrun
  obtain ⟨ref', e', hactive'⟩ := hown n' c' hc' hrun'
  obtain rfl := some.inj (hactive.entries.symm.trans (hid ▸ hactive'.entries))
  cases hactive.heap.symm.trans hactive'.heap
  exact hactive.owner.symm.trans hactive'.owner

end

/-! ### Runs and answers -/

/-- The outcome of a run for a request with the same digest. -/
def History.Ran (cfg : JournalConfig) (h : History) (request : List UInt8) (outcome : Outcome) : Prop :=
  ∃ (k : ℕ) (r : Reservation), (k, outcome) ∈ h.ended ∧ h.reservations[k]? = some r ∧
    cfg.canonicalHash request = some r.hash

/-- Every answer without an error is the outcome of a run. -/
def Answered (cfg : JournalConfig) (h : History) : Prop :=
  ∀ a ∈ h.answers, a.error = none → h.Ran cfg a.request a.outcome

variable {cfg : JournalConfig} {s s' : System} {m : Memory} {n : ℕ} {c : Call} {a : Action}

/-- A run ends when its function returns. -/
lemma ended_of_step (hstep : s.step cfg a = some s') :
    s'.history.ended = s.history.ended ∨ ∃ n outcome now m c ref e, a = .finish n outcome now ∧
      s.memory = some m ∧ m.calls.lookup n = some c ∧ c.phase = .running ref ∧ m.heap[ref]? = some e ∧
      s'.history.ended = s.history.ended ++ [(e.reservation, outcome)] := by
  cases effect_of_step hstep with
  | start =>
    left
    unfold start
    split <;> rfl
  | crash => exact .inl rfl
  | execute hmem hexecute =>
    left
    rcases execute_spec hexecute with ⟨m', error, -, rfl⟩ | ⟨m', c₁, -, -, -, -, rfl⟩ <;> rfl
  | @cleanup m n c now fate =>
    left
    cases fate <;> rfl
  | reserve =>
    left
    unfold System.reserve
    split
    · rfl
    · rfl
    · rfl
    · rfl
    · split
      · rfl
      · split <;> rfl
  | finish hmem hn hphase he => exact .inr ⟨_, _, _, _, _, _, _, rfl, hmem, hn, hphase, he, rfl⟩
  | complete hmem hn hphase | record hmem hn hphase he | answer hmem hn hphase he hcomplete
  | cancel => exact .inl rfl

lemma extends_reserve (now : ℕ) (fate : Fate) :
    Extends s.history (s.reserve cfg m n c now fate).history := by
  have hinsert := extends_insert s c (now + cfg.retention)
  unfold System.reserve
  split
  · exact ⟨fun _ _ h => h, fun _ h => h, fun _ h => h⟩
  · exact ⟨hinsert.reservations, hinsert.started, hinsert.ended⟩
  · exact ⟨fun _ _ h => h, fun _ h => h, fun _ h => h⟩
  · exact ⟨hinsert.reservations, fun _ h => List.mem_append_left _ h, hinsert.ended⟩
  · split
    · exact ⟨fun _ _ h => h, fun _ h => h, fun _ h => h⟩
    · split <;> exact ⟨fun _ _ h => h, fun _ h => h, fun _ h => h⟩

/-- The history only grows. -/
lemma extends_of_step (hstep : s.step cfg a = some s') : Extends s.history s'.history := by
  cases effect_of_step hstep with
  | start =>
    unfold start
    split <;> exact ⟨fun _ _ h => h, fun _ h => h, fun _ h => h⟩
  | crash | complete => exact .refl _
  | execute hmem hexecute =>
    rcases execute_spec hexecute with ⟨m', error, -, rfl⟩ | ⟨m', c₁, -, -, -, -, rfl⟩
    · exact ⟨fun _ _ h => h, fun _ h => h, fun _ h => h⟩
    · exact .refl _
  | @cleanup m n c now fate => cases fate <;> exact ⟨fun _ _ h => h, fun _ h => h, fun _ h => h⟩
  | reserve => exact extends_reserve _ _
  | finish => exact ⟨fun _ _ h => h, fun _ h => h, fun _ h => List.mem_append_left _ h⟩
  | record | answer | cancel => exact ⟨fun _ _ h => h, fun _ h => h, fun _ h => h⟩

variable {h h' : History} {request : List UInt8} {outcome : Outcome}

lemma History.Ran.mono (hran : h.Ran cfg request outcome) (hext : Extends h h') :
    h'.Ran cfg request outcome := by
  obtain ⟨k, r, hk, hr, hhash⟩ := hran
  exact ⟨k, r, hext.ended _ hk, hext.reservations k r hr, hhash⟩

lemma Answered.extend (hans : Answered cfg h) (hext : Extends h h') (heq : h'.answers = h.answers) :
    Answered cfg h' := by
  intro x hx herror
  rw [heq] at hx
  exact (hans x hx herror).mono hext

lemma Answered.reply (hans : Answered cfg h) {x : Answer}
    (hx : x.error = none → h.Ran cfg x.request x.outcome) :
    Answered cfg { h with answers := h.answers ++ [x] } := by
  have hext : Extends h { h with answers := h.answers ++ [x] } := ⟨fun _ _ h => h, fun _ h => h, fun _ h => h⟩
  intro y hy herror
  exact (forall_mem_concat hans hx y hy herror).mono hext

lemma ran_of_entry {t : Table} (hm : MemoryOK cfg t h m) {ref : ℕ} {e : Entry}
    (hn : m.calls.lookup n = some c) (he : m.heap[ref]? = some e) (hhash : e.hash = c.hash)
    (hended : (e.reservation, outcome) ∈ h.ended) : h.Ran cfg c.request outcome := by
  obtain ⟨r, hr, hr_hash⟩ := (hm.heap ref e he).reserved
  refine ⟨e.reservation, r, hended, hr, ?_⟩
  rw [hm.hash n c hn, hr_hash, hhash]

/-- The answers after `ReserveOperation`: a row that is replayed has the outcome of its run. -/
lemma Answered.reserve (hs : SystemOK cfg s) (hmem : s.memory = some m)
    (hn : m.calls.lookup n = some c) (hans : Answered cfg s.history) (now : ℕ) (fate : Fate) :
    Answered cfg (s.reserve cfg m n c now fate).history := by
  have hinsert : Answered cfg (s.insert c (now + cfg.retention)).history :=
    hans.extend (extends_insert s c _) rfl
  unfold System.reserve
  split
  · exact hans.reply nofun
  · exact hinsert.reply nofun
  · exact hans.reply nofun
  · exact hinsert.extend ⟨fun _ _ h => h, fun _ h => List.mem_append_left _ h, fun _ h => h⟩ rfl
  · next row hrow =>
    split
    · exact hans.reply nofun
    rename_i hhash
    split
    · exact hans.reply nofun
    rename_i outcome houtcome
    refine hans.reply fun _ => ?_
    obtain ⟨r, hr, -, hr_hash⟩ := hs.stored.row c.id row hrow
    refine ⟨row.reservation, r, hs.stored.completed c.id row outcome hrow houtcome, hr, ?_⟩
    rw [(hs.memory m hmem).hash n c hn, hr_hash, not_not.mp hhash]

/-- What has run had run before, or ends with this step. -/
lemma ran_of_step (hs : SystemOK cfg s) (hstep : s.step cfg a = some s')
    (hran : s'.history.Ran cfg request outcome) :
    s.history.Ran cfg request outcome ∨ ∃ n now c, a = .finish n outcome now ∧ s.call n = some c ∧
      c.phase.isRunning = true ∧ cfg.canonicalHash c.request = cfg.canonicalHash request := by
  obtain ⟨k, r, hk, hr, hhash⟩ := hran
  have hext := extends_of_step hstep
  have hold : (k, outcome) ∈ s.history.ended → s.history.Ran cfg request outcome := by
    intro hk
    obtain ⟨x, hx, rfl⟩ := hs.recorded.ended _ hk
    obtain ⟨r₀, hr₀, -⟩ := hs.recorded.known x hx
    obtain rfl := some.inj ((hext.reservations _ _ hr₀).symm.trans hr)
    exact ⟨_, _, hk, hr₀, hhash⟩
  rcases ended_of_step hstep with heq | ⟨n, outcome', now, m, c, ref, e, rfl, hmem, hn, hphase, he, heq⟩
  · exact .inl (hold (heq ▸ hk))
  rw [heq] at hk
  rcases List.mem_append.mp hk with hk | hk
  · exact .inl (hold hk)
  obtain ⟨rfl, rfl⟩ := Prod.mk.inj (List.mem_singleton.mp hk)
  have hcall := (hs.memory m hmem).calls n c hn
  rw [hphase] at hcall
  obtain ⟨e', hactive, -⟩ := hcall
  cases he.symm.trans hactive.heap
  obtain ⟨r₀, hr₀, hr₀_hash⟩ := ((hs.memory m hmem).heap ref e he).reserved
  obtain rfl := some.inj ((hext.reservations _ _ hr₀).symm.trans hr)
  refine .inr ⟨n, now, c, rfl, (call_eq hmem n).trans hn, by rw [hphase]; rfl, ?_⟩
  rw [(hs.memory m hmem).hash n c hn, hhash, hr₀_hash, hactive.hash]

/-- Every answer without an error is that of a run. -/
lemma answered_of_step (hs : SystemOK cfg s) (hans : Answered cfg s.history)
    (hstep : s.step cfg a = some s') : Answered cfg s'.history := by
  have hsame : s'.history.answers = s.history.answers → Answered cfg s'.history :=
    hans.extend (extends_of_step hstep)
  cases effect_of_step hstep with
  | start =>
    refine hsame ?_
    unfold start
    split <;> rfl
  | crash | complete => exact hans
  | execute hmem hexecute =>
    rcases execute_spec hexecute with ⟨m', error, -, rfl⟩ | ⟨m', c₁, -, -, -, -, rfl⟩
    · exact hans.reply nofun
    · exact hans
  | @cleanup m n c now fate =>
    cases fate with
    | ok => exact hsame rfl
    | fails => exact hans.reply nofun
    | failsLate =>
      have hexpire : Answered cfg (s.expire now).history :=
        hans.extend ⟨fun _ _ h => h, fun _ h => h, fun _ h => h⟩ rfl
      exact hexpire.reply nofun
  | reserve hmem hn => exact hans.reserve hs hmem hn _ _
  | finish => exact hsame rfl
  | @record m n c ref e outcome persisted hmem hn hphase =>
    have hcall := (hs.memory m hmem).calls n c hn
    rw [hphase] at hcall
    obtain ⟨e', hactive, hended⟩ := hcall
    exact hans.reply fun _ => ran_of_entry (hs.memory m hmem) hn hactive.heap hactive.hash hended
  | @answer m n c ref e hmem hn hphase he hcomplete =>
    have hcall := (hs.memory m hmem).calls n c hn
    rw [hphase] at hcall
    obtain ⟨e', he', hhash, -⟩ := hcall
    cases he.symm.trans he'
    exact hans.reply fun herror => ran_of_entry (hs.memory m hmem) hn he hhash
      (((hs.memory m hmem).heap ref e he).ended hcomplete herror)
  | cancel => exact hans.reply nofun

end Paperboat.Operation

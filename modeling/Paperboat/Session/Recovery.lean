import Paperboat.Session.Operations

/-!
# What recovery does

`recover` moves each row to a state without a process, trims the output and rebuilds the memory from the
row. An error means that a store call failed, that some row is not recoverable, or that two rows have one
name (`safe_recover`).
-/

namespace Paperboat.Session

open List FinMap Store

open Store (Database Transaction Record SessionRow)

/-! ### One row -/

/-- How a row can change while it is recovered. -/
structure Recovering (row row' : SessionRow) : Prop where
  name : row'.name = row.name
  generation : row'.generation = row.generation
  decisions : row'.decisions = row.decisions
  output : row.output.Valid → row'.output.Valid
  state : row'.state = row.state ∨ recoveredState row.state = some row'.state

/-- A row that recovery accepts. -/
structure Recoverable (cfg : ManagerConfig) (row : SessionRow) : Prop where
  lifecycle : ∃ state l, recoveredState row.state = some state ∧
    recoverLifecycle state row.generation = .ok l
  output : row.output.Valid
  keys : ∀ key decision, row.decisions.lookup key = some decision →
    key.incomplete = false ∧ decision.status ≠ .duplicate
  size : row.decisions.size ≤ cfg.maxInputDecisions

/-- The memory of a session that was recovered from `row`, which has become `row'`. -/
structure Recovered (cfg : ManagerConfig) (row row' : SessionRow) (m : ManagedSession) : Prop where
  name : m.name = row'.name
  settled : recoveredState row.state = some row'.state
  lifecycle : recoverLifecycle row'.state row'.generation = .ok m.lifecycle
  history : row.output.Valid → ∃ stream, m.history.Valid stream
  current : m.inputs.current = row'.generation
  max : m.inputs.max = cfg.maxInputDecisions
  decisions : ∀ key, m.inputs.decisions.lookup key = row'.decisions.lookup key
  size : m.inputs.decisions.size = row'.decisions.size
  process : m.process = false
  attached : m.attached = []

lemma Recovering.refl (row : SessionRow) : Recovering row row := ⟨rfl, rfl, rfl, id, .inl rfl⟩

/-! ### Decisions -/

variable {j : InputJournal}

lemma restoreDecisions_spec {l : List (Sigma fun _ : InputKey => InputDecision)} {j' : InputJournal}
    (hl : l.NodupKeys) (h : restoreDecisions j l = .ok j') :
    j'.current = j.current ∧ j'.max = j.max ∧ j'.decisions.size = j.decisions.size + l.length ∧
      ∀ key, j'.decisions.lookup key = (l.dlookup key).or (j.decisions.lookup key) := by
  induction l generalizing j with
  | nil =>
    cases h
    simp
  | cons e l ih =>
    obtain ⟨key₀, decision⟩ := e
    rw [nodupKeys_cons] at hl
    simp only [restoreDecisions, InputJournal.restore] at h
    split_ifs at h with hkey hstatus hsome hfull
    obtain ⟨hcurrent, hmax, hsize, hlookup⟩ := ih hl.2 h
    have hnone : j.decisions.lookup key₀ = none := by simpa using hsome
    refine ⟨hcurrent, hmax, ?_, fun key => ?_⟩
    · rw [hsize, InputJournal.record, size_insert _ hnone, length_cons]
      omega
    · rw [hlookup, InputJournal.record, lookup_insert_eq]
      by_cases hk : key = key₀
      · subst hk
        rw [if_pos rfl, dlookup_cons_eq, dlookup_eq_none.mpr hl.1]
        rfl
      · rw [if_neg hk, dlookup_cons_ne _ _ hk]

/-- Decisions with complete keys are restored when there is room for them. -/
lemma exists_restoreDecisions {l : List (Sigma fun _ : InputKey => InputDecision)} (hl : l.NodupKeys)
    (hkeys : ∀ e ∈ l, e.1.incomplete = false ∧ e.2.status ≠ .duplicate ∧
      j.decisions.lookup e.1 = none) (hroom : j.decisions.size + l.length ≤ j.max) :
    ∃ j', restoreDecisions j l = .ok j' := by
  induction l generalizing j with
  | nil => exact ⟨j, rfl⟩
  | cons e l ih =>
    obtain ⟨key₀, decision⟩ := e
    rw [nodupKeys_cons] at hl
    obtain ⟨hkey, hstatus, hnone⟩ := hkeys _ mem_cons_self
    rw [length_cons] at hroom
    have hrestore : j.restore key₀ decision = .ok (j.record key₀ decision) := by
      rw [InputJournal.restore, if_neg (by simpa using hkey), if_neg hstatus, if_neg (by simp [hnone]),
        if_neg (by omega)]
    rw [restoreDecisions, hrestore]
    refine ih hl.2 (fun e he => ?_) ?_
    · obtain ⟨hkey', hstatus', hnone'⟩ := hkeys e (mem_cons_of_mem _ he)
      refine ⟨hkey', hstatus', ?_⟩
      have hne : e.1 ≠ key₀ := by
        intro heq
        have hmem := mem_keys_of_mem he
        rw [heq] at hmem
        exact hl.1 hmem
      rw [InputJournal.record, lookup_insert_eq, if_neg hne, hnone']
    · simp only [InputJournal.record, size_insert _ hnone]
      omega

lemma Recoverable.exists_restoreDecisions {cfg : ManagerConfig} {row : SessionRow}
    (h : Recoverable cfg row) (generation : ℕ) :
    ∃ j, restoreDecisions (newBoundedInputJournal generation cfg.maxInputDecisions)
      row.decisions.entries = .ok j := by
  refine Session.exists_restoreDecisions row.decisions.nodupKeys (fun e he => ?_) ?_
  · obtain ⟨hkey, hstatus⟩ := h.keys e.1 e.2 ((lookup_eq_some_iff_mem _ _ _).mpr he)
    exact ⟨hkey, hstatus, AList.lookup_empty _⟩
  · rw [newBoundedInputJournal, show FinMap.size (∅ : FinMap InputKey InputDecision) = 0 from rfl,
      zero_add]
    exact h.size

/-! ### One session -/

section
variable {cfg : ManagerConfig} {rules : Rules World Call Fate} {failing : Prop} {db₀ : Database}
  {id : String} {row : SessionRow} {w : World}

/-- The database while a session is recovered. -/
def RecoveringOne (db₀ : Database) (id : String) (row : SessionRow) (writes : List Written)
    (w : World) : Prop :=
  ∃ row', Focus db₀ id row' w.db ∧ Recovering row row' ∧ w.writes = writes

/-- What the recovery of a session leaves. With an error, the row was not recoverable or a store call
failed. -/
def RecoveredOne (cfg : ManagerConfig) (failing : Prop) (db₀ : Database) (id : String)
    (row : SessionRow) (writes : List Written) (r : Except RecoverError ManagedSession)
    (w : World) : Prop :=
  ∃ row', Focus db₀ id row' w.db ∧ Recovering row row' ∧ w.writes = writes ∧
    match r with
    | .ok m => Recovered cfg row row' m
    | .error _ => Recoverable cfg row → failing

lemma RecoveringOne.error {writes : List Written} (h : RecoveringOne db₀ id row writes w)
    (hfail : Recoverable cfg row → failing) (e : RecoverError) :
    RecoveredOne cfg failing db₀ id row writes (.error e) w := by
  obtain ⟨row', hF, hrow, hw⟩ := h
  exact ⟨row', hF, hrow, hw, hfail⟩

variable {row' : SessionRow}

/-- `reloadInputs` builds the memory, from a history that is valid if the output was. -/
lemma safe_reloadInputs {retained : History} (hr : ∀ w c, rules.allows w c .fails → failing)
    (hF : Focus db₀ id row' w.db) (hrow : Recovering row row')
    (hstate : recoveredState row.state = some row'.state)
    (hhistory : row.output.Valid → ∃ stream, retained.Valid stream) :
    (reloadInputs cfg id row row'.state retained).Safe perform rules
      (RecoveredOne cfg failing db₀ id row w.writes) (RecoveringOne db₀ id row w.writes) w := by
  have h₀ : RecoveringOne db₀ id row w.writes w := ⟨row', hF, hrow, rfl⟩
  unfold reloadInputs
  rcases hlifecycle : recoverLifecycle row'.state row.generation with _ | _
  · refine h₀.error (fun hrec => ?_) _
    obtain ⟨state, l, hstate', hok⟩ := hrec.lifecycle
    cases hstate.symm.trans hstate'
    rw [hlifecycle] at hok
    cases hok
  refine safe_store (fun _ => h₀) (fun hf => h₀.error (fun _ => hr _ _ hf) _)
    (fun e he => nomatch he) fun db decisions hrun => ?_
  have hdb : db = w.db ∧ decisions = row'.decisions.entries := by
    simp only [Transaction.run, Database.inputDecisions, hF.lookup, Except.ok.injEq,
      Prod.mk.injEq] at hrun
    exact ⟨hrun.1.symm, hrun.2.symm⟩
  obtain ⟨rfl, rfl⟩ := hdb
  dsimp only
  cases hinputs : restoreDecisions (newBoundedInputJournal row.generation cfg.maxInputDecisions)
      row'.decisions.entries with
  | error e =>
    refine h₀.error (fun hrec => ?_) _
    obtain ⟨j, hj⟩ := hrec.exists_restoreDecisions row.generation
    rw [← hrow.decisions, hinputs] at hj
    cases hj
  | ok inputs =>
    obtain ⟨hcurrent, hmax, hsize, hlookup⟩ := restoreDecisions_spec row'.decisions.nodupKeys hinputs
    refine ⟨row', hF, hrow, rfl, hrow.name.symm, hstate, by rw [hrow.generation]; exact hlifecycle,
      hhistory, by rw [hcurrent, hrow.generation]; rfl, hmax, fun key => ?_, ?_, rfl, rfl⟩
    · rw [hlookup]
      exact Option.or_none
    · rw [hsize]
      exact zero_add _

lemma safe_reload {recovered : State} (hr : ∀ w c, rules.allows w c .fails → failing)
    (hstate : recoveredState row.state = some recovered)
    (hF : Focus db₀ id { row with state := recovered } w.db) :
    (reload cfg id row recovered).Safe perform rules
      (RecoveredOne cfg failing db₀ id row w.writes) (RecoveringOne db₀ id row w.writes) w := by
  have h₀ : RecoveringOne db₀ id row w.writes w :=
    ⟨_, hF, ⟨rfl, rfl, rfl, fun h => h, .inr hstate⟩, rfl⟩
  refine safe_store (fun _ => h₀) (fun hf => h₀.error (fun _ => hr _ _ hf) _)
    (fun e he => h₀.error (fun hrec => ?_) _) fun db earliest hrun => ?_
  · obtain ⟨log, htrim, -⟩ := OutputLog.trimOutput_spec hrec.output cfg.historyBytes_pos
    rw [Transaction.run, hF.onOutput] at he
    simp [htrim, Except.map] at he
  rw [Transaction.run, hF.onOutput] at hrun
  rcases htrim : row.output.trimOutput cfg.historyBytes with _ | log
  · simp [htrim, Except.map] at hrun
  simp only [htrim, Except.map, Except.ok.injEq, Prod.mk.injEq, AList.lookup_insert] at hrun
  obtain ⟨hdb, hearliest⟩ := hrun
  obtain rfl : log.earliest = earliest := by simpa using hearliest
  have hF₁ : Focus db₀ id { row with state := recovered, output := log } db := hdb ▸ hF.insert _
  have hlog : row.output.Valid → log.Valid ∧ log.latest - log.earliest ≤ cfg.historyBytes := by
    intro hv
    obtain ⟨log', htrim', hv', -, hfits⟩ := OutputLog.trimOutput_spec hv cfg.historyBytes_pos
    obtain rfl := Except.ok.inj (htrim.symm.trans htrim')
    exact ⟨hv', hfits⟩
  have hrow : Recovering row { row with state := recovered, output := log } :=
    ⟨rfl, rfl, rfl, fun hv => (hlog hv).1, .inr hstate⟩
  have h₁ : RecoveringOne db₀ id row w.writes { w with db := db } := ⟨_, hF₁, hrow, rfl⟩
  have hreplay : (Transaction.replay id log.earliest 0).run db =
      (log.replay log.earliest 0).map fun r => (db, r) := by
    simp only [Transaction.run, Database.ofOutput, hF₁.lookup]
  refine safe_store (fun _ => h₁) (fun hf => h₁.error (fun _ => hr _ _ hf) _)
    (fun e he => h₁.error (fun hrec => ?_) _) fun db' read hrun => ?_
  · rw [hreplay, OutputLog.replay_earliest (hlog hrec.output).1] at he
    cases he
  obtain ⟨events, earliest, latest⟩ := read
  rw [hreplay] at hrun
  have hread : log.replay log.earliest 0 = .ok (events, earliest, latest) ∧ db' = db := by
    cases hlogged : log.replay log.earliest 0 with
    | error => simp [hlogged, Except.map] at hrun
    | ok =>
      simp only [hlogged, Except.map, Except.ok.injEq, Prod.mk.injEq] at hrun
      exact ⟨congrArg _ hrun.2, hrun.1.symm⟩
  obtain ⟨hread, rfl⟩ := hread
  have hevents : row.output.Valid →
      events = log.rows ∧ earliest = log.earliest ∧ latest = log.latest := by
    intro hv
    rw [OutputLog.replay_earliest (hlog hv).1] at hread
    simpa [eq_comm] using hread
  dsimp only
  rcases hrestore : History.restore cfg.historyBytes earliest latest events with _ | _
  · refine h₁.error (fun hrec => ?_) _
    obtain ⟨rfl, rfl, rfl⟩ := hevents hrec.output
    obtain ⟨hv, hfits⟩ := hlog hrec.output
    obtain ⟨h, hh, -⟩ := OutputLog.exists_restore hv cfg.historyBytes_pos hfits
    rw [hrestore] at hh
    cases hh
  refine safe_reloadInputs (w := { w with db := db' }) hr hF₁ hrow hstate fun hv => ?_
  obtain ⟨rfl, rfl, rfl⟩ := hevents hv
  have hvalid := (hlog hv).1
  exact ⟨_, History.restore_valid hrestore hvalid.latest_le hvalid.nonempty
    (length_replicate (n := log.earliest) (a := 0))⟩

lemma safe_recoverOne (hr : ∀ w c, rules.allows w c .fails → failing) (hF : Focus db₀ id row w.db) :
    (recoverOne cfg id row).Safe perform rules
      (RecoveredOne cfg failing db₀ id row w.writes) (RecoveringOne db₀ id row w.writes) w := by
  have h₀ : RecoveringOne db₀ id row w.writes w := ⟨row, hF, .refl row, rfl⟩
  unfold recoverOne
  rcases hstate : recoveredState row.state with _ | _
  · refine h₀.error (fun hrec => ?_) _
    obtain ⟨state, l, hstate', -⟩ := hrec.lifecycle
    rw [hstate] at hstate'
    cases hstate'
  dsimp only
  split
  · next heq =>
    subst heq
    exact safe_reload hr hstate hF
  · refine safe_store (fun _ => h₀) (fun hf => h₀.error (fun _ => hr _ _ hf) _)
      (fun e he => ?_) fun db r hrun => ?_
    all_goals simp only [Transaction.run, hF.updateSession, if_true, committed, Except.map] at *
    · cases he
    · cases hrun
      exact safe_reload (w := { w with db := _ }) hr hstate (hF.insert _)

end

/-! ### The walk -/

/-- How the database can change during recovery. -/
structure RecoveringAll (db db' : Database) : Prop where
  forth : ∀ id row, db.lookup id = some row →
    ∃ row', db'.lookup id = some row' ∧ Recovering row row'
  back : ∀ id row', db'.lookup id = some row' →
    ∃ row, db.lookup id = some row ∧ Recovering row row'

/-- The managed sessions are recovered. -/
def RecoveredAll (cfg : ManagerConfig) (db db' : Database) (sessions : Sessions) : Prop :=
  ∀ id m, sessions.lookup id = some m → ∃ row row', db.lookup id = some row ∧
    db'.lookup id = some row' ∧ Recovering row row' ∧ Recovered cfg row row' m

lemma RecoveringAll.uniqueNames {db db' : Database} (h : RecoveringAll db db')
    (hnames : UniqueNames db) : UniqueNames db' := by
  intro id₁ id₂ r₁ r₂ h₁ h₂ heq
  obtain ⟨row₁, hrow₁, hr₁⟩ := h.back id₁ r₁ h₁
  obtain ⟨row₂, hrow₂, hr₂⟩ := h.back id₂ r₂ h₂
  exact hnames id₁ id₂ row₁ row₂ hrow₁ hrow₂ (by rw [← hr₁.name, ← hr₂.name, heq])

variable {cfg : ManagerConfig} {rules : Rules World Call Fate} {failing : Prop} {db₀ : Database}
  {l : List (Sigma fun _ : String => SessionRow)} {sessions : Sessions} {w : World}
  {writes : List Written}

/-- The state of the walk: the rows that are still to come are as they were read. -/
structure Walking (cfg : ManagerConfig) (db₀ : Database) (writes : List Written)
    (l : List (Sigma fun _ : String => SessionRow)) (sessions : Sessions) (w : World) : Prop where
  all : RecoveringAll db₀ w.db
  kept : w.writes = writes
  nodup : l.NodupKeys
  rest : ∀ e ∈ l, db₀.lookup e.1 = some e.2 ∧ w.db.lookup e.1 = some e.2
  gone : ∀ e ∈ l, sessions.lookup e.1 = none
  done : RecoveredAll cfg db₀ w.db sessions

variable {row' : SessionRow}

lemma Walking.recoveringAll {e : Sigma fun _ : String => SessionRow} {db : Database}
    (h : Walking cfg db₀ writes (e :: l) sessions w) (hF : Focus w.db e.1 row' db)
    (hrow : Recovering e.2 row') : RecoveringAll db₀ db := by
  have he := h.rest e mem_cons_self
  constructor
  · intro id row hlookup
    by_cases hid : id = e.1
    · subst hid
      cases he.1.symm.trans hlookup
      exact ⟨row', hF.lookup, hrow⟩
    · obtain ⟨r, hr, hrec⟩ := h.all.forth id row hlookup
      exact ⟨r, by rw [hF id, if_neg hid, hr], hrec⟩
  · intro id r hlookup
    rw [hF id] at hlookup
    split at hlookup
    · next hid =>
      cases hlookup
      exact ⟨e.2, by rw [hid, he.1], hrow⟩
    · exact h.all.back id r hlookup

variable {m : ManagedSession}

lemma Walking.next {e : Sigma fun _ : String => SessionRow} {w' : World}
    (h : Walking cfg db₀ writes (e :: l) sessions w) (hF : Focus w.db e.1 row' w'.db)
    (hw : w'.writes = w.writes) (hrow : Recovering e.2 row') (hm : Recovered cfg e.2 row' m) :
    Walking cfg db₀ writes l (sessions.insert e.1 m) w' := by
  have hnodup := nodupKeys_cons.mp h.nodup
  have hne : ∀ e' ∈ l, e'.1 ≠ e.1 := by
    intro e' he' heq
    have hmem := mem_keys_of_mem he'
    rw [heq] at hmem
    exact hnodup.1 hmem
  refine ⟨h.recoveringAll hF hrow, hw.trans h.kept, hnodup.2, fun e' he' => ?_, fun e' he' => ?_,
    forall_insert ⟨e.2, row', (h.rest e mem_cons_self).1, hF.lookup, hrow, hm⟩
      fun id m' hlookup hid => ?_⟩
  · obtain ⟨h₁, h₂⟩ := h.rest e' (mem_cons_of_mem _ he')
    exact ⟨h₁, by rw [hF, if_neg (hne e' he'), h₂]⟩
  · exact (AList.lookup_insert_ne (hne e' he')).trans (h.gone e' (mem_cons_of_mem _ he'))
  · obtain ⟨r, r', hr, hr', hrec⟩ := h.done id m' hlookup
    exact ⟨r, r', hr, by rw [hF id, if_neg hid, hr'], hrec⟩

/-- The session at hand is new to the manager when the names are unique. -/
lemma Walking.new {e : Sigma fun _ : String => SessionRow}
    (h : Walking cfg db₀ writes (e :: l) sessions w) (hrow : Recovering e.2 row')
    (hm : Recovered cfg e.2 row' m) (hnames : UniqueNames db₀) :
    ¬ ((sessions.lookup e.1).isSome ∨ (sessions.entries.any fun x => x.2.name = m.name) = true) := by
  have hnone := h.gone e mem_cons_self
  rintro (hsome | hany)
  · simp [hnone] at hsome
  · obtain ⟨x, hx, hname⟩ := any_eq_true.mp hany
    have hlookup := (lookup_eq_some_iff_mem sessions x.1 x.2).mpr hx
    obtain ⟨r, r', hr, -, hrec, hx'⟩ := h.done x.1 x.2 hlookup
    have hnames' : r.name = e.2.name := by
      rw [← hrec.name, ← hx'.name, of_decide_eq_true hname, hm.name, hrow.name]
    have hid := hnames x.1 e.1 r e.2 hr (h.rest e mem_cons_self).1 hnames'
    rw [hid, hnone] at hlookup
    cases hlookup

/-- What the walk leaves. -/
def Walked (cfg : ManagerConfig) (failing : Prop) (db₀ : Database) (writes : List Written)
    (r : Except RecoverError Sessions) (w : World) : Prop :=
  RecoveringAll db₀ w.db ∧ w.writes = writes ∧
    match r with
    | .ok sessions => RecoveredAll cfg db₀ w.db sessions
    | .error _ => AllRows (Recoverable cfg) db₀ → UniqueNames db₀ → failing

lemma safe_recoverLoop (hr : ∀ w c, rules.allows w c .fails → failing)
    (h : Walking cfg db₀ writes l sessions w) :
    (recoverLoop cfg l sessions).Safe perform rules (Walked cfg failing db₀ writes)
      (fun w' => RecoveringAll db₀ w'.db ∧ w'.writes = writes) w := by
  -- the induction is over the rows that are still to come
  induction l generalizing sessions w with
  | nil => exact ⟨h.all, h.kept, h.done⟩
  | cons e l ih =>
    have he := h.rest e mem_cons_self
    unfold recoverLoop
    rw [Prog.safe_bind]
    refine (safe_recoverOne hr (.start he.2)).mono ?_ ?_
    · rintro r w' ⟨row', hF, hrow, hw, hresult⟩
      rcases r with _ | _
      · exact ⟨h.recoveringAll hF hrow, hw.trans h.kept,
          fun hrows _ => hresult (hrows e.1 e.2 he.1)⟩
      dsimp only
      split
      · next hdup =>
        exact ⟨h.recoveringAll hF hrow, hw.trans h.kept,
          fun _ hnames => absurd hdup (h.new hrow hresult hnames)⟩
      · exact ih (h.next hF hw hrow hresult)
    · rintro w' ⟨row', hF, hrow, hw⟩
      exact ⟨h.recoveringAll hF hrow, hw.trans h.kept⟩

lemma walking_start (cfg : ManagerConfig) (w : World) : Walking cfg w.db w.writes w.db.sessions ∅ w where
  all := ⟨fun id row h => ⟨row, h, .refl row⟩, fun id row h => ⟨row, h, .refl row⟩⟩
  kept := rfl
  nodup := (perm_nodupKeys (perm_insertionSort _ _)).mpr w.db.nodupKeys
  rest := by
    intro e he
    have hmem := (perm_insertionSort _ _).mem_iff.mp he
    have hlookup := (lookup_eq_some_iff_mem w.db e.1 e.2).mpr hmem
    exact ⟨hlookup, hlookup⟩
  gone := fun e _ => AList.lookup_empty _
  done := fun id m h => by simp at h

lemma safe_recover (hr : ∀ w c, rules.allows w c .fails → failing) (w : World) :
    (recover cfg).Safe perform rules (Walked cfg failing w.db w.writes)
      (fun w' => RecoveringAll w.db w'.db ∧ w'.writes = w.writes) w := by
  have h₀ := walking_start cfg w
  refine safe_store (fun _ => ⟨h₀.all, rfl⟩) (fun hf => ⟨h₀.all, rfl, fun _ _ => hr _ _ hf⟩)
    (fun e he => nomatch he) fun db records hrun => ?_
  cases hrun
  exact safe_recoverLoop hr h₀

end Paperboat.Session

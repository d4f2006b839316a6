import Paperboat.Session.Effects
import Paperboat.Session.Recovery

/-!
# Recovery from everything the manager stores

`NewManager` refuses to start when one stored row cannot be recovered. Two things can be stored that
recovery does not accept. A session whose creation was cut off comes back as closed in generation 0, and
restarting it stores `restarting` in generation 0, which recovery turns into `exited`. And `Write`
reserves an input in the store before the journal looks at its key, so that a key with an empty part gets
a row.
-/

namespace Paperboat.Session

open Store FinMap

open Store (Database Transaction Record SessionRow)

/-! ### What is stored -/

/-- A state and a generation that the manager can store. -/
def LifeOK : State → ℕ → Prop
  | .creating, generation => generation = 0
  | .running, generation | .exited, generation | .closing, generation => generation ≠ 0
  | .restarting, _ | .closed, _ => True
  | .deleted, _ => False

/-- A row that the manager can store. -/
structure RowOK (cfg : ManagerConfig) (row : SessionRow) : Prop where
  life : LifeOK row.state row.generation
  output : row.output.Valid
  keys : ∀ key decision, row.decisions.lookup key = some decision →
    key.incomplete = false ∧ decision.status ≠ .duplicate
  size : row.decisions.size ≤ cfg.maxInputDecisions

/-- A row that is not on its way from generation 0 to 1. -/
def NotFresh (row : SessionRow) : Prop := ¬ (row.state = .restarting ∧ row.generation = 0)

instance (row : SessionRow) : Decidable (NotFresh row) := inferInstanceAs (Decidable (¬ _))

/-- A managed session and its row. -/
structure LinkOK (cfg : ManagerConfig) (row : SessionRow) (m : ManagedSession) : Prop where
  stored : RowOK cfg row
  life : LifeOK m.lifecycle.state m.lifecycle.generation
  created : m.lifecycle.state ≠ .creating
  history : ∃ stream, m.history.Valid stream
  current : m.lifecycle.state = .running → m.inputs.current = m.lifecycle.generation
  max : m.inputs.max = cfg.maxInputDecisions
  domain : ∀ key, row.decisions.lookup key = none ↔ m.inputs.decisions.lookup key = none
  size : row.decisions.size = m.inputs.decisions.size
  attached : "" ∉ m.attached

/-- The helper does not die while a row is on its way from generation 0 to 1. -/
def recoveryRules : Rules World Call Fate where
  allows _ _ _ := True
  mayCut w := ∀ e ∈ w.db.entries, NotFresh e.2

/-- The keys of inputs have no empty client or input identifier. -/
def KeysComplete : Action → Prop
  | .write _ key _ _ => key.clientID ≠ "" ∧ key.inputID ≠ ""
  | _ => True

/-- The invariant of the database while the helper is down. -/
structure DownOK (cfg : ManagerConfig) (db : Database) : Prop where
  rows : AllRows (RowOK cfg) db
  names : UniqueNames db
  fresh : AllRows NotFresh db

/-- The invariant of database and memory while the helper is up. -/
structure UpOK (cfg : ManagerConfig) (db : Database) (sessions : Sessions) : Prop where
  rows : AllRows (RowOK cfg) db
  names : UniqueNames db
  links : Linked (fun _ => LinkOK cfg) db sessions

variable {cfg : ManagerConfig} {w : World}

lemma allRows_notFresh (h : recoveryRules.mayCut w) : AllRows NotFresh w.db :=
  fun id row hlookup => h ⟨id, row⟩ ((lookup_eq_some_iff_mem _ _ _).mp hlookup)

/-- The helper may die when no row is fresh. -/
lemma UpOK.down {sessions : Sessions} (h : UpOK cfg w.db sessions) (hc : recoveryRules.mayCut w) :
    DownOK cfg w.db :=
  ⟨h.rows, h.names, allRows_notFresh hc⟩

/-! ### Recovery -/

variable {row : SessionRow}

/-- Such a row can be recovered. -/
lemma RowOK.recoverable (h : RowOK cfg row) (hfresh : NotFresh row) : Recoverable cfg row := by
  refine ⟨?_, h.output, h.keys, h.size⟩
  have hlife := h.life
  unfold NotFresh at hfresh
  cases hstate : row.state <;> simp_all [recoveredState, recoverLifecycle_eq_ok, LifeOK]

variable {row' : SessionRow}

lemma RowOK.recovering (h : RowOK cfg row) (hfresh : NotFresh row) (hrow : Recovering row row') :
    RowOK cfg row' ∧ NotFresh row' := by
  obtain ⟨-, hgen, hdecisions, houtput, hstate⟩ := hrow
  have hlife : LifeOK row'.state row'.generation ∧ NotFresh row' := by
    have hlife := h.life
    unfold NotFresh at *
    rw [hgen]
    rcases hstate with heq | heq
    · rw [heq]
      exact ⟨hlife, hfresh⟩
    · cases hs : row.state <;> cases hs' : row'.state <;> simp_all [recoveredState, LifeOK]
  exact ⟨⟨hlife.1, houtput h.output, hdecisions ▸ h.keys, hdecisions ▸ h.size⟩, hlife.2⟩

lemma DownOK.recovering {db db' : Database} (h : DownOK cfg db) (hall : RecoveringAll db db') :
    DownOK cfg db' := by
  refine ⟨fun id row' hlookup => ?_, hall.uniqueNames h.names, fun id row' hlookup => ?_⟩
  all_goals
    obtain ⟨row, hrow, hrec⟩ := hall.back id row' hlookup
    have hok := (h.rows id row hrow).recovering (h.fresh id row hrow) hrec
  · exact hok.1
  · exact hok.2

variable {m : ManagedSession}

/-- A recovered session is linked to its row. -/
lemma Recovered.link (h : Recovered cfg row row' m) (hrow : RowOK cfg row) (hrow' : RowOK cfg row') :
    LinkOK cfg row' m := by
  obtain ⟨hl, hcreating, hstarted⟩ := recoverLifecycle_eq_ok.mp h.lifecycle
  have hsettled : row'.state = .exited ∨ row'.state = .closed := by
    have := h.settled
    cases hs : row.state <;> simp_all [recoveredState]
  refine ⟨hrow', by rw [hl]; exact hrow'.life, ?_, h.history hrow.output, ?_, h.max,
    fun key => by rw [h.decisions], h.size.symm, by simp [h.attached]⟩
  all_goals
    rw [hl]
    rcases hsettled with hs | hs <;> simp [hs]

/-- `recover` succeeds on what the manager stores unless a store call fails. -/
lemma DownOK.safe_recover (h : DownOK cfg w.db) (rules : Rules World Call Fate) (failing : Prop)
    (hr : ∀ w c, rules.allows w c .fails → failing) :
    (recover cfg).Safe perform rules (fun r w' => match r with
        | .ok sessions => UpOK cfg w'.db sessions
        | .error _ => DownOK cfg w'.db ∧ failing) (fun w' => DownOK cfg w'.db) w := by
  refine (Session.safe_recover hr w).mono ?_ fun w' hw' => h.recovering hw'.1
  rintro r w' ⟨hall, -, hresult⟩
  have hdown := h.recovering hall
  rcases r with _ | _
  · exact ⟨hdown, hresult (fun id row hrow => (h.rows id row hrow).recoverable (h.fresh id row hrow))
      h.names⟩
  refine ⟨hdown.rows, hdown.names, fun id m hm => ?_⟩
  obtain ⟨row, row', hrow, hrow', -, hrec⟩ := hresult id m hm
  exact ⟨row', hrow', hrec.link (h.rows id row hrow) (hdown.rows id row' hrow')⟩

/-! ### Changes of the lifecycle -/

/-- The transitions of the lifecycle keep it in order. -/
lemma LifeOK.goto {next : State} (h : LifeOK m.lifecycle.state m.lifecycle.generation)
    (hcreated : m.lifecycle.state ≠ .creating) (hnext : transitions m.lifecycle.state next = true)
    (hexited : next = .exited → m.lifecycle.state = .running) (hrunning : next ≠ .running)
    (hdeleted : next ≠ .deleted) :
    LifeOK next (m.goto next).lifecycle.generation ∧ next ≠ .creating := by
  have hgen : (m.goto next).lifecycle.generation = m.lifecycle.generation :=
    Lifecycle.generation_transitionOrStay _ hrunning
  rw [hgen]
  cases hs : m.lifecycle.state <;> cases next <;> simp_all [transitions, LifeOK]

/-- A change of the memory apart from the lifecycle and the decisions. -/
lemma LinkOK.memory {m' : ManagedSession} (h : LinkOK cfg row m)
    (hlifecycle : m'.lifecycle = m.lifecycle) (hinputs : m'.inputs = m.inputs)
    (hhistory : ∃ stream, m'.history.Valid stream) (hattached : "" ∉ m'.attached) :
    LinkOK cfg row m' :=
  ⟨h.stored, hlifecycle ▸ h.life, hlifecycle ▸ h.created, hhistory,
    by rw [hlifecycle, hinputs]; exact h.current, hinputs ▸ h.max, by rw [hinputs]; exact h.domain,
    hinputs ▸ h.size, hattached⟩

lemma LinkOK.logged {log : OutputLog} (h : LinkOK cfg row m) (hlog : log.Valid) :
    LinkOK cfg { row with output := log } m :=
  ⟨⟨h.stored.life, hlog, h.stored.keys, h.stored.size⟩, h.life, h.created, h.history, h.current, h.max,
    h.domain, h.size, h.attached⟩

lemma LinkOK.saved (h : LinkOK cfg row m) :
    LinkOK cfg { row with state := m.lifecycle.state, generation := m.lifecycle.generation } m :=
  ⟨⟨h.life, h.stored.output, h.stored.keys, h.stored.size⟩, h.life, h.created, h.history, h.current,
    h.max, h.domain, h.size, h.attached⟩

/-- The lifecycle operations preserve the relation between a row and its session, and the name. -/
lemma lifecycleClosed_linkOK (cfg : ManagerConfig) (name : String) :
    LifecycleClosed fun row m => LinkOK cfg row m ∧ row.name = name where
  goto := by
    rintro row m next ⟨h, hname⟩ hnext hexited hrunning hdeleted
    have hstate := ManagedSession.goto_state hnext
    obtain ⟨hlife, hcreated⟩ := h.life.goto h.created hnext hexited hrunning hdeleted
    exact ⟨⟨h.stored, by rw [hstate]; exact hlife, by rw [hstate]; exact hcreated, h.history,
      fun hr => absurd (hstate.symm.trans hr) hrunning, h.max, h.domain, h.size, h.attached⟩, hname⟩
  launched := by
    rintro row m ⟨h, hname⟩ hrestarting
    have hlife : (m.goto .running).lifecycle = ⟨.running, m.lifecycle.generation + 1⟩ := by
      simp [ManagedSession.goto, Lifecycle.transitionOrStay, Lifecycle.transition, hrestarting,
        transitions]
    refine ⟨⟨h.stored, ?_, ?_, h.history, fun _ => rfl, h.max, h.domain, h.size, h.attached⟩, hname⟩
    · change LifeOK (m.goto .running).lifecycle.state (m.goto .running).lifecycle.generation
      rw [hlife]
      exact Nat.succ_ne_zero _
    · change (m.goto .running).lifecycle.state ≠ .creating
      rw [hlife]
      simp
  stopped := fun h => ⟨h.1.memory rfl rfl h.1.history h.1.attached, h.2⟩
  resized := fun _ _ h => ⟨h.1.memory rfl rfl h.1.history h.1.attached, h.2⟩
  saved := fun h => ⟨h.1.saved, h.2⟩

lemma eventClosed_linkOK (cfg : ManagerConfig) (name : String) :
    EventClosed fun row m => LinkOK cfg row m ∧ row.name = name where
  attached := by
    rintro row m l ⟨h, hname⟩ hl
    refine ⟨h.memory rfl rfl h.history fun hempty => ?_, hname⟩
    rcases hl "" hempty with hold | hne
    · exact h.attached hold
    · exact hne rfl
  flushing := fun _ h => ⟨h.1.memory rfl rfl h.1.history h.1.attached, h.2⟩
  produced := by
    rintro row m data history event ⟨h, hname⟩ hdata happend
    obtain ⟨stream, hv⟩ := h.history
    have hv' := (History.appendOwned_valid hv hdata happend).1
    exact ⟨h.memory rfl rfl ⟨_, hv'⟩ h.attached, hname⟩
  cleared := by
    rintro row m log ⟨h, hname⟩ hclear
    obtain ⟨stream, hv⟩ := h.history
    unfold OutputLog.clearOutput at hclear
    split_ifs at hclear with hother
    obtain rfl := Except.ok.inj hclear
    have hlog := OutputLog.valid_of_no_rows (not_not.mp hother ▸ h.stored.output.latest_le)
    exact ⟨(h.logged hlog).memory rfl rfl ⟨stream, History.clear_valid hv⟩ h.attached, hname⟩
  advanced := by
    rintro row m log latest ⟨h, hname⟩ hadvance
    obtain ⟨stream, hv⟩ := h.history
    obtain ⟨-, -, rfl⟩ := OutputLog.advanceOutput_spec hadvance
    have hle : m.history.earliest ≤ maxUint64 := hv.tiles.le.trans hv.latest_le
    exact ⟨h.logged (OutputLog.valid_of_no_rows hle), hname⟩
  appended := by
    rintro row m log channel start data maxRetained ⟨h, hname⟩ happend
    exact ⟨h.logged (OutputLog.appendOutput_spec h.stored.output happend).1, hname⟩

/-- The operations on a session keep its link. -/
lemma sessionClosed_linkOK (cfg : ManagerConfig) (name : String) :
    SessionClosed fun row m => LinkOK cfg row m ∧ row.name = name :=
  ⟨lifecycleClosed_linkOK cfg name, eventClosed_linkOK cfg name⟩

/-! ### One operation -/

section
variable {w w' : World} {sessions : Sessions} {id name : String} {m m' : ManagedSession}
  {row₀ row : SessionRow}

lemma UpOK.focus (h : UpOK cfg w.db sessions) (h₀ : w.db.lookup id = some row₀)
    (hF : Focus w.db id row w'.db) (hrow : LinkOK cfg row m') (hname : row.name = row₀.name) :
    UpOK cfg w'.db (sessions.insert id m') :=
  ⟨hF.allRows h.rows hrow.stored, hF.uniqueNames h.names h₀ hname, hF.linked h.links hrow⟩

lemma UpOK.focus_down (h : UpOK cfg w.db sessions) (h₀ : w.db.lookup id = some row₀)
    (hF : Focus w.db id row w'.db) (hrow : RowOK cfg row) (hname : row.name = row₀.name)
    (hc : recoveryRules.mayCut w') : DownOK cfg w'.db :=
  ⟨hF.allRows h.rows hrow, hF.uniqueNames h.names h₀ hname, allRows_notFresh hc⟩

/-- The operations on a session keep the invariant. -/
lemma UpOK.safe_program (h : UpOK cfg w.db sessions) (hm : sessions.lookup id = some m) (op : SessionOp) :
    (op.program cfg id m).Safe perform recoveryRules
      (fun m' w' => UpOK cfg w'.db (sessions.insert id m')) (fun w' => DownOK cfg w'.db) w := by
  obtain ⟨row₀, h₀, hlink⟩ := h.links id m hm
  refine ((sessionClosed_linkOK cfg row₀.name).safe_program
    (X := fun w' => DownOK cfg w'.db) ?_ ⟨row₀, .start h₀, ⟨hlink, rfl⟩, rfl⟩ op).mono ?_ fun _ h => h
  · rintro w' m' ⟨row, hF, hrow, -⟩ hc
    exact h.focus_down h₀ hF hrow.1.stored hrow.2 hc
  · rintro m' w' ⟨row, hF, hrow, -⟩
    exact h.focus h₀ hF hrow.1 hrow.2

lemma NewRow.rowOK (cfg : ManagerConfig) (h : NewRow name row) : RowOK cfg row := by
  cases h
  all_goals
    refine ⟨?_, OutputLog.empty_valid, by simp, Nat.zero_le _⟩
    simp [LifeOK]

lemma linkOK_createdSession (cfg : ManagerConfig) (name : String) :
    LinkOK cfg ⟨name, .running, 1, .empty, ∅⟩ (createdSession cfg name) where
  stored := NewRow.running.rowOK cfg
  life := one_ne_zero
  created := nofun
  history := ⟨[], History.new_valid (if_neg cfg.historyBytes_pos.ne')⟩
  current _ := rfl
  max := rfl
  domain _ := Iff.rfl
  size := rfl
  attached := List.not_mem_nil

/-- So does `Create`. -/
lemma UpOK.safe_create (h : UpOK cfg w.db sessions) :
    (create cfg sessions id name).Safe perform recoveryRules (fun r w' => match r with
        | .ok m => UpOK cfg w'.db (sessions.insert id m)
        | .error _ => UpOK cfg w'.db sessions) (fun w' => DownOK cfg w'.db) w := by
  refine (Session.safe_create w).mono_cut ?_ ?_
  · rintro r w' ⟨-, hr⟩
    rcases r with _ | _
    · exact ⟨hr.allRows h.rows fun row hrow => hrow.rowOK cfg, hr.uniqueNames h.names,
        hr.linked h.links⟩
    obtain ⟨hunused, hF, rfl⟩ := hr
    have hlink := linkOK_createdSession cfg name
    exact ⟨hF.allRows h.rows hlink.stored, hF.uniqueNames_of_unused h.names hunused,
      hF.linked h.links hlink⟩
  · rintro w' hc ⟨hr, -⟩
    exact ⟨hr.allRows h.rows fun row hrow => hrow.rowOK cfg, hr.uniqueNames h.names,
      allRows_notFresh hc⟩

lemma UpOK.safe_delete (h : UpOK cfg w.db sessions) : (delete id m).Safe perform recoveryRules
      (fun r w' => match r with
        | .ok _ => UpOK cfg (Helper.forget id w').db (sessions.erase id)
        | .error _ => UpOK cfg w'.db sessions) (fun w' => DownOK cfg w'.db) w := by
  refine (Session.safe_delete w).mono_cut ?_ ?_
  · rintro r w' hr
    cases r with
    | error =>
      obtain rfl : w' = w := hr
      exact h
    | ok =>
      obtain rfl : w' = { w with db := w.db.erase id } := hr
      exact ⟨h.rows.erase id, h.names.erase id, h.links.erase id⟩
  · rintro w' hc rfl
    exact h.down hc

variable {key : InputKey}

/-- Keys that are admitted and pass the checks in front of the journal are complete. -/
lemma LinkOK.complete (h : LinkOK cfg row m) (hcan : CanWrite m key)
    (hkey : key.clientID ≠ "" ∧ key.inputID ≠ "") : key.incomplete = false := by
  have hgeneration : m.lifecycle.generation ≠ 0 := by
    have hlife := h.life
    rw [hcan.running] at hlife
    exact hlife
  have hattachment : key.attachmentID ≠ "" := by
    intro hempty
    exact h.attached (hempty ▸ hcan.attached)
  simp [InputKey.incomplete, hkey, hattachment, hcan.generation, hgeneration]

variable {decision : InputDecision}

lemma LinkOK.rowOK_withDecision (h : LinkOK cfg row m) (hres : Reservable m key row)
    (hkey : key.incomplete = false) (hstatus : decision.status ≠ .duplicate) :
    RowOK cfg (withDecision row key decision) := by
  refine { h.stored with
    keys := forall_insert ⟨hkey, hstatus⟩ fun key' decision' hlookup _ =>
      h.stored.keys key' decision' hlookup
    size := ?_ }
  rw [withDecision, size_insert _ hres.stored, h.size]
  exact h.max ▸ hres.room

lemma LinkOK.record {stored : InputDecision} (h : LinkOK cfg row m) (hres : Reservable m key row)
    (hkey : key.incomplete = false) (hstatus : stored.status ≠ .duplicate) :
    LinkOK cfg (withDecision row key stored) { m with inputs := m.inputs.record key decision } := by
  refine { h with stored := h.rowOK_withDecision hres hkey hstatus, domain := fun key' => ?_, size := ?_ }
  · simp only [withDecision, InputJournal.record, lookup_insert_eq]
    split
    · simp
    · exact h.domain key'
  · simp only [withDecision, InputJournal.record, size_insert _ hres.stored,
      size_insert _ hres.memory, h.size]

variable {data : List UInt8} {row' : SessionRow} {new : List Written}

/-- `Write` with a complete key keeps the link. -/
lemma LinkOK.submitted {outcome : Except ManagerError InputDecision} (h : LinkOK cfg row m)
    (hkey : key.clientID ≠ "" ∧ key.inputID ≠ "")
    (hs : Submitted cfg id m key data row m' outcome row' new) :
    LinkOK cfg row' m' ∧ row'.name = row.name := by
  cases hs with
  | refused | answered => exact ⟨h, rfl⟩
  | reserved _ hres hbad =>
    rcases hbad with hincomplete | hother
    · rw [h.complete hres.toCanWrite hkey] at hincomplete
      cases hincomplete
    · exact absurd (hres.generation.trans (h.current hres.running).symm) hother
  | stored hres hcomplete _ =>
    rw [withDecision_withDecision]
    refine ⟨h.record hres hcomplete ?_, rfl⟩
    unfold decisionAfter
    dsimp only
    split_ifs <;> nofun
  | unstored _ hres hcomplete => exact ⟨h.record hres hcomplete nofun, rfl⟩

lemma LinkOK.submitting (h : LinkOK cfg row m) (hkey : key.clientID ≠ "" ∧ key.inputID ≠ "")
    (hs : Submitting cfg id m key data row row' new) : RowOK cfg row' ∧ row'.name = row.name := by
  cases hs with
  | before => exact ⟨h.stored, rfl⟩
  | reserved hres =>
    exact ⟨h.rowOK_withDecision hres (h.complete hres.toCanWrite hkey) nofun, rfl⟩
  | written hres hcomplete => exact ⟨h.rowOK_withDecision hres hcomplete nofun, rfl⟩

/-- `Write` with a complete key keeps the invariant. -/
lemma UpOK.safe_write (h : UpOK cfg w.db sessions) (hm : sessions.lookup id = some m)
    (hkey : key.clientID ≠ "" ∧ key.inputID ≠ "") :
    (write cfg id m key data).Safe perform recoveryRules
      (fun r w' => UpOK cfg w'.db (sessions.insert id r.1)) (fun w' => DownOK cfg w'.db) w := by
  obtain ⟨row₀, h₀, hlink⟩ := h.links id m hm
  refine (Session.safe_write (.start h₀)).mono_cut ?_ ?_
  · rintro r w' ⟨row, new, hF, -, hs⟩
    obtain ⟨hrow, hname⟩ := hlink.submitted hkey hs
    exact h.focus h₀ hF hrow hname
  · rintro w' hc ⟨row, new, hF, -, hs⟩
    obtain ⟨hrow, hname⟩ := hlink.submitting hkey hs
    exact h.focus_down h₀ hF hrow hname hc

end

/-! ### Runs -/

/-- The invariant of every run in which the helper does not die at a fresh restart and keys are
complete. -/
lemma recoverableInv (cfg : ManagerConfig) :
    HelperInv cfg recoveryRules KeysComplete (fun w _ => DownOK cfg w.db)
      fun w sessions _ => UpOK cfg w.db sessions where
  start := by
    intro w reports h
    refine (h.safe_recover recoveryRules True fun _ _ _ => trivial).mono ?_ fun _ h => h
    intro r w' hr
    cases r with
    | ok => exact hr
    | error => exact hr.1
  crash := fun w sessions reports h hc => h.down hc
  create := fun w sessions reports id name h => h.safe_create
  delete := fun w sessions reports id m h _ => h.safe_delete
  write := fun w sessions reports id m key data fates h hm hkey => h.safe_write hm hkey
  query := fun w sessions reports id m key h _ => h
  on := fun w sessions reports id m op h hm => h.safe_program hm op

namespace Helper

/-- `NewManager` succeeds when the store does not fail: with enough store calls, the walk of `recover`
comes to its end and returns the sessions. -/
def Recovers (cfg : ManagerConfig) (s : Helper) : Prop :=
  s.manager = none → ∃ n sessions w',
    (recover cfg).exec perform s.world (List.replicate n .ok) = .finished (.ok sessions) w'

variable {s : Helper}

/-- Then recovery succeeds. -/
lemma recovers_of_downOK (h : DownOK cfg s.world.db) : s.Recovers cfg := by
  intro _
  have hsafe := h.safe_recover ⟨fun _ _ f => f = Fate.ok, fun _ => False⟩ False
    fun _ _ hf => nomatch hf
  obtain ⟨n, r, w', hexec, hr⟩ := hsafe.exists_exec
  cases r with
  | ok sessions => exact ⟨n, sessions, w', hexec⟩
  | error => exact hr.2.elim

/-- In every run in which the helper never dies while a stored row is restarting in generation 0, and
the keys of inputs have client and input identifiers, it can be started again whenever it is down. -/
theorem orderly_recovery_succeeds (cfg : ManagerConfig) {actions : List Action} {s : Helper}
    (hm : Meets (step cfg) (fun s a => s.Obeys cfg recoveryRules a ∧ KeysComplete a) initial actions)
    (hr : run (step cfg) initial actions = some s) : s.Recovers cfg := by
  have hinitial : HelperInv.Holds (fun w _ => DownOK cfg w.db)
      (fun w sessions _ => UpOK cfg w.db sessions) initial :=
    ⟨fun id row h => by simp [initial] at h, fun id _ row _ h => by simp [initial] at h,
      fun id row h => by simp [initial] at h⟩
  have hs := (recoverableInv cfg).keeps.run hinitial hm hr
  intro hdown
  unfold HelperInv.Holds at hs
  rw [hdown] at hs
  exact recovers_of_downOK hs hdown

/-! ### Examples of runs -/

instance (s : Helper) (a : Action) :
    Decidable (s.Obeys smallConfig recoveryRules a ∧ KeysComplete a) :=
  have : Decidable (s.Obeys smallConfig recoveryRules a) :=
    decidableObeys smallConfig recoveryRules (fun _ _ _ => inferInstanceAs (Decidable True))
      (fun w => inferInstanceAs (Decidable (∀ e ∈ w.db.entries, NotFresh e.2))) s a
  have : Decidable (KeysComplete a) := by
    unfold KeysComplete
    split <;> infer_instance
  inferInstanceAs (Decidable (_ ∧ _))

/-- A session is created, gets an input and some output, and the helper dies while the decision is
stored. -/
def inputCutOff : List Action :=
  [.start [.ok], .create "1" "a" [.ok, .ok, .ok], .on "1" (.attach "t") [],
    .on "1" (.output [1, 2, 3]) [], .on "1" .flushBegin [.ok], .on "1" .flushNext [.ok],
    .write "1" ⟨"c", "t", 1, "i"⟩ [4] [.ok, .ok]]

/-- After that run the helper can be started again. -/
theorem inputCutOff_recovers : ∃ s, run (step smallConfig) initial inputCutOff = some s ∧
    s.manager = none ∧ s.Recovers smallConfig :=
  exists_of_any (P := fun s => s.manager.isNone) (by decide +kernel) fun _ hs hdown =>
    ⟨Option.isNone_iff_eq_none.mp hdown, orderly_recovery_succeeds smallConfig (by decide +kernel) hs⟩

variable {n : ℕ}

/-- The helper after a run is down, and its recovery ends with an error within some store calls. -/
def recoveryFails (cfg : ManagerConfig) (n : ℕ) (s : Helper) : Bool :=
  s.manager.isNone &&
    match (recover cfg).exec perform s.world (List.replicate n .ok) with
    | .finished (.error _) _ => true
    | _ => false

lemma exists_not_recovers {actions : List Action}
    (h : (run (step cfg) initial actions).map (recoveryFails cfg n) = some true) :
    ∃ s, run (step cfg) initial actions = some s ∧ ¬ s.Recovers cfg := by
  obtain ⟨s, hs, hfails⟩ := Option.map_eq_some_iff.mp h
  unfold recoveryFails at hfails
  rw [Bool.and_eq_true, Option.isNone_iff_eq_none] at hfails
  obtain ⟨hdown, herror⟩ := hfails
  split at herror
  · next hexec =>
    refine ⟨s, hs, fun hrec => ?_⟩
    obtain ⟨n', sessions, w'', hok⟩ := hrec hdown
    exact nomatch Prog.exec_replicate_unique hok hexec
  · cases herror

/-- The creation of a session is cut off, and so is its restart after a recovery. -/
def restartCutOff : List Action :=
  [.start [.ok], .create "1" "a" [.ok], .start (List.replicate 5 .ok), .on "1" .restart [.ok]]

/-- An input without a client identifier. -/
def anonymousInput : List Action :=
  [.start [.ok], .create "1" "a" [.ok, .ok, .ok], .on "1" (.attach "t") [],
    .write "1" ⟨"", "t", 1, "i"⟩ [4] [.ok], .crash]

/-- After each of these runs the helper cannot be started again, although no store call fails. -/
theorem restart_cut_off :
    (∃ s, run (step smallConfig) initial restartCutOff = some s ∧ ¬ s.Recovers smallConfig) ∧
      ∃ s, run (step smallConfig) initial anonymousInput = some s ∧ ¬ s.Recovers smallConfig :=
  ⟨exists_not_recovers (n := 6) (by decide +kernel), exists_not_recovers (n := 6) (by decide +kernel)⟩

end Helper

end Paperboat.Session

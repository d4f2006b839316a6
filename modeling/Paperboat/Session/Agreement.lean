import Paperboat.Session.Effects
import Paperboat.Session.Recovery

/-!
# Agreement of the stored and the remembered state

The manager changes the lifecycle of a session in memory and writes it to the store with a
compare-and-swap on the state column. A write that fails after the memory has moved on makes every later
one fail with `ErrConflict` until the helper is restarted. `agreementRules` lists the writes that may
fail.
-/

namespace Paperboat.Session

open ManagedSession

open Store (Database Transaction Record SessionRow)

/-- The store calls that may fail: all of them but the writes of the lifecycle that leave the memory
in another state. -/
def Tolerated : Call → Prop
  | .store (.updateSession _ expected next) =>
    next.state = expected ∨ expected = .creating ∨ expected = .closed
  | _ => True

instance : DecidablePred Tolerated := fun c => by
  unfold Tolerated
  split <;> infer_instance

/-- Only tolerated store calls fail. The helper may die at any call. -/
def agreementRules : Rules World Call Fate where
  allows _ c fate := fate = .fails → Tolerated c
  mayCut _ := True

/-! ### The state column -/

section
variable {α : Type} {Q : α → World → Prop} {X : World → Prop} {db₀ : Database} {id : String}
  {state expected : State} {m : ManagedSession} {w w' : World}

/-- The state column of the session. -/
def StateIs (db₀ : Database) (id : String) (state : State) (w : World) : Prop :=
  ∃ row, Focus db₀ id row w.db ∧ row.state = state

/-- `persist` when the column is in the expected state: it fails if that is tolerated, or the column
gets the state of the memory. -/
lemma safe_swap {f : Except StoreError Unit → Operation α} (h : StateIs db₀ id expected w) (hX : X w)
    (hfail : m.lifecycle.state = expected ∨ expected = .creating ∨ expected = .closed →
      (f (.error .failed)).Safe perform agreementRules Q X w)
    (hok : ∀ w', StateIs db₀ id m.lifecycle.state w' → (f (.ok ())).Safe perform agreementRules Q X w') :
    (persist id m expected >>= f).Safe perform agreementRules Q X w := by
  obtain ⟨row, hF, hstate⟩ := h
  exact safe_persist hF (fun _ => hX) (fun hallows => hfail (hallows rfl))
    (fun hne => absurd hstate hne) fun _ w' hF' _ => hok w' ⟨_, hF', rfl⟩

end

/-! ### Operations on the lifecycle -/

section
variable {db₀ : Database} {id : String} {m : ManagedSession} {w : World}

/-- The state column and the memory agree. -/
def Agreeing (db₀ : Database) (id : String) (m : ManagedSession) (w : World) : Prop :=
  StateIs db₀ id m.lifecycle.state w

lemma agreeing_closeRunning (h : Agreeing db₀ id m w) (hstate : m.lifecycle.state = .closing) :
    (closeRunning id m).Safe perform agreementRules (fun r => Agreeing db₀ id r.1) (fun _ => True) w := by
  have hclosed : ({ m with process := false }.goto .closed).lifecycle.state = .closed :=
    goto_state (by simp [hstate, transitions])
  have hcolumn : StateIs db₀ id .closing w := hstate ▸ h
  unfold closeRunning
  refine safe_request (fun _ => trivial) (fun _ => rfl) fun ended => ?_
  split
  · exact h
  refine safe_swap hcolumn trivial (fun hfail => ?_) fun w' hw' => hw'
  rw [hclosed] at hfail
  simp at hfail

lemma agreeing_close (h : Agreeing db₀ id m w) :
    (close id m).Safe perform agreementRules (fun r => Agreeing db₀ id r.1) (fun _ => True) w := by
  unfold close
  split
  · exact h
  · next hstate =>
    have hclosing : (m.goto .closing).lifecycle.state = .closing :=
      goto_state (by simp [hstate, transitions])
    have hclosed : ((m.goto .closing).goto .closed).lifecycle.state = .closed :=
      goto_state (by simp [hclosing, transitions])
    have hcolumn : StateIs db₀ id .exited w := hstate ▸ h
    refine safe_swap hcolumn trivial (fun hfail => ?_) fun w' hw' => hw'
    rw [hclosed] at hfail
    simp at hfail
  · next hstate =>
    have hclosing : (m.goto .closing).lifecycle.state = .closing :=
      goto_state (by simp [hstate, transitions])
    have hcolumn : StateIs db₀ id .running w := hstate ▸ h
    split
    · exact h
    refine safe_swap hcolumn trivial (fun hfail => ?_) fun w' hw' => agreeing_closeRunning hw' hclosing
    rw [hclosing] at hfail
    simp at hfail
  · next hstate =>
    split
    · exact h
    · exact agreeing_closeRunning h hstate
  · exact h

lemma agreeing_finishClosing (h : Agreeing db₀ id m w) :
    (finishClosing id m).Safe perform agreementRules (Agreeing db₀ id) (fun _ => True) w := by
  unfold finishClosing
  split
  · exact h
  rename_i hgo
  push Not at hgo
  have hclosed : ({ m with process := false }.goto .closed).lifecycle.state = .closed :=
    goto_state (by simp [hgo.1, transitions])
  have hcolumn : StateIs db₀ id .closing w := hgo.1 ▸ h
  refine safe_request (fun _ => trivial) (fun _ => rfl) fun ended => ?_
  split
  · exact h
  refine safe_swap hcolumn trivial (fun hfail => ?_) fun w' hw' => hw'
  rw [hclosed] at hfail
  simp at hfail

lemma agreeing_restart (h : Agreeing db₀ id m w) :
    (restart id m).Safe perform agreementRules (fun r => Agreeing db₀ id r.1) (fun _ => True) w := by
  unfold restart
  dsimp only
  split
  · exact h
  rename_i hgo
  have hallowed : transitions m.lifecycle.state .restarting = true := by
    cases hstate : m.lifecycle.state <;> simp_all [transitions]
  have hrestarting := goto_state hallowed
  have hclosed : ((m.goto .restarting).goto .closed).lifecycle.state = .closed :=
    goto_state (by simp [hrestarting, transitions])
  have hrunning : (m.goto .restarting).launched.lifecycle.state = .running :=
    goto_state (by simp [hrestarting, transitions])
  refine safe_swap h trivial (fun hfail => ?_) fun w₁ hw₁ => ?_
  · -- the write may fail only when the session was closed, as it is again now
    change StateIs db₀ id ((m.goto .restarting).goto .closed).lifecycle.state w
    rw [hclosed]
    have hstate : m.lifecycle.state = .closed := by
      rw [hrestarting] at hfail
      cases hs : m.lifecycle.state <;> simp_all
    exact hstate ▸ h
  rw [hrestarting] at hw₁
  refine safe_request (fun _ => trivial) (fun _ => rfl) fun launched => ?_
  rcases launched with _ | _
  · refine safe_swap hw₁ trivial (fun hfail => ?_) fun w₂ hw₂ => hw₂
    rw [hclosed] at hfail
    simp at hfail
  refine safe_swap hw₁ trivial (fun hfail => ?_) fun w₂ hw₂ => hw₂
  rw [hrunning] at hfail
  simp at hfail

lemma agreeing_exit (h : Agreeing db₀ id m w) :
    (exit id m).Safe perform agreementRules (Agreeing db₀ id) (fun _ => True) w := by
  unfold exit
  split
  · exact h
  rename_i hgo
  push Not at hgo
  have hexited : { m.goto .exited with process := false }.lifecycle.state = .exited :=
    goto_state (by simp [hgo.2, transitions])
  have hcolumn : StateIs db₀ id .running w := hgo.2 ▸ h
  refine safe_swap hcolumn trivial (fun hfail => ?_) fun w' hw' => hw'
  rw [hexited] at hfail
  simp at hfail

end

/-! ### The helper -/

/-- The state columns of all managed sessions agree with the memory. -/
def AllAgree (db : Database) (sessions : Sessions) : Prop :=
  Linked (fun _ row m => row.state = m.lifecycle.state) db sessions

section
variable {cfg : ManagerConfig} {w : World} {sessions : Sessions} {id name : String}
  {m : ManagedSession}

lemma eventClosed_agree : EventClosed fun row m => row.state = m.lifecycle.state where
  attached := fun _ h _ => h
  flushing := fun _ h => h
  produced := fun h _ _ => h
  cleared := fun h _ => h
  advanced := fun h _ => h
  appended := fun h _ => h

/-- An operation that changes the lifecycle leaves the column and the memory in agreement. -/
lemma agreeing_program {op : SessionOp} (hop : op.changesLifecycle = true) (h : Agreeing w.db id m w) :
    (op.program cfg id m).Safe perform agreementRules (Agreeing w.db id) (fun _ => True) w := by
  cases op with
  | resize a t =>
    refine Prog.safe_bind.mpr ?_
    unfold resize
    split
    · exact h
    split
    · exact h
    refine safe_request (fun _ => trivial) (fun _ => rfl) fun resized => ?_
    cases resized with
    | false => exact h
    | true => exact safe_swap h trivial (fun _ => h) fun w' hw' => hw'
  | close => exact Prog.safe_bind.mpr (agreeing_close h)
  | finishClosing => exact agreeing_finishClosing h
  | restart => exact Prog.safe_bind.mpr (agreeing_restart h)
  | exit => exact agreeing_exit h
  | _ => cases hop

lemma AllAgree.insert {w' : World} {m' : ManagedSession} (h : AllAgree w.db sessions)
    (hw : Agreeing w.db id m' w') : AllAgree w'.db (sessions.insert id m') := by
  obtain ⟨row, hF, hstate⟩ := hw
  exact hF.linked h hstate

lemma AllAgree.safe_program (h : AllAgree w.db sessions) (hm : sessions.lookup id = some m)
    (op : SessionOp) :
    (op.program cfg id m).Safe perform agreementRules
      (fun m' w' => AllAgree w'.db (sessions.insert id m')) (fun _ => True) w := by
  obtain ⟨row, hrow, hstate⟩ := h id m hm
  cases hop : op.changesLifecycle with
  | true =>
    have hagree : Agreeing w.db id m w := ⟨row, .start hrow, hstate⟩
    exact (agreeing_program hop hagree).mono (fun m' w' hw' => h.insert hw') fun _ h => h
  | false =>
    have hduring : During (fun row m => row.state = m.lifecycle.state) w.db id w.writes m w :=
      ⟨row, .start hrow, hstate, rfl⟩
    refine (eventClosed_agree.safe_program (fun _ _ _ _ => trivial) hduring hop).mono ?_ fun _ h => h
    rintro m' w' ⟨row', hF, hstate', -⟩
    exact h.insert ⟨row', hF, hstate'⟩

/-- `Create`: the new session is managed when its row is running, and only then. -/
lemma AllAgree.safe_create (h : AllAgree w.db sessions) :
    (create cfg sessions id name).Safe perform agreementRules (fun r w' => match r with
        | .ok m => AllAgree w'.db (sessions.insert id m)
        | .error _ => AllAgree w'.db sessions) (fun _ => True) w := by
  refine (Session.safe_create w).mono ?_ fun _ _ => trivial
  rintro r w' ⟨-, hr⟩
  cases r with
  | error => exact hr.linked h
  | ok =>
    obtain ⟨-, hF, rfl⟩ := hr
    exact hF.linked h rfl

lemma AllAgree.safe_delete (h : AllAgree w.db sessions) : (delete id m).Safe perform agreementRules
      (fun r w' => match r with
        | .ok _ => AllAgree (Helper.forget id w').db (sessions.erase id)
        | .error _ => AllAgree w'.db sessions) (fun _ => True) w := by
  refine (Session.safe_delete w).mono ?_ fun _ _ => trivial
  rintro r w' hr
  cases r with
  | error =>
    obtain rfl : w' = w := hr
    exact h
  | ok =>
    obtain rfl : w' = { w with db := w.db.erase id } := hr
    exact Linked.erase h id

lemma AllAgree.safe_write {key : InputKey} {data : List UInt8} (h : AllAgree w.db sessions)
    (hm : sessions.lookup id = some m) :
    (write cfg id m key data).Safe perform agreementRules
      (fun r w' => AllAgree w'.db (sessions.insert id r.1)) (fun _ => True) w := by
  obtain ⟨row, hrow, hstate⟩ := h id m hm
  refine (Session.safe_write (.start hrow)).mono ?_ fun _ _ => trivial
  rintro r w' ⟨row', new, hF, -, hs⟩
  obtain ⟨-, hrow', hmemory⟩ := hs.frame
  exact h.insert ⟨row', hF, by rw [hrow', hstate, hmemory]⟩

end

/-- Recovery brings the two sides into agreement, and every operation keeps them there. -/
lemma agreementInv (cfg : ManagerConfig) : HelperInv cfg agreementRules (fun _ => True) (fun _ _ => True)
      fun w sessions _ => AllAgree w.db sessions where
  start := by
    intro w reports _
    have hfail : ∀ w c, agreementRules.allows w c .fails → True := fun _ _ _ => trivial
    refine (safe_recover hfail w).mono ?_ fun _ _ => trivial
    rintro r w' ⟨-, -, hr⟩
    rcases r with _ | _
    · trivial
    intro id m hm
    obtain ⟨row, row', -, hrow', -, hrec⟩ := hr id m hm
    obtain ⟨hlifecycle, -⟩ := recoverLifecycle_eq_ok.mp hrec.lifecycle
    exact ⟨row', hrow', (congrArg Lifecycle.state hlifecycle).symm⟩
  crash := fun _ _ _ _ _ => trivial
  create := fun w sessions reports id name h => h.safe_create
  delete := fun w sessions reports id m h _ => h.safe_delete
  write := fun w sessions reports id m key data fates h hm _ => h.safe_write hm
  query := fun w sessions reports id m key h _ => h
  on := fun w sessions reports id m op h hm => h.safe_program hm op

/-- The stored row of a managed session agrees with the memory: it is there, it has the same state, the
next compare-and-swap finds the state it expects, and a session at rest can be deleted. -/
structure Agreed (db : Database) (id : String) (m : ManagedSession) : Prop where
  stored : ∃ row, db.lookup id = some row ∧ row.state = m.lifecycle.state
  update : ∀ next, ∃ db', db.updateSession id m.lifecycle.state next = .ok db'
  delete : m.lifecycle.state = .exited ∨ m.lifecycle.state = .closed →
    ∃ db', db.deleteSession id = .ok db'

namespace Helper

/-- Every managed session agrees with its row. -/
def Agrees (s : Helper) : Prop :=
  ∀ sessions, s.manager = some sessions → ∀ id m, sessions.lookup id = some m →
    Agreed s.world.db id m

/-- In every run in which only tolerated store calls fail, every managed session agrees with its row
whenever no operation is in flight. -/
theorem tolerated_failures_keep_agreement (cfg : ManagerConfig) {actions : List Action} {s : Helper}
    (hm : Meets (step cfg) (fun s a => s.Obeys cfg agreementRules a) initial actions)
    (hr : run (step cfg) initial actions = some s) : s.Agrees := by
  have hm' := hm.mono fun s a h => (⟨h, trivial⟩ : s.Obeys cfg agreementRules a ∧ True)
  have hs := (agreementInv cfg).keeps.run (show HelperInv.Holds _ _ initial from trivial) hm' hr
  intro sessions hup id m hlookup
  unfold HelperInv.Holds at hs
  rw [hup] at hs
  obtain ⟨row, hrow, hstate⟩ := hs id m hlookup
  refine ⟨⟨row, hrow, hstate⟩, fun next => ?_, fun hrest => ?_⟩
  · simp only [Database.updateSession, hrow, hstate, if_true]
    exact ⟨_, rfl⟩
  · simp only [Database.deleteSession, hrow, hstate, if_pos hrest]
    exact ⟨_, rfl⟩

/-! ### Examples of runs -/

instance (cfg : ManagerConfig) (s : Helper) (a : Action) :
    Decidable (s.Obeys cfg agreementRules a) :=
  decidableObeys cfg agreementRules
    (fun _ c fate => inferInstanceAs (Decidable (fate = .fails → Tolerated c)))
    (fun _ => inferInstanceAs (Decidable True)) s a

/-- A session is resized, closed and restarted, and the first writes of `Resize` and `Restart` fail. -/
def toleratedFailures : List Action :=
  [.start [.ok], .create "1" "a" [.ok, .ok, .ok], .on "1" (.attach "t") [],
    .on "1" (.resize "t" 1) [.ok, .fails], .on "1" .close [.ok, .ok, .ok], .on "1" .restart [.fails]]

/-- After that run the session is managed and agrees with its row. -/
theorem toleratedFailures_agree : ∃ s, run (step smallConfig) initial toleratedFailures = some s ∧
    s.manager.isSome ∧ s.Agrees :=
  exists_and_of_any (by decide +kernel) fun _ hs =>
    tolerated_failures_keep_agreement smallConfig (by decide +kernel) hs

/-- A session whose process has exited is closed, and the write fails. -/
def failedClose : List Action :=
  [.start [.ok], .create "1" "a" [.ok, .ok, .ok], .on "1" .exit [.ok], .on "1" .close [.fails]]

/-- After that run the session is closed in memory and exited in the store, so that the next
compare-and-swap is rejected. -/
theorem failed_close : ∃ s, run (step smallConfig) initial failedClose = some s ∧ ¬ s.Agrees := by
  have hrun : ((run (step smallConfig) initial failedClose).map fun s =>
      (s.manager.bind fun sessions => (sessions.lookup "1").map fun m => m.lifecycle.state,
        (s.world.db.lookup "1").map fun row => row.state)) = some (some .closed, some .exited) := by
    decide +kernel
  obtain ⟨s, hs, hstates⟩ := Option.map_eq_some_iff.mp hrun
  simp only [Prod.mk.injEq, Option.bind_eq_some_iff, Option.map_eq_some_iff] at hstates
  obtain ⟨⟨sessions, hup, m, hm, hmemory⟩, row, hrow, hstored⟩ := hstates
  refine ⟨s, hs, fun hagrees => ?_⟩
  obtain ⟨row', hrow', hstate⟩ := (hagrees sessions hup "1" m hm).stored
  cases hrow.symm.trans hrow'
  rw [hstored, hmemory] at hstate
  cases hstate

end Helper

end Paperboat.Session

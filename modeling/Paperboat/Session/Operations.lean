import Paperboat.Session.Manager

/-!
# Reasoning about the operations

Every operation of the manager works on one session: its row in the database and its memory.
`Focus` describes the database during such an operation by the current row of the session. An invariant
of the helper is a property of all rows together with a relation between the row and the memory of each
managed session; `HelperInv` lists what has to be shown for it, one obligation for each operation.
-/

namespace Paperboat.Session

open ManagedSession Store Helper

open Store (Database Transaction Record SessionRow)

/-! ### One session of the database -/

/-- The database is as `db₀` except for the row of one session. -/
def Focus (db₀ : Database) (id : String) (row : SessionRow) (db : Database) : Prop :=
  ∀ id', db.lookup id' = if id' = id then some row else db₀.lookup id'

/-- A property of all rows. -/
def AllRows (R : SessionRow → Prop) (db : Database) : Prop :=
  ∀ id row, db.lookup id = some row → R row

/-- No two rows have the same name. -/
def UniqueNames (db : Database) : Prop :=
  ∀ id id' row row', db.lookup id = some row → db.lookup id' = some row' → row.name = row'.name →
    id = id'

/-- Every managed session has a row, and the two are related. -/
def Linked (P : String → SessionRow → ManagedSession → Prop) (db : Database) (sessions : Sessions) :
    Prop :=
  ∀ id m, sessions.lookup id = some m → ∃ row, db.lookup id = some row ∧ P id row m

section
variable {db₀ db : Database} {id : String} {row row' : SessionRow} {R : SessionRow → Prop}
  {P : String → SessionRow → ManagedSession → Prop} {sessions : Sessions} {m : ManagedSession}

lemma Focus.start (h : db.lookup id = some row) : Focus db id row db := by
  intro id'
  split
  · next heq => rw [heq, h]
  · rfl

lemma Focus.lookup (h : Focus db₀ id row db) : db.lookup id = some row := by rw [h id, if_pos rfl]

/-- The row is replaced. -/
lemma Focus.insert (h : Focus db₀ id row db) (row' : SessionRow) :
    Focus db₀ id row' (db.insert id row') := by
  intro id'
  rw [FinMap.lookup_insert_eq]
  split
  · rfl
  · next hne => rw [h id', if_neg hne]

/-- A property of all rows is kept if the new row has it. -/
lemma Focus.allRows (h : Focus db₀ id row db) (hall : AllRows R db₀) (hrow : R row) : AllRows R db := by
  intro id' row' hlookup
  rw [h id'] at hlookup
  split at hlookup
  · exact Option.some.inj hlookup ▸ hrow
  · exact hall id' row' hlookup

lemma Focus.uniqueNames (h : Focus db₀ id row db) (hall : UniqueNames db₀)
    (h₀ : db₀.lookup id = some row') (hname : row.name = row'.name) : UniqueNames db := by
  have hold : ∀ id' r, db.lookup id' = some r → ∃ r₀, db₀.lookup id' = some r₀ ∧ r₀.name = r.name := by
    intro id' r hr
    rw [h id'] at hr
    split at hr
    · next heq =>
      cases hr
      exact ⟨row', heq ▸ h₀, hname.symm⟩
    · exact ⟨r, hr, rfl⟩
  intro id₁ id₂ r₁ r₂ h₁ h₂ heq
  obtain ⟨r₁', h₁', hn₁⟩ := hold id₁ r₁ h₁
  obtain ⟨r₂', h₂', hn₂⟩ := hold id₂ r₂ h₂
  exact hall id₁ id₂ r₁' r₂' h₁' h₂' (by rw [hn₁, hn₂, heq])

/-- The session stays linked to its row. -/
lemma Focus.linked (h : Focus db₀ id row db) (hall : Linked P db₀ sessions) (hrow : P id row m) :
    Linked P db (sessions.insert id m) := by
  refine FinMap.forall_insert ⟨row, h.lookup, hrow⟩ fun id' m' hlookup hne => ?_
  obtain ⟨r, hr, hP⟩ := hall id' m' hlookup
  exact ⟨r, by rw [h id', if_neg hne, hr], hP⟩

lemma Focus.linked_of_unmanaged (h : Focus db₀ id row db) (hall : Linked P db₀ sessions)
    (hm : sessions.lookup id = none) : Linked P db sessions := by
  intro id' m' hlookup
  obtain ⟨r, hr, hP⟩ := hall id' m' hlookup
  have hne : id' ≠ id := by
    rintro rfl
    rw [hm] at hlookup
    cases hlookup
  exact ⟨r, by rw [h id', if_neg hne, hr], hP⟩

/-- The compare-and-swap on the state column. -/
lemma Focus.updateSession (h : Focus db₀ id row db) (expected : State) (next : Record) :
    db.updateSession id expected next =
      if row.state = expected then
        .ok (db.insert id { row with state := next.state, generation := next.generation })
      else .error .conflict := by
  simp only [Database.updateSession, h.lookup]

lemma Focus.onOutput (h : Focus db₀ id row db) (f : OutputLog → Except Error OutputLog) :
    db.onOutput id f = match f row.output with
      | .error e => .error e
      | .ok log => .ok (db.insert id { row with output := log }) := by
  cases hlog : f row.output <;> simp only [Database.onOutput, h.lookup, hlog]

lemma Focus.onOutput_ok (h : Focus db₀ id row db)
    {f : OutputLog → Except Error OutputLog} {db' : Database} {r : Unit}
    (hf : committed (db.onOutput id f) = .ok (db', r)) :
    ∃ log, f row.output = .ok log ∧ Focus db₀ id { row with output := log } db' := by
  rw [h.onOutput] at hf
  rcases hlog : f row.output with _ | log
  · rw [hlog] at hf
    cases hf
  rw [hlog] at hf
  cases hf
  exact ⟨log, rfl, h.insert _⟩

end

/-! ### Rules for calls -/

section
variable {α : Type} {rules : Rules World Call Fate} {Q : α → World → Prop} {X : World → Prop}
  {w : World}

/-- A store call: it fails as the rules allow, the transaction is rejected, or it commits. -/
lemma safe_store {t : Transaction} {f : Except StoreError t.Result → Operation α}
    (hX : rules.mayCut w → X w)
    (hfail : rules.allows w (.store t) .fails → (f (.error .failed)).Safe perform rules Q X w)
    (hrejected : ∀ e, t.run w.db = .error e → (f (.error (.rejected e))).Safe perform rules Q X w)
    (hok : ∀ db r, t.run w.db = .ok (db, r) → (f (.ok r)).Safe perform rules Q X { w with db := db }) :
    (storeCall t >>= f).Safe perform rules Q X w := by
  refine ⟨hX, fun fate hallows => ?_⟩
  by_cases hfate : fate = .fails
  · subst hfate
    simp only [perform, if_true]
    exact hfail hallows
  · simp only [perform, if_neg hfate]
    cases hrun : t.run w.db with
    | error e => exact hrejected e hrun
    | ok r => exact hok r.1 r.2 hrun

/-- A call that leaves the world alone. -/
lemma safe_request {c : Call} {f : Reply c → Operation α} (hX : rules.mayCut w → X w)
    (hc : ∀ fate, (perform w c fate).1 = w)
    (hf : ∀ r, (f r).Safe perform rules Q X w) :
    (request c >>= f).Safe perform rules Q X w := by
  refine ⟨hX, fun fate _ => ?_⟩
  rw [hc fate]
  exact hf _

/-- `persist`: it fails as the rules allow, the row is not in the expected state, or the row gets the
lifecycle of the session. -/
lemma safe_persist {id : String} {m : ManagedSession} {expected : State} {db₀ : Database}
    {row : SessionRow} {f : Except StoreError Unit → Operation α} (hF : Focus db₀ id row w.db)
    (hX : rules.mayCut w → X w)
    (hfail : rules.allows w (.store (.updateSession id expected m.record)) .fails →
      (f (.error .failed)).Safe perform rules Q X w)
    (hconflict : row.state ≠ expected → (f (.error (.rejected .conflict))).Safe perform rules Q X w)
    (hok : row.state = expected → ∀ w', Focus db₀ id
        { row with state := m.lifecycle.state, generation := m.lifecycle.generation } w'.db →
      w'.writes = w.writes → (f (.ok ())).Safe perform rules Q X w') :
    (persist id m expected >>= f).Safe perform rules Q X w := by
  have hrun : (Transaction.updateSession id expected m.record).run w.db =
      committed (if row.state = expected then
        .ok (w.db.insert id { row with
          state := m.lifecycle.state, generation := m.lifecycle.generation })
      else .error .conflict) := by
    rw [Transaction.run, hF.updateSession]
    rfl
  refine safe_store hX hfail (fun e he => ?_) fun db r hr => ?_
  · rw [hrun] at he
    split at he
    · cases he
    · next hne =>
      obtain rfl : Error.conflict = e := Except.error.inj he
      exact hconflict hne
  · rw [hrun] at hr
    split at hr
    · next heq =>
      cases hr
      exact hok heq _ (hF.insert _) rfl
    · cases hr

end

/-! ### Operations on the lifecycle -/

lemma ManagedSession.goto_state {m : ManagedSession} {next : State}
    (h : transitions m.lifecycle.state next = true) : (m.goto next).lifecycle.state = next := by
  simp only [goto, Lifecycle.transitionOrStay, Lifecycle.transition, h]
  split
  · next hok =>
    split_ifs at hok
    all_goals simp_all [← Except.ok.inj hok]
  · next herr =>
    split_ifs at herr
    simp_all

/-- A relation between row and memory that the parts of the lifecycle operations preserve: a change of
state in memory, the launch of a process, and a write of the lifecycle to the row. -/
structure LifecycleClosed (P : SessionRow → ManagedSession → Prop) : Prop where
  goto : ∀ {row m next}, P row m → transitions m.lifecycle.state next = true →
    (next = .exited → m.lifecycle.state = .running) → next ≠ .running → next ≠ .deleted →
    P row (m.goto next)
  launched : ∀ {row m}, P row m → m.lifecycle.state = .restarting → P row m.launched
  stopped : ∀ {row m}, P row m → P row { m with process := false }
  resized : ∀ {row m} (a : String) (t : ℕ), P row m → P row { m with resizeID := a, resizeTime := t }
  saved : ∀ {row m}, P row m →
    P { row with state := m.lifecycle.state, generation := m.lifecycle.generation } m

section
variable {P : SessionRow → ManagedSession → Prop} {db₀ : Database} {id : String}
  {writes : List Written} {rules : Rules World Call Fate} {X : World → Prop} {w : World}
  {m : ManagedSession}

/-- During an operation on a session the relation holds for its row and its memory. -/
def During (P : SessionRow → ManagedSession → Prop) (db₀ : Database) (id : String)
    (writes : List Written) (m : ManagedSession) (w : World) : Prop :=
  ∃ row, Focus db₀ id row w.db ∧ P row m ∧ w.writes = writes

lemma During.memory (h : During P db₀ id writes m w) {m' : ManagedSession}
    (hm : ∀ row, P row m → P row m') : During P db₀ id writes m' w := by
  obtain ⟨row, hF, hP, hw⟩ := h
  exact ⟨row, hF, hm row hP, hw⟩

variable {α : Type} (hX : ∀ w m, During P db₀ id writes m w → rules.mayCut w → X w)
  (h : During P db₀ id writes m w)

include hX h

lemma safe_process {Q : α → World → Prop} {c : Call} {f : Reply c → Operation α}
    (hc : ∀ fate, (perform w c fate).1 = w) (hf : ∀ r, (f r).Safe perform rules Q X w) :
    (request c >>= f).Safe perform rules Q X w :=
  safe_request (hX w m h) hc hf

variable (hP : LifecycleClosed P)

include hP

/-- Storing the lifecycle keeps the relation, also when it fails. -/
lemma LifecycleClosed.safe_persist {Q : α → World → Prop} {expected : State}
    {f : Except StoreError Unit → Operation α}
    (hf : ∀ r w', During P db₀ id writes m w' → (f r).Safe perform rules Q X w') :
    (persist id m expected >>= f).Safe perform rules Q X w := by
  obtain ⟨row, hF, hrow, hw⟩ := h
  have hduring : During P db₀ id writes m w := ⟨row, hF, hrow, hw⟩
  exact Session.safe_persist hF (hX w m hduring) (fun _ => hf _ w hduring) (fun _ => hf _ w hduring)
    fun _ w' hF' hw' => hf _ w' ⟨_, hF', hP.saved hrow, hw'.trans hw⟩

lemma LifecycleClosed.safe_resize (a : String) (t : ℕ) :
    (resize id m a t).Safe perform rules (fun r w' => During P db₀ id writes r.1 w') X w := by
  unfold resize
  split
  · exact h
  split
  · exact h
  refine safe_process hX h (fun _ => rfl) fun resized => ?_
  rcases resized with _ | _
  · exact h
  have h' := h.memory fun row hrow => hP.resized a t hrow
  refine hP.safe_persist hX h' fun r w' hw' => ?_
  cases r <;> exact hw'

lemma LifecycleClosed.safe_closeRunning (hstate : m.lifecycle.state = .closing) :
    (closeRunning id m).Safe perform rules (fun r w' => During P db₀ id writes r.1 w') X w := by
  unfold closeRunning
  refine safe_process hX h (fun _ => rfl) fun ended => ?_
  have h' : During P db₀ id writes ({ m with process := false }.goto .closed) w :=
    h.memory fun row hrow =>
      hP.goto (hP.stopped hrow) (by simp [hstate, transitions]) nofun nofun nofun
  split
  · exact h
  · refine hP.safe_persist hX h' fun r w' hw' => ?_
    cases r <;> exact hw'

/-- `Close` keeps the relation. -/
lemma LifecycleClosed.safe_close :
    (close id m).Safe perform rules (fun r w' => During P db₀ id writes r.1 w') X w := by
  unfold close
  split
  · exact h
  · next hstate =>
    have hclosing : transitions m.lifecycle.state .closing = true := by simp [hstate, transitions]
    have h' : During P db₀ id writes ((m.goto .closing).goto .closed) w :=
      h.memory fun row hrow => hP.goto (hP.goto hrow hclosing nofun nofun nofun)
        (by simp [goto_state hclosing, transitions]) nofun nofun nofun
    refine hP.safe_persist hX h' fun r w' hw' => ?_
    cases r <;> exact hw'
  · next hstate =>
    have hclosing : transitions m.lifecycle.state .closing = true := by simp [hstate, transitions]
    have hstate' := goto_state hclosing
    split
    · exact h
    have h' : During P db₀ id writes (m.goto .closing) w :=
      h.memory fun row hrow => hP.goto hrow hclosing nofun nofun nofun
    refine hP.safe_persist hX h' fun r w' hw' => ?_
    cases r with
    | ok => exact hP.safe_closeRunning hX hw' hstate'
    | error =>
      refine safe_process hX hw' (fun _ => rfl) fun _ => ?_
      exact hw'.memory fun row hrow =>
        hP.goto (hP.stopped hrow) (by simp [hstate', transitions]) nofun nofun nofun
  · next hstate =>
    split
    · exact h
    · exact hP.safe_closeRunning hX h hstate
  · exact h

lemma LifecycleClosed.safe_finishClosing :
    (finishClosing id m).Safe perform rules (During P db₀ id writes) X w := by
  unfold finishClosing
  split
  · exact h
  rename_i hgo
  push Not at hgo
  refine safe_process hX h (fun _ => rfl) fun ended => ?_
  have h' : During P db₀ id writes ({ m with process := false }.goto .closed) w :=
    h.memory fun row hrow =>
      hP.goto (hP.stopped hrow) (by simp [hgo.1, transitions]) nofun nofun nofun
  split
  · exact h
  · exact hP.safe_persist hX h' fun r w' hw' => hw'

/-- `Restart` keeps the relation. -/
lemma LifecycleClosed.safe_restart :
    (restart id m).Safe perform rules (fun r w' => During P db₀ id writes r.1 w') X w := by
  unfold restart
  dsimp only
  split
  · exact h
  rename_i hgo
  have hallowed : transitions m.lifecycle.state .restarting = true := by
    cases hstate : m.lifecycle.state <;> simp_all [transitions]
  have hstate := goto_state hallowed
  have hclosed : transitions (m.goto .restarting).lifecycle.state .closed = true := by
    simp [hstate, transitions]
  have h₁ : During P db₀ id writes (m.goto .restarting) w :=
    h.memory fun row hrow => hP.goto hrow hallowed nofun nofun nofun
  refine hP.safe_persist hX h₁ fun r w₁ hw₁ => ?_
  rcases r with _ | _
  · exact hw₁.memory fun row hrow => hP.goto hrow hclosed nofun nofun nofun
  refine safe_process hX hw₁ (fun _ => rfl) fun launched => ?_
  rcases launched with _ | _
  · have h₂ : During P db₀ id writes ((m.goto .restarting).goto .closed) w₁ :=
      hw₁.memory fun row hrow => hP.goto hrow hclosed nofun nofun nofun
    exact hP.safe_persist hX h₂ fun r w₂ hw₂ => hw₂
  have h₂ : During P db₀ id writes (m.goto .restarting).launched w₁ :=
    hw₁.memory fun row hrow => hP.launched hrow hstate
  have hrunning : (m.goto .restarting).launched.lifecycle.state = .running :=
    goto_state (by simp [hstate, transitions])
  refine hP.safe_persist hX h₂ fun r w₂ hw₂ => ?_
  cases r with
  | ok => exact hw₂
  | error =>
    refine safe_process hX hw₂ (fun _ => rfl) fun _ => ?_
    exact hw₂.memory fun row hrow => hP.goto (hP.stopped hrow)
      (by simp [hrunning, transitions]) (fun _ => hrunning) nofun nofun

/-- So does the exit of the process. -/
lemma LifecycleClosed.safe_exit : (exit id m).Safe perform rules (During P db₀ id writes) X w := by
  unfold exit
  split
  · exact h
  rename_i hgo
  push Not at hgo
  have h' : During P db₀ id writes { m.goto .exited with process := false } w :=
    h.memory fun row hrow =>
      hP.stopped (hP.goto hrow (by simp [hgo.2, transitions]) (fun _ => hgo.2) nofun nofun)
  exact hP.safe_persist hX h' fun r w' hw' => hw'

end

/-! ### Invariants of the helper -/

/-- The invariant `I` of the helper that is down and `J` of the helper that is up: what each operation
has to preserve under the rules, when the action is admitted. -/
structure HelperInv (cfg : ManagerConfig) (rules : Rules World Call Fate) (admitted : Action → Prop)
    (I : World → List InputReport → Prop) (J : World → Sessions → List InputReport → Prop) :
    Prop where
  start : ∀ w reports, I w reports → (recover cfg).Safe perform rules
    (fun r w' => match r with
      | .ok sessions => J w' sessions reports
      | .error _ => I w' reports) (I · reports) w
  crash : ∀ w sessions reports, J w sessions reports → rules.mayCut w → I w reports
  create : ∀ w sessions reports id name, J w sessions reports →
    (create cfg sessions id name).Safe perform rules
      (fun r w' => match r with
        | .ok m => J w' (sessions.insert id m) reports
        | .error _ => J w' sessions reports) (I · reports) w
  delete : ∀ w sessions reports id m, J w sessions reports → sessions.lookup id = some m →
    (delete id m).Safe perform rules
      (fun r w' => match r with
        | .ok _ => J (Helper.forget id w') (sessions.erase id) (reports.filter (·.id ≠ id))
        | .error _ => J w' sessions reports) (I · reports) w
  write : ∀ w sessions reports id m key data fates, J w sessions reports →
    sessions.lookup id = some m → admitted (.write id key data fates) →
    (write cfg id m key data).Safe perform rules
      (fun r w' => J w' (sessions.insert id r.1) (reports ++ [⟨id, key, r.2⟩])) (I · reports) w
  query : ∀ w sessions reports id m key, J w sessions reports → sessions.lookup id = some m →
    J w sessions (reports ++ [⟨id, key, (m.inputs.query key).mapError ManagerError.input⟩])
  on : ∀ w sessions reports id m op, J w sessions reports → sessions.lookup id = some m →
    (SessionOp.program cfg id m op).Safe perform rules
      (fun m' w' => J w' (sessions.insert id m') reports) (I · reports) w

/-- The invariant of a helper, up or down. -/
def HelperInv.Holds (I : World → List InputReport → Prop)
    (J : World → Sessions → List InputReport → Prop) (s : Helper) : Prop :=
  match s.manager with
  | none => I s.world s.reports
  | some sessions => J s.world sessions s.reports

/-- The invariant survives every admitted step that keeps to the rules. -/
lemma HelperInv.keeps {cfg : ManagerConfig} {rules : Rules World Call Fate}
    {admitted : Action → Prop} {I : World → List InputReport → Prop}
    {J : World → Sessions → List InputReport → Prop} (h : HelperInv cfg rules admitted I J) :
    KeepsUnder (step cfg) (fun s a => s.Obeys cfg rules a ∧ admitted a) (Holds I J) := by
  rintro ⟨w, manager, reports⟩ a s' hs ⟨hobeys, hadmitted⟩ hstep
  cases manager with
  | none =>
    cases a with
    | start =>
      have hend := (h.start w reports hs).exec hobeys
      simp only [step] at hstep
      split at hstep <;> next hexec =>
        rw [hexec] at hend
        cases hstep
        exact hend
    | _ => cases hstep
  | some sessions =>
    cases a with
    | start => cases hstep
    | crash =>
      cases hstep
      exact h.crash w sessions reports hs hobeys
    | create id name =>
      have hend := (h.create w sessions reports id name hs).exec hobeys
      simp only [step] at hstep
      split at hstep <;> next hexec =>
        rw [hexec] at hend
        cases hstep
        exact hend
    | delete id =>
      simp only [step] at hstep
      rcases hm : sessions.lookup id with _ | m
      · simp [hm] at hstep
      simp only [hm] at hstep
      have hend := (h.delete w sessions reports id m hs hm).exec (hobeys m hm)
      split at hstep <;> next hexec =>
        rw [hexec] at hend
        cases hstep
        exact hend
    | write id key data fates =>
      simp only [step] at hstep
      rcases hm : sessions.lookup id with _ | m
      · simp [hm] at hstep
      simp only [hm] at hstep
      have hend := (h.write w sessions reports id m key data fates hs hm hadmitted).exec (hobeys m hm)
      split at hstep <;> next hexec =>
        rw [hexec] at hend
        cases hstep
        exact hend
    | query id key =>
      simp only [step] at hstep
      rcases hm : sessions.lookup id with _ | m
      · simp [hm] at hstep
      simp only [hm] at hstep
      cases hstep
      exact h.query w sessions reports id m key hs hm
    | on id op =>
      simp only [step] at hstep
      rcases hm : sessions.lookup id with _ | m
      · simp [hm] at hstep
      simp only [hm] at hstep
      have hend := (h.on w sessions reports id m op hs hm).exec (hobeys m hm)
      split at hstep <;> next hexec =>
        rw [hexec] at hend
        cases hstep
        exact hend

end Paperboat.Session

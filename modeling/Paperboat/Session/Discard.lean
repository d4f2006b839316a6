import Paperboat.Session.Effects

/-!
# A creation that fails

`Create` inserts a row before it launches the process, and `discardFailedCreate` has to remove the row
when something goes wrong behind that. The store only deletes a session that is exited or closed. Where
the launch fails, the session was moved to `closed` before; where the write of `running` fails, the row
becomes `running`, and the deletion does not touch it.
-/

namespace Paperboat.Session

open Store (Database Transaction Record SessionRow)

/-- What `Create` checks of the memory and what `CreateSession` checks of the store. -/
structure Creatable (cfg : ManagerConfig) (sessions : Sessions) (db : Database) (id name : String) :
    Prop where
  valid : validSessionName name = true
  room : sessions.size < cfg.maxSessions
  names : ∀ id' m, sessions.lookup id' = some m → m.name ≠ name
  unmanaged : sessions.lookup id = none
  unused : Unused db id name

/-- How a creation fails behind `CreateSession`: the launch fails, or the write of `running` does, after
which the process is terminated with some result. -/
inductive CreateFailure where
  | launch
  | persist (terminate : Fate)
  deriving DecidableEq

/-- The fates of the calls of such a creation: all store calls but the failing one succeed. -/
def CreateFailure.fates : CreateFailure → List Fate
  | launch => [.ok, .fails, .ok, .ok]
  | persist terminate => [.ok, .ok, .fails, terminate, .ok, .ok]

/-- Nothing is left of the session: no row has its identifier or its name, and the name can be created
again under any identifier that is free. -/
structure Discarded (cfg : ManagerConfig) (sessions : Sessions) (id name : String) (w : World) :
    Prop where
  noID : w.db.lookup id = none
  noName : ∀ id' row, w.db.lookup id' = some row → row.name ≠ name
  again : ∀ id', w.db.lookup id' = none → sessions.lookup id' = none →
    ∃ m w', (create cfg sessions id' name).exec perform w [.ok, .ok, .ok] = .finished (.ok m) w'

section
variable {cfg : ManagerConfig} {sessions : Sessions} {w : World} {id name : String}

lemma Creatable.create_eq (h : Creatable cfg sessions w.db id name) :
    create cfg sessions id name = createNew cfg id name := by
  have hnames : ¬ ((sessions.entries.any fun e => e.2.name = name) = true ∨
      (sessions.lookup id).isSome = true) := by
    rintro (hany | hsome)
    · obtain ⟨e, he, hname⟩ := List.any_eq_true.mp hany
      have hlookup := (FinMap.lookup_eq_some_iff_mem sessions e.1 e.2).mpr he
      exact h.names e.1 e.2 hlookup (of_decide_eq_true hname)
    · rw [h.unmanaged] at hsome
      cases hsome
  unfold create
  rw [if_neg (by simp [h.valid]), if_neg (not_le.mpr h.room), if_neg hnames]

variable {db : Database}

/-- `CreateSession` accepts a session whose identifier and name are not in use. -/
lemma Unused.createSession (h : Unused db id name) (r : Record) :
    db.createSession id name r = .ok (db.insert id ⟨name, r.state, r.generation, .empty, ∅⟩) := by
  have hfree : ¬ ((db.lookup id).isSome = true ∨ (db.entries.any fun e => e.2.name = name) = true) := by
    rintro (hsome | hany)
    · rw [h.id] at hsome
      cases hsome
    · obtain ⟨e, he, hname⟩ := List.any_eq_true.mp hany
      have hlookup := (FinMap.lookup_eq_some_iff_mem db e.1 e.2).mpr he
      exact h.name e.1 e.2 hlookup (of_decide_eq_true hname)
  rw [Database.createSession, if_neg hfree]

variable {t : Transaction}

lemma perform_store_of_ok {r : t.Result} (h : t.run w.db = .ok (db, r)) :
    perform w (.store t) .ok = ({ w with db := db }, .ok r) := by
  simp only [perform, h]
  rfl

lemma perform_store_of_error {e : Store.Error} (h : t.run w.db = .error e) :
    perform w (.store t) .ok = (w, .error (.rejected e)) := by
  simp only [perform, h]
  rfl

/-- The world with the row of a new session. -/
def withNew (w : World) (id name : String) : World :=
  { w with db := w.db.insert id ⟨name, .creating, 0, .empty, ∅⟩ }

lemma focus_withNew (w : World) (id name : String) :
    Focus w.db id ⟨name, .creating, 0, .empty, ∅⟩ (withNew w id name).db := by
  intro id'
  rw [withNew, FinMap.lookup_insert_eq]

lemma Creatable.exec_create (h : Creatable cfg sessions w.db id name) (fates : List Fate) :
    (create cfg sessions id name).exec perform w (.ok :: fates) =
      (launchNew cfg id (newManagedSession cfg name)).exec perform (withNew w id name) fates := by
  have hrun : (Transaction.createSession id name (newManagedSession cfg name).record).run w.db =
      .ok ((withNew w id name).db, ()) := by
    rw [Transaction.run, h.unused.createSession]
    rfl
  rw [h.create_eq, createNew, Prog.exec_request_bind, perform_store_of_ok hrun]
  rfl

variable {row : SessionRow}

lemma run_updateSession {db₀ : Database} (m : ManagedSession) (hF : Focus db₀ id row w.db)
    (hstate : row.state = .creating) :
    (Transaction.updateSession id .creating m.record).run w.db = .ok (w.db.insert id
        { row with state := m.lifecycle.state, generation := m.lifecycle.generation }, ()) := by
  rw [Transaction.run, hF.updateSession, if_pos hstate]
  rfl

variable {m : ManagedSession}

lemma Creatable.create_succeeds (h : Creatable cfg sessions w.db id name) :
    ∃ m w', (create cfg sessions id name).exec perform w [.ok, .ok, .ok] = .finished (.ok m) w' := by
  have hupdate := run_updateSession ((newManagedSession cfg name).goto .running)
    (focus_withNew w id name) rfl
  rw [h.exec_create]
  change ∃ _ _, (persist id ((newManagedSession cfg name).goto .running) .creating >>= _).exec
    perform (withNew w id name) _ = _
  rw [persist, Prog.exec_request_bind, perform_store_of_ok hupdate]
  exact ⟨_, _, rfl⟩

/-- The row of a new session when it gets the lifecycle of the memory. -/
def savedRow (name : String) (m : ManagedSession) : SessionRow :=
  ⟨name, m.lifecycle.state, m.lifecycle.generation, .empty, ∅⟩

/-- `discardFailedCreate` of a new row: it gets the lifecycle of the session. -/
lemma exec_discardFailedCreate {α : Type} (m : ManagedSession) (f : Unit → Operation α) :
    (discardFailedCreate id m .creating >>= f).exec perform (withNew w id name) [.ok, .ok] =
      Prog.exec perform ((storeCall (.deleteSession id) >>= fun _ => pure ()) >>= f)
        { w with db := (withNew w id name).db.insert id (savedRow name m) } [.ok] := by
  have hupdate := run_updateSession m (focus_withNew w id name) rfl
  rw [discardFailedCreate, persist, Prog.exec_request_bind_bind, perform_store_of_ok hupdate]
  rfl

lemma run_deleteSession (h : db.lookup id = some row) : (Transaction.deleteSession id).run db =
      if row.state = .exited ∨ row.state = .closed then .ok (db.erase id, ())
      else .error .conflict := by
  simp only [Transaction.run, Database.deleteSession, h]
  split <;> rfl

/-- A database with the rows from before lets the session be created. -/
lemma Creatable.discarded (h : Creatable cfg sessions w.db id name) {w' : World}
    (hsame : SameRows w.db w'.db) : Discarded cfg sessions id name w' := by
  have hname : ∀ id' row, w'.db.lookup id' = some row → row.name ≠ name :=
    fun id' row hlookup => h.unused.name id' row (hsame id' ▸ hlookup)
  refine ⟨by rw [hsame id, h.unused.id], hname, fun id' hfree hunmanaged => ?_⟩
  have hagain : Creatable cfg sessions w'.db id' name :=
    ⟨h.valid, h.room, h.names, hunmanaged, hfree, hname⟩
  exact hagain.create_succeeds

/-- A creation that fails behind `CreateSession`, while every other store call succeeds, leaves nothing
exactly when it was the launch that failed. -/
theorem discarded_iff_launch_failed (h : Creatable cfg sessions w.db id name) (failure : CreateFailure) :
    ∃ e w', (create cfg sessions id name).exec perform w failure.fates = .finished (.error e) w' ∧
      (Discarded cfg sessions id name w' ↔ failure = .launch) := by
  have hF := focus_withNew w id name
  cases failure with
  | launch =>
    -- the session is closed, so its row is deleted
    set m := (newManagedSession cfg name).goto .closed
    have hdelete : (Transaction.deleteSession id).run
        ((withNew w id name).db.insert id (savedRow name m)) =
          .ok (((withNew w id name).db.insert id (savedRow name m)).erase id, ()) := by
      rw [run_deleteSession (hF.insert _).lookup, if_pos (.inr rfl)]
    rw [CreateFailure.fates, h.exec_create]
    change ∃ _ _, (discardFailedCreate id m .creating >>= _).exec perform (withNew w id name) _ = _ ∧ _
    rw [exec_discardFailedCreate, Prog.exec_request_bind_bind, perform_store_of_ok hdelete]
    exact ⟨_, _, rfl, iff_of_true (h.discarded (h.unused.erase (hF.insert _))) rfl⟩
  | persist terminate =>
    -- the session is running, so its row stays
    set m := (newManagedSession cfg name).goto .running
    have hbusy : ¬ ((savedRow name m).state = .exited ∨ (savedRow name m).state = .closed) := by
      rintro (hstate | hstate) <;> cases hstate
    have hdelete : (Transaction.deleteSession id).run
        ((withNew w id name).db.insert id (savedRow name m)) = .error .conflict := by
      rw [run_deleteSession (hF.insert _).lookup, if_neg hbusy]
    have hexec : (launchNew cfg id (newManagedSession cfg name)).exec perform (withNew w id name)
        [.ok, .fails, terminate, .ok, .ok] =
          Prog.exec perform (discardFailedCreate id m .creating >>= fun _ =>
            return .error (.store .failed)) (withNew w id name) [.ok, .ok] := rfl
    rw [CreateFailure.fates, h.exec_create, hexec, exec_discardFailedCreate,
      Prog.exec_request_bind_bind, perform_store_of_error hdelete]
    refine ⟨_, _, rfl, iff_of_false (fun hdiscarded => ?_) nofun⟩
    have hlookup : ((withNew w id name).db.insert id (savedRow name m)).lookup id = none :=
      hdiscarded.noID
    rw [(hF.insert _).lookup] at hlookup
    cases hlookup

end

lemma creatable_of_empty : Creatable smallConfig ∅ (∅ : Database) "1" "a" where
  valid := by decide +kernel
  room := by decide
  names := by simp
  unmanaged := AList.lookup_empty _
  unused := ⟨AList.lookup_empty _, by simp⟩

/-- Its creation leaves nothing behind when the launch fails. -/
theorem failed_launch_is_discarded : ∃ e w',
    (create smallConfig ∅ "1" "a").exec perform ⟨∅, []⟩ CreateFailure.launch.fates =
      .finished (.error e) w' ∧ Discarded smallConfig ∅ "1" "a" w' := by
  obtain ⟨e, w', hexec, hiff⟩ := discarded_iff_launch_failed (w := ⟨∅, []⟩) creatable_of_empty .launch
  exact ⟨e, w', hexec, hiff.mpr rfl⟩

/-- The state of the row that a failed creation leaves. -/
def stateLeft (id : String) : Ending World (Except ManagerError ManagedSession) → Option State
  | .finished (.error _) w => (w.db.lookup id).map (·.state)
  | _ => none

/-- It leaves a row that is running when the launch succeeds and the write of `running` fails. -/
theorem failed_persist_leaves_a_row : ∃ e w',
    (create smallConfig ∅ "1" "a").exec perform ⟨∅, []⟩ (CreateFailure.persist .ok).fates =
      .finished (.error e) w' ∧ ¬ Discarded smallConfig ∅ "1" "a" w' := by
  have hrun : stateLeft "1" ((create smallConfig ∅ "1" "a").exec perform ⟨∅, []⟩
      (CreateFailure.persist .ok).fates) = some .running := by
    decide +kernel
  unfold stateLeft at hrun
  split at hrun
  · next e w' hexec =>
    refine ⟨e, w', hexec, fun hdiscarded => ?_⟩
    rw [hdiscarded.noID] at hrun
    cases hrun
  · cases hrun

end Paperboat.Session

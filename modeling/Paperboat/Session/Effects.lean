import Paperboat.Session.Operations

/-!
# What the operations do

The effects of the operations of the manager on the row and the memory of a session, whatever calls
fail and wherever the helper dies. `SessionClosed` lists the small changes of which the operations on an
existing session consist; a relation between row and memory that survives them survives the operations.
-/

namespace Paperboat.Session

open Prog FinMap List

open Store (Database Transaction Record SessionRow)

/-! ### Existing sessions -/

/-- A relation between row and memory that the parts of the operations on attachments and output
preserve. -/
structure EventClosed (P : SessionRow → ManagedSession → Prop) : Prop where
  attached : ∀ {row m} (l : List String), P row m → (∀ a ∈ l, a ∈ m.attached ∨ a ≠ "") →
    P row { m with attached := l }
  flushing : ∀ {row m} (l : List History.Event), P row m → P row { m with flushing := l }
  produced : ∀ {row m data history event}, P row m → data ≠ [] →
    m.history.appendBuffer 1 data = .ok (history, event) → P row { m with history := history }
  cleared : ∀ {row m log}, P row m → row.output.clearOutput m.history.latest = .ok log →
    P { row with output := log } { m with history := m.history.clear.1 }
  advanced : ∀ {row m log latest}, P row m →
    row.output.advanceOutput latest m.history.earliest = .ok log → P { row with output := log } m
  appended : ∀ {row m log channel start data maxRetained}, P row m →
    row.output.appendOutput channel start data maxRetained = .ok log →
    P { row with output := log } m

/-- A relation between row and memory that the parts of all operations except `Create`, `Delete` and
`Write` preserve. -/
structure SessionClosed (P : SessionRow → ManagedSession → Prop) : Prop
    extends LifecycleClosed P, EventClosed P

/-- The operations that change the lifecycle or write it to the store. -/
def SessionOp.changesLifecycle : SessionOp → Bool
  | resize _ _ | close | finishClosing | restart | exit => true
  | _ => false

section
variable {P : SessionRow → ManagedSession → Prop} {cfg : ManagerConfig} {db₀ : Database} {id : String}
  {writes : List Written} {rules : Rules World Call Fate} {X : World → Prop} {w : World}
  {m : ManagedSession} (hX : ∀ w m, During P db₀ id writes m w → rules.mayCut w → X w)
  (h : During P db₀ id writes m w)

include hX h

/-- A transaction on the output of the session: it fails, or the row gets the new log. -/
lemma safe_output {α : Type} {Q : α → World → Prop} {t : Transaction}
    {f : Except StoreError t.Result → Operation α}
    {g : Store.OutputLog → Except Store.Error Store.OutputLog}
    (hrun : ∀ db r, t.run w.db = .ok (db, r) → Store.committed (w.db.onOutput id g) = .ok (db, ()))
    (herror : ∀ e, (f (.error e)).Safe perform rules Q X w)
    (hok : ∀ row log r w', P row m → g row.output = .ok log →
      Focus db₀ id { row with output := log } w'.db → w'.writes = writes →
      (f (.ok r)).Safe perform rules Q X w') :
    (storeCall t >>= f).Safe perform rules Q X w := by
  have hcut := hX w m h
  obtain ⟨row, hF, hP, hw⟩ := h
  refine safe_store hcut (fun _ => herror _) (fun e _ => herror _) fun db r hdb => ?_
  obtain ⟨log, hlog, hF'⟩ := hF.onOutput_ok (hrun db r hdb)
  exact hok row log r _ hP hlog hF' hw

variable (hP : EventClosed P)

include hP

/-- `Clear` keeps the relation. -/
lemma EventClosed.safe_clear :
    (clear id m).Safe perform rules (fun r w' => During P db₀ id writes r.1 w') X w := by
  refine safe_output hX h (fun db r hr => hr) (fun e => h) fun row log r w' hrow hlog hF hw => ?_
  exact ⟨_, hF, hP.cleared hrow hlog, hw⟩

/-- The first step of a flush keeps the relation. -/
lemma EventClosed.safe_flushBegin :
    (flushBegin cfg id m).Safe perform rules (During P db₀ id writes) X w := by
  have hread : ∀ db r, (Transaction.outputBounds id).run w.db = .ok (db, r) → db = w.db := by
    intro db r hr
    obtain ⟨row, hF, -⟩ := h
    simp only [Transaction.run, Database.ofOutput, hF.lookup] at hr
    exact (Prod.mk.inj (Except.ok.inj hr)).1.symm
  refine safe_store (hX w m h) (fun _ => h) (fun e _ => h) fun db r hr => ?_
  obtain rfl := hread db r hr
  obtain ⟨earliest, latest⟩ := r
  dsimp only
  split
  · refine safe_output hX h (fun db r hr => hr) (fun e => h) fun row log r w' hrow hlog hF hw => ?_
    exact ⟨_, hF, hP.flushing _ (hP.advanced hrow hlog), hw⟩
  · exact h.memory fun row hrow => hP.flushing _ hrow

/-- Every further step of a flush keeps the relation. -/
lemma EventClosed.safe_flushNext :
    (flushNext cfg id m).Safe perform rules (During P db₀ id writes) X w := by
  unfold flushNext
  split
  · exact h
  · refine safe_output hX h (fun db r hr => hr)
      (fun e => h.memory fun row hrow => hP.flushing _ hrow) fun row log r w' hrow hlog hF hw => ?_
    exact ⟨_, hF, hP.flushing _ (hP.appended hrow hlog), hw⟩

/-- So does every operation that leaves the lifecycle alone. -/
lemma EventClosed.safe_program {op : SessionOp} (hop : op.changesLifecycle = false) :
    (op.program cfg id m).Safe perform rules (During P db₀ id writes) X w := by
  cases op with
  | attach =>
    change During P db₀ id writes _ w
    split
    · exact h
    rename_i ha
    refine h.memory fun row hrow => hP.attached _ hrow fun b hb => ?_
    rcases mem_cons.mp hb with rfl | hb
    · exact .inr ha
    · exact .inl hb
  | detach =>
    exact h.memory fun row hrow => hP.attached _ hrow fun b hb => .inl (mem_filter.mp hb).1
  | clear => exact safe_bind.mpr (hP.safe_clear hX h)
  | output =>
    change During P db₀ id writes _ w
    split
    · exact h
    rename_i hdata
    split
    · exact h
    · next happend => exact h.memory fun row hrow => hP.produced hrow hdata happend
  | flushBegin => exact hP.safe_flushBegin hX h
  | flushNext => exact hP.safe_flushNext hX h
  | resize | close | finishClosing | restart | exit => cases hop

omit hP in
/-- So does every operation on an existing session except `Write`. -/
lemma SessionClosed.safe_program (hP : SessionClosed P) (op : SessionOp) :
    (op.program cfg id m).Safe perform rules (During P db₀ id writes) X w := by
  cases op with
  | resize a t => exact safe_bind.mpr (hP.safe_resize hX h a t)
  | close => exact safe_bind.mpr (hP.safe_close hX h)
  | finishClosing => exact hP.safe_finishClosing hX h
  | restart => exact safe_bind.mpr (hP.safe_restart hX h)
  | exit => exact hP.safe_exit hX h
  | _ => exact hP.toEventClosed.safe_program hX h rfl

end

/-! ### New and deleted sessions -/

/-- The rows that `Create` can leave. -/
inductive NewRow (name : String) : SessionRow → Prop
  | creating : NewRow name ⟨name, .creating, 0, .empty, ∅⟩
  | closed : NewRow name ⟨name, .closed, 0, .empty, ∅⟩
  | running : NewRow name ⟨name, .running, 1, .empty, ∅⟩

/-- A new row has the name that was asked for. -/
lemma NewRow.name_eq {name : String} {row : SessionRow} (h : NewRow name row) : row.name = name := by
  cases h <;> rfl

/-- Neither the identifier nor the name is in use. -/
structure Unused (db : Database) (id name : String) : Prop where
  id : db.lookup id = none
  name : ∀ id' row, db.lookup id' = some row → row.name ≠ name

/-- The database has the same rows. -/
def SameRows (db db' : Database) : Prop := ∀ id, db'.lookup id = db.lookup id

/-- The database during and after `Create`: as before, or with a new row. -/
def Creation (db₀ : Database) (id name : String) (db : Database) : Prop :=
  SameRows db₀ db ∨ Unused db₀ id name ∧ ∃ row, NewRow name row ∧ Focus db₀ id row db

/-- The session that `Create` returns. -/
def createdSession (cfg : ManagerConfig) (name : String) : ManagedSession :=
  { newManagedSession cfg name with
    lifecycle := ⟨.running, 1⟩
    inputs := newBoundedInputJournal 1 cfg.maxInputDecisions
    process := true }

section
variable {R : SessionRow → Prop} {P : String → SessionRow → ManagedSession → Prop}
  {db₀ db : Database} {id name : String} {sessions : Sessions} {m : ManagedSession}

/-- `Create` keeps a property of all rows that new rows have. -/
lemma Creation.allRows (h : Creation db₀ id name db) (hall : AllRows R db₀)
    (hnew : ∀ row, NewRow name row → R row) : AllRows R db := by
  rcases h with hsame | ⟨-, row, hrow, hF⟩
  · exact fun id' row hlookup => hall id' row (hsame id' ▸ hlookup)
  · exact hF.allRows hall (hnew row hrow)

/-- A row with an unused name keeps the names unique. -/
lemma Focus.uniqueNames_of_unused {row : SessionRow} (h : Focus db₀ id row db)
    (hnames : UniqueNames db₀) (hunused : Unused db₀ id row.name) : UniqueNames db := by
  intro id₁ id₂ r₁ r₂ h₁ h₂ heq
  rw [h id₁] at h₁
  rw [h id₂] at h₂
  split at h₁ <;> split at h₂
  · next hid₁ hid₂ => rw [hid₁, hid₂]
  · cases h₁
    exact absurd heq.symm (hunused.name id₂ r₂ h₂)
  · cases h₂
    exact absurd heq (hunused.name id₁ r₁ h₁)
  · exact hnames id₁ id₂ r₁ r₂ h₁ h₂ heq

/-- `Create` keeps the names unique. -/
lemma Creation.uniqueNames (h : Creation db₀ id name db) (hnames : UniqueNames db₀) : UniqueNames db := by
  rcases h with hsame | ⟨hunused, row, hrow, hF⟩
  · intro id₁ id₂ r₁ r₂ h₁ h₂
    exact hnames id₁ id₂ r₁ r₂ (hsame id₁ ▸ h₁) (hsame id₂ ▸ h₂)
  · exact hF.uniqueNames_of_unused hnames (hrow.name_eq ▸ hunused)

/-- The managed sessions have rows, and the identifier of a new one is not among them. -/
lemma Unused.unmanaged (h : Unused db₀ id name) (hlinks : Linked P db₀ sessions) :
    sessions.lookup id = none := by
  rcases hm : sessions.lookup id with _ | m
  · rfl
  obtain ⟨row, hrow, -⟩ := hlinks id m hm
  rw [h.id] at hrow
  cases hrow

/-- `Create` keeps the rows of the managed sessions. -/
lemma Creation.linked (h : Creation db₀ id name db) (hlinks : Linked P db₀ sessions) :
    Linked P db sessions := by
  rcases h with hsame | ⟨hunused, row, -, hF⟩
  · intro id' m hm
    obtain ⟨row, hrow, hP⟩ := hlinks id' m hm
    exact ⟨row, by rw [hsame id', hrow], hP⟩
  · exact hF.linked_of_unmanaged hlinks (hunused.unmanaged hlinks)

/-- A deletion keeps a property of all rows. -/
lemma AllRows.erase (h : AllRows R db) (id : String) : AllRows R (db.erase id) :=
  forall_erase fun id' row hlookup _ => h id' row hlookup

/-- A deletion keeps the names unique. -/
lemma UniqueNames.erase (h : UniqueNames db) (id : String) : UniqueNames (db.erase id) := by
  have hold := forall_erase (m := db) (k := id) fun _ _ hlookup _ => hlookup
  exact fun id₁ id₂ r₁ r₂ h₁ h₂ => h id₁ id₂ r₁ r₂ (hold id₁ r₁ h₁) (hold id₂ r₂ h₂)

/-- A deletion from the store and the memory keeps the others linked. -/
lemma Linked.erase (h : Linked P db sessions) (id : String) :
    Linked P (db.erase id) (sessions.erase id) := by
  refine forall_erase fun id' m hlookup hne => ?_
  rw [AList.lookup_erase_ne hne]
  exact h id' m hlookup

end

section
variable {cfg : ManagerConfig} {rules : Rules World Call Fate} {db₀ : Database} {id name : String}
  {sessions : Sessions} {w : World} {writes : List Written}

variable {db db' : Database} {r : Unit}

/-- A session is only inserted under an unused identifier and name. -/
lemma createSession_ok {record : Record}
    (h : (Transaction.createSession id name record).run db = .ok (db', r)) :
    Unused db id name ∧ Focus db id ⟨name, record.state, record.generation, .empty, ∅⟩ db' := by
  simp only [Transaction.run, Database.createSession] at h
  split at h
  · cases h
  rename_i hfree
  cases h
  push Not at hfree
  obtain ⟨hid, hname⟩ := hfree
  refine ⟨⟨by simpa using hid, fun id' row hlookup heq => hname ?_⟩, fun id' => ?_⟩
  · exact any_eq_true.mpr
      ⟨⟨id', row⟩, (lookup_eq_some_iff_mem _ _ _).mp hlookup, by simpa using heq⟩
  · rw [lookup_insert_eq]

/-- A deletion removes the row. -/
lemma deleteSession_ok (h : (Transaction.deleteSession id).run db = .ok (db', r)) :
    db' = db.erase id := by
  simp only [Transaction.run, Database.deleteSession] at h
  rcases hlookup : db.lookup id with _ | _
  · simp [hlookup, Store.committed, Except.map] at h
  simp only [hlookup] at h
  split at h
  · exact (Prod.mk.inj (Except.ok.inj h)).1.symm
  · cases h

variable {row : SessionRow}

/-- Deleting the new row brings back the rows there were. -/
lemma Unused.erase (h : Unused db₀ id name) (hF : Focus db₀ id row db) : SameRows db₀ (db.erase id) := by
  intro id'
  rw [lookup_erase_eq, hF id']
  split
  · next heq => rw [heq, h.id]
  · rfl

/-- The state of the world during `Create`. -/
def CreatingIn (db₀ : Database) (id name : String) (writes : List Written) (w : World) : Prop :=
  Creation db₀ id name w.db ∧ w.writes = writes

variable {m : ManagedSession}

/-- `discardFailedCreate` deletes the row, or leaves one that `Create` may leave. -/
lemma safe_discardFailedCreate {α : Type} {Q : α → World → Prop} {f : Unit → Operation α}
    (hunused : Unused db₀ id name) (hF : Focus db₀ id row w.db) (hrow : NewRow name row)
    (hsaved : NewRow name { row with
      state := m.lifecycle.state, generation := m.lifecycle.generation })
    (hf : ∀ w', CreatingIn db₀ id name w.writes w' →
      (f ()).Safe perform rules Q (CreatingIn db₀ id name w.writes) w') :
    (discardFailedCreate id m .creating >>= f).Safe perform rules Q
      (CreatingIn db₀ id name w.writes) w := by
  -- the row is deleted, or stays as it is
  have hdelete : ∀ w' row', w'.writes = w.writes → Focus db₀ id row' w'.db → NewRow name row' →
      ((storeCall (.deleteSession id) >>= fun _ => (pure () : Operation Unit)) >>= f).Safe perform
        rules Q (CreatingIn db₀ id name w.writes) w' := by
    intro w' row' hw' hF' hrow'
    have hin : CreatingIn db₀ id name w.writes w' := ⟨.inr ⟨hunused, row', hrow', hF'⟩, hw'⟩
    rw [safe_bind]
    refine safe_store (fun _ => hin) (fun _ => hf w' hin) (fun e _ => hf w' hin) fun db r hr => ?_
    obtain rfl := deleteSession_ok hr
    exact hf _ ⟨.inl (hunused.erase hF'), hw'⟩
  unfold discardFailedCreate
  rw [safe_bind]
  have hin : CreatingIn db₀ id name w.writes w := ⟨.inr ⟨hunused, row, hrow, hF⟩, rfl⟩
  refine safe_persist hF (fun _ => hin) (fun _ => ?_) (fun _ => ?_) fun _ w' hF' hw' => ?_
  · exact safe_bind.mp (hdelete w row rfl hF hrow)
  · exact safe_bind.mp (hdelete w row rfl hF hrow)
  · exact safe_bind.mp (hdelete w' _ hw' hF' hsaved)

/-- What `Create` leaves. -/
def CreateResult (cfg : ManagerConfig) (db₀ : Database) (id name : String) (writes : List Written)
    (r : Except ManagerError ManagedSession) (w : World) : Prop :=
  w.writes = writes ∧
    match r with
    | .ok m => Unused db₀ id name ∧ Focus db₀ id ⟨name, .running, 1, .empty, ∅⟩ w.db ∧
        m = createdSession cfg name
    | .error _ => Creation db₀ id name w.db

/-- `Create` returns a running session with its row, or an error. -/
lemma safe_create (w : World) :
    (create cfg sessions id name).Safe perform rules (CreateResult cfg w.db id name w.writes)
      (CreatingIn w.db id name w.writes) w := by
  have hsame : Creation w.db id name w.db := .inl fun _ => rfl
  unfold create
  split_ifs
  · exact ⟨rfl, hsame⟩
  · exact ⟨rfl, hsame⟩
  · exact ⟨rfl, hsame⟩
  unfold createNew
  refine safe_store (fun _ => ⟨hsame, rfl⟩) (fun _ => ⟨rfl, hsame⟩) (fun e _ => ⟨rfl, hsame⟩)
    fun db r hr => ?_
  obtain ⟨hunused, hF⟩ := createSession_ok hr
  have hin : CreatingIn w.db id name w.writes { w with db := db } :=
    ⟨.inr ⟨hunused, _, .creating, hF⟩, rfl⟩
  refine safe_request (fun _ => hin) (fun _ => rfl) fun launched => ?_
  rcases launched with _ | _
  · exact safe_discardFailedCreate (w := { w with db := db }) hunused hF .creating .closed
      fun w' hw' => ⟨hw'.2, hw'.1⟩
  refine safe_persist (w := { w with db := db }) hF (fun _ => hin) (fun _ => ?_) (fun _ => ?_)
    fun _ w' hF' hw' => ⟨hw', hunused, hF', rfl⟩
  all_goals
    refine safe_request (fun _ => hin) (fun _ => rfl) fun _ => ?_
    exact safe_discardFailedCreate (w := { w with db := db }) hunused hF .creating .running
      fun w' hw' => ⟨hw'.2, hw'.1⟩

/-- `Delete` removes the row, or fails and changes nothing. -/
lemma safe_delete (w : World) : (delete id m).Safe perform rules (fun r w' => match r with
        | .ok _ => w' = { w with db := w.db.erase id }
        | .error _ => w' = w) (· = w) w := by
  unfold delete
  split
  · rfl
  · refine safe_store (fun _ => rfl) (fun _ => rfl) (fun e _ => rfl) fun db r hr => ?_
    obtain rfl := deleteSession_ok hr
    rfl

end

/-! ### Inputs -/

/-- The row with a decision about an input. -/
def withDecision (row : SessionRow) (key : InputKey) (decision : InputDecision) : SessionRow :=
  { row with decisions := row.decisions.insert key decision }

/-- The later decision on a key counts. -/
@[simp] lemma withDecision_withDecision (row : SessionRow) (key : InputKey)
    (decision decision' : InputDecision) :
    withDecision (withDecision row key decision) key decision' = withDecision row key decision' := by
  simp only [withDecision, AList.insert_insert]

/-- The decision with which `Write` reserves a key. -/
def reservation (hash : String) : InputDecision := ⟨.uncertain, 0, "", hash⟩

/-- The checks of `Write` in front of the journal. -/
structure CanWrite (m : ManagedSession) (key : InputKey) : Prop where
  running : m.lifecycle.state = .running
  process : m.process = true
  generation : key.generation = m.lifecycle.generation
  attached : key.attachmentID ∈ m.attached

/-- A key that `Write` reserves. -/
structure Reservable (m : ManagedSession) (key : InputKey) (row : SessionRow) : Prop
    extends CanWrite m key where
  memory : m.inputs.decisions.lookup key = none
  stored : row.decisions.lookup key = none
  room : m.inputs.decisions.size < m.inputs.max

/-- An error that says nothing about what became of an input. -/
def PlainError (e : ManagerError) : Prop := e ≠ .input .unknown ∧ ∀ decision e', e ≠ .undecided decision e'

/-- What the journal answers to a retry. -/
def retried (previous : InputDecision) : InputDecision :=
  publicDecision
    { previous with status := if previous.status = .accepted then .duplicate else previous.status }

variable (cfg : ManagerConfig) (id : String) (m : ManagedSession) (key : InputKey)
  (data : List UInt8) (row : SessionRow)

/-- The row and the new writes while `Write` is at work: nothing has happened, the key is reserved, or
the bytes were written. -/
inductive Submitting : SessionRow → List Written → Prop
  | before : Submitting row []
  | reserved (h : Reservable m key row) :
      Submitting (withDecision row key (reservation (cfg.sha256 data))) []
  | written (h : Reservable m key row) (hkey : key.incomplete = false)
      (hcurrent : key.generation = m.inputs.current) :
      Submitting (withDecision row key (reservation (cfg.sha256 data))) [⟨id, key, data⟩]

/-- The ways in which `Write` ends, with the memory, the outcome, the row and the new writes. -/
inductive Submitted :
    ManagedSession → Except ManagerError InputDecision → SessionRow → List Written → Prop
  /-- Nothing was done. For a known key, this is a conflict. -/
  | refused {e : ManagerError} (hplain : PlainError e)
      (h : CanWrite m key → ∀ previous, m.inputs.decisions.lookup key = some previous →
        key.incomplete = false → previous.hash ≠ cfg.sha256 data ∧ e = .input .conflict) :
      Submitted m (.error e) row []
  /-- The key is known with the same bytes. -/
  | answered {previous : InputDecision} (h : m.inputs.decisions.lookup key = some previous)
      (hhash : previous.hash = cfg.sha256 data) : Submitted m (.ok (retried previous)) row []
  /-- The key was reserved, and the journal refused it. -/
  | reserved {e : ManagerError} (hplain : PlainError e) (h : Reservable m key row)
      (hbad : key.incomplete = true ∨ key.generation ≠ m.inputs.current) :
      Submitted m (.error e) (withDecision row key (reservation (cfg.sha256 data))) []
  /-- The bytes were written, and the decision is stored. -/
  | stored {n : ℕ} {failed : Bool} (h : Reservable m key row) (hkey : key.incomplete = false)
      (hcurrent : key.generation = m.inputs.current) :
      Submitted
        { m with inputs := m.inputs.record key (decisionAfter (cfg.sha256 data) data.length n failed) }
        (.ok (publicDecision (decisionAfter (cfg.sha256 data) data.length n failed)))
        (withDecision (withDecision row key (reservation (cfg.sha256 data))) key
          (decisionAfter (cfg.sha256 data) data.length n failed)) [⟨id, key, data⟩]
  /-- The bytes were written, and the decision could not be stored. -/
  | unstored {n : ℕ} {failed : Bool} {decision : InputDecision} {e : StoreError}
      (hstatus : decision.status = .uncertain) (h : Reservable m key row)
      (hkey : key.incomplete = false) (hcurrent : key.generation = m.inputs.current) :
      Submitted
        { m with inputs := m.inputs.record key (decisionAfter (cfg.sha256 data) data.length n failed) }
        (.error (.undecided decision e))
        (withDecision row key (reservation (cfg.sha256 data))) [⟨id, key, data⟩]

variable {cfg id m key data row} {rules : Rules World Call Fate} {db₀ : Database} {w : World}

/-- `Write` leaves the name, the state and the lifecycle alone. -/
lemma Submitted.frame {m' : ManagedSession} {outcome : Except ManagerError InputDecision}
    {row' : SessionRow} {new : List Written}
    (h : Submitted cfg id m key data row m' outcome row' new) :
    row'.name = row.name ∧ row'.state = row.state ∧ m'.lifecycle = m.lifecycle := by
  cases h <;> exact ⟨rfl, rfl, rfl⟩

/-- The world while `Write` is at work. -/
def SubmittingIn (cfg : ManagerConfig) (id : String) (m : ManagedSession) (key : InputKey)
    (data : List UInt8) (row : SessionRow) (db₀ : Database) (writes : List Written) (w : World) :
    Prop :=
  ∃ row' new, Focus db₀ id row' w.db ∧ w.writes = writes ++ new ∧
    Submitting cfg id m key data row row' new

/-- The world after `Write`. -/
def SubmittedIn (cfg : ManagerConfig) (id : String) (m : ManagedSession) (key : InputKey)
    (data : List UInt8) (row : SessionRow) (db₀ : Database) (writes : List Written)
    (r : ManagedSession × Except ManagerError InputDecision) (w : World) : Prop :=
  ∃ row' new, Focus db₀ id row' w.db ∧ w.writes = writes ++ new ∧
    Submitted cfg id m key data row r.1 r.2 row' new

variable {db db' : Database} {decision : InputDecision} {j : InputJournal} {hash : String}

/-- `Write` from the reservation of the key on. -/
lemma safe_writeReserved {f : ManagedSession × Except ManagerError InputDecision →
      Operation (ManagedSession × Except ManagerError InputDecision)}
    (hres : Reservable m key row)
    (hF : Focus db₀ id (withDecision row key (reservation (cfg.sha256 data))) w.db)
    (hrefused : ∀ e, f (m, .error e) = pure (m, .error e))
    (hwritten : ∀ m' decision, f (m', .ok decision) =
      storeDecision id m' key (cfg.sha256 data) decision) :
    (writeInput cfg id m key data >>= f).Safe perform rules
      (SubmittedIn cfg id m key data row db₀ w.writes)
      (SubmittingIn cfg id m key data row db₀ w.writes) w := by
  have hbad : ∀ e, e ≠ .unknown → key.incomplete = true ∨ key.generation ≠ m.inputs.current →
      (f (m, .error (.input e))).Safe perform rules (SubmittedIn cfg id m key data row db₀ w.writes)
        (SubmittingIn cfg id m key data row db₀ w.writes) w := by
    intro e he hkey
    rw [hrefused]
    exact ⟨_, [], hF, (append_nil _).symm, .reserved ⟨by simpa using he, nofun⟩ hres hkey⟩
  unfold writeInput
  rw [safe_bind]
  dsimp only
  simp only [InputJournal.lookup, hres.memory, if_neg (not_le.mpr hres.room)]
  by_cases hkey : key.incomplete = true
  · rw [if_pos hkey]
    exact hbad _ nofun (.inl hkey)
  by_cases hcurrent : key.generation = m.inputs.current
  swap
  · rw [if_neg hkey, if_pos hcurrent]
    exact hbad _ nofun (.inr hcurrent)
  rw [if_neg hkey, if_neg (not_not.mpr hcurrent)]
  have hkey : key.incomplete = false := by simpa using hkey
  refine ⟨fun _ => ⟨_, [], hF, (append_nil _).symm, .reserved hres⟩, fun fate _ => ?_⟩
  generalize (perform w (.writePTY id key data) fate).2 = answer
  obtain ⟨n, failed⟩ := answer
  change Prog.Safe perform rules _ _ (pure _) { w with writes := w.writes ++ [⟨id, key, data⟩] }
  rw [safe_pure, hwritten]
  have hunstored : ∀ (e : StoreError) (decision : InputDecision), decision.status = .uncertain →
      SubmittedIn cfg id m key data row db₀ w.writes
        ({ m with inputs := m.inputs.record key (decisionAfter (cfg.sha256 data) data.length n failed) },
          .error (.undecided decision e)) { w with writes := w.writes ++ [⟨id, key, data⟩] } :=
    fun e decision hstatus => ⟨_, _, hF, rfl, .unstored hstatus hres hkey hcurrent⟩
  refine safe_store (fun _ => ⟨_, _, hF, rfl, .written hres hkey hcurrent⟩)
    (fun _ => hunstored _ _ rfl) (fun e _ => hunstored _ _ rfl) fun db r hr => ?_
  simp only [Transaction.run, Database.updateInputDecision, hF.lookup, withDecision,
    AList.lookup_insert] at hr
  split at hr
  · cases hr
    exact ⟨_, _, hF.insert _, rfl, .stored hres hkey hcurrent⟩
  · cases hr

/-- `Write` for a key without a decision, when the checks in front of the journal have passed. -/
lemma safe_writeNew (hF : Focus db₀ id row w.db) (hcan : CanWrite m key)
    (hmemory : m.inputs.decisions.lookup key = none) :
    (writeNew cfg id m key data).Safe perform rules (SubmittedIn cfg id m key data row db₀ w.writes)
      (SubmittingIn cfg id m key data row db₀ w.writes) w := by
  have hrefused : ∀ (w' : World) e, PlainError e → Focus db₀ id row w'.db →
      w'.writes = w.writes →
      SubmittedIn cfg id m key data row db₀ w.writes (m, .error e) w' :=
    fun w' e he hF' hw' => ⟨row, [], hF', by simpa using hw',
      .refused he fun _ previous hprevious => by simp [hmemory] at hprevious⟩
  unfold writeNew
  dsimp only
  rcases hroom : m.inputs.admitKey key with _ | _
  · refine hrefused w _ ⟨?_, by simp⟩ hF rfl
    rintro ⟨⟩
    simp only [InputJournal.admitKey, hmemory, Option.isSome_none] at hroom
    split_ifs at hroom <;> cases hroom
  have hroom' : m.inputs.decisions.size < m.inputs.max := by
    by_contra hfull
    simp [InputJournal.admitKey, hmemory, not_lt.mp hfull] at hroom
  refine safe_store (fun _ => ⟨row, [], hF, (append_nil _).symm, .before⟩)
    (fun _ => hrefused w _ ⟨by simp, by simp⟩ hF rfl)
    (fun e _ => hrefused w _ ⟨by simp, by simp⟩ hF rfl) fun db inserted hput => ?_
  simp only [Transaction.run, Database.putInputDecision, hF.lookup] at hput
  rcases hstored : row.decisions.lookup key with _ | _
  · simp only [hstored] at hput
    cases hput
    have hres : Reservable m key row := ⟨hcan, hmemory, hstored, hroom'⟩
    exact safe_writeReserved (w := { w with db := _ }) hres (hF.insert _) (fun _ => rfl) fun _ _ => rfl
  simp only [hstored] at hput
  split at hput
  · cases hput
    exact hrefused w _ ⟨by simp, by simp⟩ hF rfl
  · cases hput

/-- `Write` ends in one of the ways that `Submitted` lists. -/
lemma safe_write (hF : Focus db₀ id row w.db) : (write cfg id m key data).Safe perform rules
      (SubmittedIn cfg id m key data row db₀ w.writes)
      (SubmittingIn cfg id m key data row db₀ w.writes) w := by
  have hdone : ∀ outcome, Submitted cfg id m key data row m outcome row [] →
      SubmittedIn cfg id m key data row db₀ w.writes (m, outcome) w :=
    fun outcome h => ⟨row, [], hF, (append_nil _).symm, h⟩
  unfold write
  split
  · next hstale =>
    refine hdone _ (.refused ⟨nofun, nofun⟩ fun hcan => ?_)
    simp [hcan.running, hcan.process, hcan.generation] at hstale
  · next hgo =>
    push Not at hgo
    split
    · next hattached => exact hdone _ (.refused ⟨nofun, nofun⟩ fun hcan => absurd hcan.attached hattached)
    rename_i hattached
    have hcan : CanWrite m key :=
      ⟨hgo.1, by simpa using hgo.2.1, hgo.2.2, not_not.mp hattached⟩
    rcases hmemory : m.inputs.decisions.lookup key with _ | previous
    · simp only [InputJournal.query, hmemory]
      exact safe_writeNew hF hcan hmemory
    simp only [InputJournal.query, writeInput, InputJournal.lookup, hmemory]
    by_cases hkey : key.incomplete = true
    · rw [if_pos hkey]
      exact hdone _ (.refused ⟨nofun, nofun⟩ fun _ _ _ hcomplete => by simp [hkey] at hcomplete)
    rw [if_neg hkey]
    by_cases hhash : previous.hash = cfg.sha256 data
    · rw [if_neg (not_not.mpr hhash)]
      exact hdone _ (.answered hmemory hhash)
    rw [if_pos hhash]
    refine hdone _ (.refused ⟨nofun, nofun⟩ fun _ previous' hprevious _ => ⟨?_, rfl⟩)
    cases hmemory.symm.trans hprevious
    exact hhash

end Paperboat.Session

import Paperboat.Session.Input
import Paperboat.Session.Lifecycle
import Paperboat.Store.Output

/-!
# The stored sessions

The model of the session part of `internal/store/store.go`: a row of `sessions` with the rows of
`output_events` and `input_decisions` that belong to it. Each function is one transaction on the table.
-/

namespace Paperboat.Store

open Session (State InputKey InputDecision)

/-- What `UpdateSession` writes of a lifecycle. -/
structure Record where
  state : State
  generation : ℕ
  deriving DecidableEq

/-- A session with its output and its input decisions. -/
structure SessionRow where
  name : String
  state : State
  generation : ℕ
  output : OutputLog
  decisions : FinMap InputKey InputDecision

/-- The table of sessions, by their identifiers. -/
abbrev Database := FinMap String SessionRow

namespace Database

variable (db : Database)

/-- `Sessions`, in the order of their names. -/
def sessions : List (Sigma fun _ : String => SessionRow) :=
  db.entries.insertionSort fun a b => a.2.name ≤ b.2.name

/-- `CreateSession`: the identifier is the primary key, and the name is unique. -/
def createSession (id name : String) (r : Record) : Except Error Database :=
  if (db.lookup id).isSome ∨ db.entries.any fun e => e.2.name = name then .error .constraint
  else .ok (db.insert id ⟨name, r.state, r.generation, .empty, ∅⟩)

/-- `UpdateSession`: compare the state and swap the lifecycle columns. -/
def updateSession (id : String) (expected : State) (next : Record) : Except Error Database :=
  match db.lookup id with
  | none => .error .conflict
  | some row =>
    if row.state = expected then
      .ok (db.insert id { row with state := next.state, generation := next.generation })
    else .error .conflict

/-- `DeleteSession`. -/
def deleteSession (id : String) : Except Error Database :=
  match db.lookup id with
  | none => .error .conflict
  | some row =>
    if row.state = .exited ∨ row.state = .closed then .ok (db.erase id) else .error .conflict

/-- A transaction on the output of a session. -/
def onOutput (id : String) (f : OutputLog → Except Error OutputLog) : Except Error Database :=
  match db.lookup id with
  | none => .error .noRows
  | some row =>
    match f row.output with
    | .error e => .error e
    | .ok log => .ok (db.insert id { row with output := log })

/-- A query of the output of a session. -/
def ofOutput {α : Type} (id : String) (f : OutputLog → Except Error α) : Except Error α :=
  match db.lookup id with
  | none => .error .noRows
  | some row => f row.output

/-- `PutInputDecision`: whether a row was inserted. A row that is there must have the same digest,
and a session that is not there violates the foreign key. -/
def putInputDecision (id : String) (key : InputKey) (decision : InputDecision) :
    Except Error (Database × Bool) :=
  match db.lookup id with
  | none => .error .constraint
  | some row =>
    match row.decisions.lookup key with
    | none => .ok (db.insert id { row with decisions := row.decisions.insert key decision }, true)
    | some previous =>
      if previous.hash = decision.hash then .ok (db, false) else .error .conflict

/-- `UpdateInputDecision`: the row must be there with the digest. -/
def updateInputDecision (id : String) (key : InputKey) (decision : InputDecision) :
    Except Error Database :=
  match db.lookup id with
  | none => .error .conflict
  | some row =>
    match row.decisions.lookup key with
    | none => .error .conflict
    | some previous =>
      if previous.hash = decision.hash then
        .ok (db.insert id { row with decisions := row.decisions.insert key decision })
      else .error .conflict

/-- `InputDecisions`. -/
def inputDecisions (id : String) : List (Sigma fun _ : InputKey => InputDecision) :=
  ((db.lookup id).map fun row => row.decisions.entries).getD []

end Database

/-- The transactions. -/
inductive Transaction where
  | sessions
  | createSession (id name : String) (r : Record)
  | updateSession (id : String) (expected : State) (next : Record)
  | deleteSession (id : String)
  | clearOutput (id : String) (nextSequence : ℕ)
  | outputBounds (id : String)
  | advanceOutput (id : String) (expectedLatest nextSequence : ℕ)
  | appendOutput (id : String) (channel : UInt8) (start : ℕ) (data : List UInt8) (maxRetained : ℕ)
  | trimOutput (id : String) (maxRetained : ℕ)
  | replay (id : String) (fromSequence limit : ℕ)
  | putInputDecision (id : String) (key : InputKey) (decision : InputDecision)
  | updateInputDecision (id : String) (key : InputKey) (decision : InputDecision)
  | inputDecisions (id : String)

/-- The result of a transaction. -/
abbrev Transaction.Result : Transaction → Type
  | sessions => List (Sigma fun _ : String => SessionRow)
  | outputBounds _ => ℕ × ℕ
  | replay _ _ _ => List History.Event × ℕ × ℕ
  | putInputDecision _ _ _ => Bool
  | inputDecisions _ => List (Sigma fun _ : InputKey => InputDecision)
  | trimOutput _ _ => ℕ
  | _ => Unit

/-- A transaction without a result. -/
def committed (r : Except Error Database) : Except Error (Database × Unit) :=
  r.map fun db => (db, ())

/-- What a transaction does. -/
def Transaction.run (db : Database) : (t : Transaction) → Except Error (Database × t.Result)
  | sessions => .ok (db, db.sessions)
  | createSession id name r => committed (db.createSession id name r)
  | updateSession id expected next => committed (db.updateSession id expected next)
  | deleteSession id => committed (db.deleteSession id)
  | clearOutput id next => committed (db.onOutput id fun log => log.clearOutput next)
  | outputBounds id => (db.ofOutput id fun log => .ok log.outputBounds).map fun r => (db, r)
  | advanceOutput id expected next =>
    committed (db.onOutput id fun log => log.advanceOutput expected next)
  | appendOutput id channel start data maxRetained =>
    committed (db.onOutput id fun log => log.appendOutput channel start data maxRetained)
  | trimOutput id maxRetained =>
    (db.onOutput id fun log => log.trimOutput maxRetained).map fun db' =>
      (db', ((db'.lookup id).map fun row => row.output.earliest).getD 0)
  | replay id fromSequence limit =>
    (db.ofOutput id fun log => log.replay fromSequence limit).map fun r => (db, r)
  | putInputDecision id key decision => db.putInputDecision id key decision
  | updateInputDecision id key decision => committed (db.updateInputDecision id key decision)
  | inputDecisions id => .ok (db, db.inputDecisions id)

end Paperboat.Store

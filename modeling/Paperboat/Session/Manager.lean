import Paperboat.Lib.Prog
import Paperboat.Lib.Transition
import Paperboat.Store.Sessions

/-!
# The session manager

The model of the operations of `Manager` in `internal/session/manager.go` that write to the store.
An operation is a program of store transactions and calls of the terminal process, any of which can
fail. Where the fates of the calls end, the helper dies, and the memory is gone. Output reaches the
store through `flush`, whose steps are separate programs.
-/

namespace Paperboat.Session

open Store (Database Transaction Record)

/-! ### Configuration and memory -/

/-- The limits of `ManagerConfig`, as `NewManager` accepts them, and the digest of inputs. -/
structure ManagerConfig where
  historyBytes : ℕ
  maxSessions : ℕ
  maxInputDecisions : ℕ
  sha256 : List UInt8 → String
  historyBytes_pos : 0 < historyBytes
  maxInputDecisions_pos : 0 < maxInputDecisions

/-- A configuration with small limits, for runs that are evaluated. -/
def smallConfig : ManagerConfig where
  historyBytes := 8
  maxSessions := 4
  maxInputDecisions := 4
  sha256 := fun data => if data = [] then "empty" else "data"
  historyBytes_pos := by decide
  maxInputDecisions_pos := by decide

/-- `managedSession`. `process` says whether there is one, `attached` lists the attachments, and
`flushing` are the events that `flush` has still to append. -/
structure ManagedSession where
  name : String
  lifecycle : Lifecycle
  history : History
  inputs : InputJournal
  process : Bool
  attached : List String
  resizeID : String
  resizeTime : ℕ
  flushing : List History.Event

/-- The sessions of a manager. -/
abbrev Sessions := FinMap String ManagedSession

namespace ManagedSession

/-- Change the state where the source drops the error of `Transition`, or where the change is
allowed. -/
def goto (m : ManagedSession) (next : State) : ManagedSession :=
  { m with lifecycle := m.lifecycle.transitionOrStay next }

/-- The memory after the process of a restart has been launched. -/
def launched (m : ManagedSession) : ManagedSession :=
  { m.goto .running with
    inputs := m.inputs.setGeneration (m.goto .running).lifecycle.generation
    process := true }

/-- The lifecycle columns of `storeRecordLocked`. -/
def record (m : ManagedSession) : Record := ⟨m.lifecycle.state, m.lifecycle.generation⟩

end ManagedSession

/-! ### Calls -/

/-- The calls of the manager: store transactions, starting and ending a process, resizing its
terminal, and writing input to it. -/
inductive Call where
  | store (t : Transaction)
  | launch
  | terminate
  | resizePTY
  | writePTY (id : String) (key : InputKey) (data : List UInt8)

/-- The fate of a call: it succeeds, fails without an effect, comes too late for its deadline, or the
terminal takes some bytes, with an error or without. -/
inductive Fate where
  | ok
  | fails
  | late
  | wrote (n : ℕ) (failed : Bool)
  deriving DecidableEq

/-- The errors of a store call: the database fails, or the transaction does. -/
inductive StoreError where
  | failed
  | rejected (e : Store.Error)
  deriving DecidableEq

/-- How `Terminate` ends. -/
inductive Termination where
  | done
  | late
  | failed
  deriving DecidableEq

/-- The replies. -/
abbrev Reply : Call → Type
  | .store t => Except StoreError t.Result
  | .launch | .resizePTY => Bool
  | .terminate => Termination
  | .writePTY _ _ _ => ℕ × Bool

/-- Bytes that were passed to a terminal. -/
structure Written where
  id : String
  key : InputKey
  data : List UInt8
  deriving DecidableEq

/-- The world of the manager: the database, and what was written to the terminals of the sessions
that exist. -/
structure World where
  db : Database
  writes : List Written

/-- What a call does. -/
def perform (w : World) (c : Call) (fate : Fate) : World × Reply c :=
  match c with
  | .store t =>
    if fate = .fails then (w, .error .failed)
    else
      match t.run w.db with
      | .error e => (w, .error (.rejected e))
      | .ok (db, r) => ({ w with db := db }, .ok r)
  | .launch => (w, fate ≠ .fails)
  | .terminate =>
    (w, match fate with
      | .late => .late
      | .fails => .failed
      | _ => .done)
  | .resizePTY => (w, fate ≠ .fails)
  | .writePTY id key data =>
    ({ w with writes := w.writes ++ [⟨id, key, data⟩] },
      match fate with
      | .wrote n failed => (min n data.length, failed)
      | .fails => (0, true)
      | _ => (data.length, false))

/-- A program of the manager. -/
abbrev Operation (α : Type) : Type := Prog Reply α

/-- Make a store call. -/
abbrev storeCall (t : Transaction) : Operation (Except StoreError t.Result) := Prog.request (Call.store t)

/-- Make another call. -/
abbrev request (c : Call) : Operation (Reply c) := Prog.request c

/-- `persist`. -/
def persist (id : String) (m : ManagedSession) (expected : State) :
    Operation (Except StoreError Unit) :=
  storeCall (.updateSession id expected m.record)

/-- `discardFailedCreate`. -/
def discardFailedCreate (id : String) (m : ManagedSession) (expected : State) : Operation Unit := do
  let _ ← persist id m expected
  let _ ← storeCall (.deleteSession id)
  return ()

/-! ### Operations -/

/-- The errors of the operations. -/
inductive ManagerError where
  | invalidSession
  | resourceLimit
  | sessionExists
  | sessionRunning
  | launch
  | terminate
  | store (e : StoreError)
  | input (e : InputError)
  /-- The decision could not be stored; it is returned with the error. -/
  | undecided (decision : InputDecision) (e : StoreError)
  | resize
  deriving DecidableEq

/-- `validSessionName`. -/
def validSessionName (name : String) : Bool :=
  1 ≤ name.length ∧ name.length ≤ 64 ∧
    (name.toList.all fun c =>
      ('a' ≤ c ∧ c ≤ 'z') ∨ ('0' ≤ c ∧ c ≤ '9') ∨ c = '-' ∨ c = '_') ∧
    name.toList.head? ≠ some '-'

/-- A new session of `Create`. -/
def newManagedSession (cfg : ManagerConfig) (name : String) : ManagedSession where
  name := name
  lifecycle := newLifecycle
  history := ⟨cfg.historyBytes, 0, 0, 0, [], 0⟩
  inputs := newBoundedInputJournal 0 cfg.maxInputDecisions
  process := false
  attached := []
  resizeID := ""
  resizeTime := 0
  flushing := []

/-- The part of `Create` behind `CreateSession`. -/
def launchNew (cfg : ManagerConfig) (id : String) (m : ManagedSession) :
    Operation (Except ManagerError ManagedSession) := do
  if !(← request .launch) then
    discardFailedCreate id (m.goto .closed) .creating
    return .error .launch
  else
    let m := m.goto .running
    match ← persist id m .creating with
    | .error e =>
      let _ ← request .terminate
      discardFailedCreate id m .creating
      return .error (.store e)
    | .ok _ =>
      return .ok { m with
        inputs := newBoundedInputJournal m.lifecycle.generation cfg.maxInputDecisions
        process := true }

/-- `Create` with an identifier, after its checks of the memory. -/
def createNew (cfg : ManagerConfig) (id name : String) :
    Operation (Except ManagerError ManagedSession) := do
  let m := newManagedSession cfg name
  match ← storeCall (.createSession id name m.record) with
  | .error e => return .error (.store e)
  | .ok _ => launchNew cfg id m

/-- `Create`. -/
def create (cfg : ManagerConfig) (sessions : Sessions) (id name : String) :
    Operation (Except ManagerError ManagedSession) :=
  if validSessionName name = false then return .error .invalidSession
  else if cfg.maxSessions ≤ sessions.size then return .error .resourceLimit
  else if (sessions.entries.any fun e => e.2.name = name) ∨ (sessions.lookup id).isSome then
    return .error .sessionExists
  else createNew cfg id name

/-- The terminal part of `InputJournal.Write`. -/
def writeInput (cfg : ManagerConfig) (id : String) (m : ManagedSession) (key : InputKey)
    (data : List UInt8) : Operation (ManagedSession × Except ManagerError InputDecision) :=
  let hash := cfg.sha256 data
  match m.inputs.lookup key hash with
  | .error e => return (m, .error (.input e))
  | .ok (some decision) => return (m, .ok decision)
  | .ok none => do
    let (n, failed) ← request (.writePTY id key data)
    let decision := decisionAfter hash data.length n failed
    return ({ m with inputs := m.inputs.record key decision }, .ok (publicDecision decision))

/-- The end of `Write`, where the decision is stored. -/
def storeDecision (id : String) (m : ManagedSession) (key : InputKey) (hash : String)
    (decision : InputDecision) : Operation (ManagedSession × Except ManagerError InputDecision) := do
  match ← storeCall (.updateInputDecision id key { decision with hash := hash }) with
  | .error e =>
    return (m, .error (.undecided
      { decision with status := .uncertain, writeError := "decision_persist_failed" } e))
  | .ok _ => return (m, .ok decision)

/-- The part of `Write` for a key without a decision: reserve it in the store, write, and store the
decision. -/
def writeNew (cfg : ManagerConfig) (id : String) (m : ManagedSession) (key : InputKey)
    (data : List UInt8) : Operation (ManagedSession × Except ManagerError InputDecision) := do
  let hash := cfg.sha256 data
  match m.inputs.admitKey key with
  | .error e => return (m, .error (.input e))
  | .ok _ =>
    match ← storeCall (.putInputDecision id key ⟨.uncertain, 0, "", hash⟩) with
    | .error e => return (m, .error (.store e))
    | .ok false => return (m, .error (.input .conflict))
    | .ok true =>
      let (m, result) ← writeInput cfg id m key data
      match result with
      | .error e => return (m, .error e)
      | .ok decision => storeDecision id m key hash decision

/-- `Write`. -/
def write (cfg : ManagerConfig) (id : String) (m : ManagedSession) (key : InputKey)
    (data : List UInt8) : Operation (ManagedSession × Except ManagerError InputDecision) :=
  if m.lifecycle.state ≠ .running ∨ m.process = false ∨
      key.generation ≠ m.lifecycle.generation then
    return (m, .error (.input (.stale m.lifecycle.generation)))
  else if key.attachmentID ∉ m.attached then return (m, .error (.input .invalid))
  else
    match m.inputs.query key with
    | .ok _ => writeInput cfg id m key data
    | .error .unknown => writeNew cfg id m key data
    | .error e => return (m, .error (.input e))

/-- `Resize`. -/
def resize (id : String) (m : ManagedSession) (attachmentID : String) (activeAt : ℕ) :
    Operation (ManagedSession × Except ManagerError Unit) := do
  if attachmentID ∉ m.attached ∨ m.process = false then return (m, .error (.input .invalid))
  else if activeAt < m.resizeTime ∨ activeAt = m.resizeTime ∧ attachmentID < m.resizeID then
    return (m, .ok ())
  else if !(← request .resizePTY) then return (m, .error .resize)
  else
    let m := { m with resizeID := attachmentID, resizeTime := activeAt }
    match ← persist id m m.lifecycle.state with
    | .error e => return (m, .error (.store e))
    | .ok _ => return (m, .ok ())

/-- `Clear`. -/
def clear (id : String) (m : ManagedSession) :
    Operation (ManagedSession × Except ManagerError ℕ) := do
  match ← storeCall (.clearOutput id m.history.latest) with
  | .error e => return (m, .error (.store e))
  | .ok _ => return ({ m with history := m.history.clear.1 }, .ok m.history.clear.2)

/-- The part of `Close` from `Terminate` on. -/
def closeRunning (id : String) (m : ManagedSession) :
    Operation (ManagedSession × Except ManagerError Unit) := do
  let ended ← request .terminate
  if ended = .late then return (m, .error .terminate)
  else
    let m := { m with process := false }.goto .closed
    match ← persist id m .closing with
    | .error e => return (m, .error (.store e))
    | .ok _ => return (m, if ended = .done then .ok () else .error .terminate)

/-- `Close`. -/
def close (id : String) (m : ManagedSession) :
    Operation (ManagedSession × Except ManagerError Unit) := do
  match m.lifecycle.state with
  | .closed => return (m, .ok ())
  | .exited =>
    let m := (m.goto .closing).goto .closed
    match ← persist id m .exited with
    | .error e => return (m, .error (.store e))
    | .ok _ => return (m, .ok ())
  | .running =>
    if m.process = false then return (m, .error .sessionRunning)
    else
      let m := m.goto .closing
      match ← persist id m .running with
      | .error e =>
        let _ ← request .terminate
        return ({ m with process := false }.goto .closed, .error (.store e))
      | .ok _ => closeRunning id m
  | .closing => if m.process = false then return (m, .error .sessionRunning) else closeRunning id m
  | _ => return (m, .error .sessionRunning)

/-- `finishClosing`. -/
def finishClosing (id : String) (m : ManagedSession) : Operation ManagedSession := do
  if m.lifecycle.state ≠ .closing ∨ m.process = false then return m
  else if (← request .terminate) ≠ .done then return m
  else
    let m := { m with process := false }.goto .closed
    let _ ← persist id m .closing
    return m

/-- `Restart`. -/
def restart (id : String) (m : ManagedSession) :
    Operation (ManagedSession × Except ManagerError Unit) := do
  let state := m.lifecycle.state
  if state ≠ .exited ∧ state ≠ .closed then return (m, .error .sessionRunning)
  else
    let m := m.goto .restarting
    match ← persist id m state with
    | .error e => return (m.goto .closed, .error (.store e))
    | .ok _ =>
      if !(← request .launch) then
        let m := m.goto .closed
        let _ ← persist id m .restarting
        return (m, .error .launch)
      else
        let m := m.launched
        match ← persist id m .restarting with
        | .error e =>
          let _ ← request .terminate
          return ({ m with process := false }.goto .exited, .error (.store e))
        | .ok _ => return (m, .ok ())

/-- `Delete`: whether the session is gone. -/
def delete (id : String) (m : ManagedSession) : Operation (Except ManagerError Unit) := do
  if m.lifecycle.state ≠ .exited ∧ m.lifecycle.state ≠ .closed then return .error .sessionRunning
  else
    match ← storeCall (.deleteSession id) with
    | .error e => return .error (.store e)
    | .ok _ => return .ok ()

/-- The end of `capture` when the process has exited. -/
def exit (id : String) (m : ManagedSession) : Operation ManagedSession := do
  if m.process = false ∨ m.lifecycle.state ≠ .running then return m
  else
    let m := { m.goto .exited with process := false }
    let _ ← persist id m .running
    return m

/-! ### Flushing -/

/-- The part of a round of `flush` up to its loop over the replayed events. -/
def flushBegin (cfg : ManagerConfig) (id : String) (m : ManagedSession) : Operation ManagedSession := do
  match ← storeCall (.outputBounds id) with
  | .error _ => return m
  | .ok (_, persistedLatest) =>
    if persistedLatest < m.history.earliest then
      match ← storeCall (.advanceOutput id persistedLatest m.history.earliest) with
      | .error _ => return m
      | .ok _ => return { m with flushing := replayed m.history.earliest }
    else return { m with flushing := replayed persistedLatest }
where
  /-- The events that `ReplayOwned` returns; a gap begins another round. -/
  replayed (persistedLatest : ℕ) : List History.Event :=
    match m.history.replayOwned persistedLatest cfg.historyBytes with
    | .error _ => []
    | .ok replay => replay.events

/-- One iteration of the loop of `flush`. -/
def flushNext (cfg : ManagerConfig) (id : String) (m : ManagedSession) : Operation ManagedSession := do
  match m.flushing with
  | [] => return m
  | event :: events =>
    match ← storeCall (.appendOutput id event.channel event.startSequence event.data
        cfg.historyBytes) with
    | .error _ => return { m with flushing := [] }
    | .ok _ => return { m with flushing := events }

/-! ### Recovery -/

/-- The state in which `recover` continues a stored one. -/
def recoveredState : State → Option State
  | .creating => some .closed
  | .running | .restarting => some .exited
  | .closing => some .closed
  | .exited => some .exited
  | .closed => some .closed
  | .deleted => none

/-- The loop of `recover` over the stored decisions. -/
def restoreDecisions (j : InputJournal) :
    List (Sigma fun _ : InputKey => InputDecision) → Except InputError InputJournal
  | [] => .ok j
  | e :: l =>
    match j.restore e.1 e.2 with
    | .error err => .error err
    | .ok j => restoreDecisions j l

/-- Why `recover` fails. -/
inductive RecoverError where
  | store (e : StoreError)
  | invalidSession
  | history (e : History.Error)
  | lifecycle (e : LifecycleError)
  | input (e : InputError)

/-- The end of the body of `recover`'s loop, where the lifecycle and the decisions are read back. -/
def reloadInputs (cfg : ManagerConfig) (id : String) (row : Store.SessionRow) (recovered : State)
    (retained : History) : Operation (Except RecoverError ManagedSession) := do
  match recoverLifecycle recovered row.generation with
  | .error e => return .error (.lifecycle e)
  | .ok lifecycle =>
    match ← storeCall (.inputDecisions id) with
    | .error e => return .error (.store e)
    | .ok decisions =>
      match restoreDecisions (newBoundedInputJournal row.generation cfg.maxInputDecisions)
          decisions with
      | .error e => return .error (.input e)
      | .ok inputs => return .ok ⟨row.name, lifecycle, retained, inputs, false, [], "", 0, []⟩

/-- The part of the body of `recover`'s loop that reads the output back, and what follows. -/
def reload (cfg : ManagerConfig) (id : String) (row : Store.SessionRow) (recovered : State) :
    Operation (Except RecoverError ManagedSession) := do
  match ← storeCall (.trimOutput id cfg.historyBytes) with
  | .error e => return .error (.store e)
  | .ok earliestSequence =>
    match ← storeCall (.replay id earliestSequence 0) with
    | .error e => return .error (.store e)
    | .ok (events, earliest, latest) =>
      match History.restore cfg.historyBytes earliest latest events with
      | .error e => return .error (.history e)
      | .ok retained => reloadInputs cfg id row recovered retained

/-- The body of `recover`'s loop. -/
def recoverOne (cfg : ManagerConfig) (id : String) (row : Store.SessionRow) :
    Operation (Except RecoverError ManagedSession) := do
  match recoveredState row.state with
  | none => return .error .invalidSession
  | some recovered =>
    if recovered = row.state then reload cfg id row recovered
    else
      match ← storeCall (.updateSession id row.state ⟨recovered, row.generation⟩) with
      | .error e => return .error (.store e)
      | .ok _ => reload cfg id row recovered

/-- The loop of `recover`. -/
def recoverLoop (cfg : ManagerConfig) :
    List (Sigma fun _ : String => Store.SessionRow) → Sessions →
      Operation (Except RecoverError Sessions)
  | [], sessions => return .ok sessions
  | e :: l, sessions => do
    match ← recoverOne cfg e.1 e.2 with
    | .error err => return .error err
    | .ok m =>
      if (sessions.lookup e.1).isSome ∨ sessions.entries.any fun x => x.2.name = m.name then
        return .error .invalidSession
      else recoverLoop cfg l (sessions.insert e.1 m)

/-- `recover`. -/
def recover (cfg : ManagerConfig) : Operation (Except RecoverError Sessions) := do
  match ← storeCall .sessions with
  | .error e => return .error (.store e)
  | .ok records => recoverLoop cfg records ∅

/-! ### The helper -/

/-- What was reported about an input. -/
structure InputReport where
  id : String
  key : InputKey
  outcome : Except ManagerError InputDecision

/-- The helper: the world, the memory of the manager while it runs, and what was reported about
inputs to the sessions that exist. -/
structure Helper where
  world : World
  manager : Option Sessions
  reports : List InputReport

/-- The operations and events that concern only one session and report nothing about inputs. -/
inductive SessionOp where
  | attach (attachmentID : String)
  | detach (attachmentID : String)
  | resize (attachmentID : String) (activeAt : ℕ)
  | clear
  | close
  | finishClosing
  | restart
  | exit
  | output (data : List UInt8)
  | flushBegin
  | flushNext
  deriving DecidableEq

/-- The program of such an operation, with the memory that it leaves. `Attach` refuses an empty
identifier. -/
def SessionOp.program (cfg : ManagerConfig) (id : String) (m : ManagedSession) :
    SessionOp → Operation ManagedSession
  | attach a => return if a = "" then m else { m with attached := a :: m.attached }
  | detach a => return { m with attached := m.attached.filter (· ≠ a) }
  | resize a t => do return (← Session.resize id m a t).1
  | clear => do return (← Session.clear id m).1
  | close => do return (← Session.close id m).1
  | finishClosing => Session.finishClosing id m
  | restart => do return (← Session.restart id m).1
  | exit => Session.exit id m
  | output data =>
    return if data = [] then m
      else
        match m.history.appendBuffer 1 data with
        | .error _ => m
        | .ok (history, _) => { m with history := history }
  | flushBegin => Session.flushBegin cfg id m
  | flushNext => Session.flushNext cfg id m

/-- What happens next. The fates of an operation say how far it gets. -/
inductive Action where
  | start (fates : List Fate)
  | crash
  | create (id name : String) (fates : List Fate)
  | delete (id : String) (fates : List Fate)
  | write (id : String) (key : InputKey) (data : List UInt8) (fates : List Fate)
  | query (id : String) (key : InputKey)
  | on (id : String) (op : SessionOp) (fates : List Fate)
  deriving DecidableEq

namespace Helper

/-- Forget what was written to a session that is gone. -/
def forget (id : String) (w : World) : World := { w with writes := w.writes.filter (·.id ≠ id) }

/-- One operation, from its beginning to its end or to the death of the helper. -/
def step (cfg : ManagerConfig) (s : Helper) (a : Action) : Option Helper :=
  match s.manager, a with
  | none, .start fates =>
    match (recover cfg).exec perform s.world fates with
    | .finished (.ok sessions) w => some { s with world := w, manager := some sessions }
    | .finished (.error _) w => some { s with world := w }
    | .cut w => some { s with world := w }
  | some _, .crash => some { s with manager := none }
  | some sessions, .create id name fates =>
    match (create cfg sessions id name).exec perform s.world fates with
    | .finished (.ok m) w => some { s with world := w, manager := some (sessions.insert id m) }
    | .finished (.error _) w => some { s with world := w }
    | .cut w => some { s with world := w, manager := none }
  | some sessions, .delete id fates =>
    match sessions.lookup id with
    | none => none
    | some m =>
      match (delete id m).exec perform s.world fates with
      | .finished (.ok _) w =>
        some ⟨forget id w, some (sessions.erase id), s.reports.filter (·.id ≠ id)⟩
      | .finished (.error _) w => some { s with world := w }
      | .cut w => some { s with world := w, manager := none }
  | some sessions, .write id key data fates =>
    match sessions.lookup id with
    | none => none
    | some m =>
      match (write cfg id m key data).exec perform s.world fates with
      | .finished (m', outcome) w =>
        some ⟨w, some (sessions.insert id m'), s.reports ++ [⟨id, key, outcome⟩]⟩
      | .cut w => some { s with world := w, manager := none }
  | some sessions, .query id key =>
    match sessions.lookup id with
    | none => none
    | some m =>
      some { s with reports := s.reports ++
        [⟨id, key, (m.inputs.query key).mapError ManagerError.input⟩] }
  | some sessions, .on id op fates =>
    match sessions.lookup id with
    | none => none
    | some m =>
      match (op.program cfg id m).exec perform s.world fates with
      | .finished m' w => some { s with world := w, manager := some (sessions.insert id m') }
      | .cut w => some { s with world := w, manager := none }
  | _, _ => none

/-- The step keeps to the rules. -/
def Obeys (cfg : ManagerConfig) (rules : Rules World Call Fate) (s : Helper) (a : Action) : Prop :=
  match s.manager, a with
  | none, .start fates => (recover cfg).Obeys perform rules s.world fates
  | some _, .crash => rules.mayCut s.world
  | some sessions, .create id name fates =>
    (create cfg sessions id name).Obeys perform rules s.world fates
  | some sessions, .delete id fates =>
    ∀ m ∈ sessions.lookup id, (delete id m).Obeys perform rules s.world fates
  | some sessions, .write id key data fates =>
    ∀ m ∈ sessions.lookup id, (write cfg id m key data).Obeys perform rules s.world fates
  | some sessions, .on id op fates =>
    ∀ m ∈ sessions.lookup id, (op.program cfg id m).Obeys perform rules s.world fates
  | _, _ => True

/-- Whether a step keeps to rules that can be decided. -/
def decidableObeys (cfg : ManagerConfig) (rules : Rules World Call Fate)
    (allows : ∀ w c f, Decidable (rules.allows w c f)) (mayCut : ∀ w, Decidable (rules.mayCut w))
    (s : Helper) (a : Action) : Decidable (s.Obeys cfg rules a) :=
  have decide {α : Type} (p : Operation α) (fates : List Fate) :
      Decidable (p.Obeys perform rules s.world fates) :=
    Prog.decidableObeys perform rules allows mayCut p s.world fates
  match s, a with
  | ⟨_, none, _⟩, .start fates => decide (recover cfg) fates
  | ⟨w, some _, _⟩, .crash => mayCut w
  | ⟨_, some sessions, _⟩, .create id name fates => decide (create cfg sessions id name) fates
  | ⟨_, some sessions, _⟩, .delete id fates =>
    @Option.decidableForallMem _ _ (fun m => decide (delete id m) fates) (sessions.lookup id)
  | ⟨_, some sessions, _⟩, .write id key data fates =>
    @Option.decidableForallMem _ _ (fun m => decide (write cfg id m key data) fates)
      (sessions.lookup id)
  | ⟨_, some sessions, _⟩, .on id op fates =>
    @Option.decidableForallMem _ _ (fun m => decide (op.program cfg id m) fates)
      (sessions.lookup id)
  | ⟨_, none, _⟩, .crash | ⟨_, none, _⟩, .create _ _ _ | ⟨_, none, _⟩, .delete _ _
  | ⟨_, none, _⟩, .write _ _ _ _ | ⟨_, none, _⟩, .query _ _ | ⟨_, none, _⟩, .on _ _ _
  | ⟨_, some _, _⟩, .start _ | ⟨_, some _, _⟩, .query _ _ => .isTrue trivial

/-- The helper on an empty database. -/
def initial : Helper := ⟨⟨∅, []⟩, none, []⟩

end Helper

end Paperboat.Session

import Paperboat.Lib.FinMap
import Paperboat.Lib.JsonText
import Paperboat.Lib.Transition

/-!
# The operation journal

The model of `Journal` in `internal/operation/journal.go` on its table `operation_results` in
`internal/store/store.go`. Any number of calls of `Execute` are under way. Store calls can fail, with an
effect or without, and the helper can die between any two steps and rebuild the journal from the table.

Every row that is inserted is a reservation and gets a number, which neither the table nor the journal
of the source has; the history of the system is recorded by these numbers.
-/

namespace Paperboat.Operation

/-- `Outcome`. -/
structure Outcome where
  result : List UInt8
  errorCode : String
  deriving DecidableEq

/-- `Outcome{}`. -/
def Outcome.empty : Outcome := ⟨[], ""⟩

/-- The errors of `Execute`. -/
inductive JournalError where
  | invalidOperationID
  | invalidRequest
  | conflict
  | full
  | uncertain
  | store
  | context
  deriving DecidableEq

/-! ### The table -/

/-- A row of `operation_results`; it is pending until it has an outcome. -/
structure Row where
  hash : String
  completed : Option Outcome
  completedAt : ℕ
  expiresAt : ℕ
  /-- The number of the reservation. -/
  reservation : ℕ
  deriving DecidableEq

/-- The table, by operation. -/
abbrev Table := FinMap String Row

/-- `MaxOperationResultBytes`. -/
def maxOperationResultBytes : ℕ := 64 * 2 ^ 10

namespace Table

/-- `CompleteOperation`: the table, and whether it succeeds. A row that is no longer pending has to
agree. -/
def completeOperation (t : Table) (id hash : String) (outcome : Outcome) (completedAt expiresAt : ℕ) :
    Table × Bool :=
  match t.lookup id with
  | none => (t, false)
  | some row =>
    if row.hash = hash ∧ row.completed = none then
      (t.insert id
        { row with completed := some outcome, completedAt := completedAt, expiresAt := expiresAt }, true)
    else (t, row.hash = hash ∧ row.completed = some outcome)

/-- Whether a row has passed its expiry. -/
def isExpired (t : Table) (now : ℕ) (id : String) : Bool :=
  match t.lookup id with
  | none => false
  | some row => row.expiresAt ≤ now

/-- `DeleteExpiredOperations`. -/
def deleteExpiredOperations (t : Table) (now : ℕ) : Table := t.restrict fun id => !t.isExpired now id

/-- The update in `Operations` that makes rows with large results pending. -/
def demote (t : Table) : Table :=
  t.mapVals fun _ row =>
    match row.completed with
    | none => row
    | some outcome =>
      if maxOperationResultBytes < outcome.result.length then
        { row with completed := none, completedAt := 0 }
      else row

/-- The order of `Operations`: pending rows first, then by the time of completion. -/
def before (e e' : Sigma fun _ : String => Row) : Prop :=
  e.2.completed = none ∨ e'.2.completed ≠ none ∧ e.2.completedAt ≤ e'.2.completedAt

instance : DecidableRel before := fun _ _ => inferInstanceAs (Decidable (_ ∨ _ ∧ _))

/-- The rows that `Operations` returns. -/
def operations (t : Table) (limit : ℕ) : List (Sigma fun _ : String => Row) :=
  (t.entries.insertionSort before).take limit

end Table

/-! ### The journal -/

/-- The configuration of a journal, the decoding of a request into its canonical form, and the digest
of that. -/
structure JournalConfig where
  max : ℕ
  retention : ℕ
  canonical : List UInt8 → Option String
  sha256 : String → String
  max_pos : 0 < max
  retention_pos : 0 < retention

/-- `CanonicalHash`. -/
def JournalConfig.canonicalHash (cfg : JournalConfig) (request : List UInt8) : Option String :=
  (cfg.canonical request).map cfg.sha256

/-- `entry`. `complete` says that its channel is closed. -/
structure Entry where
  hash : String
  complete : Bool
  outcome : Outcome
  err : Option JournalError
  /-- The number of the reservation, and the call that made the entry. -/
  reservation : ℕ
  owner : ℕ
  deriving DecidableEq

/-- Where a call of `Execute` stands. -/
inductive Phase where
  /-- Waiting for the entry that was found. -/
  | waiting (ref : ℕ)
  /-- Before `DeleteExpiredOperations`, with the mutex. -/
  | cleaning (now : ℕ)
  /-- Before `ReserveOperation`, with the mutex. -/
  | reserving
  | running (ref : ℕ)
  /-- Before `CompleteOperation`. -/
  | completing (ref : ℕ) (outcome : Outcome) (now : ℕ)
  /-- Before the entry is filled in. -/
  | recording (ref : ℕ) (outcome : Outcome) (persisted : Bool)
  deriving DecidableEq

/-- A call of `Execute`; `reservation` is the one that was there for its operation when the mutex was
released. -/
structure Call where
  id : String
  request : List UInt8
  hash : String
  phase : Phase
  reservation : Option ℕ
  deriving DecidableEq

/-- The memory of the helper: the entries that were ever made, those that the map has, the order of
eviction, the mutex, and the calls that are under way. -/
structure Memory where
  heap : List Entry
  entries : FinMap String ℕ
  order : List String
  lastCleanup : ℕ
  mutex : Option ℕ
  calls : FinMap ℕ Call

/-- `cleanupInterval`, in nanoseconds. -/
def cleanupInterval : ℕ := 60 * 10 ^ 9

/-- The loop of `Execute` that evicts completed entries. -/
def evict (max : ℕ) : List String → FinMap String ℕ → List String × FinMap String ℕ
  | [], entries => ([], entries)
  | oldest :: order, entries =>
    if entries.size < max then (oldest :: order, entries) else evict max order (entries.erase oldest)

/-- The entry of a row in `NewPersistentJournal`. -/
def Row.entry (row : Row) : Entry :=
  match row.completed with
  | none => ⟨row.hash, true, .empty, some .uncertain, row.reservation, 0⟩
  | some outcome => ⟨row.hash, true, outcome, none, row.reservation, 0⟩

/-- The loop of `NewPersistentJournal`. -/
def load : List (Sigma fun _ : String => Row) → Memory → Memory
  | [], m => m
  | e :: l, m => load l { m with
      heap := m.heap ++ [e.2.entry]
      entries := m.entries.insert e.1 m.heap.length
      order := if e.2.completed = none then m.order else m.order ++ [e.1] }

/-! ### The system -/

/-- A reservation: the operation and the request that it was made for. -/
structure Reservation where
  id : String
  request : List UInt8
  hash : String
  deriving DecidableEq

/-- A call of a run function. -/
structure Start where
  reservation : ℕ
  id : String
  request : List UInt8
  deriving DecidableEq

/-- A row was deleted for its age. -/
structure Expiry where
  reservation : ℕ
  expiresAt : ℕ
  now : ℕ
  deriving DecidableEq

/-- What a call has returned. -/
structure Answer where
  id : String
  request : List UInt8
  reservation : Option ℕ
  outcome : Outcome
  error : Option JournalError
  deriving DecidableEq

/-- What has happened so far. -/
structure History where
  reservations : List Reservation
  started : List Start
  ended : List (ℕ × Outcome)
  expired : List Expiry
  answers : List Answer

/-- The table, the memory while the helper runs, and what has happened. -/
structure System where
  table : Table
  memory : Option Memory
  history : History

/-- How a store call ends: it succeeds, or fails without or with its effect. -/
inductive Fate where
  | ok
  | fails
  | failsLate
  deriving DecidableEq

/-- What happens next. Times are what the clock reads then. -/
inductive Action where
  /-- `NewPersistentJournal`; `statements` is how many of the statements of `Operations` are reached. -/
  | start (now statements : ℕ)
  | crash
  /-- `Execute` up to its first store call. -/
  | execute (n : ℕ) (id : String) (request : List UInt8) (now : ℕ)
  | cleanup (n : ℕ) (fate : Fate)
  | reserve (n now : ℕ) (fate : Fate)
  /-- The run function returns. -/
  | finish (n : ℕ) (outcome : Outcome) (now : ℕ)
  | complete (n : ℕ) (fate : Fate)
  | record (n : ℕ)
  /-- A duplicate sees that the entry is complete, or that its context is done. -/
  | answer (n : ℕ)
  | cancel (n : ℕ)
  deriving DecidableEq

namespace System

variable (cfg : JournalConfig) (s : System)

/-- The reservation that an operation has. -/
def live (id : String) : Option ℕ := (s.table.lookup id).map Row.reservation

/-- Return from a call. -/
def reply (m : Memory) (id : String) (request : List UInt8) (reservation : Option ℕ)
    (outcome : Outcome) (error : Option JournalError) : System :=
  { s with
    memory := some m
    history := { s.history with
      answers := s.history.answers ++ [⟨id, request, reservation, outcome, error⟩] } }

/-- Return an error. -/
def fail (m : Memory) (id : String) (request : List UInt8) (error : JournalError) : System :=
  s.reply m id request (s.live id) .empty (some error)

/-- Return an error with the mutex released. -/
def failLocked (m : Memory) (n : ℕ) (c : Call) (error : JournalError) : System :=
  s.fail { m with mutex := none, calls := m.calls.erase n } c.id c.request error

/-- `DELETE … WHERE expires_at <= now`. -/
def expire (now : ℕ) : System :=
  { s with
    table := s.table.deleteExpiredOperations now
    history := { s.history with
      expired := s.history.expired ++
        (s.table.entries.filter fun e => e.2.expiresAt ≤ now).map fun e =>
          ⟨e.2.reservation, e.2.expiresAt, now⟩ } }

/-- `INSERT … ON CONFLICT DO NOTHING`, for an operation without a row. -/
def insert (c : Call) (expiresAt : ℕ) : System :=
  { s with
    table := s.table.insert c.id ⟨c.hash, none, 0, expiresAt, s.history.reservations.length⟩
    history := { s.history with
      reservations := s.history.reservations ++ [⟨c.id, c.request, c.hash⟩] } }

/-- `Execute` from its mutex on. -/
def lookup (m : Memory) (n : ℕ) (id : String) (request : List UInt8) (hash : String) (now : ℕ) :
    Option System :=
  match m.entries.lookup id with
  | some ref =>
    match m.heap[ref]? with
    | none => none
    | some e =>
      if e.hash ≠ hash then some (s.fail m id request .conflict)
      else some { s with
        memory := some { m with
          calls := m.calls.insert n ⟨id, request, hash, .waiting ref, s.live id⟩ } }
  | none =>
    let m := { m with order := (evict cfg.max m.order m.entries).1
                      entries := (evict cfg.max m.order m.entries).2 }
    if cfg.max ≤ m.entries.size then some (s.fail m id request .full)
    else
      some { s with
        memory := some { m with
          mutex := some n
          calls := m.calls.insert n ⟨id, request, hash,
            if m.lastCleanup + cleanupInterval ≤ now then .cleaning now else .reserving, none⟩ } }

/-- `Execute` up to its first store call. -/
def execute (m : Memory) (n : ℕ) (id : String) (request : List UInt8) (now : ℕ) : Option System :=
  if (m.calls.lookup n).isSome then none
  else if id.utf8ByteSize < 8 ∨ 128 < id.utf8ByteSize then
    some (s.fail m id request .invalidOperationID)
  else
    match cfg.canonicalHash request with
    | none => some (s.fail m id request .invalidRequest)
    | some hash => if m.mutex.isSome then none else s.lookup cfg m n id request hash now

/-- `DeleteExpiredOperations` in `Execute`. -/
def cleanup (m : Memory) (n : ℕ) (c : Call) (now : ℕ) : Fate → System
  | .ok => { s.expire now with
      memory := some { m with
        lastCleanup := now
        calls := m.calls.insert n { c with phase := .reserving } } }
  | .fails => s.failLocked m n c .store
  | .failsLate => (s.expire now).failLocked m n c .store

/-- The end of the locked part of `Execute` after a reservation: the run function is called. -/
def begin (m : Memory) (n : ℕ) (c : Call) (reservation : ℕ) : System :=
  { s with
    memory := some { m with
      heap := m.heap ++ [⟨c.hash, false, .empty, none, reservation, n⟩]
      entries := m.entries.insert c.id m.heap.length
      mutex := none
      calls := m.calls.insert n
        { c with phase := .running m.heap.length, reservation := some reservation } }
    history := { s.history with started := s.history.started ++ [⟨reservation, c.id, c.request⟩] } }

/-- `ReserveOperation` in `Execute`, and what follows under the mutex. -/
def reserve (m : Memory) (n : ℕ) (c : Call) (now : ℕ) (fate : Fate) : System :=
  match s.table.lookup c.id, fate with
  | _, .fails => s.failLocked m n c .store
  | none, .failsLate => (s.insert c (now + cfg.retention)).failLocked m n c .store
  | some _, .failsLate => s.failLocked m n c .store
  | none, .ok => (s.insert c (now + cfg.retention)).begin m n c s.history.reservations.length
  | some row, .ok =>
    if row.hash ≠ c.hash then s.failLocked m n c .conflict
    else
      match row.completed with
      | none => s.failLocked m n c .uncertain
      | some outcome =>
        s.reply { m with mutex := none, calls := m.calls.erase n } c.id c.request (s.live c.id) outcome
          none

/-- The run function returns; a result that is too large is not stored. -/
def finish (m : Memory) (n : ℕ) (c : Call) (ref : ℕ) (e : Entry) (outcome : Outcome) (now : ℕ) :
    System :=
  { s with
    memory := some { m with
      calls := m.calls.insert n
        { c with
          phase := if maxOperationResultBytes < outcome.result.length then .recording ref outcome false
            else .completing ref outcome now } }
    history := { s.history with ended := s.history.ended ++ [(e.reservation, outcome)] } }

/-- `CompleteOperation` in `Execute`. -/
def complete (m : Memory) (n : ℕ) (c : Call) (ref : ℕ) (outcome : Outcome) (now : ℕ) (fate : Fate) :
    System :=
  let r := s.table.completeOperation c.id c.hash outcome now (now + cfg.retention)
  { s with
    table := if fate = .fails then s.table else r.1
    memory := some { m with
      calls := m.calls.insert n
        { c with phase := .recording ref outcome (fate = .ok ∧ r.2) } } }

/-- The end of `Execute`: the entry is filled in, and the call returns. -/
def record (m : Memory) (n : ℕ) (c : Call) (ref : ℕ) (e : Entry) (outcome : Outcome)
    (persisted : Bool) : System :=
  let err := if persisted then none else some JournalError.uncertain
  s.reply { m with
      heap := m.heap.set ref { e with outcome := outcome, complete := true, err := err }
      order := if persisted then m.order ++ [c.id] else m.order
      calls := m.calls.erase n } c.id c.request c.reservation outcome err

/-- `NewPersistentJournal`; a statement that is not reached has failed, or the helper has died. -/
def start (now : ℕ) : ℕ → System
  | 0 => s
  | 1 => s.expire now
  | 2 => { s.expire now with table := (s.expire now).table.demote }
  | _ =>
    let table := (s.expire now).table.demote
    { s.expire now with
      table := table
      memory := some (load (table.operations cfg.max) ⟨[], ∅, [], now, none, ∅⟩) }

/-- One step. -/
def step : Action → Option System
  | .start now statements =>
    match s.memory with
    | some _ => none
    | none => some (s.start cfg now statements)
  | .crash => s.memory.map fun _ => { s with memory := none }
  | .execute n id request now => s.memory.bind fun m => s.execute cfg m n id request now
  | .cleanup n fate => do
    let m ← s.memory
    let c ← m.calls.lookup n
    match c.phase with
    | .cleaning now => some (s.cleanup m n c now fate)
    | _ => none
  | .reserve n now fate => do
    let m ← s.memory
    let c ← m.calls.lookup n
    match c.phase with
    | .reserving => some (s.reserve cfg m n c now fate)
    | _ => none
  | .finish n outcome now => do
    let m ← s.memory
    let c ← m.calls.lookup n
    match c.phase with
    | .running ref => do
      let e ← m.heap[ref]?
      some (s.finish m n c ref e outcome now)
    | _ => none
  | .complete n fate => do
    let m ← s.memory
    let c ← m.calls.lookup n
    match c.phase with
    | .completing ref outcome now => some (s.complete cfg m n c ref outcome now fate)
    | _ => none
  | .record n => do
    let m ← s.memory
    let c ← m.calls.lookup n
    match c.phase with
    | .recording ref outcome persisted => do
      let e ← m.heap[ref]?
      if m.mutex.isSome then none else some (s.record m n c ref e outcome persisted)
    | _ => none
  | .answer n => do
    let m ← s.memory
    let c ← m.calls.lookup n
    match c.phase with
    | .waiting ref => do
      let e ← m.heap[ref]?
      if e.complete then
        some (s.reply { m with calls := m.calls.erase n } c.id c.request c.reservation e.outcome e.err)
      else none
    | _ => none
  | .cancel n => do
    let m ← s.memory
    let c ← m.calls.lookup n
    match c.phase with
    | .waiting _ =>
      some (s.reply { m with calls := m.calls.erase n } c.id c.request c.reservation .empty
        (some .context))
    | _ => none

/-- What a step can do. -/
inductive Effect : Action → System → Prop
  | start {now statements : ℕ} (hmem : s.memory = none) :
    Effect (.start now statements) (s.start cfg now statements)
  | crash {m : Memory} (hmem : s.memory = some m) : Effect .crash { s with memory := none }
  | execute {m : Memory} {n : ℕ} {id : String} {request : List UInt8} {now : ℕ} {s' : System}
    (hmem : s.memory = some m) (hexecute : s.execute cfg m n id request now = some s') :
    Effect (.execute n id request now) s'
  | cleanup {m : Memory} {n : ℕ} {c : Call} {now : ℕ} {fate : Fate} (hmem : s.memory = some m)
    (hc : m.calls.lookup n = some c) (hphase : c.phase = .cleaning now) :
    Effect (.cleanup n fate) (s.cleanup m n c now fate)
  | reserve {m : Memory} {n : ℕ} {c : Call} {now : ℕ} {fate : Fate} (hmem : s.memory = some m)
    (hc : m.calls.lookup n = some c) (hphase : c.phase = .reserving) :
    Effect (.reserve n now fate) (s.reserve cfg m n c now fate)
  | finish {m : Memory} {n : ℕ} {c : Call} {ref : ℕ} {e : Entry} {outcome : Outcome} {now : ℕ}
    (hmem : s.memory = some m) (hc : m.calls.lookup n = some c) (hphase : c.phase = .running ref)
    (he : m.heap[ref]? = some e) : Effect (.finish n outcome now) (s.finish m n c ref e outcome now)
  | complete {m : Memory} {n : ℕ} {c : Call} {ref : ℕ} {outcome : Outcome} {now : ℕ} {fate : Fate}
    (hmem : s.memory = some m) (hc : m.calls.lookup n = some c)
    (hphase : c.phase = .completing ref outcome now) :
    Effect (.complete n fate) (s.complete cfg m n c ref outcome now fate)
  | record {m : Memory} {n : ℕ} {c : Call} {ref : ℕ} {e : Entry} {outcome : Outcome}
    {persisted : Bool} (hmem : s.memory = some m) (hc : m.calls.lookup n = some c)
    (hphase : c.phase = .recording ref outcome persisted) (he : m.heap[ref]? = some e) :
    Effect (.record n) (s.record m n c ref e outcome persisted)
  | answer {m : Memory} {n : ℕ} {c : Call} {ref : ℕ} {e : Entry} (hmem : s.memory = some m)
    (hc : m.calls.lookup n = some c) (hphase : c.phase = .waiting ref)
    (he : m.heap[ref]? = some e) (hcomplete : e.complete = true) :
    Effect (.answer n)
      (s.reply { m with calls := m.calls.erase n } c.id c.request c.reservation e.outcome e.err)
  | cancel {m : Memory} {n : ℕ} {c : Call} {ref : ℕ} (hmem : s.memory = some m)
    (hc : m.calls.lookup n = some c) (hphase : c.phase = .waiting ref) :
    Effect (.cancel n)
      (s.reply { m with calls := m.calls.erase n } c.id c.request c.reservation .empty
        (some .context))

variable {cfg s}

lemma effect_of_step {a : Action} {s' : System} (hstep : s.step cfg a = some s') : Effect cfg s a s' := by
  cases a <;> simp only [step, Option.bind_eq_bind, Option.bind_eq_some_iff,
    Option.map_eq_some_iff] at hstep
  case start =>
    split at hstep <;> cases hstep
    exact .start ‹_›
  case crash =>
    obtain ⟨m, hmem, rfl⟩ := hstep
    exact .crash hmem
  case execute =>
    obtain ⟨m, hmem, hstep⟩ := hstep
    exact .execute hmem hstep
  case cleanup | reserve | complete | cancel =>
    obtain ⟨m, hmem, c, hc, hstep⟩ := hstep
    split at hstep <;> cases hstep
    constructor <;> assumption
  -- the steps that look the entry of the call up as well
  case finish | record | answer =>
    obtain ⟨m, hmem, c, hc, hstep⟩ := hstep
    split at hstep
    · obtain ⟨e, he, hstep⟩ := Option.bind_eq_some_iff.mp hstep
      repeat' split at hstep
      all_goals cases hstep
      constructor <;> assumption
    · cases hstep

variable (cfg s)

/-- An empty store. -/
def initial : System := ⟨∅, none, ⟨[], [], [], [], []⟩⟩

/-- A row that an earlier helper has left, after it had called the run function. -/
structure Legacy where
  id : String
  request : List UInt8
  outcome : Option Outcome
  completedAt : ℕ
  expiresAt : ℕ

/-- Add such a row, if its request has a digest and its operation has no row. -/
def leave (x : Legacy) : System :=
  match s.table.lookup x.id, cfg.canonicalHash x.request with
  | none, some hash =>
    let number := s.history.reservations.length
    { s with
      table := s.table.insert x.id ⟨hash, x.outcome, x.completedAt, x.expiresAt, number⟩
      history := { s.history with
        reservations := s.history.reservations ++ [⟨x.id, x.request, hash⟩]
        started := s.history.started ++ [⟨number, x.id, x.request⟩]
        ended := s.history.ended ++ (x.outcome.map fun o => (number, o)).toList } }
  | _, _ => s

/-- The store with the rows that earlier helpers have left. -/
def left (legacy : List Legacy) : System := legacy.foldl (leave cfg) initial

end System

end Paperboat.Operation

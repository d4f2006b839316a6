import Paperboat.Lib.FinMap

/-!
# The input journal of a session

The model of `InputJournal` in `internal/session/input.go`. `Write` is cut into the part in front of the
terminal (`lookup`) and the part behind it (`record`); the call of the terminal itself stands between them
in the manager.
-/

namespace Paperboat.Session

/-- `InputStatus`. -/
inductive InputStatus where
  | accepted
  | duplicate
  | rejected
  | uncertain
  deriving DecidableEq

/-- The errors of the journal: `ErrInvalidInput`, `ErrInputConflict`, `StaleGenerationError`,
`ErrInputUnknown` and `ErrInputJournalFull`. -/
inductive InputError where
  | invalid
  | conflict
  | stale (currentGeneration : ℕ)
  | unknown
  | full
  deriving DecidableEq

/-- `InputKey`. -/
structure InputKey where
  clientID : String
  attachmentID : String
  generation : ℕ
  inputID : String
  deriving DecidableEq

/-- A key with an empty part, which the journal refuses. -/
def InputKey.incomplete (key : InputKey) : Bool :=
  key.clientID = "" ∨ key.attachmentID = "" ∨ key.inputID = "" ∨ key.generation = 0

/-- `InputDecision`. -/
structure InputDecision where
  status : InputStatus
  bytesWritten : ℕ
  writeError : String
  hash : String
  deriving DecidableEq

/-- `publicDecision`: the digest stays inside. -/
def publicDecision (decision : InputDecision) : InputDecision := { decision with hash := "" }

/-- The decision after the terminal took `n` of `length` bytes, with an error or without. -/
def decisionAfter (hash : String) (length n : ℕ) (failed : Bool) : InputDecision where
  status :=
    if failed ∧ 0 < n ∧ n < length then .uncertain
    else if n = length then .accepted
    else if n = 0 then .rejected
    else .uncertain
  bytesWritten := n
  writeError := if failed then "pty_write_failed" else ""
  hash := hash

/-- `InputJournal`. -/
structure InputJournal where
  current : ℕ
  max : ℕ
  decisions : FinMap InputKey InputDecision

/-- `NewBoundedInputJournal`. -/
def newBoundedInputJournal (generation max : ℕ) : InputJournal := ⟨generation, max, ∅⟩

namespace InputJournal

/-- `SetGeneration`. -/
def setGeneration (j : InputJournal) (generation : ℕ) : InputJournal := { j with current := generation }

/-- `Query`. -/
def query (j : InputJournal) (key : InputKey) : Except InputError InputDecision :=
  match j.decisions.lookup key with
  | none => .error .unknown
  | some decision => .ok (publicDecision decision)

/-- `Admit`. -/
def admitKey (j : InputJournal) (key : InputKey) : Except InputError Unit :=
  if (j.decisions.lookup key).isSome then .ok ()
  else if j.max ≤ j.decisions.size then .error .full
  else .ok ()

/-- `Write` up to the terminal: an error, the answer to a retry, or `none` when the bytes are to be
written. -/
def lookup (j : InputJournal) (key : InputKey) (hash : String) :
    Except InputError (Option InputDecision) :=
  if key.incomplete then .error .invalid
  else
    match j.decisions.lookup key with
    | some previous =>
      if previous.hash ≠ hash then .error .conflict
      else
        .ok (some (publicDecision
          { previous with
            status := if previous.status = .accepted then .duplicate else previous.status }))
    | none =>
      if j.max ≤ j.decisions.size then .error .full
      else if key.generation ≠ j.current then .error (.stale j.current)
      else .ok none

/-- `Write` behind the terminal. -/
def record (j : InputJournal) (key : InputKey) (decision : InputDecision) : InputJournal :=
  { j with decisions := j.decisions.insert key decision }

/-- `Restore`. A stored digest always has the length of one. -/
def restore (j : InputJournal) (key : InputKey) (decision : InputDecision) :
    Except InputError InputJournal :=
  if key.incomplete then .error .invalid
  else if decision.status = .duplicate then .error .invalid
  else if (j.decisions.lookup key).isSome then .error .conflict
  else if j.max ≤ j.decisions.size then .error .full
  else .ok (j.record key decision)

end InputJournal

end Paperboat.Session

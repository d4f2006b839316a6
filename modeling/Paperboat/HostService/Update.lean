import Paperboat.Lib.Prog
import Paperboat.Lib.Transition

/-!
# The privileged updater

The model of `UpdateManager` in `internal/hostservice/update_unix.go`. Its functions are programs of
file-system and service calls, between any two of which the process can die. A file is told by the
release that it holds. File-system calls succeed, and every write of a state file replaces it at once;
whether a download, a restart or a health check succeeds is the fate of that call.
-/

namespace Paperboat.HostService

/-! ### Release versions -/

/-- The loop of `strconv.ParseUint(_, 10, 32)`. An error comes with the value that the function then
returns. -/
def parseUintLoop : List Char → ℕ → Except ℕ ℕ
  | [], n => .ok n
  | c :: l, n =>
    if c.isDigit = false then .error 0
    else
      let next := n * 10 + (c.toNat - '0'.toNat)
      if 2 ^ 32 ≤ next then .error (2 ^ 32 - 1) else parseUintLoop l next

/-- `strconv.ParseUint(_, 10, 32)`. -/
def parseUint (s : List Char) : Except ℕ ℕ := if s = [] then .error 0 else parseUintLoop s 0

/-- The value of `strconv.ParseUint` when its error is ignored. -/
def parseUintValue (s : List Char) : ℕ :=
  match parseUint s with
  | .ok n => n
  | .error n => n

/-- `strings.Split(_, ".")`. -/
def splitDots : List Char → List (List Char)
  | [] => [[]]
  | c :: l =>
    if c = '.' then [] :: splitDots l
    else
      match splitDots l with
      | [] => [[c]]
      | part :: parts => (c :: part) :: parts

/-- `validReleaseVersion`. -/
def validReleaseVersion (value : String) : Bool :=
  let parts := splitDots value.toList
  3 ≤ parts.length ∧ parts.length ≤ 4 ∧ parts.all fun part => (parseUint part).isOk

/-- The loop of `compareReleaseVersion`; a missing part counts as zero. -/
def compareParts (l r : List (List Char)) : ℕ → Ordering
  | 0 => .eq
  | n + 1 =>
    let lv := (l.head?.map parseUintValue).getD 0
    let rv := (r.head?.map parseUintValue).getD 0
    if lv < rv then .lt else if rv < lv then .gt else compareParts l.tail r.tail n

/-- `compareReleaseVersion`. -/
def compareReleaseVersion (left right : String) : Ordering :=
  compareParts (splitDots left.toList) (splitDots right.toList) 4

lemma compareReleaseVersion_self (version : String) : compareReleaseVersion version version = .eq := by
  unfold compareReleaseVersion
  generalize splitDots version.toList = parts
  suffices h : ∀ n, compareParts parts parts n = .eq from h 4
  intro n
  induction n generalizing parts with
  | zero => rfl
  | succ n ih => simp [compareParts, ih]

/-! ### The files of an installation -/

/-- The two binaries. -/
inductive Binary where
  | worker
  | host
  deriving DecidableEq

/-- The places of a binary: its path, the siblings `.rollback` and `.previous`, and the downloaded
file. -/
inductive Place where
  | installed (b : Binary)
  | rollback (b : Binary)
  | previous (b : Binary)
  | staged (b : Binary)
  deriving DecidableEq

/-- The stages of the journal. -/
inductive Stage where
  | staged
  | activating
  | checking
  | committed
  deriving DecidableEq

/-- `updateJournal`. Instead of the path of a staged file it says whether there is one. -/
structure UpdateJournal where
  stage : Stage
  version : String
  previousVersion : String
  workerStaged : Bool
  hostStaged : Bool
  deriving DecidableEq

/-- What `loadJournal` checks of an entry. -/
def UpdateJournal.valid (entry : UpdateJournal) : Bool :=
  validReleaseVersion entry.version ∧ validReleaseVersion entry.previousVersion ∧
    compareReleaseVersion entry.version entry.previousVersion = .gt

variable {e : UpdateJournal}

/-- The versions of a valid entry are release versions, and the first is the newer one. -/
lemma UpdateJournal.valid_iff : e.valid = true ↔ validReleaseVersion e.version = true ∧
      validReleaseVersion e.previousVersion = true ∧
      compareReleaseVersion e.version e.previousVersion = .gt := by
  simp [UpdateJournal.valid]

lemma UpdateJournal.version_ne (h : e.valid = true) : e.version ≠ e.previousVersion := by
  intro heq
  have hgt := (valid_iff.mp h).2.2
  rw [heq, compareReleaseVersion_self] at hgt
  cases hgt

/-- What was installed, and what `update-current.json` said, when a rollback was counted. -/
structure Report where
  worker : Option String
  host : Option String
  current : Option String
  before : String
  deriving DecidableEq

/-- The disk. The last three fields are not on it: the release that the last activation found, the
one that it installs, and the rollbacks counted so far. -/
structure World where
  files : Place → Option String
  journal : Option UpdateJournal
  current : Option String
  rollbacks : ℕ
  before : String
  target : String
  reports : List Report

/-- Write or remove a file. -/
def World.put (w : World) (p : Place) (content : Option String) : World :=
  { w with files := Function.update w.files p content }

/-! ### Calls -/

/-- How `loadJournal` fails. -/
inductive JournalError where
  | notExist
  | invalid
  deriving DecidableEq

/-- The calls of the updater. -/
inductive Call where
  | lstat (p : Place)
  | remove (p : Place)
  | rename (p q : Place)
  | read (p : Place)
  | loadJournal
  | writeJournal (entry : UpdateJournal)
  | removeJournal
  | writeCurrent (version : String)
  | incrementRollbackCount
  | fetch (b : Binary) (version : String)
  | validateTarget (b : Binary)
  | restartWorker
  | check (version : String)
  deriving DecidableEq

/-- The replies. -/
abbrev Reply : Call → Type
  | .lstat _ | .rename _ _ | .removeJournal => Bool
  | .fetch _ _ | .validateTarget _ | .restartWorker | .check _ => Bool
  | .read _ => Option String
  | .loadJournal => Except JournalError UpdateJournal
  | .remove _ | .writeJournal _ | .writeCurrent _ | .incrementRollbackCount => Unit

/-- What a call does; `ok` is its fate where it can fail. -/
def perform (w : World) (c : Call) (ok : Bool) : World × Reply c :=
  match c with
  | .lstat p => (w, (w.files p).isSome)
  | .remove p => (w.put p none, ())
  | .rename p q =>
    match w.files p with
    | none => (w, false)
    | some version => ((w.put q (some version)).put p none, true)
  | .read p => (w, w.files p)
  | .loadJournal =>
    (w, match w.journal with
      | none => .error .notExist
      | some entry => if entry.valid then .ok entry else .error .invalid)
  | .writeJournal entry => ({ w with journal := some entry }, ())
  | .removeJournal => ({ w with journal := none }, w.journal.isSome)
  | .writeCurrent version => ({ w with current := some version }, ())
  | .incrementRollbackCount =>
    ({ w with
        rollbacks := w.rollbacks + 1
        reports := w.reports ++ [⟨w.files (.installed .worker), w.files (.installed .host),
          w.current, w.before⟩] }, ())
  | .fetch b version => if ok then (w.put (.staged b) (some version), true) else (w, false)
  | .validateTarget _ | .restartWorker | .check _ => (w, ok)

/-- A program of the updater. -/
abbrev Update (α : Type) : Type := Prog Reply α

/-- Make a call. -/
abbrev request (c : Call) : Update (Reply c) := Prog.request c

/-! ### Replacing and restoring binaries -/

/-- `replaceUpdateBinary`: whether the staged file has taken the place of the binary. -/
def replaceUpdateBinary (b : Binary) : Update Bool := do
  if !(← request (.lstat (.installed b))) then return false
  if !(← request (.lstat (.staged b))) then return false
  request (.remove (.rollback b))
  if !(← request (.rename (.installed b) (.rollback b))) then return false
  if !(← request (.rename (.staged b) (.installed b))) then
    let _ ← request (.rename (.rollback b) (.installed b))
    return false
  return true

/-- The body of the loop of `rollback`: whether it went without an error. -/
def rollbackBinary (b : Binary) : Update Bool := do
  if ← request (.lstat (.rollback b)) then
    request (.remove (.installed b))
    request (.rename (.rollback b) (.installed b))
  else return true

/-- `rollback`: put both binaries back and record the current version. The journal is removed even
when the worker does not restart, but then nothing is counted. -/
def rollback (currentVersion : String) : Update Bool := do
  let worker ← rollbackBinary .worker
  let host ← rollbackBinary .host
  if !(worker && host) then return false
  request (.writeCurrent currentVersion)
  let restarted ← request .restartWorker
  let removed ← request .removeJournal
  if !(restarted && removed) then return false
  request .incrementRollbackCount
  return true

/-- The body of the loop of `finalizePrevious`. -/
def finalizeBinary (b : Binary) : Update Bool := do
  if ← request (.lstat (.rollback b)) then
    request (.remove (.previous b))
    request (.rename (.rollback b) (.previous b))
  else return true

/-- `finalizePrevious`. -/
def finalizePrevious : Update Bool := do
  if !(← finalizeBinary .worker) then return false
  finalizeBinary .host

/-! ### Activation -/

/-- Why an activation fails. -/
inductive Cause where
  | invalid
  | fetch
  | replace
  | restart
  | health
  | finalize
  deriving DecidableEq

/-- A failed activation; `rolledBack` says whether there was a rollback, and with success. -/
structure ActivateError where
  cause : Cause
  rolledBack : Option Bool
  deriving DecidableEq

/-- Fail with a rollback. -/
def failWith (currentVersion : String) (cause : Cause) : Update (Except ActivateError String) := do
  return .error ⟨cause, some (← rollback currentVersion)⟩

/-- The part of `activate` after both binaries have been replaced: check the new release and commit
it. -/
def commitActivation (currentVersion version : String) : Update (Except ActivateError String) := do
  let entry : UpdateJournal := ⟨.checking, version, currentVersion, false, false⟩
  request (.writeJournal entry)
  if !(← request .restartWorker) then failWith currentVersion .restart
  else if !(← request (.check version)) then failWith currentVersion .health
  else
    request (.writeCurrent version)
    request (.writeJournal { entry with stage := .committed })
    if !(← finalizePrevious) then return .error ⟨.finalize, none⟩
    else return .ok version

/-- The part of `activate` between the two downloads and the removal of what is left of them. -/
def activateStaged (currentVersion version : String) : Update (Except ActivateError String) := do
  if !(← request (.validateTarget .worker)) then return .error ⟨.invalid, none⟩
  if !(← request (.validateTarget .host)) then return .error ⟨.invalid, none⟩
  let entry : UpdateJournal := ⟨.staged, version, currentVersion, true, true⟩
  request (.writeJournal entry)
  request (.writeJournal { entry with stage := .activating })
  if !(← replaceUpdateBinary .worker) then failWith currentVersion .replace
  else if !(← replaceUpdateBinary .host) then failWith currentVersion .replace
  else commitActivation currentVersion version

/-- A request to activate a release: whether `verifyUpdatePair` accepts the two manifests, and their
version. -/
structure Request where
  verified : Bool
  version : String
  deriving DecidableEq

/-- The answer to a request for the version that is already running. -/
def replayActivation (version : String) : Update (Except ActivateError String) := do
  match ← request .loadJournal with
  | .error _ => return .error ⟨.invalid, none⟩
  | .ok entry =>
    let worker ← request (.read (.installed .worker))
    let host ← request (.read (.installed .host))
    if entry.stage = .committed ∧ entry.version = version ∧ worker = some version ∧
        host = some version then
      return .ok version
    else return .error ⟨.invalid, none⟩

/-- `activate`. -/
def activate (currentVersion : String) (r : Request) : Update (Except ActivateError String) := do
  if !r.verified then return .error ⟨.invalid, none⟩
  match compareReleaseVersion r.version currentVersion with
  | .eq => replayActivation r.version
  | .lt => return .error ⟨.invalid, none⟩
  | .gt =>
    if !(← request (.fetch .worker r.version)) then return .error ⟨.fetch, none⟩
    if !(← request (.fetch .host r.version)) then
      request (.remove (.staged .worker))
      return .error ⟨.fetch, none⟩
    let result ← activateStaged currentVersion r.version
    request (.remove (.staged .host))
    request (.remove (.staged .worker))
    return result

/-! ### Starting -/

/-- Why `NewUpdateManager` fails: the configuration does not pass `validate`, or recovery reports an
error. -/
inductive StartError where
  | validate
  | recover
  deriving DecidableEq

/-- Remove a staged file that the journal names. -/
def removeStaged (named : Bool) (b : Binary) : Update Unit :=
  if named then request (.remove (.staged b)) else return ()

/-- `recover`: the version that is then current. -/
def recover (currentVersion : String) : Update (Except StartError String) := do
  match ← request .loadJournal with
  | .error .notExist => return .ok currentVersion
  | .error .invalid => return .error .recover
  | .ok entry =>
    if entry.stage = .committed then
      if !(← request (.check entry.version)) then
        let _ ← rollback entry.previousVersion
        return .error .recover
      else if !(← finalizePrevious) then return .error .recover
      else return .ok entry.version
    else
      removeStaged entry.workerStaged .worker
      removeStaged entry.hostStaged .host
      if ← rollback currentVersion then return .ok currentVersion else return .error .recover

/-- `validate`: both binaries are there and the version is one. -/
def validate (currentVersion : String) : Update Bool := do
  if !validReleaseVersion currentVersion then return false
  if !(← request (.lstat (.installed .worker))) then return false
  request (.lstat (.installed .host))

/-- `NewUpdateManager`. -/
def newUpdateManager (currentVersion : String) : Update (Except StartError String) := do
  if !(← validate currentVersion) then return .error .validate
  recover currentVersion

end Paperboat.HostService

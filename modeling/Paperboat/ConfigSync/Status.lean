import Paperboat.ConfigSync.ApplyJournal
import Paperboat.ConfigSync.Prepare
import Paperboat.Lib.Transition

/-!
# Sync revisions across restarts

Every sync of the engine has a revision, which its reports carry. The revision of the next sync is in
memory only; after a restart the engine takes it from the status file, if `ReadStatus` accepts that
file, and otherwise from the descriptor's floor.

`WriteStatus` and `ReadStatus` do not agree. Both validate a status, but only `ReadStatus` has a limit
on the size of the file, which a few hundred paths exceed, and it sees the paths as the JSON decoder
gives them, with replacement characters for bytes that are no characters. After a restart from such a
file the revisions start over (`revision_reported_twice`). `sync_revisions_increase` is about the runs
in which every report is small as JSON, its paths are short as they are read, and the limit on the lists
does not become smaller.
-/

namespace Paperboat.ConfigSync.Reporting

open List

open JsonText
open Apply (safeRelativeStatusPath trimSpace goLength)

/-- The states of a sync, `canonicalStates`. -/
inductive SyncState where
  | disabled | consentRequired | restoring | watching | pending | syncing | healthy | warning | conflict
  | offline | revoked | error | syncUncertain
  deriving DecidableEq

/-- The texts of the states. -/
def SyncState.name : SyncState → String
  | .disabled => "disabled"
  | .consentRequired => "consent_required"
  | .restoring => "restoring"
  | .watching => "watching"
  | .pending => "pending"
  | .syncing => "syncing"
  | .healthy => "healthy"
  | .warning => "warning"
  | .conflict => "conflict"
  | .offline => "offline"
  | .revoked => "revoked"
  | .error => "error"
  | .syncUncertain => "sync_uncertain"

/-- The state with a text. -/
def SyncState.ofName (name : String) : Option SyncState :=
  [disabled, consentRequired, restoring, watching, pending, syncing, healthy, warning, conflict, offline,
    revoked, error, syncUncertain].find? fun s => s.name = name

/-- The texts of the modes. -/
def modeName : AssignmentMode → String
  | .bidirectional => "bidirectional"
  | .pullOnly => "pull_only"
  | .pushOnly => "push_only"

/-- The mode with a text. -/
def modeOfName (name : String) : Option AssignmentMode :=
  [.bidirectional, .pullOnly, .pushOnly].find? fun m => modeName m = name

/-- A path with a reason to report it, as the bytes of its name. -/
structure Summary where
  path : GoString
  bytes : ℤ
  reason : String
  revision : String
  deriving DecidableEq

/-- The text that the zero time has in JSON. -/
def zeroTime : String := "0001-01-01T00:00:00Z"

/-- `Status`. A time is the text that it has in JSON. -/
structure Status where
  state : SyncState
  mode : AssignmentMode
  repositoryID : String
  assignmentID : String
  environmentID : String
  helperID : String
  helperGeneration : ℤ
  warningRevision : String
  policyRevision : String
  syncRevision : ℤ
  remoteRevision : String
  manifestHealth : String
  manifestRevision : String
  managedPathCount : ℤ
  pendingCleanPathCount : ℤ
  lastAppliedRevision : String
  lastPublishedRevision : String
  leaseID : String
  fencingToken : ℤ
  lastAttemptAt : Option String
  lastSuccessfulAt : Option String
  updatedAt : String
  skipped : List Summary
  conflicts : List Summary
  errorCode : String
  recoveryActions : List String
  deriving DecidableEq

/-- `safeStatusCode`: a lower-case letter and at most 63 letters, digits and underscores. -/
def safeStatusCode (code : String) : Bool :=
  match code.toList with
  | [] => false
  | c :: rest => 'a' ≤ c && c ≤ 'z' && rest.length ≤ 63 &&
      rest.all fun c => 'a' ≤ c && c ≤ 'z' || c.isDigit || c = '_'

/-- The check of one reported path. -/
def Summary.validate (item : Summary) : Bool :=
  safeRelativeStatusPath item.path && 0 ≤ item.bytes && safeStatusCode item.reason &&
    (item.revision = "" || safeConflictRevision item.revision)

/-- The limit on the lists of a status, and that they keep it. -/
def Status.limited (s : Status) (summaryLimit : ℤ) : Bool :=
  1 ≤ summaryLimit && summaryLimit ≤ 1000 && s.skipped.length ≤ summaryLimit &&
    s.conflicts.length ≤ summaryLimit

/-- The numbers, the time and the lengths of the strings of a status. -/
def Status.bounded (s : Status) : Bool :=
  0 ≤ s.syncRevision && 0 ≤ s.managedPathCount && 0 ≤ s.pendingCleanPathCount && 0 ≤ s.helperGeneration &&
    0 ≤ s.fencingToken && s.updatedAt ≠ zeroTime && s.remoteRevision.utf8ByteSize ≤ 256 &&
    s.leaseID.utf8ByteSize ≤ 128 && s.errorCode.utf8ByteSize ≤ 64 &&
    s.manifestRevision.utf8ByteSize ≤ 64 && s.lastAppliedRevision.utf8ByteSize ≤ 256 &&
    s.lastPublishedRevision.utf8ByteSize ≤ 256

/-- `Status.Validate`. -/
def Status.validate (s : Status) (summaryLimit : ℤ) : Bool :=
  s.limited summaryLimit && s.bounded && (s.errorCode = "" || safeStatusCode s.errorCode) &&
  s.recoveryActions.length ≤ 8 && ["", "healthy", "empty", "missing", "invalid"].contains s.manifestHealth &&
  (s.skipped ++ s.conflicts).all Summary.validate && s.recoveryActions.all safeStatusCode &&
  !(s.state = .conflict && s.conflicts = []) &&
  !(s.state = .syncUncertain && s.errorCode ≠ "sync_uncertain") && !(0 < s.fencingToken && s.leaseID = "")

/-! ### The file -/

/-- The members of a reported path. -/
inductive SummaryField where
  | path | bytes | reason | revision
  deriving DecidableEq

/-- The names of the members. -/
def SummaryField.name : SummaryField → List Char
  | .path => "path".toList
  | .bytes => "bytes".toList
  | .reason => "reason".toList
  | .revision => "revision".toList

/-- The order of the members. -/
def SummaryField.all : List SummaryField := [.path, .bytes, .reason, .revision]

/-- A string in JSON. -/
def str (s : String) : Scalar := .str (ofText s.toList)

/-- A member that is left out when it is empty. -/
def optional (s : String) : Option Scalar := if s = "" then none else some (str s)

/-- A number that is left out when it is zero; the numbers that are written are not negative. -/
def optionalNumber (n : ℤ) : Option Scalar := if n = 0 then none else some (.num n.toNat)

/-- The members of a reported path that have a value. -/
def Summary.member (item : Summary) : SummaryField → Option Scalar
  | .path => some (.str item.path)
  | .bytes => optionalNumber item.bytes
  | .reason => some (str item.reason)
  | .revision => optional item.revision

/-- A string that was read; a missing one is empty. -/
def readStr : Option Scalar → Option String
  | none => some ""
  | some (.str s) => some (String.ofList (sanitize s))
  | _ => none

/-- A number that was read. -/
def readNum : Option Scalar → Option ℤ
  | none => some 0
  | some (.num n) => some n
  | _ => none

/-- A reported path from its object. -/
def readSummary (r : Record) : Option Summary := do
  let value ← valuesOf SummaryField.name SummaryField.all r
  let path ← match value .path with
    | none => some []
    | some (.str s) => some s
    | _ => none
  return ⟨path, ← readNum (value .bytes), ← readStr (value .reason), ← readStr (value .revision)⟩

/-- The members of a status. -/
inductive Field where
  | state | mode | repositoryID | assignmentID | environmentID | helperID | helperGeneration
  | warningRevision | policyRevision | syncRevision | remoteRevision | manifestHealth | manifestRevision
  | managedPathCount | pendingCleanPathCount | lastAppliedRevision | lastPublishedRevision | leaseID
  | fencingToken | lastAttemptAt | lastSuccessfulAt | updatedAt | skipped | conflicts | errorCode
  | recoveryActions
  deriving DecidableEq

/-- The names of the members. -/
def Field.name : Field → List Char
  | .state => "state".toList
  | .mode => "mode".toList
  | .repositoryID => "repository_id".toList
  | .assignmentID => "assignment_id".toList
  | .environmentID => "environment_id".toList
  | .helperID => "helper_id".toList
  | .helperGeneration => "helper_generation".toList
  | .warningRevision => "warning_revision".toList
  | .policyRevision => "policy_revision".toList
  | .syncRevision => "sync_revision".toList
  | .remoteRevision => "remote_revision".toList
  | .manifestHealth => "manifest_health".toList
  | .manifestRevision => "manifest_revision".toList
  | .managedPathCount => "managed_path_count".toList
  | .pendingCleanPathCount => "pending_clean_path_count".toList
  | .lastAppliedRevision => "last_applied_revision".toList
  | .lastPublishedRevision => "last_published_revision".toList
  | .leaseID => "lease_id".toList
  | .fencingToken => "fencing_token".toList
  | .lastAttemptAt => "last_attempt_at".toList
  | .lastSuccessfulAt => "last_successful_sync_at".toList
  | .updatedAt => "updated_at".toList
  | .skipped => "skipped".toList
  | .conflicts => "conflicts".toList
  | .errorCode => "error_code".toList
  | .recoveryActions => "recovery_actions".toList

/-- The order of the members. -/
def Field.all : List Field :=
  [.state, .mode, .repositoryID, .assignmentID, .environmentID, .helperID, .helperGeneration,
    .warningRevision, .policyRevision, .syncRevision, .remoteRevision, .manifestHealth, .manifestRevision,
    .managedPathCount, .pendingCleanPathCount, .lastAppliedRevision, .lastPublishedRevision, .leaseID,
    .fencingToken, .lastAttemptAt, .lastSuccessfulAt, .updatedAt, .skipped, .conflicts, .errorCode,
    .recoveryActions]

/-- A scalar as a member of a status. -/
def scalar (v : Scalar) : Cell := .inl (.inl v)

/-- Reported paths as a member of a status. -/
def summaries (l : List Summary) : Option Cell :=
  if l = [] then none
  else some (.inl (.inr (l.map fun item => membersOf SummaryField.name SummaryField.all item.member)))

/-- The members of a status that have a value. -/
def Status.member (s : Status) : Field → Option Cell
  | .state => some (scalar (str s.state.name))
  | .mode => some (scalar (str (modeName s.mode)))
  | .repositoryID => (optional s.repositoryID).map scalar
  | .assignmentID => (optional s.assignmentID).map scalar
  | .environmentID => (optional s.environmentID).map scalar
  | .helperID => (optional s.helperID).map scalar
  | .helperGeneration => (optionalNumber s.helperGeneration).map scalar
  | .warningRevision => (optional s.warningRevision).map scalar
  | .policyRevision => (optional s.policyRevision).map scalar
  | .syncRevision => some (scalar (.num s.syncRevision.toNat))
  | .remoteRevision => (optional s.remoteRevision).map scalar
  | .manifestHealth => (optional s.manifestHealth).map scalar
  | .manifestRevision => (optional s.manifestRevision).map scalar
  | .managedPathCount => some (scalar (.num s.managedPathCount.toNat))
  | .pendingCleanPathCount => some (scalar (.num s.pendingCleanPathCount.toNat))
  | .lastAppliedRevision => (optional s.lastAppliedRevision).map scalar
  | .lastPublishedRevision => (optional s.lastPublishedRevision).map scalar
  | .leaseID => (optional s.leaseID).map scalar
  | .fencingToken => (optionalNumber s.fencingToken).map scalar
  | .lastAttemptAt => s.lastAttemptAt.map fun t => scalar (str t)
  | .lastSuccessfulAt => s.lastSuccessfulAt.map fun t => scalar (str t)
  | .updatedAt => some (scalar (str s.updatedAt))
  | .skipped => summaries s.skipped
  | .conflicts => summaries s.conflicts
  | .errorCode => (optional s.errorCode).map scalar
  | .recoveryActions =>
    if s.recoveryActions = [] then none else some (.inr (s.recoveryActions.map fun a => ofText a.toList))

/-- `json.Marshal` of a status, with the newline of `WriteStatus`. -/
def Status.encode (s : Status) : List Char :=
  writeObject writeCell (membersOf Field.name Field.all s.member) ++ ['\n']

/-- A scalar of a status that was read. -/
def readScalarCell {α : Type} (read : Option Scalar → Option α) : Option Cell → Option α
  | none => read none
  | some (.inl (.inl v)) => read (some v)
  | _ => none

/-- Reported paths that were read. -/
def readSummaries : Option Cell → Option (List Summary)
  | none => some []
  | some (.inl (.inr records)) => records.mapM readSummary
  | _ => none

/-- Strings that were read. -/
def readStrings : Option Cell → Option (List String)
  | none => some []
  | some (.inr l) => some (l.map fun s => String.ofList (sanitize s))
  | some (.inl (.inr [])) => some []
  | _ => none

/-- A time that may be missing. -/
def readTime : Option Cell → Option (Option String)
  | none => some none
  | some v => (readScalarCell readStr (some v)).map some

/-- A status from its members. -/
def ofMembers (value : Field → Option Cell) : Option Status := do
  let text (f : Field) := readScalarCell readStr (value f)
  let number (f : Field) := readScalarCell readNum (value f)
  return {
    state := ← SyncState.ofName (← text .state)
    mode := ← modeOfName (← text .mode)
    repositoryID := ← text .repositoryID
    assignmentID := ← text .assignmentID
    environmentID := ← text .environmentID
    helperID := ← text .helperID
    helperGeneration := ← number .helperGeneration
    warningRevision := ← text .warningRevision
    policyRevision := ← text .policyRevision
    syncRevision := ← number .syncRevision
    remoteRevision := ← text .remoteRevision
    manifestHealth := ← text .manifestHealth
    manifestRevision := ← text .manifestRevision
    managedPathCount := ← number .managedPathCount
    pendingCleanPathCount := ← number .pendingCleanPathCount
    lastAppliedRevision := ← text .lastAppliedRevision
    lastPublishedRevision := ← text .lastPublishedRevision
    leaseID := ← text .leaseID
    fencingToken := ← number .fencingToken
    lastAttemptAt := ← readTime (value .lastAttemptAt)
    lastSuccessfulAt := ← readTime (value .lastSuccessfulAt)
    updatedAt := ← (value .updatedAt).elim (some zeroTime) fun v => readScalarCell readStr (some v)
    skipped := ← readSummaries (value .skipped)
    conflicts := ← readSummaries (value .conflicts)
    errorCode := ← text .errorCode
    recoveryActions := ← readStrings (value .recoveryActions) }

/-- `Decode` with unknown members disallowed, and nothing but space behind. -/
def decode (text : List Char) : Option Status := do
  let (members, rest) ← readObject readCell text
  if rest.all isSpace then ofMembers (← valuesOf Field.name Field.all members) else none

/-- A reported path as it is read back: its path is text. -/
def Summary.sanitized (item : Summary) : Summary := { item with path := ofText (sanitize item.path) }

/-- A status as it is read back. -/
def Status.sanitized (s : Status) : Status :=
  { s with skipped := s.skipped.map Summary.sanitized, conflicts := s.conflicts.map Summary.sanitized }

/-- `maxControlResponseBytes`. -/
def maxControlResponseBytes : ℕ := 65536

/-! ### The round trip -/

lemma SyncState.ofName_name (s : SyncState) : SyncState.ofName s.name = some s := by
  cases s <;> decide

lemma modeOfName_name (m : AssignmentMode) : modeOfName (modeName m) = some m := by
  cases m <;> decide

lemma readStr_str (s : String) : readStr (some (str s).sanitized) = some s := by
  simp [readStr, str, Scalar.sanitized]

lemma readStr_optional (s : String) : readStr ((optional s).map Scalar.sanitized) = some s := by
  unfold optional
  split
  · next h => exact congrArg some h.symm
  · exact readStr_str s

lemma readNum_num {n : ℤ} (hn : 0 ≤ n) : readNum (some (Scalar.num n.toNat).sanitized) = some n := by
  simp [readNum, Scalar.sanitized, hn]

lemma readNum_optionalNumber {n : ℤ} (hn : 0 ≤ n) :
    readNum ((optionalNumber n).map Scalar.sanitized) = some n := by
  unfold optionalNumber
  split
  · next h => exact congrArg some h.symm
  · exact readNum_num hn

/-- A reported path is read back. -/
lemma readSummary_record {item : Summary} (hbytes : 0 ≤ item.bytes) :
    readSummary (Record.sanitized (membersOf SummaryField.name SummaryField.all item.member)) =
      some item.sanitized := by
  rw [readSummary, Record.sanitized, valuesOf_membersOf (by decide) (fun f => by cases f <;> decide)]
  simp only [Option.bind_eq_bind, Option.bind_some, Summary.member, Option.map_some, readStr_str,
    readStr_optional, readNum_optionalNumber hbytes]
  rfl

lemma readSummaries_summaries {l : List Summary} (hl : ∀ item ∈ l, 0 ≤ item.bytes) :
    readSummaries ((summaries l).map sanitizeCell) = some (l.map Summary.sanitized) := by
  have hrecords : ((l.map fun item => membersOf SummaryField.name SummaryField.all item.member).map
      Record.sanitized).mapM readSummary = some (l.map Summary.sanitized) := by
    induction l with
    | nil => rfl
    | cons item l ih =>
      rw [map_cons, map_cons, mapM_cons, readSummary_record (hl item mem_cons_self),
        ih fun item hitem => hl item (mem_cons_of_mem _ hitem)]
      rfl
  unfold summaries
  split
  · next h => rw [h]; rfl
  · exact hrecords

/-- A string, a number or a time is read back. -/
lemma readScalarCell_optional (s : String) :
    readScalarCell readStr (((optional s).map scalar).map sanitizeCell) = some s := by
  rw [← readStr_optional s]
  cases optional s <;> rfl

lemma readScalarCell_str (s : String) :
    readScalarCell readStr ((some (scalar (str s))).map sanitizeCell) = some s :=
  readStr_str s

lemma readScalarCell_optionalNumber {n : ℤ} (hn : 0 ≤ n) :
    readScalarCell readNum (((optionalNumber n).map scalar).map sanitizeCell) = some n := by
  rw [← readNum_optionalNumber hn]
  cases optionalNumber n <;> rfl

lemma readScalarCell_num {n : ℤ} (hn : 0 ≤ n) :
    readScalarCell readNum ((some (scalar (.num n.toNat))).map sanitizeCell) = some n :=
  readNum_num hn

lemma readTime_map (t : Option String) :
    readTime ((t.map fun t => scalar (str t)).map sanitizeCell) = some t := by
  cases t with
  | none => rfl
  | some t => exact congrArg (Option.map some) (readScalarCell_str t)

lemma readStrings_map (l : List String) :
    readStrings ((if l = [] then none else some (.inr (l.map fun a => ofText a.toList))).map sanitizeCell) =
      some l := by
  split
  · next h => rw [h]; rfl
  · simp [sanitizeCell, readStrings, Function.comp_def]

/-- The numbers of a status are not negative. -/
structure Status.Natural (s : Status) : Prop where
  generation : 0 ≤ s.helperGeneration
  revision : 0 ≤ s.syncRevision
  managed : 0 ≤ s.managedPathCount
  pending : 0 ≤ s.pendingCleanPathCount
  token : 0 ≤ s.fencingToken
  bytes : ∀ item ∈ s.skipped ++ s.conflicts, 0 ≤ item.bytes

/-- A status is read back from its members. -/
lemma ofMembers_member {s : Status} (hs : s.Natural) :
    ofMembers (fun f => (s.member f).map sanitizeCell) = some s.sanitized := by
  obtain ⟨hskipped, hconflicts⟩ := forall_mem_append.mp hs.bytes
  have hupdated : ((some (scalar (str s.updatedAt))).map sanitizeCell).elim (some zeroTime)
      (fun v => readScalarCell readStr (some v)) = some s.updatedAt := readScalarCell_str s.updatedAt
  unfold ofMembers
  simp only [Status.member, readScalarCell_optional, readScalarCell_str, readTime_map, readStrings_map,
    readScalarCell_optionalNumber hs.generation, readScalarCell_optionalNumber hs.token,
    readScalarCell_num hs.revision, readScalarCell_num hs.managed, readScalarCell_num hs.pending, hupdated,
    readSummaries_summaries hskipped, readSummaries_summaries hconflicts, SyncState.ofName_name,
    modeOfName_name, Option.bind_eq_bind, Option.bind_some]
  rfl

/-- An empty list of strings is left out. -/
lemma Status.member_ne_nil (s : Status) (f : Field) : s.member f ≠ some (.inr []) := by
  cases f <;> simp [member, scalar, summaries]

/-- What is written is read back, with its paths as text. -/
lemma decode_encode {s : Status} (hs : s.Natural) : decode s.encode = some s.sanitized := by
  have hnames : (Field.all.map Field.name).Nodup := by decide +kernel
  have hmembers : ∀ m ∈ membersOf Field.name Field.all s.member, m.2 ≠ .inr [] := by
    intro m hm
    obtain ⟨f, -, hf⟩ := mem_filterMap.mp hm
    obtain ⟨v, hv, rfl⟩ := Option.map_eq_some_iff.mp hf
    rintro rfl
    exact s.member_ne_nil f hv
  rw [decode, Status.encode, readObject_writeObject (f := sanitizeCell) _ fun m hm c hc rest =>
    readCell_write (hmembers m hm) hc rest]
  simp only [Option.bind_eq_bind, Option.bind_some, valuesOf_membersOf hnames fun f => by cases f <;> decide,
    ofMembers_member hs]
  rfl

/-- `WriteStatus`: the new content of the file, unless writing fails. -/
def writeStatus (status : Status) (summaryLimit : ℤ) (written : Bool) : Option (List Char) :=
  if status.validate summaryLimit && written then some status.encode else none

/-- `ReadStatus` on the content of the file. -/
def readStatus (file : Option (List Char)) (summaryLimit : ℤ) : Option Status :=
  file.bind fun text =>
    if maxControlResponseBytes < byteLength text then none
    else (decode text).filter fun status => status.validate summaryLimit

/-- What the descriptors of an engine and of those after it have in common. -/
structure Identity where
  repositoryID : String
  assignmentID : String
  environmentID : String
  helperID : String
  helperGeneration : ℤ
  deriving DecidableEq

/-- The engine that a status is of. -/
def Status.identity (s : Status) : Identity :=
  ⟨s.repositoryID, s.assignmentID, s.environmentID, s.helperID, s.helperGeneration⟩

/-- What a descriptor says besides; `NewEngine` checks the limit. -/
structure Descriptor where
  mode : AssignmentMode
  warningRevision : String
  policyRevision : String
  syncRevisionFloor : ℤ
  summaryLimit : ℤ
  summaryLimit_le : summaryLimit ≤ 1000

/-- `ReconciliationDiagnostics`. -/
structure Diagnostics where
  skipped : List Summary
  conflicts : List Summary
  manifestHealth : String
  manifestRevision : String
  managedPathCount : ℤ
  pendingCleanPathCount : ℤ
  lastAppliedRevision : String
  lastPublishedRevision : String

/-- The errors of a sync that the engine tells apart. -/
inductive SyncError where
  | configConflict | syncUncertain | writesDisabled | manifestMissing | manifestInvalid | authorization | other
  deriving DecidableEq

/-- The result of `Sync`. -/
structure SyncResult where
  remoteRevision : String
  landed : Bool
  error : Option SyncError

/-- The engine: its revision and its status, and whether `syncNow` waits for `Sync`. -/
structure Engine where
  descriptor : Descriptor
  syncRevision : ℤ
  status : Status
  waiting : Bool

/-- The engine, the status file, the number of restarts, and the revisions reported after how many of
them. -/
structure State where
  engine : Engine
  file : Option (List Char)
  restarts : ℕ
  reported : List (ℕ × ℤ)

/-- The steps: the two halves of `syncNow`, each with the result of the write in its report, and the
start of an engine in place of the last one. -/
inductive Event where
  | attempt (now : String) (written : Bool)
  | finish (result : SyncResult) (diagnostics : Diagnostics) (now : String) (written : Bool)
  | restart (descriptor : Descriptor) (now : String)

/-- `e.syncRevision++` on 64 bits. -/
def increment (revision : ℤ) : ℤ := if revision = 2 ^ 63 - 1 then -2 ^ 63 else revision + 1

/-- The outcome that `syncNow` writes into its status. -/
def Status.outcome (s : Status) (result : SyncResult) (d : Diagnostics) (now : String) : Status :=
  match result.error with
  | none =>
    if result.landed && d.conflicts ≠ [] then
      { s with
        state := .conflict, remoteRevision := result.remoteRevision, errorCode := "config_conflict"
        lastSuccessfulAt := some now, recoveryActions := ["keep_local", "keep_remote"] }
    else if result.landed then
      { s with
        state := if d.skipped ≠ [] then .warning else .healthy, remoteRevision := result.remoteRevision
        lastSuccessfulAt := some now, errorCode := "", recoveryActions := [] }
    else { s with state := .error, errorCode := "repository_unavailable" }
  | some .configConflict =>
    { s with
      state := .conflict, errorCode := "config_conflict", recoveryActions := ["keep_local", "keep_remote"] }
  | some .syncUncertain =>
    { s with state := .syncUncertain, errorCode := "sync_uncertain", recoveryActions := ["observe_remote"] }
  | some .writesDisabled =>
    { s with state := .warning, errorCode := "writes_disabled", recoveryActions := ["wait_for_rollout"] }
  | some .manifestMissing =>
    { s with state := .error, errorCode := "manifest_missing", recoveryActions := ["fix_manifest"] }
  | some .manifestInvalid =>
    { s with state := .error, errorCode := "manifest_invalid", recoveryActions := ["fix_manifest"] }
  | some .authorization => { s with state := .revoked, errorCode := "credential_expired" }
  | some .other => { s with state := .error, errorCode := "repository_unavailable" }

/-- The status after `Sync` has returned. `LastAttemptAt` points to the variable that has the new time. -/
def Status.finish (s : Status) (result : SyncResult) (d : Diagnostics) (now : String) : Status :=
  Status.outcome
    { s with
      lastAttemptAt := some now, updatedAt := now
      skipped := d.skipped, conflicts := d.conflicts
      manifestHealth := d.manifestHealth, manifestRevision := d.manifestRevision
      managedPathCount := d.managedPathCount, pendingCleanPathCount := d.pendingCleanPathCount
      lastAppliedRevision := if d.lastAppliedRevision = "" then s.lastAppliedRevision else d.lastAppliedRevision
      lastPublishedRevision :=
        if d.lastPublishedRevision = "" then s.lastPublishedRevision else d.lastPublishedRevision
      remoteRevision := if result.remoteRevision = "" then s.remoteRevision else result.remoteRevision }
    result d now

variable (id : Identity)

/-- `NewEngine` on the status file of the last engine. -/
def newEngine (descriptor : Descriptor) (file : Option (List Char)) (now : String) : Engine :=
  let revision := match readStatus file descriptor.summaryLimit with
    | none => descriptor.syncRevisionFloor
    | some previous =>
      if previous.identity = id ∧ descriptor.syncRevisionFloor < previous.syncRevision then
        previous.syncRevision
      else descriptor.syncRevisionFloor
  { descriptor := descriptor
    syncRevision := revision
    status := ⟨.restoring, descriptor.mode, id.repositoryID, id.assignmentID, id.environmentID, id.helperID,
      id.helperGeneration, descriptor.warningRevision, descriptor.policyRevision, revision, "", "", "", 0, 0,
      "", "", "", 0, none, none, now, [], [], "", []⟩
    waiting := false }

/-- The first engine. -/
def new (descriptor : Descriptor) (now : String) : State := ⟨newEngine id descriptor none now, none, 0, []⟩

/-- `report`: the file is written before the status is sent. -/
def State.report (s : State) (engine : Engine) (written : Bool) : State where
  engine := engine
  file := (writeStatus engine.status engine.descriptor.summaryLimit written).orElse fun _ => s.file
  restarts := s.restarts
  reported := s.reported ++ [(s.restarts, engine.status.syncRevision)]

/-- The engine in the first half of `syncNow`, and in the second. -/
def Engine.attempt (e : Engine) (now : String) : Engine :=
  { e with
    syncRevision := increment e.syncRevision, waiting := true
    status := { e.status with
      state := .syncing, lastAttemptAt := some now, updatedAt := now
      syncRevision := increment e.syncRevision } }

@[inherit_doc Engine.attempt]
def Engine.finish (e : Engine) (result : SyncResult) (d : Diagnostics) (now : String) : Engine :=
  { e with status := e.status.finish result d now, waiting := false }

/-- One step. -/
def step (s : State) : Event → Option (State)
  | .attempt now written =>
    if s.engine.waiting then none else some (s.report (s.engine.attempt now) written)
  | .finish result d now written =>
    if s.engine.waiting then some (s.report (s.engine.finish result d now) written) else none
  | .restart descriptor now =>
    some { s with engine := newEngine id descriptor s.file now, restarts := s.restarts + 1 }

/-- `WriteStatus` returns nil. -/
def writes (s : State) : Event → Bool
  | .attempt now written =>
    written && (s.engine.attempt now).status.validate s.engine.descriptor.summaryLimit
  | .finish result d now written =>
    written && (s.engine.finish result d now).status.validate s.engine.descriptor.summaryLimit
  | .restart _ _ => true

/-- A status that `ReadStatus` takes as well: its JSON is not too large, and its paths are not too long
when every byte that is no character has become a replacement character. -/
def Status.readable (s : Status) : Bool :=
  byteLength s.encode ≤ maxControlResponseBytes &&
    (s.skipped ++ s.conflicts).all fun item => byteLength (sanitize (trimSpace item.path)) ≤ 512

/-- The reports are readable, and the limit on the lists does not become smaller. -/
def fits (s : State) : Event → Bool
  | .attempt now _ => (s.engine.attempt now).status.readable
  | .finish result d now _ => (s.engine.finish result d now).status.readable
  | .restart descriptor _ => s.engine.descriptor.summaryLimit ≤ descriptor.summaryLimit

variable {id} {s s' : State} {status : Status}

lemma finish_spec (status : Status) (result : SyncResult) (d : Diagnostics) (now : String) :
    (status.finish result d now).identity = status.identity ∧
      (status.finish result d now).syncRevision = status.syncRevision := by
  obtain ⟨remote, landed, error⟩ := result
  unfold Status.finish Status.outcome
  grind [Status.identity]

lemma Status.bounded_of_validate {limit : ℤ} (h : status.validate limit = true) :
    status.bounded = true := by
  simp only [validate, Bool.and_eq_true] at h
  exact h.1.1.1.1.1.1.1.1.2

lemma Status.syncRevision_nonneg {limit : ℤ} (h : status.validate limit = true) :
    0 ≤ status.syncRevision := by
  have hbounded := bounded_of_validate h
  simp only [bounded, Bool.and_eq_true, decide_eq_true_eq] at hbounded
  exact hbounded.1.1.1.1.1.1.1.1.1.1.1

lemma trimSpace_sanitize (path : GoString) :
    trimSpace (ofText (sanitize path)) = ofText (sanitize (trimSpace path)) := by
  have hspace : ((fun r : Char ⊕ UInt8 => r.elim Rules.isSpace fun _ => false) ∘
      fun r : Char ⊕ UInt8 => .inl (rune r)) = fun r => r.elim Rules.isSpace fun _ => false := by
    funext r
    cases r with
    | inl => rfl
    | inr => exact (by decide : Rules.isSpace '�' = false)
  simp only [trimSpace, ofText_sanitize, dropWhile_map, ← map_reverse, hspace]

/-- A path that is accepted when it is written is accepted when it is read, unless it has become too
long. -/
lemma Summary.validate_sanitized {item : Summary} (h : item.validate = true)
    (hlength : byteLength (sanitize (trimSpace item.path)) ≤ 512) : item.sanitized.validate = true := by
  have hsize : ∀ t, goLength (ofText t) = byteLength t := by
    simp [goLength, ofText, byteLength, Function.comp_def]
  simp only [Summary.validate, Summary.sanitized, safeRelativeStatusPath, trimSpace_sanitize,
    Apply.sanitize_ofText, hsize, Bool.and_eq_true] at h ⊢
  refine ⟨⟨⟨?_, h.1.1.2⟩, h.1.2⟩, h.2⟩
  have hpath := of_decide_eq_true h.1.1.1
  exact decide_eq_true ⟨hpath.1, hlength, hpath.2.2⟩

/-- What `WriteStatus` accepts, `ReadStatus` accepts with a limit that is not smaller, if it is
readable. -/
lemma readStatus_encode {limit limit' : ℤ} (h : status.validate limit = true)
    (hreadable : status.readable = true) (hlimit : limit ≤ limit') (hle : limit' ≤ 1000) :
    readStatus (some status.encode) limit' = some status.sanitized := by
  obtain ⟨hsize, hpaths⟩ := Bool.and_eq_true_iff.mp hreadable
  have hbounded := Status.bounded_of_validate h
  simp only [Status.validate, Bool.and_eq_true] at h
  obtain ⟨⟨⟨⟨⟨⟨⟨⟨⟨hlimited, -⟩, hcode⟩, hcount⟩, hhealth⟩, hitems⟩, hactions⟩, hconflict⟩, huncertain⟩, htoken⟩ := h
  rw [all_eq_true] at hitems hpaths
  have hnatural : status.Natural := by
    simp only [Status.bounded, Bool.and_eq_true, decide_eq_true_eq] at hbounded
    obtain ⟨⟨⟨⟨⟨⟨⟨⟨⟨⟨⟨hrevision, hmanaged⟩, hpending⟩, hgeneration⟩, htoken⟩, -⟩, -⟩, -⟩, -⟩, -⟩, -⟩, -⟩ := hbounded
    refine ⟨hgeneration, hrevision, hmanaged, hpending, htoken, fun item hitem => ?_⟩
    have hitem := hitems item hitem
    simp only [Summary.validate, Bool.and_eq_true, decide_eq_true_eq] at hitem
    exact hitem.1.1.2
  have hsanitized : status.sanitized.validate limit' = true := by
    have hlimited' : status.sanitized.limited limit' = true := by
      simp only [Status.limited, Status.sanitized, length_map, Bool.and_eq_true, decide_eq_true_eq] at hlimited ⊢
      omega
    have hall : (status.sanitized.skipped ++ status.sanitized.conflicts).all Summary.validate = true := by
      simp only [Status.sanitized, ← map_append, all_map, all_eq_true]
      intro item hitem
      exact Summary.validate_sanitized (hitems item hitem) (of_decide_eq_true (hpaths item hitem))
    have hconflict' : (!(status.state = .conflict && status.sanitized.conflicts = [])) = true := by
      simpa [Status.sanitized] using hconflict
    simp only [Status.validate, Bool.and_eq_true]
    exact ⟨⟨⟨⟨⟨⟨⟨⟨⟨hlimited', hbounded⟩, hcode⟩, hcount⟩, hhealth⟩, hall⟩, hactions⟩, hconflict'⟩, huncertain⟩,
      htoken⟩
  simp [readStatus, not_lt.mpr (of_decide_eq_true hsize), decode_encode hnatural, Option.filter, hsanitized]

/-- The invariant of the runs in which files are written and accepted. -/
structure Inv (id : Identity) (s : State) : Prop where
  identity : s.engine.status.identity = id
  current : s.engine.status.syncRevision = s.engine.syncRevision
  /-- What was reported before the last restart is below the revision of a sync after it. -/
  bounded : ∀ x ∈ s.reported, x.1 ≤ s.restarts ∧ x.2 ≤ s.engine.syncRevision ∧
    (s.engine.waiting = true → x.1 < s.restarts → x.2 < s.engine.syncRevision)
  filed : s.reported ≠ [] → ∃ (status : Status) (limit : ℤ), s.file = some status.encode ∧ status.identity = id ∧
    status.validate limit = true ∧ status.readable = true ∧ limit ≤ s.engine.descriptor.summaryLimit ∧
    ∀ x ∈ s.reported, x.2 ≤ status.syncRevision
  ordered : s.reported.Pairwise fun x y => x.1 < y.1 → x.2 < y.2

/-- A report of an engine that is ahead of what was reported before the last restart. -/
lemma Inv.report (h : Inv id s) {engine : Engine} {written : Bool} (hidentity : engine.status.identity = id)
    (hcurrent : engine.status.syncRevision = engine.syncRevision)
    (hwrites : written && engine.status.validate engine.descriptor.summaryLimit)
    (hreadable : engine.status.readable = true)
    (hbounded : ∀ x ∈ s.reported, x.2 ≤ engine.syncRevision ∧ (x.1 < s.restarts → x.2 < engine.syncRevision)) :
    Inv id (s.report engine written) := by
  have hfile : (s.report engine written).file = some engine.status.encode := by
    simp [State.report, writeStatus, Bool.and_comm, hwrites]
  refine ⟨hidentity, hcurrent, ?_, fun _ => ⟨engine.status, engine.descriptor.summaryLimit, hfile, hidentity,
    (Bool.and_eq_true_iff.mp hwrites).2, hreadable, le_rfl, ?_⟩, ?_⟩
  · simp only [State.report, forall_mem_append, forall_mem_singleton]
    exact ⟨fun x hx => ⟨(h.bounded x hx).1, (hbounded x hx).1, fun _ => (hbounded x hx).2⟩, le_rfl,
      hcurrent.le, fun _ hlt => absurd hlt (lt_irrefl _)⟩
  · simp only [State.report, forall_mem_append, forall_mem_singleton]
    exact ⟨fun x hx => hcurrent ▸ (hbounded x hx).1, le_rfl⟩
  · simp only [State.report]
    refine pairwise_append.mpr ⟨h.ordered, pairwise_singleton _ _, fun x hx y hy hlt => ?_⟩
    rw [mem_singleton.mp hy] at hlt ⊢
    exact hcurrent ▸ (hbounded x hx).2 hlt

/-- A restart finds the last report. -/
lemma Inv.restart (h : Inv id s) {descriptor : Descriptor} {now : String}
    (hlimit : s.engine.descriptor.summaryLimit ≤ descriptor.summaryLimit) :
    Inv id { s with engine := newEngine id descriptor s.file now, restarts := s.restarts + 1 } := by
  have hrevision : ∀ x ∈ s.reported, x.2 ≤ (newEngine id descriptor s.file now).syncRevision := by
    intro x hx
    obtain ⟨status, limit, hfile, hidentity, hvalid, hreadable, hle', hle⟩ := h.filed (ne_nil_of_mem hx)
    have hread := readStatus_encode hvalid hreadable (hle'.trans hlimit) descriptor.summaryLimit_le
    have hidentity' : status.sanitized.identity = id := hidentity
    have hle := hle x hx
    simp only [newEngine, hfile, hread, hidentity', true_and]
    split
    · exact hle
    · next hnot => exact hle.trans (not_lt.mp hnot)
  refine ⟨rfl, rfl, fun x hx => ⟨(h.bounded x hx).1.trans (Nat.le_succ _), hrevision x hx, nofun⟩, fun hne => ?_,
    h.ordered⟩
  obtain ⟨status, limit, hfile, hidentity, hvalid, hreadable, hle', hle⟩ := h.filed hne
  exact ⟨status, limit, hfile, hidentity, hvalid, hreadable, hle'.trans hlimit, hle⟩

/-- In every run in which `WriteStatus` returns nil, all reports are readable and the limit on the lists
does not become smaller, the revisions reported after a restart are greater than those reported before
it. -/
theorem sync_revisions_increase {descriptor : Descriptor} {now : String} {events : List Event}
    (hmeets : Meets (step id) (fun s e => writes s e && fits s e) (new id descriptor now) events)
    (hrun : run (step id) (new id descriptor now) events = some s) :
    s.reported.Pairwise fun x y => x.1 < y.1 → x.2 < y.2 := by
  have hkeeps : KeepsUnder (step id) (fun s e => writes s e && fits s e) (Inv id) := by
    intro s e s' h hcond hstep
    obtain ⟨hwrites, hfits⟩ := Bool.and_eq_true_iff.mp hcond
    cases e with
    | attempt =>
      cases (Option.ite_none_left_eq_some.mp hstep).2
      have hincrement : increment s.engine.syncRevision = s.engine.syncRevision + 1 := by
        -- a revision that wraps around is not valid
        have hvalid : 0 ≤ increment s.engine.syncRevision :=
          Status.syncRevision_nonneg (Bool.and_eq_true_iff.mp hwrites).2
        unfold increment at hvalid ⊢
        split at hvalid
        · omega
        · exact if_neg ‹_›
      refine h.report h.identity rfl hwrites hfits fun x hx => ?_
      have := h.bounded x hx
      simp only [Engine.attempt, hincrement]
      omega
    | finish result d now =>
      obtain ⟨hwaiting, hstep⟩ := Option.ite_none_right_eq_some.mp hstep
      cases hstep
      obtain ⟨hidentity, hrevision⟩ := finish_spec s.engine.status result d now
      refine h.report (hidentity.trans h.identity) (hrevision.trans h.current) hwrites hfits fun x hx => ?_
      exact ⟨(h.bounded x hx).2.1, (h.bounded x hx).2.2 hwaiting⟩
    | restart =>
      cases hstep
      exact h.restart (of_decide_eq_true hfits)
  exact (hkeeps.run ⟨rfl, rfl, by simp [new], fun hne => absurd rfl hne, .nil⟩ hmeets hrun).ordered

/-- An engine. -/
def engineID : Identity := ⟨"r", "a", "e", "h", 1⟩

/-- Its descriptor. -/
def descriptor : Descriptor := ⟨.bidirectional, "w", "p", 0, 1000, le_rfl⟩

/-- A sync that lands and skips some files, and a restart before the next sync. -/
def skipping (skipped : List Summary) : List Event :=
  [.attempt "2026-01-01T00:00:01Z" true,
    .finish ⟨"1", true, none⟩ ⟨skipped, [], "healthy", "", 1, 0, "", ""⟩ "2026-01-01T00:00:02Z" true,
    .restart descriptor "2026-01-01T00:00:03Z", .attempt "2026-01-01T00:00:04Z" true]

/-- The state before the first sync. -/
def fresh : State := new engineID descriptor "2026-01-01T00:00:00Z"

/-- One skipped file: the restart reads the status back. -/
theorem sync_revisions_increase_once : ∃ s, run (step engineID) fresh
      (skipping [⟨[.inl 'a'], 0, "special_file", ""⟩]) = some s ∧ s.reported = [(0, 1), (0, 1), (1, 2)] ∧
        s.reported.Pairwise fun x y => x.1 < y.1 → x.2 < y.2 :=
  exists_and_of_any (by decide +kernel) fun _ hs => sync_revisions_increase (by decide +kernel) hs

/-- Many files with names of 512 bytes. -/
def manySkipped : List Summary :=
  List.replicate 130 ⟨List.replicate 128 (.inl '😀'), 0, "special_file", ""⟩

/-- Every `WriteStatus` returns nil, but the file is too large for `ReadStatus`: the revision of the
sync before the restart is reported again. -/
theorem revision_reported_twice :
    Meets (step engineID) (fun s e => writes s e) fresh (skipping manySkipped) ∧
      (run (step engineID) fresh (skipping manySkipped)).map State.reported =
        some [(0, 1), (0, 1), (1, 1)] := by
  decide +kernel

end Paperboat.ConfigSync.Reporting

import Paperboat.FileTransfer.Table
import Paperboat.Lib.Threads

/-!
# The file-transfer service

The model of `internal/filetransfer/service.go`. An operation of the service is a program whose calls
are the statements on the table of transfers, the calls to the file system and the two kinds of locks.
Every call is atomic and can fail, and the operations run in parallel.

The files of a transfer are one file under up to three names, found by the ID, since IDs are never used
twice. An open file is written even when it has been renamed or removed. A body is the list of what its
reads return.
-/

namespace Paperboat.Transfer

/-! ### Files and locks -/

/-- The names of a file: `partialPath`, `contentPath` and `publishedPath`. -/
inductive Kind where
  | part
  | content
  | published
  deriving DecidableEq

/-- A file: its bytes, and which of its names exist. -/
structure File where
  data : List UInt8
  has : Kind → Bool

/-- The keys of `Service.locks`. -/
inductive Lock where
  | transfer (id : String)
  | batch (batchID : String)
  deriving DecidableEq

/-- The table, the files and the locks with the threads that hold them.

The service does not have `expiring`: the transfers whose files a thread that runs `CleanupExpired`
may remove before it marks them as expired. -/
structure State where
  table : Table
  files : FinMap String File
  locks : FinMap Lock ℕ
  expiring : FinMap ℕ (List FileTransfer)

/-- A new installation. -/
def State.empty : State := ⟨.empty, ∅, ∅, ∅⟩

/-- `file.Truncate`, which fills up with zeros. -/
def truncated (data : List UInt8) (n : ℕ) : List UInt8 :=
  data.take n ++ List.replicate (n - data.length) 0

/-- A write at a position; nothing is written if there are no bytes. -/
def written (data : List UInt8) (pos : ℕ) (bytes : List UInt8) : List UInt8 :=
  if bytes = [] then data else truncated data pos ++ bytes ++ data.drop (pos + bytes.length)

/-! ### Calls -/

/-- What becomes of a call. -/
inductive Fate where
  | ok
  | fail
  /-- A write stops after some bytes, or `Close` fails after a file was made. -/
  | short (n : ℕ)
  deriving DecidableEq

/-- The outcomes of `os.Stat`. -/
inductive Stat where
  | found
  | notExist
  | error
  deriving DecidableEq

/-- A call. -/
inductive Call where
  | lock (key : Lock)
  | unlock (key : Lock)
  | fileTransfer (id : String)
  | fileTransfersByBatch (batchID : String)
  | createFileTransfersWithinLimits (transfers : List FileTransfer) (maxSpoolBytes maxActiveBatches : ℕ)
  | commitFileTransferOffset (id : String) (expected next : ℕ)
  | completeFileTransferBatch (batchID : String)
  | cancelFileTransferBatch (batchID : String)
  | expiredFileTransfers (now : ℕ)
  | expireFileTransfers (transfers : List FileTransfer)
  | receiptFileTransfer (id clientID resultCode receiptPath : String)
  | createFile (id : String)
  | openFile (kind : Kind) (id : String)
  | truncate (id : String) (n : ℕ)
  | write (id : String) (pos : ℕ) (bytes : List UInt8)
  | sync (id : String)
  | stat (kind : Kind) (id : String)
  | readFile (id : String)
  | rename (src dst : Kind) (id : String)
  | link (src dst : Kind) (id : String)
  | remove (kind : Kind) (id : String)
  | syncDir
  deriving DecidableEq

/-- The replies to calls; `none` and `false` stand for an error. -/
abbrev Call.Reply : Call → Type
  | lock _ | unlock _ => Unit
  | fileTransfer _ => Option FileTransfer
  | fileTransfersByBatch _ | expiredFileTransfers _ => Option (List FileTransfer)
  | createFileTransfersWithinLimits _ _ _ => Except Table.StoreError Unit
  | stat _ _ => Stat
  | readFile _ => Option (List UInt8)
  | commitFileTransferOffset _ _ _ | completeFileTransferBatch _ | cancelFileTransferBatch _ => Bool
  | expireFileTransfers _ | receiptFileTransfer _ _ _ _
  | createFile _ | openFile _ _ | truncate _ _ | write _ _ _ | sync _
  | rename _ _ _ | link _ _ _ | remove _ _ | syncDir => Bool

namespace State

variable (s : State)

/-- Whether a name exists. -/
def hasName (kind : Kind) (id : String) : Bool := (s.files.lookup id).any fun f => f.has kind

/-- Change the file of a transfer, if there is one. -/
def modifyFile (id : String) (f : File → File) : State :=
  match s.files.lookup id with
  | none => s
  | some file => { s with files := s.files.insert id (f file) }

/-- Changes of files leave the table alone. -/
@[simp] lemma modifyFile_table (id : String) (f : File → File) : (s.modifyFile id f).table = s.table := by
  unfold modifyFile
  split <;> rfl

/-- Changes of files leave the locks alone. -/
@[simp] lemma modifyFile_locks (id : String) (f : File → File) : (s.modifyFile id f).locks = s.locks := by
  unfold modifyFile
  split <;> rfl

/-- Changes of files leave the running clean-ups alone. -/
@[simp] lemma modifyFile_expiring (id : String) (f : File → File) :
    (s.modifyFile id f).expiring = s.expiring := by
  unfold modifyFile
  split <;> rfl

/-- The bytes of a file. -/
def setData (id : String) (f : List UInt8 → List UInt8) : State :=
  s.modifyFile id fun file => { file with data := f file.data }

/-- Make a name, or remove it. -/
def setName (kind : Kind) (id : String) (b : Bool) : State :=
  s.modifyFile id fun file => { file with has := Function.update file.has kind b }

end State

/-- A call of a thread. -/
def perform (i : ℕ) (s : State) : (c : Call) → Fate → Option (State × c.Reply)
  | .lock key, _ =>
    if (s.locks.lookup key).isNone then some ({ s with locks := s.locks.insert key i }, ()) else none
  | .unlock key, _ => some ({ s with locks := s.locks.erase key }, ())
  | .fileTransfer id, .ok => some (s, s.table.get id)
  | .fileTransfer _, _ => some (s, none)
  | .fileTransfersByBatch batchID, .ok => some (s, s.table.fileTransfersByBatch batchID)
  | .fileTransfersByBatch _, _ => some (s, none)
  | .createFileTransfersWithinLimits transfers maxSpoolBytes maxActiveBatches, .ok =>
    match s.table.createFileTransfersWithinLimits transfers maxSpoolBytes maxActiveBatches with
    | .ok table => some ({ s with table }, .ok ())
    | .error e => some (s, .error e)
  | .createFileTransfersWithinLimits _ _ _, _ => some (s, .error .failure)
  | .commitFileTransferOffset id expected next, .ok =>
    match s.table.commitFileTransferOffset id expected next with
    | some table => some ({ s with table }, true)
    | none => some (s, false)
  | .commitFileTransferOffset _ _ _, _ => some (s, false)
  | .completeFileTransferBatch batchID, .ok =>
    match s.table.completeFileTransferBatch batchID with
    | some table => some ({ s with table }, true)
    | none => some (s, false)
  | .completeFileTransferBatch _, _ => some (s, false)
  | .cancelFileTransferBatch batchID, .ok =>
    some ({ s with table := (s.table.cancelFileTransferBatch batchID).1 },
      (s.table.cancelFileTransferBatch batchID).2)
  | .cancelFileTransferBatch _, _ => some (s, false)
  | .expiredFileTransfers now, .ok =>
    some ({ s with expiring := s.expiring.insert i (s.table.expiredFileTransfers now) },
      some (s.table.expiredFileTransfers now))
  | .expiredFileTransfers _, _ => some (s, none)
  | .expireFileTransfers transfers, .ok =>
    some ({ s with table := s.table.expireFileTransfers transfers, expiring := s.expiring.erase i }, true)
  | .expireFileTransfers _, _ => some ({ s with expiring := s.expiring.erase i }, false)
  | .receiptFileTransfer id clientID resultCode receiptPath, .ok =>
    match s.table.receiptFileTransfer id clientID resultCode receiptPath with
    | some table => some ({ s with table }, true)
    | none => some (s, false)
  | .receiptFileTransfer _ _ _ _, _ => some (s, false)
  -- `O_CREATE|O_EXCL` and `Close`
  | .createFile id, .ok =>
    if (s.files.lookup id).isNone then
      some ({ s with files := s.files.insert id ⟨[], fun kind => kind = .part⟩ }, true)
    else some (s, false)
  | .createFile id, .short _ =>
    if (s.files.lookup id).isNone then
      some ({ s with files := s.files.insert id ⟨[], fun kind => kind = .part⟩ }, false)
    else some (s, false)
  | .createFile _, .fail => some (s, false)
  | .openFile kind id, .ok => some (s, s.hasName kind id)
  | .openFile _ _, _ => some (s, false)
  | .truncate id n, .ok => some (s.setData id (truncated · n), true)
  | .truncate _ _, _ => some (s, false)
  | .write id pos bytes, .ok => some (s.setData id (written · pos bytes), true)
  | .write id pos bytes, .short n => some (s.setData id (written · pos (bytes.take n)), false)
  | .write _ _ _, .fail => some (s, false)
  | .sync _, .ok => some (s, true)
  | .sync _, _ => some (s, false)
  | .stat kind id, .ok => some (s, if s.hasName kind id then .found else .notExist)
  | .stat _ _, _ => some (s, .error)
  | .readFile id, .ok => some (s, (s.files.lookup id).map (·.data))
  | .readFile _, _ => some (s, none)
  | .rename src dst id, .ok =>
    if s.hasName src id then
      -- two names of one file are left as they are
      if s.hasName dst id then some (s, true)
      else some ((s.setName src id false).setName dst id true, true)
    else some (s, false)
  | .rename _ _ _, _ => some (s, false)
  -- a link that is there already counts as made
  | .link src dst id, .ok =>
    if s.hasName src id then some (s.setName dst id true, true) else some (s, false)
  | .link _ _ _, _ => some (s, false)
  -- a file that is not there counts as removed
  | .remove kind id, .ok => some (s.setName kind id false, true)
  | .remove _ _, _ => some (s, false)
  | .syncDir, .ok => some (s, true)
  | .syncDir, _ => some (s, false)

/-- The calls that have no effect unless they succeed. -/
def Call.atomic : Call → Bool
  | .lock _ | .unlock _ | .expireFileTransfers _ | .createFile _ | .write _ _ _ => false
  | _ => true

/-- The reply of a call that fails without an effect. -/
def Call.refusal : (c : Call) → c.Reply
  | .lock _ | .unlock _ => ()
  | .fileTransfer _ | .fileTransfersByBatch _ | .expiredFileTransfers _ | .readFile _ => none
  | .createFileTransfersWithinLimits _ _ _ => .error .failure
  | .stat _ _ => .error
  | .commitFileTransferOffset _ _ _ | .completeFileTransferBatch _ | .cancelFileTransferBatch _
  | .expireFileTransfers _ | .receiptFileTransfer _ _ _ _ | .createFile _ | .openFile _ _ | .truncate _ _
  | .write _ _ _ | .sync _ | .rename _ _ _ | .link _ _ _ | .remove _ _ | .syncDir => false

/-- An atomic call that does not succeed has no effect. -/
lemma perform_of_ne_ok {c : Call} (hc : c.atomic = true) {f : Fate} (hf : f ≠ .ok) (i : ℕ) (s : State) :
    perform i s c f = some (s, c.refusal) := by
  cases c <;> cases f <;> first | rfl | exact absurd rfl hf | cases hc

/-- The calls that change nothing. -/
def Call.reads : Call → Bool
  | .fileTransfer _ | .fileTransfersByBatch _ | .openFile _ _ | .sync _ | .stat _ _ | .readFile _
  | .syncDir => true
  | _ => false

/-- A call that only reads leaves the state as it is, whatever becomes of it. -/
lemma eq_of_reads {c : Call} (hc : c.reads = true) {i : ℕ} {s s' : State} {f : Fate} {r : c.Reply}
    (h : perform i s c f = some (s', r)) : s' = s := by
  cases c with
  | fileTransfer id | fileTransfersByBatch batchID | openFile kind id | sync id | stat kind id
  | readFile | syncDir => cases f <;> exact (Prod.mk.inj (Option.some.inj h)).1.symm
  | _ => cases hc

/-- The helper stops and starts again. -/
def State.restart (s : State) : State := { s with locks := ∅, expiring := ∅ }

/-! ### Create -/

/-- `Code`, and the errors that the service passes on as they are. -/
inductive Code where
  | invalidPath
  | invalidSize
  | batchLimit
  | offsetConflict
  | digestMismatch
  | storageUnavailable
  | resourceLimit
  | canceled
  /-- An error of the store. -/
  | store
  deriving DecidableEq

/-- The limits of a `Policy`. -/
structure Policy where
  maxFileBytes : ℕ
  maxBatchFiles : ℕ
  maxBatchBytes : ℕ
  maxConcurrentTransfers : ℕ
  retentionSeconds : ℕ
  deliveryTimeoutSeconds : ℕ
  maxPendingSpoolBytes : ℕ
  deriving DecidableEq

/-- `DefaultPolicy`. -/
def defaultPolicy : Policy where
  maxFileBytes := 52428800
  maxBatchFiles := 10
  maxBatchBytes := 524288000
  maxConcurrentTransfers := 2
  retentionSeconds := 604800
  deliveryTimeoutSeconds := 600
  maxPendingSpoolBytes := 1073741824

/-- `Policy.Valid`. -/
def Policy.Valid (p : Policy) : Prop :=
  0 < p.maxFileBytes ∧ p.maxFileBytes ≤ 52428800 ∧ 0 < p.maxBatchFiles ∧ p.maxBatchFiles ≤ 10 ∧
    p.maxFileBytes ≤ p.maxBatchBytes ∧ p.maxBatchBytes ≤ 524288000 ∧ 0 < p.maxConcurrentTransfers ∧
    p.maxConcurrentTransfers ≤ 2 ∧ 0 < p.retentionSeconds ∧ 0 < p.deliveryTimeoutSeconds ∧
    p.maxBatchBytes ≤ p.maxPendingSpoolBytes

instance (p : Policy) : Decidable p.Valid := inferInstanceAs (Decidable (_ ∧ _))

/-- `File` of a request. -/
structure SourceFile where
  basename : String
  size : ℤ
  sha256 : String
  deriving DecidableEq

/-- `CreateRequest`. -/
structure CreateRequest where
  batchID : String
  direction : String
  sessionID : String
  clientID : String
  files : List SourceFile
  deriving DecidableEq

/-- `validBasename`. -/
def validBasename (value : String) : Bool :=
  value ≠ "" && value.utf8ByteSize ≤ 255 && value ≠ "." && value ≠ ".." &&
    value.toList.all fun c => c ≠ '/' && c ≠ '\\' && c ≠ Char.ofNat 0

/-- `validDigest`. -/
def validDigest (value : String) : Bool :=
  value.utf8ByteSize = 64 && value.toList.all fun c => c.isDigit || 'a' ≤ c && c ≤ 'f'

/-- A digest of sixty-four equal digits. -/
def digits (c : Char) : String := String.ofList (List.replicate 64 c)

/-- A digest function that tells one file from all others. -/
def sampleDigest (data : List UInt8) : String := if data = [7] then digits '0' else digits '1'

/-- The two directions. -/
def parseDirection (value : String) : Option Direction :=
  if value = "pb_to_pbh" then some .pbToPbh
  else if value = "pbh_to_pb" then some .pbhToPb
  else none

/-- The deadline of a new transfer, in nanoseconds. -/
def expiry (policy : Policy) (direction : Direction) (now : ℕ) : ℕ :=
  match direction with
  | .pbToPbh => now + policy.retentionSeconds * 1000000000
  | .pbhToPb => now + policy.deliveryTimeoutSeconds * 1000000000

/-- The loop of `Create` over the files of a request; `ids` are the random IDs. -/
def newTransfers (policy : Policy) (now : ℕ) (input : CreateRequest) (direction : Direction) :
    (total : ℤ) → (ids : List String) → List SourceFile → Except Code (List FileTransfer)
  | _, _, [] => .ok []
  | total, ids, file :: files =>
    if !validBasename file.basename then .error .invalidPath
    else if file.size < 0 ∨ (policy.maxFileBytes : ℤ) < file.size then .error .invalidSize
    else if !validDigest file.sha256 then .error .digestMismatch
    else if (policy.maxBatchBytes : ℤ) < total + file.size then .error .batchLimit
    else
      match ids.head? with
      | none => .error .storageUnavailable
      | some id =>
        match newTransfers policy now input direction (total + file.size) ids.tail files with
        | .error e => .error e
        | .ok transfers => .ok ({
            id := id
            batchID := input.batchID
            direction := direction
            sessionID := input.sessionID
            clientID := input.clientID
            basename := file.basename
            size := file.size.toNat
            sha256 := file.sha256
            committedOffset := 0
            state := .created
            resultCode := ""
            receiptPath := ""
            createdAt := now
            expiresAt := expiry policy direction now } :: transfers)

/-- The checks of `Create`, and the rows that it inserts. -/
def checkRequest (policy : Policy) (now : ℕ) (ids : List String) (input : CreateRequest) :
    Except Code (List FileTransfer) :=
  if input.batchID = "" ∨ input.sessionID = "" ∨ input.clientID = "" then .error .invalidPath
  else
    match parseDirection input.direction with
    | none => .error .invalidPath
    | some direction =>
      if input.files.length < 1 ∨ policy.maxBatchFiles < input.files.length then .error .batchLimit
      else newTransfers policy now input direction 0 ids input.files

/-- A program of the service. -/
abbrev Service (α : Type) : Type := Prog Call.Reply α

/-- Make a call. -/
abbrev request (c : Call) : Service c.Reply := Prog.request c

/-- The removals of `cancelBatchLocked` and `CleanupExpired`: whether all of them succeed. -/
def removeFiles : List FileTransfer → Service Bool
  | [] => pure true
  | transfer :: transfers => do
    let part ← request (.remove .part transfer.id)
    let content ← request (.remove .content transfer.id)
    let published ← request (.remove .published transfer.id)
    let rest ← removeFiles transfers
    return part && content && published && rest

/-- `cancelBatchLocked`: whether it returns no error. -/
def cancelBatchLocked (transfers : List FileTransfer) : Service Bool := do
  let marked ← match transfers with
    | [] => pure true
    | transfer :: _ => request (.cancelFileTransferBatch transfer.batchID)
  let removed ← removeFiles transfers
  let synced ← request .syncDir
  return marked && removed && synced

/-- `cancelBatch`. -/
def cancelBatch : List FileTransfer → Service Bool
  | [] => pure true
  | transfer :: transfers => do
    request (.lock (.batch transfer.batchID))
    let result ← cancelBatchLocked (transfer :: transfers)
    request (.unlock (.batch transfer.batchID))
    return result

/-- The partial files of `Create`: whether all of them are made. -/
def createFiles : List FileTransfer → Service Bool
  | [] => pure true
  | transfer :: transfers => do
    if ← request (.createFile transfer.id) then createFiles transfers else return false

/-- `Create`. -/
def create (policy : Policy) (now : ℕ) (ids : List String) (input : CreateRequest) :
    Service (Except Code (List FileTransfer)) := do
  match checkRequest policy now ids input with
  | .error e => return .error e
  | .ok transfers =>
    match ← request (.createFileTransfersWithinLimits transfers policy.maxPendingSpoolBytes
        policy.maxConcurrentTransfers) with
    | .error .conflict => return .error .resourceLimit
    | .error .failure => return .error .storageUnavailable
    | .ok () =>
      let made ← createFiles transfers
      let synced ← if made then request .syncDir else pure false
      if synced then return .ok transfers
      let _ ← cancelBatch transfers
      return .error .storageUnavailable

/-! ### Append -/

/-- What one read of a body returns. -/
structure Read where
  data : List UInt8
  error : Bool
  deriving DecidableEq

/-- `io.Copy` from a limited body to the file, from a position on: the number of bytes, or `none` for
an error. -/
def copy (id : String) : (pos limit total : ℕ) → List Read → Service (Option ℕ)
  | _, _, total, [] => pure (some total)
  | pos, limit, total, read :: body => do
    if limit = 0 then return some total
    let data := read.data.take limit
    let stored ← if data = [] then pure true else request (.write id pos data)
    if !stored || read.error then return none
    copy id (pos + data.length) (limit - data.length) (total + data.length) body

/-- `Append` under the lock of the transfer. -/
def appendLocked (id : String) (offset : ℤ) (body : List Read) :
    Service (Except Code FileTransfer) := do
  match ← request (.fileTransfer id) with
  | none => return .error .invalidPath
  | some transfer =>
    if transfer.state = .canceled then return .error .canceled
    if offset ≠ transfer.committedOffset then return .error .offsetConflict
    let opened ← request (.openFile .part id)
    if !opened then return .error .storageUnavailable
    let cut ← request (.truncate id transfer.committedOffset)
    if !cut then return .error .storageUnavailable
    let remaining := transfer.size - transfer.committedOffset
    match ← copy id transfer.committedOffset (remaining + 1) 0 body with
    | none => return .error .storageUnavailable
    | some total =>
      if remaining < total then
        let _ ← request (.truncate id transfer.committedOffset)
        return .error .invalidSize
      let synced ← request (.sync id)
      if !synced then return .error .storageUnavailable
      let committed ← request (.commitFileTransferOffset id transfer.committedOffset
        (transfer.committedOffset + total))
      if !committed then return .error .offsetConflict
      return .ok { transfer with
        committedOffset := transfer.committedOffset + total
        state := .uploading }

/-- `Append`. -/
def append (id : String) (offset : ℤ) (body : List Read) : Service (Except Code FileTransfer) := do
  request (.lock (.transfer id))
  let result ← appendLocked id offset body
  request (.unlock (.transfer id))
  return result

/-! ### Complete -/

/-- `Store.FileTransfer`, as the last thing that an operation does. -/
def readBack (id : String) : Service (Except Code FileTransfer) := do
  match ← request (.fileTransfer id) with
  | none => return .error .store
  | some transfer => return .ok transfer

section
variable (sha256 : List UInt8 → String)

/-- The loop of `Complete` that checks the bytes of every file of the batch: the error, if any. -/
def verify (batch : List FileTransfer) : List FileTransfer → Service (Option Code)
  | [] => pure none
  | transfer :: transfers => do
    if transfer.committedOffset ≠ transfer.size ∨ !transfer.state.isOpen then return some .invalidSize
    let stat ← request (.stat .part transfer.id)
    let kind := if stat = .notExist then Kind.content else Kind.part
    let opened ← request (.openFile kind transfer.id)
    if !opened then return some .storageUnavailable
    match ← request (.readFile transfer.id) with
    | none => return some .storageUnavailable
    | some data =>
      if data.length ≠ transfer.size ∨ sha256 data ≠ transfer.sha256 then
        let _ ← cancelBatchLocked batch
        return some .digestMismatch
      verify batch transfers

/-- The renames of `Complete`, undone. -/
def undoRenames : List FileTransfer → Service Unit
  | [] => pure ()
  | transfer :: transfers => do
    let _ ← request (.rename .content .part transfer.id)
    undoRenames transfers

/-- The loop of `Complete` that renames the files: whether it succeeds. -/
def renameFiles : (renamed : List FileTransfer) → List FileTransfer → Service Bool
  | _, [] => pure true
  | renamed, transfer :: transfers => do
    let stat ← request (.stat .content transfer.id)
    if stat = .found then renameFiles renamed transfers
    else
      let moved ← request (.rename .part .content transfer.id)
      if moved then renameFiles (transfer :: renamed) transfers
      else
        undoRenames renamed
        return false

/-- What `Complete` does with the rows of the batch. -/
def completeRows (id batchID : String) (transfers : List FileTransfer) :
    Service (Except Code FileTransfer) :=
  if transfers.all fun transfer => transfer.state.isTerminal then readBack id
  else do
    match ← verify sha256 transfers transfers with
    | some e => return .error e
    | none =>
      let renamed ← renameFiles [] transfers
      if !renamed then return .error .storageUnavailable
      let synced ← request .syncDir
      if !synced then return .error .storageUnavailable
      let completed ← request (.completeFileTransferBatch batchID)
      if !completed then return .error .storageUnavailable
      readBack id

/-- `Complete` under the lock of the batch. -/
def completeLocked (id batchID : String) : Service (Except Code FileTransfer) := do
  match ← request (.fileTransfersByBatch batchID) with
  | none => return .error .invalidPath
  | some transfers => completeRows sha256 id batchID transfers

/-- `Complete`. -/
def complete (id : String) : Service (Except Code FileTransfer) := do
  match ← request (.fileTransfer id) with
  | none => return .error .invalidPath
  | some requested =>
    request (.lock (.batch requested.batchID))
    let result ← completeLocked sha256 id requested.batchID
    request (.unlock (.batch requested.batchID))
    return result

end

/-! ### The other operations -/

/-- `Cancel` under the lock of the batch: whether it returns no error. -/
def cancelListed (batchID : String) : Service Bool := do
  match ← request (.fileTransfersByBatch batchID) with
  | none => return false
  | some transfers => cancelBatchLocked transfers

/-- `Cancel`. -/
def cancel (id : String) : Service (Except Code Unit) := do
  match ← request (.fileTransfer id) with
  | none => return .error .store
  | some transfer =>
    request (.lock (.batch transfer.batchID))
    let result ← cancelListed transfer.batchID
    request (.unlock (.batch transfer.batchID))
    return if result then .ok () else .error .store

/-- `Receipt`. -/
def receipt (id clientID resultCode receiptPath : String) : Service (Except Code Unit) := do
  let marked ← request (.receiptFileTransfer id clientID resultCode receiptPath)
  if !marked then return .error .store
  let removed ← request (.remove .content id)
  if !removed then return .error .storageUnavailable
  let synced ← request .syncDir
  return if synced then .ok () else .error .store

/-- `CleanupExpired`. -/
def cleanupExpired (now : ℕ) : Service (Except Code Unit) := do
  match ← request (.expiredFileTransfers now) with
  | none => return .error .store
  | some transfers =>
    let _ ← removeFiles transfers
    let marked ← request (.expireFileTransfers transfers)
    return if marked then .ok () else .error .store

/-- `OpenContent`: the bytes that the file has when it is read. -/
def openContent (id : String) : Service (Except Code (List UInt8)) := do
  match ← request (.fileTransfer id) with
  | none => return .error .invalidPath
  | some transfer =>
    if !transfer.state.isTerminal then return .error .invalidPath
    let opened ← request (.openFile .content id)
    if !opened then return .error .storageUnavailable
    match ← request (.readFile id) with
    | none => return .error .storageUnavailable
    | some data => return .ok data

/-- `PublishedPath`; the name that is returned is `Kind.published`. -/
def publishedPath (id : String) : Service (Except Code Unit) := do
  match ← request (.fileTransfer id) with
  | none => return .error .invalidPath
  | some transfer =>
    if transfer.direction ≠ .pbToPbh ∨ transfer.state ≠ .published then return .error .invalidPath
    let linked ← request (.link .content .published id)
    if !linked then return .error .storageUnavailable
    let contentStat ← request (.stat .content id)
    let stat ← request (.stat .published id)
    if contentStat ≠ .found ∨ stat ≠ .found then return .error .storageUnavailable
    let synced ← request .syncDir
    return if synced then .ok () else .error .storageUnavailable

/-! ### The calls of the programs -/

/-- The calls that do not read the bytes of a file and change no row. -/
def Call.plain : Call → Bool
  | .createFileTransfersWithinLimits _ _ _ | .commitFileTransferOffset _ _ _
  | .completeFileTransferBatch _ | .cancelFileTransferBatch _ | .expireFileTransfers _
  | .receiptFileTransfer _ _ _ _ | .readFile _ => false
  | _ => true

section
variable {P : Call → Prop} (hP : ∀ c, c.plain = true → P c)
  (hcancel : ∀ batchID, P (.cancelFileTransferBatch batchID))

include hP

/-- The removals make plain calls only. -/
lemma makes_removeFiles (transfers : List FileTransfer) : (removeFiles transfers).Makes P := by
  induction transfers with
  | nil => trivial
  | cons t ts ih =>
    refine .request_bind (hP _ rfl) fun _ => .request_bind (hP _ rfl) fun _ => ?_
    exact .request_bind (hP _ rfl) fun _ => ih.bind fun _ => trivial

include hcancel in
/-- Cancelling a batch makes plain calls, beside the statement that marks the rows. -/
lemma makes_cancelBatchLocked (transfers : List FileTransfer) : (cancelBatchLocked transfers).Makes P := by
  have hrest : ∀ marked : Bool, Prog.Makes P (do
      let removed ← removeFiles transfers
      let synced ← request .syncDir
      return marked && removed && synced) := fun marked =>
    (makes_removeFiles hP transfers).bind fun _ => .request_bind (hP _ rfl) fun _ => trivial
  cases transfers with
  | nil => exact hrest true
  | cons => exact .request_bind (hcancel _) hrest

include hcancel in
/-- The checks of `Complete` do not read the file of a transfer that is not wholly committed. -/
lemma makes_verify (sha256 : List UInt8 → String) (batch : List FileTransfer)
    {transfers : List FileTransfer}
    (hread : ∀ t ∈ transfers, t.committedOffset = t.size → P (.readFile t.id)) :
    (verify sha256 batch transfers).Makes P := by
  induction transfers with
  | nil => trivial
  | cons t ts ih =>
    unfold verify
    split
    · trivial
    next hopen =>
    refine .request_bind (hP _ rfl) fun _ => .request_bind (hP _ rfl) fun _ => ?_
    split
    · trivial
    refine .request_bind (hread t (.head _) (not_not.mp (not_or.mp hopen).1)) fun data => ?_
    rcases data with _ | _
    · trivial
    simp only
    split
    · exact (makes_cancelBatchLocked hP hcancel batch).bind fun _ => trivial
    · exact ih fun t ht => hread t (.tail _ ht)

/-- The renames and their undoing make plain calls only. -/
lemma makes_renameFiles (renamed transfers : List FileTransfer) :
    (renameFiles renamed transfers).Makes P := by
  have hundo : ∀ l, (undoRenames l).Makes P := by
    intro l
    induction l with
    | nil => trivial
    | cons t ts ih => exact .request_bind (hP _ rfl) fun _ => ih
  induction transfers generalizing renamed with
  | nil => trivial
  | cons t ts ih =>
    unfold renameFiles
    refine .request_bind (hP _ rfl) fun _ => ?_
    split
    · exact ih renamed
    refine .request_bind (hP _ rfl) fun moved => ?_
    split
    · exact ih (t :: renamed)
    · exact (hundo renamed).bind fun _ => trivial

/-- Reading the row back is a plain call. -/
lemma makes_readBack (id : String) : (readBack id).Makes P := by
  refine .request_bind (hP _ rfl) fun transfer => ?_
  cases transfer <;> trivial

include hcancel in
/-- `Complete` reads only the files of transfers that are wholly committed. -/
lemma makes_completeRows (sha256 : List UInt8 → String) {id batchID : String}
    {transfers : List FileTransfer} (hcomplete : P (.completeFileTransferBatch batchID))
    (hread : ∀ t ∈ transfers, t.committedOffset = t.size → P (.readFile t.id)) :
    (completeRows sha256 id batchID transfers).Makes P := by
  unfold completeRows
  split
  · exact makes_readBack hP id
  refine (makes_verify hP hcancel sha256 transfers hread).bind fun e => ?_
  cases e with
  | some => trivial
  | none =>
    refine (makes_renameFiles hP [] transfers).bind fun renamed => ?_
    split
    · trivial
    refine .request_bind (hP _ rfl) fun synced => ?_
    split
    · trivial
    refine .request_bind hcomplete fun completed => ?_
    split
    · trivial
    · exact makes_readBack hP id

include hcancel in
/-- `Cancel` makes plain calls, beside the statement that marks the rows. -/
lemma makes_cancel (id : String) : (cancel id).Makes P := by
  refine .request_bind (hP _ rfl) fun transfer => ?_
  rcases transfer with _ | _
  · trivial
  refine .request_bind (hP _ rfl) fun _ => Prog.Makes.bind ?_ fun _ => .request_bind (hP _ rfl) fun _ => trivial
  refine .request_bind (hP _ rfl) fun transfers => ?_
  cases transfers with
  | none => trivial
  | some transfers => exact makes_cancelBatchLocked hP hcancel transfers

/-- `Receipt` makes plain calls, beside its statement. -/
lemma makes_receipt {id clientID resultCode receiptPath : String}
    (hreceipt : P (.receiptFileTransfer id clientID resultCode receiptPath)) :
    (receipt id clientID resultCode receiptPath).Makes P := by
  refine .request_bind hreceipt fun marked => ?_
  split
  · trivial
  refine .request_bind (hP _ rfl) fun removed => ?_
  split
  · trivial
  · exact .request_bind (hP _ rfl) fun _ => trivial

/-- `OpenContent` makes plain calls, beside the read of its file. -/
lemma makes_openContent {id : String} (hread : P (.readFile id)) : (openContent id).Makes P := by
  refine .request_bind (hP _ rfl) fun transfer => ?_
  rcases transfer with _ | _
  · trivial
  dsimp only
  split
  · trivial
  refine .request_bind (hP _ rfl) fun opened => ?_
  split
  · trivial
  refine .request_bind hread fun data => ?_
  cases data <;> trivial

end

/-! ### The service as a machine -/

/-- The operations of the service. -/
inductive Operation where
  | create (policy : Policy) (now : ℕ) (ids : List String) (input : CreateRequest)
  | append (id : String) (offset : ℤ) (body : List Read)
  | complete (id : String)
  | cancel (id : String)
  | receipt (id clientID resultCode receiptPath : String)
  | cleanupExpired (now : ℕ)
  | openContent (id : String)
  | publishedPath (id : String)
  deriving DecidableEq

/-- The results of operations. -/
inductive Answer where
  | transfers (result : Except Code (List FileTransfer))
  | transfer (result : Except Code FileTransfer)
  | bytes (result : Except Code (List UInt8))
  | done (result : Except Code Unit)
  deriving DecidableEq

/-- The program of an operation. -/
def Operation.program (sha256 : List UInt8 → String) : Operation → Service Answer
  | create policy now ids input => return .transfers (← Transfer.create policy now ids input)
  | append id offset body => return .transfer (← Transfer.append id offset body)
  | complete id => return .transfer (← Transfer.complete sha256 id)
  | cancel id => return .done (← Transfer.cancel id)
  | receipt id clientID resultCode receiptPath =>
    return .done (← Transfer.receipt id clientID resultCode receiptPath)
  | cleanupExpired now => return .done (← Transfer.cleanupExpired now)
  | openContent id => return .bytes (← Transfer.openContent id)
  | publishedPath id => return .done (← Transfer.publishedPath id)

/-- The service; `sha256` is the digest in hexadecimal digits. -/
def service (sha256 : List UInt8 → String) : Machine State Call.Reply Fate Operation Answer where
  program := Operation.program sha256
  perform := perform
  restart := State.restart

end Paperboat.Transfer

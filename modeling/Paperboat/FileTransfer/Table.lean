import Paperboat.Lib.FinMap

/-!
# The table of file transfers

The table `file_transfers` of `internal/store/store.go` and the statements that the file-transfer
service makes on it. A statement that fails leaves the table as it is; `none` stands for
`ErrConflict`. The `CHECK` constraint on the committed offset is a field of `Table`, and so is the
primary key.
-/

namespace Paperboat.Transfer

open FinMap List

/-- The `direction` of a transfer. -/
inductive Direction where
  | pbToPbh
  | pbhToPb
  deriving DecidableEq

/-- The `state` of a transfer. -/
inductive TransferState where
  | created
  | uploading
  | published
  | pending
  | delivered
  | failed
  | canceled
  deriving DecidableEq

/-- `store.FileTransfer`, a row of the table. An empty result code or receipt path is `NULL`. -/
structure FileTransfer where
  id : String
  batchID : String
  direction : Direction
  sessionID : String
  clientID : String
  basename : String
  size : ℕ
  sha256 : String
  committedOffset : ℕ
  state : TransferState
  resultCode : String
  receiptPath : String
  createdAt : ℕ
  expiresAt : ℕ
  deriving DecidableEq

/-- `state IN ('created','uploading')`. -/
def TransferState.isOpen (s : TransferState) : Bool := s = .created || s = .uploading

/-- `state IN ('created','uploading','pending')`. -/
def TransferState.isActive (s : TransferState) : Bool := s.isOpen || s = .pending

/-- `state IN ('created','uploading','published','pending')`. -/
def TransferState.isLive (s : TransferState) : Bool := s.isActive || s = .published

/-- `state IN ('published','pending','delivered')`. -/
def TransferState.isTerminal (s : TransferState) : Bool :=
  s = .published || s = .pending || s = .delivered

/-- The rows under their IDs. -/
structure Table where
  rows : FinMap String FileTransfer
  valid : ∀ id r, rows.lookup id = some r → r.id = id ∧ r.committedOffset ≤ r.size

namespace Table

/-- The table of a new database. -/
def empty : Table := ⟨∅, by simp⟩

variable (t : Table)

/-- `FileTransfer`: the row with the ID. -/
def get (id : String) : Option FileTransfer := t.rows.lookup id

/-- All the rows. -/
def all : List FileTransfer := t.rows.entries.map (·.2)

variable {r : FileTransfer}

lemma mem_all : r ∈ t.all ↔ t.get r.id = some r := by
  rw [get, lookup_eq_some_iff_mem]
  constructor
  · intro h
    obtain ⟨⟨id, r'⟩, hmem, rfl⟩ := mem_map.mp h
    have hid := (t.valid id r' ((lookup_eq_some_iff_mem _ _ _).mpr hmem)).1
    rwa [← hid] at hmem
  · exact fun h => mem_map.mpr ⟨_, h, rfl⟩

variable {id : String}

lemma id_of_get (h : t.get id = some r) : r.id = id := (t.valid id r h).1

lemma offset_le_of_get (h : t.get id = some r) : r.committedOffset ≤ r.size := (t.valid id r h).2

lemma mem_all_of_get (h : t.get id = some r) : r ∈ t.all := by rw [mem_all, t.id_of_get h, h]

/-- The new row may take the place of the old one. -/
def Replaces (r r' : FileTransfer) : Prop :=
  r'.id = r.id ∧ (r.committedOffset ≤ r.size → r'.committedOffset ≤ r'.size)

lemma Replaces.of_eq {r' : FileTransfer} (hid : r'.id = r.id)
    (hoffset : r'.committedOffset = r.committedOffset) (hsize : r'.size = r.size) : Replaces r r' :=
  ⟨hid, fun h => by rwa [hoffset, hsize]⟩

/-- `UPDATE file_transfers SET ... WHERE ...`. -/
def update (p : FileTransfer → Bool) (f : FileTransfer → FileTransfer)
    (hf : ∀ r, p r = true → Replaces r (f r)) : Table where
  rows := t.rows.mapVals fun _ r => if p r then f r else r
  valid := by
    intro id r hr
    rw [lookup_mapVals] at hr
    obtain ⟨r₀, hr₀, rfl⟩ := Option.map_eq_some_iff.mp hr
    obtain ⟨hid, hoffset⟩ := t.valid id r₀ hr₀
    by_cases hp : p r₀ = true
    · rw [if_pos hp]
      exact ⟨(hf r₀ hp).1.trans hid, (hf r₀ hp).2 hoffset⟩
    · rw [if_neg hp]
      exact ⟨hid, hoffset⟩

@[simp] lemma get_update (p : FileTransfer → Bool) (f : FileTransfer → FileTransfer)
    (hf : ∀ r, p r = true → Replaces r (f r)) (id : String) :
    (t.update p f hf).get id = (t.get id).map fun r => if p r then f r else r :=
  lookup_mapVals _ _ _

/-- `INSERT INTO file_transfers`, under the primary key and the constraints of the table. -/
def insert (r : FileTransfer) : Option Table :=
  if h : r.committedOffset ≤ r.size ∧ (t.get r.id).isNone ∧ r.size ≤ 52428800 ∧ r.sha256.length = 64 then
    some {
      rows := t.rows.insert r.id r
      valid := by
        intro id r' hr'
        rw [lookup_insert_eq] at hr'
        split at hr'
        · next hid => exact Option.some.inj hr' ▸ ⟨hid.symm, h.1⟩
        · exact t.valid id r' hr' }
  else none

/-- How many rows satisfy the condition. -/
def count (p : FileTransfer → Bool) : ℕ := t.all.countP p

/-- If every row of one kind is counted as one of another kind, they are the same rows. -/
lemma of_count_eq {t : Table} {p q : FileTransfer → Bool} {id : String} {r : FileTransfer}
    (himp : ∀ r, p r = true → q r = true) (h : t.count p = t.count q) (hr : t.get id = some r)
    (hq : q r = true) : p r = true := by
  have hsub : List.Sublist (t.all.filter p) (t.all.filter q) := monotone_filter_right t.all himp
  have heq : t.all.filter p = t.all.filter q :=
    hsub.eq_of_length (by rw [← countP_eq_length_filter, ← countP_eq_length_filter]; exact h)
  have hmem : r ∈ t.all.filter p := heq ▸ mem_filter.mpr ⟨t.mem_all_of_get hr, hq⟩
  exact (mem_filter.mp hmem).2

/-- `ORDER BY created_at,id`. -/
def byCreation (r r' : FileTransfer) : Prop :=
  r.createdAt < r'.createdAt ∨ r.createdAt = r'.createdAt ∧ r.id ≤ r'.id

instance : DecidableRel byCreation := fun r r' =>
  inferInstanceAs (Decidable (r.createdAt < r'.createdAt ∨ r.createdAt = r'.createdAt ∧ r.id ≤ r'.id))

/-- `ORDER BY expires_at,id`. -/
def byExpiry (r r' : FileTransfer) : Prop :=
  r.expiresAt < r'.expiresAt ∨ r.expiresAt = r'.expiresAt ∧ r.id ≤ r'.id

instance : DecidableRel byExpiry := fun r r' =>
  inferInstanceAs (Decidable (r.expiresAt < r'.expiresAt ∨ r.expiresAt = r'.expiresAt ∧ r.id ≤ r'.id))

/-- The rows of a batch, in order. -/
def ofBatch (batchID : String) : List FileTransfer :=
  (t.all.filter fun r => r.batchID = batchID).insertionSort byCreation

lemma mem_ofBatch {batchID : String} :
    r ∈ t.ofBatch batchID ↔ t.get r.id = some r ∧ r.batchID = batchID := by
  simp [ofBatch, mem_filter, mem_all]

/-! ### Statements -/

/-- Why a statement has no effect. -/
inductive StoreError where
  | conflict
  | failure
  deriving DecidableEq

/-- The insertions of `CreateFileTransfersWithinLimits`, in one transaction. -/
def insertAll : Table → List FileTransfer → Except StoreError Table
  | t, [] => .ok t
  | t, r :: rs =>
    if r.id = "" ∨ r.batchID = "" ∨ r.basename = "" ∨ r.committedOffset ≠ 0 then .error .conflict
    else
      match t.insert { r with state := .created, resultCode := "", receiptPath := "" } with
      | none => .error .failure
      | some t' => insertAll t' rs

/-- `CreateFileTransfersWithinLimits`. -/
def createFileTransfersWithinLimits (transfers : List FileTransfer) (maxSpoolBytes maxActiveBatches : ℕ) :
    Except StoreError Table :=
  if transfers.length < 1 ∨ 10 < transfers.length then .error .conflict
  else if 0 < maxActiveBatches ∧
      maxActiveBatches ≤ ((t.all.filter fun r => r.state.isActive).map (·.batchID)).dedup.length then
    .error .conflict
  else if 0 < maxSpoolBytes ∧
      maxSpoolBytes < ((t.all.filter fun r => r.state.isActive).map (·.size)).sum +
        (transfers.map (·.size)).sum then
    .error .conflict
  else t.insertAll transfers

/-- `FileTransfersByBatch`. -/
def fileTransfersByBatch (batchID : String) : Option (List FileTransfer) :=
  if batchID = "" ∨ t.ofBatch batchID = [] then none else some (t.ofBatch batchID)

/-- The row that `CommitFileTransferOffset` updates. -/
def uncommitted (id : String) (expected next : ℕ) (r : FileTransfer) : Bool :=
  r.id = id && r.committedOffset = expected && r.state.isOpen && next ≤ r.size

/-- `CommitFileTransferOffset`. -/
def commitFileTransferOffset (id : String) (expected next : ℕ) : Option Table :=
  if next < expected ∨ t.count (uncommitted id expected next) ≠ 1 then none
  else
    some (t.update (uncommitted id expected next)
      (fun r => { r with committedOffset := next, state := .uploading })
      (by
        intro r hr
        simp only [uncommitted, Bool.and_eq_true, decide_eq_true_eq] at hr
        exact ⟨rfl, fun _ => hr.2⟩))

/-- `CASE direction WHEN 'pb_to_pbh' THEN 'published' ELSE 'pending' END`, for the state. -/
def completedState : Direction → TransferState
  | .pbToPbh => .published
  | .pbhToPb => .pending

/-- `CASE direction WHEN 'pb_to_pbh' THEN 'published' ELSE 'pending' END`, for the result code. -/
def completedCode : Direction → String
  | .pbToPbh => "published"
  | .pbhToPb => "pending"

/-- A row of the batch that is complete and still open. -/
def ready (batchID : String) (r : FileTransfer) : Bool :=
  r.batchID = batchID && r.committedOffset = r.size && r.state.isOpen

/-- `CompleteFileTransferBatch`. -/
def completeFileTransferBatch (batchID : String) : Option Table :=
  let total := t.count fun r => r.batchID = batchID
  if total < 1 ∨ t.count (ready batchID) ≠ total then
    if t.count (fun r => r.batchID = batchID && r.state.isTerminal) = total then some t else none
  else
    some (t.update (ready batchID)
      (fun r => { r with state := completedState r.direction, resultCode := completedCode r.direction })
      fun _ _ => .of_eq rfl rfl rfl)

/-- A row of the batch that can be cancelled. -/
def cancelable (batchID : String) (r : FileTransfer) : Bool := r.batchID = batchID && r.state.isActive

/-- `CancelFileTransferBatch`: the table, and whether the statement reports success. -/
def cancelFileTransferBatch (batchID : String) : Table × Bool :=
  let total := t.count fun r => r.batchID = batchID
  if t.count (cancelable batchID) = 0 then
    (t, 0 < total ∧ t.count (fun r => r.batchID = batchID && r.state = .canceled) = total)
  else
    (t.update (cancelable batchID) (fun r => { r with state := .canceled, resultCode := "canceled" })
      fun _ _ => .of_eq rfl rfl rfl, true)

/-- A transfer that can be cancelled alone. -/
def cancelableAlone (id : String) (r : FileTransfer) : Bool := r.id = id && r.state.isActive

/-- `CancelFileTransfer`: the table, and whether the statement reports success. -/
def cancelFileTransfer (id : String) : Table × Bool :=
  if t.count (cancelableAlone id) = 0 then (t, (t.get id).any fun r => r.state = .canceled)
  else
    (t.update (cancelableAlone id) (fun r => { r with state := .canceled, resultCode := "canceled" })
      fun _ _ => .of_eq rfl rfl rfl, true)

/-- `ExpiredFileTransfers`. -/
def expiredFileTransfers (now : ℕ) : List FileTransfer :=
  ((t.all.filter fun r => r.expiresAt ≤ now && r.state.isLive).insertionSort byExpiry).take 100

/-- The update that `ExpireFileTransfers` makes for one transfer. -/
def expire (transfer : FileTransfer) : Table :=
  t.update (fun r => r.id = transfer.id && r.expiresAt ≤ transfer.expiresAt && r.state.isLive)
    (fun r => match transfer.direction with
      | .pbhToPb => { r with state := .failed, resultCode := "delivery_timeout" }
      | .pbToPbh => { r with state := .canceled, resultCode := "canceled" })
    (by
      intro r _
      cases transfer.direction <;> exact .of_eq rfl rfl rfl)

/-- `ExpireFileTransfers`. -/
def expireFileTransfers (transfers : List FileTransfer) : Table := transfers.foldl expire t

/-- The row that `ReceiptFileTransfer` updates. -/
def receivable (id clientID resultCode receiptPath : String) (r : FileTransfer) : Bool :=
  r.id = id && r.clientID = clientID && r.direction = .pbhToPb &&
    (r.state = .pending || (r.state = .delivered || r.state = .failed) && r.resultCode = resultCode &&
      r.receiptPath = receiptPath)

/-- The state after a receipt. -/
def receivedState (resultCode : String) : TransferState :=
  if resultCode = "stored" then .delivered else .failed

/-- `ReceiptFileTransfer`. -/
def receiptFileTransfer (id clientID resultCode receiptPath : String) : Option Table :=
  if resultCode = "" ∨ t.count (receivable id clientID resultCode receiptPath) ≠ 1 then none
  else
    some (t.update (receivable id clientID resultCode receiptPath)
      (fun r => { r with
        state := receivedState resultCode
        resultCode := resultCode
        receiptPath := receiptPath })
      fun _ _ => .of_eq rfl rfl rfl)

end Table

end Paperboat.Transfer

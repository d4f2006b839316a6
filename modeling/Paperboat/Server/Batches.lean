import Paperboat.FileTransfer.Spool
import Paperboat.Lib.JsonRead
import Paperboat.Operation.Steps

/-!
# Creating a batch of file transfers

`serveCollection` in `internal/server/file_transfer_http.go` creates the transfers of a batch in three
steps: `recoverBatch` looks the batch up in the table, the journal decides by the operation ID whether
its function is called, and the function inserts the rows. Nothing but the first step is about the batch
ID. `serial` is the condition under which the look-up is enough.
-/

namespace Paperboat.Server.Batches

open List Operation Transfer FinMap State

open Operation (System JournalConfig Outcome Answered SystemOK Outdates)
open Transfer (FileTransfer SourceFile CreateRequest Policy Code Statement Updates)

/-! ### The handler -/

/-- The fields of an `Authorization` that the handler uses. -/
structure Authorization where
  journalBinding : String
  clientID : String
  sessionID : String
  deriving DecidableEq

/-- `createFileTransferRequest`. -/
structure CreateInput where
  batchID : String
  direction : String
  sessionID : String
  files : List SourceFile
  deriving DecidableEq

/-- The journal, the policy of the service, `AllowDirection`, whether there is a `ResolveClient`, the two
uses of `json.Marshal`, and whether what the journal is given comes from this handler. -/
structure HandlerConfig where
  journal : JournalConfig
  policy : Policy
  allowDirection : Authorization → String → Bool
  resolves : Bool
  marshalRequest : String → CreateInput → List UInt8
  marshalResponse : String → List FileTransfer → Option (List UInt8)
  isCreation : List UInt8 → Bool

/-- Digests do not collide, a canonical request determines its batch, and no other handler has one with
the same canonical form. -/
structure HandlerConfig.Lawful (cfg : HandlerConfig) : Prop where
  sha256 : Function.Injective cfg.journal.sha256
  batch : ∀ binding input binding' input',
    cfg.journal.canonical (cfg.marshalRequest binding input) =
      cfg.journal.canonical (cfg.marshalRequest binding' input') → input.batchID = input'.batchID
  creation : ∀ binding input request,
    cfg.journal.canonical (cfg.marshalRequest binding input) = cfg.journal.canonical request →
      cfg.isCreation request = true

/-- `fileTransferErrorCode`. -/
def fileTransferErrorCode : Code → String
  | .invalidPath => "invalid_path"
  | .invalidSize => "invalid_size"
  | .batchLimit => "batch_limit"
  | .offsetConflict => "offset_conflict"
  | .digestMismatch => "digest_mismatch"
  | .storageUnavailable => "storage_unavailable"
  | .resourceLimit => "resource_limit"
  | .canceled => "canceled"
  | .store => "storage_unavailable"

lemma fileTransferErrorCode_ne (code : Code) : fileTransferErrorCode code ≠ "" := by
  cases code <;> decide

/-- What the function returns to the journal, by what `Service.Create` returns. -/
def createOutcome (cfg : HandlerConfig) (batchID : String) : Except Code (List FileTransfer) → Outcome
  | .error code => ⟨[], fileTransferErrorCode code⟩
  | .ok transfers =>
    match cfg.marshalResponse batchID transfers with
    | none => ⟨[], "storage_unavailable"⟩
    | some encoded => ⟨encoded, ""⟩

variable {cfg : HandlerConfig} {batchID : String}

/-- The checks of `serveCollection` on the headers and the body. -/
def accepts (cfg : HandlerConfig) (operationID : String) (authorization : Authorization)
    (input : CreateInput) : Bool :=
  8 ≤ operationID.utf8ByteSize && operationID.utf8ByteSize ≤ 128 && input.batchID ≠ "" &&
    input.sessionID ≠ "" &&
    (authorization.sessionID = "" || input.sessionID = authorization.sessionID) &&
    cfg.allowDirection authorization input.direction

/-- A transfer of the table is the one that a file of the request asks for. -/
def recovers (cfg : HandlerConfig) (authorization : Authorization) (input : CreateInput)
    (file : SourceFile) (transfer : FileTransfer) : Bool :=
  Transfer.parseDirection input.direction = some transfer.direction &&
    transfer.sessionID = input.sessionID &&
    (cfg.resolves || authorization.clientID = "" || transfer.clientID = authorization.clientID) &&
    transfer.basename = file.basename && (transfer.size : ℤ) = file.size &&
    transfer.sha256 = file.sha256

/-- The loop of `recoverBatch` over the files, with the transfers that are not used yet. -/
def matchFiles (p : SourceFile → FileTransfer → Bool) :
    List FileTransfer → List SourceFile → Option (List FileTransfer)
  | _, [] => some []
  | unused, file :: files =>
    match unused.find? (p file) with
    | none => none
    | some transfer => (matchFiles p (unused.erase transfer) files).map (transfer :: ·)

/-- What `recoverBatch` returns. -/
inductive Recovered where
  | absent
  | conflict
  | found (transfers : List FileTransfer)
  deriving DecidableEq

/-- `recoverBatch`, by what `Service.Batch` returns. -/
def recoverBatch (cfg : HandlerConfig) (authorization : Authorization) (input : CreateInput) :
    Option (List FileTransfer) → Recovered
  | none => .absent
  | some existing =>
    if existing.length ≠ input.files.length then .conflict
    else
      match matchFiles (recovers cfg authorization input) existing input.files with
      | none => .conflict
      | some ordered => .found ordered

/-- The matched transfers are some of those that were unused. -/
lemma perm_of_matchFiles {p : SourceFile → FileTransfer → Bool} {unused : List FileTransfer}
    {files : List SourceFile} {ordered : List FileTransfer}
    (h : matchFiles p unused files = some ordered) :
    ordered.length = files.length ∧ ∃ rest, (ordered ++ rest).Perm unused := by
  induction files generalizing unused ordered with
  | nil =>
    cases h
    exact ⟨rfl, unused, .refl _⟩
  | cons file files ih =>
    simp only [matchFiles] at h
    split at h
    · cases h
    rename_i transfer hfind
    obtain ⟨ordered', hrest, rfl⟩ := Option.map_eq_some_iff.mp h
    obtain ⟨hlength, rest, hperm⟩ := ih hrest
    refine ⟨by simp [hlength], rest, ?_⟩
    exact (hperm.cons transfer).trans (perm_cons_erase (mem_of_find?_eq_some hfind)).symm

variable {transfers : List FileTransfer} {authorization : Authorization} {input : CreateInput}
  {existing : Option (List FileTransfer)}

lemma recoverBatch_eq_found : recoverBatch cfg authorization input existing = .found transfers ↔
      ∃ l, existing = some l ∧ l.length = input.files.length ∧
        matchFiles (recovers cfg authorization input) l input.files = some transfers := by
  rcases existing with _ | l
  · simp [recoverBatch]
  simp only [recoverBatch]
  split
  · simp_all
  · split <;> simp_all

/-- A recovered batch has the rows of the table. -/
lemma perm_of_recoverBatch (h : recoverBatch cfg authorization input existing = .found transfers) :
    ∃ l, existing = some l ∧ transfers.Perm l := by
  obtain ⟨l, rfl, hlength, hordered⟩ := recoverBatch_eq_found.mp h
  obtain ⟨hfiles, rest, hperm⟩ := perm_of_matchFiles hordered
  have hnil : rest = [] := by
    have hcount := hperm.length_eq
    rw [length_append, hfiles] at hcount
    exact eq_nil_of_length_eq_zero (by omega)
  rw [hnil, append_nil] at hperm
  exact ⟨l, rfl, hperm⟩

/-- What makes a file of a request the same as a transfer of the table. -/
def fileKey (file : SourceFile) : String × ℤ × String := (file.basename, file.size, file.sha256)

/-- The same of a transfer. -/
def transferKey (transfer : FileTransfer) : String × ℤ × String :=
  (transfer.basename, transfer.size, transfer.sha256)

/-- The loop finds for every file another transfer of its key, if there are enough. -/
lemma matchFiles_iff {p : SourceFile → FileTransfer → Bool} {ok : FileTransfer → Prop} [DecidablePred ok]
    (hp : ∀ file t, p file t = true ↔ ok t ∧ transferKey t = fileKey file) (unused : List FileTransfer)
    (files : List SourceFile) : ((matchFiles p unused files).isSome ↔
      (files.map fileKey).Subperm ((unused.filter ok).map transferKey)) ∧
    ∀ ordered, matchFiles p unused files = some ordered →
      ordered.map transferKey = files.map fileKey := by
  induction files generalizing unused with
  | nil => simp [matchFiles]
  | cons file files ih =>
    rw [matchFiles]
    split
    · next hnone =>
      refine ⟨iff_of_false (by simp) fun hsub => ?_, nofun⟩
      obtain ⟨t, ht, hkey⟩ := mem_map.mp (hsub.subset mem_cons_self)
      obtain ⟨hmem, hok⟩ := mem_filter.mp ht
      exact find?_eq_none.mp hnone t hmem ((hp file t).mpr ⟨of_decide_eq_true hok, hkey⟩)
    · next t hfind =>
      obtain ⟨hok, hkey⟩ := (hp file t).mp (find?_some hfind)
      have hperm : ((unused.filter ok).map transferKey).Perm
          (fileKey file :: ((unused.erase t).filter ok).map transferKey) := by
        have h := ((perm_cons_erase (mem_of_find?_eq_some hfind)).filter ok).map transferKey
        rwa [filter_cons_of_pos (by simpa), map_cons, hkey] at h
      obtain ⟨hiff, hkeys⟩ := ih (unused.erase t)
      constructor
      · rw [Option.isSome_map, hiff, map_cons, hperm.subperm_left, subperm_cons]
      · intro ordered h
        obtain ⟨ordered, hrest, rfl⟩ := Option.map_eq_some_iff.mp h
        rw [map_cons, map_cons, hkey, hkeys ordered hrest]

/-- A transfer of the table belongs to the same batch of the same owner as the request. -/
def belongs (cfg : HandlerConfig) (authorization : Authorization) (input : CreateInput)
    (transfer : FileTransfer) : Prop :=
  Transfer.parseDirection input.direction = some transfer.direction ∧
    transfer.sessionID = input.sessionID ∧
    (cfg.resolves = false → transfer.clientID = authorization.clientID)
  deriving Decidable

/-- `recoverBatch` finds exactly the batches of the request, and returns their transfers in its order.
A request without a client ID is refused before, unless the clients are resolved. -/
theorem recoverBatch_found_iff (existing : List FileTransfer)
    (hclient : authorization.clientID = "" → cfg.resolves = true) :
    ((∃ ordered, recoverBatch cfg authorization input (some existing) = .found ordered) ↔
      (∀ t ∈ existing, belongs cfg authorization input t) ∧
        (input.files.map fileKey).Perm (existing.map transferKey)) ∧
    ∀ ordered, recoverBatch cfg authorization input (some existing) = .found ordered →
      ordered.Perm existing ∧ ordered.map transferKey = input.files.map fileKey := by
  have hp : ∀ file t, recovers cfg authorization input file t = true ↔
      belongs cfg authorization input t ∧ transferKey t = fileKey file := by
    simp only [recovers, transferKey, fileKey, belongs, Prod.mk.injEq]
    grind
  obtain ⟨hsome, hkeys⟩ := matchFiles_iff hp existing input.files
  simp only [recoverBatch_eq_found, Option.some.injEq, exists_eq_left']
  refine ⟨?_, fun ordered h => ?_⟩
  · rw [exists_and_left, ← Option.isSome_iff_exists, hsome]
    constructor
    · rintro ⟨hlength, hsub⟩
      have hle := hsub.length_le
      have hfilter := length_filter_le (belongs cfg authorization input) existing
      rw [length_map, length_map] at hle
      have hall := length_filter_eq_length_iff.mp (hfilter.antisymm (hlength ▸ hle))
      rw [filter_eq_self.mpr hall] at hsub
      exact ⟨fun t ht => of_decide_eq_true (hall t ht), hsub.perm_of_length_le (by simp [hlength])⟩
    · rintro ⟨hall, hperm⟩
      rw [filter_eq_self.mpr fun t ht => decide_eq_true (hall t ht)]
      exact ⟨by simpa using hperm.length_eq.symm, hperm.subperm⟩
  · obtain ⟨_, ⟨⟩, hperm⟩ := perm_of_recoverBatch (recoverBatch_eq_found.mpr ⟨existing, rfl, h⟩)
    exact ⟨hperm, hkeys ordered h.2⟩

/-! ### The rows of a batch -/

/-- The IDs of the transfers. -/
def ids (transfers : List FileTransfer) : List String := transfers.map (·.id)

lemma nodup_ids_ofBatch (t : Transfer.Table) (batchID : String) : (ids (t.ofBatch batchID)).Nodup := by
  have hnodup : (t.ofBatch batchID).Nodup :=
    (perm_insertionSort _ _).nodup_iff.mpr ((nodup_all t).filter _)
  refine hnodup.map_on fun r hr r' hr' heq => ?_
  have hget := (t.mem_ofBatch.mp hr).1
  rw [heq] at hget
  exact Option.some.inj (hget.symm.trans (t.mem_ofBatch.mp hr').1)

variable {t : Transfer.Table}

lemma mem_ids_ofBatch {id : String} :
    id ∈ ids (t.ofBatch batchID) ↔ ∃ r, t.get id = some r ∧ r.batchID = batchID := by
  simp only [ids, mem_map, Transfer.Table.mem_ofBatch]
  constructor
  · rintro ⟨r, ⟨hget, hbatch⟩, rfl⟩
    exact ⟨r, hget, hbatch⟩
  · rintro ⟨r, hget, hbatch⟩
    exact ⟨r, ⟨(t.id_of_get hget).symm ▸ hget, hbatch⟩, t.id_of_get hget⟩

variable {t' : Transfer.Table}

/-- Statements that make no new rows leave every batch its transfers. -/
lemma ids_ofBatch_updates (h : Updates t t') (batchID : String) :
    (ids (t'.ofBatch batchID)).Perm (ids (t.ofBatch batchID)) := by
  refine (perm_ext_iff_of_nodup (nodup_ids_ofBatch _ _) (nodup_ids_ofBatch _ _)).mpr fun id => ?_
  rw [mem_ids_ofBatch, mem_ids_ofBatch]
  constructor
  · rintro ⟨r', hget', hbatch⟩
    rcases hget : t.get id with _ | r
    · rw [h.absent id hget] at hget'
      cases hget'
    obtain ⟨r'', hget'', hadv⟩ := h.rows id r hget
    cases hget'.symm.trans hget''
    exact ⟨r, rfl, hadv.batchID.symm.trans hbatch⟩
  · rintro ⟨r, hget, hbatch⟩
    obtain ⟨r', hget', hadv⟩ := h.rows id r hget
    exact ⟨r', hget', hadv.batchID.trans hbatch⟩

/-- A statement that succeeds adds the rows of its batch. -/
lemma ids_ofBatch_create {m n : ℕ} (hbatch : ∀ r ∈ transfers, r.batchID = batchID)
    (h : t.createFileTransfersWithinLimits transfers m n = .ok t') (b : String) :
    (ids (t'.ofBatch b)).Perm ((if batchID = b then ids transfers else []) ++ ids (t.ofBatch b)) := by
  have hall := (all_insertAll (insertAll_of_create h)).filter fun r => r.batchID = b
  have hrow : ∀ r ∈ transfers.map Transfer.createdRow, r.batchID = batchID :=
    forall_mem_map.mpr hbatch
  have hnew : ids ((transfers.map Transfer.createdRow).filter fun r => r.batchID = b) =
      if batchID = b then ids transfers else [] := by
    split
    · next heq =>
      rw [filter_eq_self.mpr fun r hr => decide_eq_true ((hrow r hr).trans heq), ids, map_map]
      rfl
    · next hne =>
      rw [filter_eq_nil_iff.mpr fun r hr h => hne ((hrow r hr).symm.trans (of_decide_eq_true h))]
      rfl
  have hsorted : ∀ l : List FileTransfer,
      (ids (l.insertionSort Transfer.Table.byCreation)).Perm (ids l) := fun l =>
    (perm_insertionSort _ l).map _
  have hmap := hall.map (·.id)
  rw [filter_append, map_append] at hmap
  exact (hsorted _).trans (hnew ▸ hmap.trans ((hsorted _).symm.append_left _))

/-! ### The system -/

/-- Where a request stands that has found no batch. -/
inductive Stage where
  /-- Before `Execute`. -/
  | checked
  /-- No client was resolved, and the handler has returned. -/
  | unresolved
  /-- In `Execute`, with the client that the transfers are for. -/
  | called (clientID : String)
  /-- In its function, after the insertion. -/
  | created (transfers : List FileTransfer)
  /-- In its function, after `Service.Create` has failed. -/
  | refused (code : Code)
  deriving DecidableEq

/-- A request that has found no batch. -/
structure Request where
  operationID : String
  authorization : Authorization
  input : CreateInput
  stage : Stage
  deriving DecidableEq

/-- A set of transfers. -/
structure Batch where
  batchID : String
  transfers : List FileTransfer
  deriving DecidableEq

/-- The journal, the table and the requests; the sets that were inserted, and the sets that were answered
from the table. -/
structure State where
  journal : System
  table : Transfer.Table
  requests : FinMap ℕ Request
  inserted : List Batch
  recovered : List Batch

/-- What happens next. -/
inductive Event where
  /-- A request comes in and looks its batch up; `read` says that `Service.Batch` does not fail. -/
  | request (n : ℕ) (operationID : String) (authorization : Authorization) (input : CreateInput)
      (read : Bool)
  /-- `ResolveClient` answers, and `Execute` is called. -/
  | execute (n now : ℕ) (resolved : Option String)
  /-- `Service.Create` up to its insertion; `ids` are the random IDs. -/
  | create (n now : ℕ) (ids : List String) (fate : Operation.Fate)
  /-- Another operation of the service makes a statement. -/
  | statement (a : Statement)
  /-- Another handler calls `Execute`. -/
  | other (n : ℕ) (id : String) (request : List UInt8) (now : ℕ)
  | journal (a : Operation.Action)
  deriving DecidableEq

/-- The canonical form of a request. -/
def Request.canonical (cfg : HandlerConfig) (r : Request) : List UInt8 :=
  cfg.marshalRequest r.authorization.journalBinding r.input

/-- The `CreateRequest` of a request. -/
def Request.createRequest (r : Request) (clientID : String) : CreateRequest :=
  ⟨r.input.batchID, r.input.direction, r.input.sessionID, clientID, r.input.files⟩

namespace State

variable (cfg : HandlerConfig) (s : State)

/-- The request goes on. -/
def restage (n : ℕ) (r : Request) (stage : Stage) : State :=
  { s with requests := s.requests.insert n { r with stage } }

/-- A set of transfers is in the table. -/
def store (table : Transfer.Table) (batch : Batch) : State :=
  { s with table, inserted := s.inserted ++ [batch] }

/-- The insertion of a request. -/
def insert (n : ℕ) (r : Request) (transfers : List FileTransfer) : Operation.Fate → State
  | .fails => s.restage n r (.refused .storageUnavailable)
  | .ok =>
    match s.table.createFileTransfersWithinLimits transfers cfg.policy.maxPendingSpoolBytes
        cfg.policy.maxConcurrentTransfers with
    | .error .conflict => s.restage n r (.refused .resourceLimit)
    | .error .failure => s.restage n r (.refused .storageUnavailable)
    | .ok table => (s.store table ⟨r.input.batchID, transfers⟩).restage n r (.created transfers)
  -- the transaction is committed, and the error comes from the connection
  | .failsLate =>
    match s.table.createFileTransfersWithinLimits transfers cfg.policy.maxPendingSpoolBytes
        cfg.policy.maxConcurrentTransfers with
    | .error _ => s.restage n r (.refused .storageUnavailable)
    | .ok table =>
      (s.store table ⟨r.input.batchID, transfers⟩).restage n r (.refused .storageUnavailable)

/-- What the function of a request may return. -/
def mayReturn (r : Request) (outcome : Outcome) : Bool :=
  match r.stage with
  | .checked | .unresolved | .called _ => false
  -- the partial files may not be made
  | .created transfers =>
    outcome = createOutcome cfg r.input.batchID (.ok transfers) ||
      outcome = createOutcome cfg r.input.batchID (.error .storageUnavailable)
  | .refused code => outcome = createOutcome cfg r.input.batchID (.error code)

/-- The journal takes a step. -/
def advance : Operation.Action → Option State
  | .execute _ _ _ _ => none
  | .crash =>
    (s.journal.step cfg.journal .crash).map fun journal => { s with journal, requests := ∅ }
  | .finish n outcome now =>
    if (s.requests.lookup n).all fun r => mayReturn cfg r outcome then
      (s.journal.step cfg.journal (.finish n outcome now)).map fun journal => { s with journal }
    else none
  | a => (s.journal.step cfg.journal a).map fun journal => { s with journal }

/-- One step. -/
def step : Event → Option State
  | .request n operationID authorization input read =>
    if s.journal.memory.isNone ∨ (s.requests.lookup n).isSome ∨ (s.journal.call n).isSome then none
    else if !accepts cfg operationID authorization input then some s
    else
      match recoverBatch cfg authorization input
          (if read then s.table.fileTransfersByBatch input.batchID else none) with
      | .absent =>
        some { s with requests := s.requests.insert n ⟨operationID, authorization, input, .checked⟩ }
      | .conflict => some s
      | .found transfers => some { s with recovered := s.recovered ++ [⟨input.batchID, transfers⟩] }
  | .execute n now resolved => do
    let r ← s.requests.lookup n
    if r.stage ≠ .checked then none
    else
      match if cfg.resolves then resolved else some r.authorization.clientID with
      | none => some (s.restage n r .unresolved)
      | some clientID =>
        if clientID = "" then some (s.restage n r .unresolved)
        else
          (s.journal.step cfg.journal (.execute n r.operationID (r.canonical cfg) now)).map
            fun journal => { s with journal }.restage n r (.called clientID)
  | .create n now ids fate => do
    let r ← s.requests.lookup n
    match r.stage with
    | .called clientID => do
      let call ← s.journal.call n
      if call.phase.isRunning then
        match Transfer.checkRequest cfg.policy now ids (r.createRequest clientID) with
        | .error code => some (s.restage n r (.refused code))
        | .ok transfers => some (s.insert cfg n r transfers fate)
      else none
    | _ => none
  | .statement a => if a.creates then none else some { s with table := (a.exec s.table).1 }
  | .other n id request now =>
    if (s.requests.lookup n).isSome ∨ cfg.isCreation request then none
    else
      (s.journal.step cfg.journal (.execute n id request now)).map fun journal => { s with journal }
  | .journal a => s.advance cfg a

/-- A helper on an empty store. -/
def initial : State := ⟨System.initial, .empty, ∅, [], []⟩

/-! ### The condition -/

/-- The request has found no batch, and has not come to its insertion. -/
def awaits (n : ℕ) (r : Request) : Bool :=
  match r.stage with
  | .checked => true
  | .called _ => (s.journal.call n).isSome
  | .unresolved | .created _ | .refused _ => false

/-- The function of the request runs. -/
def runs (n : ℕ) : Bool := (s.journal.call n).any fun call => call.phase.isRunning

/-- A request for the batch is on its way under another operation ID. -/
def contested (operationID batchID : String) : Bool :=
  s.requests.entries.any fun e =>
    s.awaits e.1 e.2 && e.2.input.batchID = batchID && e.2.operationID ≠ operationID

/-- The call is about to delete the row of an operation for its age, while the function of a request for
the operation runs, or while its batch is there and a request for it is on its way. -/
def outlives (k : ℕ) : Bool :=
  match s.journal.call k with
  | none => false
  | some call =>
    match call.phase with
    | .cleaning now => s.requests.entries.any fun e =>
        s.awaits e.1 e.2 && s.journal.table.isExpired now e.2.operationID &&
          (s.runs e.1 || s.table.ofBatch e.2.input.batchID ≠ [])
    | _ => false

/-- No request looks a batch up while one with another operation ID, which has found none, has not come to
its insertion; no look-up fails while the batch is there; and no row goes before its requests. -/
def serial : Event → Bool
  | .request _ operationID _ input read =>
    !s.contested operationID input.batchID && (read || s.table.ofBatch input.batchID = [])
  | .journal (.cleanup k fate) => fate = .fails || !s.outlives k
  | _ => true

variable {n : ℕ}

lemma runs_iff :
    s.runs n = true ↔ ∃ call, s.journal.call n = some call ∧ call.phase.isRunning = true := by
  unfold runs
  cases s.journal.call n with
  | none | some => simp

variable {r : Request}

/-- What the function of a request may return is an error, or the set that it has inserted. -/
lemma eq_of_mayReturn {cfg : HandlerConfig} {outcome : Outcome} (h : mayReturn cfg r outcome = true)
    (hcode : outcome.errorCode = "") :
    ∃ transfers, r.stage = .created transfers ∧
      cfg.marshalResponse r.input.batchID transfers = some outcome.result := by
  have hresult : ∀ result, outcome = createOutcome cfg r.input.batchID result →
      ∃ transfers, result = .ok transfers ∧
        cfg.marshalResponse r.input.batchID transfers = some outcome.result := by
    rintro (code | transfers) rfl
    · exact absurd hcode (fileTransferErrorCode_ne code)
    refine ⟨transfers, rfl, ?_⟩
    simp only [createOutcome] at hcode ⊢
    cases hencoded : cfg.marshalResponse r.input.batchID transfers with
    | none =>
      rw [hencoded] at hcode
      exact absurd hcode (by decide)
    | some => rfl
  have hcode : ∀ code, outcome ≠ createOutcome cfg r.input.batchID (.error code) := fun code h => by
    obtain ⟨_, heq, -⟩ := hresult _ h
    cases heq
  unfold mayReturn at h
  split at h
  · cases h
  · cases h
  · cases h
  · next transfers hstage =>
    simp only [Bool.or_eq_true, decide_eq_true_eq, hcode, or_false] at h
    obtain ⟨_, heq, hmarshal⟩ := hresult _ h
    cases heq
    exact ⟨_, hstage, hmarshal⟩
  · exact absurd (of_decide_eq_true h) (hcode _)

/-- Only one operation works on a batch that is not contested. -/
lemma operationID_of_contested {operationID batchID : String}
    (h : s.contested operationID batchID = false) (hr : s.requests.lookup n = some r)
    (hawaits : s.awaits n r = true) (hbatch : r.input.batchID = batchID) :
    r.operationID = operationID := by
  have hnone := any_eq_false.mp h _ ((lookup_eq_some_iff_mem _ _ _).mp hr)
  by_contra hne
  exact hnone (by simp [hawaits, hbatch, hne])

/-- A row that goes belongs to no function that runs, and to no batch that is there. -/
lemma fresh_of_outdates {a : Action} (h : s.serial (.journal a) = true)
    (hr : s.requests.lookup n = some r) (hawaits : s.awaits n r = true)
    (hout : Outdates s.journal a r.operationID) :
    s.runs n = false ∧ s.table.ofBatch r.input.batchID = [] := by
  obtain ⟨k, fate, call, now, rfl, hfate, hcall, hphase, hexpired⟩ := hout
  have hlives : s.outlives k = false := by
    rcases Bool.or_eq_true_iff.mp h with h | h
    · exact absurd (of_decide_eq_true h) hfate
    · exact Bool.not_eq_true' _ ▸ h
  simp only [outlives, hcall, hphase] at hlives
  have hnone := any_eq_false.mp hlives _ ((lookup_eq_some_iff_mem _ _ _).mp hr)
  simpa [hawaits, hexpired] using hnone

/-! ### Unique batches -/

/-- At most one set of transfers is inserted for a batch ID; every transfer of the table is in such a set;
and every answer with transfers, from the journal or from the table, has the set of its batch. -/
structure UniqueBatches (cfg : HandlerConfig) (s : State) : Prop where
  once : s.inserted.Pairwise fun x y => x.batchID ≠ y.batchID
  records : ∀ r ∈ s.table.all, ∃ x ∈ s.inserted, x.batchID = r.batchID ∧ r.id ∈ ids x.transfers
  answers : ∀ a ∈ s.journal.history.answers, ∀ binding input,
    a.request = cfg.marshalRequest binding input → a.error = none → a.outcome.errorCode = "" →
      ∃ x ∈ s.inserted, x.batchID = input.batchID ∧
        cfg.marshalResponse input.batchID x.transfers = some a.outcome.result
  recovered : ∀ y ∈ s.recovered, ∃ x ∈ s.inserted, x.batchID = y.batchID ∧
    (ids y.transfers).Perm (ids x.transfers)

/-- The IDs that were inserted for a batch. -/
def insertedIDs (b : String) : List String :=
  (s.inserted.filter fun x => x.batchID = b).flatMap fun x => ids x.transfers

/-- What is kept for a request that has found no batch. -/
structure RequestOK (cfg : HandlerConfig) (s : State) (n : ℕ) (r : Request) : Prop where
  alive : s.journal.memory.isSome = true
  calls : ∀ call, s.journal.call n = some call →
    call.id = r.operationID ∧ call.request = r.canonical cfg
  /-- A request on its way that runs, or whose batch is there, has the row of its operation. -/
  reserved : s.awaits n r = true → s.runs n = true ∨ s.table.ofBatch r.input.batchID ≠ [] →
    (s.journal.table.lookup r.operationID).isSome = true
  /-- A request on its way for a batch that is there does not run. -/
  idle : s.awaits n r = true → s.table.ofBatch r.input.batchID ≠ [] → s.runs n = false
  created : ∀ transfers, r.stage = .created transfers → ⟨r.input.batchID, transfers⟩ ∈ s.inserted

/-- The invariant. -/
structure StateOK (cfg : HandlerConfig) (s : State) : Prop where
  journal : SystemOK cfg.journal s.journal
  answered : Answered cfg.journal s.journal.history
  recorded : s.table.Recorded
  requests : ∀ n r, s.requests.lookup n = some r → RequestOK cfg s n r
  others : ∀ n call, s.requests.lookup n = none → s.journal.call n = some call →
    cfg.isCreation call.request = false
  /-- The requests on their way for one batch have one operation ID. -/
  agreed : ∀ n n' r r', s.requests.lookup n = some r → s.requests.lookup n' = some r' →
    s.awaits n r = true → s.awaits n' r' = true → r.input.batchID = r'.input.batchID →
    r.operationID = r'.operationID
  once : s.inserted.Pairwise fun x y => x.batchID ≠ y.batchID
  nonempty : ∀ x ∈ s.inserted, x.transfers ≠ []
  rows : ∀ b, (ids (s.table.ofBatch b)).Perm (s.insertedIDs b)
  returned : ∀ binding input outcome,
    s.journal.history.Ran cfg.journal (cfg.marshalRequest binding input) outcome →
      outcome.errorCode = "" → ∃ x ∈ s.inserted, x.batchID = input.batchID ∧
        cfg.marshalResponse input.batchID x.transfers = some outcome.result
  recovered : ∀ y ∈ s.recovered, ∃ x ∈ s.inserted, x.batchID = y.batchID ∧
    (ids y.transfers).Perm (ids x.transfers)

section
variable {cfg : HandlerConfig} {s : State} {b : String}

lemma mem_insertedIDs {id : String} :
    id ∈ s.insertedIDs b ↔ ∃ x ∈ s.inserted, x.batchID = b ∧ id ∈ ids x.transfers := by
  simp only [insertedIDs, mem_flatMap, mem_filter, decide_eq_true_eq, and_assoc]

/-- If one set was inserted for every batch, its IDs are those of the batch. -/
lemma insertedIDs_eq (honce : s.inserted.Pairwise fun x y => x.batchID ≠ y.batchID) {x : Batch}
    (hx : x ∈ s.inserted) : s.insertedIDs x.batchID = ids x.transfers := by
  obtain ⟨before, after, hsplit⟩ := append_of_mem hx
  rw [hsplit, pairwise_append, pairwise_cons] at honce
  obtain ⟨-, ⟨hafter, -⟩, hbefore⟩ := honce
  have hfilter : (s.inserted.filter fun y => y.batchID = x.batchID) = [x] := by
    rw [hsplit, filter_append, filter_cons_of_pos (by simp),
      filter_eq_nil_iff.mpr fun y hy => by simpa using hbefore y hy x mem_cons_self,
      filter_eq_nil_iff.mpr fun y hy => by simpa using (hafter y hy).symm]
    rfl
  rw [insertedIDs, hfilter, flatMap_singleton]

lemma StateOK.ofBatch_ne_nil (hs : StateOK cfg s) :
    s.table.ofBatch b ≠ [] ↔ ∃ x ∈ s.inserted, x.batchID = b := by
  have hperm := hs.rows b
  constructor
  · intro hne
    obtain ⟨r, hr⟩ := exists_mem_of_ne_nil _ hne
    have hid : r.id ∈ ids (s.table.ofBatch b) := mem_map_of_mem hr
    obtain ⟨x, hx, hbatch, -⟩ := mem_insertedIDs.mp (hperm.mem_iff.mp hid)
    exact ⟨x, hx, hbatch⟩
  · rintro ⟨x, hx, hbatch⟩ hnil
    obtain ⟨r, hr⟩ := exists_mem_of_ne_nil _ (hs.nonempty x hx)
    have hid : r.id ∈ s.insertedIDs b := mem_insertedIDs.mpr ⟨x, hx, hbatch, mem_map_of_mem hr⟩
    have hmem := hperm.mem_iff.mpr hid
    rw [hnil] at hmem
    cases hmem

/-- The invariant has the property. -/
lemma StateOK.uniqueBatches (hs : StateOK cfg s) : UniqueBatches cfg s where
  once := hs.once
  records := by
    intro r hr
    have hid : r.id ∈ ids (s.table.ofBatch r.batchID) :=
      mem_ids_ofBatch.mpr ⟨r, s.table.mem_all.mp hr, rfl⟩
    exact mem_insertedIDs.mp ((hs.rows r.batchID).mem_iff.mp hid)
  answers := by
    intro a ha binding input hrequest herror hcode
    have hran := hs.answered a ha herror
    rw [hrequest] at hran
    exact hs.returned binding input a.outcome hran hcode
  recovered := hs.recovered

/-! ### Requests -/

variable {n : ℕ} {r : Request}

lemma lookup_of_insert {requests : FinMap ℕ Request} {n' : ℕ} (h : (requests.insert n r).lookup n' = none) :
    requests.lookup n' = none := by
  rw [lookup_insert_eq] at h
  split at h
  · cases h
  · exact h

/-- A request comes to its next stage. -/
lemma StateOK.restage (hs : StateOK cfg s) {stage : Stage} (hr : s.requests.lookup n = some r)
    (hawaits : s.awaits n { r with stage } = true → s.awaits n r = true)
    (hcreated : ∀ transfers, stage = .created transfers →
      (⟨r.input.batchID, transfers⟩ : Batch) ∈ s.inserted) : StateOK cfg (s.restage n r stage) := by
  have hback : ∀ n' r', (s.restage n r stage).requests.lookup n' = some r' →
      ∃ r₀ stage', r' = { r₀ with stage := stage' } ∧ s.requests.lookup n' = some r₀ ∧
        (s.awaits n' r' = true → s.awaits n' r₀ = true) ∧
        ∀ transfers, stage' = .created transfers → ⟨r₀.input.batchID, transfers⟩ ∈ s.inserted :=
    forall_insert ⟨r, stage, rfl, hr, hawaits, hcreated⟩ fun n' r' hr' _ =>
      ⟨r', r'.stage, rfl, hr', id, (hs.requests n' r' hr').created⟩
  refine { hs with
    others := fun n' call hnone => hs.others n' call (lookup_of_insert hnone)
    requests := ?_, agreed := ?_ }
  · intro n' r' hr'
    obtain ⟨r₀, _, rfl, hr₀, hold, hcreated⟩ := hback n' r' hr'
    have h := hs.requests n' r₀ hr₀
    exact { h with
      reserved := fun h' => h.reserved (hold h')
      idle := fun h' => h.idle (hold h')
      created := hcreated }
  · intro n₁ n₂ r₁ r₂ hr₁ hr₂ hawaits₁ hawaits₂
    obtain ⟨r₁, _, rfl, hr₁, hold₁, -⟩ := hback n₁ r₁ hr₁
    obtain ⟨r₂, _, rfl, hr₂, hold₂, -⟩ := hback n₂ r₂ hr₂
    exact hs.agreed n₁ n₂ r₁ r₂ hr₁ hr₂ (hold₁ hawaits₁) (hold₂ hawaits₂)

variable {operationID : String} {authorization : Authorization} {input : CreateInput}

/-- A request is read. -/
lemma StateOK.request (hs : StateOK cfg s) (hmem : s.journal.memory.isSome = true)
    (hfresh : s.requests.lookup n = none) (hcall : s.journal.call n = none)
    (hcontested : s.contested operationID input.batchID = false)
    (habsent : s.table.ofBatch input.batchID = []) :
    StateOK cfg { s with
      requests := s.requests.insert n ⟨operationID, authorization, input, .checked⟩ } := by
  have hback : ∀ n' r', (s.requests.insert n ⟨operationID, authorization, input, .checked⟩).lookup n' =
      some r' → n' = n ∧ r' = ⟨operationID, authorization, input, .checked⟩ ∨
        s.requests.lookup n' = some r' :=
    forall_insert (.inl ⟨rfl, rfl⟩) fun _ _ hr' _ => .inr hr'
  have hidle : s.runs n = false := by
    rw [runs, hcall]
    rfl
  have hnew : RequestOK cfg s n ⟨operationID, authorization, input, .checked⟩ := by
    refine ⟨hmem, fun call hcall' => ?_, fun _ hneeded => ?_, fun _ _ => hidle, nofun⟩
    · cases hcall.symm.trans hcall'
    · simp [hidle, habsent] at hneeded
  refine { hs with
    others := fun n' call hnone => hs.others n' call (lookup_of_insert hnone)
    requests := ?_, agreed := ?_ }
  · intro n' r' hr'
    rcases hback n' r' hr' with ⟨rfl, rfl⟩ | hr'
    · exact { hnew with }
    · exact { hs.requests n' r' hr' with }
  · intro n₁ n₂ r₁ r₂ hr₁ hr₂ hawaits₁ hawaits₂ hbatch
    rcases hback n₁ r₁ hr₁ with ⟨rfl, rfl⟩ | hold₁ <;> rcases hback n₂ r₂ hr₂ with ⟨rfl, rfl⟩ | hold₂
    · rfl
    · exact (s.operationID_of_contested hcontested hold₂ hawaits₂ hbatch.symm).symm
    · exact s.operationID_of_contested hcontested hold₁ hawaits₁ hbatch
    · exact hs.agreed n₁ n₂ r₁ r₂ hold₁ hold₂ hawaits₁ hawaits₂ hbatch

variable {t : Transfer.Table} {l : List FileTransfer}

lemma eq_of_fileTransfersByBatch (h : t.fileTransfersByBatch b = some l) : l = t.ofBatch b ∧ l ≠ [] := by
  unfold Transfer.Table.fileTransfersByBatch at h
  split at h
  · cases h
  · next hne =>
    cases h
    exact ⟨rfl, (not_or.mp hne).2⟩

variable {transfers : List FileTransfer}

/-- A batch is recovered from its rows. -/
lemma StateOK.recover (hs : StateOK cfg s) (hread : s.table.fileTransfersByBatch b = some l)
    (hperm : transfers.Perm l) :
    StateOK cfg { s with recovered := s.recovered ++ [⟨b, transfers⟩] } := by
  refine { hs with
    requests := fun n r hr => { hs.requests n r hr with }
    recovered := forall_mem_concat hs.recovered ?_ }
  obtain ⟨rfl, hne⟩ := eq_of_fileTransfersByBatch hread
  obtain ⟨x, hx, rfl⟩ := hs.ofBatch_ne_nil.mp hne
  refine ⟨x, hx, rfl, ?_⟩
  rw [← insertedIDs_eq hs.once hx]
  exact (hperm.map _).trans (hs.rows x.batchID)

/-! ### The table -/

/-- A statement that creates no rows. -/
lemma StateOK.statement (hs : StateOK cfg s) (h : Updates s.table t) :
    StateOK cfg { s with table := t } := by
  have hperm := ids_ofBatch_updates h
  have hnil : ∀ b, t.ofBatch b ≠ [] → s.table.ofBatch b ≠ [] := by
    intro b hne hnil
    have hb := hperm b
    rw [hnil] at hb
    exact hne (map_eq_nil_iff.mp hb.eq_nil)
  exact { hs with
    recorded := h.recorded
    requests := fun n r hr => { hs.requests n r hr with
      reserved := fun hawaits h => (hs.requests n r hr).reserved hawaits (h.imp_right (hnil _))
      idle := fun hawaits hbatch => (hs.requests n r hr).idle hawaits (hnil _ hbatch) }
    rows := fun b => (hperm b).trans (hs.rows b) }

/-- A set of transfers is inserted for a batch that is not there, when no request that is on its way for
the batch will insert another one. -/
lemma StateOK.store (hs : StateOK cfg s) {m k : ℕ} (hbatch : ∀ x ∈ transfers, x.batchID = b)
    (hcreate : s.table.createFileTransfersWithinLimits transfers m k = .ok t)
    (habsent : s.table.ofBatch b = [])
    (hidle : ∀ n r, s.requests.lookup n = some r → s.awaits n r = true → r.input.batchID = b →
      s.runs n = false ∧ (s.journal.table.lookup r.operationID).isSome = true) :
    StateOK cfg (s.store t ⟨b, transfers⟩) := by
  have hrows := ids_ofBatch_create hbatch hcreate
  have hkeep : ∀ {P : Batch → Prop}, (∃ x ∈ s.inserted, P x) →
      ∃ x ∈ (s.store t ⟨b, transfers⟩).inserted, P x := fun ⟨x, hx, hp⟩ =>
    ⟨x, mem_append_left _ hx, hp⟩
  have hnew : ∀ x ∈ s.inserted, x.batchID ≠ b := by
    rintro x hx rfl
    exact hs.ofBatch_ne_nil.mpr ⟨x, hx, rfl⟩ habsent
  have hbefore : ∀ b', b' ≠ b → t.ofBatch b' ≠ [] → s.table.ofBatch b' ≠ [] := by
    intro b' heq hne hnil
    have hb := hrows b'
    rw [if_neg heq.symm, hnil] at hb
    exact hne (map_eq_nil_iff.mp hb.eq_nil)
  refine { hs with
    recorded := (follows_create hs.recorded hcreate).recorded
    requests := fun n r hr => { hs.requests n r hr with
      reserved := ?_, idle := ?_
      created := fun l hstage => mem_append_left _ ((hs.requests n r hr).created l hstage) }
    once := ?_, nonempty := forall_mem_concat hs.nonempty ?_, rows := ?_
    returned := fun binding input outcome hran hcode => hkeep (hs.returned binding input outcome hran hcode)
    recovered := fun y hy => hkeep (hs.recovered y hy) }
  · intro hawaits hneeded
    by_cases heq : r.input.batchID = b
    · exact (hidle n r hr hawaits heq).2
    · exact (hs.requests n r hr).reserved hawaits (hneeded.imp_right (hbefore _ heq))
  · intro hawaits hne
    by_cases heq : r.input.batchID = b
    · exact (hidle n r hr hawaits heq).1
    · exact (hs.requests n r hr).idle hawaits (hbefore _ heq hne)
  · refine pairwise_append.mpr ⟨hs.once, pairwise_singleton _ _, fun x hx y hy => ?_⟩
    obtain rfl := mem_singleton.mp hy
    exact hnew x hx
  · rintro rfl
    unfold Transfer.Table.createFileTransfersWithinLimits at hcreate
    rw [if_pos (.inl Nat.one_pos)] at hcreate
    cases hcreate
  · intro b'
    have hfilter : (s.store t ⟨b, transfers⟩).insertedIDs b' =
        s.insertedIDs b' ++ if b = b' then ids transfers else [] := by
      simp only [insertedIDs, State.store, filter_append, flatMap_append]
      congr 1
      by_cases heq : b = b'
      · simp [heq]
      · simp [heq]
    rw [hfilter]
    exact (hrows b').trans (((hs.rows b').append_left _).trans perm_append_comm)

/-- The batch of a running request is inserted. -/
lemma StateOK.create (hs : StateOK cfg s) (hr : s.requests.lookup n = some r)
    (hawaits : s.awaits n r = true) (hruns : s.runs n = true)
    (hbatch : ∀ x ∈ transfers, x.batchID = r.input.batchID) (fate : Operation.Fate) :
    StateOK cfg (s.insert cfg n r transfers fate) := by
  have hrefused : ∀ code, StateOK cfg (s.restage n r (.refused code)) := fun code =>
    hs.restage hr nofun nofun
  have hok := hs.requests n r hr
  have habsent : s.table.ofBatch r.input.batchID = [] := by
    by_contra hne
    cases (hok.idle hawaits hne).symm.trans hruns
  -- the requests that are still on their way have the operation ID of this one, and do not run
  have hidle : ∀ code n' r', (s.restage n r (.refused code)).requests.lookup n' = some r' →
      s.awaits n' r' = true → r'.input.batchID = r.input.batchID →
      s.runs n' = false ∧ (s.journal.table.lookup r'.operationID).isSome = true := by
    intro code n' r' hr' hawaits' heq
    rw [State.restage, lookup_insert_eq] at hr'
    split at hr'
    · cases hr'
      cases hawaits'
    rename_i hne
    have hid := hs.agreed n' n r' r hr' hr hawaits' hawaits heq
    refine ⟨?_, by rw [hid]; exact hok.reserved hawaits (.inl hruns)⟩
    by_contra hruns'
    obtain ⟨call, hcall, hrunning⟩ := s.runs_iff.mp hruns
    obtain ⟨call', hcall', hrunning'⟩ := s.runs_iff.mp (Bool.not_eq_false _ ▸ hruns')
    refine hne (eq_of_isRunning hs.journal hcall' hcall hrunning' hrunning ?_)
    rw [((hs.requests n' r' hr').calls call' hcall').1, (hok.calls call hcall).1, hid]
  have hstore : ∀ {t : Transfer.Table} {m k : ℕ} (stage : Stage),
      s.table.createFileTransfersWithinLimits transfers m k = .ok t →
      (stage = .created transfers ∨ ∃ code, stage = .refused code) →
      StateOK cfg ((s.store t ⟨r.input.batchID, transfers⟩).restage n r stage) := by
    intro t m k stage hcreate hstage
    have hmid := (hrefused .storageUnavailable).store hbatch hcreate habsent (hidle _)
    have hr' : ((s.restage n r (.refused .storageUnavailable)).store t
        ⟨r.input.batchID, transfers⟩).requests.lookup n =
        some { r with stage := .refused .storageUnavailable } := AList.lookup_insert _
    have hnext : StateOK cfg (((s.restage n r (.refused .storageUnavailable)).store t
        ⟨r.input.batchID, transfers⟩).restage n { r with stage := .refused .storageUnavailable } stage) := by
      refine hmid.restage hr' (fun h => ?_) fun transfers' h => ?_
      · rcases hstage with rfl | ⟨code, rfl⟩ <;> cases h
      · rcases hstage with rfl | ⟨code, rfl⟩
        · obtain rfl := Stage.created.inj h
          exact mem_append_right _ (mem_singleton_self _)
        · cases h
    rwa [State.restage, State.store, State.restage, AList.insert_insert] at hnext
  unfold State.insert
  split
  · exact hrefused _
  · split
    · exact hrefused _
    · exact hrefused _
    · next t hcreate => exact hstore _ hcreate (.inl rfl)
  · split
    · exact hrefused _
    · next t hcreate => exact hstore _ hcreate (.inr ⟨_, rfl⟩)

/-! ### The journal -/

variable {journal : System}

/-- A step that the journal may take for a request that is on its way, or for another handler. -/
def Admits (cfg : HandlerConfig) (s : State) : Operation.Action → Prop
  | .execute n id request _ =>
    (∀ r, s.requests.lookup n = some r →
      id = r.operationID ∧ request = r.canonical cfg ∧ s.awaits n r = true) ∧
    (s.requests.lookup n = none → cfg.isCreation request = false)
  | .finish n outcome _ => ∀ r, s.requests.lookup n = some r → mayReturn cfg r outcome = true
  | .crash => False
  | _ => True

/-- The journal takes such a step, and deletes no row that is still needed. -/
lemma StateOK.advance (hcfg : cfg.Lawful) (hs : StateOK cfg s) {a : Action}
    (hstep : s.journal.step cfg.journal a = some journal) (hadmits : s.Admits cfg a)
    (hserial : s.serial (.journal a) = true) : StateOK cfg { s with journal } := by
  have hcrash : a ≠ .crash := by
    rintro rfl
    exact hadmits
  have hawaits : ∀ n r, s.requests.lookup n = some r →
      awaits { s with journal } n r = true → s.awaits n r = true := by
    intro n r hr h
    unfold awaits at h ⊢
    split at h
    · rfl
    · next clientID hstage =>
      obtain ⟨call', hcall'⟩ := Option.isSome_iff_exists.mp h
      cases source_of_step hstep hcall' with
      | old call hcall => exact Option.isSome_of_eq_some hcall
      | new id request now ha =>
        subst ha
        have hold := (hadmits.1 r hr).2.2
        rwa [awaits, hstage] at hold
    · cases h
    · cases h
    · cases h
  refine { hs with
    journal := System.keeps_systemOK _ hs.journal hstep
    answered := answered_of_step hs.journal hs.answered hstep
    requests := fun n r hr => ?_, others := ?_, returned := ?_
    agreed := fun n n' r r' hr hr' h h' =>
      hs.agreed n n' r r' hr hr' (hawaits n r hr h) (hawaits n' r' hr' h') }
  · have hok := hs.requests n r hr
    -- a function that has just been called had no row before, and has one now
    have hruns : runs { s with journal } n = true → s.runs n = true ∨
        s.journal.table.lookup r.operationID = none ∧
          (journal.table.lookup r.operationID).isSome = true := by
      intro h
      obtain ⟨call', hcall', hrunning⟩ := runs_iff _ |>.mp h
      cases source_of_step hstep hcall' with
      | old call hcall hrun =>
        rcases hrun hrunning with hold | ⟨⟨now, rfl⟩, hnone⟩
        · exact .inl (s.runs_iff.mpr ⟨call, hcall, hold⟩)
        rw [← (hok.calls call hcall).1]
        exact .inr ⟨hnone, row_of_reserve hstep hcall hnone⟩
      | new id request now ha hrun =>
        rw [hrun] at hrunning
        cases hrunning
    refine { hok with
      alive := memory_of_step hstep hcrash hok.alive, calls := ?_, reserved := ?_, idle := ?_ }
    · intro call' hcall'
      cases source_of_step hstep hcall' with
      | old call hcall hrun hsame =>
        rw [hsame.1, hsame.2]
        exact hok.calls call hcall
      | new id request now ha hrun hsame =>
        subst ha
        obtain ⟨hid, hrequest, -⟩ := hadmits.1 r hr
        exact ⟨hsame.1.trans hid, hsame.2.trans hrequest⟩
    · intro h hneeded
      have hold := hawaits n r hr h
      by_cases hbefore : s.runs n = true ∨ s.table.ofBatch r.input.batchID ≠ []
      · refine (row_of_step hstep hok.alive (hok.reserved hold hbefore)).resolve_right fun hout => ?_
        obtain ⟨hidle, hnil⟩ := s.fresh_of_outdates hserial hr hold hout
        simp [hidle, hnil] at hbefore
      · obtain ⟨hran, hbatch⟩ := not_or.mp hbefore
        exact ((hruns (hneeded.resolve_right hbatch)).resolve_left hran).2
    · intro h hbatch
      have hold := hawaits n r hr h
      by_contra hrun
      rcases hruns (Bool.not_eq_false _ ▸ hrun) with hran | ⟨hnone, -⟩
      · cases (hok.idle hold hbatch).symm.trans hran
      have hsome := hok.reserved hold (.inr hbatch)
      rw [hnone] at hsome
      cases hsome
  · intro n call' hnone hcall'
    cases source_of_step hstep hcall' with
    | old call hcall hrun hsame =>
      rw [hsame.2]
      exact hs.others n call hnone hcall
    | new id request now ha hrun hsame =>
      subst ha
      rw [hsame.2]
      exact hadmits.2 hnone
  · intro binding input outcome hran hcode
    rcases ran_of_step hs.journal hstep hran with hran | ⟨n, now, call, rfl, hcall, -, hhash⟩
    · exact hs.returned binding input outcome hran hcode
    have hcanonical : cfg.journal.canonical call.request =
        cfg.journal.canonical (cfg.marshalRequest binding input) :=
      Option.map_injective hcfg.sha256 hhash
    rcases hr : s.requests.lookup n with _ | r
    · have hfalse := hs.others n call hr hcall
      rw [hcfg.creation binding input _ hcanonical.symm] at hfalse
      cases hfalse
    obtain ⟨transfers, hstage, hmarshal⟩ := eq_of_mayReturn (hadmits r hr) hcode
    rw [((hs.requests n r hr).calls call hcall).2, Request.canonical] at hcanonical
    have hbatch := hcfg.batch _ _ _ _ hcanonical
    exact ⟨_, (hs.requests n r hr).created transfers hstage, hbatch, hbatch ▸ hmarshal⟩

/-- The helper dies. -/
lemma StateOK.crash (hs : StateOK cfg s)
    (hstep : s.journal.step cfg.journal .crash = some journal) :
    StateOK cfg { s with journal, requests := ∅ } := by
  have hnone : ∀ n call, journal.call n ≠ some call := by
    intro n call hcall
    obtain ⟨m, -, rfl⟩ := Option.map_eq_some_iff.mp hstep
    cases hcall
  refine { hs with
    journal := System.keeps_systemOK _ hs.journal hstep
    answered := answered_of_step hs.journal hs.answered hstep
    requests := nofun, agreed := nofun
    others := fun n call _ hcall => absurd hcall (hnone n call)
    returned := fun binding input outcome hran hcode => ?_ }
  rcases ran_of_step hs.journal hstep hran with hran | ⟨_, _, _, ha, -⟩
  · exact hs.returned binding input outcome hran hcode
  · cases ha

/-! ### Runs -/

/-- A request looks its batch up. -/
lemma StateOK.lookUp (hs : StateOK cfg s) {read : Bool} {s' : State}
    (hserial : s.serial (.request n operationID authorization input read) = true)
    (hstep : s.step cfg (.request n operationID authorization input read) = some s') :
    StateOK cfg s' := by
  obtain ⟨hcontested, hread⟩ := Bool.and_eq_true_iff.mp hserial
  simp only [step] at hstep
  split at hstep
  · cases hstep
  rename_i hready
  simp only [not_or, Bool.not_eq_true, Option.isSome_eq_false_iff, Option.isNone_iff_eq_none] at hready
  obtain ⟨hmem, hfresh, hcall⟩ := hready
  split at hstep
  · exact Option.some.inj hstep ▸ hs
  rename_i haccepts
  split at hstep
  · next habsent =>
    cases hstep
    have hbatch : input.batchID ≠ "" := by
      simp only [accepts, Bool.not_eq_true, Bool.not_eq_false', Bool.and_eq_true,
        decide_eq_true_eq] at haccepts
      exact haccepts.1.1.1.2
    refine hs.request (Option.isSome_iff_ne_none.mpr hmem) hfresh hcall
      (Bool.not_eq_true' _ ▸ hcontested) ?_
    rcases Bool.or_eq_true_iff.mp hread with rfl | hnil
    · by_contra hne
      rw [if_pos rfl, Transfer.Table.fileTransfersByBatch, if_neg (not_or.mpr ⟨hbatch, hne⟩)] at habsent
      simp only [recoverBatch] at habsent
      split at habsent
      · cases habsent
      · split at habsent <;> cases habsent
    · exact of_decide_eq_true hnil
  · exact Option.some.inj hstep ▸ hs
  · next transfers hfound =>
    cases hstep
    obtain ⟨l, hl, hperm⟩ := perm_of_recoverBatch hfound
    split at hl
    · exact hs.recover hl hperm
    · cases hl

/-- Every step of a serial run keeps the invariant. -/
lemma keeps_stateOK (hcfg : cfg.Lawful) :
    KeepsUnder (fun s a => step cfg s a) (fun s a => s.serial a = true) (StateOK cfg) := by
  intro s a s' hs hserial hstep
  cases a
  case request => exact hs.lookUp hserial hstep
  all_goals simp only [step, Option.bind_eq_bind, Option.bind_eq_some_iff, Option.map_eq_some_iff,
    Option.ite_none_left_eq_some, Option.some.injEq] at hstep
  case execute n now resolved =>
    obtain ⟨r, hr, hstage, hstep⟩ := hstep
    have hchecked : s.awaits n r = true := by rw [awaits, not_not.mp hstage]
    have hunresolved : StateOK cfg (s.restage n r .unresolved) := hs.restage hr nofun nofun
    split at hstep
    · exact Option.some.inj hstep ▸ hunresolved
    rename_i clientID _
    split at hstep
    · exact Option.some.inj hstep ▸ hunresolved
    obtain ⟨journal, hjournal, rfl⟩ := Option.map_eq_some_iff.mp hstep
    have hnext : StateOK cfg { s with journal } := by
      refine hs.advance hcfg hjournal ⟨fun r' hr' => ?_, fun hnone => ?_⟩ rfl
      · cases hr.symm.trans hr'
        exact ⟨rfl, rfl, hchecked⟩
      · cases hr.symm.trans hnone
    exact hnext.restage hr (fun _ => by rw [awaits, not_not.mp hstage]) nofun
  case create n now ids fate =>
    obtain ⟨r, hr, hstep⟩ := hstep
    split at hstep
    · next clientID hstage =>
      simp only [Option.bind_eq_some_iff, Option.ite_none_right_eq_some] at hstep
      obtain ⟨call, hcall, hrunning, hstep⟩ := hstep
      have hawaits : s.awaits n r = true := by
        rw [awaits, hstage]
        exact Option.isSome_of_eq_some hcall
      split at hstep <;> cases hstep
      · exact hs.restage hr nofun nofun
      · next hcheck =>
        exact hs.create hr hawaits (s.runs_iff.mpr ⟨call, hcall, hrunning⟩)
          (batchID_of_checkRequest hcheck) fate
    · cases hstep
  case statement =>
    obtain ⟨hcreates, rfl⟩ := hstep
    exact hs.statement (updates_exec hs.recorded (Bool.not_eq_true _ ▸ hcreates))
  case other =>
    obtain ⟨hfree, journal, hjournal, rfl⟩ := hstep
    obtain ⟨hfresh, hcreation⟩ := not_or.mp hfree
    refine hs.advance hcfg hjournal ⟨fun r' hr' => ?_, fun _ => Bool.not_eq_true _ ▸ hcreation⟩ rfl
    rw [hr'] at hfresh
    exact absurd rfl hfresh
  case journal a =>
    unfold advance at hstep
    split at hstep
    · cases hstep
    · obtain ⟨journal, hjournal, rfl⟩ := Option.map_eq_some_iff.mp hstep
      exact hs.crash hjournal
    · split at hstep
      · next n outcome now hreturn =>
        obtain ⟨journal, hjournal, rfl⟩ := Option.map_eq_some_iff.mp hstep
        refine hs.advance hcfg hjournal (fun r hr => ?_) rfl
        rw [hr] at hreturn
        exact hreturn
      · cases hstep
    · next hexecute hcrash hfinish =>
      obtain ⟨journal, hjournal, rfl⟩ := Option.map_eq_some_iff.mp hstep
      refine hs.advance hcfg hjournal ?_ hserial
      unfold Admits
      split
      · exact absurd rfl (hexecute _ _ _ _)
      · exact absurd rfl (hfinish _ _ _)
      · exact hcrash rfl
      · trivial

lemma initial_stateOK : StateOK cfg initial := by
  refine ⟨System.initial_ok cfg.journal, nofun, nofun, nofun, nofun, nofun, List.Pairwise.nil, nofun,
    fun b => ?_, ?_, nofun⟩
  · exact .refl _
  · rintro _ _ _ ⟨_, _, hended, -⟩
    cases hended

/-- In every run in which the requests for a batch come one after the other, or under one operation ID,
batches are unique. -/
theorem batches_unique (hcfg : cfg.Lawful) {events : List Event}
    (hmeets : Meets (fun s a => step cfg s a) (fun s a => s.serial a = true) initial events)
    (hrun : run (fun s a => step cfg s a) initial events = some s) : UniqueBatches cfg s :=
  ((keeps_stateOK hcfg).run initial_stateOK hmeets hrun).uniqueBatches

end

/-! ### Examples of runs -/

/-- A string in JSON. -/
def stringText (s : String) : List Char := JsonText.quote s.toList

/-- A number in JSON. -/
def numberText (n : ℤ) : List Char := (toString n).toList

/-- An object in JSON. -/
def objectText (members : List (String × List Char)) : List Char :=
  JsonText.writeObject id (members.map fun m => (m.1.toList, m.2))

/-- An array in JSON. -/
def arrayText (items : List (List Char)) : List Char := '[' :: JsonText.writeList id items ++ [']']

/-- The canonical request that `serveCollection` gives the journal. -/
def requestText (binding : String) (input : CreateInput) : List Char :=
  objectText [("binding", stringText binding), ("request", objectText
    [("batch_id", stringText input.batchID), ("direction", stringText input.direction),
      ("session_id", stringText input.sessionID), ("files", arrayText (input.files.map fun file =>
        objectText [("basename", stringText file.basename), ("size", numberText file.size),
          ("sha256", stringText file.sha256)]))])]

/-- `createFileTransferResponse`, with the first fields of the transfers. -/
def responseText (batchID : String) (transfers : List FileTransfer) : List Char :=
  objectText [("batch_id", stringText batchID), ("transfers", arrayText (transfers.map fun t =>
    objectText [("transfer_id", stringText t.id), ("batch_id", stringText t.batchID)]))]

/-- The bytes of a text. -/
def bytesOf (text : List Char) : List UInt8 := text.flatMap String.utf8EncodeChar

/-- A handler whose journal has no other use. -/
def smallHandler : HandlerConfig where
  journal := Operation.System.smallJournal
  policy := Transfer.defaultPolicy
  allowDirection := fun _ _ => true
  resolves := false
  marshalRequest := fun binding input => bytesOf (requestText binding input)
  marshalResponse := fun batchID transfers => some (bytesOf (responseText batchID transfers))
  isCreation := fun _ => true

lemma bytesOf_injective : Function.Injective bytesOf := by
  intro a b h
  have hbytes : (String.ofList a).toByteArray = (String.ofList b).toByteArray := by
    rw [String.toByteArray_ofList, String.toByteArray_ofList]
    exact congrArg List.toByteArray h
  exact String.ofList_injective (String.toByteArray_inj.mp hbytes)

/-- The batch ID can be read in a canonical request. -/
lemma batchID_of_requestText {binding binding' : String} {input input' : CreateInput}
    (h : requestText binding input = requestText binding' input') : input.batchID = input'.batchID := by
  simp only [requestText, objectText, JsonText.writeObject, JsonText.writeMember, JsonText.writeList,
    stringText, List.map, id, cons_append, append_assoc, cons.injEq, true_and,
    append_cancel_left_eq] at h
  have hbinding := congrArg JsonText.readQuoted h
  rw [JsonText.readQuoted_quote, JsonText.readQuoted_quote] at hbinding
  obtain ⟨-, hrequest⟩ := Prod.mk.inj (Option.some.inj hbinding)
  simp only [cons.injEq, true_and, append_cancel_left_eq] at hrequest
  have hbatch := congrArg JsonText.readQuoted hrequest
  rw [JsonText.readQuoted_quote, JsonText.readQuoted_quote] at hbatch
  exact String.toList_injective (Prod.mk.inj (Option.some.inj hbatch)).1

lemma smallJournal_canonical_injective : Function.Injective Operation.System.smallJournal.canonical := by
  intro a b h
  simp only [Operation.System.smallJournal] at h
  split_ifs at h with ha hb
  · rw [ha, hb]
  · exact JsonText.latinText_injective (Option.some.inj h)

lemma smallHandler_lawful : smallHandler.Lawful where
  sha256 := Function.injective_id
  batch := by
    intro binding input binding' input' h
    have htext := bytesOf_injective (smallJournal_canonical_injective h)
    exact batchID_of_requestText htext
  creation := fun _ _ _ _ => rfl

/-- A client asks for one empty file. -/
def oneFile : CreateInput :=
  ⟨"batch", "pb_to_pbh", "session",
    [⟨"a", 0, "e3b0c44298fc1c149afbf4c8996fb92427ae41e4649b934ca495991b7852b855"⟩]⟩

/-- The client. -/
def oneClient : Authorization := ⟨"binding", "client", ""⟩

/-- A transfer of the client's batch. -/
def stored (id basename : String) (size : ℕ) : FileTransfer :=
  ⟨id, "batch", .pbToPbh, "session", "client", basename, size, "", 0, .created, "", "", 0, 0⟩

/-- A file that is asked for twice is matched by two transfers, in whatever order they are listed. -/
theorem recoverBatch_of_reordered : ∃ ordered,
    recoverBatch smallHandler oneClient ⟨"batch", "pb_to_pbh", "session",
      [⟨"a", 0, ""⟩, ⟨"b", 1, ""⟩, ⟨"a", 0, ""⟩]⟩
      (some [stored "x" "a" 0, stored "y" "a" 0, stored "z" "b" 1]) = .found ordered :=
  (recoverBatch_found_iff _ (by decide)).1.mpr ⟨by decide, by decide⟩

/-- The client asks under an operation ID. -/
def ask (n : ℕ) (operationID : String) (read : Bool) : Event :=
  .request n operationID oneClient oneFile read

/-- A request goes on to its insertion, with a random ID. -/
def insertion (n : ℕ) (id : String) : List Event :=
  [.execute n 0 none, .journal (.reserve n 0 .ok), .create n 0 [id] .ok]

/-- The function of a request returns its transfer, and the client has its answer. -/
def answering (n : ℕ) (id : String) : List Event :=
  [.journal (.finish n ⟨bytesOf (responseText "batch" [stored id "a" 0]), ""⟩ 0),
    .journal (.complete n .ok), .journal (.record n)]

/-- Two requests for a batch under two operation IDs, one after the other. -/
def oneAfterTheOther (read : Bool) : List Event :=
  .journal (.start 0 3) :: ask 1 "operation-a" true :: insertion 1 "x" ++ answering 1 "x" ++
    [ask 2 "operation-b" read]

/-- The second one gets the transfers of the first one. -/
theorem oneAfterTheOther_unique : ∃ s,
    run (fun s a => step smallHandler s a) initial (oneAfterTheOther true) = some s ∧
      s.recovered.map (fun x => ids x.transfers) = [["x"]] ∧ UniqueBatches smallHandler s :=
  exists_and_of_any (by decide +kernel) fun _ hs =>
    batches_unique smallHandler_lawful (by decide +kernel) hs

lemma not_uniqueBatches {s : State} (h : s.inserted.map Batch.batchID = ["batch", "batch"]) :
    ¬ UniqueBatches smallHandler s := by
  intro hunique
  have honce : (s.inserted.map Batch.batchID).Pairwise (· ≠ ·) := pairwise_map.mpr hunique.once
  rw [h] at honce
  exact absurd honce (by decide)

/-- Two requests that look the batch up before either inserts it insert it twice, and so does a second
request whose look-up fails. -/
theorem batch_inserted_twice : (∃ s, run (fun s a => step smallHandler s a) initial
      (.journal (.start 0 3) :: ask 1 "operation-a" true :: ask 2 "operation-b" true ::
        insertion 1 "x" ++ insertion 2 "y") = some s ∧ ¬ UniqueBatches smallHandler s) ∧
    ∃ s, run (fun s a => step smallHandler s a) initial
      (oneAfterTheOther false ++ insertion 2 "y") = some s ∧ ¬ UniqueBatches smallHandler s := by
  constructor <;> exact exists_of_any (P := fun s => s.inserted.map Batch.batchID = ["batch", "batch"])
    (by decide +kernel) fun _ _ => not_uniqueBatches

end State

end Paperboat.Server.Batches

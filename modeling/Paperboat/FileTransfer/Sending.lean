import Paperboat.FileTransfer.Service

/-!
# Sending a batch

The end of `LoopbackClient.SendBatch` in `internal/filetransfer/loopback_client.go`, served by
`FileTransferHandler` of `internal/server/file_transfer_http.go`: after the uploads it makes a complete
request for every file of the batch, and cancels the batch if one of them does not report that the file
is pending.

The first complete request already queues all the files. From then on the recipient may acknowledge a
file for which the sender has yet to make its request, and `Complete` then returns a row that is not
pending. `patient` excludes such receipts.
-/

namespace Paperboat.Transfer

open List Option Table Prog RelyGuarantee Prod

/-! ### Requests -/

/-- The result code of `serveComplete`. -/
def resultCodeOf (transfer : FileTransfer) : String :=
  if transfer.state = .pending then "pending" else "published"

/-- `serveComplete` for a program on the host: the transfer and the result code, or `none` for an error
response. -/
def serveComplete (sha256 : List UInt8 → String) (id : String) :
    Service (Option (FileTransfer × String)) := do
  match ← request (.fileTransfer id) with
  | none => return none
  | some owned =>
    if owned.direction ≠ .pbhToPb then return none
    match ← complete sha256 id with
    | .error _ => return none
    | .ok transfer =>
      if transfer.direction = .pbhToPb then return some (transfer, resultCodeOf transfer)
      match ← publishedPath id with
      | .error _ => return none
      | .ok () => return some (transfer, resultCodeOf transfer)

/-- `serveManifest` with the method `DELETE`, for a program on the host. -/
def serveDelete (id : String) : Service Unit := do
  match ← request (.fileTransfer id) with
  | none => return ()
  | some owned =>
    if owned.direction ≠ .pbhToPb then return ()
    let _ ← cancel id
    return ()

/-- `validReceipt`. -/
def validReceipt (code path : String) : Bool :=
  if code = "stored" then
    path ≠ "" && !(['/'].isPrefixOf path.toList) && "Paperboat Inbox/".toList.isPrefixOf path.toList
  else
    path = "" && code ∈ ["invalid_path", "invalid_size", "digest_mismatch", "offset_conflict",
      "recipient_unavailable", "storage_unavailable", "resource_limit", "canceled", "delivery_timeout"]

/-- `serveReceipt` for the recipient. -/
def serveReceipt (id resultCode path : String) : Service Unit := do
  match ← request (.fileTransfer id) with
  | none => return ()
  | some transfer =>
    if !validReceipt resultCode path then return ()
    let _ ← receipt id transfer.clientID resultCode path
    return ()

/-! ### Sender and recipient -/

/-- The calls of the service, and the answer to a complete request when the sender gets it. -/
inductive SendCall where
  | service (c : Call)
  | answered (id : String)
  deriving DecidableEq

/-- The replies to calls. -/
abbrev SendCall.Reply : SendCall → Type
  | service c => c.Reply
  | answered _ => Unit

/-- The state of the service, whether a batch was queued, and the complete requests with an answer. The
last two are not in the code. -/
structure SendState where
  base : State
  queued : Bool
  answered : List String

/-- The call has queued a batch. -/
def queues : (c : Call) → c.Reply → Bool
  | .completeFileTransferBatch _, r => r
  | _, _ => false

/-- A call of the sender or the recipient. -/
def performSend (i : ℕ) (s : SendState) : (c : SendCall) → Fate → Option (SendState × c.Reply)
  | .service c, f => (perform i s.base c f).map fun r =>
    ({ s with base := r.1, queued := s.queued || queues c r.2 }, r.2)
  | .answered id, _ => some ({ s with answered := id :: s.answered }, ())

/-- A program with requests. -/
abbrev Client (α : Type) : Type := Prog SendCall.Reply α

/-- A request that is served. -/
def onService {α : Type} (p : Service α) : Client α := p.lift SendCall.service fun _ r => r

/-- The errors of `SendBatch` after the uploads. -/
inductive SendError where
  | response
  | notQueued
  deriving DecidableEq

/-- `LoopbackClient.cancelBatch`. -/
def cancelTransfers : List FileTransfer → Client Unit
  | [] => pure ()
  | transfer :: transfers => do
    onService (serveDelete transfer.id)
    cancelTransfers transfers

/-- The loop of `SendBatch` with the complete requests: the error, if any. -/
def sendCompletes (sha256 : List UInt8 → String) (created : List FileTransfer) :
    List FileTransfer → Client (Option SendError)
  | [] => pure none
  | transfer :: transfers => do
    match ← onService (serveComplete sha256 transfer.id) with
    | none =>
      cancelTransfers created
      return some .response
    | some (_, code) =>
      Prog.request (SendCall.answered transfer.id)
      if code ≠ "pending" then
        cancelTransfers created
        return some .notQueued
      else sendCompletes sha256 created transfers

/-- What the recipient does. -/
inductive Recipient where
  | download (id : String)
  | receipt (id resultCode path : String)
  deriving DecidableEq

/-- The results of the programs. -/
inductive SendAnswer where
  | sent (error : Option SendError)
  | received
  deriving DecidableEq

/-- The program of the recipient. -/
def Recipient.program : Recipient → Client SendAnswer
  | download id => do
    let _ ← onService (openContent id)
    return .received
  | receipt id resultCode path => do
    onService (serveReceipt id resultCode path)
    return .received

/-- The service between a sender and a recipient. -/
def exchange : Machine SendState SendCall.Reply Fate Recipient SendAnswer where
  program := Recipient.program
  perform := performSend
  restart s := { s with base := s.base.restart }

/-- The sender has uploaded all files, and is about to make its complete requests on thread `0`. -/
def sendBatch (sha256 : List UInt8 → String) (created : List FileTransfer) (s : State) :
    Pool SendState SendCall.Reply SendAnswer where
  shared := ⟨s, false, []⟩
  threads := AList.singleton 0 (do return .sent (← sendCompletes sha256 created created))

/-- The rows of a batch that was created by the sender and is not yet completed. -/
structure Uploaded (created : List FileTransfer) (batchID : String) (s : State) : Prop where
  rows : ∀ t ∈ created, ∃ r, s.table.get t.id = some r ∧ r.batchID = batchID ∧
    r.direction = .pbhToPb ∧ r.state.isOpen = true
  all : ∀ id r, s.table.get id = some r → r.batchID = batchID → ∃ t ∈ created, t.id = id
  nodup : (created.map (·.id)).Nodup

/-- The calls that go to the store. -/
def Call.onStore : Call → Bool
  | .fileTransfer _ | .fileTransfersByBatch _ | .createFileTransfersWithinLimits _ _ _
  | .commitFileTransferOffset _ _ _ | .completeFileTransferBatch _ | .cancelFileTransferBatch _
  | .expiredFileTransfers _ | .expireFileTransfers _ | .receiptFileTransfer _ _ _ _ => true
  | _ => false

/-- The receipt for a stored file comes after the answer to the complete request for the file, and the
receipt for a failed download after the answers to all of them. -/
def Call.timely (created : List FileTransfer) (answered : List String) : Call → Bool
  | .receiptFileTransfer id _ resultCode _ => decide (id ∈ created.map (·.id) →
      if resultCode = "stored" then id ∈ answered else ∀ t ∈ created, t.id ∈ answered)
  | _ => true

/-- The store does not fail, nothing crashes, and the receipts are timely. -/
def patient (created : List FileTransfer) : Conduct SendState SendCall Fate Recipient where
  mayStart _ _ := True
  allows _ s c f :=
    match c with
    | .service c => (c.onStore = true → f = .ok) ∧ c.timely created s.answered = true
    | .answered _ => True
  mayCrash _ := False

/-! ### What the sender relies on -/

section
variable (created : List FileTransfer)

/-- A receipt was recorded, when it may be. -/
def Acknowledged (answered : List String) (id : String) (st st' : TransferState) : Prop :=
  (st = .pending ∨ st = .delivered ∨ st = .failed) ∧
    (st' = .delivered ∧ (id ∈ created.map (·.id) → id ∈ answered) ∨
      st' = .failed ∧ (id ∈ created.map (·.id) → ∀ t ∈ created, t.id ∈ answered))

/-- The rows have stayed, but for their states. -/
structure Alters (change : String → TransferState → TransferState → Prop) (t t' : Table) : Prop where
  row : ∀ id r, t.get id = some r → ∃ r', t'.get id = some r' ∧ r'.batchID = r.batchID ∧
    r'.direction = r.direction ∧ change id r.state r'.state
  old : ∀ id r', t'.get id = some r' → ∃ r, t.get id = some r

/-- What the recipient does to the rows. -/
structure SendRely (s s' : SendState) : Prop extends
    Alters (fun id st st' => st' = st ∨ Acknowledged created s.answered id st st')
      s.base.table s'.base.table where
  queued : s'.queued = s.queued
  answered : s'.answered = s.answered

variable {created} {change : String → TransferState → TransferState → Prop}

lemma Alters.refl (h : ∀ id st, change id st st) (t : Table) : Alters change t t :=
  ⟨fun _ r hr => ⟨r, hr, rfl, rfl, h _ _⟩, fun _ r hr => ⟨r, hr⟩⟩

/-- An update alters the rows that it changes. -/
lemma Alters.update {t : Table} {p : FileTransfer → Bool} {f : FileTransfer → FileTransfer}
    {hf : ∀ r, p r = true → Replaces r (f r)} (hsame : ∀ id st, change id st st)
    (h : ∀ r, p r = true → (f r).batchID = r.batchID ∧ (f r).direction = r.direction ∧
      change r.id r.state (f r).state) :
    Alters change t (t.update p f hf) := by
  refine ⟨fun id r hr => ?_, fun id r' hr' => ?_⟩
  · rw [get_update, hr, map_some]
    split
    · next hp => exact ⟨_, rfl, t.id_of_get hr ▸ h r hp⟩
    · exact ⟨r, rfl, rfl, rfl, hsame _ _⟩
  · rw [get_update] at hr'
    obtain ⟨r, hr, -⟩ := map_eq_some_iff.mp hr'
    exact ⟨r, hr⟩

variable {answered : List String} {id : String}

/-- Receipts one after the other. -/
lemma Acknowledged.trans {st st' st'' : TransferState}
    (h : st' = st ∨ Acknowledged created answered id st st')
    (h' : st'' = st' ∨ Acknowledged created answered id st' st'') :
    st'' = st ∨ Acknowledged created answered id st st'' := by
  rcases h' with rfl | h'
  · exact h
  · rcases h with rfl | h
    · exact .inr h'
    · exact .inr ⟨h.1, h'.2⟩

lemma SendRely.of_alters {s s' : SendState} {t : Table} (hqueued : s'.queued = s.queued)
    (hanswered : s'.answered = s.answered) (htable : s'.base.table = t)
    (h : Alters (fun id st st' => st' = st ∨ Acknowledged created s.answered id st st') s.base.table t) :
    SendRely created s s' := by
  subst htable
  exact ⟨h, hqueued, hanswered⟩

lemma SendRely.of_table {s s' : SendState} (hqueued : s'.queued = s.queued)
    (hanswered : s'.answered = s.answered) (htable : s'.base.table = s.base.table) :
    SendRely created s s' :=
  .of_alters hqueued hanswered htable (.refl (fun _ _ => .inl rfl) _)

/-- What the sender relies on holds over several steps. -/
lemma SendRely.trans {s₁ s₂ s₃ : SendState} (h : SendRely created s₁ s₂)
    (h' : SendRely created s₂ s₃) : SendRely created s₁ s₃ where
  queued := h'.queued.trans h.queued
  answered := h'.answered.trans h.answered
  row id r hr := by
    obtain ⟨r₂, hr₂, hbatch, hdirection, hstate⟩ := h.row id r hr
    obtain ⟨r₃, hr₃, hbatch', hdirection', hstate'⟩ := h'.row id r₂ hr₂
    rw [h.answered] at hstate'
    exact ⟨r₃, hr₃, hbatch'.trans hbatch, hdirection'.trans hdirection,
      Acknowledged.trans hstate hstate'⟩
  old id r₃ hr₃ := by
    obtain ⟨r₂, hr₂⟩ := h'.old id r₃ hr₃
    exact h.old id r₂ hr₂

variable (created)

/-- Nothing of a queued batch is cancelled, and then the sender returns without an error. -/
def sendDiscipline : RelyGuarantee SendState SendAnswer where
  Inv s := s.queued = true → ∀ t ∈ created, ∀ r, s.base.table.get t.id = some r → r.state ≠ .canceled
  rely i s s' := i = 0 → SendRely created s s'
  guarantee _ _ := True
  Idle i _ := i ≠ 0
  Done i a s := i = 0 → s.queued = true → a = .sent none
  rely_refl _ _ _ := .of_table rfl rfl rfl
  rely_trans _ _ _ _ h h' hi := (h hi).trans (h' hi)
  guarantee_refl _ := trivial
  guarantee_trans _ _ := trivial
  idle_stable _ _ _ _ hidle := hidle
  done_stable _ _ _ _ h hdone hi hqueued := hdone hi ((h hi).queued ▸ hqueued)

/-- The program keeps to the discipline from the state on. -/
abbrev SendGuarded {β : Type} (i : ℕ) (Q : β → SendState → Prop) (p : Client β) (s : SendState) : Prop :=
  (sendDiscipline created).Guarded (patient created) performSend i Q p s

/-- A step within the discipline. -/
abbrev SendLegal (i : ℕ) (s s' : SendState) : Prop := (sendDiscipline created).Legal i s s'

/-! ### Calls that change few rows -/

variable {created} {i : ℕ} {s s' : SendState}

/-- The calls that change no row, or cancel a batch. -/
def Call.mild : Call → Bool
  | .createFileTransfersWithinLimits _ _ _ | .commitFileTransferOffset _ _ _
  | .completeFileTransferBatch _ | .expireFileTransfers _ | .receiptFileTransfer _ _ _ _ => false
  | _ => true

/-- The calls that change no row. -/
def Call.neutral (c : Call) : Bool := c.mild && match c with
  | .cancelFileTransferBatch _ => false
  | _ => true

variable {c : Call} {f : Fate}

/-- A mild call changes no row or cancels a batch, and queues nothing. -/
lemma table_of_mild {b b' : State} {r : c.Reply} (hc : c.mild = true)
    (h : perform i b c f = some (b', r)) :
    (b'.table = b.table ∨ c.neutral = false ∧ ∃ batchID, b'.table = (b.table.cancelFileTransferBatch batchID).1) ∧
      queues c r = false := by
  refine ⟨?_, by cases c <;> first | rfl | cases hc⟩
  by_cases hfails : c.atomic = true ∧ f ≠ .ok
  · rw [perform_of_ne_ok hfails.1 hfails.2] at h
    cases h
    exact .inl rfl
  cases c with
  | createFileTransfersWithinLimits ts m n | commitFileTransferOffset id e n
  | completeFileTransferBatch | expireFileTransfers | receiptFileTransfer => cases hc
  | cancelFileTransferBatch batchID =>
    obtain rfl : f = .ok := by simpa [Call.atomic] using hfails
    cases h
    exact .inr ⟨rfl, batchID, rfl⟩
  | lock | createFile | rename | link =>
    -- these look at the state before they change it
    cases f <;> simp only [perform] at h <;> repeat' split at h
    all_goals
      cases h
      try exact .inl (by simp [State.setName])
  | unlock key | fileTransfer id | fileTransfersByBatch batchID | expiredFileTransfers now
  | openFile kind id | truncate id n | write id pos bytes | sync id | stat kind id | readFile id
  | remove | syncDir =>
    cases f <;> obtain ⟨rfl, -⟩ := mk.inj (some.inj h) <;>
      exact .inl (by simp [State.setData, State.setName])

lemma alters_cancelBatch (t : Table) (batchID : String) :
    Alters (fun _ st st' => st' = st ∨ st' = .canceled) t (t.cancelFileTransferBatch batchID).1 := by
  simp only [cancelFileTransferBatch]
  split
  · exact .refl (fun _ _ => .inl rfl) t
  · dsimp only
    exact .update (fun _ _ => .inl rfl) fun _ _ => ⟨rfl, rfl, .inr rfl⟩

lemma table_of_neutral {b b' : State} {r : c.Reply} (hc : c.neutral = true)
    (h : perform i b c f = some (b', r)) : b'.table = b.table ∧ queues c r = false := by
  obtain ⟨htable, hqueues⟩ := table_of_mild (Bool.and_eq_true_iff.mp hc).1 h
  refine ⟨htable.resolve_right fun hnot => ?_, hqueues⟩
  rw [hc] at hnot
  cases hnot.1

/-- A served call is a call of the service. -/
lemma performSend_service {r : c.Reply} (h : performSend i s (.service c) f = some (s', r)) :
    perform i s.base c f = some (s'.base, r) ∧ s'.queued = (s.queued || queues c r) ∧
      s'.answered = s.answered := by
  obtain ⟨⟨b, r'⟩, hperform, heq⟩ := map_eq_some_iff.mp h
  cases heq
  exact ⟨hperform, rfl, rfl⟩

/-- The sender owes the others only the invariant. -/
lemma legal_sender (hinv : s'.queued = true → ∀ t ∈ created, ∀ r, s'.base.table.get t.id = some r →
    r.state ≠ .canceled) : SendLegal created 0 s s' :=
  ⟨hinv, trivial, fun _ hj hzero => absurd hzero hj⟩

/-! ### Before the batch is queued -/

/-- The rows of the batch, each in one of the states. -/
structure Rows (created : List FileTransfer) (batchID : String)
    (allowed : FileTransfer → TransferState → Prop) (t : Table) : Prop where
  rows : ∀ x ∈ created, ∃ r, t.get x.id = some r ∧ r.batchID = batchID ∧ r.direction = .pbhToPb ∧
    allowed x r.state
  all : ∀ id r, t.get id = some r → r.batchID = batchID → ∃ x ∈ created, x.id = id

variable {batchID : String} {t' : Table}

/-- The rows of the batch under altered states. -/
lemma Rows.alters {allowed allowed' : FileTransfer → TransferState → Prop} {t : Table}
    (h : Rows created batchID allowed t) (halters : Alters change t t')
    (hallowed : ∀ x ∈ created, ∀ st st', change x.id st st' → allowed x st → allowed' x st') :
    Rows created batchID allowed' t' where
  rows x hx := by
    obtain ⟨r, hr, hbatch, hdirection, hstate⟩ := h.rows x hx
    obtain ⟨r', hr', hbatch', hdirection', hchange⟩ := halters.row x.id r hr
    exact ⟨r', hr', hbatch'.trans hbatch, hdirection'.trans hdirection, hallowed x hx _ _ hchange hstate⟩
  all id r' hr' hbatch := by
    obtain ⟨r, hr⟩ := halters.old id r' hr'
    obtain ⟨_, hr'', hbatch', -⟩ := halters.row id r hr
    cases hr''.symm.trans hr'
    exact h.all id r hr (hbatch'.symm.trans hbatch)

lemma Rows.mono {allowed allowed' : FileTransfer → TransferState → Prop}
    (h : Rows created batchID allowed t') (hallowed : ∀ x st, allowed x st → allowed' x st) :
    Rows created batchID allowed' t' :=
  h.alters (.refl (fun _ _ => rfl) t') fun x _ st _ (heq : st = _) => heq ▸ hallowed x st

/-- The batch was not queued: its transfers are open or cancelled. -/
def Waiting (created : List FileTransfer) (batchID : String) (s : SendState) : Prop :=
  s.queued = false ∧ s.answered = [] ∧
    Rows created batchID (fun _ st => st.isOpen = true ∨ st = .canceled) s.base.table

variable {s s' : SendState}

/-- The recipient acknowledges no open transfer. -/
lemma stable_waiting (hrely : SendRely created s s') (h : Waiting created batchID s) :
    Waiting created batchID s' := by
  obtain ⟨hqueued, hanswered, hrows⟩ := h
  refine ⟨hrely.queued.trans hqueued, hrely.answered.trans hanswered,
    hrows.alters hrely.toAlters fun x _ st st' hstate hallowed => ?_⟩
  rcases hstate with rfl | ⟨hst, -⟩
  · exact hallowed
  · rcases hst with hst | hst | hst <;> rw [hst] at hallowed <;> simp [TransferState.isOpen] at hallowed

lemma legal_of_waiting (h : Waiting created batchID s') : SendLegal created 0 s s' :=
  legal_sender fun htrue => absurd (h.1.symm.trans htrue) Bool.false_ne_true

/-- Mild calls do not queue the batch. -/
lemma waiting_of_mild {r : c.Reply} (hc : c.mild = true) (hK : Waiting created batchID s)
    (h : performSend 0 s (.service c) f = some (s', r)) :
    SendLegal created 0 s s' ∧ Waiting created batchID s' := by
  obtain ⟨hqueued, hanswered, hrows⟩ := hK
  obtain ⟨hperform, hq, ha⟩ := performSend_service h
  obtain ⟨htable, hqueues⟩ := table_of_mild hc hperform
  have hK' : Waiting created batchID s' := by
    refine ⟨by rw [hq, hqueued, hqueues]; rfl, ha.trans hanswered, ?_⟩
    rcases htable with hsame | ⟨-, b, hcancel⟩
    · rw [hsame]
      exact hrows
    rw [hcancel]
    refine hrows.alters (alters_cancelBatch _ b) fun x _ st st' hstate hallowed => ?_
    rcases hstate with rfl | hcanceled
    · exact hallowed
    · exact .inr hcanceled
  exact ⟨legal_of_waiting hK', hK'⟩

variable {β : Type}

/-- A part of the service that makes mild calls only, before the batch is queued. -/
lemma guarded_waiting {p : Service β} (hp : p.Makes fun c => c.mild = true)
    (hK : Waiting created batchID s) :
    SendGuarded created 0 (fun _ s => Waiting created batchID s) (onService p) s := by
  have hmakes : (onService p).Makes fun c => ∃ c' : Call, c = .service c' ∧ c'.mild = true :=
    Makes.lift (hp.mono fun c hc => ⟨c, rfl, hc⟩)
  have hstable : ∀ s s', (sendDiscipline created).rely 0 s s' → (sendDiscipline created).Inv s' →
      Waiting created batchID s → Waiting created batchID s' :=
    fun _ _ hrely _ => stable_waiting (hrely rfl)
  refine Guarded.of_makes hstable ?_ hmakes hK
  rintro _ s f s' r ⟨c, rfl, hc⟩ hK _ _ hperform
  exact waiting_of_mild hc hK hperform

lemma mild_of_plain (hc : c.plain = true) : c.mild = true := by
  cases c <;> first | rfl | cases hc

/-- The sender may cancel a batch that was not queued. -/
lemma guarded_cancelTransfers (transfers : List FileTransfer) (hK : Waiting created batchID s) :
    SendGuarded created 0 (fun _ s => Waiting created batchID s) (cancelTransfers transfers) s := by
  induction transfers generalizing s with
  | nil => exact hK
  | cons t ts ih =>
    refine (guarded_waiting ?_ hK).bind fun _ s hK => ih hK
    unfold serveDelete
    refine .request_bind rfl fun owned => ?_
    rcases owned with _ | _
    · trivial
    simp only
    split
    · trivial
    · exact (makes_cancel (fun _ => mild_of_plain) (fun _ => rfl) t.id).bind fun _ => trivial

/-! ### After the batch is queued -/

/-- The batch was queued: its transfers are pending, or delivered after the answer for them. There was
no answer yet for the transfers in `rest`. -/
structure Queued (created : List FileTransfer) (batchID : String) (rest : List FileTransfer)
    (s : SendState) : Prop where
  named : batchID ≠ ""
  queued : s.queued = true
  unanswered : ∀ x ∈ rest, x.id ∉ s.answered
  rows : Rows created batchID (fun x st => st = .pending ∨ st = .delivered ∧ x.id ∈ s.answered)
    s.base.table

/-- The batch was not queued, or was and has no answer yet for the transfers in `rest`. -/
abbrev Stage (created : List FileTransfer) (batchID : String) (rest : List FileTransfer)
    (s : SendState) : Prop := Waiting created batchID s ∨ Queued created batchID rest s

variable {t : FileTransfer} {rest : List FileTransfer} (ht : t ∈ created)

include ht in
/-- A file without an answer stays pending, and no receipt for a failed download is recorded. -/
lemma stable_queued (hrely : SendRely created s s') (h : Queued created batchID (t :: rest) s) :
    Queued created batchID (t :: rest) s' := by
  have hfirst := h.unanswered t mem_cons_self
  refine ⟨h.named, hrely.queued.trans h.queued, ?_, ?_⟩
  · rw [hrely.answered]
    exact h.unanswered
  · rw [hrely.answered]
    refine h.rows.alters hrely.toAlters fun x hx st st' hstate hallowed => ?_
    rcases hstate with rfl | ⟨-, ⟨hdelivered, hanswered⟩ | ⟨-, hall⟩⟩
    · exact hallowed
    · exact .inr ⟨hdelivered, hanswered (mem_map_of_mem hx)⟩
    · exact absurd (hall (mem_map_of_mem hx) t ht) hfirst

/-- No transfer of a queued batch is cancelled. -/
lemma Queued.inv (h : Queued created batchID rest s) :
    s.queued = true → ∀ t ∈ created, ∀ r, s.base.table.get t.id = some r → r.state ≠ .canceled := by
  intro _ t ht r hr
  obtain ⟨_, hr', -, -, hstate⟩ := h.rows.rows t ht
  cases hr.symm.trans hr'
  rcases hstate with hstate | ⟨hstate, -⟩ <;> rw [hstate] <;> decide

/-- Neutral calls leave a queued batch alone. -/
lemma queued_of_neutral {r : c.Reply} (hc : c.neutral = true) (hK : Queued created batchID rest s)
    (h : performSend 0 s (.service c) f = some (s', r)) :
    SendLegal created 0 s s' ∧ Queued created batchID rest s' := by
  obtain ⟨hperform, hq, ha⟩ := performSend_service h
  obtain ⟨hsame, -⟩ := table_of_neutral hc hperform
  have hK' : Queued created batchID rest s' := by
    refine ⟨hK.named, ?_, ?_, ?_⟩
    · rw [hq, hK.queued]
      rfl
    · rw [ha]
      exact hK.unanswered
    · rw [ha, hsame]
      exact hK.rows
  exact ⟨legal_sender hK'.inv, hK'⟩

lemma guarded_sendCall {Q : β → SendState → Prop} {next : c.Reply → Service β} {K : SendState → Prop}
    (hs : K s) (hstable : ∀ s s', SendRely created s s' → K s → K s')
    (hcall : ∀ s f s' r, K s → (patient created).allows 0 s (.service c) f →
      performSend 0 s (.service c) f = some (s', r) →
      SendLegal created 0 s s' ∧ SendGuarded created 0 Q (onService (next r)) s') :
    SendGuarded created 0 Q (onService (request c >>= next)) s := by
  intro s₁ hrely _ f s₂ r hallowed hperform
  exact hcall s₁ f s₂ r (hstable s s₁ (hrely rfl) hs) hallowed hperform

section
variable {Q : β → SendState → Prop} {next : c.Reply → Service β}

/-- A call that keeps what holds before it. -/
lemma guarded_keeps {K : SendState → Prop} (hstable : ∀ s s', SendRely created s s' → K s → K s')
    (hstep : ∀ s f s' r, K s → performSend 0 s (.service c) f = some (s', r) →
      SendLegal created 0 s s' ∧ K s')
    (hK : K s) (hnext : ∀ s s' r, K s → K s' →
      (c.onStore = true → perform 0 s.base c .ok = some (s'.base, r)) →
      SendGuarded created 0 Q (onService (next r)) s') :
    SendGuarded created 0 Q (onService (request c >>= next)) s := by
  refine guarded_sendCall hK hstable fun s f s' r hK hallowed hperform => ?_
  obtain ⟨hlegal, hK'⟩ := hstep s f s' r hK hperform
  exact ⟨hlegal, hnext s s' r hK hK' fun hstore => hallowed.1 hstore ▸ (performSend_service hperform).1⟩

lemma guarded_mild (hc : c.mild = true) (hK : Waiting created batchID s)
    (hnext : ∀ s s' r, Waiting created batchID s → Waiting created batchID s' →
      (c.onStore = true → perform 0 s.base c .ok = some (s'.base, r)) →
      SendGuarded created 0 Q (onService (next r)) s') :
    SendGuarded created 0 Q (onService (request c >>= next)) s :=
  guarded_keeps (fun _ _ => stable_waiting) (fun _ _ _ _ => waiting_of_mild hc) hK hnext

include ht

lemma guarded_neutral (hc : c.neutral = true) (hK : Queued created batchID (t :: rest) s)
    (hnext : ∀ s s' r, Queued created batchID (t :: rest) s → Queued created batchID (t :: rest) s' →
      (c.onStore = true → perform 0 s.base c .ok = some (s'.base, r)) →
      SendGuarded created 0 Q (onService (next r)) s') :
    SendGuarded created 0 Q (onService (request c >>= next)) s :=
  guarded_keeps (fun _ _ => stable_queued ht) (fun _ _ _ _ => queued_of_neutral hc) hK hnext

/-- A call that changes no row, when it is open whether the batch was queued. -/
lemma guarded_stage (hc : c.neutral = true) (hK : Stage created batchID (t :: rest) s)
    (hnext : ∀ s s' r, Stage created batchID (t :: rest) s → Stage created batchID (t :: rest) s' →
      (c.onStore = true → perform 0 s.base c .ok = some (s'.base, r)) →
      SendGuarded created 0 Q (onService (next r)) s') :
    SendGuarded created 0 Q (onService (request c >>= next)) s := by
  refine guarded_keeps (fun _ _ h => Or.imp (stable_waiting h) (stable_queued ht h)) ?_ hK hnext
  rintro s f s' r (hK | hK) hperform
  · exact (waiting_of_mild (Bool.and_eq_true_iff.mp hc).1 hK hperform).imp_right .inl
  · exact (queued_of_neutral hc hK hperform).imp_right .inr

end

include ht

/-- A file without an answer is read as pending. -/
lemma pending_of_read {row : Option FileTransfer} {b : State} (hK : Queued created batchID (t :: rest) s)
    (h : perform 0 s.base (.fileTransfer t.id) .ok = some (b, row)) :
    ∃ r, row = some r ∧ r.state = .pending ∧ r.direction = .pbhToPb ∧ r.batchID = batchID := by
  obtain ⟨r, hr, hbatch, hdirection, hstate⟩ := hK.rows.rows t ht
  obtain ⟨-, rfl⟩ := mk.inj (some.inj h)
  refine ⟨r, hr, ?_, hdirection, hbatch⟩
  rcases hstate with hstate | ⟨-, hanswered⟩
  · exact hstate
  · exact absurd hanswered (hK.unanswered t mem_cons_self)

lemma read_of_stage {row : Option FileTransfer} {b : State} (hK : Stage created batchID (t :: rest) s)
    (h : perform 0 s.base (.fileTransfer t.id) .ok = some (b, row)) :
    ∃ r, row = some r ∧ r.direction = .pbhToPb ∧ r.batchID = batchID := by
  rcases hK with hK | hK
  · obtain ⟨r, hr, hbatch, hdirection, -⟩ := hK.2.2.rows t ht
    obtain ⟨-, rfl⟩ := mk.inj (some.inj h)
    exact ⟨r, hr, hdirection, hbatch⟩
  · obtain ⟨r, hr, -, hrow⟩ := pending_of_read ht hK h
    exact ⟨r, hr, hrow⟩

/-- What `Complete` returns for a queued file. -/
def ReturnsPending (result : Except Code FileTransfer) : Prop :=
  ∃ r, result = .ok r ∧ r.state = .pending ∧ r.direction = .pbhToPb

lemma guarded_readBack_queued (hK : Queued created batchID (t :: rest) s) :
    SendGuarded created 0 (fun res s => Queued created batchID (t :: rest) s ∧ ReturnsPending res)
      (onService (readBack t.id)) s := by
  refine guarded_neutral ht rfl hK fun s s' row hK hK' hrow => ?_
  obtain ⟨r, rfl, hstate, hdirection, -⟩ := pending_of_read ht hK (hrow rfl)
  exact ⟨hK', r, rfl, hstate, hdirection⟩

variable {r : FileTransfer}

omit ht in
/-- When the statement reports success, all the rows of the batch are pending. -/
lemma rows_completeBatch {t : Table} (hcreated : created ≠ [])
    (h : Rows created batchID (fun _ st => st.isOpen = true ∨ st = .canceled) t)
    (hcomplete : t.completeFileTransferBatch batchID = some t') :
    Rows created batchID (fun _ st => st = .pending) t' := by
  simp only [completeFileTransferBatch] at hcomplete
  split at hcomplete
  · split at hcomplete
    · next hterminal =>
      -- an open or cancelled row is not terminal
      obtain ⟨x, hx⟩ := exists_mem_of_ne_nil created hcreated
      obtain ⟨r, hr, hbatch, -, hstate⟩ := h.rows x hx
      have hall := of_count_eq (fun r hr => (Bool.and_eq_true_iff.mp hr).1) hterminal hr
        (decide_eq_true hbatch)
      have hst := (Bool.and_eq_true_iff.mp hall).2
      rcases hstate with hstate | hstate
      · cases hs : r.state <;> rw [hs] at hst hstate <;> cases hst <;> cases hstate
      · rw [hstate] at hst
        cases hst
    · cases hcomplete
  · next hready =>
    cases hcomplete
    have hcount : t.count (ready batchID) = t.count fun r => r.batchID = batchID := by
      by_contra hne
      exact hready (.inr hne)
    have hall : ∀ id r, t.get id = some r → r.batchID = batchID → ready batchID r = true :=
      fun id r hr hbatch => of_count_eq
        (fun r hr => (Bool.and_eq_true_iff.mp (Bool.and_eq_true_iff.mp hr).1).1) hcount hr
        (decide_eq_true hbatch)
    constructor
    · intro x hx
      obtain ⟨r, hr, hbatch, hdirection, -⟩ := h.rows x hx
      rw [get_update, hr, map_some, if_pos (hall x.id r hr hbatch)]
      exact ⟨_, rfl, hbatch, hdirection, by rw [hdirection]; rfl⟩
    · intro id r' hr' hbatch
      rw [get_update] at hr'
      obtain ⟨r, hr, rfl⟩ := map_eq_some_iff.mp hr'
      refine h.all id r hr ?_
      split at hbatch <;> exact hbatch

/-! ### The sender -/

/-- `Complete` has failed before the batch is queued, or returned a pending row. -/
def Completed (created : List FileTransfer) (batchID : String) (rest : List FileTransfer)
    (result : Except Code FileTransfer) (s : SendState) : Prop :=
  (∃ e, result = .error e) ∧ Waiting created batchID s ∨ Queued created batchID rest s ∧ ReturnsPending result

variable (sha256 : List UInt8 → String)

/-- `Complete` under the lock, before the batch is queued. -/
lemma guarded_completeLocked_waiting (rest : List FileTransfer) (hK : Waiting created batchID s) :
    SendGuarded created 0 (Completed created batchID (t :: rest))
      (onService (completeLocked sha256 t.id batchID)) s := by
  unfold completeLocked
  refine guarded_mild rfl hK fun s s' transfers hK hK' hrow => ?_
  obtain ⟨-, rfl⟩ := mk.inj (some.inj (hrow rfl))
  rcases hlist : s.base.table.fileTransfersByBatch batchID with _ | transfers
  · exact .inl ⟨⟨_, rfl⟩, hK'⟩
  have hnamed : batchID ≠ "" := by
    rintro rfl
    cases hlist
  simp only [completeRows]
  split
  · next hterminal =>
    -- the row of this transfer is on the list and is not terminal
    obtain ⟨r, hr, hbatch, -, hstate⟩ := hK.2.2.rows t ht
    have hmem : r ∈ transfers := by
      simp only [fileTransfersByBatch] at hlist
      split at hlist
      · cases hlist
      · rw [← some.inj hlist, mem_ofBatch, s.base.table.id_of_get hr]
        exact ⟨hr, hbatch⟩
    have hst := all_eq_true.mp hterminal r hmem
    rcases hstate with hstate | hstate
    · cases hs : r.state <;> rw [hs] at hst hstate <;> cases hst <;> cases hstate
    · rw [hstate] at hst
      cases hst
  rw [onService, lift_bind]
  refine (guarded_waiting (makes_verify (fun _ => mild_of_plain) (fun _ => rfl) sha256 transfers
    fun _ _ _ => rfl) hK').bind fun e s hK => ?_
  cases e with
  | some => exact .inl ⟨⟨_, rfl⟩, hK⟩
  | none =>
    simp only [lift_bind]
    refine (guarded_waiting (makes_renameFiles (fun _ => mild_of_plain) [] transfers) hK).bind
      fun ok s hK => ?_
    rcases ok with _ | _
    · exact .inl ⟨⟨_, rfl⟩, hK⟩
    refine guarded_mild rfl hK fun _ s synced _ hK _ => ?_
    rcases synced with _ | _
    · exact .inl ⟨⟨_, rfl⟩, hK⟩
    refine guarded_sendCall hK (fun _ _ => stable_waiting) fun s f s' completed hK hallowed hperform => ?_
    obtain rfl : f = .ok := hallowed.1 rfl
    obtain ⟨hperform', hq, ha⟩ := performSend_service hperform
    simp only [perform] at hperform'
    split at hperform' <;> obtain ⟨hbase, rfl⟩ := mk.inj (some.inj hperform')
    · next table htable =>
      have hrows := rows_completeBatch (ne_nil_of_mem ht) hK.2.2 htable
      have hqueued : Queued created batchID (t :: rest) s' := by
        refine ⟨hnamed, ?_, fun x _ => ?_, ?_⟩
        · rw [hq, hK.1]
          rfl
        · rw [ha, hK.2.1]
          exact not_mem_nil
        · rw [← hbase]
          exact hrows.mono fun _ _ h => .inl h
      refine ⟨legal_sender hqueued.inv, ?_⟩
      exact (guarded_readBack_queued ht hqueued).mono fun _ _ h => .inr h
    · have hwaiting : Waiting created batchID s' := by
        refine ⟨?_, ha.trans hK.2.1, hbase ▸ hK.2.2⟩
        rw [hq, hK.1]
        rfl
      exact ⟨legal_of_waiting hwaiting, .inl ⟨⟨_, rfl⟩, hwaiting⟩⟩

/-- `Complete` under the lock, after the batch was queued. -/
lemma guarded_completeLocked_queued (hK : Queued created batchID (t :: rest) s) :
    SendGuarded created 0 (Completed created batchID (t :: rest))
      (onService (completeLocked sha256 t.id batchID)) s := by
  unfold completeLocked
  refine guarded_neutral ht rfl hK fun s s' transfers hK hK' hrow => ?_
  obtain ⟨-, rfl⟩ := mk.inj (some.inj (hrow rfl))
  -- every row of the batch is pending or delivered
  have hterminal : ∀ r ∈ s.base.table.ofBatch batchID, r.state.isTerminal = true := by
    intro r hr
    obtain ⟨hr, hbatch⟩ := (s.base.table.mem_ofBatch).mp hr
    obtain ⟨x, hx, hid⟩ := hK.rows.all r.id r hr hbatch
    obtain ⟨_, hr', -, -, hstate⟩ := hK.rows.rows x hx
    rw [hid] at hr'
    cases hr.symm.trans hr'
    rcases hstate with hstate | ⟨hstate, -⟩ <;> rw [hstate] <;> rfl
  have hlist : s.base.table.fileTransfersByBatch batchID = some (s.base.table.ofBatch batchID) := by
    obtain ⟨r, hr, hbatch, -⟩ := hK.rows.rows t ht
    have hmem : r ∈ s.base.table.ofBatch batchID := by
      rw [mem_ofBatch, s.base.table.id_of_get hr]
      exact ⟨hr, hbatch⟩
    rw [fileTransfersByBatch, if_neg]
    rintro (h | h)
    · exact hK.named h
    · rw [h] at hmem
      cases hmem
  rw [hlist]
  simp only [completeRows, all_eq_true.mpr hterminal, if_true]
  exact (guarded_readBack_queued ht hK').mono fun _ _ h => .inr h

/-- `Complete` fails before the batch is queued, or returns the pending row. -/
lemma guarded_complete (hK : Stage created batchID (t :: rest) s) :
    SendGuarded created 0 (Completed created batchID (t :: rest)) (onService (complete sha256 t.id)) s := by
  unfold complete
  refine guarded_stage ht rfl hK fun s s' row hK hK' hrow => ?_
  obtain ⟨r, rfl, -, hbatch⟩ := read_of_stage ht hK (hrow rfl)
  simp only [hbatch]
  refine guarded_stage ht rfl hK' fun _ s' _ _ hK' _ => ?_
  -- the lock is given back at the end, which changes nothing here
  rw [onService, lift_bind]
  refine (hK'.elim (guarded_completeLocked_waiting ht sha256 rest)
    (guarded_completeLocked_queued ht sha256)).bind fun res s h => ?_
  rcases h with ⟨herror, hK⟩ | ⟨hK, hok⟩
  · exact guarded_mild rfl hK fun _ _ _ _ hK _ => .inl ⟨herror, hK⟩
  · exact guarded_neutral ht rfl hK fun _ _ _ _ hK _ => .inr ⟨hK, hok⟩

/-- A complete request fails before the batch is queued, or reports a pending file. -/
lemma guarded_serveComplete (hK : Stage created batchID (t :: rest) s) :
    SendGuarded created 0 (fun res s => res = none ∧ Waiting created batchID s ∨
        Queued created batchID (t :: rest) s ∧ ∃ r, res = some (r, "pending"))
      (onService (serveComplete sha256 t.id)) s := by
  unfold serveComplete
  refine guarded_stage ht rfl hK fun s s' row hK hK' hrow => ?_
  obtain ⟨owned, rfl, howned, -⟩ := read_of_stage ht hK (hrow rfl)
  simp only [howned, ne_eq, not_true_eq_false, if_false]
  rw [onService, lift_bind]
  refine (guarded_complete ht sha256 hK').bind fun res s h => ?_
  rcases h with ⟨⟨e, rfl⟩, hK⟩ | ⟨hK, r, rfl, hstate, hdirection⟩
  · exact .inl ⟨rfl, hK⟩
  · simp only [hdirection, if_true, resultCodeOf, hstate]
    exact .inr ⟨hK, r, rfl⟩

/-- The answer to a complete request. -/
lemma guarded_answered {Q : β → SendState → Prop} {next : Unit → Client β}
    (hnodup : ((t :: rest).map (·.id)).Nodup) (hK : Queued created batchID (t :: rest) s)
    (hnext : ∀ s, Queued created batchID rest s → SendGuarded created 0 Q (next ()) s) :
    SendGuarded created 0 Q (Prog.request (SendCall.answered t.id) >>= next) s := by
  intro s₁ hrely _ f s₂ r _ hperform
  have hK₁ := stable_queued ht (hrely rfl) hK
  cases hperform
  have hK₂ : Queued created batchID rest { s₁ with answered := t.id :: s₁.answered } := by
    refine ⟨hK₁.named, hK₁.queued, fun x hx hmem => ?_, ?_⟩
    · rcases mem_cons.mp hmem with heq | hmem
      · have hnot : t.id ∉ rest.map (·.id) := (nodup_cons.mp hnodup).1
        exact hnot (heq ▸ mem_map_of_mem hx)
      · exact hK₁.unanswered x (mem_cons_of_mem _ hx) hmem
    · exact hK₁.rows.mono fun x _ h => h.imp_right fun h => ⟨h.1, mem_cons_of_mem _ h.2⟩
  exact ⟨legal_sender hK₂.inv, hnext _ hK₂⟩

omit ht

/-- The first request decides; for the others the batch is queued. -/
lemma guarded_sendCompletes {transfers : List FileTransfer} (hsub : ∀ t ∈ transfers, t ∈ created)
    (hnodup : (transfers.map (·.id)).Nodup) (hK : Stage created batchID transfers s) :
    SendGuarded created 0 (fun e s => s.queued = true → e = none)
      (sendCompletes sha256 created transfers) s := by
  induction transfers generalizing s with
  | nil => exact fun _ => rfl
  | cons t rest ih =>
    have ht : t ∈ created := hsub t mem_cons_self
    unfold sendCompletes
    refine (guarded_serveComplete ht sha256 hK).bind fun res s h => ?_
    rcases h with ⟨rfl, hK⟩ | ⟨hK, r, rfl⟩
    · refine (guarded_cancelTransfers created hK).bind fun _ s hK htrue => ?_
      rw [hK.1] at htrue
      cases htrue
    · refine guarded_answered ht hnodup hK fun s hK => ?_
      exact ih (fun x hx => hsub x (mem_cons_of_mem _ hx)) (nodup_cons.mp hnodup).2 (.inr hK)

/-! ### The recipient -/

/-- The calls of the recipient. -/
def Call.receives (c : Call) : Bool := c.neutral || match c with
  | .receiptFileTransfer _ _ _ _ => true
  | _ => false

/-- A timely receipt acknowledges its file. -/
lemma alters_receipt {t : Table} {clientID resultCode receiptPath : String}
    (hwhen : id ∈ created.map (·.id) →
      if resultCode = "stored" then id ∈ answered else ∀ x ∈ created, x.id ∈ answered)
    (h : t.receiptFileTransfer id clientID resultCode receiptPath = some t') :
    Alters (fun id st st' => st' = st ∨ Acknowledged created answered id st st') t t' := by
  unfold receiptFileTransfer at h
  split at h
  · cases h
  cases h
  refine .update (fun _ _ => .inl rfl) fun r hmatch => ?_
  simp only [receivable, Bool.and_eq_true, Bool.or_eq_true, decide_eq_true_eq] at hmatch
  obtain ⟨⟨⟨rfl, -⟩, -⟩, hstate⟩ := hmatch
  refine ⟨rfl, rfl, .inr ⟨?_, ?_⟩⟩
  · rcases hstate with hstate | ⟨⟨hstate | hstate, -⟩, -⟩
    · exact .inl hstate
    · exact .inr (.inl hstate)
    · exact .inr (.inr hstate)
  · by_cases hstored : resultCode = "stored"
    · rw [if_pos hstored] at hwhen
      exact .inl ⟨if_pos hstored, hwhen⟩
    · rw [if_neg hstored] at hwhen
      exact .inr ⟨if_neg hstored, hwhen⟩

lemma legal_recipient (hinv : (sendDiscipline created).Inv s) (hrely : SendRely created s s') :
    SendLegal created i s s' := by
  refine ⟨fun hqueued t ht r' hr' hcanceled => ?_, trivial, fun _ _ _ => hrely⟩
  rw [hrely.queued] at hqueued
  obtain ⟨r, hr⟩ := hrely.old t.id r' hr'
  obtain ⟨_, hr'', -, -, hstate⟩ := hrely.row t.id r hr
  cases hr''.symm.trans hr'
  rcases hstate with hsame | ⟨-, ⟨hstate, -⟩ | ⟨hstate, -⟩⟩
  · exact hinv hqueued t ht r hr (hsame ▸ hcanceled)
  · rw [hcanceled] at hstate
    cases hstate
  · rw [hcanceled] at hstate
    cases hstate

/-- The calls of the recipient keep to the discipline. -/
lemma legal_receives {r : c.Reply} (hc : c.receives = true) (hinv : (sendDiscipline created).Inv s)
    (hallowed : (patient created).allows i s (.service c) f)
    (h : performSend i s (.service c) f = some (s', r)) : SendLegal created i s s' := by
  obtain ⟨hperform, hq, ha⟩ := performSend_service h
  by_cases hneutral : c.neutral = true
  · obtain ⟨hsame, hqueues⟩ := table_of_neutral hneutral hperform
    exact legal_recipient hinv (.of_table (by rw [hq, hqueues, Bool.or_false]) ha hsame)
  · cases c with
    | receiptFileTransfer =>
      obtain rfl : f = .ok := hallowed.1 rfl
      have hwhen := of_decide_eq_true hallowed.2
      have hqueued : s'.queued = s.queued := by
        rw [hq]
        exact Bool.or_false _
      simp only [perform] at hperform
      split at hperform
      · next table htable =>
        obtain ⟨hbase, -⟩ := mk.inj (some.inj hperform)
        exact legal_recipient hinv
          (.of_alters hqueued ha (congrArg State.table hbase.symm) (alters_receipt hwhen htable))
      · obtain ⟨hbase, -⟩ := mk.inj (some.inj hperform)
        exact legal_recipient hinv (.of_table hqueued ha (congrArg State.table hbase.symm))
    | _ =>
      simp only [Call.receives, Bool.or_false] at hc
      exact absurd hc hneutral

lemma makes_recipient (o : Recipient) :
    o.program.Makes fun c => ∃ c' : Call, c = .service c' ∧ c'.receives = true := by
  have hlift : ∀ {β : Type} {p : Service β}, (p.Makes fun c => c.receives = true) →
      (onService p).Makes fun c => ∃ c' : Call, c = .service c' ∧ c'.receives = true :=
    fun hp => Makes.lift (hp.mono fun c hc => ⟨c, rfl, hc⟩)
  have hplain : ∀ c : Call, c.plain = true → c.receives = true := by
    intro c hc
    cases c <;> first | rfl | cases hc
  cases o with
  | download => exact (hlift (makes_openContent hplain rfl)).bind fun _ => trivial
  | receipt =>
    refine Makes.bind (hlift ?_) fun _ => trivial
    refine .request_bind rfl fun transfer => ?_
    rcases transfer with _ | _
    · trivial
    simp only
    split
    · trivial
    · exact (makes_receipt hplain rfl).bind fun _ => trivial

/-- The recipient keeps to the discipline. -/
lemma disciplined_exchange : (sendDiscipline created).Disciplined exchange (patient created) where
  program o i s _ _ hidle := by
    have hguarded : SendGuarded created i (fun _ _ => True) o.program s := by
      refine Guarded.of_makes (fun _ _ _ _ _ => trivial) ?_ (makes_recipient o) trivial
      rintro _ s f s' r ⟨c, rfl, hc⟩ - hinv hallowed hperform
      exact ⟨legal_receives hc hinv hallowed hperform, trivial⟩
    exact hguarded.mono fun _ _ _ hzero => absurd hzero hidle
  crash _ _ hcrash := hcrash.elim

/-- The sender starts within the discipline. -/
lemma sound_sendBatch {s : State} (h : Uploaded created batchID s) :
    (sendDiscipline created).Sound exchange (patient created) (sendBatch sha256 created s) where
  inv hqueued := by cases hqueued
  idle i hi := by
    rintro rfl
    cases hi
  guarded i q hq := by
    have hi : i = 0 ∧ q = (do return .sent (← sendCompletes sha256 created created)) := by
      have hmem := (FinMap.lookup_eq_some_iff_mem _ _ _).mp hq
      simp only [sendBatch, AList.singleton, mem_singleton] at hmem
      cases hmem
      exact ⟨rfl, rfl⟩
    obtain ⟨rfl, rfl⟩ := hi
    refine guarded_bind.mpr ?_
    have hK : Waiting created batchID (sendBatch sha256 created s).shared := by
      refine ⟨rfl, rfl, fun x hx => ?_, h.all⟩
      obtain ⟨r, hr, hbatch, hdirection, hopen⟩ := h.rows x hx
      exact ⟨r, hr, hbatch, hdirection, .inl hopen⟩
    refine (guarded_sendCompletes sha256 (fun _ h => h) h.nodup (.inl hK)).mono fun e s he _ hqueued => ?_
    rw [he hqueued]

end

/-- Let the store not fail and the recipient be patient. Once the batch is queued, none of its transfers
is cancelled, and if `SendBatch` has returned, it has returned no error. -/
theorem queued_batch_not_cancelled (sha256 : List UInt8 → String) {created : List FileTransfer}
    {batchID : String} {s : State} (hbatch : Uploaded created batchID s)
    {p : Pool SendState SendCall.Reply SendAnswer} {l : List (Move Fate Recipient)}
    (hpatient : Meets exchange.step (patient created).Permits (sendBatch sha256 created s) l)
    (hrun : run exchange.step (sendBatch sha256 created s) l = some p) (hqueued : p.shared.queued = true) :
    (∀ t ∈ created, ∀ r, p.shared.base.table.get t.id = some r → r.state ≠ .canceled) ∧
      ∀ a, p.threads.lookup 0 = some (.ret a) → a = .sent none := by
  obtain ⟨hsound, -⟩ := (sound_sendBatch sha256 hbatch).run disciplined_exchange hpatient hrun
  exact ⟨hsound.inv hqueued, fun a ha => hsound.done ha rfl hqueued⟩

/-! ### Runs -/

/-- A digest function for the runs. -/
def constantDigest (_ : List UInt8) : String := digits '0'

/-- An empty file for the recipient. -/
def emptyFile (id : String) : FileTransfer where
  id := id
  batchID := "batch"
  direction := .pbhToPb
  sessionID := "session"
  clientID := "client"
  basename := id
  size := 0
  sha256 := constantDigest []
  committedOffset := 0
  state := .created
  resultCode := ""
  receiptPath := ""
  createdAt := 0
  expiresAt := 600000000000

/-- A batch of two files. -/
def twoFiles : List FileTransfer := [emptyFile "a", emptyFile "b"]

/-- The service after the files were created. -/
def twoFilesCreated : State where
  table := match Table.empty.insertAll twoFiles with
    | .ok t => t
    | .error _ => .empty
  files := (AList.singleton "a" ⟨[], fun kind => kind = .part⟩ : FinMap String File).insert "b"
    ⟨[], fun kind => kind = .part⟩
  locks := ∅
  expiring := ∅

/-- The calls of a thread, all of which succeed. -/
def succeeds (i n : ℕ) : List (Move Fate Recipient) := List.replicate n (.call i .ok)

/-- The second file is stored before the sender asks for it. -/
def storedEarly : List (Move Fate Recipient) :=
  succeeds 0 19 ++ .start 1 (.receipt "b" "stored" "Paperboat Inbox/b") :: succeeds 1 4 ++ succeeds 0 33

/-- The download of the first file fails before the sender asks for the second. -/
def failedEarly : List (Move Fate Recipient) :=
  succeeds 0 19 ++ .start 1 (.receipt "a" "storage_unavailable" "") :: succeeds 1 4 ++
    succeeds 0 31

/-- The answer of a program that has returned. -/
def Client.answer {α : Type} : Client α → Option α
  | .ret a => some a
  | .call _ _ => none

/-- Whether the batch was queued, the answer of the sender and the states of the two files. -/
def verdict (l : List (Move Fate Recipient)) : Option (Bool × Option (Option SendAnswer) ×
    Option TransferState × Option TransferState) :=
  (run exchange.step (sendBatch constantDigest twoFiles twoFilesCreated) l).map fun p =>
    (p.shared.queued, (p.threads.lookup 0).map Client.answer,
      (p.shared.base.table.get "a").map (·.state), (p.shared.base.table.get "b").map (·.state))

/-- The sender cancels a queued batch: when the second file is stored before its complete request, and
when the download of the first file fails before the complete request for the second. -/
theorem queued_batch_cancelled : verdict storedEarly =
      some (true, some (some (.sent (some .notQueued))), some .canceled, some .delivered) ∧
    verdict failedEarly =
      some (true, some (some (.sent (some .response))), some .failed, some .canceled) := by
  refine ⟨?_, ?_⟩ <;> decide +kernel

instance (created : List FileTransfer) (p : Pool SendState SendCall.Reply SendAnswer)
    (a : Move Fate Recipient) : Decidable ((patient created).Permits p a) :=
  (patient created).decidablePermits (fun _ _ => inferInstanceAs (Decidable True))
    (fun _ s c f => match c with
      | .service c => inferInstanceAs
        (Decidable ((c.onStore = true → f = .ok) ∧ c.timely created s.answered = true))
      | .answered _ => inferInstanceAs (Decidable True))
    (fun _ => inferInstanceAs (Decidable False)) p a

/-- The first file is stored after its answer, and the download of the second fails after both. -/
def timelyReceipts : List (Move Fate Recipient) :=
  succeeds 0 19 ++ .start 1 (.receipt "a" "stored" "Paperboat Inbox/a") :: succeeds 1 4 ++ succeeds 0 7 ++
    .start 2 (.receipt "b" "storage_unavailable" "") :: succeeds 2 4

lemma uploaded_twoFiles : Uploaded twoFiles "batch" twoFilesCreated where
  rows t ht := by
    simp only [twoFiles, mem_cons, not_mem_nil, or_false] at ht
    rcases ht with rfl | rfl
    · exact ⟨emptyFile "a", by decide +kernel, rfl, rfl, rfl⟩
    · exact ⟨emptyFile "b", by decide +kernel, rfl, rfl, rfl⟩
  all id r hr _ := by
    have hall : twoFilesCreated.table.all = [emptyFile "b", emptyFile "a"] := by decide +kernel
    have hmem := twoFilesCreated.table.mem_all_of_get hr
    rw [hall] at hmem
    refine ⟨r, ?_, twoFilesCreated.table.id_of_get hr⟩
    simp only [twoFiles, mem_cons, not_mem_nil, or_false] at hmem ⊢
    exact hmem.symm
  nodup := by decide +kernel

/-- With timely receipts the sender returns without an error. -/
theorem timelyReceipts_not_cancelled :
    ∃ p, run exchange.step (sendBatch constantDigest twoFiles twoFilesCreated) timelyReceipts = some p ∧
      (∀ t ∈ twoFiles, ∀ r, p.shared.base.table.get t.id = some r → r.state ≠ .canceled) ∧
      p.threads.lookup 0 = some (.ret (.sent none)) := by
  have hpatient : Meets exchange.step (patient twoFiles).Permits
      (sendBatch constantDigest twoFiles twoFilesCreated) timelyReceipts := by
    decide +kernel
  have heval : (run exchange.step (sendBatch constantDigest twoFiles twoFilesCreated) timelyReceipts).map
      (fun p => (p.shared.queued, (p.threads.lookup 0).any Prog.finished)) = some (true, true) := by
    decide +kernel
  obtain ⟨p, hrun, hview⟩ := map_eq_some_iff.mp heval
  obtain ⟨hqueued, hfinished⟩ := Prod.mk.inj hview
  obtain ⟨hstates, hanswer⟩ :=
    queued_batch_not_cancelled constantDigest uploaded_twoFiles hpatient hrun hqueued
  refine ⟨p, hrun, hstates, ?_⟩
  rcases hthread : p.threads.lookup 0 with _ | q
  · simp [hthread] at hfinished
  cases q with
  | ret a => rw [hanswer a hthread]
  | call => simp [hthread, Prog.finished] at hfinished

end Paperboat.Transfer

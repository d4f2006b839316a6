import Paperboat.FileTransfer.Discipline

/-!
# The state machine of file transfers

What any sequence of statements on the table of `internal/store/store.go` does to a transfer.
`Advances` is what a statement can do to a row, and `Recorded` what every row satisfies.
-/

namespace Paperboat.Transfer

open TransferState Option Table

/-! ### Statements -/

/-- A statement; `CreateFileTransfers` and `CreateFileTransfersWithinSpool` are creations without the
limits, which are zero then. -/
inductive Statement where
  | createFileTransfersWithinLimits (transfers : List FileTransfer) (maxSpoolBytes maxActiveBatches : ℤ)
  | commitFileTransferOffset (id : String) (expected next : ℤ)
  | completeFileTransferBatch (batchID : String)
  | cancelFileTransferBatch (batchID : String)
  | cancelFileTransfer (id : String)
  | expireFileTransfers (transfers : List FileTransfer)
  | receiptFileTransfer (id clientID resultCode receiptPath : String)
  deriving DecidableEq

/-- What a statement makes of the table, and whether it reports success. -/
def Statement.exec (t : Table) : Statement → Table × Bool
  | createFileTransfersWithinLimits transfers maxSpoolBytes maxActiveBatches =>
    match t.createFileTransfersWithinLimits transfers maxSpoolBytes.toNat maxActiveBatches.toNat with
    | .ok t' => (t', true)
    | .error _ => (t, false)
  | commitFileTransferOffset id expected next =>
    if expected < 0 ∨ next < expected then (t, false)
    else
      match t.commitFileTransferOffset id expected.toNat next.toNat with
      | some t' => (t', true)
      | none => (t, false)
  | completeFileTransferBatch batchID =>
    match t.completeFileTransferBatch batchID with
    | some t' => (t', true)
    | none => (t, false)
  | cancelFileTransferBatch batchID => t.cancelFileTransferBatch batchID
  | cancelFileTransfer id => t.cancelFileTransfer id
  | expireFileTransfers transfers => (t.expireFileTransfers transfers, true)
  | receiptFileTransfer id clientID resultCode receiptPath =>
    match t.receiptFileTransfer id clientID resultCode receiptPath with
    | some t' => (t', true)
    | none => (t, false)

/-- The table after a sequence of statements. -/
def after : Table → List Statement → Table
  | t, [] => t
  | t, a :: l => after (a.exec t).1 l

/-! ### Rows -/

/-- What a statement can do to a row: a settled row stays as it is, the offset changes only while the
transfer is open, and no transfer becomes active again. -/
structure Advances (r r' : FileTransfer) : Prop extends Becomes r r' where
  clientID : r'.clientID = r.clientID
  direction : r'.direction = r.direction
  settled_eq : r.state.rank = 2 → r' = r
  held : r'.committedOffset ≠ r.committedOffset → r.state.rank = 0
  active : r'.state.isActive = true → r.state.isActive = true

/-- A row that stays has advanced. -/
lemma Advances.refl (r : FileTransfer) : Advances r r :=
  ⟨.refl r, rfl, rfl, fun _ => rfl, fun h => absurd rfl h, id⟩

/-- Advances compose. -/
lemma Advances.trans {r₁ r₂ r₃ : FileTransfer} (h : Advances r₁ r₂) (h' : Advances r₂ r₃) :
    Advances r₁ r₃ where
  toBecomes := h.toBecomes.trans h'.toBecomes
  clientID := h'.clientID.trans h.clientID
  direction := h'.direction.trans h.direction
  settled_eq htwo := (h'.settled_eq (h.toBecomes.settled htwo)).trans (h.settled_eq htwo)
  held hne := by
    by_cases hfirst : r₂.committedOffset = r₁.committedOffset
    · have hzero := h'.held fun heq => hne (heq.trans hfirst)
      have hrank := h.rank
      omega
    · exact h.held hfirst
  active hactive := h.active (h'.active hactive)

/-- What a row records: the result code of a settled transfer says which way it went, and a complete
transfer has all of its bytes. -/
structure Recorded (r : FileTransfer) : Prop where
  delivered : r.state = .delivered → r.resultCode = "stored"
  failed : r.state = .failed → r.resultCode ≠ "stored" ∧ r.resultCode ≠ ""
  complete : r.state.isTerminal = true → r.committedOffset = r.size

/-- Every row records its result. -/
def Table.Recorded (t : Table) : Prop := ∀ id r, t.get id = some r → Transfer.Recorded r

/-- A table that has the rows of another one, each of them advanced, and no row that does not record
its result. -/
structure Follows (t t' : Table) : Prop where
  recorded : t'.Recorded
  rows : ∀ id r, t.get id = some r → ∃ r', t'.get id = some r' ∧ Advances r r'

variable {t : Table}

/-- A table whose rows record their results follows itself. -/
lemma Follows.refl (h : t.Recorded) : Follows t t := ⟨h, fun _ r hr => ⟨r, hr, .refl r⟩⟩

variable {t₁ t₂ t₃ : Table}

/-- Following is transitive. -/
lemma Follows.trans (h : Follows t₁ t₂) (h' : Follows t₂ t₃) : Follows t₁ t₃ := by
  refine ⟨h'.recorded, fun id r hr => ?_⟩
  obtain ⟨r₂, hr₂, hadv⟩ := h.rows id r hr
  obtain ⟨r₃, hr₃, hadv'⟩ := h'.rows id r₂ hr₂
  exact ⟨r₃, hr₃, hadv.trans hadv'⟩

/-- A table that follows another one and has no new rows. -/
structure Updates (t t' : Table) : Prop extends Follows t t' where
  absent : ∀ id, t.get id = none → t'.get id = none

/-- A statement may do nothing. -/
lemma Updates.refl (h : t.Recorded) : Updates t t := ⟨.refl h, fun _ hnone => hnone⟩

/-- Updates compose. -/
lemma Updates.trans (h : Updates t₁ t₂) (h' : Updates t₂ t₃) : Updates t₁ t₃ :=
  ⟨h.toFollows.trans h'.toFollows, fun id hnone => h'.absent id (h.absent id hnone)⟩

variable {p : FileTransfer → Bool}

/-- An update of rows is judged row by row. -/
lemma updates_update (ht : t.Recorded) {f : FileTransfer → FileTransfer}
    {hf : ∀ r, p r = true → Replaces r (f r)}
    (h : ∀ r, Recorded r → p r = true → Advances r (f r) ∧ Recorded (f r)) :
    Updates t (t.update p f hf) := by
  refine ⟨⟨fun id r' hr' => ?_, fun id r hr => ?_⟩, fun id hnone => by rw [get_update, hnone]; rfl⟩
  · rw [get_update] at hr'
    obtain ⟨r, hr, rfl⟩ := map_eq_some_iff.mp hr'
    by_cases hp : p r = true
    · rw [if_pos hp]
      exact (h r (ht id r hr) hp).2
    · rw [if_neg hp]
      exact ht id r hr
  · rw [get_update, hr, map_some]
    by_cases hp : p r = true
    · rw [if_pos hp]
      exact ⟨_, rfl, (h r (ht id r hr) hp).1⟩
    · rw [if_neg hp]
      exact ⟨r, rfl, .refl r⟩

/-! ### The statements one by one -/

variable {r : FileTransfer} {resultCode receiptPath : String}

/-- A row that is not settled may move up to another state. -/
lemma advances_of_state {state : TransferState} (hrank : r.state.rank < 2)
    (hle : r.state.rank ≤ state.rank) (hactive : state.isActive = true → r.state.isActive = true) :
    Advances r { r with state, resultCode, receiptPath } where
  toBecomes := ⟨rfl, rfl, rfl, rfl, le_rfl, hle⟩
  clientID := rfl
  direction := rfl
  settled_eq htwo := by omega
  held hne := absurd rfl hne
  active := hactive

variable {st : TransferState}

/-- Open transfers are active. -/
lemma TransferState.isActive_of_isOpen (h : st.isOpen = true) : st.isActive = true := by
  simp [isActive, h]

/-- Active transfers are not settled. -/
lemma TransferState.rank_of_isActive (h : st.isActive = true) : st.rank < 2 := by
  cases st <;> first | decide | cases h

/-- Terminal transfers are not open any more. -/
lemma TransferState.rank_of_isTerminal (h : st.isTerminal = true) : 0 < st.rank := by
  cases st <;> first | decide | exact absurd h (by decide)

/-- Live transfers are not settled. -/
lemma TransferState.rank_of_isLive (h : st.isLive = true) : st.rank < 2 := by
  cases st <;> first | decide | cases h

variable {t' : Table}

/-- New rows record nothing yet, and the old rows stay. -/
lemma follows_create (ht : t.Recorded) {transfers : List FileTransfer} {m n : ℕ}
    (h : t.createFileTransfersWithinLimits transfers m n = .ok t') : Follows t t' := by
  obtain ⟨hold, hnew, -⟩ := get_insertAll (insertAll_of_create h)
  refine ⟨fun id r hr => ?_, fun id r hr => ⟨r, hold id r hr, .refl r⟩⟩
  cases hget : t.get id with
  | some r₀ =>
    obtain rfl := some.inj ((hold id r₀ hget).symm.trans hr)
    exact ht id r₀ hget
  | none =>
    have hzero := (hnew id r hr hget).1
    refine ⟨fun hst => ?_, fun hst => ?_, fun hterminal => ?_⟩
    · exact absurd hzero (by rw [hst]; decide)
    · exact absurd hzero (by rw [hst]; decide)
    · exact absurd hzero (rank_of_isTerminal hterminal).ne'

variable {id : String}

/-- Committing an offset advances the one row. -/
lemma updates_commit (ht : t.Recorded) {expected next : ℕ}
    (h : t.commitFileTransferOffset id expected next = some t') : Updates t t' := by
  unfold commitFileTransferOffset at h
  split_ifs at h with hcond
  cases h
  refine updates_update ht fun r _ hp => ?_
  simp only [uncommitted, Bool.and_eq_true, decide_eq_true_eq] at hp
  have hle : r.committedOffset ≤ next := by
    rw [hp.1.1.2]
    exact not_lt.mp fun hlt => hcond (.inl hlt)
  have hzero := rank_of_isOpen hp.1.2
  have hactive := isActive_of_isOpen hp.1.2
  refine ⟨⟨⟨rfl, rfl, rfl, rfl, hle, by simp [hzero]⟩, rfl, rfl, fun htwo => by omega,
    fun _ => hzero, fun _ => hactive⟩, ⟨by simp, by simp, by rintro ⟨⟩⟩⟩

/-- Completing a batch advances its rows. -/
lemma updates_complete (ht : t.Recorded) {batchID : String}
    (h : t.completeFileTransferBatch batchID = some t') : Updates t t' := by
  simp only [completeFileTransferBatch] at h
  split_ifs at h with hcond hterminal
  · cases h
    exact .refl ht
  cases h
  refine updates_update ht fun r _ hp => ?_
  simp only [ready, Bool.and_eq_true, decide_eq_true_eq] at hp
  have hzero := rank_of_isOpen hp.2
  have hactive := isActive_of_isOpen hp.2
  refine ⟨advances_of_state (by omega) (by omega) fun _ => hactive, ?_⟩
  cases r.direction with
  | pbToPbh | pbhToPb => exact ⟨by rintro ⟨⟩, by rintro ⟨⟩, fun _ => hp.1.2⟩

/-- A transfer that is not settled may be cancelled. -/
lemma advances_canceled (h : r.state.rank < 2) :
    Advances r { r with state := .canceled, resultCode := "canceled" } ∧
      Recorded { r with state := .canceled, resultCode := "canceled" } :=
  ⟨advances_of_state h (by simpa [rank] using h.le) nofun, ⟨nofun, nofun, nofun⟩⟩

/-- Cancelling a batch advances its rows. -/
lemma updates_cancelBatch (ht : t.Recorded) (batchID : String) :
    Updates t (t.cancelFileTransferBatch batchID).1 := by
  simp only [cancelFileTransferBatch]
  split_ifs with hnone
  · exact .refl ht
  dsimp only
  refine updates_update ht fun r _ hp => ?_
  simp only [cancelable, Bool.and_eq_true] at hp
  exact advances_canceled (rank_of_isActive hp.2)

/-- Cancelling a transfer advances its row. -/
lemma updates_cancel (ht : t.Recorded) (id : String) : Updates t (t.cancelFileTransfer id).1 := by
  unfold cancelFileTransfer
  split_ifs with hnone
  · exact .refl ht
  dsimp only
  refine updates_update ht fun r _ hp => ?_
  simp only [cancelableAlone, Bool.and_eq_true] at hp
  exact advances_canceled (rank_of_isActive hp.2)

/-- Expiring a transfer advances its row. -/
lemma updates_expire (ht : t.Recorded) (transfer : FileTransfer) : Updates t (t.expire transfer) := by
  refine updates_update ht fun r _ hp => ?_
  simp only [Bool.and_eq_true] at hp
  have hrank := rank_of_isLive hp.2
  cases transfer.direction with
  | pbToPbh => exact advances_canceled hrank
  | pbhToPb =>
    exact ⟨advances_of_state hrank (by simpa [rank] using hrank.le) nofun,
      ⟨nofun, fun _ => by simp, nofun⟩⟩

/-- So does expiring several, one after the other. -/
lemma updates_expireAll (ht : t.Recorded) (transfers : List FileTransfer) :
    Updates t (t.expireFileTransfers transfers) := by
  induction transfers generalizing t with
  | nil => exact .refl ht
  | cons transfer transfers ih =>
    have hfirst := updates_expire ht transfer
    exact hfirst.trans (ih hfirst.recorded)

/-- The row that a receipt leaves. -/
def received (resultCode receiptPath : String) (r : FileTransfer) : FileTransfer :=
  { r with state := Table.receivedState resultCode, resultCode, receiptPath }

/-- The same receipt once more leaves a settled row as it is. -/
lemma received_eq (hr : Recorded r) (hstate : r.state = .delivered ∨ r.state = .failed)
    (hcode : r.resultCode = resultCode) (hpath : r.receiptPath = receiptPath) :
    received resultCode receiptPath r = r := by
  subst hcode hpath
  have hsame : receivedState r.resultCode = r.state := by
    unfold receivedState
    obtain hst | hst := hstate
    · rw [if_pos (hr.delivered hst), hst]
    · rw [if_neg (hr.failed hst).1, hst]
  unfold received
  rw [hsame]

variable {clientID : String}

/-- A receipt advances its row. -/
lemma updates_receipt (ht : t.Recorded)
    (h : t.receiptFileTransfer id clientID resultCode receiptPath = some t') : Updates t t' := by
  unfold receiptFileTransfer at h
  split_ifs at h with hcond
  cases h
  refine updates_update ht fun r hr hp => ?_
  obtain ⟨-, -, -, hpending | ⟨hstate, hcode, hpath⟩⟩ := receivable_cases hp
  · have hne : resultCode ≠ "" := fun heq => hcond (.inl heq)
    refine ⟨advances_of_state (by rw [hpending]; decide) (by rw [rank_receivedState]; exact r.state.rank_le)
      fun _ => by rw [hpending]; rfl, ?_⟩
    have hcomplete : r.committedOffset = r.size := hr.complete (by rw [hpending]; rfl)
    unfold receivedState
    split_ifs with hstored
    · exact ⟨fun _ => hstored, by simp, fun _ => hcomplete⟩
    · exact ⟨by simp, fun _ => ⟨hstored, hne⟩, by rintro ⟨⟩⟩
  · change Advances r (received resultCode receiptPath r) ∧ Recorded (received resultCode receiptPath r)
    rw [received_eq hr hstate hcode hpath]
    exact ⟨.refl r, hr⟩

/-- The statement makes new rows. -/
def Statement.creates : Statement → Bool
  | createFileTransfersWithinLimits _ _ _ => true
  | _ => false

/-- Every statement but the insertion updates the table. -/
lemma updates_exec (ht : t.Recorded) {a : Statement} (ha : a.creates = false) :
    Updates t (a.exec t).1 := by
  cases a with
  | createFileTransfersWithinLimits => cases ha
  | commitFileTransferOffset id expected next =>
    simp only [Statement.exec]
    by_cases hneg : expected < 0 ∨ next < expected
    · rw [if_pos hneg]
      exact .refl ht
    rw [if_neg hneg]
    split
    · next t' h => exact updates_commit ht h
    · exact .refl ht
  | completeFileTransferBatch =>
    simp only [Statement.exec]
    split
    · next t' h => exact updates_complete ht h
    · exact .refl ht
  | cancelFileTransferBatch batchID => exact updates_cancelBatch ht batchID
  | cancelFileTransfer id => exact updates_cancel ht id
  | expireFileTransfers transfers => exact updates_expireAll ht transfers
  | receiptFileTransfer =>
    simp only [Statement.exec]
    split
    · next t' h => exact updates_receipt ht h
    · exact .refl ht

/-- Every statement leads to a table that follows. -/
lemma follows_exec (ht : t.Recorded) (a : Statement) : Follows t (a.exec t).1 := by
  rcases ha : a.creates with _ | _
  · exact (updates_exec ht ha).toFollows
  cases a with
  | createFileTransfersWithinLimits =>
    simp only [Statement.exec]
    split
    · next t' h => exact follows_create ht h
    · exact .refl ht
  | _ => cases ha

/-- So does every sequence of statements. -/
lemma follows_after (ht : t.Recorded) (l : List Statement) : Follows t (after t l) := by
  induction l generalizing t with
  | nil => exact .refl ht
  | cons a l ih =>
    have hfirst := follows_exec ht a
    exact hfirst.trans (ih hfirst.recorded)

/-! ### Completion -/

/-- The transfers of a batch are all completed, and no others, or nothing changes. -/
def AllOrNone (batchID : String) (t t' : Table) : Prop :=
  (∀ id, t'.get id = t.get id) ∨
    ∀ id r, t.get id = some r →
      if r.batchID = batchID then
        r.state.isOpen = true ∧ t'.get id = some { r with
          state := Table.completedState r.direction
          resultCode := Table.completedCode r.direction }
      else t'.get id = some r

/-- `CompleteFileTransferBatch` completes all transfers of the batch or none. -/
lemma allOrNone_complete (t : Table) (batchID : String) :
    AllOrNone batchID t ((Statement.completeFileTransferBatch batchID).exec t).1 := by
  simp only [Statement.exec, completeFileTransferBatch]
  by_cases hready : (t.count fun r => r.batchID = batchID) < 1 ∨
      t.count (ready batchID) ≠ t.count fun r => r.batchID = batchID
  · rw [if_pos hready]
    left
    intro id
    split_ifs <;> rfl
  · rw [if_neg hready]
    right
    obtain ⟨-, hcount⟩ := not_or.mp hready
    intro id r hr
    rw [get_update, hr, map_some]
    split_ifs with hbatch hp hp
    · simp only [ready, Bool.and_eq_true] at hp
      exact ⟨hp.2, rfl⟩
    · refine absurd ?_ hp
      refine of_count_eq (fun r h => ?_) (not_not.mp hcount) hr (decide_eq_true hbatch)
      simp only [ready, Bool.and_eq_true] at h
      exact h.1.1
    · simp [ready, hbatch] at hp
    · rfl

/-! ### Receipts -/

/-- A receipt is accepted when it has a code and some row may receive it. -/
lemma receipt_accepted_iff :
    ((Statement.receiptFileTransfer id clientID resultCode receiptPath).exec t).2 = true ↔
      resultCode ≠ "" ∧ ∃ r, t.get id = some r ∧
        receivable id clientID resultCode receiptPath r = true := by
  rw [← count_eq_one_iff fun r h => (receivable_cases h).1]
  simp only [Statement.exec, receiptFileTransfer]
  split_ifs with h
  · simp only [false_iff, not_and]
    intro hne hone
    exact h.elim hne fun hcount => hcount hone
  · simpa [not_or] using h

/-- What an accepted receipt does to the rows. -/
lemma get_of_accepted
    (h : ((Statement.receiptFileTransfer id clientID resultCode receiptPath).exec t).2 = true)
    (id' : String) :
    ((Statement.receiptFileTransfer id clientID resultCode receiptPath).exec t).1.get id' =
      (t.get id').map fun r => if receivable id clientID resultCode receiptPath r = true then
        received resultCode receiptPath r else r := by
  simp only [Statement.exec, receiptFileTransfer] at h ⊢
  split_ifs at h ⊢
  dsimp only
  rw [get_update]
  rfl

/-- A row that records a receipt. -/
structure Records (clientID resultCode receiptPath : String) (r : FileTransfer) : Prop where
  settled : r.state = .delivered ∨ r.state = .failed
  direction : r.direction = .pbhToPb
  clientID : r.clientID = clientID
  resultCode : r.resultCode = resultCode
  receiptPath : r.receiptPath = receiptPath

/-- After an accepted receipt the row of the transfer records it. -/
lemma exists_records
    (h : ((Statement.receiptFileTransfer id clientID resultCode receiptPath).exec t).2 = true) :
    ∃ r, ((Statement.receiptFileTransfer id clientID resultCode receiptPath).exec t).1.get id = some r ∧
      Records clientID resultCode receiptPath r := by
  obtain ⟨-, r, hr, hp⟩ := receipt_accepted_iff.mp h
  refine ⟨received resultCode receiptPath r, ?_, ?_⟩
  · rw [get_of_accepted h, hr, map_some, if_pos hp]
  · obtain ⟨-, hclient, hdirection, -⟩ := receivable_cases hp
    refine ⟨?_, hdirection, hclient, rfl, rfl⟩
    simp only [received, receivedState]
    split_ifs
    · exact .inl rfl
    · exact .inr rfl

/-- A receipt for the transfer is accepted exactly when it is the given one, and it changes no row. -/
def Repeats (id clientID resultCode receiptPath : String) (t : Table) : Prop :=
  ∀ clientID' resultCode' receiptPath',
    (((Statement.receiptFileTransfer id clientID' resultCode' receiptPath').exec t).2 = true ↔
      clientID' = clientID ∧ resultCode' = resultCode ∧ receiptPath' = receiptPath) ∧
    ∀ id', ((Statement.receiptFileTransfer id clientID' resultCode' receiptPath').exec t).1.get id' =
      t.get id'

/-- A row that records a receipt accepts this one only, without a change. -/
lemma repeats_of_records (ht : t.Recorded) (hr : t.get id = some r)
    (hrec : Records clientID resultCode receiptPath r) :
    Repeats id clientID resultCode receiptPath t := by
  have hne : resultCode ≠ "" := by
    rw [← hrec.resultCode]
    obtain hst | hst := hrec.settled
    · rw [(ht id r hr).delivered hst]
      decide
    · exact ((ht id r hr).failed hst).2
  intro clientID' resultCode' receiptPath'
  refine ⟨⟨fun h => ?_, ?_⟩, fun id' => ?_⟩
  · obtain ⟨-, r', hr', hp⟩ := receipt_accepted_iff.mp h
    cases hr.symm.trans hr'
    obtain ⟨-, hclient, -, hpending | ⟨-, hcode, hpath⟩⟩ := receivable_cases hp
    · obtain hst | hst := hrec.settled <;> rw [hst] at hpending <;> cases hpending
    · exact ⟨hclient.symm.trans hrec.clientID, hcode.symm.trans hrec.resultCode,
        hpath.symm.trans hrec.receiptPath⟩
  · rintro ⟨rfl, rfl, rfl⟩
    refine receipt_accepted_iff.mpr ⟨hne, r, hr, ?_⟩
    obtain hst | hst := hrec.settled <;>
      simp [receivable, t.id_of_get hr, hrec.clientID, hrec.direction, hrec.resultCode,
        hrec.receiptPath, hst]
  · cases haccepted : ((Statement.receiptFileTransfer id clientID' resultCode' receiptPath').exec t).2 with
    | false =>
      simp only [Statement.exec] at haccepted ⊢
      split at haccepted
      · cases haccepted
      · rfl
    | true =>
      rw [get_of_accepted haccepted]
      rcases hget : t.get id' with _ | r'
      · rfl
      rw [map_some]
      by_cases hp : receivable id clientID' resultCode' receiptPath' r' = true
      · rw [if_pos hp]
        obtain ⟨hid, -, -, hcases⟩ := receivable_cases hp
        -- the row is the one of the transfer, which is not pending any more
        have hsame : r' = r := by
          rw [← t.id_of_get hget, hid, hr] at hget
          exact (some.inj hget).symm
        subst hsame
        obtain hpending | ⟨hstate, hcode, hpath⟩ := hcases
        · obtain hst | hst := hrec.settled <;> rw [hst] at hpending <;> cases hpending
        · rw [received_eq (ht id' r' hget) hstate hcode hpath]
      · rw [if_neg hp]

/-! ### Every sequence -/

/-- Delivered, failed and cancelled transfers stay as they are. -/
def Absorbing (t t' : Table) : Prop :=
  ∀ id r, t.get id = some r → r.state = .delivered ∨ r.state = .failed ∨ r.state = .canceled →
    ∃ r', t'.get id = some r' ∧ r'.state = r.state ∧ r'.resultCode = r.resultCode ∧
      r'.receiptPath = r.receiptPath

/-- The committed offset only grows, and changes only while the transfer is created or uploading. -/
def OffsetGrows (t t' : Table) : Prop :=
  ∀ id r, t.get id = some r → ∃ r', t'.get id = some r' ∧ r.committedOffset ≤ r'.committedOffset ∧
    (r'.committedOffset ≠ r.committedOffset → r.state.isOpen = true)

/-- Published, pending and delivered transfers have all of their bytes. -/
def Complete (t : Table) : Prop :=
  ∀ id r, t.get id = some r → r.state = .published ∨ r.state = .pending ∨ r.state = .delivered →
    r.committedOffset = r.size

/-- The states of the lowest rank are the open ones. -/
lemma TransferState.isOpen_of_rank (h : st.rank = 0) : st.isOpen = true := by
  cases st <;> first | rfl | cases h

/-- The state machine of transfers, for every sequence of statements `l` and every one `l'` after it. -/
theorem transfers_state_machine (l l' : List Statement) :
    Absorbing (after .empty l) (after (after .empty l) l') ∧
    OffsetGrows (after .empty l) (after (after .empty l) l') ∧
    Complete (after .empty l) ∧
    (∀ batchID, AllOrNone batchID (after .empty l)
      ((Statement.completeFileTransferBatch batchID).exec (after .empty l)).1) ∧
    ∀ id clientID resultCode receiptPath,
      ((Statement.receiptFileTransfer id clientID resultCode receiptPath).exec (after .empty l)).2 = true →
      Repeats id clientID resultCode receiptPath
        (after (after .empty l) (.receiptFileTransfer id clientID resultCode receiptPath :: l')) := by
  have hempty : Table.empty.Recorded := fun id r h => nomatch h
  have hrecorded := (follows_after hempty l).recorded
  have hrows := (follows_after hrecorded l').rows
  refine ⟨fun id r hr hstate => ?_, fun id r hr => ?_, fun id r hr hstate => ?_,
    fun batchID => allOrNone_complete _ batchID, fun id clientID resultCode receiptPath haccepted => ?_⟩
  · obtain ⟨r', hr', hadv⟩ := hrows id r hr
    have htwo : r.state.rank = 2 := by
      obtain hst | hst | hst := hstate <;> rw [hst] <;> rfl
    obtain rfl := hadv.settled_eq htwo
    exact ⟨r', hr', rfl, rfl, rfl⟩
  · obtain ⟨r', hr', hadv⟩ := hrows id r hr
    exact ⟨r', hr', hadv.offset, fun hne => isOpen_of_rank (hadv.held hne)⟩
  · refine (hrecorded id r hr).complete ?_
    obtain hst | hst | hst := hstate <;> rw [hst] <;> rfl
  · obtain ⟨r, hr, hrec⟩ := exists_records haccepted
    have hfirst := follows_exec hrecorded (.receiptFileTransfer id clientID resultCode receiptPath)
    have hrest := follows_after hfirst.recorded l'
    obtain ⟨r', hr', hadv⟩ := hrest.rows id r hr
    have htwo : r.state.rank = 2 := by
      obtain hst | hst := hrec.settled <;> rw [hst] <;> rfl
    obtain rfl := hadv.settled_eq htwo
    exact repeats_of_records hrest.recorded hr' hrec

/-- What a commit changes. -/
lemma get_commit {expected next : ℕ} (h : t.commitFileTransferOffset id expected next = some t') :
    ∃ r, t.get id = some r ∧ r.committedOffset = expected ∧ next ≤ r.size ∧
      t'.get id = some { r with committedOffset := next, state := .uploading } := by
  unfold commitFileTransferOffset at h
  split_ifs at h with hrefused
  cases h
  have hid : ∀ r, uncommitted id expected next r = true → r.id = id := by
    simp +contextual [uncommitted]
  obtain ⟨r, hr, hp⟩ := (count_eq_one_iff hid).mp (not_not.mp fun hne => hrefused (.inr hne))
  have hrow := hp
  simp only [uncommitted, Bool.and_eq_true, decide_eq_true_eq] at hrow
  refine ⟨r, hr, hrow.1.1.2, hrow.2, ?_⟩
  refine (FinMap.lookup_mapVals _ _ _).trans ?_
  rw [show t.rows.lookup id = some r from hr, map_some, if_pos hp]

/-- No offset is committed from twice: after a commit that moved the offset, and any statements, another
one from there is refused. -/
theorem offset_committed_once {l : List Statement} {id : String} {expected next : ℕ} {t : Table}
    (hfirst : (after .empty l).commitFileTransferOffset id expected next = some t) (hlt : expected < next)
    (l' : List Statement) (next' : ℕ) :
    (after t l').commitFileTransferOffset id expected next' = none := by
  by_contra hagain
  have hrecorded := (follows_after (fun id r h => nomatch h : Table.empty.Recorded) l).recorded
  obtain ⟨r, -, -, -, hr⟩ := get_commit hfirst
  obtain ⟨t', ht'⟩ := Option.ne_none_iff_exists'.mp hagain
  obtain ⟨r', hr', hexpected, -⟩ := get_commit ht'
  obtain ⟨r'', hr'', hadvances⟩ := (follows_after (updates_commit hrecorded hfirst).recorded l').rows id _ hr
  cases hr'.symm.trans hr''
  have hle : next ≤ r'.committedOffset := hadvances.offset
  omega

/-- A file of two bytes. -/
def twoBytes : FileTransfer :=
  ⟨"x", "batch", .pbToPbh, "session", "client", "a", 2, digits '0', 0, .created, "", "", 0, 0⟩

/-- Its first byte is committed, and the transfer canceled: the commit cannot be repeated. -/
theorem twoBytes_committed_once : ∃ t, (after .empty
      [.createFileTransfersWithinLimits [twoBytes] 10 1]).commitFileTransferOffset "x" 0 1 = some t ∧
    (after t [.cancelFileTransfer "x"]).commitFileTransferOffset "x" 0 2 = none :=
  exists_of_any (P := fun _ => True) (by decide +kernel) fun _ ht _ =>
    offset_committed_once ht (by decide) _ _

end Paperboat.Transfer

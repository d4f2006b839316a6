import Paperboat.FileTransfer.Integrity
import Paperboat.FileTransfer.Sending
import Paperboat.FileTransfer.Statements

/-!
# The spool stays within its limits

Only a creation makes a transfer active, and a creation is admitted against the sums over the table in
the transaction that makes the rows. All the other statements let rows advance, and an advance never
makes a transfer active.
-/

namespace Paperboat.Transfer

open List Call

/-! ### The sums -/

/-- The transfers that are created, uploading or pending. -/
def Table.active (t : Table) : List FileTransfer := t.all.filter fun r => r.state.isActive

/-- The bytes of the active transfers. -/
def Table.spooledBytes (t : Table) : ℕ := (t.active.map (·.size)).sum

/-- The number of batches with an active transfer. -/
def Table.activeBatches (t : Table) : ℕ := (t.active.map (·.batchID)).dedup.length

/-- The table is within the limits of the policy. -/
structure Within (policy : Policy) (t : Table) : Prop where
  bytes : t.spooledBytes ≤ policy.maxPendingSpoolBytes
  batches : t.activeBatches ≤ policy.maxConcurrentTransfers

variable {t : Table} {r : FileTransfer}

lemma mem_active : r ∈ t.active ↔ t.get r.id = some r ∧ r.state.isActive = true := by
  rw [Table.active, mem_filter, Table.mem_all]

lemma spooledBytes_eq (t : Table) : t.spooledBytes = ∑ r ∈ t.active.toFinset, r.size :=
  (sum_toFinset _ ((nodup_all t).filter _)).symm

lemma activeBatches_eq (t : Table) : t.activeBatches = (t.active.map (·.batchID)).toFinset.card :=
  (card_toFinset _).symm

section
variable {t t' : Table} (h : Updates t t')
include h

/-- Every active transfer was active before, in the same batch and of the same size. -/
lemma active_before {r' : FileTransfer} (hr' : r' ∈ t'.active) :
    ∃ r ∈ t.active, r.id = r'.id ∧ r.size = r'.size ∧ r.batchID = r'.batchID := by
  obtain ⟨hget', hactive⟩ := mem_active.mp hr'
  rcases hget : t.get r'.id with _ | r
  · exact absurd (hget'.symm.trans (h.absent _ hget)) nofun
  obtain ⟨r'', hget'', hadv⟩ := h.rows _ r hget
  cases hget'.symm.trans hget''
  have hid := t.id_of_get hget
  exact ⟨r, mem_active.mpr ⟨hid ▸ hget, hadv.active hactive⟩, hid, hadv.size.symm, hadv.batchID.symm⟩

/-- An update frees bytes and takes none. -/
lemma spooledBytes_le : t'.spooledBytes ≤ t.spooledBytes := by
  classical
  rw [spooledBytes_eq, spooledBytes_eq]
  choose! before hmem hid hsize _ using
    fun (r' : FileTransfer) (hr' : r' ∈ t'.active) => active_before h hr'
  have hinj : Set.InjOn before t'.active.toFinset := by
    intro x hx y hy heq
    have hx' := mem_toFinset.mp hx
    have hy' := mem_toFinset.mp hy
    have hxy : x.id = y.id := by rw [← hid x hx', ← hid y hy', heq]
    have hgety := (mem_active.mp hy').1
    rw [← hxy] at hgety
    exact Option.some.inj ((mem_active.mp hx').1.symm.trans hgety)
  calc ∑ r ∈ t'.active.toFinset, r.size = ∑ r ∈ t'.active.toFinset, (before r).size :=
        Finset.sum_congr rfl fun r hr => (hsize r (mem_toFinset.mp hr)).symm
    _ = ∑ r ∈ t'.active.toFinset.image before, r.size := (Finset.sum_image hinj).symm
    _ ≤ ∑ r ∈ t.active.toFinset, r.size := by
        refine Finset.sum_le_sum_of_subset fun r hr => ?_
        obtain ⟨r', hr', rfl⟩ := Finset.mem_image.mp hr
        exact mem_toFinset.mpr (hmem r' (mem_toFinset.mp hr'))

/-- Nor does it add an active batch. -/
lemma activeBatches_le : t'.activeBatches ≤ t.activeBatches := by
  rw [activeBatches_eq, activeBatches_eq]
  refine Finset.card_le_card fun batchID hb => ?_
  obtain ⟨r', hr', rfl⟩ := mem_map.mp (mem_toFinset.mp hb)
  obtain ⟨r, hr, -, -, hbatch⟩ := active_before h hr'
  exact mem_toFinset.mpr (mem_map.mpr ⟨r, hr, hbatch⟩)

lemma Within.updates {policy : Policy} (hw : Within policy t) : Within policy t' :=
  ⟨(spooledBytes_le h).trans hw.bytes, (activeBatches_le h).trans hw.batches⟩

end

/-! ### Creation -/

/-- The row that is inserted for a transfer. -/
def createdRow (r : FileTransfer) : FileTransfer :=
  { r with state := .created, resultCode := "", receiptPath := "" }

variable {t' : Table}

lemma all_insert (h : t.insert r = some t') : t'.all = r :: t.all := by
  unfold Table.insert at h
  split_ifs at h with hfresh
  cases h
  have hnot : r.id ∉ t.rows := by
    rw [← AList.lookup_eq_none]
    exact Option.isNone_iff_eq_none.mp hfresh.2.1
  rw [Table.all, AList.entries_insert_of_notMem hnot, map_cons, Table.all]

variable {transfers : List FileTransfer}

lemma all_insertAll (h : t.insertAll transfers = .ok t') :
    t'.all.Perm (transfers.map createdRow ++ t.all) := by
  induction transfers generalizing t with
  | nil =>
    cases h
    exact .refl _
  | cons r rs ih =>
    simp only [Table.insertAll] at h
    split_ifs at h
    split at h
    · cases h
    rename_i t₁ hinsert
    have hrest := ih h
    rw [all_insert hinsert] at hrest
    exact hrest.trans perm_middle

/-- New transfers are active. -/
lemma active_insertAll (h : t.insertAll transfers = .ok t') :
    t'.active.Perm (transfers.map createdRow ++ t.active) := by
  have hnew : ((transfers.map createdRow).filter fun r => r.state.isActive) = transfers.map createdRow := by
    refine filter_eq_self.mpr fun r hr => ?_
    obtain ⟨x, -, rfl⟩ := mem_map.mp hr
    rfl
  have hperm := (all_insertAll h).filter fun r => r.state.isActive
  rwa [filter_append, hnew] at hperm

variable {policy : Policy}

/-- A creation of one batch within the limits of the policy keeps the limits. -/
lemma Within.create (hvalid : policy.Valid) (hbatch : ∃ batchID, ∀ r ∈ transfers, r.batchID = batchID)
    (h : t.createFileTransfersWithinLimits transfers policy.maxPendingSpoolBytes
      policy.maxConcurrentTransfers = .ok t') : Within policy t' := by
  have hperm := active_insertAll (insertAll_of_create h)
  obtain ⟨hfile, -, -, -, hbytes, -, hconcurrent, -, -, -, hspool⟩ := hvalid
  unfold Table.createFileTransfersWithinLimits at h
  split_ifs at h with _ hbatches hsum
  constructor
  · have hle : t.spooledBytes + (transfers.map (·.size)).sum ≤ policy.maxPendingSpoolBytes := by
      have hpos : 0 < policy.maxPendingSpoolBytes := by omega
      exact not_lt.mp fun hlt => hsum ⟨hpos, hlt⟩
    have heq : t'.spooledBytes = (transfers.map (·.size)).sum + t.spooledBytes := by
      unfold Table.spooledBytes
      rw [(hperm.map _).sum_eq, map_append, sum_append, map_map]
      rfl
    omega
  · have hlt : t.activeBatches < policy.maxConcurrentTransfers :=
      not_le.mp fun hle => hbatches ⟨hconcurrent, hle⟩
    obtain ⟨batchID, hbatch⟩ := hbatch
    have hsub : (t'.active.map (·.batchID)).toFinset ⊆
        insert batchID (t.active.map (·.batchID)).toFinset := by
      intro b hb
      obtain ⟨r, hr, rfl⟩ := mem_map.mp (mem_toFinset.mp hb)
      obtain hnew | hold := mem_append.mp (hperm.mem_iff.mp hr)
      · obtain ⟨x, hx, rfl⟩ := mem_map.mp hnew
        exact Finset.mem_insert.mpr (.inl (hbatch x hx))
      · exact Finset.mem_insert_of_mem (mem_toFinset.mpr (mem_map.mpr ⟨r, hold, rfl⟩))
    have hcard := (Finset.card_le_card hsub).trans (Finset.card_insert_le _ _)
    rw [activeBatches_eq] at hlt ⊢
    omega

/-! ### The calls of the service -/

/-- The statement that a call makes, if it changes the table. -/
def Call.statement : Call → Option Statement
  | .createFileTransfersWithinLimits transfers m n => some (.createFileTransfersWithinLimits transfers m n)
  | .commitFileTransferOffset id expected next => some (.commitFileTransferOffset id expected next)
  | .completeFileTransferBatch batchID => some (.completeFileTransferBatch batchID)
  | .cancelFileTransferBatch batchID => some (.cancelFileTransferBatch batchID)
  | .expireFileTransfers transfers => some (.expireFileTransfers transfers)
  | .receiptFileTransfer id clientID resultCode receiptPath =>
    some (.receiptFileTransfer id clientID resultCode receiptPath)
  | _ => none

variable {s s' : State} {α : Type}

lemma table_of_same {r r' : α} (h : some (s, r) = some (s', r')) : s'.table = s.table := by
  cases h
  rfl

lemma table_of_reported {made : Option Table} {r : Bool} (h : (match made with
      | some table => some ({ s with table }, true)
      | none => some (s, false)) = some (s', r)) : s'.table = made.getD s.table := by
  cases made with
  | none => exact table_of_same h
  | some =>
    cases h
    rfl

/-- The table after a statement that reports whether it has an effect. -/
lemma fst_reported (made : Option Table) (t : Table) : (match made with
      | some t' => (t', true)
      | none => (t, false) : Table × Bool).1 = made.getD t := by
  cases made <;> rfl

variable {c : Call}

/-- A call changes the table by its statement. -/
lemma table_of_perform {i : ℕ} {f : Fate} {r : c.Reply} (h : perform i s c f = some (s', r)) :
    s'.table = s.table ∨ ∃ a, c.statement = some a ∧ s'.table = (a.exec s.table).1 := by
  cases c with
  | createFileTransfersWithinLimits transfers m n =>
    cases f with
    | ok =>
      refine .inr ⟨_, rfl, ?_⟩
      simp only [perform, Statement.exec, Int.toNat_natCast] at h ⊢
      generalize s.table.createFileTransfersWithinLimits transfers m n = made at h ⊢
      cases made with
      | ok =>
        cases h
        rfl
      | error => exact table_of_same h
    | fail | short => exact .inl (table_of_same h)
  | commitFileTransferOffset id expected next =>
    cases f with
    | ok =>
      have htable : s'.table = (s.table.commitFileTransferOffset id expected next).getD s.table :=
        table_of_reported h
      by_cases hlt : next < expected
      · left
        rw [htable, Table.commitFileTransferOffset, if_pos (.inl hlt)]
        rfl
      · refine .inr ⟨_, rfl, ?_⟩
        simp only [Statement.exec, Int.toNat_natCast]
        rw [if_neg (by omega)]
        exact htable.trans (fst_reported _ _).symm
    | fail | short => exact .inl (table_of_same h)
  | completeFileTransferBatch | receiptFileTransfer =>
    cases f with
    | ok => exact .inr ⟨_, rfl, (table_of_reported h).trans (fst_reported _ _).symm⟩
    | fail | short => exact .inl (table_of_same h)
  | cancelFileTransferBatch =>
    cases f with
    | ok =>
      cases h
      exact .inr ⟨_, rfl, rfl⟩
    | fail | short => exact .inl (table_of_same h)
  | expireFileTransfers =>
    cases f with
    | ok =>
      cases h
      exact .inr ⟨_, rfl, rfl⟩
    | fail | short =>
      cases h
      exact .inl rfl
  | _ => exact .inl ((table_of_mild rfl h).1.resolve_right fun hcancel => by cases hcancel.1)

/-- A creation is of one batch and within the limits of the policy. -/
def Statement.Allowed (policy : Policy) : Statement → Prop
  | createFileTransfersWithinLimits transfers m n =>
    m = policy.maxPendingSpoolBytes ∧ n = policy.maxConcurrentTransfers ∧
      ∃ batchID, ∀ r ∈ transfers, r.batchID = batchID
  | _ => True

/-- Every statement that the policy allows keeps within it. -/
lemma Within.exec (hvalid : policy.Valid) (ht : t.Recorded) (hw : Within policy t) {a : Statement}
    (ha : a.Allowed policy) : Within policy (a.exec t).1 := by
  rcases hcreates : a.creates with _ | _
  · exact hw.updates (updates_exec ht hcreates)
  cases a with
  | createFileTransfersWithinLimits =>
    obtain ⟨rfl, rfl, hbatch⟩ := ha
    simp only [Statement.exec, Int.toNat_natCast]
    split
    · next t' h => exact .create hvalid hbatch h
    · exact hw
  | _ => cases hcreates

/-! ### The service -/

/-- The call makes no statement but allowed ones. -/
def Call.Allowed (policy : Policy) (c : Call) : Prop := ∀ a, c.statement = some a → a.Allowed policy

/-- The operation creates transfers under the policy. -/
def Operation.Uses (policy : Policy) : Operation → Prop
  | create policy' _ _ _ => policy' = policy
  | _ => True

/-- The operations use the policy. -/
def underPolicy (policy : Policy) : Conduct State Call Fate Operation where
  mayStart _ o := o.Uses policy
  allows _ _ _ _ := True
  mayCrash _ := True

/-- The limits are kept. -/
def spoolDiscipline (policy : Policy) : RelyGuarantee State Answer where
  Inv s := s.table.Recorded ∧ Within policy s.table
  rely _ _ _ := True
  guarantee _ _ := True
  Idle _ _ := True
  Done _ _ _ := True
  rely_refl _ _ := trivial
  rely_trans _ _ _ _ _ _ := trivial
  guarantee_refl _ := trivial
  guarantee_trans _ _ := trivial
  idle_stable _ _ _ _ _ := trivial
  done_stable _ _ _ _ _ _ := trivial

/-- The call makes new rows. -/
def Call.creates : Call → Bool
  | createFileTransfersWithinLimits _ _ _ => true
  | _ => false

lemma Call.creates_of_plain (c : Call) (hc : c.plain = true) : c.creates = false := by
  cases c <;> first | rfl | cases hc

lemma Call.Allowed.of_creates (hc : c.creates = false) : c.Allowed policy := by
  intro a ha
  cases c with
  | createFileTransfersWithinLimits => cases hc
  | _ =>
    cases ha
    try trivial

/-! ### The programs -/

lemma makes_cancelBatch (transfers : List FileTransfer) :
    (cancelBatch transfers).Makes fun c => c.creates = false := by
  cases transfers with
  | nil => trivial
  | cons =>
    refine .request_bind rfl fun _ => ?_
    exact (makes_cancelBatchLocked creates_of_plain (fun _ => rfl) _).bind fun _ => .request_bind rfl fun _ => trivial

lemma makes_createFiles (transfers : List FileTransfer) :
    (createFiles transfers).Makes fun c => c.creates = false := by
  induction transfers with
  | nil => trivial
  | cons t ts ih =>
    refine .request_bind rfl fun made => ?_
    cases made with
    | false => trivial
    | true => exact ih

/-- `Create` inserts within the limits of its policy. -/
lemma makes_create (policy : Policy) (now : ℕ) (ids : List String) (input : CreateRequest) :
    (create policy now ids input).Makes (Call.Allowed policy) := by
  unfold create
  rcases hcheck : checkRequest policy now ids input with _ | transfers
  · trivial
  refine .request_bind ?_ fun result => ?_
  · rintro a ⟨⟩
    exact ⟨rfl, rfl, input.batchID, batchID_of_checkRequest hcheck⟩
  · match result with
    | .error .conflict | .error .failure => trivial
    | .ok () =>
      have hrest : ∀ synced : Bool, Prog.Makes (fun c : Call => c.creates = false) (do
            if synced then return Except.ok transfers
            let _ ← cancelBatch transfers
            return Except.error Code.storageUnavailable) := by
        intro synced
        cases synced with
        | true => trivial
        | false => exact (makes_cancelBatch transfers).bind fun _ => trivial
      refine Prog.Makes.mono (P := fun c => c.creates = false) ?_ fun _ => Call.Allowed.of_creates
      refine (makes_createFiles transfers).bind fun made => ?_
      cases made with
      | true => exact .request_bind rfl hrest
      | false => exact hrest false

lemma makes_copy (id : String) (pos limit total : ℕ) (body : List Read) :
    (copy id pos limit total body).Makes fun c => c.creates = false := by
  induction body generalizing pos limit total with
  | nil => trivial
  | cons read body ih =>
    unfold copy
    split
    · trivial
    have hrest : ∀ stored : Bool, Prog.Makes (fun c : Call => c.creates = false)
        (if !stored || read.error then pure none
          else copy id (pos + (read.data.take limit).length) (limit - (read.data.take limit).length)
            (total + (read.data.take limit).length) body) := by
      intro stored
      split
      · trivial
      · exact ih _ _ _
    dsimp only
    split
    · exact hrest true
    · exact .request_bind rfl hrest

lemma makes_append (id : String) (offset : ℤ) (body : List Read) :
    (append id offset body).Makes fun c => c.creates = false := by
  refine .request_bind rfl fun _ => Prog.Makes.bind ?_ fun _ => .request_bind rfl fun _ => trivial
  refine .request_bind rfl fun transfer => ?_
  rcases transfer with _ | _
  · trivial
  dsimp only
  split
  · trivial
  split
  · trivial
  refine .request_bind rfl fun opened => ?_
  split
  · trivial
  refine .request_bind rfl fun cut => ?_
  split
  · trivial
  refine (makes_copy _ _ _ _ _).bind fun total => ?_
  rcases total with _ | _
  · trivial
  dsimp only
  split
  · exact .request_bind rfl fun _ => trivial
  refine .request_bind rfl fun synced => ?_
  split
  · trivial
  refine .request_bind rfl fun committed => ?_
  split <;> trivial

/-- So do all operations. -/
lemma makes_program (sha256 : List UInt8 → String) {o : Operation} (ho : o.Uses policy) :
    (o.program sha256).Makes (Call.Allowed policy) := by
  have hother : ∀ {α β : Type} {p : Service α} {f : α → β}, p.Makes (fun c => c.creates = false) →
      Prog.Makes (Call.Allowed policy) (do return f (← p)) := fun hp =>
    (hp.mono fun _ => Call.Allowed.of_creates).bind fun _ => trivial
  cases o with
  | create policy' now ids input =>
    cases ho
    exact (makes_create policy now ids input).bind fun _ => trivial
  | append id offset body => exact hother (makes_append id offset body)
  | complete id =>
    refine hother (.request_bind rfl fun requested => ?_)
    rcases requested with _ | _
    · trivial
    refine .request_bind rfl fun _ => Prog.Makes.bind ?_ fun _ => .request_bind rfl fun _ => trivial
    refine .request_bind rfl fun transfers => ?_
    cases transfers with
    | none => trivial
    | some => exact makes_completeRows creates_of_plain (fun _ => rfl) sha256 rfl fun _ _ _ => rfl
  | cancel id => exact hother (makes_cancel creates_of_plain (fun _ => rfl) id)
  | receipt => exact hother (makes_receipt creates_of_plain rfl)
  | cleanupExpired now =>
    refine hother (.request_bind rfl fun transfers => ?_)
    cases transfers with
    | none => trivial
    | some transfers =>
      refine (makes_removeFiles creates_of_plain transfers).bind fun _ => ?_
      exact .request_bind rfl fun _ => trivial
  | openContent => exact hother (makes_openContent creates_of_plain rfl)
  | publishedPath id =>
    refine hother (.request_bind rfl fun transfer => ?_)
    rcases transfer with _ | _
    · trivial
    dsimp only
    split
    · trivial
    refine .request_bind rfl fun linked => ?_
    split
    · trivial
    refine .request_bind rfl fun _ => .request_bind rfl fun _ => ?_
    split
    · trivial
    · exact .request_bind rfl fun _ => trivial

/-! ### Every run -/

/-- The service keeps within the policy. -/
lemma disciplined_spool (sha256 : List UInt8 → String) (hvalid : policy.Valid) :
    (spoolDiscipline policy).Disciplined (service sha256) (underPolicy policy) where
  program o i s ho _ _ := by
    refine RelyGuarantee.Guarded.of_makes (K := fun _ => True) (fun _ _ _ _ _ => trivial) ?_
      (makes_program sha256 ho) trivial
    intro c s f s' r hc _ hinv _ hperform
    refine ⟨⟨?_, trivial, fun _ _ => trivial⟩, trivial⟩
    obtain hsame | ⟨a, ha, htable⟩ := table_of_perform hperform
    · show s'.table.Recorded ∧ Within policy s'.table
      rw [hsame]
      exact hinv
    · show s'.table.Recorded ∧ Within policy s'.table
      rw [htable]
      exact ⟨(follows_exec hinv.1 a).recorded, hinv.2.exec hvalid hinv.1 (hc a ha)⟩
  crash s hinv _ := ⟨hinv, trivial, fun _ => trivial⟩

/-- In every run, with crashes, whose creations are made under one valid policy, the active transfers
stay within its limits. -/
theorem spool_within_limits (sha256 : List UInt8 → String) {policy : Policy} (hvalid : policy.Valid)
    {l : List (Move Fate Operation)} {p : Pool State Call.Reply Answer}
    (hpolicy : ∀ i o, Move.start i o ∈ l → o.Uses policy)
    (hrun : run (service sha256).step (.idle .empty) l = some p) : Within policy p.shared.table := by
  have hempty : Table.empty.Recorded ∧ Within policy .empty :=
    ⟨(fun id r h => nomatch h), ⟨Nat.zero_le _, Nat.zero_le _⟩⟩
  have hinit : (spoolDiscipline policy).Sound (service sha256) (underPolicy policy) (.idle .empty) :=
    .init hempty fun _ => trivial
  have hmeets : Meets (service sha256).step (underPolicy policy).Permits (.idle .empty) l := by
    refine .of_forall (fun a ha p => ?_) _
    cases a with
    | start i o => exact hpolicy i o ha
    | call =>
      simp only [Conduct.Permits]
      split <;> trivial
    | crash => trivial
  exact (hinit.run (disciplined_spool sha256 hvalid) hmeets hrun).1.inv.2

/-- A file of two bytes is announced, and the helper stops and starts again. -/
def announced : List (Move Fate Operation) :=
  [.start 1 (.create defaultPolicy 1 ["a"]
      ⟨"batch", "pb_to_pbh", "session", "client", [⟨"f", 2, constantDigest []⟩]⟩),
    .call 1 .ok, .crash]

/-- The announced file counts, and the limits are kept. -/
theorem announced_within_limits :
    ∃ p, run (service constantDigest).step (.idle .empty) announced = some p ∧
      p.shared.table.spooledBytes = 2 ∧ p.shared.table.activeBatches = 1 ∧
      Within defaultPolicy p.shared.table := by
  have hpolicy : ∀ i o, Move.start i o ∈ announced → o.Uses defaultPolicy := by
    intro i o h
    obtain ⟨-, rfl⟩ : i = 1 ∧ o = _ := by simpa [announced] using h
    rfl
  exact exists_of_any (P := fun p => p.shared.table.spooledBytes = 2 ∧ p.shared.table.activeBatches = 1)
    (by decide +kernel) fun _ hrun h =>
    ⟨h.1, h.2, spool_within_limits constantDigest (by decide) hpolicy hrun⟩

end Paperboat.Transfer

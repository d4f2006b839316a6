import Paperboat.FileTransfer.Discipline

/-!
# The content of published transfers

Each operation of the service is followed from call to call, with what its thread knows: which lock it
has, which rows are in the batch, and which files it has checked and renamed.
-/

namespace Paperboat.Transfer

open List Option RelyGuarantee TransferState FinMap State Prod

section
variable {sha256 : List UInt8 → String} {i : ℕ} {s s' : State}

/-! ### Following a thread -/

variable (sha256 i)

/-- What the thread knows survives the steps of the others. -/
def Stable (K : State → Prop) : Prop := ∀ s s', Rely sha256 i s s' → K s → K s'

variable {sha256 i} {c : Call} {β : Type} {K : State → Prop}

/-- A call, from what the thread knows before it. -/
lemma guarded_call {Q : β → State → Prop} {next : c.Reply → Service β} (hs : K s)
    (hstable : Stable sha256 i K) (hcall : ∀ s f s' r, K s → Inv sha256 s → careful.allows i s c f →
      perform i s c f = some (s', r) → Legal sha256 i s s' ∧ Guarded sha256 i Q (next r) s') :
    Guarded sha256 i Q (request c >>= next) s :=
  guarded_bind.mpr
    (guarded_request hs (fun s s' hrely _ => hstable s s' hrely) hcall)

variable {f : Fate}

/-- A call that only reads. -/
lemma guarded_read (hc : c.reads = true) {Q : β → State → Prop} {next : c.Reply → Service β} (hs : K s)
    (hstable : Stable sha256 i K) (hnext : ∀ s f r, K s → Inv sha256 s → perform i s c f = some (s, r) →
      Guarded sha256 i Q (next r) s) :
    Guarded sha256 i Q (request c >>= next) s := by
  refine guarded_call hs hstable fun s f s' r hK hinv _ hperform => ?_
  obtain rfl := eq_of_reads hc hperform
  exact ⟨legal_refl hinv, hnext s' f r hK hinv hperform⟩

/-- A call that has no effect unless it succeeds. -/
lemma guarded_atomic (hc : c.atomic = true) {Q : β → State → Prop} {next : c.Reply → Service β} (hs : K s)
    (hstable : Stable sha256 i K) (hfail : ∀ s, K s → Guarded sha256 i Q (next c.refusal) s)
    (hok : ∀ s s' r, K s → Inv sha256 s → careful.allows i s c .ok → perform i s c .ok = some (s', r) →
      Legal sha256 i s s' ∧ Guarded sha256 i Q (next r) s') :
    Guarded sha256 i Q (request c >>= next) s := by
  refine guarded_call hs hstable fun s f s' r hK hinv hallowed hperform => ?_
  by_cases hf : f = .ok
  · subst hf
    exact hok s s' r hK hinv hallowed hperform
  · rw [perform_of_ne_ok hc hf] at hperform
    cases hperform
    exact ⟨legal_refl hinv, hfail s hK⟩

variable {id : String}

lemma get_of_fileTransfer {r : FileTransfer} (h : perform i s (.fileTransfer id) f = some (s, some r)) :
    s.table.get id = some r := by
  cases f with
  | ok => exact (mk.inj (some.inj h)).2
  | fail | short => cases h

variable {batchID : String} {transfers : List FileTransfer}

lemma mem_of_fileTransfersByBatch
    (h : perform i s (.fileTransfersByBatch batchID) f = some (s, some transfers)) (r : FileTransfer) :
    r ∈ transfers ↔ s.table.get r.id = some r ∧ r.batchID = batchID := by
  cases f with
  | ok =>
    have hlist := (mk.inj (some.inj h)).2
    simp only [Table.fileTransfersByBatch] at hlist
    split at hlist
    · cases hlist
    · rw [← some.inj hlist]
      exact s.table.mem_ofBatch
  | fail | short => cases h

/-- The thread has one lock. -/
def Holding (i : ℕ) (key : Lock) (s : State) : Prop :=
  (∀ key', s.locks.lookup key' = some i ↔ key' = key) ∧ s.expiring.lookup i = none

variable {key : Lock}

lemma Holding.lock (h : Holding i key s) : s.locks.lookup key = some i :=
  (h.1 key).mpr rfl

/-- No one else gives a thread a lock. -/
lemma stable_idle : Stable sha256 i (Idle i) := fun _ _ h => (discipline sha256).idle_stable i h

lemma stable_holding (key : Lock) : Stable sha256 i (Holding i key) :=
  fun _ _ h hs => ⟨fun key' => (h.locks key').trans (hs.1 key'), h.expiring.trans hs.2⟩

lemma Stable.and {K' : State → Prop} (h : Stable sha256 i K) (h' : Stable sha256 i K') :
    Stable sha256 i fun s => K s ∧ K' s :=
  fun s s' hrely hs => ⟨h s s' hrely hs.1, h' s s' hrely hs.2⟩

/-- A program between taking a lock and giving it back. -/
lemma guarded_withLock {γ : Type} {Q : γ → State → Prop} {body : Service β} {result : β → Service γ}
    (hs : Idle i s ∧ K s) (hstable : Stable sha256 i K)
    (hframe : ∀ s locks, K s → K { s with locks := locks })
    (hbody : ∀ s, Holding i key s → K s → Inv sha256 s →
      Guarded sha256 i (fun _ s => Holding i key s) body s)
    (hresult : ∀ b s, Idle i s → Guarded sha256 i Q (result b) s) :
    Guarded sha256 i Q (do
      request (.lock key)
      let b ← body
      request (.unlock key)
      result b) s := by
  refine guarded_call hs (stable_idle.and hstable) fun s f s' r hK hinv _ hperform => ?_
  simp only [perform, isNone_iff_eq_none] at hperform
  split at hperform
  · next hfree =>
    cases hperform
    have hlegal : Legal sha256 i s { s with locks := s.locks.insert key i } := by
      refine legal_of_locks hinv fun j hj key' => ?_
      rw [lookup_insert_eq]
      split
      · next heq =>
        rw [heq, hfree]
        simp [hj.symm]
      · rfl
    have hholding : Holding i key { s with locks := s.locks.insert key i } := by
      refine ⟨fun key' => ?_, hK.1.2⟩
      show (s.locks.insert key i).lookup key' = some i ↔ _
      rw [lookup_insert_eq]
      split
      · next heq => simp [heq]
      · next hne => simp [hne, hK.1.1 key']
    refine ⟨hlegal, guarded_bind.mpr ?_⟩
    refine (hbody _ hholding (hframe s _ hK.2) hlegal.inv).mono fun b s hheld => ?_
    refine guarded_call hheld (stable_holding key) fun s f s' r hheld hinv _ hperform => ?_
    cases hperform
    constructor
    · refine legal_of_locks hinv fun j hj key' => ?_
      rw [lookup_erase_eq]
      split
      · next heq =>
        rw [heq, hheld.lock]
        simp [hj.symm]
      · rfl
    · refine hresult b _ ⟨fun key' => ?_, hheld.2⟩
      show (s.locks.erase key).lookup key' ≠ some i
      rw [lookup_erase_eq]
      split
      · simp
      · next hne => exact fun h => hne ((hheld.1 key').mp h)
  · cases hperform

/-! ### Cancelling -/

variable {kind : Kind}

/-- A removal of a name that the transfer does not need. -/
lemma guarded_remove {Q : β → State → Prop} {next : Bool → Service β} (hs : K s)
    (hstable : Stable sha256 i K) (hframe : ∀ s kind id, K s → K (s.setName kind id false))
    (hremovable : ∀ s, K s → Removable i s id) (hnext : ∀ r s, K s → Guarded sha256 i Q (next r) s) :
    Guarded sha256 i Q (request (.remove kind id) >>= next) s := by
  refine guarded_atomic rfl hs hstable (hnext _) fun s s' r hK hinv _ hperform => ?_
  cases hperform
  exact ⟨legal_remove hinv (hremovable s hK), hnext _ _ (hframe s kind id hK)⟩

/-- The removals of a list of transfers. -/
lemma guarded_removeFiles (hstable : Stable sha256 i K)
    (hframe : ∀ s kind id, K s → K (s.setName kind id false))
    (hremovable : ∀ t ∈ transfers, ∀ s, K s → Removable i s t.id) (hs : K s) :
    Guarded sha256 i (fun _ s => K s) (removeFiles transfers) s := by
  induction transfers generalizing s with
  | nil => exact hs
  | cons t transfers ih =>
    have ht := hremovable t mem_cons_self
    refine guarded_remove hs hstable hframe ht fun _ s hs => ?_
    refine guarded_remove hs hstable hframe ht fun _ s hs => ?_
    refine guarded_remove hs hstable hframe ht fun _ s hs => ?_
    refine guarded_bind.mpr ?_
    exact ih (fun t ht => hremovable t (mem_cons_of_mem _ ht)) hs

/-- The transfers are rows of the batch, none of which is offered if `quiet`. -/
def Members (batchID : String) (transfers : List FileTransfer) (quiet : Prop) (s : State) : Prop :=
  ∀ t ∈ transfers, ∃ r, s.table.get t.id = some r ∧ r.batchID = batchID ∧ (quiet → r.state.rank ≠ 1)

/-- Under the lock of the batch its rows stay, and no one else offers them. -/
lemma stable_members (batchID : String) (transfers : List FileTransfer) (quiet : Prop) :
    Stable sha256 i fun s => Holding i (.batch batchID) s ∧ Members batchID transfers quiet s := by
  rintro s s' hrely ⟨hheld, hmembers⟩
  refine ⟨stable_holding _ s s' hrely hheld, fun t ht => ?_⟩
  obtain ⟨r, hr, hbatch, hrank⟩ := hmembers t ht
  obtain ⟨r', hr', hbecomes, -⟩ := hrely.row t.id r hr
  have hbatch' : r'.batchID = batchID := hbecomes.batchID.trans hbatch
  refine ⟨r', hr', hbatch', fun hquiet hone => ?_⟩
  have hlock : s.locks.lookup (.batch r'.batchID) = some i := by
    rw [hbatch']
    exact hheld.lock
  obtain ⟨r₀, hr₀, hback⟩ := hrely.batch t.id r' hr' hlock
  cases hr.symm.trans hr₀
  exact hrank hquiet (hback hone)

variable {t : FileTransfer}

/-- The files of a batch may be removed under its lock if none of the transfers is offered. -/
lemma Members.removable (h : Members batchID transfers True s) (hheld : Holding i (.batch batchID) s)
    (ht : t ∈ transfers) : Removable i s t.id := by
  intro r hr
  obtain ⟨_, hr', hbatch, hrank⟩ := h t ht
  cases hr.symm.trans hr'
  have hne := hrank trivial
  have hle := r.state.rank_le
  by_cases htwo : r.state.rank = 2
  · exact .inl htwo
  · refine .inr (.inr ⟨by omega, ?_⟩)
    rw [hbatch]
    exact hheld.lock

/-- Cancelling a batch under its lock: the files are removed after the rows are marked. -/
lemma guarded_cancelBatchLocked (hbatch : ∀ t ∈ transfers, t.batchID = batchID)
    (hheld : Holding i (.batch batchID) s) (hmembers : Members batchID transfers False s) :
    Guarded sha256 i (fun _ s => Holding i (.batch batchID) s) (cancelBatchLocked transfers) s := by
  -- what is left to do once the rows are marked
  have hrest : ∀ marked s, Holding i (.batch batchID) s ∧ Members batchID transfers True s →
      Guarded sha256 i (fun _ s => Holding i (.batch batchID) s) (do
        let removed ← removeFiles transfers
        let synced ← request .syncDir
        return marked && removed && synced) s := by
    intro marked s hs
    have hremove : Guarded sha256 i
        (fun _ s => Holding i (.batch batchID) s ∧ Members batchID transfers True s)
        (removeFiles transfers) s := by
      refine guarded_removeFiles (stable_members batchID transfers True) (fun s kind id h => ?_)
        (fun t ht s h => h.2.removable h.1 ht) hs
      exact ⟨by simpa [Holding, setName] using h.1, by simpa [Members, setName] using h.2⟩
    refine hremove.bind fun removed s hs => ?_
    exact guarded_read rfl hs (stable_members batchID transfers True) fun s _ _ hs _ _ => hs.1
  rcases transfers with _ | ⟨t, ts⟩
  · exact hrest true s ⟨hheld, nofun⟩
  have hkey : t.batchID = batchID := hbatch t mem_cons_self
  refine guarded_call ⟨hheld, hmembers⟩ (stable_members batchID (t :: ts) False)
    fun s f s' marked hK hinv hallowed hperform => ?_
  have hafter : Legal sha256 i s s' ∧ s'.locks = s.locks ∧ s'.expiring = s.expiring ∧
      (f = .ok → s'.table = (s.table.cancelFileTransferBatch t.batchID).1) ∧
      (f ≠ .ok → s'.table = s.table) := by
    cases f with
    | ok =>
      cases hperform
      exact ⟨legal_cancelBatch hinv _, rfl, rfl, fun _ => rfl, fun h => absurd rfl h⟩
    | fail | short =>
      cases hperform
      exact ⟨legal_refl hinv, rfl, rfl, nofun, fun _ => rfl⟩
  obtain ⟨hlegal, hlocks, hexpiring, hok, hfail⟩ := hafter
  refine ⟨hlegal, hrest marked s' ⟨?_, fun t' ht' => ?_⟩⟩
  · rw [Holding, hlocks, hexpiring]
    exact hK.1
  · obtain ⟨r, hr, hr_batch, -⟩ := hK.2 t' ht'
    obtain ⟨r', hr', hbecomes, -⟩ := hlegal.guarantee t'.id r hr
    have hr'_batch : r'.batchID = batchID := hbecomes.batchID.trans hr_batch
    exact ⟨r', hr', hr'_batch, fun _ =>
      rank_cancelBatch hallowed hok hfail hr' (hr'_batch.trans hkey.symm)⟩

/-! ### Create -/

variable {policy : Policy} {now : ℕ} {input : CreateRequest} {ids : List String}

lemma batchID_of_newTransfers {direction : Direction} {total : ℤ} {files : List SourceFile}
    (h : newTransfers policy now input direction total ids files = .ok transfers) :
    ∀ t ∈ transfers, t.batchID = input.batchID := by
  induction files generalizing total ids transfers with
  | nil =>
    cases h
    exact nofun
  | cons file files ih =>
    simp only [newTransfers] at h
    repeat' split at h
    all_goals try cases h
    next ts hts =>
    intro t ht
    rcases mem_cons.mp ht with rfl | ht
    · rfl
    · exact ih hts t ht

lemma batchID_of_checkRequest (h : checkRequest policy now ids input = .ok transfers) :
    ∀ t ∈ transfers, t.batchID = input.batchID := by
  unfold checkRequest at h
  split at h
  · cases h
  split at h
  · cases h
  · split at h
    · cases h
    · exact batchID_of_newTransfers h

/-- The rows of a batch stay. -/
lemma stable_rows (batchID : String) (transfers : List FileTransfer) :
    Stable sha256 i (Members batchID transfers False) := by
  intro s s' hrely hmembers t ht
  obtain ⟨r, hr, hbatch, -⟩ := hmembers t ht
  obtain ⟨r', hr', hbecomes, -⟩ := hrely.row t.id r hr
  exact ⟨r', hr', hbecomes.batchID.trans hbatch, fun h => h.elim⟩

/-- Making the partial files. -/
lemma guarded_createFiles (files : List FileTransfer)
    (hs : Idle i s ∧ Members batchID transfers False s) :
    Guarded sha256 i (fun _ s => Idle i s ∧ Members batchID transfers False s) (createFiles files) s := by
  induction files generalizing s with
  | nil => exact hs
  | cons t files ih =>
    refine guarded_call hs (stable_idle.and (stable_rows batchID transfers)) fun s f s' made hK hinv _ hperform => ?_
    have hafter : Legal sha256 i s s' ∧ Idle i s' ∧ Members batchID transfers False s' := by
      cases f with
      | fail =>
        cases hperform
        exact ⟨legal_refl hinv, hK⟩
      | ok | short =>
        simp only [perform, isNone_iff_eq_none] at hperform
        split at hperform
        · next hnone =>
          cases hperform
          exact ⟨legal_createFile hinv hnone _, hK⟩
        · cases hperform
          exact ⟨legal_refl hinv, hK⟩
    refine ⟨hafter.1, ?_⟩
    cases made with
    | true => exact ih hafter.2
    | false => exact hafter.2

lemma guarded_cancelBatch (hbatch : ∀ t ∈ transfers, t.batchID = batchID)
    (hs : Idle i s ∧ Members batchID transfers False s) :
    Guarded sha256 i (fun _ s => Idle i s) (cancelBatch transfers) s := by
  rcases transfers with _ | ⟨t, ts⟩
  · exact hs.1
  have hkey : t.batchID = batchID := hbatch t mem_cons_self
  have hmembers : ∀ s, Members batchID (t :: ts) False s → Members t.batchID (t :: ts) False s := by
    intro s h
    rwa [hkey]
  refine guarded_withLock ⟨hs.1, hmembers s hs.2⟩ (stable_rows _ _) (fun _ _ h => h) ?_ fun _ _ h => h
  intro s hheld hK _
  exact guarded_cancelBatchLocked (fun t' ht' => (hbatch t' ht').trans hkey.symm) hheld hK

/-- `Create` keeps to the discipline. -/
lemma guarded_create (policy : Policy) (now : ℕ) (ids : List String) (input : CreateRequest)
    (hs : Idle i s) :
    Guarded sha256 i (fun _ s => Idle i s) (create policy now ids input) s := by
  unfold create
  rcases hcheck : checkRequest policy now ids input with _ | transfers
  · exact hs
  have hbatch := batchID_of_checkRequest hcheck
  refine guarded_atomic rfl hs stable_idle (fun s hidle => hidle) fun s s' r hidle hinv hallowed hperform => ?_
  have hafter : Legal sha256 i s s' ∧ Idle i s' ∧
      (r = .ok () → Members input.batchID transfers False s') := by
    simp only [perform] at hperform
    split at hperform
    · next table htable =>
      cases hperform
      obtain ⟨hold, hnew, hall⟩ := get_insertAll (insertAll_of_create htable)
      refine ⟨legal_of_rows hinv (fun id r hr => ?_) fun id r' hr' hnone => ?_, hidle, fun _ t ht => ?_⟩
      · exact ⟨r, hold id r hr, .refl r, .inl rfl, fun hzero hone => by omega⟩
      · obtain ⟨hrank, t, ht, hr'_batch⟩ := hnew id r' hr' hnone
        rw [hr'_batch]
        exact ⟨hrank, hallowed t ht⟩
      · obtain ⟨r', hr', hr'_batch⟩ := hall t ht
        exact ⟨r', hr', hr'_batch.trans (hbatch t ht), fun h => h.elim⟩
    · cases hperform
      exact ⟨legal_refl hinv, hidle, nofun⟩
  obtain ⟨hlegal, hidle', hmembers⟩ := hafter
  refine ⟨hlegal, ?_⟩
  rcases r with e | _
  · cases e <;> exact hidle'
  refine (guarded_createFiles transfers ⟨hidle', hmembers rfl⟩).bind fun made s hs => ?_
  -- the same end whether the files or the directory fail
  have hend : ∀ synced s, Idle i s ∧ Members input.batchID transfers False s →
      Guarded sha256 i (fun _ s => Idle i s) (if synced = true
        then (return Except.ok transfers : Service (Except Code (List FileTransfer)))
        else do
          let _ ← cancelBatch transfers
          return Except.error Code.storageUnavailable) s := by
    intro synced s hs
    cases synced with
    | true => exact hs.1
    | false =>
      exact (guarded_cancelBatch hbatch hs).bind fun _ _ h => h
  cases made with
  | true =>
    exact guarded_read rfl hs (stable_idle.and (stable_rows _ _)) fun s f synced hs _ _ => hend synced s hs
  | false => exact hend false s hs

/-! ### Append -/

/-- The thread has the lock of the transfer, and the row has the offset and the size that were read. -/
def Appending (i : ℕ) (id : String) (t : FileTransfer) (s : State) : Prop :=
  Holding i (.transfer id) s ∧
    ∃ r, s.table.get id = some r ∧ r.committedOffset = t.committedOffset ∧ r.size = t.size

/-- Under the lock of a transfer its offset stays. -/
lemma stable_appending (id : String) (t : FileTransfer) : Stable sha256 i (Appending i id t) := by
  rintro s s' hrely ⟨hheld, r, hr, hoffset, hsize⟩
  obtain ⟨r', hr', hbecomes, hkept⟩ := hrely.row id r hr
  exact ⟨stable_holding _ s s' hrely hheld, r', hr', (hkept hheld.lock).trans hoffset,
    hbecomes.size.trans hsize⟩

lemma Appending.setData (h : Appending i id t s) (f : List UInt8 → List UInt8) :
    Appending i id t (s.setData id f) := by
  simpa [Appending, Holding, State.setData] using h

variable {pos : ℕ}

/-- A write behind the committed offset, where a byte after the end comes before the batch is
completed. -/
lemma legal_write (hinv : Inv sha256 s) {bytes written' : List UInt8} (h : Appending i id t s)
    (hpos : t.committedOffset ≤ pos) (hallowed : ∀ r ∈ s.table.get id, r.size < pos + bytes.length →
      r.state ≠ .published ∧ r.state ≠ .pending ∧ s.locks.lookup (.batch r.batchID) = none)
    (hwritten : written'.length ≤ bytes.length) :
    Legal sha256 i s (s.setData id (written · pos written')) := by
  refine legal_setData hinv fun r data hr _ hlength => ?_
  obtain ⟨-, r', hr', hoffset, -⟩ := h
  cases hr.symm.trans hr'
  by_cases hnil : written' = []
  · left
    rw [hnil, written, if_pos rfl]
  have hpositive := length_pos_iff.mpr hnil
  have hle := s.table.offset_le_of_get hr
  rcases hle.lt_or_eq with hlt | heq
  · exact .inr ⟨fun hone => absurd (hinv.complete id r hr hone) hlt.ne, .inl hlt⟩
  -- all bytes are there, so this one is after the end
  obtain ⟨hpublished, hpending, hfree⟩ := hallowed r hr (by omega)
  refine .inr ⟨fun hone => ?_, .inr fun j _ hj => ?_⟩
  · rcases rank_eq_one.mp hone with hstate | hstate
    · exact hpublished hstate
    · exact hpending hstate
  · rw [hfree] at hj
    cases hj

/-- Cutting the file back to its committed bytes. -/
lemma guarded_truncate {Q : β → State → Prop} {next : Bool → Service β} (hs : Appending i id t s)
    (hnext : ∀ r s, Appending i id t s → Guarded sha256 i Q (next r) s) :
    Guarded sha256 i Q (request (.truncate id t.committedOffset) >>= next) s := by
  refine guarded_atomic rfl hs (stable_appending id t) (hnext _) fun s s' r hK hinv _ hperform => ?_
  cases hperform
  refine ⟨?_, hnext _ _ (hK.setData _)⟩
  refine legal_setData hinv fun r data hr _ hlength => ?_
  obtain ⟨-, r', hr', hoffset, -⟩ := hK
  cases hr.symm.trans hr'
  have hle := s.table.offset_le_of_get hr
  rcases hle.lt_or_eq with hlt | heq
  · exact .inr ⟨fun hone => absurd (hinv.complete id r hr hone) hlt.ne, .inl hlt⟩
  · left
    rw [← hoffset, heq, ← hlength]
    exact truncated_length data

/-- Writing a body behind the committed bytes. -/
lemma guarded_copy (body : List Read) {limit total : ℕ} (hpos : t.committedOffset ≤ pos)
    (hs : Appending i id t s) :
    Guarded sha256 i (fun _ s => Appending i id t s) (copy id pos limit total body) s := by
  induction body generalizing pos limit total s with
  | nil => exact hs
  | cons read body ih =>
    unfold copy
    split
    · exact hs
    -- the rest of the loop after the bytes of this read
    have hrest : ∀ (stored : Bool) s, Appending i id t s → Guarded sha256 i
        (fun _ s => Appending i id t s) (if (!stored || read.error) = true then return none else
          copy id (pos + (read.data.take limit).length) (limit - (read.data.take limit).length)
            (total + (read.data.take limit).length) body) s := by
      intro stored s hs
      split
      · exact hs
      · exact ih (by omega) hs
    by_cases hnil : read.data.take limit = []
    · simp only [hnil, if_true]
      simp only [hnil] at hrest
      exact hrest true s hs
    · simp only [if_neg hnil]
      refine guarded_call hs (stable_appending id t) fun s f s' r hK hinv hallowed hperform => ?_
      cases f with
      | ok =>
        cases hperform
        exact ⟨legal_write hinv hK hpos hallowed le_rfl, hrest _ _ (hK.setData _)⟩
      | fail =>
        cases hperform
        exact ⟨legal_refl hinv, hrest _ _ hK⟩
      | short =>
        cases hperform
        exact ⟨legal_write hinv hK hpos hallowed (length_take_le' _ _), hrest _ _ (hK.setData _)⟩

/-- `Append` under its lock keeps to the discipline. -/
lemma guarded_appendLocked (id : String) (offset : ℤ) (body : List Read)
    (hs : Holding i (.transfer id) s) :
    Guarded sha256 i (fun _ s => Holding i (.transfer id) s) (appendLocked id offset body) s := by
  unfold appendLocked
  refine guarded_read rfl hs (stable_holding _) fun s f row hheld _ hperform => ?_
  rcases row with _ | t
  · exact hheld
  have happending : Appending i id t s := ⟨hheld, t, get_of_fileTransfer hperform, rfl, rfl⟩
  simp only
  split
  · exact hheld
  split
  · exact hheld
  refine guarded_read rfl happending (stable_appending id t) fun s f opened hK _ _ => ?_
  split
  · exact hK.1
  refine guarded_truncate hK fun cut s hK => ?_
  split
  · exact hK.1
  refine (guarded_copy body le_rfl hK).bind fun total s hK => ?_
  rcases total with _ | _
  · exact hK.1
  simp only
  split
  · exact guarded_truncate hK fun _ s hK => hK.1
  refine guarded_read rfl hK (stable_appending id t) fun s f synced hK _ _ => ?_
  split
  · exact hK.1
  refine guarded_atomic rfl hK (stable_appending id t) (fun s hK => hK.1)
    fun s s' committed hK hinv _ hperform => ?_
  simp only [perform] at hperform
  split at hperform
  · next table htable =>
    cases hperform
    exact ⟨legal_commitOffset hinv hK.1.lock htable, hK.1⟩
  · cases hperform
    exact ⟨legal_refl hinv, hK.1⟩

lemma stable_true : Stable sha256 i fun _ => True := fun _ _ _ h => h

/-! ### Complete -/

/-- What a thread knows after it has read the batch under its lock: these are the rows of the batch,
and no one else offers them. -/
structure Completing (i : ℕ) (batchID : String) (transfers : List FileTransfer) (s : State) : Prop where
  held : Holding i (.batch batchID) s
  all : ∀ id r, s.table.get id = some r → r.batchID = batchID → ∃ t ∈ transfers, t.id = id
  row : ∀ t ∈ transfers, ∃ r, s.table.get t.id = some r ∧ Becomes t r ∧ t.batchID = batchID ∧
    (r.state.rank = 1 → t.state.rank = 1)

/-- The files of these transfers were checked. -/
def Checked (sha256 : List UInt8 → String) (transfers : List FileTransfer) (s : State) : Prop :=
  ∀ t ∈ transfers, t.committedOffset = t.size ∧ t.state.rank = 0 ∧ Verified sha256 s t.id t

/-- The files of these transfers were renamed, unless the transfer expires. -/
def Renamed (transfers : List FileTransfer) (s : State) : Prop :=
  ∀ t ∈ transfers, ∃ r, s.table.get t.id = some r ∧
    (r.state.rank = 2 ∨ s.Expiring t.id ∨ s.hasName .content t.id = true)

/-- Under the lock of a batch no one else offers its transfers. -/
lemma stable_completing (batchID : String) (transfers : List FileTransfer) :
    Stable sha256 i (Completing i batchID transfers) := by
  intro s s' hrely h
  refine ⟨stable_holding _ s s' hrely h.held, fun id r' hr' hbatch => ?_, fun t ht => ?_⟩
  · obtain ⟨r, hr, -⟩ := hrely.batch id r' hr' (hbatch.symm ▸ h.held.lock)
    obtain ⟨_, hr'', hbecomes, -⟩ := hrely.row id r hr
    cases hr''.symm.trans hr'
    exact h.all id r hr (hbecomes.batchID.symm.trans hbatch)
  · obtain ⟨r, hr, hbecomes, hbatch, hrank⟩ := h.row t ht
    obtain ⟨r', hr', hbecomes', -⟩ := hrely.row t.id r hr
    refine ⟨r', hr', hbecomes.trans hbecomes', hbatch, fun hone => ?_⟩
    have hbatch' : r'.batchID = batchID := (hbecomes.trans hbecomes').batchID.trans hbatch
    obtain ⟨r₀, hr₀, hback⟩ := hrely.batch t.id r' hr' (hbatch'.symm ▸ h.held.lock)
    cases hr.symm.trans hr₀
    exact hrank (hback hone)

variable {done : List FileTransfer}

lemma Completing.of_get {r : FileTransfer} (h : Completing i batchID transfers s) (ht : t ∈ transfers)
    (hr : s.table.get t.id = some r) : Becomes t r ∧ s.locks.lookup (.batch r.batchID) = some i ∧
      (r.state.rank = 1 → t.state.rank = 1) := by
  obtain ⟨_, hr', hbecomes, hbatch, hrank⟩ := h.row t ht
  cases hr.symm.trans hr'
  refine ⟨hbecomes, ?_, hrank⟩
  rw [hbecomes.batchID, hbatch]
  exact h.held.lock

/-- Files that were checked stay as they are under the lock. -/
lemma stable_checked (hdone : ∀ t ∈ done, t ∈ transfers) :
    Stable sha256 i fun s => Completing i batchID transfers s ∧ Checked sha256 done s := by
  rintro s s' hrely ⟨h, hchecked⟩
  refine ⟨stable_completing _ _ s s' hrely h, fun t ht => ?_⟩
  obtain ⟨hcomplete, hzero, hverified⟩ := hchecked t ht
  obtain ⟨r, hr, -⟩ := h.row t (hdone t ht)
  obtain ⟨hbecomes, hlock, -⟩ := h.of_get (hdone t ht) hr
  have hverified' := hrely.verified t.id r hr hlock (offset_eq_of_becomes hr hbecomes hcomplete)
    (hverified.becomes hbecomes)
  exact ⟨hcomplete, hzero, hverified'.of_becomes hbecomes⟩

/-- The files of the batch were checked, and some of them renamed. -/
def Publishing (sha256 : List UInt8 → String) (i : ℕ) (batchID : String)
    (transfers renamed : List FileTransfer) (s : State) : Prop :=
  (Completing i batchID transfers s ∧ Checked sha256 transfers s) ∧ Renamed renamed s

/-- Renamed files stay under the lock of the batch, or the transfer expires. -/
lemma stable_renamed (hdone : ∀ t ∈ done, t ∈ transfers) :
    Stable sha256 i (Publishing sha256 i batchID transfers done) := by
  rintro s s' hrely ⟨h, hready⟩
  refine ⟨stable_checked (fun _ h => h) s s' hrely h, fun t ht => ?_⟩
  obtain ⟨r, hr, hdisj⟩ := hready t ht
  obtain ⟨r', hr', -⟩ := hrely.row t.id r hr
  exact ⟨r', hr', hrely.ready t.id r r' hr hr' (h.1.of_get (hdone t ht) hr).2.1 hdisj⟩

lemma guarded_readBack (hstable : Stable sha256 i K) (id : String) (hs : K s) :
    Guarded sha256 i (fun _ s => K s) (readBack id) s := by
  refine guarded_read rfl hs hstable fun s f row hK _ _ => ?_
  cases row with
  | none | some => exact hK

/-- The loop that checks the files. `done` are the transfers that it has already passed. -/
lemma guarded_verify (rest done : List FileTransfer) (hrest : ∀ t ∈ rest, t ∈ transfers)
    (hdone : ∀ t ∈ done, t ∈ transfers) (hs : Completing i batchID transfers s ∧ Checked sha256 done s) :
    Guarded sha256 i (fun e s => Holding i (.batch batchID) s ∧
        (e = none → Completing i batchID transfers s ∧ Checked sha256 (rest ++ done) s))
      (verify sha256 transfers rest) s := by
  induction rest generalizing s done with
  | nil => exact ⟨hs.1.held, fun _ => hs⟩
  | cons t rest ih =>
    have ht : t ∈ transfers := hrest t mem_cons_self
    unfold verify
    split
    · exact ⟨hs.1.held, by simp⟩
    next hopen =>
    have hopen' : t.committedOffset = t.size ∧ t.state.rank = 0 := by
      simp only [not_or, not_not, Bool.not_eq_true, Bool.not_eq_false'] at hopen
      exact ⟨hopen.1, rank_of_isOpen hopen.2⟩
    refine guarded_read rfl hs (stable_checked hdone) fun s f stat hK _ _ => ?_
    refine guarded_read rfl hK (stable_checked hdone) fun s f opened hK _ _ => ?_
    split
    · exact ⟨hK.1.held, by simp⟩
    refine guarded_read rfl hK (stable_checked hdone) fun s f data hK _ hperform => ?_
    rcases data with _ | data
    · exact ⟨hK.1.held, by simp⟩
    simp only
    split
    · have hcancel : Guarded sha256 i (fun _ s => Holding i (.batch batchID) s)
          (cancelBatchLocked transfers) s := by
        refine guarded_cancelBatchLocked (fun t' ht' => ?_) hK.1.held fun t' ht' => ?_
        · obtain ⟨-, -, -, hbatch, -⟩ := hK.1.row t' ht'
          exact hbatch
        · obtain ⟨r, hr, hbecomes, hbatch, -⟩ := hK.1.row t' ht'
          exact ⟨r, hr, hbecomes.batchID.trans hbatch, fun h => h.elim⟩
      exact hcancel.bind fun _ s hheld => ⟨hheld, by simp⟩
    · next hmatch =>
      simp only [not_or, not_not] at hmatch
      have hdata : s.dataOf t.id = some data := by
        cases f with
        | ok => exact (mk.inj (some.inj hperform)).2
        | fail | short => cases hperform
      have hnext := ih (t :: done) (fun t' ht' => hrest t' (mem_cons_of_mem _ ht'))
        (forall_mem_cons.mpr ⟨ht, hdone⟩)
        ⟨hK.1, forall_mem_cons.mpr ⟨⟨hopen'.1, hopen'.2, data, hdata, hmatch⟩, hK.2⟩⟩
      refine hnext.mono fun e s h => ⟨h.1, fun he => ?_⟩
      obtain ⟨hcompleting, hchecked⟩ := h.2 he
      exact ⟨hcompleting, fun t' ht' => hchecked t' (perm_middle.mem_iff.mpr ht')⟩

/-- A transfer that is being completed is not offered yet. -/
lemma Completing.removable (h : Completing i batchID transfers s) (hchecked : Checked sha256 done s)
    (ht : t ∈ transfers) (htdone : t ∈ done) : Removable i s t.id := by
  intro r hr
  obtain ⟨-, hlock, hrank⟩ := h.of_get ht hr
  obtain ⟨-, hzero, -⟩ := hchecked t htdone
  have hle := r.state.rank_le
  by_cases htwo : r.state.rank = 2
  · exact .inl htwo
  · exact .inr (.inr ⟨by omega, hlock⟩)

lemma checked_setName {b : Bool} (h : Completing i batchID transfers s ∧ Checked sha256 done s) :
    Completing i batchID transfers (s.setName kind id b) ∧ Checked sha256 done (s.setName kind id b) := by
  obtain ⟨⟨hheld, hall, hrow⟩, hchecked⟩ := h
  refine ⟨⟨?_, ?_, ?_⟩, ?_⟩
  · simpa [Holding, setName] using hheld
  · simpa [setName] using hall
  · simpa [setName] using hrow
  · simpa [Checked, Verified] using hchecked

/-- Undoing the renames keeps to the discipline. -/
lemma guarded_undoRenames (renamed : List FileTransfer) (hrenamed : ∀ t ∈ renamed, t ∈ transfers)
    (hs : Completing i batchID transfers s ∧ Checked sha256 transfers s) :
    Guarded sha256 i (fun _ s => Holding i (.batch batchID) s) (undoRenames renamed) s := by
  induction renamed generalizing s with
  | nil => exact hs.1.held
  | cons t renamed ih =>
    have ht : t ∈ transfers := hrenamed t mem_cons_self
    have hnext := fun t' ht' => hrenamed t' (mem_cons_of_mem t ht')
    refine guarded_atomic rfl hs (stable_checked fun _ h => h) (fun s hK => ih hnext hK)
      fun s s' r hK hinv _ hperform => ?_
    simp only [perform] at hperform
    split at hperform
    · split at hperform
      · cases hperform
        exact ⟨legal_refl hinv, ih hnext hK⟩
      · cases hperform
        exact ⟨legal_rename hinv fun _ => hK.1.removable hK.2 ht ht,
          ih hnext (checked_setName (checked_setName hK))⟩
    · cases hperform
      exact ⟨legal_refl hinv, ih hnext hK⟩

lemma hasName_content_rename (h : s.hasName .part id = true) {id' : String}
    (h' : s.hasName .content id' = true ∨ id' = id) :
    ((s.setName .part id false).setName .content id true).hasName .content id' = true := by
  by_cases heq : id' = id
  · subst heq
    exact hasName_setName_self _ (s.isSome_setName (s.isSome_of_hasName h))
  · rw [hasName_setName_of_ne _ (.inr heq), hasName_setName_of_ne _ (.inr heq)]
    exact h'.resolve_right heq

/-- The loop that renames the files. `done` are the transfers that it has already passed. -/
lemma guarded_renameFiles (rest done renamed : List FileTransfer) (hrest : ∀ t ∈ rest, t ∈ transfers)
    (hdone : ∀ t ∈ done, t ∈ transfers) (hrenamed : ∀ t ∈ renamed, t ∈ transfers)
    (hs : Publishing sha256 i batchID transfers done s) :
    Guarded sha256 i (fun ok s => Holding i (.batch batchID) s ∧
        (ok = true → Publishing sha256 i batchID transfers (rest ++ done) s))
      (renameFiles renamed rest) s := by
  induction rest generalizing s done renamed with
  | nil => exact ⟨hs.1.1.held, fun _ => hs⟩
  | cons t rest ih =>
    have ht : t ∈ transfers := hrest t mem_cons_self
    have hstable := @stable_renamed sha256 i batchID transfers done hdone
    -- the rest of the loop once the content file of this transfer is there
    have hnext : ∀ renamed' s, (∀ t ∈ renamed', t ∈ transfers) →
        Publishing sha256 i batchID transfers done s → s.hasName .content t.id = true →
        Guarded sha256 i (fun ok s => Holding i (.batch batchID) s ∧
          (ok = true → Publishing sha256 i batchID transfers (t :: rest ++ done) s))
          (renameFiles renamed' rest) s := by
      intro renamed' s hrenamed' hK hcontent
      obtain ⟨r, hr, -⟩ := hK.1.1.row t ht
      have hloop := ih (t :: done) renamed' (fun t' ht' => hrest t' (mem_cons_of_mem _ ht'))
        (forall_mem_cons.mpr ⟨ht, hdone⟩) hrenamed'
        ⟨hK.1, forall_mem_cons.mpr ⟨⟨r, hr, .inr (.inr hcontent)⟩, hK.2⟩⟩
      refine hloop.mono fun ok s h => ⟨h.1, fun hok => ?_⟩
      obtain ⟨hcompleting, hready⟩ := h.2 hok
      exact ⟨hcompleting, fun t' ht' => hready t' (perm_middle.mem_iff.mpr ht')⟩
    unfold renameFiles
    refine guarded_read rfl hs hstable fun s f stat hK _ hperform => ?_
    split
    · next hfound =>
      refine hnext renamed s hrenamed hK ?_
      cases f with
      | ok =>
        have hstat := (mk.inj (some.inj hperform)).2
        by_contra hmissing
        rw [hfound, if_neg hmissing] at hstat
        cases hstat
      | fail | short =>
        rw [hfound] at hperform
        cases hperform
    have hundo : ∀ s, Publishing sha256 i batchID transfers done s →
        Guarded sha256 i (fun ok s => Holding i (.batch batchID) s ∧
          (ok = true → Publishing sha256 i batchID transfers (t :: rest ++ done) s))
        (undoRenames renamed >>= fun _ => return false) s :=
      fun s hK => (guarded_undoRenames renamed hrenamed hK.1).bind fun _ s hheld => ⟨hheld, by simp⟩
    refine guarded_atomic rfl hK hstable hundo fun s s' moved hK hinv _ hperform => ?_
    have hmore : ∀ t' ∈ t :: renamed, t' ∈ transfers := forall_mem_cons.mpr ⟨ht, hrenamed⟩
    simp only [perform] at hperform
    split at hperform
    · next hpart =>
      split at hperform
      · next hcontent =>
        cases hperform
        exact ⟨legal_refl hinv, hnext (t :: renamed) s hmore hK hcontent⟩
      · cases hperform
        refine ⟨legal_rename hinv (by simp), hnext (t :: renamed) _ hmore
          ⟨checked_setName (checked_setName hK.1), fun t' ht' => ?_⟩ (hasName_content_rename hpart (.inr rfl))⟩
        obtain ⟨r, hr, hdisj⟩ := hK.2 t' ht'
        refine ⟨r, by simpa [setName] using hr, ?_⟩
        rcases hdisj with htwo | hexpiring | hcontent
        · exact .inl htwo
        · exact .inr (.inl (by simpa [Expiring, setName] using hexpiring))
        · exact .inr (.inr (hasName_content_rename hpart (.inl hcontent)))
    · cases hperform
      exact ⟨legal_refl hinv, hundo s hK⟩

/-- `Complete` under its lock keeps to the discipline. -/
lemma guarded_completeLocked (id batchID : String) (hs : Holding i (.batch batchID) s) :
    Guarded sha256 i (fun _ s => Holding i (.batch batchID) s) (completeLocked sha256 id batchID) s := by
  unfold completeLocked
  refine guarded_read rfl hs (stable_holding _) fun s f transfers hheld _ hperform => ?_
  rcases transfers with _ | transfers
  · exact hheld
  have hmem := mem_of_fileTransfersByBatch hperform
  have hcompleting : Completing i batchID transfers s := by
    refine ⟨hheld, fun id' r hr hbatch => ?_, fun t ht => ?_⟩
    · have hid := s.table.id_of_get hr
      exact ⟨r, (hmem r).mpr ⟨hid.symm ▸ hr, hbatch⟩, hid⟩
    · obtain ⟨hr, hbatch⟩ := (hmem t).mp ht
      exact ⟨t, hr, .refl t, hbatch, fun h => h⟩
  simp only [completeRows]
  split
  · exact guarded_readBack (stable_holding _) id hheld
  have hverify : Guarded sha256 i _ (verify sha256 transfers transfers) s :=
    guarded_verify transfers [] (fun _ h => h) nofun ⟨hcompleting, nofun⟩
  refine hverify.bind fun e s h => ?_
  cases e with
  | some => exact h.1
  | none =>
    obtain ⟨hcompleting, hchecked⟩ := h.2 rfl
    rw [append_nil] at hchecked
    have hrename : Guarded sha256 i _ (renameFiles [] transfers) s :=
      guarded_renameFiles transfers [] [] (fun _ h => h) nofun nofun ⟨⟨hcompleting, hchecked⟩, nofun⟩
    refine hrename.bind fun ok s h => ?_
    rcases ok with _ | _
    · exact h.1
    have hK := h.2 rfl
    rw [append_nil] at hK
    have hstable := @stable_renamed sha256 i batchID transfers transfers fun _ h => h
    simp only [Bool.not_true, Bool.false_eq_true, if_false]
    refine guarded_read rfl hK hstable fun s f synced hK _ _ => ?_
    split
    · exact hK.1.1.held
    refine guarded_atomic rfl hK hstable (fun s hK => hK.1.1.held) fun s s' completed hK hinv _ hperform => ?_
    simp only [perform] at hperform
    split at hperform
    · next table htable =>
      cases hperform
      refine ⟨legal_completeBatch hinv hK.1.1.held.lock (fun id' r hr hbatch => ?_) htable,
        guarded_readBack (stable_holding _) id hK.1.1.held⟩
      -- every row of the batch was read, checked and renamed
      obtain ⟨t, ht, rfl⟩ := hK.1.1.all id' r hr hbatch
      obtain ⟨hbecomes, -⟩ := hK.1.1.of_get ht hr
      obtain ⟨_, hr₁, hready⟩ := hK.2 t ht
      cases hr.symm.trans hr₁
      exact ⟨(hK.1.2 t ht).2.2.becomes hbecomes, hready⟩
    · cases hperform
      exact ⟨legal_refl hinv, hK.1.1.held⟩

/-! ### The other operations -/

/-- `Cancel` keeps to the discipline. -/
lemma guarded_cancel (id : String) (hs : Idle i s) :
    Guarded sha256 i (fun _ s => Idle i s) (cancel id) s := by
  unfold cancel
  refine guarded_read rfl hs stable_idle fun s f transfer hidle _ _ => ?_
  cases transfer with
  | none => exact hidle
  | some transfer =>
    refine guarded_withLock ⟨hidle, trivial⟩ stable_true (fun _ _ _ => trivial)
      (fun _ hheld _ _ => ?_) fun _ _ h => h
    unfold cancelListed
    refine guarded_read rfl hheld (stable_holding _) fun s f transfers hheld _ hperform => ?_
    rcases transfers with _ | _
    · exact hheld
    have hmem := mem_of_fileTransfersByBatch hperform
    refine guarded_cancelBatchLocked (fun t ht => ((hmem t).mp ht).2) hheld fun t ht => ?_
    obtain ⟨hr, hbatch⟩ := (hmem t).mp ht
    exact ⟨t, hr, hbatch, fun h => h.elim⟩

lemma stable_settled (id : String) : Stable sha256 i fun s =>
    Idle i s ∧ ∃ r, s.table.get id = some r ∧ r.state.rank = 2 := by
  rintro s s' hrely ⟨hidle, r, hr, htwo⟩
  obtain ⟨r', hr', hbecomes, -⟩ := hrely.row id r hr
  exact ⟨stable_idle s s' hrely hidle, r', hr', hbecomes.settled htwo⟩

/-- `Receipt` keeps to the discipline. -/
lemma guarded_receipt (id clientID resultCode receiptPath : String) (hs : Idle i s) :
    Guarded sha256 i (fun _ s => Idle i s) (receipt id clientID resultCode receiptPath) s := by
  unfold receipt
  refine guarded_atomic rfl hs stable_idle (fun s hidle => hidle) fun s s' marked hidle hinv _ hperform => ?_
  simp only [perform] at hperform
  split at hperform
  · next table htable =>
    cases hperform
    obtain ⟨hlegal, hsettled⟩ := legal_receipt hinv htable
    refine ⟨hlegal, ?_⟩
    refine guarded_remove ⟨hidle, hsettled⟩ (stable_settled id)
      (fun s kind id h => by simpa [Idle, setName] using h) (fun s hK r hr => ?_)
      fun removed s hK => ?_
    · obtain ⟨-, r', hr', htwo⟩ := hK
      cases hr.symm.trans hr'
      exact .inl htwo
    · split
      · exact hK.1
      · exact guarded_read rfl hK (stable_settled id) fun s f synced hK _ _ => hK.1
  · cases hperform
    exact ⟨legal_refl hinv, hidle⟩

/-- `CleanupExpired` keeps to the discipline. -/
lemma guarded_cleanupExpired (now : ℕ) (hs : Idle i s) :
    Guarded sha256 i (fun _ s => Idle i s) (cleanupExpired now) s := by
  unfold cleanupExpired
  refine guarded_atomic rfl hs stable_idle (fun s hidle => hidle) fun s s' listed hidle hinv _ hperform => ?_
  cases hperform
  refine ⟨legal_list hinv hidle now, ?_⟩
  generalize s.table.expiredFileTransfers now = transfers
  -- the thread has its list until the rows are marked
  have hstable : Stable sha256 i fun s =>
      (∀ key, s.locks.lookup key ≠ some i) ∧ s.expiring.lookup i = some transfers :=
    fun s s' hrely h => ⟨fun key hkey => h.1 key ((hrely.locks key).mp hkey),
      hrely.expiring.trans h.2⟩
  have hremove : Guarded sha256 i (fun _ s =>
      (∀ key, s.locks.lookup key ≠ some i) ∧ s.expiring.lookup i = some transfers)
      (removeFiles transfers) { s with expiring := s.expiring.insert i transfers } := by
    refine guarded_removeFiles hstable (fun s kind id h => by simpa [setName] using h)
      (fun t ht s h r _ => .inr (.inl ⟨i, transfers, h.2, t, ht, rfl⟩)) ⟨hidle.1, ?_⟩
    simp
  refine hremove.bind fun _ s hK => ?_
  refine guarded_call hK hstable fun s f s' marked hK hinv hallowed hperform => ?_
  have hafter : s' = { s with
      table := s.table.expireFileTransfers transfers
      expiring := s.expiring.erase i } := by
    rcases hallowed with rfl | hnil
    · exact (mk.inj (some.inj hperform)).1.symm
    · subst hnil
      cases f <;> exact (mk.inj (some.inj hperform)).1.symm
  subst hafter
  refine ⟨legal_expire hinv hK.2, hK.1, ?_⟩
  simp

/-- `PublishedPath` keeps to the discipline. -/
lemma guarded_publishedPath (id : String) (hs : Idle i s) :
    Guarded sha256 i (fun _ s => Idle i s) (publishedPath id) s := by
  unfold publishedPath
  refine guarded_read rfl hs stable_idle fun s f transfer hidle _ _ => ?_
  rcases transfer with _ | _
  · exact hidle
  simp only
  split
  · exact hidle
  refine guarded_atomic rfl hidle stable_idle (fun s hidle => hidle) fun s s' linked hidle hinv _ hperform => ?_
  simp only [perform] at hperform
  split at hperform
  · cases hperform
    have hidle' : Idle i (s.setName .published id true) := by simpa [Idle, setName] using hidle
    refine ⟨legal_setName hinv nofun, ?_⟩
    refine guarded_read rfl hidle' stable_idle fun s f contentStat hidle _ _ => ?_
    refine guarded_read rfl hidle stable_idle fun s f stat hidle _ _ => ?_
    split
    · exact hidle
    exact guarded_read rfl hidle stable_idle fun s f synced hidle _ _ => hidle
  · cases hperform
    exact ⟨legal_refl hinv, hidle⟩

/-! ### Every run -/

/-- The operations and the crashes of the service keep to the discipline. -/
lemma disciplined_service : (discipline sha256).Disciplined (service sha256) careful where
  program o i s hstart hinv hidle := by
    clear hstart hinv
    cases o <;> refine guarded_bind.mpr ?_
    case create policy now ids input => exact guarded_create policy now ids input hidle
    case append id offset body =>
      exact guarded_withLock ⟨hidle, trivial⟩ stable_true (fun _ _ _ => trivial)
        (fun _ hheld _ _ => guarded_appendLocked id offset body hheld) fun _ _ h => h
    case complete id =>
      unfold complete
      refine guarded_read rfl hidle stable_idle fun s f requested hidle _ _ => ?_
      cases requested with
      | none => exact hidle
      | some requested =>
        exact guarded_withLock ⟨hidle, trivial⟩ stable_true (fun _ _ _ => trivial)
          (fun _ hheld _ _ => guarded_completeLocked id requested.batchID hheld) fun _ _ h => h
    case cancel id => exact guarded_cancel id hidle
    case receipt id clientID resultCode receiptPath =>
      exact guarded_receipt id clientID resultCode receiptPath hidle
    case cleanupExpired now => exact guarded_cleanupExpired now hidle
    case openContent id =>
      unfold openContent
      refine guarded_read rfl hidle stable_idle fun s f transfer hidle _ _ => ?_
      rcases transfer with _ | _
      · exact hidle
      simp only
      split
      · exact hidle
      refine guarded_read rfl hidle stable_idle fun s f opened hidle _ _ => ?_
      split
      · exact hidle
      refine guarded_read rfl hidle stable_idle fun s f data hidle _ _ => ?_
      cases data with
      | none | some => exact hidle
    case publishedPath id => exact guarded_publishedPath id hidle
  crash s hinv hcrash := by
    refine ⟨⟨hinv.complete, hinv.verified, fun id r hr hone => ?_, nofun⟩,
      fun id r hr => ⟨r, hr, .refl r, fun _ _ => rfl⟩, fun i => ⟨nofun, rfl⟩⟩
    left
    rcases hinv.kept id r hr hone with hcontent | ⟨j, transfers, hlist, t, ht, rfl⟩
    · exact hcontent
    obtain ⟨hpublished, hpending⟩ :=
      hcrash _ ((lookup_eq_some_iff_mem _ _ _).mp hlist) t ht r hr
    rcases rank_eq_one.mp hone with h | h
    · exact absurd h hpublished
    · exact absurd h hpending

lemma sound_empty : (discipline sha256).Sound (service sha256) careful (Pool.idle empty) :=
  .init ⟨nofun, nofun, nofun, nofun⟩ fun _ => ⟨nofun, rfl⟩

end

/-- The transfer is published or pending. -/
def FileTransfer.offered (r : FileTransfer) : Bool := r.state = .published || r.state = .pending

/-- In every run of careful moves, whenever no operation is in progress, the content file of every
published or pending transfer has as many bytes as declared and the declared digest; and its bytes are
those that it had whenever the transfer was published or pending before. -/
theorem published_content_intact (sha256 : List UInt8 → String)
    {p p' : Pool State Call.Reply Answer} {l l' : List (Move Fate Operation)}
    (hcareful : Meets (service sha256).step careful.Permits (Pool.idle State.empty) l)
    (hrun : run (service sha256).step (Pool.idle State.empty) l = some p)
    (hcareful' : Meets (service sha256).step careful.Permits p l')
    (hrun' : run (service sha256).step p l' = some p') (hquiet : p'.quiet = true) :
    (∀ id r, p'.shared.table.get id = some r → r.offered = true →
      ∃ file, p'.shared.files.lookup id = some file ∧ file.has .content = true ∧
        file.data.length = r.size ∧ sha256 file.data = r.sha256) ∧
    ∀ id r r', p.shared.table.get id = some r → r.offered = true →
      p'.shared.table.get id = some r' → r'.offered = true →
      p'.shared.dataOf id = p.shared.dataOf id := by
  have hoffered : ∀ r : FileTransfer, r.offered = true → r.state.rank = 1 := by
    intro r hr
    simp only [FileTransfer.offered, Bool.or_eq_true, decide_eq_true_eq] at hr
    exact rank_eq_one.mpr hr
  obtain ⟨hsound, -⟩ := sound_empty.run disciplined_service hcareful hrun
  obtain ⟨hsound', hguarantee⟩ := hsound.run disciplined_service hcareful' hrun'
  constructor
  · intro id r hr hstate
    have hone := hoffered r hstate
    obtain ⟨data, hdata, hlength, hdigest⟩ := hsound'.inv.verified id r hr hone
    -- no pass of `CleanupExpired` is in progress
    have hcontent : p'.shared.hasName .content id = true := by
      rcases hsound'.inv.kept id r hr hone with hcontent | ⟨i, transfers, hlist, -⟩
      · exact hcontent
      · have hidle : Idle i p'.shared := (hsound'.idle_or_done hquiet i).elim (fun h => h) fun ⟨_, h⟩ => h
        rw [hidle.2] at hlist
        cases hlist
    obtain ⟨file, hfile, rfl⟩ := map_eq_some_iff.mp hdata
    rw [State.hasName, hfile] at hcontent
    exact ⟨file, hfile, hcontent, hlength, hdigest⟩
  · intro id r r' hr hstate hr' hstate'
    obtain ⟨_, hr'', -, hsame⟩ := hguarantee id r hr
    cases hr''.symm.trans hr'
    exact hsame (hoffered r hstate) (hoffered _ hstate')

/-! ### Runs -/

/-- Whether a call is careful can be decided. -/
def decidableAllows (i : ℕ) (s : State) (c : Call) (f : Fate) : Decidable (careful.allows i s c f) :=
  match c with
  | .createFileTransfersWithinLimits transfers _ _ =>
    inferInstanceAs (Decidable (∀ t ∈ transfers, s.locks.lookup (.batch t.batchID) = none))
  | .cancelFileTransferBatch batchID =>
    inferInstanceAs (Decidable (∀ r ∈ s.table.ofBatch batchID,
      r.state ≠ .published ∧ (f = .ok ∨ r.state ≠ .pending)))
  | .expireFileTransfers transfers => inferInstanceAs (Decidable (f = .ok ∨ transfers = []))
  | .write id pos bytes =>
    inferInstanceAs (Decidable (∀ r ∈ s.table.get id, r.size < pos + bytes.length →
      r.state ≠ .published ∧ r.state ≠ .pending ∧ s.locks.lookup (.batch r.batchID) = none))
  | .lock _ | .unlock _ | .fileTransfer _ | .fileTransfersByBatch _ | .commitFileTransferOffset _ _ _
  | .completeFileTransferBatch _ | .expiredFileTransfers _ | .receiptFileTransfer _ _ _ _
  | .createFile _ | .openFile _ _ | .truncate _ _ | .sync _ | .stat _ _ | .readFile _
  | .rename _ _ _ | .link _ _ _ | .remove _ _ | .syncDir => inferInstanceAs (Decidable True)

instance (p : Pool State Call.Reply Answer) (a : Move Fate Operation) :
    Decidable (careful.Permits p a) :=
  careful.decidablePermits (fun _ _ => inferInstanceAs (Decidable True)) decidableAllows
    (fun s => inferInstanceAs (Decidable (∀ e ∈ s.expiring.entries, ∀ t ∈ e.2,
      ∀ r ∈ s.table.get t.id, r.state ≠ .published ∧ r.state ≠ .pending))) p a

/-- The calls of a thread, all of which succeed. -/
def calls (i n : ℕ) : List (Move Fate Operation) := List.replicate n (.call i .ok)

/-- A request for one transfer to the helper. -/
def sampleRequest (size : ℤ) : CreateRequest :=
  ⟨"batch", "pb_to_pbh", "session", "client", [⟨"file", size, digits '0'⟩]⟩

/-- A transfer is created and all its bytes are appended. -/
def uploaded : List (Move Fate Operation) :=
  .start 0 (.create defaultPolicy 0 ["t"] (sampleRequest 1)) :: calls 0 3 ++
    .start 1 (.append "t" 0 [⟨[7], false⟩]) :: calls 1 8

/-- The transfer is published. -/
def publishedRun : List (Move Fate Operation) := uploaded ++ .start 2 (.complete "t") :: calls 2 12

/-- The published transfer is cancelled. -/
def cancelPublished : List (Move Fate Operation) := publishedRun ++ .start 3 (.cancel "t") :: calls 3 9

/-- A crash comes after the files of the expired transfer were removed. -/
def crashInCleanup : List (Move Fate Operation) :=
  publishedRun ++ .start 3 (.cleanupExpired 604800000000000) :: calls 3 4 ++ [.crash]

/-- A byte too many comes with a read error, after the bytes were checked. -/
def surplusByte : List (Move Fate Operation) :=
  uploaded ++ .start 2 (.append "t" 1 [⟨[9], true⟩]) :: calls 2 4 ++
    .start 3 (.complete "t") :: calls 3 6 ++ calls 2 2 ++ calls 3 6

/-- A transfer is added to the batch before the batch is marked. -/
def addedTransfer : List (Move Fate Operation) :=
  uploaded ++ .start 2 (.complete "t") :: calls 2 9 ++
    .start 3 (.create defaultPolicy 0 ["u"] (sampleRequest 0)) :: calls 3 3 ++ calls 2 3

/-- What a run leaves of a transfer: whether anything is in progress, the state, the declared size, the
content file and the bytes. -/
def outcome (id : String) (l : List (Move Fate Operation)) :
    Option (Bool × Option (TransferState × ℕ) × Bool × Option (List UInt8)) :=
  (run (service sampleDigest).step (Pool.idle State.empty) l).map fun p =>
    (p.quiet, (p.shared.table.get id).map fun r => (r.state, r.size), p.shared.hasName .content id,
      p.shared.dataOf id)

/-- The promise is broken in four ways: by cancelling a published batch, by a crash while files expire,
and by a byte too many or a transfer added during the completion. -/
theorem published_content_lost :
    outcome "t" cancelPublished = some (true, some (.published, 1), false, some [7]) ∧
    outcome "t" crashInCleanup = some (true, some (.published, 1), false, some [7]) ∧
    outcome "t" surplusByte = some (true, some (.published, 1), true, some [7, 9]) ∧
    outcome "u" addedTransfer = some (true, some (.published, 0), false, some []) := by
  refine ⟨?_, ?_, ?_, ?_⟩ <;> decide +kernel

/-- Things that do no harm to a published transfer: a pass of `CleanupExpired` before it expires, a crash,
and a link. -/
def harmless : List (Move Fate Operation) :=
  .start 3 (.cleanupExpired 5) :: calls 3 1 ++ [.crash] ++
    .start 3 (.publishedPath "t") :: calls 3 5

/-- A published transfer is intact after a pass of `CleanupExpired`, a crash and a link. -/
theorem published_content_intact_after_crash :
    ∃ p p', run (service sampleDigest).step (Pool.idle State.empty) publishedRun = some p ∧
      run (service sampleDigest).step p harmless = some p' ∧
      ∃ r file, p'.shared.table.get "t" = some r ∧ r.offered = true ∧
        p'.shared.files.lookup "t" = some file ∧ file.has .content = true ∧
        file.data.length = r.size ∧ sampleDigest file.data = r.sha256 := by
  have hcareful : Meets (service sampleDigest).step careful.Permits (Pool.idle State.empty)
      publishedRun := by
    decide +kernel
  have heval : (run (service sampleDigest).step (Pool.idle State.empty) publishedRun).map (fun p =>
      (decide (Meets (service sampleDigest).step careful.Permits p harmless),
        (run (service sampleDigest).step p harmless).map fun p' =>
          (p'.quiet, (p'.shared.table.get "t").map FileTransfer.offered))) =
      some (true, some (true, some true)) := by
    decide +kernel
  obtain ⟨p, hrun, hp⟩ := map_eq_some_iff.mp heval
  obtain ⟨hcareful', hp'⟩ := Prod.mk.inj hp
  obtain ⟨p', hrun', hview⟩ := map_eq_some_iff.mp hp'
  obtain ⟨hquiet, hrow⟩ := Prod.mk.inj hview
  obtain ⟨r, hr, hoffered⟩ := map_eq_some_iff.mp hrow
  obtain ⟨hintact, -⟩ := published_content_intact sampleDigest hcareful hrun
    (of_decide_eq_true hcareful') hrun' hquiet
  obtain ⟨file, hfile⟩ := hintact "t" r hr hoffered
  exact ⟨p, p', hrun, hrun', r, file, hr, hoffered, hfile⟩

end Paperboat.Transfer

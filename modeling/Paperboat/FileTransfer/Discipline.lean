import Paperboat.FileTransfer.Service

/-!
# What the operations on transfers respect

What is promised for a transfer that is published or pending: its content file is there, with as many
bytes as declared and with the declared digest. `Inv` is this promise at all times, and `Rely` is what a
thread can expect from the others.

The code does not keep the promise. Cancelling a published batch is refused by the table, and the files
are removed all the same; the files of expired transfers are removed before the rows are marked; an
`Append` that was started before `Complete` renames the file can leave a byte behind at its end; and rows
that `Create` adds to a batch while it is completed are published without being checked. `careful`
excludes these four.
-/

namespace Paperboat.Transfer

open Option FinMap List Table TransferState State

/-! ### Rows -/

/-- The stages of a transfer: open, offered, settled. -/
def TransferState.rank : TransferState → ℕ
  | .created | .uploading => 0
  | .published | .pending => 1
  | .delivered | .failed | .canceled => 2

variable {st : TransferState}

lemma TransferState.rank_of_isOpen (h : st.isOpen = true) : st.rank = 0 := by
  cases st <;> first | rfl | cases h

lemma TransferState.rank_of_not_isLive (h : st.isLive = false) : st.rank = 2 := by
  cases st <;> first | rfl | cases h

lemma TransferState.rank_le (st : TransferState) : st.rank ≤ 2 := by cases st <;> decide

/-- The offered transfers are the published and the pending ones. -/
lemma TransferState.rank_eq_one : st.rank = 1 ↔ st = .published ∨ st = .pending := by
  cases st <;> decide

/-- How a row can change: what was declared stays, and the rest goes on. -/
structure Becomes (r r' : FileTransfer) : Prop where
  batchID : r'.batchID = r.batchID
  size : r'.size = r.size
  sha256 : r'.sha256 = r.sha256
  expiresAt : r'.expiresAt = r.expiresAt
  offset : r.committedOffset ≤ r'.committedOffset
  rank : r.state.rank ≤ r'.state.rank

lemma Becomes.refl (r : FileTransfer) : Becomes r r := ⟨rfl, rfl, rfl, rfl, le_rfl, le_rfl⟩

/-- Changes of a row compose. -/
lemma Becomes.trans {r₁ r₂ r₃ : FileTransfer} (h : Becomes r₁ r₂) (h' : Becomes r₂ r₃) :
    Becomes r₁ r₃ where
  batchID := h'.batchID.trans h.batchID
  size := h'.size.trans h.size
  sha256 := h'.sha256.trans h.sha256
  expiresAt := h'.expiresAt.trans h.expiresAt
  offset := h.offset.trans h'.offset
  rank := h.rank.trans h'.rank

/-- A settled transfer stays settled. -/
lemma Becomes.settled {r r' : FileTransfer} (h : Becomes r r') (htwo : r.state.rank = 2) :
    r'.state.rank = 2 := by
  have hle := h.rank
  have hmax := r'.state.rank_le
  omega

/-! ### Rows of a table -/

section
variable {t : Table} {p : FileTransfer → Bool} {id clientID resultCode receiptPath : String} {r : FileTransfer}

lemma nodup_all (t : Table) : t.all.Nodup := by
  refine List.Nodup.map_on (fun e he e' he' heq => ?_) t.rows.nodupKeys.nodup
  obtain ⟨id, r⟩ := e
  obtain ⟨id', r'⟩ := e'
  obtain rfl : r = r' := heq
  have hid := t.id_of_get ((lookup_eq_some_iff_mem _ _ _).mpr he)
  have hid' := t.id_of_get ((lookup_eq_some_iff_mem _ _ _).mpr he')
  rw [← hid, ← hid']

/-- A condition on one transfer holds of one row exactly when its row meets it. -/
lemma count_eq_one_iff (hp : ∀ r, p r = true → r.id = id) :
    t.count p = 1 ↔ ∃ r, t.get id = some r ∧ p r = true := by
  constructor
  · intro h
    have hpos : 0 < t.all.countP p := by
      rw [show t.all.countP p = 1 from h]
      exact Nat.one_pos
    obtain ⟨r, hmem, hr⟩ := countP_pos_iff.mp hpos
    exact ⟨r, hp r hr ▸ t.mem_all.mp hmem, hr⟩
  · rintro ⟨r, hget, hr⟩
    have hiff : ∀ x ∈ t.all, p x = true ↔ (x == r) = true := by
      intro x hx
      rw [beq_iff_eq]
      constructor
      · intro hpx
        have hgetx := t.mem_all.mp hx
        rw [hp x hpx, hget] at hgetx
        exact (some.inj hgetx).symm
      · rintro rfl
        exact hr
    rw [Table.count, countP_congr hiff]
    exact count_eq_one_of_mem (nodup_all t) (t.mem_all_of_get hget)

lemma rank_receivedState (resultCode : String) : (Table.receivedState resultCode).rank = 2 := by
  unfold Table.receivedState
  split_ifs <;> rfl

/-- A row that a receipt updates is pending, or records the receipt already. -/
lemma receivable_cases (h : receivable id clientID resultCode receiptPath r = true) :
    r.id = id ∧ r.clientID = clientID ∧ r.direction = .pbhToPb ∧
      (r.state = .pending ∨ (r.state = .delivered ∨ r.state = .failed) ∧ r.resultCode = resultCode ∧
        r.receiptPath = receiptPath) := by
  simpa [receivable, and_assoc] using h

end

/-! ### Files -/

namespace State

variable (s : State)

/-- The bytes of the file of a transfer. -/
def dataOf (id : String) : Option (List UInt8) := (s.files.lookup id).map (·.data)

/-- A pass of `CleanupExpired` has the transfer on its list. -/
def Expiring (id : String) : Prop :=
  ∃ i transfers, s.expiring.lookup i = some transfers ∧ ∃ t ∈ transfers, t.id = id

/-- Only the file of the transfer changes. -/
lemma lookup_modifyFile (id id' : String) (f : File → File) : (s.modifyFile id f).files.lookup id' =
      if id' = id then (s.files.lookup id).map f else s.files.lookup id' := by
  unfold modifyFile
  split
  · next h =>
    split
    · next hid => rw [hid, h]; rfl
    · rfl
  · next file h => rw [lookup_insert_eq, h]; rfl

/-- What does not depend on the change stays. -/
lemma modifyFile_congr {α : Type} {f : File → File} (g : Option File → α) (id id' : String)
    (hg : ∀ file, g (some (f file)) = g (some file)) :
    g ((s.modifyFile id f).files.lookup id') = g (s.files.lookup id') := by
  rw [lookup_modifyFile]
  split
  · next hid =>
    rw [hid]
    cases s.files.lookup id with
    | none => rfl
    | some file => exact hg file
  · rfl

/-- Only the bytes of the transfer change. -/
lemma dataOf_setData (id id' : String) (f : List UInt8 → List UInt8) :
    (s.setData id f).dataOf id' = if id' = id then (s.dataOf id).map f else s.dataOf id' := by
  unfold dataOf setData
  rw [lookup_modifyFile]
  split
  · cases s.files.lookup id <;> rfl
  · rfl

@[simp] lemma hasName_setData (kind : Kind) (id id' : String) (f : List UInt8 → List UInt8) :
    (s.setData id f).hasName kind id' = s.hasName kind id' :=
  s.modifyFile_congr (Option.any fun f => f.has kind) id id' fun _ => rfl

@[simp] lemma dataOf_setName (kind : Kind) (id id' : String) (b : Bool) :
    (s.setName kind id b).dataOf id' = s.dataOf id' :=
  s.modifyFile_congr (Option.map File.data) id id' fun _ => rfl

variable {kind : Kind} {id : String} {b : Bool}

/-- The other names stay. -/
lemma hasName_setName_of_ne {kind' : Kind} {id' : String} (h : kind' ≠ kind ∨ id' ≠ id) :
    (s.setName kind id b).hasName kind' id' = s.hasName kind' id' := by
  unfold hasName setName
  rw [lookup_modifyFile]
  split
  · next hid =>
    subst hid
    have hkind : kind' ≠ kind := h.resolve_right fun hne => hne rfl
    cases s.files.lookup id' with
    | none => rfl
    | some => simp [hkind]
  · rfl

lemma isSome_of_hasName (h : s.hasName kind id = true) : (s.files.lookup id).isSome = true := by
  unfold hasName at h
  cases hfile : s.files.lookup id with
  | none => simp [hfile] at h
  | some => rfl

lemma isSome_setName (h : (s.files.lookup id).isSome = true) :
    ((s.setName kind id b).files.lookup id).isSome = true := by
  unfold setName
  rw [lookup_modifyFile, if_pos rfl, isSome_map]
  exact h

lemma hasName_setName_self (h : (s.files.lookup id).isSome = true) :
    (s.setName kind id true).hasName kind id = true := by
  unfold hasName setName
  rw [lookup_modifyFile, if_pos rfl]
  cases hfile : s.files.lookup id with
  | none => simp [hfile] at h
  | some => simp

end State

lemma truncated_length (data : List UInt8) : truncated data data.length = data := by
  simp [truncated]

/-! ### The promise -/

variable (sha256 : List UInt8 → String)

/-- The file of the transfer has the declared bytes. -/
def Verified (s : State) (id : String) (r : FileTransfer) : Prop :=
  ∃ data, s.dataOf id = some data ∧ data.length = r.size ∧ sha256 data = r.sha256

/-- What is kept at all times. While a pass of `CleanupExpired` is in progress, the files of the
transfers on its list may be missing. -/
structure Inv (s : State) : Prop where
  complete : ∀ id r, s.table.get id = some r → r.state.rank = 1 → r.committedOffset = r.size
  verified : ∀ id r, s.table.get id = some r → r.state.rank = 1 → Verified sha256 s id r
  kept : ∀ id r, s.table.get id = some r → r.state.rank = 1 →
    s.hasName .content id = true ∨ s.Expiring id
  listed : ∀ i transfers, s.expiring.lookup i = some transfers → ∀ t ∈ transfers,
    ∃ r, s.table.get t.id = some r ∧ r.expiresAt = t.expiresAt

/-- What a thread can rely on between two of its calls. -/
structure Rely (i : ℕ) (s s' : State) : Prop where
  locks : ∀ key, s'.locks.lookup key = some i ↔ s.locks.lookup key = some i
  expiring : s'.expiring.lookup i = s.expiring.lookup i
  row : ∀ id r, s.table.get id = some r → ∃ r', s'.table.get id = some r' ∧ Becomes r r' ∧
    (s.locks.lookup (.transfer id) = some i → r'.committedOffset = r.committedOffset)
  batch : ∀ id r', s'.table.get id = some r' → s.locks.lookup (.batch r'.batchID) = some i →
    ∃ r, s.table.get id = some r ∧ (r'.state.rank = 1 → r.state.rank = 1)
  verified : ∀ id r, s.table.get id = some r → s.locks.lookup (.batch r.batchID) = some i →
    r.committedOffset = r.size → Verified sha256 s id r → Verified sha256 s' id r
  ready : ∀ id r r', s.table.get id = some r → s'.table.get id = some r' →
    s.locks.lookup (.batch r.batchID) = some i →
    r.state.rank = 2 ∨ s.Expiring id ∨ s.hasName .content id = true →
    r'.state.rank = 2 ∨ s'.Expiring id ∨ s'.hasName .content id = true

lemma Rely.refl (i : ℕ) (s : State) : Rely sha256 i s s where
  locks _ := Iff.rfl
  expiring := rfl
  row id r hr := ⟨r, hr, .refl r, fun _ => rfl⟩
  batch id r hr _ := ⟨r, hr, fun h => h⟩
  verified _ _ _ _ _ h := h
  ready id r r' hr hr' _ h := by
    cases hr.symm.trans hr'
    exact h

variable {sha256} {s : State} {id : String} {r r' : FileTransfer}

lemma Verified.becomes (h : Verified sha256 s id r) (hr : Becomes r r') : Verified sha256 s id r' := by
  obtain ⟨data, hdata, hlength, hdigest⟩ := h
  exact ⟨data, hdata, hlength.trans hr.size.symm, hdigest.trans hr.sha256.symm⟩

lemma Verified.of_becomes (h : Verified sha256 s id r') (hr : Becomes r r') : Verified sha256 s id r := by
  obtain ⟨data, hdata, hlength, hdigest⟩ := h
  exact ⟨data, hdata, hlength.trans hr.size, hdigest.trans hr.sha256⟩

lemma Verified.of_dataOf_eq {s' : State} (h : Verified sha256 s id r)
    (hdata : s'.dataOf id = s.dataOf id) : Verified sha256 s' id r := by
  obtain ⟨data, hs, hrest⟩ := h
  exact ⟨data, hdata.trans hs, hrest⟩

lemma offset_eq_of_becomes (hr' : s.table.get id = some r') (hr : Becomes r r')
    (h : r.committedOffset = r.size) :
    r'.committedOffset = r'.size := by
  have hle := s.table.offset_le_of_get hr'
  have hge := hr.offset
  have hsize := hr.size
  omega

variable {s₁ s₂ s₃ : State}

/-- What a thread relies on holds over several steps of the others. -/
lemma Rely.trans {i : ℕ} (h : Rely sha256 i s₁ s₂) (h' : Rely sha256 i s₂ s₃) : Rely sha256 i s₁ s₃ where
  locks key := (h'.locks key).trans (h.locks key)
  expiring := h'.expiring.trans h.expiring
  row id r hr := by
    obtain ⟨r₂, hr₂, hbecomes, hoffset⟩ := h.row id r hr
    obtain ⟨r₃, hr₃, hbecomes', hoffset'⟩ := h'.row id r₂ hr₂
    exact ⟨r₃, hr₃, hbecomes.trans hbecomes', fun hlock =>
      (hoffset' ((h.locks _).mpr hlock)).trans (hoffset hlock)⟩
  batch id r₃ hr₃ hlock := by
    obtain ⟨r₂, hr₂, hrank'⟩ := h'.batch id r₃ hr₃ ((h.locks _).mpr hlock)
    obtain ⟨_, hr₃', hbecomes, -⟩ := h'.row id r₂ hr₂
    cases hr₃'.symm.trans hr₃
    rw [hbecomes.batchID] at hlock
    obtain ⟨r₁, hr₁, hrank⟩ := h.batch id r₂ hr₂ hlock
    exact ⟨r₁, hr₁, fun hone => hrank (hrank' hone)⟩
  verified id r hr hlock hcomplete hverified := by
    obtain ⟨r₂, hr₂, hbecomes, -⟩ := h.row id r hr
    have hlock₂ := (h.locks _).mpr hlock
    rw [← hbecomes.batchID] at hlock₂
    have hverified₂ := (h.verified id r hr hlock hcomplete hverified).becomes hbecomes
    exact (h'.verified id r₂ hr₂ hlock₂ (offset_eq_of_becomes hr₂ hbecomes hcomplete)
      hverified₂).of_becomes hbecomes
  ready id r r₃ hr hr₃ hlock hready := by
    obtain ⟨r₂, hr₂, hbecomes, -⟩ := h.row id r hr
    have hlock₂ := (h.locks _).mpr hlock
    rw [← hbecomes.batchID] at hlock₂
    exact h'.ready id r₂ r₃ hr₂ hr₃ hlock₂ (h.ready id r r₂ hr hr₂ hlock hready)

/-- What no step does: change the bytes of an offered transfer. -/
def Guarantee (s s' : State) : Prop :=
  ∀ id r, s.table.get id = some r → ∃ r', s'.table.get id = some r' ∧ Becomes r r' ∧
    (r.state.rank = 1 → r'.state.rank = 1 → s'.dataOf id = s.dataOf id)

/-- The bytes of an offered transfer stay over several steps. -/
lemma Guarantee.trans (h : Guarantee s₁ s₂) (h' : Guarantee s₂ s₃) : Guarantee s₁ s₃ := by
  intro id r hr
  obtain ⟨r₂, hr₂, hbecomes, hdata⟩ := h id r hr
  obtain ⟨r₃, hr₃, hbecomes', hdata'⟩ := h' id r₂ hr₂
  refine ⟨r₃, hr₃, hbecomes.trans hbecomes', fun hone hone₃ => ?_⟩
  -- a row that is offered at both ends is offered in between
  have hone₂ : r₂.state.rank = 1 := by
    have hle := hbecomes.rank
    have hle' := hbecomes'.rank
    omega
  exact (hdata' hone₂ hone₃).trans (hdata hone hone₂)

/-- The thread holds no lock and has no list of expired transfers. -/
def Idle (i : ℕ) (s : State) : Prop :=
  (∀ key, s.locks.lookup key ≠ some i) ∧ s.expiring.lookup i = none

variable (sha256)

/-- The discipline of the service. -/
def discipline : RelyGuarantee State Answer where
  Inv := Inv sha256
  rely := Rely sha256
  guarantee := Guarantee
  Idle := Idle
  Done i _ := Idle i
  rely_refl := Rely.refl sha256
  rely_trans _ _ _ _ := Rely.trans
  guarantee_refl _ _ r hr := ⟨r, hr, .refl r, fun _ _ => rfl⟩
  guarantee_trans := Guarantee.trans
  idle_stable _ _ _ h hidle := ⟨fun key hkey => hidle.1 key ((h.locks key).mp hkey),
    h.expiring.trans hidle.2⟩
  done_stable _ _ _ _ h hidle := ⟨fun key hkey => hidle.1 key ((h.locks key).mp hkey),
    h.expiring.trans hidle.2⟩

/-! ### The condition -/

/-- When the four failures do not occur.

`Create` adds rows to a batch only while no one has the lock of the batch. A batch is cancelled only
if none of its transfers is published, and if the statement fails, none is pending. The rows of expired
transfers are marked without a failure, and no crash comes before that if one of them is offered. A
byte after the declared end of a file arrives only before the batch is completed. -/
def careful : Conduct State Call Fate Operation where
  mayStart _ _ := True
  allows _ s c f :=
    match c with
    | .createFileTransfersWithinLimits transfers _ _ =>
      ∀ t ∈ transfers, s.locks.lookup (.batch t.batchID) = none
    | .cancelFileTransferBatch batchID =>
      ∀ r ∈ s.table.ofBatch batchID, r.state ≠ .published ∧ (f = .ok ∨ r.state ≠ .pending)
    | .expireFileTransfers transfers => f = .ok ∨ transfers = []
    | .write id pos bytes =>
      ∀ r ∈ s.table.get id, r.size < pos + bytes.length →
        r.state ≠ .published ∧ r.state ≠ .pending ∧ s.locks.lookup (.batch r.batchID) = none
    | _ => True
  mayCrash s := ∀ e ∈ s.expiring.entries, ∀ t ∈ e.2, ∀ r ∈ s.table.get t.id,
    r.state ≠ .published ∧ r.state ≠ .pending

/-- A step of a thread within the discipline. -/
abbrev Legal (i : ℕ) (s s' : State) : Prop := (discipline sha256).Legal i s s'

/-- The program keeps to the discipline from the state on. -/
abbrev Guarded {β : Type} (i : ℕ) (Q : β → State → Prop) (p : Service β) (s : State) : Prop :=
  (discipline sha256).Guarded careful perform i Q p s

/-! ### Legal steps -/

variable {sha256} {i : ℕ} {s s' : State} (hinv : Inv sha256 s)

include hinv

lemma legal_refl : Legal sha256 i s s :=
  ⟨hinv, (discipline sha256).guarantee_refl s, fun j _ => Rely.refl sha256 j s⟩

/-- A thread may take and give back locks that no other has. -/
lemma legal_of_locks {locks : FinMap Lock ℕ}
    (hlocks : ∀ j, j ≠ i → ∀ key, locks.lookup key = some j ↔ s.locks.lookup key = some j) :
    Legal sha256 i s { s with locks := locks } where
  inv := { hinv with }
  guarantee _ r hr := ⟨r, hr, .refl r, fun _ _ => rfl⟩
  rely j hj := { Rely.refl sha256 j s with locks := hlocks j hj }

/-- Only files change. Bytes that were checked stay, unless the transfer is not offered and is not
complete or not locked by someone else; a content file stays, unless the transfer is settled, is about
to expire, or is open and its batch is locked by the thread. -/
lemma legal_of_files (htable : s'.table = s.table)
    (hlocks : s'.locks = s.locks) (hexpiring : s'.expiring = s.expiring)
    (hdata : ∀ id r, s.table.get id = some r → Verified sha256 s id r →
      s'.dataOf id = s.dataOf id ∨ r.state.rank ≠ 1 ∧
        (r.committedOffset < r.size ∨ ∀ j, j ≠ i → s.locks.lookup (.batch r.batchID) ≠ some j))
    (hname : ∀ id r, s.table.get id = some r → s.hasName .content id = true →
      s'.hasName .content id = true ∨ r.state.rank = 2 ∨ s.Expiring id ∨
        r.state.rank = 0 ∧ s.locks.lookup (.batch r.batchID) = some i) :
    Legal sha256 i s s' := by
  obtain ⟨table, files, locks, expiring⟩ := s'
  subst htable hlocks hexpiring
  refine ⟨{ hinv with verified := fun id r hr hone => ?_, kept := fun id r hr hone => ?_ },
    fun id r hr => ⟨r, hr, .refl r, fun hone _ => ?_⟩, fun j hj => { Rely.refl sha256 j s with
      verified := fun id r hr hlock hcomplete hverified => ?_
      ready := fun id r r' hr hr' hlock hready => ?_ }⟩
  · have hverified := hinv.verified id r hr hone
    rcases hdata id r hr hverified with hsame | ⟨hrank, -⟩
    · exact hverified.of_dataOf_eq hsame
    · exact absurd hone hrank
  · rcases hinv.kept id r hr hone with hcontent | hexpiring
    · rcases hname id r hr hcontent with hkept | htwo | hexpiring | ⟨hzero, -⟩
      · exact .inl hkept
      · omega
      · exact .inr hexpiring
      · omega
    · exact .inr hexpiring
  · rcases hdata id r hr (hinv.verified id r hr hone) with hsame | ⟨hrank, -⟩
    · exact hsame
    · exact absurd hone hrank
  · rcases hdata id r hr hverified with hsame | ⟨-, hlt | hfree⟩
    · exact hverified.of_dataOf_eq hsame
    · omega
    · exact absurd hlock (hfree j hj)
  · cases hr.symm.trans hr'
    rcases hready with htwo | hexpiring | hcontent
    · exact .inl htwo
    · exact .inr (.inl hexpiring)
    · rcases hname id r hr hcontent with hkept | htwo | hexpiring | ⟨-, hmine⟩
      · exact .inr (.inr hkept)
      · exact .inl htwo
      · exact .inr (.inl hexpiring)
      · exact absurd (some.inj (hlock.symm.trans hmine)) hj

variable {table : Table}

/-- The thread may offer the transfer: it has the lock of the batch, and the file is complete, was checked,
and has its content file or is about to expire. -/
def Offerable (sha256 : List UInt8 → String) (i : ℕ) (s : State) (id : String) (r : FileTransfer) : Prop :=
  s.locks.lookup (.batch r.batchID) = some i ∧ r.committedOffset = r.size ∧ Verified sha256 s id r ∧
    (s.hasName .content id = true ∨ s.Expiring id)

/-- Only rows change. An offset changes only under the lock of the transfer, and a transfer is offered
only under the lock of its batch, complete, checked, and with its content file or about to expire. -/
lemma legal_of_rows
    (hrow : ∀ id r, s.table.get id = some r → ∃ r', table.get id = some r' ∧ Becomes r r' ∧
      (r'.committedOffset = r.committedOffset ∨ s.locks.lookup (.transfer id) = some i) ∧
      (r.state.rank = 0 → r'.state.rank = 1 → Offerable sha256 i s id r))
    (hnew : ∀ id r', table.get id = some r' → s.table.get id = none →
      r'.state.rank = 0 ∧ s.locks.lookup (.batch r'.batchID) = none) :
    Legal sha256 i s { s with table := table } := by
  have hrow' : ∀ id r r', s.table.get id = some r → table.get id = some r' → Becomes r r' ∧
      (r'.committedOffset = r.committedOffset ∨ s.locks.lookup (.transfer id) = some i) ∧
      (r.state.rank = 0 → r'.state.rank = 1 → Offerable sha256 i s id r) := by
    intro id r r' hr hr'
    obtain ⟨_, hr'', h⟩ := hrow id r hr
    cases hr''.symm.trans hr'
    exact h
  -- every offered row was offered before, or is offered now by this thread
  have hback : ∀ id r', table.get id = some r' → r'.state.rank = 1 →
      ∃ r, s.table.get id = some r ∧ Becomes r r' ∧
        (r.state.rank = 1 ∨ s.locks.lookup (.batch r.batchID) = some i) ∧ r.committedOffset = r.size ∧
        Verified sha256 s id r ∧ (s.hasName .content id = true ∨ s.Expiring id) := by
    intro id r' hr' hone
    rcases hr : s.table.get id with _ | r
    · have hzero := (hnew id r' hr' hr).1
      omega
    obtain ⟨hbecomes, -, hoffer⟩ := hrow' id r r' hr hr'
    refine ⟨r, rfl, hbecomes, ?_⟩
    by_cases hrank : r.state.rank = 1
    · exact ⟨.inl hrank, hinv.complete id r hr hrank, hinv.verified id r hr hrank, hinv.kept id r hr hrank⟩
    · have hle := hbecomes.rank
      exact (hoffer (by omega) hone).imp_left .inr
  refine ⟨⟨?_, ?_, ?_, ?_⟩, ?_, fun j hj => ⟨fun _ => Iff.rfl, rfl, ?_, ?_, ?_, ?_⟩⟩
  · intro id r' hr' hone
    obtain ⟨r, -, hbecomes, -, hcomplete, -⟩ := hback id r' hr' hone
    exact offset_eq_of_becomes (s := { s with table := table }) hr' hbecomes hcomplete
  · intro id r' hr' hone
    obtain ⟨r, -, hbecomes, -, -, hverified, -⟩ := hback id r' hr' hone
    exact hverified.becomes hbecomes
  · intro id r' hr' hone
    obtain ⟨-, -, -, -, -, -, hkept⟩ := hback id r' hr' hone
    exact hkept
  · intro j transfers hlist t ht
    obtain ⟨r, hr, hexpires⟩ := hinv.listed j transfers hlist t ht
    obtain ⟨r', hr', hbecomes, -⟩ := hrow t.id r hr
    exact ⟨r', hr', hbecomes.expiresAt.trans hexpires⟩
  · intro id r hr
    obtain ⟨r', hr', hbecomes, -⟩ := hrow id r hr
    exact ⟨r', hr', hbecomes, fun _ _ => rfl⟩
  · intro id r hr
    obtain ⟨r', hr', hbecomes, hoffset | hmine, -⟩ := hrow id r hr
    · exact ⟨r', hr', hbecomes, fun _ => hoffset⟩
    · exact ⟨r', hr', hbecomes, fun hlock => absurd (some.inj (hlock.symm.trans hmine)) hj⟩
  · intro id r' hr' hlock
    rcases hr : s.table.get id with _ | r
    · rw [(hnew id r' hr' hr).2] at hlock
      cases hlock
    refine ⟨r, rfl, fun hone => ?_⟩
    obtain ⟨_, hr₀, hbecomes, hrank | hmine, -⟩ := hback id r' hr' hone
    · exact some.inj (hr.symm.trans hr₀) ▸ hrank
    rw [hbecomes.batchID] at hlock
    exact absurd (some.inj (hlock.symm.trans hmine)) hj
  · exact fun _ _ _ _ _ h => h
  · exact fun id r r' hr hr' _ hready => hready.imp_left (hrow' id r r' hr hr').1.settled

/-! ### Statements -/

/-- When an update of rows keeps to the discipline. -/
lemma legal_of_update {p : FileTransfer → Bool}
    {f : FileTransfer → FileTransfer} {hf : ∀ r, p r = true → Replaces r (f r)}
    (h : ∀ id r, s.table.get id = some r → p r = true → Becomes r (f r) ∧
      ((f r).committedOffset = r.committedOffset ∨ s.locks.lookup (.transfer id) = some i) ∧
      (r.state.rank = 0 → (f r).state.rank = 1 → Offerable sha256 i s id r)) :
    Legal sha256 i s { s with table := s.table.update p f hf } := by
  refine legal_of_rows hinv (fun id r hr => ?_) fun id r' hr' hnone => ?_
  · rw [get_update, hr]
    by_cases hp : p r = true
    · simp only [map_some, if_pos hp]
      exact ⟨f r, rfl, h id r hr hp⟩
    · simp only [map_some, if_neg hp]
      exact ⟨r, rfl, .refl r, .inl rfl, fun hzero hone => by omega⟩
  · rw [get_update, hnone] at hr'
    cases hr'

/-- A thread commits an offset under the lock of the transfer. -/
lemma legal_commitOffset {expected next : ℕ} (hlock : s.locks.lookup (.transfer id) = some i)
    (h : s.table.commitFileTransferOffset id expected next = some table) :
    Legal sha256 i s { s with table := table } := by
  unfold commitFileTransferOffset at h
  split_ifs at h with hnext
  cases h
  refine legal_of_update hinv fun id' r hr hp => ?_
  simp only [uncommitted, Bool.and_eq_true, decide_eq_true_eq] at hp
  obtain ⟨⟨⟨hid, hoffset⟩, hopen⟩, -⟩ := hp
  have hzero := rank_of_isOpen hopen
  have hkey := s.table.id_of_get hr
  refine ⟨⟨rfl, rfl, rfl, rfl, ?_, ?_⟩, .inr ?_, ?_⟩
  · show r.committedOffset ≤ next
    omega
  · show r.state.rank ≤ 0
    omega
  · rw [← hkey, hid]
    exact hlock
  · intro _ hone
    cases hone

variable {batchID : String}

/-- The batch is completed, under its lock, when all its files were checked and have been renamed. -/
lemma legal_completeBatch (hlock : s.locks.lookup (.batch batchID) = some i)
    (hchecked : ∀ id r, s.table.get id = some r → r.batchID = batchID → Verified sha256 s id r ∧
      (r.state.rank = 2 ∨ s.Expiring id ∨ s.hasName .content id = true))
    (h : s.table.completeFileTransferBatch batchID = some table) :
    Legal sha256 i s { s with table := table } := by
  simp only [completeFileTransferBatch] at h
  split at h
  · split at h
    · cases h
      exact legal_refl hinv
    · cases h
  · cases h
    refine legal_of_update hinv fun id r hr hp => ?_
    simp only [ready, Bool.and_eq_true, decide_eq_true_eq] at hp
    obtain ⟨⟨hbatch, hcomplete⟩, hopen⟩ := hp
    have hzero := rank_of_isOpen hopen
    obtain ⟨hverified, hready⟩ := hchecked id r hr hbatch
    refine ⟨⟨rfl, rfl, rfl, rfl, le_rfl, ?_⟩, .inl rfl, fun _ _ => ⟨?_, hcomplete, hverified, ?_⟩⟩
    · show r.state.rank ≤ _
      omega
    · rw [hbatch]
      exact hlock
    · rcases hready with htwo | hexpiring | hcontent
      · omega
      · exact .inr hexpiring
      · exact .inl hcontent

/-- Every thread may cancel a batch. -/
lemma legal_cancelBatch (batchID : String) :
    Legal sha256 i s { s with table := (s.table.cancelFileTransferBatch batchID).1 } := by
  simp only [cancelFileTransferBatch]
  split
  · exact legal_refl hinv
  dsimp only
  refine legal_of_update hinv fun id r _ _ => ?_
  exact ⟨⟨rfl, rfl, rfl, rfl, le_rfl, r.state.rank_le⟩, .inl rfl, fun _ hone => by cases hone⟩

omit hinv in
/-- After a batch was cancelled with care, none of its transfers is offered. -/
lemma rank_cancelBatch {f : Fate}
    (hallowed : ∀ r ∈ s.table.ofBatch batchID, r.state ≠ .published ∧ (f = .ok ∨ r.state ≠ .pending))
    (hok : f = .ok → s'.table = (s.table.cancelFileTransferBatch batchID).1)
    (hfail : f ≠ .ok → s'.table = s.table) (hr : s'.table.get id = some r) (hbatch : r.batchID = batchID) :
    r.state.rank ≠ 1 := by
  intro hone
  -- the statement has not touched an offered row, and none is pending after it
  have hold : s.table.get id = some r ∧ (f = .ok → r.state ≠ .pending) := by
    by_cases hf : f = .ok
    · rw [hok hf] at hr
      simp only [cancelFileTransferBatch] at hr
      split at hr
      · next hcount =>
        have hmatch := countP_eq_zero.mp hcount r (s.table.mem_all_of_get hr)
        refine ⟨hr, fun _ hst => ?_⟩
        simp [cancelable, hbatch, hst, isActive] at hmatch
      · rw [get_update] at hr
        obtain ⟨r₀, hr₀, rfl⟩ := map_eq_some_iff.mp hr
        split at hone
        · cases hone
        rename_i hmatch
        rw [if_neg hmatch] at hbatch ⊢
        refine ⟨hr₀, fun _ hst => ?_⟩
        simp [cancelable, hbatch, hst, isActive] at hmatch
    · exact ⟨hfail hf ▸ hr, fun h => absurd h hf⟩
  obtain ⟨hr₀, hactive⟩ := hold
  obtain ⟨hpublished, hpending⟩ :=
    hallowed r (s.table.mem_ofBatch.mpr ⟨s.table.id_of_get hr₀ ▸ hr₀, hbatch⟩)
  rcases rank_eq_one.mp hone with h | h
  · exact hpublished h
  · exact hpending.elim (fun hf => hactive hf h) fun hne => hne h

/-- Every thread may record a receipt, which settles the transfer. -/
lemma legal_receipt {clientID resultCode receiptPath : String}
    (h : s.table.receiptFileTransfer id clientID resultCode receiptPath = some table) :
    Legal sha256 i s { s with table := table } ∧ ∃ r, table.get id = some r ∧ r.state.rank = 2 := by
  have hrank := rank_receivedState resultCode
  unfold receiptFileTransfer at h
  split_ifs at h with hcount
  cases h
  constructor
  · refine legal_of_update hinv fun id' r hr _ => ⟨⟨rfl, rfl, rfl, rfl, le_rfl, ?_⟩, .inl rfl, ?_⟩
    · show r.state.rank ≤ rank _
      rw [hrank]
      exact r.state.rank_le
    · intro _ hone
      rw [hrank] at hone
      cases hone
  · have hone : s.table.count (receivable id clientID resultCode receiptPath) = 1 := by
      by_contra hne
      exact hcount (.inr hne)
    obtain ⟨r, hr, hmatch⟩ := (count_eq_one_iff fun r h => (receivable_cases h).1).mp hone
    rw [get_update, hr, map_some, if_pos hmatch]
    exact ⟨_, rfl, hrank⟩

variable {t t' : Table} {transfers : List FileTransfer}

omit hinv in
/-- What the insertions of a transaction leave: the old rows, and new ones for open transfers. -/
lemma get_insertAll (h : t.insertAll transfers = .ok t') :
    (∀ id r, t.get id = some r → t'.get id = some r) ∧
    (∀ id r', t'.get id = some r' → t.get id = none → r'.state.rank = 0 ∧
      ∃ r ∈ transfers, r'.batchID = r.batchID) ∧
    ∀ r ∈ transfers, ∃ r', t'.get r.id = some r' ∧ r'.batchID = r.batchID := by
  induction transfers generalizing t with
  | nil =>
    cases h
    refine ⟨fun _ _ hr => hr, fun id r' hr' hnone => ?_, nofun⟩
    rw [hnone] at hr'
    cases hr'
  | cons r rs ih =>
    simp only [insertAll] at h
    split at h
    · cases h
    split at h
    · cases h
    rename_i t₁ hinsert
    obtain ⟨hold, hnew, hall⟩ := ih h
    unfold Table.insert at hinsert
    split at hinsert
    · next hfresh =>
      have hget : ∀ id, t₁.get id = if id = r.id
          then some { r with state := .created, resultCode := "", receiptPath := "" } else t.get id := by
        cases hinsert
        exact fun id => lookup_insert_eq _ _ _ _
      have hnone : t.get r.id = none := isNone_iff_eq_none.mp hfresh.2.1
      refine ⟨fun id r₀ hr₀ => ?_, fun id r' hr' hid => ?_, fun r₀ hr₀ => ?_⟩
      · apply hold id r₀
        rw [hget, if_neg (ne_of_lookup hnone hr₀), hr₀]
      · by_cases heq : id = r.id
        · have hr₁ := hold id _ ((hget id).trans (if_pos heq))
          cases hr₁.symm.trans hr'
          exact ⟨rfl, r, mem_cons_self, rfl⟩
        · obtain ⟨hrank, r₀, hr₀, hbatch⟩ := hnew id r' hr' ((hget id).trans ((if_neg heq).trans hid))
          exact ⟨hrank, r₀, mem_cons_of_mem _ hr₀, hbatch⟩
      · rcases mem_cons.mp hr₀ with rfl | hr₀
        · exact ⟨_, hold _ _ ((hget _).trans (if_pos rfl)), rfl⟩
        · exact hall r₀ hr₀
    · cases hinsert

variable {maxSpoolBytes maxActiveBatches : ℕ}

omit hinv in
lemma insertAll_of_create
    (h : t.createFileTransfersWithinLimits transfers maxSpoolBytes maxActiveBatches = .ok t') :
    t.insertAll transfers = .ok t' := by
  unfold createFileTransfersWithinLimits at h
  split at h
  · cases h
  split at h
  · cases h
  · split at h
    · cases h
    · exact h

/-! ### Expiry -/

omit hinv in
/-- A row after one transfer was expired: it is the same, or settled. -/
lemma get_expire (t : Table) (transfer : FileTransfer) (id : String) :
    (t.get id = none → (t.expire transfer).get id = none) ∧
    ∀ r, t.get id = some r → ∃ r', (t.expire transfer).get id = some r' ∧ Becomes r r' ∧
      r'.committedOffset = r.committedOffset ∧ (r' = r ∨ r'.state.rank = 2) ∧
      (transfer.id = id → r.expiresAt = transfer.expiresAt → r'.state.rank = 2) := by
  refine ⟨fun hnone => ?_, fun r hr => ?_⟩
  · rw [expire, get_update, hnone]
    rfl
  · rw [expire, get_update, hr, map_some]
    by_cases hp : (r.id = transfer.id && r.expiresAt ≤ transfer.expiresAt && r.state.isLive) = true
    · rw [if_pos hp]
      cases transfer.direction with
      | pbToPbh | pbhToPb => exact ⟨_, rfl, ⟨rfl, rfl, rfl, rfl, le_rfl, r.state.rank_le⟩, rfl, .inr rfl, fun _ _ => rfl⟩
    · rw [if_neg hp]
      refine ⟨r, rfl, .refl r, rfl, .inl rfl, fun hid hexpires => ?_⟩
      have hkey := t.id_of_get hr
      cases hlive : r.state.isLive with
      | false => exact rank_of_not_isLive hlive
      | true => simp [hkey, hid, hexpires, hlive] at hp

omit hinv in
/-- What expiring does to a row. -/
lemma get_expireFileTransfers (t : Table) (transfers : List FileTransfer) (id : String) :
    (t.get id = none → (t.expireFileTransfers transfers).get id = none) ∧
    ∀ r, t.get id = some r → ∃ r', (t.expireFileTransfers transfers).get id = some r' ∧ Becomes r r' ∧
      r'.committedOffset = r.committedOffset ∧ (r' = r ∨ r'.state.rank = 2) ∧
      ∀ transfer ∈ transfers, transfer.id = id → r.expiresAt = transfer.expiresAt →
        r'.state.rank = 2 := by
  induction transfers generalizing t with
  | nil => exact ⟨fun h => h, fun r hr => ⟨r, hr, .refl r, rfl, .inl rfl, nofun⟩⟩
  | cons transfer transfers ih =>
    obtain ⟨hnone, hsome⟩ := get_expire t transfer id
    obtain ⟨hnone', hsome'⟩ := ih (t.expire transfer)
    refine ⟨fun h => hnone' (hnone h), fun r hr => ?_⟩
    obtain ⟨r₁, hr₁, hbecomes, hoffset, hsame, hfirst⟩ := hsome r hr
    obtain ⟨r₂, hr₂, hbecomes', hoffset', hsame', hrest⟩ := hsome' r₁ hr₁
    refine ⟨r₂, hr₂, hbecomes.trans hbecomes', hoffset'.trans hoffset, ?_, fun t' ht' hid hexpires => ?_⟩
    · rcases hsame' with rfl | htwo
      · exact hsame
      · exact .inr htwo
    · rcases mem_cons.mp ht' with rfl | ht'
      · exact hbecomes'.settled (hfirst hid hexpires)
      · exact hrest t' ht' hid (hbecomes.expiresAt.trans hexpires)

/-- Only the list of the thread changes, and a transfer that leaves all lists is settled. -/
lemma legal_of_expiring {expiring : FinMap ℕ (List FileTransfer)}
    (hlookup : ∀ j, j ≠ i → expiring.lookup j = s.expiring.lookup j)
    (hlisted : ∀ transfers, expiring.lookup i = some transfers → ∀ t ∈ transfers,
      ∃ r, s.table.get t.id = some r ∧ r.expiresAt = t.expiresAt)
    (hgone : ∀ id r, s.table.get id = some r → s.Expiring id →
      r.state.rank = 2 ∨ Expiring { s with expiring } id) :
    Legal sha256 i s { s with expiring } := by
  refine ⟨{ hinv with kept := fun id r hr hone => ?_, listed := fun j transfers hj => ?_ },
    fun id r hr => ⟨r, hr, .refl r, fun _ _ => rfl⟩,
    fun j hj => { Rely.refl sha256 j s with
      expiring := hlookup j hj
      ready := fun id r r' hr hr' hlock hready => ?_ }⟩
  · rcases hinv.kept id r hr hone with hcontent | hexp
    · exact .inl hcontent
    · rcases hgone id r hr hexp with htwo | hexp'
      · omega
      · exact .inr hexp'
  · by_cases hji : j = i
    · subst hji
      exact hlisted transfers hj
    · exact hinv.listed j transfers ((hlookup j hji).symm.trans hj)
  · rcases (Rely.refl sha256 j s).ready id r r' hr hr' hlock hready with htwo | hexp | hcontent
    · exact .inl htwo
    · exact (hgone id r' hr' hexp).imp_right .inl
    · exact .inr (.inr hcontent)

/-- An idle thread may list the expired transfers. -/
lemma legal_list (hidle : Idle i s) (now : ℕ) : Legal sha256 i s
      { s with expiring := s.expiring.insert i (s.table.expiredFileTransfers now) } := by
  have hlookup : ∀ j, j ≠ i → (s.expiring.insert i (s.table.expiredFileTransfers now)).lookup j =
      s.expiring.lookup j := fun _ hj => AList.lookup_insert_ne hj
  refine legal_of_expiring hinv hlookup (fun transfers hi t ht => ?_) fun id r _ hexp => ?_
  · cases (AList.lookup_insert _).symm.trans hi
    have hmem := mem_of_mem_take ht
    rw [mem_insertionSort, mem_filter] at hmem
    exact ⟨t, s.table.mem_all.mp hmem.1, rfl⟩
  · obtain ⟨j, transfers, hj, hmem⟩ := hexp
    refine .inr ⟨j, transfers, ?_, hmem⟩
    exact (hlookup j (ne_of_lookup hidle.2 hj)).trans hj

/-- The rows on the list of the thread are expired, and then the list goes. -/
lemma legal_expire (hlist : s.expiring.lookup i = some transfers) : Legal sha256 i s { s with
      table := s.table.expireFileTransfers transfers
      expiring := s.expiring.erase i } := by
  have hrows : Legal sha256 i s { s with table := s.table.expireFileTransfers transfers } := by
    refine legal_of_rows hinv (fun id r hr => ?_) fun id r' hr' hnone => ?_
    · obtain ⟨r', hr', hbecomes, hoffset, hsame, -⟩ :=
        (get_expireFileTransfers s.table transfers id).2 r hr
      refine ⟨r', hr', hbecomes, .inl hoffset, fun hzero hone => ?_⟩
      rcases hsame with rfl | htwo <;> omega
    · rw [(get_expireFileTransfers s.table transfers id).1 hnone] at hr'
      cases hr'
  have hlookup : ∀ j, j ≠ i → (s.expiring.erase i).lookup j = s.expiring.lookup j :=
    fun _ hj => AList.lookup_erase_ne hj
  refine hrows.trans (legal_of_expiring hrows.inv hlookup (fun transfers hi => ?_) ?_)
  · cases (AList.lookup_erase _ _).symm.trans hi
  · rintro id r' hr' ⟨j, transfers', hj, t, ht, rfl⟩
    by_cases heq : j = i
    · cases (heq ▸ hj).symm.trans hlist
      obtain ⟨r, hr, hexpires⟩ := hinv.listed i _ hlist t ht
      obtain ⟨_, hr'', -, -, -, hsettled⟩ := (get_expireFileTransfers s.table transfers t.id).2 r hr
      cases hr''.symm.trans hr'
      exact .inl (hsettled t ht rfl hexpires)
    · exact .inr ⟨j, transfers', (hlookup j heq).trans hj, t, ht, rfl⟩

/-! ### Files -/

/-- When the bytes of a file may change. -/
lemma legal_setData {f : List UInt8 → List UInt8}
    (h : ∀ r data, s.table.get id = some r → s.dataOf id = some data → data.length = r.size →
      f data = data ∨ r.state.rank ≠ 1 ∧
        (r.committedOffset < r.size ∨ ∀ j, j ≠ i → s.locks.lookup (.batch r.batchID) ≠ some j)) :
    Legal sha256 i s (s.setData id f) := by
  refine legal_of_files hinv (s.modifyFile_table _ _) (s.modifyFile_locks _ _)
    (s.modifyFile_expiring _ _) (fun id' r hr hverified => ?_) fun id' r _ hcontent => ?_
  · rw [dataOf_setData]
    split
    · next heq =>
      subst heq
      obtain ⟨data, hdata, hlength, -⟩ := hverified
      rcases h r data hr hdata hlength with hsame | hfree
      · rw [hdata, map_some, hsame]
        exact .inl rfl
      · exact .inr hfree
    · exact .inl rfl
  · rw [hasName_setData]
    exact .inl hcontent

variable {kind : Kind}

/-- The transfer does not lose its content file by a removal. -/
def Removable (i : ℕ) (s : State) (id : String) : Prop :=
  ∀ r, s.table.get id = some r → r.state.rank = 2 ∨ s.Expiring id ∨
    r.state.rank = 0 ∧ s.locks.lookup (.batch r.batchID) = some i

/-- Only the removal of a content file needs a reason. -/
lemma legal_setName {b : Bool} (h : kind = .content → b = false → Removable i s id) :
    Legal sha256 i s (s.setName kind id b) := by
  refine legal_of_files hinv (s.modifyFile_table _ _) (s.modifyFile_locks _ _)
    (s.modifyFile_expiring _ _) (fun id' r _ _ => .inl (s.dataOf_setName kind id id' b))
    fun id' r hr hcontent => ?_
  by_cases hsame : Kind.content = kind ∧ id' = id
  · obtain ⟨rfl, rfl⟩ := hsame
    cases b with
    | false => exact .inr (h rfl rfl r hr)
    | true => exact .inl (s.hasName_setName_self (s.isSome_of_hasName hcontent))
  · rw [s.hasName_setName_of_ne (not_and_or.mp hsame)]
    exact .inl hcontent

/-- A new file is no one else's. -/
lemma legal_createFile (hnone : s.files.lookup id = none) (file : File) :
    Legal sha256 i s { s with files := s.files.insert id file } := by
  refine legal_of_files hinv rfl rfl rfl (fun id' r _ hverified => ?_) fun id' r _ hcontent => ?_
  · obtain ⟨data, hdata, -⟩ := hverified
    obtain ⟨file', hfile, -⟩ := map_eq_some_iff.mp hdata
    left
    rw [dataOf, dataOf, hfile, lookup_insert_of_none hnone hfile]
  · obtain ⟨file', hfile⟩ := isSome_iff_exists.mp (s.isSome_of_hasName hcontent)
    left
    rw [hasName, lookup_insert_of_none hnone hfile, ← hfile]
    exact hcontent

lemma legal_remove (h : Removable i s id) : Legal sha256 i s (s.setName kind id false) :=
  legal_setName hinv fun _ _ => h

/-- Renaming away the content file needs the same reason. -/
lemma legal_rename {src dst : Kind} (hsrc : src = .content → Removable i s id) :
    Legal sha256 i s ((s.setName src id false).setName dst id true) := by
  have hremoved : Legal sha256 i s (s.setName src id false) := legal_setName hinv fun hkind _ => hsrc hkind
  exact hremoved.trans (legal_setName hremoved.inv nofun)

end Paperboat.Transfer

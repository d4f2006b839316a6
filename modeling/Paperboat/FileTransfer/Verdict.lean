import Paperboat.FileTransfer.Upload

/-!
# A failed Append and the verdict of Complete

Two states are alike but for the bytes of some files if no call can tell them apart, except one that
reads the bytes of such a file. `Complete` does not read the file of a transfer that is not wholly
committed, and `Append` cuts off what is beyond the committed offset before it does anything else.
-/

namespace Paperboat.Transfer

open Option State

/-! ### Alike states -/

/-- The same table and the same files, but for the bytes of the files that satisfy the condition, and
up to locks. -/
structure AlikeBut (P : String → Prop) (s₁ s₂ : State) : Prop where
  table : s₁.table = s₂.table
  names : ∀ id, (s₁.files.lookup id).map (·.has) = (s₂.files.lookup id).map (·.has)
  files : ∀ id, ¬P id → s₁.files.lookup id = s₂.files.lookup id

namespace AlikeBut

variable {P : String → Prop} {s₁ s₂ : State}

variable (h : AlikeBut P s₁ s₂)
include h

lemma hasName_eq (kind : Kind) (id : String) : s₁.hasName kind id = s₂.hasName kind id := by
  have hany : ∀ s : State,
      s.hasName kind id = ((s.files.lookup id).map (·.has)).any fun has => has kind := by
    intro s
    unfold hasName
    cases s.files.lookup id <;> rfl
  rw [hany, hany, h.names]

lemma isNone_eq (id : String) : (s₁.files.lookup id).isNone = (s₂.files.lookup id).isNone := by
  have hnames := congrArg Option.isNone (h.names id)
  rwa [isNone_map, isNone_map] at hnames

/-- A change of one file whose effect on the names does not depend on the bytes. -/
lemma modifyFile (id : String) {f : File → File} {g : (Kind → Bool) → Kind → Bool}
    (hf : ∀ file, (f file).has = g file.has) : AlikeBut P (s₁.modifyFile id f) (s₂.modifyFile id f) where
  table := by rw [modifyFile_table, modifyFile_table, h.table]
  names id' := by
    rw [lookup_modifyFile, lookup_modifyFile]
    split_ifs
    · have hcomp : (fun file : File => (f file).has) = g ∘ fun file => file.has := funext hf
      rw [map_map, map_map]
      change (s₁.files.lookup id).map (fun file => (f file).has) = (s₂.files.lookup id).map fun file => (f file).has
      rw [hcomp, ← map_map, ← map_map, h.names]
    · exact h.names id'
  files id' hid' := by
    rw [lookup_modifyFile, lookup_modifyFile]
    split_ifs with hid
    · rw [h.files id (hid ▸ hid')]
    · exact h.files id' hid'

lemma setData (id : String) (f : List UInt8 → List UInt8) :
    AlikeBut P (s₁.setData id f) (s₂.setData id f) :=
  h.modifyFile id (g := fun has => has) fun _ => rfl

lemma setName (kind : Kind) (id : String) (b : Bool) :
    AlikeBut P (s₁.setName kind id b) (s₂.setName kind id b) :=
  h.modifyFile id (g := fun has => Function.update has kind b) fun _ => rfl

lemma insert (id : String) (file : File) :
    AlikeBut P { s₁ with files := s₁.files.insert id file } { s₂ with files := s₂.files.insert id file } where
  table := h.table
  names id' := by
    simp only [FinMap.lookup_insert_eq]
    split_ifs
    · rfl
    · exact h.names id'
  files id' hid' := by
    simp only [FinMap.lookup_insert_eq]
    split_ifs
    · rfl
    · exact h.files id' hid'

lemma of_eq {s₁' s₂' : State} (htable : s₁'.table = s₂'.table)
    (hfiles₁ : s₁'.files = s₁.files) (hfiles₂ : s₂'.files = s₂.files) : AlikeBut P s₁' s₂' where
  table := htable
  names id := by rw [hfiles₁, hfiles₂, h.names]
  files id hid := by rw [hfiles₁, hfiles₂, h.files id hid]

/-- A call that does not read the bytes of such a file has the same reply in both states, and leaves
them alike. -/
lemma perform {c : Call} (hc : ∀ id, c = .readFile id → ¬P id) (f : Fate) :
    (performAlone s₁ c f).2 = (performAlone s₂ c f).2 ∧
      AlikeBut P (performAlone s₁ c f).1 (performAlone s₂ c f).1 := by
  unfold performAlone
  cases hatomic : c.atomic with
  | false =>
    cases c with
    | lock =>
      refine ⟨rfl, ?_⟩
      simp only [Transfer.perform]
      split_ifs <;> exact h.of_eq h.table rfl rfl
    | unlock => exact ⟨rfl, h.of_eq h.table rfl rfl⟩
    | expireFileTransfers transfers =>
      cases f with
      | ok => exact ⟨rfl, h.of_eq (congrArg (fun t => t.expireFileTransfers transfers) h.table) rfl rfl⟩
      | fail | short => exact ⟨rfl, h.of_eq h.table rfl rfl⟩
    | createFile id =>
      cases f with
      | fail => exact ⟨rfl, h⟩
      | ok | short _ =>
        simp only [Transfer.perform, h.isNone_eq id]
        split_ifs
        · exact ⟨rfl, h.insert id _⟩
        · exact ⟨rfl, h⟩
    | write id pos bytes =>
      cases f with
      | ok => exact ⟨rfl, h.setData id (written · pos bytes)⟩
      | short n => exact ⟨rfl, h.setData id (written · pos (bytes.take n))⟩
      | fail => exact ⟨rfl, h⟩
    | _ => cases hatomic
  | true =>
    by_cases hf : f = .ok
    · subst hf
      cases c with
      | lock | unlock | expireFileTransfers | createFile | write => cases hatomic
      | fileTransfer id => exact ⟨congrArg (fun t => t.get id) h.table, h⟩
      | fileTransfersByBatch batchID => exact ⟨congrArg (fun t => t.fileTransfersByBatch batchID) h.table, h⟩
      | createFileTransfersWithinLimits | commitFileTransferOffset | completeFileTransferBatch
      | receiptFileTransfer =>
        simp only [Transfer.perform, h.table]
        split
        · exact ⟨rfl, h.of_eq rfl rfl rfl⟩
        · exact ⟨rfl, h⟩
      | cancelFileTransferBatch =>
        simp only [Transfer.perform, h.table]
        exact ⟨rfl, h.of_eq rfl rfl rfl⟩
      | expiredFileTransfers now =>
        refine ⟨?_, h.of_eq h.table rfl rfl⟩
        exact congrArg (fun t => some (t.expiredFileTransfers now)) h.table
      | openFile kind id => exact ⟨h.hasName_eq kind id, h⟩
      | truncate id n => exact ⟨rfl, h.setData id (truncated · n)⟩
      | sync | syncDir => exact ⟨rfl, h⟩
      | stat kind id =>
        exact ⟨congrArg (fun b => if b = true then Stat.found else .notExist) (h.hasName_eq kind id), h⟩
      | readFile id => exact ⟨congrArg (Option.map File.data) (h.files id (hc id rfl)), h⟩
      | rename src dst id =>
        simp only [Transfer.perform, h.hasName_eq]
        split_ifs
        · exact ⟨rfl, h⟩
        · exact ⟨rfl, (h.setName src id false).setName dst id true⟩
        · exact ⟨rfl, h⟩
      | link src dst id =>
        simp only [Transfer.perform, h.hasName_eq]
        split_ifs
        · exact ⟨rfl, h.setName dst id true⟩
        · exact ⟨rfl, h⟩
      | remove kind id => exact ⟨rfl, h.setName kind id false⟩
    · rw [perform_of_ne_ok hatomic hf, perform_of_ne_ok hatomic hf]
      exact ⟨rfl, h⟩

variable {α : Type}

/-- A program that does not read the bytes of such a file runs alike from both states. -/
lemma parallel {p : Service α} (hp : p.Makes fun c => ∀ id, c = .readFile id → ¬P id) :
    p.Parallel performAlone (fun _ => AlikeBut P) (AlikeBut P) s₁ s₂ :=
  .of_makes (fun _ _ _ f hc h => h.perform hc f) hp h

omit h

/-- Any program runs alike from states that are alike in all the files. -/
lemma parallel_all (h : AlikeBut (fun _ => False) s₁ s₂) (p : Service α) :
    p.Parallel performAlone (fun _ => AlikeBut fun _ => False) (AlikeBut fun _ => False) s₁ s₂ :=
  h.parallel (.of_forall (fun _ _ _ hfalse => hfalse) p)

lemma mono (h : AlikeBut (fun _ => False) s₁ s₂) : AlikeBut P s₁ s₂ :=
  ⟨h.table, h.names, fun id _ => h.files id not_false⟩

end AlikeBut

/-! ### Complete -/

section
variable {id : String}

/-- The call does not read the bytes of the file. -/
abbrev Call.Skips (id : String) (c : Call) : Prop := ∀ id', c = .readFile id' → ¬id' = id

lemma skips_of_plain {c : Call} (hc : c.plain = true) : c.Skips id := by
  rintro id' rfl
  cases hc

variable {s₁ s₂ : State}

/-- A call in two services that are alike. -/
lemma AlikeBut.parallel_call {P : String → Prop} (h : AlikeBut P s₁ s₂) {α : Type} {c : Call}
    {next : c.Reply → Service α} {Q : α → State → State → Prop} {X : State → State → Prop}
    (hc : ∀ id, c = .readFile id → ¬P id) (hX : X s₁ s₂)
    (hnext : ∀ f s₁' s₂' reply, performAlone s₁ c f = (s₁', reply) → performAlone s₂ c f = (s₂', reply) →
      AlikeBut P s₁' s₂' → (next reply).Parallel performAlone Q X s₁' s₂') :
    (request c >>= next).Parallel performAlone Q X s₁ s₂ := by
  refine ⟨hX, fun f => ?_⟩
  obtain ⟨hreply, halike⟩ := h.perform hc f
  exact ⟨hreply, hnext f _ _ _ rfl (Prod.ext rfl hreply.symm) halike⟩

/-- A call that changes nothing, and does not read the bytes. -/
lemma AlikeBut.parallel_read {P : String → Prop} (h : AlikeBut P s₁ s₂) {α : Type} {c : Call}
    {next : c.Reply → Service α} {Q : α → State → State → Prop} {X : State → State → Prop}
    (hreads : c.reads = true) (hc : ∀ id, c = .readFile id → ¬P id) (hX : X s₁ s₂)
    (hnext : ∀ f reply, performAlone s₁ c f = (s₁, reply) → (next reply).Parallel performAlone Q X s₁ s₂) :
    (request c >>= next).Parallel performAlone Q X s₁ s₂ := by
  refine h.parallel_call hc hX fun f s₁' s₂' reply heq₁ heq₂ _ => ?_
  obtain rfl : s₁ = s₁' := (performAlone_of_reads hreads s₁ f).symm.trans (congrArg Prod.fst heq₁)
  obtain rfl : s₂ = s₂' := (performAlone_of_reads hreads s₂ f).symm.trans (congrArg Prod.fst heq₂)
  exact hnext f reply heq₁

variable {s s' : State} {f : Fate}

lemma same_of_lock {key : Lock} {reply : Unit} (h : performAlone s (.lock key) f = (s', reply)) :
    s'.table = s.table ∧ s'.files = s.files := by
  simp only [performAlone, perform] at h
  split_ifs at h
  · obtain ⟨rfl, -⟩ := Prod.mk.inj h
    exact ⟨rfl, rfl⟩
  · obtain ⟨rfl, -⟩ := Prod.mk.inj h
    exact ⟨rfl, rfl⟩

/-- Listed transfers are rows of the table. -/
lemma get_of_listed {batchID : String} {transfers : List FileTransfer}
    (h : performAlone s (.fileTransfersByBatch batchID) f = (s', some transfers)) :
    ∀ t ∈ transfers, s.table.get t.id = some t := by
  cases f with
  | ok =>
    have hlisted : s.table.fileTransfersByBatch batchID = some transfers := (Prod.mk.inj h).2
    unfold Table.fileTransfersByBatch at hlisted
    split_ifs at hlisted
    cases hlisted
    exact fun t ht => (s.table.mem_ofBatch.mp ht).1
  | fail | short => cases (Prod.mk.inj h).2

/-- The verdict of `Complete` does not depend on the bytes of a transfer that is not wholly committed. -/
lemma verdict_eq_of_not_full (sha256 : List UInt8 → String) (h : AlikeBut (· = id) s₁ s₂)
    (hnot : s₁.full id = false) (fates : List Fate) :
    completion sha256 id s₁ fates = completion sha256 id s₂ fates := by
  have hpar : (complete sha256 id).Parallel performAlone (fun _ _ _ => True) (fun _ _ => True) s₁ s₂ := by
    refine h.parallel_read rfl (by simp) trivial fun f reply _ => ?_
    rcases reply with _ | requested
    · trivial
    refine h.parallel_call (by simp) trivial fun f s₁' s₂' _ hlock _ h' => ?_
    have htable := (same_of_lock hlock).1
    have hlocked : (completeLocked sha256 id requested.batchID).Parallel performAlone
        (fun _ => AlikeBut (· = id)) (fun _ _ => True) s₁' s₂' := by
      unfold completeLocked
      refine h'.parallel_read rfl (by simp) trivial fun f rows hrows => ?_
      rcases rows with _ | _
      · exact h'
      refine (h'.parallel (makes_completeRows (fun _ => skips_of_plain) (fun _ => by rintro _ ⟨⟩) sha256 (by rintro _ ⟨⟩)
        fun t ht hwhole => ?_)).mono (fun _ _ _ h => h) fun _ _ _ => trivial
      rintro _ ⟨⟩ hid
      have hget := get_of_listed hrows t ht
      rw [htable, hid] at hget
      rw [full, hget, any_some, decide_eq_false_iff_not] at hnot
      exact hnot hwhole
    refine Prog.parallel_bind.mpr (hlocked.mono (fun _ _ _ halike => ?_) fun _ _ h => h)
    exact halike.parallel_call (by simp) trivial fun _ _ _ _ _ _ _ => trivial
  exact (hpar.exec fates).result_eq

end

/-! ### Append from two states -/

/-- The states are alike but for what is beyond the committed offset. -/
structure Agree (id : String) (s₁ s₂ : State) : Prop where
  alike : AlikeBut (· = id) s₁ s₂
  whole : s₁.full id = true → AlikeBut (fun _ => False) s₁ s₂

section
variable {id : String} {s₁ s₂ : State}

lemma AlikeBut.agree (h : AlikeBut (fun _ => False) s₁ s₂) : Agree id s₁ s₂ := ⟨h.mono, fun _ => h⟩

lemma Agree.of_eq (h : Agree id s₁ s₂) {s₁' s₂' : State} (htable₁ : s₁'.table = s₁.table)
    (htable₂ : s₂'.table = s₂.table) (hfiles₁ : s₁'.files = s₁.files) (hfiles₂ : s₂'.files = s₂.files) :
    Agree id s₁' s₂' := by
  have htable : s₁'.table = s₂'.table := by rw [htable₁, htable₂, h.alike.table]
  refine ⟨h.alike.of_eq htable hfiles₁ hfiles₂, fun hfull => (h.whole ?_).of_eq htable hfiles₁ hfiles₂⟩
  rwa [full, htable₁] at hfull

variable {d₁ d₂ : List UInt8}

/-- Once the files are cut off at the committed offset, they are the same. -/
lemma alike_of_truncated (h : AlikeBut (· = id) s₁ s₂) {n : ℕ} (hd₁ : s₁.dataOf id = some d₁)
    (hd₂ : s₂.dataOf id = some d₂) (hle₁ : n ≤ d₁.length) (hle₂ : n ≤ d₂.length)
    (htake : d₁.take n = d₂.take n) :
    AlikeBut (fun _ => False) (s₁.setData id (truncated · n)) (s₂.setData id (truncated · n)) := by
  have hset := h.setData id (truncated · n)
  refine ⟨hset.table, hset.names, fun id' _ => ?_⟩
  by_cases hid : id' = id
  · subst hid
    obtain ⟨⟨_, has₁⟩, hfile₁, rfl⟩ := map_eq_some_iff.mp hd₁
    obtain ⟨⟨_, has₂⟩, hfile₂, rfl⟩ := map_eq_some_iff.mp hd₂
    have hnames := h.names id'
    rw [hfile₁, hfile₂] at hnames
    obtain rfl : has₁ = has₂ := some.inj hnames
    rw [lookup_setData, lookup_setData, if_pos rfl, if_pos rfl, hfile₁, hfile₂, map_some,
      map_some, truncated_of_le hle₁, truncated_of_le hle₂, htake]
  · exact hset.files id' hid

/-- An append to two services that agree on what is committed. -/
lemma parallel_append (h : Agree id s₁ s₂) {r : FileTransfer} (hr : s₁.table.get id = some r)
    (hd₁ : s₁.dataOf id = some d₁) (hd₂ : s₂.dataOf id = some d₂) (hle₁ : r.committedOffset ≤ d₁.length)
    (hle₂ : r.committedOffset ≤ d₂.length)
    (htake : d₁.take r.committedOffset = d₂.take r.committedOffset) (offset : ℤ) (body : List Read) :
    (append id offset body).Parallel performAlone (fun _ => Agree id) (Agree id) s₁ s₂ := by
  refine h.alike.parallel_call (by simp) h fun f s₁' s₂' _ hlock₁ hlock₂ halike => ?_
  obtain ⟨htable₁, hfiles₁⟩ := same_of_lock hlock₁
  obtain ⟨htable₂, hfiles₂⟩ := same_of_lock hlock₂
  have hagree : Agree id s₁' s₂' := h.of_eq htable₁ htable₂ hfiles₁ hfiles₂
  rw [← htable₁] at hr
  rw [dataOf, ← hfiles₁] at hd₁
  rw [dataOf, ← hfiles₂] at hd₂
  have hlocked : (appendLocked id offset body).Parallel performAlone (fun _ => Agree id) (Agree id) s₁' s₂' := by
    refine halike.parallel_read rfl (by simp) hagree fun f reply heq => ?_
    rcases reply with _ | transfer
    · exact hagree
    obtain rfl : r = transfer := by
      cases f with
      | ok => exact some.inj (hr.symm.trans (Prod.mk.inj heq).2)
      | fail | short => cases (Prod.mk.inj heq).2
    by_cases hcanceled : r.state = .canceled
    · simp only [hcanceled, if_true]
      exact hagree
    simp only [hcanceled, if_false]
    by_cases hoffset : offset ≠ r.committedOffset
    · rw [if_pos hoffset]
      exact hagree
    rw [if_neg hoffset]
    refine halike.parallel_read rfl (by simp) hagree fun f opened _ => ?_
    rcases opened with _ | _
    · exact hagree
    refine halike.parallel_call (by simp) hagree fun f t₁ t₂ cut heq₁ heq₂ _ => ?_
    cases f with
    | fail | short =>
      obtain ⟨rfl, rfl⟩ := Prod.mk.inj (heq₁ : (s₁', false) = (t₁, cut))
      obtain rfl : s₂' = t₂ := (Prod.mk.inj heq₂).1
      exact hagree
    | ok =>
      obtain ⟨rfl, rfl⟩ := Prod.mk.inj
        (heq₁ : (s₁'.setData id (truncated · r.committedOffset), true) = (t₁, cut))
      obtain rfl : s₂'.setData id (truncated · r.committedOffset) = t₂ := (Prod.mk.inj heq₂).1
      exact ((alike_of_truncated halike hd₁ hd₂ hle₁ hle₂ htake).parallel_all _).mono
        (fun _ _ _ h => h.agree) fun _ _ h => h.agree
  refine Prog.parallel_bind.mpr (hlocked.mono (fun result t₁ t₂ hended => ?_) fun _ _ h => h)
  refine hended.alike.parallel_call (by simp) hended fun f t₁' t₂' _ heq₁ heq₂ _ => ?_
  obtain rfl : { t₁ with locks := t₁.locks.erase (.transfer id) } = t₁' := by
    cases f <;> exact (Prod.mk.inj heq₁).1
  obtain rfl : { t₂ with locks := t₂.locks.erase (.transfer id) } = t₂' := by
    cases f <;> exact (Prod.mk.inj heq₂).1
  exact hended.of_eq rfl rfl rfl rfl

end

/-! ### Two uploads -/

/-- Two uploads that have accepted the same bodies, in states that agree. -/
structure Same (id : String) (u₁ u₂ : Upload) : Prop where
  accepted : u₁.accepted = u₂.accepted
  left : Kept id u₁
  right : Kept id u₂
  agree : Agree id u₁.state u₂.state

section
variable {id : String} {u₁ u₂ : Upload}

/-- Uploads that agree still do after a call. -/
lemma Same.append (h : Same id u₁ u₂) (call : AppendCall) :
    Same id (u₁.append id call) (u₂.append id call) := by
  obtain ⟨r, d₁, hr, hd₁, hoffset₁, htake₁⟩ := h.left
  obtain ⟨r₂, d₂, hr₂, hd₂, hoffset₂, htake₂⟩ := h.right
  obtain rfl : r = r₂ := by
    rw [← h.agree.alike.table] at hr₂
    exact some.inj (hr.symm.trans hr₂)
  have hpar := parallel_append h.agree hr hd₁ hd₂ (le_length_of_take hoffset₁ htake₁)
    (le_length_of_take hoffset₂ htake₂) (by rw [htake₁, htake₂, h.accepted]) call.offset call.body
  have hagree : Agree id (appendOnce id u₁.state call).1 (appendOnce id u₂.state call).1 := by
    have halike := hpar.exec call.fates
    unfold appendOnce
    generalize (Transfer.append id call.offset call.body).exec performAlone u₁.state call.fates = e₁ at halike ⊢
    generalize (Transfer.append id call.offset call.body).exec performAlone u₂.state call.fates = e₂ at halike ⊢
    cases e₁ <;> cases e₂
    · exact halike.2
    · exact halike.elim
    · exact halike.elim
    · exact Agree.of_eq halike rfl rfl rfl rfl
  have hoffset : ∀ {s₁ s₂ : State}, Agree id s₁ s₂ → s₁.offsetOf id = s₂.offsetOf id := fun h => by
    rw [offsetOf, offsetOf, h.alike.table]
  refine ⟨?_, (h.left.append call).kept, (h.right.append call).kept, hagree⟩
  unfold Upload.append
  dsimp only
  rw [hoffset hagree, hoffset h.agree, h.accepted]

lemma Same.appendAll (h : Same id u₁ u₂) (calls : List AppendCall) :
    Same id (u₁.appendAll id calls) (u₂.appendAll id calls) := by
  induction calls generalizing u₁ u₂ with
  | nil => exact h
  | cons call calls ih => exact ih (h.append call)

/-- They get the same verdict. -/
lemma Same.verdict_eq (h : Same id u₁ u₂) (sha256 : List UInt8 → String) (fates : List Fate) :
    completion sha256 id u₁.state fates = completion sha256 id u₂.state fates := by
  cases hfull : u₁.state.full id with
  | false => exact verdict_eq_of_not_full sha256 h.agree.alike hfull fates
  | true => exact (((h.agree.whole hfull).parallel_all _).exec fates).result_eq

end

/-! ### Tidy sequences -/

/-- No `Append` of the sequence leaves an extra byte behind. -/
def TidyAll (id : String) : Upload → List AppendCall → Prop
  | _, [] => True
  | u, call :: calls => call.Tidy id u.state ∧ TidyAll id (u.append id call) calls

section
variable {id : String} {u : Upload} {call : AppendCall}

variable {s : State} {r : FileTransfer} {d : List UInt8}

section
variable {s' : State} (hr : s.table.get id = some r) (hd : s.dataOf id = some d)
include hr hd

lemma length_eq_of_full (hle : r.committedOffset ≤ d.length) (hclean : s.surplus id = false)
    (hfull : s.full id = true) :
    r.committedOffset = r.size ∧ d.length = r.size := by
  rw [full, hr, any_some, decide_eq_true_eq] at hfull
  simp only [surplus, hr, hd, any_some, hfull, decide_true, Bool.true_and,
    decide_eq_false_iff_not, not_lt] at hclean
  exact ⟨hfull, by omega⟩

/-- How a tidy call ends. -/
lemma tidy_ends (hle : r.committedOffset ≤ d.length) (hclean : s.surplus id = false)
    (htidy : call.Tidy id s) :
    match (appendOnce id s call).2 with
    | some result => Ended id r d call.body (s.full id = true) s result (appendOnce id s call).1
    | none => Interrupted id r d call.body (s.full id = true) s (appendOnce id s call).1 := by
  by_cases hfull : s.full id = true
  · obtain ⟨hsize, hlength⟩ := length_eq_of_full hr hd hle hclean hfull
    refine appendOnce_ends hr hd hle (fun _ => ⟨hsize, hlength, htidy.body hfull⟩) ?_
    exact htidy.obeys.mono (fun _ _ _ h _ => h) fun _ h _ => h
  · exact appendOnce_ends hr hd hle (fun h => absurd h hfull)
      (.of_forall (fun _ _ _ h => absurd h hfull) (fun _ h => absurd h hfull) _ _ _)

/-- A rejected call leaves no surplus. -/
lemma clean_of_rejected (hclean : s.surplus id = false)
    (h : Rejected id r d (s.full id = true) s s') : s'.surplus id = false := by
  obtain ⟨d', hd', -, hsame⟩ := h
  have hdata := dataOf_of_files hd hd'.files
  by_cases hfull : s.full id = true
  · rw [surplus, hd'.table, hdata, hsame hfull, ← hd]
    exact hclean
  · have hwhole : r.committedOffset ≠ r.size := by simpa [full, hr] using hfull
    simp [surplus, hd'.table, hr, hwhole]

/-- Neither does a committed one. -/
lemma clean_of_committed {bytes : List UInt8} (hle : r.committedOffset ≤ d.length)
    (h : Committed id r d bytes s s') : s'.surplus id = false := by
  obtain ⟨hr', -⟩ := get_of_committed hr h
  have hdata := dataOf_of_files hd h.files
  rw [surplus, hr', hdata]
  simp only [any_some, List.length_append, List.length_take]
  by_cases hwhole : r.committedOffset + bytes.length = r.size
  · rw [decide_eq_true hwhole, Bool.true_and, decide_eq_false_iff_not]
    omega
  · rw [decide_eq_false hwhole, Bool.false_and]

end

/-- A tidy call leaves no surplus. -/
lemma clean_append (hkept : Kept id u) (hclean : u.state.surplus id = false)
    (htidy : call.Tidy id u.state) : (u.append id call).state.surplus id = false := by
  obtain ⟨r, d, hr, hd, hoffset, htake⟩ := hkept
  have hle := le_length_of_take hoffset htake
  have hends : Interrupted id r d call.body (u.state.full id = true) u.state
      (appendOnce id u.state call).1 := by
    have hends := tidy_ends hr hd hle hclean htidy
    split at hends
    · exact hends.interrupted
    · exact hends
  obtain hrejected | hcommitted := hends
  · exact clean_of_rejected hr hd hclean hrejected
  · exact clean_of_committed hr hd hle hcommitted

lemma clean_appendAll {calls : List AppendCall} (hkept : Kept id u) (hclean : u.state.surplus id = false)
    (htidy : TidyAll id u calls) : (u.appendAll id calls).state.surplus id = false := by
  induction calls generalizing u with
  | nil => exact hclean
  | cons call calls ih => exact ih (hkept.append call).kept (clean_append hkept hclean htidy.1) htidy.2

/-- A tidy `Append` that returns an error is as if it had not been made. -/
lemma same_of_error (hkept : Kept id u) (hclean : u.state.surplus id = false)
    (htidy : call.Tidy id u.state) {e : Code}
    (herror : (appendOnce id u.state call).2 = some (.error e)) : Same id (u.append id call) u := by
  have hadvanced := hkept.append call
  obtain ⟨haccepted, -⟩ := hadvanced.error e herror
  refine ⟨haccepted, hadvanced.kept, hkept, ?_⟩
  obtain ⟨r, d, hr, hd, hoffset, htake⟩ := hkept
  have hends := tidy_ends hr hd (le_length_of_take hoffset htake) hclean htidy
  rw [herror] at hends
  obtain ⟨d', hd', -, hsame⟩ := hends
  have hfiles : ∀ id', (u.append id call).state.files.lookup id' = _ := hd'.files
  have hnames : ∀ id', ((u.append id call).state.files.lookup id').map (·.has) =
      (u.state.files.lookup id').map (·.has) := by
    intro id'
    rw [hfiles, lookup_setData]
    split_ifs with hid
    · rw [hid, map_map]
      rfl
    · rfl
  refine ⟨⟨hd'.table, hnames, fun id' hid => ?_⟩, fun hfull => ⟨hd'.table, hnames, fun id' _ => ?_⟩⟩
  · rw [hfiles, lookup_setData, if_neg hid]
  · have hfull' : u.state.full id = true := by
      rwa [full, show (u.append id call).state.table = _ from hd'.table] at hfull
    obtain rfl := hsame hfull'
    rw [hfiles]
    exact ((Holds.refl hd).files id').symm

end

lemma appendAll_append (id : String) (u : Upload) (l l' : List AppendCall) :
    u.appendAll id (l ++ l') = (u.appendAll id l).appendAll id l' :=
  List.foldl_append

/-- The first bytes of the file, as many as the committed offset, are those of the accepted bodies, and
the offset is within the file. -/
def Stored (id : String) (u : Upload) : Prop :=
  ∃ r file, u.state.table.get id = some r ∧ u.state.files.lookup id = some file ∧
    r.committedOffset ≤ r.size ∧ r.committedOffset = u.accepted.length ∧
    file.data.take r.committedOffset = u.accepted

lemma Kept.stored {id : String} {u : Upload} (h : Kept id u) : Stored id u := by
  obtain ⟨r, d, hr, hd, hoffset, htake⟩ := h
  obtain ⟨file, hfile, rfl⟩ := map_eq_some_iff.mp hd
  exact ⟨r, file, hr, hfile, u.state.table.offset_le_of_get hr, hoffset, htake⟩

/-- In every sequence of `Append` calls, with failures and crashes anywhere, the committed offset never
decreases, and the committed bytes are those of the accepted bodies: those of the calls that return no
error, and of no other call that returns. If no call leaves an extra byte behind a whole file,
a call that returns an error has no influence on the verdict of a later `Complete`. -/
theorem upload_resumable (sha256 : List UInt8 → String) {id : String} {s : State} (hfresh : Fresh id s)
    (l l' : List AppendCall) :
    (Stored id ((Upload.start s).appendAll id l) ∧ ((Upload.start s).appendAll id l).state.offsetOf id ≤
        ((Upload.start s).appendAll id (l ++ l')).state.offsetOf id ∧
      ∀ call, (∀ transfer, (appendOnce id ((Upload.start s).appendAll id l).state call).2 = some (.ok transfer) →
          ((Upload.start s).appendAll id (l ++ [call])).accepted =
            ((Upload.start s).appendAll id l).accepted ++ content call.body) ∧
        ∀ e, (appendOnce id ((Upload.start s).appendAll id l).state call).2 = some (.error e) →
          ((Upload.start s).appendAll id (l ++ [call])).accepted =
            ((Upload.start s).appendAll id l).accepted) ∧
    (TidyAll id (.start s) l → ∀ call e, call.Tidy id ((Upload.start s).appendAll id l).state →
      (appendOnce id ((Upload.start s).appendAll id l).state call).2 = some (.error e) → ∀ fates,
        completion sha256 id ((Upload.start s).appendAll id (l ++ call :: l')).state fates =
          completion sha256 id ((Upload.start s).appendAll id (l ++ l')).state fates) := by
  have hkept := (hfresh.kept.appendAll l).1
  refine ⟨⟨hkept.stored, ?_, fun call => ⟨fun transfer hok => ?_, fun e herror => ?_⟩⟩,
    fun htidy call e hcall herror fates => ?_⟩
  · rw [appendAll_append]
    exact (hkept.appendAll l').2
  · rw [appendAll_append]
    exact (hkept.append call).ok transfer hok
  · rw [appendAll_append]
    exact ((hkept.append call).error e herror).1
  · have hclean : (Upload.start s).state.surplus id = false := by
      obtain ⟨r, hr, -, -⟩ := hfresh.row
      simp [Upload.start, State.surplus, State.dataOf, hr, hfresh.file]
    have hsame := same_of_error hkept (clean_appendAll hfresh.kept hclean htidy) hcall herror
    rw [appendAll_append, appendAll_append]
    exact (hsame.appendAll l').verdict_eq sha256 fates

/-! ### A file of one byte -/

instance (id : String) {α : Type} (p : Service α) (s : State) (fates : List Fate) :
    Decidable (p.Obeys performAlone (tidy id) s fates) :=
  p.decidableObeys performAlone (tidy id) (fun _ _ _ => inferInstanceAs (Decidable (_ = false)))
    (fun _ => inferInstanceAs (Decidable (_ = false))) s fates

/-- The row of a transfer of this file. -/
def oneByteRow : FileTransfer where
  id := "t"
  batchID := "b"
  direction := .pbToPbh
  sessionID := "s"
  clientID := "c"
  basename := "f"
  size := 1
  sha256 := sampleDigest [7]
  committedOffset := 0
  state := .created
  resultCode := ""
  receiptPath := ""
  createdAt := 0
  expiresAt := 1

/-- The state in which the transfer is created. -/
def oneByteState : State where
  table := (Table.empty.insert oneByteRow).getD .empty
  files := (∅ : FinMap String File).insert "t" ⟨[], fun kind => kind = .part⟩
  locks := ∅
  expiring := ∅

lemma fresh_oneByteState : Fresh "t" oneByteState where
  row := ⟨oneByteRow, by decide +kernel, rfl, rfl⟩
  file := AList.lookup_insert _

/-- Calls that all succeed. -/
def succeeding : List Fate := List.replicate 16 .ok

/-- The byte is sent. -/
def sendByte : AppendCall := ⟨0, [⟨[7], false⟩], succeeding⟩

/-- Another byte is sent, and the body fails if `error` holds. -/
def sendMore (error : Bool) : AppendCall := ⟨1, [⟨[9], error⟩], succeeding⟩

/-- The upload after some calls. -/
def oneByteUpload (calls : List AppendCall) : Upload := (Upload.start oneByteState).appendAll "t" calls

/-- The code of the error that `Complete` returns after some calls; `none` if it succeeds. -/
def oneByteVerdict (calls : List AppendCall) : Option (Option Code) :=
  (completion sampleDigest "t" (oneByteUpload calls).state succeeding).map fun result =>
    match result with
    | .ok _ => none
    | .error e => some e

/-- A call that fails after it has brought a byte beyond the end of the file makes `Complete` refuse the
file. -/
theorem failed_append_changes_verdict : Fresh "t" oneByteState ∧
    (appendOnce "t" (oneByteUpload [sendByte]).state (sendMore true)).2 = some (.error .storageUnavailable) ∧
    oneByteVerdict [sendByte] = some none ∧
    oneByteVerdict [sendByte, sendMore true] = some (some .digestMismatch) :=
  ⟨fresh_oneByteState, by decide +kernel, by decide +kernel, by decide +kernel⟩

/-- A call whose body is too long but does not fail has no influence. -/
theorem overlong_append_harmless : oneByteVerdict [sendByte] = some none ∧
    completion sampleDigest "t" (oneByteUpload ([sendByte] ++ [sendMore false])).state succeeding =
      completion sampleDigest "t" (oneByteUpload ([sendByte] ++ [])).state succeeding := by
  have hsend : sendByte.Tidy "t" (Upload.start oneByteState).state :=
    ⟨by decide +kernel, by decide +kernel⟩
  have hmore : (sendMore false).Tidy "t" ((Upload.start oneByteState).appendAll "t" [sendByte]).state :=
    ⟨by decide +kernel, by decide +kernel⟩
  have herror : (appendOnce "t" ((Upload.start oneByteState).appendAll "t" [sendByte]).state
      (sendMore false)).2 = some (.error .invalidSize) := by decide +kernel
  exact ⟨by decide +kernel, (upload_resumable sampleDigest fresh_oneByteState [sendByte] []).2
    ⟨hsend, trivial⟩ (sendMore false) .invalidSize hmore herror succeeding⟩

end Paperboat.Transfer

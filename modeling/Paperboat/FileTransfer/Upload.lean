import Paperboat.FileTransfer.Statements

/-!
# Resumable uploads

A sequence of `Append` calls on one transfer, with any failures, and cut off by a crash of the helper
anywhere. The file can be longer than the committed offset; the next `Append` cuts it off there.

When the committed offset is the size of the file nothing else cuts off what is beyond it, and
`Complete` reads the whole file. `Append` writes one byte more than remain, to see whether the body
is too long; if it does not come to the cut that removes this byte again, `Complete` finds another
file than the one that was sent.
-/

namespace Paperboat.Transfer

open List Option State Prod

/-! ### Calls one after the other -/

/-- A call when nothing else is in progress. -/
def performAlone (s : State) (c : Call) (f : Fate) : State × c.Reply :=
  (perform 0 s c f).getD (s, c.refusal)

/-- Reading changes nothing. -/
lemma performAlone_of_reads {c : Call} (hc : c.reads = true) (s : State) (f : Fate) :
    (performAlone s c f).1 = s := by
  unfold performAlone
  rcases h : perform 0 s c f with _ | ⟨s', r⟩
  · rfl
  · exact eq_of_reads hc h

/-- A call of `Append`, with the fates of the calls that it makes; where they end, the helper stops. -/
structure AppendCall where
  offset : ℤ
  body : List Read
  fates : List Fate
  deriving DecidableEq

/-- The bytes of a body. -/
def content (body : List Read) : List UInt8 := body.flatMap (·.data)

/-- The committed offset of a transfer. -/
def State.offsetOf (s : State) (id : String) : ℕ := ((s.table.get id).map (·.committedOffset)).getD 0

/-- The state after an `Append`, and what it returns; nothing if the helper stops and starts again. -/
def appendOnce (id : String) (s : State) (call : AppendCall) : State × Option (Except Code FileTransfer) :=
  match (append id call.offset call.body).exec performAlone s call.fates with
  | .finished result s' => (s', some result)
  | .cut s' => (s'.restart, none)

/-- The state during an upload, and the bytes of the bodies whose offsets were committed. -/
structure Upload where
  state : State
  accepted : List UInt8

/-- One `Append`. A body that was committed counts even if the helper stops before `Append` returns. -/
def Upload.append (id : String) (u : Upload) (call : AppendCall) : Upload where
  state := (appendOnce id u.state call).1
  accepted := if (appendOnce id u.state call).1.offsetOf id = u.state.offsetOf id then u.accepted
    else u.accepted ++ content call.body

/-- A sequence of `Append` calls. -/
def Upload.appendAll (id : String) (u : Upload) (calls : List AppendCall) : Upload :=
  calls.foldl (Upload.append id) u

/-- A transfer as `Create` leaves it. -/
structure Fresh (id : String) (s : State) : Prop where
  row : ∃ r, s.table.get id = some r ∧ r.state = .created ∧ r.committedOffset = 0
  file : s.files.lookup id = some ⟨[], fun kind => kind = .part⟩

/-- The beginning of an upload. -/
def Upload.start (s : State) : Upload := ⟨s, []⟩

/-- What `Complete` returns with the fates of its calls. -/
def completion (sha256 : List UInt8 → String) (id : String) (s : State) (fates : List Fate) :
    Option (Except Code FileTransfer) :=
  ((complete sha256 id).exec performAlone s fates).result

/-! ### The extra byte -/

/-- The whole file is committed. -/
def State.full (s : State) (id : String) : Bool :=
  (s.table.get id).any fun r => r.committedOffset = r.size

/-- The whole file is committed, and more than the file is there. -/
def State.surplus (s : State) (id : String) : Bool :=
  (s.table.get id).any fun r => r.committedOffset = r.size && (s.dataOf id).any fun data => r.size < data.length

/-- The calls that leave the extra byte behind: a write to the whole file that fails after the byte, and
a cut that fails. -/
def leavesSurplus (id : String) (s : State) : Call → Fate → Bool
  | .write id' _ _, .short n => id' = id && s.full id && n ≠ 0
  | .truncate id' _, f => id' = id && s.surplus id && f ≠ .ok
  | _, _ => false

/-- The extra byte is not left behind: no such call fails, and the helper does not stop while the byte is
there. -/
def tidy (id : String) : Rules State Call Fate where
  allows s c f := leavesSurplus id s c f = false
  mayCut s := s.surplus id = false

/-- The `Append` does not leave an extra byte behind: if it comes after the whole file was committed, no
read of its body fails together with data, and its calls are tidy. -/
structure AppendCall.Tidy (id : String) (s : State) (call : AppendCall) : Prop where
  body : s.full id = true → ∀ read ∈ call.body, read.data ≠ [] → read.error = false
  obeys : (append id call.offset call.body).Obeys performAlone (tidy id) s call.fates

/-! ### One file with other bytes -/

/-- The state has the given bytes in the file of the transfer; all the rest is as before, up to locks. -/
structure Holds (id : String) (s : State) (data : List UInt8) (s' : State) : Prop where
  table : s'.table = s.table
  files : ∀ id', s'.files.lookup id' = (s.setData id fun _ => data).files.lookup id'

lemma lookup_setData (s : State) (id id' : String) (f : List UInt8 → List UInt8) :
    (s.setData id f).files.lookup id' = if id' = id
      then (s.files.lookup id).map fun file => { file with data := f file.data }
      else s.files.lookup id' :=
  s.lookup_modifyFile id id' _

variable {id : String} {s : State} {data : List UInt8}

lemma Holds.refl (h : s.dataOf id = some data) : Holds id s data s := by
  refine ⟨rfl, fun id' => ?_⟩
  rw [lookup_setData]
  split_ifs with hid
  · subst hid
    obtain ⟨file, hfile, rfl⟩ := map_eq_some_iff.mp h
    rw [hfile]
    rfl
  · rfl

variable {s' : State}

/-- A write to the file of the transfer is the only change. -/
lemma Holds.setData (h : Holds id s data s') (f : List UInt8 → List UInt8) :
    Holds id s (f data) (s'.setData id f) := by
  refine ⟨by rw [State.setData, State.modifyFile_table, h.table], fun id' => ?_⟩
  rw [lookup_setData, lookup_setData, h.files, h.files, lookup_setData, lookup_setData, if_pos rfl]
  split_ifs
  · rw [Option.map_map]
    rfl
  · rfl

lemma dataOf_of_files {d : List UInt8} (hd : s.dataOf id = some d)
    (h : ∀ id', s'.files.lookup id' = (s.setData id fun _ => data).files.lookup id') :
    s'.dataOf id = some data := by
  obtain ⟨file, hfile, -⟩ := map_eq_some_iff.mp hd
  rw [State.dataOf, h, lookup_setData, if_pos rfl, hfile]
  rfl

lemma Holds.of_locks (h : Holds id s data s') (locks : FinMap Lock ℕ) :
    Holds id s data { s' with locks := locks } :=
  ⟨h.table, h.files⟩

variable {n : ℕ}

lemma truncated_of_le (h : n ≤ data.length) : truncated data n = data.take n := by
  rw [truncated, Nat.sub_eq_zero_of_le h, replicate_zero, append_nil]

/-- A write at the end appends. -/
lemma written_length (data bytes : List UInt8) : written data data.length bytes = data ++ bytes := by
  unfold written
  split_ifs with hnil
  · rw [hnil, append_nil]
  · rw [truncated_length, drop_eq_nil_of_le (by omega), append_nil]

/-! ### Append -/

section
variable {id : String} {s : State} {strict : Prop}

/-- The rules are kept if `strict` holds. -/
def tidyIf (id : String) (strict : Prop) : Rules State Call Fate where
  allows s c f := strict → leavesSurplus id s c f = false
  mayCut s := strict → s.surplus id = false

/-- A call of a program that runs alone. -/
lemma safe_call {α : Type} {rules : Rules State Call Fate} {Q : α → State → Prop} {X : State → Prop}
    {c : Call} {next : c.Reply → Service α} {s : State} (hcut : rules.mayCut s → X s)
    (hnext : ∀ f s' reply, rules.allows s c f → performAlone s c f = (s', reply) →
      (next reply).Safe performAlone rules Q X s') :
    (request c >>= next).Safe performAlone rules Q X s :=
  ⟨hcut, fun f hf => hnext f _ _ hf rfl⟩

/-- A call that has no effect unless it succeeds. -/
lemma safe_atomic {α : Type} {rules : Rules State Call Fate} {Q : α → State → Prop} {X : State → Prop}
    {c : Call} {next : c.Reply → Service α} {s s' : State} {reply : c.Reply} (hc : c.atomic = true)
    (hX : X s) (hfail : (next c.refusal).Safe performAlone rules Q X s)
    (hperform : performAlone s c .ok = (s', reply)) (hok : (next reply).Safe performAlone rules Q X s') :
    (request c >>= next).Safe performAlone rules Q X s := by
  refine ⟨fun _ => hX, fun f _ => ?_⟩
  by_cases hf : f = .ok
  · rw [hf, hperform]
    exact hok
  · rw [performAlone, perform_of_ne_ok hc hf]
    exact hfail

lemma copy_zero (id : String) (pos total : ℕ) (body : List Read) :
    copy id pos 0 total body = pure (some total) := by
  cases body <;> rfl

lemma content_cons (read : Read) (body : List Read) : content (read :: body) = read.data ++ content body :=
  rfl

/-- The write of `copy`, if there is anything to write. -/
def store (id : String) (pos : ℕ) (data : List UInt8) : Service Bool :=
  if data = [] then pure true else request (.write id pos data)

variable {limit : ℕ}

/-- One round of `io.Copy`. -/
lemma copy_cons (hlimit : limit ≠ 0) (id : String) (pos total : ℕ) (read : Read) (body : List Read) :
    copy id pos limit total (read :: body) = (store id pos (read.data.take limit) >>= fun stored =>
      if !stored || read.error then pure none
      else copy id (pos + (read.data.take limit).length) (limit - (read.data.take limit).length)
        (total + (read.data.take limit).length) body) := by
  unfold store
  simp only [copy, if_neg hlimit]
  split_ifs <;> rfl

variable {pos : ℕ} {d : List UInt8} {s' : State}

/-- A write appends all bytes or some of them. -/
lemma safe_store {data : List UInt8} (h : Holds id s d s') (hpos : d.length = pos)
    (hfull : strict → s.full id = true) :
    (store id pos data).Safe performAlone (tidyIf id strict)
      (fun stored s'' => ∃ w, Holds id s (d ++ w) s'' ∧ (stored = true → w = data) ∧
        (stored = false → strict → w = []))
      (fun s'' => Holds id s d s'') s' := by
  unfold store
  split_ifs with hnil
  · exact ⟨[], by rwa [append_nil], fun _ => hnil.symm, nofun⟩
  refine ⟨fun _ => h, fun f hf => ?_⟩
  subst hpos
  cases f with
  | ok =>
    refine ⟨data, ?_, fun _ => rfl, nofun⟩
    rw [← written_length]
    exact h.setData (written · d.length data)
  | fail => exact ⟨[], by rw [append_nil]; exact h, nofun, fun _ _ => rfl⟩
  | short n =>
    refine ⟨data.take n, ?_, nofun, fun _ hstrict => ?_⟩
    · rw [← written_length]
      exact h.setData (written · d.length (data.take n))
    · have hallowed := hf hstrict
      have hfull' : s'.full id = true := by
        rw [full, h.table]
        exact hfull hstrict
      simp only [leavesSurplus, hfull', decide_true, Bool.true_and, decide_eq_false_iff_not,
        not_not] at hallowed
      rw [hallowed]
      rfl

variable {total : ℕ}

/-- `copy` adds the bytes of the body up to the limit. If the whole file is there, it stops after one
byte, and it fails or is cut off only before it. -/
lemma safe_copy {body : List Read} (h : Holds id s d s') (hpos : d.length = pos)
    (hstrict : strict → s.full id = true ∧ limit ≤ 1 ∧ ∀ read ∈ body, read.data ≠ [] → read.error = false) :
    (copy id pos limit total body).Safe performAlone (tidyIf id strict)
      (fun result s'' => ∃ w, Holds id s (d ++ w) s'' ∧
        (∀ n, result = some n → n = total + w.length ∧ w = (content body).take limit) ∧
        (result = none → strict → w = []))
      (fun s'' => ∃ w, Holds id s (d ++ w) s'' ∧ (strict → w = [])) s' := by
  induction body generalizing pos limit total d s' with
  | nil =>
    refine ⟨[], by rwa [append_nil], fun n hn => ?_, nofun⟩
    cases hn
    exact ⟨rfl, take_nil.symm⟩
  | cons read body ih =>
    by_cases hlimit : limit = 0
    · subst hlimit
      rw [copy_zero]
      refine ⟨[], by rwa [append_nil], fun n hn => ?_, nofun⟩
      cases hn
      exact ⟨rfl, rfl⟩
    rw [copy_cons hlimit]
    refine Prog.safe_bind.mpr ((safe_store h hpos fun hs => (hstrict hs).1).mono ?_
      fun s'' h'' => ⟨[], by rwa [append_nil], fun _ => rfl⟩)
    rintro stored s'' ⟨w, hw, hok, hfail⟩
    rcases stored with _ | _
    · exact ⟨w, hw, nofun, fun _ => hfail rfl⟩
    obtain rfl := hok rfl
    cases herror : read.error with
    | true =>
      refine ⟨_, hw, nofun, fun _ hs => ?_⟩
      -- a read that fails brings no data
      by_contra hne
      have hdata : read.data ≠ [] := fun hnil => hne (by rw [hnil, take_nil])
      exact nomatch herror.symm.trans ((hstrict hs).2.2 read (.head _) hdata)
    | false =>
      have hlength : (d ++ read.data.take limit).length = pos + (read.data.take limit).length := by
        rw [length_append, hpos]
      have hcontent : (content (read :: body)).take limit =
          read.data.take limit ++ (content body).take (limit - (read.data.take limit).length) := by
        rw [content_cons, take_append, length_take]
        congr 2
        omega
      by_cases hbyte : strict ∧ read.data.take limit ≠ []
      · -- the extra byte is the last one
        have hzero : limit - (read.data.take limit).length = 0 := by
          have hone := (hstrict hbyte.1).2.1
          have hpos' := length_pos_of_ne_nil hbyte.2
          omega
        simp only [Bool.not_true, Bool.false_or, Bool.false_eq_true, if_false]
        rw [hzero, copy_zero]
        refine ⟨_, hw, fun n hn => ?_, nofun⟩
        cases hn
        refine ⟨rfl, ?_⟩
        rw [hcontent, hzero, take_zero, append_nil]
      have hstrict' : strict → s.full id = true ∧ limit - (read.data.take limit).length ≤ 1 ∧
          ∀ read ∈ body, read.data ≠ [] → read.error = false := fun hs =>
        ⟨(hstrict hs).1, (Nat.sub_le _ _).trans (hstrict hs).2.1,
          fun read hread => (hstrict hs).2.2 read (.tail _ hread)⟩
      have hnil : strict → read.data.take limit = [] := fun hs => by
        by_contra hne
        exact hbyte ⟨hs, hne⟩
      refine Prog.Safe.mono (ih hw hlength hstrict') ?_ ?_
      · rintro result s₃ ⟨w', hw', hsome, hnone⟩
        refine ⟨read.data.take limit ++ w', by rwa [← append_assoc], fun n hn => ?_, fun hn hs => ?_⟩
        · obtain ⟨rfl, rfl⟩ := hsome n hn
          rw [hcontent, length_append]
          exact ⟨by omega, rfl⟩
        · rw [hnil hs, hnone hn hs]
          rfl
      · rintro s₃ ⟨w', hw', hcut⟩
        refine ⟨read.data.take limit ++ w', by rwa [← append_assoc], fun hs => ?_⟩
        rw [hnil hs, hcut hs]
        rfl

variable {r : FileTransfer} {d : List UInt8} {body : List Read}

/-- Nothing was committed, and the committed bytes are there. -/
def Rejected (id : String) (r : FileTransfer) (d : List UInt8) (strict : Prop) (s s' : State) : Prop :=
  ∃ d', Holds id s d' s' ∧ d'.take r.committedOffset = d.take r.committedOffset ∧ (strict → d' = d)

/-- The bytes were committed. -/
structure Committed (id : String) (r : FileTransfer) (d bytes : List UInt8) (s s' : State) : Prop where
  table : s.table.commitFileTransferOffset id r.committedOffset (r.committedOffset + bytes.length) =
    some s'.table
  files : ∀ id', s'.files.lookup id' =
    (s.setData id fun _ => d.take r.committedOffset ++ bytes).files.lookup id'

/-- How `Append` ends. -/
def Ended (id : String) (r : FileTransfer) (d : List UInt8) (body : List Read) (strict : Prop) (s : State) :
    Except Code FileTransfer → State → Prop
  | .ok _, s' => Committed id r d (content body) s s'
  | .error _, s' => Rejected id r d strict s s'

/-- Where `Append` can be cut off. -/
def Interrupted (id : String) (r : FileTransfer) (d : List UInt8) (body : List Read) (strict : Prop)
    (s s' : State) : Prop :=
  Rejected id r d strict s s' ∨ Committed id r d (content body) s s'

/-- An end is one of the states that an interruption may leave. -/
lemma Ended.interrupted {result : Except Code FileTransfer} (h : Ended id r d body strict s result s') :
    Interrupted id r d body strict s s' := by
  cases result with
  | ok => exact .inr h
  | error => exact .inl h

lemma rejected_same (h : Holds id s d s') : Rejected id r d strict s s' :=
  ⟨d, h, rfl, fun _ => rfl⟩

variable {w : List UInt8} (hle : r.committedOffset ≤ d.length)
include hle

lemma rejected_append (h : Holds id s (d.take r.committedOffset ++ w) s')
    (hstrict : strict → d.length = r.committedOffset ∧ w = []) : Rejected id r d strict s s' := by
  refine ⟨_, h, ?_, fun hs => ?_⟩
  · rw [take_append_of_le_length (by rw [length_take]; omega), take_take, Nat.min_self]
  · obtain ⟨hlength, rfl⟩ := hstrict hs
    rw [append_nil, ← hlength, take_length]

/-- The end of `Append`: the offset is committed, or nothing changes. -/
lemma safe_commit {transfer : FileTransfer}
    (h : Holds id s (d.take r.committedOffset ++ w) s') (htotal : total = w.length)
    (hw : w = content body) (hstrict : strict → d.length = r.committedOffset ∧ w = []) :
    (do
      let synced ← request (.sync id)
      if !synced then return Except.error Code.storageUnavailable
      let committed ← request (.commitFileTransferOffset id r.committedOffset (r.committedOffset + total))
      if !committed then return Except.error Code.offsetConflict
      return Except.ok transfer : Service (Except Code FileTransfer)).Safe performAlone (tidyIf id strict)
      (Ended id r d body strict s) (Interrupted id r d body strict s) s' := by
  have hrejected : Rejected id r d strict s s' := rejected_append hle h hstrict
  subst htotal hw
  refine safe_atomic rfl (.inl hrejected) hrejected rfl ?_
  refine safe_call (fun _ => .inl hrejected) fun f s₂ committed _ heq => ?_
  cases f with
  | fail | short =>
    obtain ⟨rfl, rfl⟩ := mk.inj (heq : (s', false) = (s₂, committed))
    exact hrejected
  | ok =>
    simp only [performAlone, perform, h.table] at heq
    cases hcommit : s.table.commitFileTransferOffset id r.committedOffset
        (r.committedOffset + (content body).length) with
    | none =>
      rw [hcommit] at heq
      cases heq
      exact hrejected
    | some t' =>
      rw [hcommit] at heq
      cases heq
      exact ⟨hcommit, h.files⟩

/-- The cut that removes what was written of a body that is too long. -/
lemma safe_overlong (hr : s.table.get id = some r) (hd : s.dataOf id = some d)
    (h : Holds id s (d.take r.committedOffset ++ w) s')
    (hw : w ≠ []) (hstrict : strict → r.committedOffset = r.size ∧ d.length = r.size) :
    (request (.truncate id r.committedOffset) >>= fun _ => return Except.error Code.invalidSize :
      Service (Except Code FileTransfer)).Safe performAlone (tidyIf id strict)
      (Ended id r d body strict s) (Interrupted id r d body strict s) s' := by
  have hlength : (d.take r.committedOffset).length = r.committedOffset := by
    rw [length_take]
    omega
  have hsurplus : strict → s'.surplus id = true := by
    intro hs
    have hlong : r.size < (d.take r.committedOffset ++ w).length := by
      rw [length_append, hlength, (hstrict hs).1]
      exact Nat.lt_add_of_pos_right (length_pos_of_ne_nil hw)
    rw [surplus, h.table, hr, any_some, dataOf_of_files hd h.files, any_some, Bool.and_eq_true,
      decide_eq_true_eq, decide_eq_true_eq]
    exact ⟨(hstrict hs).1, hlong⟩
  have hrejected : ¬strict → Rejected id r d strict s s' := fun hs =>
    rejected_append hle h fun hs' => absurd hs' hs
  refine safe_call (fun hcut => .inl (hrejected fun hs => ?_)) fun f s₁ cut hf heq => ?_
  · exact nomatch (hsurplus hs).symm.trans (hcut hs)
  · have hfail : f ≠ .ok → ¬strict := by
      intro hne hs
      have hallowed := hf hs
      simp [leavesSurplus, hsurplus hs, hne] at hallowed
    cases f with
    | ok =>
      obtain ⟨rfl, rfl⟩ := mk.inj
        (heq : (s'.setData id (truncated · r.committedOffset), true) = (s₁, cut))
      have hcut := h.setData (truncated · r.committedOffset)
      rw [truncated_of_le (by rw [length_append]; omega),
        take_append_of_le_length hlength.ge, take_take, Nat.min_self] at hcut
      refine rejected_append (w := []) hle (by rwa [append_nil]) fun hs => ?_
      exact ⟨(hstrict hs).2.trans (hstrict hs).1.symm, rfl⟩
    | fail | short =>
      obtain ⟨rfl, rfl⟩ := mk.inj (heq : (s', false) = (s₁, cut))
      exact hrejected (hfail nofun)

variable {offset : ℤ}

/-- The whole file is committed, and no read of the body fails together with data. -/
def Whole (r : FileTransfer) (d : List UInt8) (body : List Read) : Prop :=
  r.committedOffset = r.size ∧ d.length = r.size ∧ ∀ read ∈ body, read.data ≠ [] → read.error = false

variable (hstrict : strict → Whole r d body)
include hstrict

/-- `Append` under its lock. -/
lemma safe_appendLocked (hr : s.table.get id = some r) (hd : s.dataOf id = some d)
    (h : Holds id s d s') :
    (appendLocked id offset body).Safe performAlone (tidyIf id strict)
      (Ended id r d body strict s) (Interrupted id r d body strict s) s' := by
  have hsame : Rejected id r d strict s s' := rejected_same h
  have hlength : (d.take r.committedOffset).length = r.committedOffset := by
    rw [length_take]
    omega
  refine safe_atomic rfl (.inl hsame) hsame rfl ?_
  rw [h.table, hr]
  by_cases hcanceled : r.state = .canceled
  · simp only [hcanceled, if_true]
    exact hsame
  simp only [hcanceled, if_false]
  by_cases hoffset : offset ≠ r.committedOffset
  · rw [if_pos hoffset]
    exact hsame
  rw [if_neg hoffset]
  refine safe_call (fun _ => .inl hsame) fun f s₁ opened _ heq => ?_
  obtain rfl : s' = s₁ := by cases f <;> exact congrArg fst heq
  rcases opened with _ | _
  · exact hsame
  refine safe_atomic rfl (.inl hsame) hsame rfl ?_
  have hcut := h.setData (truncated · r.committedOffset)
  rw [truncated_of_le hle] at hcut
  have hcopy : strict → s.full id = true ∧ r.size - r.committedOffset + 1 ≤ 1 ∧
      ∀ read ∈ body, read.data ≠ [] → read.error = false := by
    intro hs
    obtain ⟨hfull, -, hbody⟩ := hstrict hs
    exact ⟨by simp [full, hr, hfull], by omega, hbody⟩
  refine Prog.safe_bind.mpr (Prog.Safe.mono (safe_copy hcut hlength hcopy) ?_ ?_)
  · rintro result s₂ ⟨w, hw, hsome, hnone⟩
    have hstrict' : strict → w = [] → d.length = r.committedOffset ∧ w = [] := fun hs hnil =>
      ⟨(hstrict hs).2.1.trans (hstrict hs).1.symm, hnil⟩
    rcases result with _ | total
    · exact rejected_append hle hw fun hs => hstrict' hs (hnone rfl hs)
    obtain ⟨htotal, hbytes⟩ := hsome total rfl
    rw [Nat.zero_add] at htotal
    by_cases hlong : r.size - r.committedOffset < total
    · simp only [hlong, if_true]
      refine safe_overlong hle hr hd hw (fun hnil => ?_) fun hs => ⟨(hstrict hs).1, (hstrict hs).2.1⟩
      rw [hnil] at htotal
      simp only [length_nil] at htotal
      omega
    · simp only [hlong, if_false]
      have hwhole : w = content body := by
        rw [hbytes]
        apply take_of_length_le
        rw [hbytes, length_take] at htotal
        omega
      refine safe_commit hle hw htotal hwhole fun hs => hstrict' hs ?_
      apply eq_nil_of_length_eq_zero
      have hfull := (hstrict hs).1
      omega
  · rintro s₂ ⟨w, hw, hnil⟩
    exact .inl (rejected_append hle hw fun hs =>
      ⟨(hstrict hs).2.1.trans (hstrict hs).1.symm, hnil hs⟩)

/-- `Append` ends in one of the ways that `Ended` lists. -/
lemma safe_append (hr : s.table.get id = some r) (hd : s.dataOf id = some d) :
    (append id offset body).Safe performAlone (tidyIf id strict)
      (Ended id r d body strict s) (Interrupted id r d body strict s) s := by
  refine safe_call (fun _ => .inl (rejected_same (.refl hd))) fun f s₁ _ _ heq => ?_
  have hlocked : Holds id s d s₁ := by
    simp only [performAlone, perform] at heq
    split_ifs at heq
    · obtain ⟨rfl, -⟩ := mk.inj heq
      exact (Holds.refl hd).of_locks _
    · obtain ⟨rfl, -⟩ := mk.inj heq
      exact .refl hd
  refine Prog.safe_bind.mpr ((safe_appendLocked hle hstrict hr hd hlocked).mono ?_ fun _ h => h)
  intro result s₂ hended
  refine safe_call (fun _ => hended.interrupted) fun f s₃ _ _ heq => ?_
  obtain rfl : { s₂ with locks := s₂.locks.erase (.transfer id) } = s₃ := by
    cases f <;> exact congrArg fst heq
  cases result with
  | ok => exact { hended with }
  | error =>
    obtain ⟨d', hd', htake, heq'⟩ := hended
    exact ⟨d', hd'.of_locks _, htake, heq'⟩

end

/-! ### The committed bytes -/

/-- The committed bytes of the file are those of the accepted bodies. -/
def Kept (id : String) (u : Upload) : Prop :=
  ∃ r d, u.state.table.get id = some r ∧ u.state.dataOf id = some d ∧
    r.committedOffset = u.accepted.length ∧ d.take r.committedOffset = u.accepted

lemma le_length_of_take {d accepted : List UInt8} (hn : n = accepted.length) (h : d.take n = accepted) :
    n ≤ d.length := by
  rw [← h, length_take] at hn
  omega

variable {id : String} {u : Upload} {call : AppendCall}

variable {s s' : State} {r : FileTransfer} {d : List UInt8}

/-- The row after a commit. -/
lemma get_of_committed {bytes : List UInt8} (hr : s.table.get id = some r)
    (h : Committed id r d bytes s s') :
    s'.table.get id = some { r with
      committedOffset := r.committedOffset + bytes.length
      state := .uploading } ∧ r.committedOffset + bytes.length ≤ r.size := by
  obtain ⟨r', hr', -, hle, hnext⟩ := get_commit h.table
  cases hr.symm.trans hr'
  exact ⟨hnext, hle⟩

lemma offsetOf_eq (h : s.table.get id = some r) : s.offsetOf id = r.committedOffset := by
  rw [offsetOf, h]
  rfl

variable {strict : Prop}

/-- What one call of `Append` leaves. -/
lemma appendOnce_ends (hr : s.table.get id = some r) (hd : s.dataOf id = some d)
    (hle : r.committedOffset ≤ d.length) (hstrict : strict → Whole r d call.body)
    (hobeys : (append id call.offset call.body).Obeys performAlone (tidyIf id strict) s call.fates) :
    match (appendOnce id s call).2 with
    | some result => Ended id r d call.body strict s result (appendOnce id s call).1
    | none => Interrupted id r d call.body strict s (appendOnce id s call).1 := by
  have hend := (safe_append hle hstrict hr hd).exec hobeys
  unfold appendOnce
  generalize (append id call.offset call.body).exec performAlone s call.fates = ending at hend ⊢
  cases ending with
  | finished => exact hend
  | cut =>
    obtain ⟨d', hd', hrest⟩ | hcommitted := hend
    · exact .inl ⟨d', ⟨hd'.table, hd'.files⟩, hrest⟩
    · exact .inr ⟨hcommitted.table, hcommitted.files⟩

/-- One `Append` keeps the committed bytes and moves the offset by the body that it accepts, if any. -/
structure Advanced (id : String) (u : Upload) (call : AppendCall) : Prop where
  kept : Kept id (u.append id call)
  offset : u.state.offsetOf id ≤ (u.append id call).state.offsetOf id
  ok : ∀ transfer, (appendOnce id u.state call).2 = some (.ok transfer) →
    (u.append id call).accepted = u.accepted ++ content call.body
  error : ∀ e, (appendOnce id u.state call).2 = some (.error e) →
    (u.append id call).accepted = u.accepted ∧ (u.append id call).state.table = u.state.table

section
variable (hr : u.state.table.get id = some r) (hd : u.state.dataOf id = some d)
  (hoffset : r.committedOffset = u.accepted.length) (htake : d.take r.committedOffset = u.accepted)
include hr hd hoffset htake

/-- A rejected call keeps the accepted bytes. -/
lemma Kept.rejected (h : Rejected id r d strict u.state (appendOnce id u.state call).1) :
    Kept id (u.append id call) ∧ u.state.offsetOf id ≤ (u.append id call).state.offsetOf id ∧
      (u.append id call).accepted = u.accepted ∧ (u.append id call).state.table = u.state.table := by
  obtain ⟨d', hd', htake', -⟩ := h
  have hsame : (u.append id call).accepted = u.accepted := by
    simp only [Upload.append, offsetOf, hd'.table, if_true]
  refine ⟨⟨r, d', ?_, dataOf_of_files hd hd'.files, ?_, ?_⟩, ?_, hsame, hd'.table⟩
  · exact (congrArg (fun t => t.get id) hd'.table).trans hr
  · rw [hsame, hoffset]
  · rw [hsame, htake', htake]
  · simp only [offsetOf, Upload.append, hd'.table, le_refl]

/-- A committed call adds its bytes to the accepted ones. -/
lemma Kept.committed (h : Committed id r d (content call.body) u.state (appendOnce id u.state call).1) :
    Kept id (u.append id call) ∧ u.state.offsetOf id ≤ (u.append id call).state.offsetOf id ∧
      (u.append id call).accepted = u.accepted ++ content call.body := by
  obtain ⟨hr', -⟩ := get_of_committed hr h
  have hoffset' : (appendOnce id u.state call).1.offsetOf id =
      r.committedOffset + (content call.body).length := offsetOf_eq hr'
  have haccepted : (u.append id call).accepted = u.accepted ++ content call.body := by
    simp only [Upload.append]
    split_ifs with hsame
    · rw [hoffset', offsetOf_eq hr] at hsame
      rw [eq_nil_of_length_eq_zero (l := content call.body) (by omega), append_nil]
    · rfl
  refine ⟨⟨_, _, hr', dataOf_of_files hd h.files, ?_, ?_⟩, ?_, haccepted⟩
  · rw [haccepted, length_append, hoffset]
  · rw [haccepted, htake]
    apply take_of_length_le
    rw [length_append, hoffset]
  · rw [offsetOf_eq hr]
    exact hoffset' ▸ Nat.le_add_right _ _

end

/-- Every call keeps the accepted bytes. -/
lemma Kept.append (h : Kept id u) (call : AppendCall) : Advanced id u call := by
  obtain ⟨r, d, hr, hd, hoffset, htake⟩ := h
  have hobeys : (Transfer.append id call.offset call.body).Obeys performAlone (tidyIf id False) u.state
      call.fates := .of_forall (fun _ _ _ h => h.elim) (fun _ h => h.elim) _ _ _
  have hends := appendOnce_ends hr hd (le_length_of_take hoffset htake) False.elim hobeys
  have hrejected : Rejected id r d False u.state (appendOnce id u.state call).1 → _ :=
    Kept.rejected hr hd hoffset htake
  have hcommitted : Committed id r d (content call.body) u.state (appendOnce id u.state call).1 → _ :=
    Kept.committed hr hd hoffset htake
  rcases hresult : (appendOnce id u.state call).2 with _ | result
  · rw [hresult] at hends
    obtain hrej | hcom := hends
    · obtain ⟨hkept, hle, -⟩ := hrejected hrej
      exact ⟨hkept, hle, by simp [hresult], by simp [hresult]⟩
    · obtain ⟨hkept, hle, -⟩ := hcommitted hcom
      exact ⟨hkept, hle, by simp [hresult], by simp [hresult]⟩
  rw [hresult] at hends
  cases result with
  | error =>
    obtain ⟨hkept, hle, hsame⟩ := hrejected hends
    exact ⟨hkept, hle, by simp [hresult], fun _ _ => hsame⟩
  | ok =>
    obtain ⟨hkept, hle, haccepted⟩ := hcommitted hends
    exact ⟨hkept, hle, fun _ _ => haccepted, by simp [hresult]⟩

/-- Every sequence of `Append` calls keeps the committed bytes, and the offset never decreases. -/
lemma Kept.appendAll (h : Kept id u) (calls : List AppendCall) :
    Kept id (u.appendAll id calls) ∧ u.state.offsetOf id ≤ (u.appendAll id calls).state.offsetOf id := by
  induction calls generalizing u with
  | nil => exact ⟨h, le_rfl⟩
  | cons call calls ih =>
    obtain ⟨hkept, hle⟩ := ih (h.append call).kept
    exact ⟨hkept, (h.append call).offset.trans hle⟩

lemma Fresh.kept (h : Fresh id s) : Kept id (.start s) := by
  obtain ⟨r, hr, -, hzero⟩ := h.row
  exact ⟨r, [], hr, by rw [State.dataOf, Upload.start, h.file]; rfl, hzero, take_nil⟩

end Paperboat.Transfer

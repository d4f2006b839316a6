import Paperboat.Lib.FinMap

/-!
# The recipient of a transfer

The model of `internal/filetransfer/writers.go`: which of the clients that are attached to a session
receives a transfer. A time is a number of nanoseconds since the zero time, and the clock is never at
the zero time.
-/

namespace Paperboat.Transfer

open List FinMap

/-- `writerAttachment`; the last input is zero if there was none. -/
structure WriterAttachment where
  clientID : String
  lastInput : ℕ
  deriving DecidableEq

/-- `WriterRegistry.sessions`. -/
abbrev WriterRegistry : Type := FinMap String (FinMap String WriterAttachment)

/-- An order of the entries of a map in which a loop visits them. -/
structure Iteration where
  order : ∀ {α : Type}, List α → List α
  perm : ∀ {α : Type} (l : List α), (order l).Perm l

/-- The calls that change the registry, with the time of the clock for an input. -/
inductive WriterCall where
  | attach (sessionID attachmentID clientID : String)
  | input (sessionID attachmentID clientID : String) (time : ℕ) (now : ℕ+)
  | detach (sessionID attachmentID : String)
  deriving DecidableEq

/-- The time that `Input` keeps: that of the clock if it is called with the zero time. -/
def inputTime (time : ℕ) (now : ℕ+) : ℕ+ := if h : 0 < time then ⟨time, h⟩ else now

namespace WriterRegistry

variable (r : WriterRegistry)

/-- The attachments of a session. -/
def attachments (sessionID : String) : FinMap String WriterAttachment :=
  (r.lookup sessionID).getD ∅

/-- `Attach`, `Input` and `Detach`. -/
def apply : WriterCall → WriterRegistry
  | .attach sessionID attachmentID clientID =>
    if sessionID = "" ∨ attachmentID = "" ∨ clientID = "" then r
    else r.insert sessionID ((r.attachments sessionID).insert attachmentID ⟨clientID, 0⟩)
  | .input sessionID attachmentID clientID time now =>
    match (r.attachments sessionID).lookup attachmentID with
    | none => r
    | some current =>
      if current.clientID ≠ clientID then r
      else r.insert sessionID ((r.attachments sessionID).insert attachmentID ⟨clientID, inputTime time now⟩)
  | .detach sessionID attachmentID =>
    let attachments := (r.attachments sessionID).erase attachmentID
    if attachments.entries = [] then r.erase sessionID
    -- a session that is not there has no attachments
    else r.insert sessionID attachments

/-- The registry after calls. -/
def after (calls : List WriterCall) : WriterRegistry := calls.foldl apply ∅

/-- The body of the first loop of `Recipient`. -/
def gatherOne (clients : FinMap String ℕ) (x : WriterAttachment) : FinMap String ℕ :=
  if (clients.lookup x.clientID).getD 0 < x.lastInput then clients.insert x.clientID x.lastInput
  else if (clients.lookup x.clientID).isNone then clients.insert x.clientID 0
  else clients

/-- The first loop of `Recipient`. -/
def gather (l : List WriterAttachment) : FinMap String ℕ := l.foldl gatherOne ∅

/-- The body of the second loop of `Recipient`, with the client selected and the latest input. -/
def selectOne (s : String × ℕ) (x : Sigma fun _ : String => ℕ) : String × ℕ :=
  if x.2 ≠ 0 ∧ (s.1 = "" ∨ s.2 < x.2 ∨ x.2 = s.2 ∧ x.1 < s.1) then (x.1, x.2) else s

/-- The second loop of `Recipient`. -/
def select (l : List (Sigma fun _ : String => ℕ)) : String × ℕ := l.foldl selectOne ("", 0)

/-- `Recipient`, with the orders of its loops: `none` is `ErrNoActiveWriter`. -/
def recipient (first second third : Iteration) (sessionID : String) : Option String :=
  let clients := (gather (first.order ((r.attachments sessionID).entries.map (·.2)))).entries
  let selected := (select (second.order clients)).1
  if selected ≠ "" then some selected
  else if clients.length = 1 then (third.order clients).head?.map (·.1)
  else none

end WriterRegistry

/-! ### What the calls mean for one attachment -/

/-- What a call does to one attachment. -/
def WriterCall.effect (sessionID attachmentID : String) (x : Option WriterAttachment) :
    WriterCall → Option WriterAttachment
  | .attach s a c =>
    if s = sessionID ∧ a = attachmentID ∧ s ≠ "" ∧ a ≠ "" ∧ c ≠ "" then some ⟨c, 0⟩ else x
  | .input s a c time now =>
    if s = sessionID ∧ a = attachmentID ∧ x.map (·.clientID) = some c then some ⟨c, inputTime time now⟩ else x
  | .detach s a => if s = sessionID ∧ a = attachmentID then none else x

/-- The attachment after calls, if it is there. -/
def writerAfter (calls : List WriterCall) (sessionID attachmentID : String) : Option WriterAttachment :=
  calls.foldl (WriterCall.effect sessionID attachmentID) none

/-- The client has an attachment with the latest input, no smaller client has one, and if nobody has
given input, no other client is attached. -/
def IsRecipient (writers : String → Option WriterAttachment) (client : String) : Prop :=
  ∃ a t, writers a = some ⟨client, t⟩ ∧
    (∀ a' x, writers a' = some x → x.lastInput < t ∨ x.lastInput = t ∧ client ≤ x.clientID) ∧
    (t = 0 → ∀ a' x, writers a' = some x → x.clientID = client)

lemma IsRecipient.eq_iff {writers : String → Option WriterAttachment} {c c' : String}
    (h : IsRecipient writers c) : some c = some c' ↔ IsRecipient writers c' := by
  refine ⟨fun heq => Option.some.inj heq ▸ h, fun h' => ?_⟩
  obtain ⟨a, t, ha, hmax, -⟩ := h
  obtain ⟨a', t', ha', hmax', -⟩ := h'
  have h₁ := hmax a' _ ha'
  have h₂ := hmax' a _ ha
  grind

namespace WriterRegistry

variable {r : WriterRegistry} {sessionID attachmentID : String}

lemma attachments_insert (s : String) (m : FinMap String WriterAttachment) :
    attachments (r.insert s m) sessionID = if sessionID = s then m else r.attachments sessionID := by
  unfold attachments
  rw [lookup_insert_eq]
  split <;> rfl

lemma attachments_erase {s : String} {m : FinMap String WriterAttachment} (h : m.entries = []) :
    attachments (r.erase s) sessionID = if sessionID = s then m else r.attachments sessionID := by
  unfold attachments
  rw [lookup_erase_eq]
  split
  · exact (AList.ext h).symm
  · rfl

/-- One attachment after a call. -/
lemma lookup_apply (call : WriterCall) : ((r.apply call).attachments sessionID).lookup attachmentID =
    call.effect sessionID attachmentID ((r.attachments sessionID).lookup attachmentID) := by
  cases call with
  | attach s a c =>
    simp only [apply, WriterCall.effect]
    grind [attachments_insert, lookup_insert_eq]
  | input s a c time now =>
    simp only [apply, WriterCall.effect]
    grind [attachments_insert, lookup_insert_eq]
  | detach s a =>
    simp only [apply, WriterCall.effect]
    split
    · next hempty => grind [attachments_erase hempty, lookup_erase_eq]
    · grind [attachments_insert, lookup_erase_eq]

lemma lookup_after (calls : List WriterCall) : ((after calls).attachments sessionID).lookup attachmentID =
    writerAfter calls sessionID attachmentID := by
  induction calls using List.reverseRecOn with
  | nil => rfl
  | append_singleton calls call ih =>
    rw [after, foldl_concat, writerAfter, foldl_concat, lookup_apply]
    exact congrArg (WriterCall.effect _ _ · call) ih

lemma client_ne_empty (calls : List WriterCall) {x : WriterAttachment}
    (h : writerAfter calls sessionID attachmentID = some x) : x.clientID ≠ "" := by
  induction calls using List.reverseRecOn generalizing x with
  | nil => cases h
  | append_singleton calls call ih =>
    rw [writerAfter, foldl_concat] at h
    change WriterCall.effect _ _ (writerAfter calls sessionID attachmentID) call = _ at h
    cases hw : writerAfter calls sessionID attachmentID <;> cases call <;> grind [WriterCall.effect]

lemma max?_concat (l : List ℕ) (n : ℕ) : (l ++ [n]).max? = some (max (l.max?.getD 0) n) := by
  cases l <;> simp [List.max?, foldl_append]

lemma lookup_gatherOne (m : FinMap String ℕ) (x : WriterAttachment) (c : String) :
    (gatherOne m x).lookup c =
      if x.clientID = c then some (max ((m.lookup c).getD 0) x.lastInput) else m.lookup c := by
  unfold gatherOne
  by_cases hc : x.clientID = c
  · subst hc
    cases h : m.lookup x.clientID <;> grind [lookup_insert_eq]
  · grind [lookup_insert_eq]

/-- A client is gathered with the latest input of its attachments. -/
lemma lookup_gather (l : List WriterAttachment) (c : String) :
    (gather l).lookup c = ((l.filter (·.clientID = c)).map (·.lastInput)).max? := by
  induction l using List.reverseRecOn with
  | nil => rfl
  | append_singleton l x ih =>
    rw [gather, foldl_concat, lookup_gatherOne]
    change (if _ then some (max (((gather l).lookup c).getD 0) _) else (gather l).lookup c) = _
    rw [ih, filter_append, map_append]
    by_cases hc : x.clientID = c <;> simp [hc, max?_concat]

lemma select_spec {l : List (Sigma fun _ : String => ℕ)} (hl : ∀ x ∈ l, x.1 ≠ "") :
    ((select l).1 = "" → ∀ x ∈ l, x.2 = 0) ∧ ((select l).1 ≠ "" →
      ⟨(select l).1, (select l).2⟩ ∈ l ∧ (select l).2 ≠ 0 ∧
      ∀ x ∈ l, x.2 < (select l).2 ∨ x.2 = (select l).2 ∧ (select l).1 ≤ x.1) := by
  induction l using List.reverseRecOn with
  | nil => simp [select]
  | append_singleton l x ih =>
    obtain ⟨hempty, hselected⟩ := ih fun y hy => hl y (mem_append_left _ hy)
    have hx := hl x (by simp)
    have hstep : select (l ++ [x]) = selectOne (select l) x := foldl_concat ..
    simp only [hstep, forall_mem_append, forall_mem_singleton]
    generalize select l = s at hempty hselected
    unfold selectOne
    split
    · next h =>
      refine ⟨fun hno => absurd hno hx, fun _ => ⟨by simp, h.1, fun y hy => ?_, by simp⟩⟩
      by_cases hs : s.1 = ""
      · have := hempty hs y hy
        grind
      · have := (hselected hs).2.2 y hy
        grind
    · next h => grind

/-- What the first loop gathers, in any order. -/
lemma gather_after (calls : List WriterCall) (i : Iteration) (sessionID : String) :
    let m := gather (i.order (((after calls).attachments sessionID).entries.map (·.2)))
    (∀ c t, ⟨c, t⟩ ∈ m.entries → ∃ a, writerAfter calls sessionID a = some ⟨c, t⟩) ∧
      ∀ a x, writerAfter calls sessionID a = some x → ∃ t, ⟨x.clientID, t⟩ ∈ m.entries ∧ x.lastInput ≤ t := by
  have hmem : ∀ x, x ∈ i.order (((after calls).attachments sessionID).entries.map (·.2)) ↔
      ∃ a, writerAfter calls sessionID a = some x := by
    simp only [(i.perm _).mem_iff, mem_map, Sigma.exists, ← lookup_eq_some_iff_mem, lookup_after,
      exists_eq_right, implies_true]
  generalize i.order (((after calls).attachments sessionID).entries.map (·.2)) = l at hmem
  simp only [← lookup_eq_some_iff_mem, lookup_gather]
  refine ⟨fun c t h => ?_, fun a x hx => ?_⟩
  · obtain ⟨x, hx, rfl⟩ := mem_map.mp (max?_mem h)
    obtain ⟨hx, hc⟩ := mem_filter.mp hx
    exact of_decide_eq_true hc ▸ (hmem x).mp hx
  · have hlast : x.lastInput ∈ (l.filter (·.clientID = x.clientID)).map (·.lastInput) :=
      mem_map_of_mem (mem_filter.mpr ⟨(hmem x).mpr ⟨a, hx⟩, decide_eq_true rfl⟩)
    obtain ⟨t, ht⟩ := Option.isSome_iff_exists.mp (isSome_max?_of_mem hlast)
    exact ⟨t, ht, (max?_eq_some_iff.mp ht).2 _ hlast⟩

/-- The recipient after any calls, whatever the orders of the loops. -/
theorem recipient_iff (calls : List WriterCall) (first second third : Iteration) (sessionID client : String) :
    (after calls).recipient first second third sessionID = some client ↔
      IsRecipient (writerAfter calls sessionID) client := by
  obtain ⟨hof, hle⟩ := gather_after calls first sessionID
  unfold recipient
  simp only at hof hle ⊢
  generalize gather (first.order (((after calls).attachments sessionID).entries.map (·.2))) = m at hof hle
  have hspec := @select_spec (second.order m.entries) fun x hx => by
    obtain ⟨a, hw⟩ := hof x.1 x.2 ((second.perm _).mem_iff.mp hx)
    exact client_ne_empty calls hw
  simp only [(second.perm _).mem_iff] at hspec
  obtain ⟨hempty, hselected⟩ := hspec
  split
  · next hs =>
    obtain ⟨hmem, hzero, hmax⟩ := hselected hs
    obtain ⟨a, ha⟩ := hof _ _ hmem
    refine IsRecipient.eq_iff ⟨a, _, ha, fun a' x hx => ?_, fun h => absurd h hzero⟩
    obtain ⟨t, ht, hlast⟩ := hle a' x hx
    have := hmax _ ht
    grind
  · next hs =>
    have hzero := hempty (not_not.mp hs)
    split
    · next hlength =>
      obtain ⟨⟨c, t⟩, hc⟩ := length_eq_one_iff.mp hlength
      rw [hc, perm_singleton.mp (third.perm _)]
      rw [hc] at hof hle hzero
      obtain ⟨a, ha⟩ := hof c t mem_cons_self
      refine IsRecipient.eq_iff ⟨a, t, ha, fun a' x hx => ?_, fun _ a' x hx => ?_⟩ <;>
        obtain ⟨t', ht', hlast⟩ := hle a' x hx
      · cases mem_singleton.mp ht'
        have := hzero _ ht'
        grind
      · exact congrArg Sigma.fst (mem_singleton.mp ht')
    · next hlength =>
      refine ⟨nofun, fun ⟨a, t, ha, _, hall⟩ => absurd ?_ hlength⟩
      obtain ⟨t', ht', hlast⟩ := hle a _ ha
      have hkeys : ∀ c ∈ m.keys, c = client := by
        intro c hc
        obtain ⟨x, hx, rfl⟩ := mem_map.mp hc
        obtain ⟨a', ha'⟩ := hof x.1 x.2 hx
        exact hall (Nat.le_zero.mp (hlast.trans_eq (hzero _ ht'))) a' _ ha'
      have hnodup := m.keys_nodup
      rw [eq_replicate_of_mem hkeys, nodup_replicate] at hnodup
      have hlength : m.keys.length = m.entries.length := length_map ..
      have := length_pos_of_mem ht'
      omega

end WriterRegistry

end Paperboat.Transfer

import Paperboat.Server.Streams

/-!
# Attachments without a stream

An attachment is registered inside the function of a request, and the stream that will detach it is made
by `OpenStream`. A request that ends in between leaves its attachment in the fan-out, and the action
`replay`, for which `OpenStream` has no stream, always ends there. `Owned` says that every attached
cursor belongs to exactly one request that is still handled or stream.
-/

namespace Paperboat.Server.Streams

open Option FinMap

open Session.Fanout (AttachmentCursor)
open Session.Delivery (Config Terminal)

namespace State

/-- Every attached cursor belongs to exactly one stream, or to one request that is still handled. -/
def Owned (s : State) : Prop :=
  ∀ id c, s.cursor id = some c → c.state = .attached →
    ∃ j, s.numbers.lookup id = some j ∧ ∃! p, s.owner p = some ⟨id, j⟩

/-- The attachment of the request is still attached. -/
def strands (s : State) (n : ℕ) : Bool :=
  (s.owner (.inl n)).any fun x =>
    (s.cursor x.attachmentID).any (fun c => c.state = .attached) &&
      s.numbers.lookup x.attachmentID = some x.number

/-- No request ends without a stream while its attachment is attached. -/
def tended (s : State) : Event → Bool
  | .leave n _ => !s.strands n
  | _ => true

/-- The attach in progress is that of the request inside of `attachLocked`, which has an attachment as soon
as it is registered. -/
def Linked (s : State) : Prop :=
  ∀ x n request, s.terminal.attaching = some x → s.calling = some (n, request) →
    (s.owner (.inl n)).map Attachment.attachmentID = if x.registered then some x.attachmentID else none

/-- No number is given twice. -/
structure Distinct (s : State) : Prop where
  below : ∀ p x, s.owner p = some x → x.number < s.count
  apart : ∀ p q x y, s.owner p = some x → s.owner q = some y → x.number = y.number → p = q

/-- Every attached cursor belongs to a request or a stream. -/
def Held (s : State) : Prop :=
  ∀ id c, s.cursor id = some c → c.state = .attached → ∃ j, s.numbers.lookup id = some j ∧ s.Holds ⟨id, j⟩

/-- The invariant. -/
structure OwnedOK (s : State) : Prop where
  linked : s.Linked
  distinct : s.Distinct
  held : s.Held

variable {config : Config} {s s' : State} {a : Event}

lemma OwnedOK.owned (h : s.OwnedOK) : s.Owned := by
  intro id c hc hstate
  obtain ⟨j, hj, p, hp⟩ := h.held id c hc hstate
  exact ⟨j, hj, p, hp, fun q hq => h.distinct.apart q p _ _ hq hp rfl⟩

/-! ### The attach in progress -/

lemma Linked.step (h : s.Linked) (heffect : Effect s a s') : s'.Linked := by
  have hsame : ∀ {s'' : State}, s''.terminal.attaching = s.terminal.attaching →
      s''.calling = s.calling →
      (∀ n request, s.calling = some (n, request) → s''.owner (.inl n) = s.owner (.inl n)) →
      s''.Linked := by
    intro s'' hattaching hcalling howner x n request hx hn
    rw [hcalling] at hn
    rw [howner n request hn]
    exact h x n request (hattaching ▸ hx) hn
  -- the opening of another request goes
  have hother : ∀ {n : ℕ} (streams), s.isCalling n = false → ∀ n' request,
      s.calling = some (n', request) →
      owners (s.openings.erase n) streams (.inl n') = s.owner (.inl n') := by
    intro n streams hn n' request hcall
    have hne : n' ≠ n := by
      rintro rfl
      rw [isCalling, hcall] at hn
      simp at hn
    rw [owners_erase_opening, if_neg (Sum.inl_injective.ne hne)]
    rfl
  cases heffect with
  | session hshrinks hcarries =>
    intro x' n request hx' hn
    cases hcarries with
    | none hnone => exact nomatch hnone.symm.trans hx'
    | same hattaching hcalling =>
      obtain ⟨x, hx, hid, hregistered⟩ := hattaching x' hx'
      rw [hid, hregistered]
      exact h x n request hx (hcalling.symm.trans hn)
    | fresh n' request' hcalling hregistered hopening =>
      obtain ⟨rfl, -⟩ := Prod.mk.inj (some.inj (hcalling.symm.trans hn))
      have hnone : s.owner (.inl n') = none := by rw [owner, owners, hopening, map_none]
      rw [hregistered x' hx']
      exact congrArg _ hnone
  | @register n request x t c hcalling hattaching hregistered hattaching' =>
    intro x' n' request' hx' hn'
    cases hattaching'.symm.trans hx'
    obtain ⟨rfl, -⟩ := Prod.mk.inj (some.inj (hcalling.symm.trans hn'))
    rw [owner, owners_insert_opening, if_pos rfl]
    rfl
  | giveUp hcalling hattaching hregistered hshrinks hattaching' =>
    intro x n request hx
    exact nomatch hattaching'.symm.trans hx
  | openStream ho hcalling | leave ho hcalling => exact hsame rfl rfl (hother _ hcalling)
  | next hk houtside | close hk houtside =>
    rw [touch_cases]
    exact hsame houtside.attaching rfl fun _ _ _ => rfl
  | status =>
    rw [touch_cases]
    exact hsame rfl rfl fun _ _ _ => rfl

/-! ### Numbers -/

lemma count_of_effect (heffect : Effect s a s') : s.count ≤ s'.count := by
  cases heffect with
  | register => exact Nat.le_succ _
  | session | giveUp | openStream | leave => exact le_rfl
  | next | close =>
    rw [touch_cases]
    exact le_rfl
  | status => rw [touch_cases]

/-- The numbers stay apart if everybody has what they had, or what somebody had who has it no more. -/
lemma Distinct.of_owner (h : s.Distinct) (hcount : s.count ≤ s'.count) (from' : ℕ ⊕ ℕ → ℕ ⊕ ℕ)
    (howner : ∀ p x, s'.owner p = some x → s.owner (from' p) = some x)
    (hinj : ∀ p q x y, s'.owner p = some x → s'.owner q = some y → from' p = from' q → p = q) :
    s'.Distinct where
  below p x hp := (h.below _ x (howner p x hp)).trans_le hcount
  apart p q x y hp hq hxy := hinj p q x y hp hq (h.apart _ _ x y (howner p x hp) (howner q y hq) hxy)

lemma Distinct.step (h : s.Distinct) (heffect : Effect s a s') : s'.Distinct := by
  have hcount := count_of_effect heffect
  cases passes_of_effect heffect with
  | keeps howner => exact h.of_owner hcount id (fun p x hp => howner p ▸ hp) fun _ _ _ _ _ _ => id
  | loses q howner =>
    refine h.of_owner hcount id (fun p x hp => ?_) fun _ _ _ _ _ _ => id
    rw [howner] at hp
    split at hp
    · cases hp
    · exact hp
  | registers n y hy howner =>
    have hnew : ∀ p x, s'.owner p = some x →
        p = .inl n ∧ x.number = s.count ∨ s.owner p = some x ∧ x.number < s.count := by
      intro p x hp
      rw [howner] at hp
      split at hp
      · next heq => exact .inl ⟨heq, by rw [← some.inj hp]⟩
      · exact .inr ⟨hp, h.below p x hp⟩
    refine ⟨fun p x hp => ?_, fun p q x y hp hq hxy => ?_⟩
    · rcases hnew p x hp with ⟨-, hx⟩ | ⟨-, hx⟩ <;> rw [hy.count] <;> omega
    · rcases hnew p x hp with ⟨rfl, hx⟩ | ⟨hp, hx⟩ <;> rcases hnew q y hq with ⟨rfl, hy⟩ | ⟨hq, hy⟩
      · rfl
      · omega
      · omega
      · exact h.apart p q x y hp hq hxy
  | opens n k hk howner =>
    -- the stream has what the request had, and nobody had the stream's place
    refine h.of_owner hcount (fun p => if p = .inr k then .inl n else p) (fun p x hp => ?_) ?_
    · rw [howner] at hp
      split
      · next heq => rwa [if_pos heq] at hp
      rename_i hne
      rw [if_neg hne] at hp
      split at hp
      · cases hp
      · exact hp
    · intro p q x y hp hq hpq
      have hgone : s'.owner (.inl n) = none := by rw [howner, if_neg Sum.inl_ne_inr, if_pos rfl]
      split at hpq <;> split at hpq
      · next hp' hq' => rw [hp', hq']
      · next hp' hq' => rw [← hpq, hgone] at hq; cases hq
      · next hp' hq' => rw [hpq, hgone] at hp; cases hp
      · exact hpq

/-! ### Owners -/

variable {id : String}

/-- An attached cursor that the session keeps has the owner that it had. -/
lemma Held.of_shrinks (h : s.Held) {t : Terminal} (hshrinks : Shrinks s.terminal.fanout t.fanout)
    {c' : AttachmentCursor} (hc' : t.fanout.attachments.lookup id = some c')
    (hstate : c'.state = .attached) :
    ∃ j, (s.settle t).numbers.lookup id = some j ∧ ∃ p, s.owner p = some ⟨id, j⟩ := by
  obtain ⟨c, hc, hattached⟩ := hshrinks id c' hc'
  obtain ⟨j, hj, hp⟩ := h id c hc (hattached hstate)
  have hsome : (t.fanout.attachments.lookup id).isSome = true := isSome_of_eq_some hc'
  exact ⟨j, by rw [lookup_settle, if_pos hsome, hj], hp⟩

variable {n : ℕ}

lemma OwnedOK.held_of_effect (h : s.OwnedOK) (htended : s.tended a = true) (heffect : Effect s a s') :
    s'.Held := by
  intro id c hc hstate
  cases heffect with
  | session hshrinks => exact h.held.of_shrinks hshrinks hc hstate
  | @register n request x t c' hcalling hattaching hregistered hattaching' hfree hinsert =>
    by_cases hid : id = x.attachmentID
    · refine ⟨s.count, ?_, .inl n, ?_⟩
      · simp only [lookup_insert_eq, if_pos hid]
      · rw [owner, owners_insert_opening, if_pos rfl, hid]
    · rw [cursor, hinsert, lookup_insert_eq, if_neg hid] at hc
      obtain ⟨j, hj, p, hp⟩ := h.held id c hc hstate
      refine ⟨j, ?_, p, ?_⟩
      · simp only [lookup_insert_eq, if_neg hid, hj]
      · -- the request had no attachment before
        have hfresh := h.linked x n request hattaching hcalling
        rw [hregistered] at hfresh
        have hne : p ≠ .inl n := by
          rintro rfl
          rw [hp] at hfresh
          cases hfresh
        rw [owner, owners_insert_opening, if_neg hne]
        exact hp
  | @giveUp n request x t hcalling hattaching hregistered hshrinks hattaching' hgone =>
    obtain ⟨j, hj, p, hp⟩ := h.held.of_shrinks hshrinks hc hstate
    refine ⟨j, hj, p, ?_⟩
    have hmine := h.linked x n request hattaching hcalling
    rw [hregistered] at hmine
    have hne : p ≠ .inl n := by
      rintro rfl
      rw [hp] at hmine
      obtain rfl : id = x.attachmentID := some.inj hmine
      exact hgone c hc hstate
    rw [owner, owners_erase_opening, if_neg hne]
    exact hp
  | @openStream n k o ho hcalling hk =>
    obtain ⟨j, hj, p, hp⟩ := h.held id c hc hstate
    refine ⟨j, hj, if p = .inl n then .inr k else p, ?_⟩
    rw [owner, owners_insert_stream, owners_erase_opening]
    by_cases hn : p = .inl n
    · rw [if_pos hn, if_pos rfl, ← hp, hn, owner, owners, ho, map_some]
    have hne : p ≠ .inr k := by
      rintro rfl
      rw [owner, owners, hk] at hp
      cases hp
    rw [if_neg hn, if_neg hne, if_neg hn]
    exact hp
  | @leave n =>
    obtain ⟨j, hj, p, hp⟩ := h.held id c hc hstate
    refine ⟨j, hj, p, ?_⟩
    have hne : p ≠ .inl n := by
      rintro rfl
      simp [tended, strands, hp, show s.cursor id = some c from hc, hstate, hj] at htended
    rw [owner, owners_erase_opening, if_neg hne]
    exact hp
  | @next k stream phase t hk houtside =>
    obtain ⟨j, hj, p, hp⟩ := h.held.of_shrinks houtside.shrinks hc hstate
    rw [touch_cases]
    exact ⟨j, hj, p, (owner_insert_stream hk phase p).trans hp⟩
  | @status k stream hk =>
    rw [touch_cases] at hc ⊢
    obtain ⟨j, hj, p, hp⟩ := h.held id c hc hstate
    exact ⟨j, hj, p, (owner_insert_stream hk .ended p).trans hp⟩
  | @close k stream t hk houtside hgone =>
    obtain ⟨j, hj, p, hp⟩ := h.held.of_shrinks houtside.shrinks hc hstate
    have hne : p ≠ .inr k := by
      rintro rfl
      rw [owner, owners, hk, map_some] at hp
      obtain rfl : stream.attachment.attachmentID = id := congrArg _ (some.inj hp)
      exact hgone c hc hstate
    rw [touch_cases]
    refine ⟨j, hj, p, ?_⟩
    rw [owner, owners_erase_stream, if_neg hne]
    exact hp

lemma OwnedOK.step (h : s.OwnedOK) (htended : s.tended a = true) (heffect : Effect s a s') : s'.OwnedOK :=
  ⟨h.linked.step heffect, h.distinct.step heffect, h.held_of_effect htended heffect⟩

/-- A request that ends and strands its attachment leaves it without an owner. -/
lemma OwnedOK.not_owned_of_strands (h : s.OwnedOK) {exit : Exit}
    (hstep : s.step config (.leave n exit) = some s') (hstrands : s.strands n = true) : ¬ s'.Owned := by
  intro howned
  obtain ⟨o, ho, h'⟩ := bind_eq_some_iff.mp hstep
  split at h'
  · cases h'
  cases h'
  have hn : s.owner (.inl n) = some o.attachment := by rw [owner, owners, ho, map_some]
  rw [strands, hn, any_some] at hstrands
  obtain ⟨hcursor, hnumber⟩ := Bool.and_eq_true_iff.mp hstrands
  rcases hc : s.cursor o.attachment.attachmentID with _ | c
  · rw [hc] at hcursor
    cases hcursor
  rw [hc] at hcursor
  obtain ⟨j, hj, p, hp, -⟩ := howned _ c hc (of_decide_eq_true hcursor)
  have hj' : j = o.attachment.number := some.inj (hj.symm.trans (of_decide_eq_true hnumber))
  rw [owner, owners_erase_opening] at hp
  split at hp
  · cases hp
  · next hne => exact hne (h.distinct.apart p (.inl n) _ _ hp hn hj')

/-- In every run in which no request ends without a stream while its attachment is attached, every
attached cursor is owned; the next step keeps it so exactly if it strands no attachment. -/
theorem no_orphan_attachments {history : History} {events : List Event}
    (hmeets : Meets (fun s a => step config s a) (fun s a => s.tended a = true) (initial history) events)
    (hrun : run (fun s a => step config s a) (initial history) events = some s) :
    s.Owned ∧ ∀ a s', s.step config a = some s' → (s'.Owned ↔ s.tended a = true) := by
  have hkeeps : KeepsUnder (fun s a => step config s a) (fun s a => s.tended a = true) OwnedOK :=
    fun s a s' h htended hstep => h.step htended (effect_of_step hstep)
  have hnobody : ∀ p, (initial history).owner p = none := by
    rintro (n | k)
    · rfl
    · rfl
  have hinitial : (initial history).OwnedOK := by
    refine ⟨nofun, ⟨fun p x hp => ?_, fun p q x y hp => ?_⟩, nofun⟩
    · exact nomatch (hnobody p).symm.trans hp
    · exact nomatch (hnobody p).symm.trans hp
  have h : s.OwnedOK := hkeeps.run hinitial hmeets hrun
  refine ⟨h.owned, fun a s' hstep => ⟨fun howned => ?_, fun htended => ?_⟩⟩
  · by_contra hnot
    cases a with
    | leave n =>
      have hstrands : s.strands n = true := by simpa [tended] using hnot
      exact h.not_owned_of_strands hstep hstrands howned
    | _ => exact hnot rfl
  · exact (h.step htended (effect_of_step hstep)).owned

/-- A request that attaches opens its stream, and one whose attachment was evicted meanwhile ends without
one. -/
def attachedThenEvicted : List Event :=
  attachAt 1 0 ++ [.close 1, .attach 2 ⟨.replay, false⟩ "a" 0, .register, .finish,
    .capture 1 [104, 105, 33], .leave 2 .noStream]

theorem attachedThenEvicted_owned : ∃ s,
    run (fun s a => step smallSession s a) (initial emptyHistory) attachedThenEvicted = some s ∧
      s.Owned := by
  have hrun : (run (fun s a => step smallSession s a) (initial emptyHistory)
      attachedThenEvicted).isSome = true := by
    decide +kernel
  obtain ⟨s, hs⟩ := isSome_iff_exists.mp hrun
  exact ⟨s, hs, (no_orphan_attachments (by decide +kernel) hs).1⟩

/-- The action `replay` attaches, and its request ends without a stream. -/
def replayed : List Event := [.attach 1 ⟨.replay, false⟩ "a" 0, .register, .finish, .leave 1 .noStream]

/-- The request has ended, no stream is open, and its attachment is still in the fan-out. -/
theorem replay_leaves_attachment : ∃ s,
    run (fun s a => step smallSession s a) (initial emptyHistory) replayed = some s ∧
      s.openings.entries = [] ∧ s.streams.entries = [] ∧
      (s.cursor "a").map AttachmentCursor.state = some .attached ∧ ¬ s.Owned := by
  refine exists_of_any (P := fun s => s.openings.entries = [] ∧ s.streams.entries = [] ∧
    (s.cursor "a").map AttachmentCursor.state = some .attached) (by decide +kernel) ?_
  rintro s - ⟨hopenings, hstreams, hstate⟩
  refine ⟨hopenings, hstreams, hstate, fun howned => ?_⟩
  obtain ⟨c, hc, hattached⟩ := map_eq_some_iff.mp hstate
  obtain ⟨j, -, p, hp, -⟩ := howned "a" c hc hattached
  rcases p with n | k <;> obtain ⟨o, ho, -⟩ := map_eq_some_iff.mp hp
  · exact absurd ((lookup_eq_some_iff_mem _ _ _).mp ho) (by rw [hopenings]; exact List.not_mem_nil)
  · exact absurd ((lookup_eq_some_iff_mem _ _ _).mp ho) (by rw [hstreams]; exact List.not_mem_nil)

end State

end Paperboat.Server.Streams

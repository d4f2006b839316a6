import Paperboat.Session.Delivery

/-!
# Output streams of attachments

The function of a request calls `Attach` or `AttachLive` of the session, its outcome goes through the
journal, and `OpenStream` in `internal/server/dispatcher.go` makes a `terminalOutputStream` of it. A
stream holds the attachment ID and nothing else: `Next` reads the fan-out under this ID, and `Close`
detaches whatever is attached under it.

Every attachment that is registered gets a number, which the source does not have: `numbers` says which
one the fan-out has under an ID, a stream carries the one it was opened for, and `touched` notes which
one it has met. `untaken` is the condition that no older stream is open when an ID is attached again.
-/

namespace Paperboat.Server.Streams

open Option FinMap Session

open Session (Fanout)
open Session.Delivery (Config Terminal Outcome)
open Session.Fanout (AttachmentCursor)

/-! ### The system -/

/-- The actions of `terminal.v1` that attach. -/
inductive TerminalAction where
  | attach
  | replay
  deriving DecidableEq

/-- A request that attaches; `replayed` says that its outcome comes from the journal, and that it is
`OpenStream` that attaches. -/
structure Request where
  action : TerminalAction
  replayed : Bool
  deriving DecidableEq

/-- An attachment: its ID, and its number. -/
structure Attachment where
  attachmentID : String
  number : ℕ
  deriving DecidableEq

/-- A request that has registered an attachment and has no stream yet. -/
structure Opening where
  request : Request
  attachment : Attachment
  deriving DecidableEq

/-- Where a stream stands: it reads, it has met an eviction and asks for the queued bytes, or it only has
to be closed. -/
inductive Phase where
  | reading
  | evicted
  | ended
  deriving DecidableEq

/-- `terminalOutputStream`, with the attachment that it was opened for. -/
structure Stream where
  attachment : Attachment
  phase : Phase
  deriving DecidableEq

/-- The session, the request that is inside of `attachLocked`, the requests with an attachment and the
streams. -/
structure State where
  terminal : Terminal
  calling : Option (ℕ × Request)
  numbers : FinMap String ℕ
  count : ℕ
  openings : FinMap ℕ Opening
  streams : FinMap ℕ Stream
  /-- For every use of the fan-out by a stream, the number of the stream and the one that it has met. -/
  touched : List (ℕ × Option ℕ)

/-- Why a request ends without a stream after it has attached. -/
inductive Exit where
  /-- `OpenStream` has no stream for the action `replay`. -/
  | noStream
  /-- The response cannot be encoded. -/
  | marshal
  /-- `Execute` returns an error after it has called the function. -/
  | journal
  /-- `OpenStream` cannot decode the outcome. -/
  | response
  deriving DecidableEq

/-- What happens next. -/
inductive Event where
  | capture (channel : UInt8) (data : List UInt8)
  | clear
  /-- A client detaches an ID. -/
  | detach (attachmentID : String)
  /-- A request calls `Attach`, or `AttachLive` for the latest sequence. -/
  | attach (n : ℕ) (request : Request) (attachmentID : String) (fromSequence : ℕ)
  | register
  | enqueue
  | finish
  /-- `OpenStream` makes a stream. -/
  | openStream (n k : ℕ)
  | leave (n : ℕ) (exit : Exit)
  /-- One pass of `WaitNext`. -/
  | next (k : ℕ)
  /-- `AttachmentStatus` after an eviction. -/
  | status (k : ℕ)
  /-- `Close`: the stream has ended, or could not be bound or announced. -/
  | close (k : ℕ)
  deriving DecidableEq

/-- The phase of a stream after a read. -/
def phaseAfter : Outcome → Phase
  | .read _ (.ok _) => .reading
  | .read _ (.error .attachmentEvicted) => .evicted
  | _ => .ended

/-- A request can end in this way. -/
def Exit.possible (request : Request) : Exit → Bool
  | .noStream => request.action = .replay
  | .marshal | .journal => !request.replayed
  | .response => request.action = .attach && !request.replayed

namespace State

variable (config : Config) (s : State)

/-- The cursor that the fan-out has under an ID. -/
def cursor (attachmentID : String) : Option AttachmentCursor :=
  s.terminal.fanout.attachments.lookup attachmentID

/-- The session goes on; the numbers of attachments that are gone are forgotten. -/
def settle (terminal : Terminal) : State :=
  { s with
    terminal
    numbers := s.numbers.restrict fun id => (terminal.fanout.attachments.lookup id).isSome }

/-- A stream uses the fan-out. -/
def touch (attachment : Attachment) : State :=
  if (s.cursor attachment.attachmentID).isSome then
    { s with
      touched := s.touched ++ [(attachment.number, s.numbers.lookup attachment.attachmentID)] }
  else s

/-- The request is inside of `attachLocked`. -/
def isCalling (n : ℕ) : Bool := s.calling.any fun c => c.1 = n

/-- One step. -/
def step : Event → Option State
  | .capture channel data =>
    (s.terminal.step config (.capture channel data)).map fun r => s.settle r.1
  | .clear => (s.terminal.step config .clear).map fun r => s.settle r.1
  | .detach attachmentID =>
    (s.terminal.step config (.detach attachmentID)).map fun r => s.settle r.1
  | .attach n request attachmentID fromSequence =>
    if (s.openings.lookup n).isSome ∨ request = ⟨.replay, true⟩ then none
    else
      (s.terminal.step config (.attach attachmentID fromSequence)).map fun r =>
        { s.settle r.1 with calling := r.1.attaching.map fun _ => (n, request) }
  | .register => do
    let (n, request) ← s.calling
    let (terminal, outcome) ← s.terminal.step config .register
    match outcome with
    | .registered attachmentID _ =>
      some { s with
        terminal
        numbers := s.numbers.insert attachmentID s.count
        count := s.count + 1
        openings := s.openings.insert n ⟨request, ⟨attachmentID, s.count⟩⟩ }
    | _ => some { s.settle terminal with calling := none }
  | .enqueue => do
    let (n, _) ← s.calling
    let (terminal, outcome) ← s.terminal.step config .enqueue
    match outcome with
    | .enqueued _ => some (s.settle terminal)
    | _ => some { s.settle terminal with calling := none, openings := s.openings.erase n }
  | .finish =>
    (s.terminal.step config .finish).map fun r => { s.settle r.1 with calling := none }
  | .openStream n k => do
    let o ← s.openings.lookup n
    if s.isCalling n ∨ o.request.action ≠ .attach ∨ (s.streams.lookup k).isSome then none
    else some { s with
      openings := s.openings.erase n
      streams := s.streams.insert k ⟨o.attachment, .reading⟩ }
  | .leave n exit => do
    let o ← s.openings.lookup n
    if s.isCalling n ∨ !exit.possible o.request then none
    else some { s with openings := s.openings.erase n }
  | .next k => do
    let stream ← s.streams.lookup k
    if stream.phase ≠ .reading then none
    else
      (s.terminal.step config (.waitNext stream.attachment.attachmentID)).map fun r =>
        { (s.touch stream.attachment).settle r.1 with
          streams := s.streams.insert k { stream with phase := phaseAfter r.2 } }
  | .status k => do
    let stream ← s.streams.lookup k
    if stream.phase ≠ .evicted then none
    else some { s.touch stream.attachment with
      streams := s.streams.insert k { stream with phase := .ended } }
  | .close k => do
    let stream ← s.streams.lookup k
    (s.terminal.step config (.detach stream.attachment.attachmentID)).map fun r =>
      { (s.touch stream.attachment).settle r.1 with streams := s.streams.erase k }

/-- A new session. -/
def initial (history : History) : State :=
  ⟨⟨history, .newFanout, none⟩, none, ∅, 0, ∅, ∅, []⟩

end State

/-! ### What a call does to the fan-out -/

/-- The fan-out has no attachment that it did not have, and none is attached that was not. -/
def Shrinks (f f' : Fanout) : Prop :=
  ∀ id c', f'.attachments.lookup id = some c' →
    ∃ c, f.attachments.lookup id = some c ∧ (c'.state = .attached → c.state = .attached)

section
variable {f f' : Fanout} {id : String}

lemma Shrinks.of_eq (h : f'.attachments = f.attachments) : Shrinks f f' := by
  intro id c' hc'
  rw [h] at hc'
  exact ⟨c', hc', fun h => h⟩

lemma Shrinks.trans {f'' : Fanout} (h : Shrinks f f') (h' : Shrinks f' f'') : Shrinks f f'' := by
  intro id c'' hc''
  obtain ⟨c', hc', hattached'⟩ := h' id c'' hc''
  obtain ⟨c, hc, hattached⟩ := h id c' hc'
  exact ⟨c, hc, fun hstate => hattached (hattached' hstate)⟩

lemma Shrinks.of_insert {c c' : AttachmentCursor} (hc : f.attachments.lookup id = some c)
    (hstate : c'.state = .attached → c.state = .attached)
    (h : f'.attachments = f.attachments.insert id c') : Shrinks f f' := by
  rw [Shrinks, h]
  exact forall_insert ⟨c, hc, hstate⟩ fun _ x hx _ => ⟨x, hx, fun h => h⟩

variable {event : History.Event}

/-- Queueing an event attaches no one. -/
lemma shrinks_enqueue {eviction : Option Fanout.Eviction}
    (h : f.enqueueOwned id event = .ok (f', eviction)) : Shrinks f f' := by
  unfold Fanout.enqueueOwned at h
  split at h
  · cases h
  split at h
  · cases h
  rename_i cursor hcursor
  obtain ⟨hc, hattached⟩ := Fanout.attachedCursor_eq_ok.mp hcursor
  split at h
  · cases h
  split at h
  · cases h
    exact .of_insert hc (fun _ => hattached) (Fanout.compactLocked_attachments _)
  · cases h
    exact .of_insert hc (fun _ => hattached) rfl

/-- Nor does reading. -/
lemma shrinks_take {event : Option History.Event} (h : f.takeLocked id = .ok (f', event)) :
    Shrinks f f' := by
  unfold Fanout.takeLocked at h
  split at h
  · cases h
  rename_i cursor hcursor
  obtain ⟨hc, hattached⟩ := Fanout.attachedCursor_eq_ok.mp hcursor
  split at h
  · split at h
    · cases h
    · cases h
      exact .of_insert hc (fun _ => hattached) (Fanout.compactLocked_attachments _)
  · cases h
    exact .of_eq rfl

/-- Detaching ends the one attachment. -/
lemma shrinks_detach (h : f.detach id = .ok f') :
    Shrinks f f' ∧ ∀ c, f'.attachments.lookup id = some c → c.state ≠ .attached := by
  obtain ⟨f₀, hatt, -, rfl⟩ := Delivery.detach_cases h
  rw [Shrinks, Fanout.compactLocked_attachments, hatt, AList.lookup_erase]
  exact ⟨forall_erase fun _ c' hc' _ => ⟨c', hc', fun h => h⟩, nofun⟩

end

section
variable {config : Config} {t t' : Terminal} {outcome : Outcome}

/-- A call that is not inside of `attachLocked` leaves the attach in progress as it is. -/
structure Outside (t t' : Terminal) : Prop where
  shrinks : Shrinks t.fanout t'.fanout
  attaching : t'.attaching = t.attaching

/-- Captures attach no one. -/
lemma outside_capture {channel : UInt8} {data : List UInt8}
    (h : t.step config (.capture channel data) = some (t', outcome)) : Outside t t' := by
  simp only [Terminal.step] at h
  split at h
  · cases h
  split at h
  · cases h
    exact ⟨.of_eq rfl, rfl⟩
  split at h
  · cases h
    exact ⟨.of_eq rfl, rfl⟩
  · next fanout evictions hpublish =>
    cases h
    refine ⟨?_, rfl⟩
    unfold Fanout.publishOwned at hpublish
    split at hpublish
    · cases hpublish
    split at hpublish
    · cases hpublish
    cases hpublish
    intro id c' hc'
    rw [Fanout.compactLocked_attachments, Fanout.offerAll, lookup_mapVals] at hc'
    obtain ⟨c, hc, rfl⟩ := map_eq_some_iff.mp hc'
    refine ⟨c, hc, fun hstate => ?_⟩
    by_contra hne
    rw [AttachmentCursor.publish, if_pos hne] at hstate
    exact hne hstate

variable {id : String}

lemma outside_detach (h : t.step config (.detach id) = some (t', outcome)) :
    Outside t t' ∧ ∀ c, t'.fanout.attachments.lookup id = some c → c.state ≠ .attached := by
  simp only [Terminal.step] at h
  split at h
  · next f hdetach =>
    cases h
    obtain ⟨hshrinks, hgone⟩ := shrinks_detach hdetach
    exact ⟨⟨hshrinks, rfl⟩, hgone⟩
  · next e hdetach =>
    cases h
    exact ⟨⟨.of_eq rfl, rfl⟩, fun c hc => Delivery.not_attached_of_detach_error hdetach hc⟩

/-- The first call of an attachment does not change the fan-out. -/
lemma attach_cases {fromSequence : ℕ} (h : t.step config (.attach id fromSequence) = some (t', outcome)) :
    t'.fanout = t.fanout ∧ ∀ a, t'.attaching = some a → a.registered = false := by
  simp only [Terminal.step] at h
  split at h
  · cases h
  rename_i hnone
  have hattaching : ∀ a, t.attaching = some a → a.registered = false := by
    intro a ha
    rw [ha] at hnone
    exact absurd rfl hnone
  split at h
  · cases h
    exact ⟨rfl, hattaching⟩
  split at h
  · cases h
    exact ⟨rfl, hattaching⟩
  cases h
  refine ⟨rfl, fun a ha => ?_⟩
  cases ha
  rfl

/-- `Fanout.Attach` in `attachLocked`: it is refused, or the ID has a new cursor, and had none that is
attached. -/
lemma register_cases (h : t.step config .register = some (t', outcome)) :
    ∃ a, t.attaching = some a ∧ a.registered = false ∧
      ((∃ e, outcome = .attachFailed a.attachmentID e ∧ t' = { t with attaching := none }) ∨
        outcome = .registered a.attachmentID a.replay.fromSequence ∧
          t'.attaching = some { a with registered := true } ∧
          (∀ c, t.fanout.attachments.lookup a.attachmentID = some c → c.state ≠ .attached) ∧
          ∃ c, t'.fanout.attachments = t.fanout.attachments.insert a.attachmentID c) := by
  simp only [Terminal.step] at h
  split at h
  · next id replay pending hattaching =>
    refine ⟨_, hattaching, rfl, ?_⟩
    split at h
    · next e he =>
      cases h
      exact .inl ⟨_, rfl, rfl⟩
    · next f hattach =>
      cases h
      right
      unfold Fanout.attach at hattach
      split at hattach
      · cases hattach
      split_ifs at hattach with hfree
      cases hattach
      refine ⟨rfl, rfl, fun c hc hstate => hfree ?_, _, rfl⟩
      rw [hc, map_some, hstate]
  · cases h

/-- An attachment that fails is detached again. -/
lemma giveUp_cases (t : Terminal) (id : String) (e : Delivery.AttachError) :
    ∃ t', t.giveUp id e = (t', .attachFailed id e) ∧ Shrinks t.fanout t'.fanout ∧ t'.attaching = none ∧
      ∀ c, t'.fanout.attachments.lookup id = some c → c.state ≠ .attached := by
  unfold Terminal.giveUp
  split
  · next f hdetach =>
    obtain ⟨hshrinks, hgone⟩ := shrinks_detach hdetach
    exact ⟨_, rfl, hshrinks, rfl, hgone⟩
  · next e' hdetach =>
    exact ⟨_, rfl, .of_eq rfl, rfl, fun c hc => Delivery.not_attached_of_detach_error hdetach hc⟩

/-- `EnqueueOwned` in `attachLocked`: the attach goes on, or it fails and leaves nothing attached under its
ID. -/
lemma enqueue_cases (h : t.step config .enqueue = some (t', outcome)) :
    ∃ a, t.attaching = some a ∧ a.registered = true ∧ Shrinks t.fanout t'.fanout ∧
      ((outcome = .enqueued a.attachmentID ∧
          ∃ pending, t'.attaching = some { a with pending := pending }) ∨
        (∃ e, outcome = .attachFailed a.attachmentID e) ∧ t'.attaching = none ∧
          ∀ c, t'.fanout.attachments.lookup a.attachmentID = some c → c.state ≠ .attached) := by
  simp only [Terminal.step] at h
  split at h
  · next id replay event pending hattaching =>
    refine ⟨_, hattaching, rfl, ?_⟩
    split at h
    · next e he =>
      obtain ⟨t₁, heq, hshrinks, hnone, hgone⟩ := giveUp_cases t id (.fanout e)
      rw [heq] at h
      cases h
      exact ⟨hshrinks, .inr ⟨⟨_, rfl⟩, hnone, hgone⟩⟩
    · next f eviction henqueue =>
      obtain ⟨t₁, heq, hshrinks, hnone, hgone⟩ :=
        giveUp_cases { t with fanout := f } id (.fanout .attachmentEvicted)
      rw [heq] at h
      cases h
      exact ⟨(shrinks_enqueue henqueue).trans hshrinks, .inr ⟨⟨_, rfl⟩, hnone, hgone⟩⟩
    · next f henqueue =>
      cases h
      exact ⟨shrinks_enqueue henqueue, .inl ⟨rfl, _, rfl⟩⟩
  · cases h

lemma finish_cases (h : t.step config .finish = some (t', outcome)) :
    t' = { t with attaching := none } := by
  simp only [Terminal.step] at h
  split at h
  · exact (Prod.mk.inj (some.inj h)).1.symm
  · cases h

end

/-! ### What a step does -/

namespace State

variable {config : Config} {s s' : State} {a : Event}

/-- How the attach in progress goes on, and the request that it is for. -/
inductive Carries (s : State) (t : Terminal) (calling : Option (ℕ × Request)) : Prop where
  | none (hnone : t.attaching = none)
  | same (hattaching : ∀ a', t.attaching = some a' → ∃ a, s.terminal.attaching = some a ∧
      a'.attachmentID = a.attachmentID ∧ a'.registered = a.registered) (hcalling : calling = s.calling)
  | fresh (n : ℕ) (request : Request) (hcalling : calling = some (n, request))
      (hregistered : ∀ a, t.attaching = some a → a.registered = false)
      (hopening : s.openings.lookup n = Option.none)

variable {t : Terminal}

lemma Carries.of_outside (h : Outside s.terminal t) : Carries s t s.calling :=
  .same (fun a' ha' => ⟨a', h.attaching ▸ ha', rfl, rfl⟩) rfl

/-- What a step does to the requests and the streams. -/
inductive Effect (s : State) : Event → State → Prop where
  /-- The session goes on, and no request gets or loses its attachment. -/
  | session {a : Event} {t : Terminal} {calling : Option (ℕ × Request)}
    (hshrinks : Shrinks s.terminal.fanout t.fanout) (hcarries : Carries s t calling) :
    Effect s a { s.settle t with calling }
  | register {n : ℕ} {request : Request} {x : Session.Delivery.Attaching} {t : Terminal}
    {c : AttachmentCursor} (hcalling : s.calling = some (n, request))
    (hattaching : s.terminal.attaching = some x) (hregistered : x.registered = false)
    (hattaching' : t.attaching = some { x with registered := true })
    (hfree : ∀ c, s.cursor x.attachmentID = some c → c.state ≠ .attached)
    (hinsert : t.fanout.attachments = s.terminal.fanout.attachments.insert x.attachmentID c) :
    Effect s .register { s with
      terminal := t
      numbers := s.numbers.insert x.attachmentID s.count
      count := s.count + 1
      openings := s.openings.insert n ⟨request, ⟨x.attachmentID, s.count⟩⟩ }
  | giveUp {n : ℕ} {request : Request} {x : Session.Delivery.Attaching} {t : Terminal}
    (hcalling : s.calling = some (n, request)) (hattaching : s.terminal.attaching = some x)
    (hregistered : x.registered = true) (hshrinks : Shrinks s.terminal.fanout t.fanout)
    (hattaching' : t.attaching = none)
    (hgone : ∀ c, t.fanout.attachments.lookup x.attachmentID = some c → c.state ≠ .attached) :
    Effect s .enqueue { s.settle t with calling := none, openings := s.openings.erase n }
  | openStream {n k : ℕ} {o : Opening} (ho : s.openings.lookup n = some o)
    (hcalling : s.isCalling n = false) (hk : s.streams.lookup k = none) :
    Effect s (.openStream n k) { s with
      openings := s.openings.erase n
      streams := s.streams.insert k ⟨o.attachment, .reading⟩ }
  | leave {n : ℕ} {exit : Exit} {o : Opening} (ho : s.openings.lookup n = some o)
    (hcalling : s.isCalling n = false) :
    Effect s (.leave n exit) { s with openings := s.openings.erase n }
  | next {k : ℕ} {stream : Stream} {phase : Phase} {t : Terminal} (hk : s.streams.lookup k = some stream)
    (houtside : Outside s.terminal t) :
    Effect s (.next k) { (s.touch stream.attachment).settle t with
      streams := s.streams.insert k { stream with phase } }
  | status {k : ℕ} {stream : Stream} (hk : s.streams.lookup k = some stream) :
    Effect s (.status k) { s.touch stream.attachment with
      streams := s.streams.insert k { stream with phase := .ended } }
  | close {k : ℕ} {stream : Stream} {t : Terminal} (hk : s.streams.lookup k = some stream)
    (houtside : Outside s.terminal t)
    (hgone : ∀ c, t.fanout.attachments.lookup stream.attachment.attachmentID = some c →
      c.state ≠ .attached) :
    Effect s (.close k) { (s.touch stream.attachment).settle t with streams := s.streams.erase k }

lemma Effect.of_outside (h : Outside s.terminal t) : Effect s a (s.settle t) :=
  .session h.shrinks (.of_outside h)

/-- Every step has one of the effects. -/
lemma effect_of_step (h : s.step config a = some s') : Effect s a s' := by
  cases a <;> simp only [step, bind_eq_bind, bind_eq_some_iff,
    map_eq_some_iff, ite_none_left_eq_some, some.injEq, Prod.exists] at h
  case capture =>
    obtain ⟨t, outcome, ht, rfl⟩ := h
    exact .of_outside (outside_capture ht)
  case clear =>
    obtain ⟨t, outcome, ht, rfl⟩ := h
    refine .of_outside ?_
    simp only [Terminal.step] at ht
    split at ht
    · cases ht
    · cases ht
      exact ⟨.of_eq rfl, rfl⟩
  case detach =>
    obtain ⟨t, outcome, ht, rfl⟩ := h
    exact .of_outside (outside_detach ht).1
  case attach n request id fromSequence =>
    obtain ⟨hready, t, outcome, ht, rfl⟩ := h
    obtain ⟨hfanout, hregistered⟩ := attach_cases ht
    refine .session (.of_eq (congrArg _ hfanout)) ?_
    cases hattaching : t.attaching with
    | none => exact .none hattaching
    | some =>
      refine .fresh n request rfl hregistered ?_
      exact not_isSome_iff_eq_none.mp (not_or.mp hready).1
  case register =>
    obtain ⟨n, request, hcalling, t, outcome, ht, h⟩ := h
    obtain ⟨x, hattaching, hregistered, hrest⟩ := register_cases ht
    obtain ⟨e, rfl, rfl⟩ | ⟨rfl, hattaching', hfree, c, hinsert⟩ := hrest <;> cases h
    · exact .session (.of_eq rfl) (.none rfl)
    · exact .register hcalling hattaching hregistered hattaching' hfree hinsert
  case enqueue =>
    obtain ⟨n, request, hcalling, t, outcome, ht, h⟩ := h
    obtain ⟨x, hattaching, hregistered, hshrinks, hrest⟩ := enqueue_cases ht
    obtain ⟨rfl, pending, hattaching'⟩ | ⟨⟨e, rfl⟩, hattaching', hgone⟩ := hrest <;> cases h
    · refine .session hshrinks (.same (fun a' ha' => ?_) rfl)
      cases hattaching'.symm.trans ha'
      exact ⟨x, hattaching, rfl, rfl⟩
    · exact .giveUp hcalling hattaching hregistered hshrinks hattaching' hgone
  case finish =>
    obtain ⟨t, outcome, ht, rfl⟩ := h
    obtain rfl := finish_cases ht
    exact .session (.of_eq rfl) (.none rfl)
  case openStream =>
    obtain ⟨o, ho, hready, rfl⟩ := h
    simp only [not_or, Bool.not_eq_true] at hready
    exact .openStream ho hready.1 (not_isSome_iff_eq_none.mp (by simpa using hready.2.2))
  case leave =>
    obtain ⟨o, ho, hready, rfl⟩ := h
    exact .leave ho (Bool.not_eq_true _ ▸ (not_or.mp hready).1)
  case next =>
    obtain ⟨stream, hk, -, t, outcome, ht, rfl⟩ := h
    refine .next hk ?_
    simp only [Terminal.step, Terminal.afterRead] at ht
    split at ht
    · next f event htake =>
      cases ht
      exact ⟨shrinks_take htake, rfl⟩
    · cases ht
      exact ⟨.of_eq rfl, rfl⟩
  case status =>
    obtain ⟨stream, hk, -, rfl⟩ := h
    exact .status hk
  case close =>
    obtain ⟨stream, hk, t, outcome, ht, rfl⟩ := h
    obtain ⟨houtside, hgone⟩ := outside_detach ht
    exact .close hk houtside hgone

/-! ### Numbers -/

/-- Every attachment of the fan-out has a number. -/
def Numbered (s : State) : Prop := ∀ id c, s.cursor id = some c → (s.numbers.lookup id).isSome = true

/-- The numbers of attachments that are gone are forgotten. -/
lemma lookup_settle (s : State) (t : Terminal) (id : String) : (s.settle t).numbers.lookup id =
      if (t.fanout.attachments.lookup id).isSome then s.numbers.lookup id else none := by
  rw [settle, lookup_restrict]

variable {id : String} {j : ℕ}

lemma lookup_of_settle (h : (s.settle t).numbers.lookup id = some j) : s.numbers.lookup id = some j := by
  rw [lookup_settle] at h
  split at h
  · exact h
  · cases h

/-- The others stay numbered. -/
lemma Numbered.settle (h : s.Numbered) (hshrinks : Shrinks s.terminal.fanout t.fanout) :
    (s.settle t).Numbered := by
  intro id c' hc'
  obtain ⟨c, hc, -⟩ := hshrinks id c' hc'
  have hsome : (t.fanout.attachments.lookup id).isSome = true := isSome_of_eq_some hc'
  rw [lookup_settle, if_pos hsome]
  exact h id c hc

lemma touch_cases (s : State) (x : Attachment) :
    s.touch x = { s with touched := (s.touch x).touched } := by
  unfold touch
  split <;> rfl

/-- Every step keeps the attachments numbered. -/
lemma Numbered.step (h : s.Numbered) (heffect : Effect s a s') : s'.Numbered := by
  cases heffect with
  | session hshrinks => exact h.settle hshrinks
  | register hcalling hattaching hregistered hattaching' hfree hinsert =>
    intro id c hc
    simp only [lookup_insert_eq]
    split
    · rfl
    · next hne =>
      rw [cursor, hinsert, lookup_insert_eq, if_neg hne] at hc
      exact h id c hc
  | giveUp hcalling hattaching hregistered hshrinks => exact h.settle hshrinks
  | openStream | leave => exact h
  | next hk houtside | close hk houtside =>
    rw [touch_cases]
    exact h.settle houtside.shrinks
  | status =>
    rw [touch_cases]
    exact h

/-! ### Who has an attachment -/

/-- The attachments of the requests and of the streams. -/
def owners (openings : FinMap ℕ Opening) (streams : FinMap ℕ Stream) : ℕ ⊕ ℕ → Option Attachment
  | .inl n => (openings.lookup n).map Opening.attachment
  | .inr k => (streams.lookup k).map Stream.attachment

/-- The attachment of a request that is still handled, or of a stream. -/
def owner (s : State) : ℕ ⊕ ℕ → Option Attachment := owners s.openings s.streams

section
variable (openings : FinMap ℕ Opening) (streams : FinMap ℕ Stream) (p : ℕ ⊕ ℕ)

lemma owners_insert_opening (n : ℕ) (o : Opening) : owners (openings.insert n o) streams p =
      if p = .inl n then some o.attachment else owners openings streams p := by
  cases p <;> simp [owners, lookup_insert_eq, apply_ite (Option.map _)]

lemma owners_erase_opening (n : ℕ) :
    owners (openings.erase n) streams p = if p = .inl n then none else owners openings streams p := by
  cases p <;> simp [owners, lookup_erase_eq, apply_ite (Option.map _)]

lemma owners_insert_stream (k : ℕ) (stream : Stream) : owners openings (streams.insert k stream) p =
      if p = .inr k then some stream.attachment else owners openings streams p := by
  cases p <;> simp [owners, lookup_insert_eq, apply_ite (Option.map _)]

lemma owners_erase_stream (k : ℕ) :
    owners openings (streams.erase k) p = if p = .inr k then none else owners openings streams p := by
  cases p <;> simp [owners, lookup_erase_eq, apply_ite (Option.map _)]

end

/-- The attachment that is registered by a step. -/
structure Registers (s s' : State) (y : Session.Delivery.Attaching) : Prop where
  attaching : s.terminal.attaching = some y
  free : ∀ c, s.cursor y.attachmentID = some c → c.state ≠ .attached
  numbers : s'.numbers = s.numbers.insert y.attachmentID s.count
  count : s'.count = s.count + 1

/-- How attachments are passed on by a step. -/
inductive Passes (s s' : State) : Event → Prop where
  | keeps {a : Event} (h : ∀ p, s'.owner p = s.owner p) : Passes s s' a
  | loses {a : Event} (q : ℕ ⊕ ℕ) (h : ∀ p, s'.owner p = if p = q then none else s.owner p) :
    Passes s s' a
  | registers (n : ℕ) (y : Session.Delivery.Attaching) (hy : Registers s s' y)
    (h : ∀ p, s'.owner p = if p = .inl n then some ⟨y.attachmentID, s.count⟩ else s.owner p) :
    Passes s s' .register
  | opens (n k : ℕ) (hk : s.owner (.inr k) = none)
    (h : ∀ p, s'.owner p = if p = .inr k then s.owner (.inl n) else if p = .inl n then none
      else s.owner p) : Passes s s' (.openStream n k)

variable {k : ℕ} {stream : Stream}

lemma owner_insert_stream (hk : s.streams.lookup k = some stream) (phase : Phase) (p : ℕ ⊕ ℕ) :
    owners s.openings (s.streams.insert k { stream with phase }) p = s.owner p := by
  rw [owners_insert_stream]
  split
  · next h => rw [h, owner, owners, hk, map_some]
  · rfl

/-- Attachments are handed from the request to its stream and to no one else. -/
lemma passes_of_effect (heffect : Effect s a s') : Passes s s' a := by
  cases heffect with
  | session => exact .keeps fun _ => rfl
  | register hcalling hattaching hregistered hattaching' hfree =>
    exact .registers _ _ ⟨hattaching, hfree, rfl, rfl⟩ (owners_insert_opening _ _ · _ _)
  | giveUp => exact .loses _ (owners_erase_opening _ _ · _)
  | @openStream n k o ho hcalling hk =>
    refine .opens n k (by rw [owner, owners, hk, map_none]) fun p => ?_
    have hn : s.owner (.inl n) = some o.attachment := by rw [owner, owners, ho, map_some]
    rw [hn]
    exact (owners_insert_stream _ _ p k _).trans (by rw [owners_erase_opening]; rfl)
  | leave => exact .loses _ (owners_erase_opening _ _ · _)
  | @next k stream phase t hk =>
    rw [touch_cases]
    exact .keeps (owner_insert_stream hk phase)
  | status hk =>
    rw [touch_cases]
    exact .keeps (owner_insert_stream hk .ended)
  | @close k =>
    rw [touch_cases]
    exact .loses (.inr k) (owners_erase_stream _ _ · k)

/-- A request that is still handled, or a stream, has the attachment. -/
def Holds (s : State) (x : Attachment) : Prop := ∃ p, s.owner p = some x

variable {x : Attachment}

/-- Nobody gets an attachment but the request that has registered it. -/
lemma Passes.holds (h : Passes s s' a) (hx : s'.Holds x) :
    s.Holds x ∨ a = .register ∧ ∃ y, Registers s s' y ∧ x = ⟨y.attachmentID, s.count⟩ := by
  obtain ⟨p, hp⟩ := hx
  cases h with
  | keeps h => exact .inl ⟨p, h p ▸ hp⟩
  | loses q h =>
    rw [h] at hp
    split at hp
    · cases hp
    · exact .inl ⟨p, hp⟩
  | registers n y hy h =>
    rw [h] at hp
    split at hp
    · exact .inr ⟨rfl, y, hy, (some.inj hp).symm⟩
    · exact .inl ⟨p, hp⟩
  | opens n k hk h =>
    rw [h] at hp
    split at hp
    · exact .inl ⟨_, hp⟩
    · split at hp
      · cases hp
      · exact .inl ⟨p, hp⟩

/-- A number is only given when an attachment is registered. -/
lemma numbers_of_effect (heffect : Effect s a s') (h : s'.numbers.lookup id = some j) :
    s.numbers.lookup id = some j ∨
      a = .register ∧ ∃ y, Registers s s' y ∧ id = y.attachmentID ∧ j = s.count := by
  cases heffect with
  | session | giveUp => exact .inl (lookup_of_settle h)
  | register hcalling hattaching hregistered hattaching' hfree =>
    simp only [lookup_insert_eq] at h
    split at h
    · next heq => exact .inr ⟨rfl, _, ⟨hattaching, hfree, rfl, rfl⟩, heq, (some.inj h).symm⟩
    · exact .inl h
  | openStream | leave => exact .inl h
  | next | close =>
    rw [touch_cases] at h
    exact .inl (lookup_of_settle h)
  | status =>
    rw [touch_cases] at h
    exact .inl h

/-! ### Streams that keep apart -/

/-- Every stream has only met the attachment that it was opened for. -/
def KeptApart (s : State) : Prop := ∀ x ∈ s.touched, x.2 = some x.1

/-- A stream or a request with an attachment under the ID is still there. -/
def taken (s : State) (attachmentID : String) : Bool :=
  s.openings.entries.any (fun e => e.2.attachment.attachmentID = attachmentID) ||
    s.streams.entries.any fun e => e.2.attachment.attachmentID = attachmentID

/-- An ID is attached again only when the streams of its older attachments are closed, and when no request
has still to open one. -/
def untaken (s : State) : Event → Bool
  | .register =>
    s.terminal.attaching.all fun x =>
      (s.cursor x.attachmentID).any (fun c => c.state = .attached) || !s.taken x.attachmentID
  | _ => true

/-- The ID of an open stream is taken. -/
lemma taken_of_holds (h : s.Holds x) : s.taken x.attachmentID = true := by
  rw [taken, Bool.or_eq_true_iff, List.any_eq_true, List.any_eq_true]
  obtain ⟨n | k, h⟩ := h <;> obtain ⟨y, hy, rfl⟩ := map_eq_some_iff.mp h
  · exact .inl ⟨_, (lookup_eq_some_iff_mem _ _ _).mp hy, decide_eq_true rfl⟩
  · exact .inr ⟨_, (lookup_eq_some_iff_mem _ _ _).mp hy, decide_eq_true rfl⟩

/-- Under the ID of an attachment that somebody has, the fan-out has this attachment or none. -/
structure ApartOK (s : State) : Prop where
  numbered : s.Numbered
  holders : ∀ x, s.Holds x → ∀ j, s.numbers.lookup x.attachmentID = some j → j = x.number
  apart : s.KeptApart

/-- A stream meets its own attachment. -/
lemma ApartOK.touch (h : s.ApartOK) (hk : s.streams.lookup k = some stream) :
    (s.touch stream.attachment).KeptApart := by
  intro x hx
  unfold State.touch at hx
  split at hx
  · next hcursor =>
    refine forall_mem_concat h.apart ?_ x hx
    obtain ⟨c, hc⟩ := isSome_iff_exists.mp hcursor
    obtain ⟨j, hj⟩ := isSome_iff_exists.mp (h.numbered _ c hc)
    dsimp only
    have hholds : s.Holds stream.attachment := ⟨.inr k, by rw [owner, owners, hk, map_some]⟩
    rw [hj, h.holders _ hholds j hj]
  · exact h.apart x hx

/-- So no stream has met another attachment. -/
lemma ApartOK.apart_of_effect (h : s.ApartOK) (heffect : Effect s a s') : s'.KeptApart := by
  cases heffect with
  | session hshrinks hcarries | register hcalling hattaching hregistered hattaching' hfree hinsert
  | giveUp hcalling hattaching hregistered hshrinks hattaching' hgone | openStream ho hcalling hk
  | leave => exact h.apart
  | next hk | status hk | close hk => exact h.touch hk

lemma Registers.not_taken {y : Delivery.Attaching} (h : Registers s s' y)
    (huntaken : s.untaken .register = true) : s.taken y.attachmentID = false := by
  rw [untaken, h.attaching, all_some] at huntaken
  rcases Bool.or_eq_true_iff.mp huntaken with hattached | htaken
  · cases hc : s.cursor y.attachmentID with
    | none =>
      rw [hc] at hattached
      cases hattached
    | some c =>
      rw [hc] at hattached
      exact absurd (of_decide_eq_true hattached) (h.free c hc)
  · exact Bool.not_eq_true' _ ▸ htaken

/-- Every step on which no ID is attached again too early keeps the streams apart. -/
lemma ApartOK.step (h : s.ApartOK) (huntaken : s.untaken a = true) (heffect : Effect s a s') :
    s'.ApartOK := by
  refine ⟨h.numbered.step heffect, fun x hx j hj => ?_, h.apart_of_effect heffect⟩
  rcases (passes_of_effect heffect).holds hx with hx | ⟨rfl, y, hy, rfl⟩
  · rcases numbers_of_effect heffect hj with hj | ⟨rfl, y, hy, hid, -⟩
    · exact h.holders x hx j hj
    · have htaken := taken_of_holds hx
      rw [hid, hy.not_taken huntaken] at htaken
      cases htaken
  · rw [hy.numbers, lookup_insert_eq, if_pos rfl] at hj
    exact (some.inj hj).symm

/-- In every run on which no ID is attached again before the streams of its older attachments are closed,
every stream reads from and detaches the attachment that it was opened for. -/
theorem streams_kept_apart {history : History} {events : List Event}
    (hmeets : Meets (fun s a => step config s a) (fun s a => s.untaken a = true) (initial history) events)
    (hrun : run (fun s a => step config s a) (initial history) events = some s) : s.KeptApart := by
  have hkeeps : KeepsUnder (fun s a => step config s a) (fun s a => s.untaken a = true) ApartOK :=
    fun s a s' h huntaken hstep => h.step huntaken (effect_of_step hstep)
  have hinitial : (initial history).ApartOK := by
    refine ⟨nofun, fun x hx => ?_, nofun⟩
    obtain ⟨_ | _, hp⟩ := hx <;> cases hp
  exact (hkeeps.run hinitial hmeets hrun).apart

/-! ### Examples of runs -/

/-- A session with room for sixteen bytes. -/
def emptyHistory : History := ⟨16, 0, 0, 0, [], 0⟩

/-- Four attachments, with a budget of two bytes each. -/
def smallSession : Config := ⟨4, 2⟩

/-- A request attaches an ID at the end of the history and opens a stream. -/
def attachAt (n fromSequence : ℕ) : List Event :=
  [.attach n ⟨.attach, false⟩ "a" fromSequence, .register, .finish, .openStream n n]

/-- An ID is attached again after its stream has read and was closed. -/
theorem closed_then_attached : ∃ s, run (fun s a => step smallSession s a) (initial emptyHistory)
      (attachAt 1 0 ++ [.capture 1 [104], .next 1, .close 1] ++ attachAt 2 1 ++
        [.capture 1 [105], .next 2, .close 2]) = some s ∧
      s.touched = [(0, some 0), (0, some 0), (1, some 1), (1, some 1)] ∧ s.KeptApart :=
  exists_and_of_any (by decide +kernel) fun _ hs => streams_kept_apart (by decide +kernel) hs

/-- An attachment is evicted, and its ID is attached again before its stream is closed. -/
def evictedThenAttached : List Event :=
  attachAt 1 0 ++ [.capture 1 [104, 105, 33]] ++ attachAt 2 3

/-- The stream of the evicted attachment then takes the output of the newer one, and closing it removes
that one under its open stream. -/
theorem newer_attachment_disturbed : (∃ s, run (fun s a => step smallSession s a) (initial emptyHistory)
      (evictedThenAttached ++ [.capture 1 [10], .next 1]) = some s ∧
      (s.cursor "a").map AttachmentCursor.queuedBytes = some 0 ∧ ¬ s.KeptApart) ∧
    ∃ s, run (fun s a => step smallSession s a) (initial emptyHistory)
      (evictedThenAttached ++ [.close 1]) = some s ∧
      s.cursor "a" = none ∧ (s.streams.lookup 2).map Stream.phase = some .reading ∧ ¬ s.KeptApart := by
  have hmet : ∀ {s : State}, s.touched = [(0, some 1)] → ¬ s.KeptApart := by
    intro s htouched hapart
    have hsame := hapart (0, some 1) (by rw [htouched]; exact List.mem_singleton_self _)
    cases hsame
  constructor
  · exact exists_of_any (P := fun s => (s.cursor "a").map AttachmentCursor.queuedBytes = some 0 ∧
      s.touched = [(0, some 1)]) (by decide +kernel) fun _ _ h => ⟨h.1, hmet h.2⟩
  · exact exists_of_any (P := fun s => s.cursor "a" = none ∧
      (s.streams.lookup 2).map Stream.phase = some .reading ∧ s.touched = [(0, some 1)])
      (by decide +kernel) fun _ _ h => ⟨h.1, h.2.1, hmet h.2.2⟩

end State

end Paperboat.Server.Streams

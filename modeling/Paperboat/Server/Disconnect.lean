import Paperboat.Lib.Contexts
import Paperboat.Operation.Steps

/-!
# Lost connections

`startRequest` serves WebSocket and native connections and derives the context of a run function from the
context of the server; `serveCollection` in `file_transfer_http.go` passes the context of the HTTP request
on, which is cancelled when the connection is lost. The journal then records whatever the function
returns.

What a run function returns is not part of the system: `returns` says which outcomes a request may have,
under a context that is done and under one that is not, so that `CouldReturn` can say that an outcome was
possible without the loss.
-/

namespace Paperboat.Server

open Option Operation Cancelled List Function

open Operation (System JournalConfig Outcome Call Answered SystemOK Source)

/-! ### The contexts -/

/-- How a request comes in. -/
inductive Transport where
  | webSocket
  | native
  | http
  deriving DecidableEq

/-- The cancel functions: of the server, of a connection and of a request. -/
inductive Scope where
  | server
  | connection (c : ℕ)
  | request (n : ℕ)
  deriving DecidableEq

/-- Why a cancel function is called. -/
inductive Cause where
  | lost
  | deadline
  | canceled
  | revoked
  | stopped
  | finished
  deriving DecidableEq

/-- The context that `Execute` gets: `opCtx` of `startRequest`, or `request.Context()`. -/
def requestContext (transport : Transport) (c n : ℕ) : Context Scope :=
  match transport with
  | .webSocket | .native => [.request n, .server]
  | .http => [.request n, .connection c]

/-- A request whose handler has called `Execute`. -/
structure Request where
  transport : Transport
  connection : ℕ
  context : Context Scope
  /-- Its key in `running`, if it is the owner of the key. -/
  key : Option String
  deriving DecidableEq

/-- A run function has returned; `otherwise` says that its context was done for another reason than a
lost connection. -/
structure Return where
  reservation : Option ℕ
  transport : Transport
  request : List UInt8
  otherwise : Bool
  outcome : Outcome
  deriving DecidableEq

/-- The server and its journal. -/
structure State where
  journal : System
  stopped : Bool
  cancelled : Cancelled Scope Cause
  connections : FinMap ℕ Transport
  requests : FinMap ℕ Request
  running : FinMap String ℕ
  returned : List Return

/-- What happens next. -/
inductive Event where
  | accept (c : ℕ) (transport : Transport)
  | lose (c : ℕ)
  /-- The handler of a request calls `Execute`. -/
  | request (n c : ℕ) (binding id : String) (request : List UInt8) (now : ℕ)
  /-- The deadline of `opCtx` passes. -/
  | deadline (n : ℕ)
  /-- A `cancel` frame. -/
  | cancel (binding id : String)
  /-- The `RevokedSignal` of an HTTP request. -/
  | revoke (n : ℕ)
  | shutdown
  /-- The handler of a request returns. -/
  | leave (n : ℕ)
  | journal (a : Operation.Action)
  deriving DecidableEq

/-- `operationKey`. -/
def operationKey (binding operationID : String) : String := binding ++ "\x00" ++ operationID

/-- What a run function may return, by the transport and the request, and by whether its context is
done. -/
abbrev Returns := Transport → List UInt8 → Bool → Outcome → Bool

namespace State

variable (cfg : JournalConfig) (returns : Returns) (s : State)

/-- What has ended the context of a request. -/
def causes (r : Request) : List Cause := s.cancelled.causes r.context

/-- Cancel the registered operations, in `Shutdown`. -/
def cancelRunning (cancelled : Cancelled Scope Cause) :
    List (Sigma fun _ : String => ℕ) → Cancelled Scope Cause
  | [] => cancelled
  | e :: l => cancelRunning (cancelled.cancel (.request e.2) .stopped) l

/-- The handler of a request calls `Execute`; `startRequest` has registered the operation. -/
def start (n c : ℕ) (transport : Transport) (key : String) (journal : System) : State :=
  match transport with
  | .http =>
    { s with
      journal := journal
      requests := s.requests.insert n ⟨transport, c, requestContext transport c n, none⟩ }
  | .webSocket | .native =>
    if (s.running.lookup key).isSome then
      { s with
        journal := journal
        requests := s.requests.insert n ⟨transport, c, requestContext transport c n, none⟩ }
    else
      { s with
        journal := journal
        running := s.running.insert key n
        requests := s.requests.insert n ⟨transport, c, requestContext transport c n, some key⟩ }

/-- The journal takes a step. -/
def advance : Operation.Action → Option State
  | .execute _ _ _ _ => none
  | .crash =>
    (s.journal.step cfg .crash).map fun journal =>
      ⟨journal, false, ∅, ∅, ∅, ∅, s.returned⟩
  | .finish n outcome now => do
    let r ← s.requests.lookup n
    let call ← s.journal.call n
    let journal ← s.journal.step cfg (.finish n outcome now)
    if returns r.transport call.request (s.causes r ≠ []) outcome then
      some { s with
        journal := journal
        returned := s.returned ++
          [⟨call.reservation, r.transport, call.request, (s.causes r).any (· ≠ .lost), outcome⟩] }
    else none
  | .cancel n => do
    let r ← s.requests.lookup n
    if s.causes r ≠ [] then
      (s.journal.step cfg (.cancel n)).map fun journal => { s with journal := journal }
    else none
  | a => (s.journal.step cfg a).map fun journal => { s with journal := journal }

/-- One step. -/
def step : Event → Option State
  | .accept c transport =>
    if (s.connections.lookup c).isSome ∨ s.stopped ∧ transport ≠ .http then none
    else some { s with connections := s.connections.insert c transport }
  | .lose c => do
    let _ ← s.connections.lookup c
    some { s with cancelled := s.cancelled.cancel (.connection c) .lost }
  | .request n c binding id request now => do
    let transport ← s.connections.lookup c
    if (s.requests.lookup n).isSome ∨ s.stopped ∧ transport ≠ .http then none
    else do
      let journal ← s.journal.step cfg (.execute n id request now)
      some (s.start n c transport (operationKey binding id) journal)
  | .deadline n => do
    let r ← s.requests.lookup n
    if r.transport = .http then none
    else some { s with cancelled := s.cancelled.cancel (.request n) .deadline }
  | .cancel binding id =>
    match s.running.lookup (operationKey binding id) with
    | none => some s
    | some n => some { s with cancelled := s.cancelled.cancel (.request n) .canceled }
  | .revoke n => do
    let r ← s.requests.lookup n
    if r.transport = .http then
      some { s with cancelled := s.cancelled.cancel (.request n) .revoked }
    else none
  | .shutdown =>
    some { s with
      stopped := true
      cancelled := cancelRunning (s.cancelled.cancel .server .stopped) s.running.entries }
  | .leave n => do
    let r ← s.requests.lookup n
    if (s.journal.call n).isSome then none
    else some { s with
      running := match r.key with
        | some key => s.running.erase key
        | none => s.running
      cancelled := s.cancelled.cancel (.request n) .finished }
  | .journal a => s.advance cfg returns a

/-- A helper on an empty store. -/
def initial : State := ⟨System.initial, false, ∅, ∅, ∅, ∅, []⟩

/-! ### The condition -/

/-- A run function that was called for an HTTP request is at work on the connection. -/
def runsOver (c : ℕ) : Bool :=
  s.requests.entries.any fun e => e.2.transport = .http ∧ e.2.connection = c ∧
    (s.journal.call e.1).any fun call => call.phase.isRunning

/-- The connection of the HTTP request is lost, and its operation has no row. -/
def comesLate (n : ℕ) : Bool :=
  (s.requests.lookup n).any fun r => r.transport = .http ∧
    s.cancelled.lookup (.connection r.connection) = some .lost ∧
    (s.journal.call n).any fun call => (s.journal.table.lookup call.id).isNone

/-- No HTTP connection is lost while a run function is at work for a request on it, and none is called
when the connection is already lost. -/
def connected : Event → Bool
  | .lose c => !s.runsOver c
  | .journal (.reserve n _ .ok) => !s.comesLate n
  | _ => true

variable {cfg returns s} {c n : ℕ} {r : Request} {call : Call}

/-! ### Nothing is decided by a lost connection -/

/-- An outcome of a reservation that its run function could have returned without a lost connection. -/
def CouldReturn (returns : Returns) (s : State) (k : ℕ) (o : Outcome) : Prop :=
  ∃ y ∈ s.returned, y.reservation = some k ∧ y.outcome = o ∧
    returns y.transport y.request y.otherwise o = true

/-- The context of a function that is at work is not done because of a lost connection; every recorded
outcome could have been returned without one; and so could what a later call for the operation gets. -/
structure Undecided (cfg : JournalConfig) (returns : Returns) (s : State) : Prop where
  contexts : ∀ n r call, s.requests.lookup n = some r → s.journal.call n = some call →
    call.phase.isRunning = true → Cause.lost ∉ s.causes r
  rows : ∀ id row o, s.journal.table.lookup id = some row → row.completed = some o →
    s.CouldReturn returns row.reservation o
  answers : ∀ a ∈ s.journal.history.answers, a.error = none →
    (∃ k, s.CouldReturn returns k a.outcome) ∧
    ∀ k, a.reservation = some k → s.CouldReturn returns k a.outcome ∧
      ∃ r, s.journal.history.reservations[k]? = some r ∧ r.id = a.id ∧
        cfg.canonical r.request = cfg.canonical a.request

/-- The invariant. -/
structure StateOK (cfg : JournalConfig) (returns : Returns) (s : State) : Prop where
  journal : SystemOK cfg s.journal
  answered : Answered cfg s.journal.history
  known : ∀ n call, s.journal.call n = some call → ∃ r, s.requests.lookup n = some r
  contexts : ∀ n r, s.requests.lookup n = some r →
    r.context = requestContext r.transport r.connection n
  lost : ∀ x, s.cancelled.lookup x = some .lost → ∃ c, x = .connection c
  held : ∀ n r call, s.requests.lookup n = some r → r.transport = .http →
    s.journal.call n = some call → call.phase.isRunning = true →
    s.cancelled.lookup (.connection r.connection) ≠ some .lost
  ended : ∀ x ∈ s.journal.history.ended, s.CouldReturn returns x.1 x.2

/-- A lost connection ends the context of a request only if it is an HTTP connection. -/
lemma StateOK.lost_notMem (hs : StateOK cfg returns s) (hr : s.requests.lookup n = some r)
    (hheld : r.transport = .http → s.cancelled.lookup (.connection r.connection) ≠ some .lost) :
    Cause.lost ∉ s.causes r := by
  intro hmem
  obtain ⟨x, hx, hlost⟩ := mem_causes.mp hmem
  obtain ⟨c, rfl⟩ := hs.lost x hlost
  rw [hs.contexts n r hr] at hx
  unfold requestContext at hx
  split at hx
  · simp at hx
  · simp at hx
  · next hhttp =>
    have hc : c = r.connection := by simpa using hx
    exact hheld hhttp (hc ▸ hlost)

lemma StateOK.undecided (hs : StateOK cfg returns s) (hcfg : Injective cfg.sha256) :
    Undecided cfg returns s where
  contexts := fun n r call hr hcall hrun =>
    hs.lost_notMem hr fun hhttp => hs.held n r call hr hhttp hcall hrun
  rows := fun id row o hrow ho => hs.ended _ (hs.journal.stored.completed id row o hrow ho)
  answers := by
    intro a ha herror
    obtain ⟨k, -, hk, -⟩ := hs.answered a ha herror
    refine ⟨⟨k, hs.ended _ hk⟩, fun k' hk' => ?_⟩
    obtain ⟨r, hr, hid, houtcome, hother⟩ := (hs.journal.recorded.answers a ha).canonical hcfg k' hk'
    refine ⟨hs.ended _ (houtcome herror), r, hr, hid, ?_⟩
    by_contra hne
    exact (hother (Ne.symm hne)).1 herror

/-! ### Steps of the server -/

/-- Calls of cancel functions that are not for a lost connection. -/
def Unlost (t t' : Cancelled Scope Cause) : Prop :=
  ∀ x, t'.lookup x = some .lost → t.lookup x = some .lost

lemma unlost_cancel (t : Cancelled Scope Cause) (i : Scope) {cause : Cause} (h : cause ≠ .lost) :
    Unlost t (t.cancel i cause) := by
  intro x hx
  rcases lookup_cancel hx with hx | ⟨-, hcause⟩
  · exact hx
  · exact absurd hcause.symm h

lemma unlost_cancelRunning (t : Cancelled Scope Cause) (l : List (Sigma fun _ : String => ℕ)) :
    Unlost t (cancelRunning t l) := by
  induction l generalizing t with
  | nil => exact fun x hx => hx
  | cons e l ih => exact fun x hx => unlost_cancel t _ (by decide) x (ih _ x hx)

lemma StateOK.cancel (hs : StateOK cfg returns s) {t : Cancelled Scope Cause}
    (ht : Unlost s.cancelled t) (stopped : Bool) (running : FinMap String ℕ) :
    StateOK cfg returns { s with cancelled := t, stopped := stopped, running := running } where
  journal := hs.journal
  answered := hs.answered
  known := hs.known
  contexts := hs.contexts
  lost := fun x hx => hs.lost x (ht x hx)
  held := fun n r call hr hhttp hcall hrun hlost => hs.held n r call hr hhttp hcall hrun (ht _ hlost)
  ended := hs.ended

/-- A connection is lost while no function is at work for an HTTP request on it. -/
lemma StateOK.lose (hs : StateOK cfg returns s) (hc : s.runsOver c = false) :
    StateOK cfg returns { s with cancelled := s.cancelled.cancel (.connection c) .lost } where
  journal := hs.journal
  answered := hs.answered
  known := hs.known
  contexts := hs.contexts
  lost := by
    intro x hx
    rcases lookup_cancel hx with hx | ⟨rfl, -⟩
    · exact hs.lost x hx
    · exact ⟨c, rfl⟩
  held := by
    intro n r call hr hhttp hcall hrun hlost
    rcases lookup_cancel hlost with hlost | ⟨hconn, -⟩
    · exact hs.held n r call hr hhttp hcall hrun hlost
    · have hnone := any_eq_false.mp hc _ ((FinMap.lookup_eq_some_iff_mem _ _ _).mp hr)
      simp [hhttp, Scope.connection.inj hconn, hcall, hrun] at hnone
  ended := hs.ended

variable {now : ℕ} {journal : System}

lemma StateOK.request (hs : StateOK cfg returns s) {id : String}
    {request : List UInt8} (hfresh : s.requests.lookup n = none)
    (hstep : s.journal.step cfg (.execute n id request now) = some journal) (transport : Transport)
    (key : Option String) (running : FinMap String ℕ) :
    StateOK cfg returns { s with
      journal := journal
      running := running
      requests := s.requests.insert n ⟨transport, c, requestContext transport c n, key⟩ } := by
  have hcall : ∀ n' call', journal.call n' = some call' → (∃ call, s.journal.call n' = some call ∧
        (call'.phase.isRunning = true → call.phase.isRunning = true)) ∨
      n' = n ∧ call'.phase.isRunning = false := by
    intro n' call' hcall'
    cases source_of_step hstep hcall' with
    | old call hcall hrun =>
      refine .inl ⟨call, hcall, fun h => ?_⟩
      rcases hrun h with h | ⟨⟨_, h⟩, -⟩
      · exact h
      · cases h
    | new id' request' now' ha hrun =>
      cases ha
      exact .inr ⟨rfl, hrun⟩
  refine ⟨System.keeps_systemOK _ hs.journal hstep,
    answered_of_step hs.journal hs.answered hstep, ?_, ?_, hs.lost, ?_, ?_⟩
  · intro n' call' hcall'
    rw [FinMap.lookup_insert_eq]
    split
    · exact ⟨_, rfl⟩
    rename_i hne
    rcases hcall n' call' hcall' with ⟨call, hold, -⟩ | ⟨heq, -⟩
    · exact hs.known n' call hold
    · exact absurd heq hne
  · intro n' r hr
    rw [FinMap.lookup_insert_eq] at hr
    split at hr
    · next heq =>
      cases hr
      rw [heq]
    · exact hs.contexts n' r hr
  · intro n' r call' hr hhttp hcall' hrun
    rcases hcall n' call' hcall' with ⟨call, hold, hrunning⟩ | ⟨-, hidle⟩
    · rw [FinMap.lookup_insert_eq] at hr
      split at hr
      · next heq =>
        -- a number that is in use was never given to a request before
        obtain ⟨r', hr'⟩ := hs.known n' call hold
        rw [heq, hfresh] at hr'
        cases hr'
      · exact hs.held n' r call hr hhttp hold (hrunning hrun)
    · rw [hidle] at hrun
      cases hrun
  · intro x hx
    rcases ended_of_step hstep with heq | ⟨_, _, _, _, _, _, _, ha, -⟩
    · rw [heq] at hx
      exact hs.ended x hx
    · cases ha

variable {a : Operation.Action}

/-- The journal takes a step for calls that are there, and the outcome of a function that returns is
noted. -/
lemma StateOK.advance (hs : StateOK cfg returns s)
    (hstep : s.journal.step cfg a = some journal)
    (hold : ∀ n id request now, a ≠ .execute n id request now)
    (hlate : ∀ n now, a = .reserve n now .ok → s.comesLate n = false) {returned : List Return}
    (hkept : ∀ y ∈ s.returned, y ∈ returned)
    (hended : ∀ x ∈ journal.history.ended, x ∈ s.journal.history.ended ∨
      CouldReturn returns { s with journal := journal, returned := returned } x.1 x.2) :
    StateOK cfg returns { s with journal := journal, returned := returned } where
  journal := System.keeps_systemOK _ hs.journal hstep
  answered := answered_of_step hs.journal hs.answered hstep
  known := by
    intro n call' hcall'
    cases source_of_step hstep hcall' with
    | old call hcall => exact hs.known n call hcall
    | new id request now ha => exact absurd ha (hold n id request now)
  contexts := hs.contexts
  lost := hs.lost
  held := by
    intro n r call' hr hhttp hcall' hrunning
    cases source_of_step hstep hcall' with
    | old call hcall hrun =>
      rcases hrun hrunning with hrun | ⟨⟨now, ha⟩, hrow⟩
      · exact hs.held n r call hr hhttp hcall hrun
      · -- a function that is called for an HTTP request has its connection
        intro hlost
        simpa [comesLate, hr, hhttp, hlost, hcall, hrow] using hlate n now ha
    | new id request now ha => exact absurd ha (hold n id request now)
  ended := by
    intro x hx
    rcases hended x hx with hx | hx
    · obtain ⟨y, hy, hreturn⟩ := hs.ended x hx
      exact ⟨y, hkept y hy, hreturn⟩
    · exact hx

lemma StateOK.advance_same (hs : StateOK cfg returns s)
    (hstep : s.journal.step cfg a = some journal)
    (hold : ∀ n id request now, a ≠ .execute n id request now)
    (hlate : ∀ n now, a = .reserve n now .ok → s.comesLate n = false)
    (hfinish : ∀ n outcome now, a ≠ .finish n outcome now) :
    StateOK cfg returns { s with journal := journal } := by
  refine hs.advance hstep hold hlate (fun y hy => hy) fun x hx => .inl ?_
  rcases ended_of_step hstep with heq | ⟨n, outcome, now, _, _, _, _, ha, -⟩
  · rw [← heq]
    exact hx
  · exact absurd ha (hfinish n outcome now)

/-- Without a lost connection among the causes, a context is done exactly for another reason. -/
lemma any_ne_lost {l : List Cause} (h : Cause.lost ∉ l) : l.any (· ≠ .lost) = decide (l ≠ []) := by
  cases l with
  | nil => rfl
  | cons cause =>
    have hne : cause ≠ .lost := fun heq => h (heq ▸ mem_cons_self)
    simp [hne]

lemma StateOK.finish (hs : StateOK cfg returns s) {outcome : Outcome}
    (hr : s.requests.lookup n = some r) (hcall : s.journal.call n = some call)
    (hstep : s.journal.step cfg (.finish n outcome now) = some journal)
    (hreturns : returns r.transport call.request (s.causes r ≠ []) outcome = true) :
    StateOK cfg returns { s with
      journal := journal
      returned := s.returned ++
        [⟨call.reservation, r.transport, call.request, (s.causes r).any (· ≠ .lost), outcome⟩] } := by
  refine hs.advance hstep nofun nofun (fun y hy => mem_append_left _ hy) fun x hx => ?_
  rcases ended_of_step hstep with heq | ⟨n', _, _, m, c, ref, e, ha, hmem, hc, hphase, he, heq⟩
  · exact .inl (heq ▸ hx)
  cases ha
  obtain rfl : call = c := by
    rw [call_eq hmem, hc] at hcall
    exact (some.inj hcall).symm
  rw [heq] at hx
  rcases mem_append.mp hx with hx | hx
  · exact .inl hx
  obtain rfl := mem_singleton.mp hx
  right
  have hrunning : call.phase.isRunning = true := by rw [hphase]; rfl
  have hlost := hs.lost_notMem hr fun hhttp => hs.held n r call hr hhttp hcall hrunning
  have hactive := (hs.journal.memory m hmem).calls n call hc
  rw [hphase] at hactive
  obtain ⟨e', hactive, -⟩ := hactive
  cases he.symm.trans hactive.heap
  refine ⟨_, mem_append_right _ (mem_singleton_self _), hactive.reservation, rfl, ?_⟩
  dsimp only
  rw [any_ne_lost hlost]
  exact hreturns

lemma StateOK.crash (hs : StateOK cfg returns s)
    (hstep : s.journal.step cfg .crash = some journal) :
    StateOK cfg returns ⟨journal, false, ∅, ∅, ∅, ∅, s.returned⟩ := by
  have hnext := hs.advance_same hstep nofun nofun nofun
  have hnone : ∀ n call, journal.call n ≠ some call := by
    intro n call hcall
    obtain ⟨m, -, rfl⟩ := map_eq_some_iff.mp hstep
    cases hcall
  exact ⟨hnext.journal, hnext.answered, fun n call hcall => absurd hcall (hnone n call), nofun, nofun,
    nofun, hnext.ended⟩

/-- Every step on which no HTTP connection is lost under a function keeps the invariant. -/
lemma keeps_stateOK : KeepsUnder (fun s a => step cfg returns s a) (fun s a => s.connected a = true)
    (StateOK cfg returns) := by
  intro s a s' hs hcond hstep
  cases a <;> simp only [step, bind_eq_bind, bind_eq_some_iff,
    ite_none_left_eq_some, ite_none_right_eq_some, some.injEq] at hstep
  case accept =>
    obtain ⟨-, rfl⟩ := hstep
    exact { hs with }
  case lose =>
    obtain ⟨_, -, rfl⟩ := hstep
    exact hs.lose (Bool.not_eq_true' _ ▸ hcond)
  case request n c _ _ _ _ =>
    obtain ⟨transport, -, hnot, journal, hjournal, rfl⟩ := hstep
    have hrequest := hs.request (c := c) (by simpa using (not_or.mp hnot).1) hjournal
    unfold start
    repeat' split
    all_goals exact hrequest _ _ _
  case deadline | leave | revoke =>
    obtain ⟨r, -, -, rfl⟩ := hstep
    exact hs.cancel (unlost_cancel _ _ (by decide)) s.stopped _
  case cancel =>
    split at hstep <;> cases hstep
    · exact hs
    · exact hs.cancel (unlost_cancel _ _ (by decide)) s.stopped s.running
  case shutdown =>
    cases hstep
    refine hs.cancel (fun x hx => ?_) true s.running
    exact unlost_cancel _ _ (by decide) x (unlost_cancelRunning _ _ x hx)
  case journal a =>
    have hlate : ∀ n now, a = .reserve n now .ok → s.comesLate n = false := by
      rintro n now rfl
      exact Bool.not_eq_true' _ ▸ hcond
    have hmap : ∀ {a : Action}, (∀ n now, a = .reserve n now .ok → s.comesLate n = false) →
        (∀ n id request now, a ≠ .execute n id request now) →
        (∀ n outcome now, a ≠ .finish n outcome now) →
        ((s.journal.step cfg a).map fun journal => { s with journal := journal }) = some s' →
        StateOK cfg returns s' := by
      intro a hlate hold hfinish hmap
      obtain ⟨journal, hjournal, rfl⟩ := map_eq_some_iff.mp hmap
      exact hs.advance_same hjournal hold hlate hfinish
    unfold State.advance at hstep
    split at hstep
    · cases hstep
    · obtain ⟨journal, hjournal, rfl⟩ := map_eq_some_iff.mp hstep
      exact hs.crash hjournal
    · simp only [bind_eq_bind, bind_eq_some_iff, ite_none_right_eq_some] at hstep
      obtain ⟨r, hr, call, hcall, journal, hjournal, hreturns, hstep⟩ := hstep
      cases hstep
      exact hs.finish hr hcall hjournal hreturns
    · obtain ⟨r, -, hstep⟩ := bind_eq_some_iff.mp hstep
      split at hstep
      · exact hmap hlate nofun nofun hstep
      · cases hstep
    · next hexecute hcrash hfinish hcancel => exact hmap hlate hexecute hfinish hstep

lemma initial_stateOK : StateOK cfg returns initial :=
  ⟨System.initial_ok cfg, nofun, nofun, nofun, nofun, nofun, nofun⟩

/-- In every run on which no HTTP connection is lost under a run function, no lost connection decides an
operation. -/
theorem disconnect_decides_nothing (hcfg : Function.Injective cfg.sha256) {events : List Event}
    (hmeets : Meets (fun s a => step cfg returns s a) (fun s a => s.connected a = true) initial events)
    (hrun : run (fun s a => step cfg returns s a) initial events = some s) :
    Undecided cfg returns s :=
  (keeps_stateOK.run initial_stateOK hmeets hrun).undecided hcfg

/-! ### Examples of runs -/

/-- The run function of `serveCollection`, by what `Service.Create` gives. -/
def createOutcome : Except String (List UInt8) → Outcome
  | .error code => ⟨[], code⟩
  | .ok encoded => ⟨encoded, ""⟩

/-- `Service.Create` on a store that works: the transaction fails only when its context is done. -/
def createReturns (encoded : List UInt8) : Returns := fun _ _ done outcome =>
  outcome = createOutcome (.ok encoded) ∨
    done = true ∧ outcome = createOutcome (.error "storage_unavailable")

/-- A client creates a batch, its connection is lost while the function is at work, and it asks again
over another connection. -/
def retriedCreate (transport : Transport) (outcome : Outcome) : List Event :=
  [.journal (.start 0 3), .accept 1 transport, .request 1 1 "binding" "operation-a" [1] 0,
    .journal (.reserve 1 0 .ok), .lose 1, .journal (.finish 1 outcome 0), .journal (.complete 1 .ok),
    .journal (.record 1), .accept 2 transport, .request 2 2 "binding" "operation-a" [1] 0,
    .journal (.answer 2)]

/-- Over a WebSocket the batch is created, and the client gets the answer. -/
theorem retriedCreate_undecided : ∃ s,
    run (fun s a => step System.smallJournal (createReturns [7]) s a) initial
      (retriedCreate .webSocket ⟨[7], ""⟩) = some s ∧
      s.journal.history.answers.map Operation.Answer.outcome = [⟨[7], ""⟩, ⟨[7], ""⟩] ∧
      Undecided System.smallJournal (createReturns [7]) s :=
  exists_and_of_any (by decide +kernel) fun _ hs =>
    disconnect_decides_nothing Function.injective_id (by decide +kernel) hs

/-- Over HTTP the context of the function is done because the connection is lost, and the failure, not
returned otherwise, is recorded and given to the client that asks again. -/
theorem disconnect_decides : (run (fun s a => step System.smallJournal (createReturns [7]) s a) initial
      ((retriedCreate .http ⟨[], "storage_unavailable"⟩).take 5)).map
        (fun s => ((s.requests.lookup 1).map s.causes, (s.journal.call 1).map (·.phase.isRunning))) =
      some (some [.lost], some true) ∧
    (run (fun s a => step System.smallJournal (createReturns [7]) s a) initial
      (retriedCreate .http ⟨[], "storage_unavailable"⟩)).map
        (fun s => ((s.journal.table.lookup "operation-a").map (·.completed),
          s.journal.history.answers.map fun a => (a.outcome, a.error), s.returned.map Return.otherwise)) =
      some (some (some ⟨[], "storage_unavailable"⟩),
        [(⟨[], "storage_unavailable"⟩, none), (⟨[], "storage_unavailable"⟩, none)], [false]) ∧
    createReturns [7] .http [1] false ⟨[], "storage_unavailable"⟩ = false := by
  refine ⟨?_, ?_, ?_⟩ <;> decide +kernel

end State

end Paperboat.Server

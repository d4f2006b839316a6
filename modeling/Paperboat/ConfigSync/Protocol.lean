import Paperboat.ConfigSync.Publisher
import Paperboat.Lib.Traces

/-!
# The protocol of a publication

`Publisher.Sync` against any lease authority and any repository: each of their calls returns what it
likes, and the remote may change between any two of them. `publish_justified` says that `Sync` pushes
at most once, and what has to have been answered before. The second half follows the lease: it is
released in the deferred function, which reads the variable that the renewal assigns.
-/

namespace Paperboat.ConfigSync.Protocol

open List Prog

open Publisher (PreparedPublication PublishResult noResult)

/-! ### The calls -/

/-- The errors that `Sync` tells apart; an error joins any number of them. -/
inductive Fault where
  | remoteRevisionChanged
  | configConflict
  | leaseLost
  | authorization
  | syncUncertain
  | other (message : String)
  deriving DecidableEq

/-- An error, as `errors.Join` makes it. -/
abbrev Err := List Fault

/-- `Lease`, as far as `Sync` reads it. -/
structure Lease where
  leaseID : String
  fencingToken : ℤ
  baseRevision : String
  expiresAt : ℤ
  deriving DecidableEq

/-- `Lease{}`. -/
def Lease.zero : Lease := ⟨"", 0, "", 0⟩

/-- The calls of `Sync`. The deadline of a call is that of its context. -/
inductive Call where
  | fetch (deadline : Option ℤ)
  | credential (deadline : Option ℤ)
  | reconcile (revision : String)
  | acquireLease (baseRevision : String) (ttl : ℤ)
  | renewLease (lease : Lease) (ttl : ℤ)
  | releaseLease (lease : Lease)
  | clock
  | publicationPrepared (prepared : PreparedPublication) (deadline : ℤ)
  | publicationCommitted (prepared : PreparedPublication) (revision : String)
  | publicationAborted (prepared : PreparedPublication)
  | publish (prepared : PreparedPublication) (fencingToken : ℤ) (deadline : ℤ)
  | observeCommit (commitID : String)
  deriving DecidableEq

/-- What the calls return. A renewal and a push are read also where they return an error. -/
abbrev Reply : Call → Type
  | .fetch _ => Except Err String
  | .credential _ | .releaseLease _ => Option Err
  | .publicationPrepared _ _ | .publicationCommitted _ _ | .publicationAborted _ => Option Err
  | .reconcile _ => Except Err PreparedPublication
  | .acquireLease _ _ => Except Err Lease
  | .renewLease _ _ => Lease × Option Err
  | .clock => ℤ
  | .publish _ _ _ => PublishResult × Option Err
  | .observeCommit _ => Except Err (Bool × String)

/-- A part of `Sync`. -/
abbrev Operation (α : Type) : Type := Prog Reply α

/-- Make a call. -/
abbrev request (c : Call) : Operation (Reply c) := Prog.request c

/-- `Publisher`: its times, and which of the optional interfaces the repository has. -/
structure Publisher where
  leaseTTL : ℤ
  publicationMargin : ℤ
  observer : Bool
  journal : Bool
  deriving DecidableEq

/-- What `Sync` returns. -/
structure Answer where
  result : PublishResult
  error : Option Err
  deriving DecidableEq

/-- An error without a result. -/
def failure (e : Err) : Answer := ⟨noResult, some e⟩

namespace Publisher

variable (p : Publisher)

/-! ### Sync -/

/-- A publication has landed: tell the observer, and answer. -/
def committed (prepared : PreparedPublication) (revision : String) (result : PublishResult) :
    Operation Answer := do
  if p.observer then
    match ← request (.publicationCommitted prepared revision) with
    | some observeErr => return failure observeErr
    | none => return ⟨result, none⟩
  else return ⟨result, none⟩

/-- A push has failed: tell the journal, and answer. -/
def aborted (prepared : PreparedPublication) (err : Err) : Operation Answer := do
  if p.journal then
    match ← request (.publicationAborted prepared) with
    | some abortErr => return failure (err ++ abortErr)
    | none => return failure err
  else return failure err

/-- The end of `Sync`, where an uncertain push is observed. -/
def observed (prepared : PreparedPublication) : Operation Answer := do
  match ← request (.observeCommit prepared.commitID) with
  | .error observeErr => return ⟨⟨"", false, true⟩, some (.syncUncertain :: observeErr)⟩
  | .ok (true, revision) => p.committed prepared revision ⟨revision, true, false⟩
  | .ok (false, revision) => return ⟨⟨revision, false, true⟩, some [.syncUncertain]⟩

/-- `Sync` behind the push. -/
def pushed (prepared : PreparedPublication) (published : PublishResult) (err : Option Err) :
    Operation Answer :=
  match err with
  | none =>
    if published.landed ∧ published.uncertain = false ∧ published.remoteRevision ≠ "" then
      p.committed prepared published.remoteRevision published
    else p.observed prepared
  | some err =>
    if published.uncertain = false then p.aborted prepared err else p.observed prepared

/-- The call of `PublicationPrepared`, for a repository with a journal. -/
def journaled (prepared : PreparedPublication) (deadline : ℤ) : Operation (Option Err) :=
  if p.journal then request (.publicationPrepared prepared deadline) else return none

/-- `Sync` from the renewed lease on. -/
def publishRenewed (prepared : PreparedPublication) (lease : Lease) : Operation Answer := do
  let publicationDeadline := lease.expiresAt - p.publicationMargin
  let now ← request .clock
  if ¬ now < publicationDeadline then return failure [.leaseLost]
  else
    match ← request (.credential (some publicationDeadline)) with
    | some err => return failure (.authorization :: err)
    | none =>
      match ← request (.fetch (some publicationDeadline)) with
      | .error err => return failure err
      | .ok current =>
        if current ≠ prepared.expectedRemoteRevision then return failure [.remoteRevisionChanged]
        else
          match ← p.journaled prepared publicationDeadline with
          | some err => return failure err
          | none =>
            let (published, err) ← request (.publish prepared lease.fencingToken publicationDeadline)
            p.pushed prepared published err

/-- `Sync` under the lease: the answer, and the lease that the deferred function finds. -/
def syncLeased (remote : String) (lease : Lease) : Operation (Answer × Lease) := do
  match ← request (.fetch none) with
  | .error err => return (failure err, lease)
  | .ok verified =>
    if verified ≠ remote ∨ lease.baseRevision ≠ remote then
      return (failure [.remoteRevisionChanged], lease)
    else
      match ← request (.reconcile verified) with
      | .error err => return (failure err, lease)
      | .ok prepared =>
        if prepared.hasChanges = false then
          let answer ← p.committed prepared verified ⟨verified, true, false⟩
          return (answer, lease)
        else if prepared.expectedRemoteRevision ≠ remote ∨ prepared.commitID = "" then
          return (failure [.remoteRevisionChanged], lease)
        else
          let (lease, err) ← request (.renewLease lease p.leaseTTL)
          match err with
          | some err => return (failure err, lease)
          | none =>
            let answer ← p.publishRenewed prepared lease
            return (answer, lease)

/-- `Sync` from `AcquireLease` to the deferred `ReleaseLease`. -/
def syncWithLease (remote : String) : Operation Answer := do
  match ← request (.acquireLease remote p.leaseTTL) with
  | .error err => return failure err
  | .ok lease =>
    let (answer, lease) ← p.syncLeased remote lease
    let releaseErr ← request (.releaseLease lease)
    return if answer.error = none then { answer with error := releaseErr } else answer

/-- `Sync`. -/
def sync : Operation Answer := do
  match ← request (.fetch none) with
  | .error err => return failure err
  | .ok remote =>
    if remote = "" then return failure [.remoteRevisionChanged]
    else
      match ← request (.credential none) with
      | some err => return failure (.authorization :: err)
      | none =>
        match ← request (.reconcile remote) with
        | .error err =>
          return if .configConflict ∈ err then ⟨⟨remote, false, false⟩, some [.configConflict]⟩
            else failure err
        | .ok prepared =>
          if prepared.hasChanges = false then p.committed prepared remote ⟨remote, true, false⟩
          else p.syncWithLease remote

/-- Everything that is exchanged in one `Sync`. -/
def exchanges (b : Behaviour Reply) : List (Exchange Reply) := (p.sync.play b []).1

/-! ### What a push needs -/

end Publisher

/-- The call is a push. -/
def Call.isPublish : Call → Bool
  | .publish _ _ _ => true
  | _ => false

/-- The call gives a lease back. -/
def Call.isRelease : Call → Bool
  | .releaseLease _ => true
  | _ => false

namespace Publisher

variable (p : Publisher)

/-- What is exchanged, in this order, before a push: a lease for the revision, the remote at that
revision, a publication prepared from it, the renewed lease, the time, the credential, the remote at
that revision again, and the journal. -/
def evidence (revision : String) (lease renewed : Lease) (prepared : PreparedPublication) (now : ℤ) :
    List (Exchange Reply) :=
  [⟨.acquireLease revision p.leaseTTL, .ok lease⟩, ⟨.fetch none, .ok revision⟩,
    ⟨.reconcile revision, .ok prepared⟩, ⟨.renewLease lease p.leaseTTL, (renewed, none)⟩,
    ⟨.clock, now⟩, ⟨.credential (some (renewed.expiresAt - p.publicationMargin)), none⟩,
    ⟨.fetch (some (renewed.expiresAt - p.publicationMargin)), .ok revision⟩] ++
    if p.journal then
      [⟨.publicationPrepared prepared (renewed.expiresAt - p.publicationMargin), none⟩] else []

/-- The exchanges before a push justify it: everything was for one revision, the lease has not been
given back, and its renewal left time. -/
def Justified (before : List (Exchange Reply)) (prepared : PreparedPublication)
    (fencingToken deadline : ℤ) : Prop :=
  ∃ revision lease renewed now, (p.evidence revision lease renewed prepared now).Sublist before ∧
    (∀ e ∈ before, e.1.isRelease = false) ∧ lease.baseRevision = revision ∧
    prepared.expectedRemoteRevision = revision ∧ prepared.hasChanges = true ∧
    prepared.commitID ≠ "" ∧ deadline = renewed.expiresAt - p.publicationMargin ∧ now < deadline ∧
    fencingToken = renewed.fencingToken

/-- The condition on the calls: a push is justified and the first one. -/
def Allowed (past : List (Exchange Reply)) : Call → Prop
  | .publish prepared fencingToken deadline =>
    p.Justified past prepared fencingToken deadline ∧ ∀ e ∈ past, e.1.isPublish = false
  | _ => True

/-- Nothing has been pushed or given back. -/
def Fresh (past : List (Exchange Reply)) : Prop :=
  ∀ e ∈ past, e.1.isPublish = false ∧ e.1.isRelease = false

variable {p} {past : List (Exchange Reply)}

lemma allowed_of_not_publish {c : Call} (h : c.isPublish = false) : p.Allowed past c := by
  cases c with
  | publish => cases h
  | _ => trivial

/-- What was exchanged has the evidence in it, and no push and no release. -/
structure Underway (evidence past : List (Exchange Reply)) : Prop where
  evidence : evidence.Sublist past
  fresh : Fresh past

/-- A call that neither pushes nor gives a lease back. -/
lemma Underway.request {l : List (Exchange Reply)} (h : Underway l past) {c : Call} {α : Type}
    {next : Reply c → Operation α} {Q : α → List (Exchange Reply) → Prop} (hpublish : c.isPublish = false)
    (hrelease : c.isRelease = false) (hnext : ∀ r, Underway (l ++ [⟨c, r⟩]) (past ++ [⟨c, r⟩]) →
      (next r).Guarded p.Allowed Q (past ++ [⟨c, r⟩])) :
    (request c >>= next).Guarded p.Allowed Q past :=
  guarded_request_bind.mpr ⟨allowed_of_not_publish hpublish, fun r =>
    hnext r ⟨h.evidence.append (.refl _), forall_mem_concat h.fresh ⟨hpublish, hrelease⟩⟩⟩

variable {P : Call → Prop}

lemma committed_makes (p : Publisher) (prepared : PreparedPublication) (revision : String)
    (result : PublishResult) (h : P (.publicationCommitted prepared revision)) :
    (p.committed prepared revision result).Makes P := by
  unfold committed
  split
  · refine Makes.request_bind h fun r => ?_
    split
    · trivial
    · trivial
  · trivial

/-- What follows a push are calls to the journal, to the observer and for the observation. -/
lemma pushed_makes (p : Publisher) (prepared : PreparedPublication) (published : PublishResult)
    (err : Option Err) (hcommitted : ∀ revision, P (.publicationCommitted prepared revision))
    (haborted : P (.publicationAborted prepared)) (hobserve : P (.observeCommit prepared.commitID)) :
    (p.pushed prepared published err).Makes P := by
  have hobserved : (p.observed prepared).Makes P := by
    refine Makes.request_bind hobserve fun r => ?_
    split
    · trivial
    · exact committed_makes p prepared _ _ (hcommitted _)
    · trivial
  unfold pushed
  split
  · split
    · exact committed_makes p prepared _ _ (hcommitted _)
    · exact hobserved
  · split
    · unfold aborted
      split
      · refine Makes.request_bind haborted fun r => ?_
        split
        · trivial
        · trivial
      · trivial
    · exact hobserved

lemma guarded_of_makes {α : Type} {q : Operation α} (h : q.Makes fun c => c.isPublish = false)
    (past : List (Exchange Reply)) : q.Guarded p.Allowed (fun _ _ => True) past :=
  (h.guarded (fun _ _ hc => allowed_of_not_publish hc) past).mono fun _ _ _ => trivial

variable {lease : Lease}

/-- From the renewed lease on, the push is justified by what was exchanged before and here. -/
lemma guarded_publishRenewed {revision : String} {renewed : Lease} {prepared : PreparedPublication}
    (h : Underway [⟨.acquireLease revision p.leaseTTL, .ok lease⟩, ⟨.fetch none, .ok revision⟩,
      ⟨.reconcile revision, .ok prepared⟩, ⟨.renewLease lease p.leaseTTL, (renewed, none)⟩] past)
    (hlease : lease.baseRevision = revision) (hprepared : prepared.expectedRemoteRevision = revision)
    (hchanges : prepared.hasChanges = true) (hcommit : prepared.commitID ≠ "") :
    (p.publishRenewed prepared renewed).Guarded p.Allowed (fun _ _ => True) past := by
  unfold publishRenewed
  refine h.request rfl rfl fun now h => ?_
  split
  · trivial
  next htime =>
  rw [not_not] at htime
  generalize hdeadline : renewed.expiresAt - p.publicationMargin = deadline at *
  refine h.request rfl rfl fun credential h => ?_
  rcases credential with _ | err
  swap
  · trivial
  refine h.request rfl rfl fun fetched h => ?_
  rcases fetched with err | current
  · trivial
  dsimp only
  split
  · trivial
  next hcurrent =>
  rw [not_not, hprepared] at hcurrent
  subst hcurrent
  -- whatever the journal adds, the push is the next call
  have hpush : ∀ past', Underway (p.evidence current lease renewed prepared now) past' →
      (request (.publish prepared renewed.fencingToken deadline) >>= fun r =>
        p.pushed prepared r.1 r.2).Guarded p.Allowed (fun _ _ => True) past' := by
    intro past' h
    have hjustified : p.Justified past' prepared renewed.fencingToken deadline :=
      ⟨current, lease, renewed, now, h.evidence, fun e he => (h.fresh e he).2, hlease, hprepared,
        hchanges, hcommit, hdeadline.symm, htime, rfl⟩
    refine guarded_request_bind.mpr ⟨⟨hjustified, fun e he => (h.fresh e he).1⟩, fun r => ?_⟩
    exact guarded_of_makes (pushed_makes p prepared r.1 r.2 (fun _ => rfl) rfl rfl) _
  unfold journaled
  rw [evidence, hdeadline] at hpush
  rcases hjournal : p.journal with _ | _
  · rw [hjournal] at hpush
    exact hpush _ h
  rw [hjournal] at hpush
  refine h.request rfl rfl fun journaled h => ?_
  rcases journaled with _ | err
  · exact hpush _ h
  · trivial

lemma guarded_syncLeased {remote : String}
    (h : Underway [⟨.acquireLease remote p.leaseTTL, .ok lease⟩] past) :
    (p.syncLeased remote lease).Guarded p.Allowed (fun _ _ => True) past := by
  unfold syncLeased
  refine h.request rfl rfl fun fetched h => ?_
  rcases fetched with err | verified
  · trivial
  dsimp only
  split
  · trivial
  next hsame =>
  push Not at hsame
  obtain ⟨rfl, hlease⟩ := hsame
  refine h.request rfl rfl fun reconciled h => ?_
  rcases reconciled with err | prepared
  · trivial
  dsimp only
  split
  · simp only [guarded_bind]
    exact (guarded_of_makes (committed_makes p prepared verified _ rfl) _).mono fun _ _ _ => trivial
  next hchanges =>
  split
  · trivial
  next hexpected =>
  push Not at hexpected
  refine h.request rfl rfl fun renewed h => ?_
  rcases renewed with ⟨renewed, _ | err⟩
  swap
  · trivial
  simp only [guarded_bind]
  exact (guarded_publishRenewed h hlease hexpected.1 (by simpa using hchanges)
    hexpected.2).mono fun _ _ _ => trivial

lemma guarded_sync (p : Publisher) : p.sync.Guarded p.Allowed (fun _ _ => True) [] := by
  have h : Underway [] [] := ⟨.refl _, nofun⟩
  unfold sync
  refine h.request rfl rfl fun fetched h => ?_
  rcases fetched with err | remote
  · trivial
  dsimp only
  split
  · trivial
  refine h.request rfl rfl fun credential h => ?_
  rcases credential with _ | err
  swap
  · trivial
  refine h.request rfl rfl fun reconciled h => ?_
  rcases reconciled with err | prepared
  · trivial
  dsimp only
  split
  · exact guarded_of_makes (committed_makes p prepared remote _ rfl) _
  unfold syncWithLease
  refine h.request rfl rfl fun acquired h => ?_
  rcases acquired with err | lease
  · trivial
  simp only [guarded_bind]
  exact (guarded_syncLeased ⟨(sublist_append_right _ _).trans h.evidence, h.fresh⟩).mono
    fun _ _ _ => ⟨trivial, fun _ => trivial⟩

/-- However the authority and the repository behave, `Sync` pushes at most once, and only what was
prepared under a lease that is still held, for the revision that the remote was found at before and
after. -/
theorem publish_justified (p : Publisher) (b : Behaviour Reply) :
    (p.exchanges b).countP (fun e => e.1.isPublish) ≤ 1 ∧
      ∀ before prepared fencingToken deadline reply after,
        p.exchanges b = before ++ ⟨.publish prepared fencingToken deadline, reply⟩ :: after →
          p.Justified before prepared fencingToken deadline := by
  have hguarded := guarded_sync p
  constructor
  · refine countP_le_one fun before e after heq hpublish x hx => ?_
    have hallowed : p.Allowed before e.1 := hguarded.allows b heq
    obtain ⟨c, reply⟩ := e
    cases c with
    | publish => exact hallowed.2 x hx
    | _ => cases hpublish
  · intro before prepared fencingToken deadline reply after heq
    have hallowed : p.Allowed before (.publish prepared fencingToken deadline) :=
      hguarded.allows b heq
    exact hallowed.1

end Publisher

/-- An authority and a repository that grant everything: the remote stays at one revision, there is one
commit to publish, and the push lands. -/
def granting : Behaviour Reply := fun _ c =>
  match c with
  | .fetch _ => .ok "head"
  | .credential _ | .releaseLease _ => none
  | .publicationPrepared _ _ | .publicationCommitted _ _ | .publicationAborted _ => none
  | .reconcile revision => .ok ⟨revision, "commit", true⟩
  | .acquireLease revision _ => .ok ⟨"lease", 7, revision, 100⟩
  | .renewLease lease _ => ({ lease with expiresAt := 200 }, none)
  | .clock => 150
  | .publish prepared _ _ => (⟨prepared.commitID, true, false⟩, none)
  | .observeCommit commitID => .ok (true, commitID)

namespace Publisher

/-- With everything granted the push is made, after eleven exchanges. -/
theorem granting_publish_justified : (⟨60, 5, true, true⟩ : Publisher).exchanges granting =
        ((⟨60, 5, true, true⟩ : Publisher).exchanges granting).take 11 ++
          ⟨.publish ⟨"head", "commit", true⟩ 7 195, (⟨"commit", true, false⟩, none)⟩ ::
          ((⟨60, 5, true, true⟩ : Publisher).exchanges granting).drop 12 ∧
      (⟨60, 5, true, true⟩ : Publisher).Justified
        (((⟨60, 5, true, true⟩ : Publisher).exchanges granting).take 11) ⟨"head", "commit", true⟩ 7 195 :=
  ⟨rfl, (publish_justified ⟨60, 5, true, true⟩ granting).2 _ _ _ _ _ _ rfl⟩

end Publisher

/-! ### What happens to a lease -/

/-- The call is about a lease. -/
def Call.isLease : Call → Bool
  | .acquireLease _ _ | .renewLease _ _ | .releaseLease _ => true
  | _ => false

/-- The leases that were acquired. -/
def acquired (exchanges : List (Exchange Reply)) : List Lease :=
  exchanges.filterMap fun
    | ⟨.acquireLease _ _, .ok lease⟩ => some lease
    | _ => none

/-- The exchange gives back a lease with this ID and this fencing token. -/
def releases (lease : Lease) : Exchange Reply → Bool
  | ⟨.releaseLease given, _⟩ =>
    given.leaseID = lease.leaseID ∧ given.fencingToken = lease.fencingToken
  | _ => false

/-- Every lease that was acquired is given back exactly once. -/
def EveryLeaseReleased (exchanges : List (Exchange Reply)) : Prop :=
  ∀ lease ∈ acquired exchanges, exchanges.countP (releases lease) = 1

instance (exchanges : List (Exchange Reply)) : Decidable (EveryLeaseReleased exchanges) :=
  List.decidableBAll _ _

/-- A renewal returns the ID and the fencing token of the lease that it renews, also next to an
error. -/
def renewalKeeps : Exchange Reply → Bool
  | ⟨.renewLease lease _, renewed⟩ =>
    renewed.1.leaseID = lease.leaseID ∧ renewed.1.fencingToken = lease.fencingToken
  | _ => true

/-- No lease is involved. -/
def Quiet (exchanges : List (Exchange Reply)) : Prop := ∀ e ∈ exchanges, e.1.isLease = false

variable {l : List (Exchange Reply)}

lemma Quiet.acquired_eq (h : Quiet l) : acquired l = [] := by
  rw [acquired, filterMap_eq_nil_iff]
  rintro ⟨c, reply⟩ he
  have hquiet := h _ he
  cases c with
  | acquireLease => cases hquiet
  | _ => rfl

lemma Quiet.countP_eq (h : Quiet l) (lease : Lease) : l.countP (releases lease) = 0 := by
  rw [countP_eq_zero]
  rintro ⟨c, reply⟩ he
  have hquiet := h _ he
  cases c with
  | releaseLease => cases hquiet
  | _ => exact Bool.false_ne_true

lemma Quiet.renewalKeeps_eq (h : Quiet l) : ∀ e ∈ l, renewalKeeps e = true := by
  rintro ⟨c, reply⟩ he
  have hquiet := h _ he
  cases c with
  | renewLease => cases hquiet
  | _ => rfl

lemma Quiet.snoc (h : Quiet l) {e : Exchange Reply} (he : e.1.isLease = false) : Quiet (l ++ [e]) :=
  forall_mem_concat h he

lemma Quiet.append {l' : List (Exchange Reply)} (h : Quiet l) (h' : Quiet l') : Quiet (l ++ l') :=
  forall_mem_append.mpr ⟨h, h'⟩

namespace Publisher

variable (p : Publisher)

/-- What is exchanged while a lease is held: nothing about it, or one renewal, whose value the variable
has from then on. -/
def Held (lease final : Lease) (exchanges : List (Exchange Reply)) : Prop :=
  Quiet exchanges ∧ final = lease ∨
    ∃ before after err, exchanges = before ++ ⟨.renewLease lease p.leaseTTL, (final, err)⟩ :: after ∧
      Quiet before ∧ Quiet after

/-- The leases in the exchanges of a whole `Sync`: none, a refused one, or one that is held and given
back. -/
inductive Trail : List (Exchange Reply) → Prop where
  | none {l : List (Exchange Reply)} (h : Quiet l) : Trail l
  | refused {l : List (Exchange Reply)} (h : Quiet l) (revision : String) (err : Err) :
      Trail (l ++ [⟨.acquireLease revision p.leaseTTL, .error err⟩])
  | held {l m : List (Exchange Reply)} (h : Quiet l) (revision : String) {lease final : Lease}
      (hheld : p.Held lease final m) (reply : Option Err) :
      Trail (l ++ [⟨.acquireLease revision p.leaseTTL, .ok lease⟩] ++ m ++
        [⟨.releaseLease final, reply⟩])

variable {p} {past l : List (Exchange Reply)}

lemma publishRenewed_makes (p : Publisher) (prepared : PreparedPublication) (lease : Lease) :
    (p.publishRenewed prepared lease).Makes fun c => c.isLease = false := by
  unfold publishRenewed
  refine Makes.request_bind rfl fun now => ?_
  split
  · trivial
  refine Makes.request_bind rfl fun credential => ?_
  rcases credential with _ | err
  swap
  · trivial
  refine Makes.request_bind rfl fun fetched => ?_
  rcases fetched with err | current
  · trivial
  dsimp only
  split
  · trivial
  have hjournaled : (p.journaled prepared (lease.expiresAt - p.publicationMargin)).Makes
      fun c => c.isLease = false := by
    unfold journaled
    split
    · exact ⟨rfl, fun _ => trivial⟩
    · trivial
  refine hjournaled.bind fun journaled => ?_
  rcases journaled with _ | err
  swap
  · trivial
  refine Makes.request_bind rfl fun published => ?_
  exact pushed_makes p prepared published.1 published.2 (fun _ => rfl) rfl rfl

lemma guarded_quiet {α : Type} {q : Operation α} (h : q.Makes fun c => c.isLease = false)
    (past : List (Exchange Reply)) :
    q.Guarded (fun _ _ => True) (fun _ after => ∃ more, after = past ++ more ∧ Quiet more) past :=
  h.guarded (fun _ _ _ => trivial) past

lemma guarded_held (p : Publisher) (remote : String) (lease : Lease) (past : List (Exchange Reply)) :
    (p.syncLeased remote lease).Guarded (fun _ _ => True)
      (fun r after => ∃ more, after = past ++ more ∧ p.Held lease r.2 more) past := by
  -- an exit in front of the renewal
  have hearly : ∀ {more : List (Exchange Reply)}, Quiet more → ∀ after, after = past ++ more →
      ∃ more, after = past ++ more ∧ p.Held lease lease more := fun hquiet after hafter =>
    ⟨_, hafter, .inl ⟨hquiet, rfl⟩⟩
  have hnil : Quiet [] := by simp [Quiet]
  unfold syncLeased
  refine guarded_request_bind.mpr ⟨trivial, fun fetched => ?_⟩
  have hfetch := hnil.snoc (e := ⟨.fetch none, fetched⟩) rfl
  rcases fetched with err | verified
  · exact hearly hfetch _ rfl
  dsimp only
  split
  · exact hearly hfetch _ rfl
  refine guarded_request_bind.mpr ⟨trivial, fun reconciled => ?_⟩
  have hreconcile := hfetch.snoc (e := ⟨.reconcile verified, reconciled⟩) rfl
  rcases reconciled with err | prepared
  · exact hearly hreconcile _ (by simp)
  dsimp only
  split
  · simp only [guarded_bind]
    refine (guarded_quiet (committed_makes p prepared verified _ rfl) _).mono ?_
    rintro answer after ⟨more, rfl, hmore⟩
    exact hearly (hreconcile.append hmore) _ (by simp)
  split
  · exact hearly hreconcile _ (by simp)
  refine guarded_request_bind.mpr ⟨trivial, fun renewed => ?_⟩
  obtain ⟨renewed, err⟩ := renewed
  rcases err with _ | err
  · simp only [guarded_bind]
    refine (guarded_quiet (publishRenewed_makes p prepared renewed) _).mono ?_
    rintro answer after ⟨more, rfl, hmore⟩
    exact ⟨_, by simp, .inr ⟨_, more, none, rfl, hreconcile, hmore⟩⟩
  · exact ⟨_, by simp, .inr ⟨_, [], some err, rfl, hreconcile, hnil⟩⟩

lemma guarded_trail (p : Publisher) :
    p.sync.Guarded (fun _ _ => True) (fun _ after => p.Trail after) [] := by
  have hnil : Quiet [] := by simp [Quiet]
  unfold sync
  refine guarded_request_bind.mpr ⟨trivial, fun fetched => ?_⟩
  have hfetch := hnil.snoc (e := ⟨.fetch none, fetched⟩) rfl
  rcases fetched with err | remote
  · exact .none hfetch
  dsimp only
  split
  · exact .none hfetch
  refine guarded_request_bind.mpr ⟨trivial, fun credential => ?_⟩
  have hcredential := hfetch.snoc (e := ⟨.credential none, credential⟩) rfl
  rcases credential with _ | err
  swap
  · exact .none hcredential
  refine guarded_request_bind.mpr ⟨trivial, fun reconciled => ?_⟩
  have hreconcile := hcredential.snoc (e := ⟨.reconcile remote, reconciled⟩) rfl
  rcases reconciled with err | prepared
  · exact .none hreconcile
  dsimp only
  split
  · refine (guarded_quiet (committed_makes p prepared remote _ rfl) _).mono ?_
    rintro answer after ⟨more, rfl, hmore⟩
    exact .none (hreconcile.append hmore)
  unfold syncWithLease
  refine guarded_request_bind.mpr ⟨trivial, fun lease => ?_⟩
  rcases lease with err | lease
  · exact .refused hreconcile remote err
  simp only [guarded_bind]
  refine (guarded_held p remote lease _).mono ?_
  rintro ⟨answer, final⟩ after ⟨more, rfl, hheld⟩
  exact ⟨trivial, fun reply => .held hreconcile remote hheld reply⟩

lemma acquired_append (l l' : List (Exchange Reply)) : acquired (l ++ l') = acquired l ++ acquired l' :=
  filterMap_append

/-- While a lease is held nothing is acquired or given back, and the renewal decides what the variable
has. -/
lemma Held.spec {lease final : Lease} {m : List (Exchange Reply)} (h : p.Held lease final m) :
    acquired m = [] ∧ (∀ lease, m.countP (releases lease) = 0) ∧ ((∀ e ∈ m, renewalKeeps e = true) ↔
        final.leaseID = lease.leaseID ∧ final.fencingToken = lease.fencingToken) := by
  rcases h with ⟨hquiet, rfl⟩ | ⟨before, after, err, rfl, hbefore, hafter⟩
  · exact ⟨hquiet.acquired_eq, hquiet.countP_eq, iff_of_true hquiet.renewalKeeps_eq ⟨rfl, rfl⟩⟩
  refine ⟨?_, fun lease' => ?_, ?_⟩
  · rw [acquired_append, hbefore.acquired_eq, nil_append]
    exact hafter.acquired_eq
  · rw [countP_append, countP_cons_of_neg (by simp [releases]), hbefore.countP_eq, hafter.countP_eq]
  · have hbefore' := hbefore.renewalKeeps_eq
    have hafter' := hafter.renewalKeeps_eq
    simp only [mem_append, mem_cons]
    constructor
    · intro hall
      simpa [renewalKeeps] using hall _ (.inr (.inl rfl))
    · rintro hkeeps e (he | rfl | he)
      · exact hbefore' e he
      · simpa [renewalKeeps] using hkeeps
      · exact hafter' e he

/-- However the authority and the repository behave, every acquired lease is given back exactly once
with its ID and fencing token, exactly when no renewal, even a failed one, returns others. -/
theorem leases_released_iff (p : Publisher) (b : Behaviour Reply) :
    EveryLeaseReleased (p.exchanges b) ↔ ∀ e ∈ p.exchanges b, renewalKeeps e = true := by
  have htrail : p.Trail (p.exchanges b) := (guarded_trail p).returns b
  generalize p.exchanges b = exchanges at htrail
  unfold EveryLeaseReleased
  cases htrail with
  | none h =>
    rw [h.acquired_eq]
    exact iff_of_true (by simp) h.renewalKeeps_eq
  | refused h =>
    rw [acquired_append, h.acquired_eq]
    exact iff_of_true (by simp [acquired]) (forall_mem_concat h.renewalKeeps_eq rfl)
  | @held l m h revision lease final hheld reply =>
    obtain ⟨hacquired, hreleased, hkeeps⟩ := hheld.spec
    set whole : List (Exchange Reply) := l ++ [⟨.acquireLease revision p.leaseTTL, .ok lease⟩] ++ m ++
      [⟨.releaseLease final, reply⟩] with hwhole
    have hlease : acquired whole = [lease] := by
      rw [hwhole, acquired_append, acquired_append, acquired_append, h.acquired_eq, hacquired]
      rfl
    have hcount : whole.countP (releases lease) =
        if final.leaseID = lease.leaseID ∧ final.fencingToken = lease.fencingToken then 1 else 0 := by
      rw [hwhole, countP_append, countP_append, countP_append, h.countP_eq, hreleased]
      simp [countP_cons, releases]
    have hrenewals : (∀ e ∈ whole, renewalKeeps e = true) ↔ ∀ e ∈ m, renewalKeeps e = true := by
      have hquiet := h.renewalKeeps_eq
      constructor
      · intro hall e he
        exact hall e (by simp [hwhole, he])
      · intro hall e he
        simp only [hwhole, mem_append, mem_singleton] at he
        rcases he with ((he | rfl) | he) | rfl
        · exact hquiet e he
        · rfl
        · exact hall e he
        · rfl
    rw [hlease, hrenewals, hkeeps]
    simp only [mem_singleton, forall_eq, hcount]
    split
    · next hsame => exact iff_of_true rfl hsame
    · next hother => exact iff_of_false Nat.zero_ne_one hother

end Publisher

/-- An authority that refuses the renewal, and returns `Lease{}` with the error as the control client
does. -/
def refusingRenewal : Behaviour Reply := fun past c =>
  match c with
  | .renewLease _ _ => (Lease.zero, some [.other "renew failed"])
  | c => granting past c

/-- A refused renewal: the lease that was acquired is not given back, but `Lease{}` is. -/
theorem refusedRenewal_unreleased :
    acquired ((⟨60, 5, true, true⟩ : Publisher).exchanges refusingRenewal) = [⟨"lease", 7, "head", 100⟩] ∧
      ((⟨60, 5, true, true⟩ : Publisher).exchanges refusingRenewal).countP
        (releases ⟨"lease", 7, "head", 100⟩) = 0 ∧
      ((⟨60, 5, true, true⟩ : Publisher).exchanges refusingRenewal).countP (releases Lease.zero) = 1 ∧
      ¬ EveryLeaseReleased ((⟨60, 5, true, true⟩ : Publisher).exchanges refusingRenewal) := by
  refine ⟨by decide, by decide, by decide, by decide⟩

end Paperboat.ConfigSync.Protocol

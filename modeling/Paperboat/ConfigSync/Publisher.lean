import Paperboat.ConfigSync.Prepare
import Paperboat.Lib.Prog
import Paperboat.Lib.Transition

/-!
# Publications

The model of `Publisher.Sync` in `internal/configsync/publisher.go` with the parts of
`GitRepository` and `PlaintextWorkspaceReconciler` that it drives.

`Sync` is a program of calls. Other writers can push before each of its calls, and the helper can die
between any two of them. The file system does what it is told; fetching, pushing, the lease and the
control plane can fail. What `Reconcile` does behind `recoverResolutionCommit` is one call here, with
any outcome that it can have.
-/

namespace Paperboat.ConfigSync.Publisher

/-! ### The repository -/

/-- The commits with their parents, those of them that the remote has, and the remote head. -/
structure Repository where
  objects : FinMap String (List String)
  published : List String
  head : String
  head_published : head ∈ published
  published_known : ∀ c ∈ published, ∃ parents, objects.lookup c = some parents
  published_closed : ∀ c ∈ published, ∀ parents, objects.lookup c = some parents →
    ∀ p ∈ parents, p ∈ published

/-- The first commit can be reached from the second along parents. -/
inductive Reachable (objects : FinMap String (List String)) : String → String → Prop where
  | self (c : String) : Reachable objects c c
  | parent {c p head : String} {parents : List String} (hhead : objects.lookup head = some parents)
      (hp : p ∈ parents) (h : Reachable objects c p) : Reachable objects c head

/-- The loop of `commitReachable` over the parents of a commit: whether the commit that is looked for
is among them, or `none` when an object is missing in front of it. -/
def scanParents (objects : FinMap String (List String)) (want : String) : List String → Option Bool
  | [] => some false
  | parent :: parents =>
    if (objects.lookup parent).isNone then none
    else if parent = want then some true
    else scanParents objects want parents

/-- The loop of `commitReachable`; `left` is how many commits it may still look at. -/
def reachableLoop (objects : FinMap String (List String)) (want : String) :
    (left : ℕ) → (seen queue : List String) → Option Bool
  | 0, _, _ => some false
  | left + 1, seen, queue =>
    match queue.dropWhile (· ∈ seen) with
    | [] => some false
    | hash :: queue =>
      match objects.lookup hash with
      | none => none
      | some parents =>
        match scanParents objects want parents with
        | none => none
        | some true => some true
        | some false => reachableLoop objects want left (hash :: seen) (queue ++ parents)

/-- `commitReachable`. -/
def commitReachable (objects : FinMap String (List String)) (want head : String) (limit : ℕ) :
    Option Bool :=
  if want = head then some true else reachableLoop objects want limit [] [head]

namespace Repository

variable (r : Repository)

/-- A commit on top of some published ones becomes the head. -/
def publish (c : String) (parents : List String) (hc : r.objects.lookup c = some parents)
    (hp : ∀ p ∈ parents, p ∈ r.published) : Repository where
  objects := r.objects
  published := c :: r.published
  head := c
  head_published := List.mem_cons_self
  published_known := by
    intro c' hc'
    rcases List.mem_cons.mp hc' with rfl | hc'
    · exact ⟨parents, hc⟩
    · exact r.published_known c' hc'
  published_closed := by
    intro c' hc' parents' hparents' p hp'
    rcases List.mem_cons.mp hc' with rfl | hc'
    · cases hc.symm.trans hparents'
      exact List.mem_cons_of_mem _ (hp p hp')
    · exact List.mem_cons_of_mem _ (r.published_closed c' hc' parents' hparents' p hp')

/-- A new commit that is not published. -/
def commit (c : String) (parents : List String) (hc : c ∉ r.published) : Repository where
  objects := r.objects.insert c parents
  published := r.published
  head := r.head
  head_published := r.head_published
  published_known := by
    intro c' hc'
    obtain ⟨parents', hparents'⟩ := r.published_known c' hc'
    have hne : c' ≠ c := fun heq => hc (heq ▸ hc')
    exact ⟨parents', by rw [FinMap.lookup_insert_eq, if_neg hne, hparents']⟩
  published_closed := by
    intro c' hc' parents' hparents'
    have hne : c' ≠ c := fun heq => hc (heq ▸ hc')
    rw [FinMap.lookup_insert_eq, if_neg hne] at hparents'
    exact r.published_closed c' hc' parents' hparents'

/-- A commit of another writer, with its parents. -/
structure Foreign where
  id : String
  parents : List String
  deriving DecidableEq

/-- Another writer advances the head by a new commit; what is not an advance does not happen. -/
def advance (x : Foreign) : Repository :=
  if h : x.id ≠ "" ∧ r.objects.lookup x.id = none ∧ r.head ∈ x.parents ∧
      ∀ p ∈ x.parents, p ∈ r.published then
    have hc : x.id ∉ r.published := by
      intro hmem
      obtain ⟨parents, hparents⟩ := r.published_known x.id hmem
      rw [h.2.1] at hparents
      cases hparents
    (r.commit x.id x.parents hc).publish x.id x.parents (by simp [commit]) h.2.2.2
  else r

/-- The advances of other writers. -/
def advanceAll (others : List Foreign) : Repository := others.foldl advance r

/-- A push of the commit is a fast-forward. -/
def forwards (c : String) : Bool :=
  match r.objects.lookup c with
  | none => false
  | some parents => r.head ∈ parents ∧ ∀ p ∈ parents, p ∈ r.published

/-- The remote after a push that reaches it. -/
def push (c : String) : Repository :=
  match h : r.objects.lookup c with
  | none => r
  | some parents =>
    if hf : r.head ∈ parents ∧ ∀ p ∈ parents, p ∈ r.published then r.publish c parents h hf.2 else r

end Repository

/-! ### Calls -/

/-- `PreparedPublication`. -/
structure PreparedPublication where
  expectedRemoteRevision : String
  commitID : String
  hasChanges : Bool
  deriving DecidableEq

/-- `PublishResult`. -/
structure PublishResult where
  remoteRevision : String
  landed : Bool
  uncertain : Bool
  deriving DecidableEq

/-- `PublishResult{}`. -/
def noResult : PublishResult := ⟨"", false, false⟩

/-- The errors of `Sync`. -/
inductive SyncError where
  | fetch
  | remoteRevisionChanged
  | authorization
  | configConflict
  | reconcile
  | baselineInvalid
  | syncUncertain
  | lease
  | leaseLost
  | publish
  | acknowledge
  | release
  deriving DecidableEq

/-- `pendingBaseline`. -/
structure PendingBaseline where
  commitID : String
  value : Baseline
  resolutions : List ConflictResolution

/-- `resolutionCommit`. -/
structure ResolutionCommit where
  commitID : String
  baseline : Baseline
  resolutions : List ConflictResolution

/-- What `Reconcile` accepts for the baseline, and the resolutions that it has used. -/
structure Accepted where
  files : FileStates
  frozenPaths : FinMap String FrozenPath
  resolutions : List ConflictResolution

/-- The baseline of the accepted files at a revision. -/
def Accepted.pending (a : Accepted) (revision : String) : PendingBaseline :=
  ⟨revision, ⟨a.files, revision, a.frozenPaths⟩, a.resolutions⟩

/-- How the part of `Reconcile` behind `recoverResolutionCommit` ends. -/
inductive Preparation where
  | failed (e : SyncError)
  /-- There is nothing to commit. -/
  | clean (a : Accepted)
  /-- There is a commit. -/
  | committed (id : String) (a : Accepted)

/-- The calls. -/
inductive Call where
  | fetch
  | credential
  | acquireLease (baseRevision : String)
  | renewLease
  | releaseLease
  /-- `Reconcile` behind `recoverResolutionCommit`. -/
  | prepare (revision : String)
  | readResolutionCommit
  | writeResolutionCommit (commit : ResolutionCommit)
  | removeResolutionCommit
  | writeBaseline (value : Baseline)
  | acknowledge (id revision : String)
  | publish (prepared : PreparedPublication)
  | observeCommit (commitID : String)

/-- How a call ends. -/
inductive Outcome where
  | ok
  | fails
  /-- The renewed lease expires too soon. -/
  | late
  /-- The push is cut off, after or before it has reached the remote. -/
  | uncertain (landed : Bool)
  | prepared (p : Preparation)
  /-- The lease is for another revision. -/
  | leased (baseRevision : String)

/-- The fate of a call: who pushes before it, and how it ends. -/
structure Fate where
  others : List Repository.Foreign
  outcome : Outcome

/-- A fate without other writers. -/
def alone (outcome : Outcome) : Fate := ⟨[], outcome⟩

/-- The replies. Renewing a lease says whether it is renewed in time, and publishing whether there is
an error next to the result. -/
abbrev Reply : Call → Type
  | .fetch | .acquireLease _ => Option String
  | .credential | .releaseLease | .acknowledge _ _ => Bool
  | .renewLease => Option Bool
  | .prepare _ => Preparation
  | .readResolutionCommit => Option ResolutionCommit
  | .writeResolutionCommit _ | .removeResolutionCommit | .writeBaseline _ => Unit
  | .publish _ => PublishResult × Bool
  | .observeCommit _ => Option (Bool × String)

/-- The world of the publisher. `prepared` has the baseline that was last prepared for a commit, and
`observed` the commit and the head of an observation after an uncertain push. -/
structure World where
  repository : Repository
  baseline : Option Baseline
  resolutionCommit : Option ResolutionCommit
  prepared : FinMap String Baseline
  observed : Option (String × String)

/-- The end of `Reconcile`. A commit is new, or the same as one that was made before from the same
revision and has not been published. -/
def performPrepare (w : World) (revision : String) : Outcome → World × Preparation
  | .prepared (.clean a) => (w, .clean a)
  | .prepared (.committed id a) =>
    if h : id ≠ "" ∧ id ∉ w.repository.published ∧
        (w.repository.objects.lookup id = none ∨
          w.repository.objects.lookup id = some [revision]) then
      ({ w with
          repository := w.repository.commit id [revision] h.2.1
          prepared := w.prepared.insert id (a.pending id).value }, .committed id a)
    else (w, .failed .reconcile)
  | .prepared (.failed e) => (w, .failed e)
  | _ => (w, .failed .reconcile)

/-- `GitRepository.Publish`. -/
def performPublish (w : World) (p : PreparedPublication) : Outcome → World × (PublishResult × Bool)
  | .ok =>
    if w.repository.head = p.commitID then (w, ⟨p.commitID, true, false⟩, false)
    else if w.repository.forwards p.commitID then
      ({ w with repository := w.repository.push p.commitID }, ⟨p.commitID, true, false⟩, false)
    else (w, noResult, true)
  | .uncertain true =>
    ({ w with repository := w.repository.push p.commitID }, ⟨"", false, true⟩, true)
  | .uncertain false => (w, ⟨"", false, true⟩, true)
  | _ => (w, noResult, true)

/-- What a call does when no one else pushes. -/
def performAlone (w : World) (c : Call) (outcome : Outcome) : World × Reply c :=
  match c with
  | .fetch => (w, match outcome with
    | .fails => none
    | _ => some w.repository.head)
  | .acquireLease baseRevision => (w, match outcome with
    | .fails => none
    | .leased other => some other
    | _ => some baseRevision)
  | .renewLease => (w, match outcome with
    | .fails => none
    | .late => some false
    | _ => some true)
  | .credential | .releaseLease | .acknowledge _ _ => (w, match outcome with
    | .fails => false
    | _ => true)
  | .prepare revision => performPrepare w revision outcome
  | .readResolutionCommit => (w, w.resolutionCommit)
  | .writeResolutionCommit commit => ({ w with resolutionCommit := some commit }, ())
  | .removeResolutionCommit => ({ w with resolutionCommit := none }, ())
  | .writeBaseline value => ({ w with baseline := some value }, ())
  | .publish p => performPublish w p outcome
  | .observeCommit commitID =>
    match outcome with
    | .fails => (w, none)
    | _ =>
      ({ w with observed := some (commitID, w.repository.head) },
        (commitReachable w.repository.objects commitID w.repository.head 10000).map
          (·, w.repository.head))

/-- The world after other writers have pushed. -/
def World.advanceAll (w : World) (others : List Repository.Foreign) : World :=
  { w with repository := w.repository.advanceAll others }

/-- What a call does. -/
def perform (w : World) (c : Call) (fate : Fate) : World × Reply c :=
  performAlone (w.advanceAll fate.others) c fate.outcome

/-- A program of the publisher. -/
abbrev Operation (α : Type) : Type := Prog Reply α

/-- Make a call. -/
abbrev request (c : Call) : Operation (Reply c) := Prog.request c

/-! ### The reconciler -/

/-- The loop that acknowledges resolutions: whether all calls succeed. -/
def acknowledgeAll (revision : String) : List ConflictResolution → Operation Bool
  | [] => return true
  | resolution :: resolutions => do
    if !(← request (.acknowledge resolution.id revision)) then return false
    else acknowledgeAll revision resolutions

/-- `PublicationCommitted` from `WriteBaseline` on. -/
def commitBaseline (p : PendingBaseline) (revision : String) :
    Operation (Option PendingBaseline × Option SyncError) := do
  request (.writeBaseline p.value)
  if !(← acknowledgeAll revision p.resolutions) then return (some p, some .acknowledge)
  else if p.resolutions = [] then return (none, none)
  else
    request .removeResolutionCommit
    return (none, none)

/-- `PublicationCommitted` behind its checks. -/
def commitPending (p : PendingBaseline) (revision : String) :
    Operation (Option PendingBaseline × Option SyncError) := do
  if p.resolutions = [] then commitBaseline p revision
  else
    request (.writeResolutionCommit ⟨revision, p.value, p.resolutions⟩)
    commitBaseline p revision

/-- `PublicationCommitted`. -/
def publicationCommitted (pending : Option PendingBaseline) (prepared : PreparedPublication)
    (revision : String) : Operation (Option PendingBaseline × Option SyncError) :=
  match pending with
  | none => return (none, some .baselineInvalid)
  | some p =>
    if prepared.commitID = "" ∨ p.commitID ≠ prepared.commitID ∨ revision ≠ prepared.commitID then
      return (some p, some .baselineInvalid)
    else commitPending p revision

/-- `PublicationPrepared`. -/
def publicationPrepared (pending : Option PendingBaseline) (prepared : PreparedPublication) :
    Operation (Option SyncError) := do
  match pending with
  | none => return some .baselineInvalid
  | some p =>
    if prepared.commitID = "" ∨ p.commitID ≠ prepared.commitID then return some .baselineInvalid
    else if p.resolutions = [] then return none
    else
      request (.writeResolutionCommit ⟨prepared.commitID, p.value, p.resolutions⟩)
      return none

/-- `PublicationAborted`. -/
def publicationAborted (prepared : PreparedPublication) : Operation (Option SyncError) := do
  match ← request .readResolutionCommit with
  | none => return none
  | some commit =>
    if commit.commitID ≠ prepared.commitID then return some .baselineInvalid
    else
      request .removeResolutionCommit
      return none

/-- `recoverResolutionCommit`. -/
def recoverResolutionCommit (remoteRevision : String) : Operation (Option SyncError) := do
  match ← request .readResolutionCommit with
  | none => return none
  | some commit =>
    if commit.baseline.remoteRevision ≠ commit.commitID then return some .baselineInvalid
    else if remoteRevision ≠ commit.commitID then return some .syncUncertain
    else
      request (.writeBaseline commit.baseline)
      if !(← acknowledgeAll commit.commitID commit.resolutions) then return some .acknowledge
      else
        request .removeResolutionCommit
        return none

/-- `Reconcile`. -/
def reconcile (pending : Option PendingBaseline) (remoteRevision : String) :
    Operation (Option PendingBaseline × Except SyncError PreparedPublication) := do
  match ← recoverResolutionCommit remoteRevision with
  | some e => return (pending, .error e)
  | none =>
    match ← request (.prepare remoteRevision) with
    | .failed e => return (none, .error e)
    | .clean a =>
      return (some (a.pending remoteRevision), .ok ⟨remoteRevision, remoteRevision, false⟩)
    | .committed id a => return (some (a.pending id), .ok ⟨remoteRevision, id, true⟩)

/-! ### The publisher -/

/-- What `Sync` returns. -/
structure Answer where
  result : PublishResult
  error : Option SyncError
  deriving DecidableEq

/-- An answer without a result. -/
def failure (e : SyncError) : Answer := ⟨noResult, some e⟩

/-- Commit a publication that has landed, and answer. -/
def answerLanded (pending : Option PendingBaseline) (prepared : PreparedPublication)
    (revision : String) : Operation (Option PendingBaseline × Answer) := do
  match ← publicationCommitted pending prepared revision with
  | (pending, some e) => return (pending, failure e)
  | (pending, none) => return (pending, ⟨⟨revision, true, false⟩, none⟩)

/-- The end of `Sync`, where an uncertain push is observed. -/
def observe (pending : Option PendingBaseline) (prepared : PreparedPublication) :
    Operation (Option PendingBaseline × Answer) := do
  match ← request (.observeCommit prepared.commitID) with
  | none => return (pending, ⟨⟨"", false, true⟩, some .syncUncertain⟩)
  | some (true, revision) => answerLanded pending prepared revision
  | some (false, revision) => return (pending, ⟨⟨revision, false, true⟩, some .syncUncertain⟩)

/-- `Sync` from the push on. -/
def publish (pending : Option PendingBaseline) (prepared : PreparedPublication) :
    Operation (Option PendingBaseline × Answer) := do
  let (published, failed) ← request (.publish prepared)
  if failed = false ∧ published.landed ∧ published.uncertain = false ∧
      published.remoteRevision ≠ "" then
    answerLanded pending prepared published.remoteRevision
  else if failed ∧ published.uncertain = false then
    let _ ← publicationAborted prepared
    return (pending, failure .publish)
  else observe pending prepared

/-- `Sync` from the renewal of the lease on. -/
def publishRenewed (pending : Option PendingBaseline) (prepared : PreparedPublication) :
    Operation (Option PendingBaseline × Answer) := do
  match ← request .renewLease with
  | none => return (pending, failure .lease)
  | some false => return (pending, failure .leaseLost)
  | some true =>
    if !(← request .credential) then return (pending, failure .authorization)
    else
      match ← request .fetch with
      | none => return (pending, failure .fetch)
      | some current =>
        if current ≠ prepared.expectedRemoteRevision then
          return (pending, failure .remoteRevisionChanged)
        else
          match ← publicationPrepared pending prepared with
          | some e => return (pending, failure e)
          | none => publish pending prepared

/-- `Sync` under the lease. -/
def syncLeased (pending : Option PendingBaseline) (remote baseRevision : String) :
    Operation (Option PendingBaseline × Answer) := do
  match ← request .fetch with
  | none => return (pending, failure .fetch)
  | some verified =>
    if verified ≠ remote ∨ baseRevision ≠ remote then
      return (pending, failure .remoteRevisionChanged)
    else
      match ← reconcile pending verified with
      | (pending, .error e) => return (pending, failure e)
      | (pending, .ok prepared) =>
        if prepared.hasChanges = false then answerLanded pending prepared verified
        else if prepared.expectedRemoteRevision ≠ remote ∨ prepared.commitID = "" then
          return (pending, failure .remoteRevisionChanged)
        else publishRenewed pending prepared

/-- `Sync` from `AcquireLease` to `ReleaseLease`. -/
def syncWithLease (pending : Option PendingBaseline) (remote : String) :
    Operation (Option PendingBaseline × Answer) := do
  match ← request (.acquireLease remote) with
  | none => return (pending, failure .lease)
  | some baseRevision =>
    let (pending, answer) ← syncLeased pending remote baseRevision
    let released ← request .releaseLease
    return (pending, if answer.error = none ∧ released = false then
      { answer with error := some .release } else answer)

/-- `Sync`. -/
def sync (pending : Option PendingBaseline) : Operation (Option PendingBaseline × Answer) := do
  match ← request .fetch with
  | none => return (pending, failure .fetch)
  | some remote =>
    if remote = "" then return (pending, failure .remoteRevisionChanged)
    else if !(← request .credential) then return (pending, failure .authorization)
    else
      match ← reconcile pending remote with
      | (pending, .error e) =>
        return (pending, if e = .configConflict then ⟨⟨remote, false, false⟩, some e⟩ else failure e)
      | (pending, .ok prepared) =>
        if prepared.hasChanges = false then answerLanded pending prepared remote
        else syncWithLease pending remote

/-! ### The helper -/

/-- The helper: the world, the pending baseline in memory, and the answer of the last `Sync`. -/
structure State where
  world : World
  pending : Option PendingBaseline
  last : Option Answer

/-- What happens next. -/
inductive Action where
  /-- A `Sync`, up to its end or to the death of the helper. -/
  | sync (fates : List Fate)
  /-- Other writers push while no `Sync` runs. -/
  | advance (others : List Repository.Foreign)
  | restart

/-- Forget the last observation. -/
def World.unobserved (w : World) : World := { w with observed := none }

/-- One step. -/
def step (s : State) : Action → Option State
  | .sync fates =>
    match (sync s.pending).exec perform s.world.unobserved fates with
    | .finished (pending, answer) w => some ⟨w, pending, some answer⟩
    | .cut w => some ⟨w.unobserved, none, none⟩
  | .advance others => some { s with world := s.world.advanceAll others }
  | .restart => some { s with pending := none }

end Paperboat.ConfigSync.Publisher

import Paperboat.ConfigSync.Execute

/-!
# Rounds with concurrent edits

A helper with a bidirectional assignment, leased writes and no pending resolutions, next to a user
who edits files and other helpers that push. A call of `Reconcile` takes its first snapshot, writes
to the home file by file, adds and forgets files, commits and takes its second snapshot; an edit may
come between any two of these steps. The second half says what a round that skips nothing does with one
path.
-/

namespace Paperboat.ConfigSync

/-- What a manifest manages, and what a snapshot selects of it (mandatory exclusions are not
selected). -/
structure Manifest where
  manages : String → Bool
  selects : String → Bool
  manages_of_selects : ∀ path, selects path = true → manages path = true

/-- A revision of the repository: its rendered files, and its manifest. -/
structure Revision where
  files : FileStates
  manifest : Manifest

/-- Where a call of `Reconcile` and the publication after it stand. -/
inductive Phase where
  /-- Writing to the home; the writes that are left. -/
  | apply (todo : List (String × Option FileState))
  /-- `chezmoi add`: the repository so far, and the paths that are left. -/
  | add (tree : FileStates) (todo : List String)
  /-- `chezmoi forget`. -/
  | forget (tree : FileStates) (todo : List String)
  | commit (tree : FileStates)
  /-- Before the second snapshot; `clean` says that there was nothing to commit. -/
  | snapshot (revision : String) (clean : Bool)
  /-- `Reconcile` has returned. -/
  | prepared (pending : Baseline) (hasChanges : Bool)
  /-- The revision of the pending baseline is published. -/
  | landed (pending : Baseline)

/-- A call of `Reconcile` with its two first snapshots, and the home that its apply journal is from. -/
structure Reconciling where
  round : Round
  manifest : Manifest
  source : FileStates
  localFiles : FileStates
  remoteFiles : FileStates
  home : FileStates

/-- The helper, its home and the repository. -/
structure Workstation where
  home : FileStates
  revisions : FinMap String Revision
  head : String
  baseline : Baseline
  reconciling : Option (Reconciling × Phase)
  /-- The revisions that have been the head. -/
  published : List String
  /-- The conflicts and the manifest of the round that stored the baseline. -/
  conflicts : List String
  selects : String → Bool
  /-- The files that applied or deleted files have replaced. -/
  overwritten : List (String × FileState)

/-- What a round gets from its surroundings. -/
structure Surroundings where
  repositoryID : String
  assignmentID : String
  /-- A resolution authority is configured; nothing is pending there. -/
  authority : Bool
  safePath : String → Bool
  digest : List String → String
  git : Bool
  mergeText : String → MergeOutcome

/-- The steps. -/
inductive RoundAction where
  /-- The user changes a file. -/
  | edit (path : String) (state : Option FileState)
  /-- Another writer publishes a revision. -/
  | publish (id : String) (revision : Revision)
  /-- `Reconcile` up to the plan; the two snapshots skip some files. -/
  | reconcile (env : Surroundings) (skippedRemote skippedLocal : List String)
  | write
  | add
  | forget
  | commit (id : String)
  | secondSnapshot (skipped : List String)
  | push
  /-- `PublicationCommitted`. -/
  | committed
  /-- The round ends without a publication, because a step has failed or the publisher prepares again. -/
  | abandon

/-- The round that `Reconcile` makes on a remote revision. -/
def Surroundings.round (env : Surroundings) (remoteRevision : String) (baseline : Baseline)
    (manifest : Manifest) : Round where
  repositoryID := env.repositoryID
  assignmentID := env.assignmentID
  mode := .bidirectional
  writesEnabled := true
  remoteRevision := remoteRevision
  baseline := baseline
  resolutions := if env.authority then some [] else none
  manages := manifest.manages
  safePath := env.safePath
  digest := env.digest
  git := env.git
  mergeText := env.mergeText

namespace Reconciling

variable (c : Reconciling)

/-- The plan of the round. -/
def plan : ReconcilePlan := c.round.plan c.localFiles c.remoteFiles

/-- The files that were merged. -/
def merged : FileStates := c.round.merged c.localFiles c.remoteFiles

/-- The conflicts that the round leaves. -/
def conflicts : List String := c.plan.conflicts.map PathSummary.path

end Reconciling

namespace Workstation

variable (w : Workstation)

/-- The rendered state of a path in a revision. -/
def contents (revision path : String) : Option FileState :=
  (w.revisions.lookup revision).bind fun rev => rev.files.lookup path

/-- Go on with the round in another phase. -/
def goto (c : Reconciling) (phase : Phase) : Workstation :=
  { w with reconciling := some (c, phase) }

/-- The start of `Reconcile`. -/
def reconcile (env : Surroundings) (skippedRemote skippedLocal : List String) :
    Option Workstation :=
  match w.reconciling, w.revisions.lookup w.head with
  | none, some rev =>
    let round := env.round w.head w.baseline rev.manifest
    let remoteFiles := snapshotOf rev.manifest.selects skippedRemote rev.files
    let localFiles := snapshotOf rev.manifest.selects skippedLocal w.home
    some { w with
      reconciling := some (⟨round, rev.manifest, rev.files, localFiles, remoteFiles, w.home⟩,
        .apply (round.applyWrites localFiles remoteFiles rev.files)) }
  | _, _ => none

/-- One write to the home. -/
def write (c : Reconciling) : Phase → Option Workstation
  | .apply [] => some (w.goto c (.add c.source c.plan.publishUpdates))
  | .apply ((path, state) :: todo) =>
    let replaced := match w.home.lookup path with
      | some old => if (c.merged.lookup path).isNone then [(path, old)] else []
      | none => []
    some ({ w with
      home := w.home.put path state
      overwritten := replaced ++ w.overwritten }.goto c (.apply todo))
  | _ => none

/-- One file of `chezmoi add`, which needs the file. -/
def add (c : Reconciling) : Phase → Option Workstation
  | .add tree [] => some (w.goto c (.forget tree c.plan.publishDeletes))
  | .add tree (path :: todo) =>
    if (w.home.lookup path).isSome then
      some (w.goto c (.add (tree.put path (w.home.lookup path)) todo))
    else none
  | _ => none

/-- One `chezmoi forget`. -/
def forget (c : Reconciling) : Phase → Option Workstation
  | .forget tree [] => some (w.goto c (.commit tree))
  | .forget tree (path :: todo) => some (w.goto c (.forget (tree.put path none) todo))
  | _ => none

/-- Commit, unless nothing has changed. -/
def commit (c : Reconciling) (id : String) : Phase → Option Workstation
  | .commit tree =>
    if FinMap.same tree c.source then some (w.goto c (.snapshot c.round.remoteRevision true))
    -- a new commit has a new hash
    else if (w.revisions.lookup id).isSome then none
    else
      some ({ w with revisions := w.revisions.insert id ⟨tree, c.manifest⟩ }.goto c
        (.snapshot id false))
  | _ => none

/-- The second snapshot and the pending baseline. -/
def secondSnapshot (c : Reconciling) (skipped : List String) : Phase → Option Workstation
  | .snapshot revision clean =>
    let second := snapshotOf c.manifest.selects skipped w.home
    let remoteFiles := if clean then c.remoteFiles else second
    some (w.goto c (.prepared
      (c.round.pendingBaseline c.localFiles c.remoteFiles second remoteFiles revision) (!clean)))
  | _ => none

/-- Push the commit, which lands if the head has not moved. -/
def push (c : Reconciling) : Phase → Option Workstation
  | .prepared pending true =>
    if w.head = c.round.remoteRevision then
      some ({ w with
        head := pending.remoteRevision
        published := pending.remoteRevision :: w.published }.goto c (.landed pending))
    else none
  | _ => none

/-- `PublicationCommitted` stores the pending baseline. -/
def committed (c : Reconciling) : Phase → Option Workstation
  | .prepared pending false | .landed pending =>
    some { w with
      baseline := pending
      reconciling := none
      conflicts := c.conflicts
      selects := c.manifest.selects }
  | _ => none

/-- A round ends early. As long as it has not written everything, `recoverApplyJournal` restores all files
that it writes. -/
def abandon (c : Reconciling) : Phase → Workstation
  | .apply _ =>
    let written := (c.round.applyWrites c.localFiles c.remoteFiles c.source).map Prod.fst
    { w with
      home := written.foldl (fun home path => home.put path (c.home.lookup path)) w.home
      reconciling := none }
  | _ => { w with reconciling := none }

/-- One step. -/
def step (w : Workstation) : RoundAction → Option Workstation
  | .edit path state => some { w with home := w.home.put path state }
  | .publish id revision =>
    if (w.revisions.lookup id).isSome then none
    else
      some { w with
        revisions := w.revisions.insert id revision
        head := id
        published := id :: w.published }
  | .reconcile env skippedRemote skippedLocal => w.reconcile env skippedRemote skippedLocal
  | .write => w.reconciling.bind fun c => w.write c.1 c.2
  | .add => w.reconciling.bind fun c => w.add c.1 c.2
  | .forget => w.reconciling.bind fun c => w.forget c.1 c.2
  | .commit id => w.reconciling.bind fun c => w.commit c.1 id c.2
  | .secondSnapshot skipped => w.reconciling.bind fun c => w.secondSnapshot c.1 skipped c.2
  | .push => w.reconciling.bind fun c => w.push c.1 c.2
  | .committed => w.reconciling.bind fun c => w.committed c.1 c.2
  | .abandon => w.reconciling.map fun c => w.abandon c.1 c.2

end Workstation

/-! ### The paths of a round -/

namespace Reconciling

variable (c : Reconciling)

/-- The round records the state of the path: it is selected and not left as a conflict. -/
def Records (path : String) : Prop := c.manifest.selects path = true ∧ path ∉ c.conflicts

/-- What the home has at a path after the writes. -/
def target (path : String) : Option FileState :=
  if c.merged.lookup path ≠ none then c.merged.lookup path
  else if path ∈ c.plan.deleteLocal then none
  else if path ∈ c.plan.applyRemote then c.source.lookup path
  else c.localFiles.lookup path

/-- What a call of `Reconcile` starts from: a plain round whose snapshots skip nothing. -/
structure Regular : Prop where
  plain : c.round.Plain
  manages_eq : c.round.manages = c.manifest.manages
  local_eq : ∀ path, c.manifest.selects path = false → c.localFiles.lookup path = none
  remote_eq : ∀ path, c.remoteFiles.lookup path =
    if c.manifest.selects path = true then c.source.lookup path else none

variable {c}

/-- The verdict of the round on a path. -/
abbrev verdict (c : Reconciling) (path : String) : Verdict :=
  c.round.plainVerdict c.localFiles c.remoteFiles path

lemma Regular.has (h : c.Regular) (path : String) : c.plan.Has path
      (c.verdict path = .publishUpdate ∨ c.merged.lookup path ≠ none)
      (c.verdict path = .publishDelete ∨
        c.round.baseline.files.lookup path ≠ none ∧ c.round.manages path = false)
      (c.verdict path = .applyRemote) (c.verdict path = .deleteLocal)
      ((∃ reason, c.verdict path = .conflict reason) ∧ c.merged.lookup path = none) :=
  h.plain.has c.localFiles c.remoteFiles path

variable {path : String} {state : Option FileState}

lemma mem_applyWrites : (path, state) ∈ c.round.applyWrites c.localFiles c.remoteFiles c.source ↔
      path ∈ c.plan.applyRemote ∧ state = c.source.lookup path ∨
        path ∈ c.plan.deleteLocal ∧ state = none ∨
        c.merged.lookup path ≠ none ∧ state = c.merged.lookup path := by
  rw [← FinMap.mem_keys]
  unfold Round.applyWrites
  simp only [List.mem_append, List.mem_map, Prod.mk.injEq, or_assoc]
  constructor
  · rintro (⟨q, hq, rfl, rfl⟩ | ⟨q, hq, rfl, rfl⟩ | ⟨q, hq, rfl, rfl⟩)
    · exact .inl ⟨hq, rfl⟩
    · exact .inr (.inl ⟨hq, rfl⟩)
    · exact .inr (.inr ⟨hq, rfl⟩)
  · rintro (⟨hq, rfl⟩ | ⟨hq, rfl⟩ | ⟨hq, rfl⟩)
    · exact .inl ⟨path, hq, rfl, rfl⟩
    · exact .inr (.inl ⟨path, hq, rfl, rfl⟩)
    · exact .inr (.inr ⟨path, hq, rfl, rfl⟩)

lemma Regular.selects_of_verdict (h : c.Regular) (hv : c.verdict path ≠ .unchanged) :
    c.manifest.selects path = true := by
  by_contra hsel
  rw [Bool.not_eq_true] at hsel
  apply hv
  simp [verdict, Round.plainVerdict, classify, h.local_eq path hsel, h.remote_eq path, hsel]

lemma merged_eq_none (hv : ∀ reason, c.verdict path ≠ .conflict reason) :
    c.merged.lookup path = none := by
  by_contra hm
  obtain ⟨state, hstate⟩ := Option.ne_none_iff_exists'.mp hm
  obtain ⟨-, heff, hconflict, -⟩ := Round.merged_eq_some hstate
  rw [Round.firstVerdict, heff] at hconflict
  obtain ⟨reason, hreason⟩ := hconflict
  exact hv reason hreason

lemma Regular.write_eq_target (h : c.Regular)
    (hmem : (path, state) ∈ c.round.applyWrites c.localFiles c.remoteFiles c.source) :
    state = c.target path := by
  obtain ⟨-, -, happly, hdelete, -⟩ := h.has path
  rcases mem_applyWrites.mp hmem with ⟨hp, rfl⟩ | ⟨hp, rfl⟩ | ⟨hp, rfl⟩
  · have hv := happly.mp hp
    have hm : c.merged.lookup path = none := merged_eq_none (by simp [hv])
    have hd : path ∉ c.plan.deleteLocal := by simp [hdelete, hv]
    simp [target, hm, hd, hp]
  · have hm : c.merged.lookup path = none := merged_eq_none (by simp [hdelete.mp hp])
    simp [target, hm, hp]
  · simp [target, hp]

lemma target_of_not_written
    (hmem : path ∉ (c.round.applyWrites c.localFiles c.remoteFiles c.source).map Prod.fst) :
    c.target path = c.localFiles.lookup path := by
  have hno : ∀ state, (path, state) ∉ c.round.applyWrites c.localFiles c.remoteFiles c.source :=
    fun state hs => hmem (List.mem_map_of_mem hs)
  simp only [mem_applyWrites, not_or] at hno
  have happly : path ∉ c.plan.applyRemote := fun hp => (hno _).1 ⟨hp, rfl⟩
  have hdelete : path ∉ c.plan.deleteLocal := fun hp => (hno _).2.1 ⟨hp, rfl⟩
  have hm : c.merged.lookup path = none := by
    by_contra hm
    exact (hno _).2.2 ⟨hm, rfl⟩
  simp [target, hm, hdelete, happly]

/-- A recorded path that is forgotten is missing in the home and not published. -/
lemma Regular.of_publishDeletes (h : c.Regular) (hr : c.Records path)
    (hd : path ∈ c.plan.publishDeletes) :
    c.target path = none ∧ path ∉ c.plan.publishUpdates := by
  obtain ⟨hupdates, hdeletes, happly, hdelete, -⟩ := h.has path
  have hman : c.round.manages path = true := by
    rw [h.manages_eq]
    exact c.manifest.manages_of_selects path hr.1
  have hv : c.verdict path = .publishDelete := by
    rcases hdeletes.mp hd with hv | ⟨-, hno⟩
    · exact hv
    · rw [hman] at hno
      cases hno
  have hm : c.merged.lookup path = none := merged_eq_none (by simp [hv])
  constructor
  · have hna : path ∉ c.plan.applyRemote := by simp [happly, hv]
    have hnl : path ∉ c.plan.deleteLocal := by simp [hdelete, hv]
    simpa [target, hm, hna, hnl] using (classify_eq_publishDelete.mp hv).1
  · intro hmem
    rcases hupdates.mp hmem with hv' | hm'
    · rw [hv] at hv'
      cases hv'
    · exact hm' hm

/-- A recorded path that is neither published nor forgotten ends as it is in the remote revision. -/
lemma Regular.target_eq_source (h : c.Regular) (hr : c.Records path)
    (hu : path ∉ c.plan.publishUpdates) (hd : path ∉ c.plan.publishDeletes) :
    c.target path = c.source.lookup path := by
  obtain ⟨hupdates, hdeletes, happly, hdelete, hconflicts⟩ := h.has path
  have hm : c.merged.lookup path = none := by
    by_contra hm
    exact hu (hupdates.mpr (.inr hm))
  have hremote := h.remote_eq path
  rw [if_pos hr.1] at hremote
  simp only [target, hm, ne_eq, not_true_eq_false, if_false]
  by_cases hdel : path ∈ c.plan.deleteLocal
  · rw [if_pos hdel, ← hremote]
    exact (classify_eq_deleteLocal.mp (hdelete.mp hdel)).1.symm
  rw [if_neg hdel]
  by_cases happ : path ∈ c.plan.applyRemote
  · rw [if_pos happ]
  rw [if_neg happ, ← hremote]
  -- no verdict is left but `unchanged`
  by_contra hne
  have hnu : c.verdict path ≠ .publishUpdate := fun hv => hu (hupdates.mpr (.inl hv))
  have hnd : c.verdict path ≠ .publishDelete := fun hv => hd (hdeletes.mpr (.inl hv))
  have hna : c.verdict path ≠ .applyRemote := fun hv => happ (happly.mpr hv)
  have hnl : c.verdict path ≠ .deleteLocal := fun hv => hdel (hdelete.mpr hv)
  have hnc : ∀ reason, c.verdict path ≠ .conflict reason := fun reason hv =>
    hr.2 (hconflicts.mpr ⟨⟨reason, hv⟩, hm⟩)
  unfold verdict Round.plainVerdict classify at hnu hnd hna hnl hnc
  grind

end Reconciling

end Paperboat.ConfigSync

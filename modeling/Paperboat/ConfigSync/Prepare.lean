import Paperboat.ConfigSync.Plan

/-!
# Planning a round

The planning half of `PlaintextWorkspaceReconciler.Reconcile` in
`internal/configsync/workspace_reconciler.go`: the first plan, paths that have left the manifest,
automatic merges, and the pending resolutions, which move the ancestor of a path to one side and lead to
a second plan. `plan_has` says which paths the final plan publishes, forgets, applies and deletes.
-/

namespace Paperboat.ConfigSync

open List

/-! ### Resolutions -/

/-- The actions of a resolution. -/
inductive ResolutionAction where
  | keepLocal
  | keepRemote
  | forcePull
  | forcePush
  deriving DecidableEq

/-- The scopes of a resolution. -/
inductive ResolutionScope where
  | config
  | path
  deriving DecidableEq

/-- `ConflictResolution`. -/
structure ConflictResolution where
  id : String
  path : String
  conflictRevision : String
  expectedRemoteRevision : String
  scope : ResolutionScope
  action : ResolutionAction
  deriving DecidableEq

/-- `safeConflictRevision`: sixty-four hexadecimal digits. -/
def safeConflictRevision (value : String) : Bool :=
  value.length = 64 ∧
    value.toList.all fun c => ('a' ≤ c ∧ c ≤ 'f') ∨ ('0' ≤ c ∧ c ≤ '9')

/-- `ConflictResolution.Valid`, over the check of relative paths. -/
def ConflictResolution.valid (safePath : String → Bool) (r : ConflictResolution) : Bool :=
  if r.id = "" ∨ safeConflictRevision r.conflictRevision = false ∨ r.expectedRemoteRevision = "" then
    false
  else
    match r.scope with
    | .config => r.path = "." ∧ (r.action = .forcePull ∨ r.action = .forcePush)
    | .path => safePath r.path

/-- `FrozenPath`: where a conflict that stays was first met. -/
structure FrozenPath where
  baseRevision : String
  conflictRevision : String
  deriving DecidableEq

/-- The part of a stored baseline that a round reads. Without one the files are empty and the
revision is `""`. -/
structure Baseline where
  files : FileStates
  remoteRevision : String
  frozenPaths : FinMap String FrozenPath

/-- How an attempt to merge the three versions of a text file ends: a version is not what the
snapshot recorded, the texts conflict, or there is a merged text. -/
inductive MergeOutcome where
  | sourceChanged
  | conflict
  | merged (hash : String) (bytes : ℕ)
  deriving DecidableEq

/-- What a round reads besides the two snapshots. `digest` is the hash of a conflict's strings and
`mergeText` the result of `git merge-file`; `git` says that a git binary is found. -/
structure Round where
  repositoryID : String
  assignmentID : String
  mode : AssignmentMode
  writesEnabled : Bool
  remoteRevision : String
  baseline : Baseline
  resolutions : Option (List ConflictResolution)
  manages : String → Bool
  safePath : String → Bool
  digest : List String → String
  git : Bool
  mergeText : String → MergeOutcome

namespace Round

variable (r : Round) (home remote : FileStates)

/-! ### The first plan -/

/-- `effectiveMode`: without writes a bidirectional assignment only pulls. -/
def effectiveMode : AssignmentMode :=
  if r.writesEnabled = false ∧ r.mode = .bidirectional then .pullOnly else r.mode

/-- Without writes nothing is published. -/
def withhold (plan : ReconcilePlan) : ReconcilePlan :=
  if r.writesEnabled then plan else { plan with publishUpdates := [], publishDeletes := [] }

/-- `uniqueSortedStrings`: drop adjacent duplicates. -/
def uniqueSortedStrings : List String → List String
  | [] => []
  | [x] => [x]
  | x :: y :: l => if x = y then uniqueSortedStrings (y :: l) else x :: uniqueSortedStrings (y :: l)

/-- Sort and drop duplicates. -/
def sortUnique (l : List String) : List String := uniqueSortedStrings (l.insertionSort (· ≤ ·))

/-- Ancestors of paths that the manifest no longer manages are forgotten. -/
def forgetUnmanaged (plan : ReconcilePlan) : ReconcilePlan :=
  if r.writesEnabled ∧ r.effectiveMode ≠ .pullOnly then
    let unmanaged := r.baseline.files.keys.filter fun name => !r.manages name
    { plan with publishDeletes := sortUnique (plan.publishDeletes ++ unmanaged) }
  else plan

/-- The plan before merges and resolutions. -/
def firstPlan : ReconcilePlan :=
  r.forgetUnmanaged
    (r.withhold (planReconciliationMode r.baseline.files home remote r.effectiveMode))

/-! ### Automatic merges -/

/-- `partitionFrozenConflicts`: conflicts that may be merged, and those that stay as they are. -/
def partitionFrozenConflicts (conflicts : List PathSummary) : List PathSummary × List PathSummary :=
  (conflicts.filter fun c => (r.baseline.frozenPaths.lookup c.path).isNone,
    conflicts.filterMap fun c =>
      (r.baseline.frozenPaths.lookup c.path).map fun f => { c with revision := f.conflictRevision })

/-- The body of the loop of `mergeConflicts`: the merged file, or the reason why the conflict
remains. -/
def mergeConflict (path : String) : Except String FileState :=
  match r.baseline.files.lookup path, home.lookup path, remote.lookup path with
  | some base, some localState, some remoteState =>
    if base.mode = .symlink ∨ localState.mode = .symlink ∨ remoteState.mode = .symlink then
      .error "type_change"
    else if base.mode.perm ≠ localState.mode.perm ∨ localState.mode.perm ≠ remoteState.mode.perm then
      .error "mode_change"
    else
      match r.mergeText path with
      | .sourceChanged => .error "source_changed"
      | .conflict => .error "merge_conflict"
      | .merged hash bytes => .ok ⟨hash, bytes, .regular localState.mode.perm, ""⟩
  | _, _, _ => .error "delete_modify"

/-- `mergeConflicts`: the conflicts that remain, and the merged files. -/
def mergeConflicts : List PathSummary → List PathSummary × FileStates
  | [] => ([], ∅)
  | c :: conflicts =>
    let (remaining, merged) := mergeConflicts conflicts
    match r.mergeConflict home remote c.path with
    | .error reason => ({ c with reason := reason } :: remaining, merged)
    | .ok state => (remaining, merged.insert c.path state)

/-- Merging needs a bidirectional assignment with writes, the revision of the baseline and git. -/
def mergeable (conflicts : List PathSummary) : Bool :=
  r.writesEnabled ∧ r.effectiveMode = .bidirectional ∧ conflicts ≠ [] ∧
    r.baseline.remoteRevision ≠ "" ∧ r.git

/-- The conflicts that remain after merging, and the merged files. -/
def mergeStage (conflicts : List PathSummary) : List PathSummary × FileStates :=
  if r.mergeable conflicts then r.mergeConflicts home remote conflicts else (conflicts, ∅)

/-- The order of the conflict list. -/
def conflictLE (a b : PathSummary) : Prop := a.path ≤ b.path

instance : DecidableRel conflictLE := fun _ _ => inferInstanceAs (Decidable (_ ≤ _))

/-- The conflicts of the first plan that may be merged. -/
def candidates : List PathSummary :=
  (r.partitionFrozenConflicts (r.firstPlan home remote).conflicts).1

/-- The conflicts that have been left alone since an earlier round. -/
def frozenConflicts : List PathSummary :=
  (r.partitionFrozenConflicts (r.firstPlan home remote).conflicts).2

/-- The merged files of the round. -/
def merged : FileStates := (r.mergeStage home remote (r.candidates home remote)).2

/-- The plan after the automatic merges. -/
def mergedPlan : ReconcilePlan :=
  let plan := r.firstPlan home remote
  let remaining := (r.mergeStage home remote (r.candidates home remote)).1
  { plan with
    publishUpdates :=
      if r.mergeable (r.candidates home remote) then
        sortUnique (plan.publishUpdates ++ (r.merged home remote).keys)
      else plan.publishUpdates
    conflicts := (r.frozenConflicts home remote ++ remaining).insertionSort conflictLE }

/-! ### Resolving -/

/-- `stateIdentity`. -/
def stateIdentity (states : FileStates) (path : String) : String :=
  match states.lookup path with
  | none => "deleted"
  | some state => state.hash

/-- `identifyConflicts`: give every conflict the digest of its three states. -/
def identifyConflicts (baseline : FileStates) (conflicts : List PathSummary) : List PathSummary :=
  conflicts.map fun c => { c with revision := r.digest [r.repositoryID, r.assignmentID, c.path,
    stateIdentity baseline c.path, stateIdentity home c.path, stateIdentity remote c.path] }

/-- What the resolutions have changed so far: the ancestors, the mode and the paths they force, and
the resolutions that count as resolved. -/
structure Resolving where
  baselineFiles : FileStates
  frozen : FinMap String FrozenPath
  forcedMode : Option AssignmentMode
  forcedPaths : FinMap String ResolutionAction
  resolved : List ConflictResolution

/-- A resolution applies when it is valid and made for this remote revision. -/
def applies (x : ConflictResolution) : Bool :=
  x.valid r.safePath ∧ x.expectedRemoteRevision = r.remoteRevision

/-- A resolution of one conflict: the ancestor moves to the side that gives way. -/
def resolvePath (s : Resolving) (x : ConflictResolution) : Resolving where
  baselineFiles :=
    match x.action with
    | .keepLocal | .forcePush => setBaselineState s.baselineFiles x.path remote
    | .keepRemote | .forcePull => setBaselineState s.baselineFiles x.path home
  frozen := s.frozen.erase x.path
  forcedMode := s.forcedMode
  forcedPaths :=
    if x.action = .forcePull ∨ x.action = .forcePush then s.forcedPaths.insert x.path x.action
    else s.forcedPaths
  resolved := s.resolved ++ [x]

/-- The body of the loop over the pending resolutions. -/
def resolveOne (conflicts : List PathSummary) (s : Resolving) (x : ConflictResolution) : Resolving :=
  if r.applies x = false then s
  else
    match x.scope with
    | .config =>
      match x.action with
      | .forcePull =>
        { s with baselineFiles := home, forcedMode := some .pullOnly, resolved := s.resolved ++ [x] }
      | .forcePush =>
        { s with baselineFiles := remote, forcedMode := some .pushOnly, resolved := s.resolved ++ [x] }
      | _ => { s with resolved := s.resolved ++ [x] }
    | .path =>
      if conflicts.any fun c => x.path = c.path ∧ x.conflictRevision = c.revision then
        resolvePath home remote s x
      else s

/-- The conflicts that the resolutions are matched with. -/
def identified : List PathSummary :=
  r.identifyConflicts home remote r.baseline.files (r.mergedPlan home remote).conflicts

/-- The loop over the pending resolutions. -/
def resolving : Resolving :=
  (r.resolutions.getD []).foldl (r.resolveOne home remote (r.identified home remote))
    ⟨r.baseline.files, r.baseline.frozenPaths, none, ∅, []⟩

/-- `forcePlanPath`: move a path to the list of its forced direction. -/
def forcePlanPath (plan : ReconcilePlan) (path : String) (action : ResolutionAction) :
    ReconcilePlan :=
  let plan : ReconcilePlan :=
    ⟨plan.publishUpdates.filter (· ≠ path), plan.publishDeletes.filter (· ≠ path),
      plan.applyRemote.filter (· ≠ path), plan.deleteLocal.filter (· ≠ path),
      plan.conflicts.filter (·.path ≠ path)⟩
  if action = .forcePull then
    if (remote.lookup path).isSome then { plan with applyRemote := plan.applyRemote ++ [path] }
    else { plan with deleteLocal := plan.deleteLocal ++ [path] }
  else if (home.lookup path).isSome then
    { plan with publishUpdates := plan.publishUpdates ++ [path] }
  else { plan with publishDeletes := plan.publishDeletes ++ [path] }

/-- The mode of the second plan. -/
def planningMode : AssignmentMode :=
  (r.resolving home remote).forcedMode.getD r.effectiveMode

/-- The plan made after at least one resolution. -/
def secondPlan : ReconcilePlan :=
  let s := r.resolving home remote
  let plan := planReconciliationMode s.baselineFiles home remote (r.planningMode home remote)
  let plan := s.forcedPaths.entries.foldl (fun plan e => forcePlanPath home remote plan e.1 e.2) plan
  let plan := r.withhold plan
  { plan with conflicts := r.identifyConflicts home remote s.baselineFiles plan.conflicts }

/-- The plan that the round executes once `preserveConflicts` has copied its new conflicts. -/
def plan : ReconcilePlan :=
  if (r.resolving home remote).resolved = [] then
    let plan := r.mergedPlan home remote
    if plan.conflicts ≠ [] ∨ r.resolutions.isSome then
      { plan with conflicts := r.identified home remote }
    else plan
  else r.secondPlan home remote

/-- The ancestor of every path after the resolutions. -/
def ancestors : FileStates := (r.resolving home remote).baselineFiles

/-! ### The final plan, path by path -/

/-- The verdict that a forced direction amounts to. -/
def forcedVerdict (action : ResolutionAction) (homeState remoteState : Option FileState) : Verdict :=
  if action = .forcePull then if remoteState.isSome then .applyRemote else .deleteLocal
  else if homeState.isSome then .publishUpdate else .publishDelete

/-- The verdict of the round on a path: forced by a resolution, or by its ancestor and its states. -/
def verdict (path : String) : Verdict :=
  match (r.resolving home remote).forcedPaths.lookup path with
  | some action => forcedVerdict action (home.lookup path) (remote.lookup path)
  | none => classify (r.planningMode home remote) ((r.ancestors home remote).lookup path)
      (home.lookup path) (remote.lookup path)

variable {r home remote} {path : String}

/-- Membership of a path in the conflicts whose paths meet a condition. -/
lemma mem_map_path_filter {conflicts : List PathSummary} {p : String → Bool} :
    path ∈ (conflicts.filter (p ·.path)).map PathSummary.path ↔
      path ∈ conflicts.map PathSummary.path ∧ p path = true := by
  simp only [mem_map, mem_filter]
  constructor
  · rintro ⟨c, ⟨hc, hp⟩, rfl⟩
    exact ⟨⟨c, hc, rfl⟩, hp⟩
  · rintro ⟨⟨c, hc, rfl⟩, hp⟩
    exact ⟨c, ⟨hc, hp⟩, rfl⟩

variable {plan : ReconcilePlan} {v : Verdict}

lemma follows_force (home remote : FileStates) (h : Follows plan path v) (q : String)
    (action : ResolutionAction) :
    Follows (forcePlanPath home remote plan q action) path
      (if path = q then forcedVerdict action (home.lookup q) (remote.lookup q) else v) := by
  unfold forcePlanPath forcedVerdict
  by_cases hq : path = q
  · subst hq
    rw [if_pos rfl]
    split_ifs <;> constructor <;> simp only [mem_map_path_filter (p := (· ≠ path))] <;> simp
  · rw [if_neg hq]
    obtain ⟨h₁, h₂, h₃, h₄, h₅⟩ := h
    split_ifs <;> constructor <;> simp only [mem_map_path_filter (p := (· ≠ q))] <;>
      simp [hq, h₁, h₂, h₃, h₄, h₅]

lemma follows_forceAll (l : List (Sigma fun _ : String => ResolutionAction)) (hl : l.NodupKeys)
    (h : Follows plan path v) :
    Follows (l.foldl (fun plan e => forcePlanPath home remote plan e.1 e.2) plan) path
      (match l.dlookup path with
        | some action => forcedVerdict action (home.lookup path) (remote.lookup path)
        | none => v) := by
  induction l generalizing plan v with
  | nil => exact h
  | cons e l ih =>
    obtain ⟨q, action⟩ := e
    rw [nodupKeys_cons] at hl
    rw [foldl_cons]
    by_cases hq : path = q
    · subst hq
      -- no later entry forces the same path
      have hnone : l.dlookup path = none := dlookup_eq_none.mpr hl.1
      have hih := ih hl.2 (follows_force home remote h path action)
      rw [hnone] at hih
      simpa [dlookup_cons_eq] using hih
    · have hih := ih hl.2 (follows_force home remote h q action)
      rw [if_neg hq] at hih
      rwa [dlookup_cons_ne _ _ hq]

/-- A resolution counts when it applies and, unless it is for the whole assignment, is for a conflict
of the round. -/
def counts (r : Round) (conflicts : List PathSummary) (x : ConflictResolution) : Bool :=
  r.applies x && match x.scope with
    | .config => true
    | .path => conflicts.any fun c => x.path = c.path ∧ x.conflictRevision = c.revision

section
variable {conflicts : List PathSummary} {x : ConflictResolution}

/-- A resolution for the whole assignment has the path `.` and pulls or pushes. -/
lemma of_counts_config (h : r.counts conflicts x = true) (hscope : x.scope = .config) :
    x.path = "." ∧ (x.action = .forcePull ∨ x.action = .forcePush) := by
  simp only [counts, applies, ConflictResolution.valid, hscope, Bool.and_true,
    decide_eq_true_eq] at h
  split at h
  · cases h.1
  · exact of_decide_eq_true h.1

lemma of_counts_path (h : r.counts conflicts x = true) (hscope : x.scope = .path) :
    x.path ∈ conflicts.map PathSummary.path := by
  simp only [counts, hscope, Bool.and_eq_true] at h
  obtain ⟨c, hc, hmatch⟩ := any_eq_true.mp h.2
  exact mem_map.mpr ⟨c, hc, (of_decide_eq_true hmatch).1.symm⟩

/-- What a resolution can do: nothing, move every ancestor to one side and fix the mode, or move the
ancestor of a conflict. -/
lemma resolveOne_cases (conflicts) (s : Resolving) (x) :
    r.counts conflicts x = false ∧ r.resolveOne home remote conflicts s x = s ∨
    r.counts conflicts x = true ∧ x.scope = .config ∧
      (x.action = .forcePull ∧ r.resolveOne home remote conflicts s x =
          { s with baselineFiles := home, forcedMode := some .pullOnly, resolved := s.resolved ++ [x] } ∨
        x.action = .forcePush ∧ r.resolveOne home remote conflicts s x =
          { s with
            baselineFiles := remote, forcedMode := some .pushOnly, resolved := s.resolved ++ [x] }) ∨
    r.counts conflicts x = true ∧ x.scope = .path ∧ x.path ∈ conflicts.map PathSummary.path ∧
      r.resolveOne home remote conflicts s x = resolvePath home remote s x := by
  rcases hc : r.counts conflicts x with _ | _
  · refine .inl ⟨rfl, ?_⟩
    unfold counts at hc
    unfold resolveOne
    cases happ : r.applies x <;> cases hscope : x.scope <;> simp_all
  have happ : r.applies x = true := (Bool.and_eq_true_iff.mp hc).1
  cases hscope : x.scope with
  | config =>
    refine .inr (.inl ⟨rfl, rfl, ?_⟩)
    rcases (of_counts_config hc hscope).2 with haction | haction
    · exact .inl ⟨haction, by simp [resolveOne, happ, hscope, haction]⟩
    · exact .inr ⟨haction, by simp [resolveOne, happ, hscope, haction]⟩
  | path =>
    refine .inr (.inr ⟨rfl, rfl, of_counts_path hc hscope, ?_⟩)
    have hany := (Bool.and_eq_true_iff.mp hc).2
    simp only [hscope] at hany
    simp only [resolveOne, happ, hscope, Bool.true_eq_false, if_false, hany, if_true]

variable (conflicts) (l : List ConflictResolution) (s : Resolving)

lemma resolved_resolveOne (x) : (r.resolveOne home remote conflicts s x).resolved =
      s.resolved ++ [x].filter (r.counts conflicts) := by
  rcases @resolveOne_cases r home remote conflicts s x with
    ⟨hc, hs⟩ | ⟨hc, -, ⟨-, hs⟩ | ⟨-, hs⟩⟩ | ⟨hc, -, -, hs⟩ <;> rw [hs] <;> simp [hc, resolvePath]

lemma foldl_resolved : (l.foldl (r.resolveOne home remote conflicts) s).resolved =
      s.resolved ++ l.filter (r.counts conflicts) := by
  induction l generalizing s with
  | nil => simp
  | cons x l ih =>
    rw [foldl_cons, ih, resolved_resolveOne, append_assoc, ← filter_append, singleton_append]

/-- Until a resolution counts, the loop over the resolutions changes nothing. -/
lemma foldl_resolveOne_of_resolved_nil
    (h : (l.foldl (r.resolveOne home remote conflicts) s).resolved = []) :
    l.foldl (r.resolveOne home remote conflicts) s = s := by
  rw [foldl_resolved, append_eq_nil_iff, filter_eq_nil_iff] at h
  replace h := h.2
  induction l with
  | nil => rfl
  | cons x l ih =>
    have hx := h x mem_cons_self
    rw [foldl_cons]
    rcases @resolveOne_cases r home remote conflicts s x with ⟨-, hs⟩ | ⟨hc, -⟩ | ⟨hc, -⟩
    · rw [hs]
      exact ih fun y hy => h y (mem_cons_of_mem _ hy)
    · exact absurd hc hx
    · exact absurd hc hx

end

/-- Without a resolution that counts, the ancestors are the baseline and nothing is forced. -/
lemma resolving_of_resolved_nil (h : (r.resolving home remote).resolved = []) :
    r.ancestors home remote = r.baseline.files ∧ r.planningMode home remote = r.effectiveMode ∧
      (r.resolving home remote).forcedPaths = ∅ := by
  have hs := foldl_resolveOne_of_resolved_nil (r.identified home remote) (r.resolutions.getD [])
    ⟨r.baseline.files, r.baseline.frozenPaths, none, ∅, []⟩ h
  change r.resolving home remote = _ at hs
  simp [ancestors, planningMode, hs]

/-! ### Merging and the first plan -/

variable {l : List String} {x : String}

@[simp] lemma mem_uniqueSortedStrings : x ∈ uniqueSortedStrings l ↔ x ∈ l := by
  induction l using uniqueSortedStrings.induct with
  | case1 | case2 => simp [uniqueSortedStrings]
  | case3 y l ih =>
    rw [uniqueSortedStrings, if_pos rfl, ih]
    simp
  | case4 y z l hne ih =>
    rw [uniqueSortedStrings, if_neg hne, mem_cons, ih]
    simp

@[simp] lemma mem_sortUnique : x ∈ sortUnique l ↔ x ∈ l := by simp [sortUnique]

/-- The merged files are those conflicts whose merge succeeds; the others remain. -/
lemma mergeConflicts_spec (conflicts : List PathSummary) (path : String) :
    (r.mergeConflicts home remote conflicts).2.lookup path =
        (if path ∈ conflicts.map PathSummary.path then (r.mergeConflict home remote path).toOption
          else none) ∧
      (path ∈ (r.mergeConflicts home remote conflicts).1.map PathSummary.path ↔
        path ∈ conflicts.map PathSummary.path ∧ (r.mergeConflict home remote path).toOption = none) := by
  induction conflicts with
  | nil => simp [mergeConflicts]
  | cons c conflicts ih =>
    obtain ⟨h₁, h₂⟩ := ih
    rw [mergeConflicts]
    by_cases hc : path = c.path
    · subst hc
      cases hm : r.mergeConflict home remote c.path with
      | error =>
        simp only [hm] at h₁
        simpa [hm, Except.toOption] using h₁
      | ok =>
        simp only [hm] at h₂
        simpa [hm, Except.toOption, FinMap.lookup_insert_eq] using h₂
    · cases r.mergeConflict home remote c.path <;>
        simp only [map_cons, mem_cons, hc, false_or, FinMap.lookup_insert_eq, if_false] <;>
        exact ⟨h₁, h₂⟩

variable {state : FileState}

/-- What a successful merge needs: the file on all three sides, none of them a symlink. -/
lemma mergeConflict_eq_ok (h : r.mergeConflict home remote path = .ok state) :
    r.baseline.files.lookup path ≠ none ∧ home.lookup path ≠ none ∧ remote.lookup path ≠ none := by
  unfold mergeConflict at h
  split at h
  · next hb hl hr => simp [hb, hl, hr]
  · cases h

section
variable {update delete apply remove conflict : Prop}
  (h : plan.Has path update delete apply remove conflict)
include h

/-- Without write access nothing is published. -/
lemma has_withhold : (r.withhold plan).Has path (r.writesEnabled = true ∧ update)
    (r.writesEnabled = true ∧ delete) apply remove conflict := by
  obtain ⟨h₁, h₂, h₃, h₄, h₅⟩ := h
  unfold withhold
  split <;> next hw => exact ⟨by simp [hw, h₁], by simp [hw, h₂], h₃, h₄, h₅⟩

/-- Forgetting paths that have left the manifest only adds to the deletions. -/
lemma has_forgetUnmanaged : (r.forgetUnmanaged plan).Has path update
    (delete ∨ r.writesEnabled = true ∧ r.effectiveMode ≠ .pullOnly ∧
      r.baseline.files.lookup path ≠ none ∧ r.manages path = false) apply remove conflict := by
  obtain ⟨h₁, h₂, h₃, h₄, h₅⟩ := h
  unfold forgetUnmanaged
  split
  · next hc => exact ⟨h₁, by simp [hc, FinMap.mem_keys, h₂], h₃, h₄, h₅⟩
  · next hc =>
    exact ⟨h₁, h₂.trans (or_iff_left fun h => hc ⟨h.1, h.2.1⟩).symm, h₃, h₄, h₅⟩

end

/-- The conflicts of the first plan that may be merged, and those that are frozen. -/
lemma partitionFrozenConflicts_paths (conflicts : List PathSummary) (path : String) :
    (path ∈ (r.partitionFrozenConflicts conflicts).1.map PathSummary.path ↔
        path ∈ conflicts.map PathSummary.path ∧ r.baseline.frozenPaths.lookup path = none) ∧
      (path ∈ (r.partitionFrozenConflicts conflicts).2.map PathSummary.path ↔
        path ∈ conflicts.map PathSummary.path ∧ r.baseline.frozenPaths.lookup path ≠ none) := by
  constructor
  · rw [← Option.isNone_iff_eq_none]
    exact mem_map_path_filter (p := fun q => (r.baseline.frozenPaths.lookup q).isNone)
  · simp only [partitionFrozenConflicts, mem_map, mem_filterMap, Option.map_eq_some_iff]
    constructor
    · rintro ⟨-, ⟨c, hc, f, hf, rfl⟩, rfl⟩
      exact ⟨⟨c, hc, rfl⟩, by simp [hf]⟩
    · rintro ⟨⟨c, hc, rfl⟩, hsome⟩
      obtain ⟨f, hf⟩ := Option.ne_none_iff_exists'.mp hsome
      exact ⟨{ c with revision := f.conflictRevision }, ⟨c, hc, f, hf, rfl⟩, rfl⟩

/-- The verdict of the first plan. -/
def firstVerdict (r : Round) (home remote : FileStates) (path : String) : Verdict :=
  classify r.effectiveMode (r.baseline.files.lookup path) (home.lookup path) (remote.lookup path)

lemma firstPlan_has (path : String) : let v := r.firstVerdict home remote path
    (r.firstPlan home remote).Has path (r.writesEnabled = true ∧ v = .publishUpdate)
      (r.writesEnabled = true ∧ v = .publishDelete ∨ r.writesEnabled = true ∧
        r.effectiveMode ≠ .pullOnly ∧ r.baseline.files.lookup path ≠ none ∧ r.manages path = false)
      (v = .applyRemote) (v = .deleteLocal) (∃ reason, v = .conflict reason) :=
  has_forgetUnmanaged (has_withhold (follows_planReconciliationMode _ _ _ _ path))

/-- The conflicts that remain are the candidates that are not merged. -/
lemma mergeStage_spec (path : String) :
    (path ∈ (r.mergeStage home remote (r.candidates home remote)).1.map PathSummary.path ↔
        path ∈ (r.candidates home remote).map PathSummary.path ∧
          (r.merged home remote).lookup path = none) ∧
      ∀ state, (r.merged home remote).lookup path = some state →
        path ∈ (r.candidates home remote).map PathSummary.path ∧ r.writesEnabled = true ∧
          r.effectiveMode = .bidirectional ∧ r.mergeConflict home remote path = .ok state := by
  unfold merged mergeStage
  split
  · next hmergeable =>
    simp only [mergeable, decide_eq_true_eq] at hmergeable
    obtain ⟨h₁, h₂⟩ := r.mergeConflicts_spec (r.candidates home remote) path
    rw [h₁, h₂]
    split
    · next hmem =>
      refine ⟨by simp, fun state hstate => ⟨hmem, hmergeable.1, hmergeable.2.1, ?_⟩⟩
      cases hm : r.mergeConflict home remote path with
      | error => simp [hm, Except.toOption] at hstate
      | ok =>
        rw [hm] at hstate
        exact congrArg Except.ok (Option.some.inj hstate)
    · next hmem => simp [hmem]
  · simp

/-- A merged file was a conflict of the first plan, and its merge succeeded. -/
lemma merged_eq_some (h : (r.merged home remote).lookup path = some state) :
    r.writesEnabled = true ∧ r.effectiveMode = .bidirectional ∧
      (∃ reason, r.firstVerdict home remote path = .conflict reason) ∧
      r.mergeConflict home remote path = .ok state := by
  obtain ⟨hmem, hwrites, hmode, hmerge⟩ := (r.mergeStage_spec path).2 state h
  refine ⟨hwrites, hmode, ?_, hmerge⟩
  exact (firstPlan_has path).conflicts.mp ((partitionFrozenConflicts_paths _ path).1.mp hmem).1

lemma mergedPlan_has (path : String) : let v := r.firstVerdict home remote path
    (r.mergedPlan home remote).Has path
      (r.writesEnabled = true ∧ v = .publishUpdate ∨ (r.merged home remote).lookup path ≠ none)
      (r.writesEnabled = true ∧ v = .publishDelete ∨ r.writesEnabled = true ∧
        r.effectiveMode ≠ .pullOnly ∧ r.baseline.files.lookup path ≠ none ∧ r.manages path = false)
      (v = .applyRemote) (v = .deleteLocal)
      ((∃ reason, v = .conflict reason) ∧ (r.merged home remote).lookup path = none) := by
  obtain ⟨hfirst, hdeletes, happly, hdelete, hconflicts⟩ := @firstPlan_has r home remote path
  obtain ⟨hp₁, hp₂⟩ := r.partitionFrozenConflicts_paths (r.firstPlan home remote).conflicts path
  rw [hconflicts] at hp₁ hp₂
  refine ⟨?_, hdeletes, happly, hdelete, ?_⟩
  · -- merged files are published
    change path ∈ (if _ then _ else _ : List String) ↔ _
    split
    · rw [mem_sortUnique, mem_append, hfirst]
      exact or_congr_right (FinMap.mem_keys _ _)
    · next hno =>
      have hempty : r.merged home remote = ∅ := by
        unfold merged mergeStage
        rw [if_neg hno]
      simp [hfirst, hempty]
  · -- a frozen conflict is never merged
    have hperm := (perm_insertionSort conflictLE (r.frozenConflicts home remote ++
      (r.mergeStage home remote (r.candidates home remote)).1)).map PathSummary.path
    change path ∈ List.map _ (List.insertionSort _ _) ↔ _
    rw [hperm.mem_iff, map_append, mem_append, (r.mergeStage_spec path).1]
    change path ∈ (r.frozenConflicts home remote).map _ ↔ _ at hp₂
    change path ∈ (r.candidates home remote).map _ ↔ _ at hp₁
    rw [hp₁, hp₂]
    have hfrozen : r.baseline.frozenPaths.lookup path ≠ none →
        (r.merged home remote).lookup path = none := by
      intro hne
      by_contra hsome
      obtain ⟨state, hstate⟩ := Option.ne_none_iff_exists'.mp hsome
      exact hne (hp₁.mp ((r.mergeStage_spec path).2 state hstate).1).2
    constructor
    · rintro (⟨hc, hne⟩ | ⟨⟨hc, -⟩, hm⟩)
      · exact ⟨hc, hfrozen hne⟩
      · exact ⟨hc, hm⟩
    · rintro ⟨hc, hm⟩
      by_cases hf : r.baseline.frozenPaths.lookup path = none
      · exact .inr ⟨⟨hc, hf⟩, hm⟩
      · exact .inl ⟨hc, hf⟩

@[simp] lemma map_path_identifyConflicts (baseline : FileStates) (conflicts : List PathSummary) :
    (r.identifyConflicts home remote baseline conflicts).map PathSummary.path =
      conflicts.map PathSummary.path := by
  simp [identifyConflicts, Function.comp_def]

lemma secondPlan_has (path : String) : let v := r.verdict home remote path
    (r.secondPlan home remote).Has path (r.writesEnabled = true ∧ v = .publishUpdate)
      (r.writesEnabled = true ∧ v = .publishDelete) (v = .applyRemote) (v = .deleteLocal)
      (∃ reason, v = .conflict reason) := by
  set s := r.resolving home remote with hs
  have hfollows : Follows _ path (r.verdict home remote path) :=
    follows_forceAll s.forcedPaths.entries s.forcedPaths.nodupKeys
      (follows_planReconciliationMode s.baselineFiles home remote (r.planningMode home remote) path)
  obtain ⟨h₁, h₂, h₃, h₄, h₅⟩ := has_withhold (r := r) hfollows
  refine ⟨h₁, h₂, h₃, h₄, ?_⟩
  change path ∈ List.map _ (r.identifyConflicts _ _ _ (r.withhold _).conflicts) ↔ _
  rwa [map_path_identifyConflicts]

/-- Without a resolution that counts, the verdict is that of the first plan. -/
lemma verdict_of_resolved_nil (h : (r.resolving home remote).resolved = []) (path : String) :
    r.verdict home remote path = r.firstVerdict home remote path := by
  obtain ⟨hanc, hmode, hforced⟩ := resolving_of_resolved_nil h
  simp [verdict, firstVerdict, hanc, hmode, hforced]

/-- Which paths the round publishes, forgets, applies, deletes and leaves as conflicts. -/
lemma plan_has (path : String) : let v := r.verdict home remote path
    let unresolved := (r.resolving home remote).resolved = []
    (r.plan home remote).Has path
      (r.writesEnabled = true ∧ v = .publishUpdate ∨
        unresolved ∧ (r.merged home remote).lookup path ≠ none)
      (r.writesEnabled = true ∧ v = .publishDelete ∨
        unresolved ∧ r.writesEnabled = true ∧ r.effectiveMode ≠ .pullOnly ∧
          r.baseline.files.lookup path ≠ none ∧ r.manages path = false)
      (v = .applyRemote) (v = .deleteLocal)
      ((∃ reason, v = .conflict reason) ∧
        ¬ (unresolved ∧ (r.merged home remote).lookup path ≠ none)) := by
  by_cases hres : (r.resolving home remote).resolved = []
  · obtain ⟨h₁, h₂, h₃, h₄, h₅⟩ := @mergedPlan_has r home remote path
    simp only [hres, true_and, not_not, verdict_of_resolved_nil hres]
    unfold plan
    rw [if_pos hres]
    simp only
    split
    · refine ⟨h₁, h₂, h₃, h₄, ?_⟩
      rw [identified, map_path_identifyConflicts]
      exact h₅
    · exact ⟨h₁, h₂, h₃, h₄, h₅⟩
  · have hplan : r.plan home remote = r.secondPlan home remote := by
      unfold plan
      rw [if_neg hres]
    simp only [hplan, hres, false_and, or_false, not_false_eq_true, and_true]
    exact r.secondPlan_has path

end Round

end Paperboat.ConfigSync

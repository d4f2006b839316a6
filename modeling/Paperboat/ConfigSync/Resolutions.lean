import Paperboat.ConfigSync.Ancestry

/-!
# Resolutions and automatic merges in one round

A round that nobody disturbs, with snapshots that may leave out selected files. Every resolution that
the round counts as resolved has taken effect (`Attempt.Honours`), and a path that the round reports as a
conflict is left alone, while a merged file is published as it was written
(`Attempt.IsolatesConflicts`).

A resolution works by moving the ancestor of its path and planning again. The planning mode may forbid
the direction, publishing may be off, and merged files are written whatever the second plan says. A round
that cannot preserve the three versions of a new conflict ends with an error and acknowledges nothing.
-/

namespace Paperboat.ConfigSync

open List Round Resolving

namespace Round

variable {r : Round} {home remote : FileStates}

/-! ### The path of a resolution -/

variable (conflicts : List PathSummary) (l : List ConflictResolution) (s : Resolving)
  {x : ConflictResolution}

/-- The ancestor of a path, its forced direction and the forced mode. -/
def Resolving.view (s : Resolving) (path : String) :
    Option FileState × Option ResolutionAction × Option AssignmentMode :=
  (s.baselineFiles.lookup path, s.forcedPaths.lookup path, s.forcedMode)

/-- A path after a resolution of its own conflict, or of another one. -/
lemma view_resolvePath (x) (path : String) : (resolvePath home remote s x).view path =
      if path = x.path then
        (match x.action with
          | .keepLocal | .forcePush => remote.lookup path
          | .keepRemote | .forcePull => home.lookup path,
          if x.action = .forcePull ∨ x.action = .forcePush then some x.action
          else s.forcedPaths.lookup path, s.forcedMode)
      else s.view path := by
  unfold view resolvePath
  by_cases hp : path = x.path
  · subst hp
    cases x.action <;> simp
  · cases x.action <;> simp [hp]

variable {path : String}

lemma view_foldl_of_others (h : ∀ x ∈ l, r.counts conflicts x = true → x.scope = .path ∧ x.path ≠ path) :
    (l.foldl (r.resolveOne home remote conflicts) s).view path = s.view path := by
  induction l generalizing s with
  | nil => rfl
  | cons x l ih =>
    rw [foldl_cons, ih _ fun y hy => h y (mem_cons_of_mem _ hy)]
    have hx := h x mem_cons_self
    rcases @resolveOne_cases r home remote conflicts s x with
      ⟨-, hs⟩ | ⟨hc, hscope, -⟩ | ⟨hc, -, -, hs⟩
    · rw [hs]
    · rw [(hx hc).1] at hscope
      cases hscope
    · rw [hs, view_resolvePath, if_neg (hx hc).2.symm]

/-- The ancestor that the whole assignment has under a forced mode. -/
def forcedAncestor (base home remote : Option FileState) : Option AssignmentMode → Option FileState
  | none => base
  | some .pullOnly => home
  | some .pushOnly => remote
  | some .bidirectional => base

/-- A path whose own conflict is not resolved has the ancestor of the forced mode. -/
lemma view_foldl_of_config (base : Option FileState)
    (h : ∀ x ∈ l, r.counts conflicts x = true → x.scope = .path → x.path ≠ path)
    (hs : s.baselineFiles.lookup path =
      forcedAncestor base (home.lookup path) (remote.lookup path) s.forcedMode)
    (hbi : s.forcedMode ≠ some .bidirectional) :
    let t := l.foldl (r.resolveOne home remote conflicts) s
    t.baselineFiles.lookup path =
        forcedAncestor base (home.lookup path) (remote.lookup path) t.forcedMode ∧
      t.forcedMode ≠ some .bidirectional ∧
      t.forcedPaths.lookup path = s.forcedPaths.lookup path := by
  induction l generalizing s with
  | nil => exact ⟨hs, hbi, rfl⟩
  | cons x l ih =>
    have hrest : ∀ y ∈ l, r.counts conflicts y = true → y.scope = .path → y.path ≠ path :=
      fun y hy => h y (mem_cons_of_mem _ hy)
    rw [foldl_cons]
    rcases @resolveOne_cases r home remote conflicts s x with
      ⟨-, hx⟩ | ⟨-, -, ⟨-, hx⟩ | ⟨-, hx⟩⟩ | ⟨hc, hscope, -, hx⟩
    · rw [hx]
      exact ih s hrest hs hbi
    · rw [hx]
      exact ih _ hrest rfl (by simp)
    · rw [hx]
      exact ih _ hrest rfl (by simp)
    · have hne := h x mem_cons_self hc hscope
      have hview := @view_resolvePath home remote s x path
      rw [if_neg hne.symm] at hview
      simp only [view, Prod.mk.injEq] at hview
      obtain ⟨hb, hf, hm⟩ := hview
      rw [hx]
      obtain ⟨h₁, h₂, h₃⟩ := ih (resolvePath home remote s x) hrest (by rw [hb, hm, hs])
        (by rwa [hm])
      exact ⟨h₁, h₂, h₃.trans hf⟩

/-- At most one resolution for each path, and none for the whole assignment beside those for single
paths. -/
structure Orderly (l : List ConflictResolution) : Prop where
  nodup : (l.map ConflictResolution.path).Nodup
  uniform : (∀ x ∈ l, x.scope = .config) ∨ ∀ x ∈ l, x.scope = .path

lemma Orderly.sublist {l l' : List ConflictResolution} (h : Orderly l) (hsub : l'.Sublist l) :
    Orderly l' where
  nodup := h.nodup.sublist (hsub.map _)
  uniform := h.uniform.imp (fun hall x hx => hall x (hsub.subset hx))
    fun hall x hx => hall x (hsub.subset hx)

/-- A path after the resolutions of single conflicts, one of them its own. -/
lemma view_foldl_of_mem (hx : x ∈ l.filter (r.counts conflicts))
    (hscope : ∀ y ∈ l.filter (r.counts conflicts), y.scope = .path)
    (hnodup : ((l.filter (r.counts conflicts)).map ConflictResolution.path).Nodup) :
    (l.foldl (r.resolveOne home remote conflicts) s).view x.path =
      (resolvePath home remote s x).view x.path := by
  induction l generalizing s with
  | nil => cases hx
  | cons y l ih =>
    rw [foldl_cons]
    rcases @resolveOne_cases r home remote conflicts s y with
      ⟨hc, hs⟩ | ⟨hc, hconfig, -⟩ | ⟨hc, -, -, hs⟩
    · rw [filter_cons_of_neg (by simp [hc])] at hx hscope hnodup
      rw [hs]
      exact ih s hx hscope hnodup
    · rw [hscope y (mem_filter.mpr ⟨mem_cons_self, hc⟩)] at hconfig
      cases hconfig
    · rw [filter_cons_of_pos hc] at hx hscope hnodup
      rw [map_cons, nodup_cons] at hnodup
      have htail : ∀ z ∈ l.filter (r.counts conflicts), z.scope = .path :=
        fun z hz => hscope z (mem_cons_of_mem _ hz)
      rw [hs]
      rcases mem_cons.mp hx with rfl | hx
      · -- the later ones are for other paths
        refine view_foldl_of_others conflicts l _ fun z hz hcz => ?_
        have hmem := mem_filter.mpr ⟨hz, hcz⟩
        exact ⟨htail z hmem, fun heq => hnodup.1 (heq ▸ mem_map_of_mem hmem)⟩
      · have hne : x.path ≠ y.path := fun heq => hnodup.1 (heq ▸ mem_map_of_mem hx)
        rw [ih _ hx htail hnodup.2, view_resolvePath, if_pos rfl, view_resolvePath, if_pos rfl]
        have hy := @view_resolvePath home remote s y x.path
        rw [if_neg hne] at hy
        simp only [view, Prod.mk.injEq] at hy
        rw [hy.2.1, hy.2.2]

/-- Resolutions for the whole assignment that agree on their action force the mode of that action. -/
lemma forcedMode_foldl {action : ResolutionAction} {mode : AssignmentMode}
    (hmode : action = .forcePull ∧ mode = .pullOnly ∨ action = .forcePush ∧ mode = .pushOnly)
    (h : ∀ y ∈ l, r.counts conflicts y = true → y.scope = .config ∧ y.action = action)
    (hstart : l.filter (r.counts conflicts) ≠ [] ∨ s.forcedMode = some mode) :
    (l.foldl (r.resolveOne home remote conflicts) s).forcedMode = some mode := by
  induction l generalizing s with
  | nil => exact hstart.resolve_left (by simp)
  | cons x l ih =>
    rw [foldl_cons]
    have hhead := h x mem_cons_self
    apply ih _ fun y hy => h y (mem_cons_of_mem _ hy)
    rcases @resolveOne_cases r home remote conflicts s x with
      ⟨hc, hs⟩ | ⟨hc, -, ⟨hpull, hs⟩ | ⟨hpush, hs⟩⟩ | ⟨hc, hscope, -⟩
    · rwa [filter_cons_of_neg (by simp [hc]), ← hs] at hstart
    · rw [(hhead hc).2] at hpull
      simp only [hpull, true_and, reduceCtorEq, false_and, or_false] at hmode
      exact .inr (by rw [hs, hmode])
    · rw [(hhead hc).2] at hpush
      simp only [hpush, true_and, reduceCtorEq, false_and, false_or] at hmode
      exact .inr (by rw [hs, hmode])
    · rw [(hhead hc).1] at hscope
      cases hscope

lemma resolved_eq : (r.resolving home remote).resolved =
    (r.resolutions.getD []).filter (r.counts (r.identified home remote)) :=
  (foldl_resolved _ _ _).trans (nil_append _)

/-- A path that a round pulls. -/
def pullVerdict (home remote : Option FileState) : Verdict :=
  if home = remote then .unchanged else if remote.isSome then .applyRemote else .deleteLocal

/-- A path that a round pushes. -/
def pushVerdict (home remote : Option FileState) : Verdict :=
  if home = remote then .unchanged else if home.isSome then .publishUpdate else .publishDelete

/-- With the state of the home as the ancestor, every mode pulls, except the one that only pushes. -/
lemma classify_home (mode : AssignmentMode) (home remote : Option FileState)
    (hmode : mode ≠ .pushOnly) : classify mode home home remote = pullVerdict home remote := by
  unfold classify pullVerdict
  by_cases heq : home = remote
  · simp [heq]
  · cases remote <;> simp [hmode, heq]

/-- With the remote state as the ancestor, every mode pushes, except the one that only pulls. -/
lemma classify_remote (mode : AssignmentMode) (home remote : Option FileState)
    (hmode : mode ≠ .pullOnly) : classify mode remote home remote = pushVerdict home remote := by
  unfold classify pushVerdict
  by_cases heq : home = remote
  · simp [heq]
  · have hne : remote ≠ home := fun h => heq h.symm
    cases home <;> simp [hmode, heq, hne]

/-! ### The copies of new conflicts -/

/-- What `preserveConflicts` finds: the rendered files of the revision of the baseline, and the copies of
ancestors that earlier rounds have made, by the revision and the path of the conflict. -/
structure Copies where
  base : FileStates
  preserved : String → String → Bool

variable (r home remote) in
/-- `baseHome` is not empty: there is a conflict that may be merged, and a baseline with a revision. -/
def hasBaseHome : Bool := r.candidates home remote ≠ [] ∧ r.baseline.remoteRevision ≠ ""

variable (r home remote) in
/-- The ancestor of a conflict can be copied. `writeConflictFile` takes it from the revision of the
baseline and compares its size with the ancestor, which a resolution may have moved. -/
def preservesBase (copies : Copies) (c : PathSummary) : Bool :=
  copies.preserved c.revision c.path ||
    match (r.ancestors home remote).lookup c.path with
    | none => true
    | some state => r.hasBaseHome home remote &&
        (state.mode = .symlink || (copies.base.lookup c.path).any fun file =>
          file.mode ≠ .symlink ∧ file.bytes = state.bytes)

variable (r home remote) in
/-- `preserveConflicts` on the conflicts that are not frozen returns without an error. The copies of the
local and the remote version succeed in a round that nobody disturbs. -/
def preserveConflicts (copies : Copies) : Bool :=
  ((r.plan home remote).conflicts.filter fun c =>
    ((r.resolving home remote).frozen.lookup c.path).isNone).all (r.preservesBase home remote copies)

end Round

/-! ### The round -/

/-- A round that nobody disturbs: the files of the home, the rendered files of the remote revision, the
manifest, which selects only managed paths, and the files that the snapshots skip. -/
structure Attempt where
  round : Round
  home : FileStates
  source : FileStates
  selects : String → Bool
  manages_of_selects : ∀ path, selects path = true → round.manages path = true
  skippedHome : List String
  skippedSource : List String

namespace Attempt

variable (a : Attempt)

/-- The snapshot of the home. -/
def localFiles : FileStates := snapshotOf a.selects a.skippedHome a.home

/-- The snapshot of the remote tree. -/
def remoteFiles : FileStates := snapshotOf a.selects a.skippedSource a.source

/-- The plan that the round executes. -/
def plan : ReconcilePlan := a.round.plan a.localFiles a.remoteFiles

/-- The resolutions that the round counts as resolved. -/
def resolved : List ConflictResolution := (a.round.resolving a.localFiles a.remoteFiles).resolved

/-- The mode that a resolution for the whole assignment has forced. -/
def forcedMode : Option AssignmentMode := (a.round.resolving a.localFiles a.remoteFiles).forcedMode

/-- The merged files of the round. -/
def merged : FileStates := a.round.merged a.localFiles a.remoteFiles

/-- The verdict of the round on a path. -/
def verdict (path : String) : Verdict := a.round.verdict a.localFiles a.remoteFiles path

/-- The home after the plan has been applied. -/
def homeAfter : FileStates :=
  writeAll a.home (a.round.applyWrites a.localFiles a.remoteFiles a.source)

/-- The work tree after adding and forgetting, which is also the content of the commit. -/
def treeAfter : FileStates :=
  Round.forgetAll (Round.addAll a.source a.homeAfter a.plan.publishUpdates) a.plan.publishDeletes

/-- The paths that a resolution is for: its own, or every selected one. -/
def Concerns (x : ConflictResolution) (path : String) : Prop :=
  match x.scope with
  | .config => a.selects path = true
  | .path => path = x.path

/-- A resolution has taken effect on a path. -/
structure TakesEffect (x : ConflictResolution) (path : String) : Prop where
  settled : path ∉ a.plan.conflicts.map PathSummary.path
  pulled : x.action = .keepRemote ∨ x.action = .forcePull →
    a.homeAfter.lookup path = a.source.lookup path
  kept : x.action = .keepLocal ∨ x.action = .forcePush →
    a.homeAfter.lookup path = a.home.lookup path
  pushed : x.action = .forcePush → a.treeAfter.lookup path = a.home.lookup path

/-- The round gets past `preserveConflicts`; otherwise `Reconcile` returns its error, and no resolution
is acknowledged. -/
def completes (copies : Copies) : Bool := a.round.preserveConflicts a.localFiles a.remoteFiles copies

/-- Every resolution that a completed round counts as resolved has taken effect. -/
def Honours (copies : Copies) : Prop :=
  a.completes copies = true → ∀ x ∈ a.resolved, ∀ path, a.Concerns x path → a.TakesEffect x path

/-- Skipped files do not get in the way of pulling a path: what the snapshot of the remote tree does
not have is not there, or is the same in a home whose snapshot does not have it either. -/
def PullsSkipped (path : String) : Prop :=
  a.remoteFiles.lookup path = none →
    if a.localFiles.lookup path = none then a.home.lookup path = a.source.lookup path
    else a.source.lookup path = none

/-- Neither switched off writes nor skipped files get in the way of pushing a path. -/
def Pushes (path : String) : Prop :=
  if a.round.writesEnabled then
    a.localFiles.lookup path = none →
      if a.remoteFiles.lookup path = none then a.home.lookup path = a.source.lookup path
      else a.home.lookup path = none
  else a.home.lookup path = a.source.lookup path

/-- What the effect of a resolution on a path needs. -/
def Effective (x : ConflictResolution) (path : String) : Prop :=
  match x.action with
  | .keepLocal => True
  | .keepRemote => a.round.effectiveMode ≠ .pushOnly ∧ a.PullsSkipped path
  | .forcePull =>
    (∀ state, a.merged.lookup path = some state → a.source.lookup path = some state) ∧
      a.PullsSkipped path
  | .forcePush =>
    (∀ state, a.merged.lookup path = some state → a.home.lookup path = some state) ∧ a.Pushes path

/-- A conflict is left as it was in the home and in the commit, and a merged file is in the commit as
it was written. -/
structure IsolatesConflicts : Prop where
  conflicts : ∀ path ∈ a.plan.conflicts.map PathSummary.path,
    a.homeAfter.lookup path = a.home.lookup path ∧ a.treeAfter.lookup path = a.source.lookup path
  merges : ∀ path state, a.merged.lookup path = some state →
    a.homeAfter.lookup path = some state ∧ a.treeAfter.lookup path = some state

/-- What the isolation of conflicts needs for every merged file: that no resolution counts, or one
that pushes everything, or one that pulls everything and the file as it has been merged. -/
def MergesApart : Prop :=
  ∀ path state, a.merged.lookup path = some state →
    a.resolved = [] ∨ a.forcedMode = some .pushOnly ∨
      a.forcedMode = some .pullOnly ∧ a.source.lookup path = some state

variable {a}

/-! ### Path by path -/

variable {path : String} {state : FileState}

lemma lookup_of_snapshotOf {selects : String → Bool} {skipped : List String} {files : FileStates}
    (h : (snapshotOf selects skipped files).lookup path = some state) :
    files.lookup path = some state := by
  rw [lookup_snapshotOf] at h
  exact (ite_eq_iff.mp h).elim And.right nofun

lemma lookup_localFiles (h : a.localFiles.lookup path = some state) :
    a.home.lookup path = some state := lookup_of_snapshotOf h

lemma lookup_remoteFiles (h : a.remoteFiles.lookup path = some state) :
    a.source.lookup path = some state := lookup_of_snapshotOf h

lemma manages_of_ne (h : a.localFiles.lookup path ≠ a.remoteFiles.lookup path) :
    a.round.manages path = true := by
  apply a.manages_of_selects
  by_contra hno
  apply h
  simp [localFiles, remoteFiles, lookup_snapshotOf, hno]

/-- A merged file has both sides, which differ, in a round that may write. -/
lemma of_merged (h : a.merged.lookup path = some state) :
    a.localFiles.lookup path ≠ none ∧ a.remoteFiles.lookup path ≠ none ∧
      a.localFiles.lookup path ≠ a.remoteFiles.lookup path ∧ a.round.writesEnabled = true := by
  obtain ⟨hwrites, -, hconflict, hmerge⟩ := merged_eq_some h
  obtain ⟨-, hl, hr⟩ := mergeConflict_eq_ok hmerge
  exact ⟨hl, hr, (exists_classify_eq_conflict.mp hconflict).1, hwrites⟩

lemma lookup_homeAfter (path : String) : a.homeAfter.lookup path =
      if a.merged.lookup path ≠ none then a.merged.lookup path
      else if a.verdict path = .deleteLocal then none
      else if a.verdict path = .applyRemote then a.source.lookup path
      else a.home.lookup path := by
  obtain ⟨-, -, happly, hdelete, -⟩ := @Round.plan_has a.round a.localFiles a.remoteFiles path
  rw [homeAfter, lookup_writeAll_applyWrites]
  simp only [verdict, ← happly, ← hdelete]
  rfl

/-- The work tree after adding and forgetting, by the verdict on a path that the snapshots tell
apart. -/
lemma lookup_treeAfter (hne : a.localFiles.lookup path ≠ a.remoteFiles.lookup path) :
    a.treeAfter.lookup path =
      if a.round.writesEnabled = true ∧ a.verdict path = .publishDelete then none
      else if a.round.writesEnabled = true ∧ a.verdict path = .publishUpdate ∨
          a.resolved = [] ∧ a.merged.lookup path ≠ none then a.homeAfter.lookup path
      else a.source.lookup path := by
  obtain ⟨hupd, hdel, -⟩ := @Round.plan_has a.round a.localFiles a.remoteFiles path
  simp only [manages_of_ne hne, Bool.true_eq_false, and_false, or_false] at hdel
  rw [treeAfter, forgetAll, lookup_writeAll_map _ _ (fun _ => none), addAll, lookup_writeAll_map]
  simp only [plan, hupd, hdel]
  rfl

/-- A path that is the same in both snapshots stays as it is in the work tree after a resolution. -/
lemma lookup_treeAfter_of_eq (hres : a.resolved ≠ [])
    (heq : a.localFiles.lookup path = a.remoteFiles.lookup path) :
    a.verdict path = .unchanged ∧ a.treeAfter.lookup path = a.source.lookup path := by
  have hv : a.verdict path = .unchanged := by
    by_contra hno
    exact ne_of_verdict hno heq
  refine ⟨hv, ?_⟩
  obtain ⟨hupd, hdel, -⟩ := @Round.plan_has a.round a.localFiles a.remoteFiles path
  unfold verdict at hv
  unfold resolved at hres
  simp only [hv, hres, reduceCtorEq, and_false, false_and, or_false, iff_false] at hupd hdel
  rw [treeAfter, forgetAll, lookup_writeAll_map _ _ (fun _ => none), addAll,
    lookup_writeAll_map, plan, if_neg hdel, if_neg hupd]

/-- A path is a conflict of the round by its verdict, unless it was merged and nothing resolved. -/
lemma mem_conflicts (path : String) :
    path ∈ a.plan.conflicts.map PathSummary.path ↔ (∃ reason, a.verdict path = .conflict reason) ∧
      ¬ (a.resolved = [] ∧ a.merged.lookup path ≠ none) :=
  (@Round.plan_has a.round a.localFiles a.remoteFiles path).conflicts

/-! ### Pulling and pushing a path -/

/-- When a path that the round pulls ends up as in the remote revision. -/
lemma pulled_iff (hv : a.verdict path =
      pullVerdict (a.localFiles.lookup path) (a.remoteFiles.lookup path)) :
    path ∉ a.plan.conflicts.map PathSummary.path ∧ (a.homeAfter.lookup path = a.source.lookup path ↔
        (∀ state, a.merged.lookup path = some state → a.source.lookup path = some state) ∧
          a.PullsSkipped path) := by
  constructor
  · rw [mem_conflicts, hv]
    unfold pullVerdict
    split_ifs <;> simp
  · rw [lookup_homeAfter, hv]
    unfold PullsSkipped pullVerdict
    cases hm : a.merged.lookup path with
    | some =>
      have hr := (of_merged hm).2.1
      simp [hr, eq_comm]
    | none =>
      rcases hr : a.remoteFiles.lookup path with _ | state
      · cases hl : a.localFiles.lookup path with
        | none => simp
        | some => simp [eq_comm]
      have hsource := lookup_remoteFiles hr
      by_cases hl : a.localFiles.lookup path = some state
      · simp [hl, lookup_localFiles hl, hsource]
      · simp [hl]

/-- When a path that the round pushes stays as it is and is in the commit like that. -/
lemma pushed_iff (hres : a.resolved ≠ []) (hv : a.verdict path =
      pushVerdict (a.localFiles.lookup path) (a.remoteFiles.lookup path)) :
    path ∉ a.plan.conflicts.map PathSummary.path ∧ (a.homeAfter.lookup path = a.home.lookup path ∧
          a.treeAfter.lookup path = a.home.lookup path ↔
        (∀ state, a.merged.lookup path = some state → a.home.lookup path = some state) ∧
          a.Pushes path) := by
  have hhome : a.homeAfter.lookup path =
      if a.merged.lookup path ≠ none then a.merged.lookup path else a.home.lookup path := by
    rw [lookup_homeAfter, hv]
    unfold pushVerdict
    split_ifs <;> simp_all
  have hkept : a.homeAfter.lookup path = a.home.lookup path ↔
      ∀ state, a.merged.lookup path = some state → a.home.lookup path = some state := by
    rw [hhome]
    cases hm : a.merged.lookup path <;> simp [eq_comm]
  constructor
  · rw [mem_conflicts, hv]
    unfold pushVerdict
    split_ifs <;> simp
  · rw [hkept]
    refine and_congr_right fun hmerged => ?_
    rw [← hkept] at hmerged
    unfold Pushes
    by_cases heq : a.localFiles.lookup path = a.remoteFiles.lookup path
    · rw [(lookup_treeAfter_of_eq hres heq).2, ← heq]
      rcases hl : a.localFiles.lookup path with _ | _
      · simp only [reduceIte, forall_const, ite_self]
        exact eq_comm
      have h₁ := lookup_localFiles hl
      have h₂ := lookup_remoteFiles (heq ▸ hl)
      simp [h₁, h₂]
    · rw [lookup_treeAfter heq, hv, hmerged]
      unfold pushVerdict
      rcases hw : a.round.writesEnabled with _ | _
      · simp only [Bool.false_eq_true, false_and, if_false, hres, or_self]
        exact eq_comm
      cases hl : a.localFiles.lookup path with
      | none =>
        have hr : a.remoteFiles.lookup path ≠ none := fun h => heq (hl.trans h.symm)
        simp [hr, hr.symm, eq_comm]
      | some state =>
        have hr : some state ≠ a.remoteFiles.lookup path := fun h => heq (hl.trans h)
        simp [hr]

/-! ### The effect of a resolution -/

/-- A path whose own conflict is not resolved is judged by its ancestor under the forced mode. -/
lemma verdict_of_config (h : ∀ x ∈ a.resolved, x.scope = .path → x.path ≠ path) :
    a.verdict path = classify (a.forcedMode.getD a.round.effectiveMode)
        (forcedAncestor (a.round.baseline.files.lookup path) (a.localFiles.lookup path)
          (a.remoteFiles.lookup path) a.forcedMode)
        (a.localFiles.lookup path) (a.remoteFiles.lookup path) ∧
      a.forcedMode ≠ some .bidirectional := by
  rw [resolved, resolved_eq] at h
  obtain ⟨hbase, hbi, hforced⟩ := @Round.view_foldl_of_config a.round a.localFiles a.remoteFiles
    (a.round.identified a.localFiles a.remoteFiles) (a.round.resolutions.getD [])
    ⟨a.round.baseline.files, a.round.baseline.frozenPaths, none, ∅, []⟩ path (a.round.baseline.files.lookup path)
    (fun x hx hc => h x (mem_filter.mpr ⟨hx, hc⟩)) rfl (by simp)
  refine ⟨?_, hbi⟩
  have hnone : (a.round.resolving a.localFiles a.remoteFiles).forcedPaths.lookup path = none :=
    hforced.trans (AList.lookup_empty path)
  rw [verdict, Round.verdict, hnone]
  exact congrArg (fun base => classify _ base _ _) hbase

variable {x : ConflictResolution}

/-- The ancestor and the forced direction of a path whose conflict is resolved, beside resolutions of
other conflicts only. -/
lemma verdict_of_path (hx : x ∈ a.resolved) (hscope : ∀ y ∈ a.resolved, y.scope = .path)
    (hnodup : (a.resolved.map ConflictResolution.path).Nodup) :
    a.verdict x.path =
      match x.action with
      | .keepLocal => classify a.round.effectiveMode (a.remoteFiles.lookup x.path)
          (a.localFiles.lookup x.path) (a.remoteFiles.lookup x.path)
      | .keepRemote => classify a.round.effectiveMode (a.localFiles.lookup x.path)
          (a.localFiles.lookup x.path) (a.remoteFiles.lookup x.path)
      | action => forcedVerdict action (a.localFiles.lookup x.path)
          (a.remoteFiles.lookup x.path) := by
  rw [resolved, resolved_eq] at hx hscope hnodup
  have hview : (a.round.resolving a.localFiles a.remoteFiles).view x.path = _ :=
    (view_foldl_of_mem _ _ _ hx hscope hnodup).trans (view_resolvePath _ x x.path)
  rw [if_pos rfl] at hview
  simp only [view, Prod.mk.injEq] at hview
  obtain ⟨hbase, hforced, hmode⟩ := hview
  rw [verdict, Round.verdict, hforced, Round.ancestors, hbase, Round.planningMode, hmode]
  cases x.action <;> simp

/-- A resolved conflict differs between the snapshots and was not merged. -/
lemma of_resolved_path (hx : x ∈ a.resolved) (hscope : x.scope = .path) :
    a.localFiles.lookup x.path ≠ a.remoteFiles.lookup x.path ∧ a.merged.lookup x.path = none := by
  rw [resolved, resolved_eq] at hx
  have h := of_counts_path (mem_filter.mp hx).2 hscope
  rw [identified, map_path_identifyConflicts,
    (@Round.mergedPlan_has a.round a.localFiles a.remoteFiles x.path).conflicts] at h
  exact ⟨(exists_classify_eq_conflict.mp h.1).1, h.2⟩

/-- A resolution for the whole assignment beside no other forces its mode. -/
lemma forcedMode_of_config (hx : x ∈ a.resolved) (hscope : ∀ y ∈ a.resolved, y.scope = .config)
    (hnodup : (a.resolved.map ConflictResolution.path).Nodup) {mode : AssignmentMode}
    (hmode : x.action = .forcePull ∧ mode = .pullOnly ∨ x.action = .forcePush ∧ mode = .pushOnly) :
    a.forcedMode = some mode := by
  rw [resolved, resolved_eq] at hx hscope hnodup
  refine forcedMode_foldl _ _ _ hmode (fun y hy hc => ?_) (.inl (ne_nil_of_mem hx))
  replace hy := mem_filter.mpr ⟨hy, hc⟩
  -- every such resolution has the path `.`, so that there is only this one
  have hpath : y.path = x.path :=
    (of_counts_config hc (hscope y hy)).1.trans
      (of_counts_config (mem_filter.mp hx).2 (hscope x hx)).1.symm
  exact ⟨hscope y hy, by rw [inj_on_of_nodup_map hnodup hy hx hpath]⟩

variable (h : Round.Orderly a.resolved) (hx : x ∈ a.resolved)
include h hx

/-- The round pulls or pushes every path of a resolution that does so by force. -/
lemma verdict_of_force (hpath : a.Concerns x path) : (x.action = .forcePull →
      a.verdict path = pullVerdict (a.localFiles.lookup path) (a.remoteFiles.lookup path)) ∧
    (x.action = .forcePush →
      a.verdict path = pushVerdict (a.localFiles.lookup path) (a.remoteFiles.lookup path)) := by
  rcases h.uniform with hscope | hscope
  · have hv := (@verdict_of_config a path fun y hy hp => by simp [hscope y hy] at hp).1
    constructor <;> intro haction
    · rw [forcedMode_of_config hx hscope h.nodup (.inl ⟨haction, rfl⟩)] at hv
      exact hv.trans (classify_home _ _ _ (by simp))
    · rw [forcedMode_of_config hx hscope h.nodup (.inr ⟨haction, rfl⟩)] at hv
      exact hv.trans (classify_remote _ _ _ (by simp))
  · simp only [Concerns, hscope x hx] at hpath
    subst hpath
    have hne := (of_resolved_path hx (hscope x hx)).1
    rw [verdict_of_path hx hscope h.nodup]
    constructor <;> intro haction <;> rw [haction] <;>
      simp [forcedVerdict, pullVerdict, pushVerdict, hne]

lemma scope_of_keep (haction : x.action = .keepLocal ∨ x.action = .keepRemote) :
    ∀ y ∈ a.resolved, y.scope = .path := by
  refine h.uniform.resolve_left fun hscope => ?_
  have hconfig := hscope x hx
  rw [resolved, resolved_eq] at hx
  have hforce := (of_counts_config (mem_filter.mp hx).2 hconfig).2
  rcases haction with haction | haction <;> simp [haction] at hforce

lemma path_of_keep (haction : x.action = .keepLocal ∨ x.action = .keepRemote)
    (hpath : a.Concerns x path) : path = x.path := by
  simpa only [Concerns, scope_of_keep h hx haction x hx] using hpath

lemma takesEffect_keepLocal (haction : x.action = .keepLocal) : a.TakesEffect x x.path := by
  have hscope := scope_of_keep h hx (.inl haction)
  obtain ⟨hne, hmerged⟩ := of_resolved_path hx (hscope x hx)
  have hv := verdict_of_path hx hscope h.nodup
  rw [haction] at hv
  simp only at hv
  have hquiet : (∀ reason, a.verdict x.path ≠ .conflict reason) ∧
      a.verdict x.path ≠ .deleteLocal ∧ a.verdict x.path ≠ .applyRemote := by
    rw [hv]
    unfold classify
    split_ifs <;> simp_all
  constructor
  · rw [mem_conflicts]
    rintro ⟨⟨reason, hreason⟩, -⟩
    exact hquiet.1 reason hreason
  · simp [haction]
  · intro _
    rw [lookup_homeAfter, hmerged]
    simp [hquiet.2]
  · simp [haction]

/-- Keeping the remote state has its effect unless the round only pushes or a skipped file is in the
way. -/
lemma takesEffect_keepRemote_iff (haction : x.action = .keepRemote) :
    a.TakesEffect x x.path ↔ a.round.effectiveMode ≠ .pushOnly ∧ a.PullsSkipped x.path := by
  have hscope := scope_of_keep h hx (.inr haction)
  obtain ⟨hne, hmerged⟩ := of_resolved_path hx (hscope x hx)
  have hv := verdict_of_path hx hscope h.nodup
  rw [haction] at hv
  simp only at hv
  by_cases hmode : a.round.effectiveMode = .pushOnly
  · -- the path is a conflict again
    have hconflict : a.verdict x.path = .conflict "remote_update" := by
      rw [hv]
      simp [classify, hne, hmode]
    simp only [hmode, ne_eq, not_true_eq_false, false_and, iff_false]
    rintro ⟨hsettled, -⟩
    exact hsettled ((mem_conflicts _).mpr ⟨⟨_, hconflict⟩, fun hno => hno.2 hmerged⟩)
  · rw [classify_home _ _ _ hmode] at hv
    obtain ⟨hsettled, hpulled⟩ := pulled_iff hv
    simp only [hmerged, reduceCtorEq, false_implies, implies_true, true_and] at hpulled
    constructor
    · intro heffect
      exact ⟨hmode, hpulled.mp (heffect.pulled (.inl haction))⟩
    · rintro ⟨-, hskipped⟩
      exact ⟨hsettled, fun _ => hpulled.mpr hskipped, by simp [haction], by simp [haction]⟩

/-- A resolution has taken effect on a path exactly under its condition. -/
lemma takesEffect_iff (hpath : a.Concerns x path) : a.TakesEffect x path ↔ a.Effective x path := by
  unfold Effective
  cases haction : x.action with
  | keepLocal =>
    obtain rfl := path_of_keep h hx (.inl haction) hpath
    simp [takesEffect_keepLocal h hx haction]
  | keepRemote =>
    obtain rfl := path_of_keep h hx (.inr haction) hpath
    exact takesEffect_keepRemote_iff h hx haction
  | forcePull =>
    obtain ⟨hsettled, hpulled⟩ := pulled_iff ((verdict_of_force h hx hpath).1 haction)
    rw [← hpulled]
    constructor
    · intro heffect
      exact heffect.pulled (.inr haction)
    · intro hhome
      exact ⟨hsettled, fun _ => hhome, by simp [haction], by simp [haction]⟩
  | forcePush =>
    obtain ⟨hsettled, hpushed⟩ := pushed_iff (ne_nil_of_mem hx) ((verdict_of_force h hx hpath).2 haction)
    rw [← hpushed]
    constructor
    · intro heffect
      exact ⟨heffect.kept (.inr haction), heffect.pushed haction⟩
    · rintro ⟨hhome, htree⟩
      exact ⟨hsettled, by simp [haction], fun _ => hhome, fun _ => htree⟩

omit h hx

/-- The rounds that honour every resolution they count, when there is at most one for each path and
none for the whole assignment beside them. -/
theorem honours_iff (a : Attempt) (copies : Copies)
    (h : Round.Orderly ((a.round.resolutions.getD []).filter (·.valid a.round.safePath))) :
    a.Honours copies ↔ (a.completes copies = true →
      ∀ x ∈ a.resolved, ∀ path, a.Concerns x path → a.Effective x path) := by
  refine imp_congr_right fun _ => forall₂_congr fun x hx => forall₂_congr fun path hpath => ?_
  refine takesEffect_iff ?_ hx hpath
  rw [resolved, resolved_eq]
  refine h.sublist (monotone_filter_right _ fun x hx => ?_)
  simp only [Round.counts, Round.applies, Bool.and_eq_true, decide_eq_true_eq] at hx
  exact hx.1.1

/-! ### Merged files and conflicts -/

/-- A merged file is judged by the forced mode, and is a conflict again without one. -/
lemma verdict_of_merged (h : a.merged.lookup path = some state) :
    a.forcedMode = some .pushOnly ∧ a.verdict path = .publishUpdate ∨
      a.forcedMode = some .pullOnly ∧ a.verdict path = .applyRemote ∨
      a.forcedMode = none ∧ ∃ reason, a.verdict path = .conflict reason := by
  obtain ⟨hl, hr, hne, -⟩ := of_merged h
  have hothers : ∀ x ∈ a.resolved, x.scope = .path → x.path ≠ path := by
    rintro x hx hscope rfl
    rw [(of_resolved_path hx hscope).2] at h
    cases h
  obtain ⟨hv, hbi⟩ := verdict_of_config hothers
  rw [hv]
  rcases hmode : a.forcedMode with _ | mode
  · exact .inr (.inr ⟨rfl, (merged_eq_some h).2.2.1⟩)
  cases mode with
  | bidirectional => exact absurd hmode hbi
  | pullOnly =>
    refine .inr (.inl ⟨rfl, ?_⟩)
    change classify .pullOnly (a.localFiles.lookup path) _ _ = _
    rw [classify_home _ _ _ (by simp), pullVerdict, if_neg hne,
      if_pos (Option.isSome_iff_ne_none.mpr hr)]
  | pushOnly =>
    refine .inl ⟨rfl, ?_⟩
    change classify .pushOnly (a.remoteFiles.lookup path) _ _ = _
    rw [classify_remote _ _ _ (by simp), pushVerdict, if_neg hne,
      if_pos (Option.isSome_iff_ne_none.mpr hl)]

/-- A merged file is reported as a conflict exactly when the resolutions that count are all for other
paths. -/
lemma mem_conflicts_of_merged (h : a.merged.lookup path = some state) :
    path ∈ a.plan.conflicts.map PathSummary.path ↔ a.resolved ≠ [] ∧ a.forcedMode = none := by
  rw [mem_conflicts, h]
  rcases verdict_of_merged h with ⟨hmode, hv⟩ | ⟨hmode, hv⟩ | ⟨hmode, reason, hv⟩ <;> simp [hmode, hv]

lemma treeAfter_of_merged (h : a.merged.lookup path = some state) : a.homeAfter.lookup path = some state ∧
      (a.treeAfter.lookup path = some state ↔ a.resolved = [] ∨ a.forcedMode = some .pushOnly ∨
        a.source.lookup path = some state) := by
  obtain ⟨-, -, hne, hwrites⟩ := of_merged h
  have hhome : a.homeAfter.lookup path = some state := by
    rw [lookup_homeAfter, h]
    simp
  refine ⟨hhome, ?_⟩
  rw [lookup_treeAfter hne, hhome, h, hwrites]
  by_cases hres : a.resolved = []
  · obtain ⟨reason, hreason⟩ := (merged_eq_some h).2.2.1
    rw [verdict, verdict_of_resolved_nil hres, hreason]
    simp [hres]
  · rcases verdict_of_merged h with ⟨hmode, hv⟩ | ⟨hmode, hv⟩ | ⟨hmode, reason, hv⟩ <;>
      simp [hmode, hv, hres]

/-- A merged file is not a conflict of a round that leaves conflicts alone and publishes what it
merges. -/
lemma IsolatesConflicts.not_conflict (h : a.IsolatesConflicts)
    (hstate : a.merged.lookup path = some state) :
    path ∉ a.plan.conflicts.map PathSummary.path := by
  intro hmem
  obtain ⟨hl, hr, hne, -⟩ := of_merged hstate
  obtain ⟨l, hl⟩ := Option.ne_none_iff_exists'.mp hl
  obtain ⟨r, hr⟩ := Option.ne_none_iff_exists'.mp hr
  obtain ⟨hhome, htree⟩ := h.conflicts path hmem
  obtain ⟨hhome', htree'⟩ := h.merges path state hstate
  apply hne
  -- both sides would be the merged file
  rw [hl, ← lookup_localFiles hl, ← hhome, hhome', hr, ← lookup_remoteFiles hr, ← htree, htree']

/-- The rounds that leave conflicts alone and publish what they merge. -/
theorem isolates_conflicts_iff (a : Attempt) : a.IsolatesConflicts ↔ a.MergesApart := by
  constructor
  · intro h path state hstate
    have htree := (treeAfter_of_merged hstate).2.mp (h.merges path state hstate).2
    have hconflict := h.not_conflict hstate
    rw [mem_conflicts_of_merged hstate] at hconflict
    rcases htree with hres | hpush | hsource
    · exact Or.inl hres
    · exact Or.inr (Or.inl hpush)
    · rcases verdict_of_merged hstate with ⟨hmode, -⟩ | ⟨hmode, -⟩ | ⟨hmode, -⟩
      · exact Or.inr (Or.inl hmode)
      · exact Or.inr (Or.inr ⟨hmode, hsource⟩)
      · exact Or.inl (by_contra fun hres => hconflict ⟨hres, hmode⟩)
  · intro h
    constructor
    · intro path hpath
      rcases hmerged : a.merged.lookup path with _ | state
      · obtain ⟨⟨reason, hreason⟩, -⟩ := (mem_conflicts path).mp hpath
        have hne : a.localFiles.lookup path ≠ a.remoteFiles.lookup path := by
          apply ne_of_verdict (r := a.round)
          change a.verdict path ≠ _
          simp [hreason]
        rw [lookup_treeAfter hne, lookup_homeAfter, hmerged, hreason]
        simp
      obtain ⟨hres, hmode⟩ := (mem_conflicts_of_merged hmerged).mp hpath
      have hapart := h path state hmerged
      simp [hres, hmode] at hapart
    · intro path state hstate
      obtain ⟨hhome, htree⟩ := treeAfter_of_merged hstate
      refine ⟨hhome, htree.mpr ?_⟩
      rcases h path state hstate with hres | hpush | ⟨-, hsource⟩
      · exact Or.inl hres
      · exact Or.inr (Or.inl hpush)
      · exact Or.inr (Or.inr hsource)

/-! ### Two rounds -/

/-- The user resolves the conflict of one path. -/
def resolution (path : String) (action : ResolutionAction) : ConflictResolution where
  id := "x"
  path := path
  conflictRevision := String.ofList (List.replicate 64 '0')
  expectedRemoteRevision := "1"
  scope := .path
  action := action

/-- Two files, which have both changed on both sides; `a` can be merged. The user has decided about
`b`. -/
def bothChanged (mode : AssignmentMode) (action : ResolutionAction) : Attempt where
  round :=
    { repositoryID := "r"
      assignmentID := "a"
      mode := mode
      writesEnabled := true
      remoteRevision := "1"
      baseline := ⟨Undisturbed.twoFiles "base" "base", "0", ∅⟩
      resolutions := some [resolution "b" action]
      manages := fun _ => true
      safePath := fun _ => true
      digest := fun _ => String.ofList (List.replicate 64 '0')
      git := true
      mergeText := fun path => if path = "a" then .merged "merged" 1 else .conflict }
  home := Undisturbed.twoFiles "local" "local"
  source := Undisturbed.twoFiles "remote" "remote"
  selects _ := true
  manages_of_selects _ _ := rfl
  skippedHome := []
  skippedSource := []

/-- The revision of the baseline, without copies from earlier rounds. -/
def baseCopies : Copies := ⟨Undisturbed.twoFiles "base" "base", fun _ _ => false⟩

/-- An assignment that only pushes counts the wish to keep the remote state of `b` as resolved, and
reports `b` as a conflict again. The ancestor of `b` is as large as its file in the home, so that the
round is completed. -/
theorem keepRemote_not_honoured : ¬ (bothChanged .pushOnly .keepRemote).Honours baseCopies := by
  intro h
  have hcompletes : (bothChanged .pushOnly .keepRemote).completes baseCopies = true := by decide +kernel
  have hmem : resolution "b" .keepRemote ∈ (bothChanged .pushOnly .keepRemote).resolved := by
    decide +kernel
  have hconflict :
      "b" ∈ (bothChanged .pushOnly .keepRemote).plan.conflicts.map PathSummary.path := by
    decide +kernel
  exact (h hcompletes _ hmem "b" rfl).settled hconflict

/-- In a bidirectional assignment the same wish is honoured. -/
theorem keepRemote_honoured : (bothChanged .bidirectional .keepRemote).completes baseCopies = true ∧
    (bothChanged .bidirectional .keepRemote).Honours baseCopies := by
  have hone : Round.Orderly [resolution "b" .keepRemote] :=
    ⟨nodup_singleton _, Or.inr (by simp [resolution])⟩
  refine ⟨by decide +kernel, ?_⟩
  rw [honours_iff _ _ (hone.sublist filter_sublist)]
  intro _ x hx path hpath
  have hresolved : (bothChanged .bidirectional .keepRemote).resolved = [resolution "b" .keepRemote] := by
    decide +kernel
  rw [hresolved, mem_singleton] at hx
  subst hx
  change path = "b" at hpath
  subst hpath
  refine ⟨by decide, fun hnone => ?_⟩
  revert hnone
  decide +kernel

/-- A round that merges `a` and keeps the home's `b` reports `a` as a conflict after it has changed it
in the home. -/
theorem merged_conflict_not_isolated : ¬ (bothChanged .bidirectional .keepLocal).IsolatesConflicts := by
  intro h
  have hmem : "a" ∈ (bothChanged .bidirectional .keepLocal).plan.conflicts.map PathSummary.path := by
    decide +kernel
  have hhome : (bothChanged .bidirectional .keepLocal).homeAfter.lookup "a" ≠
      (bothChanged .bidirectional .keepLocal).home.lookup "a" := by
    decide +kernel
  exact hhome (h.conflicts "a" hmem).1

end Attempt

end Paperboat.ConfigSync

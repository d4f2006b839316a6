import Paperboat.ConfigSync.Snapshot

/-!
# The three-way plan

The model of the planner in `internal/configsync/reconcile.go`: every path is classified by its
states in the baseline (the common ancestor), in the home and in the remote tree, and goes to one of
five lists. A state is an `Option FileState`, so that a missing file is a state like any other.

`AcceptedBaseline` and `freezeConflictBaseline` compute the next ancestor.
-/

namespace Paperboat.ConfigSync

open List

/-- `AssignmentMode`. -/
inductive AssignmentMode where
  | pullOnly
  | pushOnly
  | bidirectional
  deriving DecidableEq

/-- `ReconcilePlan`. -/
structure ReconcilePlan where
  publishUpdates : List String
  publishDeletes : List String
  applyRemote : List String
  deleteLocal : List String
  conflicts : List PathSummary
  deriving DecidableEq

/-- What the planner does with one path. -/
inductive Verdict where
  | unchanged
  | conflict (reason : String)
  | publishUpdate
  | publishDelete
  | applyRemote
  | deleteLocal
  | ignored
  deriving DecidableEq

/-- The body of the planner's loop: the states of one path in the baseline, the home and the remote
tree decide its fate. -/
def classify (mode : AssignmentMode) (base home remote : Option FileState) : Verdict :=
  if home = remote then .unchanged
  else if mode = .pushOnly ∧ base ≠ remote then .conflict "remote_update"
  else if base ≠ home ∧ base ≠ remote then .conflict "concurrent_update"
  else if base ≠ home ∧ mode ≠ .pullOnly then
    if home.isSome then .publishUpdate else .publishDelete
  else if base ≠ remote ∧ mode ≠ .pushOnly then
    if remote.isSome then .applyRemote else .deleteLocal
  else .ignored

/-- Enter a path into the plan. -/
def ReconcilePlan.add (plan : ReconcilePlan) (path : String) (remote : Option FileState) :
    Verdict → ReconcilePlan
  | .unchanged | .ignored => plan
  | .conflict reason =>
    let bytes := (remote.map FileState.bytes).getD 0
    { plan with conflicts := plan.conflicts ++ [⟨path, bytes, reason, ""⟩] }
  | .publishUpdate => { plan with publishUpdates := plan.publishUpdates ++ [path] }
  | .publishDelete => { plan with publishDeletes := plan.publishDeletes ++ [path] }
  | .applyRemote => { plan with applyRemote := plan.applyRemote ++ [path] }
  | .deleteLocal => { plan with deleteLocal := plan.deleteLocal ++ [path] }

/-- The paths that occur in one of the maps, sorted. -/
def allPaths (baseline home remote : FileStates) : List String :=
  (baseline.keys ++ home.keys ++ remote.keys).dedup.insertionSort (· ≤ ·)

/-- The loop of `PlanReconciliationMode`. -/
def planLoop (mode : AssignmentMode) (baseline home remote : FileStates) :
    List String → ReconcilePlan → ReconcilePlan
  | [], plan => plan
  | path :: paths, plan =>
    planLoop mode baseline home remote paths
      (plan.add path (remote.lookup path)
        (classify mode (baseline.lookup path) (home.lookup path) (remote.lookup path)))

/-- `PlanReconciliationMode`. -/
def planReconciliationMode (baseline home remote : FileStates) (mode : AssignmentMode) :
    ReconcilePlan :=
  planLoop mode baseline home remote (allPaths baseline home remote) ⟨[], [], [], [], []⟩

/-- `AcceptedBaseline`: the home as it is when the mode publishes everything, and otherwise the paths
on which home and remote agree, the others as before. -/
def acceptedBaseline (previous home remote : FileStates) (mode : AssignmentMode)
    (writesEnabled : Bool) : FileStates :=
  if mode = .bidirectional ∧ writesEnabled ∨ mode = .pushOnly ∧ writesEnabled then home
  else
    FinMap.ofKeys (previous.keys ++ home.keys ++ remote.keys) fun path =>
      if home.lookup path = remote.lookup path then home.lookup path else previous.lookup path

/-- `setBaselineState`: copy the state of one path, or its absence. -/
def setBaselineState (baseline : FileStates) (path : String) (source : FileStates) : FileStates :=
  match source.lookup path with
  | some state => baseline.insert path state
  | none => baseline.erase path

/-- `freezeConflictBaseline`: conflicting paths keep their previous ancestor. -/
def freezeConflictBaseline (accepted previous : FileStates) (conflicts : List PathSummary) :
    FileStates :=
  conflicts.foldl (fun accepted conflict => setBaselineState accepted conflict.path previous) accepted

/-! ### What the planner decides -/

section
variable {mode : AssignmentMode} {base home remote : Option FileState}

/-- A file is forgotten remotely when the home lacks it and the remote tree is as the ancestor. -/
lemma classify_eq_publishDelete : classify mode base home remote = .publishDelete ↔
    home = none ∧ remote ≠ none ∧ base = remote ∧ mode ≠ .pullOnly := by
  unfold classify
  cases home <;> grind

/-- A file is deleted from the home when the remote tree lacks it and the home is as the ancestor. -/
lemma classify_eq_deleteLocal : classify mode base home remote = .deleteLocal ↔
    remote = none ∧ home ≠ none ∧ base = home ∧ mode ≠ .pushOnly := by
  unfold classify
  cases remote <;> grind

/-- A file is applied when the remote tree has changed it and the home is as the ancestor. -/
lemma classify_eq_applyRemote : classify mode base home remote = .applyRemote ↔
    remote ≠ none ∧ home ≠ remote ∧ base = home ∧ mode ≠ .pushOnly := by
  unfold classify
  cases remote <;> grind

/-- A path conflicts when the remote tree has changed it, and the home too unless it only pushes. -/
lemma exists_classify_eq_conflict : (∃ reason, classify mode base home remote = .conflict reason) ↔
    home ≠ remote ∧ base ≠ remote ∧ (base ≠ home ∨ mode = .pushOnly) := by
  unfold classify
  split_ifs <;> grind

end

/-! ### The lists of the plan -/

lemma mem_allPaths_of_ne {baseline home remote : FileStates} {path : String}
    (h : home.lookup path ≠ remote.lookup path) : path ∈ allPaths baseline home remote := by
  have hkeys : path ∈ home.keys ∨ path ∈ remote.keys := by
    simp only [FinMap.mem_keys]
    by_contra! hno
    exact h (hno.1.trans hno.2.symm)
  simp only [allPaths, mem_insertionSort, mem_dedup, mem_append]
  tauto

/-- The paths of the five lists. -/
def ReconcilePlan.lists (plan : ReconcilePlan) : List (List String) :=
  [plan.publishUpdates, plan.publishDeletes, plan.applyRemote, plan.deleteLocal,
    plan.conflicts.map PathSummary.path]

/-- The list that a verdict enters a path into. -/
def Verdict.list : Verdict → Option ℕ
  | .publishUpdate => some 0
  | .publishDelete => some 1
  | .applyRemote => some 2
  | .deleteLocal => some 3
  | .conflict _ => some 4
  | .unchanged | .ignored => none

section
variable (baseline home remote : FileStates) (mode : AssignmentMode)

/-- The verdict on a path. -/
def verdictOn (path : String) : Verdict :=
  classify mode (baseline.lookup path) (home.lookup path) (remote.lookup path)

/-- The paths with a verdict for the list. -/
def listed (paths : List String) (i : ℕ) : List String :=
  paths.filter fun path => (verdictOn baseline home remote mode path).list = some i

/-- The planner's loop adds to each list the paths with its verdicts, in their order. -/
lemma planLoop_lists (paths : List String) (plan : ReconcilePlan) :
    (planLoop mode baseline home remote paths plan).lists = List.zipWith (· ++ ·) plan.lists
        ((List.range 5).map (listed baseline home remote mode paths)) := by
  induction paths generalizing plan with
  | nil => simp [planLoop, ReconcilePlan.lists, listed, range_succ]
  | cons q paths ih =>
    rw [planLoop, ih]
    change List.zipWith _ (plan.add q _ (verdictOn baseline home remote mode q)).lists _ = _
    cases hq : verdictOn baseline home remote mode q <;>
      simp [ReconcilePlan.add, ReconcilePlan.lists, listed, Verdict.list, range_succ, hq]

lemma lists_planReconciliationMode : (planReconciliationMode baseline home remote mode).lists =
      (List.range 5).map (listed baseline home remote mode (allPaths baseline home remote)) := by
  rw [planReconciliationMode, planLoop_lists]
  simp [ReconcilePlan.lists, range_succ]

variable {baseline home remote mode} {path : String} {i : ℕ}

/-- A path with a verdict differs between home and remote, so the loop meets it. -/
lemma mem_listed : path ∈ listed baseline home remote mode (allPaths baseline home remote) i ↔
    (verdictOn baseline home remote mode path).list = some i := by
  rw [listed, mem_filter, decide_eq_true_iff]
  refine and_iff_right_of_imp fun h => mem_allPaths_of_ne fun heq => ?_
  rw [verdictOn, classify, if_pos heq] at h
  cases h

end

/-- The lists of a plan have the path under these conditions. -/
structure ReconcilePlan.Has (plan : ReconcilePlan) (path : String)
    (update delete apply remove conflict : Prop) : Prop where
  publishUpdates : path ∈ plan.publishUpdates ↔ update
  publishDeletes : path ∈ plan.publishDeletes ↔ delete
  applyRemote : path ∈ plan.applyRemote ↔ apply
  deleteLocal : path ∈ plan.deleteLocal ↔ remove
  conflicts : path ∈ plan.conflicts.map PathSummary.path ↔ conflict

/-- The lists of a plan have the path according to a verdict. -/
abbrev Follows (plan : ReconcilePlan) (path : String) (v : Verdict) : Prop :=
  plan.Has path (v = .publishUpdate) (v = .publishDelete) (v = .applyRemote) (v = .deleteLocal)
    (∃ reason, v = .conflict reason)

lemma follows_planReconciliationMode (baseline home remote : FileStates) (mode : AssignmentMode)
    (path : String) : Follows (planReconciliationMode baseline home remote mode) path
      (classify mode (baseline.lookup path) (home.lookup path) (remote.lookup path)) := by
  have h := lists_planReconciliationMode baseline home remote mode
  simp only [ReconcilePlan.lists, range_succ, range_zero, nil_append, cons_append,
    map_cons, map_nil, List.cons.injEq, and_true] at h
  obtain ⟨h₁, h₂, h₃, h₄, h₅⟩ := h
  constructor <;> simp only [h₁, h₂, h₃, h₄, h₅, mem_listed, verdictOn] <;>
    cases classify mode (baseline.lookup path) (home.lookup path) (remote.lookup path) <;>
    simp [Verdict.list]

/-! ### The plan is safe -/

section
variable (baseline home remote : FileStates) (mode : AssignmentMode)

/-- What a plan has to respect. -/
structure ReconcilePlan.Safe (plan : ReconcilePlan) : Prop where
  sorted : ∀ l ∈ plan.lists, l.Pairwise (· < ·)
  disjoint : plan.lists.Pairwise List.Disjoint
  differs : ∀ l ∈ plan.lists, ∀ path ∈ l, home.lookup path ≠ remote.lookup path
  /-- The home only loses what it has not changed. -/
  changes_home : ∀ path, path ∈ plan.applyRemote ∨ path ∈ plan.deleteLocal →
    home.lookup path = baseline.lookup path
  /-- The repository only loses what it has not changed. -/
  changes_remote : ∀ path, path ∈ plan.publishUpdates ∨ path ∈ plan.publishDeletes →
    remote.lookup path = baseline.lookup path
  conflicts : ∀ path, home.lookup path ≠ baseline.lookup path →
    remote.lookup path ≠ baseline.lookup path → home.lookup path ≠ remote.lookup path →
    path ∈ plan.conflicts.map PathSummary.path
  pull_only : mode = .pullOnly → plan.publishUpdates = [] ∧ plan.publishDeletes = []
  push_only : mode = .pushOnly → plan.applyRemote = [] ∧ plan.deleteLocal = []
  complete : mode = .bidirectional → ∀ path, home.lookup path ≠ remote.lookup path →
    ∃ l ∈ plan.lists, path ∈ l

variable {mode} {base ours theirs : Option FileState}

lemma classify_eq_publishUpdate : classify mode base ours theirs = .publishUpdate ↔
    ours ≠ none ∧ ours ≠ theirs ∧ base = theirs ∧ mode ≠ .pullOnly := by
  unfold classify
  cases ours <;> grind

/-- In the mode that goes both ways a path with different states gets into a list. -/
lemma exists_list_of_ne (base : Option FileState) (h : ours ≠ theirs) :
    ∃ i < 5, (classify .bidirectional base ours theirs).list = some i := by
  unfold classify
  split_ifs <;> simp_all [Verdict.list]

/-- The plan respects the ancestor and both sides, whatever they are. -/
theorem planReconciliationMode_safe (mode : AssignmentMode) :
    (planReconciliationMode baseline home remote mode).Safe baseline home remote mode := by
  have hpaths : (allPaths baseline home remote).Pairwise (· < ·) := by
    have hperm := perm_insertionSort (· ≤ ·) (baseline.keys ++ home.keys ++ remote.keys).dedup
    refine List.Pairwise.imp₂ (fun a b (hle : a ≤ b) (hne : a ≠ b) => lt_of_le_of_ne hle hne)
      (pairwise_insertionSort _ _) ?_
    exact hperm.nodup_iff.mpr (nodup_dedup _)
  have hlists := lists_planReconciliationMode baseline home remote mode
  have hmem := follows_planReconciliationMode baseline home remote mode
  have hnil : ∀ l : List String, (∀ path, path ∉ l) → l = [] := fun l => eq_nil_iff_forall_not_mem.mpr
  refine ⟨fun l hl => ?_, ?_, fun l hl path hpath heq => ?_, fun path => ?_, fun path => ?_,
    fun path hhome hremote hne => ?_, fun hmode => ⟨hnil _ fun path => ?_, hnil _ fun path => ?_⟩,
    fun hmode => ⟨hnil _ fun path => ?_, hnil _ fun path => ?_⟩, fun hmode path hne => ?_⟩
  · rw [hlists] at hl
    obtain ⟨i, -, rfl⟩ := mem_map.mp hl
    exact hpaths.filter _
  · rw [hlists]
    refine pairwise_map.mpr (nodup_range.imp fun hne path hpath hpath' => hne ?_)
    exact Option.some.inj ((mem_listed.mp hpath).symm.trans (mem_listed.mp hpath'))
  · rw [hlists] at hl
    obtain ⟨i, -, rfl⟩ := mem_map.mp hl
    have hlist := mem_listed.mp hpath
    rw [verdictOn, classify, if_pos heq] at hlist
    cases hlist
  · rw [(hmem path).applyRemote, (hmem path).deleteLocal, classify_eq_applyRemote, classify_eq_deleteLocal]
    rintro (⟨-, -, heq, -⟩ | ⟨-, -, heq, -⟩)
    · exact heq.symm
    · exact heq.symm
  · rw [(hmem path).publishUpdates, (hmem path).publishDeletes, classify_eq_publishUpdate, classify_eq_publishDelete]
    rintro (⟨-, -, heq, -⟩ | ⟨-, -, heq, -⟩)
    · exact heq.symm
    · exact heq.symm
  · rw [(hmem path).conflicts, exists_classify_eq_conflict]
    exact ⟨hne, hremote.symm, .inl hhome.symm⟩
  · rw [(hmem path).publishUpdates, classify_eq_publishUpdate]
    exact fun h => h.2.2.2 hmode
  · rw [(hmem path).publishDeletes, classify_eq_publishDelete]
    exact fun h => h.2.2.2 hmode
  · rw [(hmem path).applyRemote, classify_eq_applyRemote]
    exact fun h => h.2.2.2 hmode
  · rw [(hmem path).deleteLocal, classify_eq_deleteLocal]
    exact fun h => h.2.2.2 hmode
  · subst hmode
    obtain ⟨i, hi, hlist⟩ := exists_list_of_ne (baseline.lookup path) hne
    exact ⟨_, hlists ▸ mem_map_of_mem (mem_range.mpr hi), mem_listed.mpr hlist⟩

end

/-! ### The next ancestor -/

@[simp] lemma lookup_setBaselineState (baseline source : FileStates) (path p : String) :
    (setBaselineState baseline path source).lookup p =
      if p = path then source.lookup path else baseline.lookup p := by
  unfold setBaselineState
  cases hs : source.lookup path with
  | none => simp only [FinMap.lookup_erase_eq]
  | some => simp only [FinMap.lookup_insert_eq]

lemma lookup_acceptedBaseline (previous home remote : FileStates) (mode : AssignmentMode)
    (writesEnabled : Bool) (path : String) :
    (acceptedBaseline previous home remote mode writesEnabled).lookup path =
      if mode ≠ .pullOnly ∧ writesEnabled = true then home.lookup path
      else if home.lookup path = remote.lookup path then home.lookup path
      else previous.lookup path := by
  unfold acceptedBaseline
  have hmode : (mode = .bidirectional ∧ writesEnabled = true ∨
      mode = .pushOnly ∧ writesEnabled = true) ↔ mode ≠ .pullOnly ∧ writesEnabled = true := by
    cases mode <;> simp
  simp only [hmode]
  split
  · rfl
  rw [FinMap.lookup_ofKeys]
  split
  · rfl
  rename_i hno
  -- a path that occurs nowhere has no state on either side
  simp only [mem_append, not_or] at hno
  obtain ⟨⟨-, h₁⟩, h₂⟩ := hno
  simp [AList.lookup_eq_none.mpr h₁, AList.lookup_eq_none.mpr h₂]

/-- Freezing restores the previous ancestor of exactly the conflicting paths. -/
lemma lookup_freezeConflictBaseline (accepted previous : FileStates)
    (conflicts : List PathSummary) (path : String) :
    (freezeConflictBaseline accepted previous conflicts).lookup path =
      if path ∈ conflicts.map PathSummary.path then previous.lookup path
      else accepted.lookup path := by
  unfold freezeConflictBaseline
  induction conflicts generalizing accepted with
  | nil => simp
  | cons c conflicts ih =>
    rw [foldl_cons, ih, lookup_setBaselineState]
    by_cases hc : path = c.path
    · subst hc
      simp
    · simp [hc]

end Paperboat.ConfigSync

import Paperboat.ConfigSync.Execute

/-!
# Convergence of the rounds

A round with nothing around it: no resolutions are pending, nothing is merged, no file is skipped and
nobody else writes. A second round then has nothing to do, and it meets the conflicts that the first
one met. A round treats every path on its own: what it does with a path is a function of the three
states of the path (`Trees.states_round`).
-/

namespace Paperboat.ConfigSync

open List Round

/-! ### A round on three trees -/

/-- The baseline, the home and the remote tree between two rounds. -/
structure Trees where
  baseline : FileStates
  home : FileStates
  remote : FileStates

namespace Trees

variable (r : Round) (t : Trees)

/-- The plan of the round: the planner's for the effective mode, without publications when writes are
off. -/
def plan : ReconcilePlan :=
  r.withhold (planReconciliationMode t.baseline t.home t.remote r.effectiveMode)

/-- The home when the remote changes are applied and the deleted files removed. -/
def applied : FileStates :=
  writeAll t.home ((t.plan r).applyRemote.map (fun path => (path, t.remote.lookup path)) ++
    (t.plan r).deleteLocal.map fun path => (path, none))

/-- The remote tree when the changes of the home are published. -/
def published : FileStates :=
  Round.forgetAll (Round.addAll t.remote (t.applied r) (t.plan r).publishUpdates)
    (t.plan r).publishDeletes

/-- The remote files that `AcceptedBaseline` gets: the clean exit passes the remote tree, the commit
exit the second snapshot of the home. -/
def recorded : FileStates :=
  if (t.published r).same t.remote then t.remote else t.applied r

/-- One round. -/
def round : Trees where
  baseline := freezeConflictBaseline
    (acceptedBaseline t.baseline (t.applied r) (t.recorded r) r.mode r.writesEnabled)
    t.baseline (t.plan r).conflicts
  home := t.applied r
  remote := t.published r

end Trees

/-! ### A round on one path -/

/-- The verdict is a conflict. -/
def Verdict.isConflict : Verdict → Bool
  | .conflict _ => true
  | _ => false

/-- The states of one path in the three trees. -/
structure PathStates where
  base : Option FileState
  home : Option FileState
  remote : Option FileState
  deriving DecidableEq

namespace PathStates

variable (r : Round) (s : PathStates)

/-- The verdict of the round on a path: the planner's, except that publications are withheld when
writes are off. -/
def verdict : Verdict :=
  match classify r.effectiveMode s.base s.home s.remote with
  | .publishUpdate => if r.writesEnabled then .publishUpdate else .ignored
  | .publishDelete => if r.writesEnabled then .publishDelete else .ignored
  | v => v

/-- What the round leaves of a path: the side that has not changed follows the one that has. -/
def round : PathStates :=
  match s.verdict r with
  | .applyRemote | .deleteLocal => ⟨s.remote, s.remote, s.remote⟩
  | .publishUpdate | .publishDelete | .unchanged => ⟨s.home, s.home, s.home⟩
  | .conflict _ | .ignored => s

variable {r s}

lemma verdict_of_eq (h : s.home = s.remote) : s.verdict r = .unchanged := by
  simp [verdict, classify, h]

lemma eq_of_verdict (h : s.verdict r = .unchanged) : s.home = s.remote := by
  revert h
  unfold verdict classify
  grind

lemma remote_eq_none (h : s.verdict r = .deleteLocal) : s.remote = none := by
  have hplanned : classify r.effectiveMode s.base s.home s.remote = .deleteLocal := by
    unfold verdict at h
    split at h
    · split at h <;> cases h
    · split at h <;> cases h
    · exact h
  exact (classify_eq_deleteLocal.mp hplanned).1

lemma home_eq_none (h : s.verdict r = .publishDelete) : s.home = none := by
  have hplanned : classify r.effectiveMode s.base s.home s.remote = .publishDelete := by
    unfold verdict at h
    split at h
    · split at h <;> cases h
    · next hplanned => exact hplanned
    · exact h
  exact (classify_eq_publishDelete.mp hplanned).1

/-- A round leaves a path with equal states, or as it was because it may not act on it. -/
lemma round_cases (r : Round) (s : PathStates) :
    (s.round r).home = (s.round r).remote ∧ (∀ reason, s.verdict r ≠ .conflict reason) ∨
      s.round r = s ∧ (s.verdict r = .ignored ∨ ∃ reason, s.verdict r = .conflict reason) := by
  unfold round
  cases hverdict : s.verdict r with
  | unchanged | applyRemote | deleteLocal | publishUpdate | publishDelete => exact .inl ⟨rfl, nofun⟩
  | conflict reason => exact .inr ⟨rfl, .inr ⟨reason, rfl⟩⟩
  | ignored => exact .inr ⟨rfl, .inl rfl⟩

/-- The verdict of the next round is no action, and a conflict exactly where there was one. -/
lemma verdict_round (r : Round) (s : PathStates) :
    ((s.round r).verdict r = .unchanged ∧ ∀ reason, s.verdict r ≠ .conflict reason) ∨
      (s.round r).verdict r = s.verdict r ∧
        (s.verdict r = .ignored ∨ ∃ reason, s.verdict r = .conflict reason) := by
  rcases round_cases r s with ⟨hequal, hno⟩ | ⟨hsame, hverdict⟩
  · exact .inl ⟨verdict_of_eq hequal, hno⟩
  · exact .inr ⟨by rw [hsame], hverdict⟩

lemma round_round (r : Round) (s : PathStates) : (s.round r).round r = s.round r := by
  rcases round_cases r s with ⟨hequal, hno⟩ | ⟨hsame, -⟩
  · have hagain : (s.round r).verdict r = .unchanged := verdict_of_eq hequal
    have hbase : (s.round r).base = (s.round r).home := by
      revert hequal
      unfold round
      split
      · exact fun _ => rfl
      · exact fun _ => rfl
      · exact fun _ => rfl
      · exact fun _ => rfl
      · exact fun _ => rfl
      · next hconflict => exact absurd hconflict (hno _)
      · next hignored =>
        -- an ignored path has different states
        intro hequal
        rw [verdict_of_eq hequal] at hignored
        cases hignored
    generalize s.round r = s' at *
    rw [round, hagain]
    obtain ⟨base, home, remote⟩ := s'
    simp only at hequal hbase ⊢
    rw [hbase, hequal]
  · rw [hsame, hsame]

lemma verdict_ne_ignored (h : r.mode ≠ .pullOnly ∧ r.writesEnabled = true) : s.verdict r ≠ .ignored := by
  obtain ⟨hmode, hwrites⟩ := h
  have heffective : r.effectiveMode = r.mode := by
    rw [effectiveMode, hwrites]
    rfl
  unfold verdict classify
  rw [heffective, hwrites]
  grind

/-- The next ancestor of a path without a conflict, as `AcceptedBaseline` computes it. -/
lemma base_round (hno : ∀ reason, s.verdict r ≠ .conflict reason) : (s.round r).base =
      if r.mode ≠ .pullOnly ∧ r.writesEnabled = true then (s.round r).home
      else if (s.round r).home = (s.round r).remote then (s.round r).home else s.base := by
  unfold round
  cases hverdict : s.verdict r with
  | conflict reason => exact absurd hverdict (hno reason)
  | ignored =>
    have hdiffer : s.home ≠ s.remote := by
      intro hequal
      rw [verdict_of_eq hequal] at hverdict
      cases hverdict
    rw [if_neg fun h => verdict_ne_ignored h hverdict, if_neg hdiffer]
  | unchanged | publishUpdate | publishDelete | applyRemote | deleteLocal => simp

end PathStates

/-! ### From paths to trees -/

namespace Trees

/-- The states of a path. -/
def states (t : Trees) (path : String) : PathStates :=
  ⟨t.baseline.lookup path, t.home.lookup path, t.remote.lookup path⟩

variable {r : Round} {t : Trees} {path : String}

lemma follows_plan (r : Round) (t : Trees) (path : String) :
    Follows (t.plan r) path ((t.states path).verdict r) := by
  have hplanner : Follows (planReconciliationMode t.baseline t.home t.remote r.effectiveMode) path
      (classify r.effectiveMode (t.baseline.lookup path) (t.home.lookup path)
        (t.remote.lookup path)) := follows_planReconciliationMode t.baseline _ _ r.effectiveMode path
  obtain ⟨h₁, h₂, h₃, h₄, h₅⟩ := hplanner
  unfold PathStates.verdict states plan withhold
  generalize classify r.effectiveMode (t.baseline.lookup path) (t.home.lookup path)
    (t.remote.lookup path) = v at *
  cases hwrites : r.writesEnabled with
  | true => cases v <;> exact ⟨h₁, h₂, h₃, h₄, h₅⟩
  | false => cases v <;> constructor <;> simp_all

lemma published_of_not_publishing (h : ¬ (r.mode ≠ .pullOnly ∧ r.writesEnabled = true)) (t : Trees) :
    t.published r = t.remote := by
  -- without writes the publications are withheld, and a pull has none
  have hverdict : ∀ path, (t.states path).verdict r ≠ .publishUpdate ∧
      (t.states path).verdict r ≠ .publishDelete := by
    intro path
    have heffective : r.writesEnabled = true → r.effectiveMode = .pullOnly := by
      intro hwrites
      rw [effectiveMode, hwrites]
      simpa [hwrites] using h
    unfold PathStates.verdict classify
    grind
  have hupdates : (t.plan r).publishUpdates = [] := by
    rw [eq_nil_iff_forall_not_mem]
    intro path hpath
    exact (hverdict path).1 ((follows_plan r t path).publishUpdates.mp hpath)
  have hdeletes : (t.plan r).publishDeletes = [] := by
    rw [eq_nil_iff_forall_not_mem]
    intro path hpath
    exact (hverdict path).2 ((follows_plan r t path).publishDeletes.mp hpath)
  rw [published, hupdates, hdeletes]
  rfl

lemma lookup_applied (r : Round) (t : Trees) (path : String) :
    (t.applied r).lookup path = ((t.states path).round r).home := by
  have hfollows := follows_plan r t path
  rw [applied, writeAll_append, lookup_writeAll_map _ _ (fun _ => none), lookup_writeAll_map]
  simp only [hfollows.applyRemote, hfollows.deleteLocal]
  unfold PathStates.round
  cases hverdict : (t.states path).verdict r with
  | deleteLocal =>
    have hremote := PathStates.remote_eq_none hverdict
    simp [hremote]
  | unchanged | applyRemote | publishUpdate | publishDelete | conflict | ignored => rfl

lemma lookup_published (r : Round) (t : Trees) (path : String) :
    (t.published r).lookup path = ((t.states path).round r).remote := by
  have hfollows := follows_plan r t path
  have happlied := lookup_applied r t path
  rw [published, forgetAll, addAll, lookup_writeAll_map _ _ (fun _ => none),
    lookup_writeAll_map, happlied]
  simp only [hfollows.publishUpdates, hfollows.publishDeletes]
  unfold PathStates.round
  cases hverdict : (t.states path).verdict r with
  | publishDelete =>
    have hhome := PathStates.home_eq_none hverdict
    simp [hhome]
  | unchanged => exact (PathStates.eq_of_verdict hverdict).symm
  | publishUpdate | applyRemote | deleteLocal | conflict | ignored => rfl

lemma lookup_baseline_round (r : Round) (t : Trees) (path : String) :
    (t.round r).baseline.lookup path = ((t.states path).round r).base := by
  have hconflicts := (follows_plan r t path).conflicts
  have hhome := lookup_applied r t path
  have hremote := lookup_published r t path
  rw [round, lookup_freezeConflictBaseline, lookup_acceptedBaseline]
  by_cases hconflict : ∃ reason, (t.states path).verdict r = .conflict reason
  · obtain ⟨reason, hverdict⟩ := hconflict
    rw [if_pos (hconflicts.mpr ⟨reason, hverdict⟩), PathStates.round, hverdict]
    rfl
  · rw [if_neg (mt hconflicts.mp hconflict), PathStates.base_round (not_exists.mp hconflict), hhome]
    split
    · rfl
    rename_i hpublishing
    -- nothing is published, so that the clean exit records the remote tree
    have hpublished := published_of_not_publishing hpublishing t
    have hrecorded : t.recorded r = t.remote := by
      rw [recorded, hpublished, if_pos (FinMap.same_iff.mpr fun _ => rfl)]
    rw [hrecorded, ← hpublished, hremote]
    rfl

lemma states_round (r : Round) (t : Trees) (path : String) :
    (t.round r).states path = (t.states path).round r := by
  have hbase := lookup_baseline_round r t path
  have hhome := lookup_applied r t path
  have hremote := lookup_published r t path
  rw [states, hbase]
  simp only [round, hhome, hremote]

lemma planLoop_conflicts (mode : AssignmentMode) (baseline home remote : FileStates)
    (paths : List String) (plan : ReconcilePlan) :
    (planLoop mode baseline home remote paths plan).conflicts.map PathSummary.path =
      plan.conflicts.map PathSummary.path ++ paths.filter fun path =>
        (classify mode (baseline.lookup path) (home.lookup path) (remote.lookup path)).isConflict := by
  induction paths generalizing plan with
  | nil => simp [planLoop]
  | cons path paths ih =>
    rw [planLoop, ih, filter_cons]
    cases classify mode (baseline.lookup path) (home.lookup path) (remote.lookup path) <;>
      simp [ReconcilePlan.add, Verdict.isConflict]

lemma conflicts_sorted (r : Round) (t : Trees) :
    ((t.plan r).conflicts.map PathSummary.path).Pairwise (· ≤ ·) ∧
      ((t.plan r).conflicts.map PathSummary.path).Nodup := by
  have hplan : (t.plan r).conflicts =
      (planReconciliationMode t.baseline t.home t.remote r.effectiveMode).conflicts := by
    unfold plan withhold
    split <;> rfl
  rw [hplan, planReconciliationMode, planLoop_conflicts, map_nil, nil_append]
  have hsorted : (allPaths t.baseline t.home t.remote).Pairwise (· ≤ ·) :=
    pairwise_insertionSort _ _
  have hnodup : (allPaths t.baseline t.home t.remote).Nodup :=
    (perm_insertionSort _ _).nodup_iff.mpr (nodup_dedup _)
  exact ⟨hsorted.filter _, hnodup.filter _⟩

/-! ### Convergence -/

/-- The two have the same states everywhere. -/
def Same (t t' : Trees) : Prop := ∀ path, t.states path = t'.states path

/-- What one round leaves to the next ones. -/
structure Converged (r : Round) (t : Trees) : Prop where
  publishUpdates_eq : ((t.round r).plan r).publishUpdates = []
  publishDeletes_eq : ((t.round r).plan r).publishDeletes = []
  applyRemote_eq : ((t.round r).plan r).applyRemote = []
  deleteLocal_eq : ((t.round r).plan r).deleteLocal = []
  /-- The next round meets the same conflicts. -/
  conflicts_eq : ((t.round r).plan r).conflicts.map PathSummary.path =
    (t.plan r).conflicts.map PathSummary.path
  /-- However many rounds follow, nothing changes. -/
  stays : ∀ n, ((round r)^[n] (t.round r)).Same (t.round r)
  /-- With writes in both directions the two sides are equal outside the conflicts. -/
  equal : r.mode = .bidirectional → r.writesEnabled = true →
    ∀ path, path ∉ (t.plan r).conflicts.map PathSummary.path →
      (t.round r).home.lookup path = (t.round r).remote.lookup path

lemma eq_nil_of_action (r : Round) (t : Trees) {l : List String} {action : Verdict}
    (hl : ∀ path, path ∈ l ↔ ((t.round r).states path).verdict r = action)
    (haction : action ≠ .unchanged ∧ action ≠ .ignored ∧ ∀ reason, action ≠ .conflict reason) :
    l = [] := by
  rw [eq_nil_iff_forall_not_mem]
  intro path hpath
  have hplanned := (hl path).mp hpath
  obtain ⟨hunchanged, hignored, hconflict⟩ := haction
  rw [states_round] at hplanned
  rcases PathStates.verdict_round r (t.states path) with ⟨h, -⟩ | ⟨hsame, hverdict⟩
  · exact hunchanged (hplanned.symm.trans h)
  rw [hsame] at hplanned
  rcases hverdict with h | ⟨reason, h⟩
  · exact hignored (hplanned.symm.trans h)
  · exact hconflict reason (hplanned.symm.trans h)

/-- Reconciliation converges after one round. -/
theorem round_converged (r : Round) (t : Trees) : Converged r t := by
  have hfollows := follows_plan r (t.round r)
  refine ⟨eq_nil_of_action r t (fun path => (hfollows path).publishUpdates) ⟨nofun, nofun, nofun⟩,
    eq_nil_of_action r t (fun path => (hfollows path).publishDeletes) ⟨nofun, nofun, nofun⟩,
    eq_nil_of_action r t (fun path => (hfollows path).applyRemote) ⟨nofun, nofun, nofun⟩,
    eq_nil_of_action r t (fun path => (hfollows path).deleteLocal) ⟨nofun, nofun, nofun⟩, ?_, ?_, ?_⟩
  · -- two sorted lists of the same paths
    obtain ⟨hsorted, hnodup⟩ := conflicts_sorted r (t.round r)
    obtain ⟨hsorted', hnodup'⟩ := conflicts_sorted r t
    have hperm := (perm_ext_iff_of_nodup hnodup hnodup').mpr fun path => by
      rw [(hfollows path).conflicts, (follows_plan r t path).conflicts]
      rw [states_round]
      rcases PathStates.verdict_round r (t.states path) with ⟨hunchanged, hno⟩ | ⟨hsame, -⟩
      · rw [hunchanged]
        constructor
        · rintro ⟨reason, hreason⟩
          cases hreason
        · rintro ⟨reason, hreason⟩
          exact absurd hreason (hno reason)
      · rw [hsame]
    exact hperm.eq_of_pairwise' hsorted hsorted'
  · intro n
    induction n with
    | zero => exact fun _ => rfl
    | succ n ih =>
      intro path
      rw [Function.iterate_succ_apply', states_round, ih path, states_round, PathStates.round_round]
  · intro hmode hwrites path hpath
    -- with writes a bidirectional round leaves a path different only in a conflict
    change ((t.round r).states path).home = ((t.round r).states path).remote
    rw [states_round]
    rcases PathStates.round_cases r (t.states path) with ⟨hequal, -⟩ | ⟨-, hignored | hconflict⟩
    · exact hequal
    · exact absurd hignored (PathStates.verdict_ne_ignored ⟨by rw [hmode]; nofun, hwrites⟩)
    · exact absurd ((follows_plan r t path).conflicts.mpr hconflict) hpath

end Trees

end Paperboat.ConfigSync

import Paperboat.ConfigSync.Execute

/-!
# The baseline that an undisturbed round prepares

One call of `Reconcile` while nobody else touches the home or the repository. The prepared baseline
should have for every path outside the conflicts the state of the recorded revision, or the ancestor
that the path had before (`Undisturbed.KeepsAncestry`).

Both exits of `Reconcile` record the second snapshot of the home as it is when the round may publish,
or when it has made a commit. So a change that the plan leaves alone becomes the ancestor without
being in the revision.
-/

namespace Paperboat.ConfigSync

open Round

/-! ### Forced paths -/

namespace Round

variable {r : Round} {home remote : FileStates} {path : String}

lemma forcedPaths_foldl (conflicts : List PathSummary) (l : List ConflictResolution) (s : Resolving)
    (h : (l.foldl (r.resolveOne home remote conflicts) s).forcedPaths.lookup path ≠ none) :
    s.forcedPaths.lookup path ≠ none ∨ path ∈ conflicts.map PathSummary.path := by
  induction l generalizing s with
  | nil => exact .inl h
  | cons x l ih =>
    rw [List.foldl_cons] at h
    refine (ih _ h).elim (fun hstep => ?_) .inr
    rcases @resolveOne_cases r home remote conflicts s x with
      ⟨-, hs⟩ | ⟨-, -, ⟨-, hs⟩ | ⟨-, hs⟩⟩ | ⟨-, -, hmem, hs⟩ <;> rw [hs] at hstep
    · exact .inl hstep
    · exact .inl hstep
    · exact .inl hstep
    by_cases hp : path = x.path
    · exact .inr (hp ▸ hmem)
    simp only [resolvePath] at hstep
    split at hstep
    · rw [FinMap.lookup_insert_eq, if_neg hp] at hstep
      exact .inl hstep
    · exact .inl hstep

lemma ne_of_forced (h : (r.resolving home remote).forcedPaths.lookup path ≠ none) :
    home.lookup path ≠ remote.lookup path := by
  rcases forcedPaths_foldl _ _ _ h with hstart | hmem
  · simp at hstart
  · rw [identified, map_path_identifyConflicts, (@mergedPlan_has r home remote path).conflicts] at hmem
    exact (exists_classify_eq_conflict.mp hmem.1).1

/-- A path with a verdict other than `unchanged` differs between home and remote. -/
lemma ne_of_verdict (h : r.verdict home remote path ≠ .unchanged) :
    home.lookup path ≠ remote.lookup path := by
  cases hf : (r.resolving home remote).forcedPaths.lookup path with
  | some => exact ne_of_forced (r := r) (by simp [hf])
  | none =>
    intro heq
    apply h
    simp [verdict, hf, classify, heq]

lemma eq_of_unchanged (h : r.verdict home remote path = .unchanged) :
    home.lookup path = remote.lookup path := by
  unfold verdict at h
  split at h
  · unfold forcedVerdict at h
    split_ifs at h
  · unfold classify at h
    split_ifs at h with heq
    exact heq

variable (r home remote) in
/-- A deletion on one side means that the file is missing on the other. -/
lemma missing_of_verdict (path : String) :
    (r.verdict home remote path = .deleteLocal → remote.lookup path = none) ∧
      (r.verdict home remote path = .publishDelete → home.lookup path = none) := by
  unfold verdict
  rcases (r.resolving home remote).forcedPaths.lookup path with _ | action
  · exact ⟨fun h => (classify_eq_deleteLocal.mp h).1, fun h => (classify_eq_publishDelete.mp h).1⟩
  unfold forcedVerdict
  cases home.lookup path <;> cases remote.lookup path <;> by_cases ha : action = .forcePull <;>
    simp [ha]

/-- A path is ignored when the round pulls, its ancestor is the remote state, and the home has
changed it. -/
lemma verdict_eq_ignored : r.verdict home remote path = .ignored ↔
      (r.resolving home remote).forcedPaths.lookup path = none ∧ r.planningMode home remote = .pullOnly ∧
        (r.ancestors home remote).lookup path = remote.lookup path ∧
        home.lookup path ≠ remote.lookup path := by
  unfold verdict
  rcases (r.resolving home remote).forcedPaths.lookup path with _ | _
  · simp only [true_and]
    unfold classify
    grind
  unfold forcedVerdict
  simp only [reduceCtorEq, false_and, iff_false]
  split_ifs <;> simp

end Round

/-! ### The round -/

/-- A round that nobody disturbs: the files of the home, the rendered files of the remote revision, and
the manifest, which selects only managed paths. -/
structure Undisturbed where
  round : Round
  home : FileStates
  source : FileStates
  selects : String → Bool
  manages_of_selects : ∀ path, selects path = true → round.manages path = true

namespace Undisturbed

variable (u : Undisturbed)

/-- The snapshot of the home. -/
def localFiles : FileStates := snapshotOf u.selects [] u.home

/-- The snapshot of the remote tree. -/
def remoteFiles : FileStates := snapshotOf u.selects [] u.source

/-- The plan that the round executes. -/
def plan : ReconcilePlan := u.round.plan u.localFiles u.remoteFiles

/-- The previous ancestors, as adjusted by the resolutions. -/
def ancestors : FileStates := u.round.ancestors u.localFiles u.remoteFiles

/-- The home after the plan has been applied. -/
def homeAfter : FileStates :=
  writeAll u.home (u.round.applyWrites u.localFiles u.remoteFiles u.source)

/-- The work tree after adding and forgetting, which is also the content of the commit. -/
def treeAfter : FileStates :=
  Round.forgetAll (Round.addAll u.source u.homeAfter u.plan.publishUpdates) u.plan.publishDeletes

/-- The work tree has no changes to commit. -/
def clean : Bool := u.treeAfter.same u.source

/-- The second snapshot of the home. -/
def mergedFiles : FileStates := snapshotOf u.selects [] u.homeAfter

/-- The baseline that the round prepares: without changes for the remote revision, whose snapshot
the clean exit passes on, and otherwise for the new commit. -/
def pending (commit : String) : Baseline :=
  if u.clean then
    u.round.pendingBaseline u.localFiles u.remoteFiles u.mergedFiles u.remoteFiles
      u.round.remoteRevision
  else u.round.pendingBaseline u.localFiles u.remoteFiles u.mergedFiles u.mergedFiles commit

/-- Every entry outside the conflicts is the state in the recorded revision or the ancestor that the
path had. The recorded revision has the work tree as its content on both exits. -/
def KeepsAncestry : Prop :=
  ∀ commit path, path ∉ u.plan.conflicts.map PathSummary.path →
    (u.pending commit).files.lookup path = u.treeAfter.lookup path ∨
      (u.pending commit).files.lookup path = u.ancestors.lookup path

/-- A change of the home that is neither in the revision nor the ancestor does not become the
ancestor, and no later plan overwrites it or deletes it, whatever the remote state then is. -/
def SparesLocalChanges : Prop :=
  ∀ commit path, path ∉ u.plan.conflicts.map PathSummary.path →
    u.homeAfter.lookup path ≠ u.treeAfter.lookup path →
    u.homeAfter.lookup path ≠ u.ancestors.lookup path →
    (u.pending commit).files.lookup path ≠ u.homeAfter.lookup path ∧
      ∀ mode remote,
        classify mode ((u.pending commit).files.lookup path) (u.homeAfter.lookup path) remote ≠
            .applyRemote ∧
          classify mode ((u.pending commit).files.lookup path) (u.homeAfter.lookup path) remote ≠
            .deleteLocal

/-- The verdict of the round on a path. -/
def verdict (path : String) : Verdict := u.round.verdict u.localFiles u.remoteFiles path

/-- The round records the home as it is: it may write, and the assignment publishes or some path is
published all the same. -/
def Wholesale : Prop :=
  u.round.writesEnabled = true ∧ (u.round.mode ≠ .pullOnly ∨
    ∃ path, u.verdict path = .publishUpdate ∨ u.verdict path = .publishDelete)

/-- The inputs of rounds that keep the ancestry. -/
structure Harmless : Prop where
  /-- A file of the remote revision with an ancestor that the manifest does not select is forgotten:
  the assignment publishes, no resolution counts and the path is not managed any more. -/
  unselected : ∀ path, u.selects path = false → u.source.lookup path ≠ none →
    u.ancestors.lookup path ≠ none →
    (u.round.resolving u.localFiles u.remoteFiles).resolved = [] ∧ u.round.writesEnabled = true ∧
      u.round.effectiveMode ≠ .pullOnly ∧ u.round.manages path = false
  /-- Before the home is recorded as it is, a pulling plan finds no change of the home that it
  leaves alone. -/
  pulling : u.Wholesale → ∀ path, u.selects path = true →
    (u.round.merged u.localFiles u.remoteFiles).lookup path = none →
    (u.round.resolving u.localFiles u.remoteFiles).forcedPaths.lookup path = none →
    u.round.planningMode u.localFiles u.remoteFiles = .pullOnly →
    u.ancestors.lookup path = u.source.lookup path → u.home.lookup path = u.source.lookup path
  /-- A merged text that a resolution keeps from being published is one of the two known states. -/
  merging : u.Wholesale → ∀ path state,
    (u.round.merged u.localFiles u.remoteFiles).lookup path = some state →
    u.verdict path = .applyRemote ∨ u.verdict path = .ignored →
    some state = u.source.lookup path ∨ some state = u.ancestors.lookup path

/-- The merged files. -/
abbrev merged : FileStates := u.round.merged u.localFiles u.remoteFiles

variable {u}

/-! ### Path by path -/

variable {path : String}

lemma lookup_of_selects (h : u.selects path = true) : u.localFiles.lookup path = u.home.lookup path ∧
      u.remoteFiles.lookup path = u.source.lookup path ∧
      u.mergedFiles.lookup path = u.homeAfter.lookup path := by
  simp [localFiles, remoteFiles, mergedFiles, lookup_snapshotOf, h]

lemma lookup_of_not_selects (h : u.selects path = false) :
    u.localFiles.lookup path = none ∧ u.remoteFiles.lookup path = none ∧
      u.mergedFiles.lookup path = none := by
  simp [localFiles, remoteFiles, mergedFiles, lookup_snapshotOf, h]

lemma selects_of_ne (h : u.localFiles.lookup path ≠ u.remoteFiles.lookup path) :
    u.selects path = true := by
  by_contra hno
  obtain ⟨h₁, h₂, -⟩ := lookup_of_not_selects (Bool.eq_false_iff.mpr hno)
  exact h (h₁.trans h₂.symm)

lemma lookup_treeAfter (path : String) : u.treeAfter.lookup path =
      if path ∈ u.plan.publishDeletes then none
      else if path ∈ u.plan.publishUpdates then u.homeAfter.lookup path
      else u.source.lookup path := by
  rw [treeAfter, forgetAll, lookup_writeAll_map _ _ (fun _ => none), addAll, lookup_writeAll_map]

lemma merged_ne (h : u.merged.lookup path ≠ none) :
    u.localFiles.lookup path ≠ none ∧ u.remoteFiles.lookup path ≠ none ∧
      u.localFiles.lookup path ≠ u.remoteFiles.lookup path ∧ u.round.mode = .bidirectional := by
  obtain ⟨state, hstate⟩ := Option.ne_none_iff_exists'.mp h
  obtain ⟨hwrites, heff, hconflict, hmerge⟩ := merged_eq_some hstate
  obtain ⟨-, hl, hr⟩ := mergeConflict_eq_ok hmerge
  refine ⟨hl, hr, (exists_classify_eq_conflict.mp hconflict).1, ?_⟩
  simpa [effectiveMode, hwrites] using heff

lemma has (path : String) : let unresolved := (u.round.resolving u.localFiles u.remoteFiles).resolved = []
    u.plan.Has path
      (u.round.writesEnabled = true ∧ u.verdict path = .publishUpdate ∨
        unresolved ∧ u.merged.lookup path ≠ none)
      (u.round.writesEnabled = true ∧ u.verdict path = .publishDelete ∨
        unresolved ∧ u.round.writesEnabled = true ∧ u.round.effectiveMode ≠ .pullOnly ∧
          u.round.baseline.files.lookup path ≠ none ∧ u.round.manages path = false)
      (u.verdict path = .applyRemote) (u.verdict path = .deleteLocal)
      ((∃ reason, u.verdict path = .conflict reason) ∧
        ¬ (unresolved ∧ u.merged.lookup path ≠ none)) :=
  plan_has path

/-- The snapshots tell a path apart that the round does something about. -/
lemma ne_of_verdict (h : u.verdict path ≠ .unchanged) :
    u.localFiles.lookup path ≠ u.remoteFiles.lookup path :=
  Round.ne_of_verdict h

lemma verdict_of_not_selects (h : u.selects path = false) : u.verdict path = .unchanged := by
  by_contra hne
  rw [selects_of_ne (ne_of_verdict hne)] at h
  cases h

lemma pulling_lists (hmode : u.round.mode = .pullOnly) (path : String) : u.merged.lookup path = none ∧
      u.round.effectiveMode = .pullOnly := by
  refine ⟨?_, by simp [effectiveMode, hmode]⟩
  by_contra hne
  rw [(merged_ne hne).2.2.2] at hmode
  cases hmode

/-- Only a path that the plan publishes or forgets differs between the work tree and the remote
revision. -/
lemma wholesale_of_not_clean (h : u.clean = false) : u.Wholesale := by
  have hpath : ∃ path, u.treeAfter.lookup path ≠ u.source.lookup path := by
    by_contra hno
    rw [clean, Bool.eq_false_iff, Ne, FinMap.same_iff] at h
    exact h fun path => by_contra fun hne => hno ⟨path, hne⟩
  obtain ⟨path, hpath⟩ := hpath
  obtain ⟨hupd, hdel, -⟩ := u.has path
  rw [lookup_treeAfter] at hpath
  by_cases hmode : u.round.mode = .pullOnly
  · obtain ⟨hmerged, heff⟩ := pulling_lists hmode path
    rw [hmerged] at hupd
    rw [heff] at hdel
    split at hpath
    · next hmem =>
      obtain ⟨hw, hv⟩ := (hdel.mp hmem).resolve_right (by simp)
      exact ⟨hw, .inr ⟨path, .inr hv⟩⟩
    · split at hpath
      · next hmem =>
        obtain ⟨hw, hv⟩ := (hupd.mp hmem).resolve_right (by simp)
        exact ⟨hw, .inr ⟨path, .inl hv⟩⟩
      · exact absurd rfl hpath
  · refine ⟨?_, .inl hmode⟩
    split at hpath
    · next hmem => exact (hdel.mp hmem).elim And.left fun h => h.2.1
    split at hpath
    · next hmem =>
      refine (hupd.mp hmem).elim And.left fun h => ?_
      obtain ⟨state, hstate⟩ := Option.ne_none_iff_exists'.mp h.2
      exact (merged_eq_some hstate).1
    · exact absurd rfl hpath

lemma lookup_homeAfter (path : String) : u.homeAfter.lookup path =
      if u.merged.lookup path ≠ none then
        u.merged.lookup path
      else if u.verdict path = .deleteLocal then none
      else if u.verdict path = .applyRemote then u.source.lookup path
      else u.home.lookup path := by
  obtain ⟨-, -, happly, hdelete, -⟩ := u.has path
  rw [homeAfter, lookup_writeAll_applyWrites]
  simp only [← happly, ← hdelete]
  rfl

/-- In an assignment that pulls, publishing a path changes the work tree. -/
lemma clean_of_pulling (hmode : u.round.mode = .pullOnly) (hw : u.Wholesale) : u.clean = false := by
  obtain ⟨hwrites, hno | ⟨path, hv⟩⟩ := hw
  · exact absurd hmode hno
  obtain ⟨hmerged, heff⟩ := pulling_lists hmode path
  obtain ⟨hupd, hdel, -⟩ := u.has path
  rw [hmerged] at hupd
  rw [heff] at hdel
  have hne : u.localFiles.lookup path ≠ u.remoteFiles.lookup path :=
    ne_of_verdict (by rcases hv with hv | hv <;> simp [hv])
  obtain ⟨hl, hr, -⟩ := lookup_of_selects (selects_of_ne hne)
  rw [hl, hr] at hne
  rw [clean, Bool.eq_false_iff, Ne, FinMap.same_iff]
  intro hsame
  have htree := hsame path
  rw [lookup_treeAfter] at htree
  rcases hv with hv | hv
  · rw [if_neg (by simp [hdel, hv]), if_pos (by simp [hupd, hv, hwrites]), lookup_homeAfter] at htree
    simp only [hmerged, ne_eq, not_true_eq_false, if_false, hv, reduceCtorEq] at htree
    exact hne htree
  · rw [if_pos (by simp [hdel, hv, hwrites])] at htree
    have hnone := (u.round.missing_of_verdict u.localFiles u.remoteFiles path).2 hv
    rw [hl] at hnone
    exact hne (hnone.trans htree)

/-- When the home is recorded as it is, the entry of a path is its state in the second snapshot. -/
lemma lookup_pending_of_wholesale (hw : u.Wholesale) (commit : String)
    (hc : path ∉ u.plan.conflicts.map PathSummary.path) :
    (u.pending commit).files.lookup path = u.mergedFiles.lookup path := by
  unfold plan at hc
  unfold pending
  split
  · next hclean =>
    have hmode : u.round.mode ≠ .pullOnly := by
      intro hmode
      rw [clean_of_pulling hmode hw] at hclean
      cases hclean
    rw [lookup_pendingBaseline, if_neg hc, if_pos ⟨hmode, hw.1⟩]
  · rw [lookup_pendingBaseline, if_neg hc, if_pos rfl]
    split <;> rfl

/-- Otherwise the work tree is clean and the entry moves only to a state that home and remote
share. -/
lemma lookup_pending_of_not_wholesale (hw : ¬ u.Wholesale) (commit : String)
    (hc : path ∉ u.plan.conflicts.map PathSummary.path) :
    (u.pending commit).files.lookup path =
        (if u.mergedFiles.lookup path = u.remoteFiles.lookup path then u.mergedFiles.lookup path
          else u.ancestors.lookup path) ∧
      u.treeAfter.lookup path = u.source.lookup path := by
  have hclean : u.clean = true := by
    by_contra hno
    exact hw (wholesale_of_not_clean (Bool.eq_false_iff.mpr hno))
  constructor
  · unfold plan at hc
    rw [pending, if_pos hclean, lookup_pendingBaseline, if_neg hc, if_neg]
    · rfl
    · exact fun h => hw ⟨h.2, .inl h.1⟩
  · rw [clean, FinMap.same_iff] at hclean
    exact hclean path

/-- An unselected path loses its entry, and leaves the work tree only when it is forgotten. -/
lemma lookup_pending_of_not_selects (h : u.selects path = false) (commit : String) :
    path ∉ u.plan.conflicts.map PathSummary.path ∧ (u.pending commit).files.lookup path = none ∧
      u.treeAfter.lookup path =
        if path ∈ u.plan.publishDeletes then none else u.source.lookup path := by
  obtain ⟨hl, hr, hm⟩ := lookup_of_not_selects h
  have hverdict := verdict_of_not_selects h
  obtain ⟨hupd, -, -, -, hconf⟩ := u.has path
  have hmerged : u.merged.lookup path = none := by
    by_contra hne
    exact (merged_ne hne).1 hl
  have hc : path ∉ u.plan.conflicts.map PathSummary.path := by
    rw [hconf, hverdict]
    simp
  refine ⟨hc, ?_, ?_⟩
  · by_cases hw : u.Wholesale
    · rw [lookup_pending_of_wholesale hw commit hc, hm]
    · rw [(lookup_pending_of_not_wholesale hw commit hc).1, hm, hr, if_pos rfl]
  · rw [lookup_treeAfter, if_neg (by simp [hupd, hverdict, hmerged] : path ∉ u.plan.publishUpdates)]

/-- An unselected path is forgotten exactly on the condition that `Harmless.unselected` states. -/
lemma mem_publishDeletes_of_not_selects (h : u.selects path = false)
    (hanc : u.ancestors.lookup path ≠ none) :
    path ∈ u.plan.publishDeletes ↔
      (u.round.resolving u.localFiles u.remoteFiles).resolved = [] ∧ u.round.writesEnabled = true ∧
        u.round.effectiveMode ≠ .pullOnly ∧ u.round.manages path = false := by
  rw [(u.has path).publishDeletes, verdict_of_not_selects h]
  simp only [reduceCtorEq, and_false, false_or]
  refine and_congr_right fun hres => ?_
  rw [ancestors, (resolving_of_resolved_nil hres).1] at hanc
  tauto

/-- A selected path leaves the work tree only by its verdict. -/
lemma lookup_treeAfter_of_selects (hsel : u.selects path = true) (hv : u.verdict path ≠ .publishDelete) :
    u.treeAfter.lookup path =
      if path ∈ u.plan.publishUpdates then u.homeAfter.lookup path else u.source.lookup path := by
  rw [lookup_treeAfter, if_neg]
  rw [(u.has path).publishDeletes, u.manages_of_selects path hsel]
  simp [hv]

/-- A path that the plan applies or leaves alone is not published and no conflict. -/
lemma not_published (hv : u.verdict path = .applyRemote ∨ u.verdict path = .ignored) :
    path ∉ u.plan.conflicts.map PathSummary.path ∧ path ∉ u.plan.publishUpdates := by
  obtain ⟨hupd, -, -, -, hconf⟩ := u.has path
  refine ⟨fun hmem => ?_, fun hmem => ?_⟩
  · obtain ⟨⟨reason, hreason⟩, -⟩ := hconf.mp hmem
    simp [hreason] at hv
  · rcases hupd.mp hmem with h | ⟨hres, hne⟩
    · simp [h.2] at hv
    -- without resolutions a merged file was a conflict of the plan
    obtain ⟨state, hstate⟩ := Option.ne_none_iff_exists'.mp hne
    obtain ⟨-, -, ⟨reason, hreason⟩, -⟩ := merged_eq_some hstate
    rw [verdict, verdict_of_resolved_nil hres, hreason] at hv
    simp at hv

lemma verdict_of_merged (hw : u.Wholesale) (hne : u.merged.lookup path ≠ none)
    (hc : path ∉ u.plan.conflicts.map PathSummary.path) (hupd : path ∉ u.plan.publishUpdates) :
    u.verdict path = .applyRemote ∨ u.verdict path = .ignored := by
  obtain ⟨hupd', -, -, -, hconf⟩ := u.has path
  obtain ⟨hl, hr, hdiff, -⟩ := merged_ne hne
  rw [hupd', not_or] at hupd
  rw [hconf, not_and_not_right] at hc
  obtain ⟨hdl, hpd⟩ := u.round.missing_of_verdict u.localFiles u.remoteFiles path
  cases hv : u.verdict path with
  | unchanged => exact absurd (eq_of_unchanged hv) hdiff
  | conflict reason => exact absurd (hc ⟨reason, hv⟩) hupd.2
  | publishUpdate => exact absurd ⟨hw.1, hv⟩ hupd.1
  | publishDelete => exact absurd (hpd hv) hl
  | applyRemote => exact .inl rfl
  | deleteLocal => exact absurd (hdl hv) hr
  | ignored => exact .inr rfl

/-- In a harmless round that records the home as it is, every selected path of the home is as in the
work tree or as its ancestor. -/
lemma Harmless.homeAfter_keeps (h : u.Harmless) (hw : u.Wholesale) (hsel : u.selects path = true)
    (hc : path ∉ u.plan.conflicts.map PathSummary.path) :
    u.homeAfter.lookup path = u.treeAfter.lookup path ∨
      u.homeAfter.lookup path = u.ancestors.lookup path := by
  obtain ⟨hl, hr, -⟩ := lookup_of_selects hsel
  obtain ⟨hupd, hdel, -, -, hconf⟩ := u.has path
  obtain ⟨hdl, hpd⟩ := u.round.missing_of_verdict u.localFiles u.remoteFiles path
  by_cases hm : u.merged.lookup path = none
  · have hhome := u.lookup_homeAfter path
    rw [if_neg (not_not.mpr hm)] at hhome
    have htree : u.verdict path ≠ .publishUpdate → u.verdict path ≠ .publishDelete →
        u.treeAfter.lookup path = u.source.lookup path := by
      intro hv hv'
      rw [lookup_treeAfter_of_selects hsel hv', if_neg]
      exact fun hmem => (hupd.mp hmem).elim (fun h => hv h.2) fun h => h.2 hm
    cases hv : u.verdict path with
    | unchanged =>
      left
      rw [htree (by simp [hv]) (by simp [hv]), hhome, ← hl, ← hr]
      simpa [hv] using eq_of_unchanged hv
    | conflict reason => exact absurd (hconf.mpr ⟨⟨reason, hv⟩, fun h => h.2 hm⟩) hc
    | publishUpdate =>
      rw [lookup_treeAfter_of_selects hsel (by simp [hv]), if_pos (hupd.mpr (.inl ⟨hw.1, hv⟩))]
      exact .inl rfl
    | publishDelete =>
      left
      rw [lookup_treeAfter, if_pos (hdel.mpr (.inl ⟨hw.1, hv⟩)), hhome, ← hl]
      simpa [hv] using hpd hv
    | applyRemote =>
      left
      rw [htree (by simp [hv]) (by simp [hv]), hhome]
      simp [hv]
    | deleteLocal =>
      left
      rw [htree (by simp [hv]) (by simp [hv]), hhome, ← hr, hdl hv]
      simp [hv]
    | ignored =>
      -- only a pulling plan leaves a change alone
      obtain ⟨hforced, hmode, hanc, hne⟩ := verdict_eq_ignored.mp hv
      rw [hr] at hanc
      rw [hl, hr] at hne
      exact absurd (h.pulling hw path hsel hm hforced hmode hanc) hne
  · obtain ⟨state, hstate⟩ := Option.ne_none_iff_exists'.mp hm
    have hv : u.verdict path ≠ .publishDelete := fun hv => (merged_ne hm).1 (hpd hv)
    rw [lookup_treeAfter_of_selects hsel hv]
    split
    · exact .inl rfl
    · next hmem =>
      rw [lookup_homeAfter, if_pos hm, hstate]
      exact h.merging hw path state hstate (verdict_of_merged hw hm hc hmem)

lemma Harmless.keepsAncestry (h : u.Harmless) : u.KeepsAncestry := by
  intro commit path hc
  cases hsel : u.selects path with
  | true =>
    obtain ⟨-, hr, hm⟩ := lookup_of_selects hsel
    by_cases hw : u.Wholesale
    · rw [lookup_pending_of_wholesale hw commit hc, hm]
      exact h.homeAfter_keeps hw hsel hc
    obtain ⟨hpending, htree⟩ := lookup_pending_of_not_wholesale hw commit hc
    rw [hpending, htree, ← hr]
    split
    · next heq => exact .inl heq
    · exact .inr rfl
  | false =>
    obtain ⟨-, hpending, htree⟩ := lookup_pending_of_not_selects hsel commit
    rw [hpending, htree]
    by_cases hanc : u.ancestors.lookup path = none
    · exact .inr hanc.symm
    left
    by_cases hsource : u.source.lookup path = none
    · simp [hsource]
    · have hforgotten := h.unselected path hsel hsource hanc
      rw [if_pos ((mem_publishDeletes_of_not_selects hsel hanc).mpr hforgotten)]

lemma KeepsAncestry.harmless (h : u.KeepsAncestry) : u.Harmless where
  unselected path hsel hsource hanc := by
    obtain ⟨hc, hpending, htree⟩ := lookup_pending_of_not_selects hsel ""
    rw [← mem_publishDeletes_of_not_selects hsel hanc]
    rcases h "" path hc with hentry | hentry
    · rw [hpending, htree] at hentry
      by_contra hno
      rw [if_neg hno] at hentry
      exact hsource hentry.symm
    · rw [hpending] at hentry
      exact absurd hentry.symm hanc
  pulling hw path hsel hm hforced hmode hanc := by
    obtain ⟨hl, hr, hsecond⟩ := lookup_of_selects hsel
    by_contra hne
    have hv : u.verdict path = .ignored :=
      verdict_eq_ignored.mpr ⟨hforced, hmode, by rwa [hr], by rwa [hl, hr]⟩
    obtain ⟨hc, hupd⟩ := not_published (.inr hv)
    have hentry := h "" path hc
    rw [lookup_pending_of_wholesale hw "" hc, hsecond, lookup_homeAfter, if_neg (not_not.mpr hm),
      lookup_treeAfter_of_selects hsel (by simp [hv]), if_neg hupd, hanc, or_self] at hentry
    simp only [hv, reduceCtorEq, if_false] at hentry
    exact hne hentry
  merging hw path state hstate hv := by
    have hm : u.merged.lookup path ≠ none := by simp [hstate]
    have hsel := selects_of_ne (merged_ne hm).2.2.1
    obtain ⟨hc, hupd⟩ := not_published hv
    have hentry := h "" path hc
    rw [lookup_pending_of_wholesale hw "" hc, (lookup_of_selects hsel).2.2, lookup_homeAfter,
      if_pos hm, hstate, lookup_treeAfter_of_selects hsel, if_neg hupd] at hentry
    · exact hentry
    · rcases hv with hv | hv <;> simp [hv]

/-- A later plan only overwrites or deletes a file of the home that is its ancestor. -/
lemma KeepsAncestry.sparesLocalChanges (h : u.KeepsAncestry) : u.SparesLocalChanges := by
  intro commit path hc htree hanc
  have hne : (u.pending commit).files.lookup path ≠ u.homeAfter.lookup path := by
    rcases h commit path hc with hentry | hentry <;> rw [hentry]
    · exact htree.symm
    · exact hanc.symm
  exact ⟨hne, fun mode remote => ⟨fun hv => hne (classify_eq_applyRemote.mp hv).2.2.1,
    fun hv => hne (classify_eq_deleteLocal.mp hv).2.2.1⟩⟩

/-- The rounds whose baseline is sound are those with harmless inputs. -/
theorem keeps_ancestry_iff (u : Undisturbed) : u.KeepsAncestry ∧ u.SparesLocalChanges ↔ u.Harmless :=
  ⟨fun h => h.1.harmless, fun h => ⟨h.keepsAncestry, h.keepsAncestry.sparesLocalChanges⟩⟩

/-! ### A pulling round with one forced path -/

/-- A file state told by a name. -/
def version (name : String) : FileState := ⟨name, 1, .regular 0o644, ""⟩

/-- Two files, `a` and `b`, by the names of their states. -/
def twoFiles (a b : String) : FileStates :=
  ((∅ : FileStates).insert "a" (version a)).insert "b" (version b)

/-- The user pushes `a` by force. -/
def forceA : ConflictResolution where
  id := "x"
  path := "a"
  conflictRevision := String.ofList (List.replicate 64 '0')
  expectedRemoteRevision := "1"
  scope := .path
  action := .forcePush

/-- An assignment that pulls. `a` has changed on both sides, and `b` only in the home. -/
def forced : Undisturbed where
  round :=
    { repositoryID := "r"
      assignmentID := "a"
      mode := .pullOnly
      writesEnabled := true
      remoteRevision := "1"
      baseline := ⟨twoFiles "base" "base", "0", ∅⟩
      resolutions := some [forceA]
      manages := fun _ => true
      safePath := fun _ => true
      digest := fun _ => String.ofList (List.replicate 64 '0')
      git := true
      mergeText := fun _ => .conflict }
  home := twoFiles "local" "local"
  source := twoFiles "remote" "base"
  selects _ := true
  manages_of_selects _ _ := rfl

/-- The commit for `a` records the unpublished change of `b` as its ancestor. -/
theorem unpublished_change_is_recorded : ¬ (forced.KeepsAncestry ∧ forced.SparesLocalChanges) := by
  rintro ⟨h, -⟩
  have hconf : forced.plan.conflicts = [] := by decide +kernel
  have hentry := h "2" "b" (by simp [hconf])
  have hpending : (forced.pending "2").files.lookup "b" = some (version "local") := by decide +kernel
  have htree : forced.treeAfter.lookup "b" = some (version "base") := by decide +kernel
  have hanc : forced.ancestors.lookup "b" = some (version "base") := by decide +kernel
  rw [hpending, htree, hanc] at hentry
  revert hentry
  decide

end Undisturbed

end Paperboat.ConfigSync

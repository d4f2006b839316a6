import Paperboat.ConfigSync.Prepare

/-!
# Deletions and skipped files

The first half of `Reconcile` from the two directory trees: both are snapshotted, and the plan is
made from the snapshots. To the planner a file that a snapshot skips looks like a file that does not
exist, so it takes a skipped file for a deletion whenever the other side agrees with the ancestor.
-/

namespace Paperboat.ConfigSync

/-- What a round starts from: the home, the rendered remote tree, the manifest with the policy, and
the rest of the round's inputs. -/
structure Workspace where
  sha256 : List UInt8 → String
  policy : RuntimePolicy
  sel : Selection
  home : Tree
  remote : Tree
  round : Round
  manages_eq : ∀ path, round.manages path = sel.manages path false

namespace Workspace

variable (w : Workspace)

/-- The two snapshots of a round, the remote tree first. -/
def snapshots : Except SnapshotError (Snapshot × Snapshot) :=
  match takeManifestSnapshot w.sha256 w.policy w.sel w.remote with
  | .error e => .error e
  | .ok remoteFiles =>
    match takeManifestSnapshot w.sha256 w.policy w.sel w.home with
    | .error e => .error e
    | .ok localFiles => .ok (localFiles, remoteFiles)

/-- The plan that `Reconcile` makes. -/
def plan : Except SnapshotError ReconcilePlan :=
  match w.snapshots with
  | .error e => .error e
  | .ok (localFiles, remoteFiles) => .ok (w.round.plan localFiles.files remoteFiles.files)

/-- The manifest manages the path. -/
def Managed (path : String) : Prop := w.sel.manages path false = true

/-- A managed path is forgotten only if the home has no file there, and deleted from the home only if
the remote tree has none. -/
def NeverDeletesExisting : Prop :=
  ∀ plan, w.plan = .ok plan → ∀ path, w.Managed path →
    (path ∈ plan.publishDeletes → ¬ w.home.HasFile path) ∧
      (path ∈ plan.deleteLocal → ¬ w.remote.HasFile path)

end Workspace

namespace Round

variable (r : Round) (home remote : FileStates) (path : String)

/-- An absence of the path in the home would be published: a resolution forces the home's side, or the
mode publishes and the remote tree has the path as its ancestor is. -/
def PublishesAbsence : Prop :=
  r.writesEnabled = true ∧
    match (r.resolving home remote).forcedPaths.lookup path with
    | some action => action ≠ .forcePull
    | none => r.planningMode home remote ≠ .pullOnly ∧ remote.lookup path ≠ none ∧
        (r.ancestors home remote).lookup path = remote.lookup path

/-- An absence of the path in the remote tree would be applied: a resolution forces the remote side,
or the mode pulls and the home has the path as its ancestor is. -/
def AppliesAbsence : Prop :=
  match (r.resolving home remote).forcedPaths.lookup path with
  | some action => action = .forcePull
  | none => r.planningMode home remote ≠ .pushOnly ∧ home.lookup path ≠ none ∧
      (r.ancestors home remote).lookup path = home.lookup path

variable {r home remote path}

/-- A managed path is forgotten exactly when the home lacks it and its absence is published. -/
lemma mem_publishDeletes_iff (hman : r.manages path = true) : path ∈ (r.plan home remote).publishDeletes ↔
      home.lookup path = none ∧ r.PublishesAbsence home remote path := by
  rw [(plan_has path).publishDeletes]
  simp only [hman, Bool.true_eq_false, and_false, or_false, PublishesAbsence, verdict]
  rcases hforced : (r.resolving home remote).forcedPaths.lookup path with _ | action
  · simp only [classify_eq_publishDelete]
    constructor
    · rintro ⟨hw, hh, hr, hb, hm⟩
      exact ⟨hh, hw, hm, hr, hb⟩
    · rintro ⟨hh, hw, hm, hr, hb⟩
      exact ⟨hw, hh, hr, hb, hm⟩
  simp only [forcedVerdict]
  cases hh : home.lookup path <;> by_cases ha : action = .forcePull <;> simp [ha]
  all_goals split <;> simp

/-- A path is deleted from the home exactly when the remote tree lacks it and that is applied. -/
lemma mem_deleteLocal_iff : path ∈ (r.plan home remote).deleteLocal ↔
      remote.lookup path = none ∧ r.AppliesAbsence home remote path := by
  rw [(plan_has path).deleteLocal]
  simp only [AppliesAbsence, verdict]
  rcases hforced : (r.resolving home remote).forcedPaths.lookup path with _ | action
  · simp only [classify_eq_deleteLocal]
    constructor
    · rintro ⟨hr, hh, hb, hm⟩
      exact ⟨hr, hm, hh, hb⟩
    · rintro ⟨hr, hm, hh, hb⟩
      exact ⟨hr, hh, hb, hm⟩
  simp only [forcedVerdict]
  cases hr : remote.lookup path <;> by_cases ha : action = .forcePull <;> simp [ha]
  all_goals split <;> simp

end Round

namespace Workspace

variable {w : Workspace}

lemma snapshots_eq_ok {s : Snapshot × Snapshot} (h : w.snapshots = .ok s) :
    takeManifestSnapshot w.sha256 w.policy w.sel w.home = .ok s.1 ∧
      takeManifestSnapshot w.sha256 w.policy w.sel w.remote = .ok s.2 := by
  unfold snapshots at h
  split at h
  · cases h
  rename_i remoteFiles hremote
  split at h
  · cases h
  · next localFiles hlocal =>
    cases h
    exact ⟨hlocal, hremote⟩

lemma Managed.not_empty {path : String} (h : w.Managed path) : w.sel.empty = false := by
  rcases hempty : w.sel.empty with _ | _
  · rfl
  have hno := w.sel.manages_of_empty hempty path false
  rw [Managed, hno] at h
  cases h

variable (w) in
/-- No managed file that a snapshot leaves out is one whose absence on that side counts: for a file
hidden in the home an absence is not published, and for one hidden in the remote tree it is not
applied. -/
def HiddenFilesAreSafe : Prop :=
  ∀ s, w.snapshots = .ok s → ∀ path, w.Managed path →
    (Hidden w.sha256 w.policy w.sel w.home path →
      ¬ w.round.PublishesAbsence s.1.files s.2.files path) ∧
    (Hidden w.sha256 w.policy w.sel w.remote path →
      ¬ w.round.AppliesAbsence s.1.files s.2.files path)

/-- A round never synchronises an existing file as a deletion exactly when every file that a snapshot
hides is safe from the absence rules. -/
theorem never_deletes_existing_iff (w : Workspace) : w.NeverDeletesExisting ↔ w.HiddenFilesAreSafe := by
  constructor
  · intro h s hs path hman
    have hplan : w.plan = .ok (w.round.plan s.1.files s.2.files) := by simp [plan, hs]
    obtain ⟨hpublish, hdelete⟩ := h _ hplan path hman
    obtain ⟨hlocal, hremote⟩ := snapshots_eq_ok hs
    have hman' : w.round.manages path = true := (w.manages_eq path).trans hman
    constructor
    · intro hhidden habsent
      have hnone := (lookup_eq_none_iff_hidden hlocal hman.not_empty hhidden.hasFile).mpr hhidden
      exact hpublish ((Round.mem_publishDeletes_iff hman').mpr ⟨hnone, habsent⟩) hhidden.hasFile
    · intro hhidden habsent
      have hnone := (lookup_eq_none_iff_hidden hremote hman.not_empty hhidden.hasFile).mpr hhidden
      exact hdelete (Round.mem_deleteLocal_iff.mpr ⟨hnone, habsent⟩) hhidden.hasFile
  · intro h plan hplan path hman
    unfold Workspace.plan at hplan
    split at hplan
    · cases hplan
    rename_i localFiles remoteFiles hs
    cases hplan
    obtain ⟨hpublish, hdelete⟩ := h _ hs path hman
    obtain ⟨hlocal, hremote⟩ := snapshots_eq_ok hs
    have hman' : w.round.manages path = true := (w.manages_eq path).trans hman
    constructor
    · intro hmem hfile
      obtain ⟨hnone, habsent⟩ := (Round.mem_publishDeletes_iff hman').mp hmem
      exact hpublish ((lookup_eq_none_iff_hidden hlocal hman.not_empty hfile).mp hnone) habsent
    · intro hmem hfile
      obtain ⟨hnone, habsent⟩ := Round.mem_deleteLocal_iff.mp hmem
      exact hdelete ((lookup_eq_none_iff_hidden hremote hman.not_empty hfile).mp hnone) habsent

/-! ### A file that outgrew its limit -/

/-- The bytes themselves, as a hash without collisions. -/
def plainHash (content : List UInt8) : String :=
  String.ofList (content.map fun b => Char.ofNat b.toNat)

/-- A bidirectional round with writes and no resolutions, behind the given baseline. -/
def plainRound (files : FileStates) : Round where
  repositoryID := "r"
  assignmentID := "a"
  mode := .bidirectional
  writesEnabled := true
  remoteRevision := "1"
  baseline := ⟨files, "1", ∅⟩
  resolutions := none
  manages _ := true
  safePath _ := true
  digest _ := ""
  git := true
  mergeText _ := .conflict

/-- The file `notes` was synchronised with two bytes and now has three in the home, one more than the
policy allows. -/
def outgrown : Workspace where
  sha256 := plainHash
  policy := ⟨2, 10⟩
  sel := everything
  home := ⟨[("notes", .regular [1, 2, 3] 0o644 true)], by decide⟩
  remote := ⟨[("notes", .regular [1, 2] 0o644 true)], by decide⟩
  round := plainRound ((∅ : FileStates).insert "notes" (regularState plainHash [1, 2] 0o644))
  manages_eq _ := rfl

/-- The round forgets `notes` in the published commit although the home has it. -/
theorem oversized_file_is_forgotten : ¬ outgrown.NeverDeletesExisting := by
  intro h
  have hplan : (outgrown.plan).map (fun plan => plan.publishDeletes) = .ok ["notes"] := by
    decide +kernel
  rcases hp : outgrown.plan with _ | plan
  · simp [hp, Except.map] at hplan
  rw [hp] at hplan
  have hdeletes : plan.publishDeletes = ["notes"] := Except.ok.inj hplan
  refine (h plan hp "notes" rfl).1 (by simp [hdeletes]) ?_
  exact ⟨.regular [1, 2, 3] 0o644 true, by simp [outgrown], rfl⟩

end Workspace

end Paperboat.ConfigSync

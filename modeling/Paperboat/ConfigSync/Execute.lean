import Paperboat.ConfigSync.Prepare

/-!
# Executing a round

The second half of `PlaintextWorkspaceReconciler.Reconcile`: the plan is applied to the home, the
changes of the home are added to the repository, and the files of the home become the next baseline.
The rendered files of a revision stand for the revision, so that `chezmoi apply` copies a file from
them, `chezmoi add` copies one to them and `chezmoi forget` removes one.
-/

namespace Paperboat.ConfigSync

/-- Write files one after the other; a missing content removes the file. -/
def writeAll (files : FileStates) (writes : List (String × Option FileState)) : FileStates :=
  writes.foldl (fun files w => files.put w.1 w.2) files

/-- Writing listed paths, each with the content that a function gives. -/
lemma lookup_writeAll_map (files : FileStates) (paths : List String)
    (f : String → Option FileState) (path : String) :
    (writeAll files (paths.map fun p => (p, f p))).lookup path =
      if path ∈ paths then f path else files.lookup path := by
  induction paths generalizing files with
  | nil => simp [writeAll]
  | cons q paths ih =>
    change (writeAll (files.put q (f q)) (paths.map fun p => (p, f p))).lookup path = _
    rw [ih, FinMap.lookup_put]
    by_cases hq : path = q
    · subst hq
      simp
    · simp [hq]

lemma writeAll_append (files : FileStates) (a b : List (String × Option FileState)) :
    writeAll files (a ++ b) = writeAll (writeAll files a) b :=
  List.foldl_append

/-- `nextFrozenPaths`: every conflict keeps the place where it was first met. -/
def nextFrozenPaths (previous : FinMap String FrozenPath) (conflicts : List PathSummary)
    (baseRevision : String) : FinMap String FrozenPath :=
  let baseRevision := if baseRevision = "" then "absent" else baseRevision
  conflicts.foldl (fun result c =>
    match previous.lookup c.path with
    | some frozen => result.insert c.path frozen
    | none => result.insert c.path ⟨baseRevision, c.revision⟩) ∅

namespace Round

variable (r : Round) (home remote source : FileStates)

/-- The writes to the home: `ApplyPaths`, `removeManagedPath` and `writeMergedTarget`. -/
def applyWrites : List (String × Option FileState) :=
  (r.plan home remote).applyRemote.map (fun path => (path, source.lookup path)) ++
    (r.plan home remote).deleteLocal.map (fun path => (path, none)) ++
    (r.merged home remote).keys.map fun path => (path, (r.merged home remote).lookup path)

/-- `chezmoi add` of files of the home. -/
def addAll (tree files : FileStates) (paths : List String) : FileStates :=
  writeAll tree (paths.map fun path => (path, files.lookup path))

/-- `chezmoi forget` of files. -/
def forgetAll (tree : FileStates) (paths : List String) : FileStates :=
  writeAll tree (paths.map fun path => (path, none))

/-- The baseline that a round prepares from the second snapshot of the home. The commit exit passes it
also for the remote files, the clean exit the snapshot of the remote tree. -/
def pendingBaseline (second remoteFiles : FileStates) (revision : String) : Baseline where
  files := freezeConflictBaseline
    (acceptedBaseline (r.ancestors home remote) second remoteFiles r.mode r.writesEnabled)
    (r.ancestors home remote) (r.plan home remote).conflicts
  remoteRevision := revision
  frozenPaths := nextFrozenPaths (r.resolving home remote).frozen (r.plan home remote).conflicts
    r.baseline.remoteRevision

variable {r home remote source}

lemma lookup_writeAll_applyWrites (files : FileStates) (path : String) :
    (writeAll files (r.applyWrites home remote source)).lookup path =
      if (r.merged home remote).lookup path ≠ none then (r.merged home remote).lookup path
      else if path ∈ (r.plan home remote).deleteLocal then none
      else if path ∈ (r.plan home remote).applyRemote then source.lookup path
      else files.lookup path := by
  rw [applyWrites, writeAll_append, writeAll_append, lookup_writeAll_map,
    lookup_writeAll_map _ _ (fun _ => none), lookup_writeAll_map]
  simp only [FinMap.mem_keys]

lemma lookup_pendingBaseline (second remoteFiles : FileStates) (revision path : String) :
    (r.pendingBaseline home remote second remoteFiles revision).files.lookup path =
      if path ∈ (r.plan home remote).conflicts.map PathSummary.path then
        (r.ancestors home remote).lookup path
      else if r.mode ≠ .pullOnly ∧ r.writesEnabled = true then second.lookup path
      else if second.lookup path = remoteFiles.lookup path then second.lookup path
      else (r.ancestors home remote).lookup path := by
  rw [pendingBaseline, lookup_freezeConflictBaseline, lookup_acceptedBaseline]

/-! ### Bidirectional rounds without resolutions -/

variable (r) in
/-- A bidirectional round with writes in which no resolution is pending. -/
structure Plain : Prop where
  mode_eq : r.mode = .bidirectional
  writes : r.writesEnabled = true
  unresolved : r.resolutions.getD [] = []

/-- The verdict of a plain round on a path. -/
def plainVerdict (r : Round) (home remote : FileStates) (path : String) : Verdict :=
  classify .bidirectional (r.baseline.files.lookup path) (home.lookup path) (remote.lookup path)

/-- In a plain round nothing is resolved, and the ancestors are the baseline. -/
lemma Plain.ancestors_eq (h : r.Plain) (home remote : FileStates) :
    (r.resolving home remote).resolved = [] ∧ r.ancestors home remote = r.baseline.files ∧
      (r.resolving home remote).frozen = r.baseline.frozenPaths := by
  have hres : r.resolving home remote = ⟨r.baseline.files, r.baseline.frozenPaths, none, ∅, []⟩ := by
    rw [resolving, h.unresolved]
    rfl
  simp [ancestors, hres]

lemma Plain.has (h : r.Plain) (home remote : FileStates) (path : String) :
    let v := r.plainVerdict home remote path
    (r.plan home remote).Has path
      (v = .publishUpdate ∨ (r.merged home remote).lookup path ≠ none)
      (v = .publishDelete ∨ r.baseline.files.lookup path ≠ none ∧ r.manages path = false)
      (v = .applyRemote) (v = .deleteLocal)
      ((∃ reason, v = .conflict reason) ∧ (r.merged home remote).lookup path = none) := by
  obtain ⟨hres, hanc, -⟩ := h.ancestors_eq home remote
  have heff : r.effectiveMode = .bidirectional := by simp [effectiveMode, h.writes, h.mode_eq]
  obtain ⟨-, hmode, hforced⟩ := resolving_of_resolved_nil hres
  have hverdict : r.verdict home remote path = r.plainVerdict home remote path := by
    simp [verdict, plainVerdict, hanc, hmode, hforced, heff]
  have hlists := @plan_has r home remote path
  simpa [hverdict, hres, h.writes, heff] using hlists

end Round

end Paperboat.ConfigSync

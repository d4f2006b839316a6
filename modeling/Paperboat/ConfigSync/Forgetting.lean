import Paperboat.ConfigSync.Resolutions
import Paperboat.Lib.Transition

/-!
# Paths that leave the manifest

When a path of the baseline is no longer managed, a round that publishes adds it to the paths to forget.
The list belongs to the first plan. A round that counts a resolution plans again without it, and the
baseline that it stores has only what the second snapshot selects: the path stays in the repository and
no later round knows about it.

A run is a sequence of rounds, with revisions of other helpers between them. What the user does during
a round is in `homeAtAdd`, the files that `chezmoi add` finds, and `homeAtEnd`, the files of the second
snapshot.
-/

namespace Paperboat.ConfigSync.Forgetting

/-- The stored baseline and the rendered files of the published revision. -/
structure State where
  baseline : Baseline
  tree : FileStates

/-- A round, with what changes in the home while it works. -/
structure Publication where
  attempt : Attempt
  homeAtAdd : FileStates
  homeAtEnd : FileStates
  skippedAtEnd : List String
  /-- The hash of the commit. -/
  commitID : String

/-- The steps. -/
inductive Event where
  /-- Another writer publishes. -/
  | publish (tree : FileStates)
  /-- A successful round in a mode that publishes, with writes. -/
  | round (p : Publication)

namespace Publication

/-- The round on a state: it reads the stored baseline and the published revision. -/
def on (p : Publication) (s : State) : Attempt where
  round := { p.attempt.round with baseline := s.baseline }
  home := p.attempt.home
  source := s.tree
  selects := p.attempt.selects
  manages_of_selects := p.attempt.manages_of_selects
  skippedHome := p.attempt.skippedHome
  skippedSource := p.attempt.skippedSource

variable (p : Publication) (s : State)

/-- The content of the commit. -/
def tree : FileStates :=
  Round.forgetAll (Round.addAll s.tree p.homeAtAdd (p.on s).plan.publishUpdates)
    (p.on s).plan.publishDeletes

/-- The baseline that `PublicationCommitted` stores; without changes there is no commit. -/
def baseline : Baseline :=
  let clean := FinMap.same (p.tree s) s.tree
  let second := snapshotOf p.attempt.selects p.skippedAtEnd p.homeAtEnd
  (p.on s).round.pendingBaseline (p.on s).localFiles (p.on s).remoteFiles second
    (if clean then (p.on s).remoteFiles else second)
    (if clean then p.attempt.round.remoteRevision else p.commitID)

end Publication

/-- One step. -/
def step (s : State) : Event → Option State
  | .publish tree => some { s with tree }
  | .round p =>
    if p.attempt.round.mode ≠ .pullOnly ∧ p.attempt.round.writesEnabled = true then
      some ⟨p.baseline s, p.tree s⟩
    else none

/-- A path of the baseline that the manifest of the round does not manage. -/
def Leaves (s : State) (p : Publication) (path : String) : Prop :=
  s.baseline.files.lookup path ≠ none ∧ p.attempt.round.manages path = false

/-- After the round a path that leaves is not in the repository, or is still recorded. -/
def Forgets (s : State) (e : Event) : Prop :=
  ∀ p s', e = .round p → step s e = some s' → ∀ path, Leaves s p path →
    s'.tree.lookup path = none ∨ s'.baseline.files.lookup path ≠ none

/-- The round counts no resolution, or no path that leaves is in the repository. -/
def PlansOnce (s : State) (e : Event) : Prop :=
  ∀ p s', e = .round p → step s e = some s' → (p.on s).resolved = [] ∨
    ∀ path, Leaves s p path → s.tree.lookup path = none

variable {p : Publication} {s : State} {path : String}

/-- A path that leaves is in no list but that of the paths to forget, which only the first plan has,
and the next baseline does not have it. -/
lemma Leaves.lookup (h : Leaves s p path) (hmode : p.attempt.round.mode ≠ .pullOnly)
    (hwrites : p.attempt.round.writesEnabled = true) :
    (p.tree s).lookup path = (if (p.on s).resolved = [] then none else s.tree.lookup path) ∧
      (p.baseline s).files.lookup path = none := by
  have hselects : p.attempt.selects path ≠ true := fun hselects => by
    simpa [h.2] using p.attempt.manages_of_selects path hselects
  have heq : (p.on s).localFiles.lookup path = (p.on s).remoteFiles.lookup path := by
    simp [Attempt.localFiles, Attempt.remoteFiles, lookup_snapshotOf, Publication.on, hselects]
  have hverdict : (p.on s).verdict path = .unchanged := by
    by_contra hno
    exact Round.ne_of_verdict hno heq
  have hmerged : (p.on s).merged.lookup path = none := by
    by_contra hno
    obtain ⟨state, hstate⟩ := Option.ne_none_iff_exists'.mp hno
    exact (Attempt.of_merged hstate).2.2.1 heq
  have hmode' : (p.on s).round.effectiveMode ≠ .pullOnly := by
    simpa [Round.effectiveMode, Publication.on, hwrites] using hmode
  obtain ⟨hupdates, hdeletes, -⟩ :=
    @Round.plan_has (p.on s).round (p.on s).localFiles (p.on s).remoteFiles path
  have hupdated : path ∉ (p.on s).plan.publishUpdates := by
    intro hmem
    rcases hupdates.mp hmem with ⟨-, hv⟩ | ⟨-, hm⟩
    · cases hverdict.symm.trans hv
    · exact hm hmerged
  have hdeleted : path ∈ (p.on s).plan.publishDeletes ↔ (p.on s).resolved = [] := by
    refine ⟨fun hmem => ?_, fun hres => hdeletes.mpr (.inr ⟨hres, hwrites, hmode', h⟩)⟩
    rcases hdeletes.mp hmem with ⟨-, hv⟩ | ⟨hres, -⟩
    · cases hverdict.symm.trans hv
    · exact hres
  have hconflict : path ∉ (p.on s).plan.conflicts.map PathSummary.path := by
    simp [Attempt.mem_conflicts, hverdict]
  constructor
  · rw [Publication.tree, Round.forgetAll, lookup_writeAll_map _ _ (fun _ => none), Round.addAll,
      lookup_writeAll_map, if_neg hupdated]
    simp only [hdeleted]
  · rw [Publication.baseline, Round.lookup_pendingBaseline]
    refine (if_neg hconflict).trans ((if_pos ⟨hmode, hwrites⟩).trans ?_)
    rw [lookup_snapshotOf, if_neg fun hsel => hselects hsel.1]

/-- In a run the paths that leave the manifest are forgotten exactly when every round plans once or
finds none of them in the repository. -/
theorem paths_forgotten_iff (s : State) (events : List Event) :
    Meets step Forgets s events ↔ Meets step PlansOnce s events := by
  have hstep : ∀ s e, Forgets s e ↔ PlansOnce s e := by
    intro s e
    refine forall₄_congr fun p s' he hs' => ?_
    subst he
    obtain ⟨⟨hmode, hwrites⟩, heq⟩ := Option.ite_none_right_eq_some.mp hs'
    cases heq
    by_cases hresolved : (p.on s).resolved = []
    · simp only [hresolved, true_or, iff_true]
      intro path h
      exact .inl (by rw [(h.lookup hmode hwrites).1, if_pos hresolved])
    · simp only [hresolved, false_or]
      refine forall₂_congr fun path h => ?_
      obtain ⟨htree, hbaseline⟩ := h.lookup hmode hwrites
      simp only [htree, hbaseline, hresolved, if_false, ne_eq, not_true, or_false]
  exact ⟨Meets.mono fun s e => (hstep s e).mp, Meets.mono fun s e => (hstep s e).mpr⟩

/-- The path `a` has left the manifest, and the user decides about the conflict of `b`. -/
def leaving : Publication where
  attempt :=
    { Attempt.bothChanged .bidirectional .keepLocal with
      round := { (Attempt.bothChanged .bidirectional .keepLocal).round with
        manages := fun path => path ≠ "a" }
      selects := fun path => path ≠ "a"
      manages_of_selects := fun _ h => h }
  homeAtAdd := Undisturbed.twoFiles "local" "local"
  homeAtEnd := Undisturbed.twoFiles "local" "local"
  skippedAtEnd := []
  commitID := "2"

/-- The round that resolves the conflict leaves `a` in the repository and drops it from the baseline. -/
theorem resolution_keeps_path : ∃ s', step
    ⟨⟨Undisturbed.twoFiles "base" "base", "0", ∅⟩, Undisturbed.twoFiles "remote" "remote"⟩
      (.round leaving) = some s' ∧ leaving.attempt.round.manages "a" = false ∧
        s'.tree.lookup "a" ≠ none ∧ s'.baseline.files.lookup "a" = none := by
  refine ⟨_, rfl, ?_⟩
  decide +kernel

end Paperboat.ConfigSync.Forgetting

import Paperboat.ConfigSync.Rounds
import Paperboat.Lib.Transition

/-!
# Edits during a round

`Sound` is what the baseline is for: every managed path outside the conflicts has as its ancestor the
state it has in the stored revision, every ancestor is a state that was published, and nothing that
was not published is overwritten. An edit between the two snapshots breaks it, because the second
snapshot becomes the ancestor although the commit was made from the first. `Careful` rules such edits
out, and snapshots that skip files.
-/

namespace Paperboat.ConfigSync

open List FinMap Option Reconciling

/-! ### Soundness and careful steps -/

namespace Workstation

/-- What the stored baseline is for. -/
structure Sound (w : Workstation) : Prop where
  /-- The ancestor of a managed path outside the conflicts is its state in the stored revision. -/
  ancestor_eq : ∀ path, w.selects path = true → path ∉ w.conflicts →
    w.baseline.files.lookup path = w.contents w.baseline.remoteRevision path
  /-- Every ancestor was published. -/
  ancestor_published : ∀ path state, w.baseline.files.lookup path = some state →
    ∃ id ∈ w.published, w.contents id path = some state
  /-- Every file that an applied or deleted file has replaced was published. -/
  overwritten_published : ∀ path state, (path, state) ∈ w.overwritten →
    ∃ id ∈ w.published, w.contents id path = some state

/-- An edit of the path is still taken into account by the round: the path waits to be added. -/
def Pending (c : Reconciling) (path : String) : Phase → Prop
  | .apply todo => path ∈ c.plan.publishUpdates ∧ path ∉ todo.map Prod.fst
  | .add _ todo => path ∈ todo
  | .prepared _ _ => True
  | .landed _ => True
  | _ => False

instance (c : Reconciling) (path : String) (phase : Phase) : Decidable (Pending c path phase) := by
  unfold Pending
  split <;> infer_instance

/-- A file is edited outside the time between the two snapshots of a round, while it waits to be added,
or where the round does not record it; and no snapshot skips a file. -/
def Careful (w : Workstation) : RoundAction → Prop
  | .edit path _ =>
    match w.reconciling with
    | none => True
    | some (c, phase) =>
      c.manifest.selects path = false ∨ path ∈ c.conflicts ∨ Pending c path phase
  | .reconcile _ skippedRemote skippedLocal => skippedRemote = [] ∧ skippedLocal = []
  | .secondSnapshot skipped => skipped = []
  | _ => True

/-- The pending baseline of a round. -/
structure PendingOK (w : Workstation) (c : Reconciling) (pending : Baseline) : Prop where
  known : w.revisions.lookup pending.remoteRevision ≠ none
  recorded : ∀ path, c.Records path →
    pending.files.lookup path = w.contents pending.remoteRevision path
  origin : ∀ path state, pending.files.lookup path = some state →
    w.contents pending.remoteRevision path = some state ∨
      w.baseline.files.lookup path = some state

/-- The home and the repository in each phase of a round, on the recorded paths. -/
def PhaseOK (w : Workstation) (c : Reconciling) : Phase → Prop
  | .apply todo =>
    (∀ e ∈ todo, e ∈ c.round.applyWrites c.localFiles c.remoteFiles c.source) ∧
      ∀ path, c.Records path →
        (path ∈ todo.map Prod.fst → w.home.lookup path = c.localFiles.lookup path ∨
          w.home.lookup path = c.target path) ∧
        (path ∉ todo.map Prod.fst → w.home.lookup path = c.target path ∨
          path ∈ c.plan.publishUpdates)
  | .add tree todo =>
    (∀ path ∈ todo, path ∈ c.plan.publishUpdates) ∧
      ∀ path, c.Records path →
        (path ∉ c.plan.publishUpdates → w.home.lookup path = c.target path ∧
          tree.lookup path = c.source.lookup path) ∧
        (path ∈ c.plan.publishUpdates → path ∈ todo ∨ w.home.lookup path = tree.lookup path)
  | .forget tree todo =>
    (∀ path ∈ todo, path ∈ c.plan.publishDeletes) ∧
      ∀ path, c.Records path →
        (path ∉ c.plan.publishUpdates → w.home.lookup path = c.target path ∧
          (tree.lookup path = c.source.lookup path ∨
            tree.lookup path = none ∧ path ∈ c.plan.publishDeletes) ∧
          (path ∈ c.plan.publishDeletes → path ∈ todo ∨ tree.lookup path = none)) ∧
        (path ∈ c.plan.publishUpdates → w.home.lookup path = tree.lookup path)
  | .commit tree => ∀ path, c.Records path → w.home.lookup path = tree.lookup path
  | .snapshot revision clean =>
    w.revisions.lookup revision ≠ none ∧ (clean = true → revision ∈ w.published) ∧
      ∀ path, c.Records path → w.home.lookup path = w.contents revision path
  | .prepared pending hasChanges =>
    w.PendingOK c pending ∧ (hasChanges = false → pending.remoteRevision ∈ w.published)
  | .landed pending => w.PendingOK c pending ∧ pending.remoteRevision ∈ w.published

/-- A running round. -/
structure RoundOK (w : Workstation) (c : Reconciling) : Prop where
  regular : c.Regular
  baseline_eq : c.round.baseline = w.baseline
  source_eq : ∃ rev, w.revisions.lookup c.round.remoteRevision = some rev ∧ rev.files = c.source
  published : c.round.remoteRevision ∈ w.published

/-- The invariant of the careful runs. -/
structure Inv (w : Workstation) : Prop where
  sound : w.Sound
  baseline_known : (∃ path, w.selects path = true) → w.revisions.lookup w.baseline.remoteRevision ≠ none
  published_known : ∀ id ∈ w.published, w.revisions.lookup id ≠ none
  head_published : w.head ∈ w.published
  round : ∀ c phase, w.reconciling = some (c, phase) → w.RoundOK c ∧ w.PhaseOK c phase

/-! ### Growing repositories -/

/-- The second repository has the revisions of the first. -/
structure Grows (w w' : Workstation) : Prop where
  lookup_eq : ∀ id, w.revisions.lookup id ≠ none → w'.revisions.lookup id = w.revisions.lookup id
  published : ∀ id ∈ w.published, id ∈ w'.published

variable {id : String}

lemma lookup_insert_of_known {revisions : FinMap String Revision} {rev : Revision}
    (hnew : revisions.lookup id = none) {other : String} (hknown : revisions.lookup other ≠ none) :
    (revisions.insert id rev).lookup other = revisions.lookup other := by
  rw [lookup_insert_eq, if_neg]
  rintro rfl
  exact hknown hnew

variable {w w' : Workstation}

lemma Grows.known (h : w.Grows w') (hknown : w.revisions.lookup id ≠ none) :
    w'.revisions.lookup id ≠ none :=
  (h.lookup_eq id hknown).trans_ne hknown

lemma Grows.contents_eq (h : w.Grows w') (hknown : w.revisions.lookup id ≠ none) (path : String) :
    w'.contents id path = w.contents id path := by
  rw [contents, contents, h.lookup_eq id hknown]

variable {path : String}

lemma Grows.exists_published (h : w.Grows w') (hi : w.Inv) {state : FileState}
    (hp : ∃ id ∈ w.published, w.contents id path = some state) :
    ∃ id ∈ w'.published, w'.contents id path = some state := by
  obtain ⟨id, hid, hstate⟩ := hp
  exact ⟨id, h.published id hid, (h.contents_eq (hi.published_known id hid) path).trans hstate⟩

/-- New revisions keep the baseline sound. -/
lemma Grows.sound (h : w.Grows w') (hi : w.Inv) (hb : w'.baseline = w.baseline)
    (hs : w'.selects = w.selects) (hc : w'.conflicts = w.conflicts) (ho : w'.overwritten = w.overwritten) :
    w'.Sound where
  ancestor_eq := by
    rw [hb, hs, hc]
    intro path hsel hno
    rw [h.contents_eq (hi.baseline_known ⟨path, hsel⟩)]
    exact hi.sound.ancestor_eq path hsel hno
  ancestor_published := by
    rw [hb]
    exact fun path state hp => h.exists_published hi (hi.sound.ancestor_published path state hp)
  overwritten_published := by
    rw [ho]
    exact fun path state hp => h.exists_published hi (hi.sound.overwritten_published path state hp)

variable {c : Reconciling} {pending : Baseline}

lemma PendingOK.grows (h : w.PendingOK c pending) (hg : w.Grows w') (hb : w'.baseline = w.baseline) :
    w'.PendingOK c pending where
  known := hg.known h.known
  recorded := fun path hp => (h.recorded path hp).trans (hg.contents_eq h.known path).symm
  origin := by
    intro path state hp
    rw [hg.contents_eq h.known, hb]
    exact h.origin path state hp

variable {phase : Phase}

lemma PhaseOK.grows (h : w.PhaseOK c phase) (hg : w.Grows w') (hh : w'.home = w.home)
    (hb : w'.baseline = w.baseline) : w'.PhaseOK c phase := by
  cases phase with
  | apply | add | forget | commit => simpa only [PhaseOK, hh] using h
  | snapshot =>
    obtain ⟨hknown, hclean, hhome⟩ := h
    refine ⟨hg.known hknown, fun hc => hg.published _ (hclean hc), ?_⟩
    intro path hp
    rw [hh, hg.contents_eq hknown]
    exact hhome path hp
  | prepared => exact ⟨h.1.grows hg hb, fun hc => hg.published _ (h.2 hc)⟩
  | landed => exact ⟨h.1.grows hg hb, hg.published _ h.2⟩

lemma RoundOK.grows (h : w.RoundOK c) (hg : w.Grows w') (hb : w'.baseline = w.baseline) :
    w'.RoundOK c where
  regular := h.regular
  baseline_eq := h.baseline_eq.trans hb.symm
  source_eq := by
    obtain ⟨rev, hrev, hfiles⟩ := h.source_eq
    exact ⟨rev, by rw [hg.lookup_eq _ (by simp [hrev])]; exact hrev, hfiles⟩
  published := hg.published _ h.published

lemma Inv.phase_step (h : w.Inv) {phase' : Phase} {home : FileStates} {overwritten : List (String × FileState)}
    (hr : w.RoundOK c) (ho : ∀ path state, (path, state) ∈ overwritten →
      ∃ id ∈ w.published, w.contents id path = some state)
    (hp : PhaseOK { w with home, overwritten, reconciling := some (c, phase') } c phase') :
    Inv { w with home, overwritten, reconciling := some (c, phase') } :=
  { h with
    sound := { h.sound with overwritten_published := ho }
    round := by
      rintro _ _ ⟨⟩
      exact ⟨{ hr with }, hp⟩ }

/-- The round of a step that goes on with it. -/
lemma Inv.in_round (h : w.Inv) {f : Reconciling × Phase → Option Workstation}
    (hs : w.reconciling.bind f = some w') :
    ∃ c phase, w.RoundOK c ∧ w.PhaseOK c phase ∧ f (c, phase) = some w' := by
  obtain ⟨⟨c, phase⟩, hc, hs⟩ := bind_eq_some_iff.mp hs
  exact ⟨c, phase, (h.round c phase hc).1, (h.round c phase hc).2, hs⟩

/-! ### The steps of a round -/

variable {state : Option FileState}

/-- What a round overwrites without a merge was published before. -/
lemma RoundOK.replaced_published (h : w.Inv) (hr : w.RoundOK c)
    {todo : List (String × Option FileState)} (hp : w.PhaseOK c (.apply ((path, state) :: todo)))
    (hm : c.merged.lookup path = none) {old : FileState} (hold : w.home.lookup path = some old) :
    ∃ id ∈ w.published, w.contents id path = some old := by
  obtain ⟨-, -, happly, hdelete, hconflicts⟩ := hr.regular.has path
  have hv : c.verdict path = .applyRemote ∨ c.verdict path = .deleteLocal := by
    rcases mem_applyWrites.mp (hp.1 _ mem_cons_self) with ⟨h₁, -⟩ | ⟨h₁, -⟩ | ⟨h₁, -⟩
    · exact .inl (happly.mp h₁)
    · exact .inr (hdelete.mp h₁)
    · exact absurd hm h₁
  have hrecords : c.Records path := by
    refine ⟨hr.regular.selects_of_verdict ?_, ?_⟩
    · rcases hv with hv | hv <;> simp [hv]
    · rw [Reconciling.conflicts, hconflicts]
      rintro ⟨⟨reason, hreason⟩, -⟩
      rcases hv with hv | hv <;> simp [hv] at hreason
  have hbase : c.round.baseline.files.lookup path = c.localFiles.lookup path := by
    rcases hv with hv | hv
    · exact (classify_eq_applyRemote.mp hv).2.2.1
    · exact (classify_eq_deleteLocal.mp hv).2.2.1
  rcases (hp.2 path hrecords).1 (by simp) with hlocal | htarget
  · -- the home still has what the first snapshot saw, which is the ancestor
    apply h.sound.ancestor_published
    rw [← hr.baseline_eq, hbase, ← hlocal, hold]
  · -- the path was written before, from the remote revision
    obtain ⟨rev, hrev, hfiles⟩ := hr.source_eq
    refine ⟨c.round.remoteRevision, hr.published, ?_⟩
    rw [contents, hrev, bind_some, hfiles]
    rw [hold] at htarget
    unfold target at htarget
    rw [if_neg (by simp [hm])] at htarget
    split_ifs at htarget with hd ha
    · exact htarget.symm
    · rcases hv with hv | hv
      · exact absurd (happly.mpr hv) ha
      · exact absurd (hdelete.mpr hv) hd

section
variable (h : w.Inv) (hr : w.RoundOK c) (hp : w.PhaseOK c phase)
include h hr hp

/-- Applying the plan keeps the invariant. -/
lemma Inv.write (hs : w.write c phase = some w') : w'.Inv := by
  unfold Workstation.write at hs
  split at hs
  · cases hs
    refine h.phase_step hr h.sound.overwritten_published ?_
    refine ⟨fun _ hmem => hmem, fun path hrec => ⟨fun hno => ⟨?_, rfl⟩, fun hmem => .inl hmem⟩⟩
    exact ((hp.2 path hrec).2 (by simp)).resolve_right hno
  · next path state todo =>
    cases hs
    have htarget : state = c.target path := hr.regular.write_eq_target (hp.1 _ mem_cons_self)
    refine h.phase_step hr ?_ ?_
    · intro q old hmem
      rcases mem_append.mp hmem with hmem | hmem
      · rcases hold : w.home.lookup path with _ | _
        · simp [hold] at hmem
        simp only [hold, isNone_iff_eq_none] at hmem
        split at hmem
        · next hm =>
          obtain ⟨rfl, rfl⟩ := Prod.mk.inj (mem_singleton.mp hmem)
          exact hr.replaced_published h hp hm hold
        · simp at hmem
      · exact h.sound.overwritten_published q old hmem
    · refine ⟨fun e he => hp.1 e (mem_cons_of_mem _ he), fun q hrec => ?_⟩
      obtain ⟨h₁, h₂⟩ := hp.2 q hrec
      simp only [lookup_put]
      by_cases hq : q = path
      · subst hq
        rw [if_pos rfl]
        exact ⟨fun _ => .inr htarget, fun _ => .inl htarget⟩
      · rw [if_neg hq]
        simp only [map_cons, mem_cons, hq, false_or] at h₁ h₂
        exact ⟨h₁, h₂⟩
  · cases hs

/-- So does adding files to the work tree. -/
lemma Inv.add (hs : w.add c phase = some w') : w'.Inv := by
  unfold Workstation.add at hs
  split at hs
  · cases hs
    refine h.phase_step hr h.sound.overwritten_published ?_
    refine ⟨fun _ hmem => hmem, fun path hrec => ⟨fun hno => ?_, fun hmem => ?_⟩⟩
    · obtain ⟨h₁, h₂⟩ := (hp.2 path hrec).1 hno
      exact ⟨h₁, .inl h₂, fun hmem => .inl hmem⟩
    · exact ((hp.2 path hrec).2 hmem).resolve_left (by simp)
  · next tree path todo =>
    split at hs
    · cases hs
      refine h.phase_step hr h.sound.overwritten_published ?_
      refine ⟨fun q hq => hp.1 q (mem_cons_of_mem _ hq), fun q hrec => ?_⟩
      obtain ⟨h₁, h₂⟩ := hp.2 q hrec
      simp only [lookup_put]
      by_cases hq : q = path
      · subst hq
        exact ⟨fun hno => absurd (hp.1 q mem_cons_self) hno, fun _ => .inr (by simp)⟩
      simp only [hq, if_false]
      refine ⟨h₁, fun hmem => ?_⟩
      rcases h₂ hmem with hin | heq
      · exact .inl ((mem_cons.mp hin).resolve_left hq)
      · exact .inr heq
    · cases hs
  · cases hs

/-- So does forgetting files. -/
lemma Inv.forget (hs : w.forget c phase = some w') : w'.Inv := by
  unfold Workstation.forget at hs
  split at hs
  · next tree =>
    cases hs
    refine h.phase_step hr h.sound.overwritten_published ?_
    intro path hrec
    change w.home.lookup path = tree.lookup path
    obtain ⟨h₁, h₂⟩ := hp.2 path hrec
    by_cases hu : path ∈ c.plan.publishUpdates
    · exact h₂ hu
    obtain ⟨hhome, htree, hgone⟩ := h₁ hu
    by_cases hd : path ∈ c.plan.publishDeletes
    · rw [hhome, (hr.regular.of_publishDeletes hrec hd).1]
      exact ((hgone hd).resolve_left (by simp)).symm
    · rw [hhome, hr.regular.target_eq_source hrec hu hd]
      exact (htree.resolve_right fun hno => hd hno.2).symm
  · next tree path todo =>
    cases hs
    have hd : path ∈ c.plan.publishDeletes := hp.1 path mem_cons_self
    refine h.phase_step hr h.sound.overwritten_published ?_
    refine ⟨fun q hq => hp.1 q (mem_cons_of_mem _ hq), fun q hrec => ?_⟩
    obtain ⟨h₁, h₂⟩ := hp.2 q hrec
    simp only [lookup_put]
    by_cases hq : q = path
    · subst hq
      simp only [if_true]
      refine ⟨fun hno => ⟨(h₁ hno).1, .inr ⟨trivial, hd⟩, fun _ => .inr trivial⟩, fun hu => ?_⟩
      exact absurd hu (hr.regular.of_publishDeletes hrec hd).2
    · simp only [hq, if_false]
      refine ⟨fun hno => ?_, h₂⟩
      obtain ⟨hhome, htree, hgone⟩ := h₁ hno
      refine ⟨hhome, htree, fun hmem => ?_⟩
      rcases hgone hmem with hin | heq
      · exact .inl ((mem_cons.mp hin).resolve_left hq)
      · exact .inr heq
  · cases hs

/-- So does the commit. -/
lemma Inv.commit (hs : w.commit c id phase = some w') : w'.Inv := by
  unfold Workstation.commit at hs
  split at hs
  · next tree =>
    split at hs
    · next hsame =>
      cases hs
      obtain ⟨rev, hrev, hfiles⟩ := hr.source_eq
      refine h.phase_step hr h.sound.overwritten_published ?_
      refine ⟨by simp [hrev], fun _ => hr.published, fun path hrec => ?_⟩
      change w.home.lookup path = w.contents _ path
      rw [contents, hrev, bind_some, hfiles, ← same_iff.mp hsame path]
      exact hp path hrec
    · split at hs
      · cases hs
      rename_i hnew
      cases hs
      have hnew' : w.revisions.lookup id = none := by simpa using hnew
      have hg : w.Grows ({ w with revisions := w.revisions.insert id ⟨tree, c.manifest⟩ }.goto c
          (.snapshot id false)) :=
        ⟨fun other hknown => lookup_insert_of_known hnew' hknown, fun _ hmem => hmem⟩
      refine ⟨hg.sound h rfl rfl rfl rfl, fun hsel => hg.known (h.baseline_known hsel),
        fun other hmem => hg.known (h.published_known other hmem), h.head_published, ?_⟩
      rintro _ _ ⟨⟩
      refine ⟨hr.grows hg rfl, by simp [goto], by simp, fun path hrec => ?_⟩
      change w.home.lookup path = _
      rw [hp path hrec]
      simp [contents, goto]
  · cases hs

/-- So does the second snapshot. -/
lemma Inv.secondSnapshot (hs : w.secondSnapshot c [] phase = some w') : w'.Inv := by
  unfold Workstation.secondSnapshot at hs
  split at hs
  · next revision clean =>
    obtain ⟨hknown, hclean, hhome⟩ := hp
    obtain ⟨-, hanc, -⟩ := hr.regular.plain.ancestors_eq c.localFiles c.remoteFiles
    -- outside the conflicts the pending baseline is the second snapshot
    have hentry : ∀ remoteFiles path, (c.round.pendingBaseline c.localFiles c.remoteFiles
        (snapshotOf c.manifest.selects [] w.home) remoteFiles revision).files.lookup path =
          if path ∈ c.conflicts then w.baseline.files.lookup path
          else if c.manifest.selects path = true then w.home.lookup path else none := by
      intro remoteFiles path
      rw [Round.lookup_pendingBaseline, hanc, hr.baseline_eq, lookup_snapshotOf]
      simp [hr.regular.plain.mode_eq, hr.regular.plain.writes, Reconciling.conflicts, plan]
    cases hs
    refine h.phase_step hr h.sound.overwritten_published ?_
    refine ⟨⟨hknown, fun path hrec => ?_, fun path state hstate => ?_⟩, fun hno => ?_⟩
    · rw [hentry, if_neg hrec.2, if_pos hrec.1]
      exact hhome path hrec
    · rw [hentry] at hstate
      split_ifs at hstate with hconf hsel
      · exact .inr hstate
      · exact .inl ((hhome path ⟨hsel, hconf⟩).symm.trans hstate)
    · exact hclean (by simpa using hno)
  · cases hs

/-- So does the push. -/
lemma Inv.push (hs : w.push c phase = some w') : w'.Inv := by
  unfold Workstation.push at hs
  split at hs
  · next pending =>
    split at hs
    · cases hs
      have hg : w.Grows ({ w with
          head := pending.remoteRevision
          published := pending.remoteRevision :: w.published }.goto c (.landed pending)) :=
        ⟨fun _ _ => rfl, fun _ hmem => mem_cons_of_mem _ hmem⟩
      refine ⟨hg.sound h rfl rfl rfl rfl, h.baseline_known, ?_, mem_cons_self, ?_⟩
      · intro id hmem
        rcases mem_cons.mp hmem with rfl | hmem
        · exact hp.1.known
        · exact h.published_known id hmem
      · rintro _ _ ⟨⟩
        exact ⟨hr.grows hg rfl, hp.1.grows hg rfl, mem_cons_self⟩
    · cases hs
  · cases hs

end

/-- A baseline is stored for a published revision. -/
lemma Inv.store (h : w.Inv) (hp : w.PendingOK c pending) (hpub : pending.remoteRevision ∈ w.published) :
    Inv { w with
      baseline := pending
      reconciling := none
      conflicts := c.conflicts
      selects := c.manifest.selects } where
  sound :=
    { ancestor_eq := fun path hsel hno => hp.recorded path ⟨hsel, hno⟩
      ancestor_published := fun path state hstate => by
        rcases hp.origin path state hstate with hnew | hold
        · exact ⟨_, hpub, hnew⟩
        · exact h.sound.ancestor_published path state hold
      overwritten_published := h.sound.overwritten_published }
  baseline_known := fun _ => hp.known
  published_known := h.published_known
  head_published := h.head_published
  round := by rintro _ _ ⟨⟩

lemma Inv.committed (h : w.Inv) (hp : w.PhaseOK c phase) (hs : w.committed c phase = some w') :
    w'.Inv := by
  unfold Workstation.committed at hs
  split at hs
  · exact some.inj hs ▸ h.store hp.1 (hp.2 rfl)
  · exact some.inj hs ▸ h.store hp.1 hp.2
  · cases hs

/-- The start of a round keeps the invariant. -/
lemma Inv.reconcile (h : w.Inv) {env : Surroundings} (hs : w.reconcile env [] [] = some w') : w'.Inv := by
  unfold Workstation.reconcile at hs
  split at hs
  · next rev hnone hrev =>
    set localFiles := snapshotOf rev.manifest.selects [] w.home with hlocal
    set remoteFiles := snapshotOf rev.manifest.selects [] rev.files with hremote
    set c : Reconciling := ⟨env.round w.head w.baseline rev.manifest, rev.manifest, rev.files,
      localFiles, remoteFiles, w.home⟩ with hcdef
    cases hs
    have hregular : c.Regular := by
      refine ⟨⟨rfl, rfl, ?_⟩, rfl, fun path hsel => ?_, fun path => ?_⟩
      · simp only [hcdef, Surroundings.round]
        split <;> rfl
      · simp [hcdef, hlocal, lookup_snapshotOf] at hsel ⊢
        simp [hsel]
      · simp [hcdef, hremote, lookup_snapshotOf]
    refine { h with sound := { h.sound with }, round := ?_ }
    rintro _ _ ⟨⟩
    refine ⟨⟨hregular, rfl, ⟨rev, hrev, rfl⟩, h.head_published⟩, fun e he => he, fun path hrec => ?_⟩
    have hhome : w.home.lookup path = c.localFiles.lookup path := by
      have hsel : rev.manifest.selects path = true := hrec.1
      simp [hcdef, hlocal, lookup_snapshotOf, hsel]
    exact ⟨fun _ => .inl hhome, fun hno => .inl (hhome.trans (target_of_not_written hno).symm)⟩
  · cases hs

/-- So does a careful edit. -/
lemma Inv.edit (h : w.Inv) (hcareful : w.Careful (.edit path state)) :
    Inv { w with home := w.home.put path state } := by
  refine { h with sound := { h.sound with }, round := fun c phase hc => ?_ }
  change w.reconciling = some (c, phase) at hc
  obtain ⟨hr, hp⟩ := h.round c phase hc
  refine ⟨{ hr with }, ?_⟩
  simp only [Careful, hc] at hcareful
  -- an edit of a recorded path waits to be added
  have hpending : c.Records path → Pending c path phase := fun hrec =>
    (hcareful.resolve_left (by simp [hrec.1])).resolve_left hrec.2
  cases phase with
  | apply =>
    refine ⟨hp.1, fun q hrec => ?_⟩
    obtain ⟨h₁, h₂⟩ := hp.2 q hrec
    simp only [lookup_put]
    by_cases hq : q = path
    · subst hq
      obtain ⟨hu, hno⟩ := hpending hrec
      exact ⟨fun hmem => absurd hmem hno, fun _ => .inr hu⟩
    · simp only [hq, if_false]
      exact ⟨h₁, h₂⟩
  | add tree todo =>
    refine ⟨hp.1, fun q hrec => ?_⟩
    obtain ⟨h₁, h₂⟩ := hp.2 q hrec
    simp only [lookup_put]
    by_cases hq : q = path
    · subst hq
      have hmem : q ∈ todo := hpending hrec
      exact ⟨fun hno => absurd (hp.1 q hmem) hno, fun _ => .inl hmem⟩
    · simp only [hq, if_false]
      exact ⟨h₁, h₂⟩
  | forget =>
    refine ⟨hp.1, fun q hrec => ?_⟩
    have hq : q ≠ path := fun hq => hpending (hq ▸ hrec)
    simpa only [lookup_put, hq, if_false] using hp.2 q hrec
  | commit =>
    intro q hrec
    have hq : q ≠ path := fun hq => hpending (hq ▸ hrec)
    simpa only [lookup_put, hq, if_false] using hp q hrec
  | snapshot =>
    refine ⟨hp.1, hp.2.1, fun q hrec => ?_⟩
    have hq : q ≠ path := fun hq => hpending (hq ▸ hrec)
    rw [lookup_put, if_neg hq]
    exact hp.2.2 q hrec
  | prepared | landed => exact ⟨{ hp.1 with }, hp.2⟩

lemma Inv.publish (h : w.Inv) {revision : Revision} (hnew : w.revisions.lookup id = none) : Inv { w with
      revisions := w.revisions.insert id revision
      head := id
      published := id :: w.published } := by
  have hg : w.Grows { w with
      revisions := w.revisions.insert id revision
      head := id
      published := id :: w.published } :=
    ⟨fun other hknown => lookup_insert_of_known hnew hknown, fun _ hmem => mem_cons_of_mem _ hmem⟩
  refine ⟨hg.sound h rfl rfl rfl rfl, fun hsel => hg.known (h.baseline_known hsel),
    fun other hmem => ?_, mem_cons_self, fun c phase hc => ?_⟩
  · rcases mem_cons.mp hmem with rfl | hmem
    · simp
    · exact hg.known (h.published_known other hmem)
  · obtain ⟨hr, hp⟩ := h.round c phase hc
    exact ⟨hr.grows hg rfl, hp.grows hg rfl rfl⟩

/-! ### Runs -/

instance (w : Workstation) (a : RoundAction) : Decidable (w.Careful a) := by
  unfold Careful
  repeat' split
  all_goals infer_instance

lemma keepsUnder_inv : KeepsUnder Workstation.step Careful Inv := by
  intro w a w' h hcareful hs
  cases a with
  | edit => exact some.inj hs ▸ h.edit hcareful
  | publish =>
    simp only [step] at hs
    split at hs
    · cases hs
    · next hnew => exact some.inj hs ▸ h.publish (by simpa using hnew)
  | reconcile =>
    obtain ⟨rfl, rfl⟩ := hcareful
    exact h.reconcile hs
  | write =>
    obtain ⟨c, phase, hr, hp, hs⟩ := h.in_round hs
    exact h.write hr hp hs
  | add =>
    obtain ⟨c, phase, hr, hp, hs⟩ := h.in_round hs
    exact h.add hr hp hs
  | forget =>
    obtain ⟨c, phase, hr, hp, hs⟩ := h.in_round hs
    exact h.forget hr hp hs
  | commit =>
    obtain ⟨c, phase, hr, hp, hs⟩ := h.in_round hs
    exact h.commit hr hp hs
  | secondSnapshot skipped =>
    obtain ⟨c, phase, hr, hp, hs⟩ := h.in_round hs
    obtain rfl : skipped = [] := hcareful
    exact h.secondSnapshot hr hp hs
  | push =>
    obtain ⟨c, phase, hr, hp, hs⟩ := h.in_round hs
    exact h.push hr hp hs
  | committed =>
    obtain ⟨c, phase, -, hp, hs⟩ := h.in_round hs
    exact h.committed hp hs
  | abandon =>
    obtain ⟨⟨c, phase⟩, hc, rfl⟩ := map_eq_some_iff.mp hs
    -- the home is no part of the invariant between two rounds
    cases phase <;> exact { h with sound := { h.sound with }, round := by rintro _ _ ⟨⟩ }

/-- A helper before its first round, on a repository with one revision. -/
def start (home : FileStates) (id : String) (revision : Revision) : Workstation where
  home := home
  revisions := (∅ : FinMap String Revision).insert id revision
  head := id
  baseline := ⟨∅, "", ∅⟩
  reconciling := none
  published := [id]
  conflicts := []
  selects := fun _ => false
  overwritten := []

lemma start_inv (home : FileStates) (id : String) (revision : Revision) :
    (start home id revision).Inv where
  sound := ⟨by simp [start], by simp [start], by simp [start]⟩
  baseline_known := by simp [start]
  published_known := by
    intro other hmem
    rw [mem_singleton.mp hmem]
    simp only [start, AList.lookup_insert]
    simp
  head_published := by simp [start]
  round := by simp [start]

/-- A change of the home since the ancestor is seen by the running round: the remote revision has it
already, or it is published or forgotten there (merged files are published), or the path is reported
as a conflict. -/
def Notices (w : Workstation) : Prop :=
  ∀ c phase, w.reconciling = some (c, phase) → ∀ path,
    c.localFiles.lookup path ≠ w.baseline.files.lookup path →
      c.localFiles.lookup path = c.remoteFiles.lookup path ∨ path ∈ c.plan.publishUpdates ∨
        path ∈ c.plan.publishDeletes ∨ path ∈ c.conflicts

/-- A change of the home is published, forgotten or a conflict. -/
lemma Inv.notices (h : w.Inv) : w.Notices := by
  intro c phase hc path hne
  obtain ⟨hr, -⟩ := h.round c phase hc
  obtain ⟨hupdates, hdeletes, -, -, hconflicts⟩ := hr.regular.has path
  rw [← hr.baseline_eq] at hne
  by_cases hm : c.merged.lookup path = none
  · by_contra hno
    push Not at hno
    obtain ⟨hrem, hu, hd, hc⟩ := hno
    rw [hupdates] at hu
    rw [hdeletes] at hd
    rw [Reconciling.conflicts, hconflicts] at hc
    simp only [hm, ne_eq, not_true_eq_false, or_false, and_true, not_or, not_exists] at hu hd hc
    have hd' := hd.1
    unfold verdict Round.plainVerdict classify at hu hd' hc
    grind
  · exact .inr (.inl (hupdates.mpr (.inr hm)))

/-- In every run with careful edits and snapshots that skip nothing, the baseline is always sound, and
every running round sees every change of the home. -/
theorem careful_run_sound (home : FileStates) (id : String) (revision : Revision)
    {actions : List RoundAction} {w : Workstation}
    (hcareful : Meets Workstation.step Careful (start home id revision) actions)
    (hrun : run Workstation.step (start home id revision) actions = some w) :
    w.Sound ∧ w.Notices :=
  have h := keepsUnder_inv.run (start_inv home id revision) hcareful hrun
  ⟨h.sound, h.notices⟩

/-! ### An edit between the snapshots -/

/-- A regular file of one byte. -/
def oneByte (hash : String) : FileState := ⟨hash, 1, .regular 0o644, ""⟩

/-- A manifest that manages every path. -/
def everything : Manifest := ⟨fun _ => true, fun _ => true, fun _ _ => rfl⟩

/-- Surroundings without a resolution authority, in which no text can be merged. -/
def plainSurroundings : Surroundings where
  repositoryID := "r"
  assignmentID := "a"
  authority := false
  safePath _ := true
  digest _ := ""
  git := true
  mergeText _ := .conflict

/-- Home and repository agree on the one file `profile`. -/
def agreeing : Workstation :=
  start ((∅ : FileStates).insert "profile" (oneByte "old")) "1"
    ⟨(∅ : FileStates).insert "profile" (oneByte "old"), everything⟩

/-- The steps of a round in which there is nothing to write, add or forget. -/
def quietRound : List RoundAction :=
  [.write, .add, .forget, .commit "2", .secondSnapshot [], .committed]

/-- `profile` is edited between two rounds, and again while it waits to be added by the second. -/
def editBefore : List RoundAction :=
  [.reconcile plainSurroundings [] []] ++ quietRound ++
    [.edit "profile" (some (oneByte "new")), .reconcile plainSurroundings [] [], .write,
      .edit "profile" (some (oneByte "newer")), .add, .add, .forget, .commit "2",
      .secondSnapshot [], .push, .committed]

/-- The edits are careful: the second round publishes them, and the baseline is sound. -/
theorem editBefore_sound : ∃ w, run Workstation.step agreeing editBefore = some w ∧
      w.contents w.head "profile" = some (oneByte "newer") ∧ w.Sound ∧ w.Notices :=
  exists_and_of_any (by decide +kernel) fun _ hrun => careful_run_sound _ _ _ (by decide +kernel) hrun

/-- `profile` is edited between the two snapshots of a round; the next round follows. -/
def editBetween : List RoundAction :=
  [.reconcile plainSurroundings [] [], .edit "profile" (some (oneByte "new"))] ++ quietRound ++
    [.reconcile plainSurroundings [] [], .write]

/-- The edit becomes the ancestor without having been published, and the next round overwrites it
with the old file. -/
theorem edit_between_snapshots_is_lost : ∃ w, run Workstation.step agreeing editBetween = some w ∧
      w.baseline.files.lookup "profile" = some (oneByte "new") ∧
      w.contents w.baseline.remoteRevision "profile" = some (oneByte "old") ∧
      w.home.lookup "profile" = some (oneByte "old") ∧ ¬ w.Sound := by
  refine exists_of_any (P := fun w => w.baseline.files.lookup "profile" = some (oneByte "new") ∧
    w.contents w.baseline.remoteRevision "profile" = some (oneByte "old") ∧
    w.home.lookup "profile" = some (oneByte "old") ∧ w.selects "profile" = true ∧ w.conflicts = [])
    (by decide +kernel) ?_
  rintro w - ⟨hbase, hrev, hhome, hsel, hconf⟩
  refine ⟨hbase, hrev, hhome, fun hsound => ?_⟩
  have heq := hsound.ancestor_eq "profile" hsel (by simp [hconf])
  rw [hbase, hrev] at heq
  simp [oneByte] at heq

end Workstation

end Paperboat.ConfigSync

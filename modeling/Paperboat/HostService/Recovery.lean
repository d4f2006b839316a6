import Paperboat.HostService.Crashes

/-!
# Runs of an updater

An installation whose updater is started, asked to activate releases, and killed, over and over. In
every run that keeps to the rules each start passes `validate` and leaves a matching pair, and each
counted rollback has restored the version that `update-current.json` then names.
-/

namespace Paperboat.HostService

open UpdateJournal Option World Prog Or

/-! ### Finishing a committed update -/

namespace World

variable {w : World} {e : UpdateJournal}

/-- A committed update with both binaries of the new version, some ways back possibly given up. -/
structure Finishing (w : World) (e : UpdateJournal) : Prop where
  paired : w.Paired e.version
  kept : ∀ b, w.files (.rollback b) = none ∨ w.files (.rollback b) = some e.previousVersion
  reports : ∀ r ∈ w.reports, r.Good
  journal : w.journal = some e
  committed : e.stage = .committed
  valid : e.valid = true
  versions : w.NoRollback ∧ w.before = e.version ∨ w.before = e.previousVersion ∧ w.target = e.version

lemma Finishing.recoverable (h : w.Finishing e) : w.Recoverable := by
  obtain ⟨hvalid, -, -⟩ := valid_iff.mp h.valid
  refine .of_journal h.journal (fun b => ?_) (fun b v hv => ?_) h.reports h.valid
    (fun hstage => absurd h.committed hstage) fun _ => ?_
  · simp [h.paired b]
  · rw [h.paired b] at hv
    exact some.inj hv ▸ hvalid
  · refine ⟨fun b => ?_, h.versions.imp (fun hv => ⟨h.paired, hv⟩) id⟩
    exact (h.kept b).imp (fun hnone => ⟨h.paired b, hnone⟩) inl

lemma Finishing.finalized (h : w.Finishing e) (b : Binary) :
    (w.finalized b).Finishing e ∧ (w.finalized b).files (.rollback b) = none ∧
      ∀ c, w.files (.rollback c) = none → (w.finalized b).files (.rollback c) = none := by
  unfold World.finalized
  rcases hrollback : w.files (.rollback b) with _ | _
  · exact ⟨h, hrollback, fun _ => id⟩
  refine ⟨{ h with paired := fun c => ?_, kept := fun c => ?_, versions := ?_ }, by simp, fun c hc => ?_⟩
  · simpa using h.paired c
  · by_cases hc : c = b
    · simp [hc]
    · simpa [hc] using h.kept c
  · refine h.versions.imp (fun hv => ?_) id
    rw [hv.1 b] at hrollback
    cases hrollback
  · by_cases hcb : c = b
    · simp [hcb]
    · simpa [hcb] using hc

/-- Without rollback files the update is over. -/
lemma Finishing.idle (h : w.Finishing e) (hfinal : w.NoRollback) : w.Idle e.version where
  paired := h.paired
  final := hfinal
  valid := (valid_iff.mp h.valid).1
  journal e' he' := by
    rw [h.journal] at he'
    cases he'
    exact ⟨h.committed, rfl⟩
  recoverable := h.recoverable

end World

section
variable {w : World} {e : UpdateJournal}

/-- `finalizePrevious` ends an update that was committed. -/
lemma safe_finalizePrevious {Q : Bool → World → Prop} (h : w.Finishing e)
    (hQ : ∀ w', w'.Idle e.version → Q true w') :
    finalizePrevious.Safe perform rules Q Recoverable w := by
  obtain ⟨h₁, hworker, -⟩ := h.finalized .worker
  obtain ⟨h₂, hhost, hkeep⟩ := h₁.finalized .host
  unfold finalizePrevious
  rw [safe_bind]
  refine safe_finalizeBinary (fun _ => h.recoverable)
    (fun _ => h.recoverable.same (sameBinaries_previous ..)) ?_
  refine safe_finalizeBinary (fun _ => h₁.recoverable)
    (fun _ => h₁.recoverable.same (sameBinaries_previous ..)) ?_
  refine hQ _ (h₂.idle ?_)
  rintro (_ | _)
  · exact hkeep .worker hworker
  · exact hhost

/-! ### Recovery -/

lemma World.Recoverable.loadJournal (h : w.Recoverable) (ok : Bool) :
    perform w .loadJournal ok = (w, match w.journal with
      | none => .error .notExist
      | some e => .ok e) := by
  cases hj : w.journal with
  | none => simp only [perform, hj]
  | some e => simp only [perform, hj, h.valid e hj, if_true]

/-- A committed update can only be finished. -/
lemma World.Recoverable.finishing (h : w.Recoverable) (he : w.journal = some e)
    (hstage : e.stage = .committed) (hpair : w.Paired e.version) : w.Finishing e := by
  obtain ⟨hslots, hversions⟩ := h.committed e he hstage
  refine ⟨hpair, fun b => ?_, h.reports, he, hstage, h.valid e he, hversions.imp (fun hv => hv.2) id⟩
  rcases hslots b with hfinal | hkept | hback
  · exact inl hfinal.2
  · exact inr hkept
  · exact inl hback.1

/-- A committed update whose check fails under the rules can be rolled back. -/
lemma World.Recoverable.unwinding (h : w.Recoverable) (he : w.journal = some e)
    (hstage : e.stage = .committed)
    (hback : ∀ b, w.files (.installed b) = some e.previousVersion ∨ w.files (.rollback b) ≠ none) :
    w.Unwinding e.previousVersion := by
  obtain ⟨hslots, hversions⟩ := h.committed e he hstage
  have hvalid := h.valid e he
  have hne := version_ne hvalid
  -- a binary whose way back is gone is not of the new version
  have hgone : ∀ b, ¬ (w.files (.installed b) = some e.version ∧ w.files (.rollback b) = none) := by
    rintro b ⟨hnew, hnone⟩
    rcases hback b with hold | hkept
    · rw [hnew] at hold
      exact hne (some.inj hold)
    · exact hkept hnone
  have hghost : w.before = e.previousVersion ∧ w.target = e.version :=
    hversions.resolve_left fun hv => hgone .worker ⟨hv.1 .worker, hv.2.1 .worker⟩
  exact ⟨fun b => (hslots b).resolve_left (hgone b), (valid_iff.mp hvalid).2.1,
    h.releases, h.reports, hghost.1, e, he, hvalid, rfl, hghost.2⟩

variable {version : String}

lemma World.Recoverable.unwinding_host (h : w.Recoverable) (he : w.journal = some e)
    (hstage : e.stage ≠ .committed) (hhost : w.files (.installed .host) = some version) :
    w.Unwinding version := by
  obtain ⟨hprev, hrest, hbefore, htarget⟩ := h.uncommitted e he hstage
  obtain rfl : e.previousVersion = version := by
    rw [hhost] at hprev
    exact (some.inj hprev).symm
  have hvalid := h.valid e he
  exact ⟨hrest, (valid_iff.mp hvalid).2.1, h.releases, h.reports, hbefore, e, he,
    hvalid, rfl, htarget⟩

lemma safe_removeStaged {α : Type} {Q : α → World → Prop} {f : Unit → Update α}
    (h : w.Unwinding version) (named : Bool) (b : Binary)
    (hf : ∀ w', w'.Unwinding version → (f ()).Safe perform rules Q Recoverable w') :
    (removeStaged named b >>= f).Safe perform rules Q Recoverable w := by
  unfold removeStaged
  cases named with
  | false => exact hf w h
  | true => exact safe_call h.recoverable (hf _ (h.same (sameBinaries_staged ..)))

/-- A start ends in an idle state, unless `validate` has refused it, and then runs with the installed
version. -/
def Started (result : Except StartError String) (w : World) : Prop :=
  result ≠ .error .validate ∧ ∃ version, w.Idle version ∧ ∀ v, result = .ok v → v = version

/-- Recovery ends with a running pair of binaries. -/
lemma safe_recover (h : w.Recoverable) (hhost : w.files (.installed .host) = some version) :
    (recover version).Safe perform rules Started Recoverable w := by
  unfold recover
  refine safe_call (fun _ => h) ?_
  rw [h.loadJournal]
  rcases hj : w.journal with _ | e
  · obtain ⟨v, hpair, hfinal, hvalid, hv⟩ := h.quiet hj
    obtain rfl : v = version := by
      rw [hpair .host] at hhost
      exact some.inj hhost
    exact ⟨by simp, v, idle_of_no_journal hpair hfinal hvalid hj h.reports hv, by rintro _ ⟨⟩; rfl⟩
  by_cases hstage : e.stage = .committed
  · simp only [hstage, if_true]
    refine safe_outcome (fun _ => h) fun ok hallows => ?_
    have hrule := hallows e hj hstage
    cases ok with
    | true =>
      simp only [perform, Bool.not_true, Bool.false_eq_true, if_false]
      rw [safe_bind]
      have hpair : w.Paired e.version := by
        rintro (_ | _)
        · exact hrule.1
        · exact hrule.2
      refine safe_finalizePrevious (h.finishing hj hstage hpair) fun w' hidle => ?_
      exact ⟨by simp, e.version, hidle, by rintro _ ⟨⟩; rfl⟩
    | false =>
      simp only [perform, Bool.not_false, if_true]
      rw [safe_bind]
      refine safe_rollback (h.unwinding hj hstage ?_) fun counted w' hidle =>
        ⟨by simp, e.previousVersion, hidle, by simp⟩
      rintro (_ | _)
      · exact hrule.1
      · exact hrule.2
  · simp only [hstage, if_false]
    refine safe_removeStaged (h.unwinding_host hj hstage hhost) _ _ fun w₁ h₁ => ?_
    refine safe_removeStaged h₁ _ _ fun w₂ h₂ => ?_
    rw [safe_bind]
    refine safe_rollback h₂ fun counted w' hidle => ?_
    cases counted with
    | true => exact ⟨by simp, version, hidle, by rintro _ ⟨⟩; rfl⟩
    | false => exact ⟨by simp, version, hidle, by simp⟩

/-- `NewUpdateManager` by the installed host binary passes `validate`. -/
lemma safe_newUpdateManager (h : w.Recoverable) (hhost : w.files (.installed .host) = some version) :
    (newUpdateManager version).Safe perform rules Started Recoverable w := by
  obtain ⟨worker, hworker⟩ := ne_none_iff_exists'.mp (h.present .worker)
  unfold newUpdateManager validate
  simp only [h.releases .host version hhost, Bool.not_true, Bool.false_eq_true, if_false]
  rw [safe_bind]
  refine safe_call (fun _ => h) ?_
  simp only [perform, hworker]
  refine safe_last (fun _ => h) ?_
  simp only [perform, hhost]
  exact safe_recover h hhost

/-! ### Activation -/

lemma World.Idle.asked (h : w.Idle version) (target : String) :
    ({ w with before := version, target := target } : World).Idle version := by
  refine ⟨h.paired, h.final, h.valid, h.journal, ?_⟩
  refine ⟨h.recoverable.present, h.recoverable.releases, h.recoverable.reports,
    h.recoverable.valid, fun _ => ⟨version, h.paired, h.final, h.valid, inl rfl⟩, ?_, ?_⟩
  · intro e he hstage
    exact absurd (h.journal e he).1 hstage
  · intro e he _
    obtain ⟨-, rfl⟩ := h.journal e he
    exact ⟨fun b => inl ⟨h.paired b, h.final b⟩, inl ⟨h.paired, h.final, rfl⟩⟩

lemma World.Idle.unwinding (h : w.Idle version) (hbefore : w.before = version) (he : e.valid = true)
    (hprev : e.previousVersion = version) (htarget : w.target = e.version) :
    ({ w with journal := some e } : World).Unwinding version :=
  ⟨fun b => inr ⟨h.final b, h.paired b⟩, h.valid, h.recoverable.releases, h.recoverable.reports,
    hbefore, e, rfl, he, hprev, htarget⟩

lemma World.Unwinding.rewrite (h : w.Unwinding version) (he : e.valid = true)
    (hprev : e.previousVersion = version) (htarget : w.target = e.version) :
    ({ w with journal := some e } : World).Unwinding version :=
  { h with journal := ⟨e, rfl, he, hprev, htarget⟩ }

variable {new : String}

/-- A binary that is replaced can be put back. -/
lemma World.Unwinding.replaced (h : w.Unwinding version) (b : Binary)
    (hnew : validReleaseVersion new = true) : (w.replaced b version new).Unwinding version := by
  refine { h with restorable := fun c => ?_, releases := fun c v hv => ?_ }
  · by_cases hc : c = b
    · exact inl (by simp [World.replaced, hc])
    · have hrest := h.restorable c
      unfold World.RestorableAt at hrest ⊢
      simpa [World.replaced, hc] using hrest
  · by_cases hc : c = b
    · obtain rfl : new = v := by simpa [World.replaced, hc] using hv
      exact hnew
    · exact h.releases c v (by simpa [World.replaced, hc] using hv)

/-- An activation ends in an idle state: with the new version, or with the old one. -/
def Activated (old new : String) (result : Except ActivateError String) (w : World) : Prop :=
  match result with
  | .ok version => version = new ∧ w.Idle new
  | .error _ => w.Idle old

variable {old : String} {result : Except ActivateError String}

lemma Activated.idle (h : Activated old new result w) : w.Idle old ∨ w.Idle new := by
  cases result with
  | ok => exact inr h.2
  | error => exact inl h

lemma Activated.removeStaged (h : Activated old new result w) (b : Binary) :
    Activated old new result (w.put (.staged b) none) := by
  have hs := sameBinaries_staged w b none
  cases result with
  | ok => exact ⟨h.1, h.2.same hs⟩
  | error => exact Idle.same h hs

/-- A failed update is undone. -/
lemma safe_failWith {cause : Cause} (h : w.Unwinding old) :
    (failWith old cause).Safe perform rules (Activated old new) Recoverable w := by
  unfold failWith
  rw [safe_bind]
  exact safe_rollback h fun _ _ hidle => hidle

/-- The commit of an update. -/
lemma safe_commitActivation (h : w.Unwinding old) (hpair : w.Paired new)
    (hkept : ∀ b, w.files (.rollback b) = some old) (htarget : w.target = new)
    (hvalid : ∀ stage, (⟨stage, new, old, false, false⟩ : UpdateJournal).valid = true) :
    (commitActivation old new).Safe perform rules (Activated old new) Recoverable w := by
  have h₁ := h.rewrite (hvalid .checking) rfl htarget
  have h₂ : ({ w with
      journal := some ⟨.checking, new, old, false, false⟩
      current := some new } : World).Unwinding old := { h₁ with }
  unfold commitActivation
  refine safe_call h.recoverable ?_
  refine safe_outcome h₁.recoverable fun restarted _ => ?_
  rcases restarted with _ | _
  · exact safe_failWith h₁
  refine safe_outcome h₁.recoverable fun healthy _ => ?_
  rcases healthy with _ | _
  · exact safe_failWith h₁
  refine safe_call h₁.recoverable ?_
  refine safe_call h₂.recoverable ?_
  rw [safe_bind]
  refine safe_finalizePrevious (e := ⟨.committed, new, old, false, false⟩) ?_ fun w' hidle => ⟨rfl, hidle⟩
  exact ⟨hpair, fun b => inr (hkept b), h.reports, rfl, rfl, hvalid _, inr ⟨h.before_eq, htarget⟩⟩

/-- The activation of staged binaries. -/
lemma safe_activateStaged (h : w.Idle old) (hbefore : w.before = old) (htarget : w.target = new)
    (hstaged : ∀ b, w.files (.staged b) = some new) (hnew : validReleaseVersion new = true)
    (hgt : compareReleaseVersion new old = .gt) :
    (activateStaged old new).Safe perform rules (Activated old new) Recoverable w := by
  have hvalid : ∀ stage workerStaged hostStaged,
      (⟨stage, new, old, workerStaged, hostStaged⟩ : UpdateJournal).valid = true := fun _ _ _ =>
    valid_iff.mpr ⟨hnew, h.valid, hgt⟩
  have h₁ := h.unwinding hbefore (hvalid .staged true true) rfl htarget
  have h₂ := h₁.rewrite (hvalid .activating true true) rfl htarget
  have h₃ := h₂.replaced .worker hnew
  have h₄ := h₃.replaced .host hnew
  unfold activateStaged
  refine safe_outcome (fun _ => h.recoverable) fun ok _ => ?_
  rcases ok with _ | _
  · exact h
  refine safe_outcome (fun _ => h.recoverable) fun ok _ => ?_
  rcases ok with _ | _
  · exact h
  refine safe_call (fun _ => h.recoverable) ?_
  refine safe_call h₁.recoverable ?_
  rw [safe_bind]
  refine safe_replaceUpdateBinary old new (h.paired .worker) (hstaged .worker) (h.final .worker)
    h₂.recoverable ?_
  simp only [Bool.not_true, Bool.false_eq_true, if_false]
  rw [safe_bind]
  refine safe_replaceUpdateBinary old new ?_ ?_ ?_ h₃.recoverable ?_
  · simpa [World.replaced, perform] using h.paired .host
  · simpa [World.replaced, perform] using hstaged .host
  · simpa [World.replaced, perform] using h.final .host
  · refine safe_commitActivation h₄ ?_ ?_ htarget fun stage => hvalid stage false false <;>
      rintro (_ | _) <;> simp [World.replaced]

lemma safe_replayActivation (h : w.Idle old) (new : String) :
    (replayActivation new).Safe perform rules (Activated old new) Recoverable w := by
  unfold replayActivation
  refine safe_call (fun _ => h.recoverable) ?_
  rw [h.recoverable.loadJournal]
  rcases w.journal with _ | e
  · exact h
  refine safe_call (fun _ => h.recoverable) ?_
  refine safe_call (fun _ => h.recoverable) ?_
  simp only [perform, h.paired .worker, h.paired .host]
  by_cases hmatch : e.stage = .committed ∧ e.version = new ∧ some old = some new ∧
      some old = some new
  · obtain rfl := some.inj hmatch.2.2.1
    rw [if_pos hmatch]
    exact ⟨rfl, h⟩
  · rw [if_neg hmatch]
    exact h

/-- An activation ends with the old pair or with the new one. -/
lemma safe_activate {r : Request} (h : w.Idle old) (hbefore : w.before = old)
    (htarget : w.target = r.version) (hnew : validReleaseVersion r.version = true) :
    (activate old r).Safe perform rules (Activated old r.version) Recoverable w := by
  unfold activate
  rcases r.verified with _ | _
  · exact h
  simp only [Bool.not_true, Bool.false_eq_true, if_false]
  cases hcmp : compareReleaseVersion r.version old with
  | eq => exact safe_replayActivation h r.version
  | lt => exact h
  | gt =>
    refine safe_outcome (fun _ => h.recoverable) fun ok _ => ?_
    rcases ok with _ | _
    · exact h
    have h₁ := h.same (sameBinaries_staged w .worker (some r.version))
    refine safe_outcome (fun _ => h₁.recoverable) fun ok _ => ?_
    rcases ok with _ | _
    · exact safe_call (fun _ => h₁.recoverable) (h₁.same (sameBinaries_staged ..))
    have h₂ := h₁.same (sameBinaries_staged _ .host (some r.version))
    simp only [perform, if_true, Bool.not_true, Bool.false_eq_true, if_false]
    rw [safe_bind]
    refine (safe_activateStaged h₂ hbefore htarget ?_ hnew hcmp).mono ?_ fun _ => id
    · rintro (_ | _) <;> simp
    · intro result w' hw'
      have hrec : ∀ {w : World}, Activated old r.version result w → w.Recoverable := fun h =>
        h.idle.elim (·.recoverable) (·.recoverable)
      refine safe_call (fun _ => hrec hw') ?_
      refine safe_call (fun _ => hrec (hw'.removeStaged .host)) ?_
      exact (hw'.removeStaged .host).removeStaged .worker

end

/-! ### Runs -/

/-- The updater process: not running, refused by `validate`, ended by an error of recovery, or
running with its `CurrentVersion`. -/
inductive Control where
  | down
  | refused
  | failed
  | up (currentVersion : String)
  deriving DecidableEq

/-- An installation. -/
structure Installation where
  world : World
  control : Control

/-- What happens next: the process is started, whatever became of the one before, or it is asked to
activate a release. -/
inductive Action where
  | start (fates : List Bool)
  | activate (r : Request) (fates : List Bool)
  deriving DecidableEq

namespace Installation

/-- The version that the installed host binary reports. -/
def hostVersion (s : Installation) : String := (s.world.files (.installed .host)).getD ""

/-- The world at the start of an activation. -/
def asked (s : Installation) (r : Request) : World :=
  { s.world with before := s.hostVersion, target := r.version }

/-- One life of the process, or one activation. -/
def step (s : Installation) : Action → Option Installation
  | .start fates =>
    some (match (newUpdateManager s.hostVersion).exec perform s.world fates with
      | .finished (.ok version) w => ⟨w, .up version⟩
      | .finished (.error .validate) w => ⟨w, .refused⟩
      | .finished (.error .recover) w => ⟨w, .failed⟩
      | .cut w => ⟨w, .down⟩)
  | .activate r fates =>
    match s.control with
    | .up currentVersion =>
      some (match (activate currentVersion r).exec perform (s.asked r) fates with
        | .finished (.ok version) w => ⟨w, .up version⟩
        | .finished (.error _) w => ⟨w, .up currentVersion⟩
        | .cut w => ⟨w, .down⟩)
    | _ => none

/-- The step keeps to the rules, and the requested version is a release version. -/
def Orderly (s : Installation) : Action → Prop
  | .start fates => (newUpdateManager s.hostVersion).Obeys perform rules s.world fates
  | .activate r fates =>
    match s.control with
    | .up currentVersion => validReleaseVersion r.version = true ∧
        (activate currentVersion r).Obeys perform rules (s.asked r) fates
    | _ => True

end Installation

/-- What holds in every state of an orderly run. -/
structure Installation.Sound (s : Installation) : Prop where
  /-- `validate` has not refused a start. -/
  passes : s.control ≠ .refused
  /-- A start that came to its end has left a matching pair. -/
  paired : s.control ≠ .down →
    ∃ version, s.world.Paired version ∧ (version = s.world.before ∨ version = s.world.target)
  /-- Every counted rollback was one. -/
  reports : ∀ r ∈ s.world.reports, r.Good

/-- A fresh installation of a release. -/
def Installation.fresh (version : String) : Installation where
  world :=
    { files := fun
        | .installed _ => some version
        | _ => none
      journal := none
      current := none
      rollbacks := 0
      before := version
      target := version
      reports := [] }
  control := .down

/-! ### Every orderly run is sound -/

namespace Installation

/-- The invariant of orderly runs. -/
def Inv (s : Installation) : Prop :=
  match s.control with
  | .down => s.world.Recoverable
  | .refused => False
  | .failed => ∃ version, s.world.Idle version
  | .up version => s.world.Idle version

variable {version : String}

lemma inv_fresh (h : validReleaseVersion version = true) : (fresh version).Inv :=
  (idle_of_no_journal (fun _ => rfl) (fun _ => rfl) h rfl (by simp [fresh]) (inl rfl)).recoverable

variable {s : Installation}

lemma Inv.recoverable (h : s.Inv) : s.world.Recoverable := by
  unfold Inv at h
  split at h
  · exact h
  · exact h.elim
  · exact h.choose_spec.recoverable
  · exact h.recoverable

lemma Inv.host (h : s.Inv) : s.world.files (.installed .host) = some s.hostVersion := by
  obtain ⟨version, hhost⟩ := ne_none_iff_exists'.mp (h.recoverable.present .host)
  simp [hostVersion, hhost]

variable {s' : Installation} {fates : List Bool}

/-- A start keeps the invariant. -/
lemma Inv.start (h : s.Inv) (ho : s.Orderly (.start fates)) (hs : s.step (.start fates) = some s') :
    s'.Inv := by
  have hend := (safe_newUpdateManager h.recoverable h.host).exec ho
  cases hs
  split <;> rename_i hexec <;> rw [hexec] at hend
  · obtain ⟨-, version', hidle, hv⟩ := hend
    exact (hv _ rfl) ▸ hidle
  · exact hend.1 rfl
  · obtain ⟨-, version', hidle, -⟩ := hend
    exact ⟨version', hidle⟩
  · exact hend

/-- An activation keeps the invariant. -/
lemma Inv.activate {r : Request} (h : s.Inv) (ho : s.Orderly (.activate r fates))
    (hs : s.step (.activate r fates) = some s') : s'.Inv := by
  have hhost := h.host
  cases hc : s.control with
  | down | refused | failed => simp [step, hc] at hs
  | up current =>
    simp only [Inv, hc] at h
    simp only [Orderly, hc] at ho
    obtain rfl : current = s.hostVersion := by
      rw [h.paired .host] at hhost
      exact some.inj hhost
    have hasked : (s.asked r).Idle s.hostVersion := h.asked r.version
    have hend := (safe_activate hasked rfl rfl ho.1).exec ho.2
    simp only [step, hc] at hs
    cases hs
    split <;> rename_i hexec <;> rw [hexec] at hend
    · exact hend.1 ▸ hend.2
    · exact hend
    · exact hend

/-- An idle world has the version that the last activation found or installed. -/
lemma idle_version {w : World} (h : w.Idle version) : version = w.before ∨ version = w.target := by
  rcases hj : w.journal with _ | e
  · obtain ⟨v, hpair, -, -, hv⟩ := h.recoverable.quiet hj
    have heq := h.paired .host
    rw [hpair .host] at heq
    exact some.inj heq ▸ hv
  obtain ⟨hstage, rfl⟩ := h.journal e hj
  exact (h.recoverable.committed e hj hstage).versions.imp (fun hv => hv.2.2.symm)
    fun hv => hv.2.symm

lemma Inv.sound (h : s.Inv) : s.Sound := by
  refine ⟨fun hc => ?_, fun hc => ?_, h.recoverable.reports⟩
  · simp [Inv, hc] at h
  · have hidle : ∃ version, s.world.Idle version := by
      unfold Inv at h
      split at h
      · next hdown => exact absurd hdown hc
      · exact h.elim
      · exact h
      · exact ⟨_, h⟩
    obtain ⟨version, hidle⟩ := hidle
    exact ⟨version, hidle.paired, idle_version hidle⟩

/-- Every state that an orderly run reaches is sound. -/
theorem orderly_updates_sound {version : String} (hversion : validReleaseVersion version = true)
    {l : List Action} {s : Installation} (hm : Meets step Orderly (fresh version) l)
    (hr : run step (fresh version) l = some s) : s.Sound := by
  have hkeeps : KeepsUnder step Orderly Inv := by
    intro s a s' h ho hs
    cases a with
    | start => exact h.start ho hs
    | activate => exact h.activate ho hs
  exact (hkeeps.run (inv_fresh hversion) hm hr).sound

/-! ### Examples -/

instance (w : World) (c : Call) (ok : Bool) : Decidable (rules.allows w c ok) := by
  unfold rules
  cases c <;> infer_instance

instance (w : World) : Decidable (rules.mayCut w) := by
  unfold rules
  infer_instance

instance decidableOrderly (s : Installation) (a : Action) : Decidable (s.Orderly a) := by
  have hobeys : ∀ {α : Type} (p : Update α) (w : World) (fates : List Bool),
      Decidable (p.Obeys perform rules w fates) :=
    fun p => Prog.decidableObeys perform rules inferInstance inferInstance p
  unfold Orderly
  repeat' split
  all_goals infer_instance

/-- The first activation is cut off with only the worker replaced and rolled back by the next start;
the second one succeeds. -/
def secondAttempt : List Action :=
  [.start (List.replicate 40 true), .activate ⟨true, "1.0.1"⟩ (List.replicate 11 true),
    .start (List.replicate 40 true), .activate ⟨true, "1.0.1"⟩ (List.replicate 60 true),
    .start (List.replicate 40 true)]

/-- The soundness theorem applies to it, and the new pair is installed. -/
theorem secondAttempt_sound : ∃ s, run step (fresh "1.0.0") secondAttempt = some s ∧
    s.control = .up "1.0.1" ∧ s.world.rollbacks = 1 ∧ s.Sound :=
  exists_of_any (P := fun s => s.control = .up "1.0.1" ∧ s.world.rollbacks = 1) (by decide +kernel)
    fun _ hs h => ⟨h.1, h.2, orderly_updates_sound (by decide +kernel) (by decide +kernel) hs⟩

/-- The process dies between the two renames that replace the worker. -/
def crashRun : List Action :=
  [.start (List.replicate 40 true), .activate ⟨true, "1.0.1"⟩ (List.replicate 10 true),
    .start (List.replicate 40 true)]

/-- `validate` then refuses to start the updater that would put the worker back. -/
theorem crash_between_renames : ∃ s, run step (fresh "1.0.0") crashRun = some s ∧ ¬ s.Sound :=
  exists_of_any (P := fun s => s.control = .refused) (by decide +kernel)
    fun _ _ hrefused h => h.passes hrefused

end Installation

end Paperboat.HostService

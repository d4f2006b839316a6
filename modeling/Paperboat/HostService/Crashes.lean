import Paperboat.HostService.Update

/-!
# Updates that are cut off

Recovery relies on things that not every crash leaves (`rules`): both binaries have to be there when
the process dies, and as long as the journal is not committed the host binary has to be the previous
one, since it tells the next process which version is current. And when the check of a committed journal
fails, the files for the way back must still be there.
-/

namespace Paperboat.HostService

open World

/-- What may happen to a program of the updater. -/
def rules : Rules World Call Bool where
  allows w c ok :=
    match c with
    | .check _ => ∀ e ∈ w.journal, e.stage = .committed →
        if ok then
          w.files (.installed .worker) = some e.version ∧ w.files (.installed .host) = some e.version
        else
          (w.files (.installed .worker) = some e.previousVersion ∨ w.files (.rollback .worker) ≠ none) ∧
            (w.files (.installed .host) = some e.previousVersion ∨ w.files (.rollback .host) ≠ none)
    | _ => True
  mayCut w :=
    w.files (.installed .worker) ≠ none ∧ w.files (.installed .host) ≠ none ∧
      ∀ e ∈ w.journal, e.stage ≠ .committed →
        w.files (.installed .host) = some e.previousVersion

namespace World

/-- Both binaries are of one version. -/
def Paired (w : World) (version : String) : Prop :=
  ∀ b, w.files (.installed b) = some version

end World

/-- A counted rollback has restored the previous version and recorded it. -/
structure Report.Good (r : Report) : Prop where
  worker : r.worker = some r.before
  host : r.host = some r.before
  current : r.current = some r.before

/-! ### States from which recovery works -/

namespace World

/-- The previous version of a binary can be put back, or has been. -/
def RestorableAt (w : World) (b : Binary) (version : String) : Prop :=
  w.files (.rollback b) = some version ∨
    w.files (.rollback b) = none ∧ w.files (.installed b) = some version

/-- No way back is kept. -/
def NoRollback (w : World) : Prop := ∀ b, w.files (.rollback b) = none

/-- Both binaries are there. -/
def Present (w : World) : Prop := ∀ b, w.files (.installed b) ≠ none

/-- An update that is not committed can be rolled back, by the host binary of the previous version. -/
structure Uncommitted (w : World) (e : UpdateJournal) : Prop where
  host : w.files (.installed .host) = some e.previousVersion
  restorable : ∀ b, w.RestorableAt b e.previousVersion
  before_eq : w.before = e.previousVersion
  target_eq : w.target = e.version

/-- Each binary of a committed update is final or can be rolled back. -/
structure Committed (w : World) (e : UpdateJournal) : Prop where
  slots : ∀ b, w.files (.installed b) = some e.version ∧ w.files (.rollback b) = none ∨
    w.RestorableAt b e.previousVersion
  versions : w.Paired e.version ∧ w.NoRollback ∧ w.before = e.version ∨
    w.before = e.previousVersion ∧ w.target = e.version

/-- The states that a crash may leave. -/
structure Recoverable (w : World) : Prop where
  present : w.Present
  releases : ∀ b version, w.files (.installed b) = some version → validReleaseVersion version = true
  reports : ∀ r ∈ w.reports, r.Good
  valid : ∀ e ∈ w.journal, e.valid = true
  quiet : w.journal = none → ∃ version, w.Paired version ∧ w.NoRollback ∧
    validReleaseVersion version = true ∧ (version = w.before ∨ version = w.target)
  uncommitted : ∀ e ∈ w.journal, e.stage ≠ .committed → w.Uncommitted e
  committed : ∀ e ∈ w.journal, e.stage = .committed → w.Committed e

/-- The states in which no update is under way. -/
structure Idle (w : World) (version : String) : Prop where
  paired : w.Paired version
  final : w.NoRollback
  valid : validReleaseVersion version = true
  journal : ∀ e ∈ w.journal, e.stage = .committed ∧ e.version = version
  recoverable : w.Recoverable

/-- The states inside a rollback to a version. -/
structure Unwinding (w : World) (version : String) : Prop where
  restorable : ∀ b, w.RestorableAt b version
  valid : validReleaseVersion version = true
  releases : ∀ b version, w.files (.installed b) = some version → validReleaseVersion version = true
  reports : ∀ r ∈ w.reports, r.Good
  before_eq : w.before = version
  journal : ∃ e, w.journal = some e ∧ e.valid = true ∧ e.previousVersion = version ∧
    w.target = e.version

end World

/-! ### What the functions do -/

section
variable {w : World} {b : Binary} {X : World → Prop}

@[simp] lemma World.put_files (w : World) (p q : Place) (content : Option String) :
    (w.put p content).files q = if q = p then content else w.files q :=
  Function.update_apply ..

variable {p : Place}

lemma World.put_self {content : Option String} (h : w.files p = content) : w.put p content = w := by
  subst h
  simp [put]

/-- The staged file has taken the place of the binary, which is kept for the way back. -/
def World.replaced (w : World) (b : Binary) (old new : String) : World :=
  (((w.put (.rollback b) (some old)).put (.installed b) none).put (.installed b) (some new)).put
    (.staged b) none

/-- The binary is back, if a way back was kept. -/
def World.restored (w : World) (b : Binary) : World :=
  match w.files (.rollback b) with
  | none => w
  | some old => ((w.put (.installed b) none).put (.installed b) (some old)).put (.rollback b) none

/-- The way back is given up. -/
def World.finalized (w : World) (b : Binary) : World :=
  match w.files (.rollback b) with
  | none => w
  | some old => ((w.put (.previous b) none).put (.previous b) (some old)).put (.rollback b) none

/-- A process does not die under the rules while a binary is missing. -/
lemma not_mayCut {w : World} {b : Binary} (h : w.files (.installed b) = none) : ¬ rules.mayCut w := by
  rintro ⟨hworker, hhost, -⟩
  cases b
  · exact hworker h
  · exact hhost h

variable {α : Type} {c : Call}

/-- A call whose outcome does not matter. -/
lemma safe_call {Q : α → World → Prop} {f : Reply c → Update α} (hX : rules.mayCut w → X w)
    (h : (f (perform w c true).2).Safe perform rules Q X (perform w c true).1)
    (hc : ∀ ok, perform w c ok = perform w c true := by exact fun _ => rfl) :
    (request c >>= f).Safe perform rules Q X w :=
  ⟨hX, fun ok _ => by rw [hc ok]; exact h⟩

lemma safe_last {Q : Reply c → World → Prop} (hX : rules.mayCut w → X w)
    (h : Q (perform w c true).2 (perform w c true).1)
    (hc : ∀ ok, perform w c ok = perform w c true := by exact fun _ => rfl) :
    (request c).Safe perform rules Q X w :=
  ⟨hX, fun ok _ => by rw [hc ok]; exact h⟩

lemma safe_outcome {Q : α → World → Prop} {f : Reply c → Update α} (hX : rules.mayCut w → X w)
    (h : ∀ ok, rules.allows w c ok → (f (perform w c ok).2).Safe perform rules Q X (perform w c ok).1) :
    (request c >>= f).Safe perform rules Q X w :=
  ⟨hX, h⟩

lemma perform_rename {q : Place} {content : String} (h : w.files p = some content) (ok : Bool) :
    perform w (.rename p q) ok = ((w.put q (some content)).put p none, true) := by
  simp only [perform, h]

variable {Q : Bool → World → Prop}

/-- `replaceUpdateBinary`: between its two renames the binary is missing. -/
lemma safe_replaceUpdateBinary (old new : String) (hold : w.files (.installed b) = some old)
    (hnew : w.files (.staged b) = some new) (hrollback : w.files (.rollback b) = none)
    (hX : rules.mayCut w → X w) (hQ : Q true (w.replaced b old new)) :
    (replaceUpdateBinary b).Safe perform rules Q X w := by
  refine safe_call hX ?_
  simp only [perform, hold]
  refine safe_call hX ?_
  simp only [perform, hnew]
  refine safe_call hX ?_
  simp only [perform, put_self hrollback]
  refine safe_call hX ?_
  simp only [perform_rename hold]
  have hstaged : ((w.put (.rollback b) (some old)).put (.installed b) none).files (.staged b) =
      some new := by simp [hnew]
  refine safe_call (fun h => absurd h (not_mayCut (b := b) (by simp))) ?_
  simp only [perform_rename hstaged]
  exact hQ

/-- `rollbackBinary`: between the removal and the renaming the binary is missing. -/
lemma safe_rollbackBinary (hX : rules.mayCut w → X w) (hQ : Q true (w.restored b)) :
    (rollbackBinary b).Safe perform rules Q X w := by
  refine safe_call hX ?_
  unfold restored at hQ
  rcases hrollback : w.files (.rollback b) with _ | old
  · rw [hrollback] at hQ
    simpa [perform, hrollback] using hQ
  rw [hrollback] at hQ
  simp only [perform, hrollback]
  refine safe_call hX ?_
  simp only [perform]
  have hkept : (w.put (.installed b) none).files (.rollback b) = some old := by simp [hrollback]
  refine safe_last (fun h => absurd h (not_mayCut (b := b) (by simp))) ?_
  rw [perform_rename hkept]
  exact hQ

lemma safe_finalizeBinary (hX : rules.mayCut w → X w)
    (hX' : rules.mayCut (w.put (.previous b) none) → X (w.put (.previous b) none))
    (hQ : Q true (w.finalized b)) : (finalizeBinary b).Safe perform rules Q X w := by
  refine safe_call hX ?_
  unfold finalized at hQ
  rcases hrollback : w.files (.rollback b) with _ | old
  · rw [hrollback] at hQ
    simpa [perform, hrollback] using hQ
  rw [hrollback] at hQ
  simp only [perform, hrollback]
  refine safe_call hX ?_
  simp only [perform]
  have hkept : (w.put (.previous b) none).files (.rollback b) = some old := by simp [hrollback]
  refine safe_last hX' ?_
  rw [perform_rename hkept]
  exact hQ

end

/-! ### What does not matter -/

namespace World

variable {w w' : World} {version : String}

/-- Two worlds that differ at most in staged and retired files, in `update-current.json` and in the
counter. -/
structure SameBinaries (w w' : World) : Prop where
  installed : ∀ b, w'.files (.installed b) = w.files (.installed b)
  rollback : ∀ b, w'.files (.rollback b) = w.files (.rollback b)
  journal : w'.journal = w.journal
  before_eq : w'.before = w.before
  target_eq : w'.target = w.target
  reports : w'.reports = w.reports

lemma sameBinaries_staged (w : World) (b : Binary) (content : Option String) :
    SameBinaries w (w.put (.staged b) content) :=
  ⟨fun _ => by simp, fun _ => by simp, rfl, rfl, rfl, rfl⟩

lemma sameBinaries_previous (w : World) (b : Binary) (content : Option String) :
    SameBinaries w (w.put (.previous b) content) :=
  ⟨fun _ => by simp, fun _ => by simp, rfl, rfl, rfl, rfl⟩

/-- The three properties of the binaries that the invariants are made of. -/
lemma SameBinaries.iffs (h : SameBinaries w w') :
    (∀ v, w'.Paired v ↔ w.Paired v) ∧ (w'.NoRollback ↔ w.NoRollback) ∧
      ∀ b v, w'.RestorableAt b v ↔ w.RestorableAt b v := by
  simp [Paired, NoRollback, RestorableAt, h.installed, h.rollback]

lemma Recoverable.same (h : w.Recoverable) (hs : SameBinaries w w') : w'.Recoverable := by
  obtain ⟨hpair, hfinal, hrest⟩ := hs.iffs
  refine ⟨fun b => hs.installed b ▸ h.present b, fun b v hv => h.releases b v (hs.installed b ▸ hv),
    hs.reports ▸ h.reports, hs.journal ▸ h.valid, ?_, fun e he hstage => ?_, fun e he hstage => ?_⟩
  · simp only [hpair, hfinal, hs.journal, hs.before_eq, hs.target_eq]
    exact h.quiet
  · rw [hs.journal] at he
    obtain ⟨h₁, h₂, h₃, h₄⟩ := h.uncommitted e he hstage
    exact ⟨by rw [hs.installed, h₁], fun b => (hrest b _).mpr (h₂ b), by rw [hs.before_eq, h₃],
      by rw [hs.target_eq, h₄]⟩
  · rw [hs.journal] at he
    obtain ⟨h₁, h₂⟩ := h.committed e he hstage
    constructor
    · simp only [hs.installed, hs.rollback, hrest]
      exact h₁
    · simp only [hpair, hfinal, hs.before_eq, hs.target_eq]
      exact h₂

lemma Idle.same (h : w.Idle version) (hs : SameBinaries w w') : w'.Idle version := by
  obtain ⟨hpair, hfinal, -⟩ := hs.iffs
  exact ⟨(hpair _).mpr h.paired, hfinal.mpr h.final, h.valid, hs.journal ▸ h.journal,
    h.recoverable.same hs⟩

lemma Unwinding.same (h : w.Unwinding version) (hs : SameBinaries w w') : w'.Unwinding version := by
  refine ⟨fun b => (hs.iffs.2.2 b _).mpr (h.restorable b), h.valid,
    fun b v hv => h.releases b v (hs.installed b ▸ hv), hs.reports ▸ h.reports,
    hs.before_eq.trans h.before_eq, ?_⟩
  rw [hs.journal, hs.target_eq]
  exact h.journal

end World

/-! ### Rolling back -/

namespace World

variable {w : World} {version : String}

@[simp] lemma restored_frame (w : World) (b : Binary) :
    (w.restored b).journal = w.journal ∧ (w.restored b).current = w.current ∧
      (w.restored b).before = w.before ∧ (w.restored b).target = w.target ∧
      (w.restored b).reports = w.reports := by
  unfold restored
  split <;> simp [put]

lemma restored_rollback (w : World) (b c : Binary) :
    (w.restored b).files (.rollback c) = if c = b then none else w.files (.rollback c) := by
  unfold restored
  split
  · next h =>
    split
    · next hc => rw [hc, h]
    · rfl
  · simp

variable {b : Binary}

lemma RestorableAt.restored_installed (h : w.RestorableAt b version) :
    (w.restored b).files (.installed b) = some version := by
  rcases h with hkept | ⟨hnone, hback⟩
  · simp [restored, hkept]
  · simp [restored, hnone, hback]

variable {c : Binary}

lemma restored_installed_of_ne (w : World) (h : c ≠ b) :
    (w.restored b).files (.installed c) = w.files (.installed c) := by
  unfold restored
  split
  · rfl
  · simp [h]

lemma RestorableAt.restored (hb : w.RestorableAt b version) (hc : w.RestorableAt c version) :
    (w.restored b).RestorableAt c version := by
  by_cases h : c = b
  · subst h
    exact .inr ⟨by simp [restored_rollback], hb.restored_installed⟩
  · unfold RestorableAt
    rwa [restored_rollback, if_neg h, restored_installed_of_ne w h]

/-- With a journal only its own stage matters. -/
lemma Recoverable.of_journal {e : UpdateJournal} (he : w.journal = some e) (hpresent : w.Present)
    (hreleases : ∀ b version, w.files (.installed b) = some version → validReleaseVersion version = true)
    (hreports : ∀ r ∈ w.reports, r.Good) (hvalid : e.valid = true)
    (huncommitted : e.stage ≠ .committed → w.Uncommitted e)
    (hcommitted : e.stage = .committed → w.Committed e) : w.Recoverable := by
  refine ⟨hpresent, hreleases, hreports, ?_, ?_, ?_, ?_⟩ <;> rw [he]
  · rintro _ ⟨⟩
    exact hvalid
  · nofun
  · rintro _ ⟨⟩
    exact huncommitted
  · rintro _ ⟨⟩
    exact hcommitted

lemma Unwinding.recoverable (h : w.Unwinding version) (hc : rules.mayCut w) : w.Recoverable := by
  obtain ⟨e, he, hvalid, rfl, htarget⟩ := h.journal
  refine .of_journal he ?_ h.releases h.reports hvalid (fun hstage => ?_) fun _ => ?_
  · rintro (_ | _)
    · exact hc.1
    · exact hc.2.1
  · exact ⟨hc.2.2 e he hstage, h.restorable, h.before_eq, htarget⟩
  · exact ⟨fun b => .inr (h.restorable b), .inr ⟨h.before_eq, htarget⟩⟩

lemma Unwinding.restored (h : w.Unwinding version) (b : Binary) : (w.restored b).Unwinding version := by
  obtain ⟨hj, -, hb, ht, hr⟩ := restored_frame w b
  refine ⟨fun c => (h.restorable b).restored (h.restorable c), h.valid, fun c version' hc => ?_,
    hr ▸ h.reports, hb.trans h.before_eq, ?_⟩
  · by_cases hcb : c = b
    · subst hcb
      rw [(h.restorable c).restored_installed] at hc
      exact Option.some.inj hc ▸ h.valid
    · rw [restored_installed_of_ne w hcb] at hc
      exact h.releases c version' hc
  · rw [hj, ht]
    exact h.journal

lemma Unwinding.paired (h : w.Unwinding version) : ((w.restored .worker).restored .host).Paired version ∧
      ((w.restored .worker).restored .host).NoRollback := by
  constructor
  · rintro (_ | _)
    · rw [restored_installed_of_ne _ (by decide)]
      exact (h.restorable .worker).restored_installed
    · exact ((h.restored .worker).restorable .host).restored_installed
  · rintro (_ | _) <;> simp [restored_rollback]

lemma idle_of_no_journal (hpair : w.Paired version) (hfinal : w.NoRollback)
    (hvalid : validReleaseVersion version = true) (hjournal : w.journal = none)
    (hreports : ∀ r ∈ w.reports, r.Good) (hversion : version = w.before ∨ version = w.target) :
    w.Idle version where
  paired := hpair
  final := hfinal
  valid := hvalid
  journal e he := by simp [hjournal] at he
  recoverable :=
    { present := fun b => by simp [hpair b]
      releases := fun b v hv => by
        rw [hpair b] at hv
        exact Option.some.inj hv ▸ hvalid
      reports := hreports
      valid := fun e he => by simp [hjournal] at he
      quiet := fun _ => ⟨version, hpair, hfinal, hvalid, hversion⟩
      uncommitted := fun e he => by simp [hjournal] at he
      committed := fun e he => by simp [hjournal] at he }

end World

variable {w : World} {version : String}

/-- `rollback` to the version that was installed before: it ends in an idle state, counted or not. -/
lemma safe_rollback {Q : Bool → World → Prop} (h : w.Unwinding version)
    (hQ : ∀ counted w', w'.Idle version → Q counted w') :
    (rollback version).Safe perform rules Q Recoverable w := by
  set w₂ := (w.restored .worker).restored .host with hw₂
  have h₂ : w₂.Unwinding version := (h.restored .worker).restored .host
  obtain ⟨hpair, hfinal⟩ := h.paired
  have h₃ : ({ w₂ with current := some version } : World).Unwinding version := { h₂ with }
  have hsome : w₂.journal.isSome = true := by
    obtain ⟨e, he, -⟩ := h₂.journal
    simp [he]
  unfold rollback
  rw [Prog.safe_bind]
  refine safe_rollbackBinary h.recoverable ?_
  rw [Prog.safe_bind]
  refine safe_rollbackBinary (h.restored .worker).recoverable ?_
  rw [← hw₂]
  simp only [Bool.and_self, Bool.not_true, Bool.false_eq_true, if_false]
  refine safe_call h₂.recoverable ?_
  refine safe_outcome h₃.recoverable fun restarted _ => ?_
  refine safe_call h₃.recoverable ?_
  simp only [perform, hsome, Bool.and_true]
  -- the journal is gone, whether or not the worker has restarted
  have hidle : ({ w₂ with current := some version, journal := none } : World).Idle version :=
    idle_of_no_journal hpair hfinal h.valid rfl h₂.reports (.inl h₂.before_eq.symm)
  rcases restarted with _ | _
  · exact hQ false _ hidle
  refine safe_call (fun _ => hidle.recoverable) ?_
  refine hQ true _ (idle_of_no_journal hpair hfinal h.valid rfl ?_ (.inl h₂.before_eq.symm))
  have hgood : (⟨w₂.files (.installed .worker), w₂.files (.installed .host), some version,
      w₂.before⟩ : Report).Good := by
    rw [h₂.before_eq]
    exact ⟨hpair .worker, hpair .host, rfl⟩
  exact List.forall_mem_append.mpr ⟨h₂.reports, List.forall_mem_singleton.mpr hgood⟩

end Paperboat.HostService

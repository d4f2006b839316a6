import Paperboat.ConfigSync.Publisher

/-!
# Uncertain publications

A push that is cut off may have reached the remote or not. Three tests decide which: `ObserveCommit`
asks whether the commit can be reached from the remote head, `PublicationCommitted` accepts only the
head itself, and `recoverResolutionCommit` compares the head with the commit in the journal and gives up
when they differ.

The tests agree as long as no one else pushes between an uncertain push and its observation, or while
the journal names the head, and as long as the journal does not outlive a push that has not landed
(`quiet_publications_resolve`). Otherwise a journal whose commit is not the head makes every later
`Reconcile` fail (`overtaken_publication`).
-/

namespace Paperboat.ConfigSync.Publisher

open Prog Option

/-! ### Advances of other writers -/

/-- What other writers leave of a repository. -/
structure Advanced (r r' : Repository) : Prop where
  objects : ∀ c parents, r.objects.lookup c = some parents → r'.objects.lookup c = some parents
  published : ∀ c ∈ r.published, c ∈ r'.published
  /-- They do not publish the commits of the helper. -/
  known : ∀ c ∈ r'.published, (r.objects.lookup c).isSome → c ∈ r.published
  head : r'.head = r.head ∨ r.objects.lookup r'.head = none

namespace Advanced

variable {r r' r'' : Repository}

lemma refl (r : Repository) : Advanced r r :=
  ⟨fun _ _ h => h, fun _ h => h, fun _ h _ => h, .inl rfl⟩

lemma trans (h : Advanced r r') (h' : Advanced r' r'') : Advanced r r'' := by
  refine ⟨fun c parents hc => h'.objects _ _ (h.objects _ _ hc),
    fun c hc => h'.published c (h.published c hc), fun c hc hknown => ?_, ?_⟩
  · obtain ⟨parents, hparents⟩ := isSome_iff_exists.mp hknown
    have hlater : (r'.objects.lookup c).isSome := by rw [h.objects c parents hparents]; rfl
    exact h.known c (h'.known c hc hlater) hknown
  · rcases h'.head with heq | hnew
    · rw [heq]
      exact h.head
    right
    cases hlookup : r.objects.lookup r''.head with
    | none => rfl
    | some =>
      rw [h.objects _ _ hlookup] at hnew
      cases hnew

/-- A commit of another writer adds to the repository. -/
lemma advance (r : Repository) (x : Repository.Foreign) : Advanced r (r.advance x) := by
  unfold Repository.advance
  split
  · next h =>
    refine ⟨fun c parents hc => ?_, fun c hc => List.mem_cons_of_mem _ hc, fun c hc hknown => ?_,
      .inr h.2.1⟩
    · have hne : c ≠ x.id := by
        rintro rfl
        rw [h.2.1] at hc
        cases hc
      simp only [Repository.publish, Repository.commit, FinMap.lookup_insert_eq, if_neg hne, hc]
    · rcases List.mem_cons.mp hc with rfl | hc
      · rw [h.2.1] at hknown
        cases hknown
      · exact hc
  · exact refl r

lemma advanceAll (r : Repository) (others : List Repository.Foreign) :
    Advanced r (r.advanceAll others) := by
  induction others generalizing r with
  | nil => exact refl r
  | cons x others ih => exact (advance r x).trans (ih (r.advance x))

/-- A commit that is known and not the head does not become the head. -/
lemma head_ne (h : Advanced r r') {c : String} (hc : (r.objects.lookup c).isSome)
    (hne : c ≠ r.head) : c ≠ r'.head := by
  rcases h.head with heq | hnew
  · rw [heq]
    exact hne
  · rintro rfl
    rw [hnew] at hc
    cases hc

end Advanced

variable {c : String}

/-- What the remote does not have cannot be reached from what it has. -/
lemma Repository.not_reachable (r : Repository) {head : String} (hc : c ∉ r.published)
    (hhead : head ∈ r.published) : ¬ Reachable r.objects c head := by
  intro h
  induction h with
  | self => exact hc hhead
  | parent hparents hp _ ih => exact ih (r.published_closed _ hhead _ hparents _ hp)

/-- A push that moves the branch forward publishes the commit. -/
lemma Repository.push_of_forwards (r : Repository) (h : r.forwards c = true) :
    (r.push c).head = c ∧ c ∈ (r.push c).published ∧ (r.push c).objects = r.objects := by
  unfold Repository.forwards at h
  unfold Repository.push
  split at h
  · cases h
  rename_i parents hlookup
  have hf := of_decide_eq_true h
  split
  · next hnone =>
    rw [hlookup] at hnone
    cases hnone
  · next parents' hlookup' =>
    cases hlookup.symm.trans hlookup'
    rw [dif_pos hf]
    exact ⟨rfl, List.mem_cons_self, rfl⟩

/-- Any other push is refused. -/
lemma Repository.push_of_not_forwards (r : Repository) (h : r.forwards c = false) : r.push c = r := by
  unfold Repository.forwards at h
  unfold Repository.push
  split
  · rfl
  · next parents hlookup =>
    simp only [hlookup] at h
    rw [dif_neg (of_decide_eq_false h)]

/-! ### Rules for calls -/

section
variable {rules : Rules World Call Fate} {X : World → Prop} {w : World}

/-- The calls that only answer. -/
def Call.passive : Call → Bool
  | .fetch | .credential | .acquireLease _ | .renewLease | .releaseLease | .acknowledge _ _ => true
  | _ => false

/-- A call that only answers; the others may push before it. -/
lemma safe_passive {c : Call} (hc : c.passive = true) {Q : Reply c → World → Prop}
    (hX : rules.mayCut w → X w)
    (hQ : ∀ f, rules.allows w c f → ∀ reply, Q reply (w.advanceAll f.others)) :
    (request c).Safe perform rules Q X w := by
  refine safe_request.mpr ⟨hX, fun f hf => ?_⟩
  cases c <;> first | exact hQ f hf _ | cases hc

/-- `Fetch` fails, or returns the head. -/
lemma safe_fetch {Q : Option String → World → Prop} (hX : rules.mayCut w → X w)
    (hQ : ∀ f, rules.allows w .fetch f → Q none (w.advanceAll f.others) ∧
      Q (some (w.advanceAll f.others).repository.head) (w.advanceAll f.others)) :
    (request .fetch).Safe perform rules Q X w := by
  refine safe_request.mpr ⟨hX, fun f hf => ?_⟩
  obtain ⟨hnone, hsome⟩ := hQ f hf
  simp only [perform, performAlone]
  split
  · exact hnone
  · exact hsome

lemma safe_readResolutionCommit {Q : Option ResolutionCommit → World → Prop} (hX : rules.mayCut w → X w)
    (hQ : ∀ f, rules.allows w .readResolutionCommit f → Q w.resolutionCommit (w.advanceAll f.others)) :
    (request .readResolutionCommit).Safe perform rules Q X w :=
  safe_request.mpr ⟨hX, hQ⟩

end

/-! ### A journal that was overtaken -/

/-- The journal names a commit that is not the head and never will be. -/
structure Stale (j : ResolutionCommit) (w : World) : Prop where
  journal : w.resolutionCommit = some j
  consistent : j.baseline.remoteRevision = j.commitID
  known : (w.repository.objects.lookup j.commitID).isSome
  head : j.commitID ≠ w.repository.head

/-- Everything may happen. -/
def anything : Rules World Call Fate := ⟨fun _ _ _ => True, fun _ => True⟩

section
variable {j : ResolutionCommit} {w w' : World}

/-- A journal that was overtaken stays so, whatever the others push. -/
lemma Stale.advanceAll (h : Stale j w) (others : List Repository.Foreign) :
    Stale j (w.advanceAll others) := by
  have hadv := Advanced.advanceAll w.repository others
  obtain ⟨parents, hparents⟩ := isSome_iff_exists.mp h.known
  refine ⟨h.journal, h.consistent, ?_, hadv.head_ne h.known h.head⟩
  rw [World.advanceAll, hadv.objects _ _ hparents]
  rfl

/-- Then `Reconcile` reports an uncertain publication. -/
lemma Stale.safe_reconcile (h : Stale j w) (pending : Option PendingBaseline) {revision : String}
    (hrevision : revision ≠ j.commitID) :
    (reconcile pending revision).Safe perform anything
      (fun r w' => Stale j w' ∧ r.2 = .error .syncUncertain) (Stale j) w := by
  simp only [reconcile, recoverResolutionCommit, safe_bind]
  refine safe_readResolutionCommit (fun _ => h) fun f _ => ?_
  rw [h.journal]
  simp only [h.consistent, ne_eq, not_true_eq_false, if_false, if_pos hrevision, safe_pure]
  exact ⟨h.advanceAll f.others, trivial⟩

/-- And no `Sync` gets rid of the journal. -/
lemma Stale.safe_sync (h : Stale j w) (pending : Option PendingBaseline) :
    (sync pending).Safe perform anything (fun _ w' => Stale j w') (Stale j) w := by
  simp only [sync, safe_bind]
  refine safe_fetch (fun _ => h) fun f _ => ⟨h.advanceAll f.others, ?_⟩
  have hfetched := h.advanceAll f.others
  generalize w.advanceAll f.others = w' at hfetched
  simp only
  split
  · exact hfetched
  simp only [safe_bind]
  refine safe_passive rfl (fun _ => hfetched) fun f _ authorized => ?_
  have hauthorized := hfetched.advanceAll f.others
  rcases authorized with _ | _
  · exact hauthorized
  simp only [Bool.not_true, Bool.false_eq_true, if_false, safe_bind]
  refine (hauthorized.safe_reconcile pending hfetched.head.symm).mono ?_ fun _ h => h
  rintro ⟨pending', r⟩ w'' ⟨hstale, hr⟩
  obtain rfl : r = .error .syncUncertain := hr
  exact hstale

end

/-- Every later `Reconcile` finds the outcome of the publication in the journal uncertain, whatever the
head is then. -/
def State.Wedged (s : State) : Prop :=
  ∀ actions s', run step s actions = some s' → ∀ fates pending r w',
    (reconcile s'.pending s'.world.repository.head).exec perform s'.world fates =
      .finished (pending, r) w' → r = .error .syncUncertain

/-- So it stays in every run. -/
lemma keeps_stale (j : ResolutionCommit) : Keeps step fun s => Stale j s.world := by
  intro s a s' hs hstep
  cases a with
  | sync fates =>
    have hstart : Stale j s.world.unobserved := { hs with }
    have hend := (hstart.safe_sync s.pending).exec
      (Prog.Obeys.of_forall (fun _ _ _ => trivial) (fun _ => trivial) _ _ fates)
    simp only [step] at hstep
    split at hstep <;> next hexec =>
      rw [hexec] at hend
      cases hstep
      exact { hend with }
  | advance others =>
    cases hstep
    exact hs.advanceAll others
  | restart =>
    cases hstep
    exact hs

lemma wedged_of_stale {s : State} {j : ResolutionCommit} (h : Stale j s.world) : s.Wedged := by
  intro actions s' hrun fates pending r w' hexec
  have hs' := (keeps_stale j).run h hrun
  have hend := (hs'.safe_reconcile s'.pending hs'.head.symm).exec
    (Prog.Obeys.of_forall (fun _ _ _ => trivial) (fun _ => trivial) _ _ fates)
  rw [hexec] at hend
  exact hend.2

/-! ### Quiet publications -/

/-- Whether a call fails. -/
def Outcome.failed : Outcome → Bool
  | .fails => true
  | _ => false

/-- Whether an uncertain push has reached the remote. -/
def Outcome.doubt : Outcome → Option Bool
  | .uncertain landed => some landed
  | _ => none

/-- The journal, if there is one, names the head. -/
def World.Current (w : World) : Prop :=
  ∀ j ∈ w.resolutionCommit, j.commitID = w.repository.head

/-- There is a journal, and it names the head. -/
def World.landed (w : World) : Bool :=
  w.resolutionCommit.any fun j => j.commitID = w.repository.head

/-- No one else pushes while the journal names the head, or between an uncertain push and its
observation; an uncertain push under a journal has landed; the helper does not die, and no
acknowledgement fails, while the journal names another commit than the head, nor does one fail after an
observation. Others can push in front of a push under a journal, which is then refused. -/
def quiet : Rules World Call Fate where
  allows w c f := (w.landed = true → f.others = []) ∧
    match c with
    | .observeCommit _ => f.others = []
    | .publish p => w.resolutionCommit.isSome = true → ∀ landed ∈ f.outcome.doubt,
      landed = true ∧ (w.advanceAll f.others).repository.forwards p.commitID = true
    | .acknowledge _ _ => f.outcome.failed = true → w.observed = none ∧ w.Current
    | _ => True
  mayCut := World.Current

/-- A journal belongs to the baseline that it holds. -/
def World.Consistent (w : World) : Prop :=
  ∀ j ∈ w.resolutionCommit, j.baseline.remoteRevision = j.commitID

/-- The world when no publication is under way. -/
structure Quiet (w : World) : Prop where
  consistent : w.Consistent
  current : w.Current

/-- What becomes of an observation after an uncertain push: the publication was reported and its
baseline committed, or the remote does not have the commit. -/
def Observed (w : World) (answer : Answer) : Prop :=
  ∀ c head, w.observed = some (c, head) →
    (answer.result.landed = true ∧ (w.prepared.lookup c).isSome ∧
      w.baseline = w.prepared.lookup c) ∨
    ((w.repository.objects.lookup c).isSome ∧ c ∉ w.repository.published ∧
      head ∈ w.repository.published)

/-- Only other writers have been at work, and not while the journal named the head. -/
structure Later (w w' : World) : Prop where
  advanced : Advanced w.repository w'.repository
  rest : w' = { w with repository := w'.repository }
  journal : w.landed = true → w' = w

section
variable {w w' w'' : World} {f : Fate} {answer : Answer}

namespace Later

lemma refl (w : World) : Later w w := ⟨.refl _, rfl, fun _ => rfl⟩

lemma trans (h : Later w w') (h' : Later w' w'') : Later w w'' := by
  refine ⟨h.advanced.trans h'.advanced, ?_, fun hj => ?_⟩
  · rw [h'.rest, h.rest]
  · have heq := h.journal hj
    subst heq
    exact h'.journal hj

/-- What the rules allow the other writers. -/
lemma of_allows {c : Call} (hf : quiet.allows w c f) : Later w (w.advanceAll f.others) := by
  refine ⟨.advanceAll _ _, rfl, fun hj => ?_⟩
  rw [hf.1 hj]
  rfl

lemma resolutionCommit_eq (h : Later w w') : w'.resolutionCommit = w.resolutionCommit := by
  rw [h.rest]

lemma observed_eq (h : Later w w') : w'.observed = w.observed := by rw [h.rest]

lemma prepared_eq (h : Later w w') : w'.prepared = w.prepared := by rw [h.rest]

lemma baseline_eq (h : Later w w') : w'.baseline = w.baseline := by rw [h.rest]

/-- A commit that the remote does not have is still known, and still not there. -/
lemma unpublished (h : Later w w') {c : String}
    (hknown : (w.repository.objects.lookup c).isSome) (hc : c ∉ w.repository.published) :
    (w'.repository.objects.lookup c).isSome ∧ c ∉ w'.repository.published := by
  obtain ⟨parents, hparents⟩ := isSome_iff_exists.mp hknown
  refine ⟨?_, fun hpub => hc (h.advanced.known c hpub hknown)⟩
  rw [h.advanced.objects _ _ hparents]
  rfl

end Later

lemma quiet_of_none (h : w.resolutionCommit = none) : Quiet w := by
  have hno : ∀ j, j ∉ w.resolutionCommit := by simp [h]
  exact ⟨fun j hj => absurd hj (hno j), fun j hj => absurd hj (hno j)⟩

/-- Other writers do not end the quiet. -/
lemma Quiet.later (h : Quiet w) (hl : Later w w') : Quiet w' := by
  cases hj : w.resolutionCommit with
  | none => exact quiet_of_none (hl.resolutionCommit_eq.trans hj)
  | some j =>
    have hlanded : w.landed = true := by
      rw [World.landed, hj, any_some, decide_eq_true (h.current j hj)]
    rw [hl.journal hlanded]
    exact h

/-- Nor do they change what was observed. -/
lemma Observed.later (h : Observed w answer) (hl : Later w w') : Observed w' answer := by
  intro c head hobserved
  rw [hl.observed_eq] at hobserved
  rcases h c head hobserved with hlanded | ⟨hknown, hc, hhead⟩
  · rw [hl.prepared_eq, hl.baseline_eq]
    exact .inl hlanded
  · obtain ⟨hknown', hc'⟩ := hl.unpublished hknown hc
    exact .inr ⟨hknown', hc', hl.advanced.published head hhead⟩

lemma observed_of_none (h : w.observed = none) (answer : Answer) : Observed w answer := by
  intro c head hobserved
  rw [h] at hobserved
  cases hobserved

/-- What a call of the publisher leaves. -/
def Ends (r : Option PendingBaseline × Answer) (w : World) : Prop := Quiet w ∧ Observed w r.2

/-- The world when no publication is under way and none was observed. -/
structure Calm (w : World) : Prop extends Quiet w where
  observed : w.observed = none

lemma Calm.later (h : Calm w) (hl : Later w w') : Calm w' :=
  ⟨h.toQuiet.later hl, hl.observed_eq.trans h.observed⟩

lemma Calm.ends (h : Calm w) (r : Option PendingBaseline × Answer) : Ends r w :=
  ⟨h.toQuiet, observed_of_none h.observed _⟩

/-- A call that only answers, under the rules. -/
lemma safe_passive_quiet {c : Call} (hc : c.passive = true) {Q : Reply c → World → Prop}
    (hw : w.Consistent) (hQ : ∀ w' reply, Later w w' → Q reply w') :
    (request c).Safe perform quiet Q Quiet w :=
  safe_passive hc (fun hcut => ⟨hw, hcut⟩) fun _ hf reply => hQ _ reply (.of_allows hf)

end

/-! ### Committing a publication -/

/-- The journal is that of the pending baseline, which has one only for resolutions. -/
structure Journal (p : PendingBaseline) (w : World) : Prop where
  journal : w.resolutionCommit = none ∨
    w.resolutionCommit = some ⟨p.commitID, p.value, p.resolutions⟩
  plain : p.resolutions = [] → w.resolutionCommit = none
  value : p.value.remoteRevision = p.commitID

section
variable {w w' : World} {f : Fate} {p : PendingBaseline} {prepared : PreparedPublication}
  {revision : String}

lemma Journal.consistent (h : Journal p w) : w.Consistent := by
  intro j hj
  rcases h.journal with hnone | hsome
  · rw [hnone] at hj
    cases hj
  · rw [hsome] at hj
    cases hj
    exact h.value

/-- A journal that names the head is a quiet world. -/
lemma Journal.quiet (h : Journal p w) (hhead : w.repository.head = p.commitID) : Quiet w := by
  refine ⟨h.consistent, fun j hj => ?_⟩
  rcases h.journal with hnone | hsome
  · rw [hnone] at hj
    cases hj
  · rw [hsome] at hj
    cases hj
    exact hhead.symm

lemma Journal.later (h : Journal p w) (hl : Later w w') : Journal p w' :=
  ⟨by rw [hl.resolutionCommit_eq]; exact h.journal, by rw [hl.resolutionCommit_eq]; exact h.plain,
    h.value⟩

/-- The resolutions are acknowledged; where this fails, nothing was observed and the journal names the
head. -/
lemma safe_acknowledgeAll (hw : w.Consistent) (resolutions : List ConflictResolution) :
    (acknowledgeAll revision resolutions).Safe perform quiet
      (fun ok w' => Later w w' ∧ (ok = false → w'.observed = none ∧ w'.Current)) Quiet w := by
  induction resolutions generalizing w with
  | nil => exact ⟨.refl w, nofun⟩
  | cons x resolutions ih =>
    simp only [acknowledgeAll, safe_bind]
    refine safe_request.mpr ⟨fun hcut => ⟨hw, hcut⟩, fun f hf => ?_⟩
    have hlater := Later.of_allows hf
    have hw' : (w.advanceAll f.others).Consistent := hw
    have hreply : perform w (.acknowledge x.id revision) f =
        (w.advanceAll f.others, !f.outcome.failed) := by
      cases hf : f.outcome <;> simp only [perform, performAlone, hf, Outcome.failed] <;> rfl
    rw [hreply]
    rcases hfailed : f.outcome.failed with _ | _
    · refine (ih hw').mono ?_ fun _ h => h
      rintro ok w'' ⟨hlater', hok⟩
      exact ⟨hlater.trans hlater', hok⟩
    obtain ⟨hobserved, hcurrent⟩ := hf.2 hfailed
    have hquiet : Quiet (w.advanceAll f.others) := (⟨hw, hcurrent⟩ : Quiet w).later hlater
    exact ⟨hlater, fun _ => ⟨hobserved, hquiet.current⟩⟩

/-- What `PublicationCommitted` leaves. -/
structure Committed (p : PendingBaseline) (w : World) (e : Option SyncError) (w' : World) : Prop where
  quiet : Quiet w'
  prepared : w'.prepared = w.prepared
  observed : w'.observed = w.observed
  baseline : w'.baseline = some p.value
  failed : e ≠ none → w'.observed = none

/-- Committing stores the baseline and leaves a quiet world. -/
lemma safe_commitBaseline (h : Journal p w) :
    (commitBaseline p p.commitID).Safe perform quiet (fun r w' => Committed p w r.2 w') Quiet w := by
  simp only [commitBaseline, safe_bind]
  refine safe_request.mpr ⟨fun hcut => ⟨h.consistent, hcut⟩, fun f hf => ?_⟩
  have hbaseline : Journal p { w.advanceAll f.others with baseline := some p.value } :=
    { h with }
  refine (safe_acknowledgeAll hbaseline.consistent p.resolutions).mono ?_ fun _ h => h
  rintro ok w' ⟨hlater, hok⟩
  have hjournal := hbaseline.later hlater
  rcases ok with _ | _
  · obtain ⟨hobserved, hcurrent⟩ := hok rfl
    exact ⟨⟨hjournal.consistent, hcurrent⟩, hlater.prepared_eq, hlater.observed_eq, hlater.baseline_eq,
      fun _ => hobserved⟩
  simp only [Bool.not_true, Bool.false_eq_true, if_false]
  split
  · next hplain =>
    exact ⟨quiet_of_none (hjournal.plain hplain), hlater.prepared_eq, hlater.observed_eq,
      hlater.baseline_eq, fun hne => absurd rfl hne⟩
  · simp only [safe_bind]
    refine safe_request.mpr ⟨fun hcut => ⟨hjournal.consistent, hcut⟩, fun f' _ => ?_⟩
    exact ⟨quiet_of_none rfl, hlater.prepared_eq, hlater.observed_eq, hlater.baseline_eq,
      fun hne => absurd rfl hne⟩

/-- So it does after the journal of its resolutions was written. -/
lemma safe_commitPending (h : Journal p w) :
    (commitPending p p.commitID).Safe perform quiet (fun r w' => Committed p w r.2 w') Quiet w := by
  unfold commitPending
  split
  · exact safe_commitBaseline h
  rename_i hne
  simp only [safe_bind]
  refine safe_request.mpr ⟨fun hcut => ⟨h.consistent, hcut⟩, fun f hf => ?_⟩
  have hjournal : Journal p { w.advanceAll f.others with
      resolutionCommit := some ⟨p.commitID, p.value, p.resolutions⟩ } :=
    ⟨.inr rfl, fun hplain => absurd hplain hne, h.value⟩
  exact (safe_commitBaseline hjournal).mono (fun _ _ hcommitted => { hcommitted with }) fun _ h => h

/-- A publication that is taken for landed. Where `PublicationCommitted` refuses it, nothing has
changed. -/
lemma safe_answerLanded (h : Journal p w) (hquiet : Quiet w)
    (hobserved : ∀ c head, w.observed = some (c, head) → w.prepared.lookup c = some p.value)
    (hrefused : prepared.commitID = "" ∨ p.commitID ≠ prepared.commitID ∨
      revision ≠ prepared.commitID → Observed w (failure .baselineInvalid)) :
    (answerLanded (some p) prepared revision).Safe perform quiet Ends Quiet w := by
  simp only [answerLanded, publicationCommitted, safe_bind]
  split
  · next hcheck => exact ⟨hquiet, hrefused hcheck⟩
  rename_i hcheck
  push Not at hcheck
  obtain ⟨-, hid, rfl⟩ := hcheck
  rw [← hid]
  refine (safe_commitPending h).mono ?_ fun _ h => h
  rintro ⟨pending, e⟩ w' hcommitted
  cases e with
  | some =>
    exact ⟨hcommitted.quiet, observed_of_none (hcommitted.failed (by simp)) _⟩
  | none =>
    refine ⟨hcommitted.quiet, fun c head hc => .inl ⟨rfl, ?_, ?_⟩⟩
    · rw [hcommitted.observed] at hc
      rw [hcommitted.prepared, hobserved c head hc]
      rfl
    · rw [hcommitted.observed] at hc
      rw [hcommitted.baseline, hcommitted.prepared, hobserved c head hc]

end

/-! ### Pushing -/

/-- A prepared commit that the remote does not have. -/
structure Unpublished (p : PendingBaseline) (prepared : PreparedPublication) (w : World) : Prop where
  id : p.commitID = prepared.commitID
  nonempty : prepared.commitID ≠ ""
  value : p.value.remoteRevision = p.commitID
  known : (w.repository.objects.lookup p.commitID).isSome
  new : p.commitID ∉ w.repository.published
  prepared : w.prepared.lookup p.commitID = some p.value
  observed : w.observed = none

/-- After an uncertain push: the commit is the head, or the remote does not have it and there is no
journal. -/
structure Doubtful (p : PendingBaseline) (prepared : PreparedPublication) (w : World) : Prop where
  id : p.commitID = prepared.commitID
  nonempty : prepared.commitID ≠ ""
  journal : Journal p w
  prepared : w.prepared.lookup p.commitID = some p.value
  observed : w.observed = none
  outcome : w.repository.head = p.commitID ∨ w.resolutionCommit = none ∧
    (w.repository.objects.lookup p.commitID).isSome ∧ p.commitID ∉ w.repository.published

section
variable {w w' : World} {f : Fate} {p : PendingBaseline} {prepared : PreparedPublication}
  {revision : String}

lemma Unpublished.later (h : Unpublished p prepared w) (hl : Later w w') : Unpublished p prepared w' := by
  obtain ⟨hknown, hnew⟩ := hl.unpublished h.known h.new
  exact { h with
    known := hknown, new := hnew, prepared := by rw [hl.prepared_eq, h.prepared]
    observed := hl.observed_eq.trans h.observed }

/-- An uncertain push leaves a quiet world. -/
lemma Doubtful.quiet (h : Doubtful p prepared w) : Quiet w := by
  rcases h.outcome with hhead | ⟨hnone, -⟩
  · exact h.journal.quiet hhead
  · exact quiet_of_none hnone

/-- What `ObserveCommit` sees when no one else pushes: nothing, or the head. -/
lemma safe_observeCommit {Q : Option (Bool × String) → World → Prop} {c : String}
    (hquiet : Quiet w) (hnone : Q none w)
    (hsome : Q ((commitReachable w.repository.objects c w.repository.head 10000).map
      (·, w.repository.head)) { w with observed := some (c, w.repository.head) }) :
    (request (.observeCommit c)).Safe perform quiet Q Quiet w := by
  refine safe_request.mpr ⟨fun _ => hquiet, fun f hf => ?_⟩
  have hothers : f.others = [] := hf.2
  have hsame : w.advanceAll f.others = w := by
    rw [hothers]
    rfl
  simp only [perform, performAlone, hsame]
  split
  · exact hnone
  · exact hsome

/-- The observation after an uncertain push decides it. -/
lemma safe_observe (h : Doubtful p prepared w) :
    (observe (some p) prepared).Safe perform quiet Ends Quiet w := by
  simp only [observe, safe_bind]
  refine safe_observeCommit h.quiet ⟨h.quiet, observed_of_none h.observed _⟩ ?_
  have hquiet : Quiet { w with observed := some (prepared.commitID, w.repository.head) } :=
    { h.quiet with }
  have hjournal : Journal p { w with observed := some (prepared.commitID, w.repository.head) } :=
    { h.journal with }
  have hprepared : ∀ c head, some (prepared.commitID, w.repository.head) = some (c, head) →
      w.prepared.lookup c = some p.value := by
    rintro c head heq
    cases heq
    rw [← h.id, h.prepared]
  rcases h.outcome with hhead | ⟨-, hknown, hnew⟩
  · -- the commit has landed and is still the head
    have hrevision : w.repository.head = prepared.commitID := hhead.trans h.id
    rw [hrevision] at hquiet hjournal hprepared ⊢
    rw [commitReachable, if_pos rfl]
    refine safe_answerLanded hjournal hquiet hprepared ?_
    rintro (hempty | hid | hrev)
    · exact absurd hempty h.nonempty
    · exact absurd h.id hid
    · exact absurd rfl hrev
  · -- the remote does not have the commit, so that no answer is taken for a landing
    have hlost : ∀ answer : Answer,
        Observed { w with observed := some (prepared.commitID, w.repository.head) } answer := by
      intro answer c head heq
      cases heq
      rw [← h.id]
      exact .inr ⟨hknown, hnew, w.repository.head_published⟩
    rcases commitReachable w.repository.objects prepared.commitID w.repository.head 10000 with _ | landed
    · exact ⟨hquiet, hlost _⟩
    cases landed with
    | false => exact ⟨hquiet, hlost _⟩
    | true => exact safe_answerLanded hjournal hquiet hprepared fun _ => hlost _

/-- `PublicationAborted` removes the journal of a commit that was not pushed. -/
lemma safe_publicationAborted (h : Journal p w) (hid : p.commitID = prepared.commitID)
    (hobserved : w.observed = none) :
    (publicationAborted prepared).Safe perform quiet
      (fun _ w' => w'.resolutionCommit = none ∧ w'.observed = none) Quiet w := by
  simp only [publicationAborted, safe_bind]
  refine safe_readResolutionCommit (fun hcut => ⟨h.consistent, hcut⟩) fun f hf => ?_
  have hl := Later.of_allows hf
  rcases h.journal with hnone | hsome
  · rw [hnone]
    exact ⟨hl.resolutionCommit_eq.trans hnone, hl.observed_eq.trans hobserved⟩
  rw [hsome]
  simp only [hid, ne_eq, not_true_eq_false, if_false, safe_bind]
  refine safe_request.mpr ⟨fun hcut => ⟨(h.later hl).consistent, hcut⟩, fun f' _ => ?_⟩
  exact ⟨rfl, hl.observed_eq.trans hobserved⟩

lemma safe_refused (h : Journal p w) (hid : p.commitID = prepared.commitID)
    (hobserved : w.observed = none) :
    (do
      let _ ← publicationAborted prepared
      return (some p, failure .publish) : Operation (Option PendingBaseline × Answer)).Safe perform
      quiet Ends Quiet w := by
  simp only [safe_bind]
  refine (safe_publicationAborted h hid hobserved).mono ?_ fun _ h => h
  rintro _ w' ⟨hnone, hobserved'⟩
  exact ⟨quiet_of_none hnone, observed_of_none hobserved' _⟩

/-- The ends of a push. -/
inductive Pushed (p : PendingBaseline) (prepared : PreparedPublication) :
    World → PublishResult × Bool → Prop where
  | landed {w : World} (h : Journal p w) (hhead : w.repository.head = p.commitID)
      (hobserved : w.observed = none) : Pushed p prepared w (⟨prepared.commitID, true, false⟩, false)
  | refused {w : World} (h : Journal p w) (hobserved : w.observed = none) :
      Pushed p prepared w (noResult, true)
  | doubtful {w : World} (h : Doubtful p prepared w) :
      Pushed p prepared w (⟨"", false, true⟩, true)

/-- A push that moves the branch has landed, whether or not it is reported. -/
lemma pushed_of_forwards {r : PublishResult × Bool} (h : Unpublished p prepared w)
    (hj : Journal p w) (hf : w.repository.forwards prepared.commitID = true) :
    (r = (⟨prepared.commitID, true, false⟩, false) ∨ r = (⟨"", false, true⟩, true)) →
    Pushed p prepared { w with repository := w.repository.push prepared.commitID } r := by
  obtain ⟨hhead, -, -⟩ := w.repository.push_of_forwards hf
  have hhead' := hhead.trans h.id.symm
  have hjournal : Journal p { w with repository := w.repository.push prepared.commitID } :=
    { hj with }
  rintro (rfl | rfl)
  · exact .landed hjournal hhead' h.observed
  · exact .doubtful ⟨h.id, h.nonempty, hjournal, h.prepared, h.observed, .inl hhead'⟩

lemma pushed_of_lost (h : Unpublished p prepared w) (hj : Journal p w)
    (hnone : w.resolutionCommit = none) : Pushed p prepared w (⟨"", false, true⟩, true) :=
  .doubtful ⟨h.id, h.nonempty, hj, h.prepared, h.observed, .inr ⟨hnone, h.known, h.new⟩⟩

/-- Every push ends in one of the ways that `Pushed` lists. -/
lemma pushed_performPublish {outcome : Outcome} (h : Unpublished p prepared w) (hj : Journal p w)
    (hrule : w.resolutionCommit.isSome = true → ∀ landed ∈ outcome.doubt,
      landed = true ∧ w.repository.forwards prepared.commitID = true) :
    Pushed p prepared (performPublish w prepared outcome).1 (performPublish w prepared outcome).2 := by
  -- an uncertain push under a journal has landed
  have hlost : ∀ landed, outcome = .uncertain landed →
      landed = false ∨ w.repository.forwards prepared.commitID = false →
      w.resolutionCommit = none := by
    rintro landed rfl hor
    rcases hjournal : w.resolutionCommit with _ | _
    · rfl
    obtain ⟨hl, hf⟩ := hrule (by rw [hjournal]; rfl) landed rfl
    rcases hor with hor | hor
    · rw [hl] at hor
      cases hor
    · rw [hf] at hor
      cases hor
  cases outcome with
  | ok =>
    simp only [performPublish]
    split
    · next hhead =>
      exact .landed hj (hhead.trans h.id.symm) h.observed
    · split
      · next hf => exact pushed_of_forwards h hj hf (.inl rfl)
      · exact .refused hj h.observed
  | uncertain landed =>
    rcases landed with _ | _
    · exact pushed_of_lost h hj (hlost false rfl (.inl rfl))
    simp only [performPublish]
    cases hf : w.repository.forwards prepared.commitID with
    | true => exact pushed_of_forwards h hj hf (.inr rfl)
    | false =>
      rw [w.repository.push_of_not_forwards hf]
      exact pushed_of_lost h hj (hlost true rfl (.inr hf))
  | fails | late | prepared | leased => exact .refused hj h.observed

/-- Pushing a prepared commit, with its observation. -/
lemma safe_publish (h : Unpublished p prepared w) (hj : Journal p w) :
    (publish (some p) prepared).Safe perform quiet Ends Quiet w := by
  simp only [publish, safe_bind]
  refine safe_request.mpr ⟨fun hcut => ⟨hj.consistent, hcut⟩, fun f hf => ?_⟩
  have hl := Later.of_allows hf
  have hpushed := pushed_performPublish (h.later hl) (hj.later hl) hf.2
  have hperform : perform w (.publish prepared) f =
      performPublish (w.advanceAll f.others) prepared f.outcome := rfl
  rw [hperform]
  generalize performPublish (w.advanceAll f.others) prepared f.outcome = out at hpushed ⊢
  obtain ⟨w', r⟩ := out
  cases hpushed with
  | landed hjournal hhead hobserved =>
    simp only [ne_eq, h.nonempty, not_false_eq_true, and_self, if_true]
    refine safe_answerLanded hjournal (hjournal.quiet hhead) ?_ fun _ => observed_of_none hobserved _
    intro c head hc
    rw [hobserved] at hc
    cases hc
  | refused hjournal hobserved =>
    exact safe_refused hjournal h.id hobserved
  | doubtful hdoubtful =>
    exact safe_observe hdoubtful

/-- `PublicationPrepared` writes the journal of a publication with resolutions. -/
lemma safe_publicationPrepared (h : Unpublished p prepared w) (hnone : w.resolutionCommit = none) :
    (publicationPrepared (some p) prepared).Safe perform quiet
      (fun e w' => e = none ∧ Unpublished p prepared w' ∧ Journal p w') Quiet w := by
  have hcheck : ¬ (prepared.commitID = "" ∨ p.commitID ≠ prepared.commitID) := by
    rintro (hempty | hid)
    · exact h.nonempty hempty
    · exact hid h.id
  simp only [publicationPrepared, if_neg hcheck]
  split
  · exact ⟨rfl, h, .inl hnone, fun _ => hnone, h.value⟩
  rename_i hne
  simp only [safe_bind]
  refine safe_request.mpr ⟨fun _ => quiet_of_none hnone, fun f hf => ?_⟩
  have hl := h.later (.of_allows hf)
  refine ⟨rfl, { hl with }, .inr ?_,
    fun hplain => absurd hplain hne, h.value⟩
  rw [h.id]
  rfl

/-- `Sync` from the renewal of the lease on. -/
lemma safe_publishRenewed (h : Unpublished p prepared w) (hnone : w.resolutionCommit = none) :
    (publishRenewed (some p) prepared).Safe perform quiet Ends Quiet w := by
  -- up to the journal every answer is a failure without an observation
  have hcalm : Calm w := ⟨quiet_of_none hnone, h.observed⟩
  simp only [publishRenewed, safe_bind]
  refine safe_passive_quiet rfl hcalm.consistent fun w₁ renewed h₁ => ?_
  have hcalm₁ := hcalm.later h₁
  rcases renewed with _ | _ | _
  · exact hcalm₁.ends _
  · exact hcalm₁.ends _
  simp only [safe_bind]
  refine safe_passive_quiet rfl hcalm₁.consistent fun w₂ authorized h₂ => ?_
  have hcalm₂ := hcalm₁.later h₂
  rcases authorized with _ | _
  · exact hcalm₂.ends _
  simp only [Bool.not_true, Bool.false_eq_true, if_false, safe_bind]
  refine safe_passive_quiet rfl hcalm₂.consistent fun w₃ current h₃ => ?_
  have hl := (h₁.trans h₂).trans h₃
  have hcalm₃ := hcalm₂.later h₃
  rcases current with _ | _
  · exact hcalm₃.ends _
  simp only
  split
  · exact hcalm₃.ends _
  simp only [safe_bind]
  refine (safe_publicationPrepared (h.later hl) (hl.resolutionCommit_eq.trans hnone)).mono ?_ fun _ h => h
  rintro e w₄ ⟨rfl, hunpublished, hjournal⟩
  exact safe_publish hunpublished hjournal

end

/-! ### Whole calls of `Sync` -/

/-- What a successful `Reconcile` leaves. -/
structure Ready (p : PendingBaseline) (prepared : PreparedPublication) (w : World) : Prop where
  journal : w.resolutionCommit = none
  value : p.value.remoteRevision = p.commitID
  commit : prepared.hasChanges = true → Unpublished p prepared w

section
variable {w w' : World} {p : PendingBaseline} {prepared : PreparedPublication} {revision : String}

/-- `Reconcile` first finishes the publication in the journal. -/
lemma safe_recoverResolutionCommit (h : Calm w) : (recoverResolutionCommit revision).Safe perform quiet
      (fun e w' => Calm w' ∧ (e = none → w'.resolutionCommit = none)) Quiet w := by
  simp only [recoverResolutionCommit, safe_bind]
  refine safe_readResolutionCommit (fun _ => h.toQuiet) fun f hf => ?_
  have hl := Later.of_allows hf
  have hcalm := h.later hl
  rcases hj : w.resolutionCommit with _ | j
  · exact ⟨hcalm, fun _ => hl.resolutionCommit_eq.trans hj⟩
  generalize w.advanceAll f.others = w₁ at hl hcalm
  simp only [h.consistent j hj, ne_eq, not_true_eq_false, if_false]
  split
  · exact ⟨hcalm, by simp⟩
  simp only [safe_bind]
  refine safe_request.mpr ⟨fun _ => hcalm.toQuiet, fun f' hf' => ?_⟩
  have hconsistent : World.Consistent { w₁.advanceAll f'.others with baseline := some j.baseline } :=
    (hcalm.later (.of_allows hf')).consistent
  refine (safe_acknowledgeAll hconsistent j.resolutions).mono ?_ fun _ h => h
  rintro ok w₂ ⟨hl₂, hok⟩
  have hconsistent₂ : w₂.Consistent := by
    unfold World.Consistent
    rw [hl₂.resolutionCommit_eq]
    exact hconsistent
  rcases ok with _ | _
  · obtain ⟨hobserved₂, hcurrent⟩ := hok rfl
    exact ⟨⟨⟨hconsistent₂, hcurrent⟩, hobserved₂⟩, by simp⟩
  simp only [Bool.not_true, Bool.false_eq_true, if_false, safe_bind]
  refine safe_request.mpr ⟨fun hcut => ⟨hconsistent₂, hcut⟩, fun f'' _ => ?_⟩
  exact ⟨⟨quiet_of_none rfl, hl₂.observed_eq.trans hcalm.observed⟩, fun _ => rfl⟩

/-- The end of `Reconcile` prepares a commit that the remote does not have. -/
lemma performPrepare_spec (hnone : w.resolutionCommit = none) (hobserved : w.observed = none)
    (revision : String) (outcome : Outcome) :
    (performPrepare w revision outcome).1.resolutionCommit = none ∧
      (performPrepare w revision outcome).1.observed = none ∧
      ∀ id a, (performPrepare w revision outcome).2 = .committed id a →
        Unpublished (a.pending id) ⟨revision, id, true⟩ (performPrepare w revision outcome).1 := by
  unfold performPrepare
  split
  · exact ⟨hnone, hobserved, nofun⟩
  · split
    · next h =>
      refine ⟨hnone, hobserved, fun id a heq => ?_⟩
      obtain ⟨rfl, rfl⟩ := Preparation.committed.inj heq
      refine ⟨rfl, h.1, rfl, ?_, h.2.1, ?_, hobserved⟩
      · simp [Accepted.pending, Repository.commit]
      · simp [Accepted.pending]
    · exact ⟨hnone, hobserved, nofun⟩
  · exact ⟨hnone, hobserved, nofun⟩
  · exact ⟨hnone, hobserved, nofun⟩

variable (pending : Option PendingBaseline)

/-- `Reconcile` leaves a calm world, and what it prepares is not on the remote. -/
lemma safe_reconcile (h : Calm w) : (reconcile pending revision).Safe perform quiet (fun r w' => Calm w' ∧
      ∀ prepared, r.2 = .ok prepared → ∃ p, r.1 = some p ∧ Ready p prepared w') Quiet w := by
  simp only [reconcile, safe_bind]
  refine (safe_recoverResolutionCommit h).mono ?_ fun _ h => h
  rintro e w₁ ⟨hcalm, hresolved⟩
  cases e with
  | some => exact ⟨hcalm, by simp⟩
  | none =>
    simp only [safe_bind]
    refine safe_request.mpr ⟨fun _ => hcalm.toQuiet, fun f hf => ?_⟩
    have hl := Later.of_allows hf
    obtain ⟨hnone, hobserved₂, hcommit⟩ := performPrepare_spec
      (hl.resolutionCommit_eq.trans (hresolved rfl)) (hcalm.later hl).observed revision f.outcome
    have hperform : perform w₁ (.prepare revision) f =
        performPrepare (w₁.advanceAll f.others) revision f.outcome := rfl
    rw [hperform]
    generalize performPrepare (w₁.advanceAll f.others) revision f.outcome = out at hnone hobserved₂ hcommit
    obtain ⟨w₂, r⟩ := out
    cases r with
    | failed => exact ⟨⟨quiet_of_none hnone, hobserved₂⟩, by simp⟩
    | clean =>
      refine ⟨⟨quiet_of_none hnone, hobserved₂⟩, fun prepared hprepared => ?_⟩
      cases hprepared
      exact ⟨_, rfl, hnone, rfl, by simp⟩
    | committed id a =>
      refine ⟨⟨quiet_of_none hnone, hobserved₂⟩, fun prepared hprepared => ?_⟩
      cases hprepared
      exact ⟨_, rfl, hnone, rfl, fun _ => hcommit id a rfl⟩

/-- Without changes the remote revision is committed. -/
lemma safe_unchanged (h : Ready p prepared w) (hobserved : w.observed = none) :
    (answerLanded (some p) prepared revision).Safe perform quiet Ends Quiet w := by
  refine safe_answerLanded ⟨.inl h.journal, fun _ => h.journal, h.value⟩ (quiet_of_none h.journal) ?_
    fun _ => observed_of_none hobserved _
  intro c head hc
  rw [hobserved] at hc
  cases hc

/-- `Sync` under the lease. -/
lemma safe_syncLeased (h : Calm w) (remote baseRevision : String) :
    (syncLeased pending remote baseRevision).Safe perform quiet Ends Quiet w := by
  simp only [syncLeased, safe_bind]
  refine safe_passive_quiet rfl h.consistent fun w₁ verified h₁ => ?_
  have hcalm₁ := h.later h₁
  rcases verified with _ | _
  · exact hcalm₁.ends _
  simp only
  split
  · exact hcalm₁.ends _
  simp only [safe_bind]
  refine (safe_reconcile pending hcalm₁).mono ?_ fun _ h => h
  rintro ⟨pending', r⟩ w₂ ⟨hcalm₂, hprepared⟩
  rcases r with _ | prepared
  · exact hcalm₂.ends _
  obtain ⟨p, hp, hready⟩ := hprepared prepared rfl
  obtain rfl : pending' = some p := hp
  simp only
  split
  · exact safe_unchanged hready hcalm₂.observed
  rename_i hchanges
  split
  · exact hcalm₂.ends _
  · exact safe_publishRenewed (hready.commit (Bool.eq_true_of_not_eq_false hchanges))
      hready.journal

lemma safe_syncWithLease (h : Calm w) (remote : String) :
    (syncWithLease pending remote).Safe perform quiet Ends Quiet w := by
  simp only [syncWithLease, safe_bind]
  refine safe_passive_quiet rfl h.consistent fun w₁ base h₁ => ?_
  rcases base with _ | base
  · exact (h.later h₁).ends _
  simp only [safe_bind]
  refine (safe_syncLeased pending (h.later h₁) remote base).mono ?_ fun _ h => h
  rintro ⟨pending', answer⟩ w₂ ⟨hquiet₂, hobserved₂⟩
  refine safe_passive_quiet rfl hquiet₂.consistent fun w₃ released h₃ => ?_
  refine ⟨hquiet₂.later h₃, ?_⟩
  -- a lease that cannot be released adds an error to the result
  have hanswer := hobserved₂.later h₃
  simp only
  split <;> exact hanswer

/-- `Sync` as a whole. -/
lemma safe_sync (h : Calm w) : (sync pending).Safe perform quiet Ends Quiet w := by
  simp only [sync, safe_bind]
  refine safe_passive_quiet rfl h.consistent fun w₁ remote h₁ => ?_
  have hcalm₁ := h.later h₁
  rcases remote with _ | remote
  · exact hcalm₁.ends _
  simp only
  split
  · exact hcalm₁.ends _
  simp only [safe_bind]
  refine safe_passive_quiet rfl hcalm₁.consistent fun w₂ authorized h₂ => ?_
  have hcalm₂ := hcalm₁.later h₂
  rcases authorized with _ | _
  · exact hcalm₂.ends _
  simp only [Bool.not_true, Bool.false_eq_true, if_false, safe_bind]
  refine (safe_reconcile pending hcalm₂).mono ?_ fun _ h => h
  rintro ⟨pending', r⟩ w₃ ⟨hcalm₃, hprepared⟩
  rcases r with _ | prepared
  · exact hcalm₃.ends _
  obtain ⟨p, hp, hready⟩ := hprepared prepared rfl
  obtain rfl : pending' = some p := hp
  simp only
  split
  · exact safe_unchanged hready hcalm₃.observed
  · exact safe_syncWithLease (some p) hcalm₃ remote

end

/-! ### Runs -/

/-- A step that is not disturbed. -/
def Undisturbed (s : State) : Action → Prop
  | .sync fates => (sync s.pending).Obeys perform quiet s.world.unobserved fates
  | .advance others => s.world.landed = true → others = []
  | .restart => True

/-- The invariant of undisturbed runs. -/
structure Settled (s : State) : Prop where
  quiet : Quiet s.world
  reported : s.world.observed ≠ none → ∃ answer, s.last = some answer ∧ Observed s.world answer

/-- Every undisturbed step keeps the invariant. -/
lemma keeps_settled : KeepsUnder step Undisturbed Settled := by
  intro s a s' hs hcond hstep
  cases a with
  | sync =>
    have hstart : Calm s.world.unobserved := { hs.quiet with observed := rfl }
    have hend := (safe_sync s.pending hstart).exec hcond
    simp only [step] at hstep
    split at hstep <;> next hexec =>
      rw [hexec] at hend
      cases hstep
      first
        | exact ⟨hend.1, fun _ => ⟨_, rfl, hend.2⟩⟩
        | exact ⟨{ hend with }, fun hne => absurd rfl hne⟩
  | advance others =>
    cases hstep
    have hl : Later s.world (s.world.advanceAll others) := by
      refine ⟨.advanceAll _ _, rfl, fun hj => ?_⟩
      rw [hcond hj]
      rfl
    refine ⟨hs.quiet.later hl, fun hne => ?_⟩
    obtain ⟨answer, hlast, hobserved⟩ := hs.reported hne
    exact ⟨answer, hlast, hobserved.later hl⟩
  | restart =>
    cases hstep
    exact { hs with }

/-- The fates of a `Reconcile` that has nothing to do. -/
def goodFate : Call → Fate
  | .prepare _ => alone (.prepared (.clean ⟨∅, ∅, []⟩))
  | _ => alone .ok

/-- Every call has such a fate. -/
def goodRules : Rules World Call Fate := ⟨fun _ c f => f = goodFate c, fun _ => False⟩

lemma safe_acknowledgeAll_good {revision : String} (resolutions : List ConflictResolution) (w : World) :
    (acknowledgeAll revision resolutions).Safe perform goodRules (fun ok _ => ok = true)
      (fun _ => True) w := by
  induction resolutions generalizing w with
  | nil => rfl
  | cons x resolutions ih =>
    simp only [acknowledgeAll, safe_bind]
    refine safe_request.mpr ⟨fun _ => trivial, fun f hf => ?_⟩
    obtain rfl : f = goodFate (.acknowledge x.id revision) := hf
    exact ih _

variable {w : World}

/-- In a quiet world the journal is finished when all calls succeed. -/
lemma Quiet.safe_recoverResolutionCommit_good (h : Quiet w) :
    (recoverResolutionCommit w.repository.head).Safe perform goodRules (fun e _ => e = none)
      (fun _ => True) w := by
  simp only [recoverResolutionCommit, safe_bind]
  refine safe_readResolutionCommit (fun _ => trivial) fun f _ => ?_
  rcases hj : w.resolutionCommit with _ | j
  · rfl
  simp only [h.consistent j hj, h.current j hj, ne_eq, not_true_eq_false, if_false, safe_bind]
  refine ⟨fun _ => trivial, fun f' _ => ?_⟩
  refine (safe_acknowledgeAll_good j.resolutions _).mono ?_ fun _ h => h
  rintro ok w' rfl
  simp only [Bool.not_true, Bool.false_eq_true, if_false, safe_bind]
  exact ⟨fun _ => trivial, fun _ _ => rfl⟩

/-- So a quiet world is not wedged. -/
lemma Quiet.reconcile_succeeds (h : Quiet w) (pending : Option PendingBaseline) :
    ∃ fates pending' prepared w', (reconcile pending w.repository.head).exec perform w fates =
        .finished (pending', .ok prepared) w' := by
  have hsafe : (reconcile pending w.repository.head).Safe perform goodRules
      (fun r _ => ∃ prepared, r.2 = .ok prepared) (fun _ => True) w := by
    simp only [reconcile, safe_bind]
    refine h.safe_recoverResolutionCommit_good.mono ?_ fun _ h => h
    rintro e w' rfl
    simp only [safe_bind]
    refine safe_request.mpr ⟨fun _ => trivial, fun f hf => ?_⟩
    obtain rfl : f = goodFate (.prepare w.repository.head) := hf
    exact ⟨_, rfl⟩
  obtain ⟨fates, ⟨pending', r⟩, w', hexec, prepared, hr⟩ := hsafe.exists_finished
  obtain rfl : r = .ok prepared := hr
  exact ⟨fates, pending', prepared, w', hexec⟩

namespace State

/-- The helper before its first `Sync`. -/
def start (repository : Repository) (baseline : Option Baseline) : State :=
  ⟨⟨repository, baseline, none, ∅, none⟩, none, none⟩

/-- Where the commit of an uncertain push could be reached from the head observed then, the last `Sync`
has reported it as landed, and the baseline prepared for it is committed. -/
def Reported (s : State) : Prop :=
  ∀ c head, s.world.observed = some (c, head) → Reachable s.world.repository.objects c head →
    (∃ answer, s.last = some answer ∧ answer.result.landed = true) ∧
      (s.world.prepared.lookup c).isSome ∧ s.world.baseline = s.world.prepared.lookup c

/-- In every undisturbed run, uncertain publications that have landed are reported and committed, and no
journal makes every later `Reconcile` fail. -/
theorem quiet_publications_resolve {repository : Repository} {baseline : Option Baseline}
    {actions : List Action} {s : State}
    (hm : Meets step Undisturbed (start repository baseline) actions)
    (hr : run step (start repository baseline) actions = some s) : s.Reported ∧ ¬ s.Wedged := by
  have hstart : Settled (start repository baseline) :=
    ⟨quiet_of_none rfl, fun hne => absurd rfl hne⟩
  have hs := keeps_settled.run hstart hm hr
  constructor
  · intro c head hobserved hreachable
    obtain ⟨answer, hlast, hanswer⟩ := hs.reported (by rw [hobserved]; nofun)
    rcases hanswer c head hobserved with ⟨hlanded, hprepared, hbaseline⟩ | ⟨-, hnew, hhead⟩
    · exact ⟨⟨answer, hlast, hlanded⟩, hprepared, hbaseline⟩
    · exact absurd hreachable (s.world.repository.not_reachable hnew hhead)
  · intro hwedged
    obtain ⟨fates, pending, prepared, w', hexec⟩ := hs.quiet.reconcile_succeeds s.pending
    have huncertain := hwedged [] s rfl fates pending _ w' hexec
    cases huncertain

/-! ### Examples of runs -/

instance : DecidablePred World.Current := fun w =>
  inferInstanceAs (Decidable (∀ j ∈ w.resolutionCommit, j.commitID = w.repository.head))

/-- The rules can be decided. -/
def decidableAllows (w : World) (c : Call) (f : Fate) : Decidable (quiet.allows w c f) :=
  match c with
  | .observeCommit _ => inferInstanceAs (Decidable
      ((w.landed = true → f.others = []) ∧ f.others = []))
  | .publish p => inferInstanceAs (Decidable
      ((w.landed = true → f.others = []) ∧ (w.resolutionCommit.isSome = true →
        ∀ landed ∈ f.outcome.doubt,
          landed = true ∧ (w.advanceAll f.others).repository.forwards p.commitID = true)))
  | .acknowledge _ _ => inferInstanceAs (Decidable
      ((w.landed = true → f.others = []) ∧ (f.outcome.failed = true →
        w.observed = none ∧ w.Current)))
  | .fetch | .credential | .acquireLease _ | .renewLease | .releaseLease | .prepare _
  | .readResolutionCommit | .writeResolutionCommit _ | .removeResolutionCommit
  | .writeBaseline _ => inferInstanceAs (Decidable
      ((w.landed = true → f.others = []) ∧ True))

instance (s : State) (a : Action) : Decidable (Undisturbed s a) :=
  match a with
  | .sync fates => Prog.decidableObeys perform quiet decidableAllows
      (fun w => inferInstanceAs (Decidable w.Current)) (sync s.pending) s.world.unobserved fates
  | .advance others => inferInstanceAs (Decidable (s.world.landed = true → others = []))
  | .restart => inferInstanceAs (Decidable True)

/-- A repository with one commit. -/
def oneCommit : Repository where
  objects := AList.insert "a" [] ∅
  published := ["a"]
  head := "a"
  head_published := List.mem_cons_self
  published_known := by
    intro c hc
    obtain rfl := List.mem_singleton.mp hc
    exact ⟨[], rfl⟩
  published_closed := by
    intro c hc parents hparents p hp
    obtain rfl := List.mem_singleton.mp hc
    obtain rfl : [] = parents := some.inj hparents
    cases hp

/-- A resolution in favour of the local file. -/
def keepLocal : ConflictResolution where
  id := "r"
  path := "file"
  conflictRevision := "0"
  expectedRemoteRevision := "a"
  scope := .path
  action := .keepLocal

/-- `Reconcile` uses the resolution and makes a commit. -/
def resolved (id : String) : Fate := alone (.prepared (.committed id ⟨∅, ∅, [keepLocal]⟩))

/-- `Sync` from the end of its first `Reconcile` up to its push. -/
def untilPush (id : String) (push : Fate) : List Fate :=
  [resolved id, alone .ok, alone .ok, alone .ok, resolved id, alone .ok, alone .ok, alone .ok, alone .ok,
    push]

/-- A push that is cut off after it has landed. -/
def cutOff : Fate := alone (.uncertain true)

/-- A push is refused because another writer is faster. The next one is cut off after it has landed, and
the helper dies; then `Sync` resolves the journal, makes another commit, and observes it after another
push that is cut off. -/
def uncertainPushes : List Action :=
  [.sync (List.replicate 3 (alone .ok) ++ untilPush "b" ⟨[⟨"x", ["a"]⟩], .ok⟩ ++
      List.replicate 3 (alone .ok)),
    .sync (List.replicate 3 (alone .ok) ++ untilPush "c" cutOff),
    .sync (List.replicate 6 (alone .ok) ++ untilPush "d" cutOff ++ List.replicate 6 (alone .ok))]

/-- In that run all publications are resolved. -/
theorem uncertainPushes_resolve : ∃ s, run step (start oneCommit none) uncertainPushes = some s ∧
    s.world.observed = some ("d", "d") ∧ s.Reported ∧ ¬ s.Wedged :=
  exists_and_of_any (by decide +kernel) fun _ hs => quiet_publications_resolve (by decide +kernel) hs

/-- The push is cut off after it has landed, and another writer pushes before the helper observes it. -/
def overtaken : List Action :=
  [.sync (List.replicate 3 (alone .ok) ++ untilPush "c" cutOff ++ [⟨[⟨"d", ["c"]⟩], .ok⟩, alone .ok])]

/-- In that run the commit can be reached from the observed head, but `Sync` does not report it, and
every later `Reconcile` fails. -/
theorem overtaken_publication : ∃ s, run step (start oneCommit none) overtaken = some s ∧
    ¬ s.Reported ∧ s.Wedged := by
  have hrun : ((run step (start oneCommit none) overtaken).map fun s =>
      ((s.world.observed, s.last.map fun answer => answer.result.landed),
        s.world.resolutionCommit.map fun j => (j.commitID, j.baseline.remoteRevision),
        s.world.repository.head, (s.world.repository.objects.lookup "c").isSome,
        (s.world.repository.objects.lookup "d").any ("c" ∈ ·))) =
      some ((some ("c", "d"), some false), some ("c", "c"), "d", true, true) := by
    decide +kernel
  obtain ⟨s, hs, heq⟩ := map_eq_some_iff.mp hrun
  simp only [Prod.mk.injEq, map_eq_some_iff, any_eq_true, decide_eq_true_eq] at heq
  obtain ⟨⟨hobserved, answer, hlast, hlanded⟩, ⟨j, hj, hid, hbaseline⟩, hhead, hc, parents, hd,
    hparent⟩ := heq
  refine ⟨s, hs, fun hreported => ?_, wedged_of_stale (j := j) ⟨hj, ?_, ?_, ?_⟩⟩
  · have hreachable : Reachable s.world.repository.objects "c" "d" :=
      .parent hd hparent (.self "c")
    obtain ⟨⟨answer', hanswer, hlanded'⟩, -⟩ := hreported "c" "d" hobserved hreachable
    cases hlast.symm.trans hanswer
    rw [hlanded] at hlanded'
    cases hlanded'
  · rw [hbaseline, hid]
  · rw [hid, hc]
  · rw [hid, hhead]
    decide

end State

end Paperboat.ConfigSync.Publisher

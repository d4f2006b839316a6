import Paperboat.Lib.JsonText
import Paperboat.Session.Effects
import Paperboat.Session.Recovery

/-!
# Inputs are written at most once

`Write` reserves the key of an input in the store, passes the bytes to the terminal, records the decision
in the journal and stores it. The helper can die between any two of these, and the journal is rebuilt
from the store. One half of the invariant is about the store (`InputsStored`), the other says the same of
the journal of a managed session (`InputsKnown`).

A key with a stored decision, now with other bytes, never reaches the terminal. The journal reports it
as a conflict, but `Write` asks the journal only when the session runs in the generation of the key and
the attachment is there (`retry_after_restart`).
-/

namespace Paperboat.Session

open List Option InputJournal FinMap ManagerError

open Store (Database Transaction Record SessionRow)

/-! ### Reports -/

/-- The status that a report states. -/
def reportedStatus : Except ManagerError InputDecision → Option InputStatus
  | .ok decision => some decision.status
  | .error (.undecided decision _) => some decision.status
  | .error _ => none

/-- The input was reported as accepted, at once or as a duplicate. -/
def InputReport.Accepted (r : InputReport) : Prop :=
  ∃ decision, r.outcome = .ok decision ∧
    (decision.status = .accepted ∨ decision.status = .duplicate)

/-- The input was reported as rejected or unknown. -/
def InputReport.Retracts (r : InputReport) : Prop :=
  reportedStatus r.outcome = some .rejected ∨ r.outcome = .error (.input .unknown)

/-- A plain error takes no acceptance back. -/
lemma PlainError.not_retracts {e : ManagerError} (h : PlainError e) (id : String) (key : InputKey) :
    ¬ InputReport.Retracts ⟨id, key, .error e⟩ := by
  rintro (hstatus | hunknown)
  · cases e with
    | undecided decision e' => exact h.2 decision e' rfl
    | _ => cases hstatus
  · exact h.1 (Except.error.inj hunknown)

/-! ### The store -/

/-- The stored decision about an input. -/
def storedDecision (db : Database) (id : String) (key : InputKey) : Option InputDecision :=
  (db.lookup id).bind fun row => row.decisions.lookup key

/-- What the store knows about the inputs that were written and reported. -/
structure InputsStored (cfg : ManagerConfig) (w : World) (reports : List InputReport) : Prop where
  written : ∀ x ∈ w.writes, x.key.incomplete = false ∧
    ∃ d, storedDecision w.db x.id x.key = some d ∧ d.hash = cfg.sha256 x.data
  once : (w.writes.map fun x => (x.id, x.key)).Nodup
  accepted : ∀ r ∈ reports, r.Accepted →
    ∃ d, storedDecision w.db r.id r.key = some d ∧ d.status ≠ .rejected
  firm : reports.Pairwise fun r r' => r.id = r'.id → r.key = r'.key → r.Accepted → ¬ r'.Retracts

section
variable {cfg : ManagerConfig} {w w' : World} {reports : List InputReport} {db db₀ : Database}
  {id name : String} {key : InputKey} {row row₀ : SessionRow}

lemma InputsStored.congr (h : InputsStored cfg w reports)
    (hdb : ∀ id key, storedDecision w'.db id key = storedDecision w.db id key)
    (hwrites : w'.writes = w.writes) : InputsStored cfg w' reports :=
  ⟨by simpa only [hwrites, hdb] using h.written, hwrites ▸ h.once,
    by simpa only [hdb] using h.accepted, h.firm⟩

/-- Decisions are stored with the row of their session. -/
lemma Focus.storedDecision_eq (hF : Focus db₀ id row db) (id' : String) (key : InputKey) :
    storedDecision db id' key =
      if id' = id then row.decisions.lookup key else storedDecision db₀ id' key := by
  unfold storedDecision
  rw [hF id']
  split <;> rfl

lemma Focus.storedDecision_of_decisions (hF : Focus db₀ id row db)
    (h₀ : db₀.lookup id = some row₀) (hrow : row.decisions = row₀.decisions) (id' : String)
    (key : InputKey) : storedDecision db id' key = storedDecision db₀ id' key := by
  rw [hF.storedDecision_eq]
  split
  · next heq => rw [heq, storedDecision, h₀, hrow, bind_some]
  · rfl

/-- Recovery keeps the decisions. -/
lemma RecoveringAll.storedDecision_eq (h : RecoveringAll db₀ db) (id : String) (key : InputKey) :
    storedDecision db id key = storedDecision db₀ id key := by
  unfold storedDecision
  cases h₀ : db₀.lookup id with
  | some row =>
    obtain ⟨row', hrow', hrec⟩ := h.forth id row h₀
    rw [hrow', bind_some, bind_some, hrec.decisions]
  | none =>
    rcases hrow : db.lookup id with _ | row'
    · rfl
    obtain ⟨row, hrow₀, -⟩ := h.back id row' hrow
    rw [h₀] at hrow₀
    cases hrow₀

/-- `Create` stores no decision. -/
lemma Creation.storedDecision_eq (h : Creation db₀ id name db) (id' : String) (key : InputKey) :
    storedDecision db id' key = storedDecision db₀ id' key := by
  rcases h with hsame | ⟨hunused, row, hrow, hF⟩
  · rw [storedDecision, hsame id', storedDecision]
  rw [hF.storedDecision_eq]
  split
  · next heq =>
    rw [heq, storedDecision, hunused.id]
    cases hrow <;> rfl
  · rfl

/-- A decision about an input that the store does not know yet, and perhaps a write of its bytes. -/
lemma InputsStored.extend {data : List UInt8} {d : InputDecision} {new : List Written}
    (h : InputsStored cfg w reports) (hnone : storedDecision w.db id key = none)
    (hdb : ∀ id' key', storedDecision w'.db id' key' =
      if id' = id ∧ key' = key then some d else storedDecision w.db id' key')
    (hhash : d.hash = cfg.sha256 data) (hwrites : w'.writes = w.writes ++ new)
    (hnew : new = [] ∨ new = [⟨id, key, data⟩] ∧ key.incomplete = false) :
    InputsStored cfg w' reports := by
  -- what was stored before is not about this input
  have hold : ∀ id' key' d', storedDecision w.db id' key' = some d' →
      storedDecision w'.db id' key' = some d' := by
    intro id' key' d' hstored
    rw [hdb, if_neg]
    · exact hstored
    · rintro ⟨rfl, rfl⟩
      rw [hnone] at hstored
      cases hstored
  refine ⟨fun x hx => ?_, ?_, fun r hr haccepted => ?_, h.firm⟩
  · rw [hwrites] at hx
    rcases mem_append.mp hx with hx | hx
    · obtain ⟨hkey, d', hstored, hd'⟩ := h.written x hx
      exact ⟨hkey, d', hold _ _ _ hstored, hd'⟩
    rcases hnew with rfl | ⟨rfl, hkey⟩
    · cases hx
    · obtain rfl := mem_singleton.mp hx
      exact ⟨hkey, d, by rw [hdb, if_pos ⟨rfl, rfl⟩], hhash⟩
  · rw [hwrites, map_append]
    rcases hnew with rfl | ⟨rfl, -⟩
    · simpa using h.once
    refine nodup_append.mpr ⟨h.once, nodup_singleton _, ?_⟩
    rintro _ hmem _ hself rfl
    obtain ⟨x, hx, heq⟩ := mem_map.mp hmem
    rw [map_singleton, mem_singleton, ← heq, Prod.mk.injEq] at hself
    obtain ⟨-, d', hstored, -⟩ := h.written x hx
    rw [hself.1, hself.2, hnone] at hstored
    cases hstored
  · obtain ⟨d', hstored, hd'⟩ := h.accepted r hr haccepted
    exact ⟨d', hold _ _ _ hstored, hd'⟩

/-- A report that agrees with the store. -/
lemma InputsStored.report {r : InputReport} (h : InputsStored cfg w reports)
    (haccepted : r.Accepted → ∃ d, storedDecision w.db r.id r.key = some d ∧ d.status ≠ .rejected)
    (hfirm : ∀ r' ∈ reports, r'.id = r.id → r'.key = r.key → r'.Accepted → ¬ r.Retracts) :
    InputsStored cfg w (reports ++ [r]) := by
  refine ⟨h.written, h.once, forall_mem_concat h.accepted haccepted, pairwise_append.mpr
    ⟨h.firm, pairwise_singleton _ _, fun r' hr' r'' hr'' => ?_⟩⟩
  obtain rfl := mem_singleton.mp hr''
  exact hfirm r' hr'

/-- A session is deleted, and with it what was written to it and reported about it. -/
lemma InputsStored.erase (h : InputsStored cfg w reports) (id : String) :
    InputsStored cfg (Helper.forget id { w with db := w.db.erase id })
      (reports.filter (·.id ≠ id)) := by
  have hdb : ∀ id' key, id' ≠ id →
      storedDecision (w.db.erase id) id' key = storedDecision w.db id' key := by
    intro id' key hne
    rw [storedDecision, AList.lookup_erase_ne hne, storedDecision]
  refine ⟨fun x hx => ?_, ?_, fun r hr haccepted => ?_, h.firm.filter _⟩
  · obtain ⟨hx, hne⟩ := mem_filter.mp hx
    obtain ⟨hkey, d, hstored, hd⟩ := h.written x hx
    exact ⟨hkey, d, (hdb _ _ (of_decide_eq_true hne)).trans hstored, hd⟩
  · exact h.once.sublist (filter_sublist.map _)
  · obtain ⟨hr, hne⟩ := mem_filter.mp hr
    obtain ⟨d, hstored, hd⟩ := h.accepted r hr haccepted
    exact ⟨d, (hdb _ _ (of_decide_eq_true hne)).trans hstored, hd⟩

end

/-! ### The journal -/

/-- What the journal of a managed session knows about its inputs. -/
structure InputsKnown (reports : List InputReport) (id : String) (row : SessionRow)
    (m : ManagedSession) : Prop where
  stored : ∀ key d, m.inputs.decisions.lookup key = some d →
    ∃ d', row.decisions.lookup key = some d' ∧ (d'.status = d.status ∨ d'.status = .uncertain)
  /-- Only a key with an empty part can be in the store alone. -/
  known : ∀ key d, row.decisions.lookup key = some d → key.incomplete = false →
    ∃ d', m.inputs.decisions.lookup key = some d' ∧ d'.hash = d.hash
  current : m.lifecycle.state = .running → m.inputs.current = m.lifecycle.generation
  accepted : ∀ r ∈ reports, r.id = id → r.Accepted →
    ∃ d, m.inputs.decisions.lookup r.key = some d ∧ d.status ≠ .rejected

section
variable {cfg : ManagerConfig} {reports : List InputReport} {id : String} {row row' : SessionRow}
  {m m' : ManagedSession} {key : InputKey} {data : List UInt8} {new : List Written}
  {outcome : Except ManagerError InputDecision}

/-- Only the decisions of a row and a session count, and the generation of a session that runs. -/
lemma InputsKnown.congr (h : InputsKnown reports id row m)
    (hrow : row'.decisions = row.decisions) (hm : m'.inputs.decisions = m.inputs.decisions)
    (hcurrent : m'.lifecycle.state = .running → m'.inputs.current = m'.lifecycle.generation) :
    InputsKnown reports id row' m' :=
  ⟨by rw [hrow, hm]; exact h.stored, by rw [hrow, hm]; exact h.known, hcurrent,
    by rw [hm]; exact h.accepted⟩

variable {r : InputReport}

lemma InputsKnown.report (h : InputsKnown reports id row m)
    (hr : r.id = id → r.Accepted →
      ∃ d, m.inputs.decisions.lookup r.key = some d ∧ d.status ≠ .rejected) :
    InputsKnown (reports ++ [r]) id row m :=
  { h with accepted := forall_mem_concat h.accepted hr }

/-- A report about another session. -/
lemma InputsKnown.other {id' : String} (h : InputsKnown reports id row m) (hr : r.id = id')
    (hne : id ≠ id') : InputsKnown (reports ++ [r]) id row m :=
  h.report fun hid => absurd (hid.symm.trans hr) hne

lemma InputJournal.lookup_record_self (j : InputJournal) (key : InputKey) (d : InputDecision) :
    (j.record key d).decisions.lookup key = some d :=
  AList.lookup_insert _

/-- A decision about an input that neither side knew. -/
lemma InputsKnown.record {stored d : InputDecision} (h : InputsKnown reports id row m)
    (hmemory : m.inputs.decisions.lookup key = none)
    (hstatus : stored.status = d.status ∨ stored.status = .uncertain) (hhash : d.hash = stored.hash) :
    InputsKnown reports id (withDecision row key stored)
      { m with inputs := m.inputs.record key d } := by
  -- what the journal knew before is not about this input
  have hold : ∀ key' d', m.inputs.decisions.lookup key' = some d' →
      (m.inputs.record key d).decisions.lookup key' = some d' :=
    fun _ _ => lookup_insert_of_none hmemory
  refine ⟨forall_insert ⟨stored, AList.lookup_insert _, hstatus⟩ fun key' d' hlookup hne => ?_,
    forall_insert (fun _ => ⟨d, lookup_record_self _ _ _, hhash⟩) fun key' d' hlookup _ hkey => ?_,
    h.current, fun r hr hid haccepted => ?_⟩
  · rw [withDecision, AList.lookup_insert_ne hne]
    exact h.stored key' d' hlookup
  · obtain ⟨d'', hlookup', hd''⟩ := h.known key' d' hlookup hkey
    exact ⟨d'', hold _ _ hlookup', hd''⟩
  · obtain ⟨d', hlookup, hd'⟩ := h.accepted r hr hid haccepted
    exact ⟨d', hold _ _ hlookup, hd'⟩

lemma retried_status (previous : InputDecision) : (retried previous).status =
      if previous.status = .accepted then .duplicate else previous.status := rfl

lemma status_ne_rejected {status : InputStatus} (h : status = .accepted ∨ status = .duplicate) :
    status ≠ .rejected := by
  rcases h with rfl | rfl <;> nofun

/-- `Write` keeps what the journal knows. -/
lemma InputsKnown.submitted (h : InputsKnown reports id row m)
    (hs : Submitted cfg id m key data row m' outcome row' new) :
    InputsKnown (reports ++ [⟨id, key, outcome⟩]) id row' m' := by
  cases hs with
  | refused hplain _ =>
    refine h.report ?_
    rintro - ⟨d, houtcome, -⟩
    cases houtcome
  | answered hprevious _ =>
    refine h.report ?_
    rintro - ⟨d, houtcome, hstatus⟩
    cases houtcome
    refine ⟨_, hprevious, fun hrejected => ?_⟩
    rw [retried_status, hrejected] at hstatus
    simp at hstatus
  | reserved hplain hres hbad =>
    -- the key is only new in the store, so that a part of it is empty
    have hkey : key.incomplete = true :=
      hbad.resolve_right (not_not.mpr (hres.generation.trans (h.current hres.running).symm))
    refine InputsKnown.report ⟨fun key' d hlookup => ?_,
      forall_insert (fun hcomplete => ?_) fun key' d hlookup _ => h.known key' d hlookup, h.current,
      h.accepted⟩ ?_
    · obtain ⟨d', hd', hstatus⟩ := h.stored key' d hlookup
      exact ⟨d', (AList.lookup_insert_ne (ne_of_lookup hres.memory hlookup)).trans hd', hstatus⟩
    · rw [hkey] at hcomplete
      cases hcomplete
    · rintro - ⟨d, houtcome, -⟩
      cases houtcome
  | stored hres _ _ =>
    rw [withDecision_withDecision]
    refine (h.record hres.memory (.inl rfl) rfl).report ?_
    rintro - ⟨d, houtcome, hstatus⟩
    cases houtcome
    exact ⟨_, lookup_record_self _ _ _, status_ne_rejected hstatus⟩
  | unstored _ hres _ _ =>
    refine InputsKnown.report (h.record hres.memory (.inr rfl) rfl) ?_
    rintro - ⟨d, houtcome, -⟩
    cases houtcome

end

/-! ### The helper -/

/-- The invariant of the helper that is up. -/
structure InputsOK (cfg : ManagerConfig) (w : World) (sessions : Sessions)
    (reports : List InputReport) : Prop where
  stored : InputsStored cfg w reports
  known : Linked (InputsKnown reports) w.db sessions

/-- Inputs may be cut off and calls may fail anywhere. -/
def anything : Rules World Call Fate := ⟨fun _ _ _ => True, fun _ => True⟩

section
variable {cfg : ManagerConfig} {w w' : World} {sessions : Sessions} {reports : List InputReport}
  {id name : String} {m : ManagedSession} {key : InputKey} {data : List UInt8} {row row' : SessionRow}

/-- The other operations leave the decisions alone. -/
lemma sessionClosed_decisions (D D' : FinMap InputKey InputDecision) :
    SessionClosed fun row m => row.decisions = D ∧ m.inputs.decisions = D' ∧
      (m.lifecycle.state = .running → m.inputs.current = m.lifecycle.generation) where
  goto := fun h hnext _ hrunning _ =>
    ⟨h.1, h.2.1, fun hr => absurd ((ManagedSession.goto_state hnext).symm.trans hr) hrunning⟩
  launched := fun h _ => ⟨h.1, h.2.1, fun _ => rfl⟩
  stopped := fun h => h
  resized := fun _ _ h => h
  saved := fun h => h
  attached := fun _ h _ => h
  flushing := fun _ h => h
  produced := fun h _ _ => h
  cleared := fun h _ => h
  advanced := fun h _ => h
  appended := fun h _ => h

/-- Every other operation on a session keeps the invariant. -/
lemma InputsOK.safe_program (h : InputsOK cfg w sessions reports)
    (hm : sessions.lookup id = some m) (op : SessionOp) :
    (op.program cfg id m).Safe perform anything
      (fun m' w' => InputsOK cfg w' (sessions.insert id m') reports)
      (fun w' => InputsStored cfg w' reports) w := by
  obtain ⟨row₀, h₀, hknown⟩ := h.known id m hm
  have hstored : ∀ w' m', During (fun row m' => row.decisions = row₀.decisions ∧
      m'.inputs.decisions = m.inputs.decisions ∧
        (m'.lifecycle.state = .running → m'.inputs.current = m'.lifecycle.generation))
      w.db id w.writes m' w' → InputsStored cfg w' reports := by
    rintro w' m' ⟨row, hF, hdecisions, hw⟩
    exact h.stored.congr (hF.storedDecision_of_decisions h₀ hdecisions.1) hw
  refine ((sessionClosed_decisions row₀.decisions m.inputs.decisions).safe_program
    (fun w' m' hw' _ => hstored w' m' hw')
    ⟨row₀, .start h₀, ⟨rfl, rfl, hknown.current⟩, rfl⟩ op).mono ?_ fun _ h => h
  rintro m' w' hw'
  refine ⟨hstored w' m' hw', ?_⟩
  obtain ⟨row, hF, ⟨hrow, hm', hcurrent⟩, -⟩ := hw'
  exact hF.linked h.known (hknown.congr hrow hm' hcurrent)

/-- Recovery rebuilds the journals from the store. -/
lemma InputsStored.safe_recover (h : InputsStored cfg w reports) : (recover cfg).Safe perform anything
      (fun r w' => match r with
        | .ok sessions => InputsOK cfg w' sessions reports
        | .error _ => InputsStored cfg w' reports) (fun w' => InputsStored cfg w' reports) w := by
  refine (Session.safe_recover (fun _ _ _ => trivial) w).mono ?_ fun w' hw' =>
    h.congr hw'.1.storedDecision_eq hw'.2
  rintro r w' ⟨hall, hw, hr⟩
  have hstored := h.congr hall.storedDecision_eq hw
  rcases r with _ | _
  · exact hstored
  refine ⟨hstored, fun id m hm => ?_⟩
  obtain ⟨row, row', -, hrow', -, hrec⟩ := hr id m hm
  obtain ⟨hlifecycle, -, -⟩ := recoverLifecycle_eq_ok.mp hrec.lifecycle
  refine ⟨row', hrow', fun key d hd => ⟨d, by rw [← hrec.decisions, hd], .inl rfl⟩,
    fun key d hd _ => ⟨d, by rw [hrec.decisions, hd], rfl⟩,
    fun _ => by rw [hrec.current, hlifecycle], fun r hr hid haccepted => ?_⟩
  obtain ⟨d, hd, hstatus⟩ := hstored.accepted r hr haccepted
  rw [storedDecision, hid, hrow', bind_some] at hd
  exact ⟨d, by rw [hrec.decisions, hd], hstatus⟩

lemma InputsOK.safe_create (h : InputsOK cfg w sessions reports) :
    (create cfg sessions id name).Safe perform anything (fun r w' => match r with
        | .ok m => InputsOK cfg w' (sessions.insert id m) reports
        | .error _ => InputsOK cfg w' sessions reports)
      (fun w' => InputsStored cfg w' reports) w := by
  refine (Session.safe_create w).mono ?_ fun w' hw' => h.stored.congr hw'.1.storedDecision_eq hw'.2
  rintro r w' ⟨hw, hr⟩
  rcases r with _ | _
  · exact ⟨h.stored.congr hr.storedDecision_eq hw, hr.linked h.known⟩
  obtain ⟨hunused, hF, rfl⟩ := hr
  have hcreation : Creation w.db id name w'.db := .inr ⟨hunused, _, .running, hF⟩
  refine ⟨h.stored.congr hcreation.storedDecision_eq hw, hF.linked h.known
    ⟨fun key d hd => ?_, fun key d hd => ?_, fun _ => rfl, fun r hr hid haccepted => ?_⟩⟩
  · simp [createdSession, newBoundedInputJournal] at hd
  · simp at hd
  · -- nothing was reported about the new session
    obtain ⟨d, hd, -⟩ := h.stored.accepted r hr haccepted
    rw [storedDecision, hid, hunused.id] at hd
    cases hd

/-- With a session its reports are forgotten. -/
lemma InputsOK.safe_delete (h : InputsOK cfg w sessions reports) : (delete id m).Safe perform anything
      (fun r w' => match r with
        | .ok _ => InputsOK cfg (Helper.forget id w') (sessions.erase id) (reports.filter (·.id ≠ id))
        | .error _ => InputsOK cfg w' sessions reports) (fun w' => InputsStored cfg w' reports) w := by
  refine (Session.safe_delete w).mono ?_ fun w' hw' => hw' ▸ h.stored
  rintro r w' hr
  rcases r with _ | _
  · obtain rfl : w' = w := hr
    exact h
  obtain rfl : w' = { w with db := w.db.erase id } := hr
  refine ⟨h.stored.erase id, fun id' m' hm' => ?_⟩
  obtain ⟨row, hrow, hknown⟩ := Linked.erase h.known id id' m' hm'
  exact ⟨row, hrow, { hknown with accepted := fun r hr => hknown.accepted r (mem_filter.mp hr).1 }⟩

variable {d : InputDecision} {new : List Written}

/-- A new key gets its first decision. -/
lemma InputsStored.put (h : InputsStored cfg w reports) (h₀ : w.db.lookup id = some row)
    (hF : Focus w.db id (withDecision row key d) w'.db) (hnone : row.decisions.lookup key = none)
    (hhash : d.hash = cfg.sha256 data) (hwrites : w'.writes = w.writes ++ new)
    (hnew : new = [] ∨ new = [⟨id, key, data⟩] ∧ key.incomplete = false) :
    InputsStored cfg w' reports := by
  have hrow : ∀ key', storedDecision w.db id key' = row.decisions.lookup key' := by
    intro key'
    rw [storedDecision, h₀, bind_some]
  refine h.extend (by rw [hrow, hnone]) (fun id' key' => ?_) hhash hwrites hnew
  rw [hF.storedDecision_eq]
  by_cases hid : id' = id
  · subst hid
    rw [if_pos rfl, withDecision, lookup_insert_eq, hrow]
    simp only [true_and]
  · rw [if_neg hid, if_neg fun h => hid h.1]

variable {m' : ManagedSession} {outcome : Except ManagerError InputDecision}

/-- `Write` keeps what the store says. -/
lemma InputsStored.submitted (h : InputsStored cfg w reports) (h₀ : w.db.lookup id = some row)
    (hF : Focus w.db id row' w'.db) (hw : w'.writes = w.writes ++ new)
    (hs : Submitted cfg id m key data row m' outcome row' new) : InputsStored cfg w' reports := by
  cases hs with
  | refused | answered =>
    exact h.congr (hF.storedDecision_of_decisions h₀ rfl) (by rw [hw, append_nil])
  | reserved _ hres => exact h.put h₀ hF hres.stored rfl hw (.inl rfl)
  | stored hres hkey =>
    rw [withDecision_withDecision] at hF
    exact h.put h₀ hF hres.stored rfl hw (.inr ⟨rfl, hkey⟩)
  | unstored _ hres hkey => exact h.put h₀ hF hres.stored rfl hw (.inr ⟨rfl, hkey⟩)

lemma InputsStored.submitting (h : InputsStored cfg w reports) (h₀ : w.db.lookup id = some row)
    (hF : Focus w.db id row' w'.db) (hw : w'.writes = w.writes ++ new)
    (hs : Submitting cfg id m key data row row' new) :
    InputsStored cfg w' reports := by
  cases hs with
  | before => exact h.congr (hF.storedDecision_of_decisions h₀ rfl) (by rw [hw, append_nil])
  | reserved hres => exact h.put h₀ hF hres.stored rfl hw (.inl rfl)
  | written hres hkey => exact h.put h₀ hF hres.stored rfl hw (.inr ⟨rfl, hkey⟩)

/-- `Write` never takes back an acceptance. -/
lemma Submitted.not_retracts (hs : Submitted cfg id m key data row m' outcome row' new)
    (hd : m.inputs.decisions.lookup key = some d) (hstatus : d.status ≠ .rejected) :
    ¬ InputReport.Retracts ⟨id, key, outcome⟩ := by
  cases hs with
  | refused hplain | reserved hplain => exact hplain.not_retracts id key
  | answered hprevious =>
    cases hd.symm.trans hprevious
    rintro (hrejected | hunknown)
    · have hrejected := some.inj hrejected
      rw [retried_status] at hrejected
      split at hrejected
      · cases hrejected
      · exact hstatus hrejected
    · cases hunknown
  | stored hres | unstored _ hres => cases hres.memory.symm.trans hd

variable {r : InputReport}

lemma InputsKnown.stored_of_accepted (h : InputsKnown reports id row m)
    (hrow : w.db.lookup id = some row) (hr : r ∈ reports) (hid : r.id = id) (haccepted : r.Accepted) :
    ∃ d, storedDecision w.db r.id r.key = some d ∧ d.status ≠ .rejected := by
  obtain ⟨d, hd, hne⟩ := h.accepted r hr hid haccepted
  obtain ⟨d', hd', hstatus⟩ := h.stored r.key d hd
  refine ⟨d', by rw [storedDecision, hid, hrow, bind_some, hd'], ?_⟩
  rcases hstatus with heq | heq <;> rw [heq]
  · exact hne
  · nofun

/-- The invariant after a report about a session, with what the other sessions know. -/
lemma InputsOK.report (h : InputsOK cfg w sessions reports) (hF : Focus w.db id row' w'.db)
    (hid : r.id = id) (hstored : InputsStored cfg w' reports)
    (hknown : InputsKnown (reports ++ [r]) id row' m')
    (hfirm : ∀ r' ∈ reports, r'.id = r.id → r'.key = r.key → r'.Accepted → ¬ r.Retracts) :
    InputsOK cfg w' (sessions.insert id m') (reports ++ [r]) := by
  refine ⟨hstored.report (fun haccepted => ?_) hfirm, forall_insert ⟨row', hF.lookup, hknown⟩
    fun id' m'' hlookup hne => ?_⟩
  · exact hknown.stored_of_accepted hF.lookup (by simp) hid haccepted
  · obtain ⟨row'', hrow'', hknown''⟩ := h.known id' m'' hlookup
    exact ⟨row'', by rw [hF id', if_neg hne, hrow''], hknown''.other hid hne⟩

/-- `Write` keeps the invariant. -/
lemma InputsOK.safe_write (h : InputsOK cfg w sessions reports) (hm : sessions.lookup id = some m) :
    (write cfg id m key data).Safe perform anything
      (fun r w' => InputsOK cfg w' (sessions.insert id r.1) (reports ++ [⟨id, key, r.2⟩]))
      (fun w' => InputsStored cfg w' reports) w := by
  obtain ⟨row, h₀, hknown⟩ := h.known id m hm
  refine (Session.safe_write (.start h₀)).mono ?_ ?_
  · rintro ⟨m', outcome⟩ w' ⟨row', new, hF, hw, hs⟩
    have hs : Submitted cfg id m key data row m' outcome row' new := hs
    refine h.report hF rfl (h.stored.submitted h₀ hF hw hs) (hknown.submitted hs) ?_
    intro r' hr' hid hkey haccepted
    obtain ⟨d, hd, hstatus⟩ := hknown.accepted r' hr' hid haccepted
    rw [hkey] at hd
    exact hs.not_retracts hd hstatus
  · rintro w' ⟨row', new, hF, hw, hs⟩
    exact h.stored.submitting h₀ hF hw hs

lemma InputsKnown.query (h : InputsKnown reports id row m) (key : InputKey) :
    InputsKnown (reports ++ [⟨id, key, (m.inputs.query key).mapError input⟩]) id row m := by
  refine h.report ?_
  rintro - ⟨d, houtcome, hstatus⟩
  unfold InputJournal.query at houtcome
  rcases hlookup : m.inputs.decisions.lookup key with _ | d'
  · rw [hlookup] at houtcome
    cases houtcome
  rw [hlookup] at houtcome
  cases houtcome
  exact ⟨d', rfl, status_ne_rejected hstatus⟩

lemma InputsOK.query (h : InputsOK cfg w sessions reports) (hm : sessions.lookup id = some m) :
    InputsOK cfg w sessions
      (reports ++ [⟨id, key, (m.inputs.query key).mapError input⟩]) := by
  obtain ⟨row, h₀, hknown⟩ := h.known id m hm
  have hknown' := hknown.query key
  refine ⟨h.stored.report ?_ ?_, fun id' m' hm' => ?_⟩
  · exact hknown'.stored_of_accepted h₀ (by simp) rfl
  · intro r' hr' hid hkey haccepted
    obtain ⟨d, hd, hstatus⟩ := hknown.accepted r' hr' hid haccepted
    rw [hkey] at hd
    rw [InputJournal.query, hd]
    rintro (hrejected | hunknown)
    · exact hstatus (some.inj hrejected)
    · cases hunknown
  · obtain ⟨row', hrow', hother⟩ := h.known id' m' hm'
    by_cases heq : id' = id
    · subst heq
      cases hm.symm.trans hm'
      cases h₀.symm.trans hrow'
      exact ⟨row, h₀, hknown'⟩
    · exact ⟨row', hrow', hother.other rfl heq⟩

end

/-- The invariant of the helper about its inputs. -/
lemma inputsInv (cfg : ManagerConfig) :
    HelperInv cfg anything (fun _ => True) (InputsStored cfg) (InputsOK cfg) where
  start := fun _ _ h => h.safe_recover
  crash := fun _ _ _ h _ => h.stored
  create := fun _ _ _ _ _ h => h.safe_create
  delete := fun _ _ _ _ _ h _ => h.safe_delete
  write := fun _ _ _ _ _ _ _ _ h hm _ => h.safe_write hm
  query := fun _ _ _ _ _ _ h hm => h.query hm
  on := fun _ _ _ _ _ op h hm => h.safe_program hm op

/-! ### Repeated keys -/

section
variable (cfg : ManagerConfig) (w : World) (id : String) {m : ManagedSession} {key : InputKey}
  (data : List UInt8) (fates : List Fate) {d : InputDecision}

/-- A key that the journal has with another digest is a conflict, and nothing is written. -/
lemma exec_write_of_conflict (h : CanWrite m key) (hkey : key.incomplete = false)
    (hd : m.inputs.decisions.lookup key = some d) (hhash : d.hash ≠ cfg.sha256 data) :
    (write cfg id m key data).exec perform w fates = .finished (m, .error (.input .conflict)) w := by
  have hstate : ¬ (m.lifecycle.state ≠ .running ∨ m.process = false ∨
      key.generation ≠ m.lifecycle.generation) := by
    rintro (hne | hne | hne)
    · exact hne h.running
    · rw [h.process] at hne
      cases hne
    · exact hne h.generation
  have hlookup : m.inputs.lookup key (cfg.sha256 data) = .error .conflict := by
    rw [InputJournal.lookup, hkey, hd]
    simp only [Bool.false_eq_true, if_false]
    rw [if_pos hhash]
  unfold write
  rw [if_neg hstate, if_neg (not_not.mpr h.attached), InputJournal.query, hd]
  simp only [writeInput, hlookup]
  rfl

end

namespace Helper

lemma obeys_anything (cfg : ManagerConfig) (s : Helper) (a : Action) : s.Obeys cfg anything a := by
  have hobeys : ∀ {α : Type} (p : Operation α) (fates : List Fate),
      p.Obeys perform anything s.world fates := fun p fates =>
    Prog.Obeys.of_forall (fun _ _ _ => trivial) (fun _ => trivial) p s.world fates
  unfold Helper.Obeys
  split
  · exact hobeys _ _
  · trivial
  · exact hobeys _ _
  · exact fun m _ => hobeys _ _
  · exact fun m _ => hobeys _ _
  · exact fun m _ => hobeys _ _
  · trivial

lemma keeps_inputs (cfg : ManagerConfig) :
    Keeps (step cfg) (HelperInv.Holds (InputsStored cfg) (InputsOK cfg)) :=
  fun s a _ hs hstep => (inputsInv cfg).keeps hs ⟨s.obeys_anything cfg a, trivial⟩ hstep

lemma initial_inputs (cfg : ManagerConfig) : HelperInv.Holds (InputsStored cfg) (InputsOK cfg) initial :=
  (⟨nofun, nodup_nil, nofun, List.Pairwise.nil⟩ : InputsStored cfg ⟨∅, []⟩ [])

/-- The bytes were written under the key, or the store has a decision about them. -/
def Decided (cfg : ManagerConfig) (s : Helper) (id : String) (key : InputKey) (bytes : List UInt8) :
    Prop :=
  ⟨id, key, bytes⟩ ∈ s.world.writes ∨ key.incomplete = false ∧
    ∃ d, storedDecision s.world.db id key = some d ∧ d.hash = cfg.sha256 bytes

/-- A key with a decision, now with other bytes: nothing is written, and the answer is a conflict, or
that the session is not in the generation of the key or does not have the attachment. -/
def RefusesOtherBytes (cfg : ManagerConfig) (s : Helper) : Prop :=
  ∀ sessions, s.manager = some sessions → ∀ id m, sessions.lookup id = some m →
    ∀ key bytes, s.Decided cfg id key bytes → ∀ data, data ≠ bytes → ∀ fates,
      ∃ e, (write cfg id m key data).exec perform s.world fates =
          .finished (m, .error (.input e)) s.world ∧
        (CanWrite m key → e = .conflict) ∧
        (¬ CanWrite m key → e = .stale m.lifecycle.generation ∨ e = .invalid)

/-- In every state of every run: the bytes of a key were passed to a terminal at most once, and only
under keys without empty parts; a key with a decision is refused with other bytes, without a write; and
what was reported as accepted was not reported as rejected or unknown later. -/
theorem inputs_written_once (cfg : ManagerConfig) (hcfg : Function.Injective cfg.sha256)
    {actions : List Action} {s : Helper} (hr : run (step cfg) initial actions = some s) :
    (s.world.writes.map fun x => (x.id, x.key)).Nodup ∧
      (∀ x ∈ s.world.writes, x.key.incomplete = false) ∧ s.RefusesOtherBytes cfg ∧
      s.reports.Pairwise fun r r' => r.id = r'.id → r.key = r'.key → r.Accepted → ¬ r'.Retracts := by
  have hs := (keeps_inputs cfg).run (initial_inputs cfg) hr
  unfold HelperInv.Holds at hs
  rcases hmanager : s.manager with _ | _
  · rw [hmanager] at hs
    refine ⟨hs.once, fun x hx => (hs.written x hx).1, ?_, hs.firm⟩
    intro sessions hsessions
    rw [hmanager] at hsessions
    cases hsessions
  rw [hmanager] at hs
  refine ⟨hs.stored.once, fun x hx => (hs.stored.written x hx).1, ?_, hs.stored.firm⟩
  intro _ hsessions id m hm key bytes hdecided data hdata fates
  cases hmanager.symm.trans hsessions
  have hstored : key.incomplete = false ∧
      ∃ d, storedDecision s.world.db id key = some d ∧ d.hash = cfg.sha256 bytes := by
    rcases hdecided with hwritten | hstored
    · exact hs.stored.written _ hwritten
    · exact hstored
  obtain ⟨hkey, d, hd, hhash⟩ := hstored
  by_cases hcan : CanWrite m key
  · -- the journal has the key with the same digest
    obtain ⟨row, hrow, hknown⟩ := hs.known id m hm
    rw [storedDecision, hrow, bind_some] at hd
    obtain ⟨d', hd', hhash'⟩ := hknown.known key d hd hkey
    have hother : d'.hash ≠ cfg.sha256 data := by
      rw [hhash', hhash]
      exact fun heq => hdata (hcfg heq).symm
    have hexec := exec_write_of_conflict cfg s.world id data fates hcan hkey hd' hother
    exact ⟨.conflict, hexec, fun _ => rfl, fun h => absurd hcan h⟩
  · unfold write
    split
    · exact ⟨_, rfl, fun h => absurd h hcan, fun _ => .inl rfl⟩
    rename_i hstate
    split
    · exact ⟨_, rfl, fun h => absurd h hcan, fun _ => .inr rfl⟩
    · next hattached =>
      push Not at hstate hattached
      exact absurd ⟨hstate.1, by simpa using hstate.2.1, hstate.2.2, hattached⟩ hcan

/-! ### Examples of runs -/

/-- The small configuration with digests that do not collide. -/
def readableConfig : ManagerConfig := { smallConfig with sha256 := JsonText.latinText }

/-- A key of the attachment `t` in the first generation. -/
def firstKey : InputKey := ⟨"c", "t", 1, "i"⟩

/-- An input is written, and the helper dies before the decision is stored; after recovery and a
restart the client asks for the key and repeats it. -/
def retryAfterCrash : List Action :=
  [.start [.ok], .create "1" "a" [.ok, .ok, .ok], .on "1" (.attach "t") [],
    .write "1" firstKey [1] [.ok, .ok], .start [.ok, .ok, .ok, .ok, .ok],
    .on "1" .restart [.ok, .ok, .ok], .on "1" (.attach "t") [], .query "1" firstKey,
    .write "1" firstKey [1] [.ok, .ok, .ok]]

/-- In that run the bytes reach a terminal once. -/
theorem retryAfterCrash_writes_once : ∃ s,
    run (step readableConfig) initial retryAfterCrash = some s ∧ s.manager.isSome ∧
      s.world.writes = [⟨"1", firstKey, [1]⟩] ∧ s.RefusesOtherBytes readableConfig :=
  exists_of_any (P := fun s => s.manager.isSome ∧ s.world.writes = [⟨"1", firstKey, [1]⟩])
    (by decide +kernel) fun _ hs h =>
    ⟨h.1, h.2, (inputs_written_once readableConfig JsonText.latinText_injective hs).2.2.1⟩

/-- A key is accepted, the process exits and is restarted, and the key comes again with other bytes. -/
def otherBytesAfterRestart : List Action :=
  [.start [.ok], .create "1" "a" [.ok, .ok, .ok], .on "1" (.attach "t") [],
    .write "1" firstKey [1] [.ok, .ok, .ok], .on "1" .exit [.ok],
    .on "1" .restart [.ok, .ok, .ok], .write "1" firstKey [2] [.ok, .ok, .ok]]

/-- The repeated key is not reported as a conflict, but as one of an old generation. -/
theorem retry_after_restart : ∃ s, run (step readableConfig) initial otherBytesAfterRestart = some s ∧
      s.world.writes = [⟨"1", firstKey, [1]⟩] ∧
      s.reports.map (fun r => (r.key, r.outcome)) =
        [(firstKey, .ok ⟨.accepted, 1, "", ""⟩), (firstKey, .error (.input (.stale 2)))] :=
  exists_of_any (by decide +kernel) fun _ _ h => h

end Helper

end Paperboat.Session

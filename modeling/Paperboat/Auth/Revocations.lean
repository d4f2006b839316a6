import Paperboat.Lib.Threads

/-!
# Revocation of live connections

The model of `RevocationCache` in `internal/auth/revocations.go` and of `CredentialAuthorizer` in
`internal/server/credential.go`, with calls in parallel. A section under a lock is one step, but for
`Replace`: the flags are read without the lock, so that it sets them one by one.

A watcher carries what has happened to it (`Watcher.Cause`). Its flag says the same, but for the
watchers that a `Replace` in progress has still to flag (`Consistent`).
-/

namespace Paperboat.Auth.Revocation

open RelyGuarantee List Prod

/-! ### The cache -/

/-- `revocationWatcher`, with its jti and whether it is in the map of the cache.

The cache does not have `owner`, the authorizer that made the watcher, nor the last two fields: whether
the jti was revoked at that time, and the sets installed since then while the watcher was in the map. -/
structure Watcher where
  jti : String
  flag : Bool
  registered : Bool
  owner : Option ℕ
  revokedAtWatch : Bool
  installed : List (List String)
  deriving DecidableEq

/-- Why the watcher should be flagged. -/
def Watcher.Cause (w : Watcher) : Prop :=
  w.revokedAtWatch = true ∨ ∃ jtis ∈ w.installed, w.jti ∈ jtis

/-- `CredentialAuthorizer`: its jti, its watcher and its release function.

The authorizer does not have `closed`, whether `CloseAuthorization` was called. -/
structure Authorizer where
  jti : String
  watcher : Option ℕ
  release : Option ℕ
  closed : Bool
  deriving DecidableEq

/-- A new authorizer. -/
def Authorizer.fresh : Authorizer := ⟨"", none, none, false⟩

/-- The cache with its watchers in the order in which they were made, the thread of a `Replace` in
progress, and the authorizers.

The cache does not have `pending`, the watchers that this `Replace` has still to flag, nor `settled`,
the set of the last `Replace` that has returned. -/
structure State where
  revoked : List String
  watchers : List Watcher
  writer : Option ℕ
  authorizers : FinMap ℕ Authorizer
  pending : List ℕ
  settled : List String

/-- A new cache. -/
def State.empty : State := ⟨[], [], none, ∅, [], []⟩

/-- An authorizer; it is new if nothing was done with it. -/
def State.authorizer (s : State) (a : ℕ) : Authorizer := (s.authorizers.lookup a).getD .fresh

/-- `Watch`: a new watcher, which is in the place of the length. -/
def State.watch (s : State) (jti : String) (owner : Option ℕ) : State :=
  { s with watchers := s.watchers ++ [⟨jti, jti ∈ s.revoked, true, owner, jti ∈ s.revoked, []⟩] }

/-- Take a watcher out of the map. -/
def State.unregister (s : State) (k : ℕ) : State :=
  { s with watchers := s.watchers.modify k fun w => { w with registered := false } }

/-- Change an authorizer. -/
def State.setAuthorizer (s : State) (a : ℕ) (x : Authorizer) : State :=
  { s with authorizers := s.authorizers.insert a x }

/-- The watchers that a set flags. -/
def State.affected (s : State) (jtis : List String) : List ℕ :=
  (List.range s.watchers.length).filter fun k =>
    (s.watchers[k]?).any fun w => w.registered && w.jti ∈ jtis

/-- Install a set. -/
def State.install (s : State) (i : ℕ) (jtis : List String) : State :=
  { s with
    revoked := jtis
    watchers := s.watchers.map fun w =>
      if w.registered then { w with installed := w.installed ++ [jtis] } else w
    writer := some i
    pending := s.affected jtis }

/-- `watcher.flag.Store(true)`. -/
def State.raise (s : State) (k : ℕ) : State :=
  { s with
    watchers := s.watchers.modify k fun w => { w with flag := true }
    pending := s.pending.filter (· ≠ k) }

/-! ### Calls -/

/-- A call: the verification of the token, which gives the jti; the section of `Authorize` under the
lock of the authorizer; the encoding of the claims; `CloseAuthorization`; `Watch` and its release
function; and the steps of `Replace`. -/
inductive Call where
  | verify (a : ℕ)
  | bind (a : ℕ) (jti : String)
  | stableClaimsBinding
  | closeAuthorization (a : ℕ)
  | watch (jti : String)
  | release (k : ℕ)
  | install (jtis : List String)
  | raise (k : ℕ)
  | unlock
  deriving DecidableEq

/-- The replies to calls; `none` and `false` stand for an error. -/
abbrev Call.Reply : Call → Type
  | verify _ => Option String
  | bind _ _ | watch _ => Option ℕ
  | stableClaimsBinding => Bool
  | install _ => List ℕ
  | closeAuthorization _ | release _ | raise _ | unlock => Unit

/-- The section of `Authorize`. -/
def bindWatcher (s : State) (a : ℕ) (jti : String) : Option (State × Option ℕ) :=
  if (s.authorizer a).jti ≠ "" ∧ (s.authorizer a).jti ≠ jti then some (s, none)
  else
    match (s.authorizer a).watcher with
    | some k => some (s, some k)
    | none =>
      -- `Watch` refuses an empty jti
      if jti = "" then some (s.setAuthorizer a { s.authorizer a with jti, release := none }, none)
      else if s.writer.isSome then none
      else some ((s.watch jti (some a)).setAuthorizer a
        { s.authorizer a with
          jti
          watcher := some s.watchers.length
          release := some s.watchers.length }, some s.watchers.length)

/-- `CloseAuthorization`. -/
def closeAuthorization (s : State) (a : ℕ) : Option State :=
  match (s.authorizer a).release with
  | none => some (s.setAuthorizer a { s.authorizer a with closed := true })
  | some k =>
    if s.writer.isSome then none
    else some ((s.setAuthorizer a { s.authorizer a with release := none, closed := true }).unregister k)

/-- A call of a thread; the fate is what the environment answers. -/
def perform (i : ℕ) (s : State) : (c : Call) → Option String → Option (State × c.Reply)
  | .verify _, fate => some (s, fate)
  | .bind a jti, _ => bindWatcher s a jti
  | .stableClaimsBinding, fate => some (s, fate.isSome)
  | .closeAuthorization a, _ => (closeAuthorization s a).map fun s => (s, ())
  | .watch jti, _ =>
    if jti = "" then some (s, none)
    else if s.writer.isSome then none
    else some (s.watch jti none, some s.watchers.length)
  -- the release function of an authorizer's watcher is its own
  | .release k, _ =>
    match s.watchers[k]? with
    | some w => if s.writer.isSome ∨ w.owner ≠ none then none else some (s.unregister k, ())
    | none => none
  | .install jtis, _ =>
    if s.writer.isSome then none else some (s.install i jtis, s.affected jtis)
  | .raise k, _ => some (s.raise k, ())
  | .unlock, _ => some ({ s with writer := none, settled := s.revoked }, ())

/-- `MaxRevokedJTIs`. -/
def maxRevokedJTIs : ℕ := 10000

/-- The flags that `Replace` sets. -/
def raiseAll : List ℕ → Prog Call.Reply Unit
  | [] => pure ()
  | k :: ks => do
    Prog.request (Call.raise k)
    raiseAll ks

/-- `Replace`: whether it is accepted. -/
def replace (jtis : List String) : Prog Call.Reply Bool :=
  if maxRevokedJTIs < jtis.length ∨ "" ∈ jtis then pure false
  else do
    let ks ← Prog.request (Call.install jtis)
    raiseAll ks
    Prog.request Call.unlock
    return true

/-- `Authorize`: the jti and the watcher of the authorization. -/
def authorize (a : ℕ) : Prog Call.Reply (Option (String × ℕ)) := do
  match ← Prog.request (Call.verify a) with
  | none => return none
  | some jti =>
    match ← Prog.request (Call.bind a jti) with
    | none => return none
    | some k =>
      let encoded ← Prog.request Call.stableClaimsBinding
      return if encoded then some (jti, k) else none

/-- What runs in parallel. -/
inductive Operation where
  | authorize (a : ℕ)
  | closeAuthorization (a : ℕ)
  | watch (jti : String)
  | release (k : ℕ)
  | replace (jtis : List String)
  deriving DecidableEq

/-- The results. -/
inductive Answer where
  | authorized (a : ℕ) (result : Option (String × ℕ))
  | watched (result : Option ℕ)
  | replaced (accepted : Bool)
  | done
  deriving DecidableEq

/-- The cache with its clients. -/
def cache : Machine State Call.Reply (Option String) Operation Answer where
  program
    | .authorize a => return .authorized a (← authorize a)
    | .closeAuthorization a => do
      Prog.request (Call.closeAuthorization a)
      return .done
    | .watch jti => return .watched (← Prog.request (Call.watch jti))
    | .release k => do
      Prog.request (Call.release k)
      return .done
    | .replace jtis => return .replaced (← replace jtis)
  perform := perform
  restart _ := .empty

/-- The process lives on. -/
def alive : Conduct State Call (Option String) Operation where
  mayStart _ _ := True
  allows _ _ _ _ := True
  mayCrash _ := False

/-! ### What holds in every state -/

/-- The flags say what has happened to the watchers, and open authorizers have their watchers in the
map. -/
structure Consistent (s : State) : Prop where
  flagged : ∀ (k : ℕ) (w : Watcher), s.watchers[k]? = some w → w.flag = true → w.Cause
  caused : ∀ (k : ℕ) (w : Watcher), s.watchers[k]? = some w → w.Cause → w.flag = true ∨ k ∈ s.pending
  revoked : ∀ (k : ℕ) (w : Watcher), s.watchers[k]? = some w → w.registered = true → w.jti ∈ s.revoked →
    w.Cause
  settled : ∀ (k : ℕ) (w : Watcher), s.watchers[k]? = some w → w.registered = true → w.jti ∈ s.settled →
    w.flag = true
  quiet : s.writer = none → s.pending = [] ∧ s.settled = s.revoked
  owned : ∀ a (k : ℕ), (s.authorizer a).watcher = some k → ∃ w : Watcher, s.watchers[k]? = some w ∧
    w.jti = (s.authorizer a).jti ∧ w.jti ≠ "" ∧ w.owner = some a ∧
    ((s.authorizer a).closed = false → w.registered = true)
  released : ∀ a (k : ℕ), (s.authorizer a).release = some k → (s.authorizer a).watcher = some k

/-- Watchers stay, with their jti, their flag and their cause, and so do the watchers of authorizers. -/
structure Extends (s s' : State) : Prop where
  watchers : ∀ (k : ℕ) (w : Watcher), s.watchers[k]? = some w → ∃ w' : Watcher,
    s'.watchers[k]? = some w' ∧ w'.jti = w.jti ∧ (w.flag = true → w'.flag = true) ∧ (w.Cause → w'.Cause)
  authorizers : ∀ a (k : ℕ), (s.authorizer a).watcher = some k →
    (s'.authorizer a).watcher = some k ∧ (s'.authorizer a).jti = (s.authorizer a).jti

lemma Extends.refl (s : State) : Extends s s :=
  ⟨fun _ w h => ⟨w, h, rfl, id, id⟩, fun _ _ h => ⟨h, rfl⟩⟩

lemma Extends.trans {s₁ s₂ s₃ : State} (h : Extends s₁ s₂) (h' : Extends s₂ s₃) : Extends s₁ s₃ := by
  refine ⟨fun k w hw => ?_, fun a k hk => ?_⟩
  · obtain ⟨w', hw', hjti, hflag, hcause⟩ := h.watchers k w hw
    obtain ⟨w'', hw'', hjti', hflag', hcause'⟩ := h'.watchers k w' hw'
    exact ⟨w'', hw'', hjti'.trans hjti, fun h => hflag' (hflag h), fun h => hcause' (hcause h)⟩
  · obtain ⟨hk', hjti⟩ := h.authorizers a k hk
    obtain ⟨hk'', hjti'⟩ := h'.authorizers a k hk'
    exact ⟨hk'', hjti'.trans hjti⟩

variable {s s' : State}

/-- Every watcher changes, but it keeps its jti, its flag and its cause. -/
lemma Extends.of_map {g : ℕ → Watcher → Watcher}
    (hlookup : ∀ k : ℕ, s'.watchers[k]? = (s.watchers[k]?).map (g k))
    (hg : ∀ (k : ℕ) (w : Watcher), s.watchers[k]? = some w →
      (g k w).jti = w.jti ∧ (w.flag = true → (g k w).flag = true) ∧ (w.Cause → (g k w).Cause))
    (hauthorizers : s'.authorizers = s.authorizers) : Extends s s' := by
  refine ⟨fun k w hw => ⟨g k w, by rw [hlookup, hw]; rfl, hg k w hw⟩, fun a k hk => ?_⟩
  unfold State.authorizer at hk ⊢
  rw [hauthorizers]
  exact ⟨hk, rfl⟩

/-- What the flag of a watcher says about it. -/
structure Told (s : State) (k : ℕ) (w : Watcher) : Prop where
  flagged : w.flag = true → w.Cause
  caused : w.Cause → w.flag = true ∨ k ∈ s.pending
  revoked : w.registered = true → w.jti ∈ s.revoked → w.Cause
  settled : w.registered = true → w.jti ∈ s.settled → w.flag = true

lemma Consistent.told (h : Consistent s) {k : ℕ} {w : Watcher} (hw : s.watchers[k]? = some w) : Told s k w :=
  ⟨h.flagged k w hw, h.caused k w hw, h.revoked k w hw, h.settled k w hw⟩

/-- A step is judged by the watchers and the authorizers after it. -/
lemma Consistent.of_told (htold : ∀ (k : ℕ) (w : Watcher), s'.watchers[k]? = some w → Told s' k w)
    (h : Consistent s) (hquiet : s'.writer = none → s'.pending = [] ∧ s'.settled = s'.revoked)
    (howned : ∀ a (k : ℕ), (s.authorizer a).watcher = some k → ∃ w : Watcher, s'.watchers[k]? = some w ∧
      w.jti = (s.authorizer a).jti ∧ w.jti ≠ "" ∧ w.owner = some a ∧
      ((s.authorizer a).closed = false → w.registered = true))
    (hauthorizers : s'.authorizers = s.authorizers) : Consistent s' := by
  have hsame : s'.authorizer = s.authorizer := by
    unfold State.authorizer
    rw [hauthorizers]
  exact ⟨fun k w hw => (htold k w hw).flagged, fun k w hw => (htold k w hw).caused,
    fun k w hw => (htold k w hw).revoked, fun k w hw => (htold k w hw).settled, hquiet, hsame ▸ howned,
    hsame ▸ h.released⟩

/-- Every watcher changes, but it keeps its jti and its owner, and stays in the map if it is that of an
open authorizer. -/
lemma Consistent.of_map (h : Consistent s) {g : ℕ → Watcher → Watcher}
    (hlookup : ∀ k : ℕ, s'.watchers[k]? = (s.watchers[k]?).map (g k))
    (hg : ∀ (k : ℕ) (w : Watcher), s.watchers[k]? = some w → Told s' k (g k w) ∧ (g k w).jti = w.jti ∧
      (g k w).owner = w.owner ∧ (w.registered = true → (g k w).registered = true ∨
        ∀ a, (s.authorizer a).watcher = some k → (s.authorizer a).closed = true))
    (hquiet : s'.writer = none → s'.pending = [] ∧ s'.settled = s'.revoked)
    (hauthorizers : s'.authorizers = s.authorizers) : Consistent s' := by
  refine .of_told (fun k w hw => ?_) h hquiet (fun a k hk => ?_) hauthorizers
  · rw [hlookup] at hw
    obtain ⟨w₀, hw₀, rfl⟩ := Option.map_eq_some_iff.mp hw
    exact (hg k w₀ hw₀).1
  · obtain ⟨w, hw, hjti, hne, howner, hreg⟩ := h.owned a k hk
    obtain ⟨-, hjti', howner', hreg'⟩ := hg k w hw
    refine ⟨g k w, by rw [hlookup, hw]; rfl, hjti'.trans hjti, hjti'.symm ▸ hne, howner'.trans howner, ?_⟩
    intro hopen
    exact (hreg' (hreg hopen)).resolve_right fun hclosed => nomatch hopen.symm.trans (hclosed a hk)

/-! ### The changes one by one -/

lemma authorizer_setAuthorizer (s : State) (a b : ℕ) (x : Authorizer) :
    (s.setAuthorizer a x).authorizer b = if b = a then x else s.authorizer b := by
  unfold State.setAuthorizer State.authorizer
  rw [FinMap.lookup_insert_eq]
  split_ifs <;> rfl

variable {a : ℕ} {x : Authorizer}

/-- An authorizer may take a watcher that was made for it. -/
lemma Consistent.setAuthorizer (h : Consistent s)
    (howned : ∀ k : ℕ, x.watcher = some k → ∃ w : Watcher, s.watchers[k]? = some w ∧ w.jti = x.jti ∧
      w.jti ≠ "" ∧ w.owner = some a ∧ (x.closed = false → w.registered = true))
    (hreleased : ∀ k, x.release = some k → x.watcher = some k) : Consistent (s.setAuthorizer a x) where
  __ := h
  owned b k hk := by
    rw [authorizer_setAuthorizer] at hk ⊢
    split_ifs at hk ⊢ with hb
    · exact hb ▸ howned k hk
    · exact h.owned b k hk
  released b k hk := by
    rw [authorizer_setAuthorizer] at hk ⊢
    split_ifs at hk ⊢ with hb
    · exact hreleased k hk
    · exact h.released b k hk

lemma extends_setAuthorizer
    (hx : ∀ k, (s.authorizer a).watcher = some k → x.watcher = some k ∧ x.jti = (s.authorizer a).jti) :
    Extends s (s.setAuthorizer a x) := by
  refine ⟨fun k w hw => ⟨w, hw, rfl, id, id⟩, fun b k hk => ?_⟩
  rw [authorizer_setAuthorizer]
  split_ifs with hb
  · subst hb
    exact hx k hk
  · exact ⟨hk, rfl⟩

variable {jti : String} {owner : Option ℕ} {k : ℕ} {w : Watcher}

/-- The watchers after a new one was made. -/
lemma watch_cases (h : (s.watch jti owner).watchers[k]? = some w) :
    s.watchers[k]? = some w ∨ k = s.watchers.length ∧
      w = ⟨jti, jti ∈ s.revoked, true, owner, jti ∈ s.revoked, []⟩ := by
  rcases lt_trichotomy k s.watchers.length with hlt | rfl | hgt
  · left
    rwa [State.watch, getElem?_append_left hlt] at h
  · right
    rw [State.watch, getElem?_concat_length] at h
    exact ⟨rfl, (Option.some.inj h).symm⟩
  · rw [State.watch, getElem?_eq_none (by simp; omega)] at h
    cases h

lemma getElem?_watch (h : s.watchers[k]? = some w) : (s.watch jti owner).watchers[k]? = some w := by
  rw [State.watch, List.getElem?_append_left (List.getElem?_eq_some_iff.mp h).1]
  exact h

lemma extends_watch (s : State) (jti : String) (owner : Option ℕ) : Extends s (s.watch jti owner) :=
  ⟨fun _ w hw => ⟨w, getElem?_watch hw, rfl, id, id⟩, fun _ _ hk => ⟨hk, rfl⟩⟩

/-- A new watcher is flagged when its jti is revoked. -/
lemma Consistent.watch (h : Consistent s) (hwriter : s.writer = none) (jti : String) (owner : Option ℕ) :
    Consistent (s.watch jti owner) := by
  refine .of_told (fun k w hw => ?_) h h.quiet (fun a k hk => ?_) rfl
  · obtain hold | ⟨-, rfl⟩ := watch_cases hw
    · exact { h.told hold with }
    refine ⟨.inl, fun hcause => ?_, fun _ hmem => .inl (decide_eq_true hmem), fun _ hmem => ?_⟩
    · exact .inl (hcause.resolve_right nofun)
    · rw [show (s.watch jti owner).settled = s.revoked from (h.quiet hwriter).2] at hmem
      exact decide_eq_true hmem
  · obtain ⟨w, hw, hrest⟩ := h.owned a k hk
    exact ⟨w, getElem?_watch hw, hrest⟩

lemma getElem?_unregister (s : State) (k j : ℕ) : (s.unregister k).watchers[j]? =
      (s.watchers[j]?).map fun w => if k = j then { w with registered := false } else w := by
  rw [State.unregister, getElem?_modify]
  rfl

/-- Taking a watcher out of the map changes neither flags nor causes. -/
lemma extends_unregister (s : State) (k : ℕ) : Extends s (s.unregister k) := by
  refine .of_map (getElem?_unregister s k) (fun j w _ => ?_) rfl
  split_ifs <;> exact ⟨rfl, id, id⟩

/-- Only the watcher of a closed authorizer leaves the map. -/
lemma Consistent.unregister (h : Consistent s)
    (hclosed : ∀ a, (s.authorizer a).watcher = some k → (s.authorizer a).closed = true) :
    Consistent (s.unregister k) := by
  refine h.of_map (getElem?_unregister s k) (fun j w hw => ?_) h.quiet rfl
  have htold := h.told hw
  split_ifs with hkj
  · subst hkj
    exact ⟨⟨htold.flagged, htold.caused, nofun, nofun⟩, rfl, rfl, fun _ => .inr hclosed⟩
  · exact ⟨{ htold with }, rfl, rfl, .inl⟩

lemma getElem?_install (s : State) (i : ℕ) (jtis : List String) (k : ℕ) :
    (s.install i jtis).watchers[k]? = (s.watchers[k]?).map fun w =>
      if w.registered then { w with installed := w.installed ++ [jtis] } else w :=
  getElem?_map

variable {jtis : List String}

/-- A set affects the registered watchers of its members. -/
lemma mem_affected (hw : s.watchers[k]? = some w) :
    k ∈ s.affected jtis ↔ w.registered = true ∧ w.jti ∈ jtis := by
  have hlt : k < s.watchers.length := (List.getElem?_eq_some_iff.mp hw).1
  rw [State.affected, mem_filter, mem_range, hw]
  simp [hlt]

lemma exists_of_mem_affected (h : k ∈ s.affected jtis) : ∃ w : Watcher, s.watchers[k]? = some w := by
  have hlt := mem_range.mp (mem_of_mem_filter h)
  exact ⟨_, getElem?_eq_getElem hlt⟩

lemma cause_install : (if w.registered then { w with installed := w.installed ++ [jtis] } else w).Cause ↔
      w.Cause ∨ w.registered = true ∧ w.jti ∈ jtis := by
  unfold Watcher.Cause
  split_ifs with hreg
  · simp [or_and_right, exists_or, hreg, or_assoc]
  · simp [hreg]

/-- After a set was installed the watchers of its jtis are to be flagged. -/
lemma Consistent.install (h : Consistent s) (hwriter : s.writer = none) (i : ℕ) (jtis : List String) :
    Consistent (s.install i jtis) := by
  refine h.of_map (getElem?_install s i jtis) (fun k w hw => ?_) nofun rfl
  have htold := h.told hw
  have hkept : w.Cause → w.flag = true := by
    intro hcause
    exact (htold.caused hcause).resolve_right ((h.quiet hwriter).1 ▸ not_mem_nil)
  have hcause := @cause_install w jtis
  split_ifs at hcause ⊢ with hreg
  · refine ⟨⟨fun hflag => hcause.mpr (.inl (htold.flagged hflag)), fun hnow => ?_,
      fun _ hmem => hcause.mpr (.inr ⟨hreg, hmem⟩), htold.settled⟩, rfl, rfl, .inl⟩
    exact (hcause.mp hnow).imp hkept (mem_affected hw).mpr
  · exact ⟨{ htold with caused := fun hnow => .inl (hkept hnow), revoked := fun h => absurd h hreg },
      rfl, rfl, .inl⟩

lemma getElem?_raise (s : State) (k j : ℕ) : (s.raise k).watchers[j]? =
      (s.watchers[j]?).map fun w => if k = j then { w with flag := true } else w := by
  rw [State.raise, getElem?_modify]
  rfl

lemma extends_raise (s : State) (k : ℕ) : Extends s (s.raise k) := by
  refine .of_map (getElem?_raise s k) (fun j w _ => ?_) rfl
  split_ifs
  · exact ⟨rfl, fun _ => rfl, id⟩
  · exact ⟨rfl, id, id⟩

variable {i : ℕ}

/-- A flag is set for a cause. -/
lemma Consistent.raise (h : Consistent s) (hwriter : s.writer = some i)
    (hcause : ∃ w : Watcher, s.watchers[k]? = some w ∧ w.Cause) : Consistent (s.raise k) := by
  refine h.of_map (getElem?_raise s k) (fun j w hw => ?_) (fun hnone => nomatch hwriter.symm.trans hnone) rfl
  have htold := h.told hw
  split_ifs with hkj
  · subst hkj
    obtain ⟨w₀, hw₀, hcause₀⟩ := hcause
    cases hw₀.symm.trans hw
    exact ⟨⟨fun _ => hcause₀, fun _ => .inl rfl, htold.revoked, fun _ _ => rfl⟩, rfl, rfl, .inl⟩
  · refine ⟨⟨htold.flagged, fun hcause => ?_, htold.revoked, htold.settled⟩, rfl, rfl, .inl⟩
    refine (htold.caused hcause).imp_right fun hpending => ?_
    exact mem_filter.mpr ⟨hpending, by simpa using Ne.symm hkj⟩

/-- `Replace` returns when no flag is left to set. -/
lemma Consistent.unlock (h : Consistent s) (hpending : s.pending = []) :
    Consistent { s with writer := none, settled := s.revoked } where
  __ := h
  settled k w hw hreg hmem :=
    (h.caused k w hw (h.revoked k w hw hreg hmem)).resolve_right (hpending ▸ not_mem_nil)
  quiet _ := ⟨hpending, rfl⟩

/-! ### The calls -/

/-- What a thread relies on: the state extends, and nobody else enters the section of its `Replace`. -/
def discipline : RelyGuarantee State Answer where
  Inv := Consistent
  rely i s s' := Extends s s' ∧ (s.writer = some i → s'.writer = some i ∧ s'.pending = s.pending)
  guarantee := Extends
  Idle _ _ := True
  Done _ answer s := ∀ a jti k, answer = .authorized a (some (jti, k)) →
    (s.authorizer a).watcher = some k ∧ (s.authorizer a).jti = jti
  rely_refl _ s := ⟨.refl s, fun h => ⟨h, rfl⟩⟩
  rely_trans _ _ _ _ h h' := by
    refine ⟨h.1.trans h'.1, fun hw => ?_⟩
    obtain ⟨hw₂, hp₂⟩ := h.2 hw
    obtain ⟨hw₃, hp₃⟩ := h'.2 hw₂
    exact ⟨hw₃, hp₃.trans hp₂⟩
  guarantee_refl := .refl
  guarantee_trans := .trans
  idle_stable _ _ _ _ _ := trivial
  done_stable _ _ _ _ h hdone a jti k heq := by
    obtain ⟨hk, hjti⟩ := hdone a jti k heq
    obtain ⟨hk', hjti'⟩ := h.1.authorizers a k hk
    exact ⟨hk', hjti'.trans hjti⟩

/-- A step outside of `Replace` keeps to the discipline. -/
lemma legal_outside (hinv : Consistent s') (hext : Extends s s') (hwriter : s'.writer = s.writer)
    (hpending : s'.pending = s.pending) : discipline.Legal i s s' :=
  ⟨hinv, hext, fun _ _ => ⟨hext, fun hw => ⟨hwriter.trans hw, hpending⟩⟩⟩

lemma legal_self (hinv : Consistent s) : discipline.Legal i s s :=
  legal_outside hinv (.refl s) rfl rfl

/-- A step of the thread that is in the section of `Replace`, or enters it. -/
lemma legal_inside (hinv : Consistent s') (hext : Extends s s')
    (hwriter : ∀ j, s.writer = some j → j = i) : discipline.Legal i s s' :=
  ⟨hinv, hext, fun j hj => ⟨hext, fun hw => absurd (hwriter j hw) hj⟩⟩

/-- The section of `Authorize`: the authorizer has the watcher that it gives. -/
lemma legal_bindWatcher {r : Option ℕ} (hinv : Consistent s) (h : bindWatcher s a jti = some (s', r)) :
    discipline.Legal i s s' ∧
      ∀ k, r = some k → (s'.authorizer a).watcher = some k ∧ (s'.authorizer a).jti = jti := by
  unfold bindWatcher at h
  split at h
  · cases h
    exact ⟨legal_self hinv, nofun⟩
  rename_i hother
  split at h
  · next k hwatcher =>
    cases h
    obtain ⟨w, -, hjti, hne, -⟩ := hinv.owned a k hwatcher
    refine ⟨legal_self hinv, fun k' hk' => ⟨hwatcher.trans hk', ?_⟩⟩
    by_contra hdiff
    exact hother ⟨hjti ▸ hne, hdiff⟩
  · next hwatcher =>
    simp only [hwatcher] at h
    split_ifs at h with hempty hlocked <;> cases h
    · refine ⟨legal_outside (hinv.setAuthorizer nofun nofun)
        (extends_setAuthorizer fun k hk => ?_) rfl rfl, nofun⟩
      exact absurd (hwatcher.symm.trans hk) nofun
    have hwriter : s.writer = none := by simpa using hlocked
    refine ⟨legal_outside ((hinv.watch hwriter jti (some a)).setAuthorizer (fun k hk => ?_)
      fun k hk => hk) ((extends_watch s jti (some a)).trans (extends_setAuthorizer fun k hk => ?_))
      rfl rfl, fun k hk => ?_⟩
    · cases hk
      exact ⟨_, getElem?_concat_length, rfl, hempty, rfl, fun _ => rfl⟩
    · exact absurd (hwatcher.symm.trans hk) nofun
    · rw [authorizer_setAuthorizer, if_pos rfl]
      exact ⟨hk, rfl⟩

/-- `CloseAuthorization` takes out the watcher of the authorizer, which is closed then. -/
lemma legal_closeAuthorization (hinv : Consistent s) (h : closeAuthorization s a = some s') :
    discipline.Legal i s s' := by
  have hclose : Consistent (s.setAuthorizer a { s.authorizer a with release := none, closed := true }) := by
    refine hinv.setAuthorizer (fun k hk => ?_) nofun
    obtain ⟨w, hw, hjti, hne, howner, -⟩ := hinv.owned a k hk
    exact ⟨w, hw, hjti, hne, howner, nofun⟩
  have hext : Extends s (s.setAuthorizer a { s.authorizer a with release := none, closed := true }) :=
    extends_setAuthorizer fun k hk => ⟨hk, rfl⟩
  unfold closeAuthorization at h
  split at h
  · next hrelease =>
    cases h
    have heq : { s.authorizer a with closed := true } =
        { s.authorizer a with release := none, closed := true } := by rw [← hrelease]
    rw [heq]
    exact legal_outside hclose hext rfl rfl
  · next k hrelease =>
    split_ifs at h
    cases h
    refine legal_outside (hclose.unregister fun b hb => ?_) (hext.trans (extends_unregister _ k)) rfl rfl
    -- a watcher has one owner
    obtain ⟨w, hw, -, -, howner, -⟩ := hinv.owned a k (hinv.released a k hrelease)
    obtain ⟨w', hw', -, -, howner', -⟩ := hclose.owned b k hb
    cases hw.symm.trans hw'
    cases howner.symm.trans howner'
    rw [authorizer_setAuthorizer, if_pos rfl]

/-- A release function keeps to the discipline. -/
lemma legal_release (fate : Option String) {r : Unit} (hinv : Consistent s)
    (h : perform i s (.release k) fate = some (s', r)) :
    discipline.Legal i s s' := by
  simp only [perform] at h
  split at h
  · next w hw =>
    split_ifs at h with hblocked
    obtain rfl := congrArg fst (Option.some.inj h)
    refine legal_outside (hinv.unregister fun a ha => ?_) (extends_unregister s k) rfl rfl
    obtain ⟨w', hw', -, -, howner, -⟩ := hinv.owned a k ha
    cases hw.symm.trans hw'
    exact absurd (.inr (by simp [howner])) hblocked
  · cases h

/-! ### The programs -/

/-- The flags that are left to set are those of watchers with a cause, and no others are needed. -/
structure Raising (i : ℕ) (ks : List ℕ) (s : State) : Prop where
  writer : s.writer = some i
  pending : ∀ k ∈ s.pending, k ∈ ks
  cause : ∀ k ∈ ks, ∃ w : Watcher, s.watchers[k]? = some w ∧ w.Cause

variable {ks : List ℕ}

lemma Extends.cause (h : Extends s s') (hcause : ∃ w : Watcher, s.watchers[k]? = some w ∧ w.Cause) :
    ∃ w : Watcher, s'.watchers[k]? = some w ∧ w.Cause := by
  obtain ⟨w, hw, hcause⟩ := hcause
  obtain ⟨w', hw', -, -, hcause'⟩ := h.watchers k w hw
  exact ⟨w', hw', hcause' hcause⟩

lemma Raising.stable (hrely : discipline.rely i s s') (h : Raising i ks s) : Raising i ks s' := by
  obtain ⟨hext, hmine⟩ := hrely
  obtain ⟨hwriter, hpending⟩ := hmine h.writer
  exact ⟨hwriter, fun k hk => h.pending k (hpending ▸ hk), fun k hk => hext.cause (h.cause k hk)⟩

/-- One flag less is left to set. -/
lemma Raising.raise (h : Raising i (k :: ks) s) : Raising i ks (s.raise k) := by
  refine ⟨h.writer, fun j hj => ?_, fun j hj => (extends_raise s k).cause (h.cause j (.tail _ hj))⟩
  obtain ⟨hmem, hne⟩ := mem_filter.mp hj
  exact (mem_cons.mp (h.pending j hmem)).resolve_left (by simpa using hne)

/-- Setting all the flags. -/
lemma guarded_raiseAll (ks : List ℕ) (h : Raising i ks s) :
    discipline.Guarded alive perform i (fun _ s => Raising i [] s) (raiseAll ks) s := by
  induction ks generalizing s with
  | nil => exact h
  | cons k ks ih =>
    refine guarded_bind.mpr (guarded_request h
      (fun _ _ hrely _ => Raising.stable hrely) fun s₁ fate s₂ r hK hinv _ hperform => ?_)
    obtain rfl : s₁.raise k = s₂ := congrArg fst (Option.some.inj hperform)
    refine ⟨legal_inside (hinv.raise hK.writer (hK.cause k (.head _))) (extends_raise s₁ k)
      fun j hj => Option.some.inj (hj.symm.trans hK.writer), ih hK.raise⟩

/-- `Replace` keeps to the discipline. -/
lemma guarded_replace (jtis : List String) (s : State) :
    discipline.Guarded alive perform i (fun _ _ => True) (replace jtis) s := by
  unfold replace
  split_ifs
  · trivial
  refine guarded_bind.mpr fun s₁ _ hinv fate s₂ r _ hperform => ?_
  replace hperform : perform i s₁ (.install jtis) fate = some (s₂, r) := hperform
  simp only [perform] at hperform
  split_ifs at hperform with hlocked
  cases hperform
  have hwriter : s₁.writer = none := by simpa using hlocked
  refine ⟨legal_inside (hinv.install hwriter i jtis) ?_
    fun j hj => absurd (hwriter.symm.trans hj) nofun, ?_⟩
  · refine .of_map (getElem?_install s₁ i jtis) (fun k w _ => ?_) rfl
    refine ⟨?_, ?_, fun hcause => cause_install.mpr (.inl hcause)⟩
    · split_ifs <;> rfl
    · split_ifs <;> exact id
  have hraising : Raising i (s₁.affected jtis) (s₁.install i jtis) := by
    refine ⟨rfl, fun k hk => hk, fun k hk => ?_⟩
    obtain ⟨w, hw⟩ := exists_of_mem_affected hk
    exact ⟨_, by rw [getElem?_install, hw]; rfl, cause_install.mpr (.inr ((mem_affected hw).mp hk))⟩
  refine (guarded_raiseAll _ hraising).bind fun _ s₃ hdone => ?_
  refine guarded_bind.mpr (guarded_request hdone
    (fun _ _ hrely _ => Raising.stable hrely) fun s₄ fate s₅ r hK hinv _ hperform => ?_)
  obtain rfl := congrArg fst (Option.some.inj hperform)
  have hpending : s₄.pending = [] := eq_nil_iff_forall_not_mem.mpr fun k hk => nomatch hK.pending k hk
  exact ⟨legal_inside (hinv.unlock hpending) ⟨fun k w hw => ⟨w, hw, rfl, id, id⟩, fun a k hk => ⟨hk, rfl⟩⟩
    fun j hj => Option.some.inj (hj.symm.trans hK.writer), trivial⟩

/-- `Authorize` keeps to it, and gives the watcher of the authorizer. -/
lemma guarded_authorize (a : ℕ) (s : State) : discipline.Guarded alive perform i
      (fun r s => ∀ jti k, r = some (jti, k) →
        (s.authorizer a).watcher = some k ∧ (s.authorizer a).jti = jti) (authorize a) s := by
  refine guarded_bind.mpr fun s₁ _ hinv fate s₂ r _ hperform => ?_
  obtain rfl : s₁ = s₂ := congrArg fst (Option.some.inj hperform)
  refine ⟨legal_self hinv, ?_⟩
  rcases r with _ | jti
  · exact nofun
  refine guarded_bind.mpr fun s₂ _ hinv fate s₃ r _ hperform => ?_
  obtain ⟨hlegal, hbound⟩ := legal_bindWatcher hinv hperform
  refine ⟨hlegal, ?_⟩
  rcases r with _ | k
  · exact nofun
  refine guarded_bind.mpr (guarded_request
    (K := fun s => (s.authorizer a).watcher = some k ∧ (s.authorizer a).jti = jti) (hbound k rfl)
    (fun s s' hrely _ hK => ?_) fun s fate s' r hK hinv _ hperform => ?_)
  · obtain ⟨hk, hjti⟩ := hrely.1.authorizers a k hK.1
    exact ⟨hk, hjti.trans hK.2⟩
  · obtain rfl : s = s' := congrArg fst (Option.some.inj hperform)
    refine ⟨legal_self hinv, fun jti' k' heq => ?_⟩
    cases r with
    | false => cases heq
    | true =>
      cases heq
      exact hK

/-- All clients of the cache keep to the discipline. -/
lemma disciplined_cache : discipline.Disciplined cache alive where
  program o i s _ _ _ := by
    cases o with
    | authorize a =>
      refine (guarded_authorize a s).bind fun r s hr => ?_
      intro a' jti k heq
      cases heq
      exact hr jti k rfl
    | closeAuthorization a =>
      intro s₁ _ hinv fate s₂ r _ hperform
      replace hperform : (closeAuthorization s₁ a).map (fun s => (s, ())) = some (s₂, r) := hperform
      obtain ⟨s', hs', heq⟩ := Option.map_eq_some_iff.mp hperform
      obtain rfl : s' = s₂ := congrArg fst heq
      exact ⟨legal_closeAuthorization hinv hs', nofun⟩
    | watch jti =>
      intro s₁ _ hinv fate s₂ r _ hperform
      replace hperform : perform i s₁ (.watch jti) fate = some (s₂, r) := hperform
      refine ⟨?_, nofun⟩
      simp only [perform] at hperform
      split_ifs at hperform with hempty hlocked
      · obtain rfl := congrArg fst (Option.some.inj hperform)
        exact legal_self hinv
      · obtain rfl := congrArg fst (Option.some.inj hperform)
        exact legal_outside (hinv.watch (by simpa using hlocked) jti none) (extends_watch _ jti none)
          rfl rfl
    | release k =>
      intro s₁ _ hinv fate s₂ r _ hperform
      exact ⟨legal_release fate hinv hperform, nofun⟩
    | replace jtis =>
      exact guarded_bind.mpr ((guarded_replace jtis s).mono fun _ _ _ a jti k h => nomatch h)
  crash _ _ h := h.elim

/-! ### Every run -/

/-- A new cache with its clients. -/
def start : Pool State Call.Reply Answer := .idle .empty

lemma consistent_empty : Consistent .empty where
  flagged := nofun
  caused := nofun
  revoked := nofun
  settled := nofun
  quiet _ := ⟨rfl, rfl⟩
  owned := nofun
  released := nofun

/-- The revocations have reached the watchers: a flag has a cause, and every cause has its flag when no
`Replace` is in progress; and an open authorizer has given no authorization whose flag is unset while
its jti is in the set of the last `Replace` that has returned, which is that of the cache when none is
in progress. -/
structure Reached (p : Pool State Call.Reply Answer) : Prop where
  sound : ∀ (k : ℕ) (w : Watcher), p.shared.watchers[k]? = some w → w.flag = true → w.Cause
  exact : p.shared.writer = none → ∀ (k : ℕ) (w : Watcher), p.shared.watchers[k]? = some w →
    (w.flag = true ↔ w.Cause)
  authorized : ∀ i a jti (k : ℕ), p.threads.lookup i = some (.ret (.authorized a (some (jti, k)))) →
    (p.shared.authorizer a).closed = false → jti ∈ p.shared.settled →
      ∃ w : Watcher, p.shared.watchers[k]? = some w ∧ w.jti = jti ∧ w.flag = true
  settled : p.shared.writer = none → p.shared.settled = p.shared.revoked

lemma meets_alive {l : List (Move (Option String) Operation)} (h : Move.crash ∉ l)
    (p : Pool State Call.Reply Answer) : Meets cache.step alive.Permits p l := by
  refine .of_forall (fun a ha p => ?_) p
  cases a with
  | start => trivial
  | call =>
    simp only [Conduct.Permits]
    split <;> trivial
  | crash => exact h ha

/-- In every run revocations reach the watchers and the authorizations, and no flag is ever cleared. -/
theorem revocation_reaches {l l' : List (Move (Option String) Operation)}
    {p p' : Pool State Call.Reply Answer} (hlive : Move.crash ∉ l ++ l')
    (hrun : run cache.step start l = some p) (hrun' : run cache.step p l' = some p') :
    Reached p' ∧ ∀ (k : ℕ) (w : Watcher), p.shared.watchers[k]? = some w → w.flag = true →
      ∃ w' : Watcher, p'.shared.watchers[k]? = some w' ∧ w'.jti = w.jti ∧ w'.flag = true := by
  rw [mem_append, not_or] at hlive
  have hinit : discipline.Sound cache alive start := .init consistent_empty fun _ => trivial
  obtain ⟨hsound, -⟩ := hinit.run disciplined_cache (meets_alive hlive.1 _) hrun
  obtain ⟨hsound', hext⟩ := hsound.run disciplined_cache (meets_alive hlive.2 _) hrun'
  refine ⟨⟨hsound'.inv.flagged, fun hwriter k w hw => ⟨hsound'.inv.flagged k w hw, fun hcause => ?_⟩,
    fun i a jti k hi hopen hmem => ?_, fun hwriter => (hsound'.inv.quiet hwriter).2⟩, fun k w hw hflag => ?_⟩
  · refine (hsound'.inv.caused k w hw hcause).resolve_right ?_
    exact (hsound'.inv.quiet hwriter).1 ▸ not_mem_nil
  · obtain ⟨hwatcher, hjti⟩ := hsound'.done hi a jti k rfl
    obtain ⟨w, hw, hjti', -, -, hreg⟩ := hsound'.inv.owned a k hwatcher
    have hwjti : w.jti = jti := hjti'.trans hjti
    exact ⟨w, hw, hwjti, hsound'.inv.settled k w hw (hreg hopen) (hwjti ▸ hmem)⟩
  · obtain ⟨w', hw', hjti, hflag', -⟩ := hext.watchers k w hw
    exact ⟨w', hw', hjti, hflag' hflag⟩

/-- An authorizer is authorized with the jti `j`. -/
def authorizing : List (Move (Option String) Operation) :=
  [.start 1 (.authorize 7), .call 1 (some "j"), .call 1 none, .call 1 (some "")]

/-- The jti is revoked. -/
def revoking : List (Move (Option String) Operation) :=
  [.start 2 (.replace ["j"]), .call 2 none, .call 2 none, .call 2 none]

/-- The flags of the watchers. -/
def flags (p : Pool State Call.Reply Answer) : List Bool := p.shared.watchers.map Watcher.flag

/-- The authorization is flagged when its jti is revoked. -/
theorem authorization_flagged :
    ∃ p p', run cache.step start authorizing = some p ∧ run cache.step p revoking = some p' ∧
      flags p = [false] ∧ flags p' = [true] ∧ Reached p' := by
  have heval : ((run cache.step start authorizing).bind fun p =>
      (run cache.step p revoking).map fun p' => (flags p, flags p')) = some ([false], [true]) := by
    decide +kernel
  obtain ⟨p, hrun, hp⟩ := Option.bind_eq_some_iff.mp heval
  obtain ⟨p', hrun', hp'⟩ := Option.map_eq_some_iff.mp hp
  obtain ⟨hbefore, hafter⟩ := Prod.mk.inj hp'
  have hlive : Move.crash ∉ authorizing ++ revoking := by simp [authorizing, revoking]
  exact ⟨p, p', hrun, hrun', hbefore, hafter, (revocation_reaches hlive hrun hrun').1⟩

end Paperboat.Auth.Revocation

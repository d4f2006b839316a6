import Paperboat.Lib.FinMap
import Paperboat.Lib.Transition

/-!
# The cache of signing keys

`JWKSCache` holds the keys of the documents that the issuer publishes. `Refresh` fetches a document
and merges its keys into the cache: a key of the document expires `TTL` later, and a key that is
missing from it is retired, with a deadline `RetainMissing` later that no refresh moves. A refresh
that fails, or that would hold too many keys, leaves the cache as it was.

`accepted` records the documents of the accepted refreshes, the newest first. `expected` says from
them alone what the cache holds for a key; the cache may have dropped a retired key, but only one
whose deadline has passed (`Expires`), so that `Lookup` cannot tell the difference.
-/

namespace Paperboat.Auth.Jwks

open List

/-- One key of a document, as the JSON decoder gives it. -/
structure Jwk where
  keyType : String
  curve : String
  use : String
  algorithm : String
  keyID : String
  x : String

/-- The errors of `Refresh`. -/
inductive RefreshError where
  /-- The error of the context, of the fetcher, of reading the body or of `persist`. -/
  | environment
  | invalid
  | overLimit
  deriving DecidableEq

/-- A public key. -/
abbrev Key := List UInt8

/-- A document of keys by their identifiers. -/
abbrev Document := FinMap String Key

/-- The limits of a cache, and the decoders of the standard library that it uses: `parse` reads the
keys of a strict JSON document, `decodeString` is the unpadded URL-safe base64. -/
structure Config where
  ttl : ℤ
  retainMissing : ℤ
  maxBytes : ℕ
  maxKeys : ℕ
  maxRetainedKeys : ℕ
  parse : List UInt8 → Option (List Jwk)
  decodeString : String → Option Key

/-- A key of the cache. -/
structure CachedKey where
  key : Key
  expiresAt : ℤ
  retired : Bool
  deriving DecidableEq

/-- What one refresh meets: the answer of the fetcher (a context that has ended is a failure), whether
the document is persisted, and the time. -/
structure Attempt where
  /-- `some none` is a body that is missing. -/
  fetched : Option (Option (List UInt8))
  persisted : Bool
  now : ℤ

/-- One round of the loop of `decodeJWKS`. -/
def decodeItem (config : Config) (keys : Document) (item : Jwk) : Except RefreshError Document :=
  if item.keyType ≠ "OKP" ∨ item.curve ≠ "Ed25519" ∨ item.use ≠ "sig" ∨ item.algorithm ≠ "EdDSA" ∨
      item.keyID.utf8ByteSize < 1 ∨ 128 < item.keyID.utf8ByteSize then
    .error .invalid
  else if (keys.lookup item.keyID).isSome then .error .invalid
  else match config.decodeString item.x with
    | none => .error .invalid
    | some x => if x.length ≠ 32 then .error .invalid else .ok (keys.insert item.keyID x)

/-- `decodeJWKS`. -/
def decodeJWKS (config : Config) (encoded : List UInt8) : Except RefreshError Document :=
  match config.parse encoded with
  | none => .error .invalid
  | some items =>
    if items.length = 0 ∨ config.maxKeys < items.length then .error .overLimit
    else items.foldlM (decodeItem config) ∅

/-- What `Refresh` holds for a key: that of the document, or the previous one retired. -/
def merged (config : Config) (refreshed : Document) (keys : FinMap String CachedKey) (now : ℤ)
    (keyID : String) : Option CachedKey :=
  match refreshed.lookup keyID, keys.lookup keyID with
  | some key, _ => some ⟨key, now + config.ttl, false⟩
  | none, none => none
  | none, some previous =>
    if previous.retired then if now < previous.expiresAt then some previous else none
    else some ⟨previous.key, now + config.retainMissing, true⟩

/-- The keys after the two loops of `Refresh`. -/
def merge (config : Config) (refreshed : Document) (keys : FinMap String CachedKey) (now : ℤ) :
    FinMap String CachedKey :=
  .ofKeys (refreshed.keys ++ keys.keys) (merged config refreshed keys now)

/-- The document that `Refresh` fetches. -/
def fetch (config : Config) (attempt : Attempt) : Except RefreshError Document :=
  match attempt.fetched with
  | none => .error .environment
  | some none => .error .invalid
  | some (some encoded) =>
    if config.maxBytes < encoded.length then .error .overLimit else decodeJWKS config encoded

/-- `Refresh`: the document it accepts and the keys it leaves. -/
def refresh (config : Config) (keys : FinMap String CachedKey) (attempt : Attempt) :
    Except RefreshError (Document × FinMap String CachedKey) :=
  match fetch config attempt with
  | .error e => .error e
  | .ok refreshed =>
    if !attempt.persisted then .error .environment
    else if config.maxRetainedKeys < (merge config refreshed keys attempt.now).size then
      .error .overLimit
    else .ok (refreshed, merge config refreshed keys attempt.now)

/-- A cache, the last time its clock gave, and the documents it has accepted, the newest first. -/
structure Cache where
  keys : FinMap String CachedKey
  clock : ℤ
  accepted : List (ℤ × Document)

/-- A cache that starts empty. -/
def new (clock : ℤ) : Cache := ⟨∅, clock, []⟩

/-- One refresh of a cache whose clock does not go back. -/
def step (config : Config) (s : Cache) (attempt : Attempt) : Option Cache :=
  if s.clock ≤ attempt.now then
    match refresh config s.keys attempt with
    | .error _ => some { s with clock := attempt.now }
    | .ok (document, keys) => some ⟨keys, attempt.now, (attempt.now, document) :: s.accepted⟩
  else none

/-- `Lookup` at a time. -/
def lookup (s : Cache) (keyID : String) (now : ℤ) : Option Key :=
  if keyID = "" then none
  else match s.keys.lookup keyID with
    | none => none
    | some entry => if now < entry.expiresAt then some entry.key else none

/-! ### What the documents say about a key -/

/-- What a cache without a deadline holds for a key after a list of accepted documents. -/
def expected (config : Config) (keyID : String) : List (ℤ × Document) → Option CachedKey
  | [] => none
  | (now, document) :: older =>
    match document.lookup keyID with
    | some key => some ⟨key, now + config.ttl, false⟩
    | none => (expected config keyID older).map fun entry =>
        if entry.retired then entry else ⟨entry.key, now + config.retainMissing, true⟩

/-- The key is in the most recently accepted document, and its deadline. -/
def Current (config : Config) (accepted : List (ℤ × Document)) (keyID : String) (key : Key)
    (deadline : ℤ) : Prop :=
  ∃ now document older, accepted = (now, document) :: older ∧ document.lookup keyID = some key ∧
    deadline = now + config.ttl

/-- The key was last published in an earlier document; `m` is the time of the first refresh accepted
after that one. -/
def Retained (config : Config) (accepted : List (ℤ × Document)) (keyID : String) (key : Key)
    (deadline : ℤ) : Prop :=
  ∃ newer m next now document older,
    accepted = newer ++ (m, next) :: (now, document) :: older ∧ document.lookup keyID = some key ∧
      next.lookup keyID = none ∧ (∀ d ∈ newer, d.2.lookup keyID = none) ∧
        deadline = m + config.retainMissing

variable {config : Config} {keyID : String} {accepted : List (ℤ × Document)} {s s' : Cache}
  {attempt : Attempt} {attempts : List Attempt}

lemma expected_eq_some {entry : CachedKey} : expected config keyID accepted = some entry ↔
    entry.retired = false ∧ Current config accepted keyID entry.key entry.expiresAt ∨
      entry.retired = true ∧ Retained config accepted keyID entry.key entry.expiresAt := by
  constructor
  · intro h
    induction accepted generalizing entry with
    | nil => cases h
    | cons d older ih =>
      obtain ⟨now, document⟩ := d
      rw [expected] at h
      split at h
      · cases h
        exact .inl ⟨rfl, now, document, older, rfl, ‹_›, rfl⟩
      obtain ⟨previous, hprevious, rfl⟩ := Option.map_eq_some_iff.mp h
      rcases ih hprevious with ⟨hretired, then_, published, older, rfl, hkey, -⟩ |
        ⟨hretired, newer, m, next, then_, published, older, rfl, hkey, hnext, hnewer, hm⟩
      · rw [if_neg (by simp [hretired])]
        exact .inr ⟨rfl, [], now, document, then_, published, older, rfl, hkey, ‹_›, by simp, rfl⟩
      · rw [if_pos hretired]
        exact .inr ⟨hretired, (now, document) :: newer, m, next, then_, published, older, rfl, hkey,
          hnext, forall_mem_cons.mpr ⟨‹_›, hnewer⟩, hm⟩
  · obtain ⟨key, expiresAt, retired⟩ := entry
    rintro (⟨rfl, now, document, older, rfl, hkey, rfl⟩ |
      ⟨rfl, newer, m, next, now, document, older, rfl, hkey, hnext, hnewer, rfl⟩)
    · simp [expected, hkey]
    · induction newer with
      | nil => simp [expected, hkey, hnext]
      | cons d newer ih =>
        obtain ⟨hd, hnewer⟩ := forall_mem_cons.mp hnewer
        simp [expected, hd, ih hnewer]

/-! ### The keys of the cache -/

/-- The cache holds what the documents say, except for retired keys whose deadline has passed. -/
def Expires (config : Config) (s : Cache) : Prop :=
  ∀ keyID, s.keys.lookup keyID = expected config keyID s.accepted ∨
    s.keys.lookup keyID = none ∧ ∃ entry, expected config keyID s.accepted = some entry ∧
      entry.retired = true ∧ entry.expiresAt ≤ s.clock

lemma lookup_merge (refreshed : Document) (keys : FinMap String CachedKey) (now : ℤ) :
    (merge config refreshed keys now).lookup keyID = merged config refreshed keys now keyID := by
  rw [merge, FinMap.lookup_ofKeys]
  split
  · rfl
  · rename_i hmem
    simp only [mem_append, not_or] at hmem
    rw [merged, AList.lookup_eq_none.mpr hmem.1, AList.lookup_eq_none.mpr hmem.2]

/-- A refresh is accepted with a document and the keys merged from it, or changes no key. -/
lemma step_cases (h : step config s attempt = some s') : s.clock ≤ attempt.now ∧
    s'.clock = attempt.now ∧ (s'.keys = s.keys ∧ s'.accepted = s.accepted ∨
      ∃ document, fetch config attempt = .ok document ∧
        s'.accepted = (attempt.now, document) :: s.accepted ∧
          s'.keys = merge config document s.keys attempt.now) := by
  obtain ⟨hclock, h⟩ := Option.ite_none_right_eq_some.mp h
  refine ⟨hclock, ?_⟩
  unfold refresh at h
  grind

lemma Expires.step (h : Expires config s) (hstep : step config s attempt = some s') :
    Expires config s' := by
  obtain ⟨hclock, hnow, ⟨hkeys, haccepted⟩ | ⟨document, -, haccepted, hkeys⟩⟩ := step_cases hstep
  all_goals
    intro keyID
    have h := h keyID
  · rw [hkeys, haccepted, hnow]
    exact h.imp_right fun ⟨hnone, entry, hentry, hretired, hle⟩ =>
      ⟨hnone, entry, hentry, hretired, by omega⟩
  · rw [hkeys, lookup_merge, haccepted, hnow, merged, expected]
    cases document.lookup keyID <;> grind

lemma lookup_empty_of_fetch {document : Document} (h : fetch config attempt = .ok document) :
    document.lookup "" = none := by
  have hitems : ∀ (items : List Jwk) (keys : Document), keys.lookup "" = none →
      items.foldlM (decodeItem config) keys = .ok document → document.lookup "" = none := by
    intro items
    induction items with
    | nil =>
      rintro keys hkeys ⟨⟩
      exact hkeys
    | cons item items ih =>
      intro keys hkeys hfold
      rw [foldlM_cons] at hfold
      rcases hitem : decodeItem config keys item with _ | keys'
      · rw [hitem] at hfold
        cases hfold
      rw [hitem] at hfold
      refine ih keys' ?_ hfold
      unfold decodeItem at hitem
      split at hitem
      · cases hitem
      have hne : item.keyID ≠ "" := by
        rintro h
        simp_all
      grind [FinMap.lookup_insert_eq]
  unfold fetch decodeJWKS at h
  grind [AList.lookup_empty]

lemma expected_empty (h : ∀ d ∈ accepted, d.2.lookup "" = none) : expected config "" accepted = none := by
  induction accepted with
  | nil => rfl
  | cons d older ih =>
    obtain ⟨hd, holder⟩ := forall_mem_cons.mp h
    simp [expected, hd, ih holder]

/-- The lifetime of the keys: what `Lookup` gives at a time that is not in the past, and the deadline
of a missing key, which no refresh moves that does not publish the key again. -/
structure Lifetime (config : Config) (s : Cache) : Prop where
  usable : ∀ keyID key t, s.clock ≤ t → (lookup s keyID t = some key ↔ ∃ deadline,
    (Current config s.accepted keyID key deadline ∨ Retained config s.accepted keyID key deadline) ∧
      t < deadline)
  kept : ∀ attempts s' newer keyID entry entry', run (step config) s attempts = some s' →
    s'.accepted = newer ++ s.accepted → (∀ d ∈ newer, d.2.lookup keyID = none) →
      s.keys.lookup keyID = some entry → entry.retired = true →
        s'.keys.lookup keyID = some entry' → entry' = entry

/-- For every history of refreshes of a cache that started empty, with a clock that does not go back. -/
theorem signing_key_lifetime {clock : ℤ} (h : run (step config) (new clock) attempts = some s) :
    Lifetime config s := by
  have hkeeps : Keeps (step config) fun s =>
      Expires config s ∧ ∀ d ∈ s.accepted, d.2.lookup "" = none := by
    intro s attempt s' ⟨hexpires, hempty⟩ hstep
    refine ⟨hexpires.step hstep, ?_⟩
    obtain ⟨-, -, ⟨-, haccepted⟩ | ⟨document, hfetch, haccepted, -⟩⟩ := step_cases hstep
    · exact haccepted ▸ hempty
    · exact haccepted ▸ forall_mem_cons.mpr ⟨lookup_empty_of_fetch hfetch, hempty⟩
  obtain ⟨hexpires, hempty⟩ := hkeeps.run ⟨fun _ => .inl rfl, by simp [new]⟩ h
  refine ⟨fun keyID key t ht => ?_, fun attempts s' newer keyID entry entry' hrun hnewer hmissing
    hentry hretired hentry' => ?_⟩
  · have hexpected : lookup s keyID t = some key ↔ ∃ entry,
        expected config keyID s.accepted = some entry ∧ entry.key = key ∧ t < entry.expiresAt := by
      have := hexpires keyID
      by_cases hkeyID : keyID = ""
      · subst hkeyID
        simp [lookup, expected_empty hempty]
      · grind [lookup]
    rw [hexpected]
    constructor
    · rintro ⟨entry, hentry, rfl, ht⟩
      exact ⟨entry.expiresAt, (expected_eq_some.mp hentry).imp And.right And.right, ht⟩
    · rintro ⟨deadline, hcurrent | hretained, ht⟩
      · exact ⟨⟨key, deadline, false⟩, expected_eq_some.mpr (.inl ⟨rfl, hcurrent⟩), rfl, ht⟩
      · exact ⟨⟨key, deadline, true⟩, expected_eq_some.mpr (.inr ⟨rfl, hretained⟩), rfl, ht⟩
  · have hsame : Keeps (step config) fun s' => ∃ newer, s'.accepted = newer ++ s.accepted ∧
        ((∀ d ∈ newer, d.2.lookup keyID = none) →
          s'.keys.lookup keyID = none ∨ s'.keys.lookup keyID = some entry) := by
      rintro t attempt t' ⟨newer, hnewer, hsame⟩ hstep
      obtain ⟨-, -, ⟨hkeys, haccepted⟩ | ⟨document, -, haccepted, hkeys⟩⟩ := step_cases hstep
      · exact ⟨newer, haccepted.trans hnewer, hkeys ▸ hsame⟩
      refine ⟨(attempt.now, document) :: newer, by simp [haccepted, hnewer], fun hmissing => ?_⟩
      obtain ⟨hdocument, hmissing⟩ := forall_mem_cons.mp hmissing
      rw [hkeys, lookup_merge, merged, hdocument]
      rcases hsame hmissing with hlookup | hlookup
      · simp [hlookup]
      · simp only [hlookup, hretired, if_true]
        split <;> simp
    obtain ⟨newer', hnewer', hsame⟩ := hsame.run ⟨[], rfl, fun _ => .inr hentry⟩ hrun
    obtain rfl := append_cancel_right (hnewer'.symm.trans hnewer)
    grind

/-- A configuration whose documents are one byte long and have one key, named `a` or `b`. -/
def oneKey : Config where
  ttl := 5
  retainMissing := 10
  maxBytes := 1
  maxKeys := 1
  maxRetainedKeys := 2
  parse := fun encoded => some [⟨"OKP", "Ed25519", "sig", "EdDSA", if encoded = [0] then "a" else "b", ""⟩]
  decodeString := fun _ => some (List.replicate 32 0)

/-- The key `a` is published at 0 and missing at 3, after a refresh that failed; it is usable at 12. -/
theorem signing_key_lifetime_rotation : ∃ s,
    run (step oneKey) (new 0) [⟨some (some [0]), true, 0⟩, ⟨none, true, 2⟩, ⟨some (some [1]), true, 3⟩] =
      some s ∧ (lookup s "a" 12).isSome ∧ Lifetime oneKey s :=
  exists_and_of_any (by decide +kernel) fun _ hs => signing_key_lifetime hs

/-! ### Refreshes that fail -/

/-- The keys in memory, and the file at `PersistencePath`: when its document was validated, and the
document. -/
structure Persistent where
  keys : FinMap String CachedKey
  file : Option (ℤ × List UInt8)

/-- What `persist` leaves at the path, if there is one. -/
def persist (path : Bool) (attempt : Attempt) (encoded : List UInt8) (s : Persistent) : Persistent :=
  if attempt.persisted && path then { s with file := some (attempt.now, encoded) } else s

/-- `Refresh` with the file: it is written before the keys are merged and counted. -/
def refreshFile (config : Config) (path : Bool) (s : Persistent) (attempt : Attempt) :
    Option RefreshError × Persistent :=
  let s' := match fetch config attempt with
    | .error _ => s
    | .ok _ => persist path attempt (attempt.fetched.join.getD []) s
  match refresh config s.keys attempt with
  | .error e => (some e, s')
  | .ok (_, keys) => (none, { s' with keys })

/-- A refresh changes nothing when it fails, unless a document has been written whose keys are too many
together with those of the cache. -/
theorem failed_refresh_unchanged_iff (config : Config) (path : Bool) (s : Persistent) (attempt : Attempt) :
    ((refreshFile config path s attempt).1 ≠ none → (refreshFile config path s attempt).2 = s) ↔
      ∀ document, fetch config attempt = .ok document → path = true → attempt.persisted = true →
        config.maxRetainedKeys < (merge config document s.keys attempt.now).size →
          s.file = some (attempt.now, attempt.fetched.join.getD []) := by
  obtain ⟨keys, file⟩ := s
  simp only [refreshFile, refresh, persist]
  rcases fetch config attempt with _ | document
  · simp
  by_cases hpersisted : attempt.persisted = true
  · by_cases hlimit : config.maxRetainedKeys < (merge config document keys attempt.now).size <;>
      cases path <;> simp [hpersisted, hlimit, eq_comm]
  · simp [hpersisted]

/-- One key is retained at most. The refresh that finds another key fails, and leaves its document in the
file. -/
theorem failed_refresh_persists : (refreshFile { oneKey with maxRetainedKeys := 1 } true
      ⟨AList.insert "a" ⟨List.replicate 32 0, 5, false⟩ ∅, some (0, [0])⟩ ⟨some (some [1]), true, 3⟩).map id
        Persistent.file = (some .overLimit, some (3, [1])) := by
  decide +kernel

end Paperboat.Auth.Jwks

import Paperboat.Auth.Replay

/-!
# Bindings of credentials

`stableClaimsBinding` in `internal/server/credential.go` and the checks of `Verifier.Verify` in
`internal/auth/verifier.go` on the decoded claims. The binding hashes the scopes in the order of the
token, and not the machine, so that it is stable only under a policy with one scope and a machine
(`bindings_stable_iff`).
-/

namespace Paperboat.Server.Credential

/-- The fields of `Claims` and `Policy` that `bindingsMatch` compares. -/
structure Bindings where
  (environmentID userID cliClientSessionID helperID machineID sourceMachineID sessionID : String := "")
  (assignmentID warningRevision connectorID edgePool edgeNodeID counterEpoch : String := "")
  connectorGeneration : ℕ := 0
  deriving DecidableEq

/-- The `Claims` that are read; a `scope` of `none` is the slice `nil`. -/
structure Claims extends Auth.Claims, Bindings where
  issuer : String
  audience : String
  scope : Option (List String)
  credentialClass : String
  deriving DecidableEq

/-- `Policy`. -/
structure Policy extends Auth.Policy, Bindings where
  issuer : String
  audience : String
  credentialClass : String
  scopes : List String

/-! ### The checks of the verifier -/

/-- `match`. -/
def matchString (expected actual : String) : Bool := expected = "" ∨ expected = actual

/-- `matchUint`. -/
def matchUint (expected actual : ℕ) : Bool := expected = 0 ∨ expected = actual

/-- `bindingsMatch`. -/
def bindingsMatch (c p : Bindings) : Bool :=
  matchString p.environmentID c.environmentID && matchString p.machineID c.machineID &&
  matchString p.sourceMachineID c.sourceMachineID && matchString p.userID c.userID &&
  matchString p.cliClientSessionID c.cliClientSessionID && matchString p.helperID c.helperID &&
  matchString p.sessionID c.sessionID && matchString p.assignmentID c.assignmentID &&
  matchString p.warningRevision c.warningRevision && matchString p.connectorID c.connectorID &&
  matchUint p.connectorGeneration c.connectorGeneration && matchString p.edgePool c.edgePool &&
  matchString p.edgeNodeID c.edgeNodeID && matchString p.counterEpoch c.counterEpoch

/-- The first loop of `exactScopes`: the set of the expected scopes. -/
def scopeSet : List String → List String → Option (List String)
  | [], set => some set
  | scope :: l, set => if scope = "" ∨ scope ∈ set then none else scopeSet l (scope :: set)

/-- The second loop: what is left of the set. -/
def removeScopes : List String → List String → Option (List String)
  | [], set => some set
  | scope :: l, set => if scope ∈ set then removeScopes l (set.erase scope) else none

/-- `exactScopes`. -/
def exactScopes (actual expected : List String) : Bool :=
  actual.length = expected.length ∧ (scopeSet expected []).bind (removeScopes actual) = some []

/-- The checks of `Verify` on the decoded claims. -/
def accepts (policy : Policy) (clockSkew now : ℤ) (claims : Claims) : Bool :=
  claims.issuer = policy.issuer ∧ claims.audience = policy.audience ∧
    (claims.credentialClass = policy.credentialClass ∧ bindingsMatch claims.toBindings policy.toBindings ∧
      ¬ (claims.userID ≠ "" ∧ claims.subject ≠ claims.userID)) ∧
    exactScopes (claims.scope.getD []) policy.scopes ∧
    Auth.checkClaims claims.toClaims policy.toPolicy clockSkew now = none

/-- The verifier accepts the claims at some time. -/
def Accepted (policy : Policy) (clockSkew : ℤ) (claims : Claims) : Prop :=
  ∃ now, accepts policy clockSkew now claims = true

/-! ### The binding -/

/-- What is hashed. -/
structure StableClaims where
  (issuer subject credentialClass : String)
  scopes : Option (List String)
  (environmentID userID cliClientSessionID helperID sessionID assignmentID : String)
  deriving DecidableEq

/-- The fields that are hashed. -/
def stableClaims (c : Claims) : StableClaims :=
  ⟨c.issuer, c.subject, c.credentialClass, c.scope, c.environmentID, c.userID, c.cliClientSessionID,
    c.helperID, c.sessionID, c.assignmentID⟩

/-- The claims differ only in jti, times and the order of scopes. -/
def Renews (c c' : Claims) : Prop :=
  c' = { c with jti := c'.jti, issuedAt := c'.issuedAt, expiresAt := c'.expiresAt, scope := c'.scope } ∧
    (c.scope.getD []).Perm (c'.scope.getD [])

/-- The claims agree in what bears identity. -/
def SameIdentity (c c' : Claims) : Prop :=
  (c.issuer = c'.issuer ∧ c.subject = c'.subject ∧ c.credentialClass = c'.credentialClass ∧
    c.environmentID = c'.environmentID ∧ c.userID = c'.userID ∧
    c.cliClientSessionID = c'.cliClientSessionID ∧ c.helperID = c'.helperID ∧
    c.machineID = c'.machineID ∧ c.sessionID = c'.sessionID ∧ c.assignmentID = c'.assignmentID) ∧
    ∀ scope, scope ∈ c.scope.getD [] ↔ scope ∈ c'.scope.getD []

section
variable {γ δ : Type} (marshal : StableClaims → γ) (sha256 : γ → δ)

/-- `stableClaimsBinding`, over the encoding and its digest. -/
def stableClaimsBinding (c : Claims) : δ := sha256 (marshal (stableClaims c))

/-- The binding survives a renewal, and tells identities apart. -/
structure Stable (c c' : Claims) : Prop where
  renewed : Renews c c' → stableClaimsBinding marshal sha256 c = stableClaimsBinding marshal sha256 c'
  apart : ¬ SameIdentity c c' →
    stableClaimsBinding marshal sha256 c ≠ stableClaimsBinding marshal sha256 c'

end

/-! ### Scopes -/

lemma scopeSet_eq_some {l set set' : List String} (hset : set.Nodup) : scopeSet l set = some set' ↔
      "" ∉ l ∧ (l.reverse ++ set).Nodup ∧ set' = l.reverse ++ set := by
  induction l generalizing set with
  | nil => simp [scopeSet, hset, eq_comm]
  | cons scope l ih =>
    rw [scopeSet]
    split
    · next h =>
      have hno : ¬ ("" ∉ scope :: l ∧ ((scope :: l).reverse ++ set).Nodup) := by
        rintro ⟨hempty, hnodup⟩
        rcases h with rfl | hmem
        · exact hempty List.mem_cons_self
        · exact (List.nodup_append.mp hnodup).2.2 scope (by simp) scope hmem rfl
      exact ⟨nofun, fun h => absurd ⟨h.1, h.2.1⟩ hno⟩
    · next h =>
      obtain ⟨hne, hmem⟩ := not_or.mp h
      rw [ih (List.nodup_cons.mpr ⟨hmem, hset⟩)]
      simp [Ne.symm hne]

lemma removeScopes_eq_nil {l set : List String} : removeScopes l set = some [] ↔ l.Perm set := by
  induction l generalizing set with
  | nil => simp [removeScopes]
  | cons scope l ih =>
    rw [removeScopes, List.cons_perm_iff_perm_erase, ← ih]
    split <;> simp [*]

/-- The scopes are those that are expected, in any order; every one of these is given once. -/
lemma exactScopes_iff {actual expected : List String} :
    exactScopes actual expected = true ↔ "" ∉ expected ∧ expected.Nodup ∧ actual.Perm expected := by
  simp only [exactScopes, decide_eq_true_eq, Option.bind_eq_some_iff, removeScopes_eq_nil,
    scopeSet_eq_some List.nodup_nil, List.append_nil, List.nodup_reverse]
  constructor
  · rintro ⟨-, _, ⟨hempty, hnodup, rfl⟩, hperm⟩
    exact ⟨hempty, hnodup, hperm.trans (List.reverse_perm _)⟩
  · rintro ⟨hempty, hnodup, hperm⟩
    exact ⟨hperm.length_eq, _, ⟨hempty, hnodup, rfl⟩, hperm.trans (List.reverse_perm _).symm⟩

/-! ### When bindings are stable -/

variable {policy : Policy} {clockSkew : ℤ} {c : Claims}

/-- Scopes may come in any order. -/
lemma Accepted.with_scope (h : Accepted policy clockSkew c) {scope : Option (List String)}
    (hperm : (scope.getD []).Perm policy.scopes) : Accepted policy clockSkew { c with scope } := by
  obtain ⟨now, h⟩ := h
  refine ⟨now, ?_⟩
  simp only [accepts, exactScopes_iff, decide_eq_true_eq] at h ⊢
  exact ⟨h.1, h.2.1, h.2.2.1, ⟨h.2.2.2.1.1, h.2.2.2.1.2.1, hperm⟩, h.2.2.2.2⟩

/-- Without a machine in the policy every machine is accepted. -/
lemma Accepted.with_machine (h : Accepted policy clockSkew c) (hmachine : policy.machineID = "")
    (machineID : String) : Accepted policy clockSkew { c with machineID } := by
  obtain ⟨now, h⟩ := h
  refine ⟨now, ?_⟩
  simp only [accepts, bindingsMatch, matchString, hmachine] at h ⊢
  exact h

lemma Accepted.scope (h : Accepted policy clockSkew c) :
    policy.scopes.Nodup ∧ (c.scope.getD []).Perm policy.scopes := by
  obtain ⟨now, h⟩ := h
  simp only [accepts, exactScopes_iff, decide_eq_true_eq] at h
  exact h.2.2.2.1.2

lemma Accepted.machineID_eq (h : Accepted policy clockSkew c) (hmachine : policy.machineID ≠ "") :
    c.machineID = policy.machineID := by
  obtain ⟨now, h⟩ := h
  simp only [accepts, bindingsMatch, matchString, hmachine, Bool.and_eq_true, decide_eq_true_eq] at h
  grind

lemma Accepted.scope_eq {scope : String} (h : Accepted policy clockSkew c) (hone : policy.scopes = [scope]) :
    c.scope = some [scope] := by
  have hperm := h.scope.2
  rw [hone, List.perm_singleton] at hperm
  cases hscope : c.scope with
  | none => simp [hscope] at hperm
  | some l =>
    rw [hscope, Option.getD_some] at hperm
    rw [hperm]

/-- Under a policy that accepts anything the bindings are stable exactly if it names a machine and has one
scope. -/
theorem bindings_stable_iff {γ δ : Type} {marshal : StableClaims → γ} {sha256 : γ → δ}
    (hmarshal : Function.Injective marshal) (hsha256 : Function.Injective sha256)
    (haccepts : ∃ c, Accepted policy clockSkew c) :
    (∀ c c', Accepted policy clockSkew c → Accepted policy clockSkew c' → Stable marshal sha256 c c') ↔
      policy.machineID ≠ "" ∧ ∃ scope, policy.scopes = [scope] := by
  have hbinding : ∀ c c', stableClaimsBinding marshal sha256 c = stableClaimsBinding marshal sha256 c' ↔
      stableClaims c = stableClaims c' := fun c c' => (hsha256.comp hmarshal).eq_iff
  constructor
  · intro h
    obtain ⟨c, hc⟩ := haccepts
    -- two lists of the scopes are hashed alike
    have hscopes : ∀ scope scope' : Option (List String), (scope.getD []).Perm policy.scopes →
        (scope'.getD []).Perm policy.scopes → scope = scope' := by
      intro scope scope' hs hs'
      have hrenewed := (h _ _ (hc.with_scope hs) (hc.with_scope hs')).renewed ⟨rfl, hs.trans hs'.symm⟩
      exact congrArg StableClaims.scopes ((hbinding _ _).mp hrenewed)
    refine ⟨fun hmachine => ?_, ?_⟩
    · have hapart := (h _ _ hc (hc.with_machine hmachine (c.machineID ++ "x"))).apart fun hsame => ?_
      · exact hapart ((hbinding _ _).mpr rfl)
      · simpa using congrArg String.length hsame.1.2.2.2.2.2.2.2.1
    · have hnodup := hc.scope.1
      generalize policy.scopes = scopes at hscopes hnodup ⊢
      rcases scopes with _ | ⟨scope, _ | ⟨scope', l⟩⟩
      · cases hscopes none (some []) .rfl .rfl
      · exact ⟨scope, rfl⟩
      · have hswap := hscopes (some _) (some _) .rfl (.swap scope scope' l)
        obtain ⟨rfl, -⟩ := List.cons.inj (Option.some.inj hswap)
        simp at hnodup
  · rintro ⟨hmachine, scope, hone⟩ c c' hc hc'
    have hscope := (hc.scope_eq hone).trans (hc'.scope_eq hone).symm
    refine ⟨fun hrenews => (hbinding _ _).mpr ?_, fun hother heq => hother ?_⟩
    · rw [hrenews.1, ← hscope]
      rfl
    · have heq := (hbinding _ _).mp heq
      simp only [stableClaims, StableClaims.mk.injEq] at heq
      have hmachines := (hc.machineID_eq hmachine).trans (hc'.machineID_eq hmachine).symm
      obtain ⟨h₁, h₂, h₃, -, h₄, h₅, h₆, h₇, h₈, h₉⟩ := heq
      exact ⟨⟨h₁, h₂, h₃, h₄, h₅, h₆, h₇, hmachines, h₈, h₉⟩, fun _ => by rw [hscope]⟩

/-! ### Examples of claims -/

/-- The policy for the configuration in `static_auth.go`. -/
def configPolicy : Policy where
  maxLifetime := 300000000000
  singleUse := false
  issuer := "i"
  audience := "paperboat-helper"
  credentialClass := "config_sync"
  scopes := ["config:pull", "config:apply", "config:report"]
  environmentID := "e"
  helperID := "h"

/-- Claims that it accepts. -/
def configClaims (machineID : String) (scope : List String) : Claims where
  jti := "j"
  subject := "u"
  issuedAt := 0
  expiresAt := 1
  issuer := "i"
  audience := "paperboat-helper"
  scope
  credentialClass := "config_sync"
  environmentID := "e"
  userID := "u"
  helperID := "h"
  machineID

/-- The same for one machine and one scope. -/
def pullPolicy : Policy := { configPolicy with machineID := "m", scopes := ["config:pull"] }

/-- Its bindings are stable. -/
theorem bindings_stable_of_one : Accepted pullPolicy 0 (configClaims "m" ["config:pull"]) ∧
      Stable id id (configClaims "m" ["config:pull"]) { configClaims "m" ["config:pull"] with jti := "k" } := by
  have haccepted : Accepted pullPolicy 0 (configClaims "m" ["config:pull"]) := ⟨0, by decide +kernel⟩
  have hstable := (bindings_stable_iff Function.injective_id Function.injective_id ⟨_, haccepted⟩).mpr
    ⟨by decide, _, rfl⟩
  exact ⟨haccepted, hstable _ _ haccepted ⟨0, by decide +kernel⟩⟩

/-- A renewed credential with its scopes in another order has another binding, and that of another machine
has the same. -/
theorem scope_order_in_binding :
    (∃ c c', Accepted configPolicy 0 c ∧ Accepted configPolicy 0 c' ∧ Renews c c' ∧
      stableClaimsBinding id id c ≠ stableClaimsBinding id id c') ∧
    ∃ c c', Accepted configPolicy 0 c ∧ Accepted configPolicy 0 c' ∧ ¬ SameIdentity c c' ∧
      stableClaimsBinding id id c = stableClaimsBinding id id c' := by
  refine ⟨⟨configClaims "m" configPolicy.scopes, configClaims "m" configPolicy.scopes.reverse,
    ⟨0, by decide +kernel⟩, ⟨0, by decide +kernel⟩, ⟨rfl, ?_⟩, by decide⟩,
    configClaims "m" configPolicy.scopes, configClaims "n" configPolicy.scopes, ⟨0, by decide +kernel⟩,
    ⟨0, by decide +kernel⟩, ?_, rfl⟩
  · exact (List.reverse_perm _).symm
  · rintro ⟨hsame, -⟩
    exact absurd hsame.2.2.2.2.2.2.2.1 (by decide)

end Paperboat.Server.Credential

import Paperboat.Lib.Threads

/-!
# Single-use credentials

The model of `ReplayCache.Consume` in `internal/auth/replay.go` and of `Verifier.Verify` in
`internal/auth/verifier.go` from its time checks on, with any number of calls in parallel. What a token
claims is a function of the token; whether it is authentic or revoked is up to the environment.

`Consume` compares the expiry with the clock before it takes the lock, and drops expired entries with
the clock read under the lock. A token that expires between the two is accepted again
(`replay_accepted`).
-/

namespace Paperboat.Auth

open RelyGuarantee Option

/-! ### The cache -/

/-- The entries of `ReplayCache`: the expiry of every jti. -/
abbrev Entries := FinMap String ℤ

/-- Drop the entries that have expired. -/
def purge (entries : Entries) (now : ℤ) : Entries :=
  entries.restrict fun jti => (entries.lookup jti).any fun expiry => now < expiry

/-- The part of `Consume` under the lock: the entries, and whether the jti is accepted. -/
def consumeLocked (max : ℤ) (entries : Entries) (now : ℤ) (jti : String) (expires : ℤ) :
    Entries × Bool :=
  if ((purge entries now).lookup jti).isSome ∨ max ≤ ((purge entries now).size : ℤ) then
    (purge entries now, false)
  else ((purge entries now).insert jti expires, true)

lemma lookup_purge_of_lt {entries : Entries} {now expiry : ℤ} {jti : String}
    (h : entries.lookup jti = some expiry) (hlt : now < expiry) :
    (purge entries now).lookup jti = some expiry := by
  simp [purge, h, hlt]

lemma lookup_consumeLocked {max : ℤ} {entries : Entries} {now expiry : ℤ} {jti other : String}
    (h : entries.lookup other = some expiry) (hlt : now < expiry) {expires : ℤ}
    (hne : (consumeLocked max entries now jti expires).2 = true → other ≠ jti) :
    (consumeLocked max entries now jti expires).1.lookup other = some expiry := by
  have hpurged := lookup_purge_of_lt h hlt
  unfold consumeLocked at hne ⊢
  split_ifs at hne ⊢
  · exact hpurged
  · rw [FinMap.lookup_insert_eq, if_neg (hne rfl)]
    exact hpurged

/-! ### The verifier -/

/-- The codes of `Verify` from its time checks on, and one for the checks before. -/
inductive Code where
  | refused
  | malformed
  | bindingInvalid
  | expired
  | notYetValid
  | revoked
  | replayed
  deriving DecidableEq

/-- The `Claims` that these checks read, with times in seconds. -/
structure Claims where
  jti : String
  subject : String
  issuedAt : ℤ
  expiresAt : ℤ
  deriving DecidableEq

/-- The part of a `Policy` that these checks read. -/
structure Policy where
  maxLifetime : ℤ
  singleUse : Bool
  deriving DecidableEq

/-- `time.Unix`, in nanoseconds. -/
def unix (seconds : ℤ) : ℤ := seconds * 1000000000

/-- The clock and the cache.

The verifier does not have `winners`: for every accepted jti, the thread of the first call that
accepted it. -/
structure State where
  clock : ℤ
  entries : Entries
  winners : FinMap String ℕ

/-- A call: into the key source, to the clock, into the revocations, and to the cache under its lock;
the last one lets time pass. -/
inductive Call where
  | authenticate (token : String) (policy : Policy)
  | now
  | revoked (jti : String)
  | consume (jti : String) (expires : ℤ)
  | advance (time : ℤ)
  deriving DecidableEq

/-- The replies to calls. -/
abbrev Call.Reply : Call → Type
  | authenticate _ _ | revoked _ | consume _ _ => Bool
  | now => ℤ
  | advance _ => Unit

/-- A call of a thread; the fate is the answer of the environment. -/
def perform (max : ℤ) (i : ℕ) (s : State) : (c : Call) → Bool → Option (State × c.Reply)
  | .authenticate _ _, fate => some (s, fate)
  | .now, _ => some (s, s.clock)
  | .revoked _, fate => some (s, fate)
  | .consume jti expires, _ =>
    let result := consumeLocked max s.entries s.clock jti expires
    some ({ s with
      entries := result.1
      winners := if result.2 ∧ (s.winners.lookup jti).isNone then s.winners.insert jti i
        else s.winners }, result.2)
  -- the clock never goes backwards
  | .advance time, _ => some ({ s with clock := if s.clock < time then time else s.clock }, ())

/-- `Consume`. -/
def consume (max : ℤ) (jti : String) (expires : ℤ) : Prog Call.Reply Bool :=
  if jti = "" then pure false
  else do
    let now ← Prog.request Call.now
    if ¬now < expires ∨ max < 1 then return false
    Prog.request (Call.consume jti expires)

/-- The checks of `Verify` on what the token claims, with the time it has read; `clockSkew` is
`ClockSkew`. -/
def checkClaims (claims : Claims) (policy : Policy) (clockSkew now : ℤ) : Option Code :=
  let skew := if clockSkew < 0 then 0 else clockSkew
  let issued := unix claims.issuedAt
  let expires := unix claims.expiresAt
  if claims.jti = "" ∨ claims.subject = "" ∨ claims.issuedAt < 0 ∨ claims.expiresAt ≤ claims.issuedAt then
    some .malformed
  else if 0 < policy.maxLifetime ∧ policy.maxLifetime < expires - issued then some .bindingInvalid
  else if expires + skew < now then some .expired
  else if now + skew < issued then some .notYetValid
  else none

/-- `Verify`, from the check for revocation on. -/
def acceptClaims (max : ℤ) (claims : Claims) (policy : Policy) : Prog Call.Reply (Except Code Claims) := do
  let revoked ← Prog.request (Call.revoked claims.jti)
  if revoked then return .error .revoked
  if policy.singleUse then
    let consumed ← consume max claims.jti (unix claims.expiresAt)
    return if consumed then .ok claims else .error .replayed
  else return .ok claims

/-- `Verify`. -/
def verify (claimsOf : String → Claims) (clockSkew max : ℤ) (token : String) (policy : Policy) :
    Prog Call.Reply (Except Code Claims) := do
  let authentic ← Prog.request (Call.authenticate token policy)
  if !authentic then return .error .refused
  let now ← Prog.request Call.now
  match checkClaims (claimsOf token) policy clockSkew now with
  | some code => return .error code
  | none => acceptClaims max (claimsOf token) policy

/-- What runs in parallel: calls of `Verify` and `Consume`, and the time. -/
inductive Operation where
  | verify (token : String) (policy : Policy)
  | consume (jti : String) (expires : ℤ)
  | advance (time : ℤ)
  deriving DecidableEq

/-- The results. -/
inductive Answer where
  | verified (policy : Policy) (result : Except Code Claims)
  | consumed (jti : String) (result : Bool)
  | advanced

/-- The verifier. -/
def verifier (claimsOf : String → Claims) (clockSkew max : ℤ) :
    Machine State Call.Reply Bool Operation Answer where
  program
    | .verify token policy => return .verified policy (← verify claimsOf clockSkew max token policy)
    | .consume jti expires => return .consumed jti (← consume max jti expires)
    | .advance time => do
      Prog.request (Call.advance time)
      return .advanced
  perform := perform max
  restart s := ⟨s.clock, ∅, ∅⟩

/-- The answer accepts the jti as a single use. -/
def Answer.accepts (jti : String) : Answer → Bool
  | .verified policy (.ok claims) => policy.singleUse && claims.jti = jti
  | .consumed jti' result => jti' = jti && result
  | _ => false

/-- The thread has returned and accepts the jti. -/
def acceptsOn (p : Pool State Call.Reply Answer) (i : ℕ) (jti : String) : Bool :=
  match p.threads.lookup i with
  | some (.ret a) => a.accepts jti
  | _ => false

/-- A jti is accepted on one thread at most. -/
def AtMostOnce (p : Pool State Call.Reply Answer) : Prop :=
  ∀ jti i j, acceptsOn p i jti = true → acceptsOn p j jti = true → i = j

/-- A new verifier. -/
def start (clock : ℤ) : Pool State Call.Reply Answer := .idle ⟨clock, ∅, ∅⟩

/-- The expiry is the one that the jti always has. -/
def Operation.hasExpiry (claimsOf : String → Claims) (expiryOf : String → ℤ) : Operation → Prop
  | .verify token _ => unix (claimsOf token).expiresAt = expiryOf (claimsOf token).jti
  | .consume jti expires => expires = expiryOf jti
  | .advance _ => True

/-- The call gets the lock of the cache before the expiry. -/
def Call.inTime (clock : ℤ) : Call → Prop
  | .consume _ expires => clock < expires
  | _ => True

/-- A jti always has the same expiry, and a call gets the lock of the cache before it. The verifier
lives on. -/
def punctual (claimsOf : String → Claims) (expiryOf : String → ℤ) : Conduct State Call Bool Operation where
  mayStart _ o := o.hasExpiry claimsOf expiryOf
  allows _ s c _ := c.inTime s.clock
  mayCrash _ := False

/-! ### At most once -/

section
variable {claimsOf : String → Claims} {expiryOf : String → ℤ} {clockSkew max : ℤ}

/-- What a call of a thread leaves: the entry of an accepted jti stays until the expiry, a winner stays
the winner, and a thread whose answer accepts a jti is its winner. -/
def discipline (expiryOf : String → ℤ) : RelyGuarantee State Answer where
  Inv s := ∀ jti, (s.winners.lookup jti).isSome → s.clock < expiryOf jti →
    s.entries.lookup jti = some (expiryOf jti)
  rely _ s s' := ∀ jti i, s.winners.lookup jti = some i → s'.winners.lookup jti = some i
  guarantee _ _ := True
  Idle _ _ := True
  Done i a s := ∀ jti, a.accepts jti = true → s.winners.lookup jti = some i
  rely_refl _ _ _ _ h := h
  rely_trans _ _ _ _ h h' jti i hi := h' jti i (h jti i hi)
  guarantee_refl _ := trivial
  guarantee_trans _ _ := trivial
  idle_stable _ _ _ _ _ := trivial
  done_stable i _ _ _ h hdone jti haccepts := h jti i (hdone jti haccepts)

lemma legal_self {i : ℕ} {s : State} (h : (discipline expiryOf).Inv s) :
    (discipline expiryOf).Legal i s s :=
  ⟨h, trivial, fun j _ => (discipline expiryOf).rely_refl j s⟩

/-- The call under the lock: it is legal, and the thread that is accepted is the winner. -/
lemma legal_consume {i : ℕ} {s s' : State} {jti : String} {fate r : Bool}
    (hinv : (discipline expiryOf).Inv s) (hlt : s.clock < expiryOf jti)
    (h : perform max i s (.consume jti (expiryOf jti)) fate = some (s', r)) :
    (discipline expiryOf).Legal i s s' ∧ (r = true → s'.winners.lookup jti = some i) := by
  obtain ⟨rfl, rfl⟩ : _ = s' ∧ _ = r := by simpa [perform] using h
  -- a jti with a winner has an entry, so that it is not accepted again
  have hfresh : (consumeLocked max s.entries s.clock jti (expiryOf jti)).2 = true →
      s.winners.lookup jti = none := by
    intro haccepted
    by_contra hwinner
    have hentry := hinv jti (isSome_iff_ne_none.mpr hwinner) hlt
    rw [consumeLocked, if_pos (.inl (by rw [lookup_purge_of_lt hentry hlt]; rfl))] at haccepted
    cases haccepted
  refine ⟨⟨fun other hwinner hother => ?_, trivial, fun j _ other k hk => ?_⟩, fun haccepted => ?_⟩
  · simp only at hwinner hother ⊢
    by_cases haccepted : (consumeLocked max s.entries s.clock jti (expiryOf jti)).2 = true
    · by_cases heq : other = jti
      · subst heq
        unfold consumeLocked at haccepted ⊢
        split_ifs at haccepted ⊢
        exact AList.lookup_insert _
      · rw [if_pos ⟨haccepted, by simp [hfresh haccepted]⟩, FinMap.lookup_insert_eq, if_neg heq] at hwinner
        exact lookup_consumeLocked (hinv other hwinner hother) hother fun _ => heq
    · rw [if_neg fun h => haccepted h.1] at hwinner
      exact lookup_consumeLocked (hinv other hwinner hother) hother fun h => absurd h haccepted
  · simp only
    split_ifs with hnew
    · rw [FinMap.lookup_insert_eq, if_neg, hk]
      rintro rfl
      rw [hk] at hnew
      exact absurd hnew.2 (by simp)
    · exact hk
  · simp only
    rw [if_pos ⟨haccepted, by simp [hfresh haccepted]⟩]
    exact AList.lookup_insert _

/-- A call that is not the one under the lock, and lets no time pass. -/
def Call.plain : Call → Prop
  | .authenticate _ _ | .now | .revoked _ => True
  | .consume _ _ | .advance _ => False

lemma guarded_plain {i : ℕ} {c : Call} (hc : c.plain) {Q : c.Reply → State → Prop}
    (hQ : ∀ r s, Q r s) (s : State) :
    (discipline expiryOf).Guarded (punctual claimsOf expiryOf) (perform max) i Q (Prog.request c) s := by
  intro s₁ _ hinv fate s₂ r _ hperform
  obtain rfl : s₂ = s₁ := by
    cases c with
    | authenticate | now | revoked => exact (congrArg Prod.fst (some.inj hperform)).symm
    | consume | advance => exact hc.elim
  exact ⟨legal_self hinv, hQ r s₂⟩

lemma guarded_consume {i : ℕ} (jti : String) (s : State) :
    (discipline expiryOf).Guarded (punctual claimsOf expiryOf) (perform max) i
      (fun r s => r = true → s.winners.lookup jti = some i) (consume max jti (expiryOf jti)) s := by
  unfold consume
  split_ifs
  · exact fun h => nomatch h
  refine guarded_bind.mpr (guarded_plain (c := .now) trivial (fun now s => ?_) s)
  by_cases hexpired : ¬now < expiryOf jti ∨ max < 1
  · rw [if_pos hexpired]
    exact fun h => nomatch h
  · rw [if_neg hexpired]
    intro s₁ _ hinv fate s₂ r hallowed hperform
    exact legal_consume hinv hallowed hperform

/-- The last part of `Verify` makes its thread the winner when it accepts a token of single use. -/
lemma guarded_acceptClaims {i : ℕ} {claims : Claims} (policy : Policy)
    (hclaims : unix claims.expiresAt = expiryOf claims.jti) (s : State) :
    (discipline expiryOf).Guarded (punctual claimsOf expiryOf) (perform max) i
      (fun r s => ∀ jti, (Answer.verified policy r).accepts jti = true → s.winners.lookup jti = some i)
      (acceptClaims max claims policy) s := by
  refine guarded_bind.mpr (guarded_plain (c := .revoked claims.jti) trivial (fun revoked s => ?_) s)
  cases revoked with
  | true => exact fun jti h => nomatch h
  | false =>
    by_cases hsingle : policy.singleUse = true
    · simp only [hsingle, Bool.false_eq_true, if_false, if_true, hclaims]
      refine (guarded_consume claims.jti s).bind ?_
      intro consumed s hwinner jti haccepts
      rcases consumed with _ | _
      · cases haccepts
      obtain ⟨-, rfl⟩ : policy.singleUse = true ∧ claims.jti = jti := by
        simpa [Answer.accepts] using haccepts
      exact hwinner rfl
    · simp only [hsingle, Bool.false_eq_true, if_false]
      intro jti haccepts
      simp [Answer.accepts, hsingle] at haccepts

/-- `Verify` makes its thread the winner when it accepts a token of single use. -/
lemma guarded_verify {i : ℕ} {token : String} (policy : Policy)
    (htoken : unix (claimsOf token).expiresAt = expiryOf (claimsOf token).jti) (s : State) :
    (discipline expiryOf).Guarded (punctual claimsOf expiryOf) (perform max) i
      (fun r s => ∀ jti, (Answer.verified policy r).accepts jti = true → s.winners.lookup jti = some i)
      (verify claimsOf clockSkew max token policy) s := by
  refine guarded_bind.mpr
    (guarded_plain (c := .authenticate token policy) trivial (fun authentic s => ?_) s)
  rcases authentic with _ | _
  · exact fun jti h => by cases h
  refine guarded_bind.mpr (guarded_plain (c := .now) trivial (fun now s => ?_) s)
  cases checkClaims (claimsOf token) policy clockSkew now with
  | some => exact fun jti h => by cases h
  | none => exact guarded_acceptClaims policy htoken s

lemma disciplined_verifier :
    (discipline expiryOf).Disciplined (verifier claimsOf clockSkew max) (punctual claimsOf expiryOf) where
  program o i s hstart hinv _ := by
    cases o with
    | verify token policy => exact guarded_bind.mpr (guarded_verify policy hstart s)
    | consume jti =>
      cases hstart
      refine (guarded_consume jti s).bind fun consumed s hwinner => ?_
      intro jti' haccepts
      obtain ⟨rfl, rfl⟩ : jti = jti' ∧ consumed = true := by simpa [Answer.accepts] using haccepts
      exact hwinner rfl
    | advance time =>
      intro s₁ _ hinv fate s₂ r _ hperform
      obtain rfl : _ = s₂ := congrArg Prod.fst (some.inj hperform)
      refine ⟨⟨fun jti hwinner hlt => hinv jti hwinner (lt_of_le_of_lt ?_ hlt), trivial,
        fun j _ jti k hk => hk⟩, fun jti h => nomatch h⟩
      simp only
      split_ifs with hlater
      · exact hlater.le
      · exact le_rfl
  crash _ _ h := h.elim

end

/-- While a jti has one expiry and calls get the lock before it, every jti is accepted at most once. -/
theorem accepted_at_most_once (claimsOf : String → Claims) (expiryOf : String → ℤ)
    (clockSkew max clock : ℤ) {l : List (Move Bool Operation)} {p : Pool State Call.Reply Answer}
    (hpunctual : Meets (verifier claimsOf clockSkew max).step (punctual claimsOf expiryOf).Permits
      (start clock) l)
    (hrun : run (verifier claimsOf clockSkew max).step (start clock) l = some p) : AtMostOnce p := by
  have hinit : (discipline expiryOf).Sound (verifier claimsOf clockSkew max)
      (punctual claimsOf expiryOf) (start clock) :=
    .init (fun jti h => by simp at h) fun _ => trivial
  obtain ⟨hsound, -⟩ := hinit.run disciplined_verifier hpunctual hrun
  have hwinner : ∀ jti i, acceptsOn p i jti = true → p.shared.winners.lookup jti = some i := by
    intro jti i haccepts
    unfold acceptsOn at haccepts
    split at haccepts
    · next a hi => exact hsound.done hi jti haccepts
    · cases haccepts
  intro jti i j hi hj
  exact some.inj ((hwinner jti i hi).symm.trans (hwinner jti j hj))

/-! ### Two runs -/

instance (claimsOf : String → Claims) (expiryOf : String → ℤ) (p : Pool State Call.Reply Answer)
    (a : Move Bool Operation) : Decidable ((punctual claimsOf expiryOf).Permits p a) :=
  (punctual claimsOf expiryOf).decidablePermits
    (fun _ o => by dsimp only [punctual]; unfold Operation.hasExpiry; split <;> infer_instance)
    (fun _ _ c _ => by dsimp only [punctual]; unfold Call.inTime; split <;> infer_instance)
    (fun _ => inferInstanceAs (Decidable False)) p a

/-- A token that claims the jti `j`, issued at the first second and valid for ten. -/
def sampleClaims (_ : String) : Claims := ⟨"j", "user", 1, 11⟩

/-- Two calls verify one token of single use. The second has compared the expiry with the clock when
the first gets the lock. -/
def twoCalls (between : List (Move Bool Operation)) : List (Move Bool Operation) :=
  [.start 1 (.verify "t" ⟨0, true⟩), .start 2 (.verify "t" ⟨0, true⟩), .start 3 (.advance (unix 11)),
    .call 1 true, .call 1 true, .call 1 false, .call 1 true,
    .call 2 true, .call 2 true, .call 2 false, .call 2 true, .call 1 true] ++ between ++ [.call 2 true]

/-- Which of the two calls accept the token. -/
def accepting (l : List (Move Bool Operation)) : Option (Bool × Bool) :=
  (run (verifier sampleClaims 0 10).step (start (unix 1)) l).map fun p =>
    (acceptsOn p 1 "j", acceptsOn p 2 "j")

/-- If the token expires before the second call gets the lock, both calls accept it. -/
theorem replay_accepted :
    ∃ p, run (verifier sampleClaims 0 10).step (start (unix 1)) (twoCalls [.call 3 true]) = some p ∧
      acceptsOn p 1 "j" = true ∧ acceptsOn p 2 "j" = true ∧ ¬AtMostOnce p := by
  have heval : accepting (twoCalls [.call 3 true]) = some (true, true) := by decide +kernel
  obtain ⟨p, hrun, hp⟩ := map_eq_some_iff.mp heval
  obtain ⟨h₁, h₂⟩ := Prod.mk.inj hp
  exact ⟨p, hrun, h₁, h₂, fun h => absurd (h "j" 1 2 h₁ h₂) (by decide)⟩

/-- If it does not, the second call is refused. -/
theorem replay_refused :
    ∃ p, run (verifier sampleClaims 0 10).step (start (unix 1)) (twoCalls []) = some p ∧
      acceptsOn p 1 "j" = true ∧ AtMostOnce p := by
  have heval : accepting (twoCalls []) = some (true, false) := by decide +kernel
  obtain ⟨p, hrun, hp⟩ := map_eq_some_iff.mp heval
  have hpunctual : Meets (verifier sampleClaims 0 10).step
      (punctual sampleClaims fun _ => unix 11).Permits (start (unix 1)) (twoCalls []) := by
    decide +kernel
  exact ⟨p, hrun, (Prod.mk.inj hp).1,
    accepted_at_most_once sampleClaims (fun _ => unix 11) 0 10 (unix 1) hpunctual hrun⟩

end Paperboat.Auth

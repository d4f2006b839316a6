import Mathlib

/-!
# Uploads of the loopback client

`upload` asks for the committed offset and sends what is missing, in at most four attempts. It returns
without an error only from an offset request, so that the bytes of the last attempt are never confirmed.
The helper has a state and a log of its own, from which it is read off what it has acknowledged and
reported.
-/

namespace Paperboat.Loopback

/-! ### The helper -/

/-- A request of `upload`: for the committed offset, or with the missing bytes from an offset on. -/
inductive Request where
  | head
  | patch (offset missing : ℕ)
  deriving DecidableEq

/-- The answer of the helper. -/
inductive Reply where
  | offset (n : ℕ)
  | stored
  | error
  deriving DecidableEq

/-- A request that the helper has processed, its answer, the bytes that are committed then, and whether
the answer has come back. -/
structure Entry where
  request : Request
  reply : Reply
  held : ℕ
  delivered : Bool
  deriving DecidableEq

/-- The committed bytes of the file, and the requests that the helper has processed. -/
structure Helper where
  held : ℕ
  log : List Entry

/-- What comes of a request: it is answered, the helper refuses it, or the transport fails, before or
after the helper has processed it. -/
inductive Fate where
  | answered | refused
  | lost (processed : Bool)
  deriving DecidableEq

namespace Helper

/-- The answer to a request and the committed bytes after it, if the helper gets `count` of the bytes:
the offset, or as `Append` commits them. -/
def answer (h : Helper) (count : ℕ) : Request → Reply × ℕ
  | .head => (.offset h.held, h.held)
  | .patch offset missing =>
    if offset = h.held then (.stored, h.held + min count missing) else (.error, h.held)

/-- One request: what comes back, and the helper after it. -/
def serve (h : Helper) (fate : Fate) (count : ℕ) (request : Request) : Option Reply × Helper :=
  let (reply, held) := h.answer count request
  match fate with
  | .answered => (some reply, ⟨held, h.log ++ [⟨request, reply, held, true⟩]⟩)
  | .refused => (some .error, ⟨h.held, h.log ++ [⟨request, .error, h.held, true⟩]⟩)
  | .lost true => (none, ⟨held, h.log ++ [⟨request, reply, held, false⟩]⟩)
  | .lost false => (none, h)

/-- The helper has said that it has stored bytes, and that made the file complete. -/
def Acknowledged (h : Helper) (size : ℕ) : Prop :=
  ∃ e ∈ h.log, e.delivered = true ∧ e.reply = .stored ∧ e.held = size

/-- The helper has reported the full size as committed. -/
def Reported (h : Helper) (size : ℕ) : Prop :=
  ∃ e ∈ h.log, e.delivered = true ∧ e.reply = .offset size

end Helper

/-! ### The client -/

/-- What happens in one attempt. An `Upload-Offset` that is not a number is like a lost answer. -/
structure Attempt where
  head : Fate
  /-- `waitLoopbackRetry` returns before the context ends. -/
  waits : Bool
  seeks : Bool
  patch : Fate
  /-- How many of the missing bytes the helper gets. -/
  count : ℕ

/-- The errors of `upload`. -/
inductive UploadError where
  | response | context | seek | offsetConflict
  deriving DecidableEq

/-- One turn of the loop of `upload`: what it returns, unless it goes on. -/
def turn (size : ℕ) (h : Helper) (a : Attempt) : Option (Option UploadError) × Helper :=
  match h.serve a.head 0 .head with
  | (none, h) => (if a.waits then none else some (some .context), h)
  | (some (.offset offset), h) =>
    if offset = size then (some none, h)
    else if size < offset then (some (some .offsetConflict), h)
    else if !a.seeks then (some (some .seek), h)
    else
      match h.serve a.patch a.count (.patch offset (size - offset)) with
      | (some .error, h) => (some (some .response), h)
      | (_, h) => (none, h)
  | (_, h) => (some (some .response), h)

/-- The loop of `upload`. -/
def uploadLoop (size : ℕ) (h : Helper) : List Attempt → Option UploadError × Helper
  | [] => (some .offsetConflict, h)
  | a :: attempts =>
    match turn size h a with
    | (some error, h) => (error, h)
    | (none, h) => uploadLoop size h attempts

/-- One file of a batch, and what happens in the four attempts of its upload. -/
structure Upload where
  size : ℕ
  committed : ℕ
  attempts : List Attempt
  four : attempts.length = 4

/-- `upload`: its error, and the helper after it. -/
def Upload.upload (u : Upload) : Option UploadError × Helper :=
  uploadLoop u.size ⟨u.committed, []⟩ u.attempts

/-- `SendBatch` cancels the batch if an upload has an error. -/
def cancels (uploads : List Upload) : Bool := uploads.any fun u => u.upload.1.isSome

/-! ### The attempts that complete a file -/

/-- The first offset request that is not lost is answered. -/
def confirmed : List Attempt → Bool
  | [] => false
  | a :: attempts =>
    match a.head with
    | .answered => true
    | .refused => false
    | .lost _ => a.waits && confirmed attempts

/-- An attempt on an incomplete file after which `upload` makes another one. -/
def Attempt.goesOn (a : Attempt) : Bool :=
  match a.head with
  | .answered => a.seeks && a.patch ≠ .refused
  | .refused => false
  | .lost _ => a.waits

/-- The bytes that the helper gets in an attempt. -/
def Attempt.sends (a : Attempt) : ℕ :=
  if a.head = .answered ∧ a.seeks = true ∧ (a.patch = .answered ∨ a.patch = .lost true) then a.count
  else 0

/-- The attempts up to `a` go on without completing the file, and `a` completes it with a request that is
answered. -/
structure Completes (size held : ℕ) (before : List Attempt) (a : Attempt) : Prop where
  goesOn : ∀ b ∈ before, b.goesOn = true
  missing : held + (before.map Attempt.sends).sum < size
  full : size ≤ held + (before.map Attempt.sends).sum + a.sends
  answered : a.patch = .answered

variable {size : ℕ} {h : Helper} {a : Attempt} {attempts before rest : List Attempt}

/-! ### The loop -/

/-- A turn on a complete file only asks for the offset. -/
lemma turn_full (hfull : size ≤ h.held) :
    (turn size h a).2.held = h.held ∧ ((turn size h a).2.Acknowledged size ↔ h.Acknowledged size) ∧
      (turn size h a).1 = match a.head with
        | .answered => some (if h.held = size then none else some .offsetConflict)
        | .refused => some (some .response)
        | .lost _ => if a.waits then none else some (some .context) := by
  rcases hhead : a.head with _ | _ | _ | _
  · by_cases heq : h.held = size
    · simp [turn, Helper.serve, Helper.answer, hhead, heq, Helper.Acknowledged]
    · have hlt : size < h.held := by omega
      simp [turn, Helper.serve, Helper.answer, hhead, heq, hlt, Helper.Acknowledged]
  all_goals simp [turn, Helper.serve, Helper.answer, hhead, Helper.Acknowledged]

/-- A turn that goes on has sent its bytes, and the helper acknowledges the file if they complete it and
the request is answered. -/
lemma turn_goesOn (hlt : h.held < size) (ha : a.goesOn = true) :
    (turn size h a).1 = none ∧ (turn size h a).2.held = h.held + min a.sends (size - h.held) ∧
      ((turn size h a).2.Acknowledged size ↔
        h.Acknowledged size ∨ size ≤ h.held + a.sends ∧ a.patch = .answered) := by
  have hle : ¬ size < h.held := hlt.le.not_gt
  unfold Attempt.goesOn at ha
  cases hhead : a.head with
  | refused => simp [hhead] at ha
  | lost processed =>
    replace ha : a.waits = true := by simpa [hhead] using ha
    cases processed <;>
      simp [turn, Helper.serve, Helper.answer, Helper.Acknowledged, Attempt.sends, hhead, ha, hlt.not_ge]
  | answered =>
    obtain ⟨hseeks, hpatch⟩ : a.seeks = true ∧ a.patch ≠ .refused := by simpa [hhead] using ha
    have hfull : h.held + min a.count (size - h.held) = size ↔ size ≤ h.held + a.count := by omega
    rcases hfate : a.patch with _ | _ | _ | _
    · simp [turn, Helper.serve, Helper.answer, Helper.Acknowledged, Attempt.sends, hhead, hseeks, hfate,
        hlt.ne, hle, or_and_right, exists_or, hfull]
    · exact absurd hfate hpatch
    · simp [turn, Helper.serve, Helper.answer, Helper.Acknowledged, Attempt.sends, hhead, hseeks, hfate,
        hlt.ne, hle, hlt.not_ge]
    · simp [turn, Helper.serve, Helper.answer, Helper.Acknowledged, Attempt.sends, hhead, hseeks, hfate,
        hlt.ne, hle, or_and_right, exists_or]

/-- A turn that does not go on returns an error and is not acknowledged. -/
lemma turn_stops (hlt : h.held < size) (ha : a.goesOn = false) :
    (∃ error, (turn size h a).1 = some (some error)) ∧
      ((turn size h a).2.Acknowledged size ↔ h.Acknowledged size) := by
  have hle : ¬ size < h.held := hlt.le.not_gt
  unfold Attempt.goesOn at ha
  cases hhead : a.head with
  | refused => simp [turn, Helper.serve, Helper.Acknowledged, hhead]
  | lost processed =>
    replace ha : a.waits = false := by simpa [hhead] using ha
    cases processed <;> simp [turn, Helper.serve, Helper.answer, Helper.Acknowledged, hhead, ha]
  | answered =>
    cases hseeks : a.seeks with
    | false => simp [turn, Helper.serve, Helper.answer, Helper.Acknowledged, hhead, hseeks, hlt.ne, hle]
    | true =>
      have hpatch : a.patch = .refused := by simpa [hhead, hseeks] using ha
      simp [turn, Helper.serve, Helper.answer, Helper.Acknowledged, hhead, hseeks, hpatch, hlt.ne, hle,
        or_and_right, exists_or]

lemma uploadLoop_of_none (ha : (turn size h a).1 = none) :
    uploadLoop size h (a :: attempts) = uploadLoop size (turn size h a).2 attempts := by
  rw [uploadLoop]
  split
  · next heq => simp [heq] at ha
  · next heq => rw [heq]

lemma uploadLoop_of_some {error : Option UploadError} (ha : (turn size h a).1 = some error) :
    uploadLoop size h (a :: attempts) = (error, (turn size h a).2) := by
  rw [uploadLoop]
  split
  · next heq => simp_all
  · next heq => simp [heq] at ha

/-- Once the file is complete, the loop only asks for the offset. -/
lemma uploadLoop_full (hfull : size ≤ h.held) :
    ((uploadLoop size h attempts).1 = none ↔ h.held = size ∧ confirmed attempts = true) ∧
      ((uploadLoop size h attempts).2.Acknowledged size ↔ h.Acknowledged size) := by
  induction attempts generalizing h with
  | nil => simp [uploadLoop, confirmed]
  | cons a attempts ih =>
    obtain ⟨hheld, hack, hturn⟩ := @turn_full size h a hfull
    rw [confirmed]
    cases hhead : a.head with
    | answered | refused =>
      rw [hhead] at hturn
      simp [uploadLoop_of_some hturn, hack]
    | lost =>
      rw [hhead] at hturn
      cases hwaits : a.waits with
      | true =>
        rw [hwaits] at hturn
        rw [uploadLoop_of_none hturn, ← hack, ← hheld]
        exact ih (hfull.trans_eq hheld.symm)
      | false =>
        rw [hwaits] at hturn
        simp [uploadLoop_of_some hturn, hack]

/-- The attempt that completes the file is acknowledged, and the rest of the loop decides the result. -/
lemma uploadLoop_completes (hc : Completes size h.held before a) :
    (uploadLoop size h (before ++ a :: rest)).2.Acknowledged size ∧
      ((uploadLoop size h (before ++ a :: rest)).1 = none ↔ confirmed rest = true) := by
  induction before generalizing h with
  | nil =>
    obtain ⟨-, hmissing, hfull, hanswered⟩ := hc
    simp only [List.map_nil, List.sum_nil, add_zero] at hmissing hfull
    have ha : a.goesOn = true := by
      have hsends : a.sends ≠ 0 := by omega
      unfold Attempt.sends at hsends
      simp_all [Attempt.goesOn]
    obtain ⟨hnone, hheld, hack⟩ := turn_goesOn hmissing ha
    rw [List.nil_append, uploadLoop_of_none hnone]
    have heq : (turn size h a).2.held = size := by omega
    obtain ⟨hresult, hlog⟩ := @uploadLoop_full size (turn size h a).2 rest heq.ge
    exact ⟨hlog.mpr (hack.mpr (.inr ⟨hfull, hanswered⟩)), hresult.trans (and_iff_right heq)⟩
  | cons b before ih =>
    obtain ⟨hgoesOn, hmissing, hfull, hanswered⟩ := hc
    simp only [List.map_cons, List.sum_cons] at hmissing hfull
    obtain ⟨hb, hbefore⟩ := List.forall_mem_cons.mp hgoesOn
    obtain ⟨hnone, hheld, -⟩ := @turn_goesOn size h b (by omega) hb
    rw [List.cons_append, uploadLoop_of_none hnone]
    exact ih ⟨hbefore, by omega, by omega, hanswered⟩

/-- What is acknowledged in the loop was completed in one of its attempts. -/
lemma completes_of_acknowledged (hack : (uploadLoop size h attempts).2.Acknowledged size) :
    h.Acknowledged size ∨
      ∃ before a rest, attempts = before ++ a :: rest ∧ Completes size h.held before a := by
  induction attempts generalizing h with
  | nil => exact .inl hack
  | cons a attempts ih =>
    rcases lt_or_ge h.held size with hlt | hfull
    · cases ha : a.goesOn with
      | false =>
        obtain ⟨⟨error, hsome⟩, hturn⟩ := turn_stops hlt ha
        rw [uploadLoop_of_some hsome] at hack
        exact .inl (hturn.mp hack)
      | true =>
        obtain ⟨hnone, hheld, hturn⟩ := turn_goesOn hlt ha
        rw [uploadLoop_of_none hnone] at hack
        rcases ih hack with hack | ⟨before, b, rest, rfl, hgoesOn, hmissing, hfull, hanswered⟩
        · refine (hturn.mp hack).imp_right fun ⟨hfull, hanswered⟩ => ?_
          exact ⟨[], a, attempts, rfl, by simp, by simpa using hlt, by simpa using hfull, hanswered⟩
        · refine .inr ⟨a :: before, b, rest, rfl, List.forall_mem_cons.mpr ⟨ha, hgoesOn⟩, ?_, ?_, hanswered⟩
          · rw [List.map_cons, List.sum_cons]
            omega
          · rw [List.map_cons, List.sum_cons]
            omega
    · exact .inl ((uploadLoop_full hfull).2.mp hack)

lemma reported_of_turn (hnone : (turn size h a).1 = some none) : (turn size h a).2.Reported size := by
  unfold turn at hnone ⊢
  rcases hhead : a.head with _ | _ | _ | _
  · simp only [Helper.serve, Helper.answer, hhead] at hnone ⊢
    split_ifs at hnone ⊢ with heq
    · simp [Helper.Reported, heq]
    all_goals simp at hnone
    split at hnone <;> simp at hnone
  all_goals simp [Helper.serve, Helper.answer, hhead] at hnone

/-- `upload` returns no error only from an offset request that reports the full size. -/
lemma reported_of_none (hnone : (uploadLoop size h attempts).1 = none) :
    (uploadLoop size h attempts).2.Reported size := by
  induction attempts generalizing h with
  | nil => cases hnone
  | cons a attempts ih =>
    cases hturn : (turn size h a).1 with
    | none =>
      rw [uploadLoop_of_none hturn] at hnone ⊢
      exact ih hnone
    | some error =>
      rw [uploadLoop_of_some hturn] at hnone ⊢
      cases hnone
      exact reported_of_turn hturn

/-! ### Truthful reports -/

namespace Upload

/-- The helper has acknowledged the request that made the file complete. -/
def Acknowledged (u : Upload) : Prop := u.upload.2.Acknowledged u.size

/-- The attempts after the one whose answered request completes the file confirm it. -/
def Confirmed (u : Upload) : Prop := ∀ before a rest, u.attempts = before ++ a :: rest →
  Completes u.size u.committed before a → confirmed rest = true

lemma acknowledged_iff (u : Upload) : u.Acknowledged ↔
    ∃ before a rest, u.attempts = before ++ a :: rest ∧ Completes u.size u.committed before a := by
  constructor
  · intro hack
    refine (completes_of_acknowledged hack).resolve_left ?_
    simp [Helper.Acknowledged]
  · rintro ⟨before, a, rest, hattempts, hc⟩
    rw [Acknowledged, upload, hattempts]
    exact (uploadLoop_completes hc).1

/-- An acknowledged file is uploaded without an error exactly if it is confirmed. -/
lemma none_iff_confirmed {u : Upload} (hack : u.Acknowledged) : u.upload.1 = none ↔ u.Confirmed := by
  have hiff : ∀ before a rest, u.attempts = before ++ a :: rest →
      Completes u.size u.committed before a → (u.upload.1 = none ↔ confirmed rest = true) := by
    intro before a rest hattempts hc
    rw [upload, hattempts]
    exact (uploadLoop_completes hc).2
  constructor
  · intro hnone before a rest hattempts hc
    exact (hiff before a rest hattempts hc).mp hnone
  · intro h
    obtain ⟨before, a, rest, hattempts, hc⟩ := u.acknowledged_iff.mp hack
    exact (hiff before a rest hattempts hc).mpr (h before a rest hattempts hc)

lemma confirmed_of_not_acknowledged {u : Upload} (hack : ¬ u.Acknowledged) : u.Confirmed := by
  intro before a rest hattempts hc
  exact absurd (u.acknowledged_iff.mpr ⟨before, a, rest, hattempts, hc⟩) hack

end Upload

/-- An upload whose completing request is acknowledged returns no error exactly if the next offset
request that is not lost is answered, and `SendBatch` keeps a batch of such uploads exactly if that is
so for all of them; an upload returns no error only if the helper has reported the full size. -/
theorem upload_truthful_iff (u : Upload) (uploads : List Upload) :
    ((u.Acknowledged → u.upload.1 = none) ↔ u.Confirmed) ∧
    (((∀ u ∈ uploads, u.Acknowledged) → cancels uploads = false) ↔
      ((∀ u ∈ uploads, u.Acknowledged) → ∀ u ∈ uploads, u.Confirmed)) ∧
    (u.upload.1 = none → u.upload.2.Reported u.size) := by
  refine ⟨?_, ?_, reported_of_none⟩
  · by_cases hack : u.Acknowledged
    · simp [hack, Upload.none_iff_confirmed hack]
    · simp [hack, Upload.confirmed_of_not_acknowledged hack]
  · refine imp_congr_right fun hall => ?_
    rw [cancels, List.any_eq_false]
    refine forall₂_congr fun u hu => ?_
    rw [← Upload.none_iff_confirmed (hall u hu), Option.not_isSome_iff_eq_none]

/-- Three offset requests are lost; the fourth attempt uploads the file. -/
def lastAttempt : Upload where
  size := 1
  committed := 0
  attempts := List.replicate 3 ⟨.lost false, true, true, .lost false, 0⟩ ++
    [⟨.answered, true, true, .answered, 1⟩]
  four := rfl

/-- The helper has acknowledged the last byte, and the batch is cancelled. -/
theorem acknowledged_and_cancelled : lastAttempt.Acknowledged ∧
    lastAttempt.upload.1 = some .offsetConflict ∧ cancels [lastAttempt] = true := by
  refine ⟨?_, ?_, ?_⟩
  · exact ⟨⟨.patch 0 1, .stored, 1, true⟩, by decide, rfl, rfl, rfl⟩
  · decide
  · decide

end Paperboat.Loopback

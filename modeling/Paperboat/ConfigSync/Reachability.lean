import Paperboat.ConfigSync.Publisher

/-!
# The search for a commit

The loop of `commitReachable` in `internal/configsync/git_repository.go`, iteration by iteration: it
looks at the commits of a queue, at each of them once, until the wanted commit is a parent of one, the
queue is empty or the limit is reached.
-/

namespace Paperboat.ConfigSync.Publisher

/-- The variables of the loop. -/
structure Search where
  seen : List String
  queue : List String

section
variable (objects : FinMap String (List String)) (want : String) (limit : ℕ)

/-- What the loop does next: another iteration, or the end with a result, `none` for an error. -/
def Search.step (s : Search) : Search ⊕ Option Bool :=
  match s.queue with
  | [] => .inr (some (want ∈ s.seen))
  | hash :: queue =>
    if limit ≤ s.seen.length then .inr (some (want ∈ s.seen))
    else if hash ∈ s.seen then .inl ⟨s.seen, queue⟩
    else
      match objects.lookup hash with
      | none => .inr none
      | some parents =>
        match scanParents objects want parents with
        | none => .inr none
        | some true => .inr (some true)
        | some false => .inl ⟨hash :: s.seen, queue ++ parents⟩

/-- The loop ends in a state, with a result. -/
inductive Search.Ends : Search → Search → Option Bool → Prop where
  | done {s : Search} {result : Option Bool} (h : s.step objects want limit = .inr result) :
      Ends s s result
  | next {s s' t : Search} {result : Option Bool} (h : s.step objects want limit = .inl s')
      (hends : Ends s' t result) : Ends s t result

variable {objects want limit} {s s' t : Search} {result : Option Bool} {head : String}

/-- Every iteration looks at one more commit, or makes the queue shorter. -/
lemma Search.exists_ends (objects : FinMap String (List String)) (want : String) (limit : ℕ) (s : Search) :
    ∃ t result, s.Ends objects want limit t result := by
  cases h : s.step objects want limit with
  | inr result => exact ⟨s, result, .done h⟩
  | inl s' =>
    have hless : limit - s'.seen.length < limit - s.seen.length ∨
        s'.seen.length = s.seen.length ∧ s'.queue.length < s.queue.length := by
      unfold Search.step at h
      grind
    obtain ⟨t, result, hends⟩ := Search.exists_ends objects want limit s'
    exact ⟨t, result, .next h hends⟩
termination_by (limit - s.seen.length, s.queue.length)
decreasing_by
  rcases hless with hless | ⟨hseen, hqueue⟩
  · exact .left _ _ hless
  · rw [hseen]
    exact .right _ hqueue

lemma scanParents_eq_some {parents : List String} {found : Bool}
    (h : scanParents objects want parents = some found) : found = decide (want ∈ parents) := by
  fun_induction scanParents objects want parents <;> grind

/-- The commits that the search has come to lie behind the head, the wanted one is not among them, and
the parents of those that it has looked at are. -/
structure Search.Inv (objects : FinMap String (List String)) (want head : String) (s : Search) : Prop where
  reached : ∀ c ∈ s.seen ++ s.queue, Reachable objects c head
  absent : want ∉ s.seen ++ s.queue
  head : head ∈ s.seen ++ s.queue
  closed : ∀ c ∈ s.seen, ∀ parents, objects.lookup c = some parents → ∀ p ∈ parents, p ∈ s.seen ++ s.queue

lemma Reachable.trans {a b c : String} (h : Reachable objects a b) (h' : Reachable objects b c) :
    Reachable objects a c := by
  induction h' with
  | self => exact h
  | parent hhead hp _ ih => exact .parent hhead hp ih

lemma Search.Inv.step (h : s.Inv objects want head) (hstep : s.step objects want limit = .inl s') :
    s'.Inv objects want head := by
  obtain ⟨seen, queue⟩ := s
  unfold Search.step at hstep
  rcases queue with _ | ⟨hash, _⟩
  · cases hstep
  simp only at hstep
  split at hstep
  · cases hstep
  split at hstep
  · next hseen =>
    cases hstep
    obtain ⟨hreached, habsent, hhead, hclosed⟩ := h
    exact ⟨by grind, by grind, by grind, by grind⟩
  split at hstep
  · cases hstep
  next parents hparents =>
  split at hstep
  · cases hstep
  · cases hstep
  next hscan =>
  cases hstep
  have hwant : want ∉ parents := of_decide_eq_false (scanParents_eq_some hscan).symm
  have hparent : ∀ p ∈ parents, Reachable objects p head := fun p hp =>
    Reachable.trans (.parent hparents hp (.self p)) (h.reached hash (by simp))
  obtain ⟨hreached, habsent, hhead, hclosed⟩ := h
  exact ⟨by grind, by grind, by grind, by grind⟩

/-- A set of commits with all their parents has everything behind its members. -/
lemma mem_of_reachable {l : List String} {c : String}
    (hclosed : ∀ x ∈ l, ∀ parents, objects.lookup x = some parents → ∀ p ∈ parents, p ∈ l)
    (h : Reachable objects c head) (hhead : head ∈ l) : c ∈ l := by
  induction h with
  | self => exact hhead
  | parent hparents hp _ ih => exact ih (hclosed _ hhead _ hparents _ hp)

/-- What the result says about the wanted commit. -/
lemma Search.Ends.correct (hends : s.Ends objects want limit t result) (h : s.Inv objects want head) :
    (result = some true → Reachable objects want head) ∧
      (result = some false → t.seen.length < limit → ¬ Reachable objects want head) := by
  induction hends with
  | next hstep _ ih => exact ih (h.step hstep)
  | @done s result hstep =>
    obtain ⟨seen, queue⟩ := s
    have hunseen : decide (want ∈ seen) = false :=
      decide_eq_false fun hmem => h.absent (List.mem_append_left _ hmem)
    unfold Search.step at hstep
    rcases queue with _ | ⟨hash, _⟩
    · simp only [hunseen, Sum.inr.injEq] at hstep
      subst hstep
      refine ⟨nofun, fun _ _ hreachable => h.absent (mem_of_reachable ?_ hreachable h.head)⟩
      simpa using h.closed
    simp only [hunseen] at hstep
    split at hstep
    · next hlimit =>
      cases hstep
      exact ⟨nofun, fun _ hlt => absurd hlt (not_lt.mpr hlimit)⟩
    split at hstep
    · cases hstep
    split at hstep
    · cases hstep
      exact ⟨nofun, nofun⟩
    next parents hparents =>
    split at hstep
    · cases hstep
      exact ⟨nofun, nofun⟩
    · next hscan =>
      cases hstep
      have hmem : want ∈ parents := of_decide_eq_true (scanParents_eq_some hscan).symm
      exact ⟨fun _ => Reachable.trans (.parent hparents hmem (.self want)) (h.reached hash (by simp)), nofun⟩
    · cases hstep

/-- The loop as a function of the commits that may still be looked at does the same. -/
lemma Search.reachableLoop_eq (h : want ∉ s.seen) :
    reachableLoop objects want (limit - s.seen.length) s.seen s.queue =
      match s.step objects want limit with
      | .inr result => result
      | .inl s' => reachableLoop objects want (limit - s'.seen.length) s'.seen s'.queue := by
  obtain ⟨seen, queue⟩ := s
  rcases queue with _ | ⟨hash, _⟩
  · cases hleft : limit - seen.length <;> simp_all [Search.step, reachableLoop]
  cases hleft : limit - seen.length with
  | zero => simp_all [Search.step, reachableLoop, Nat.sub_eq_zero_iff_le]
  | succ left =>
    have hlt : ¬ limit ≤ seen.length := by omega
    have hless : limit - (seen.length + 1) = left := by omega
    simp only [Search.step, hlt, if_false]
    by_cases hseen : hash ∈ seen
    · simp [reachableLoop, hseen, hleft]
    simp only [reachableLoop, hseen, List.dropWhile_cons, decide_false, if_false, Bool.false_eq_true]
    cases hparents : objects.lookup hash with
    | none => rfl
    | some parents => rcases hscan : scanParents objects want parents with _ | _ | _ <;> simp [hscan, hless]

lemma Search.Ends.result_eq (hends : s.Ends objects want limit t result) (h : s.Inv objects want head) :
    reachableLoop objects want (limit - s.seen.length) s.seen s.queue = result := by
  induction hends with
  | done hstep =>
    rw [Search.reachableLoop_eq fun hmem => h.absent (List.mem_append_left _ hmem), hstep]
  | next hstep _ ih =>
    rw [Search.reachableLoop_eq fun hmem => h.absent (List.mem_append_left _ hmem), hstep]
    exact ih (h.step hstep)

end

/-- `commitReachable` returns. It returns `true` only for the head and what lies behind it, and if it
returns `false` before the limit is reached, the wanted commit does not lie behind the head. -/
theorem commitReachable_correct (objects : FinMap String (List String)) (want head : String) (limit : ℕ) :
    want = head ∧ commitReachable objects want head limit = some true ∨
    want ≠ head ∧ ∃ t, Search.Ends objects want limit ⟨[], [head]⟩ t (commitReachable objects want head limit) ∧
      (commitReachable objects want head limit = some true → Reachable objects want head) ∧
      (commitReachable objects want head limit = some false → t.seen.length < limit →
        ¬ Reachable objects want head) := by
  by_cases heq : want = head
  · exact .inl ⟨heq, if_pos heq⟩
  refine .inr ⟨heq, ?_⟩
  have hinv : Search.Inv objects want head ⟨[], [head]⟩ :=
    ⟨by simpa using .self head, by simpa using heq, by simp, by simp⟩
  obtain ⟨t, result, hends⟩ := Search.exists_ends objects want limit ⟨[], [head]⟩
  have hresult : commitReachable objects want head limit = result := by
    rw [commitReachable, if_neg heq]
    exact hends.result_eq hinv
  rw [hresult]
  exact ⟨t, hends, hends.correct hinv⟩

end Paperboat.ConfigSync.Publisher

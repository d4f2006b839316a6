import Mathlib

/-!
# Segments of a sequence

A log of a growing sequence keeps records, each of which stands for the half-open range
`[lo x, hi x)` of positions:

* `Tiles lo hi a l b`: the records of `l` are consecutive and fill `[a, b)` exactly;
* `Ordered lo hi l`: the records of `l` are disjoint and sorted, possibly with gaps;
* `Covered lo hi l q`: some record of `l` contains the position `q`.

`searchFirst` is the binary search of the Go standard library.
-/

namespace Paperboat

open List

/-! ### Tilings -/

section
variable {α : Type*} (lo hi : α → ℕ)

/-- The records of `l` are consecutive and fill `[a, b)` exactly. -/
def Tiles : ℕ → List α → ℕ → Prop
  | a, [], b => a = b
  | a, x :: l, b => lo x = a ∧ lo x ≤ hi x ∧ Tiles (hi x) l b

variable {lo hi} {a b : ℕ}

@[simp] lemma tiles_nil : Tiles lo hi a [] b ↔ a = b := Iff.rfl

variable {x : α} {l : List α}

@[simp] lemma tiles_cons :
    Tiles lo hi a (x :: l) b ↔ lo x = a ∧ lo x ≤ hi x ∧ Tiles lo hi (hi x) l b := Iff.rfl

/-- Two lists tile a range together exactly when they tile adjacent ranges. -/
lemma tiles_append {l₁ l₂ : List α} :
    Tiles lo hi a (l₁ ++ l₂) b ↔ ∃ m, Tiles lo hi a l₁ m ∧ Tiles lo hi m l₂ b := by
  induction l₁ generalizing a with
  | nil => simp
  | cons x l₁ ih =>
    simp only [cons_append, tiles_cons, ih]
    constructor
    · rintro ⟨h₁, h₂, m, h₃, h₄⟩
      exact ⟨m, ⟨h₁, h₂, h₃⟩, h₄⟩
    · rintro ⟨m, ⟨h₁, h₂, h₃⟩, h₄⟩
      exact ⟨h₁, h₂, m, h₃, h₄⟩

lemma Tiles.concat (h : Tiles lo hi a l b) (hlo : lo x = b) (hle : lo x ≤ hi x) :
    Tiles lo hi a (l ++ [x]) (hi x) :=
  tiles_append.mpr ⟨b, h, hlo, hle, rfl⟩

lemma Tiles.le (h : Tiles lo hi a l b) : a ≤ b := by
  induction l generalizing a with
  | nil => exact Nat.le_of_eq h
  | cons x l ih =>
    obtain ⟨hlo, hle, htl⟩ := h
    have := ih htl
    omega

lemma Tiles.bounds (h : Tiles lo hi a l b) (hx : x ∈ l) : a ≤ lo x ∧ lo x ≤ hi x ∧ hi x ≤ b := by
  induction l generalizing a with
  | nil => simp at hx
  | cons y l ih =>
    obtain ⟨hlo, hle, htl⟩ := h
    rcases mem_cons.mp hx with rfl | hx
    · exact ⟨hlo.ge, hle, htl.le⟩
    · obtain ⟨h₁, h₂, h₃⟩ := ih htl hx
      exact ⟨by omega, h₂, h₃⟩

/-- The total length of the records of a tiling is the length of the range. -/
lemma Tiles.sum_length (h : Tiles lo hi a l b) : (l.map fun x => hi x - lo x).sum = b - a := by
  induction l generalizing a with
  | nil => obtain rfl := h; simp
  | cons x l ih =>
    obtain ⟨hlo, hle, htl⟩ := h
    have hb := htl.le
    rw [map_cons, sum_cons, ih htl]
    omega

end

/-! ### Ordered segments -/

section
variable {α : Type*} (lo hi : α → ℕ)

/-- The records are disjoint and sorted, possibly with gaps between them. -/
def Ordered (l : List α) : Prop := l.Pairwise fun x y => hi x ≤ lo y

/-- Some record contains the position `q`. -/
def Covered (l : List α) (q : ℕ) : Prop := ∃ x ∈ l, lo x ≤ q ∧ q < hi x

/-- Two records share a position. -/
def Overlap (x y : α) : Prop := lo x < hi y ∧ lo y < hi x

variable {lo hi} {a b : ℕ} {l : List α}

lemma Tiles.ordered (h : Tiles lo hi a l b) : Ordered lo hi l := by
  induction l generalizing a with
  | nil => exact Pairwise.nil
  | cons x l ih =>
    obtain ⟨hlo, hle, htl⟩ := h
    exact Pairwise.cons (fun y hy => (htl.bounds hy).1) (ih htl)

/-- Sorting by the lower bound puts pairwise disjoint nonempty records in order. -/
lemma ordered_of_sorted_of_disjoint (hsort : l.Pairwise fun x y => lo x ≤ lo y)
    (hdisj : l.Pairwise fun x y => ¬ Overlap lo hi x y) (hne : ∀ x ∈ l, lo x < hi x) :
    Ordered lo hi l := by
  induction l with
  | nil => exact Pairwise.nil
  | cons x l ih =>
    rw [pairwise_cons] at hsort hdisj
    refine Pairwise.cons (fun y hy => ?_)
      (ih hsort.2 hdisj.2 fun z hz => hne z (mem_cons_of_mem _ hz))
    have hle := hsort.1 y hy
    have hno := hdisj.1 y hy
    have hy' := hne y (mem_cons_of_mem _ hy)
    unfold Overlap at hno
    omega

/-- Distinct places of an ordered list of nonempty records hold disjoint records. -/
lemma Ordered.disjoint (h : Ordered lo hi l) : l.Pairwise fun x y => ¬ Overlap lo hi x y :=
  h.imp fun hxy hov => by unfold Overlap at hov; omega

/-- In an ordered list of nonempty records the upper bounds increase. -/
lemma Ordered.hi_le (h : Ordered lo hi l) (hne : ∀ x ∈ l, lo x < hi x) :
    l.Pairwise fun x y => hi x < hi y := by
  induction l with
  | nil => exact Pairwise.nil
  | cons x l ih =>
    unfold Ordered at h
    rw [pairwise_cons] at h
    refine Pairwise.cons (fun y hy => ?_) (ih h.2 fun z hz => hne z (mem_cons_of_mem _ hz))
    have h₁ := h.1 y hy
    have h₂ := hne y (mem_cons_of_mem _ hy)
    omega

/-- Two records of an ordered list that share a position are the same record. -/
lemma Ordered.eq_of_overlap (h : Ordered lo hi l) {x y : α} (hx : x ∈ l) (hy : y ∈ l)
    (hov : Overlap lo hi x y) : x = y := by
  induction l with
  | nil => simp at hx
  | cons z l ih =>
    unfold Ordered at h
    rw [pairwise_cons] at h
    unfold Overlap at hov
    rcases mem_cons.mp hx with rfl | hx' <;> rcases mem_cons.mp hy with rfl | hy'
    · rfl
    · have := h.1 y hy'; omega
    · have := h.1 x hx'; omega
    · exact ih h.2 hx' hy'

end

/-! ### Binary search -/

section
/-- The loop of the binary search on `[i, j)`: at most `fuel` halvings. -/
def searchLoop (f : ℕ → Bool) : ℕ → ℕ → ℕ → ℕ
  | 0, i, _ => i
  | fuel + 1, i, j =>
    if i < j then
      let mid := (i + j) / 2
      if f mid then searchLoop f fuel i mid else searchLoop f fuel (mid + 1) j
    else i

/-- The least index below `n` at which the monotone predicate `f` holds, and `n` if there is none. -/
def searchFirst (n : ℕ) (f : ℕ → Bool) : ℕ := searchLoop f n 0 n

variable {f : ℕ → Bool} {n : ℕ}

/-- The search keeps the boundary between the two values of `f` inside its interval. -/
lemma searchLoop_spec (hmono : ∀ a b, a ≤ b → b < n → f a = true → f b = true) :
    ∀ fuel i j, j ≤ i + fuel → i ≤ j → j ≤ n → (∀ k < i, f k = false) →
      (∀ k, j ≤ k → k < n → f k = true) →
      searchLoop f fuel i j ≤ n ∧ (∀ k < searchLoop f fuel i j, f k = false) ∧
        ∀ k, searchLoop f fuel i j ≤ k → k < n → f k = true := by
  intro fuel
  induction fuel with
  | zero =>
    intro i j hfuel hij hjn hlow hhigh
    have : i = j := by omega
    subst this
    exact ⟨hjn, hlow, hhigh⟩
  | succ fuel ih =>
    intro i j hfuel hij hjn hlow hhigh
    unfold searchLoop
    by_cases hlt : i < j
    · simp only [hlt, if_true]
      cases hf : f ((i + j) / 2) with
      | true =>
        simp only [if_true]
        refine ih i ((i + j) / 2) (by omega) (by omega) (by omega) hlow fun k hk hkn => ?_
        exact hmono _ k hk hkn hf
      | false =>
        simp only [Bool.false_eq_true, if_false]
        refine ih ((i + j) / 2 + 1) j (by omega) (by omega) hjn (fun k hk => ?_) hhigh
        cases hfk : f k with
        | false => rfl
        | true => rw [hmono k ((i + j) / 2) (by omega) (by omega) hfk] at hf; cases hf
    · have : i = j := by omega
      subst this
      simp only [hlt, if_false]
      exact ⟨hjn, hlow, hhigh⟩

/-- The index found separates the two values of a monotone predicate. -/
lemma searchFirst_spec (hmono : ∀ a b, a ≤ b → b < n → f a = true → f b = true) :
    searchFirst n f ≤ n ∧ (∀ k < searchFirst n f, f k = false) ∧
      ∀ k, searchFirst n f ≤ k → k < n → f k = true :=
  searchLoop_spec hmono n 0 n (by omega) (by omega) le_rfl (by simp) (by omega)

variable {α : Type*} {lo hi : α → ℕ}

/-- The first record that ends beyond `q`, by binary search. -/
def firstBeyond (hi : α → ℕ) (l : List α) (q : ℕ) : ℕ :=
  searchFirst l.length fun i => match l[i]? with
    | some x => decide (q < hi x)
    | none => false

/-- In an ordered list, the first record that ends beyond a covered position is the record that
covers it. -/
lemma getElem?_firstBeyond {l : List α} (h : Ordered lo hi l) (hne : ∀ x ∈ l, lo x < hi x)
    {q : ℕ} {x : α} (hx : x ∈ l) (hlo : lo x ≤ q) (hhi : q < hi x) :
    l[firstBeyond hi l q]? = some x := by
  have hinc := pairwise_iff_getElem.mp (h.hi_le hne)
  have hord := pairwise_iff_getElem.mp h
  obtain ⟨m, hm, rfl⟩ := mem_iff_getElem.mp hx
  have hspec := searchFirst_spec (n := l.length) (f := fun i => match l[i]? with
    | some x => decide (q < hi x)
    | none => false) (by
      intro a b hab hb ha
      have ha' : a < l.length := by omega
      simp only [getElem?_eq_getElem ha', getElem?_eq_getElem hb, decide_eq_true_eq] at ha ⊢
      rcases Nat.lt_or_eq_of_le hab with hlt | rfl
      · have := hinc a b ha' hb hlt
        omega
      · exact ha)
  change l[searchFirst _ _]? = _
  generalize searchFirst _ _ = r at hspec
  obtain ⟨hr, hlow, hhigh⟩ := hspec
  rcases Nat.lt_trichotomy r m with hlt | rfl | hgt
  · -- a record before `x` that ends beyond `q` would overlap `x`
    have hr' : r < l.length := by omega
    have hfr := hhigh r le_rfl hr'
    simp only [getElem?_eq_getElem hr', decide_eq_true_eq] at hfr
    have := hord r m hr' hm hlt
    omega
  · exact getElem?_eq_getElem hm
  · have hfm := hlow m hgt
    simp only [getElem?_eq_getElem hm, decide_eq_false_iff_not] at hfm
    omega

end

/-! ### Segments of a list -/

variable {β : Type*} {a b : ℕ}

lemma extract_append_extract (s : List β) {c : ℕ} (hab : a ≤ b) (hbc : b ≤ c) :
    s.extract a b ++ s.extract b c = s.extract a c := by
  simp only [extract_eq_take_drop]
  have hdrop : s.drop b = (s.drop a).drop (b - a) := by
    rw [drop_drop]
    congr 1
    omega
  have hlen : c - a = (b - a) + (c - b) := by omega
  rw [hdrop, hlen, take_add]

lemma extract_append_left (s t : List β) (hb : b ≤ s.length) : (s ++ t).extract a b = s.extract a b := by
  simp only [extract_eq_take_drop]
  by_cases ha : a ≤ s.length
  · rw [drop_append_of_le_length ha, take_append_of_le_length (by simp; omega)]
  · have h0 : b - a = 0 := by omega
    simp [h0]

lemma extract_append_right (s t : List β) : (s ++ t).extract s.length (s.length + t.length) = t := by
  simp [extract_eq_take_drop]

lemma length_extract_of_le (s : List β) (hb : b ≤ s.length) : (s.extract a b).length = b - a := by
  simp only [extract_eq_take_drop, length_take, length_drop]
  omega

lemma extract_extract_of_le (s : List β) {i j : ℕ} (hj : a + j ≤ b) :
    (s.extract a b).extract i j = s.extract (a + i) (a + j) := by
  simp only [extract_eq_take_drop, drop_take, take_take, drop_drop]
  congr 1
  omega

variable {α : Type*} {lo hi : α → ℕ} {data : α → List β}

/-- The record `x` holds the part `[lo x, hi x)` of the sequence `s`. -/
def Holds (lo hi : α → ℕ) (data : α → List β) (s : List β) (x : α) : Prop :=
  hi x ≤ s.length ∧ data x = s.extract (lo x) (hi x)

variable {s : List β} {x : α}

lemma Holds.append (h : Holds lo hi data s x) (t : List β) : Holds lo hi data (s ++ t) x :=
  ⟨by rw [length_append]; exact le_trans h.1 (Nat.le_add_right _ _),
    by rw [extract_append_left s t h.1]; exact h.2⟩

lemma Holds.length (h : Holds lo hi data s x) : (data x).length = hi x - lo x := by
  rw [h.2, length_extract_of_le s h.1]

variable {l : List α}

/-- Records that tile a range and hold their parts hold the range together. -/
lemma Tiles.flatMap_data (h : Tiles lo hi a l b) (hd : ∀ x ∈ l, Holds lo hi data s x) :
    l.flatMap data = s.extract a b := by
  induction l generalizing a with
  | nil =>
    obtain rfl := h
    simp [extract_eq_take_drop]
  | cons x l ih =>
    obtain ⟨hlo, hle, htl⟩ := h
    rw [flatMap_cons, ih htl fun y hy => hd y (mem_cons_of_mem _ hy), (hd x mem_cons_self).2, ← hlo]
    exact extract_append_extract s hle htl.le

/-- Conversely, records that tile a range and are as long as it says hold their parts of what they
are concatenated to, behind anything as long as the range's start. -/
lemma Tiles.holds_flatMap (h : Tiles lo hi a l b) (hlen : ∀ x ∈ l, (data x).length = hi x - lo x)
    (hs : s.length = a) :
    (s ++ l.flatMap data).length = b ∧ ∀ x ∈ l, Holds lo hi data (s ++ l.flatMap data) x := by
  induction l generalizing a s with
  | nil =>
    obtain rfl := h
    simp [hs]
  | cons x l ih =>
    obtain ⟨hlo, hle, htl⟩ := h
    have hx := hlen x mem_cons_self
    have hs' : (s ++ data x).length = hi x := by
      rw [length_append, hs, hx]
      omega
    obtain ⟨hlength, hholds⟩ := ih htl (fun y hy => hlen y (mem_cons_of_mem _ hy)) hs'
    rw [flatMap_cons, ← append_assoc]
    refine ⟨hlength, fun y hy => ?_⟩
    rcases mem_cons.mp hy with rfl | hy
    · refine Holds.append (s := s ++ data y) ⟨hs'.ge, ?_⟩ _
      have hright := extract_append_right s (data y)
      rw [← length_append, hs', hs, ← hlo] at hright
      exact hright.symm
    · exact hholds y hy

end Paperboat

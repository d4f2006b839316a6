import Mathlib

/-!
# Finite maps with a value map

A finite map from `κ` to `α` is `AList` with a constant value type. Mathlib has look-up, insertion and
erasure; this file adds what a program that walks over a map needs. Everything is stated through
`lookup`, so that no proof depends on the order of the entries.
-/

namespace Paperboat

open AList List

universe u v

/-- A finite map from `κ` to `α`. -/
abbrev FinMap (κ : Type u) (α : Type v) := AList fun _ : κ => α

namespace FinMap

variable {κ : Type u} {α : Type v} [DecidableEq κ]

/-- Rewrite every value of the map, the key at hand. -/
def mapVals (f : κ → α → α) (m : FinMap κ α) : FinMap κ α where
  entries := m.entries.map fun e => ⟨e.1, f e.1 e.2⟩
  nodupKeys := by
    have hkeys : (m.entries.map fun e => (⟨e.1, f e.1 e.2⟩ : Sigma fun _ : κ => α)).keys =
        m.entries.keys := by
      simp [List.keys, Function.comp_def]
    rw [List.NodupKeys, hkeys]
    exact m.nodupKeys

/-- Looking a key up after `mapVals` rewrites the value found before. -/
@[simp] lemma lookup_mapVals (f : κ → α → α) (m : FinMap κ α) (k : κ) :
    (mapVals f m).lookup k = (m.lookup k).map (f k) := by
  unfold AList.lookup mapVals
  simp only
  induction m.entries with
  | nil => rfl
  | cons e l ih =>
    obtain ⟨k', a⟩ := e
    by_cases hk : k = k'
    · subst hk
      simp [dlookup_cons_eq]
    · rw [map_cons, dlookup_cons_ne _ _ hk, dlookup_cons_ne _ _ hk, ih]

lemma lookup_insert_eq (m : FinMap κ α) (k k' : κ) (a : α) :
    (insert k' a m).lookup k = if k = k' then some a else m.lookup k := by
  by_cases hk : k = k'
  · subst hk
    simp
  · simp [hk]

lemma lookup_erase_eq (m : FinMap κ α) (k k' : κ) :
    (erase k' m).lookup k = if k = k' then none else m.lookup k := by
  by_cases hk : k = k'
  · subst hk
    simp
  · simp [hk]

section
variable {m : FinMap κ α} {k : κ} {b : α} {P : κ → α → Prop}

/-- What holds of a new entry and of the others holds of all entries after the insertion. -/
lemma forall_insert (hk : P k b) (hm : ∀ k' a, m.lookup k' = some a → k' ≠ k → P k' a) :
    ∀ k' a, (insert k b m).lookup k' = some a → P k' a := by
  intro k' a h
  rw [lookup_insert_eq] at h
  split at h
  · next heq => exact heq ▸ Option.some.inj h ▸ hk
  · next hne => exact hm k' a h hne

lemma forall_erase (hm : ∀ k' a, m.lookup k' = some a → k' ≠ k → P k' a) :
    ∀ k' a, (erase k m).lookup k' = some a → P k' a := by
  intro k' a h
  rw [lookup_erase_eq] at h
  split at h
  · cases h
  · next hne => exact hm k' a h hne

lemma ne_of_lookup {k' : κ} {a : α} (hk : m.lookup k = none) (hk' : m.lookup k' = some a) : k' ≠ k := by
  rintro rfl
  cases hk.symm.trans hk'

lemma lookup_insert_of_none {k' : κ} {a : α} (hk : m.lookup k = none) (hk' : m.lookup k' = some a) :
    (insert k b m).lookup k' = some a :=
  (lookup_insert_ne (ne_of_lookup hk hk')).trans hk'

end

lemma lookup_eq_some_iff_mem (m : FinMap κ α) (k : κ) (a : α) :
    m.lookup k = some a ↔ (⟨k, a⟩ : Sigma fun _ : κ => α) ∈ m.entries :=
  mem_lookup_iff

lemma mem_keys (m : FinMap κ α) (k : κ) : k ∈ m.keys ↔ m.lookup k ≠ none := by
  rw [Ne, lookup_eq_none, not_not]
  rfl

/-- The map that sends every listed key at which `f` is defined to its value. -/
def ofKeys (ks : List κ) (f : κ → Option α) : FinMap κ α :=
  ks.foldr (fun k m => match f k with
    | some a => AList.insert k a m
    | none => m) ∅

lemma lookup_ofKeys (ks : List κ) (f : κ → Option α) (k : κ) :
    (ofKeys ks f).lookup k = if k ∈ ks then f k else none := by
  induction ks with
  | nil => simp [ofKeys]
  | cons k' ks ih =>
    have hcons : ofKeys (k' :: ks) f = match f k' with
        | some a => insert k' a (ofKeys ks f)
        | none => ofKeys ks f := rfl
    rw [hcons]
    by_cases hk : k = k'
    · subst hk
      cases hf : f k with
      | none => by_cases hm : k ∈ ks <;> simp [ih, hm, hf]
      | some => simp
    · cases hf : f k' with
      | none | some => simp [ih, hk]

/-- Set a key to a value, or remove it. -/
def put (m : FinMap κ α) (k : κ) (v : Option α) : FinMap κ α :=
  match v with
  | some a => AList.insert k a m
  | none => AList.erase k m

@[simp] lemma lookup_put (m : FinMap κ α) (k k' : κ) (v : Option α) :
    (m.put k' v).lookup k = if k = k' then v else m.lookup k := by
  cases v with
  | none => exact lookup_erase_eq m k k'
  | some a => exact lookup_insert_eq m k k' a

/-- The map restricted to the keys that satisfy a predicate. -/
def restrict (m : FinMap κ α) (p : κ → Bool) : FinMap κ α :=
  ofKeys m.keys fun k => if p k then m.lookup k else none

@[simp] lemma lookup_restrict (m : FinMap κ α) (p : κ → Bool) (k : κ) :
    (m.restrict p).lookup k = if p k then m.lookup k else none := by
  rw [restrict, lookup_ofKeys]
  by_cases hk : k ∈ m.keys
  · rw [if_pos hk]
  · rw [if_neg hk, lookup_eq_none.mpr hk, ite_self]

/-- The two maps have the same values. -/
def same [DecidableEq α] (m m' : FinMap κ α) : Bool :=
  (m.keys ++ m'.keys).all fun k => m.lookup k = m'.lookup k

variable {m : FinMap κ α}

lemma same_iff [DecidableEq α] {m' : FinMap κ α} : same m m' = true ↔ ∀ k, m.lookup k = m'.lookup k := by
  simp only [same, all_eq_true, mem_append, decide_eq_true_eq]
  refine ⟨fun h k => ?_, fun h k _ => h k⟩
  by_cases hk : k ∈ m.keys ∨ k ∈ m'.keys
  · exact h k hk
  · rw [not_or] at hk
    rw [lookup_eq_none.mpr hk.1, lookup_eq_none.mpr hk.2]

/-- The number of entries. -/
def size (m : FinMap κ α) : ℕ := m.entries.length

variable {k : κ}

lemma size_insert (a : α) (h : m.lookup k = none) : size (insert k a m) = m.size + 1 := by
  rw [size, entries_insert_of_notMem (lookup_eq_none.mp h)]
  rfl

/-- One entry of the walk behind `minOver`: keep the smaller of the value met and the accumulator. -/
def minStep (g : α → Option ℕ) (acc : Option ℕ) (a : α) : Option ℕ :=
  match g a, acc with
  | none, acc => acc
  | some n, none => some n
  | some n, some least => if n < least then some n else some least

/-- The least value of `g` over the entries at which it is defined. -/
def minOver (g : α → Option ℕ) (m : FinMap κ α) : Option ℕ :=
  m.entries.foldl (fun acc e => minStep g acc e.2) none

lemma minStep_le_acc (g : α → Option ℕ) (a : α) (n : ℕ) :
    ∃ least ≤ n, minStep g (some n) a = some least := by
  unfold minStep
  rcases g a with _ | k
  · exact ⟨n, le_rfl, rfl⟩
  by_cases hk : k < n
  · exact ⟨k, hk.le, by simp [hk]⟩
  · exact ⟨n, le_rfl, by simp [hk]⟩

variable {g : α → Option ℕ} {a : α} {n : ℕ}

lemma minStep_le_value (hn : g a = some n) (acc : Option ℕ) :
    ∃ least ≤ n, minStep g acc a = some least := by
  unfold minStep
  rw [hn]
  rcases acc with _ | k
  · exact ⟨n, le_rfl, rfl⟩
  by_cases hk : n < k
  · exact ⟨n, le_rfl, by simp [hk]⟩
  · exact ⟨k, not_lt.mp hk, by simp [hk]⟩

omit [DecidableEq κ] in
/-- The walk behind `minOver` ends below the accumulator it starts from. -/
private lemma foldl_minStep_le_acc (g : α → Option ℕ) (l : List (Sigma fun _ : κ => α)) (n : ℕ) :
    ∃ least ≤ n, l.foldl (fun acc e => minStep g acc e.2) (some n) = some least := by
  induction l generalizing n with
  | nil => exact ⟨n, le_rfl, rfl⟩
  | cons e l ih =>
    obtain ⟨k, hk, hstep⟩ := minStep_le_acc g e.2 n
    obtain ⟨least, hle, hfold⟩ := ih k
    exact ⟨least, le_trans hle hk, by rw [foldl_cons, hstep, hfold]⟩

omit [DecidableEq κ] in
/-- The walk behind `minOver` ends below every value it meets. -/
private lemma foldl_minStep_le_value {l : List (Sigma fun _ : κ => α)} {e : Sigma fun _ : κ => α}
    (he : e ∈ l) (hn : g e.2 = some n) (acc : Option ℕ) :
    ∃ least ≤ n, l.foldl (fun acc e => minStep g acc e.2) acc = some least := by
  induction l generalizing acc with
  | nil => simp at he
  | cons e' l ih =>
    rcases mem_cons.mp he with rfl | he
    · obtain ⟨k, hk, hstep⟩ := minStep_le_value hn acc
      obtain ⟨least, hle, hfold⟩ := foldl_minStep_le_acc g l k
      exact ⟨least, le_trans hle hk, by rw [foldl_cons, hstep, hfold]⟩
    · exact ih he _

lemma minOver_le (hk : m.lookup k = some a) (hn : g a = some n) : ∃ least ≤ n, minOver g m = some least :=
  foldl_minStep_le_value ((lookup_eq_some_iff_mem m k a).mp hk) hn none

end FinMap

end Paperboat

import Mathlib

/-!
# Slash-separated paths

Paths as texts, with the operations that path libraries have: the parts between the slashes, and the
lexical cleaning that drops empty parts and `.` and lets `..` cancel the part before it.

A path made of file names is what joining them gives. `IsRoute.parts_join` and `IsRoute.clean_join`
say that nothing happens to such a path, and `IsRoute.below_iff` that one lies below another exactly
when its names extend the other's.
-/

namespace Paperboat.Paths

open List

/-- A text, as its characters. -/
abbrev Text := List Char

/-- The parts of a path between the slashes. -/
def parts (path : Text) : List Text := path.splitOn '/'

/-- The path with these parts. -/
def join (names : List Text) : Text := ['/'].intercalate names

/-- One part of a path in the lexical cleaning, with the parts kept so far in reverse. -/
def cleanStep (rooted : Bool) (kept : List Text) (part : Text) : List Text :=
  if part = [] ∨ part = ['.'] then kept
  else if part = ['.', '.'] then
    match kept with
    | [] => if rooted then [] else [part]
    | last :: rest => if last = ['.', '.'] then part :: kept else rest
  else part :: kept

/-- `path.Clean`. -/
def clean (path : Text) : Text :=
  let rooted := ['/'].isPrefixOf path
  let kept := ((parts path).foldl (cleanStep rooted) []).reverse
  if rooted then '/' :: join kept else if kept = [] then ['.'] else join kept

/-- The name of a file in a directory. -/
structure IsName (name : Text) : Prop where
  ne_nil : name ≠ []
  no_slash : '/' ∉ name
  no_nul : '\x00' ∉ name
  ne_dot : name ≠ ['.']
  ne_dots : name ≠ ['.', '.']

/-- The names on the way to a file. -/
structure IsRoute (route : List Text) : Prop where
  ne_nil : route ≠ []
  names : ∀ name ∈ route, IsName name

/-! ### Parts and joins -/

lemma parts_append (a b : Text) : parts (a ++ '/' :: b) = parts a ++ parts b :=
  splitOn_append_cons_self a b

lemma parts_ne_nil (path : Text) : parts path ≠ [] := splitOn_ne_nil '/' path

variable {α : Type}

lemma intercalate_append (sep : α) {a b : List (List α)} (ha : a ≠ []) (hb : b ≠ []) :
    [sep].intercalate (a ++ b) = [sep].intercalate a ++ sep :: [sep].intercalate b := by
  induction a with
  | nil => exact absurd rfl ha
  | cons name a ih =>
    obtain ⟨first, b, rfl⟩ := exists_cons_of_ne_nil hb
    rcases a with _ | ⟨_, _⟩
    · simp [intercalate]
    have hrest := ih (by simp)
    simp only [intercalate, cons_append, intersperse_cons_cons, flatten_cons] at hrest ⊢
    rw [hrest]
    simp

lemma join_append {a b : List Text} (ha : a ≠ []) (hb : b ≠ []) :
    join (a ++ b) = join a ++ '/' :: join b := intercalate_append '/' ha hb

lemma splitOn_map {β : Type} [BEq α] [LawfulBEq α] [BEq β] [LawfulBEq β] {f : α → β} {sep : α}
    {sep' : β} (hf : ∀ x, f x = sep' ↔ x = sep) (l : List α) :
    (l.map f).splitOn sep' = (l.splitOn sep).map (map f) := by
  induction l with
  | nil => rfl
  | cons x l ih =>
    rw [splitOn, splitOn] at ih ⊢
    rw [map_cons, splitOnP_cons_eq_if_modifyHead, splitOnP_cons_eq_if_modifyHead, ih]
    by_cases hx : x = sep
    · simp [hx, (hf sep).mpr rfl]
    · have hfx : f x ≠ sep' := fun h => hx ((hf x).mp h)
      simp only [beq_iff_eq, hx, hfx, if_false]
      cases l.splitOnP (· == sep) <;> rfl

/-- The characters of a path are slashes and characters of its names. -/
lemma mem_join {route : List Text} {c : Char} (h : c ∈ join route) :
    c = '/' ∨ ∃ name ∈ route, c ∈ name := by
  induction route with
  | nil => simp [join, intercalate] at h
  | cons name route ih =>
    rcases route with _ | ⟨next, route⟩
    · exact .inr ⟨name, mem_cons_self, by simpa [join, intercalate] using h⟩
    have hjoin : join (name :: next :: route) = name ++ '/' :: join (next :: route) := by
      simp [join, intercalate]
    rw [hjoin, mem_append, mem_cons] at h
    rcases h with hname | hslash | hrest
    · exact .inr ⟨name, mem_cons_self, hname⟩
    · exact .inl hslash
    · rcases ih hrest with hslash | ⟨n, hn, hc⟩
      · exact .inl hslash
      · exact .inr ⟨n, mem_cons_of_mem _ hn, hc⟩

namespace IsRoute

variable {route : List Text} {above : List Text}

lemma of_prefix (h : IsRoute route) (hpre : above <+: route) (hne : above ≠ []) : IsRoute above :=
  ⟨hne, fun name hname => h.names name (hpre.subset hname)⟩

lemma parts_join (h : IsRoute route) : parts (join route) = route :=
  splitOn_intercalate '/' (fun name hname => (h.names name hname).no_slash) h.ne_nil

lemma not_rooted (h : IsRoute route) : ['/'].isPrefixOf (join route) = false := by
  rw [Bool.eq_false_iff, Ne, List.isPrefixOf_iff_prefix]
  rintro ⟨rest, hrest⟩
  have hparts : parts (join route) = [] :: parts rest := by
    rw [← hrest]
    exact parts_append [] rest
  rw [h.parts_join] at hparts
  exact (h.names [] (by rw [hparts]; exact mem_cons_self)).ne_nil rfl

lemma foldl_cleanStep (h : ∀ name ∈ route, IsName name) (kept : List Text) :
    route.foldl (cleanStep false) kept = route.reverse ++ kept := by
  induction route generalizing kept with
  | nil => rfl
  | cons name route ih =>
    have hname := h name mem_cons_self
    have hstep : cleanStep false kept name = name :: kept := by
      simp [cleanStep, hname.ne_nil, hname.ne_dot, hname.ne_dots]
    rw [foldl_cons, hstep, ih fun n hn => h n (mem_cons_of_mem _ hn)]
    simp

lemma clean_join (h : IsRoute route) : clean (join route) = join route := by
  simp only [clean, h.not_rooted, h.parts_join, foldl_cleanStep h.names]
  simp [h.ne_nil]

/-- A path made of names is not one of the paths that leave the directory or stay in it. -/
lemma join_ne (h : IsRoute route) : join route ≠ ['.'] ∧ join route ≠ ['.', '.'] ∧
    ¬ ['.', '.', '/'] <+: join route ∧ ¬ ['/', '.', '.', '/'] <:+: join route := by
  have hdots : ['.', '.'] ∉ parts (join route) := by
    rw [h.parts_join]
    exact fun hmem => (h.names _ hmem).ne_dots rfl
  refine ⟨?_, ?_, ?_, ?_⟩
  · intro heq
    have hparts := h.parts_join
    rw [heq] at hparts
    exact (h.names ['.'] (by rw [← hparts]; decide)).ne_dot rfl
  · intro heq
    rw [heq] at hdots
    exact hdots (by decide)
  · rintro ⟨rest, hrest⟩
    apply hdots
    rw [← hrest]
    change _ ∈ parts (['.', '.'] ++ '/' :: rest)
    rw [parts_append]
    exact mem_append_left _ (by decide)
  · rintro ⟨a, b, hab⟩
    apply hdots
    have hsplit : join route = a ++ '/' :: (['.', '.'] ++ '/' :: b) := by simp [← hab]
    rw [hsplit, parts_append, parts_append]
    exact mem_append_right _ (mem_append_left _ (by decide))

lemma join_inj {other : List Text} (h : IsRoute route) (ho : IsRoute other)
    (heq : join route = join other) : route = other := by
  rw [← h.parts_join, ← ho.parts_join, heq]

lemma below_iff (h : IsRoute route) (ha : IsRoute above) :
    join above ++ ['/'] <+: join route ↔ above <+: route ∧ above ≠ route := by
  constructor
  · rintro ⟨rest, hrest⟩
    have hparts : route = above ++ parts rest := by
      rw [← h.parts_join, ← hrest, append_assoc, singleton_append, parts_append, ha.parts_join]
    refine ⟨⟨parts rest, hparts.symm⟩, fun heq => ?_⟩
    rw [heq] at hparts
    exact parts_ne_nil rest (self_eq_append_right.mp hparts)
  · rintro ⟨⟨rest, rfl⟩, hne⟩
    have hrest : rest ≠ [] := by
      rintro rfl
      simp at hne
    exact ⟨join rest, by rw [join_append ha.ne_nil hrest]; simp⟩

lemma join_prefix (h : IsRoute route) (ha : IsRoute above) (hpre : above <+: route) :
    join above <+: join route := by
  by_cases heq : above = route
  · rw [heq]
  · exact (prefix_append _ _).trans ((h.below_iff ha).mpr ⟨hpre, heq⟩)

end IsRoute

/-! ### Directories on the way -/

variable {α : Type} {above d : List α} {name : α}

lemma eq_entry_of_between (h₁ : above <+: d) (h₂ : d ≠ above) (h₃ : d <+: above ++ [name]) :
    d = above ++ [name] := by
  refine h₃.eq_of_length (le_antisymm h₃.length_le ?_)
  have hlt : above.length < d.length :=
    lt_of_le_of_ne h₁.length_le fun heq => h₂ (h₁.eq_of_length heq).symm
  rw [length_append]
  exact hlt

lemma ne_of_entry (h : above ++ [name] <+: d) : d ≠ above := by
  rintro rfl
  simpa using h.length_le

variable {route : List α}

/-- Every directory strictly between two routes passes the test. -/
def PassesBetween (test : List α → Prop) (above route : List α) : Prop :=
  ∀ d, above <+: d → d ≠ above → d <+: route → d ≠ route → test d

lemma passesBetween_entry (test : List α → Prop) (above : List α) (name : α) :
    PassesBetween test above (above ++ [name]) :=
  fun _ h₁ h₂ h₃ h₄ => absurd (eq_entry_of_between h₁ h₂ h₃) h₄

/-- On the way to what lies in an entry there are the entry and what is behind it. -/
lemma passesBetween_below {test : List α → Prop} (hpre : above ++ [name] <+: route)
    (hne : above ++ [name] ≠ route) :
    PassesBetween test above route ↔
      test (above ++ [name]) ∧ PassesBetween test (above ++ [name]) route := by
  constructor
  · intro h
    refine ⟨h _ (prefix_append _ _) (by simp) hpre hne, fun d h₁ h₂ h₃ h₄ => ?_⟩
    exact h d ((prefix_append _ _).trans h₁) (ne_of_entry h₁) h₃ h₄
  · rintro ⟨hentry, hbehind⟩ d h₁ h₂ h₃ h₄
    by_cases heq : d = above ++ [name]
    · rw [heq]
      exact hentry
    rcases List.prefix_or_prefix_of_prefix h₃ hpre with hd | hd
    · exact absurd (eq_entry_of_between h₁ h₂ hd) heq
    · exact hbehind d hd heq h₃ h₄

lemma passesBetween_cons {test : List α → Prop} {next : α} {rest : List α} :
    PassesBetween test above (above ++ name :: next :: rest) ↔
      test (above ++ [name]) ∧ PassesBetween test (above ++ [name]) (above ++ [name] ++ next :: rest) := by
  rw [append_cons]
  exact passesBetween_below (prefix_append _ _) (by simp)

lemma PassesBetween.mono {test test' : List α → Prop} (h : PassesBetween test above route)
    (hmono : ∀ d, d ≠ route → test d → test' d) : PassesBetween test' above route :=
  fun d h₁ h₂ h₃ h₄ => hmono d h₄ (h d h₁ h₂ h₃ h₄)

/-- Either everything on the way passes, or there is a first route that does not. -/
lemma passesBetween_or_first (test : List α → Prop) (above rest : List α) :
    PassesBetween test above (above ++ rest) ∨ ∃ a, above <+: a ∧ a ≠ above ∧ a <+: above ++ rest ∧
      a ≠ above ++ rest ∧ PassesBetween test above a ∧ ¬test a := by
  classical
  induction rest generalizing above with
  | nil =>
    refine .inl fun d h₁ h₂ h₃ _ => absurd ?_ h₂
    rw [append_nil] at h₃
    exact h₃.eq_of_length (le_antisymm h₃.length_le h₁.length_le)
  | cons name rest ih =>
    by_cases hrest : rest = []
    · subst hrest
      exact .inl (passesBetween_entry _ _ _)
    have hpre : above ++ [name] <+: above ++ name :: rest := ⟨rest, by simp⟩
    have hne : above ++ [name] ≠ above ++ name :: rest := by simpa using Ne.symm hrest
    by_cases htest : test (above ++ [name])
    · have hih := ih (above ++ [name])
      rw [append_assoc] at hih
      rcases hih with hpass | ⟨a, h₁, h₂, h₃, h₄, hpass, hfirst⟩
      · exact .inl ((passesBetween_below hpre hne).mpr ⟨htest, hpass⟩)
      exact .inr ⟨a, (prefix_append _ _).trans h₁, ne_of_entry h₁, h₃, h₄,
        (passesBetween_below h₁ (Ne.symm h₂)).mpr ⟨htest, hpass⟩, hfirst⟩
    · exact .inr ⟨above ++ [name], prefix_append _ _, by simp, hpre, hne,
        passesBetween_entry _ _ _, htest⟩

end Paperboat.Paths

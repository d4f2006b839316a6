import Paperboat.ConfigSync.Manifest

/-!
# The roots of an include file

`parseInclude` collects the lines by their paths, sorts the roots, and drops every root below a directory
root that was kept. None of these steps changes which paths are selected (`Selects`). The last loop
looks only at the roots that were already kept, which is enough, since a directory sorts before
everything below it.
-/

namespace Paperboat.ConfigSync.Rules

open List FinMap

open Paths

/-- The path is a root or lies below a directory root. -/
def Selects (roots : List ManifestRoot) (path : Text) : Prop :=
  ∃ root ∈ roots, path = root.path ∨ root.directory = true ∧ root.path ++ ['/'] <+: path

/-- A line of an include file as a root; blank lines and comments are none. -/
def readInclude (line : Text) : Option ManifestRoot :=
  let line := trimSpace line
  if line = [] ∨ line.head? = some '#' then none
  else some ⟨trimSlash line, decide (line.getLast? = some '/')⟩

/-- A bind in `Except` returns when both parts do. -/
lemma exists_of_bind_eq_ok {ε α β : Type} {x : Except ε α} {f : α → Except ε β} {b : β}
    (h : x >>= f = .ok b) : ∃ a, x = .ok a ∧ f a = .ok b := by
  cases x with
  | error => cases h
  | ok a => exact ⟨a, rfl, h⟩

section
variable {doublestar : String → Text → Bool} {byPath byPath' : FinMap Text ManifestRoot} {line path : Text}

/-- The roots that were collected. -/
def rootsOf (byPath : FinMap Text ManifestRoot) : List ManifestRoot := byPath.entries.map fun e => e.2

/-- Every root is entered under its path. -/
def Keyed (byPath : FinMap Text ManifestRoot) : Prop :=
  ∀ key root, byPath.lookup key = some root → root.path = key

lemma mem_rootsOf {root : ManifestRoot} :
    root ∈ rootsOf byPath ↔ ∃ key, byPath.lookup key = some root := by
  rw [rootsOf, mem_map]
  constructor
  · rintro ⟨⟨key, root⟩, hmem, rfl⟩
    exact ⟨key, (lookup_eq_some_iff_mem _ _ _).mpr hmem⟩
  · rintro ⟨key, hkey⟩
    exact ⟨⟨key, root⟩, (lookup_eq_some_iff_mem _ _ _).mp hkey, rfl⟩

lemma selects_append {l l' : List ManifestRoot} :
    Selects (l ++ l') path ↔ Selects l path ∨ Selects l' path := by
  simp only [Selects, mem_append, or_and_right, exists_or]

lemma selects_insert (hkeyed : Keyed byPath) (root : ManifestRoot)
    (hdir : ∀ previous, byPath.lookup root.path = some previous → previous.directory = false) :
    Selects (rootsOf (byPath.insert root.path root)) path ↔
      Selects (rootsOf byPath) path ∨ Selects [root] path := by
  constructor
  · rintro ⟨r, hr, hselect⟩
    obtain ⟨key, hkey⟩ := mem_rootsOf.mp hr
    rw [lookup_insert_eq] at hkey
    split at hkey
    · cases hkey
      exact .inr ⟨root, mem_singleton_self _, hselect⟩
    · exact .inl ⟨r, mem_rootsOf.mpr ⟨key, hkey⟩, hselect⟩
  · have hself : (byPath.insert root.path root).lookup root.path = some root := AList.lookup_insert _
    rintro (⟨r, hr, hselect⟩ | ⟨r, hr, hselect⟩)
    · obtain ⟨key, hkey⟩ := mem_rootsOf.mp hr
      obtain rfl := hkeyed key r hkey
      by_cases heq : r.path = root.path
      · -- the root that is replaced was a file
        have hfile := hdir r (heq ▸ hkey)
        rcases hselect with rfl | ⟨hr, -⟩
        · exact ⟨root, mem_rootsOf.mpr ⟨_, hself⟩, .inl heq⟩
        · rw [hfile] at hr
          cases hr
      · exact ⟨r, mem_rootsOf.mpr ⟨r.path, (AList.lookup_insert_ne heq).trans hkey⟩, hselect⟩
    · obtain rfl := mem_singleton.mp hr
      exact ⟨r, mem_rootsOf.mpr ⟨_, hself⟩, hselect⟩

lemma selects_includeLine (hkeyed : Keyed byPath) (h : includeLine doublestar byPath line = .ok byPath') :
    Keyed byPath' ∧ ∀ path, Selects (rootsOf byPath') path ↔
      Selects (rootsOf byPath) path ∨ Selects (readInclude line).toList path := by
  have hinsert : ∀ root : ManifestRoot, Keyed (byPath.insert root.path root) := fun root =>
    forall_insert rfl fun key r hkey _ => hkeyed key r hkey
  unfold includeLine at h
  unfold readInclude
  dsimp only at h ⊢
  split at h
  · next hblank =>
    cases h
    rw [if_pos hblank]
    exact ⟨hkeyed, fun path => by simp [Selects]⟩
  · next hblank =>
    rw [if_neg hblank, Option.toList_some]
    split at h
    · cases h
    split at h
    · cases h
    generalize hroot : (⟨trimSlash (trimSpace line), decide ((trimSpace line).getLast? = some '/')⟩ :
      ManifestRoot) = root at h ⊢
    have hpath : trimSlash (trimSpace line) = root.path := by rw [← hroot]
    have hdirectory : decide ((trimSpace line).getLast? = some '/') = root.directory := by rw [← hroot]
    rw [hpath] at h
    split at h
    · next hnone =>
      cases h
      refine ⟨hinsert root, fun path => selects_insert hkeyed root fun previous hprevious => ?_⟩
      rw [hnone] at hprevious
      cases hprevious
    · next previous hprevious =>
      split at h
      · next hreplace =>
        cases h
        refine ⟨hinsert root, fun path => selects_insert hkeyed root fun previous' hprevious' => ?_⟩
        cases hprevious.symm.trans hprevious'
        exact hreplace.2
      · next hkeep =>
        cases h
        refine ⟨hkeyed, fun path => (or_iff_left_of_imp ?_).symm⟩
        rintro ⟨r, hr, hselect⟩
        obtain rfl := mem_singleton.mp hr
        refine ⟨previous, mem_rootsOf.mpr ⟨_, hprevious⟩, ?_⟩
        rw [hkeyed _ _ hprevious]
        refine hselect.imp_right fun ⟨hdir, hbelow⟩ => ⟨?_, hbelow⟩
        by_contra hfile
        exact hkeep ⟨hdirectory ▸ hdir, Bool.not_eq_true _ ▸ hfile⟩

lemma selects_foldlM (lines : List Text) (hkeyed : Keyed byPath)
    (h : lines.foldlM (includeLine doublestar) byPath = .ok byPath') :
    Keyed byPath' ∧ ∀ path, Selects (rootsOf byPath') path ↔
      Selects (rootsOf byPath) path ∨ ∃ line ∈ lines, Selects (readInclude line).toList path := by
  induction lines generalizing byPath with
  | nil =>
    cases h
    exact ⟨hkeyed, fun path => by simp⟩
  | cons line lines ih =>
    obtain ⟨byPath₁, hline, hfold⟩ := exists_of_bind_eq_ok h
    obtain ⟨hkeyed₁, hselects⟩ := selects_includeLine hkeyed hline
    obtain ⟨hkeyed', hrest⟩ := ih hkeyed₁ hfold
    refine ⟨hkeyed', fun path => ?_⟩
    simp only [hrest, hselects, or_assoc, mem_cons, or_and_right, exists_or, exists_eq_left]

end

/-! ### Redundant roots -/

section
variable {roots result : List ManifestRoot} {path : Text}

/-- The roots are in the order of their paths, which are different. -/
def Ascending (roots : List ManifestRoot) : Prop := roots.Pairwise fun a b => a.path < b.path

/-- A root lies below a directory root. -/
def Below (candidate root : ManifestRoot) : Prop :=
  root.directory = true ∧ root.path ++ ['/'] <+: candidate.path

lemma lt_of_below {a b : Text} (h : a ++ ['/'] <+: b) : a < b := by
  obtain ⟨rest, rfl⟩ := h
  have hlt : a ++ [] < a ++ '/' :: rest := append_left_lt (nil_lt_cons _ _)
  rwa [append_nil, append_cons] at hlt

/-- What the last loop has made of the roots it has met. -/
structure Thinned (roots result : List ManifestRoot) : Prop where
  sublist : result.Sublist roots
  selects : ∀ path, Selects result path ↔ Selects roots path
  apart : ∀ a ∈ result, ∀ b ∈ result, ¬ Below a b

lemma Thinned.concat (h : Thinned roots result) {candidate : ManifestRoot}
    (hlast : ∀ root ∈ roots, root.path < candidate.path) :
    Thinned (roots ++ [candidate])
      (if result.any fun root => root.directory && (root.path ++ ['/']).isPrefixOf candidate.path then
        result else result ++ [candidate]) := by
  split
  · next hany =>
    obtain ⟨root, hroot, hbelow⟩ := any_eq_true.mp hany
    obtain ⟨hdir, hpre⟩ := Bool.and_eq_true_iff.mp hbelow
    replace hpre := isPrefixOf_iff_prefix.mp hpre
    refine ⟨h.sublist.trans (sublist_append_left _ _), fun path => ?_, h.apart⟩
    rw [selects_append, h.selects]
    refine (or_iff_left_of_imp ?_).symm
    rintro ⟨r, hr, hselect⟩
    obtain rfl := mem_singleton.mp hr
    refine (h.selects path).mp ⟨root, hroot, .inr ⟨hdir, ?_⟩⟩
    rcases hselect with rfl | ⟨-, hinner⟩
    · exact hpre
    · exact hpre.trans ((prefix_append _ _).trans hinner)
  · next hnone =>
    refine ⟨h.sublist.append (.refl _), fun path => ?_, ?_⟩
    · rw [selects_append, selects_append, h.selects]
    · have hself : ¬ Below candidate candidate := fun hbelow => (lt_of_below hbelow.2).ne rfl
      have hkept : ∀ root ∈ result, ¬ Below candidate root := by
        intro root hroot hbelow
        refine hnone (any_eq_true.mpr ⟨root, hroot, Bool.and_eq_true_iff.mpr ⟨hbelow.1, ?_⟩⟩)
        exact isPrefixOf_iff_prefix.mpr hbelow.2
      have hearlier : ∀ root ∈ result, ¬ Below root candidate := fun root hroot hbelow =>
        (hlast root (h.sublist.subset hroot)).not_gt (lt_of_below hbelow.2)
      simp only [forall_mem_append, forall_mem_singleton]
      exact ⟨fun a ha => ⟨h.apart a ha, hearlier a ha⟩, hkept, hself⟩

lemma thinned_dropRedundant (h : Ascending roots) : Thinned roots (dropRedundant roots) := by
  induction roots using List.reverseRecOn with
  | nil => exact ⟨.refl _, fun _ => Iff.rfl, nofun⟩
  | append_singleton roots candidate ih =>
    obtain ⟨hroots, -, hlast⟩ := pairwise_append.mp h
    rw [dropRedundant, foldl_append]
    exact (ih hroots).concat fun root hroot => hlast root hroot candidate (mem_singleton_self _)

end

/-- The roots that were collected have different paths, so that they are sorted strictly. -/
lemma ascending_insertionSort {byPath : FinMap Text ManifestRoot} (h : Keyed byPath) :
    Ascending ((rootsOf byPath).insertionSort rootLE) := by
  have : Std.Total rootLE := ⟨fun a b => le_total a.path b.path⟩
  have : IsTrans ManifestRoot rootLE := ⟨fun a b c => le_trans (a := a.path)⟩
  have hpaths : (rootsOf byPath).Pairwise fun a b => a.path ≠ b.path := by
    refine pairwise_map.mpr ((pairwise_map.mp byPath.nodupKeys).imp_of_mem ?_)
    rintro ⟨key, root⟩ ⟨key', root'⟩ hmem hmem' hne heq
    rw [h key root ((lookup_eq_some_iff_mem _ _ _).mpr hmem),
      h key' root' ((lookup_eq_some_iff_mem _ _ _).mpr hmem')] at heq
    exact hne heq
  have hdifferent := (perm_insertionSort rootLE (rootsOf byPath)).symm.pairwise hpaths Ne.symm
  exact (pairwise_insertionSort rootLE _).imp₂ (fun a b (hle : a.path ≤ b.path) hne =>
    lt_of_le_of_ne hle hne) hdifferent

/-- For every include file that is accepted, the roots select what its lines select, they are in order
without repetition, and none lies below a directory root. -/
theorem parseInclude_normalises {doublestar : String → Text → Bool} {value : Text}
    {limits : ManifestLimits} {roots : List ManifestRoot}
    (h : parseInclude doublestar value limits = .ok roots) :
    ∃ lines, manifestLines value limits = .ok lines ∧
      (∀ path, Selects roots path ↔ ∃ line ∈ lines, Selects (readInclude line).toList path) ∧
      Ascending roots ∧ ∀ a ∈ roots, ∀ b ∈ roots, ¬ Below a b := by
  obtain ⟨lines, hlines, h⟩ := exists_of_bind_eq_ok h
  obtain ⟨byPath, hfold, h⟩ := exists_of_bind_eq_ok h
  cases h
  have hnew : Keyed ∅ := nofun
  obtain ⟨hkeyed, hselects⟩ := selects_foldlM lines hnew hfold
  have hascending := ascending_insertionSort hkeyed
  have hthinned := thinned_dropRedundant hascending
  refine ⟨lines, hlines, fun path => ?_, hascending.sublist hthinned.sublist, hthinned.apart⟩
  have hsorted : Selects ((rootsOf byPath).insertionSort rootLE) path ↔
      Selects (rootsOf byPath) path := by
    simp only [Selects, mem_insertionSort]
  have hempty : ¬ Selects (rootsOf ∅) path := nofun
  exact (hthinned.selects path).trans (hsorted.trans ((hselects path).trans (or_iff_right hempty)))

/-- A file root, a directory root, and roots below and beside it. -/
theorem parseInclude_normalises_nested : ∃ roots,
    parseInclude (fun _ _ => false) "b/c\n# x\nb\nb/\na\nb.d\n".toList defaultManifestLimits = .ok roots ∧
      roots = [⟨['a'], false⟩, ⟨['b'], true⟩, ⟨['b', '.', 'd'], false⟩] ∧ Ascending roots := by
  have hparse : parseInclude (fun _ _ => false) "b/c\n# x\nb\nb/\na\nb.d\n".toList
      defaultManifestLimits = .ok [⟨['a'], false⟩, ⟨['b'], true⟩, ⟨['b', '.', 'd'], false⟩] := by
    decide +kernel
  obtain ⟨-, -, -, hascending, -⟩ := parseInclude_normalises hparse
  exact ⟨_, hparse, rfl, hascending⟩

end Paperboat.ConfigSync.Rules

import Paperboat.ConfigSync.Include
import Paperboat.ConfigSync.Pruning

/-!
# Confinement of managed paths

`Manages` reads a backslash as a slash, while to a Unix system it is a character like any other. A
managed path need therefore not lie at a selected root itself. Nothing but the comparison with `/`,
`\`, `.` and `:` looks into a name, so that a name that is not UTF-8 may be read byte for byte.
-/

namespace Paperboat.ConfigSync.Rules

open List

open Paths

variable {doublestar : String → Text → Bool}

/-! ### The roots of a parsed manifest -/

/-- No root has a backslash. -/
def Plain (roots : List ManifestRoot) : Prop := ∀ root ∈ roots, '\\' ∉ root.path

section
variable {byPath byPath' : FinMap Text ManifestRoot} {includeText : Text} {limits : ManifestLimits}
  {roots : List ManifestRoot}

lemma plain_includeLine {line : Text} (hplain : Plain (rootsOf byPath))
    (h : includeLine doublestar byPath line = .ok byPath') : Plain (rootsOf byPath') := by
  have hinsert : ∀ path directory, safeManifestPath path = true →
      Plain (rootsOf (byPath.insert path ⟨path, directory⟩)) := by
    intro path directory hsafe r hr
    obtain ⟨key, hkey⟩ := mem_rootsOf.mp hr
    rw [FinMap.lookup_insert_eq] at hkey
    split at hkey
    · cases hkey
      intro hmem
      simp [safeManifestPath, hmem] at hsafe
    · exact hplain r (mem_rootsOf.mpr ⟨key, hkey⟩)
  simp only [includeLine] at h
  split at h
  · exact Except.ok.inj h ▸ hplain
  split at h
  · cases h
  rename_i hsafe
  split at h
  · cases h
  have hsafe := Bool.not_eq_false _ ▸ (not_or.mp hsafe).2
  split at h
  · exact Except.ok.inj h ▸ hinsert _ _ hsafe
  split at h
  · exact Except.ok.inj h ▸ hinsert _ _ hsafe
  · exact Except.ok.inj h ▸ hplain

lemma plain_foldlM (lines : List Text) (hplain : Plain (rootsOf byPath))
    (h : lines.foldlM (includeLine doublestar) byPath = .ok byPath') : Plain (rootsOf byPath') := by
  induction lines generalizing byPath with
  | nil =>
    cases h
    exact hplain
  | cons line lines ih =>
    obtain ⟨byPath₁, hline, hrest⟩ := exists_of_bind_eq_ok h
    exact ih (plain_includeLine hplain hline) hrest

lemma plain_parseInclude (h : parseInclude doublestar includeText limits = .ok roots) : Plain roots := by
  obtain ⟨lines, -, h⟩ := exists_of_bind_eq_ok h
  obtain ⟨byPath, hfold, h⟩ := exists_of_bind_eq_ok h
  cases h
  have hnew : Keyed ∅ := nofun
  have hkeyed := (selects_foldlM lines hnew hfold).1
  have hthinned := thinned_dropRedundant (ascending_insertionSort hkeyed)
  intro root hroot
  exact plain_foldlM lines (fun _ hnone => absurd hnone not_mem_nil) hfold root
    ((mem_insertionSort rootLE).mp (hthinned.sublist.subset hroot))

end

/-! ### Managed paths -/

/-- The route and the directories above it match no mandatory pattern and are no exclusion root. -/
def Unmatched (doublestar : String → Text → Bool) (exclusionRoots : List Text) (route : List Text) : Prop :=
  ∀ above, above <+: route → above ≠ [] →
    (∀ pattern ∈ requiredMandatoryExclusions, doublestar pattern (join above) = false) ∧
      ∀ root ∈ exclusionRoots, clean root ≠ join above

variable {exclusionRoots : List Text} {route : List Text} {m : Manifest} {isDir : Bool}

lemma unmatched_of_mandatoryExcluded (h : IsRoute route)
    (hout : mandatoryExcluded doublestar exclusionRoots (join route) = false) :
    Unmatched doublestar exclusionRoots route := by
  intro above hpre hne
  have habove := h.of_prefix hpre hne
  have hout' := mandatoryExcluded_of_above h hpre hne hout
  simp only [mandatoryExcluded, habove.clean_join, leaves_join habove, habove.join_ne.1, or_self, if_false,
    Bool.false_eq_true] at hout'
  split at hout'
  · cases hout'
  next hroots =>
  constructor
  · intro pattern hpattern
    have hnone := any_eq_false.mp hout' pattern hpattern
    rw [Bool.not_eq_true, any_eq_false] at hnone
    refine Bool.eq_false_iff.mpr (hnone _ (mem_map.mpr ⟨above, ?_, rfl⟩))
    simpa [habove.parts_join] using hne
  · intro root hroot heq
    refine hroots (any_eq_true.mpr ⟨root, hroot, ?_⟩)
    obtain ⟨hdot, hdots, hup, -⟩ := habove.join_ne
    simpa [heq, hdot, hdots, within, ← Bool.not_eq_true] using hup

/-- A text without backslashes begins a path when it begins what comes before the first backslash. -/
lemma prefix_takeWhile_iff {root path : Text} (h : '\\' ∉ root) :
    root <+: path.takeWhile (· ≠ '\\') ↔ root <+: path := by
  refine ⟨fun hpre => hpre.trans ⟨_, takeWhile_append_dropWhile⟩, ?_⟩
  rintro ⟨rest, rfl⟩
  rw [takeWhile_append_of_pos fun c hc => by grind]
  exact prefix_append _ _

/-- For the manifest of an include file and a path of the home that the snapshot takes as managed, the
path itself lies at a selected root, and neither it nor a directory above is excluded, exactly when it
has no backslash or the part before the first one lies in a directory root. -/
theorem managed_confined_iff {wellFormed : Text → Bool} {parsePattern : Text → Pattern}
    {includeText ignoreText : Text} {limits : ManifestLimits}
    (hparse : parseManifest doublestar wellFormed parsePattern includeText ignoreText limits = .ok m)
    (hroute : IsRoute route)
    (hmanaged : (m.selection doublestar exclusionRoots).selects (pathOf route) isDir = true) :
    Selects m.roots (join route) ∧ Unmatched doublestar exclusionRoots route ↔
      '\\' ∉ join route ∨ ∃ root ∈ m.roots, root.directory = true ∧
        root.path ++ ['/'] <+: (join route).takeWhile (· ≠ '\\') := by
  have hplain : Plain m.roots := by
    unfold parseManifest at hparse
    split at hparse
    · cases hparse
    obtain ⟨roots, hroots, hparse⟩ := exists_of_bind_eq_ok hparse
    obtain ⟨patterns, -, hparse⟩ := exists_of_bind_eq_ok hparse
    cases hparse
    exact plain_parseInclude hroots
  simp only [Selection.selects, Manifest.selection, pathOf, String.toList_ofList, Bool.and_eq_true,
    Bool.not_eq_true'] at hmanaged
  obtain ⟨hout, hmanages⟩ := hmanaged
  rw [and_iff_left (unmatched_of_mandatoryExcluded hroute hout)]
  constructor
  · rintro ⟨root, hroot, heq | ⟨hdir, hbelow⟩⟩
    · exact .inl (heq ▸ hplain root hroot)
    · refine .inr ⟨root, hroot, hdir, (prefix_takeWhile_iff ?_).mpr hbelow⟩
      simpa using hplain root hroot
  · rintro (hno | ⟨root, hroot, hdir, hbelow⟩)
    · simp only [Manifest.manages, normal_join hroute hno, Bool.and_eq_true, any_eq_true,
        Bool.or_eq_true, decide_eq_true_eq, isPrefixOf_iff_prefix] at hmanages
      exact hmanages.1.2
    · exact ⟨root, hroot, .inr ⟨hdir, hbelow.trans ⟨_, takeWhile_append_dropWhile⟩⟩⟩

/-- The manifest of the line `docs/`. -/
def docsManifest : Manifest := ⟨[⟨"docs".toList, true⟩], []⟩

lemma docsManifest_parsed : parseManifest (fun _ _ => false) (fun _ => true) (fun _ _ _ => .noMatch)
    "docs/".toList [] defaultManifestLimits = .ok docsManifest := rfl

/-- A file in `docs` whose name has a backslash. -/
theorem managed_confined_of_docs : Selects docsManifest.roots (join ["docs".toList, "a\\b".toList]) ∧
      Unmatched (fun _ _ => false) [] ["docs".toList, "a\\b".toList] := by
  have hnames : ∀ name ∈ ["docs".toList, "a\\b".toList], IsName name :=
    forall_mem_cons.mpr ⟨⟨by decide, by decide, by decide, by decide, by decide⟩,
      forall_mem_singleton.mpr ⟨by decide, by decide, by decide, by decide, by decide⟩⟩
  have hmanaged : (docsManifest.selection (fun _ _ => false) []).selects
      (pathOf ["docs".toList, "a\\b".toList]) false = true := by decide +kernel
  refine (managed_confined_iff docsManifest_parsed ⟨by simp, hnames⟩ hmanaged).mpr (.inr ?_)
  exact ⟨_, mem_singleton_self _, rfl, by decide⟩

/-- The file `docs\secret` beside the directory `docs` is taken as managed. -/
theorem managed_outside_docs : parseManifest (fun _ _ => false) (fun _ => true) (fun _ _ _ => .noMatch)
      "docs/".toList [] defaultManifestLimits = .ok docsManifest ∧ IsRoute ["docs\\secret".toList] ∧
    (docsManifest.selection (fun _ _ => false) []).selects (pathOf ["docs\\secret".toList]) false = true ∧
      ¬ Selects docsManifest.roots (join ["docs\\secret".toList]) := by
  refine ⟨rfl, ⟨by simp, forall_mem_singleton.mpr ⟨by decide, by decide, by decide, by decide, by decide⟩⟩,
    by decide +kernel, ?_⟩
  rintro ⟨root, hroot, h⟩
  obtain rfl := mem_singleton.mp hroot
  revert h
  decide

end Paperboat.ConfigSync.Rules

import Paperboat.Lib.FinMap
import Paperboat.Lib.Paths

/-!
# The manifest

The model of `internal/configsync/manifest.go`, with `mandatoryExcluded` of `policy.go`: the parser of
`.pbinclude` and `.pbignore`, which paths the manifest manages, and which directories may have a
managed path in them.

The libraries are parameters: `doublestar.Match` as a predicate on a pattern and a path, the ignore
patterns as functions, and `path.Match` as the test whether a pattern is well formed.
-/

namespace Paperboat.ConfigSync.Rules

open List

open Paths

/-! ### Exclusions -/

/-- `requiredMandatoryExclusions`. -/
def requiredMandatoryExclusions : List String :=
  [".git", "**/.git", ".paperboat", "**/.paperboat",
    ".config/paperboat", ".config/paperboat/**",
    ".local/bin/pbh",
    ".config/systemd/user/paperboat-helper.service",
    ".config/systemd/user/default.target.wants/paperboat-helper.service",
    "Library/LaunchAgents/com.pinksaucepasta.paperboat-helper.plist",
    ".ssh", "**/.ssh", ".gnupg", "**/.gnupg",
    ".aws", "**/.aws", ".kube", "**/.kube", ".docker/config.json",
    ".git-credentials", "**/.git-credentials", ".netrc", "**/.netrc",
    ".env", ".env.*", "**/.env", "**/.env.*", "**/credentials", "**/credentials.*",
    "**/*.db", "**/*.sqlite", "**/*.log", "**/*.tmp", "**/*_history"]

/-- A path that is a directory above, or begins at the root. -/
def leaves (path : Text) : Bool := ['.', '.', '/'].isPrefixOf path || ['/'].isPrefixOf path

/-- The path is the directory or lies below it. -/
def within (root path : Text) : Bool := path = root || (root ++ ['/']).isPrefixOf path

/-- The candidates of the loop over a clean relative path and the directories above it. -/
def candidates (path : Text) : List Text := ((parts path).inits.filter (· ≠ [])).map join

/-- `mandatoryExcluded`, over the exclusion roots of the policy. -/
def mandatoryExcluded (doublestar : String → Text → Bool) (exclusionRoots : List Text)
    (path : Text) : Bool :=
  let path := clean path
  if path = ['.'] ∨ leaves path then true
  else if exclusionRoots.any fun root =>
      let root := clean root
      root ≠ ['.'] ∧ root ≠ ['.', '.'] ∧ ['.', '.', '/'].isPrefixOf root = false ∧ within root path then
    true
  else
    requiredMandatoryExclusions.any fun pattern =>
      (candidates path).any fun candidate => doublestar pattern candidate

/-- `manifestHardExcluded`: the exclusions of an empty policy. -/
def manifestHardExcluded (doublestar : String → Text → Bool) (name : Text) : Bool :=
  mandatoryExcluded doublestar [] (clean name)

/-- `first[1] == ':'`: the first part looks like a drive. A character of more than one byte before
the colon moves the colon away from the second byte. -/
def isDrive (first : Text) : Bool :=
  match first with
  | c :: ':' :: _ => c.utf8Size = 1
  | _ => false

/-- `safeManifestPath`. -/
def safeManifestPath (name : Text) : Bool :=
  if name = [] ∨ name ≠ clean name ∨ ['/'].isPrefixOf name ∨ '\\' ∈ name ∨ '\x00' ∈ name ∨
      name = ['.', '.'] ∨ ['.', '.', '/'].isPrefixOf name ∨ ['/', '.', '.', '/'] <:+: name then
    false
  else !isDrive ((parts name).headD [])

/-! ### Manifests -/

/-- What an ignore pattern says about a path. -/
inductive MatchResult where
  | noMatch
  | excluded
  | included
  deriving DecidableEq

/-- `gitignore.Pattern`: the match of the parts of a path, which may be a directory. -/
abbrev Pattern := List Text → Bool → MatchResult

/-- `ManifestRoot`. -/
structure ManifestRoot where
  path : Text
  directory : Bool
  deriving DecidableEq

/-- `Manifest`, without its revision. -/
structure Manifest where
  roots : List ManifestRoot
  patterns : List Pattern

/-- The name that the manifest looks at: backslashes are slashes, and the path is clean. -/
def normal (name : Text) : Text := clean (name.map fun c => if c = '\\' then '/' else c)

/-- The first check of `Manages` and `MayManageDescendant`. -/
def eligible (doublestar : String → Text → Bool) (name : Text) : Bool :=
  !(name = ['.'] || !safeManifestPath name || manifestHardExcluded doublestar name)

namespace Manifest

variable (doublestar : String → Text → Bool) (m : Manifest)

/-- The last pattern that matches decides whether a path is ignored. -/
def ignored (name : Text) (isDir : Bool) : Bool :=
  m.patterns.foldl (fun ignored pattern =>
    match pattern (parts name) isDir with
    | .excluded => true
    | .included => false
    | .noMatch => ignored) false

/-- `Manages`. -/
def manages (name : Text) (isDir : Bool) : Bool :=
  let name := normal name
  eligible doublestar name &&
    (m.roots.any fun root =>
      name = root.path || root.directory && (root.path ++ ['/']).isPrefixOf name) &&
    !m.ignored name isDir

/-- `MayManageDescendant`. -/
def mayManageDescendant (name : Text) : Bool :=
  let name := normal name
  eligible doublestar name &&
    m.roots.any fun root => root.directory &&
      (root.path = name || (name ++ ['/']).isPrefixOf root.path ||
        (root.path ++ ['/']).isPrefixOf name)

/-! ### The parser -/

end Manifest

/-- `ManifestLimits`. -/
structure ManifestLimits where
  maxBytes : ℕ
  maxLines : ℕ
  maxPatternBytes : ℕ
  deriving DecidableEq

/-- `DefaultManifestLimits`. -/
def defaultManifestLimits : ManifestLimits := ⟨262144, 4096, 1024⟩

/-- `validManifestLimits`. -/
def validManifestLimits (limits : ManifestLimits) : Bool :=
  0 < limits.maxBytes ∧ limits.maxBytes ≤ 4194304 ∧ 0 < limits.maxLines ∧ limits.maxLines ≤ 65536 ∧
    0 < limits.maxPatternBytes ∧ limits.maxPatternBytes ≤ 8192

/-- `ErrManifestInvalid`, and `ErrManifestUnsafePath` with the line. -/
inductive ManifestError where
  | invalid
  | unsafePath (line : Text)
  deriving DecidableEq

/-- The length of a text in bytes. -/
def byteLength (text : Text) : ℕ := (text.map Char.utf8Size).sum

/-- Windows line ends become plain ones. -/
def replaceCRLF : Text → Text
  | '\r' :: '\n' :: rest => '\n' :: replaceCRLF rest
  | c :: rest => c :: replaceCRLF rest
  | [] => []

/-- `manifestLines`. -/
def manifestLines (value : Text) (limits : ManifestLimits) : Except ManifestError (List Text) :=
  let value := replaceCRLF value
  if '\r' ∈ value then .error .invalid
  else
    let lines := value.splitOn '\n'
    if limits.maxLines + 1 < lines.length ∨
        lines.length = limits.maxLines + 1 ∧ lines.getLast? ≠ some [] then
      .error .invalid
    else if lines.any fun line => limits.maxPatternBytes < byteLength line then .error .invalid
    else .ok lines

/-- `unicode.IsSpace`. -/
def isSpace (c : Char) : Bool :=
  c = ' ' ∨ 9 ≤ c.toNat ∧ c.toNat ≤ 13 ∨ c.toNat ∈ [0x85, 0xA0, 0x1680, 0x2028, 0x2029, 0x202F, 0x205F,
    0x3000] ∨ 0x2000 ≤ c.toNat ∧ c.toNat ≤ 0x200A

/-- `strings.TrimSpace`. -/
def trimSpace (line : Text) : Text :=
  ((line.dropWhile isSpace).reverse.dropWhile isSpace).reverse

/-- `strings.TrimSuffix(line, "/")`. -/
def trimSlash (line : Text) : Text := if line.getLast? = some '/' then line.dropLast else line

/-- The body of the first loop of `parseInclude`: one line. -/
def includeLine (doublestar : String → Text → Bool) (byPath : FinMap Text ManifestRoot)
    (line : Text) : Except ManifestError (FinMap Text ManifestRoot) :=
  let line := trimSpace line
  if line = [] ∨ line.head? = some '#' then .ok byPath
  else
    let directory := decide (line.getLast? = some '/')
    let line := trimSlash line
    if (line.any fun c => c = '*' ∨ c = '?' ∨ c = '[') ∨ safeManifestPath line = false then
      .error (.unsafePath line)
    else if manifestHardExcluded doublestar line then .error (.unsafePath line)
    else
      match byPath.lookup line with
      | none => .ok (byPath.insert line ⟨line, directory⟩)
      | some previous =>
        if directory ∧ previous.directory = false then .ok (byPath.insert line ⟨line, directory⟩)
        else .ok byPath

/-- The order of the roots. -/
def rootLE (a b : ManifestRoot) : Prop := a.path ≤ b.path

instance : DecidableRel rootLE := fun _ _ => inferInstanceAs (Decidable (_ ≤ _))

/-- The last loop of `parseInclude`: a root below a directory root is redundant. -/
def dropRedundant (roots : List ManifestRoot) : List ManifestRoot :=
  roots.foldl (fun result candidate =>
    if result.any fun root => root.directory && (root.path ++ ['/']).isPrefixOf candidate.path then
      result
    else result ++ [candidate]) []

/-- `parseInclude`. -/
def parseInclude (doublestar : String → Text → Bool) (value : Text) (limits : ManifestLimits) :
    Except ManifestError (List ManifestRoot) := do
  let lines ← manifestLines value limits
  let byPath ← lines.foldlM (includeLine doublestar) ∅
  return dropRedundant ((byPath.entries.map fun e => e.2).insertionSort rootLE)

/-- `safeIgnorePattern`, where `wellFormed` says that `path.Match` accepts a pattern. -/
def safeIgnorePattern (wellFormed : Text → Bool) (pattern : Text) : Bool :=
  '\x00' ∉ pattern ∧ '\\' ∉ pattern ∧ ['/', '/'].isPrefixOf pattern = false ∧
    (parts pattern).all fun component => component ≠ ['.', '.'] ∧
      (component = ['*', '*'] ∨ wellFormed component)

/-- The body of the loop of `parseIgnore`: one line. -/
def ignoreLine (wellFormed : Text → Bool) (parsePattern : Text → Pattern) (patterns : List Pattern)
    (line : Text) : Except ManifestError (List Pattern) :=
  if line = [] ∨ line.head? = some '#' then .ok patterns
  else
    let candidate := if line.head? = some '!' then line.tail else line
    let candidate := if candidate.head? = some '/' then candidate.tail else candidate
    let candidate := trimSlash candidate
    if candidate = [] ∨ safeIgnorePattern wellFormed candidate = false then .error .invalid
    else .ok (patterns ++ [parsePattern line])

/-- `parseIgnore`. -/
def parseIgnore (wellFormed : Text → Bool) (parsePattern : Text → Pattern) (value : Text)
    (limits : ManifestLimits) : Except ManifestError (List Pattern) := do
  let lines ← manifestLines value limits
  lines.foldlM (ignoreLine wellFormed parsePattern) []

/-- `ParseManifest` of valid UTF-8. -/
def parseManifest (doublestar : String → Text → Bool) (wellFormed : Text → Bool)
    (parsePattern : Text → Pattern) (includeText ignoreText : Text) (limits : ManifestLimits) :
    Except ManifestError Manifest :=
  if validManifestLimits limits = false ∨ limits.maxBytes < byteLength includeText ∨
      limits.maxBytes < byteLength ignoreText ∨ '\x00' ∈ includeText ∨ '\x00' ∈ ignoreText then
    .error .invalid
  else do
    let roots ← parseInclude doublestar includeText limits
    let patterns ← parseIgnore wellFormed parsePattern ignoreText limits
    return ⟨roots, patterns⟩

/-! ### What passes from a directory to its content -/

variable {doublestar : String → Text → Bool} {exclusionRoots : List Text} {route above : List Text}

lemma leaves_join (h : IsRoute route) : leaves (join route) = false := by
  have hdots : ['.', '.', '/'].isPrefixOf (join route) = false := by
    rw [Bool.eq_false_iff, Ne, isPrefixOf_iff_prefix]
    exact h.join_ne.2.2.1
  simp [leaves, hdots, h.not_rooted]

lemma within_of_above (h : IsRoute route) (ha : above <+: route) (hne : above ≠ []) {root : Text}
    (hin : within root (join above) = true) : within root (join route) = true := by
  have habove := h.of_prefix ha hne
  by_cases heq : above = route
  · rwa [← heq]
  have hbelow : join above ++ ['/'] <+: join route := (h.below_iff habove).mpr ⟨ha, heq⟩
  simp only [within, Bool.or_eq_true, decide_eq_true_eq, isPrefixOf_iff_prefix] at hin ⊢
  rcases hin with rfl | hpre
  · exact .inr hbelow
  · exact .inr (hpre.trans ((prefix_append _ _).trans hbelow))

lemma candidates_of_above (h : IsRoute route) (ha : above <+: route) (hne : above ≠ []) :
    candidates (join above) ⊆ candidates (join route) := by
  intro candidate hmem
  simp only [candidates, (h.of_prefix ha hne).parts_join, h.parts_join, mem_map,
    mem_filter, mem_inits] at hmem ⊢
  obtain ⟨l, ⟨hl, hl'⟩, rfl⟩ := hmem
  exact ⟨l, ⟨hl.trans ha, hl'⟩, rfl⟩

lemma mandatoryExcluded_of_above (h : IsRoute route) (ha : above <+: route) (hne : above ≠ [])
    (hout : mandatoryExcluded doublestar exclusionRoots (join route) = false) :
    mandatoryExcluded doublestar exclusionRoots (join above) = false := by
  have habove := h.of_prefix ha hne
  unfold mandatoryExcluded at hout ⊢
  simp only [h.clean_join, habove.clean_join, leaves_join h, leaves_join habove, h.join_ne.1,
    habove.join_ne.1, Bool.false_eq_true, or_self, if_false] at hout ⊢
  split_ifs at hout with hroots
  rw [if_neg, any_eq_false]
  · intro pattern hpattern hany
    obtain ⟨candidate, hc, hmatch⟩ := any_eq_true.mp hany
    refine any_eq_false.mp hout pattern hpattern (any_eq_true.mpr ⟨candidate, ?_, hmatch⟩)
    exact candidates_of_above h ha hne hc
  · intro hany
    apply hroots
    obtain ⟨root, hroot, hin⟩ := any_eq_true.mp hany
    refine any_eq_true.mpr ⟨root, hroot, ?_⟩
    simp only [decide_eq_true_eq] at hin ⊢
    exact ⟨hin.1, hin.2.1, hin.2.2.1, within_of_above h ha hne hin.2.2.2⟩

lemma normal_join (h : IsRoute route) (hplain : '\\' ∉ join route) :
    normal (join route) = join route := by
  have hmap : (join route).map (fun c => if c = '\\' then '/' else c) = join route := by
    refine (map_congr_left fun c hc => if_neg ?_).trans (map_id _)
    rintro rfl
    exact hplain hc
  rw [normal, hmap, h.clean_join]

/-- A path of names without backslashes is safe unless it begins like a drive. -/
lemma safeManifestPath_join (h : IsRoute route) (hplain : '\\' ∉ join route) :
    safeManifestPath (join route) = !isDrive (route.headD []) := by
  have hnul : '\x00' ∉ join route := by
    intro hmem
    rcases mem_join hmem with hslash | ⟨name, hname, hc⟩
    · cases hslash
    · exact (h.names name hname).no_nul hc
  have hnil : join route ≠ [] := by
    intro heq
    have hparts := h.parts_join
    rw [heq] at hparts
    exact (h.names [] (by rw [← hparts]; decide)).ne_nil rfl
  obtain ⟨-, hdots, hup, hinner⟩ := h.join_ne
  have hup' : ['.', '.', '/'].isPrefixOf (join route) = false := by
    rwa [Bool.eq_false_iff, Ne, isPrefixOf_iff_prefix]
  unfold safeManifestPath
  rw [if_neg, h.parts_join]
  simp [hnil, h.clean_join, h.not_rooted, hplain, hnul, hdots, hup', hinner]

/-- The directories above an eligible path without backslashes are eligible. -/
lemma eligible_of_above (h : IsRoute route) (hplain : '\\' ∉ join route) (ha : above <+: route)
    (hne : above ≠ []) (hroute : eligible doublestar (join route) = true) :
    eligible doublestar (join above) = true := by
  have habove := h.of_prefix ha hne
  have hplain' : '\\' ∉ join above := fun hmem => hplain ((h.join_prefix habove ha).subset hmem)
  have hhead : above.headD [] = route.headD [] := by
    obtain ⟨rest, rfl⟩ := ha
    obtain ⟨first, above, rfl⟩ := exists_cons_of_ne_nil hne
    rfl
  simp only [eligible, manifestHardExcluded, h.clean_join, habove.clean_join,
    safeManifestPath_join h hplain, safeManifestPath_join habove hplain', hhead, Bool.not_not,
    Bool.not_eq_true', Bool.or_eq_false_iff, decide_eq_false_iff_not] at hroute ⊢
  exact ⟨⟨habove.join_ne.1, hroute.1.2⟩, mandatoryExcluded_of_above h ha hne hroute.2⟩

namespace Manifest

variable {m : Manifest}

/-- The roots lead into the directory: a directory root is this one, below it or above it, or the
directory itself is a root and not ignored. -/
def Reaches (m : Manifest) (name : Text) : Prop :=
  (∃ root ∈ m.roots, root.directory = true ∧
      (root.path = name ∨ name ++ ['/'] <+: root.path ∨ root.path ++ ['/'] <+: name)) ∨
    (∃ root ∈ m.roots, root.path = name) ∧ m.ignored name true = false

variable {name : Text}

lemma manages_or_mayManageDescendant_iff :
    m.manages doublestar name true = true ∨ m.mayManageDescendant doublestar name = true ↔
      eligible doublestar (normal name) = true ∧ m.Reaches (normal name) := by
  simp only [manages, mayManageDescendant, Bool.and_eq_true, Bool.not_eq_true', any_eq_true,
    Bool.or_eq_true, decide_eq_true_eq, isPrefixOf_iff_prefix, Reaches]
  constructor
  · rintro (⟨⟨helig, root, hroot, hname | hdir⟩, hign⟩ | ⟨helig, root, hroot, hdir, (h | h) | h⟩)
    · exact ⟨helig, .inr ⟨⟨root, hroot, hname.symm⟩, hign⟩⟩
    · exact ⟨helig, .inl ⟨root, hroot, hdir.1, .inr (.inr hdir.2)⟩⟩
    · exact ⟨helig, .inl ⟨root, hroot, hdir, .inl h⟩⟩
    · exact ⟨helig, .inl ⟨root, hroot, hdir, .inr (.inl h)⟩⟩
    · exact ⟨helig, .inl ⟨root, hroot, hdir, .inr (.inr h)⟩⟩
  · rintro ⟨helig, ⟨root, hroot, hdir, h | h | h⟩ | ⟨⟨root, hroot, hname⟩, hign⟩⟩
    · exact .inr ⟨helig, root, hroot, hdir, .inl (.inl h)⟩
    · exact .inr ⟨helig, root, hroot, hdir, .inl (.inr h)⟩
    · exact .inr ⟨helig, root, hroot, hdir, .inr h⟩
    · exact .inl ⟨⟨helig, root, hroot, .inl hname.symm⟩, hign⟩

lemma eligible_of_manages {isDir : Bool} (h : m.manages doublestar name isDir = true) :
    eligible doublestar (normal name) = true := by
  simp only [manages, Bool.and_eq_true] at h
  exact h.1.1

end Manifest

end Paperboat.ConfigSync.Rules

import Paperboat.ConfigSync.Manifest
import Paperboat.ConfigSync.Snapshot

/-!
# The pruned walk

A snapshot does not search directories that are neither managed nor may have a managed path in them.
Every managed file of the home should nevertheless be in the snapshot, as a file or as a skipped one.
It is exactly when the roots lead into every directory above one (`Manifest.snapshot_complete_iff`); a
root that is a single file in a directory does not.
-/

namespace Paperboat.ConfigSync.Rules

open List Except Walk

open Paths

/-! ### Homes -/

/-- The content of a directory. An entry that is not a directory has no content. -/
inductive Forest where
  | nil
  | file (name : Text) (entry : { entry : Entry // entry.isDir = false }) (rest : Forest)
  | dir (name : Text) (children rest : Forest)

namespace Forest

/-- The names in the directory itself. -/
def names : Forest → List Text
  | nil => []
  | file name _ rest => name :: rest.names
  | dir name _ rest => name :: rest.names

/-- Every name is a file name, and no directory has a name twice. -/
def WellFormed : Forest → Prop
  | nil => True
  | file name _ rest => IsName name ∧ name ∉ rest.names ∧ rest.WellFormed
  | dir name children rest =>
    IsName name ∧ name ∉ rest.names ∧ children.WellFormed ∧ rest.WellFormed

/-- Everything in the directory at a route, in the order of `filepath.WalkDir`. -/
def nodes (above : List Text) : Forest → List (List Text × Entry)
  | nil => []
  | file name entry rest => (above ++ [name], entry.1) :: rest.nodes above
  | dir name children rest =>
    (above ++ [name], .directory) :: (children.nodes (above ++ [name]) ++ rest.nodes above)

/-- The part of it that a walk sees which goes only into some directories. -/
def kept (goesInto : List Text → Bool) (above : List Text) : Forest → List (List Text × Entry)
  | nil => []
  | file name entry rest => (above ++ [name], entry.1) :: rest.kept goesInto above
  | dir name children rest =>
    (above ++ [name], .directory) ::
      ((if goesInto (above ++ [name]) then children.kept goesInto (above ++ [name]) else []) ++
        rest.kept goesInto above)

variable {forest : Forest} {above : List Text} {node : List Text × Entry}

/-- A node lies in the directory, in something with one of its names. -/
lemma exists_of_mem_nodes (h : node ∈ forest.nodes above) :
    ∃ name ∈ forest.names, ∃ rest, node.1 = above ++ name :: rest := by
  induction forest generalizing above with
  | nil => cases h
  | file name entry rest ih =>
    rcases mem_cons.mp h with rfl | h
    · exact ⟨name, mem_cons_self, [], rfl⟩
    · obtain ⟨n, hn, hrest⟩ := ih h
      exact ⟨n, mem_cons_of_mem _ hn, hrest⟩
  | dir name children rest ihc ih =>
    rcases mem_cons.mp h with rfl | h
    · exact ⟨name, mem_cons_self, [], rfl⟩
    rcases mem_append.mp h with h | h
    · obtain ⟨n, -, tail, hnode⟩ := ihc h
      exact ⟨name, mem_cons_self, n :: tail, by rw [hnode]; simp⟩
    · obtain ⟨n, hn, hrest⟩ := ih h
      exact ⟨n, mem_cons_of_mem _ hn, hrest⟩

variable {name : Text}

lemma isRoute_entry (habove : ∀ name ∈ above, IsName name) (hname : IsName name) :
    IsRoute (above ++ [name]) := by
  refine ⟨by simp, fun n hn => ?_⟩
  rcases mem_append.mp hn with hn | hn
  · exact habove n hn
  · rwa [mem_singleton.mp hn]

lemma WellFormed.isRoute (h : forest.WellFormed) (habove : ∀ name ∈ above, IsName name)
    (hnode : node ∈ forest.nodes above) : IsRoute node.1 := by
  induction forest generalizing above with
  | nil => cases hnode
  | file name entry rest ih =>
    rcases mem_cons.mp hnode with rfl | hnode
    · exact isRoute_entry habove h.1
    · exact ih h.2.2 habove hnode
  | dir name children rest ihc ih =>
    rcases mem_cons.mp hnode with rfl | hnode
    · exact isRoute_entry habove h.1
    rcases mem_append.mp hnode with hnode | hnode
    · exact ihc h.2.2.1 (isRoute_entry habove h.1).names hnode
    · exact ih h.2.2.2 habove hnode

/-- A node does not lie in an entry whose name the directory does not have. -/
lemma not_prefix_of_notMem (hname : name ∉ forest.names) (hnode : node ∈ forest.nodes above) :
    ¬ above ++ [name] <+: node.1 := by
  obtain ⟨n, hn, rest, hroute⟩ := exists_of_mem_nodes hnode
  rintro ⟨t, ht⟩
  rw [hroute, append_assoc, append_cancel_left_eq] at ht
  obtain ⟨rfl, -⟩ := List.cons.inj ht
  exact hname hn

lemma of_mem_children {children : Forest} (h : node ∈ children.nodes above) :
    above <+: node.1 ∧ above ≠ node.1 := by
  obtain ⟨name, -, rest, hroute⟩ := exists_of_mem_nodes h
  exact ⟨⟨name :: rest, hroute.symm⟩, by rw [hroute]; simp⟩

lemma WellFormed.nodup (h : forest.WellFormed) (above : List Text) :
    ((forest.nodes above).map Prod.fst).Nodup := by
  induction forest generalizing above with
  | nil => exact nodup_nil
  | file name entry rest ih =>
    refine nodup_cons.mpr ⟨fun hmem => ?_, ih h.2.2 above⟩
    obtain ⟨node, hnode, heq⟩ := mem_map.mp hmem
    exact not_prefix_of_notMem h.2.1 hnode (by rw [heq])
  | dir name children rest ihc ih =>
    have hrest : ∀ node ∈ rest.nodes above, ¬ above ++ [name] <+: node.1 :=
      fun node hnode => not_prefix_of_notMem h.2.1 hnode
    simp only [nodes, map_cons, map_append]
    refine nodup_cons.mpr ⟨fun hmem => ?_, ?_⟩
    · rcases mem_append.mp hmem with hmem | hmem
      · obtain ⟨node, hnode, heq⟩ := mem_map.mp hmem
        exact (of_mem_children hnode).2 heq.symm
      · obtain ⟨node, hnode, heq⟩ := mem_map.mp hmem
        exact hrest node hnode (by rw [heq])
    · refine nodup_append.mpr ⟨ihc h.2.2.1 _, ih h.2.2.2 above, ?_⟩
      intro a ha b hb heq
      obtain ⟨x, hx, rfl⟩ := mem_map.mp ha
      obtain ⟨y, hy, rfl⟩ := mem_map.mp hb
      exact hrest y hy (heq ▸ (of_mem_children hx).1)

/-- The walk sees a node when it goes into every directory on the way. -/
lemma mem_kept {goesInto : List Text → Bool} : node ∈ forest.kept goesInto above ↔
      node ∈ forest.nodes above ∧ PassesBetween (goesInto · = true) above node.1 := by
  induction forest generalizing above with
  | nil => simp [kept, nodes]
  | file name entry rest ih =>
    rw [kept, nodes, mem_cons, mem_cons, ih, or_and_right]
    refine or_congr_left ⟨fun h => ⟨h, ?_⟩, And.left⟩
    rw [h]
    exact passesBetween_entry _ _ _
  | dir name children rest ihc ih =>
    have hchildren : (node ∈ if goesInto (above ++ [name]) then
          children.kept goesInto (above ++ [name]) else []) ↔
        node ∈ children.nodes (above ++ [name]) ∧ PassesBetween (goesInto · = true) above node.1 := by
      have hinner : node ∈ children.nodes (above ++ [name]) →
          (PassesBetween (goesInto · = true) above node.1 ↔ goesInto (above ++ [name]) = true ∧
            PassesBetween (goesInto · = true) (above ++ [name]) node.1) :=
        fun h => passesBetween_below (of_mem_children h).1 (of_mem_children h).2
      split
      · next hgoes =>
        rw [ihc]
        refine and_congr_right fun h => ?_
        rw [hinner h, hgoes]
        simp
      · next hgoes => exact ⟨nofun, fun ⟨h, hpass⟩ => absurd ((hinner h).mp hpass).1 hgoes⟩
    rw [kept, nodes, mem_cons, mem_cons, mem_append, mem_append, hchildren, ih,
      or_and_right, or_and_right]
    refine or_congr_left ⟨fun h => ⟨h, ?_⟩, And.left⟩
    rw [h]
    exact passesBetween_entry _ _ _

end Forest

/-- A home directory. -/
structure Home where
  forest : Forest
  wellFormed : forest.WellFormed

/-- The path of a route, as the walk has it. -/
def pathOf (route : List Text) : String := String.ofList (join route)

namespace Home

variable (home : Home)

/-- Everything in the home. -/
def nodes : List (List Text × Entry) := home.forest.nodes []

variable {home}

lemma isRoute {node : List Text × Entry} (h : node ∈ home.nodes) : IsRoute node.1 :=
  home.wellFormed.isRoute (fun _ hname => absurd hname not_mem_nil) h

variable (home)

/-- The home as the sequence of entries that the walk visits. -/
def tree : Tree where
  entries := home.nodes.map fun node => (pathOf node.1, node.2)
  nodup := by
    have hnodup := home.wellFormed.nodup []
    rw [map_map]
    refine (nodup_map_iff_inj_on hnodup.of_map).mpr fun a ha b hb heq => ?_
    have hjoin : join a.1 = join b.1 := String.ofList_injective heq
    exact inj_on_of_nodup_map hnodup ha hb ((isRoute ha).join_inj (isRoute hb) hjoin)

end Home

/-! ### The walk -/

section
variable {sha256 : List UInt8 → String} {policy : RuntimePolicy} {sel : Selection}

/-- The walk goes into a directory that is selected or may have something selected in it. -/
def goesInto (sel : Selection) (route : List Text) : Bool :=
  sel.selects (pathOf route) true || sel.descends (pathOf route)

/-- A path is among the files or the skipped ones. -/
def Lists (files : FileStates) (skipped : List PathSummary) (path : String) : Prop :=
  files.lookup path ≠ none ∨ path ∈ skipped.map PathSummary.path

/-- The entries of some nodes. -/
def entriesOf (nodes : List (List Text × Entry)) : List (String × Entry) :=
  nodes.map fun node => (pathOf node.1, node.2)

variable {w : Walk} {d route : List Text}

lemma skips_iff (hw : w.skipDir = some (pathOf d)) (hd : IsRoute d) (hroute : IsRoute route) :
    w.skips (pathOf route) = true ↔ d <+: route ∧ d ≠ route := by
  have hslash : (pathOf d ++ "/").toList = join d ++ ['/'] := by simp [pathOf]
  rw [← hroute.below_iff hd, skips, hw]
  simp only [String.isPrefixOf]
  rw [String.startsWith_string_iff, hslash, pathOf, String.toList_ofList]

variable {l : List (String × Entry)}

lemma walkDir_of_skips (h : ∀ e ∈ l, w.skips e.1 = true) : walkDir sha256 policy sel l w = .ok w := by
  induction l with
  | nil => rfl
  | cons e l ih =>
    have hvisit : visit sha256 policy sel w e.1 e.2 = .ok w := by
      rw [visit, if_pos (h e mem_cons_self)]
    rw [walkDir, hvisit]
    exact ih fun e he => h e (mem_cons_of_mem _ he)

lemma visit_directory (hskip : w.skips (pathOf route) = false) :
    visit sha256 policy sel w (pathOf route) .directory =
      .ok (if goesInto sel route then w else { w with skipDir := some (pathOf route) }) := by
  unfold visit goesInto
  rw [hskip]
  simp only [Bool.false_eq_true, if_false, Entry.isDir, readEntry]
  by_cases hsel : sel.selects (pathOf route) true = true <;>
    by_cases hdesc : sel.descends (pathOf route) = true <;> simp [hsel, hdesc]

variable {path : String} {entry : Entry} {w' : Walk}

lemma visit_file (hskip : w.skips path = false) (hfile : entry.isDir = false)
    (hv : visit sha256 policy sel w path entry = .ok w') :
    w'.skipDir = w.skipDir ∧ ∀ q, Lists w'.files w'.skipped q ↔
      Lists w.files w.skipped q ∨ q = path ∧ sel.selects path false = true := by
  cases visited_of_ok hv with
  | passed h =>
    have hno : sel.selects path false = false := by simpa [hskip, hfile] using h
    simp [hno]
  | pruned hdir => cases hfile.symm.trans hdir
  | skipped summary hread hsel =>
    have hpath : summary.path = path := readEntry_spec hread
    refine ⟨rfl, fun q => ?_⟩
    simp [Lists, hfile ▸ hsel, hpath, or_assoc]
  | recorded state hread hsel =>
    refine ⟨rfl, fun q => ?_⟩
    simp only [Lists, FinMap.lookup_insert_eq, hfile ▸ hsel, and_true]
    by_cases hq : q = path <;> simp [hq]

/-- A walk ends up skipping what it was skipping before, or a directory that it has visited. -/
lemma skipDir_walkDir (hw : walkDir sha256 policy sel l w = .ok w') :
    w'.skipDir = w.skipDir ∨ ∃ e ∈ l, w'.skipDir = some e.1 := by
  refine walkDir_keeps (P := fun m => m.skipDir = w.skipDir ∨ ∃ e ∈ l, m.skipDir = some e.1) hw (.inl rfl)
    fun m rel entry m' he hm hv => ?_
  cases hv with
  | passed | skipped | recorded => exact hm
  | pruned => exact .inr ⟨_, he, rfl⟩

/-- The walk is not skipping anything of a directory. -/
def Clear (w : Walk) (forest : Forest) (above : List Text) : Prop :=
  ∀ node ∈ forest.nodes above, w.skips (pathOf node.1) = false

variable {rest : Forest} {above : List Text} {name : Text}

/-- A walk that skips a directory is clear of one that does not have its name. -/
lemma clear_of_skipDir (habove : ∀ n ∈ above, IsName n) (hrest : rest.WellFormed)
    (hname : name ∉ rest.names) (hd : IsRoute d) (hin : above ++ [name] <+: d)
    (hw : w.skipDir = some (pathOf d)) :
    Clear w rest above := by
  intro node hnode
  rw [Bool.eq_false_iff, Ne, skips_iff hw hd (hrest.isRoute habove hnode)]
  exact fun h => Forest.not_prefix_of_notMem hname hnode (hin.trans h.1)

/-- What the walk through a directory lists: the selected files behind directories that it goes
into. -/
lemma listed_walkDir {forest : Forest} (h : forest.WellFormed) (habove : ∀ name ∈ above, IsName name)
    (hclear : Clear w forest above)
    (hw : walkDir sha256 policy sel (entriesOf (forest.nodes above)) w = .ok w') (q : String) :
    Lists w'.files w'.skipped q ↔ Lists w.files w.skipped q ∨
      ∃ node ∈ forest.kept (goesInto sel) above, pathOf node.1 = q ∧ node.2.isDir = false ∧
        sel.selects q false = true := by
  induction forest generalizing above w w' with
  | nil =>
    rw [← ok.inj hw]
    simp [Forest.kept]
  | file name entry rest ih =>
    have hskip := hclear (above ++ [name], entry.1) mem_cons_self
    simp only [Forest.nodes, entriesOf, map_cons, walkDir] at hw
    split at hw
    · cases hw
    rename_i m hm
    obtain ⟨hsame, hlists⟩ := visit_file hskip entry.2 hm
    have hclear' : Clear m rest above := by
      intro node hnode
      rw [← hclear node (mem_cons_of_mem _ hnode), skips, skips, hsame]
    rw [ih h.2.2 habove hclear' hw, hlists]
    simp only [Forest.kept, exists_mem_cons_iff, entry.2, true_and, or_assoc]
    refine or_congr_right (or_congr_left ?_)
    constructor <;> rintro ⟨rfl, hsel⟩ <;> exact ⟨rfl, hsel⟩
  | dir name children rest ihc ih =>
    have hskip := hclear (above ++ [name], .directory) mem_cons_self
    have hroute := Forest.isRoute_entry habove h.1
    have hrest : Clear w rest above := fun node hnode =>
      hclear node (mem_cons_of_mem _ (mem_append_right _ hnode))
    simp only [Forest.nodes, entriesOf, map_cons, map_append, walkDir, visit_directory hskip] at hw
    obtain ⟨m, hm, hw⟩ := walkDir_append_ok.mp hw
    have hdir : Entry.directory.isDir = true := rfl
    simp only [Forest.kept, exists_mem_cons_iff, hdir, Bool.true_eq_false, false_and,
      and_false, false_or]
    cases hgoes : goesInto sel (above ++ [name]) with
    | true =>
      rw [hgoes, if_pos rfl] at hm
      have hchildren : Clear w children (above ++ [name]) := fun node hnode =>
        hclear node (mem_cons_of_mem _ (mem_append_left _ hnode))
      -- after what the entry contains, the walk is clear of the rest of the directory
      have hafter : Clear m rest above := by
        rcases skipDir_walkDir hm with hsame | ⟨e, he, hskip⟩
        · intro node hnode
          rw [← hrest node hnode, skips, skips, hsame]
        · obtain ⟨child, hchild, rfl⟩ := mem_map.mp he
          exact clear_of_skipDir habove h.2.2.2 h.2.1 (h.2.2.1.isRoute hroute.names hchild)
            (Forest.of_mem_children hchild).1 hskip
      rw [ih h.2.2.2 habove hafter hw, ihc h.2.2.1 hroute.names hchildren hm]
      simp only [if_true, mem_append, or_and_right, exists_or, or_assoc]
    | false =>
      rw [hgoes] at hm
      -- everything in the directory is skipped
      set skipping : Walk := { w with skipDir := some (pathOf (above ++ [name])) } with hskipping
      have hall : ∀ e ∈ entriesOf (children.nodes (above ++ [name])), skipping.skips e.1 = true := by
        intro e he
        obtain ⟨child, hchild, rfl⟩ := mem_map.mp he
        exact (skips_iff rfl hroute (h.2.2.1.isRoute hroute.names hchild)).mpr
          (Forest.of_mem_children hchild)
      have hm' : m = skipping := (ok.inj ((walkDir_of_skips hall).symm.trans hm)).symm
      subst hm'
      have hclear' : Clear skipping rest above :=
        clear_of_skipDir habove h.2.2.2 h.2.1 hroute (prefix_refl _) rfl
      rw [ih h.2.2.2 habove hclear' hw, if_neg Bool.false_ne_true, nil_append]

lemma exists_walkDir (h : ∀ e ∈ l, e.2 ≠ .unreadable) (w : Walk) :
    ∃ w', walkDir sha256 policy sel l w = .ok w' := by
  induction l generalizing w with
  | nil => exact ⟨w, rfl⟩
  | cons e l ih =>
    have hvisit : ∃ m, visit sha256 policy sel w e.1 e.2 = .ok m := by
      unfold visit
      split_ifs
      on_goal 4 => split
      on_goal 5 => next hfailed => exact absurd (readEntry_spec hfailed) (h e mem_cons_self)
      all_goals exact ⟨_, rfl⟩
    obtain ⟨m, hm⟩ := hvisit
    obtain ⟨w', hw'⟩ := ih (fun e he => h e (mem_cons_of_mem _ he)) m
    exact ⟨w', by rw [walkDir, hm]; exact hw'⟩

/-- A snapshot is taken when the roots are safe and every entry can be read. -/
lemma exists_snapshot (sha256 : List UInt8 → String) (policy : RuntimePolicy) {tree : Tree}
    (hsafe : sel.rootsSafe tree = true) (hread : ∀ e ∈ tree.entries, e.2 ≠ .unreadable) :
    ∃ s, takeManifestSnapshot sha256 policy sel tree = .ok s := by
  obtain ⟨w, hw⟩ := @exists_walkDir sha256 policy sel tree.entries hread .start
  unfold takeManifestSnapshot takeSelectedSnapshot
  rw [hsafe, hw]
  split
  · next hno => cases hno
  · split <;> exact ⟨_, rfl⟩

lemma lists_snapshot {home : Home} {s : Snapshot}
    (hs : takeManifestSnapshot sha256 policy sel home.tree = .ok s) (hempty : sel.empty = false)
    (q : String) :
    Lists s.files s.skipped q ↔ ∃ node ∈ home.nodes, pathOf node.1 = q ∧ node.2.isDir = false ∧
      sel.selects q false = true ∧ PassesBetween (goesInto sel · = true) [] node.1 := by
  obtain ⟨w, hw, rfl⟩ := takeManifestSnapshot_eq_ok hs hempty
  have hlists : Lists w.files (w.skipped.insertionSort summaryLE) q ↔ Lists w.files w.skipped q :=
    or_congr_right ((perm_insertionSort summaryLE w.skipped).map PathSummary.path).mem_iff
  have hclear : Clear .start home.forest [] := fun _ _ => rfl
  have hstart : ¬ Lists start.files start.skipped q := by simp [Lists, start]
  rw [hlists, listed_walkDir home.wellFormed (fun _ hname => absurd hname not_mem_nil) hclear hw]
  simp only [hstart, false_or, Forest.mem_kept]
  refine exists_congr fun node => ?_
  change (_ ∧ _) ∧ _ ↔ _ ∈ home.forest.nodes [] ∧ _
  tauto

end

/-! ### Manifests -/

namespace Manifest

variable (doublestar : String → Text → Bool) (exclusionRoots : List Text) (m : Manifest)

/-- The loop of `validateManifestRoots` over the parts of one root: no symlink on the way to it, nor
in the place of a directory root. -/
def rootSafe (tree : Tree) (directory : Bool) : List Text → List Text → Bool
  | _, [] => true
  | current, part :: rest =>
    match (tree.entries.find? fun e => e.1 = pathOf (current ++ [part])).map Prod.snd with
    | none => true
    | some (.symlink _) => rest = [] && !directory
    | some entry =>
      if rest ≠ [] ∧ entry.isDir = false then true
      else rootSafe tree directory (current ++ [part]) rest

/-- `validateManifestRoots`. -/
def validateManifestRoots (tree : Tree) : Bool :=
  m.roots.all fun root => rootSafe tree root.directory [] (parts root.path)

/-- The callbacks of `TakeManifestSnapshot`. -/
def selection : Selection where
  manages path isDir := m.manages doublestar path.toList isDir
  mayManageDescendant path := m.mayManageDescendant doublestar path.toList
  mandatoryExcluded path := Rules.mandatoryExcluded doublestar exclusionRoots path.toList
  empty := m.roots = []
  rootsSafe := m.validateManifestRoots
  manages_of_empty h path isDir := by
    rw [decide_eq_true_eq] at h
    simp [manages, h]

/-- The files of the home that the manifest manages and nothing excludes. -/
def managedFiles (home : Home) : List (List Text × Entry) :=
  home.nodes.filter fun node => !node.2.isDir &&
    (!Rules.mandatoryExcluded doublestar exclusionRoots (join node.1) &&
      m.manages doublestar (join node.1) false)

/-- Every managed file is in the snapshot, as a file or as a skipped one. -/
def Complete (home : Home) (s : Snapshot) : Prop :=
  ∀ node ∈ m.managedFiles doublestar exclusionRoots home,
    Lists s.files s.skipped (pathOf node.1)

/-- The roots lead into every directory above a managed file. For a file with a backslash in its
path the directory, with slashes for backslashes, must be a path that the manifest may manage. -/
def LeadsToFiles (home : Home) : Prop :=
  ∀ node ∈ m.managedFiles doublestar exclusionRoots home,
    ∀ above, above <+: node.1 → above ≠ [] → above ≠ node.1 →
      m.Reaches (normal (join above)) ∧
        ('\\' ∈ join node.1 → eligible doublestar (normal (join above)) = true)

variable {doublestar exclusionRoots m}

/-- The walk goes into the directories above a managed file exactly when the roots lead there. -/
lemma goesInto_iff {route above : List Text} (h : IsRoute route) (ha : above <+: route)
    (hne : above ≠ []) (hout : Rules.mandatoryExcluded doublestar exclusionRoots (join route) = false)
    (hmanaged : m.manages doublestar (join route) false = true) :
    goesInto (m.selection doublestar exclusionRoots) above = true ↔ m.Reaches (normal (join above)) ∧
        ('\\' ∈ join route → eligible doublestar (normal (join above)) = true) := by
  have habove := h.of_prefix ha hne
  have hout' := mandatoryExcluded_of_above h ha hne hout
  have hgoes : goesInto (m.selection doublestar exclusionRoots) above = true ↔
      eligible doublestar (normal (join above)) = true ∧ m.Reaches (normal (join above)) := by
    rw [← manages_or_mayManageDescendant_iff]
    simp [goesInto, Selection.selects, Selection.descends, selection, pathOf, hout']
  rw [hgoes, and_comm]
  refine and_congr_right fun _ => ⟨fun helig _ => helig, fun helig => ?_⟩
  by_cases hplain : '\\' ∈ join route
  · exact helig hplain
  -- without backslashes the file's own eligibility is enough
  have hroute := eligible_of_manages hmanaged
  rw [normal_join h hplain] at hroute
  have hplain' : '\\' ∉ join above := fun hmem => hplain ((h.join_prefix habove ha).subset hmem)
  rw [normal_join habove hplain']
  exact eligible_of_above h hplain ha hne hroute

variable {home : Home} {node : List Text × Entry}

lemma mem_managedFiles : node ∈ m.managedFiles doublestar exclusionRoots home ↔ node ∈ home.nodes ∧
      node.2.isDir = false ∧ Rules.mandatoryExcluded doublestar exclusionRoots (join node.1) = false ∧
      m.manages doublestar (join node.1) false = true := by
  simp [managedFiles]

lemma manages_of_roots_nil (h : m.roots = []) (name : Text) (isDir : Bool) :
    m.manages doublestar name isDir = false := by
  simp [manages, h]

variable {sha256 : List UInt8 → String} {policy : RuntimePolicy} {s : Snapshot}

/-- A managed file is in the snapshot when the walk goes into every directory above it. -/
lemma lists_managed_iff
    (hs : takeManifestSnapshot sha256 policy (m.selection doublestar exclusionRoots) home.tree = .ok s)
    (hnode : node ∈ m.managedFiles doublestar exclusionRoots home) :
    Lists s.files s.skipped (pathOf node.1) ↔
      PassesBetween (goesInto (m.selection doublestar exclusionRoots) · = true) [] node.1 := by
  obtain ⟨hmem, hfile, hout, hmanaged⟩ := mem_managedFiles.mp hnode
  have hempty : (m.selection doublestar exclusionRoots).empty = false := by
    by_contra hno
    rw [manages_of_roots_nil (by simpa [selection] using hno)] at hmanaged
    cases hmanaged
  rw [lists_snapshot hs hempty]
  constructor
  · rintro ⟨other, hother, hpath, -, -, hpass⟩
    have hjoin : join other.1 = join node.1 := String.ofList_injective hpath
    rwa [← (Home.isRoute hother).join_inj (Home.isRoute hmem) hjoin]
  · intro hpass
    refine ⟨node, hmem, rfl, hfile, ?_, hpass⟩
    simp [Selection.selects, selection, pathOf, hout, hmanaged]

/-- The snapshot of a home whose roots are not symlinks and whose files can be read is taken, and
every snapshot of it has every managed file exactly when the roots lead to the managed files. -/
theorem snapshot_complete_iff (sha256 : List UInt8 → String) (policy : RuntimePolicy)
    (doublestar : String → Text → Bool) (exclusionRoots : List Text) (m : Manifest) (home : Home) :
    (m.validateManifestRoots home.tree = true → (∀ node ∈ home.nodes, node.2 ≠ .unreadable) →
        ∃ s, takeManifestSnapshot sha256 policy (m.selection doublestar exclusionRoots) home.tree =
          .ok s) ∧
      ∀ s, takeManifestSnapshot sha256 policy (m.selection doublestar exclusionRoots) home.tree = .ok s →
        (m.Complete doublestar exclusionRoots home s ↔
          m.LeadsToFiles doublestar exclusionRoots home) := by
  constructor
  · intro hsafe hread
    refine exists_snapshot sha256 policy hsafe fun e he => ?_
    obtain ⟨node, hnode, rfl⟩ := mem_map.mp he
    exact hread node hnode
  · intro s hs
    refine forall_congr' fun node => forall_congr' fun hnode => ?_
    rw [lists_managed_iff hs hnode]
    obtain ⟨hmem, -, hout, hmanaged⟩ := mem_managedFiles.mp hnode
    refine forall_congr' fun above => ?_
    constructor
    · intro hpass hpre hne hne'
      exact (goesInto_iff (Home.isRoute hmem) hpre hne hout hmanaged).mp
        (hpass nil_prefix hne hpre hne')
    · intro hleads _ hne hpre hne'
      exact (goesInto_iff (Home.isRoute hmem) hpre hne hout hmanaged).mpr (hleads hpre hne hne')

/-! ### A file in a directory -/

/-- A home with one file, `d/f`. -/
def nestedHome : Home where
  forest := .dir ['d'] (.file ['f'] ⟨.regular [1] 0o600 true, rfl⟩ .nil) .nil
  wellFormed := by
    have hname : ∀ c : Char, c ≠ '/' → c ≠ '\x00' → c ≠ '.' → IsName [c] := by
      intro c h₁ h₂ h₃
      exact ⟨by simp, by simpa using h₁.symm, by simpa using h₂.symm, by simpa using h₃, by simp⟩
    exact ⟨hname 'd' (by decide) (by decide) (by decide), by simp [Forest.names],
      ⟨hname 'f' (by decide) (by decide) (by decide), by simp [Forest.names], trivial⟩, trivial⟩

/-- The manifest with the single root `d/f`. -/
def nestedFile : Manifest := ⟨[⟨['d', '/', 'f'], false⟩], []⟩

/-- The text `d/f` is the manifest of a single file, and the snapshot of the home does not have it. -/
theorem nestedFile_missing :
    parseManifest (fun _ _ => false) (fun _ => true) (fun _ _ _ => .noMatch) ['d', '/', 'f', '\n'] []
        defaultManifestLimits = .ok nestedFile ∧
      ∃ s, takeManifestSnapshot (fun _ => "h") ⟨10, 10⟩ (nestedFile.selection (fun _ _ => false) [])
          nestedHome.tree = .ok s ∧
        ¬ nestedFile.Complete (fun _ _ => false) [] nestedHome s := by
  have hsafe : nestedFile.validateManifestRoots nestedHome.tree = true := by decide +kernel
  have hread : ∀ e ∈ nestedHome.tree.entries, e.2 ≠ .unreadable := by decide +kernel
  obtain ⟨s, hs⟩ := @exists_snapshot (nestedFile.selection (fun _ _ => false) []) (fun _ => "h")
    ⟨10, 10⟩ nestedHome.tree hsafe hread
  refine ⟨rfl, s, hs, fun h => ?_⟩
  have hnode : ([['d'], ['f']], .regular [1] 0o600 true) ∈
      nestedFile.managedFiles (fun _ _ => false) [] nestedHome := by
    decide +kernel
  -- the walk does not go into `d`
  have hpass := (lists_managed_iff hs hnode).mp (h _ hnode) [['d']] nil_prefix (by simp)
    ⟨[['f']], rfl⟩ (by simp)
  revert hpass
  decide +kernel

end Manifest

end Paperboat.ConfigSync.Rules

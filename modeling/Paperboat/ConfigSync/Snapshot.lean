import Paperboat.Lib.FinMap

/-!
# Snapshots of a directory tree

The model of `internal/configsync/snapshot.go`. A tree is the sequence of entries that
`filepath.WalkDir` visits, each directory before what it contains. Files that are unsafe, too large or
changing are only listed as skipped, and so are files for which the byte budget of the batch is used up.
The manifest is a parameter.
-/

namespace Paperboat.ConfigSync

open Except List FinMap

/-! ### File states -/

/-- The part of a file's mode that a snapshot keeps: a symlink, or permission bits. -/
inductive FileMode where
  | symlink
  | regular (perm : ℕ)
  deriving DecidableEq

/-- `Mode.Perm()`. -/
def FileMode.perm : FileMode → ℕ
  | .symlink => 0
  | .regular perm => perm

/-- `FileState`: what a snapshot records of a file. -/
structure FileState where
  hash : String
  bytes : ℕ
  mode : FileMode
  target : String
  deriving DecidableEq

/-- A map from paths to file states. -/
abbrev FileStates := FinMap String FileState

/-- `PathSummary`: a path with a reason to report it. -/
structure PathSummary where
  path : String
  bytes : ℕ
  reason : String
  revision : String
  deriving DecidableEq

/-! ### Trees -/

/-- One entry of a directory tree. The target of a symlink is known when it is relative and stays
inside the tree; `stable` says that the file does not change while it is read. -/
inductive Entry where
  | directory
  | symlink (target : Option String)
  | special
  | regular (content : List UInt8) (perm : ℕ) (stable : Bool)
  | unreadable
  deriving DecidableEq

/-- The entry is a directory. -/
def Entry.isDir : Entry → Bool
  | .directory => true
  | _ => false

/-- A directory tree, in the order in which `filepath.WalkDir` visits it. -/
structure Tree where
  entries : List (String × Entry)
  nodup : (entries.map Prod.fst).Nodup

/-- A file exists at the path. -/
def Tree.HasFile (tree : Tree) (path : String) : Prop :=
  ∃ entry, (path, entry) ∈ tree.entries ∧ entry.isDir = false

/-- What the walk asks the manifest and the policy. A manifest without roots manages nothing. -/
structure Selection where
  manages : String → Bool → Bool
  mayManageDescendant : String → Bool
  mandatoryExcluded : String → Bool
  empty : Bool
  rootsSafe : Tree → Bool
  manages_of_empty : empty = true → ∀ path isDir, manages path isDir = false

/-- The first callback of `TakeManifestSnapshot`. -/
def Selection.selects (sel : Selection) (path : String) (isDir : Bool) : Bool :=
  !sel.mandatoryExcluded path && sel.manages path isDir

/-- The second callback of `TakeManifestSnapshot`. -/
def Selection.descends (sel : Selection) (path : String) : Bool :=
  !sel.mandatoryExcluded path && sel.mayManageDescendant path

/-- The limits of the policy that a snapshot reads. -/
structure RuntimePolicy where
  maxFileBytes : ℕ
  maxBatchBytes : ℕ

/-! ### The walk -/

/-- What the walk makes of one selected entry. -/
inductive Reading where
  | nothing
  | failed
  | skip (summary : PathSummary)
  | state (state : FileState)
  deriving DecidableEq

/-- `ErrSnapshotInvalid` and `ErrManifestUnsafePath`. -/
inductive SnapshotError where
  | snapshotInvalid
  | manifestUnsafePath
  deriving DecidableEq

/-- The state of the walk: the files and skips so far, the bytes taken, and the directory that
`filepath.SkipDir` is skipping. -/
structure Walk where
  files : FileStates
  skipped : List PathSummary
  batchBytes : ℕ
  skipDir : Option String

/-- The result of a snapshot. -/
structure Snapshot where
  files : FileStates
  skipped : List PathSummary

variable (sha256 : List UInt8 → String) (policy : RuntimePolicy) (sel : Selection)

/-- The file state of a symlink. -/
def symlinkState (target : String) : FileState :=
  ⟨sha256 ("symlink:" ++ target).toUTF8.toList, target.utf8ByteSize, .symlink, target⟩

/-- `readStableFile`: the state of a regular file. -/
def regularState (content : List UInt8) (perm : ℕ) : FileState :=
  ⟨sha256 content, content.length, .regular perm, ""⟩

/-- The part of the walk's callback behind the selection: read a file, or say why not. -/
def readEntry (batchBytes : ℕ) (rel : String) : Entry → Reading
  | .directory => .nothing
  | .unreadable => .failed
  | .symlink none => .skip ⟨rel, 0, "unsafe_symlink", ""⟩
  | .symlink (some target) =>
    let state := symlinkState sha256 target
    if policy.maxBatchBytes < batchBytes + state.bytes then
      .skip ⟨rel, state.bytes, "max_batch_bytes", ""⟩
    else .state state
  | .special => .skip ⟨rel, 0, "special_file", ""⟩
  | .regular content perm stable =>
    let size := content.length
    -- bit 1 is `0o002`, writable by others
    if perm.testBit 1 then .skip ⟨rel, size, "unsafe_permissions", ""⟩
    else if policy.maxFileBytes < size then .skip ⟨rel, size, "max_file_bytes", ""⟩
    else if policy.maxBatchBytes < batchBytes + size then .skip ⟨rel, size, "max_batch_bytes", ""⟩
    else if stable = false then .skip ⟨rel, size, "file_changing", ""⟩
    else .state (regularState sha256 content perm)

/-- The path lies in the directory that is being skipped. -/
def Walk.skips (w : Walk) (rel : String) : Bool :=
  match w.skipDir with
  | none => false
  | some dir => (dir ++ "/").isPrefixOf rel

/-- The callback of `filepath.WalkDir` on one entry. -/
def visit (w : Walk) (rel : String) (entry : Entry) : Except SnapshotError Walk :=
  if w.skips rel then .ok w
  else if sel.selects rel entry.isDir = false then
    if entry.isDir && !sel.descends rel then .ok { w with skipDir := some rel } else .ok w
  else
    match readEntry sha256 policy w.batchBytes rel entry with
    | .nothing => .ok w
    | .failed => .error .snapshotInvalid
    | .skip summary => .ok { w with skipped := w.skipped ++ [summary] }
    | .state state =>
      .ok { w with batchBytes := w.batchBytes + state.bytes, files := w.files.insert rel state }

/-- `filepath.WalkDir` over the entries of a tree. -/
def walkDir : List (String × Entry) → Walk → Except SnapshotError Walk
  | [], w => .ok w
  | (rel, entry) :: rest, w =>
    match visit sha256 policy sel w rel entry with
    | .error e => .error e
    | .ok w => walkDir rest w

/-- The walk before its first entry. -/
def Walk.start : Walk := ⟨∅, [], 0, none⟩

/-- The order of the list of skips. -/
def summaryLE (a b : PathSummary) : Prop := a.path ≤ b.path

instance : DecidableRel summaryLE := fun _ _ => inferInstanceAs (Decidable (_ ≤ _))

/-- `takeSelectedSnapshot`. -/
def takeSelectedSnapshot (tree : Tree) : Except SnapshotError Snapshot :=
  if sel.empty then .ok ⟨∅, []⟩
  else
    match walkDir sha256 policy sel tree.entries .start with
    | .error e => .error e
    | .ok w => .ok ⟨w.files, w.skipped.insertionSort summaryLE⟩

/-- `TakeManifestSnapshot`. -/
def takeManifestSnapshot (tree : Tree) : Except SnapshotError Snapshot :=
  if sel.rootsSafe tree = false then .error .manifestUnsafePath
  else takeSelectedSnapshot sha256 policy sel tree

/-! ### What a snapshot leaves out -/

/-- A walk that has come to the file `entry` at `path` leaves it out: it is in a directory that is not
searched, it is not selected, or there is a reason to skip it (maybe the bytes taken before it). -/
def LeavesOut (w : Walk) (path : String) (entry : Entry) : Prop :=
  w.skips path = true ∨ sel.selects path entry.isDir = false ∨
    ∃ summary, readEntry sha256 policy w.batchBytes path entry = .skip summary

/-- There is a file at `path`, and a snapshot of the tree leaves it out. -/
def Hidden (tree : Tree) (path : String) : Prop :=
  ∃ before entry rest w, tree.entries = before ++ (path, entry) :: rest ∧ entry.isDir = false ∧
    walkDir sha256 policy sel before .start = .ok w ∧ LeavesOut sha256 policy sel w path entry

/-- The state of a file that can be recorded. -/
def Entry.state : Entry → Option FileState
  | .symlink (some target) => some (symlinkState sha256 target)
  | .regular content perm _ => some (regularState sha256 content perm)
  | _ => none

/-- A regular file is not too large, and others cannot write to it. -/
def FileState.Allowed (policy : RuntimePolicy) (state : FileState) : Prop :=
  ∀ perm, state.mode = .regular perm → state.bytes ≤ policy.maxFileBytes ∧ perm.testBit 1 = false

/-- What a reading says about its entry. -/
def Reading.Explains (batchBytes : ℕ) (rel : String) (entry : Entry) : Reading → Prop
  | .nothing => entry.isDir = true
  | .failed => entry = .unreadable
  | .skip summary => summary.path = rel
  | .state s => entry.state sha256 = some s ∧ batchBytes + s.bytes ≤ policy.maxBatchBytes ∧ s.Allowed policy

/-- The ways in which a walk visits an entry. -/
inductive Visited (w : Walk) (rel : String) (entry : Entry) : Walk → Prop where
  | passed (h : w.skips rel = true ∨ sel.selects rel entry.isDir = false ∨ entry.isDir = true) :
      Visited w rel entry w
  | pruned (hdir : entry.isDir = true) : Visited w rel entry { w with skipDir := some rel }
  | skipped (summary : PathSummary) (hread : readEntry sha256 policy w.batchBytes rel entry = .skip summary)
      (hsel : sel.selects rel entry.isDir = true) :
      Visited w rel entry { w with skipped := w.skipped ++ [summary] }
  | recorded (state : FileState) (hread : readEntry sha256 policy w.batchBytes rel entry = .state state)
      (hsel : sel.selects rel entry.isDir = true) (hskips : w.skips rel = false) :
      Visited w rel entry
        { w with batchBytes := w.batchBytes + state.bytes, files := w.files.insert rel state }

variable {sha256 policy sel} {w w' : Walk} {batchBytes : ℕ} {rel path : String} {entry : Entry}
  {l : List (String × Entry)}

lemma readEntry_spec {reading : Reading} (h : readEntry sha256 policy batchBytes rel entry = reading) :
    reading.Explains sha256 policy batchBytes rel entry := by
  subst h
  unfold readEntry
  split
  · rfl
  · rfl
  · rfl
  · dsimp only
    split_ifs with hbatch
    · rfl
    · exact ⟨rfl, not_lt.mp hbatch, by simp [symlinkState, FileState.Allowed]⟩
  · rfl
  · dsimp only
    split_ifs with hperm hfile hbatch
    · rfl
    · rfl
    · rfl
    · rfl
    · refine ⟨rfl, not_lt.mp hbatch, ?_⟩
      rintro _ ⟨⟩
      exact ⟨not_lt.mp hfile, Bool.eq_false_of_not_eq_true hperm⟩

lemma visited_of_ok (hv : visit sha256 policy sel w rel entry = .ok w') :
    Visited sha256 policy sel w rel entry w' := by
  unfold visit at hv
  split_ifs at hv with hskips hsel hdir
  · exact ok.inj hv ▸ .passed (.inl hskips)
  · exact ok.inj hv ▸ .pruned (Bool.and_eq_true_iff.mp hdir).1
  · exact ok.inj hv ▸ .passed (.inr (.inl hsel))
  rw [Bool.not_eq_false] at hsel
  rw [Bool.not_eq_true] at hskips
  split at hv <;> cases hv
  · next hread => exact .passed (.inr (.inr (readEntry_spec hread)))
  · next summary hread => exact .skipped summary hread hsel
  · next state hread => exact .recorded state hread hsel hskips

/-- What every visit keeps, a walk keeps. -/
lemma walkDir_keeps {P : Walk → Prop} (hw : walkDir sha256 policy sel l w = .ok w') (h : P w)
    (hstep : ∀ m rel entry m', (rel, entry) ∈ l → P m → Visited sha256 policy sel m rel entry m' → P m') :
    P w' := by
  induction l generalizing w with
  | nil => exact ok.inj hw ▸ h
  | cons e l ih =>
    rw [walkDir] at hw
    split at hw
    · cases hw
    · next m hm =>
      exact ih hw (hstep w e.1 e.2 m mem_cons_self h (visited_of_ok hm)) fun m rel entry m' he =>
        hstep m rel entry m' (mem_cons_of_mem _ he)

lemma walkDir_append_ok {a b : List (String × Entry)} : walkDir sha256 policy sel (a ++ b) w = .ok w' ↔
      ∃ m, walkDir sha256 policy sel a w = .ok m ∧ walkDir sha256 policy sel b m = .ok w' := by
  induction a generalizing w with
  | nil => simp [walkDir]
  | cons e a ih =>
    obtain ⟨rel, entry⟩ := e
    simp only [cons_append, walkDir]
    cases visit sha256 policy sel w rel entry with
    | error => simp
    | ok => exact ih

lemma lookup_walkDir_of_notMem (hw : walkDir sha256 policy sel l w = .ok w')
    (hmem : path ∉ l.map Prod.fst) : w'.files.lookup path = w.files.lookup path := by
  refine walkDir_keeps (P := fun m => m.files.lookup path = _) hw rfl fun m rel entry m' he hm hv => ?_
  cases hv with
  | passed | pruned | skipped => exact hm
  | recorded =>
    rw [lookup_insert_eq, if_neg fun heq => hmem (mem_map.mpr ⟨_, he, heq.symm⟩)]
    exact hm

lemma lookup_visit_self (hv : visit sha256 policy sel w path entry = .ok w')
    (hfile : entry.isDir = false) (hnone : w.files.lookup path = none) :
    w'.files.lookup path = none ↔ LeavesOut sha256 policy sel w path entry := by
  unfold LeavesOut
  cases visited_of_ok hv with
  | passed h =>
    simp only [hfile, Bool.false_eq_true, or_false] at h ⊢
    exact iff_of_true hnone (h.imp_right .inl)
  | pruned hdir => cases hfile.symm.trans hdir
  | skipped summary hread => exact iff_of_true hnone (.inr (.inr ⟨summary, hread⟩))
  | recorded state hread hsel hskips => simp [hskips, hsel, hread]

lemma lookup_walkDir_of_split {before rest : List (String × Entry)}
    (hl : l = before ++ (path, entry) :: rest) (hnodup : (l.map Prod.fst).Nodup)
    (hfile : entry.isDir = false) (hw : walkDir sha256 policy sel l .start = .ok w) :
    ∃ m, walkDir sha256 policy sel before .start = .ok m ∧
      (w.files.lookup path = none ↔ LeavesOut sha256 policy sel m path entry) := by
  subst hl
  rw [map_append, map_cons] at hnodup
  have hbefore : path ∉ before.map Prod.fst := fun h =>
    (nodup_append.mp hnodup).2.2 path h path mem_cons_self rfl
  have hrest : path ∉ rest.map Prod.fst := (nodup_cons.mp (nodup_append.mp hnodup).2.1).1
  obtain ⟨m, hm, hw⟩ := walkDir_append_ok.mp hw
  refine ⟨m, hm, ?_⟩
  rw [walkDir] at hw
  split at hw
  · cases hw
  rename_i m' hm'
  have hnone : m.files.lookup path = none := by
    rw [lookup_walkDir_of_notMem hm hbefore]
    rfl
  rw [lookup_walkDir_of_notMem hw hrest]
  exact lookup_visit_self hm' hfile hnone

variable {tree : Tree} {s : Snapshot}

lemma takeManifestSnapshot_eq_ok (hs : takeManifestSnapshot sha256 policy sel tree = .ok s)
    (hempty : sel.empty = false) :
    ∃ w, walkDir sha256 policy sel tree.entries .start = .ok w ∧
      s = ⟨w.files, w.skipped.insertionSort summaryLE⟩ := by
  unfold takeManifestSnapshot takeSelectedSnapshot at hs
  rw [hempty] at hs
  split at hs
  · cases hs
  simp only [Bool.false_eq_true, if_false] at hs
  split at hs
  · cases hs
  · next w hw => exact ⟨w, hw, (ok.inj hs).symm⟩

/-- A file of the tree is missing in the snapshot exactly when it is hidden. -/
lemma lookup_eq_none_iff_hidden (hs : takeManifestSnapshot sha256 policy sel tree = .ok s)
    (hempty : sel.empty = false) (hfile : tree.HasFile path) :
    s.files.lookup path = none ↔ Hidden sha256 policy sel tree path := by
  obtain ⟨w, hw, rfl⟩ := takeManifestSnapshot_eq_ok hs hempty
  constructor
  · intro hnone
    obtain ⟨entry, hmem, hdir⟩ := hfile
    obtain ⟨before, rest, htree⟩ := append_of_mem hmem
    obtain ⟨m, hm, hiff⟩ := lookup_walkDir_of_split htree tree.nodup hdir hw
    exact ⟨before, entry, rest, m, htree, hdir, hm, hiff.mp hnone⟩
  · rintro ⟨before, entry, rest, m, htree, hdir, hm, hout⟩
    obtain ⟨m', hm', hiff⟩ := lookup_walkDir_of_split htree tree.nodup hdir hw
    obtain rfl := ok.inj (hm.symm.trans hm')
    exact hiff.mpr hout

lemma Hidden.hasFile (h : Hidden sha256 policy sel tree path) : tree.HasFile path := by
  obtain ⟨before, entry, rest, -, htree, hdir, -, -⟩ := h
  exact ⟨entry, by simp [htree], hdir⟩

/-! ### A snapshot as a restriction of the tree's files -/

variable (sha256) in
/-- The states of all files of a tree. -/
def Tree.files (tree : Tree) : FileStates :=
  FinMap.ofKeys (tree.entries.map Prod.fst) fun path =>
    (tree.entries.find? fun e => e.1 = path).bind fun e => e.2.state sha256

lemma Tree.lookup_files (h : (path, entry) ∈ tree.entries) :
    (tree.files sha256).lookup path = entry.state sha256 := by
  have hfind : tree.entries.find? (fun e => e.1 = path) = some (path, entry) := by
    obtain ⟨before, rest, hsplit⟩ := append_of_mem h
    have hnodup := tree.nodup
    rw [hsplit] at hnodup ⊢
    rw [map_append, map_cons] at hnodup
    refine find?_eq_some_iff_append.mpr ⟨by simp, before, rest, rfl, fun e he => ?_⟩
    simpa using (nodup_append.mp hnodup).2.2 e.1 (mem_map_of_mem he) path mem_cons_self
  rw [Tree.files, lookup_ofKeys, hfind, if_pos (mem_map_of_mem h)]
  rfl

variable {state : FileState}

/-- A state recorded by a walk is the state of a selected file that it has visited. -/
lemma lookup_walkDir_eq_some (hw : walkDir sha256 policy sel l w = .ok w')
    (hs : w'.files.lookup path = some state) :
    w.files.lookup path = some state ∨ ∃ entry, (path, entry) ∈ l ∧ sel.selects path false = true ∧
        entry.state sha256 = some state := by
  refine walkDir_keeps (P := fun m => m.files.lookup path = some state → _) hw .inl
    (fun m rel entry m' he hm hv hs => ?_) hs
  cases hv with
  | passed | pruned | skipped => exact hm hs
  | recorded st hread hsel =>
    rw [lookup_insert_eq] at hs
    split_ifs at hs with hrel
    · cases hs
      obtain ⟨hstate, -⟩ := readEntry_spec hread
      have hdir : entry.isDir = false := by cases entry <;> simp_all [Entry.state, Entry.isDir]
      rw [hdir, ← hrel] at hsel
      exact .inr ⟨entry, hrel ▸ he, hsel, hstate⟩
    · exact hm hs

/-- The snapshot of some files: the selected ones, except those that were skipped. -/
def snapshotOf (selects : String → Bool) (skipped : List String) (files : FileStates) : FileStates :=
  files.restrict fun path => selects path && !skipped.contains path

lemma lookup_snapshotOf (selects : String → Bool) (skipped : List String) (files : FileStates)
    (path : String) :
    (snapshotOf selects skipped files).lookup path =
      if selects path = true ∧ path ∉ skipped then files.lookup path else none := by
  simp [snapshotOf]

/-- A snapshot of a tree is the snapshot of its files, and every selected file that it skips is
hidden. -/
lemma exists_snapshotOf (hs : takeManifestSnapshot sha256 policy sel tree = .ok s)
    (hempty : sel.empty = false) :
    ∃ skipped : List String, (∀ path, s.files.lookup path =
        (snapshotOf (fun p => sel.selects p false) skipped (tree.files sha256)).lookup path) ∧
      ∀ path ∈ skipped, Hidden sha256 policy sel tree path := by
  obtain ⟨w, hw, hfiles⟩ := takeManifestSnapshot_eq_ok hs hempty
  have hsome : ∀ path state, s.files.lookup path = some state →
      sel.selects path false = true ∧ (tree.files sha256).lookup path = some state := by
    intro path state hstate
    rw [hfiles] at hstate
    rcases lookup_walkDir_eq_some hw hstate with hstart | ⟨entry, hmem, hsel, hentry⟩
    · cases hstart
    · exact ⟨hsel, (Tree.lookup_files hmem).trans hentry⟩
  refine ⟨(tree.files sha256).keys.filter fun path => (s.files.lookup path).isNone,
    fun path => ?_, fun path hpath => ?_⟩
  · rw [lookup_snapshotOf]
    cases hstate : s.files.lookup path with
    | some state =>
      obtain ⟨hsel, htree⟩ := hsome path state hstate
      simp [hsel, htree, hstate]
    | none =>
      split
      · next hin =>
        by_contra hne
        have hkey := (mem_keys _ path).mpr (Ne.symm hne)
        exact hin.2 (mem_filter.mpr ⟨hkey, by simp [hstate]⟩)
      · rfl
  · obtain ⟨hkey, hnone⟩ := mem_filter.mp hpath
    rw [Option.isNone_iff_eq_none] at hnone
    refine (lookup_eq_none_iff_hidden hs hempty ?_).mp hnone
    obtain ⟨state, hstate⟩ := Option.ne_none_iff_exists'.mp ((mem_keys _ _).mp hkey)
    rw [Tree.files, lookup_ofKeys] at hstate
    split at hstate
    · next hmem =>
      obtain ⟨⟨rel, entry⟩, hentry, rfl⟩ := mem_map.mp hmem
      have hlook : (tree.files sha256).lookup rel = _ := Tree.lookup_files hentry
      rw [Tree.files, lookup_ofKeys, if_pos hmem, hstate] at hlook
      refine ⟨entry, hentry, ?_⟩
      cases entry <;> simp_all [Entry.state, Entry.isDir]
    · cases hstate

/-! ### The limits of a snapshot -/

variable (policy) in
/-- The files, together at most `total` bytes, are within the limits of the policy. -/
structure Within (files : FileStates) (total : ℕ) : Prop where
  sum_le : (files.entries.map fun e => e.2.bytes).sum ≤ total
  total_le : total ≤ policy.maxBatchBytes
  allowed : ∀ e ∈ files.entries, e.2.Allowed policy

lemma Within.walkDir (h : Within policy w.files w.batchBytes)
    (hw : walkDir sha256 policy sel l w = .ok w') : Within policy w'.files w'.batchBytes := by
  refine walkDir_keeps (P := fun m => Within policy m.files m.batchBytes) hw h fun w rel _ _ _ h hv => ?_
  cases hv with
  | passed | pruned | skipped => exact h
  | recorded state hread =>
    obtain ⟨-, hfits, hallowed⟩ := readEntry_spec hread
    -- what the path had before only makes the sum smaller
    have hsub := kerase_sublist rel w.files.entries
    have hrest := ((hsub.map fun e => e.2.bytes).sum_le_sum fun _ _ => Nat.zero_le _).trans h.sum_le
    refine ⟨?_, hfits, forall_mem_cons.mpr ⟨hallowed, fun e he => h.allowed e (hsub.subset he)⟩⟩
    simp only [AList.entries_insert, map_cons, sum_cons]
    omega

/-- Every snapshot is within the limits. -/
theorem snapshot_limited (hs : takeManifestSnapshot sha256 policy sel tree = .ok s) :
    ∃ total, Within policy s.files total := by
  have hnone : Within policy ∅ 0 := ⟨le_rfl, Nat.zero_le _, by rintro e ⟨⟩⟩
  unfold takeManifestSnapshot takeSelectedSnapshot at hs
  split_ifs at hs
  · exact ⟨0, ok.inj hs ▸ hnone⟩
  split at hs
  · cases hs
  · next hw =>
    cases hs
    exact ⟨_, Within.walkDir (w := .start) hnone hw⟩

/-- A manifest that manages everything. -/
def everything : Selection :=
  ⟨fun _ _ => true, fun _ => true, fun _ => false, false, fun _ => true, nofun⟩

/-- Two files. -/
def twoFiles : Tree := ⟨[("a", .regular [1, 2] 0o600 true), ("b", .regular [1] 0o600 true)], by decide⟩

/-- The first one is too large, and is not in the snapshot. -/
theorem twoFiles_limited : ∃ s, takeManifestSnapshot (fun _ => "h") ⟨1, 10⟩ everything twoFiles = .ok s ∧
    s.files.keys = ["b"] ∧ ∃ total, Within ⟨1, 10⟩ s.files total := by
  have hs : takeManifestSnapshot (fun _ => "h") ⟨1, 10⟩ everything twoFiles = .ok _ := rfl
  exact ⟨_, hs, rfl, snapshot_limited hs⟩

end Paperboat.ConfigSync

import Paperboat.ConfigSync.Recording
import Paperboat.Lib.Transition

/-!
# Rolling a round back

After `beginApplyJournal` files and symlinks at the journaled paths may be created, replaced and
removed, and recovery may be interrupted and started over. In the end `recoverApplyJournal` puts back
what was there if and only if the journal is `Recoverable` (`restores_iff`).

In one direction the paths stay `Ready`. In the other each condition has its own change: a path that
the journal spells differently is not put back, and what is in the way to a path stops recovery before it
comes to the shorter path, since that stands before the longer one in the journal.
-/

namespace Paperboat.ConfigSync.Apply

open List AList JournalEntry Sum Function

open JsonText Paths

/-! ### Changes -/

/-- What a change puts at a path. -/
inductive Leaf where
  | regular (content : List UInt8) (mode : RegularMode)
  | symlink (target : Target)

/-- The node of a leaf. -/
def Leaf.node : Leaf → Node
  | .regular content mode => .regular content mode
  | .symlink target => .symlink target

/-- A path leads through a symlink. -/
def throughSymlink (home : Home) : Route → Route → Bool
  | _, [] => false
  | _, [_] => false
  | above, name :: next :: rest =>
    match home.lookup (above ++ [name]) with
    | some .directory => throughSymlink home (above ++ [name]) (next :: rest)
    | some (.symlink _) => true
    | _ => false

/-- Create or replace a file or symlink, with the directories it needs, or remove it. -/
def putLeaf (home : Home) (r : Route) : Option Leaf → Home
  | none => if home.lookup r = some .directory then home else home.erase r
  | some leaf =>
    match ensurePrivateParent home [] r with
    | (home, false) => home
    | (home, true) => if home.lookup r = some .directory then home else home.insert r leaf.node

/-- A change at a path of the home, or wherever the path leads. -/
def World.change (w : World) (r : Route) (leaf : Option Leaf) : World :=
  if throughSymlink w.home [] r then
    { w with elsewhere := Function.update w.elsewhere r (.ofNode (leaf.map Leaf.node)) }
  else { w with home := putLeaf w.home r leaf }

lemma putLeaf_spec (home : Home) (r : Route) (leaf : Option Leaf) :
    (home.lookup r ≠ some .directory → (putLeaf home r leaf).lookup r ≠ some .directory) ∧
    ∀ r' ≠ r, Spared r home (putLeaf home r leaf) r' := by
  have hway := spared_ensurePrivateParent home [] r
  have hself := lookup_ensurePrivateParent_self home r
  rw [nil_append] at hway
  cases leaf with
  | none =>
    rw [putLeaf]
    split_ifs with hdir
    · exact ⟨fun h => absurd hdir h, fun r' _ => .inl rfl⟩
    refine ⟨fun _ => ?_, fun r' hr' => .inl ?_⟩
    · rw [lookup_erase]
      exact (Option.some_ne_none _).symm
    · exact lookup_erase_ne hr'
  | some leaf =>
    rw [putLeaf]
    generalize ensurePrivateParent home [] r = made at hway hself
    obtain ⟨home₁, _ | _⟩ := made
    · exact ⟨fun h => hself ▸ h, fun r' _ => hway r'⟩
    simp only at hself hway ⊢
    split_ifs with hdir
    · exact ⟨fun h => absurd (hself ▸ hdir) h, fun r' _ => hway r'⟩
    refine ⟨fun _ => ?_, fun r' hr' => ?_⟩
    · rw [lookup_insert]
      cases leaf <;> simp [Leaf.node]
    · rw [Spared, lookup_insert_ne hr']
      exact hway r'

variable {home : Home} {r : Route}

lemma lookup_putLeaf (hr : r ≠ []) (leaf : Option Leaf)
    (hpassable : PassesBetween (Passable home) [] r) (hdir : home.lookup r ≠ some .directory) :
    (putLeaf home r leaf).lookup r = leaf.map Leaf.node ∧
      (leaf ≠ none → PassesBetween (IsDirectory (putLeaf home r leaf)) [] r) := by
  obtain ⟨hok, hdirs⟩ := ensurePrivateParent_ok_iff home [] hr
  have hself := lookup_ensurePrivateParent_self home r
  rcases leaf with _ | _
  · rw [putLeaf, if_neg hdir, lookup_erase]
    exact ⟨rfl, fun h => absurd rfl h⟩
  rw [putLeaf]
  replace hok := hok.mpr hpassable
  generalize ensurePrivateParent home [] r = made at hok hself hdirs
  obtain ⟨home₁, _ | _⟩ := made
  · cases hok
  simp only at hself hdirs ⊢
  rw [if_neg (hself ▸ hdir), lookup_insert]
  exact ⟨rfl, fun _ => (hdirs trivial).mono fun d hd => (lookup_insert_ne hd).trans⟩

variable {above rest : Route} {target : Target}

/-- With a symlink as the first thing on the way that is no directory, a path leads through it. -/
lemma throughSymlink_of_obstacle {a r : Route} (ha : OnTheWay a r)
    (hdirs : PassesBetween (IsDirectory home) [] a) (hnode : home.lookup a = some (.symlink target)) :
    throughSymlink home [] r = true := by
  obtain ⟨passed, name, next, rest, rfl, -, hwalk⟩ :=
    ha.walk (f := throughSymlink home) (fun above name rest hrest hdir => by
      obtain ⟨next, rest, rfl⟩ := exists_cons_of_ne_nil hrest
      rw [throughSymlink, hdir]) hdirs
  rw [hwalk, throughSymlink, hnode]

lemma not_passable_of_throughSymlink (h : throughSymlink home above rest = true) :
    ¬PassesBetween (Passable home) above (above ++ rest) := by
  fun_induction throughSymlink home above rest with
  | case1 | case2 | case5 => cases h
  | case3 above name next rest hdir ih =>
    rw [passesBetween_cons]
    exact fun hpass => ih h hpass.2
  | case4 above name next rest target hnode =>
    rw [passesBetween_cons, Passable, hnode]
    simp

/-! ### Runs -/

/-- A change at one of the paths, or a recovery that is interrupted after some entries. -/
inductive Step (paths : List GoString) where
  | change (path : { p // p ∈ paths }) (leaf : Option Leaf)
  | recover (n : ℕ)

/-- One step. -/
def step (text : List Char) (repositoryID assignmentID : GoString) (maxBytes : ℤ)
    {paths : List GoString} (w : World) : Step paths → Option World
  | .change path leaf => some (w.change (routeOf path.1) leaf)
  | .recover n =>
    some { w with home := (recoverSome n text repositoryID assignmentID maxBytes w.home).1 }

/-- The same content and permission bits, the same target, or nothing. -/
def Stat.Same : Stat → Stat → Prop
  | .missing, .missing => True
  | .found (.regular content mode), .found (.regular content' mode') =>
    content = content' ∧ mode.perm = mode'.perm
  | .found (.symlink target), .found (.symlink target') => target = target'
  | _, _ => False

/-- Whatever changes are made at the paths, and however often recovery is interrupted: in the end it
accepts the journal and puts back what was at every path. -/
def Restores (w : World) (text : List Char) (repositoryID assignmentID : GoString)
    (paths : List GoString) (maxBytes : ℤ) : Prop :=
  ∀ (steps : List (Step paths)) (w' : World),
    run (step text repositoryID assignmentID maxBytes) w steps = some w' →
    ∃ home, recoverApplyJournal text repositoryID assignmentID maxBytes w'.home = (home, true) ∧
      ∀ p ∈ paths, (lstat w (routeOf p)).Same (lstat { w' with home := home } (routeOf p))

/-- What recovery needs: its limit holds the text of the journal, the strings in it are valid, no
symlink is on the way to a path, and no path is on the way to another. -/
structure Recoverable (w : World) (text : List Char) (repositoryID assignmentID : GoString)
    (paths : List GoString) (maxBytes : ℤ) : Prop where
  fits : (byteLength text : ℤ) ≤ (maxBytes + 2 ^ 20).bmod (2 ^ 64)
  ids : Valid repositoryID ∧ Valid assignmentID
  names : ∀ p ∈ paths, Valid p
  targets : ∀ p ∈ paths, ∀ target, lstat w (routeOf p) = .found (.symlink target) → Valid target.1
  direct : ∀ p ∈ paths, ∀ a target, OnTheWay a (routeOf p) →
    w.home.lookup a ≠ some (.symlink target)
  apart : Apart (paths.map routeOf)

/-! ### The journal that is read back -/

lemma bits_spec (m : RegularMode) : m.bits < 2 ^ 32 ∧ hasBit m.bits 27 = false ∧
    isRegular m.bits = true ∧ m.bits % 512 = m.perm := by
  obtain ⟨perm, setuid, setgid, sticky⟩ := m
  have hperm := perm.isLt
  cases setuid <;> cases setgid <;> cases sticky <;>
    simp [RegularMode.bits, isRegular, hasBit] <;> omega

variable {w : World} {e : JournalEntry}

lemma Describes.mode_lt (h : Describes w e) : e.mode < 2 ^ 32 := by
  cases h with
  | absent => exact Nat.two_pow_pos 32
  | symlink => exact (by decide : symlinkBits < 2 ^ 32)
  | regular => exact (bits_spec _).1

/-- The entries as recovery reads them, in the order in which it takes them. -/
def readBack (entries : List JournalEntry) : List JournalEntry :=
  (entries.map JournalEntry.sanitized).reverse

lemma mem_readBack {entries : List JournalEntry} :
    e ∈ readBack entries ↔ ∃ e' ∈ entries, e'.sanitized = e := by
  rw [readBack, mem_reverse, mem_map]

/-- Recovery accepts the text of a journal: it is not too large, and the IDs in it are valid. -/
abbrev Acceptable (text : List Char) (repositoryID assignmentID : GoString) (maxBytes : ℤ) : Prop :=
  (byteLength text : ℤ) ≤ (maxBytes + 2 ^ 20).bmod (2 ^ 64) ∧ Valid repositoryID ∧ Valid assignmentID

lemma readJournal_encode (j : Journal) (hformat : j.format = journalFormat)
    (hmode : ∀ e ∈ j.entries, e.mode < 2 ^ 32) (maxBytes : ℤ) :
    readJournal j.encode j.repositoryID j.assignmentID maxBytes =
      if Acceptable j.encode j.repositoryID j.assignmentID maxBytes then some j.sanitized else none := by
  have hvalid : ofText (sanitize j.format) = journalFormat := by
    rw [hformat, ofText_sanitize_eq_iff]
    exact valid_ofText _
  rw [readJournal, decode_encode j hmode]
  by_cases hfits : (byteLength j.encode : ℤ) ≤ (maxBytes + 2 ^ 20).bmod (2 ^ 64)
  · rw [if_neg (not_lt.mpr hfits)]
    refine if_congr ?_ rfl rfl
    simp only [Acceptable, Journal.sanitized, hvalid, ofText_sanitize_eq_iff, hfits, true_and]
  · rw [if_pos (not_le.mp hfits), if_neg fun h => hfits h.1]

lemma routeOf_sanitize (p : GoString) :
    routeOf (ofText (sanitize p)) = (routeOf p).map fun part => ofText (sanitize part) := by
  have hslash : ∀ r, (inl (rune r) : Char ⊕ UInt8) = inl '/' ↔ r = inl '/' := by
    rintro (c | b) <;> simp [rune]
  simp only [routeOf, ofText_sanitize, splitOn_map hslash]

lemma routeOf_injective : Injective routeOf := by
  intro p q h
  have hjoin : ∀ p : GoString, [inl '/'].intercalate (routeOf p) = p := fun p =>
    intercalate_splitOn _
  rw [← hjoin p, ← hjoin q, h]

lemma valid_iff_parts (p : GoString) : Valid p ↔ ∀ part ∈ routeOf p, Valid part := by
  rw [← ofText_sanitize_eq_iff, ← routeOf_injective.eq_iff, routeOf_sanitize]
  simp only [← ofText_sanitize_eq_iff]
  constructor
  · intro h part hpart
    obtain ⟨n, hn, rfl⟩ := getElem_of_mem hpart
    have hnth := congrArg (fun l : Route => l[n]?) h
    simpa [hn] using hnth
  · intro h
    exact (map_congr_left h).trans (map_id _)

/-- What is on the way to a path stands before it in the order of `sort.Strings`. -/
lemma not_pathLE_of_onTheWay {p q : GoString} (h : OnTheWay (routeOf p) (routeOf q)) : ¬pathLE q p := by
  obtain ⟨-, ⟨rest, hrest⟩, hne⟩ := h
  have hnil : rest ≠ [] := by
    rintro rfl
    exact hne (by rw [← hrest, append_nil])
  have hq : q = p ++ inl '/' :: [inl '/'].intercalate rest := by
    calc q = [inl '/'].intercalate (routeOf q) := (intercalate_splitOn _).symm
      _ = [inl '/'].intercalate (routeOf p) ++ inl '/' :: [inl '/'].intercalate rest := by
        rw [← hrest, intercalate_append _ (routeOf_ne_nil p) hnil]
      _ = p ++ inl '/' :: [inl '/'].intercalate rest := by rw [routeOf, intercalate_splitOn]
  have hlt : ∀ (a b : List ℕ) (n : ℕ), a < a ++ n :: b := by
    intro a b n
    induction a with
    | nil => exact List.Lex.nil
    | cons x a ih => exact List.Lex.cons ih
  have hslash : goBytes q = goBytes p ++ 47 :: goBytes ([inl '/'].intercalate rest) := by
    rw [hq, goBytes, flatMap_append, flatMap_cons]
    rfl
  rw [pathLE, not_le, hslash]
  exact hlt _ _ _

/-! ### What is put back -/

/-- The target as the journal spells it. -/
def Target.sanitized (target : Target) : Target :=
  ⟨ofText (sanitize target.1), by simpa [ofText, sanitize] using target.2⟩

/-- A file, a symlink or nothing. -/
def Stat.IsLeaf : Stat → Prop
  | .missing | .found (.symlink _) | .found (.regular _ _) => True
  | _ => False

/-- What recovery puts back. -/
def Stat.recorded : Stat → Option Node
  | .found (.symlink target) => some (.symlink (Target.sanitized target))
  | .found (.regular content mode) => some (.regular content (.ofPerm mode.perm))
  | _ => none

/-- Something else than what is there. -/
def Stat.opposite : Stat → Option Leaf
  | .missing => some (.regular [] (.ofPerm 0))
  | _ => none

variable {s : Stat}

/-- What recovery puts back is what was there, but for targets that are not valid. -/
lemma Stat.same_recorded_iff (hs : s.IsLeaf) :
    s.Same (.ofNode s.recorded) ↔ ∀ target, s = .found (.symlink target) → Valid target.1 := by
  unfold Stat.IsLeaf at hs
  split at hs
  · exact iff_of_true trivial fun target h => nomatch h
  · next target =>
    have hsame : target = Target.sanitized target ↔ Valid target.1 := by
      rw [Subtype.ext_iff, eq_comm]
      exact ofText_sanitize_eq_iff _
    refine hsame.trans ⟨fun h target' heq => ?_, fun h => h target rfl⟩
    cases heq
    exact h
  · exact iff_of_true ⟨rfl, rfl⟩ fun target h => nomatch h
  · exact hs.elim

lemma Stat.not_same_opposite (hs : s.IsLeaf) : ¬s.Same (.ofNode (s.opposite.map Leaf.node)) := by
  unfold Stat.IsLeaf at hs
  split at hs
  · exact id
  · exact id
  · exact id
  · exact hs.elim

lemma Describes.isLeaf (h : Describes w e) : (lstat w (routeOf e.path)).IsLeaf := by
  cases h with
  | absent safe stat | symlink safe stat | regular safe stat =>
    rw [stat]
    trivial

/-- Spelling a target with characters only does not change where it begins. -/
lemma isAbs_sanitize (target : GoString) : isAbs (ofText (sanitize target)) = isAbs target := by
  cases target with
  | nil => rfl
  | cons r => cases r <;> simp [isAbs, ofText, sanitize, rune]

lemma node_symlink (path : GoString) (hrelative : isAbs target.1 = false) :
    (sanitized ⟨path, true, symlinkBits, target.1, []⟩).node =
      some (.symlink (Target.sanitized target)) := by
  have hbit : hasBit symlinkBits 27 = true := by decide
  have hne : ofText (sanitize target.1) ≠ [] := (Target.sanitized target).2
  simp only [node, sanitized, hbit, if_true, dif_pos hne, isAbs_sanitize,
    hrelative, Bool.false_eq_true, if_false]
  rfl

lemma node_regular (path : GoString) (content : List UInt8) (mode : RegularMode) :
    (sanitized ⟨path, true, mode.bits, [], content⟩).node =
      some (.regular content (.ofPerm mode.perm)) := by
  obtain ⟨-, hsymlink, hregular, hperm⟩ := bits_spec mode
  simp only [node, sanitized, hsymlink, hregular, hperm, if_true, Bool.false_eq_true, if_false]

lemma Describes.restored_eq (h : Describes w e) :
    e.sanitized.restored = (lstat w (routeOf e.path)).recorded := by
  cases h with
  | absent safe stat =>
    rw [stat]
    rfl
  | symlink safe stat relative =>
    rw [stat]
    exact node_symlink _ relative
  | regular safe stat =>
    rw [stat]
    exact node_regular _ _ _

lemma Describes.accepted (h : Describes w e) (hpath : Valid e.path) : e.sanitized.Accepted := by
  have hsame : e.sanitized.path = e.path := (ofText_sanitize_eq_iff e.path).mpr hpath
  refine ⟨?_, fun hexisted => ?_⟩
  · rw [hsame]
    cases h <;> assumption
  · cases h with
    | absent => cases hexisted
    | symlink safe stat relative =>
      rw [node_symlink _ relative]
      exact Option.some_ne_none _
    | regular =>
      rw [node_regular]
      exact Option.some_ne_none _

/-- A recorded path is reached through directories, or a symlink is the first thing on the way that is
none. -/
lemma reached_or_symlink (hhome : Consistent w.home) (hr : r ≠ []) (hleaf : (lstat w r).IsLeaf) :
    (PassesBetween (Passable w.home) [] r ∧ lstat w r = .ofNode (w.home.lookup r)) ∨
      ∃ a target, OnTheWay a r ∧ PassesBetween (IsDirectory w.home) [] a ∧
        w.home.lookup a = some (.symlink target) := by
  rcases passesBetween_or_first (IsDirectory w.home) [] r with hdirs | ⟨a, -, h₂, h₃, h₄, hdirs, hnot⟩
  · exact .inl ⟨hdirs.mono fun _ _ => .inr, lstat_of_parents hr hdirs⟩
  have ha : OnTheWay a r := ⟨h₂, h₃, h₄⟩
  have hstat := lstat_of_obstacle ha hdirs hnot
  rw [hstat] at hleaf
  rcases hnode : w.home.lookup a with _ | node
  · obtain ⟨hpassable, hmissing⟩ := hhome.behind_missing ha hdirs hnode
    refine .inl ⟨hpassable, ?_⟩
    rw [hstat, hnode, hmissing]
    rfl
  rw [hnode] at hleaf
  cases node with
  | directory => exact absurd hnode hnot
  | special | regular => exact hleaf.elim
  | symlink target => exact .inr ⟨a, target, ha, hdirs, hnode⟩

lemma ne_directory_of_isLeaf (hleaf : (lstat w r).IsLeaf)
    (hstat : lstat w r = .ofNode (w.home.lookup r)) : w.home.lookup r ≠ some .directory := by
  intro hdir
  rw [hstat, hdir] at hleaf
  exact hleaf

/-! ### The journal is enough -/

section
variable {w : World} {paths : List GoString} {entries : List JournalEntry} {text : List Char}
  {repositoryID assignmentID remoteRevision : GoString} {maxBytes : ℤ} {home home' : Home} {p : GoString}
  (hrecords : Records w paths entries)

include hrecords

lemma Records.ready (hhome : Consistent w.home)
    (hdirect : ∀ p ∈ paths, ∀ a target, OnTheWay a (routeOf p) →
      w.home.lookup a ≠ some (.symlink target)) : Ready (paths.map routeOf) w.home := by
  intro r hr
  obtain ⟨p, hp, rfl⟩ := mem_map.mp hr
  obtain ⟨e, he, rfl⟩ := (hrecords.covers p).mp hp
  have hleaf := (hrecords.describes e he).isLeaf
  rcases reached_or_symlink hhome (routeOf_ne_nil _) hleaf with ⟨hpassable, hstat⟩ | ⟨a, t, ha, -, hnode⟩
  · exact ⟨hpassable, ne_directory_of_isLeaf hleaf hstat⟩
  · exact absurd hnode (hdirect _ hp a t ha)

/-! With valid paths: -/

section
variable (hnames : ∀ p ∈ paths, Valid p)

include hnames

lemma Records.sanitized_path {e : JournalEntry} (he : e ∈ entries) : e.sanitized.path = e.path :=
  (ofText_sanitize_eq_iff _).mpr (hnames _ ((hrecords.covers _).mpr ⟨e, he, rfl⟩))

/-- With paths that are apart, the loop leaves at every path what the journal recorded. -/
lemma Records.lstat_restored (hapart : Apart (paths.map routeOf))
    (h : restoreAll home (readBack entries) = (home', true)) {w' : World} (hw' : w'.home = home')
    (hp : p ∈ paths) :
    lstat w' (routeOf p) = .ofNode (lstat w (routeOf p)).recorded := by
  have hpath := fun e => hrecords.sanitized_path hnames (e := e)
  have hroute : ∀ e ∈ entries, routeOf e.path ∈ paths.map routeOf := fun e he =>
    mem_map_of_mem ((hrecords.covers _).mpr ⟨e, he, rfl⟩)
  obtain ⟨e, he, rfl⟩ := (hrecords.covers p).mp hp
  have hread : e.sanitized ∈ readBack entries := mem_readBack.mpr ⟨e, he, rfl⟩
  have hparents := parents_restoreAll h hread
  rw [hpath e he, ← hw'] at hparents
  rw [lstat_of_parents (routeOf_ne_nil _) hparents, hw']
  refine congrArg _ (lookup_restoreAll h ?_ (.inr ?_) (.inr ⟨e.sanitized, hread, by rw [hpath e he]⟩))
  · intro e₁ he₁ hsame
    obtain ⟨e', he', rfl⟩ := mem_readBack.mp he₁
    rw [hpath e' he'] at hsame
    rw [(hrecords.describes e' he').restored_eq, hsame]
  · intro e₁ he₁ hon
    obtain ⟨e', he', rfl⟩ := mem_readBack.mp he₁
    rw [hpath e' he'] at hon ⊢
    exact hapart _ (hroute e he) _ (hroute e' he') hon

/-- Recovery accepts every entry, and the entries are for the paths. -/
lemma Records.readBack_accepted :
    ∀ e ∈ readBack entries, e.Accepted ∧ routeOf e.path ∈ paths.map routeOf := by
  intro e he
  obtain ⟨e', he', rfl⟩ := mem_readBack.mp he
  have hmem := (hrecords.covers _).mpr ⟨e', he', rfl⟩
  refine ⟨(hrecords.describes e' he').accepted (hnames _ hmem), ?_⟩
  rw [hrecords.sanitized_path hnames he']
  exact mem_map_of_mem hmem

/-- What is on the way to a path when the loop starts is a directory. -/
lemma Records.directory_on_the_way {a : Route}
    (h : restoreAll home (readBack entries) = (home', true)) (hp : p ∈ paths)
    (ha : OnTheWay a (routeOf p)) {node : Node} (hnode : home.lookup a = some node) :
    node = .directory := by
  have hpath := fun e => hrecords.sanitized_path hnames (e := e)
  obtain ⟨e, he, rfl⟩ := (hrecords.covers p).mp hp
  obtain ⟨before, after, rfl⟩ := append_of_mem he
  have hsplit : readBack (before ++ e :: after) =
      readBack after ++ e.sanitized :: readBack before := by
    simp [readBack]
  rw [hsplit] at h
  rw [← hpath e he] at ha
  refine directory_of_restoreAll h (fun e₁ he₁ heq => ?_) hnode ha
  -- an entry that is restored earlier stands later in the journal, so its path is not shorter
  obtain ⟨e', he', rfl⟩ := mem_readBack.mp he₁
  have hmem : e' ∈ before ++ e :: after := mem_append_right _ (mem_cons_of_mem _ he')
  have hle : pathLE e.path e'.path :=
    rel_of_pairwise_cons (pairwise_append.mp hrecords.sorted).2.1 he'
  rw [← heq, hpath e' hmem, hpath e he] at ha
  exact not_pathLE_of_onTheWay ha hle

end

section
variable
  (htext : text = Journal.encode ⟨journalFormat, repositoryID, assignmentID, remoteRevision, entries⟩)

include htext

lemma readJournal_eq : readJournal text repositoryID assignmentID maxBytes =
      if Acceptable text repositoryID assignmentID maxBytes then
        some (Journal.sanitized ⟨journalFormat, repositoryID, assignmentID, remoteRevision, entries⟩)
      else none := by
  rw [htext]
  exact readJournal_encode ⟨_, _, _, _, entries⟩ rfl (fun e he => (hrecords.describes e he).mode_lt) _

/-- Recovery of a journal that it accepts is the loop over what it reads. -/
lemma recover_eq (home : Home) : recoverApplyJournal text repositoryID assignmentID maxBytes home =
      if Acceptable text repositoryID assignmentID maxBytes then restoreAll home (readBack entries)
      else (home, false) := by
  rw [recoverApplyJournal, readJournal_eq hrecords htext]
  split_ifs <;> rfl

/-- An interrupted recovery of a journal that it accepts is a part of the loop. -/
lemma recoverSome_eq (hok : Acceptable text repositoryID assignmentID maxBytes) (n : ℕ) (home : Home) :
    recoverSome n text repositoryID assignmentID maxBytes home =
      restoreAll home ((readBack entries).take n) := by
  rw [recoverSome, readJournal_eq hrecords htext, if_pos hok]
  rfl

variable (hcond : Recoverable w text repositoryID assignmentID paths maxBytes)

include hcond

lemma keeps_ready : Keeps (fun w₁ (s : Step paths) => step text repositoryID assignmentID maxBytes w₁ s)
      fun w₁ => Ready (paths.map routeOf) w₁.home := by
  rintro w₁ (⟨⟨p, hp⟩, leaf⟩ | n) w₂ hready hstep
  · cases hstep
    simp only [World.change]
    split_ifs
    · exact hready
    · have hr : routeOf p ∈ paths.map routeOf := mem_map_of_mem hp
      obtain ⟨hself, hothers⟩ := putLeaf_spec w₁.home (routeOf p) leaf
      exact hready.set hcond.apart hr (hself (hready _ hr).2) hothers
  · cases hstep
    have hentry := hrecords.readBack_accepted hcond.names
    obtain ⟨home', hok, hready'⟩ := restoreAll_ok hcond.apart hready
      (fun e he => (hentry e (mem_of_mem_take he)).1)
      fun e he => (hentry e (mem_of_mem_take (i := n) he)).2
    simp only [recoverSome_eq hrecords htext ⟨hcond.fits, hcond.ids⟩, hok]
    exact hready'

lemma Recoverable.restores (hhome : Consistent w.home) :
    Restores w text repositoryID assignmentID paths maxBytes := by
  intro steps w' hrun
  have hready : Ready (paths.map routeOf) w'.home :=
    (keeps_ready hrecords htext hcond).run (hrecords.ready hhome hcond.direct) hrun
  have hentry := hrecords.readBack_accepted hcond.names
  obtain ⟨home, hok, -⟩ := restoreAll_ok hcond.apart hready (fun e he => (hentry e he).1)
    fun e he => (hentry e he).2
  refine ⟨home, ?_, fun p hp => ?_⟩
  · rw [recover_eq hrecords htext, if_pos ⟨hcond.fits, hcond.ids⟩, hok]
  · obtain ⟨e, he, rfl⟩ := (hrecords.covers p).mp hp
    have hback : lstat { w' with home := home } (routeOf e.path) = _ :=
      hrecords.lstat_restored hcond.names hcond.apart hok rfl hp
    rw [hback]
    exact (Stat.same_recorded_iff (hrecords.describes e he).isLeaf).mpr (hcond.targets _ hp)

end

/-! ### The journal is needed -/

variable {a r : Route}

omit hrecords in
/-- A change at a path that is reached through directories is a change of the home. -/
lemma change_of_passable (hpassable : PassesBetween (Passable w.home) [] r) (leaf : Option Leaf) :
    w.change r leaf = { w with home := putLeaf w.home r leaf } :=
  if_neg fun hthrough => not_passable_of_throughSymlink hthrough hpassable

omit hrecords in
/-- Putting something else at a path leaves directories on the way to it. -/
lemma parents_opposite (hhome : Consistent w.home) (hr : r ≠ [])
    (hpassable : PassesBetween (Passable w.home) [] r) (hdir : w.home.lookup r ≠ some .directory)
    (hstat : lstat w r = .ofNode (w.home.lookup r)) :
    PassesBetween (IsDirectory (putLeaf w.home r (lstat w r).opposite)) [] r := by
  rcases hnode : w.home.lookup r with _ | node
  · refine (lookup_putLeaf hr _ hpassable hdir).2 ?_
    rw [hstat, hnode]
    exact Option.some_ne_none _
  exact (hhome r node hnode).mono fun d hd => ((putLeaf_spec w.home r _).2 d hd).directory

/-- Entries for paths with fewer parts, which are valid, leave a symlink at the place of a symlink. -/
lemma Records.symlink_restored {target : Target}
    (hshort : ∀ p ∈ paths, (routeOf p).length = a.length → Valid p)
    (hdirs : PassesBetween (IsDirectory w.home) [] a) (ha : a ≠ [])
    (hnode : w.home.lookup a = some (.symlink target))
    (h : restoreAll w.home (readBack entries) = (home', true)) :
    ∃ target', home'.lookup a = some (.symlink target') := by
  by_cases hentry : ∃ e ∈ readBack entries, routeOf e.path = a
  · refine ⟨Target.sanitized target,
      lookup_restoreAll h (fun e₁ he₁ heq => ?_) (.inl (Option.some_ne_none _)) (.inr hentry)⟩
    obtain ⟨e, he, rfl⟩ := mem_readBack.mp he₁
    have hlength : (routeOf e.path).length = a.length := by
      rw [← heq, sanitized, routeOf_sanitize, length_map]
    have hvalid := hshort _ ((hrecords.covers _).mpr ⟨e, he, rfl⟩) hlength
    have hpath : e.sanitized.path = e.path := (ofText_sanitize_eq_iff _).mpr hvalid
    rw [hpath] at heq
    rw [(hrecords.describes e he).restored_eq, heq, lstat_of_parents ha hdirs, hnode]
    rfl
  · exact ⟨target, lookup_restoreAll h (fun e₁ he₁ heq => absurd ⟨e₁, he₁, heq⟩ hentry)
      (.inl (Option.some_ne_none _)) (.inl hnode)⟩

lemma Restores.valid (hhome : Consistent w.home)
    (hrecover : ∀ home, recoverApplyJournal text repositoryID assignmentID maxBytes home =
      restoreAll home (readBack entries))
    (h : Restores w text repositoryID assignmentID paths maxBytes) : ∀ p ∈ paths, Valid p := by
  -- by induction on the number of parts, so that paths on the way are valid
  suffices hlength : ∀ n, ∀ p ∈ paths, (routeOf p).length = n → Valid p from
    fun p hp => hlength _ p hp rfl
  intro n
  induction n using Nat.strong_induction_on with
  | _ n ih =>
  intro p hp hn
  by_contra hinvalid
  obtain ⟨e, he, rfl⟩ := (hrecords.covers p).mp hp
  have hleaf := (hrecords.describes e he).isLeaf
  have hr := routeOf_ne_nil e.path
  -- the journal spells every path with characters only
  have hnot : ∀ e' ∈ readBack entries, ¬routeOf e.path <+: routeOf e'.path := by
    intro e₁ he₁ hpre
    obtain ⟨e', -, rfl⟩ := mem_readBack.mp he₁
    refine hinvalid ((valid_iff_parts _).mpr fun part hpart => ?_)
    exact (valid_iff_parts _).mp (valid_ofText _) part (hpre.subset hpart)
  obtain ⟨home, hok, hsame⟩ := h [.change ⟨e.path, hp⟩ (lstat w (routeOf e.path)).opposite] _ rfl
  rw [hrecover] at hok
  have hback := hsame e.path hp
  refine Stat.not_same_opposite hleaf ?_
  rcases reached_or_symlink hhome hr hleaf with ⟨hpassable, hstat⟩ | ⟨a, target, ha, hdirs, hnode⟩
  · -- recovery leaves the new node alone
    have hdir := ne_directory_of_isLeaf hleaf hstat
    rw [change_of_passable hpassable] at hok hback
    have hlookup := lookup_restoreAll hok (fun e' he' heq => absurd (heq ▸ prefix_rfl) (hnot e' he'))
      (.inr fun e' he' hpre => absurd hpre (hnot e' he')) (.inl (lookup_putLeaf hr _ hpassable hdir).1)
    have hparents := parents_opposite hhome hr hpassable hdir hstat
    have hnew : lstat { w with home := home } (routeOf e.path) = .ofNode (home.lookup (routeOf e.path)) :=
      lstat_of_parents hr (hparents.mono fun _ _ => isDirectory_restoreAll hok)
    rw [hlookup] at hnew
    rw [hnew] at hback
    exact hback
  · -- recovery leaves a symlink on the way, so that the path still leads elsewhere
    have hthrough := throughSymlink_of_obstacle ha hdirs hnode
    rw [World.change, if_pos hthrough] at hok hback
    have hlt : a.length < n := by
      rw [← hn]
      exact lt_of_le_of_ne ha.2.1.length_le fun heq => ha.2.2 (ha.2.1.eq_of_length heq)
    obtain ⟨target', hstill⟩ := hrecords.symlink_restored (fun p hp hlen => ih _ hlt p hp hlen) hdirs
      ha.1 hnode hok
    have hstat := lstat_of_obstacle (w := ⟨home, update w.elsewhere (routeOf e.path)
      (.ofNode ((lstat w (routeOf e.path)).opposite.map Leaf.node))⟩) ha
      (hdirs.mono fun _ _ => isDirectory_restoreAll hok) (by rw [IsDirectory, hstill]; simp)
    rw [hstill] at hstat
    simp only [World.behind, update_self] at hstat
    rw [hstat] at hback
    exact hback

lemma Restores.recoverable (hhome : Consistent w.home)
    (htext : text = Journal.encode ⟨journalFormat, repositoryID, assignmentID, remoteRevision, entries⟩)
    (h : Restores w text repositoryID assignmentID paths maxBytes) :
    Recoverable w text repositoryID assignmentID paths maxBytes := by
  obtain ⟨home, hok, hsame⟩ := h [] w rfl
  have haccepted : Acceptable text repositoryID assignmentID maxBytes := by
    by_contra hnot
    rw [recover_eq hrecords htext, if_neg hnot] at hok
    cases hok
  have hrecover : ∀ home, recoverApplyJournal text repositoryID assignmentID maxBytes home =
      restoreAll home (readBack entries) := fun home => by
    rw [recover_eq hrecords htext, if_pos haccepted]
  have hnames := h.valid hrecords hhome hrecover
  rw [hrecover] at hok
  have hdirect : ∀ p ∈ paths, ∀ a target, OnTheWay a (routeOf p) →
      w.home.lookup a ≠ some (.symlink target) := by
    intro p hp a target ha hnode
    cases hrecords.directory_on_the_way hnames hok hp ha hnode
  have hready := hrecords.ready hhome hdirect
  have hapart : Apart (paths.map routeOf) := by
    intro r hr r' hr' hpre
    by_contra hne
    obtain ⟨p, hp, rfl⟩ := mem_map.mp hr
    obtain ⟨q, hq, rfl⟩ := mem_map.mp hr'
    have hon : OnTheWay (routeOf p) (routeOf q) := ⟨routeOf_ne_nil p, hpre, hne⟩
    -- a file at the shorter path stops recovery at the longer one
    obtain ⟨home₁, hok₁, -⟩ := h [.change ⟨p, hp⟩ (some (.regular [] (.ofPerm 0)))] _ rfl
    rw [hrecover, change_of_passable (hready _ hr).1] at hok₁
    have hfile := (lookup_putLeaf (routeOf_ne_nil p) (some (.regular [] (.ofPerm 0))) (hready _ hr).1
      (hready _ hr).2).1
    cases hrecords.directory_on_the_way hnames hok₁ hq hon hfile
  refine ⟨haccepted.1, haccepted.2, hnames, fun p hp => ?_, hdirect, hapart⟩
  obtain ⟨e, he, rfl⟩ := (hrecords.covers p).mp hp
  have hback := hsame e.path hp
  have hrestored : lstat { w with home := home } (routeOf e.path) = _ :=
    hrecords.lstat_restored hnames hapart hok rfl hp
  rw [hrestored] at hback
  exact (Stat.same_recorded_iff (hrecords.describes e he).isLeaf).mp hback

end

/-- A journal restores what was there if and only if it is recoverable. -/
theorem restores_iff {w : World} {repositoryID assignmentID remoteRevision : GoString}
    {paths : List GoString} {maxBytes : ℤ} {text : List Char} (hhome : Consistent w.home)
    (hbegin : beginApplyJournal w repositoryID assignmentID remoteRevision paths maxBytes = .ok text) :
    Restores w text repositoryID assignmentID paths maxBytes ↔
      Recoverable w text repositoryID assignmentID paths maxBytes := by
  obtain ⟨entries, hrecords, htext⟩ := records_of_begin hbegin
  exact ⟨fun h => h.recoverable hrecords hhome htext, fun h => h.restores hrecords htext hhome⟩

/-! ### One file -/

/-- The path of the file. -/
def filePath : GoString := [.inl 'f']

/-- A home with one file. -/
def fileHome (content : List UInt8) : World where
  home := AList.insert (routeOf filePath) (.regular content (.ofPerm 0o644)) ∅
  elsewhere := fun _ => .missing

/-- The entry of the file. -/
def fileEntry (content : List UInt8) : JournalEntry :=
  ⟨filePath, true, RegularMode.bits (.ofPerm 0o644), [], content⟩

/-- The journal of the file. -/
def fileJournal (content : List UInt8) : List Char :=
  Journal.encode ⟨journalFormat, filePath, filePath, filePath, [fileEntry content]⟩

lemma begin_fileHome {content : List UInt8} {maxBytes : ℤ} (hpos : 0 < maxBytes)
    (hsize : (content.length : ℤ) ≤ maxBytes) :
    beginApplyJournal (fileHome content) filePath filePath filePath [filePath] maxBytes =
      .ok (fileJournal content) := by
  have hsafe : safeRelativeStatusPath filePath = true := by decide +kernel
  have hstat : lstat (fileHome content) (routeOf filePath) = .found (.regular content (.ofPerm 0o644)) := by
    rw [lstat_of_parents (routeOf_ne_nil _) (passesBetween_entry _ [] filePath), fileHome,
      lookup_insert]
    rfl
  have hentry : journalEntry (fileHome content) maxBytes 0 filePath = .ok (fileEntry content) := by
    rw [journalEntry, hsafe, if_neg Bool.noConfusion, hstat]
    exact if_neg (by simpa using hsize)
  have hpaths : deduplicatePaths ([filePath].insertionSort pathLE) = [filePath] := rfl
  have hids : ¬(filePath = [] ∨ filePath = [] ∨ filePath = [] ∨ maxBytes ≤ 0) := by
    simp [filePath, hpos]
  rw [beginApplyJournal, if_neg hids, hpaths, journalEntries, hentry]
  rfl

/-- A file of five bytes is put back with a limit of five bytes. -/
theorem fiveBytes_restored :
    beginApplyJournal (fileHome [1, 2, 3, 4, 5]) filePath filePath filePath [filePath] 5 =
        .ok (fileJournal [1, 2, 3, 4, 5]) ∧
      Restores (fileHome [1, 2, 3, 4, 5]) (fileJournal [1, 2, 3, 4, 5]) filePath filePath [filePath] 5 := by
  have hbegin : beginApplyJournal (fileHome [1, 2, 3, 4, 5]) filePath filePath filePath [filePath] 5 =
      .ok (fileJournal [1, 2, 3, 4, 5]) := begin_fileHome (by decide) (by decide)
  refine ⟨hbegin, (restores_iff ?_ hbegin).mpr ?_⟩
  · refine FinMap.forall_insert ?_ nofun
    exact passesBetween_entry _ [] filePath
  have hnothing : ∀ a, ¬OnTheWay a (routeOf filePath) := fun a ha =>
    passesBetween_iff.mp (passesBetween_entry (fun _ => False) [] filePath) a ha
  refine ⟨by decide +kernel, by decide, by decide, ?_, ?_, ?_⟩
  · intro p hp target hstat
    cases mem_singleton.mp hp
    rw [lstat_of_parents (routeOf_ne_nil _) (passesBetween_entry _ [] filePath), fileHome,
      lookup_insert] at hstat
    cases hstat
  · intro p hp a target ha
    cases mem_singleton.mp hp
    exact absurd ha (hnothing a)
  · intro r hr r' hr' _
    rw [mem_singleton.mp hr, mem_singleton.mp hr']

/-- The text of a journal is at least as long as the content of an entry in base64. -/
lemma length_base64_le_encode {j : Journal} (he : e ∈ j.entries) (hcontent : e.content ≠ []) :
    (base64 e.content).length ≤ byteLength j.encode := by
  have hquote : ∀ t : List Char, quoteString (ofText t) = quote t := by
    intro t
    simp [quoteString, ofText, quote, flatMap_map, quoteRune]
  have hmember : ∀ {α : Type} (write : α → List Char) (m : List Char × α) (members : List (List Char × α)),
      m ∈ members → byteLength (write m.2) ≤ byteLength (writeObject write members) := by
    intro α write m members hm
    have hlist := byteLength_le_writeList (writeMember write) hm
    simp only [writeMember, writeObject, byteLength_append, byteLength_cons] at hlist ⊢
    omega
  calc (base64 e.content).length
      ≤ byteLength (quote (base64 e.content)) := length_le_byteLength_quote _
    _ = byteLength (Scalar.write (.str (ofText (base64 e.content)))) := by rw [Scalar.write, hquote]
    _ ≤ byteLength (writeObject Scalar.write e.record) :=
        hmember Scalar.write (contentKey, .str (ofText (base64 e.content))) _
          (by simp [record, hcontent])
    _ ≤ byteLength (writeValue (.inr (j.entries.map record))) := by
        have hlist := byteLength_le_writeList (writeObject Scalar.write)
          (mem_map_of_mem (f := record) he)
        simp only [writeValue, byteLength_append, byteLength_cons]
        omega
    _ ≤ byteLength (writeObject writeValue j.document) :=
        hmember writeValue (entriesKey, .inr (j.entries.map record)) _ (by simp [Journal.document])
    _ ≤ byteLength j.encode := by
        rw [Journal.encode, byteLength_append]
        exact Nat.le_add_right _ _

/-- A file of four mebibytes is journaled with a limit of four mebibytes, and recovery refuses the
journal. -/
theorem largeFile_not_restored :
    beginApplyJournal (fileHome (List.replicate 4194304 0)) filePath filePath filePath [filePath]
        4194304 = .ok (fileJournal (List.replicate 4194304 0)) ∧
      recoverApplyJournal (fileJournal (List.replicate 4194304 0)) filePath filePath 4194304
        (fileHome (List.replicate 4194304 0)).home = ((fileHome (List.replicate 4194304 0)).home, false) ∧
      ¬Restores (fileHome (List.replicate 4194304 0)) (fileJournal (List.replicate 4194304 0)) filePath
        filePath [filePath] 4194304 := by
  have hlength : (List.replicate 4194304 (0 : UInt8)).length = 4194304 := length_replicate
  generalize List.replicate 4194304 (0 : UInt8) = content at hlength ⊢
  have hbegin : beginApplyJournal (fileHome content) filePath filePath filePath [filePath] 4194304 =
      .ok (fileJournal content) := begin_fileHome (by decide) (by rw [hlength]; decide)
  have hne : content ≠ [] := by
    rintro rfl
    cases hlength
  have hlarge : (base64 content).length ≤ byteLength (fileJournal content) :=
    length_base64_le_encode (j := ⟨journalFormat, filePath, filePath, filePath, [fileEntry content]⟩)
      (e := fileEntry content) mem_cons_self hne
  have hlimit : ((4194304 : ℤ) + 2 ^ 20).bmod (2 ^ 64) = 5242880 := by decide
  rw [length_base64, hlength] at hlarge
  have hrefused : recoverApplyJournal (fileJournal content) filePath filePath 4194304
      (fileHome content).home = ((fileHome content).home, false) := by
    rw [recoverApplyJournal, readJournal, if_pos (by rw [hlimit]; omega)]
  refine ⟨hbegin, hrefused, fun h => ?_⟩
  obtain ⟨home, hok, -⟩ := h [] _ rfl
  rw [hrefused] at hok
  cases hok

end Paperboat.ConfigSync.Apply

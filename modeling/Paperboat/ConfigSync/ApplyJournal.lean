import Paperboat.ConfigSync.Manifest
import Paperboat.Lib.JsonRead

/-!
# The apply journal

The model of `internal/configsync/apply_journal.go`. Before a round changes files of the home it
writes down what is there; recovery puts it back. The home is a map from routes, the parts of a path,
to what is there. A path that leads through a symlink ends somewhere else, and what is there is a part
of the state of its own.
-/

namespace Paperboat.ConfigSync.Apply

open JsonText

/-! ### Files -/

/-- The mode of a regular file: the permission bits and three further ones. -/
structure RegularMode where
  perm : Fin 512
  setuid : Bool
  setgid : Bool
  sticky : Bool
  deriving DecidableEq

/-- The number of a mode, as `os.FileMode` has it. -/
def RegularMode.bits (m : RegularMode) : ℕ :=
  m.perm + 2 ^ 23 * m.setuid.toNat + 2 ^ 22 * m.setgid.toNat + 2 ^ 20 * m.sticky.toNat

/-- The mode with these permission bits only. -/
def RegularMode.ofPerm (perm : Fin 512) : RegularMode := ⟨perm, false, false, false⟩

/-- The mode of a symlink: `os.ModeSymlink` and all permission bits. -/
def symlinkBits : ℕ := 2 ^ 27 + 511

/-- A bit of a mode. -/
def hasBit (bits i : ℕ) : Bool := bits / 2 ^ i % 2 = 1

/-- `Mode.IsRegular`: none of the bits of `os.ModeType`. -/
def isRegular (bits : ℕ) : Bool := [19, 21, 24, 25, 26, 27, 31].all fun i => !hasBit bits i

/-- The target of a symlink, which is never empty. -/
abbrev Target := { target : GoString // target ≠ [] }

/-- What can be at a path. -/
inductive Node where
  | directory
  | special
  | regular (content : List UInt8) (mode : RegularMode)
  | symlink (target : Target)
  deriving DecidableEq

/-- The parts of a path. -/
abbrev Route := List GoString

/-- The parts of a path. -/
def routeOf (path : GoString) : Route := path.splitOn (.inl '/')

/-- The files of the home. -/
abbrev Home := FinMap Route Node

/-- What `os.Lstat` finds. -/
inductive Stat where
  | missing
  | failed
  | found (node : Node)
  deriving DecidableEq

/-- The home, and what paths through symlinks lead to. -/
structure World where
  home : Home
  elsewhere : Route → Stat

/-- `os.Lstat` behind the directories passed so far. A path through a file fails. -/
def lstatFrom (w : World) : Route → Route → Stat
  | _, [] => .failed
  | above, [name] =>
    match w.home.lookup (above ++ [name]) with
    | none => .missing
    | some node => .found node
  | above, name :: next :: rest =>
    match w.home.lookup (above ++ [name]) with
    | none => .missing
    | some .directory => lstatFrom w (above ++ [name]) (next :: rest)
    | some (.symlink _) => w.elsewhere (above ++ name :: next :: rest)
    | some _ => .failed

/-- `os.Lstat` of a path in the home. -/
def lstat (w : World) (route : Route) : Stat := lstatFrom w [] route

/-! ### Journals -/

/-- `applyJournalEntry`. -/
structure JournalEntry where
  path : GoString
  existed : Bool
  mode : ℕ
  target : GoString
  content : List UInt8
  deriving DecidableEq

/-- `applyJournal`. -/
structure Journal where
  format : GoString
  repositoryID : GoString
  assignmentID : GoString
  remoteRevision : GoString
  entries : List JournalEntry
  deriving DecidableEq

/-- `ErrApplyJournalInvalid`, or an error of the file system. -/
inductive JournalError where
  | invalid
  | storage
  deriving DecidableEq

/-- The format of journals. -/
def journalFormat : GoString := ofText "paperboat-config-apply-journal-v1".toList

/-- `strings.TrimSpace`. -/
def trimSpace (path : GoString) : GoString :=
  ((path.dropWhile fun r => r.elim Rules.isSpace fun _ => false).reverse.dropWhile fun r =>
    r.elim Rules.isSpace fun _ => false).reverse

/-- The length of a string in bytes. -/
def goLength (s : GoString) : ℕ := (s.map fun r => r.elim Char.utf8Size fun _ => 1).sum

/-- `safeRelativeStatusPath`. The characters decide, except in the length. -/
def safeRelativeStatusPath (path : GoString) : Bool :=
  let path := trimSpace path
  let text := sanitize path
  text ≠ [] ∧ goLength path ≤ 512 ∧ text ≠ ['.'] ∧ ['/'].isPrefixOf text = false ∧ '\x00' ∉ text ∧
    Paths.clean text = text ∧ text ≠ ['.', '.'] ∧ ['.', '.', '/'].isPrefixOf text = false

/-- The bytes of a string, which decide its place in the order. -/
def goBytes (s : GoString) : List ℕ :=
  s.flatMap fun r => r.elim (fun c => (String.utf8EncodeChar c).map UInt8.toNat) fun b => [b.toNat]

/-- The order of `sort.Strings`. -/
def pathLE (a b : GoString) : Prop := goBytes a ≤ goBytes b

instance : DecidableRel pathLE := fun _ _ => inferInstanceAs (Decidable (_ ≤ _))

/-- `deduplicatePaths`: drop a path that is the same as the one before it. -/
def deduplicatePaths (paths : List GoString) : List GoString :=
  paths.foldl (fun result path => if result.getLast? = some path then result else result ++ [path]) []

/-- The target of a symlink begins at the root. -/
def isAbs (target : GoString) : Bool := target.head? = some (.inl '/')

/-- The body of the loop of `beginApplyJournal`: the entry of a path, with the bytes taken so far. -/
def journalEntry (w : World) (maxBytes : ℤ) (total : ℕ)
    (path : GoString) : Except JournalError JournalEntry :=
  if safeRelativeStatusPath path = false then .error .invalid
  else
    match lstat w (routeOf path) with
    | .missing => .ok ⟨path, false, 0, [], []⟩
    | .failed | .found .directory | .found .special => .error .invalid
    | .found (.symlink target) =>
      if isAbs target.1 then .error .invalid else .ok ⟨path, true, symlinkBits, target.1, []⟩
    | .found (.regular content mode) =>
      if maxBytes - total < content.length then .error .invalid
      else .ok ⟨path, true, mode.bits, [], content⟩

/-- The loop of `beginApplyJournal`. -/
def journalEntries (w : World) (maxBytes : ℤ) :
    ℕ → List GoString → Except JournalError (List JournalEntry)
  | _, [] => .ok []
  | total, path :: paths =>
    match journalEntry w maxBytes total path with
    | .error e => .error e
    | .ok entry =>
      match journalEntries w maxBytes (total + entry.content.length) paths with
      | .error e => .error e
      | .ok entries => .ok (entry :: entries)

/-- The member `path`. -/
def pathKey : List Char := "path".toList

/-- The member `existed`. -/
def existedKey : List Char := "existed".toList

/-- The member `mode`. -/
def modeKey : List Char := "mode".toList

/-- The member `target`. -/
def targetKey : List Char := "target".toList

/-- The member `content`. -/
def contentKey : List Char := "content".toList

/-- The object of an entry; members with `omitempty` are left out when they are empty. -/
def JournalEntry.record (e : JournalEntry) : Record :=
  (pathKey, .str e.path) :: (existedKey, .bool e.existed) ::
    ((if e.mode = 0 then [] else [(modeKey, .num e.mode)]) ++
      (if e.target = [] then [] else [(targetKey, .str e.target)]) ++
      (if e.content = [] then [] else [(contentKey, .str (ofText (base64 e.content)))]))

/-- One member of the object of an entry; other members are not allowed. -/
def JournalEntry.setMember (e : JournalEntry) (m : List Char × Scalar) : Option JournalEntry :=
  match m.2 with
  | .str s =>
    if m.1 = pathKey then some { e with path := s }
    else if m.1 = targetKey then some { e with target := s }
    else if m.1 = contentKey then (unbase64 (sanitize s)).map fun c => { e with content := c }
    else none
  | .num n => if m.1 = modeKey ∧ n < 2 ^ 32 then some { e with mode := n } else none
  | .bool b => if m.1 = existedKey then some { e with existed := b } else none

/-- An entry from its object. -/
def readEntry (r : Record) : Option JournalEntry :=
  r.foldlM JournalEntry.setMember ⟨[], false, 0, [], []⟩

/-- The member `format`. -/
def formatKey : List Char := "format".toList

/-- The member `repository_id`. -/
def repositoryKey : List Char := "repository_id".toList

/-- The member `assignment_id`. -/
def assignmentKey : List Char := "assignment_id".toList

/-- The member `remote_revision`. -/
def revisionKey : List Char := "remote_revision".toList

/-- The member `entries`. -/
def entriesKey : List Char := "entries".toList

/-- The object of a journal. -/
def Journal.document (j : Journal) : Document :=
  [(formatKey, .inl (.str j.format)), (repositoryKey, .inl (.str j.repositoryID)),
    (assignmentKey, .inl (.str j.assignmentID)), (revisionKey, .inl (.str j.remoteRevision)),
    (entriesKey, .inr (j.entries.map JournalEntry.record))]

/-- One member of the object of a journal. -/
def Journal.setMember (j : Journal) (m : List Char × Value) : Option Journal :=
  match m.2 with
  | .inl (.str s) =>
    if m.1 = formatKey then some { j with format := s }
    else if m.1 = repositoryKey then some { j with repositoryID := s }
    else if m.1 = assignmentKey then some { j with assignmentID := s }
    else if m.1 = revisionKey then some { j with remoteRevision := s }
    else none
  | .inr records =>
    if m.1 = entriesKey then (records.mapM readEntry).map fun es => { j with entries := es } else none
  | _ => none

/-- `json.Marshal` of a journal, with the line end that `beginApplyJournal` adds. -/
def Journal.encode (j : Journal) : List Char := writeObject writeValue j.document ++ ['\n']

/-- `Decode` with unknown members disallowed, and nothing but space behind. -/
def decode (text : List Char) : Option Journal :=
  match readObject readValue text with
  | some (members, rest) =>
    if rest.all fun c => c = ' ' ∨ c = '\t' ∨ c = '\r' ∨ c = '\n' then
      members.foldlM Journal.setMember ⟨[], [], [], [], []⟩
    else none
  | none => none

/-- `beginApplyJournal`, up to writing the file: the text of the journal. -/
def beginApplyJournal (w : World)
    (repositoryID assignmentID remoteRevision : GoString) (paths : List GoString) (maxBytes : ℤ) :
    Except JournalError (List Char) :=
  if repositoryID = [] ∨ assignmentID = [] ∨ remoteRevision = [] ∨ maxBytes ≤ 0 then .error .invalid
  else
    match journalEntries w maxBytes 0
        (deduplicatePaths (paths.insertionSort pathLE)) with
    | .error e => .error e
    | .ok entries =>
      .ok (Journal.encode ⟨journalFormat, repositoryID, assignmentID, remoteRevision, entries⟩)

/-! ### Recovery -/

/-- `ensurePrivateParent`, behind the directories passed so far: make missing directories; the flag
says that nothing else is in the way. -/
def ensurePrivateParent (home : Home) : Route → Route → Home × Bool
  | _, [] => (home, true)
  | _, [_] => (home, true)
  | above, name :: next :: rest =>
    match home.lookup (above ++ [name]) with
    | none =>
      ensurePrivateParent (home.insert (above ++ [name]) .directory) (above ++ [name]) (next :: rest)
    | some .directory => ensurePrivateParent home (above ++ [name]) (next :: rest)
    | some _ => (home, false)

/-- The node that an entry describes, or nothing if recovery does not accept it. -/
def JournalEntry.node (e : JournalEntry) : Option Node :=
  if hasBit e.mode 27 then
    if h : e.target ≠ [] then if isAbs e.target then none else some (.symlink ⟨e.target, h⟩) else none
  else if isRegular e.mode then
    some (.regular e.content (.ofPerm ⟨e.mode % 512, Nat.mod_lt _ (by decide)⟩))
  else none

/-- `restoreApplyJournalEntry` once the directories are there: replace what is at the path. -/
def restoreTarget (home : Home) (e : JournalEntry) : Home × Bool :=
  if home.lookup (routeOf e.path) = some .directory then (home, false)
  else if e.existed = false then (home.erase (routeOf e.path), true)
  else
    match e.node with
    | none => (home.erase (routeOf e.path), false)
    | some node => ((home.erase (routeOf e.path)).insert (routeOf e.path) node, true)

/-- `restoreApplyJournalEntry`: the home, and whether there was no error. -/
def restoreApplyJournalEntry (home : Home) (e : JournalEntry) : Home × Bool :=
  if safeRelativeStatusPath e.path = false then (home, false)
  else
    match ensurePrivateParent home [] (routeOf e.path) with
    | (home, false) => (home, false)
    | (home, true) => restoreTarget home e

/-- The loop of `recoverApplyJournal`, which stops at an error. -/
def restoreAll : Home → List JournalEntry → Home × Bool
  | home, [] => (home, true)
  | home, e :: es =>
    match restoreApplyJournalEntry home e with
    | (home, false) => (home, false)
    | (home, true) => restoreAll home es

/-- The checks of `recoverApplyJournal` before its loop. The limit is computed in 64 bits. -/
def readJournal (text : List Char) (repositoryID assignmentID : GoString) (maxBytes : ℤ) :
    Option Journal :=
  if (maxBytes + 2 ^ 20).bmod (2 ^ 64) < (byteLength text : ℤ) then none
  else
    match decode text with
    | none => none
    | some j =>
      if j.format = journalFormat ∧ j.repositoryID = repositoryID ∧ j.assignmentID = assignmentID then
        some j
      else none

/-- `recoverApplyJournal`, interrupted after some number of entries. -/
def recoverSome (n : ℕ) (text : List Char) (repositoryID assignmentID : GoString) (maxBytes : ℤ)
    (home : Home) : Home × Bool :=
  match readJournal text repositoryID assignmentID maxBytes with
  | none => (home, false)
  | some j => restoreAll home (j.entries.reverse.take n)

/-- `recoverApplyJournal`. -/
def recoverApplyJournal (text : List Char) (repositoryID assignmentID : GoString) (maxBytes : ℤ)
    (home : Home) : Home × Bool :=
  match readJournal text repositoryID assignmentID maxBytes with
  | none => (home, false)
  | some j => restoreAll home j.entries.reverse

/-! ### The round trip of the journal -/

/-- What an entry is read back as. -/
def JournalEntry.sanitized (e : JournalEntry) : JournalEntry :=
  { e with path := ofText (sanitize e.path), target := ofText (sanitize e.target) }

/-- What a journal is read back as. -/
def Journal.sanitized (j : Journal) : Journal :=
  ⟨ofText (sanitize j.format), ofText (sanitize j.repositoryID), ofText (sanitize j.assignmentID),
    ofText (sanitize j.remoteRevision), j.entries.map JournalEntry.sanitized⟩

@[simp] lemma sanitize_ofText (t : List Char) : sanitize (ofText t) = t := by
  simp [sanitize, ofText, Function.comp_def, rune]

lemma readEntry_record (e : JournalEntry) (hmode : e.mode < 2 ^ 32) :
    readEntry (Record.sanitized e.record) = some e.sanitized := by
  have hkeys : targetKey ≠ pathKey ∧ contentKey ≠ pathKey ∧ contentKey ≠ targetKey := by decide
  obtain ⟨path, existed, mode, target, content⟩ := e
  have hmode : mode < 4294967296 := hmode
  have hnil : ofText (sanitize []) = [] := rfl
  by_cases hm : mode = 0 <;> by_cases ht : target = [] <;> by_cases hc : content = [] <;>
    simp [readEntry, JournalEntry.record, Record.sanitized, Scalar.sanitized, JournalEntry.setMember,
      JournalEntry.sanitized, hkeys.1, hkeys.2.1, hkeys.2.2, hmode, hm, ht, hc, hnil, unbase64_base64]

lemma mapM_readEntry {entries : List JournalEntry} (hmode : ∀ e ∈ entries, e.mode < 2 ^ 32) :
    (entries.map fun e => Record.sanitized e.record).mapM readEntry =
      some (entries.map JournalEntry.sanitized) := by
  induction entries with
  | nil => rfl
  | cons e entries ih =>
    rw [List.map_cons, List.mapM_cons, readEntry_record e (hmode e List.mem_cons_self),
      ih fun e he => hmode e (List.mem_cons_of_mem _ he)]
    rfl

lemma decode_encode (j : Journal) (hmode : ∀ e ∈ j.entries, e.mode < 2 ^ 32) :
    decode j.encode = some j.sanitized := by
  have hkeys : repositoryKey ≠ formatKey ∧ assignmentKey ≠ formatKey ∧ assignmentKey ≠ repositoryKey ∧
      revisionKey ≠ formatKey ∧ revisionKey ≠ repositoryKey ∧ revisionKey ≠ assignmentKey := by
    decide
  obtain ⟨h₁, h₂, h₃, h₄, h₅, h₆⟩ := hkeys
  have hentries := mapM_readEntry hmode
  simp only [decode, Journal.encode, readDocument_write]
  simp [Journal.document, sanitizeValue, Scalar.sanitized, Journal.setMember, Journal.sanitized,
    h₁, h₂, h₃, h₄, h₅, h₆, Function.comp_def, hentries]

end Paperboat.ConfigSync.Apply

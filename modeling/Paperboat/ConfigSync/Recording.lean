import Paperboat.ConfigSync.Restoring

/-!
# What the apply journal records

`beginApplyJournal` writes down what `Lstat` finds at every path, in the order of `sort.Strings`
(`Records`). What `Lstat` finds is decided by the first thing on the way that is no directory
(`lstat_of_obstacle`), or by the path itself (`lstat_of_parents`).
-/

namespace Paperboat.ConfigSync.Apply

open List

open JsonText Paths

/-! ### What `Lstat` finds -/

/-- What `Lstat` reports of a path with directories on the way. -/
def Stat.ofNode : Option Node → Stat
  | none => .missing
  | some node => .found node

/-- What `Lstat` reports of a path with something else on the way. -/
def World.behind (w : World) (route : Route) : Option Node → Stat
  | none => .missing
  | some (.symlink _) => w.elsewhere route
  | some _ => .failed

section
variable {α : Type} {home : Home} {f : Route → Route → α} {a r : Route}

variable (hf : ∀ above name rest, rest ≠ [] → IsDirectory home (above ++ [name]) →
  f above (name :: rest) = f (above ++ [name]) rest)

include hf

/-- What follows a path from directory to directory comes to the entry before which all pass. -/
lemma walk_eq {above passed : Route} {name : GoString} (rest : Route)
    (h : PassesBetween (IsDirectory home) above (above ++ passed ++ [name])) :
    f above (passed ++ name :: rest) = f (above ++ passed) (name :: rest) := by
  induction passed generalizing above with
  | nil => rw [nil_append, append_nil]
  | cons entry passed ih =>
    have hpre : above ++ [entry] <+: above ++ entry :: passed ++ [name] := ⟨passed ++ [name], by simp⟩
    obtain ⟨hdir, hbelow⟩ := (passesBetween_below hpre (by simp)).mp h
    rw [cons_append, hf above entry _ (by simp) hdir, ih (by simpa using hbelow)]
    simp

lemma OnTheWay.walk (ha : OnTheWay a r) (hdirs : PassesBetween (IsDirectory home) [] a) :
    ∃ passed name next rest, a = passed ++ [name] ∧ r = passed ++ name :: next :: rest ∧
      f [] r = f passed (name :: next :: rest) := by
  obtain ⟨hne, ⟨rest, rfl⟩, hbehind⟩ := ha
  obtain ⟨passed, name, rfl⟩ := a.eq_nil_or_concat'.resolve_left hne
  rcases rest with _ | ⟨next, rest⟩
  · simp at hbehind
  · refine ⟨passed, name, next, rest, rfl, by simp, ?_⟩
    rw [append_assoc]
    exact walk_eq hf _ hdirs

end

variable {w : World} {a r : Route}

lemma lstatFrom_directory (above : Route) (name : GoString) (rest : Route) (hrest : rest ≠ [])
    (hdir : IsDirectory w.home (above ++ [name])) :
    lstatFrom w above (name :: rest) = lstatFrom w (above ++ [name]) rest := by
  obtain ⟨next, rest, rfl⟩ := exists_cons_of_ne_nil hrest
  rw [lstatFrom, hdir]

lemma lstat_of_parents (hr : r ≠ []) (h : PassesBetween (IsDirectory w.home) [] r) :
    lstat w r = .ofNode (w.home.lookup r) := by
  obtain ⟨passed, name, rfl⟩ := r.eq_nil_or_concat'.resolve_left hr
  have hwalk := walk_eq (f := lstatFrom w) lstatFrom_directory [] h
  rw [nil_append, lstatFrom] at hwalk
  refine hwalk.trans ?_
  cases w.home.lookup (passed ++ [name]) <;> rfl

/-- The first thing on the way that is no directory decides what `Lstat` reports. -/
lemma lstat_of_obstacle (ha : OnTheWay a r) (hdirs : PassesBetween (IsDirectory w.home) [] a)
    (hnot : ¬IsDirectory w.home a) :
    lstat w r = w.behind r (w.home.lookup a) := by
  obtain ⟨passed, name, next, rest, rfl, rfl, hwalk⟩ := ha.walk (f := lstatFrom w) lstatFrom_directory hdirs
  refine hwalk.trans ?_
  rw [lstatFrom]
  unfold IsDirectory at hnot
  rcases hnode : w.home.lookup (passed ++ [name]) with _ | node
  · rfl
  rw [hnode] at hnot
  cases node with
  | directory => exact absurd rfl hnot
  | special | regular | symlink => rfl

/-- Everything in the home is in a directory. -/
def Consistent (home : Home) : Prop :=
  ∀ r node, home.lookup r = some node → PassesBetween (IsDirectory home) [] r

lemma Consistent.behind_missing {home : Home} (hhome : Consistent home) (ha : OnTheWay a r)
    (hdirs : PassesBetween (IsDirectory home) [] a) (hnone : home.lookup a = none) :
    PassesBetween (Passable home) [] r ∧ home.lookup r = none := by
  have hbehind : ∀ d, OnTheWay a d → home.lookup d = none := by
    intro d hd
    rcases hnode : home.lookup d with _ | node
    · rfl
    have hdir := passesBetween_iff.mp (hhome d node hnode) a hd
    rw [IsDirectory, hnone] at hdir
    cases hdir
  refine ⟨passesBetween_iff.mpr fun d hd => ?_, hbehind r ha⟩
  by_cases heq : d = a
  · exact .inl (heq ▸ hnone)
  rcases prefix_or_prefix_of_prefix hd.2.1 ha.2.1 with hpre | hpre
  · exact .inr (passesBetween_iff.mp hdirs d ⟨hd.1, hpre, heq⟩)
  · exact .inl (hbehind d ⟨ha.1, hpre, Ne.symm heq⟩)

/-! ### What a journal records -/

/-- The entry records what is at its path. -/
inductive Describes (w : World) : JournalEntry → Prop where
  | absent {path : GoString} (safe : safeRelativeStatusPath path = true)
      (stat : lstat w (routeOf path) = .missing) : Describes w ⟨path, false, 0, [], []⟩
  | symlink {path : GoString} {target : Target} (safe : safeRelativeStatusPath path = true)
      (stat : lstat w (routeOf path) = .found (.symlink target)) (relative : isAbs target.1 = false) :
      Describes w ⟨path, true, symlinkBits, target.1, []⟩
  | regular {path : GoString} {content : List UInt8} {mode : RegularMode}
      (safe : safeRelativeStatusPath path = true)
      (stat : lstat w (routeOf path) = .found (.regular content mode)) :
      Describes w ⟨path, true, mode.bits, [], content⟩

variable {maxBytes : ℤ} {total : ℕ} {e : JournalEntry}

lemma describes_of_journalEntry {path : GoString} (h : journalEntry w maxBytes total path = .ok e) :
    Describes w e ∧ e.path = path := by
  rw [journalEntry] at h
  split_ifs at h with hsafe
  replace hsafe : safeRelativeStatusPath path = true := by simpa using hsafe
  split at h
  · next hstat =>
    cases h
    exact ⟨.absent hsafe hstat, rfl⟩
  · cases h
  · cases h
  · cases h
  · next target hstat =>
    split_ifs at h with habs
    cases h
    exact ⟨.symlink hsafe hstat (by simpa using habs), rfl⟩
  · next content mode hstat =>
    split_ifs at h
    cases h
    exact ⟨.regular hsafe hstat, rfl⟩

variable {paths : List GoString}

lemma describes_of_journalEntries {es : List JournalEntry}
    (h : journalEntries w maxBytes total paths = .ok es) :
    (∀ e ∈ es, Describes w e) ∧ es.map JournalEntry.path = paths := by
  induction paths generalizing total es with
  | nil =>
    cases h
    exact ⟨fun e he => absurd he not_mem_nil, rfl⟩
  | cons path paths ih =>
    simp only [journalEntries] at h
    split at h
    · cases h
    rename_i e hentry
    split at h
    · cases h
    rename_i es hrest
    cases h
    obtain ⟨hdescribes, hpath⟩ := describes_of_journalEntry hentry
    obtain ⟨hall, hpaths⟩ := ih hrest
    refine ⟨forall_mem_cons.mpr ⟨hdescribes, hall⟩, ?_⟩
    rw [map_cons, hpath, hpaths]

lemma deduplicatePaths_spec (paths : List GoString) :
    (deduplicatePaths paths).Sublist paths ∧ ∀ p, p ∈ deduplicatePaths paths ↔ p ∈ paths := by
  induction paths using reverseRecOn with
  | nil => exact ⟨.refl _, fun _ => .rfl⟩
  | append_singleton paths path ih =>
    obtain ⟨hsub, hmem⟩ := ih
    unfold deduplicatePaths at hsub hmem ⊢
    rw [foldl_concat]
    split_ifs with hlast
    · refine ⟨hsub.trans (sublist_append_left _ _), fun p => ?_⟩
      rw [hmem, mem_append, mem_singleton, or_iff_left_of_imp]
      rintro rfl
      exact (hmem p).mp (mem_of_getLast? hlast)
    · exact ⟨hsub.append_right _, fun p => by rw [mem_append, mem_append, hmem]⟩

lemma pairwise_sorted (paths : List GoString) : (paths.insertionSort pathLE).Pairwise pathLE := by
  have : Std.Total pathLE := ⟨fun a b => le_total (goBytes a) (goBytes b)⟩
  have : IsTrans GoString pathLE := ⟨fun a b c h h' => le_trans (a := goBytes a) h h'⟩
  exact pairwise_insertionSort pathLE paths

/-- The entries record the paths, in the order of `sort.Strings`. -/
structure Records (w : World) (paths : List GoString) (entries : List JournalEntry) : Prop where
  describes : ∀ e ∈ entries, Describes w e
  covers : ∀ p, p ∈ paths ↔ ∃ e ∈ entries, e.path = p
  sorted : entries.Pairwise fun e e' => pathLE e.path e'.path

lemma records_of_begin {repositoryID assignmentID remoteRevision : GoString} {text : List Char}
    (h : beginApplyJournal w repositoryID assignmentID remoteRevision paths maxBytes = .ok text) :
    ∃ entries, Records w paths entries ∧
      text = Journal.encode ⟨journalFormat, repositoryID, assignmentID, remoteRevision, entries⟩ := by
  rw [beginApplyJournal] at h
  split_ifs at h
  rcases hentries : journalEntries w maxBytes 0 (deduplicatePaths (paths.insertionSort pathLE)) with _ | entries
  · rw [hentries] at h
    cases h
  rw [hentries] at h
  cases h
  obtain ⟨hdescribes, hpaths⟩ := describes_of_journalEntries hentries
  obtain ⟨hsub, hmem⟩ := deduplicatePaths_spec (paths.insertionSort pathLE)
  refine ⟨entries, ⟨hdescribes, fun p => ?_, ?_⟩, rfl⟩
  · rw [← mem_insertionSort pathLE, ← hmem, ← hpaths, mem_map]
  · have hsorted := (pairwise_sorted paths).sublist hsub
    rw [← hpaths, pairwise_map] at hsorted
    exact hsorted

end Paperboat.ConfigSync.Apply

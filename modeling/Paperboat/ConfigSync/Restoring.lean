import Paperboat.ConfigSync.ApplyJournal

/-!
# Restoring entries of the apply journal

What `restoreApplyJournalEntry` and the loop of `recoverApplyJournal` do to the home. An entry goes
through if nothing but directories is on the way to its path and no directory is at it (`Restoration`).
The loop leaves every path with what its last entry says, never removes a directory, and goes through
whenever the paths are apart, that is, none is on the way to another, and they are `Ready`.
-/

namespace Paperboat.ConfigSync.Apply

open List AList JournalEntry

open JsonText Paths

/-! ### Directories on the way -/

/-- Nothing is at the route, or a directory. -/
def Passable (home : Home) (r : Route) : Prop :=
  home.lookup r = none ∨ home.lookup r = some .directory

/-- A directory is at the route. -/
def IsDirectory (home : Home) (r : Route) : Prop := home.lookup r = some .directory

/-- The first route is on the way to the second. -/
def OnTheWay (a r : Route) : Prop := a ≠ [] ∧ a <+: r ∧ a ≠ r

variable {r : Route}

lemma passesBetween_iff {test : Route → Prop} : PassesBetween test [] r ↔ ∀ a, OnTheWay a r → test a :=
  ⟨fun h a ha => h a nil_prefix ha.1 ha.2.1 ha.2.2, fun h a _ h₂ h₃ h₄ => h a ⟨h₂, h₃, h₄⟩⟩

variable {a : Route}

variable {home home' : Home} {route : Route}

/-- A route keeps its node, or gets a directory where there was nothing, on the way to another route. -/
def Spared (route : Route) (home home' : Home) (r : Route) : Prop :=
  home'.lookup r = home.lookup r ∨
    home.lookup r = none ∧ home'.lookup r = some .directory ∧ r <+: route ∧ r ≠ route

lemma Spared.directory (h : Spared route home home' r) (hr : IsDirectory home r) : IsDirectory home' r := by
  rcases h with heq | ⟨_, hmade, _⟩
  · exact heq.trans hr
  · exact hmade

lemma Spared.trans {home₁ : Home} (h : Spared route home home₁ r) (h' : Spared route home₁ home' r) :
    Spared route home home' r := by
  rcases h with heq | ⟨hnone, hmade, hon⟩
  · unfold Spared at h' ⊢
    rwa [← heq]
  · exact .inr ⟨hnone, h'.directory hmade, hon⟩

lemma spared_ensurePrivateParent (home : Home) (above rest r : Route) :
    Spared (above ++ rest) home (ensurePrivateParent home above rest).1 r := by
  fun_induction ensurePrivateParent home above rest with
  | case1 | case2 | case5 => exact .inl rfl
  | case3 home above name next rest hnone ih =>
    rw [append_assoc] at ih
    refine Spared.trans ?_ ih
    rw [Spared, FinMap.lookup_insert_eq]
    by_cases hr : r = above ++ [name]
    · subst hr
      exact .inr ⟨hnone, if_pos rfl, ⟨next :: rest, by simp⟩, by simp⟩
    · exact .inl (if_neg hr)
  | case4 home above name next rest hdir ih =>
    rw [append_assoc] at ih
    exact ih

/-- A new directory does not block a way. -/
lemma passable_insert (hnone : home.lookup r = none) :
    Passable (home.insert r .directory) = Passable home := by
  funext d
  rw [Passable, Passable, FinMap.lookup_insert_eq]
  split_ifs with heq
  · rw [heq, hnone]
    simp
  · rfl

/-- `ensurePrivateParent` goes through if there are only directories on the way, and then all of them
are there. -/
lemma ensurePrivateParent_ok_iff (home : Home) (above : Route) {rest : Route} (hrest : rest ≠ []) :
    ((ensurePrivateParent home above rest).2 = true ↔
      PassesBetween (Passable home) above (above ++ rest)) ∧
    ((ensurePrivateParent home above rest).2 = true →
      PassesBetween (IsDirectory (ensurePrivateParent home above rest).1) above (above ++ rest)) := by
  fun_induction ensurePrivateParent home above rest with
  | case1 => exact absurd rfl hrest
  | case2 home above name =>
    exact ⟨iff_of_true rfl (passesBetween_entry _ _ _), fun _ => passesBetween_entry _ _ _⟩
  | case3 home above name next rest hnone ih =>
    obtain ⟨hok, hdirs⟩ := ih (cons_ne_nil _ _)
    rw [passesBetween_cons, passesBetween_cons, hok, passable_insert hnone]
    refine ⟨⟨fun h => ⟨.inl hnone, h⟩, And.right⟩, fun h => ⟨?_, hdirs (hok.mpr ?_)⟩⟩
    · exact (spared_ensurePrivateParent _ _ _ _).directory (lookup_insert _)
    · rwa [passable_insert hnone]
  | case4 home above name next rest hdir ih =>
    obtain ⟨hok, hdirs⟩ := ih (cons_ne_nil _ _)
    rw [passesBetween_cons, passesBetween_cons, hok]
    refine ⟨⟨fun h => ⟨.inr hdir, h⟩, And.right⟩, fun h => ⟨?_, hdirs (hok.mpr h)⟩⟩
    exact (spared_ensurePrivateParent _ _ _ _).directory hdir
  | case5 home above name next rest node hother hnode =>
    refine ⟨iff_of_false Bool.false_ne_true fun h => ?_, fun h => absurd h Bool.false_ne_true⟩
    rcases (passesBetween_cons.mp h).1 with hd | hd
    · rw [hnode] at hd
      cases hd
    · rw [hnode] at hd
      exact hother (Option.some.inj hd)

/-! ### One entry -/

/-- What an accepted entry leaves at its path. -/
def JournalEntry.restored (e : JournalEntry) : Option Node := if e.existed then e.node else none

/-- Recovery accepts the entry. -/
structure JournalEntry.Accepted (e : JournalEntry) : Prop where
  safe : safeRelativeStatusPath e.path = true
  node : e.existed = true → e.node ≠ none

lemma routeOf_ne_nil (path : GoString) : routeOf path ≠ [] := splitOn_ne_nil _ _

/-- What restoring an entry does. -/
structure Restoration (home home' : Home) (e : JournalEntry) : Prop where
  passable : PassesBetween (Passable home) [] (routeOf e.path)
  notDirectory : home.lookup (routeOf e.path) ≠ some .directory
  at_route : home'.lookup (routeOf e.path) = e.restored
  parents : PassesBetween (IsDirectory home') [] (routeOf e.path)
  others : ∀ r ≠ routeOf e.path, Spared (routeOf e.path) home home' r

lemma lookup_ensurePrivateParent_self (home : Home) (route : Route) :
    (ensurePrivateParent home [] route).1.lookup route = home.lookup route := by
  rcases spared_ensurePrivateParent home [] route route with h | ⟨_, _, _, hne⟩
  · exact h
  · exact absurd rfl hne

variable {e : JournalEntry}

/-- Replacing what is at a path goes through if it is no directory, and changes only the path. -/
lemma restoreTarget_of_ok (h : restoreTarget home e = (home', true)) :
    home.lookup (routeOf e.path) ≠ some .directory ∧ home'.lookup (routeOf e.path) = e.restored ∧
      ∀ r ≠ routeOf e.path, home'.lookup r = home.lookup r := by
  rw [restoreTarget] at h
  by_cases hdir : home.lookup (routeOf e.path) = some .directory
  · rw [if_pos hdir] at h
    cases h
  rw [if_neg hdir] at h
  by_cases hexisted : e.existed = false
  · rw [if_pos hexisted] at h
    cases h
    refine ⟨hdir, ?_, fun r hr => ?_⟩
    · rw [FinMap.lookup_erase_eq, if_pos rfl, restored, if_neg (by simp [hexisted])]
    · exact lookup_erase_ne hr
  rw [if_neg hexisted] at h
  rcases hnode : e.node with _ | _
  · rw [hnode] at h
    cases h
  rw [hnode] at h
  cases h
  refine ⟨hdir, ?_, fun r hr => ?_⟩
  · rw [FinMap.lookup_insert_eq, if_pos rfl, restored, if_pos (by simpa using hexisted), hnode]
  · rw [lookup_insert_ne hr, lookup_erase_ne hr]

lemma restoration_of_ok (h : restoreApplyJournalEntry home e = (home', true)) :
    Restoration home home' e := by
  obtain ⟨hok, hdirs⟩ := ensurePrivateParent_ok_iff home [] (routeOf_ne_nil e.path)
  have hway := spared_ensurePrivateParent home [] (routeOf e.path)
  have hself := lookup_ensurePrivateParent_self home (routeOf e.path)
  rw [nil_append] at hok hdirs hway
  rw [restoreApplyJournalEntry] at h
  by_cases hsafe : safeRelativeStatusPath e.path = false
  · rw [if_pos hsafe] at h
    cases h
  rw [if_neg hsafe] at h
  generalize ensurePrivateParent home [] (routeOf e.path) = made at h hok hdirs hway hself
  obtain ⟨home₁, _ | _⟩ := made
  · cases h
  obtain ⟨hdir, hroute, hsame⟩ := restoreTarget_of_ok h
  refine ⟨hok.mp rfl, hself ▸ hdir, hroute, (hdirs rfl).mono fun d hd => (hsame d hd).trans, fun r hr => ?_⟩
  rw [Spared, hsame r hr]
  exact hway r

lemma restore_ok (haccepted : e.Accepted) (hpassable : PassesBetween (Passable home) [] (routeOf e.path))
    (hdir : home.lookup (routeOf e.path) ≠ some .directory) :
    ∃ home', restoreApplyJournalEntry home e = (home', true) := by
  have hok := (ensurePrivateParent_ok_iff home [] (routeOf_ne_nil e.path)).1.mpr hpassable
  have hself := lookup_ensurePrivateParent_self home (routeOf e.path)
  rw [restoreApplyJournalEntry, if_neg (by simp [haccepted.safe])]
  rw [← hself] at hdir
  generalize ensurePrivateParent home [] (routeOf e.path) = made at hok hdir
  obtain ⟨home₁, _ | _⟩ := made
  · cases hok
  simp only [restoreTarget]
  rw [if_neg hdir]
  by_cases hexisted : e.existed = false
  · exact ⟨_, if_pos hexisted⟩
  rw [if_neg hexisted]
  cases hnode : e.node with
  | none => exact absurd hnode (haccepted.node (by simpa using hexisted))
  | some => exact ⟨_, rfl⟩

/-! ### The loop -/

variable {es : List JournalEntry}

lemma restoreAll_cons : restoreAll home (e :: es) = (home', true) ↔
      ∃ home₁, restoreApplyJournalEntry home e = (home₁, true) ∧ restoreAll home₁ es = (home', true) := by
  rw [restoreAll]
  rcases restoreApplyJournalEntry home e with ⟨home₁, ok⟩
  cases ok <;> simp

/-- The loop goes through if it does for a part of the entries and then for the rest. -/
lemma restoreAll_append {fs : List JournalEntry} : restoreAll home (es ++ fs) = (home', true) ↔
      ∃ home₁, restoreAll home es = (home₁, true) ∧ restoreAll home₁ fs = (home', true) := by
  induction es generalizing home with
  | nil => simp [restoreAll]
  | cons e es ih =>
    simp only [cons_append, restoreAll_cons, ih]
    constructor
    · rintro ⟨home₁, hfirst, home₂, hes, hfs⟩
      exact ⟨home₂, ⟨home₁, hfirst, hes⟩, hfs⟩
    · rintro ⟨home₂, ⟨home₁, hfirst, hes⟩, hfs⟩
      exact ⟨home₁, hfirst, home₂, hes, hfs⟩

lemma isDirectory_restoreAll (h : restoreAll home es = (home', true)) (hr : IsDirectory home r) :
    IsDirectory home' r := by
  induction es generalizing home with
  | nil =>
    cases h
    exact hr
  | cons e es ih =>
    obtain ⟨home₁, hfirst, hes⟩ := restoreAll_cons.mp h
    have hrest := restoration_of_ok hfirst
    refine ih hes ?_
    by_cases heq : r = routeOf e.path
    · exact absurd (heq ▸ hr) hrest.notDirectory
    · exact (hrest.others r heq).directory hr

/-- The loop leaves at a route what its entries say, or what was there if it has none. A route with
nothing may become a directory if it is on the way to another. -/
lemma lookup_restoreAll {v : Option Node} (h : restoreAll home es = (home', true))
    (hentries : ∀ e ∈ es, routeOf e.path = r → e.restored = v)
    (hway : v ≠ none ∨ ∀ e ∈ es, r <+: routeOf e.path → r = routeOf e.path)
    (hv : home.lookup r = v ∨ ∃ e ∈ es, routeOf e.path = r) : home'.lookup r = v := by
  induction es generalizing home with
  | nil =>
    cases h
    exact hv.resolve_right fun ⟨_, he, _⟩ => not_mem_nil he
  | cons e es ih =>
    obtain ⟨home₁, hfirst, hes⟩ := restoreAll_cons.mp h
    have hrest := restoration_of_ok hfirst
    refine ih hes (fun e he => hentries e (mem_cons_of_mem _ he))
      (hway.imp id fun hon e he => hon e (mem_cons_of_mem _ he)) ?_
    by_cases heq : routeOf e.path = r
    · left
      rw [← heq, hrest.at_route]
      exact hentries e mem_cons_self heq
    · refine hv.imp (fun hv => ?_) fun ⟨e', he', hr⟩ => ?_
      · rcases hrest.others r (Ne.symm heq) with hsame | ⟨hnone, _, hon, hne⟩
        · exact hsame.trans hv
        · rcases hway with hsome | hapart
          · exact absurd (hv.symm.trans hnone) hsome
          · exact absurd (hapart e mem_cons_self hon) hne
      · rcases mem_cons.mp he' with rfl | he'
        · exact absurd hr heq
        · exact ⟨e', he', hr⟩

/-- What is on the way to a path when the loop comes to it is a directory. -/
lemma directory_of_restoreAll {before after : List JournalEntry} {node : Node}
    (h : restoreAll home (before ++ e :: after) = (home', true))
    (hbefore : ∀ e' ∈ before, routeOf e'.path ≠ a) (hnode : home.lookup a = some node)
    (ha : OnTheWay a (routeOf e.path)) : node = .directory := by
  obtain ⟨home₁, hfirst, hrest⟩ := restoreAll_append.mp h
  obtain ⟨home₂, hentry, _⟩ := restoreAll_cons.mp hrest
  have hstill : home₁.lookup a = some node :=
    lookup_restoreAll hfirst (fun e' he' heq => absurd heq (hbefore e' he'))
      (.inl (Option.some_ne_none _)) (.inl hnode)
  rcases passesBetween_iff.mp (restoration_of_ok hentry).passable a ha with hnone | hdir
  · rw [hstill] at hnone
    cases hnone
  · rw [hstill] at hdir
    exact Option.some.inj hdir

/-- When the loop goes through, all directories on the way to its paths are there. -/
lemma parents_restoreAll (h : restoreAll home es = (home', true)) (he : e ∈ es) :
    PassesBetween (IsDirectory home') [] (routeOf e.path) := by
  obtain ⟨before, after, rfl⟩ := append_of_mem he
  obtain ⟨home₁, _, hrest⟩ := restoreAll_append.mp h
  obtain ⟨home₂, hentry, hafter⟩ := restoreAll_cons.mp hrest
  exact (restoration_of_ok hentry).parents.mono fun _ _ => isDirectory_restoreAll hafter

/-! ### Paths that are apart -/

/-- No route is on the way to another. -/
def Apart (routes : List Route) : Prop := ∀ r ∈ routes, ∀ r' ∈ routes, r <+: r' → r = r'

/-- Nothing is in the way to the routes, and no directory at them. -/
def Ready (routes : List Route) (home : Home) : Prop :=
  ∀ r ∈ routes, PassesBetween (Passable home) [] r ∧ home.lookup r ≠ some .directory

variable {routes : List Route}

/-- A home stays ready if one of the routes gets a leaf or nothing and directories on the way to it
are made. -/
lemma Ready.set (hapart : Apart routes) (hready : Ready routes home) (hr : r ∈ routes)
    (hself : home'.lookup r ≠ some .directory) (hothers : ∀ r' ≠ r, Spared r home home' r') :
    Ready routes home' := by
  refine fun q hq => ⟨fun d h₁ h₂ h₃ h₄ => ?_, ?_⟩
  · -- a directory on the way to `q` is not `r`
    have hne : d ≠ r := fun heq => h₄ (heq.trans (hapart r hr q hq (heq ▸ h₃)))
    rcases hothers d hne with hsame | ⟨_, hmade, _⟩
    · rw [Passable, hsame]
      exact (hready q hq).1 d h₁ h₂ h₃ h₄
    · exact .inr hmade
  · by_cases heq : q = r
    · rw [heq]
      exact hself
    rcases hothers q heq with hsame | ⟨_, _, hon, hne⟩
    · rw [hsame]
      exact (hready q hq).2
    · exact absurd (hapart q hq r hr hon) hne

/-- The loop goes through over a home that is ready, and leaves it ready. -/
lemma restoreAll_ok (hapart : Apart routes) (hready : Ready routes home)
    (haccepted : ∀ e ∈ es, e.Accepted) (hroutes : ∀ e ∈ es, routeOf e.path ∈ routes) :
    ∃ home', restoreAll home es = (home', true) ∧ Ready routes home' := by
  induction es generalizing home with
  | nil => refine ⟨home, rfl, hready⟩
  | cons e es ih =>
    have hr := hroutes e mem_cons_self
    obtain ⟨home₁, hfirst⟩ := restore_ok (haccepted e mem_cons_self) (hready _ hr).1 (hready _ hr).2
    have hrest := restoration_of_ok hfirst
    have hready₁ : Ready routes home₁ := hready.set hapart hr (hrest.at_route ▸ ?_) hrest.others
    obtain ⟨home', hes, hready'⟩ := ih hready₁ (fun e he => haccepted e (mem_cons_of_mem _ he))
      fun e he => hroutes e (mem_cons_of_mem _ he)
    exact ⟨home', restoreAll_cons.mpr ⟨home₁, hfirst, hes⟩, hready'⟩
    unfold restored node
    split_ifs <;> simp

end Paperboat.ConfigSync.Apply

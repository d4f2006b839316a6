import Paperboat.Lib.JsonRead

/-!
# JSON documents

Documents as trees, whose strings are of any type, and what they become as compact text. Two documents
are the same when they differ in the order of members only (`Json.Same`), and documents without
repeated members have the same text exactly when they are the same (`Json.write_eq_iff`).
-/

namespace Paperboat

open List

open JsonText

/-- The characters of a number. -/
def Json.isNumeric (c : Char) : Bool := c.isDigit || c = '-' || c = '+' || c = '.' || c = 'e' || c = 'E'

/-- A document; a number is the text that stands for it. -/
inductive Json (σ : Type) where
  | null
  | bool (b : Bool)
  | number (token : { t : List Char // t ≠ [] ∧ ∀ c ∈ t, Json.isNumeric c = true })
  | string (s : σ)
  | array (n : ℕ) (item : Fin n → Json σ)
  | object (n : ℕ) (key : Fin n → σ) (value : Fin n → Json σ)

namespace Json

variable {σ τ : Type}

/-- The same document with other strings. -/
def map (f : σ → τ) : Json σ → Json τ
  | null => null
  | bool b => bool b
  | number token => number token
  | string s => string (f s)
  | array n item => array n fun i => (item i).map f
  | object n key value => object n (fun i => f (key i)) fun i => (value i).map f

/-- No object has a member twice. -/
def distinct [DecidableEq σ] : Json σ → Bool
  | array _ item => decide (∀ i, (item i).distinct = true)
  | object _ key value => decide ((List.ofFn key).Nodup ∧ ∀ i, (value i).distinct = true)
  | _ => true

/-- The documents are the same up to the order of members. -/
def Same : Json σ → Json σ → Prop
  | null, null => True
  | bool b, bool b' => b = b'
  | number token, number token' => token = token'
  | string s, string s' => s = s'
  | array n item, array n' item' => ∃ h : n = n', ∀ i, Same (item i) (item' (i.cast h))
  | object _ key value, object _ key' value' =>
    (∀ i, ∃ j, key i = key' j ∧ Same (value i) (value' j)) ∧
      ∀ j, ∃ i, key i = key' j ∧ Same (value i) (value' j)
  | _, _ => False

lemma Same.map {σ τ : Type} (f : σ → τ) {x y : Json σ} (h : Same x y) : Same (x.map f) (y.map f) := by
  induction x generalizing y with
  | array n item ih =>
    cases y with
    | array =>
      obtain ⟨rfl, hitems⟩ := h
      exact ⟨rfl, fun i => ih i (hitems i)⟩
    | _ => exact h.elim
  | object n key value ih =>
    cases y with
    | object =>
      refine ⟨fun i => ?_, fun j => ?_⟩
      · obtain ⟨j, hkey, hvalue⟩ := h.1 i
        exact ⟨j, congrArg f hkey, ih i hvalue⟩
      · obtain ⟨i, hkey, hvalue⟩ := h.2 j
        exact ⟨i, congrArg f hkey, ih i hvalue⟩
    | _ => exact h.elim
  | string =>
    cases y with
    | string => exact congrArg f h
    | _ => exact h.elim
  | _ => cases y <;> first | exact h.elim | exact h

/-! ### Text -/

/-- The order of members, by their names. -/
def memberLE (a b : List Char × List Char) : Prop := a.1 ≤ b.1

instance : DecidableRel memberLE := fun _ _ => inferInstanceAs (Decidable (_ ≤ _))

/-- The compact text, with the members of objects in the order of their names. -/
def write : Json (List Char) → List Char
  | null => ['n', 'u', 'l', 'l']
  | bool true => ['t', 'r', 'u', 'e']
  | bool false => ['f', 'a', 'l', 's', 'e']
  | number token => token.1
  | string s => quote s
  | array _ item => '[' :: writeList id (List.ofFn fun i => (item i).write) ++ [']']
  | object _ key value => '{' :: writeList (writeMember id)
      ((List.ofFn fun i => (key i, (value i).write)).insertionSort memberLE) ++ ['}']

/-- The constructors that the first character tells apart. -/
def kind : Json σ → ℕ
  | null => 0
  | bool _ => 1
  | number _ => 2
  | string _ => 3
  | array _ _ => 4
  | object _ _ _ => 5

/-- What a text that begins with the character is. -/
def kindOf (c : Char) : ℕ :=
  if isNumeric c then 2 else if c = 'n' then 0 else if c = 't' ∨ c = 'f' then 1 else if c = '"' then 3
  else if c = '[' then 4 else if c = '{' then 5 else 6

lemma exists_write_eq (x : Json (List Char)) : ∃ c t, x.write = c :: t ∧ kindOf c = x.kind := by
  cases x with
  | bool b => cases b <;> exact ⟨_, _, rfl, rfl⟩
  | number token =>
    obtain ⟨_ | ⟨c, t⟩, hne, hnumeric⟩ := token
    · exact absurd rfl hne
    · exact ⟨c, t, rfl, if_pos (hnumeric c mem_cons_self)⟩
  | _ => exact ⟨_, _, rfl, rfl⟩

lemma exists_write_eq_ne (x : Json (List Char)) : ∃ c t, x.write = c :: t ∧ c ≠ ']' := by
  obtain ⟨c, t, hx, hc⟩ := exists_write_eq x
  refine ⟨c, t, hx, ?_⟩
  rintro rfl
  cases x <;> cases hc

/-- A number ends where the text begins. -/
def Stops (r : List Char) : Prop := ∀ c ∈ r.head?, isNumeric c = false

lemma stops_nil : Stops [] := fun c hc => by cases hc

variable {r r' : List Char}

/-- The items of a sequence can be told apart if each item can. -/
lemma writeList_inj {α : Type} (f : α → List Char) {l l' : List α} (close : Char)
    (hread : ∀ x ∈ l, ∀ y ∈ l', ∀ r r', Stops r → Stops r' → f x ++ r = f y ++ r' → x = y)
    (hstart : ∀ x ∈ l, ∃ c t, f x = c :: t ∧ c ≠ close)
    (hstart' : ∀ y ∈ l', ∃ c t, f y = c :: t ∧ c ≠ close) (hclose : close ≠ ',' ∧ isNumeric close = false)
    (h : writeList f l ++ close :: r = writeList f l' ++ close :: r') : l = l' := by
  have hstops : ∀ t, Stops (close :: t) ∧ Stops (',' :: t) := fun t =>
    ⟨fun c hc => by cases hc; exact hclose.2, fun c hc => by cases hc; rfl⟩
  induction l generalizing l' with
  | nil =>
    cases l' with
    | nil => rfl
    | cons y l' =>
      obtain ⟨c, t, hy, hc⟩ := hstart' y mem_cons_self
      cases l' <;> simp [writeList, hy, hc.symm] at h
  | cons x l ih =>
    obtain ⟨c, t, hx, hc⟩ := hstart x mem_cons_self
    rcases l' with _ | ⟨y, l'⟩
    · cases l <;> simp [writeList, hx, hc] at h
    have hhead := hread x mem_cons_self y mem_cons_self
    -- behind the first items comes a comma on both sides or on neither
    rcases l with _ | ⟨_, _⟩
    · rcases l' with _ | ⟨_, _⟩
      · rw [hhead _ _ (hstops r).1 (hstops r').1 h]
      simp only [writeList, append_assoc, cons_append] at h
      obtain rfl := hhead _ _ (hstops r).1 (hstops _).2 h
      simp [hclose.1] at h
    rcases l' with _ | ⟨_, _⟩
    · simp only [writeList, append_assoc, cons_append] at h
      obtain rfl := hhead _ _ (hstops _).2 (hstops r').1 h
      simp [hclose.1.symm] at h
    simp only [writeList, append_assoc, cons_append] at h
    obtain rfl := hhead _ _ (hstops _).2 (hstops _).2 h
    rw [ih (fun a ha b hb => hread a (.tail _ ha) b (.tail _ hb)) (fun a ha => hstart a (.tail _ ha))
      (fun b hb => hstart' b (.tail _ hb)) (by simpa using h)]

lemma quote_inj {s s' : List Char} (h : quote s ++ r = quote s' ++ r') : s = s' ∧ r = r' := by
  have hread := readQuoted_quote s r
  rw [h, readQuoted_quote] at hread
  exact ⟨(Prod.mk.inj (Option.some.inj hread)).1.symm, (Prod.mk.inj (Option.some.inj hread)).2.symm⟩

lemma kind_eq_of_write {x y : Json (List Char)} (h : x.write ++ r = y.write ++ r') : x.kind = y.kind := by
  obtain ⟨c, t, hx, hc⟩ := exists_write_eq x
  obtain ⟨c', t', hy, hc'⟩ := exists_write_eq y
  rw [hx, hy] at h
  rw [← hc, ← hc', (cons.inj h).1]

/-- The text of a document is found at the front of a text. -/
lemma same_of_write (x y : Json (List Char)) (hr : Stops r) (hr' : Stops r')
    (h : x.write ++ r = y.write ++ r') : x.write = y.write ∧ Same x y := by
  have hkind := kind_eq_of_write h
  induction x generalizing y r r' with
  | null =>
    cases y with
    | null => exact ⟨rfl, trivial⟩
    | _ => cases hkind
  | bool b =>
    cases y with
    | bool b' =>
      obtain rfl : b = b' := by cases b <;> cases b' <;> simp [write] at h ⊢
      exact ⟨rfl, rfl⟩
    | _ => cases hkind
  | number token =>
    cases y with
    | number token' =>
      have htake : ∀ (t : { t : List Char // t ≠ [] ∧ ∀ c ∈ t, isNumeric c = true }) r, Stops r →
          (t.1 ++ r).takeWhile isNumeric = t.1 := by
        intro t r hr
        rw [takeWhile_append_of_pos t.2.2]
        cases r with
        | nil => simp
        | cons c => simp [hr c rfl]
      obtain rfl : token = token' := Subtype.ext ((htake token r hr).symm.trans (h ▸ htake token' r' hr'))
      exact ⟨rfl, rfl⟩
    | _ => cases hkind
  | string =>
    cases y with
    | string =>
      obtain rfl := (quote_inj h).1
      exact ⟨rfl, rfl⟩
    | _ => cases hkind
  | array n item ih =>
    cases y with
    | array n' item' =>
      have hitems : (ofFn fun i => (item i).write) = ofFn fun i => (item' i).write := by
        refine writeList_inj id ']' (fun t ht t' ht' r r' hr hr' h => ?_) (fun t ht => ?_) (fun t ht => ?_)
          (by decide) (by simpa [write] using h)
        · obtain ⟨i, rfl⟩ := mem_ofFn.mp ht
          obtain ⟨j, rfl⟩ := mem_ofFn.mp ht'
          exact (ih i _ hr hr' h (kind_eq_of_write h)).1
        · obtain ⟨i, rfl⟩ := mem_ofFn.mp ht
          exact exists_write_eq_ne _
        · obtain ⟨i, rfl⟩ := mem_ofFn.mp ht
          exact exists_write_eq_ne _
      obtain rfl : n = n' := by simpa using congrArg length hitems
      refine ⟨by rw [write, write, hitems], rfl, fun i => ?_⟩
      have hi := congrArg (· ++ []) (congrFun (ofFn_injective hitems) i)
      exact (ih i _ stops_nil stops_nil hi (kind_eq_of_write hi)).2
    | _ => cases hkind
  | object n key value ih =>
    cases y with
    | object n' key' value' =>
      have hmembers : (ofFn fun i => (key i, (value i).write)).insertionSort memberLE =
          (ofFn fun i => (key' i, (value' i).write)).insertionSort memberLE := by
        refine writeList_inj (writeMember id) '}' (fun m hm m' hm' r r' hr hr' h => ?_)
          (fun m _ => ⟨_, _, rfl, by decide⟩) (fun m _ => ⟨_, _, rfl, by decide⟩) (by decide)
          (by simpa [write] using h)
        obtain ⟨i, rfl⟩ := mem_ofFn.mp ((mem_insertionSort _).mp hm)
        obtain ⟨j, rfl⟩ := mem_ofFn.mp ((mem_insertionSort _).mp hm')
        simp only [writeMember, append_assoc, cons_append] at h
        obtain ⟨hkey, h⟩ := quote_inj h
        replace h := (cons.inj h).2
        exact Prod.ext hkey (ih i _ hr hr' h (kind_eq_of_write h)).1
      have hmem : ∀ m, (m ∈ ofFn fun i => (key i, (value i).write)) ↔
          m ∈ ofFn fun i => (key' i, (value' i).write) := fun m => by
        rw [← mem_insertionSort memberLE, hmembers, mem_insertionSort]
      have hsame : ∀ i j, (key i, (value i).write) = (key' j, (value' j).write) →
          key i = key' j ∧ Same (value i) (value' j) := by
        intro i j heq
        obtain ⟨hkey, hwrite⟩ := Prod.mk.inj heq
        replace hwrite := congrArg (· ++ []) hwrite
        exact ⟨hkey, (ih i _ stops_nil stops_nil hwrite (kind_eq_of_write hwrite)).2⟩
      refine ⟨by rw [write, write, hmembers], fun i => ?_, fun j => ?_⟩
      · obtain ⟨j, hj⟩ := mem_ofFn.mp ((hmem _).mp (mem_ofFn.mpr ⟨i, rfl⟩))
        exact ⟨j, hsame i j hj.symm⟩
      · obtain ⟨i, hi⟩ := mem_ofFn.mp ((hmem _).mpr (mem_ofFn.mpr ⟨j, rfl⟩))
        exact ⟨i, hsame i j hi⟩
    | _ => cases hkind

/-- Members with different names are in one order only. -/
lemma insertionSort_eq_of_perm {l l' : List (List Char × List Char)}
    (hnames : (l.map Prod.fst).Nodup) (h : l.Perm l') :
    l.insertionSort memberLE = l'.insertionSort memberLE := by
  have : Std.Total memberLE := ⟨fun a b => le_total a.1 b.1⟩
  have : IsTrans (List Char × List Char) memberLE :=
    ⟨fun a b c (hab : a.1 ≤ b.1) (hbc : b.1 ≤ c.1) => hab.trans hbc⟩
  have hsorted := pairwise_insertionSort memberLE
  refine Perm.eq_of_pairwise (fun a b ha hb hab hba => ?_) (hsorted l) (hsorted l') ?_
  · rw [mem_insertionSort] at ha hb
    exact inj_on_of_nodup_map hnames ha (h.mem_iff.mpr hb) (le_antisymm hab hba)
  · exact ((perm_insertionSort _ l).trans h).trans (perm_insertionSort _ l').symm

lemma write_of_same (x y : Json (List Char)) (hx : x.distinct = true) (hy : y.distinct = true)
    (h : Same x y) : x.write = y.write := by
  induction x generalizing y with
  | array n item ih =>
    cases y with
    | array n' item' =>
      obtain ⟨rfl, hitems⟩ := h
      rw [distinct, decide_eq_true_eq] at hx hy
      have heq : (fun i => (item i).write) = fun i => (item' i).write :=
        funext fun i => ih i _ (hx i) (hy i) (hitems i)
      rw [write, write, heq]
    | _ => exact h.elim
  | object n key value ih =>
    cases y with
    | object n' key' value' =>
      rw [distinct, decide_eq_true_eq] at hx hy
      have hnames : ∀ {n} {key : Fin n → List Char} {value : Fin n → Json (List Char)},
          (ofFn key).Nodup → ((ofFn fun i => (key i, (value i).write)).map Prod.fst).Nodup := by
        intro n key value h
        rwa [map_ofFn]
      have hperm : (ofFn fun i => (key i, (value i).write)).Perm
          (ofFn fun i => (key' i, (value' i).write)) := by
        refine (perm_ext_iff_of_nodup (.of_map _ (hnames hx.1)) (.of_map _ (hnames hy.1))).mpr
          fun m => ?_
        simp only [mem_ofFn]
        constructor
        · rintro ⟨i, rfl⟩
          obtain ⟨j, hkey, hsame⟩ := h.1 i
          exact ⟨j, by rw [hkey, ih i _ (hx.2 i) (hy.2 j) hsame]⟩
        · rintro ⟨j, rfl⟩
          obtain ⟨i, hkey, hsame⟩ := h.2 j
          exact ⟨i, by rw [hkey, ih i _ (hx.2 i) (hy.2 j) hsame]⟩
      rw [write, write, insertionSort_eq_of_perm (hnames hx.1) hperm]
    | _ => exact h.elim
  | _ => cases y <;> first | exact h.elim | rfl | rw [show _ = _ from h]

/-- Documents without repeated members have the same text exactly when they are the same. -/
lemma write_eq_iff {x y : Json (List Char)} (hx : x.distinct = true) (hy : y.distinct = true) :
    x.write = y.write ↔ Same x y := by
  refine ⟨fun h => ?_, write_of_same x y hx hy⟩
  exact (same_of_write x y stops_nil stops_nil (by simpa using h)).2

end Json

end Paperboat

import Paperboat.Lib.JsonTree

/-!
# The canonical hash of a request

`CanonicalHash` in `internal/operation/journal.go`: a request is decoded, encoded again and hashed. An
array without items is decoded to a slice that is nil, which is encoded as `null`
(`canonicalHash_confuses`). The grammar of JSON is a parameter.
-/

namespace Paperboat.Operation

open Json

/-- A string of a request: its characters, and the escapes of surrogates without a partner. -/
abbrev Literal := List (Char ⊕ UInt16)

/-- The string of Go for it. -/
def Literal.text (s : Literal) : List Char := s.map fun c => c.elim id fun _ => '�'

/-- `decodeValue`. An object is a map, whose entries are in no order; it is refused if a key comes
twice. -/
def decodeValue (x : Json Literal) : Option (Json (List Char)) :=
  if (x.map Literal.text).distinct then some (x.map Literal.text) else none

/-- The slice that no item was appended to is nil. -/
def nilSlices : Json (List Char) → Json (List Char)
  | array n item => if n = 0 then null else array n fun i => nilSlices (item i)
  | object n key value => object n key fun i => nilSlices (value i)
  | x => x

/-- `json.Marshal` of a decoded value: a nil slice is written as `null`. -/
def marshal (x : Json (List Char)) : List Char := (nilSlices x).write

variable {δ : Type} (parse : List UInt8 → Option (Json Literal)) (sha256 : List Char → δ)

/-- `CanonicalHash`. -/
def canonicalHash (request : List UInt8) : Option δ :=
  ((parse request).bind decodeValue).map fun x => sha256 (marshal x)

lemma distinct_nilSlices (x : Json (List Char)) (h : x.distinct = true) : (nilSlices x).distinct = true := by
  induction x with
  | array n item ih =>
    rw [distinct, decide_eq_true_eq] at h
    unfold nilSlices
    split
    · rfl
    · simpa [distinct] using fun i => ih i (h i)
  | object n key value ih =>
    rw [distinct, decide_eq_true_eq] at h
    simpa [distinct, nilSlices] using ⟨h.1, fun i => ih i (h.2 i)⟩
  | _ => exact h

lemma same_nilSlices {x y : Json (List Char)} (h : Same x y) : Same (nilSlices x) (nilSlices y) := by
  induction x generalizing y with
  | array n item ih =>
    cases y with
    | array =>
      obtain ⟨rfl, hitems⟩ := h
      unfold nilSlices
      split
      · trivial
      · exact ⟨rfl, fun i => ih i (hitems i)⟩
    | _ => exact h.elim
  | object n key value ih =>
    cases y with
    | object =>
      refine ⟨fun i => ?_, fun j => ?_⟩
      · obtain ⟨j, hkey, hvalue⟩ := h.1 i
        exact ⟨j, hkey, ih i hvalue⟩
      · obtain ⟨i, hkey, hvalue⟩ := h.2 j
        exact ⟨i, hkey, ih i hvalue⟩
    | _ => exact h.elim
  | _ => cases y <;> first | exact h.elim | exact h

/-- The members of an object and the strings are told apart once they are strings of Go, and so are
empty arrays from `null`. -/
structure Telling (x y : Json Literal) : Prop where
  left : (x.map Literal.text).distinct = true
  right : (y.map Literal.text).distinct = true
  same : Same (nilSlices (x.map Literal.text)) (nilSlices (y.map Literal.text)) → Same x y

variable {parse sha256}

/-- Two requests without repeated members are hashed, and have the same hash exactly if they are the same
document, exactly when they can be told apart. -/
theorem canonicalHash_eq_iff (hsha256 : Function.Injective sha256) {a b : List UInt8} {x y : Json Literal}
    (ha : parse a = some x) (hb : parse b = some y) :
    ((∃ d, canonicalHash parse sha256 a = some d) ∧ (∃ d, canonicalHash parse sha256 b = some d) ∧
      (canonicalHash parse sha256 a = canonicalHash parse sha256 b ↔ Same x y)) ↔ Telling x y := by
  have hhash : ∀ {request z}, parse request = some z → canonicalHash parse sha256 request =
      if (z.map Literal.text).distinct = true then some (sha256 (marshal (z.map Literal.text))) else none := by
    intro request z h
    rw [canonicalHash, h, Option.bind_some, decodeValue]
    split <;> rfl
  rw [hhash ha, hhash hb]
  by_cases hx : (x.map Literal.text).distinct = true
  · by_cases hy : (y.map Literal.text).distinct = true
    · have hiff : sha256 (marshal (x.map Literal.text)) = sha256 (marshal (y.map Literal.text)) ↔
          Same (nilSlices (x.map Literal.text)) (nilSlices (y.map Literal.text)) := by
        rw [hsha256.eq_iff, marshal, marshal,
          write_eq_iff (distinct_nilSlices _ hx) (distinct_nilSlices _ hy)]
      rw [if_pos hx, if_pos hy, Option.some_inj, hiff]
      constructor
      · rintro ⟨-, -, h⟩
        exact ⟨hx, hy, h.mp⟩
      · rintro ⟨-, -, h⟩
        exact ⟨⟨_, rfl⟩, ⟨_, rfl⟩, h, fun hsame => same_nilSlices (hsame.map _)⟩
    · rw [if_neg hy]
      exact iff_of_false (by simp) fun h => hy h.right
  · rw [if_neg hx]
    exact iff_of_false (by simp) fun h => hx h.left

/-- The bytes of a request in ASCII. -/
def ascii (text : String) : List UInt8 := text.toList.map fun c => UInt8.ofNat c.toNat

/-- The parser on three requests. -/
def sampleParse (request : List UInt8) : Option (Json Literal) :=
  if request = ascii "\x7b\"\":null\x7d" then some (object 1 (fun _ => []) fun _ => null)
  else if request = ascii "[]" then some (array 0 Fin.elim0)
  else if request = ascii "null" then some null
  else none

/-- An object and an empty array. -/
theorem canonicalHash_of_object : canonicalHash sampleParse id (ascii "\x7b\"\":null\x7d") ≠
    canonicalHash sampleParse id (ascii "[]") := by
  have hobject : sampleParse (ascii "\x7b\"\":null\x7d") =
      some (object 1 (fun _ => []) fun _ => null) := rfl
  have harray : sampleParse (ascii "[]") = some (array 0 Fin.elim0) := rfl
  obtain ⟨-, -, h⟩ := (canonicalHash_eq_iff Function.injective_id hobject harray).mpr ⟨rfl, rfl, fun h => h.elim⟩
  exact fun heq => h.mp heq

/-- The empty array and `null` have the same hash, whatever the hash function. -/
theorem canonicalHash_confuses : ∃ x y : Json Literal, sampleParse (ascii "[]") = some x ∧
    sampleParse (ascii "null") = some y ∧ x.distinct = true ∧ y.distinct = true ∧ ¬ Same x y ∧
    canonicalHash sampleParse id (ascii "[]") = some ['n', 'u', 'l', 'l'] ∧
    canonicalHash sampleParse id (ascii "null") = some ['n', 'u', 'l', 'l'] :=
  ⟨array 0 Fin.elim0, null, rfl, rfl, rfl, rfl, fun h => h.elim, by decide +kernel, by decide +kernel⟩

end Paperboat.Operation

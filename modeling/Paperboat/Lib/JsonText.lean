import Mathlib

/-!
# JSON text

How `json.Marshal` of Go writes strings, and their size in bytes. The characters `<`, `>` and `&` and the
two line separators U+2028 and U+2029 are written as escapes.
-/

namespace Paperboat.JsonText

open List Nat

/-- The size in UTF-8. -/
def byteLength (l : List Char) : ℕ := (l.map Char.utf8Size).sum

@[simp] lemma byteLength_cons (c : Char) (l : List Char) :
    byteLength (c :: l) = c.utf8Size + byteLength l := rfl

@[simp] lemma byteLength_append (l l' : List Char) :
    byteLength (l ++ l') = byteLength l + byteLength l' := by
  simp [byteLength]

/-- Every character has at least one byte. -/
lemma length_le_byteLength (l : List Char) : l.length ≤ byteLength l := by
  have hsum := length_le_sum_of_one_le (l.map Char.utf8Size)
    (forall_mem_map.mpr fun c _ => Char.utf8Size_pos c)
  rwa [length_map] at hsum

/-- The bytes as characters: a text that determines them. -/
def latinText (bytes : List UInt8) : String := String.ofList (bytes.map fun b => Char.ofNat b.toNat)

/-- Different bytes are different texts. -/
lemma latinText_injective : Function.Injective latinText := by
  have hchar : Function.Injective fun b : UInt8 => Char.ofNat b.toNat := by
    intro b b' heq
    have hvalid (c : UInt8) : c.toNat.isValidChar := .inl (c.toNat_lt.trans (by decide))
    have hnat := congrArg Char.toNat heq
    simp only [Char.toNat_ofNat, if_pos (hvalid _)] at hnat
    exact UInt8.toNat_inj.mp hnat
  intro bytes bytes' heq
  exact map_injective_iff.mpr hchar (String.ofList_injective heq)

/-! ### Escapes -/

/-- A character that is escaped everywhere. -/
def isSpecial (c : Char) : Bool :=
  c = '<' ∨ c = '>' ∨ c = '&' ∨ c = '\u2028' ∨ c = '\u2029'

/-- A character of the first plane by its number. -/
def escape (c : Char) : List Char :=
  ['\\', 'u', Nat.digitChar (c.toNat / 4096 % 16), Nat.digitChar (c.toNat / 256 % 16),
    Nat.digitChar (c.toNat / 16 % 16), Nat.digitChar (c.toNat % 16)]

/-! ### Strings -/

/-- The letter of a short escape. -/
def shortEscape (c : Char) : Option Char :=
  if c = '"' ∨ c = '\\' then some c
  else if c = '\x08' then some 'b'
  else if c = '\x0c' then some 'f'
  else if c = '\n' then some 'n'
  else if c = '\r' then some 'r'
  else if c = '\t' then some 't'
  else none

/-- A character in a string. -/
def quoteChar (c : Char) : List Char :=
  match shortEscape c with
  | some d => ['\\', d]
  | none => if c.toNat < 32 ∨ isSpecial c = true then escape c else [c]

/-- A string. -/
def quote (l : List Char) : List Char := '"' :: l.flatMap quoteChar ++ ['"']

/-- The space between tokens. -/
def isSpace (c : Char) : Bool := c = ' ' ∨ c = '\t' ∨ c = '\n' ∨ c = '\r'

end Paperboat.JsonText

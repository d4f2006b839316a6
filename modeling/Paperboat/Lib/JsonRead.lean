import Paperboat.Lib.JsonText

/-!
# Reading JSON text back

The counterpart of `JsonText`: every reader takes its value off the front of a text, and its lemma says
that it finds what was written, whatever follows. A string of Go is a sequence of bytes; those that
belong to no character are written as the replacement character, so that a string with such bytes is not
read back as it was (`readString_quoteString`).
-/

namespace Paperboat.JsonText

open List Nat Option

/-! ### Strings -/

/-- The value of a hexadecimal digit. -/
def hexValue (c : Char) : ℕ :=
  if c.toNat < 58 then c.toNat - 48 else c.toNat - 87

/-- The character of a short escape. -/
def unescape (d : Char) : Char :=
  if d = 'b' then '\x08'
  else if d = 'f' then '\x0c'
  else if d = 'n' then '\n'
  else if d = 'r' then '\r'
  else if d = 't' then '\t'
  else d

/-- Where a reader of a string stands: between characters, behind a backslash, or in an escape by
number, with the digits to come after the next one and the value so far. -/
inductive Scan where
  | plain
  | escaped
  | hex (more value : ℕ)
  deriving DecidableEq

/-- The characters of a string up to its closing quote, and what follows. -/
def readBody : Scan → List Char → Option (List Char × List Char)
  | _, [] => none
  | .plain, c :: t =>
    if c = '"' then some ([], t)
    else if c = '\\' then readBody .escaped t
    else (readBody .plain t).map fun r => (c :: r.1, r.2)
  | .escaped, c :: t =>
    if c = 'u' then readBody (.hex 3 0) t
    else (readBody .plain t).map fun r => (unescape c :: r.1, r.2)
  | .hex 0 value, c :: t =>
    (readBody .plain t).map fun r => (Char.ofNat (16 * value + hexValue c) :: r.1, r.2)
  | .hex (more + 1) value, c :: t => readBody (.hex more (16 * value + hexValue c)) t

/-- A string at the front of a text. -/
def readQuoted : List Char → Option (List Char × List Char)
  | '"' :: t => readBody .plain t
  | _ => none

/-- Hexadecimal digits are read back. -/
lemma hexValue_digitChar {d : ℕ} (hd : d < 16) : hexValue (digitChar d) = d := by
  have hall : ∀ d : Fin 16, hexValue (digitChar d) = d := by decide
  exact hall ⟨d, hd⟩

variable {c : Char}

/-- A character that was escaped by its number is read back. -/
lemma readBody_escape (hc : c.toNat < 65536) (t : List Char) :
    readBody .plain (escape c ++ t) = (readBody .plain t).map fun r => (c :: r.1, r.2) := by
  have hmod : ∀ n, hexValue (digitChar (n % 16)) = n % 16 := fun n =>
    hexValue_digitChar (mod_lt n (by decide))
  have hvalue : 16 * (16 * (16 * (16 * 0 + c.toNat / 4096 % 16) + c.toNat / 256 % 16) +
      c.toNat / 16 % 16) + c.toNat % 16 = c.toNat := by
    omega
  have hquote : '\\' ≠ '"' := by decide
  simp only [escape, cons_append, nil_append, readBody, hquote, if_false, if_true, hmod,
    hvalue, Char.ofNat_toNat]

/-- A character with a short escape is read back. -/
lemma unescape_shortEscape {d : Char} (h : shortEscape c = some d) : d ≠ 'u' ∧ unescape d = c := by
  unfold shortEscape at h
  split at h
  · next hc => rcases hc with rfl | rfl <;> cases h <;> decide
  split_ifs at h with h₁ h₂ h₃ h₄ h₅ <;> cases h
  · subst h₁
    decide
  · subst h₂
    decide
  · subst h₃
    decide
  · subst h₄
    decide
  · subst h₅
    decide

/-- Every character of a string is read back. -/
lemma readBody_quoteChar (c : Char) (t : List Char) :
    readBody .plain (quoteChar c ++ t) = (readBody .plain t).map fun r => (c :: r.1, r.2) := by
  unfold quoteChar
  split
  · next d hd =>
    obtain ⟨hu, hun⟩ := unescape_shortEscape hd
    have hquote : '\\' ≠ '"' := by decide
    simp only [cons_append, nil_append, readBody, hquote, if_false, if_true, hu, hun]
  · next hshort =>
    split
    · next hspecial =>
      refine readBody_escape ?_ _
      rcases hspecial with hlow | hspecial
      · omega
      · simp only [isSpecial, decide_eq_true_eq] at hspecial
        rcases hspecial with rfl | rfl | rfl | rfl | rfl <;> decide
    · have hne : c ≠ '"' ∧ c ≠ '\\' := by
        constructor <;> rintro rfl <;> simp [shortEscape] at hshort
      simp only [cons_append, nil_append, readBody, hne.1, hne.2, if_false]

/-- Every string is read back. -/
lemma readQuoted_quote (l rest : List Char) : readQuoted (quote l ++ rest) = some (l, rest) := by
  have hbody : readBody .plain (l.flatMap quoteChar ++ '"' :: rest) = some (l, rest) := by
    induction l with
    | nil => simp [readBody]
    | cons c l ih =>
      rw [flatMap_cons, append_assoc, readBody_quoteChar, ih]
      rfl
  simp only [quote, readQuoted, cons_append, append_assoc, nil_append, hbody]

/-! ### Strings of Go -/

/-- A string of Go, character by character; a byte that belongs to no character stands alone. -/
abbrev GoString := List (Char ⊕ UInt8)

instance lawfulBEqUnit : LawfulBEq (Char ⊕ UInt8) where
  eq_of_beq {a b} h := by
    cases a <;> cases b <;> first | exact congrArg _ (eq_of_beq h) | cases h
  rfl {a} := by
    cases a with
    | inl c => exact (beq_iff_eq (a := c)).mpr rfl
    | inr b => exact (beq_iff_eq (a := b)).mpr rfl

/-- The string of a text. -/
def ofText (t : List Char) : GoString := t.map Sum.inl

/-- A character; the replacement character stands for a byte that belongs to none. -/
def rune : Char ⊕ UInt8 → Char := Sum.elim id fun _ => '�'

/-- The characters of a string. -/
def sanitize (s : GoString) : List Char := s.map rune

/-- The string is valid UTF-8. -/
def Valid (s : GoString) : Prop := ∀ r ∈ s, r.isLeft = true

instance (s : GoString) : Decidable (Valid s) :=
  inferInstanceAs (Decidable (∀ r ∈ s, r.isLeft = true))

/-- One character of a string, or one stray byte. -/
def quoteRune : Char ⊕ UInt8 → List Char
  | .inl c => quoteChar c
  | .inr _ => escape '�'

/-- How a string of Go is written. -/
def quoteString (s : GoString) : List Char := '"' :: s.flatMap quoteRune ++ ['"']

/-- A string of Go at the front of a text. -/
def readString (t : List Char) : Option (GoString × List Char) :=
  (readQuoted t).map fun r => (ofText r.1, r.2)

/-- What a string of Go becomes when it is written and read. -/
lemma ofText_sanitize (s : GoString) : ofText (sanitize s) = s.map fun r => .inl (rune r) := by
  simp [ofText, sanitize]

/-- A string is read back as it was if and only if it is valid. -/
lemma ofText_sanitize_eq_iff (s : GoString) : ofText (sanitize s) = s ↔ Valid s := by
  induction s with
  | nil => simp [ofText_sanitize, Valid]
  | cons r s ih =>
    simp only [ofText_sanitize, Valid, map_cons, List.cons.injEq, forall_mem_cons] at ih ⊢
    refine and_congr ?_ ih
    cases r <;> simp [rune]

/-- Text is valid UTF-8. -/
lemma valid_ofText (t : List Char) : Valid (ofText t) := by
  intro r hr
  obtain ⟨c, -, rfl⟩ := mem_map.mp hr
  rfl

/-- A character is read back, and a stray byte as the replacement character. -/
lemma readBody_quoteRune (r : Char ⊕ UInt8) (t : List Char) : readBody .plain (quoteRune r ++ t) =
      (readBody .plain t).map fun p => (rune r :: p.1, p.2) := by
  cases r with
  | inl c => exact readBody_quoteChar c t
  | inr => exact readBody_escape (by decide) t

/-- A string of Go is read back without its stray bytes. -/
lemma readString_quoteString (s : GoString) (rest : List Char) :
    readString (quoteString s ++ rest) = some (ofText (sanitize s), rest) := by
  have hbody : readBody .plain (s.flatMap quoteRune ++ '"' :: rest) = some (sanitize s, rest) := by
    induction s with
    | nil => simp [readBody, sanitize]
    | cons r s ih =>
      rw [flatMap_cons, append_assoc, readBody_quoteRune, ih]
      rfl
  simp only [readString, quoteString, readQuoted, cons_append, append_assoc,
    nil_append, hbody, map_some]

/-! ### Numbers -/

/-- A number at the front of a text. -/
def readNumber (t : List Char) : Option (ℕ × List Char) :=
  match t.takeWhile Char.isDigit with
  | [] => none
  | c :: digits => some (Nat.ofDigitChars 10 (c :: digits) 0, t.dropWhile Char.isDigit)

/-- The first digit of a number. -/
lemma exists_toDigits_eq_cons (n : ℕ) : ∃ d digits, toDigits 10 n = d :: digits ∧ d.isDigit = true := by
  obtain ⟨d, digits, hcons⟩ := exists_cons_of_ne_nil (@Nat.toDigits_ne_nil n 10)
  refine ⟨d, digits, hcons, isDigit_of_mem_toDigits (b := 10) (n := n) (by decide) (by decide) ?_⟩
  rw [hcons]
  exact mem_cons_self

/-- A number is read back if no digit follows it. -/
lemma readNumber_toDigits (n : ℕ) (hc : c.isDigit = false) (rest : List Char) :
    readNumber (toDigits 10 n ++ c :: rest) = some (n, c :: rest) := by
  have hdigits : ∀ d ∈ toDigits 10 n, d.isDigit = true := fun d hd =>
    isDigit_of_mem_toDigits (by decide) (by decide) hd
  have htake : (toDigits 10 n ++ c :: rest).takeWhile Char.isDigit = toDigits 10 n := by
    rw [takeWhile_append_of_pos hdigits]
    simp [hc]
  have hdrop : (toDigits 10 n ++ c :: rest).dropWhile Char.isDigit = c :: rest := by
    rw [dropWhile_append_of_pos hdigits]
    simp [hc]
  obtain ⟨d, digits, hcons, -⟩ := exists_toDigits_eq_cons n
  unfold readNumber
  rw [htake, hdrop, hcons]
  simp only [← hcons, ofDigitChars_ten_toDigits]

/-! ### Byte slices -/

/-- The characters of base 64. -/
def alphabet : List Char :=
  ['A', 'B', 'C', 'D', 'E', 'F', 'G', 'H', 'I', 'J', 'K', 'L', 'M', 'N', 'O', 'P', 'Q', 'R', 'S', 'T',
    'U', 'V', 'W', 'X', 'Y', 'Z', 'a', 'b', 'c', 'd', 'e', 'f', 'g', 'h', 'i', 'j', 'k', 'l', 'm', 'n',
    'o', 'p', 'q', 'r', 's', 't', 'u', 'v', 'w', 'x', 'y', 'z', '0', '1', '2', '3', '4', '5', '6', '7',
    '8', '9', '+', '/']

/-- The character of six bits. -/
def sextet (n : ℕ) : Char := alphabet.getD n '='

/-- The six bits of a character. -/
def sextetValue (c : Char) : ℕ := alphabet.idxOf c

/-- `base64.StdEncoding.EncodeToString`. -/
def base64 : List UInt8 → List Char
  | [] => []
  | [a] => [sextet (a.toNat / 4), sextet (a.toNat % 4 * 16), '=', '=']
  | [a, b] =>
    [sextet (a.toNat / 4), sextet (a.toNat % 4 * 16 + b.toNat / 16), sextet (b.toNat % 16 * 4), '=']
  | a :: b :: c :: rest =>
    sextet (a.toNat / 4) :: sextet (a.toNat % 4 * 16 + b.toNat / 16) ::
      sextet (b.toNat % 16 * 4 + c.toNat / 64) :: sextet (c.toNat % 64) :: base64 rest

/-- The three bytes of four characters. -/
def threeBytes (w x y z : Char) : List UInt8 :=
  [UInt8.ofNat (sextetValue w * 4 + sextetValue x / 16),
    UInt8.ofNat (sextetValue x % 16 * 16 + sextetValue y / 4),
    UInt8.ofNat (sextetValue y % 4 * 64 + sextetValue z)]

/-- `base64.StdEncoding.DecodeString`, on what the encoder writes. -/
def unbase64 : List Char → Option (List UInt8)
  | [] => some []
  | w :: x :: y :: z :: rest =>
    if z = '=' then
      if rest ≠ [] then none
      else if y = '=' then some ((threeBytes w x 'A' 'A').take 1)
      else some ((threeBytes w x y 'A').take 2)
    else (unbase64 rest).map (threeBytes w x y z ++ ·)
  | _ => none

/-- Six bits are read back from their character, which is not the padding. -/
lemma sextetValue_sextet {n : ℕ} (hn : n < 64) : sextetValue (sextet n) = n ∧ sextet n ≠ '=' := by
  have hall : ∀ n : Fin 64, sextetValue (sextet n) = n ∧ sextet n ≠ '=' := by decide +kernel
  exact hall ⟨n, hn⟩

/-- Three bytes are read back from their characters. -/
lemma threeBytes_sextet (a b c : UInt8) :
    threeBytes (sextet (a.toNat / 4)) (sextet (a.toNat % 4 * 16 + b.toNat / 16))
      (sextet (b.toNat % 16 * 4 + c.toNat / 64)) (sextet (c.toNat % 64)) = [a, b, c] := by
  have ha := a.toNat_lt
  have hb := b.toNat_lt
  have hc := c.toNat_lt
  have h₁ := (sextetValue_sextet (n := a.toNat / 4) (by omega)).1
  have h₂ := (sextetValue_sextet (n := a.toNat % 4 * 16 + b.toNat / 16) (by omega)).1
  have h₃ := (sextetValue_sextet (n := b.toNat % 16 * 4 + c.toNat / 64) (by omega)).1
  have h₄ := (sextetValue_sextet (n := c.toNat % 64) (by omega)).1
  have hv₁ : a.toNat / 4 * 4 + (a.toNat % 4 * 16 + b.toNat / 16) / 16 = a.toNat := by omega
  have hv₂ : (a.toNat % 4 * 16 + b.toNat / 16) % 16 * 16 + (b.toNat % 16 * 4 + c.toNat / 64) / 4 =
      b.toNat := by
    omega
  have hv₃ : (b.toNat % 16 * 4 + c.toNat / 64) % 4 * 64 + c.toNat % 64 = c.toNat := by omega
  simp only [threeBytes, h₁, h₂, h₃, h₄, hv₁, hv₂, hv₃, UInt8.ofNat_toNat]

/-- Bytes are read back. Where one or two are missing at the end, they are zero. -/
lemma unbase64_base64 (bytes : List UInt8) : unbase64 (base64 bytes) = some bytes := by
  induction bytes using base64.induct with
  | case1 => rfl
  | case2 a => exact congrArg (fun l => some (l.take 1)) (threeBytes_sextet a 0 0)
  | case3 a b =>
    have hb := b.toNat_lt
    have hpad := (sextetValue_sextet (n := b.toNat % 16 * 4) (by omega)).2
    simp only [base64, unbase64, hpad, if_true, ne_eq, not_true_eq_false, if_false]
    exact congrArg (fun l => some (l.take 2)) (threeBytes_sextet a b 0)
  | case4 a b c rest ih =>
    have hpad := (sextetValue_sextet (n := c.toNat % 64) (by omega)).2
    simp only [base64, unbase64, hpad, if_false, ih, threeBytes_sextet, map_some, cons_append, nil_append]

/-- Three bytes make four characters. -/
lemma length_base64 (bytes : List UInt8) : (base64 bytes).length = 4 * ((bytes.length + 2) / 3) := by
  induction bytes using base64.induct with
  | case1 | case2 | case3 => simp [base64]
  | case4 a b c rest ih =>
    simp only [base64, length_cons, ih]
    omega

/-- A string is not shorter than its characters. -/
lemma length_le_byteLength_quote (l : List Char) : l.length ≤ byteLength (quote l) := by
  have hchar : ∀ c, 1 ≤ (quoteChar c).length := by
    intro c
    unfold quoteChar
    split
    · exact one_le_two
    · split <;> simp [escape]
  have hbody : l.length ≤ (l.flatMap quoteChar).length := by
    have hsum := length_le_sum_of_one_le (l.map fun c => (quoteChar c).length)
      (forall_mem_map.mpr fun c _ => hchar c)
    rwa [length_map, ← length_flatMap] at hsum
  refine (hbody.trans ?_).trans (length_le_byteLength _)
  rw [quote, length_append, length_cons]
  omega

/-! ### Sequences -/

section
variable {α β : Type} (write : α → List Char) (read : List Char → Option (β × List Char))

/-- The items of a sequence, with commas between them. -/
def writeList : List α → List Char
  | [] => []
  | [x] => write x
  | x :: y :: l => write x ++ ',' :: writeList (y :: l)

variable {l : List α}

/-- A sequence is at least as long as each of its items. -/
lemma byteLength_le_writeList {x : α} (hx : x ∈ l) :
    byteLength (write x) ≤ byteLength (writeList write l) := by
  induction l with
  | nil => exact absurd hx not_mem_nil
  | cons y l ih =>
    rcases l with _ | ⟨_, _⟩
    · cases mem_singleton.mp hx
      exact le_rfl
    rw [writeList, byteLength_append, byteLength_cons]
    rcases mem_cons.mp hx with rfl | hx
    · exact le_add_right _ _
    · have := ih hx
      omega

/-- The items up to a closing character, of which there are at most as many as the fuel. -/
def readList (close : Char) : ℕ → List Char → Option (List β × List Char)
  | 0, _ => none
  | fuel + 1, t =>
    match read t with
    | some (x, c :: t) =>
      if c = ',' then (readList close fuel t).map fun r => (x :: r.1, r.2)
      else if c = close then some ([x], t)
      else none
    | _ => none

/-- A sequence up to its closing character, which may be empty. -/
def readSeq (close : Char) (t : List Char) : Option (List β × List Char) :=
  match t with
  | [] => none
  | c :: rest => if c = close then some ([], rest) else readList read close (c :: rest).length (c :: rest)

variable {write read} {f : α → β} {close : Char}

/-- A sequence is read back if its items are. -/
lemma readList_writeList (hne : l ≠ []) (hclose : close ≠ ',')
    (hread : ∀ x ∈ l, ∀ c, c = ',' ∨ c = close → ∀ rest,
      read (write x ++ c :: rest) = some (f x, c :: rest)) {fuel : ℕ} (hfuel : l.length ≤ fuel)
    (rest : List Char) :
    readList read close fuel (writeList write l ++ close :: rest) = some (l.map f, rest) := by
  induction l generalizing fuel with
  | nil => exact absurd rfl hne
  | cons x l ih =>
    obtain ⟨fuel, rfl⟩ : ∃ n, fuel = n + 1 := ⟨fuel - 1, by simp at hfuel; omega⟩
    rcases l with _ | ⟨_, _⟩
    · rw [writeList, readList, hread x mem_cons_self close (.inr rfl)]
      simp [hclose]
    rw [writeList, append_assoc, cons_append, readList, hread x mem_cons_self ',' (.inl rfl)]
    simp only [if_true]
    rw [ih (by simp) (fun z hz => hread z (mem_cons_of_mem _ hz)) (by simpa using hfuel)]
    rfl

/-- A sequence is read back when no item begins with the closing character. -/
lemma readSeq_writeList (l : List α) (hclose : close ≠ ',')
    (hread : ∀ x ∈ l, ∀ c, c = ',' ∨ c = close → ∀ rest,
      read (write x ++ c :: rest) = some (f x, c :: rest))
    (hhead : ∀ x ∈ l, ∃ c t, write x = c :: t ∧ c ≠ close) (rest : List Char) :
    readSeq read close (writeList write l ++ close :: rest) = some (l.map f, rest) := by
  rcases l with _ | ⟨x, l⟩
  · simp [readSeq, writeList]
  obtain ⟨c, t, hwrite, hc⟩ := hhead x mem_cons_self
  have hfirst : ∃ t', writeList write (x :: l) = c :: t' := by
    cases l with
    | nil => exact ⟨t, hwrite⟩
    | cons y l => exact ⟨t ++ ',' :: writeList write (y :: l), by rw [writeList, hwrite]; rfl⟩
  have hlength : ∀ l : List α, (∀ x ∈ l, ∃ c t, write x = c :: t ∧ c ≠ close) →
      l.length ≤ (writeList write l).length := by
    intro l hl
    induction l with
    | nil => exact zero_le _
    | cons x l ih =>
      obtain ⟨c, t, hwrite, -⟩ := hl x mem_cons_self
      have htail := ih fun y hy => hl y (mem_cons_of_mem _ hy)
      cases l with
      | nil => simp [writeList, hwrite]
      | cons =>
        simp only [writeList, hwrite, length_append, length_cons] at htail ⊢
        omega
  obtain ⟨t', ht'⟩ := hfirst
  have hall := @readList_writeList α β write read (x :: l) f close (by simp) hclose hread
    (writeList write (x :: l) ++ close :: rest).length
    (by rw [length_append]; exact (hlength _ hhead).trans (le_add_right _ _)) rest
  rw [ht', cons_append] at hall ⊢
  simp only [readSeq, hc, if_false]
  exact hall

end

/-! ### Records -/

/-- A value without structure. -/
inductive Scalar where
  | str (s : GoString)
  | num (n : ℕ)
  | bool (b : Bool)
  deriving DecidableEq

/-- How a scalar is written. -/
def Scalar.write : Scalar → List Char
  | .str s => quoteString s
  | .num n => Nat.toDigits 10 n
  | .bool true => ['t', 'r', 'u', 'e']
  | .bool false => ['f', 'a', 'l', 's', 'e']

/-- What a scalar is read back as. -/
def Scalar.sanitized : Scalar → Scalar
  | .str s => .str (ofText (sanitize s))
  | v => v

/-- A scalar at the front of a text. -/
def readScalar : List Char → Option (Scalar × List Char)
  | '"' :: t => (readString ('"' :: t)).map fun r => (.str r.1, r.2)
  | 't' :: 'r' :: 'u' :: 'e' :: t => some (.bool true, t)
  | 'f' :: 'a' :: 'l' :: 's' :: 'e' :: t => some (.bool false, t)
  | t => (readNumber t).map fun r => (.num r.1, r.2)

/-- A scalar is read back, its strings without stray bytes. -/
lemma readScalar_write (v : Scalar) (hc : c.isDigit = false) (rest : List Char) :
    readScalar (v.write ++ c :: rest) = some (v.sanitized, c :: rest) := by
  cases v with
  | str s =>
    have hread := readString_quoteString s (c :: rest)
    simp only [quoteString, cons_append] at hread
    simp only [Scalar.write, quoteString, cons_append, readScalar, hread, map_some]
    rfl
  | num n =>
    have hread := readNumber_toDigits n hc rest
    obtain ⟨d, digits, hcons, hd⟩ := exists_toDigits_eq_cons n
    simp only [Scalar.write, hcons, cons_append] at hread ⊢
    unfold readScalar
    split
    case h_4 =>
      rw [hread]
      rfl
    all_goals
      next h =>
      obtain ⟨rfl, -⟩ := List.cons.inj h
      cases hd
  | bool b => cases b <;> rfl

section
variable {α β : Type}

/-- A member of an object. -/
def writeMember (write : α → List Char) (m : List Char × α) : List Char :=
  quote m.1 ++ ':' :: write m.2

/-- A member of an object at the front of a text. -/
def readMember (read : List Char → Option (β × List Char)) (t : List Char) :
    Option ((List Char × β) × List Char) :=
  match readQuoted t with
  | some (key, ':' :: t) => (read t).map fun r => ((key, r.1), r.2)
  | _ => none

/-- An object. -/
def writeObject (write : α → List Char) (members : List (List Char × α)) : List Char :=
  '{' :: writeList (writeMember write) members ++ ['}']

/-- An object at the front of a text. -/
def readObject (read : List Char → Option (β × List Char)) :
    List Char → Option (List (List Char × β) × List Char)
  | '{' :: t => readSeq (readMember read) '}' t
  | _ => none

/-- An object is read back if the values of its members are. -/
lemma readObject_writeObject {write : α → List Char} {read : List Char → Option (β × List Char)}
    {f : α → β} (members : List (List Char × α))
    (hread : ∀ m ∈ members, ∀ c : Char, c.isDigit = false → ∀ rest,
      read (write m.2 ++ c :: rest) = some (f m.2, c :: rest)) (rest : List Char) :
    readObject read (writeObject write members ++ rest) =
      some (members.map fun m => (m.1, f m.2), rest) := by
  have hmember : ∀ m ∈ members, ∀ c, c = ',' ∨ c = '}' → ∀ rest,
      readMember read (writeMember write m ++ c :: rest) = some ((m.1, f m.2), c :: rest) := by
    intro m hm c hc rest
    have hdigit : c.isDigit = false := by rcases hc with rfl | rfl <;> decide
    simp only [readMember, writeMember, append_assoc, readQuoted_quote, cons_append,
      hread m hm c hdigit, map_some]
  have hseq := @readSeq_writeList _ _ (writeMember write) (readMember read)
    (fun m => (m.1, f m.2)) '}' members (by decide) hmember
    (fun m _ => ⟨'"', _, by rw [writeMember, quote]; rfl, by decide⟩) rest
  simpa only [readObject, writeObject, cons_append, append_assoc, nil_append] using hseq

end

/-- An object of scalars. -/
abbrev Record := List (List Char × Scalar)

/-- What a record is read back as. -/
def Record.sanitized (r : Record) : Record := r.map fun m => (m.1, m.2.sanitized)

/-- A value of a document: a scalar, or an array of records. -/
abbrev Value := Scalar ⊕ List Record

/-- How a value is written. -/
def writeValue : Value → List Char
  | .inl v => v.write
  | .inr records => '[' :: writeList (writeObject Scalar.write) records ++ [']']

/-- What a value is read back as. -/
def sanitizeValue : Value → Value := Sum.map Scalar.sanitized (List.map Record.sanitized)

/-- A value at the front of a text. -/
def readValue : List Char → Option (Value × List Char)
  | '[' :: t => (readSeq (readObject readScalar) ']' t).map fun r => (.inr r.1, r.2)
  | t => (readScalar t).map fun r => (.inl r.1, r.2)

/-- A scalar does not look like an array. -/
lemma Scalar.write_ne_bracket (v : Scalar) (t rest : List Char) : v.write ++ rest ≠ '[' :: t := by
  intro h
  cases v with
  | str => cases h
  | num n =>
    obtain ⟨d, digits, hcons, hd⟩ := exists_toDigits_eq_cons n
    simp only [Scalar.write, hcons, cons_append] at h
    obtain ⟨rfl, -⟩ := List.cons.inj h
    cases hd
  | bool b => cases b <;> cases h

/-- A value is read back, its strings without stray bytes. -/
lemma readValue_write (v : Value) (hc : c.isDigit = false) (rest : List Char) :
    readValue (writeValue v ++ c :: rest) = some (sanitizeValue v, c :: rest) := by
  cases v with
  | inl v =>
    rw [writeValue]
    unfold readValue
    split
    · next t h => exact absurd h (v.write_ne_bracket t _)
    · rw [readScalar_write v hc]
      rfl
  | inr records =>
    have hseq := @readSeq_writeList _ _ (writeObject Scalar.write) (readObject readScalar)
      Record.sanitized ']' records (by decide) (fun r _ c _ rest =>
        readObject_writeObject r (fun m _ _ hc rest => readScalar_write m.2 hc rest) (c :: rest))
      (fun r _ => ⟨'{', _, by rw [writeObject]; rfl, by decide⟩) (c :: rest)
    simp only [writeValue, cons_append, append_assoc, nil_append, readValue, hseq, map_some]
    rfl

/-- An object whose members may be arrays of records. -/
abbrev Document := List (List Char × Value)

/-- A document is read back, its strings without stray bytes. -/
lemma readDocument_write (d : Document) (rest : List Char) :
    readObject readValue (writeObject writeValue d ++ rest) =
      some (d.map fun m => (m.1, sanitizeValue m.2), rest) :=
  readObject_writeObject d (fun m _ _ hc rest => readValue_write m.2 hc rest) rest

/-! ### Arrays of strings -/

/-- A value of a document, or an array of strings. -/
abbrev Cell := Value ⊕ List GoString

/-- How a cell is written. -/
def writeCell : Cell → List Char
  | .inl v => writeValue v
  | .inr l => '[' :: writeList quoteString l ++ [']']

/-- What a cell is read back as. -/
def sanitizeCell : Cell → Cell := Sum.map sanitizeValue (List.map fun s => ofText (sanitize s))

/-- A cell at the front of a text. -/
def readCell (t : List Char) : Option (Cell × List Char) :=
  match readValue t with
  | some (v, rest) => some (.inl v, rest)
  | none =>
    match t with
    | '[' :: t => (readSeq readString ']' t).map fun r => (.inr r.1, r.2)
    | _ => none

/-- A cell is read back, if it is not an array without items. -/
lemma readCell_write {v : Cell} (hv : v ≠ .inr []) (hc : c.isDigit = false) (rest : List Char) :
    readCell (writeCell v ++ c :: rest) = some (sanitizeCell v, c :: rest) := by
  cases v with
  | inl v =>
    simp only [readCell, writeCell, readValue_write v hc]
    rfl
  | inr l =>
    have hseq := @readSeq_writeList _ _ quoteString readString (fun s => ofText (sanitize s)) ']' l
      (by decide) (fun s _ c _ rest => readString_quoteString s (c :: rest))
      (fun s _ => ⟨'"', _, by rw [quoteString]; rfl, by decide⟩) (c :: rest)
    obtain ⟨s, l, rfl⟩ := exists_cons_of_ne_nil fun hl => hv (congrArg _ hl)
    have hvalue : ∀ t, readValue ('[' :: '"' :: t) = none := fun t => by
      simp [readValue, readSeq, readList, readObject]
    obtain ⟨t, ht⟩ : ∃ t, writeList quoteString (s :: l) = '"' :: t := by
      cases l with
      | nil => exact ⟨_, rfl⟩
      | cons => exact ⟨_, rfl⟩
    simp only [writeCell, cons_append, append_assoc, nil_append, ht] at hseq ⊢
    simp only [readCell, hvalue, hseq, map_some]
    rfl

/-! ### Objects by their fields -/

section
variable {F α β : Type} (name : F → List Char) (fields : List F)

/-- The members of an object: the fields that have a value. -/
def membersOf (value : F → Option α) : List (List Char × α) :=
  fields.filterMap fun f => (value f).map fun v => (name f, v)

/-- The field of a member. -/
def fieldOf (key : List Char) : Option F := fields.find? fun f => name f = key

variable {name fields}

/-- The name of a field leads back to it. -/
lemma fieldOf_name (hname : (fields.map name).Nodup) {f : F} (hf : f ∈ fields) :
    fieldOf name fields (name f) = some f := by
  obtain ⟨g, hg⟩ : ∃ g, fields.find? (fun g => name g = name f) = some g :=
    Option.isSome_iff_exists.mp (find?_isSome.mpr ⟨f, hf, by simp⟩)
  have heq : name g = name f := by simpa using find?_some hg
  rw [fieldOf, hg, inj_on_of_nodup_map hname (mem_of_find?_eq_some hg) hf heq]

variable [DecidableEq F]

variable (name fields) in
/-- The values of the fields of an object. A member that is no field is refused, and the last one of a
name counts. -/
def valuesOf (members : List (List Char × α)) : Option (F → Option α) :=
  (members.mapM fun m => (fieldOf name fields m.1).map fun f => (f, m.2)).map fun l f => l.reverse.lookup f

/-- The value of a field is found among the fields that have one. -/
lemma lookup_filterMap (value : F → Option α) {l : List F} (hl : l.Nodup) {f : F} (hf : f ∈ l) :
    (l.filterMap fun f => (value f).map fun v => (f, v)).lookup f = value f := by
  induction l with
  | nil => cases hf
  | cons g l ih =>
    obtain ⟨hg, hl⟩ := nodup_cons.mp hl
    by_cases hfg : f = g
    · subst hfg
      cases hv : value f with
      | some v => simp [hv]
      | none =>
        rw [filterMap_cons_none (by rw [hv]; rfl)]
        refine lookup_eq_none_iff.mpr fun p hp => bne_iff_ne.mpr ?_
        obtain ⟨x, hx, hpx⟩ := mem_filterMap.mp hp
        obtain ⟨v, -, rfl⟩ := Option.map_eq_some_iff.mp hpx
        rintro rfl
        exact hg hx
    · have hmem : f ∈ l := (mem_cons.mp hf).resolve_left hfg
      have hbeq : (f == g) = false := beq_eq_false_iff_ne.mpr hfg
      cases hv : value g <;> simp [hv, lookup_cons, hbeq, ih hl hmem]

/-- The values of the fields are found in the members. -/
lemma valuesOf_membersOf (hname : (fields.map name).Nodup) (hall : ∀ f, f ∈ fields)
    (value : F → Option α) (g : α → β) :
    valuesOf name fields ((membersOf name fields value).map fun m => (m.1, g m.2)) =
      some fun f => (value f).map g := by
  have hmapM : ∀ l, ((membersOf name l value).map fun m => (m.1, g m.2)).mapM
      (fun m => (fieldOf name fields m.1).map fun f => (f, m.2)) =
      some (l.filterMap fun f => ((value f).map g).map fun v => (f, v)) := by
    intro l
    induction l with
    | nil => rfl
    | cons f l ih =>
      cases hv : value f <;> simp [membersOf, hv, fieldOf_name hname (hall f)] at ih ⊢ <;> simp [ih]
  rw [valuesOf, hmapM, Option.map_some]
  congr
  funext f
  rw [← filterMap_reverse]
  exact lookup_filterMap _ (nodup_reverse.mpr (.of_map _ hname)) (mem_reverse.mpr (hall f))

end

end Paperboat.JsonText

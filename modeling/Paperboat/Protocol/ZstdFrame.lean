import Mathlib

/-!
# Walking through a zstd frame

`zstdFrameSize` in `internal/protocol/terminal_v1.go` finds the end of a frame from the headers of its
blocks. It accepts exactly the chains of blocks that the grammar of the format describes (`IsChain`).
-/

namespace Paperboat.Zstd

open List Nat

/-- What `zstdFrameSize` reads of a `zstd.Header`. -/
structure Header where
  headerSize : ℕ
  hasCheckSum : Bool

inductive FrameError where
  | truncatedBlockHeader
  | reservedBlockType
  | truncatedBlock
  | truncatedChecksum

/-- The loop of `zstdFrameSize`; `none` is a read out of bounds. -/
def zstdFrameLoop (payload : List UInt8) (hasCheckSum : Bool) (offset : ℕ) :
    Option (Except FrameError ℕ) :=
  if payload.length - offset < 3 then some (.error .truncatedBlockHeader)
  else
    match payload[offset]?, payload[offset + 1]?, payload[offset + 2]? with
    | some a, some b, some c =>
      let block := a.toNat ||| b.toNat <<< 8 ||| c.toNat <<< 16
      let blockType := block >>> 1 &&& 3
      if blockType = 3 then some (.error .reservedBlockType)
      else
        let payloadSize := if blockType = 1 then 1 else block >>> 3
        if payload.length - (offset + 3) < payloadSize then some (.error .truncatedBlock)
        else if block &&& 1 ≠ 0 then
          if hasCheckSum then
            if payload.length - (offset + 3 + payloadSize) < 4 then some (.error .truncatedChecksum)
            else some (.ok (offset + 3 + payloadSize + 4))
          else some (.ok (offset + 3 + payloadSize))
        else zstdFrameLoop payload hasCheckSum (offset + 3 + payloadSize)
    | _, _, _ => none
termination_by payload.length - offset

def zstdFrameSize (payload : List UInt8) (header : Header) : Option (Except FrameError ℕ) :=
  zstdFrameLoop payload header.hasCheckSum header.headerSize

/-! ### The grammar -/

/-- The number with these bytes, the least significant first. -/
def littleEndian (a b c : UInt8) : ℕ := a.toNat + 256 * b.toNat + 65536 * c.toNat

/-- A block: a header of three bytes with the flag of the last block in the lowest bit, the type in the
next two, of which 3 is reserved, and the size in the others; and the body, of which a block of type 1
stores one byte only. -/
inductive IsBlock (last : Bool) : List UInt8 → Prop
  | intro (type size : ℕ) {a b c : UInt8} {body : List UInt8} (htype : type < 3)
    (hheader : littleEndian a b c = last.toNat + 2 * (type + 4 * size))
    (hbody : body.length = if type = 1 then 1 else size) : IsBlock last (a :: b :: c :: body)

/-- A chain of blocks, of which the last and no other has the flag of the last block. -/
inductive IsChain : List UInt8 → Prop
  | last {block : List UInt8} (h : IsBlock true block) : IsChain block
  | next {block rest : List UInt8} (h : IsBlock false block) (hrest : IsChain rest) :
    IsChain (block ++ rest)

/-- What follows the header of a frame: a chain of blocks, and the checksum. -/
def IsFrameBody (hasCheckSum : Bool) (bytes : List UInt8) : Prop :=
  ∃ blocks checksum, bytes = blocks ++ checksum ∧ IsChain blocks ∧
    checksum.length = if hasCheckSum then 4 else 0

section
variable {payload block rest body : List UInt8} {hasCheckSum last : Bool} {offset n : ℕ} {a b c : UInt8}

lemma or_shiftLeft_eq (a b c : UInt8) :
    a.toNat ||| b.toNat <<< 8 ||| c.toNat <<< 16 = littleEndian a b c := by
  have ha := a.toNat_lt
  have hb := b.toNat_lt
  have hab := shiftLeft_add_eq_or_of_lt ha b.toNat
  have habc := shiftLeft_add_eq_or_of_lt (i := 16) (b := b.toNat <<< 8 + a.toNat)
    (by rw [shiftLeft_eq]; omega) c.toNat
  rw [lor_comm a.toNat, ← hab, lor_comm, ← habc]
  simp only [shiftLeft_eq, littleEndian]
  omega

/-- The number of bytes that follow a block header. -/
def bodySize (header : ℕ) : ℕ := if header / 2 % 4 = 1 then 1 else header / 8

lemma isBlock_cons_iff : IsBlock last (a :: b :: c :: body) ↔ littleEndian a b c % 2 = last.toNat ∧
    littleEndian a b c / 2 % 4 ≠ 3 ∧ body.length = bodySize (littleEndian a b c) := by
  have hflag := last.toNat_lt
  constructor
  · rintro ⟨type, size, htype, hheader, hbody⟩
    have hsize : littleEndian a b c / 8 = size := by omega
    have htype' : littleEndian a b c / 2 % 4 = type := by omega
    exact ⟨by omega, by omega, by rw [hbody, bodySize, htype', hsize]⟩
  · rintro ⟨hlast, htype, hbody⟩
    exact ⟨littleEndian a b c / 2 % 4, littleEndian a b c / 8, by omega, by omega, hbody⟩

/-- Where the loop ends on a payload that goes on with a block header. -/
lemma zstdFrameLoop_eq_ok_iff (h : payload.drop offset = a :: b :: c :: rest) :
    zstdFrameLoop payload hasCheckSum offset = some (.ok n) ↔
      littleEndian a b c / 2 % 4 ≠ 3 ∧ bodySize (littleEndian a b c) ≤ rest.length ∧
        if littleEndian a b c % 2 = 1 then
          (if hasCheckSum then 4 else 0) ≤ rest.length - bodySize (littleEndian a b c) ∧
            n = offset + 3 + bodySize (littleEndian a b c) + if hasCheckSum then 4 else 0
        else zstdFrameLoop payload hasCheckSum (offset + 3 + bodySize (littleEndian a b c)) = some (.ok n) := by
  have hlength : payload.length - offset = rest.length + 3 := by
    rw [← length_drop, h]
    rfl
  have hget (k : ℕ) : payload[offset + k]? = (a :: b :: c :: rest)[k]? := by rw [← h, getElem?_drop]
  have hfirst : payload[offset]? = some a := hget 0
  have htype (m : ℕ) : m / 2 ^ 1 &&& 3 = m / 2 % 4 := and_two_pow_sub_one_eq_mod _ 2
  have hsize (m : ℕ) : (if m / 2 % 4 = 1 then 1 else m / 2 ^ 3) = bodySize m := rfl
  rw [zstdFrameLoop, if_neg (by omega), hfirst, hget 1, hget 2]
  simp only [getElem?_cons_zero, getElem?_cons_succ, or_shiftLeft_eq,
    shiftRight_eq_div_pow, and_one_is_mod, htype, hsize]
  generalize littleEndian a b c = header
  generalize bodySize header = size
  split_ifs <;> simp_all <;> omega

lemma drop_block (h : payload.drop offset = block ++ rest) :
    payload.drop (offset + block.length) = rest := by
  rw [← drop_drop, h, drop_left]

lemma zstdFrameLoop_block (h : IsBlock last block) (hdrop : payload.drop offset = block ++ rest) :
    zstdFrameLoop payload hasCheckSum offset = some (.ok n) ↔
      if last = true then (if hasCheckSum then 4 else 0) ≤ rest.length ∧
        n = offset + block.length + if hasCheckSum then 4 else 0
      else zstdFrameLoop payload hasCheckSum (offset + block.length) = some (.ok n) := by
  obtain ⟨a, b, c, body, rfl⟩ : ∃ a b c body, block = a :: b :: c :: body := by
    cases h
    exact ⟨_, _, _, _, rfl⟩
  obtain ⟨hlast, htype, hbody⟩ := isBlock_cons_iff.mp h
  have hcons : payload.drop offset = a :: b :: c :: (body ++ rest) := hdrop
  have hlength : (body ++ rest).length - body.length = rest.length := by simp
  have hend : offset + (a :: b :: c :: body).length = offset + 3 + body.length := by
    simp only [length_cons]
    omega
  rw [zstdFrameLoop_eq_ok_iff hcons, hlast, ← hbody, hlength, hend]
  cases last <;> simp [htype]

lemma exists_block_of_ok (h : zstdFrameLoop payload hasCheckSum offset = some (.ok n)) :
    offset < payload.length ∧ ∃ last block rest, IsBlock last block ∧ payload.drop offset = block ++ rest := by
  rcases hdrop : payload.drop offset with _ | ⟨a, _ | ⟨b, _ | ⟨c, rest⟩⟩⟩
  iterate 3
    have hshort := congrArg List.length hdrop
    rw [length_drop] at hshort
    rw [zstdFrameLoop, if_pos (by simp [hshort])] at h
    cases h
  obtain ⟨htype, hbody, -⟩ := (zstdFrameLoop_eq_ok_iff hdrop).mp h
  refine ⟨?_, decide (littleEndian a b c % 2 = 1), a :: b :: c :: rest.take (bodySize (littleEndian a b c)),
    rest.drop (bodySize (littleEndian a b c)), ?_, ?_⟩
  · by_contra hle
    rw [drop_of_length_le (not_lt.mp hle)] at hdrop
    cases hdrop
  · refine isBlock_cons_iff.mpr ⟨?_, htype, length_take_of_le hbody⟩
    rcases mod_two_eq_zero_or_one (littleEndian a b c) with hlast | hlast <;> simp [hlast]
  · rw [cons_append, cons_append, cons_append, take_append_drop]

lemma frameBody_of_ok (h : zstdFrameLoop payload hasCheckSum offset = some (.ok n)) :
    ∃ body rest, payload.drop offset = body ++ rest ∧ IsFrameBody hasCheckSum body ∧
      n = offset + body.length := by
  induction hm : payload.length - offset using Nat.strong_induction_on generalizing offset with
  | _ m ih =>
    obtain ⟨hlt, last, block, rest, hblock, hdrop⟩ := exists_block_of_ok h
    have hend := (zstdFrameLoop_block hblock hdrop).mp h
    cases last with
    | true =>
      obtain ⟨hlong, rfl⟩ := hend
      obtain ⟨checksum, tail, rfl, hsum⟩ : ∃ checksum tail, rest = checksum ++ tail ∧
          checksum.length = if hasCheckSum then 4 else 0 :=
        ⟨_, _, (take_append_drop _ _).symm, length_take_of_le hlong⟩
      refine ⟨block ++ checksum, tail, ?_, ⟨block, checksum, rfl, .last hblock, hsum⟩, ?_⟩
      · rw [hdrop, append_assoc]
      · rw [length_append, hsum, add_assoc]
    | false =>
      have hpos : 0 < block.length := by
        cases hblock
        exact succ_pos _
      obtain ⟨_, tail, htail, ⟨blocks, checksum, rfl, hblocks, hsum⟩, rfl⟩ := ih _ (by omega) hend rfl
      refine ⟨block ++ blocks ++ checksum, tail, ?_, ⟨_, checksum, rfl, .next hblock hblocks, hsum⟩, ?_⟩
      · rw [hdrop, ← drop_block hdrop, htail]
        simp only [append_assoc]
      · simp only [length_append, add_assoc]

lemma ok_of_isChain {blocks checksum : List UInt8} (h : IsChain blocks)
    (hsum : checksum.length = if hasCheckSum then 4 else 0)
    (hdrop : payload.drop offset = blocks ++ (checksum ++ rest)) :
    zstdFrameLoop payload hasCheckSum offset = some (.ok (offset + (blocks ++ checksum).length)) := by
  induction h generalizing offset with
  | last h =>
    refine (zstdFrameLoop_block h hdrop).mpr ⟨?_, ?_⟩
    · rw [← hsum, length_append]
      exact le_add_right _ _
    · rw [← hsum, length_append, add_assoc]
  | next h hrest ih =>
    rw [append_assoc] at hdrop
    refine (zstdFrameLoop_block h hdrop).mpr ((ih (drop_block hdrop)).trans ?_)
    simp only [length_append, add_assoc]

/-- No read of the loop is out of bounds. -/
lemma zstdFrameLoop_ne_none (payload : List UInt8) (hasCheckSum : Bool) (offset : ℕ) :
    zstdFrameLoop payload hasCheckSum offset ≠ none := by
  fun_induction zstdFrameLoop payload hasCheckSum offset with
  | case8 offset hlength hreads =>
    exact (hreads _ _ _ (getElem?_eq_getElem (by omega)) (getElem?_eq_getElem (by omega))
      (getElem?_eq_getElem (by omega))).elim
  | case7 => assumption
  | _ => exact Option.some_ne_none _

end

/-- `zstdFrameSize` reads nothing out of bounds, and it returns `n` exactly when the payload between the
header and `n` is a chain of blocks and the checksum that the header announces. -/
theorem zstdFrameSize_spec (payload : List UInt8) (header : Header) :
    zstdFrameSize payload header ≠ none ∧ ∀ n, zstdFrameSize payload header = some (.ok n) ↔
      header.headerSize ≤ n ∧ n ≤ payload.length ∧
        IsFrameBody header.hasCheckSum (payload.extract header.headerSize n) := by
  refine ⟨zstdFrameLoop_ne_none _ _ _, fun n => ⟨fun h => ?_, ?_⟩⟩
  · obtain ⟨body, rest, hdrop, hbody, rfl⟩ := frameBody_of_ok h
    have hlt := (exists_block_of_ok h).1
    have hlength := congrArg List.length hdrop
    rw [length_drop, length_append] at hlength
    rw [extract_eq_take_drop, Nat.add_sub_cancel_left, hdrop, take_left]
    exact ⟨le_add_right _ _, by omega, hbody⟩
  · rintro ⟨hle, hlength, blocks, checksum, hextract, hblocks, hsum⟩
    rw [extract_eq_take_drop] at hextract
    have hn : (blocks ++ checksum).length = n - header.headerSize := by
      rw [← hextract, length_take_of_le (by rw [length_drop]; omega)]
    have hdrop := (take_append_drop (n - header.headerSize) (payload.drop header.headerSize)).symm
    rw [hextract, append_assoc] at hdrop
    have hok := ok_of_isChain hblocks hsum hdrop
    rw [hn, Nat.add_sub_cancel' hle] at hok
    exact hok

end Paperboat.Zstd

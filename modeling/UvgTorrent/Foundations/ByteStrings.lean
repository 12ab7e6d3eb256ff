import Mathlib.Tactic

/-! Byte strings: ranges, in-place copies, writes into a file and big-endian words.
Every operation is described by the byte it leaves at each index.
-/

namespace Foundations

abbrev Bytes := List UInt8

-----------------------------------------------------------------------------------------
-- Ranges and copies
-----------------------------------------------------------------------------------------

/-- The bytes from `start` on, at most `length` of them. -/
def slice (bytes : Bytes) (start length : Nat) : Bytes := (bytes.drop start).take length

/-- `memcpy` of `source` to index `start` of a buffer. -/
def overwrite (buffer : Bytes) (start : Nat) (source : Bytes) : Bytes :=
  buffer.take start ++ source ++ buffer.drop (start + source.length)

/-- A file after `source` is written at `position`: a gap is filled with zeros, and writing
nothing leaves the file as it was.
-/
def writeAt (content : Bytes) (position : Nat) (source : Bytes) : Bytes :=
  if source = [] then content
  else
    overwrite (content ++ List.replicate (position - content.length) 0) position source

theorem slice_getElem? (bytes : Bytes) (start length index : Nat)
    : (slice bytes start length)[index]?
      = if index < length then bytes[start + index]? else none := by
  simp [slice, List.getElem?_take, List.getElem?_drop]

theorem slice_length (bytes : Bytes) (start length : Nat)
    : (slice bytes start length).length = min length (bytes.length - start) := by
  simp [slice]

theorem slice_length_of_le {bytes : Bytes} {start length : Nat}
    (inside : start + length ≤ bytes.length)
    : (slice bytes start length).length = length := by
  rw [slice_length]
  omega

@[simp] theorem slice_zero (bytes : Bytes) (length : Nat)
    : slice bytes 0 length = bytes.take length := by
  simp [slice]

theorem slice_slice {bytes : Bytes} {start length from' count : Nat}
    (inside : from' + count ≤ length)
    : slice (slice bytes start length) from' count = slice bytes (start + from') count := by
  apply List.ext_getElem?
  intro index
  simp only [slice_getElem?]
  by_cases early : index < count
  · rw [if_pos early, if_pos early, if_pos (by omega), Nat.add_assoc]
  · rw [if_neg early, if_neg early]

/-- A bounded range that has all the bytes asked for was not cut by the bound. -/
theorem slice_of_whole {bytes : Bytes} {start bound count : Nat}
    (whole : (slice bytes start (min bound count)).length = count)
    : slice bytes start (min bound count) = slice bytes start count := by
  rw [slice_length] at whole
  rw [show min bound count = count by omega]

theorem overwrite_length {buffer source : Bytes} {start : Nat}
    (inside : start + source.length ≤ buffer.length)
    : (overwrite buffer start source).length = buffer.length := by
  simp only [overwrite, List.length_append, List.length_take, List.length_drop]
  omega

/-- A copy replaces exactly the bytes in its range. -/
theorem overwrite_getElem? {buffer source : Bytes} {start : Nat}
    (inside : start ≤ buffer.length) (index : Nat)
    : (overwrite buffer start source)[index]?
      = if start ≤ index ∧ index < start + source.length then source[index - start]?
        else buffer[index]? := by
  have front : (buffer.take start).length = start := by simp [inside]
  rw [overwrite, List.append_assoc]
  rcases Nat.lt_or_ge index start with before | after
  · rw [List.getElem?_append_left (by omega), List.getElem?_take, if_pos before, if_neg (by omega)]
  · rw [List.getElem?_append_right (by omega), front]
    by_cases inSource : index < start + source.length
    · rw [List.getElem?_append_left (by omega), if_pos ⟨after, inSource⟩]
    · rw [List.getElem?_append_right (by omega), List.getElem?_drop, if_neg (by omega)]
      congr 1
      omega

/-- The copied bytes are read back. -/
theorem slice_overwrite {buffer source : Bytes} {start : Nat}
    (inside : start + source.length ≤ buffer.length)
    : slice (overwrite buffer start source) start source.length = source := by
  apply List.ext_getElem?
  intro index
  rw [slice_getElem?, overwrite_getElem? (by omega)]
  by_cases early : index < source.length
  · rw [if_pos early, if_pos (by omega), Nat.add_sub_cancel_left]
  · rw [if_neg early, List.getElem?_eq_none (by omega)]

/-- A write leaves its bytes in its range, zeros in a gap before it, and the old content
everywhere else.
-/
theorem writeAt_getElem? {content source : Bytes} {position : Nat} (nonempty : source ≠ [])
    (index : Nat)
    : (writeAt content position source)[index]?
      = if position ≤ index ∧ index < position + source.length then source[index - position]?
        else if index < content.length then content[index]?
        else if index < position then some 0 else none := by
  rw [writeAt, if_neg nonempty, overwrite_getElem? (by simp; omega)]
  by_cases inSource : position ≤ index ∧ index < position + source.length
  · rw [if_pos inSource, if_pos inSource]
  · rw [if_neg inSource, if_neg inSource]
    by_cases old : index < content.length
    · rw [if_pos old, List.getElem?_append_left old]
    · rw [if_neg old, List.getElem?_append_right (by omega), List.getElem?_replicate]
      by_cases gap : index < position
      · rw [if_pos gap, if_pos (by omega)]
      · rw [if_neg gap, if_neg (by omega)]

-----------------------------------------------------------------------------------------
-- Big-endian 32-bit words
-----------------------------------------------------------------------------------------

/-- The four bytes of a 32-bit word, most significant first. -/
def be32 (word : Nat) : Bytes :=
  [UInt8.ofNat (word / 2 ^ 24), UInt8.ofNat (word / 2 ^ 16), UInt8.ofNat (word / 2 ^ 8),
    UInt8.ofNat word]

/-- The word whose bytes, most significant first, are given. -/
def ofBe32 (bytes : Bytes) : Nat := bytes.foldl (fun word byte => word * 256 + byte.toNat) 0

@[simp] theorem be32_length (word : Nat) : (be32 word).length = 4 := rfl

/-- Reading on from a word adds at most the bytes that follow. -/
theorem foldl_bytes_lt (bytes : Bytes) (word : Nat)
    : bytes.foldl (fun word byte => word * 256 + byte.toNat) word
      < (word + 1) * 256 ^ bytes.length := by
  induction bytes generalizing word with
  | nil => simp
  | cons byte rest ih =>
      have bound := byte.toNat_lt
      calc rest.foldl (fun word byte => word * 256 + byte.toNat) (word * 256 + byte.toNat)
          < (word * 256 + byte.toNat + 1) * 256 ^ rest.length := ih _
        _ ≤ (word + 1) * 256 * 256 ^ rest.length := Nat.mul_le_mul_right _ (by omega)
        _ = (word + 1) * 256 ^ (byte :: rest).length := by
            rw [List.length_cons, Nat.pow_succ, Nat.mul_assoc, Nat.mul_comm 256]

theorem ofBe32_lt {bytes : Bytes} (four : bytes.length = 4) : ofBe32 bytes < 2 ^ 32 := by
  have bound := foldl_bytes_lt bytes 0
  rw [four] at bound
  exact bound.trans_eq (by norm_num)

theorem ofBe32_be32 {word : Nat} (fits : word < 2 ^ 32) : ofBe32 (be32 word) = word := by
  simp only [ofBe32, be32, List.foldl_cons, List.foldl_nil, UInt8.toNat_ofNat']
  omega

end Foundations

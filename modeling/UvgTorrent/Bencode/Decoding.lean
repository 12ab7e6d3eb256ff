import UvgTorrent.Bencode.Nodes
import UvgTorrent.Foundations.MachineIntegers
import UvgTorrent.Foundations.PrefixParsers

/-! `be_decode` of `bencode.c`, with the reads that it makes behind the end of its input, and the
texts on which it makes them.
-/

namespace UvgTorrent

open Foundations

-----------------------------------------------------------------------------------------
-- The decoder
-----------------------------------------------------------------------------------------

/-- `isdigit`. -/
def isDigit (byte : UInt8) : Bool := 48 ≤ byte.toNat ∧ byte.toNat ≤ 57

/-- One turn of the loop of `be_decode_int`: `ret` and `overflowed`. A `long long` wraps around. -/
def addDigit (sign : Int) (state : Int × Bool) (digit : UInt8) : Int × Bool :=
  let (ret, overflowed) := state
  if overflowed then (ret, true)
  else
    let next := wrap64 (wrap64 (ret * 10) + (digit.toNat - 48) * sign)
    if sign = 1 ∧ next < ret then (2 ^ 63 - 1, true)
    else if sign = -1 ∧ ret < next then (-2 ^ 63, true)
    else (next, false)

/-- The sign that a numeral begins with, and what follows it. -/
def splitSign : Bytes → Int × Bytes
  | [] => (1, [])
  | first :: rest => if first = 45 then (-1, rest) else (1, first :: rest)

def digitsValue (sign : Int) (digits : Bytes) : Int := (digits.foldl (addDigit sign) (0, false)).1

/-- `be_decode_int`: the value, and the input behind the digits. The first byte is read unchecked.
-/
def beDecodeInt : Bytes → Except Fault (Int × Bytes)
  | [] => .error .messageBounds
  | first :: rest =>
      let (sign, digits) := splitSign (first :: rest)
      .ok (digitsValue sign (digits.takeWhile isDigit), digits.dropWhile isDigit)

/-- `be_decode_str`, with memory available. -/
def beDecodeStr : PrefixParser Fault UInt8 Bytes := fun input =>
  (beDecodeInt input).bind fun (length, rest) =>
    match rest with
    | [] => .ok none
    | colon :: rest =>
        if length < 0 ∨ rest.length < length ∨ colon ≠ 58 then .ok none
        else .ok (some (rest.take length.toNat, rest.drop length.toNat))

/-- The `i` case of `be_decode1`, behind the `i`. The byte behind the digits is read unchecked. -/
def beDecodeNum : PrefixParser Fault UInt8 BeNode
  | [] => .ok none
  | first :: rest =>
      (beDecodeInt (first :: rest)).bind fun (value, rest) =>
        match rest with
        | [] => .error .messageBounds
        | last :: rest => if last = 101 then .ok (some (.num value, rest)) else .ok none

/-- The byte that ends a list or a dictionary. -/
def endsEntries (byte : UInt8) : Bool := byte = 101

/-- The `l` and `d` cases of `be_decode1`, behind the first byte. -/
def beDecodeEntries {α : Type} (entry : PrefixParser Fault UInt8 α)
    : PrefixParser Fault UInt8 (List α)
  | [] => .ok none
  | first :: rest =>
      entry.many endsEntries .messageBounds .endlessLoop (rest.length + 1) (first :: rest)

/-- `be_decode1`, with the levels that are left below `BE_MAX_DEPTH`. -/
def beDecode1 : Nat → PrefixParser Fault UInt8 BeNode
  | 0, _ => .ok none
  | _ + 1, [] => .ok none
  | levels + 1, first :: rest =>
      if first = 105 then beDecodeNum rest
      else if isDigit first then beDecodeStr.mapValue .str (first :: rest)
      else if first = 108 then
        (beDecodeEntries (beDecode1 levels)).mapValue .list rest
      else if first = 100 then
        (beDecodeEntries (beDecodeStr.pair (beDecode1 levels))).mapValue .dict rest
      else .ok none

/-- `be_decode`, with `readAmount`. -/
def beDecode (input : Bytes) : Except Fault (Option (BeNode × Nat)) :=
  (beDecode1 10 input).bind fun taken =>
    .ok (taken.map fun (node, rest) => (node, input.length - rest.length))

/-- `be_decode` on input that it does not read past. -/
def decodeInside : BeDecode := fun input =>
  match beDecode input with
  | .ok decoded => decoded
  | .error _ => none

-----------------------------------------------------------------------------------------
-- The texts
-----------------------------------------------------------------------------------------

/-- Digits, with or without a sign in front. There need not be any. -/
def IsNumeral (text : Bytes) : Prop := ∀ digit ∈ (splitSign text).2, isDigit digit = true

def numeralValue (text : Bytes) : Int := digitsValue (splitSign text).1 (splitSign text).2

/-- `i`, a numeral and `e`. -/
def NumberText (text : Bytes) : Prop :=
  ∃ numeral, IsNumeral numeral ∧ text = 105 :: (numeral ++ [101])

/-- An `i` and a numeral with no end. -/
def CutNumberText (text : Bytes) : Prop :=
  ∃ numeral, numeral ≠ [] ∧ IsNumeral numeral ∧ text = 105 :: numeral

/-- The length of a string, a colon and as many bytes. -/
def StringText (text : Bytes) : Prop :=
  ∃ numeral bytes : Bytes,
    IsNumeral numeral ∧ numeralValue numeral = bytes.length ∧ text = numeral ++ 58 :: bytes

/-- Whole entries between a first byte and an `e`. -/
def EntriesText (first : UInt8) (entry : Bytes → Prop) (text : Bytes) : Prop :=
  ∃ entries : List Bytes,
    (∀ item ∈ entries, entry item) ∧ text = first :: (entries.flatten ++ [101])

/-- Whole entries behind a first byte, and one that is cut. -/
def CutEntriesText (first : UInt8) (entry cut : Bytes → Prop) (text : Bytes) : Prop :=
  ∃ (entries : List Bytes) (rest : Bytes),
    (∀ item ∈ entries, entry item) ∧ cut rest ∧ text = first :: (entries.flatten ++ rest)

/-- The texts that the decoder takes with some levels left. -/
def ValueText : Nat → Bytes → Prop
  | 0, _ => False
  | levels + 1, text =>
      NumberText text
      ∨ (StringText text ∧ ∃ first rest, text = first :: rest ∧ isDigit first = true)
      ∨ EntriesText 108 (ValueText levels) text
      ∨ EntriesText 100 (PrefixParser.Joined StringText (ValueText levels)) text

/-- The texts that end inside a number which the decoder comes to: all values before it are whole,
and it is not too deep.
-/
def EndsInNumber : Nat → Bytes → Prop
  | 0, _ => False
  | levels + 1, text =>
      CutNumberText text
      ∨ CutEntriesText 108 (ValueText levels) (EndsInNumber levels) text
      ∨ CutEntriesText 100 (PrefixParser.Joined StringText (ValueText levels))
          (PrefixParser.Joined StringText (EndsInNumber levels)) text

-----------------------------------------------------------------------------------------
-- Numerals
-----------------------------------------------------------------------------------------

theorem splitSign_of_digits {text : Bytes} (digits : ∀ digit ∈ text, isDigit digit = true)
    : splitSign text = (1, text) := by
  cases text with
  | nil => rfl
  | cons first rest =>
      have notSign : first ≠ 45 := by
        rintro rfl
        exact absurd (digits 45 (by simp)) (by decide)
      rw [splitSign, if_neg notSign]

theorem isNumeral_of_digits {text : Bytes} (digits : ∀ digit ∈ text, isDigit digit = true)
    : IsNumeral text := by
  rw [IsNumeral, splitSign_of_digits digits]
  exact digits

/-- A numeral begins with a digit or a sign. -/
theorem IsNumeral.head {first : UInt8} {rest : Bytes} (numeral : IsNumeral (first :: rest))
    : isDigit first = true ∨ first = 45 := by
  by_cases sign : first = 45
  · exact .inr sign
  · rw [IsNumeral, splitSign, if_neg sign] at numeral
    exact .inl (numeral first (by simp))

/-- What is read as a number is a numeral at the front of the input. -/
theorem beDecodeInt_took {input rest : Bytes} {value : Int}
    (took : beDecodeInt input = .ok (value, rest))
    : ∃ numeral, IsNumeral numeral ∧ numeralValue numeral = value ∧ input = numeral ++ rest := by
  cases input with
  | nil => cases took
  | cons first tail =>
      rw [beDecodeInt, splitSign] at took
      by_cases sign : first = 45
      · rw [if_pos sign] at took
        cases took
        have split : splitSign (45 :: tail.takeWhile isDigit) = (-1, tail.takeWhile isDigit) := rfl
        refine ⟨45 :: tail.takeWhile isDigit, ?_, ?_, ?_⟩
        · rw [IsNumeral, split]
          exact List.all_eq_true.mp List.all_takeWhile
        · rw [numeralValue, split]
        · rw [sign, List.cons_append, List.takeWhile_append_dropWhile]
      · rw [if_neg sign] at took
        cases took
        have digits : ∀ digit ∈ (first :: tail).takeWhile isDigit, isDigit digit = true :=
          List.all_eq_true.mp List.all_takeWhile
        refine ⟨(first :: tail).takeWhile isDigit, isNumeral_of_digits digits, ?_,
          List.takeWhile_append_dropWhile.symm⟩
        rw [numeralValue, splitSign_of_digits digits]

/-- A numeral that does not go on is read whole. -/
theorem beDecodeInt_numeral {numeral rest : Bytes} (isNumeral : IsNumeral numeral)
    (ends : ∀ next ∈ rest.head?, isDigit next = false ∧ next ≠ 45)
    (nonempty : numeral ++ rest ≠ [])
    : beDecodeInt (numeral ++ rest) = .ok (numeralValue numeral, rest) := by
  have stops : rest.takeWhile isDigit = [] ∧ rest.dropWhile isDigit = rest := by
    cases rest with
    | nil => exact ⟨rfl, rfl⟩
    | cons next rest => simp [List.takeWhile, List.dropWhile, (ends next rfl).1]
  have readDigits {digits : Bytes} (allDigits : ∀ digit ∈ digits, isDigit digit = true)
      : (digits ++ rest).takeWhile isDigit = digits
        ∧ (digits ++ rest).dropWhile isDigit = rest := by
    rw [List.takeWhile_append_of_pos allDigits, List.dropWhile_append_of_pos allDigits, stops.1,
      stops.2, List.append_nil]
    exact ⟨rfl, rfl⟩
  cases numeral with
  | nil =>
      cases rest with
      | nil => exact absurd rfl nonempty
      | cons next rest =>
          rw [List.nil_append, beDecodeInt, splitSign, if_neg (ends next rfl).2]
          dsimp only
          rw [stops.1, stops.2]
          rfl
  | cons first digits =>
      rw [IsNumeral, splitSign] at isNumeral
      rw [List.cons_append, beDecodeInt, numeralValue, splitSign, splitSign]
      by_cases sign : first = 45
      · rw [if_pos sign] at isNumeral ⊢
        rw [if_pos sign]
        obtain ⟨taken, left⟩ := readDigits isNumeral
        dsimp only
        rw [taken, left]
      · rw [if_neg sign] at isNumeral ⊢
        rw [if_neg sign]
        obtain ⟨taken, left⟩ := readDigits isNumeral
        dsimp only
        rw [← List.cons_append, taken, left]

-----------------------------------------------------------------------------------------
-- The parts of the decoder
-----------------------------------------------------------------------------------------

/-- A string is taken up to its length, and never read past its end. -/
theorem beDecodeStr_describes
    : PrefixParser.Describes beDecodeStr .messageBounds endsEntries StringText
        (fun _ => False) := by
  constructor
  case begins =>
    rintro text (⟨numeral, bytes, isNumeral, _, rfl⟩ | impossible)
    · cases numeral with
      | nil => exact ⟨58, bytes, rfl, by decide⟩
      | cons first digits =>
          refine ⟨first, digits ++ 58 :: bytes, rfl, ?_⟩
          rcases isNumeral.head with digit | rfl
          · cases ends : endsEntries first with
            | false => rfl
            | true =>
                rw [of_decide_eq_true ends] at digit
                exact absurd digit (by decide)
          · decide
    · exact impossible.elim
  case takes =>
    rintro text ⟨numeral, bytes, isNumeral, length, rfl⟩
    refine ⟨bytes, fun rest => ?_⟩
    have number := @beDecodeInt_numeral numeral (58 :: (bytes ++ rest)) isNumeral
      (by simp [isDigit]) (by simp)
    rw [beDecodeStr, List.append_assoc, List.cons_append, bind_of_ok number]
    dsimp only
    have fits : ¬ (numeralValue numeral < 0
        ∨ ((bytes ++ rest).length : Int) < numeralValue numeral
        ∨ (58 : UInt8) ≠ 58) := by
      rw [length, List.length_append]
      simp only [ne_eq, not_true_eq_false, or_false]
      omega
    rw [if_neg fits, length, Int.toNat_natCast, List.take_left' rfl, List.drop_left' rfl]
  case took =>
    intro symbol input value rest took
    obtain ⟨⟨length, left⟩, number, took⟩ := bind_eq_ok.mp took
    obtain ⟨numeral, isNumeral, valueEq, split⟩ := beDecodeInt_took number
    cases left with
    | nil => cases took
    | cons colon left =>
        dsimp only at took
        split at took
        · cases took
        · rename_i fits
          simp only [not_or, not_not, Int.not_lt] at fits
          obtain ⟨nonneg, inside, rfl⟩ := fits
          cases took
          refine ⟨numeral ++ 58 :: left.take length.toNat,
            ⟨numeral, left.take length.toNat, isNumeral, ?_, rfl⟩, ?_⟩
          · rw [valueEq, List.length_take]
            omega
          · rw [split, List.append_assoc, List.cons_append, List.take_append_drop]
  case faults =>
    intro symbol input other
    refine ⟨fun faulted => ?_, fun impossible => impossible.2.elim⟩
    rcases bind_eq_error.mp faulted with faulted | ⟨⟨length, left⟩, _, faulted⟩
    · cases faulted
    · cases left with
      | nil => cases faulted
      | cons colon left =>
          dsimp only at faulted
          split at faulted <;> cases faulted

/-- Behind an `i`, a numeral and an `e` are taken. -/
theorem beDecodeNum_takes {numeral : Bytes} (isNumeral : IsNumeral numeral) (rest : Bytes)
    : beDecodeNum (numeral ++ 101 :: rest) = .ok (some (.num (numeralValue numeral), rest)) := by
  have number := @beDecodeInt_numeral numeral (101 :: rest) isNumeral (by simp [isDigit])
    (by simp)
  have nonempty : numeral ++ 101 :: rest ≠ [] := by simp
  generalize numeral ++ 101 :: rest = input at number nonempty
  cases input with
  | nil => exact absurd rfl nonempty
  | cons first tail =>
      rw [beDecodeNum, bind_of_ok number]
      rfl

theorem beDecodeNum_took {input rest : Bytes} {node : BeNode}
    (took : beDecodeNum input = .ok (some (node, rest)))
    : ∃ numeral, IsNumeral numeral ∧ input = numeral ++ 101 :: rest := by
  cases input with
  | nil => cases took
  | cons first tail =>
      rw [beDecodeNum] at took
      obtain ⟨⟨value, left⟩, number, took⟩ := bind_eq_ok.mp took
      obtain ⟨numeral, isNumeral, _, split⟩ := beDecodeInt_took number
      cases left with
      | nil => cases took
      | cons last left =>
          dsimp only at took
          split at took
          · rename_i ends
            cases took
            exact ⟨numeral, isNumeral, by rw [split, ends]⟩
          · cases took

/-- Behind an `i`, the decoder reads past the end exactly when nothing but a numeral is left. -/
theorem beDecodeNum_faults {input : Bytes} {other : Fault}
    : beDecodeNum input = .error other
      ↔ other = .messageBounds ∧ input ≠ [] ∧ IsNumeral input := by
  cases input with
  | nil =>
      exact ⟨fun faulted => (by cases faulted), fun cut => absurd rfl cut.2.1⟩
  | cons first tail =>
      constructor
      · intro faulted
        rw [beDecodeNum] at faulted
        rcases bind_eq_error.mp faulted with faulted | ⟨⟨value, left⟩, number, faulted⟩
        · cases faulted
        · obtain ⟨numeral, isNumeral, _, split⟩ := beDecodeInt_took number
          cases left with
          | nil =>
              cases faulted
              rw [List.append_nil] at split
              exact ⟨rfl, List.cons_ne_nil _ _, by rw [split]; exact isNumeral⟩
          | cons last left =>
              dsimp only at faulted
              split at faulted <;> cases faulted
      · rintro ⟨rfl, nonempty, isNumeral⟩
        have number := @beDecodeInt_numeral (first :: tail) [] isNumeral (by simp) (by simp)
        rw [List.append_nil] at number
        rw [beDecodeNum, bind_of_ok number]

section Entries

variable {α : Type} {entry : PrefixParser Fault UInt8 α} {whole cut : Bytes → Prop}

theorem beDecodeEntries_takes (described : entry.Describes .messageBounds endsEntries whole cut)
    {items : List Bytes} (allWhole : ∀ item ∈ items, whole item)
    : ∃ values,
        ∀ rest,
          beDecodeEntries entry (items.flatten ++ 101 :: rest) = .ok (some (values, rest)) := by
  obtain ⟨values, takes⟩ := @PrefixParser.Describes.many_takes _ _ _ _ _ .messageBounds
    .endlessLoop _ _ _ described items allWhole 101 rfl
  refine ⟨values, fun rest => ?_⟩
  have nonempty : items.flatten ++ 101 :: rest ≠ [] := by simp
  have taken := takes rest _ (Nat.le_refl _)
  generalize items.flatten ++ 101 :: rest = input at nonempty taken
  cases input with
  | nil => exact absurd rfl nonempty
  | cons first tail => exact taken

theorem beDecodeEntries_took (described : entry.Describes .messageBounds endsEntries whole cut)
    {input rest : Bytes} {values : List α}
    (took : beDecodeEntries entry input = .ok (some (values, rest)))
    : ∃ items : List Bytes,
        (∀ item ∈ items, whole item) ∧ input = items.flatten ++ 101 :: rest := by
  cases input with
  | nil => cases took
  | cons first tail =>
      obtain ⟨items, last, allWhole, ends, split⟩ := described.many_took took
      rw [of_decide_eq_true ends] at split
      exact ⟨items, allWhole, split⟩

theorem beDecodeEntries_faults (described : entry.Describes .messageBounds endsEntries whole cut)
    {input : Bytes} {other : Fault}
    : beDecodeEntries entry input = .error other
      ↔ other = .messageBounds
        ∧ ∃ (items : List Bytes) (rest : Bytes),
            (∀ item ∈ items, whole item) ∧ cut rest ∧ input = items.flatten ++ rest := by
  cases input with
  | nil =>
      refine ⟨fun faulted => (by cases faulted), ?_⟩
      rintro ⟨_, items, rest, _, isCut, split⟩
      obtain ⟨symbol, tail, rfl, _⟩ := described.begins (.inr isCut)
      simp at split
  | cons first tail =>
      exact described.many_faults (List.cons_ne_nil first tail) (Nat.le_refl _)

end Entries

-----------------------------------------------------------------------------------------
-- The decoder
-----------------------------------------------------------------------------------------

theorem beDecode1_nil (levels : Nat) : beDecode1 levels [] = .ok none := by
  cases levels <;> rfl

/-- The case of `be_decode1` that a first byte leads to. -/
theorem beDecode1_number (levels : Nat) (rest : Bytes)
    : beDecode1 (levels + 1) (105 :: rest) = beDecodeNum rest := by
  rw [beDecode1, if_pos rfl]

theorem beDecode1_string (levels : Nat) {first : UInt8} (digit : isDigit first = true)
    (rest : Bytes)
    : beDecode1 (levels + 1) (first :: rest) = beDecodeStr.mapValue .str (first :: rest) := by
  have notNumber : first ≠ 105 := by
    rintro rfl
    exact absurd digit (by decide)
  rw [beDecode1, if_neg notNumber, if_pos digit]

theorem beDecode1_list (levels : Nat) (rest : Bytes)
    : beDecode1 (levels + 1) (108 :: rest)
      = (beDecodeEntries (beDecode1 levels)).mapValue .list rest := by
  rw [beDecode1, if_neg (by decide), if_neg (by decide), if_pos rfl]

theorem beDecode1_dict (levels : Nat) (rest : Bytes)
    : beDecode1 (levels + 1) (100 :: rest)
      = (beDecodeEntries (beDecodeStr.pair (beDecode1 levels))).mapValue .dict rest := by
  rw [beDecode1, if_neg (by decide), if_neg (by decide), if_neg (by decide), if_pos rfl]

theorem beDecode1_refuses (levels : Nat) {first : UInt8} {rest : Bytes} (notNumber : first ≠ 105)
    (notString : isDigit first = false) (notList : first ≠ 108) (notDict : first ≠ 100)
    : beDecode1 (levels + 1) (first :: rest) = .ok none := by
  rw [beDecode1, if_neg notNumber, notString, if_neg Bool.false_ne_true, if_neg notList,
    if_neg notDict]

/-- A first byte leads to one of the four cases, or it is refused. -/
theorem first_cases (first : UInt8)
    : first = 105
      ∨ isDigit first = true
      ∨ first = 108
      ∨ first = 100
      ∨ first ≠ 105 ∧ isDigit first = false ∧ first ≠ 108 ∧ first ≠ 100 := by
  cases digit : isDigit first with
  | true => exact .inr (.inl rfl)
  | false =>
      by_cases number : first = 105
      · exact .inl number
      · by_cases list : first = 108
        · exact .inr (.inr (.inl list))
        · by_cases dict : first = 100
          · exact .inr (.inr (.inr (.inl dict)))
          · exact .inr (.inr (.inr (.inr ⟨number, rfl, list, dict⟩)))

/-- A text that ends inside a number begins with the number, or with the entries it is in. -/
theorem EndsInNumber.first {levels : Nat} {first : UInt8} {input : Bytes}
    (ends : EndsInNumber (levels + 1) (first :: input))
    : first = 105 ∨ first = 108 ∨ first = 100 := by
  rcases ends with ⟨_, _, _, split⟩ | ⟨_, _, _, _, split⟩ | ⟨_, _, _, _, split⟩
  · exact .inl (List.cons.inj split).1
  · exact .inr (.inl (List.cons.inj split).1)
  · exact .inr (.inr (List.cons.inj split).1)

theorem endsInNumber_number {levels : Nat} {input : Bytes}
    : EndsInNumber (levels + 1) (105 :: input) ↔ input ≠ [] ∧ IsNumeral input := by
  constructor
  · rintro (⟨numeral, nonempty, isNumeral, split⟩ | ⟨_, _, _, _, split⟩ | ⟨_, _, _, _, split⟩)
    · rw [(List.cons.inj split).2]
      exact ⟨nonempty, isNumeral⟩
    · exact absurd (List.cons.inj split).1 (by decide)
    · exact absurd (List.cons.inj split).1 (by decide)
  · rintro ⟨nonempty, isNumeral⟩
    exact .inl ⟨input, nonempty, isNumeral, rfl⟩

theorem endsInNumber_list {levels : Nat} {input : Bytes}
    : EndsInNumber (levels + 1) (108 :: input)
      ↔ ∃ (items : List Bytes) (rest : Bytes),
          (∀ item ∈ items, ValueText levels item)
          ∧ EndsInNumber levels rest
          ∧ input = items.flatten ++ rest := by
  constructor
  · rintro (⟨_, _, _, split⟩ | ⟨items, rest, allWhole, ends, split⟩ | ⟨_, _, _, _, split⟩)
    · exact absurd (List.cons.inj split).1 (by decide)
    · exact ⟨items, rest, allWhole, ends, (List.cons.inj split).2⟩
    · exact absurd (List.cons.inj split).1 (by decide)
  · rintro ⟨items, rest, allWhole, ends, rfl⟩
    exact .inr (.inl ⟨items, rest, allWhole, ends, rfl⟩)

theorem endsInNumber_dict {levels : Nat} {input : Bytes}
    : EndsInNumber (levels + 1) (100 :: input)
      ↔ ∃ (items : List Bytes) (rest : Bytes),
          (∀ item ∈ items, PrefixParser.Joined StringText (ValueText levels) item)
          ∧ PrefixParser.Joined StringText (EndsInNumber levels) rest
          ∧ input = items.flatten ++ rest := by
  constructor
  · rintro (⟨_, _, _, split⟩ | ⟨_, _, _, _, split⟩ | ⟨items, rest, allWhole, ends, split⟩)
    · exact absurd (List.cons.inj split).1 (by decide)
    · exact absurd (List.cons.inj split).1 (by decide)
    · exact ⟨items, rest, allWhole, ends, (List.cons.inj split).2⟩
  · rintro ⟨items, rest, allWhole, ends, rfl⟩
    exact .inr (.inr ⟨items, rest, allWhole, ends, rfl⟩)

/-- The decoder takes exactly the value texts, and reads past the end exactly on the texts that end
inside a number. Induction on the levels.
-/
theorem beDecode1_describes (levels : Nat)
    : (beDecode1 levels).Describes .messageBounds endsEntries (ValueText levels)
        (EndsInNumber levels) := by
  induction levels with
  | zero =>
      constructor
      case begins =>
        rintro text (impossible | impossible)
        · exact impossible.elim
        · exact impossible.elim
      case takes => exact fun impossible => impossible.elim
      case took =>
        intro symbol input value rest took
        cases took
      case faults =>
        intro symbol input other
        exact ⟨fun faulted => (by cases faulted), fun impossible => impossible.2.elim⟩
  | succ levels ih =>
      have pairs : (beDecodeStr.pair (beDecode1 levels)).Describes .messageBounds endsEntries
          (PrefixParser.Joined StringText (ValueText levels))
          (PrefixParser.Joined StringText (EndsInNumber levels)) :=
        (beDecodeStr_describes.pair ih (beDecode1_nil levels)).of_cut_iff
          fun text => (iff_of_eq (false_or _)).symm
      constructor
      case begins =>
        rintro text
          ((⟨numeral, _, rfl⟩ | ⟨string, _⟩ | ⟨entries, _, rfl⟩ | ⟨entries, _, rfl⟩)
            | ⟨numeral, _, _, rfl⟩ | ⟨entries, rest, _, _, rfl⟩ | ⟨entries, rest, _, _, rfl⟩)
        · exact ⟨105, _, rfl, by decide⟩
        · exact beDecodeStr_describes.begins (.inl string)
        · exact ⟨108, _, rfl, by decide⟩
        · exact ⟨100, _, rfl, by decide⟩
        · exact ⟨105, _, rfl, by decide⟩
        · exact ⟨108, _, rfl, by decide⟩
        · exact ⟨100, _, rfl, by decide⟩
      case takes =>
        rintro text (⟨numeral, isNumeral, rfl⟩ | ⟨string, first, tail, rfl, digit⟩
            | ⟨entries, allWhole, rfl⟩ | ⟨entries, allWhole, rfl⟩)
        · refine ⟨.num (numeralValue numeral), fun rest => ?_⟩
          rw [List.cons_append, List.append_assoc, beDecode1_number]
          exact beDecodeNum_takes isNumeral rest
        · obtain ⟨bytes, takes⟩ := beDecodeStr_describes.takes string
          refine ⟨.str bytes, fun rest => ?_⟩
          rw [List.cons_append, beDecode1_string levels digit]
          exact PrefixParser.mapValue_eq_some.mpr ⟨bytes, takes rest, rfl⟩
        · obtain ⟨values, takes⟩ := beDecodeEntries_takes ih allWhole
          refine ⟨.list values, fun rest => ?_⟩
          rw [List.cons_append, List.append_assoc, beDecode1_list]
          exact PrefixParser.mapValue_eq_some.mpr ⟨values, takes rest, rfl⟩
        · obtain ⟨values, takes⟩ := beDecodeEntries_takes pairs allWhole
          refine ⟨.dict values, fun rest => ?_⟩
          rw [List.cons_append, List.append_assoc, beDecode1_dict]
          exact PrefixParser.mapValue_eq_some.mpr ⟨values, takes rest, rfl⟩
      case took =>
        intro first input value rest took
        rcases first_cases first with rfl | digit | rfl | rfl | ⟨number, string, list, dict⟩
        · rw [beDecode1_number] at took
          obtain ⟨numeral, isNumeral, split⟩ := beDecodeNum_took took
          refine ⟨105 :: (numeral ++ [101]), .inl ⟨numeral, isNumeral, rfl⟩, ?_⟩
          rw [split, List.cons_append, List.append_assoc]
          rfl
        · rw [beDecode1_string levels digit] at took
          obtain ⟨bytes, took, _⟩ := PrefixParser.mapValue_eq_some.mp took
          obtain ⟨text, string, split⟩ := beDecodeStr_describes.took took
          refine ⟨text, .inr (.inl ⟨string, ?_⟩), split⟩
          obtain ⟨symbol, tail, rfl, _⟩ := beDecodeStr_describes.begins (.inl string)
          rw [List.cons_append] at split
          cases split
          exact ⟨first, tail, rfl, digit⟩
        · rw [beDecode1_list] at took
          obtain ⟨values, took, _⟩ := PrefixParser.mapValue_eq_some.mp took
          obtain ⟨entries, allWhole, split⟩ := beDecodeEntries_took ih took
          refine ⟨108 :: (entries.flatten ++ [101]),
            .inr (.inr (.inl ⟨entries, allWhole, rfl⟩)), ?_⟩
          rw [split, List.cons_append, List.append_assoc]
          rfl
        · rw [beDecode1_dict] at took
          obtain ⟨values, took, _⟩ := PrefixParser.mapValue_eq_some.mp took
          obtain ⟨entries, allWhole, split⟩ := beDecodeEntries_took pairs took
          refine ⟨100 :: (entries.flatten ++ [101]),
            .inr (.inr (.inr ⟨entries, allWhole, rfl⟩)), ?_⟩
          rw [split, List.cons_append, List.append_assoc]
          rfl
        · rw [beDecode1_refuses levels number string list dict] at took
          cases took
      case faults =>
        intro first input other
        rcases first_cases first with rfl | digit | rfl | rfl | ⟨number, string, list, dict⟩
        · rw [beDecode1_number, beDecodeNum_faults, endsInNumber_number]
        · rw [beDecode1_string levels digit, PrefixParser.mapValue_eq_error,
            beDecodeStr_describes.faults]
          refine and_congr_right fun _ => ⟨fun impossible => impossible.elim, fun ends => ?_⟩
          rcases ends.first with rfl | rfl | rfl
          · exact absurd digit (by decide)
          · exact absurd digit (by decide)
          · exact absurd digit (by decide)
        · rw [beDecode1_list, PrefixParser.mapValue_eq_error, beDecodeEntries_faults ih,
            endsInNumber_list]
        · rw [beDecode1_dict, PrefixParser.mapValue_eq_error, beDecodeEntries_faults pairs,
            endsInNumber_dict]
        · rw [beDecode1_refuses levels number string list dict]
          refine ⟨fun faulted => (by cases faulted), fun ⟨_, ends⟩ => ?_⟩
          rcases ends.first with same | same | same
          · exact absurd same number
          · exact absurd same list
          · exact absurd same dict

/-- The decoder reads past the end of its input exactly when the input ends inside a number that it
comes to, and it faults in no other way.
-/
theorem beDecode_faults_iff (input : Bytes) (other : Fault)
    : beDecode input = .error other ↔ other = .messageBounds ∧ EndsInNumber 10 input := by
  have returns : beDecode input = .error other ↔ beDecode1 10 input = .error other := by
    unfold beDecode
    cases beDecode1 10 input <;> simp [Except.bind]
  rw [returns]
  cases input with
  | nil =>
      refine ⟨fun faulted => (by cases faulted), fun ⟨_, ends⟩ => ?_⟩
      obtain ⟨symbol, rest, split, _⟩ := (beDecode1_describes 10).begins (.inr ends)
      cases split
  | cons first rest => exact (beDecode1_describes 10).faults

/-- The decoder reads no more than its input. -/
theorem beDecode_reads {input : Bytes} {node : BeNode} {readAmount : Nat}
    (decoded : beDecode input = .ok (some (node, readAmount)))
    : readAmount ≤ input.length := by
  obtain ⟨taken, _, decoded⟩ := bind_eq_ok.mp decoded
  cases taken with
  | none => cases decoded
  | some taken =>
      cases decoded
      exact Nat.sub_le _ _

end UvgTorrent

import UvgTorrent.Bencode.Decoding
import UvgTorrent.Foundations.PrefixPrinters

/-! What `be_encode` writes, `be_decode` reads back, from the front of any buffer. -/

namespace UvgTorrent

open Foundations

-----------------------------------------------------------------------------------------
-- Decimal numerals
-----------------------------------------------------------------------------------------

/-- The digits of a number. -/
def decimalDigits (number : Nat) : Bytes :=
  (Nat.toDigits 10 number).map fun char => UInt8.ofNat char.toNat

def digitByte (digit : Nat) : UInt8 := UInt8.ofNat (48 + digit)

theorem digitChar_byte {digit : Nat} (small : digit < 10)
    : UInt8.ofNat digit.digitChar.toNat = digitByte digit := by
  interval_cases digit <;> rfl

/-- The last digit is the remainder by ten, and the others are those of the tenth. -/
theorem decimalDigits_eq (number : Nat)
    : decimalDigits number
      = if number < 10 then [digitByte number]
        else decimalDigits (number / 10) ++ [digitByte (number % 10)] := by
  rw [decimalDigits, Nat.toDigits_eq_if (by decide)]
  split
  case isTrue small => rw [List.map_singleton, digitChar_byte small]
  case isFalse =>
    rw [List.map_append, List.map_singleton, digitChar_byte (Nat.mod_lt number (by decide)),
      decimalDigits]

theorem decimal_natCast (number : Nat) : decimal number = decimalDigits number := by
  have nonneg : 0 ≤ (number : Int) := Int.natCast_nonneg number
  rw [decimal, decimalDigits, Int.toString_eq_repr, Int.repr_eq_if, if_pos nonneg, ascii,
    Int.toNat_natCast, Nat.toList_repr]

theorem decimal_negSucc (number : Nat)
    : decimal (Int.negSucc number) = 45 :: decimalDigits (number + 1) := by
  have negative : ¬ 0 ≤ Int.negSucc number := by omega
  rw [decimal, decimalDigits, Int.toString_eq_repr, Int.repr_eq_if, if_neg negative, ascii,
    String.toList_append, List.map_append, Nat.toList_repr]
  rfl

theorem digitByte_isDigit {digit : Nat} (small : digit < 10)
    : isDigit (digitByte digit) = true := by
  interval_cases digit <;> rfl

theorem decimalDigits_isDigit (number : Nat)
    : ∀ digit ∈ decimalDigits number, isDigit digit = true := by
  induction number using Nat.strong_induction_on with
  | _ number ih =>
      intro digit member
      rw [decimalDigits_eq] at member
      split at member
      case isTrue small =>
        rw [List.mem_singleton.mp member]
        exact digitByte_isDigit small
      case isFalse large =>
        rcases List.mem_append.mp member with front | last
        · exact ih (number / 10) (by omega) digit front
        · rw [List.mem_singleton.mp last]
          exact digitByte_isDigit (Nat.mod_lt number (by decide))

theorem decimalDigits_head (number : Nat)
    : ∃ first rest, decimalDigits number = first :: rest ∧ isDigit first = true := by
  have nonempty : decimalDigits number ≠ [] := by
    rw [decimalDigits, ne_eq, List.map_eq_nil_iff]
    exact Nat.toDigits_ne_nil
  cases digits : decimalDigits number with
  | nil => exact absurd digits nonempty
  | cons first rest =>
      exact ⟨first, rest, rfl, decimalDigits_isDigit number first (digits ▸ List.mem_cons_self)⟩

/-- The value of a digit behind a number, with no overflow. -/
theorem addDigit_exact {sign : Int} (isSign : sign = 1 ∨ sign = -1) (number : Nat) {digit : Nat}
    (small : digit < 10) (lower : -2 ^ 63 ≤ sign * (number * 10 + digit : Nat))
    (upper : sign * (number * 10 + digit : Nat) < 2 ^ 63)
    : addDigit sign (sign * number, false) (digitByte digit)
      = (sign * (number * 10 + digit : Nat), false) := by
  have byte : ((digitByte digit).toNat : Int) - 48 = digit := by
    rw [digitByte, UInt8.toNat_ofNat']
    omega
  have product : wrap64 (sign * number * 10) = sign * number * 10 := by
    apply wrap64_of_fits <;> rcases isSign with rfl | rfl <;> omega
  have sum
      : wrap64 (sign * number * 10 + digit * sign) = sign * (number * 10 + digit : Nat) := by
    rw [show sign * number * 10 + digit * sign = sign * (number * 10 + digit : Nat) by
      rcases isSign with rfl | rfl <;> omega]
    exact wrap64_of_fits lower upper
  rw [addDigit]
  dsimp only
  rw [if_neg Bool.false_ne_true, byte, product, sum]
  have noOverflow : ¬ (sign = 1 ∧ sign * (number * 10 + digit : Nat) < sign * number) := by
    rcases isSign with rfl | rfl <;> omega
  have noUnderflow : ¬ (sign = -1 ∧ sign * number < sign * (number * 10 + digit : Nat)) := by
    rcases isSign with rfl | rfl <;> omega
  rw [if_neg noOverflow, if_neg noUnderflow]

/-- The digits of a number that fits are read as the number. Induction on the number without its
last digit.
-/
theorem foldl_decimalDigits (sign : Int) (isSign : sign = 1 ∨ sign = -1) (number : Nat)
    (lower : -2 ^ 63 ≤ sign * number) (upper : sign * number < 2 ^ 63)
    : (decimalDigits number).foldl (addDigit sign) (0, false) = (sign * number, false) := by
  induction number using Nat.strong_induction_on with
  | _ number ih =>
      rw [decimalDigits_eq]
      split
      case isTrue small =>
        have first := addDigit_exact isSign 0 small
        rw [Nat.zero_mul, Nat.zero_add] at first
        have added := first lower upper
        rwa [Int.natCast_zero, Int.mul_zero] at added
      case isFalse large =>
        have split : number / 10 * 10 + number % 10 = number := by omega
        have front := ih (number / 10) (by omega) (by rcases isSign with rfl | rfl <;> omega)
          (by rcases isSign with rfl | rfl <;> omega)
        have last := addDigit_exact isSign (number / 10) (Nat.mod_lt number (by decide : 10 > 0))
        rw [split] at last
        rw [List.foldl_append, front]
        exact last lower upper

/-- A number that fits a `long long` is read back from what `%lld` prints. -/
theorem decimal_numeral (value : Int) (lower : -2 ^ 63 ≤ value) (upper : value < 2 ^ 63)
    : IsNumeral (decimal value) ∧ numeralValue (decimal value) = value := by
  cases value with
  | ofNat number =>
      have digits := decimalDigits_isDigit number
      have folded := foldl_decimalDigits 1 (.inl rfl) number (by omega) (by
        rw [Int.one_mul]
        exact upper)
      rw [Int.ofNat_eq_natCast, decimal_natCast]
      refine ⟨isNumeral_of_digits digits, ?_⟩
      rw [numeralValue, splitSign_of_digits digits, digitsValue, folded, Int.one_mul]
  | negSucc number =>
      have folded := foldl_decimalDigits (-1) (.inr rfl) (number + 1) (by omega) (by omega)
      have split
          : splitSign (45 :: decimalDigits (number + 1)) = (-1, decimalDigits (number + 1)) := rfl
      rw [decimal_negSucc]
      refine ⟨?_, ?_⟩
      · rw [IsNumeral, split]
        exact decimalDigits_isDigit (number + 1)
      · rw [numeralValue, split, digitsValue, folded]
        omega

-----------------------------------------------------------------------------------------
-- Encoded values are read back
-----------------------------------------------------------------------------------------

namespace BeNode

/-- A node that the decoder can come to with some levels left: the numbers are `long long`s, and so
are the lengths of the strings.
-/
def Fits : Nat → BeNode → Prop
  | 0, _ => False
  | _ + 1, str bytes => bytes.length < 2 ^ 63
  | _ + 1, num value => -2 ^ 63 ≤ value ∧ value < 2 ^ 63
  | levels + 1, list entries => ∀ entry ∈ entries, Fits levels entry
  | levels + 1, dict entries => ∀ entry ∈ entries, entry.1.length < 2 ^ 63 ∧ Fits levels entry.2

def encodeEntry (entry : Bytes × BeNode) : Bytes := encodeStr entry.1 ++ encode entry.2

theorem encodeList_eq (entries : List BeNode) : encodeList entries = entries.flatMap encode := by
  induction entries with
  | nil => rfl
  | cons entry rest ih => rw [encodeList, List.flatMap_cons, ih]

theorem encodeDict_eq (entries : List (Bytes × BeNode))
    : encodeDict entries = entries.flatMap encodeEntry := by
  induction entries with
  | nil => rfl
  | cons entry rest ih => rw [encodeDict, List.flatMap_cons, ih, encodeEntry]

theorem digit_goes_on {first : UInt8} (digit : isDigit first = true)
    : endsEntries first = false := by
  cases ends : endsEntries first with
  | false => rfl
  | true =>
      rw [of_decide_eq_true ends] at digit
      cases digit

theorem encodeStr_head (bytes : Bytes)
    : ∃ first rest, encodeStr bytes = first :: rest ∧ isDigit first = true := by
  obtain ⟨first, rest, digits, digit⟩ := decimalDigits_head bytes.length
  refine ⟨first, rest ++ ascii ":" ++ bytes, ?_, digit⟩
  rw [encodeStr, decimal_natCast, digits]
  rfl

theorem beDecodeStr_inverts
    : PrefixParser.Inverts beDecodeStr endsEntries encodeStr
        fun bytes => bytes.length < 2 ^ 63 := by
  constructor
  case begins =>
    intro bytes _
    obtain ⟨first, rest, head, digit⟩ := encodeStr_head bytes
    exact ⟨first, rest, head, digit_goes_on digit⟩
  case reads =>
    intro bytes small rest
    obtain ⟨isNumeral, value⟩ := decimal_numeral bytes.length (by omega) (by omega)
    have number :=
      @beDecodeInt_numeral _ (58 :: (bytes ++ rest)) isNumeral (by simp [isDigit]) (by simp)
    have text : encodeStr bytes ++ rest = decimal bytes.length ++ 58 :: (bytes ++ rest) := by
      rw [encodeStr, List.append_assoc, List.append_assoc]
      rfl
    rw [beDecodeStr, text, bind_of_ok number, value]
    dsimp only
    rw [if_neg (by simp), Int.toNat_natCast, List.take_left, List.drop_left]

theorem beDecodeEntries_inverts {α : Type} {item : PrefixParser Fault UInt8 α} {print : α → Bytes}
    {valid : α → Prop} (inverts : item.Inverts endsEntries print valid) {values : List α}
    (allValid : ∀ value ∈ values, valid value) (rest : Bytes)
    : beDecodeEntries item (values.flatMap print ++ 101 :: rest) = .ok (some (values, rest)) := by
  have many (turns : Nat) (enough : (values.flatMap print).length < turns)
      : item.many endsEntries .messageBounds .endlessLoop turns (values.flatMap print ++ 101 :: rest)
        = .ok (some (values, rest)) :=
    inverts.many allValid (by decide) enough
  have length
      : (values.flatMap print ++ 101 :: rest).length
        = (values.flatMap print).length + (rest.length + 1) :=
    List.length_append
  generalize values.flatMap print ++ 101 :: rest = input at many length ⊢
  cases input with
  | nil => cases length
  | cons first input =>
      rw [List.length_cons] at length
      exact many (input.length + 1) (by omega)

/-- What the decoder reads with some levels left. Induction on the levels. -/
theorem beDecode1_inverts (levels : Nat)
    : (beDecode1 levels).Inverts endsEntries encode (Fits levels) := by
  induction levels with
  | zero =>
      constructor
      case begins => exact fun impossible => impossible.elim
      case reads => exact fun impossible => impossible.elim
  | succ levels ih =>
      constructor
      case begins =>
        intro node _
        cases node with
        | str bytes =>
            obtain ⟨first, rest, head, digit⟩ := encodeStr_head bytes
            exact ⟨first, rest, head, digit_goes_on digit⟩
        | num value => exact ⟨105, _, rfl, by decide⟩
        | list entries => exact ⟨108, _, rfl, by decide⟩
        | dict entries => exact ⟨100, _, rfl, by decide⟩
      case reads =>
        intro node fits rest
        cases node with
        | str bytes =>
            obtain ⟨first, tail, head, digit⟩ := encodeStr_head bytes
            have read := beDecodeStr_inverts.reads fits rest
            rw [encode]
            rw [head, List.cons_append] at read ⊢
            rw [beDecode1_string levels digit]
            exact PrefixParser.mapValue_eq_some.mpr ⟨bytes, read, rfl⟩
        | num value =>
            obtain ⟨isNumeral, read⟩ := decimal_numeral value fits.1 fits.2
            have text : (num value).encode ++ rest = 105 :: (decimal value ++ 101 :: rest) := by
              rw [encode, List.append_assoc]
              rfl
            rw [text, beDecode1_number, beDecodeNum_takes isNumeral, read]
        | list entries =>
            have text
                : (list entries).encode ++ rest = 108 :: (entries.flatMap encode ++ 101 :: rest) := by
              rw [encode, List.append_assoc, encodeList_eq]
              rfl
            rw [text, beDecode1_list]
            exact PrefixParser.mapValue_eq_some.mpr
              ⟨entries, beDecodeEntries_inverts ih fits rest, rfl⟩
        | dict entries =>
            have text
                : (dict entries).encode ++ rest
                  = 100 :: (entries.flatMap encodeEntry ++ 101 :: rest) := by
              rw [encode, List.append_assoc, encodeDict_eq]
              rfl
            rw [text, beDecode1_dict]
            exact PrefixParser.mapValue_eq_some.mpr
              ⟨entries, beDecodeEntries_inverts (beDecodeStr_inverts.pair ih) fits rest, rfl⟩

/-- `be_decode` takes back what `be_encode` wrote, and reports its length. -/
theorem beDecode_encode {node : BeNode} (fits : node.Fits 10) (rest : Bytes)
    : beDecode (node.encode ++ rest) = .ok (some (node, node.encode.length)) := by
  rw [beDecode, bind_of_ok ((beDecode1_inverts 10).reads fits rest), List.length_append]
  show Except.ok (some (node, node.encode.length + rest.length - rest.length)) = _
  rw [Nat.add_sub_cancel]

-----------------------------------------------------------------------------------------
-- Decoded values can be encoded
-----------------------------------------------------------------------------------------

theorem addDigit_range {sign : Int} {state : Int × Bool} (digit : UInt8)
    (inRange : -2 ^ 63 ≤ state.1 ∧ state.1 < 2 ^ 63)
    : -2 ^ 63 ≤ (addDigit sign state digit).1 ∧ (addDigit sign state digit).1 < 2 ^ 63 := by
  obtain ⟨ret, overflowed⟩ := state
  rw [addDigit]
  cases overflowed with
  | true => exact inRange
  | false =>
      dsimp only
      rw [if_neg Bool.false_ne_true]
      split
      · decide
      split
      · decide
      · unfold wrap64
        omega

theorem digitsValue_range (sign : Int) (digits : Bytes)
    : -2 ^ 63 ≤ digitsValue sign digits ∧ digitsValue sign digits < 2 ^ 63 := by
  have start : -2 ^ 63 ≤ ((0, false) : Int × Bool).1 ∧ ((0, false) : Int × Bool).1 < 2 ^ 63 := by
    decide
  rw [digitsValue]
  generalize ((0, false) : Int × Bool) = state at start ⊢
  induction digits generalizing state with
  | nil => exact start
  | cons digit rest ih => exact ih _ (addDigit_range digit start)

theorem beDecodeInt_range {input rest : Bytes} {value : Int}
    (took : beDecodeInt input = .ok (value, rest))
    : -2 ^ 63 ≤ value ∧ value < 2 ^ 63 := by
  obtain ⟨numeral, _, rfl, _⟩ := beDecodeInt_took took
  exact digitsValue_range _ _

theorem beDecodeStr_yields
    : PrefixParser.Yields beDecodeStr fun bytes => bytes.length < 2 ^ 63 := by
  intro input bytes rest took
  obtain ⟨⟨length, left⟩, number, took⟩ := bind_eq_ok.mp took
  have range := beDecodeInt_range number
  cases left with
  | nil => cases took
  | cons colon left =>
      dsimp only at took
      split at took
      · cases took
      · rename_i whole
        simp only [not_or, Int.not_lt] at whole
        cases took
        rw [List.length_take]
        omega

theorem beDecodeNum_yields (levels : Nat)
    : PrefixParser.Yields beDecodeNum (Fits (levels + 1)) := by
  intro input node rest took
  cases input with
  | nil => cases took
  | cons first input =>
      rw [beDecodeNum] at took
      obtain ⟨⟨value, left⟩, number, took⟩ := bind_eq_ok.mp took
      cases left with
      | nil => cases took
      | cons last left =>
          dsimp only at took
          split at took
          · cases took
            exact beDecodeInt_range number
          · cases took

theorem beDecodeEntries_yields {α : Type} {item : PrefixParser Fault UInt8 α} {property : α → Prop}
    (yields : item.Yields property)
    : (beDecodeEntries item).Yields fun values => ∀ value ∈ values, property value := by
  intro input values rest took
  cases input with
  | nil => cases took
  | cons first input => exact yields.many _ _ _ _ took

/-- Induction on the levels. -/
theorem beDecode1_yields (levels : Nat) : (beDecode1 levels).Yields (Fits levels) := by
  induction levels with
  | zero =>
      intro input node rest took
      cases took
  | succ levels ih =>
      intro input node rest took
      cases input with
      | nil => cases took
      | cons first input =>
          rw [beDecode1] at took
          split at took
          · exact beDecodeNum_yields levels _ _ _ took
          split at took
          · exact beDecodeStr_yields.mapValue (fun _ small => small) _ _ _ took
          split at took
          · exact (beDecodeEntries_yields ih).mapValue (fun _ all => all) _ _ _ took
          split at took
          · exact (beDecodeEntries_yields (beDecodeStr_yields.pair ih)).mapValue
              (fun _ all => all) _ _ _ took
          · cases took

theorem fits_of_beDecode {input : Bytes} {node : BeNode} {readAmount : Nat}
    (decoded : beDecode input = .ok (some (node, readAmount)))
    : node.Fits 10 := by
  obtain ⟨taken, took, decoded⟩ := bind_eq_ok.mp decoded
  cases taken with
  | none => cases decoded
  | some taken =>
      cases decoded
      exact beDecode1_yields 10 _ _ _ took

/-- The nodes that can be decoded are exactly those that fit: less than ten levels of lists and
dictionaries, and numbers and lengths that are `long long`s.
-/
theorem decodable_iff {node : BeNode}
    : (∃ input readAmount, beDecode input = .ok (some (node, readAmount))) ↔ node.Fits 10 := by
  constructor
  · rintro ⟨input, readAmount, decoded⟩
    exact fits_of_beDecode decoded
  · intro fits
    exact ⟨node.encode ++ [], node.encode.length, beDecode_encode fits []⟩

/-- Whatever was decoded can be encoded and decoded again, with anything behind it: the same node
comes out, from exactly the bytes that were encoded.
-/
theorem beDecode_encode_beDecode {input : Bytes} {node : BeNode} {readAmount : Nat}
    (decoded : beDecode input = .ok (some (node, readAmount))) (rest : Bytes)
    : beDecode (node.encode ++ rest) = .ok (some (node, node.encode.length)) :=
  beDecode_encode (fits_of_beDecode decoded) rest

theorem beDecode_encode_beDecode_list
    : beDecode ((BeNode.list [.num (-7), .str [97]]).encode ++ [101])
      = .ok (some (.list [.num (-7), .str [97]], (BeNode.list [.num (-7), .str [97]]).encode.length)) :=
  beDecode_encode_beDecode (beDecode_encode (by simp [Fits]) [100, 100]) [101]

end BeNode

end UvgTorrent

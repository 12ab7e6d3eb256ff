import UvgTorrent.Bencode.RoundTrips
import UvgTorrent.Foundations.BoundedWriters

/-! `be_encode` of `bencode.c` into a buffer of limited room. -/

namespace UvgTorrent

open Foundations

namespace BeNode

-----------------------------------------------------------------------------------------
-- The encoder
-----------------------------------------------------------------------------------------

/-- `be_encode_str`. -/
def beEncodeStr (str : Bytes) (b : OutBuffer) : Except Fault (Bytes × Int) :=
  let tmpBuf := decimal str.length ++ ascii ":"
  let size : Int := tmpBuf.length + str.length
  if b.outBuf.isSome ∧ b.outBufLen < u64OfInt size then .ok (b.block, -1)
  else
    (b.store .answerBounds tmpBuf).bind fun block =>
      ((b.eat block tmpBuf.length).store .answerBounds str).bind fun block => .ok (block, size)

/-- The `NUM` case of `be_encode`. -/
def beEncodeNum (num : Int) (b : OutBuffer) : Except Fault (Bytes × Int) :=
  let tmpBuf := ascii "i" ++ decimal num ++ ascii "e"
  let sz := wrap32 tmpBuf.length
  if b.outBuf.isSome ∧ b.outBufLen < u64OfInt sz then .ok (b.block, -1)
  else (b.store .answerBounds tmpBuf).bind fun block => .ok (block, sz)

/-- The `e` behind the entries, and the length that is returned. -/
def closeEntries (b : OutBuffer) (sz : Int) : Except Fault (Bytes × Int) :=
  if b.outBuf.isSome ∧ b.outBufLen = 0 then .ok (b.block, -1)
  else (b.store .answerBounds (ascii "e")).bind fun block => .ok (block, wrap32 (sz + 1))

/-- The first byte of a list or a dictionary, and the code behind it. -/
def openEntries (first : Bytes) (b : OutBuffer)
    (entries : OutBuffer → Int → Except Fault (Bytes × Int))
    : Except Fault (Bytes × Int) :=
  (b.store .answerBounds first).bind fun block => entries (b.eat block 1) 1

mutual

/-- `be_encode`. -/
def beEncode : BeNode → OutBuffer → Except Fault (Bytes × Int)
  | node, b =>
      if b.outBuf.isSome ∧ b.outBufLen = 0 then .ok (b.block, -1)
      else
        match node with
        | num value => beEncodeNum value b
        | str bytes =>
            (beEncodeStr bytes b).bind fun (block, size) =>
              let sz := wrap32 size
              .ok (block, if sz < 0 then -1 else sz)
        | list entries => openEntries (ascii "l") b (beEncodeList entries)
        | dict entries => openEntries (ascii "d") b (beEncodeDict entries)

/-- The loop over the entries of a list, and what follows it. -/
def beEncodeList : List BeNode → OutBuffer → Int → Except Fault (Bytes × Int)
  | [], b, sz => closeEntries b sz
  | entry :: rest, b, sz => b.checkAndUpdate sz (beEncode entry) (beEncodeList rest)

/-- The loop over the entries of a dictionary, and what follows it. -/
def beEncodeDict : List (Bytes × BeNode) → OutBuffer → Int → Except Fault (Bytes × Int)
  | [], b, sz => closeEntries b sz
  | (key, val) :: rest, b, sz =>
      b.checkAndUpdate sz (beEncodeStr key) fun b sz =>
        b.checkAndUpdate sz (beEncode val) (beEncodeDict rest)

end

-----------------------------------------------------------------------------------------
-- What the encoder writes
-----------------------------------------------------------------------------------------

open OutBuffer

variable {b : OutBuffer} {front whole : Bytes}

/-- A comparison of a length with the room. -/
theorem full_iff {text : Bytes} {size : Int} (counted : size = text.length)
    (small : text.length < 2 ^ 64)
    : (b.outBuf.isSome ∧ b.outBufLen < u64OfInt size) ↔ ¬ b.Holds text := by
  rw [counted, u64OfInt_natCast small]
  simp [Holds]

/-- Where there is no room at all, no text that has a byte is held. -/
theorem empty_iff {first : UInt8} {rest : Bytes} (full : b.outBuf.isSome ∧ b.outBufLen = 0)
    : ¬ b.Holds (first :: rest) := by
  intro holds
  have room := holds full.1
  rw [full.2] at room
  cases room

theorem ends_full {ε : Type} (valid : b.Valid) (full : ¬ b.Holds whole)
    : Ends (ε := ε) b whole (.ok (b.block, -1)) :=
  .inr ⟨full, [], List.nil_prefix, holds_nil, by rw [after_nil valid]⟩

theorem beEncodeStr_writes {str : Bytes} (small : (encodeStr str).length < 2 ^ 31)
    : Writes (beEncodeStr str) (encodeStr str) := by
  intro b valid
  rw [encodeStr] at small ⊢
  rw [beEncodeStr]
  generalize decimal str.length ++ ascii ":" = tmpBuf at small ⊢
  have counted : (tmpBuf.length : Int) + str.length = (tmpBuf ++ str).length := by
    rw [List.length_append]
    rfl
  by_cases holds : b.Holds (tmpBuf ++ str)
  case pos =>
    have number : b.Holds tmpBuf := holds.mono (by simp)
    have rest : (b.after tmpBuf).Holds str := (holds_after number).mpr holds
    rw [if_neg ((full_iff counted (by omega)).not.mpr (not_not_intro holds)),
      bind_of_ok (store_of_holds valid number), eat_after valid number rfl,
      bind_of_ok (store_of_holds (valid.after number) rest), after_after valid holds, counted]
    exact .inl ⟨holds, rfl⟩
  case neg =>
    rw [if_pos ((full_iff counted (by omega)).mpr holds)]
    exact ends_full valid holds

theorem beEncodeNum_writes {num : Int} (small : (BeNode.num num).encode.length < 2 ^ 31)
    : Writes (beEncodeNum num) (BeNode.num num).encode := by
  intro b valid
  rw [encode] at small ⊢
  rw [beEncodeNum]
  generalize ascii "i" ++ decimal num ++ ascii "e" = tmpBuf at small ⊢
  have counted : wrap32 tmpBuf.length = tmpBuf.length := wrap32_natCast small
  by_cases holds : b.Holds tmpBuf
  case pos =>
    rw [if_neg ((full_iff counted (by omega)).not.mpr (not_not_intro holds)),
      bind_of_ok (store_of_holds valid holds), counted]
    exact .inl ⟨holds, rfl⟩
  case neg =>
    rw [if_pos ((full_iff counted (by omega)).mpr holds)]
    exact ends_full valid holds

/-- The `e` that ends the entries is one more byte. -/
theorem closeEntries_ends (valid : b.Valid) (holds : b.Holds front)
    (small : (front ++ ascii "e").length < 2 ^ 31)
    : Ends b (front ++ ascii "e") (closeEntries (b.after front) front.length) := by
  have length : (front ++ ascii "e").length = front.length + 1 := List.length_append
  rw [closeEntries]
  by_cases full : (b.after front).outBuf.isSome ∧ (b.after front).outBufLen = 0
  case pos =>
    rw [if_pos full]
    refine .inr ⟨(holds_after holds).not.mp (empty_iff full), front, ?_, holds, rfl⟩
    exact List.prefix_append front (ascii "e")
  case neg =>
    have room : (b.after front).Holds (ascii "e") := by
      intro isBuffer
      have positive : (b.after front).outBufLen ≠ 0 := fun empty => full ⟨isBuffer, empty⟩
      exact Nat.one_le_iff_ne_zero.mpr positive
    have held := (holds_after holds).mp room
    rw [if_neg full, bind_of_ok (store_of_holds (valid.after holds) room),
      after_after valid held, wrap32_of_fits (by omega) (by omega)]
    exact .inl ⟨held, by rw [length]; rfl⟩

/-- The first byte of the entries, where there is room for a byte. -/
theorem openEntries_ends {first : UInt8}
    {entries : OutBuffer → Int → Except Fault (Bytes × Int)} (valid : b.Valid)
    (room : b.Holds [first])
    (goesOn : Ends b whole (entries (b.after [first]) (([first] : Bytes).length : Int)))
    : Ends b whole (openEntries [first] b entries) := by
  have eaten : b.eat (b.after [first]).block 1 = b.after [first] := eat_after valid room rfl
  rw [openEntries, bind_of_ok (store_of_holds valid room), eaten]
  exact goesOn

/-- The check for a buffer with no room at all. -/
theorem ends_of_room {first : UInt8} {rest : Bytes} {outcome : Except Fault (Bytes × Int)}
    (valid : b.Valid) (ends : (∀ byte, b.Holds [byte]) → Ends b (first :: rest) outcome)
    : Ends b (first :: rest)
        (if b.outBuf.isSome ∧ b.outBufLen = 0 then .ok (b.block, -1) else outcome) := by
  by_cases full : b.outBuf.isSome ∧ b.outBufLen = 0
  case pos =>
    rw [if_pos full]
    exact ends_full valid (empty_iff full)
  case neg =>
    rw [if_neg full]
    refine ends (fun byte isBuffer => ?_)
    exact Nat.one_le_iff_ne_zero.mpr fun empty => full ⟨isBuffer, empty⟩

/-- The length of a string as the `int` of its caller. -/
theorem str_ends (str : Bytes) (valid : b.Valid) (small : (encodeStr str).length < 2 ^ 31)
    : Ends b (encodeStr str)
        ((beEncodeStr str b).bind fun (block, size) =>
          let sz := wrap32 size
          .ok (block, if sz < 0 then -1 else sz)) := by
  rcases beEncodeStr_writes small b valid
    with ⟨holds, called⟩ | ⟨full, written, partly, fits, called⟩
  · refine .inl ⟨holds, ?_⟩
    rw [bind_of_ok called]
    dsimp only
    rw [wrap32_natCast small, if_neg (by omega)]
  · refine .inr ⟨full, written, partly, fits, ?_⟩
    rw [bind_of_ok called]
    rfl

mutual

/-- Induction on the node, with the entries of lists and dictionaries behind what stands before
them.
-/
theorem beEncode_writes : ∀ {node : BeNode}, node.encode.length < 2 ^ 31
    → Writes (beEncode node) node.encode
  | str bytes, small => by
      intro b valid
      obtain ⟨first, rest, head, _⟩ := encodeStr_head bytes
      have ends := str_ends bytes valid small
      rw [beEncode, encode]
      rw [head] at ends ⊢
      exact ends_of_room valid (fun _ => ends)
  | num value, small => by
      intro b valid
      rw [beEncode]
      exact ends_of_room valid (fun _ => beEncodeNum_writes small b valid)
  | list entries, small => by
      intro b valid
      rw [beEncode]
      refine ends_of_room valid (fun room => openEntries_ends valid (room 108) ?_)
      exact @beEncodeList_ends entries b (ascii "l") valid (room 108) small
  | dict entries, small => by
      intro b valid
      rw [beEncode]
      refine ends_of_room valid (fun room => openEntries_ends valid (room 100) ?_)
      exact @beEncodeDict_ends entries b (ascii "d") valid (room 100) small

theorem beEncodeList_ends : ∀ {entries : List BeNode} {b : OutBuffer} {front : Bytes}, b.Valid
    → b.Holds front
    → (front ++ encodeList entries ++ ascii "e").length < 2 ^ 31
    → Ends b (front ++ encodeList entries ++ ascii "e")
        (beEncodeList entries (b.after front) front.length)
  | [], b, front, valid, holds, small => by
      rw [encodeList, List.append_nil] at small ⊢
      exact closeEntries_ends valid holds small
  | entry :: rest, b, front, valid, holds, small => by
      rw [encodeList, ← List.append_assoc front] at small ⊢
      have begins : front ++ encode entry <+: front ++ encode entry ++ encodeList rest ++ ascii "e" :=
        (List.prefix_append _ _).trans (List.prefix_append _ _)
      have short : (encode entry).length < 2 ^ 31 := by
        simp only [List.length_append] at small
        omega
      rw [beEncodeList]
      exact checkAndUpdate_ends (beEncode_writes short) valid holds begins small
        (fun held => beEncodeList_ends valid held small)

theorem beEncodeDict_ends
    : ∀ {entries : List (Bytes × BeNode)} {b : OutBuffer} {front : Bytes}, b.Valid
    → b.Holds front
    → (front ++ encodeDict entries ++ ascii "e").length < 2 ^ 31
    → Ends b (front ++ encodeDict entries ++ ascii "e")
        (beEncodeDict entries (b.after front) front.length)
  | [], b, front, valid, holds, small => by
      rw [encodeDict, List.append_nil] at small ⊢
      exact closeEntries_ends valid holds small
  | (key, val) :: rest, b, front, valid, holds, small => by
      rw [encodeDict, ← List.append_assoc front, ← List.append_assoc front] at small ⊢
      have begins
          : front ++ encodeStr key ++ encode val
            <+: front ++ encodeStr key ++ encode val ++ encodeDict rest ++ ascii "e" :=
        (List.prefix_append _ _).trans (List.prefix_append _ _)
      have short : (encodeStr key).length < 2 ^ 31 ∧ (encode val).length < 2 ^ 31 := by
        simp only [List.length_append] at small
        omega
      rw [beEncodeDict]
      refine checkAndUpdate_ends (beEncodeStr_writes short.1) valid holds
        ((List.prefix_append _ _).trans begins) small (fun heldKey => ?_)
      exact checkAndUpdate_ends (beEncode_writes short.2) valid heldKey begins small
        (fun held => beEncodeDict_ends valid held small)

end

/-- In a buffer inside a block, the whole text is written and its length returned, or it is longer
than the room, -1 is returned, and the start of the text at most is in the room. Everything else in
the block is as it was.
-/
theorem beEncode_into_buffer {node : BeNode} (small : node.encode.length < 2 ^ 31) {block : Bytes}
    {position room : Nat} (inside : position + room ≤ block.length) (bounded : room < 2 ^ 64)
    : (node.encode.length ≤ room
        ∧ beEncode node ⟨block, some position, room⟩
          = .ok (overwrite block position node.encode, (node.encode.length : Int)))
      ∨ (room < node.encode.length
        ∧ ∃ written,
            written <+: node.encode
            ∧ written.length ≤ room
            ∧ beEncode node ⟨block, some position, room⟩
              = .ok (overwrite block position written, -1)) := by
  have valid : OutBuffer.Valid ⟨block, some position, room⟩ := by
    refine ⟨?_, bounded⟩
    rintro _ ⟨⟩
    exact inside
  rcases beEncode_writes small _ valid with ⟨holds, called⟩ | ⟨full, written, front, fits, called⟩
  · exact .inl ⟨holds rfl, called⟩
  · exact .inr ⟨Nat.not_le.mp fun enough => full fun _ => enough, written, front, fits rfl, called⟩

/-- Five bytes are too few for a list with a number and a string. -/
theorem beEncode_into_five_bytes
    : ∃ written,
        written <+: (BeNode.list [.num (-7), .str [97, 98]]).encode
        ∧ written.length ≤ 5
        ∧ beEncode (.list [.num (-7), .str [97, 98]]) ⟨List.replicate 8 0, some 2, 5⟩
          = .ok (overwrite (List.replicate 8 0) 2 written, -1) := by
  rcases @beEncode_into_buffer (.list [.num (-7), .str [97, 98]]) (by decide)
    (List.replicate 8 0) 2 5 (by decide) (by decide) with ⟨enough, _⟩ | ⟨_, done⟩
  · exact absurd enough (by decide)
  · exact done

/-- A first pass without a buffer gives the length; a second one fills a block of that length to the
last byte, and the decoder takes the node back from it.
-/
theorem beEncode_two_passes {node : BeNode} (fits : node.Fits 10)
    (small : node.encode.length < 2 ^ 31) (unused : Bytes)
    : ∃ size : Nat,
        beEncode node ⟨unused, none, 0⟩ = .ok (unused, (size : Int))
          ∧ ∀ block : Bytes,
              block.length = size
              → ∃ text,
                  beEncode node ⟨block, some 0, size⟩ = .ok (text, (size : Int))
                    ∧ text.length = size
                    ∧ beDecode text = .ok (some (node, size)) := by
  refine ⟨node.encode.length, ?_, fun block sized => ⟨node.encode, ?_, rfl, ?_⟩⟩
  · have noBuffer : OutBuffer.Valid ⟨unused, none, 0⟩ :=
      ⟨fun _ none => (by cases none), Nat.two_pow_pos 64⟩
    rcases beEncode_writes small _ noBuffer with ⟨_, called⟩ | ⟨full, _⟩
    · exact called
    · exact absurd (fun isBuffer => (by cases isBuffer)) full
  · have valid : OutBuffer.Valid ⟨block, some 0, node.encode.length⟩ := by
      refine ⟨?_, lt_trans small (by decide)⟩
      rintro _ ⟨⟩
      show 0 + node.encode.length ≤ block.length
      omega
    rcases beEncode_writes small _ valid with ⟨_, called⟩ | ⟨full, _⟩
    · have filled : overwrite block 0 node.encode = node.encode := by
        rw [overwrite, List.take_zero, List.nil_append, List.drop_of_length_le (by omega),
          List.append_nil]
      rw [called]
      exact congrArg (fun text => Except.ok (text, (node.encode.length : Int))) filled
    · exact absurd (fun _ => Nat.le_refl _) full
  · have decoded := beDecode_encode fits []
    rwa [List.append_nil] at decoded

theorem beEncode_two_passes_dict
    : ∃ size : Nat,
        beEncode (.dict [([97], .list [.num (-7), .str [98]])]) ⟨[], none, 0⟩ = .ok ([], (size : Int))
          ∧ ∀ block : Bytes,
              block.length = size
              → ∃ text,
                  beEncode (.dict [([97], .list [.num (-7), .str [98]])]) ⟨block, some 0, size⟩
                      = .ok (text, (size : Int))
                    ∧ text.length = size
                    ∧ beDecode text = .ok (some (.dict [([97], .list [.num (-7), .str [98]])], size)) :=
  beEncode_two_passes (by simp [Fits]) (by decide) []

-----------------------------------------------------------------------------------------
-- The length of what is written
-----------------------------------------------------------------------------------------

/-- A `long long` has at most 19 digits and a sign. -/
theorem decimal_length_le (value : Int) (lower : -2 ^ 63 ≤ value) (upper : value < 2 ^ 63)
    : (decimal value).length ≤ 20 := by
  have digits {number : Nat} (small : number < 10 ^ 19) : (decimalDigits number).length ≤ 19 := by
    rw [decimalDigits, List.length_map]
    exact (Nat.length_toDigits_le_iff (by decide) (by decide)).mpr small
  cases value with
  | ofNat number =>
      have small : (number : Int) < 2 ^ 63 := upper
      rw [Int.ofNat_eq_natCast, decimal_natCast]
      exact (digits (by omega)).trans (by decide)
  | negSucc number =>
      rw [decimal_negSucc, List.length_cons]
      exact Nat.succ_le_succ (digits (by omega))

/-- An entry of a dictionary with a number takes its key, a few bytes of marks and the digits. -/
theorem encodeEntry_num_length_le (key : Bytes) (value : Int) (short : key.length < 100)
    (lower : -2 ^ 63 ≤ value) (upper : value < 2 ^ 63)
    : (encodeEntry (key, .num value)).length ≤ key.length + 43 := by
  have digits := decimal_length_le value lower upper
  have size := decimal_length_le key.length (by omega) (by omega)
  have marks : (ascii "i").length = 1 ∧ (ascii "e").length = 1 ∧ (ascii ":").length = 1 := by decide
  simp only [encodeEntry, encodeStr, encode, List.length_append]
  omega

end BeNode

end UvgTorrent

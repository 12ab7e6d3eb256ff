import UvgTorrent.Foundations.AllocatedBlocks
import UvgTorrent.Foundations.FallibleRuns
import UvgTorrent.Foundations.MachineIntegers

/-! Writers into a buffer of limited room. A writer returns how much it wrote, or -1 where the room
does not suffice, and without a buffer how much it would write. Writers in a row are again a writer.
-/

namespace Foundations

/-- A place in a block and the room behind it, or `NULL`, where only the length is asked for. -/
structure OutBuffer where
  block : Bytes
  outBuf : Option Nat
  outBufLen : Nat

namespace OutBuffer

/-- The room lies in the block, and is a `size_t`. -/
structure Valid (b : OutBuffer) : Prop where
  inside : ∀ position ∈ b.outBuf, position + b.outBufLen ≤ b.block.length
  bounded : b.outBufLen < 2 ^ 64

/-- There is room for a text, or no buffer that it could overrun. -/
def Holds (b : OutBuffer) (text : Bytes) : Prop := b.outBuf.isSome → text.length ≤ b.outBufLen

/-- The buffer behind a text that was written to it. -/
def after (b : OutBuffer) (text : Bytes) : OutBuffer :=
  match b.outBuf with
  | none => b
  | some position =>
      {
        block := overwrite b.block position text
        outBuf := some (position + text.length)
        outBufLen := b.outBufLen - text.length
      }

/-- The macro of `bencode.c` that moves on behind what a call wrote, and counts it in an `int`. -/
def eat (b : OutBuffer) (block : Bytes) (count : Int) : OutBuffer :=
  match b.outBuf with
  | none => { b with block }
  | some position =>
      {
        block
        outBuf := some (position + count.toNat)
        outBufLen := u64Sub b.outBufLen (u64OfInt count)
      }

variable {b : OutBuffer} {text more written : Bytes}

instance (b : OutBuffer) (text : Bytes) : Decidable (b.Holds text) :=
  inferInstanceAs (Decidable (b.outBuf.isSome → text.length ≤ b.outBufLen))

theorem Holds.mono (holds : b.Holds text) (shorter : written.length ≤ text.length)
    : b.Holds written :=
  fun buffer => shorter.trans (holds buffer)

theorem holds_nil : b.Holds [] := fun _ => Nat.zero_le _

theorem after_nil (valid : b.Valid) : b.after [] = b := by
  obtain ⟨block, outBuf, outBufLen⟩ := b
  cases outBuf with
  | none => rfl
  | some position =>
      have inside := valid.inside position rfl
      simp [after, overwrite]

theorem Valid.after (valid : b.Valid) (holds : b.Holds text) : (b.after text).Valid := by
  obtain ⟨block, outBuf, outBufLen⟩ := b
  cases outBuf with
  | none => exact valid
  | some position =>
      have inside : position + outBufLen ≤ block.length := valid.inside position rfl
      have room : text.length ≤ outBufLen := holds rfl
      have bounded : outBufLen < 2 ^ 64 := valid.bounded
      constructor
      case inside =>
        rintro _ ⟨⟩
        show position + text.length + (outBufLen - text.length)
          ≤ (overwrite block position text).length
        rw [overwrite_length (by omega)]
        omega
      case bounded => exact (Nat.sub_le _ _).trans_lt bounded

theorem holds_after (holds : b.Holds text)
    : (b.after text).Holds more ↔ b.Holds (text ++ more) := by
  obtain ⟨block, outBuf, outBufLen⟩ := b
  cases outBuf with
  | none => exact ⟨fun _ isBuffer => (by cases isBuffer), fun _ isBuffer => (by cases isBuffer)⟩
  | some position =>
      have room : text.length ≤ outBufLen := holds rfl
      have sum : (text ++ more).length = text.length + more.length := List.length_append
      constructor
      · intro rest _
        have left : more.length ≤ outBufLen - text.length := rest rfl
        show (text ++ more).length ≤ outBufLen
        omega
      · intro whole _
        have all : (text ++ more).length ≤ outBufLen := whole rfl
        show more.length ≤ outBufLen - text.length
        omega

/-- Two copies in a row are one copy. -/
theorem overwrite_overwrite {block first second : Bytes} {position : Nat}
    (inside : position + (first.length + second.length) ≤ block.length)
    : overwrite (overwrite block position first) (position + first.length) second
      = overwrite block position (first ++ second) := by
  have front : (block.take position ++ first).length = position + first.length := by
    rw [List.length_append, List.length_take_of_le (by omega)]
  have rest
      : (overwrite block position first).drop (position + first.length + second.length)
        = block.drop (position + (first ++ second).length) := by
    rw [overwrite, ← List.drop_drop, List.drop_left' front, List.drop_drop, List.length_append,
      Nat.add_assoc]
  rw [overwrite, rest, overwrite, List.take_left' front, overwrite, List.append_assoc _ first]

theorem after_after (valid : b.Valid) (holds : b.Holds (text ++ more))
    : (b.after text).after more = b.after (text ++ more) := by
  obtain ⟨block, outBuf, outBufLen⟩ := b
  cases outBuf with
  | none => rfl
  | some position =>
      have inside : position + outBufLen ≤ block.length := valid.inside position rfl
      have room : (text ++ more).length ≤ outBufLen := holds rfl
      have sum : (text ++ more).length = text.length + more.length := List.length_append
      have joined : overwrite (overwrite block position text) (position + text.length) more
          = overwrite block position (text ++ more) :=
        overwrite_overwrite (by omega)
      simp only [after, joined, sum, Nat.add_assoc, Nat.sub_sub]

/-- Moving on behind a text that was written. -/
theorem eat_after (valid : b.Valid) (holds : b.Holds text) {count : Int}
    (counted : count = text.length)
    : b.eat (b.after text).block count = b.after text := by
  obtain ⟨block, outBuf, outBufLen⟩ := b
  subst counted
  cases outBuf with
  | none => rfl
  | some position =>
      have room : text.length ≤ outBufLen := holds rfl
      have bounded : outBufLen < 2 ^ 64 := valid.bounded
      have left : u64Sub outBufLen (u64OfInt text.length) = outBufLen - text.length := by
        rw [u64OfInt_natCast (by omega), u64Sub_of_le room bounded]
      simp only [eat, after, left, Int.toNat_natCast]

-----------------------------------------------------------------------------------------
-- Writers
-----------------------------------------------------------------------------------------

variable {ε : Type}

/-- How a writer of a text ends: the whole text is in the buffer and its length is returned, or the
room does not suffice, no more than a front part of the text was written, and -1 is returned.
-/
def Ends (b : OutBuffer) (text : Bytes) (outcome : Except ε (Bytes × Int)) : Prop :=
  (b.Holds text ∧ outcome = .ok ((b.after text).block, (text.length : Int)))
  ∨ (¬ b.Holds text
    ∧ ∃ written, written <+: text ∧ b.Holds written ∧ outcome = .ok ((b.after written).block, -1))

/-- The call writes a text to any buffer. -/
def Writes (call : OutBuffer → Except ε (Bytes × Int)) (text : Bytes) : Prop :=
  ∀ b : OutBuffer, b.Valid → Ends b text (call b)

/-- A copy of a text to the start of the room. -/
def store (outOfBounds : ε) (b : OutBuffer) (text : Bytes) : Except ε Bytes :=
  match b.outBuf with
  | none => .ok b.block
  | some position =>
      match copyInto b.block position text with
      | none => .error outOfBounds
      | some block => .ok block

theorem store_of_holds {outOfBounds : ε} (valid : b.Valid) (holds : b.Holds text)
    : b.store outOfBounds text = .ok (b.after text).block := by
  obtain ⟨block, outBuf, outBufLen⟩ := b
  cases outBuf with
  | none => rfl
  | some position =>
      have inside : position + outBufLen ≤ block.length := valid.inside position rfl
      have room : text.length ≤ outBufLen := holds rfl
      have fits : position + text.length ≤ block.length := by omega
      simp only [store, copyInto, if_pos fits, after]

/-- A call in the middle of a text: it is made with the buffer behind what was written already, and
the code after it goes on behind what it wrote itself.
-/
def checkAndUpdate (b : OutBuffer) (sz : Int) (call : OutBuffer → Except ε (Bytes × Int))
    (next : OutBuffer → Int → Except ε (Bytes × Int))
    : Except ε (Bytes × Int) :=
  (call b).bind fun (block, r) =>
    if r < 0 then .ok (block, -1) else next (b.eat block r) (wrap32 (sz + r))

/-- Where the code behind a call ends a longer text, so does the call with that code. -/
theorem checkAndUpdate_ends {call : OutBuffer → Except ε (Bytes × Int)}
    {next : OutBuffer → Int → Except ε (Bytes × Int)} {front text whole : Bytes}
    (writes : Writes call text) (valid : b.Valid) (holds : b.Holds front)
    (begins : front ++ text <+: whole) (small : whole.length < 2 ^ 31)
    (goesOn
      : b.Holds (front ++ text)
        → Ends b whole (next (b.after (front ++ text)) ((front ++ text).length : Int)))
    : Ends b whole (checkAndUpdate (b.after front) (front.length : Int) call next) := by
  rcases writes (b.after front) (valid.after holds) with
    ⟨room, called⟩ | ⟨full, written, partly, fits, called⟩
  · have held := (holds_after holds).mp room
    have length : (front ++ text).length = front.length + text.length := List.length_append
    have counted : wrap32 ((front.length : Int) + (text.length : Int))
        = ((front ++ text).length : Int) := by
      have short := begins.length_le
      rw [wrap32_of_fits (by omega) (by omega), length]
      omega
    rw [checkAndUpdate, bind_of_ok called]
    dsimp only
    rw [if_neg (by omega), counted, eat_after (valid.after holds) room rfl, after_after valid held]
    exact goesOn held
  · have held := (holds_after holds).mp fits
    refine .inr ⟨fun all => full ((holds_after holds).mpr (all.mono begins.length_le)),
      front ++ written, ?_, held, ?_⟩
    · exact ((List.prefix_append_right_inj front).mpr partly).trans begins
    · rw [checkAndUpdate, bind_of_ok called]
      dsimp only
      rw [if_pos (by decide), after_after valid held]

end OutBuffer

end Foundations

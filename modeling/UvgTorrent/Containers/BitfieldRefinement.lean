import UvgTorrent.Containers.Bitfields
import UvgTorrent.Foundations.FallibleRuns

/-! `bitfield.c` on the block that it allocates, whatever count is asked for. While the bits can be
counted by an `int`, the block is an array of bits, and nothing outside of it is written.
-/

namespace UvgTorrent

open Foundations
open Bitfield (SetCall lastSet bit_setCalls setCalls_bitCount)

-----------------------------------------------------------------------------------------
-- The allocated block
-----------------------------------------------------------------------------------------

/-- `struct Bitfield` as it lies in memory: `bytes_count` bytes, which need not hold `bit_count`
bits.
-/
structure BitfieldBlock where
  bitCount : Nat
  bytes : Bytes

namespace BitfieldBlock

def bytesCount (block : BitfieldBlock) : Nat := block.bytes.length

/-- `byte_index` is the index of one of the bytes. -/
def HasByte (block : BitfieldBlock) (byteIndex : Int) : Prop :=
  0 ≤ byteIndex ∧ byteIndex.toNat < block.bytesCount

instance (block : BitfieldBlock) (byteIndex : Int) : Decidable (block.HasByte byteIndex) :=
  inferInstanceAs (Decidable (_ ∧ _))

/-- `0x80 >> bit_index`. The remainder of a negative bit is not positive. -/
def maskOf (bit : Int) : Except Fault UInt8 :=
  if 0 ≤ bit.tmod 8 then .ok (bitMask (bit.tmod 8).toNat) else .error .negativeShift

/-- An assignment to `bytes[byte_index]`. -/
def assign (block : BitfieldBlock) (byteIndex : Int) (change : UInt8 → UInt8)
    : Except Fault BitfieldBlock :=
  if block.HasByte byteIndex then
    .ok { block with bytes := block.bytes.modify byteIndex.toNat change }
  else .error .bitfieldBounds

/-- `bitfield_set_bit`. The guard compares the bit as a `size_t`, the divisions are those of
`int`.
-/
def setBit (block : BitfieldBlock) (bit val : Int) : Except Fault BitfieldBlock :=
  if u64OfInt bit < block.bitCount then
    (maskOf bit).bind fun mask =>
      if val = 0 then block.assign (bit.tdiv 8) (· &&& ~~~ mask)
      else if val = 1 then block.assign (bit.tdiv 8) (· ||| mask)
      else .ok block
  else .ok block

/-- `bitfield_get_bit`. -/
def getBit (block : BitfieldBlock) (bit : Int) : Except Fault Bool :=
  (maskOf bit).bind fun mask =>
    if block.HasByte (bit.tdiv 8) then
      .ok ((block.bytes.getD (bit.tdiv 8).toNat 0 &&& mask) != 0)
    else .error .bitfieldBounds

/-- The loop of `bitfield_new`. Its counter is an `int`, which overflows when it is counted up
after the last of `steps` turns.
-/
def setDefaults (defaultBit : Int) : Nat → Nat → BitfieldBlock → Except Fault BitfieldBlock
  | 0, _, _ => .error .signedOverflow
  | steps + 1, i, block =>
      if i < block.bitCount then
        (block.setBit i defaultBit).bind (setDefaults defaultBit steps (i + 1))
      else .ok block

/-- `bitfield_new`; `none` is the `NULL` of a `malloc` that fails. The sum that rounds the number
of bytes up is a `size_t`.
-/
def new (allocates : Bool) (bitCount : Nat) (defaultBit defaultByte : Int)
    : Except Fault (Option BitfieldBlock) :=
  if allocates then
    (setDefaults defaultBit (2 ^ 31) 0
        {
          bitCount
          bytes := List.replicate (u64 (bitCount + 7) / 8) (UInt8.ofInt defaultByte)
        }).bind
      fun block => .ok (some block)
  else .ok none

/-- One call of a run. -/
def set (block : BitfieldBlock) (call : SetCall) : Except Fault BitfieldBlock :=
  block.setBit call.index call.value.toInt

-----------------------------------------------------------------------------------------
-- Blocks that hold their bits
-----------------------------------------------------------------------------------------

variable {field : Bitfield} {block next : BitfieldBlock}

/-- The block of a bitfield with as many bytes as its bits need. -/
def ofField (field : Bitfield) : BitfieldBlock :=
  { bitCount := field.bitCount, bytes := field.bytes }

@[simp] theorem ofField_bitCount (field : Bitfield) : (ofField field).bitCount = field.bitCount :=
  rfl

@[simp] theorem ofField_bytesCount (field : Bitfield)
    : (ofField field).bytesCount = field.bytesCount :=
  rfl

theorem tdiv_natCast (index : Nat) : (index : Int).tdiv 8 = (index / 8 : Nat) := by
  rw [Int.tdiv_eq_ediv_of_nonneg (by omega)]
  norm_cast

theorem maskOf_natCast (index : Nat) : maskOf index = .ok (bitMask (index % 8)) := by
  have remainder : (index : Int).tmod 8 = (index % 8 : Nat) := by
    rw [Int.tmod_eq_emod_of_nonneg (by omega)]
    norm_cast
  rw [maskOf, remainder, if_pos (by omega), Int.toNat_natCast]

theorem ofField_hasByte {index : Nat}
    : (ofField field).HasByte (index : Int) ↔ index < field.bytesCount := by
  simp [HasByte]

theorem assign_of_inside {byteIndex : Nat} (inside : byteIndex < block.bytesCount)
    (change : UInt8 → UInt8)
    : block.assign byteIndex change
      = .ok { block with bytes := block.bytes.modify byteIndex change } := by
  rw [assign, if_pos ⟨by omega, by simpa using inside⟩, Int.toNat_natCast]

/-- A call with an `int` index stays inside the bytes, and does to them what it does to the
bitfield.
-/
theorem setBit_ofField {bit : Int} (lower : -2 ^ 31 ≤ bit) (small : field.bitCount ≤ 2 ^ 63)
    (upper : bit < 2 ^ 31) (val : Int)
    : (ofField field).setBit bit val = .ok (ofField (field.setBit bit val)) := by
  unfold setBit Bitfield.setBit
  rw [ofField_bitCount]
  by_cases inRange : u64OfInt bit < field.bitCount
  · obtain ⟨index, rfl⟩ : ∃ index : Nat, bit = index := by
      refine Int.eq_ofNat_of_zero_le ?_
      by_contra negative
      unfold u64OfInt at inRange
      omega
    rw [u64OfInt_natCast (by omega)] at inRange
    have inside : index / 8 < (ofField field).bytesCount := by
      rw [ofField_bytesCount, Bitfield.bytesCount_eq]
      omega
    have inGuard : u64OfInt (index : Int) < field.bitCount := by
      rwa [u64OfInt_natCast (by omega)]
    rw [if_pos inGuard, if_pos inGuard, maskOf_natCast, tdiv_natCast, bind_of_ok rfl,
      assign_of_inside inside, assign_of_inside inside]
    by_cases zero : val = 0
    · simp [zero, ofField]
    by_cases one : val = 1
    · simp [one, ofField]
    · simp only [zero, one, if_false, ofField]
      rw [show (fun byte : UInt8 => byte) = id from rfl, List.modify_id]
  · rw [if_neg inRange, if_neg inRange]

theorem getBit_ofField {index : Nat} (inside : index / 8 < field.bytesCount)
    : (ofField field).getBit index = .ok (field.bit index) := by
  rw [getBit, maskOf_natCast, tdiv_natCast, bind_of_ok rfl, if_pos (ofField_hasByte.mpr inside)]
  rfl

/-- A run of calls never leaves the bytes. Witness: induction on the calls. -/
theorem runSteps_set (calls : List SetCall) (small : field.bitCount ≤ 2 ^ 63)
    : runSteps set (ofField field) calls
      = .ok
          (ofField
            (calls.foldl (fun field call => field.setBit call.index call.value.toInt) field)) := by
  induction calls generalizing field with
  | nil => rfl
  | cons call rest ih =>
      have first : (ofField field).set call
          = .ok (ofField (field.setBit call.index call.value.toInt)) :=
        setBit_ofField call.lower small call.upper _
      rw [runSteps, bind_of_ok first]
      exact ih (by simpa using small)

-----------------------------------------------------------------------------------------
-- `bitfield_new`
-----------------------------------------------------------------------------------------

/-- The loop sets the bits from its counter on. Witness: induction on the turns that are left
before the counter overflows, which are more than the bits that are left.
-/
theorem setDefaults_ofField (defaultBit : Int) {steps i : Nat} (counter : i + steps = 2 ^ 31)
    (fits : field.bitCount < 2 ^ 31) (within : i ≤ field.bitCount)
    : setDefaults defaultBit steps i (ofField field)
      = .ok
          (ofField
            ((List.range' i (field.bitCount - i)).foldl
              (fun field (index : Nat) => field.setBit index defaultBit) field)) := by
  induction steps generalizing i field with
  | zero => omega
  | succ steps ih =>
      rw [setDefaults, ofField_bitCount]
      by_cases more : i < field.bitCount
      · obtain ⟨left, counted⟩ := Nat.exists_eq_add_of_lt more
        rw [if_pos more, bind_of_ok (setBit_ofField (by omega) (by omega) (by omega) _),
          ih (by omega) (by simpa using fits) (by simpa using more), Bitfield.setBit_bitCount,
          show field.bitCount - i = field.bitCount - (i + 1) + 1 by omega, List.range'_succ]
        rfl
      · rw [if_neg more, Nat.sub_eq_zero_of_le (Nat.le_of_not_lt more)]
        rfl

/-- While the count is an `int`, `bitfield_new` gives the block of a bitfield. -/
theorem new_eq {bitCount : Nat} (fits : bitCount < 2 ^ 31) (defaultBit defaultByte : Int)
    : new true bitCount defaultBit defaultByte
      = .ok ((Bitfield.new bitCount defaultBit (UInt8.ofInt defaultByte)).map ofField) := by
  have bytes : u64 (bitCount + 7) = bitCount + 7 := u64_of_lt (by omega)
  have loop := @setDefaults_ofField
    {
      bitCount
      bytes := List.replicate ((bitCount + 7) / 8) (UInt8.ofInt defaultByte)
      sized := by simp
    }
    defaultBit (2 ^ 31) 0 (by omega) fits (Nat.zero_le _)
  rw [new, if_pos rfl, bytes]
  refine (bind_of_ok loop _).trans ?_
  rw [Bitfield.new, if_pos fits, List.range_eq_range']
  rfl

/-- A count that wraps asks for no bytes, and the first default bit is written outside of them. -/
theorem new_of_wraps {bitCount : Nat} (word : bitCount < 2 ^ 64) (wraps : 2 ^ 64 ≤ bitCount + 7)
    (defaultBit : Bool) (defaultByte : Int)
    : new true bitCount defaultBit.toInt defaultByte = .error .bitfieldBounds := by
  have bytes : u64 (bitCount + 7) / 8 = 0 := by
    unfold u64
    omega
  have first : (BitfieldBlock.mk bitCount []).setBit (0 : Nat) defaultBit.toInt
      = .error .bitfieldBounds := by
    have inGuard : u64OfInt (0 : Nat) < bitCount := by
      rw [u64OfInt_natCast (by norm_num)]
      omega
    rw [setBit, if_pos inGuard, maskOf_natCast, bind_of_ok rfl]
    cases defaultBit <;> rfl
  have loop : setDefaults defaultBit.toInt (2 ^ 31) 0 (BitfieldBlock.mk bitCount [])
      = .error .bitfieldBounds := by
    rw [show 2 ^ 31 = (2 ^ 31 - 1) + 1 from rfl, setDefaults, if_pos (by dsimp only; omega)]
    exact bind_of_error first _
  rw [new, if_pos rfl, bytes]
  exact bind_of_error loop _

/-- The model of the callers: there is memory for a count that an `int` can hold and for no bytes,
and for nothing between them.
-/
theorem new_eq_make {bitCount : Nat} (word : bitCount < 2 ^ 64) (defaultBit : Bool)
    (defaultByte : Int)
    : new (bitCount < 2 ^ 31 ∨ 2 ^ 64 ≤ bitCount + 7) bitCount defaultBit.toInt defaultByte
      = (Bitfield.make bitCount defaultBit.toInt (UInt8.ofInt defaultByte)).map
          (Option.map ofField) := by
  rcases Nat.lt_or_ge bitCount (2 ^ 31) with fits | many
  · rw [decide_eq_true (.inl fits), new_eq fits, Bitfield.make_of_fits (by omega)]
    rfl
  rcases Nat.lt_or_ge (bitCount + 7) (2 ^ 64) with unwrapped | wraps
  · rw [decide_eq_false (by omega), Bitfield.make_of_fits unwrapped, Bitfield.new,
      if_neg (by omega)]
    rfl
  · rw [decide_eq_true (.inr wraps), new_of_wraps word wraps, Bitfield.make, if_neg (by omega)]
    rfl

theorem assign_bitCount {byteIndex : Int} {change : UInt8 → UInt8}
    (assigned : block.assign byteIndex change = .ok next)
    : next.bitCount = block.bitCount := by
  unfold assign at assigned
  split at assigned <;> cases assigned
  rfl

theorem setBit_bitCount {bit val : Int} (set : block.setBit bit val = .ok next)
    : next.bitCount = block.bitCount := by
  unfold setBit at set
  split at set
  · obtain ⟨mask, _, set⟩ := bind_eq_ok.mp set
    split at set
    · exact assign_bitCount set
    split at set
    · exact assign_bitCount set
    · cases set
      rfl
  · cases set
    rfl

/-- With more bits than an `int` counts, the loop writes outside the bytes or its counter
overflows.
-/
theorem setDefaults_faults (defaultBit : Int) {steps i : Nat} (counter : i + steps = 2 ^ 31)
    (many : 2 ^ 31 ≤ block.bitCount)
    : ∃ fault, setDefaults defaultBit steps i block = .error fault := by
  induction steps generalizing i block with
  | zero => exact ⟨.signedOverflow, rfl⟩
  | succ steps ih =>
      rw [setDefaults, if_pos (by omega)]
      cases set : block.setBit i defaultBit with
      | error fault => exact ⟨fault, rfl⟩
      | ok next => exact ih (by omega) (by rwa [setBit_bitCount set])

-----------------------------------------------------------------------------------------
-- The array of bits
-----------------------------------------------------------------------------------------

/-- After some calls, the block holds an array of `bit_count` bits: each is the value last set
there, or the default. Its spare bits are those of the default byte, and a call outside the array
changes nothing.
-/
structure IsArray (block : BitfieldBlock) (bitCount : Nat) (defaultBit : Bool) (defaultByte : Int)
    (calls : List SetCall) : Prop where
  bytesCount : block.bytesCount = (bitCount + 7) / 8
  bits
    : ∀ index < bitCount,
        block.getBit (index : Nat) = .ok ((lastSet calls index).getD defaultBit)
  spare
    : ∀ index,
        bitCount ≤ index
        → index < 8 * block.bytesCount
        → block.getBit (index : Nat) = .ok (byteBit (UInt8.ofInt defaultByte) (index % 8))
  outside
    : ∀ call : SetCall, ¬ (0 ≤ call.index ∧ call.index < bitCount) → block.set call = .ok block

/-- `bitfield_new`, and then any calls on the bitfield that it returns, stay inside the bytes and
leave an array of bits.
-/
def RefinesArray (allocates : Bool) (bitCount : Nat) (defaultBit : Bool) (defaultByte : Int)
    (calls : List SetCall) : Prop :=
  ∃ made,
    new allocates bitCount defaultBit.toInt defaultByte = .ok made
    ∧ ∀ block,
        made = some block
        → ∃ final,
            runSteps set block calls = .ok final
            ∧ final.IsArray bitCount defaultBit defaultByte calls

/-- A bitfield with default bits, after some calls. -/
theorem isArray_setCalls {defaultBit : Bool} {defaultByte : Int} (calls : List SetCall)
    (small : field.bitCount ≤ 2 ^ 63)
    (bits
      : ∀ index,
          index / 8 < field.bytesCount
          → field.bit index
            = if index < field.bitCount then defaultBit
              else byteBit (UInt8.ofInt defaultByte) (index % 8))
    : (ofField
          (calls.foldl (fun field call => field.setBit call.index call.value.toInt) field)).IsArray
        field.bitCount defaultBit defaultByte calls := by
  have counted := setCalls_bitCount calls field
  have after (other : Nat) := bit_setCalls calls small other
  generalize calls.foldl (fun field call => field.setBit call.index call.value.toInt) field = final
    at counted after
  have sized : final.bytesCount = (field.bitCount + 7) / 8 := by
    rw [Bitfield.bytesCount_eq, counted]
  have same : field.bytesCount = (field.bitCount + 7) / 8 := field.bytesCount_eq
  constructor
  · exact sized
  · intro index inRange
    rw [getBit_ofField (by omega), after, if_pos inRange, bits index (by omega), if_pos inRange]
  · intro index past inside
    rw [ofField_bytesCount] at inside
    rw [getBit_ofField (by omega), after, if_neg (by omega), bits index (by omega),
      if_neg (by omega)]
  · intro call apart
    have lower := call.lower
    have upper := call.upper
    rw [set, setBit, if_neg]
    rw [ofField_bitCount, counted]
    unfold u64OfInt
    omega

/-- While there is memory, a bitfield is an array of bits exactly when the count of its bits is an
`int`, whatever calls are made.
-/
theorem refinesArray_iff (allocates : Bool) (bitCount : Nat) (defaultBit : Bool)
    (defaultByte : Int) (calls : List SetCall)
    : RefinesArray allocates bitCount defaultBit defaultByte calls
      ↔ allocates = false ∨ bitCount < 2 ^ 31 := by
  cases allocates with
  | false => exact iff_of_true ⟨none, rfl, nofun⟩ (.inl rfl)
  | true =>
      rw [or_iff_right (by decide)]
      by_cases fits : bitCount < 2 ^ 31
      · refine iff_of_true ?_ fits
        obtain ⟨field, made, rfl, bits⟩ :=
          Bitfield.new_bits fits defaultBit (UInt8.ofInt defaultByte)
        have small : field.bitCount ≤ 2 ^ 63 := by omega
        refine ⟨some (ofField field), by rw [new_eq fits, made]; rfl, ?_⟩
        intro block same
        cases same
        refine ⟨_, runSteps_set calls small, ?_⟩
        exact isArray_setCalls calls small bits
      · refine iff_of_false ?_ fits
        rintro ⟨made, returned, -⟩
        obtain ⟨fault, faulted⟩ := setDefaults_faults defaultBit.toInt (Nat.zero_add (2 ^ 31))
          (show 2 ^ 31 ≤ (BitfieldBlock.mk bitCount _).bitCount from Nat.le_of_not_lt fits)
        rw [new, if_pos rfl, bind_of_error faulted] at returned
        cases returned

/-- The largest count, which is what -1 is as a `size_t`, asks for no bytes: the first default bit
is written behind the block.
-/
theorem largest_count_writes_outside
    : new true (2 ^ 64 - 1) 0 0xFF = .error .bitfieldBounds
      ∧ ¬ RefinesArray true (2 ^ 64 - 1) false 0xFF [] := by
  have faulted : new true (2 ^ 64 - 1) 0 0xFF = .error .bitfieldBounds := rfl
  refine ⟨faulted, ?_⟩
  rintro ⟨made, returned, -⟩
  cases faulted.symm.trans returned

end BitfieldBlock

end UvgTorrent

import UvgTorrent.Foundations.ByteStrings
import UvgTorrent.Foundations.MachineIntegers
import UvgTorrent.Outcomes

/-! `bitfield.c`: bits packed most significant first into bytes, with spare bits in the last
byte. Every function is described by the bit it leaves at each index.
-/

namespace UvgTorrent

open Foundations

-----------------------------------------------------------------------------------------
-- One byte
-----------------------------------------------------------------------------------------

/-- `0x80 >> bit_index`: the highest ordered bit is indexed 0. -/
def bitMask (index : Nat) : UInt8 := (0x80 : UInt8) >>> index.toUInt8

/-- The bit of a byte that `bitMask` selects. -/
def byteBit (byte : UInt8) (index : Nat) : Bool := (byte &&& bitMask index) != 0

theorem bitMask_toBitVec {index : Nat} (inByte : index < 8)
    : (bitMask index).toBitVec = BitVec.twoPow 8 (7 - index) := by
  interval_cases index <;> decide

theorem byteBit_eq_getLsbD (byte : UInt8) {index : Nat} (inByte : index < 8)
    : byteBit byte index = byte.toBitVec.getLsbD (7 - index) := by
  have zero : byte &&& bitMask index = 0
      ↔ byte.toBitVec &&& BitVec.twoPow 8 (7 - index) = 0#8 := by
    rw [← UInt8.toBitVec_inj, UInt8.toBitVec_and, bitMask_toBitVec inByte]
    rfl
  have selects : BitVec.twoPow 8 (7 - index) ≠ 0#8 := by
    interval_cases index <;> decide
  simp only [byteBit, bne, BitVec.and_twoPow] at zero ⊢
  cases selected : byte.toBitVec.getLsbD (7 - index) <;>
    simp [selected, selects] at zero ⊢ <;> exact zero

theorem byteBit_or_bitMask (byte : UInt8) {index other : Nat} (inByte : index < 8)
    (otherInByte : other < 8)
    : byteBit (byte ||| bitMask index) other = (decide (index = other) || byteBit byte other) := by
  rw [byteBit_eq_getLsbD _ otherInByte, byteBit_eq_getLsbD _ otherInByte, UInt8.toBitVec_or,
    bitMask_toBitVec inByte, BitVec.getLsbD_or, BitVec.getLsbD_twoPow]
  by_cases same : index = other
  · subst same
    simp
    omega
  · have apart : 7 - index ≠ 7 - other := by omega
    simp [same, apart]

theorem byteBit_and_not_bitMask (byte : UInt8) {index other : Nat} (inByte : index < 8)
    (otherInByte : other < 8)
    : byteBit (byte &&& ~~~ bitMask index) other
      = (decide (index ≠ other) && byteBit byte other) := by
  rw [byteBit_eq_getLsbD _ otherInByte, byteBit_eq_getLsbD _ otherInByte, UInt8.toBitVec_and,
    UInt8.toBitVec_not, bitMask_toBitVec inByte, BitVec.getLsbD_and, BitVec.getLsbD_not,
    BitVec.getLsbD_twoPow]
  by_cases same : index = other
  · subst same
    simp
  · have apart : 7 - index ≠ 7 - other := by omega
    simp [same, apart]
    omega

/-- A byte is `0xFF` exactly when its eight bits are set. -/
theorem byte_full_iff (byte : UInt8)
    : byte = 0xFF ↔ ∀ index < 8, byteBit byte index = true := by
  constructor
  · rintro rfl
    decide
  · intro all
    rw [← UInt8.toBitVec_inj]
    apply BitVec.eq_of_getLsbD_eq
    intro index inByte
    have bit := all (7 - index) (by omega)
    rw [byteBit_eq_getLsbD _ (by omega), show 7 - (7 - index) = index by omega] at bit
    rw [bit]
    interval_cases index <;> decide

-----------------------------------------------------------------------------------------
-- `struct Bitfield`
-----------------------------------------------------------------------------------------

/-- `struct Bitfield` without its mutex; `bytes_count` is the number of bytes. -/
structure Bitfield where
  bitCount : Nat
  bytes : Bytes
  sized : bytes.length = (bitCount + 7) / 8
  deriving DecidableEq

namespace Bitfield

def bytesCount (field : Bitfield) : Nat := field.bytes.length

/-- The bit at an index, spare bits included; `false` outside the bytes. -/
def bit (field : Bitfield) (index : Nat) : Bool :=
  byteBit (field.bytes.getD (index / 8) 0) (index % 8)

/-- `bitfield_set_bit`. The guard compares the index as a `size_t`, so a negative index is
out of range; a value other than 0 and 1 changes nothing.
-/
def setBit (field : Bitfield) (index value : Int) : Bitfield :=
  if u64OfInt index < field.bitCount then
    let mask := bitMask (index.toNat % 8)
    {
      field with
      bytes := field.bytes.modify (index.toNat / 8)
        (fun byte =>
          if value = 0 then byte &&& ~~~ mask
          else if value = 1 then byte ||| mask
          else byte)
      sized := by simpa using field.sized
    }
  else field

/-- `bitfield_get_bit`. There is no guard: an index outside the bytes, or a negative one,
is undefined.
-/
def getBit (field : Bitfield) (index : Int) : Except Fault Bool :=
  if 0 ≤ index ∧ index.toNat / 8 < field.bytesCount then .ok (field.bit index.toNat)
  else .error .bitfieldBounds

/-- `bitfield_new`, for a caller that needs the bitfield. Memory for a count that an `int` can
hold is taken to be available. A larger count only arises from a negative `int`: there is no
bitfield then, because it asks for more memory than there is or for a block without bytes.
-/
def new (bitCount : Nat) (defaultBit : Int) (defaultByte : UInt8) : Option Bitfield :=
  if bitCount < 2 ^ 31 then
    some
      ((List.range bitCount).foldl (fun field (index : Nat) => field.setBit index defaultBit)
        {
          bitCount
          bytes := List.replicate ((bitCount + 7) / 8) defaultByte
          sized := by simp
        })
  else none

/-- `bitfield_new`, for a caller that keeps `NULL`. Where the sum that rounds the number of bytes
up wraps, the block has none, and the first default bit is written outside of it.
-/
def make (bitCount : Nat) (defaultBit : Int) (defaultByte : UInt8)
    : Except Fault (Option Bitfield) :=
  if bitCount + 7 < 2 ^ 64 then .ok (new bitCount defaultBit defaultByte)
  else .error .bitfieldBounds

variable {field : Bitfield}

theorem make_of_fits {bitCount : Nat} (fits : bitCount + 7 < 2 ^ 64) (defaultBit : Int)
    (defaultByte : UInt8)
    : make bitCount defaultBit defaultByte = .ok (new bitCount defaultBit defaultByte) :=
  if_pos fits

/-- What is made is what `bitfield_new` returns. -/
theorem eq_new_of_make {bitCount : Nat} {defaultBit : Int} {defaultByte : UInt8}
    {made : Option Bitfield} (returned : make bitCount defaultBit defaultByte = .ok made)
    : made = new bitCount defaultBit defaultByte := by
  unfold make at returned
  split at returned <;> cases returned
  rfl

@[simp] theorem setBit_bitCount (field : Bitfield) (index value : Int)
    : (field.setBit index value).bitCount = field.bitCount := by
  unfold setBit
  split <;> rfl

@[simp] theorem setBit_bytesCount (field : Bitfield) (index value : Int)
    : (field.setBit index value).bytesCount = field.bytesCount := by
  unfold setBit bytesCount
  split <;> simp

theorem bytesCount_eq (field : Bitfield) : field.bytesCount = (field.bitCount + 7) / 8 :=
  field.sized

theorem getBit_of_inside {index : Nat} (inside : index / 8 < field.bytesCount)
    : field.getBit index = .ok (field.bit index) := by
  simp [getBit, inside]

theorem getBit_of_lt {index : Nat} (inRange : index < field.bitCount)
    : field.getBit index = .ok (field.bit index) := by
  apply getBit_of_inside
  rw [bytesCount_eq]
  omega

/-- A set in range rewrites one byte; bits of other bytes are kept. -/
private theorem bit_setBit {index : Nat} (inRange : index < field.bitCount)
    (small : index < 2 ^ 64) (value : Int) (other : Nat)
    : (field.setBit index value).bit other
      = if index / 8 = other / 8 then
          let byte := field.bytes.getD (index / 8) 0
          byteBit
            (if value = 0 then byte &&& ~~~ bitMask (index % 8)
             else if value = 1 then byte ||| bitMask (index % 8)
             else byte)
            (other % 8)
        else field.bit other := by
  have byteInside : index / 8 < field.bytes.length := by
    rw [field.sized]
    omega
  simp only [setBit, u64OfInt_natCast small, inRange, if_true, Int.toNat_natCast, bit,
    List.getD_eq_getElem?_getD, List.getElem?_modify]
  by_cases sameByte : index / 8 = other / 8
  · simp only [sameByte, if_true]
    rw [sameByte] at byteInside
    simp [List.getElem?_eq_getElem byteInside]
  · simp [sameByte]

/-- Setting a bit in range changes that bit and no other. -/
theorem bit_setBit_one {index : Nat} (inRange : index < field.bitCount)
    (small : index < 2 ^ 64) (other : Nat)
    : (field.setBit index 1).bit other = (decide (index = other) || field.bit other) := by
  rw [bit_setBit inRange small]
  by_cases sameByte : index / 8 = other / 8
  · have same : index % 8 = other % 8 ↔ index = other := by omega
    simp only [sameByte, if_true, one_ne_zero, if_false]
    rw [byteBit_or_bitMask _ (Nat.mod_lt _ (by norm_num)) (Nat.mod_lt _ (by norm_num))]
    simp [same, bit]
  · have apart : index ≠ other := by
      rintro rfl
      exact sameByte rfl
    simp [sameByte, apart]

/-- Clearing a bit in range changes that bit and no other. -/
theorem bit_setBit_zero {index : Nat} (inRange : index < field.bitCount)
    (small : index < 2 ^ 64) (other : Nat)
    : (field.setBit index 0).bit other = (decide (index ≠ other) && field.bit other) := by
  rw [bit_setBit inRange small]
  by_cases sameByte : index / 8 = other / 8
  · have same : index % 8 = other % 8 ↔ index = other := by omega
    simp only [sameByte, if_true]
    rw [byteBit_and_not_bitMask _ (Nat.mod_lt _ (by norm_num)) (Nat.mod_lt _ (by norm_num))]
    simp [same, bit]
  · have apart : index ≠ other := by
      rintro rfl
      exact sameByte rfl
    simp [sameByte, apart]

/-- Every spare bit, past `bit_count` in the last byte, is set. -/
def SpareSet (field : Bitfield) : Prop :=
  ∀ index, field.bitCount ≤ index → index / 8 < field.bytesCount → field.bit index = true

theorem SpareSet.setBit_one {index : Nat} (spare : field.SpareSet)
    (inRange : index < field.bitCount) (small : index < 2 ^ 64)
    : (field.setBit index 1).SpareSet := by
  intro other past inside
  rw [bit_setBit_one inRange small, spare other (by simpa using past) (by simpa using inside)]
  simp

/-- A call with an `int` index changes no bit but the one it names. -/
theorem bit_setBit_of_ne {index : Int} (lower : -2 ^ 31 ≤ index) (upper : index < 2 ^ 31)
    (small : field.bitCount ≤ 2 ^ 63) (value : Int) {other : Nat} (apart : (other : Int) ≠ index)
    : (field.setBit index value).bit other = field.bit other := by
  by_cases inRange : u64OfInt index < field.bitCount
  · have nonneg : 0 ≤ index := by
      by_contra negative
      unfold u64OfInt at inRange
      omega
    obtain ⟨position, rfl⟩ := Int.eq_ofNat_of_zero_le nonneg
    have fits : position < 2 ^ 64 := by omega
    rw [u64OfInt_natCast fits] at inRange
    have distinct : position ≠ other := by omega
    by_cases zero : value = 0
    · rw [zero, bit_setBit_zero inRange fits]
      simp [distinct]
    by_cases one : value = 1
    · rw [one, bit_setBit_one inRange fits]
      simp [distinct]
    · rw [bit_setBit inRange fits]
      simp only [zero, one, if_false]
      split
      · rename_i sameByte
        rw [sameByte, bit]
      · rfl
  · rw [setBit, if_neg inRange]

/-- No call with an `int` index reaches the spare bits. -/
theorem SpareSet.setBit {index : Int} (spare : field.SpareSet) (lower : -2 ^ 31 ≤ index)
    (upper : index < 2 ^ 31) (small : field.bitCount ≤ 2 ^ 63) (value : Int)
    : (field.setBit index value).SpareSet := by
  intro other past inside
  rw [setBit_bitCount] at past
  rw [setBit_bytesCount] at inside
  by_cases named : (other : Int) = index
  · rw [Bitfield.setBit, if_neg, spare other past inside]
    rw [← named, u64OfInt_natCast (by omega)]
    omega
  · rw [bit_setBit_of_ne lower upper small value named, spare other past inside]

/-- A byte is full exactly when every bit it holds, spare or not, is set. -/
theorem byte_full_iff_bits {byteIndex : Nat} (inside : byteIndex < field.bytesCount)
    : field.bytes[byteIndex]? = some 0xFF
      ↔ ∀ index, index / 8 = byteIndex → field.bit index = true := by
  rw [List.getElem?_eq_getElem inside, Option.some.injEq, byte_full_iff]
  constructor
  · intro all index inByte
    have bit := all (index % 8) (Nat.mod_lt _ (by norm_num))
    simpa [Bitfield.bit, List.getD_eq_getElem?_getD, inByte,
      List.getElem?_eq_getElem inside] using bit
  · intro all index inByte
    have bit := all (8 * byteIndex + index) (by omega)
    have offset : (8 * byteIndex + index) % 8 = index := by omega
    have base : (8 * byteIndex + index) / 8 = byteIndex := by omega
    simpa [Bitfield.bit, List.getD_eq_getElem?_getD, offset, base,
      List.getElem?_eq_getElem inside] using bit

-----------------------------------------------------------------------------------------
-- Runs of `bitfield_set_bit`
-----------------------------------------------------------------------------------------

/-- A call of `bitfield_set_bit` with any `int` index and the value 0 or 1. -/
structure SetCall where
  index : Int
  lower : -2 ^ 31 ≤ index
  upper : index < 2 ^ 31
  value : Bool

/-- The value that was last set at an index. -/
def lastSet : List SetCall → Nat → Option Bool
  | [], _ => none
  | call :: rest, index =>
      (lastSet rest index).or (if call.index = index then some call.value else none)

/-- A call changes the bit that it names, when this is in range, and no other. -/
theorem bit_setCall (small : field.bitCount ≤ 2 ^ 63) (call : SetCall) (other : Nat)
    : (field.setBit call.index call.value.toInt).bit other
      = if call.index = other ∧ other < field.bitCount then call.value else field.bit other := by
  by_cases named : (other : Int) = call.index
  · rw [← named]
    by_cases inRange : other < field.bitCount
    · rw [if_pos ⟨rfl, inRange⟩]
      cases call.value with
      | false => simpa using bit_setBit_zero inRange (by omega) other
      | true => simpa using bit_setBit_one inRange (by omega) other
    · have upper := call.upper
      rw [if_neg fun both => inRange both.2, setBit, if_neg]
      rwa [u64OfInt_natCast (by omega)]
  · rw [if_neg fun both => named both.1.symm,
      bit_setBit_of_ne call.lower call.upper small _ named]

/-- A run of calls leaves in range what was last set there, and elsewhere what there was. -/
theorem bit_setCalls (calls : List SetCall) (small : field.bitCount ≤ 2 ^ 63) (other : Nat)
    : (calls.foldl (fun field call => field.setBit call.index call.value.toInt) field).bit other
      = if other < field.bitCount then (lastSet calls other).getD (field.bit other)
        else field.bit other := by
  induction calls generalizing field with
  | nil => simp [lastSet]
  | cons call rest ih =>
      rw [List.foldl_cons, ih (by simpa using small), bit_setCall small, setBit_bitCount]
      by_cases inRange : other < field.bitCount
      · cases later : lastSet rest other <;> by_cases named : call.index = other <;>
          simp [lastSet, later, named, inRange]
      · simp [inRange]

theorem setCalls_bitCount (calls : List SetCall) (field : Bitfield)
    : (calls.foldl (fun field call => field.setBit call.index call.value.toInt) field).bitCount
      = field.bitCount := by
  induction calls generalizing field with
  | nil => rfl
  | cons call rest ih => rw [List.foldl_cons, ih, setBit_bitCount]

/-- `bitfield_new` gives a field of the asked size whose bits all have the default value and
whose spare bits have the default byte's value. Witness: induction on how many bits the
initializing loop has set.
-/
theorem new_bits {bitCount : Nat} (fits : bitCount < 2 ^ 31) (value : Bool) (defaultByte : UInt8)
    : ∃ field,
        new bitCount value.toInt defaultByte = some field
        ∧ field.bitCount = bitCount
        ∧ ∀ index,
            index / 8 < field.bytesCount
            → field.bit index
              = if index < bitCount then value else byteBit defaultByte (index % 8) := by
  let start : Bitfield :=
    { bitCount, bytes := List.replicate ((bitCount + 7) / 8) defaultByte, sized := by simp }
  have startBit (index : Nat) (inside : index / 8 < (bitCount + 7) / 8)
      : start.bit index = byteBit defaultByte (index % 8) := by
    simp [start, bit, inside]
  have loop (count : Nat) (within : count ≤ bitCount)
      : ∃ field,
          (List.range count).foldl (fun field (index : Nat) => field.setBit index value.toInt) start
            = field
          ∧ field.bitCount = bitCount
          ∧ ∀ index,
              index / 8 < field.bytesCount
              → field.bit index
                = if index < count then value else byteBit defaultByte (index % 8) := by
    induction count with
    | zero => exact ⟨start, rfl, rfl, by simpa [start, bytesCount] using startBit⟩
    | succ count ih =>
        obtain ⟨field, made, counted, bits⟩ := ih (by omega)
        refine ⟨field.setBit (count : Nat) value.toInt, ?_, by simpa using counted, ?_⟩
        · rw [List.range_succ, List.foldl_append, made]
          rfl
        · intro index inside
          rw [setBit_bytesCount] at inside
          have set := @bit_setCall field (by omega)
            { index := count, lower := by omega, upper := by omega, value } index
          dsimp only at set
          rw [set, bits index inside]
          by_cases here : count = index
          · simp [← here, counted]
            omega
          · by_cases earlier : index < count
            · simp [earlier, Nat.lt_succ_of_lt earlier]
            · have later : ¬ index < count + 1 := by omega
              simp [earlier, later, here]
  obtain ⟨field, made, counted, bits⟩ := loop bitCount (Nat.le_refl _)
  refine ⟨field, ?_, counted, bits⟩
  rw [new, if_pos fits]
  exact congrArg some made

theorem new_spec {bitCount : Nat} (fits : bitCount < 2 ^ 31) (defaultByte : UInt8)
    : ∃ field,
        new bitCount 0 defaultByte = some field
        ∧ field.bitCount = bitCount
        ∧ (∀ index < bitCount, field.bit index = false)
        ∧ ∀ index,
            bitCount ≤ index
            → index / 8 < field.bytesCount
            → field.bit index = byteBit defaultByte (index % 8) := by
  obtain ⟨field, made, counted, bits⟩ := new_bits fits false defaultByte
  refine ⟨field, made, counted, ?_, ?_⟩
  · intro index inRange
    rw [bits index (by rw [bytesCount_eq]; omega), if_pos inRange]
  · intro index past inside
    rw [bits index inside, if_neg (by omega)]

/-- A bitfield made with the default byte `0xFF` has an `int` count, and its spare bits are set. -/
theorem spareSet_of_new {bitCount : Nat} (value : Bool)
    (made : new bitCount value.toInt 0xFF = some field)
    : field.SpareSet ∧ field.bitCount = bitCount ∧ bitCount < 2 ^ 31 := by
  by_cases fits : bitCount < 2 ^ 31
  · obtain ⟨built, same, counted, bits⟩ := new_bits fits value 0xFF
    cases made.symm.trans same
    refine ⟨fun index past inside => ?_, counted, fits⟩
    rw [bits index inside, if_neg (by omega)]
    exact (byte_full_iff 0xFF).mp rfl _ (Nat.mod_lt _ (by norm_num))
  · rw [new, if_neg fits] at made
    cases made

end Bitfield

end UvgTorrent

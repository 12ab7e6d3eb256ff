import UvgTorrent.Foundations.BlockConsumers
import UvgTorrent.Sha1.Contexts
import UvgTorrent.Sha1.Standard
import UvgTorrent.TorrentData.State

/-! The digest of the secure hash standard, and that `sha1.c` computes it, in however many calls of
`SHA1Update` the message comes.
-/

namespace UvgTorrent

open Foundations

namespace Standard

-----------------------------------------------------------------------------------------
-- The digest of the standard
-----------------------------------------------------------------------------------------

/-- The words `H` of the standard before the first block. -/
def initial : Sha1State := fiveWords 0x67452301 0xEFCDAB89 0x98BADCFE 0x10325476 0xC3D2E1F0

/-- The words `H`, taken from block to block. -/
def consumer : BlockConsumer Sha1State UInt8 :=
  {
    size := 64
    positive := by decide
    compress := compress
  }

/-- The number of a message's bits in the 64 bits that the standard has for it. -/
def bitLength (message : Bytes) : Nat := 8 * message.length % 2 ^ 64

/-- The number of zero bytes behind the bit that ends the message. -/
def zeros (length : Nat) : Nat := (119 - length % 64) % 64

/-- The padded message. -/
def pad (message : Bytes) : Bytes :=
  message ++ [0x80] ++ List.replicate (zeros message.length) 0
    ++ (be32 (bitLength message / 2 ^ 32) ++ be32 (bitLength message % 2 ^ 32))

/-- The message digest. -/
def digest (message : Bytes) : Bytes :=
  (consumer.absorb initial (pad message)).toList.flatMap fun h => be32 h.toNat

-----------------------------------------------------------------------------------------
-- What a context stands for
-----------------------------------------------------------------------------------------

/-- The context stands for the bytes of the message handed over so far: all whole blocks are in the
state, the rest waits at the start of the buffer, and the counter has the number of the bits.
-/
structure Represents (context : Sha1Context) (message : Bytes) : Prop where
  state : context.state = consumer.absorb initial message
  waiting : context.buffer.1.take (message.length % 64) = consumer.residue message
  counted : context.count0.toNat + 2 ^ 32 * context.count1.toNat = bitLength message

variable {context next : Sha1Context} {message data : Bytes} {state : Sha1State} {len i : UInt32}

theorem sha1Init_represents (context : Sha1Context) : Represents (sha1Init context) [] := by
  constructor
  case state => rfl
  case waiting => rfl
  case counted => rfl

/-- A context on the stack before `SHA1Init`. -/
def aContext : Sha1Context :=
  {
    state := .replicate 5 1
    count0 := 2
    count1 := 3
    buffer := ⟨List.replicate 64 4, List.length_replicate⟩
  }

theorem consumer_size : consumer.size = 64 := rfl

theorem sixtyThree : (63 : UInt32).toNat = 63 := rfl

theorem sixtyFour : (64 : UInt32).toNat = 64 := rfl

theorem residue_length (message : Bytes)
    : (consumer.residue message).length = message.length % 64 :=
  BlockConsumer.residue_length

/-- The bytes of the last block that are there already. -/
theorem Represents.waits (represents : Represents context message)
    : ((context.count0 >>> 3) &&& 63).toNat = message.length % 64 := by
  have counted := represents.counted
  have low := context.count0.toNat_lt
  have masked : ((context.count0 >>> 3) &&& 63).toNat = context.count0.toNat / 8 % 64 := by
    rw [UInt32.toNat_and, UInt32.toNat_shiftRight]
    exact (Nat.and_two_pow_sub_one_eq_mod _ 6).trans (by rw [Nat.shiftRight_eq_div_pow]; rfl)
  rw [masked]
  simp only [bitLength] at counted
  omega

-----------------------------------------------------------------------------------------
-- `SHA1Update`
-----------------------------------------------------------------------------------------

/-- The counter of an update. -/
theorem counter_add (represents : Represents context message)
    (added : (slice data 0 len.toNat).length = len.toNat)
    : (context.count0 + (len <<< 3)).toNat
        + 2 ^ 32
          * ((if context.count0 + (len <<< 3) < context.count0 then context.count1 + 1
              else context.count1) + (len >>> 29)).toNat
      = bitLength (message ++ slice data 0 len.toNat) := by
  have counted := represents.counted
  have low := context.count0.toNat_lt
  have high := context.count1.toNat_lt
  have inside := len.toNat_lt
  have bits : (len <<< 3).toNat = 8 * len.toNat % 2 ^ 32 := by
    rw [UInt32.toNat_shiftLeft, Nat.shiftLeft_eq, Nat.mul_comm]
    rfl
  have upper : (len >>> 29).toNat = len.toNat / 2 ^ 29 := by
    rw [UInt32.toNat_shiftRight, Nat.shiftRight_eq_div_pow]
    rfl
  simp only [bitLength, List.length_append, added] at counted ⊢
  split
  all_goals
    rename_i carried
    rw [UInt32.lt_iff_toNat_lt, UInt32.toNat_add, bits] at carried
    simp only [UInt32.toNat_add, bits, upper, UInt32.toNat_one]
    omega

theorem slice_append {bytes : Bytes} {start first second : Nat}
    : slice bytes start (first + second)
      = slice bytes start first ++ slice bytes (start + first) second := by
  rw [slice, slice, slice, List.take_add, List.drop_drop]

/-- The loop takes the blocks that lie whole in the data, and stops at what is left. -/
theorem transformLoop_eq (turns : Nat) (state : Sha1State) (i : UInt32)
    (inside : len.toNat ≤ data.length)
    (short : len.toNat + 63 < 2 ^ 32) (reached : i.toNat ≤ len.toNat)
    (enough : len.toNat - i.toNat < 64 * turns)
    : ∃ stop,
        transformLoop data len turns state i
            = .ok (consumer.absorb state (slice data i.toNat (len.toNat - i.toNat)), stop)
          ∧ stop.toNat ≤ len.toNat
          ∧ consumer.residue (slice data i.toNat (len.toNat - i.toNat))
            = slice data stop.toNat (len.toNat - stop.toNat) := by
  induction turns generalizing state i with
  | zero => omega
  | succ turns ih =>
      have compare : i + 63 < len ↔ i.toNat + 63 < len.toNat := by
        have ahead : (i + 63).toNat = i.toNat + 63 :=
          (UInt32.toNat_add i 63).trans (Nat.mod_eq_of_lt (by rw [sixtyThree]; omega))
        rw [UInt32.lt_iff_toNat_lt, ahead]
      rw [transformLoop]
      by_cases block : i.toNat + 63 < len.toNat
      case pos =>
        have later : (i + 64).toNat = i.toNat + 64 :=
          (UInt32.toNat_add i 64).trans (Nat.mod_eq_of_lt (by rw [sixtyFour]; omega))
        have whole : (slice data i.toNat 64).length = consumer.size :=
          slice_length_of_le (by omega)
        have split
            : slice data i.toNat (len.toNat - i.toNat)
              = slice data i.toNat 64 ++ slice data (i + 64).toNat (len.toNat - (i + 64).toNat) := by
          rw [later, ← slice_append]
          congr 1
          omega
        obtain ⟨stop, looped, before, left⟩ :=
          ih (sha1Transform state (slice data i.toNat 64)) (i + 64) (by omega) (by omega)
        refine ⟨stop, ?_, before, ?_⟩
        · rw [if_pos (compare.mpr block), copyOut_of_le (by omega), split,
            BlockConsumer.absorb_block whole]
          show transformLoop _ _ _ _ _ = _
          rw [looped, sha1Transform_eq_compress _ whole]
          rfl
        · rw [split, BlockConsumer.residue_block whole, left]
      case neg =>
        have rest : (slice data i.toNat (len.toNat - i.toNat)).length < consumer.size := by
          rw [slice_length_of_le (by omega), consumer_size]
          omega
        rw [if_neg (compare.not.mpr block)]
        exact ⟨i, by rw [BlockConsumer.absorb_of_short rest], reached,
          BlockConsumer.residue_of_short rest⟩

theorem copyToBuffer_of_fits (buffer : Sha1Buffer) (data : Bytes) (offset start count : Nat)
    (inside : start + count ≤ data.length) (fits : offset + count ≤ 64)
    : ∃ filled : Sha1Buffer,
        copyToBuffer buffer offset data start count = .ok filled
          ∧ filled.1.take (offset + count) = buffer.1.take offset ++ slice data start count := by
  have length : (slice data start count).length = count := slice_length_of_le inside
  have size := buffer.2
  have front : (buffer.1.take offset ++ slice data start count).length = offset + count := by
    rw [List.length_append, List.length_take_of_le (by omega), length]
  rw [copyToBuffer, copyOut_of_le inside]
  simp only [length, fits, ↓reduceDIte]
  exact ⟨_, rfl, List.take_left' front⟩

/-- An update that completes a block: the buffer is filled and taken, then the blocks of the data,
and what is left waits at the start of the buffer.
-/
theorem update_of_fills {j : UInt32} (waits : j.toNat = message.length % 64)
    (waiting : context.buffer.1.take (message.length % 64) = consumer.residue message)
    (inside : len.toNat ≤ data.length) (short : len.toNat + 63 < 2 ^ 32)
    (fills : 63 < j.toNat + len.toNat)
    : ∃ full rest stop last,
        copyToBuffer context.buffer j.toNat data 0 (64 - j).toNat = .ok full
          ∧ transformLoop data len (len.toNat / 64 + 1) (sha1Transform context.state full.1) (64 - j)
            = .ok (consumer.absorb context.state (consumer.residue message ++ rest), stop)
          ∧ rest = slice data 0 len.toNat
          ∧ copyToBuffer full 0 data stop.toNat (len - stop).toNat = .ok last
          ∧ last.1.take ((message ++ rest).length % 64)
            = consumer.residue (consumer.residue message ++ rest) := by
  have missing : (64 - j).toNat = 64 - j.toNat :=
    UInt32.toNat_sub_of_le _ _ (UInt32.le_iff_toNat_le.mpr (by rw [sixtyFour]; omega))
  have head : (consumer.residue message ++ slice data 0 (64 - j.toNat)).length = consumer.size := by
    rw [List.length_append, residue_length, slice_length_of_le (by omega), consumer_size]
    omega
  have split
      : consumer.residue message ++ slice data 0 len.toNat
        = (consumer.residue message ++ slice data 0 (64 - j.toNat))
          ++ slice data (64 - j).toNat (len.toNat - (64 - j).toNat) := by
    have joined : slice data 0 (64 - j.toNat + (len.toNat - (64 - j.toNat))) = _ := slice_append
    rw [Nat.add_sub_of_le (by omega), Nat.zero_add] at joined
    rw [joined, List.append_assoc, missing]
  obtain ⟨full, copied, contents⟩ :=
    copyToBuffer_of_fits context.buffer data j.toNat 0 (64 - j).toNat (by omega) (by omega)
  have block : full.1 = consumer.residue message ++ slice data 0 (64 - j.toNat) := by
    rw [List.take_of_length_le (by have size := full.2; omega), waits, waiting] at contents
    rw [contents, missing]
  obtain ⟨stop, looped, before, left⟩ :=
    transformLoop_eq (len.toNat / 64 + 1) (sha1Transform context.state full.1) (64 - j) inside short
      (by omega) (by omega)
  have remains : (len - stop).toNat = len.toNat - stop.toNat :=
    UInt32.toNat_sub_of_le _ _ (UInt32.le_iff_toNat_le.mpr before)
  have residue
      : consumer.residue (consumer.residue message ++ slice data 0 len.toNat)
        = slice data stop.toNat (len.toNat - stop.toNat) := by
    rw [split, BlockConsumer.residue_block head, left]
  have length : len.toNat - stop.toNat = (message ++ slice data 0 len.toNat).length % 64 := by
    have counted := congrArg List.length residue
    rw [residue_length, slice_length_of_le (by omega), List.length_append, residue_length]
      at counted
    rw [List.length_append, ← counted]
    omega
  obtain ⟨last, kept, waits⟩ :=
    copyToBuffer_of_fits full data 0 stop.toNat (len - stop).toNat (by omega) (by omega)
  refine ⟨full, _, stop, last, copied, ?_, rfl, kept, ?_⟩
  · rw [looped, split, BlockConsumer.absorb_block head, block,
      sha1Transform_eq_compress _ head]
    rfl
  · rw [Nat.zero_add, remains, length, List.take_zero, List.nil_append] at waits
    rw [waits, residue, length]

/-- An update takes its data as if it followed the message so far. -/
theorem sha1Update_represents (represents : Represents context message) (data : Bytes)
    (len : UInt32) (inside : len.toNat ≤ data.length) (short : len.toNat + 63 < 2 ^ 32)
    : ∃ next,
        sha1Update context data len = .ok next
          ∧ Represents next (message ++ slice data 0 len.toNat) := by
  have waits := represents.waits
  have waiting := represents.waiting
  have added : (slice data 0 len.toNat).length = len.toNat := slice_length_of_le (by omega)
  have counted := counter_add represents added
  obtain ⟨absorbed, residue⟩ :=
    BlockConsumer.absorb_append consumer initial message (slice data 0 len.toNat)
  rw [← represents.state] at absorbed
  rw [sha1Update]
  generalize (context.count0 >>> 3) &&& 63 = j at waits ⊢
  have compare : 63 < j + len ↔ 63 < j.toNat + len.toNat := by
    rw [UInt32.lt_iff_toNat_lt, UInt32.toNat_add, Nat.mod_eq_of_lt (by omega)]
    rfl
  by_cases fills : 63 < j.toNat + len.toNat
  case pos =>
    obtain ⟨full, rest, stop, last, copied, looped, rfl, kept, left⟩ :=
      update_of_fills waits waiting inside short fills
    rw [if_pos (compare.mpr fills)]
    refine ⟨_, (bind_of_ok copied _).trans ((bind_of_ok looped _).trans (bind_of_ok kept _)), ?_⟩
    constructor
    case state => exact absorbed.symm
    case waiting => exact left.trans residue.symm
    case counted => exact counted
  case neg =>
    have small : (consumer.residue message ++ slice data 0 len.toNat).length < consumer.size := by
      rw [List.length_append, residue_length, added, consumer_size]
      omega
    obtain ⟨last, kept, left⟩ :=
      copyToBuffer_of_fits context.buffer data j.toNat 0 len.toNat (by omega) (by omega)
    rw [if_neg (compare.not.mpr fills)]
    refine ⟨_, bind_of_ok kept _, ?_⟩
    constructor
    case state => rw [absorbed, BlockConsumer.absorb_of_short small]
    case waiting =>
      have length : (message ++ slice data 0 len.toNat).length % 64 = j.toNat + len.toNat := by
        rw [List.length_append, added]
        omega
      rw [length, left, residue, BlockConsumer.residue_of_short small, waits, waiting]
    case counted => exact counted

-----------------------------------------------------------------------------------------
-- `SHA1Final`
-----------------------------------------------------------------------------------------

theorem wordBytes_eq_be32 (word : UInt32) : wordBytes word = be32 word.toNat := by
  have byte (distance : UInt32) (small : distance.toNat < 32)
      : ((word >>> distance) &&& 255).toUInt8 = UInt8.ofNat (word.toNat / 2 ^ distance.toNat) := by
    apply UInt8.toNat_inj.mp
    rw [UInt32.toNat_toUInt8, UInt32.toNat_and, UInt32.toNat_shiftRight, Nat.mod_eq_of_lt small,
      Nat.shiftRight_eq_div_pow, UInt8.toNat_ofNat']
    have masked := Nat.and_two_pow_sub_one_eq_mod (word.toNat / 2 ^ distance.toNat) 8
    have ones : (255 : UInt32).toNat = 2 ^ 8 - 1 := rfl
    rw [ones, masked, Nat.mod_mod]
  have last : word.toNat / 2 ^ (0 : UInt32).toNat = word.toNat := Nat.div_one _
  have bytes : wordBytes word
      = [((word >>> 24) &&& 255).toUInt8, ((word >>> 16) &&& 255).toUInt8,
        ((word >>> 8) &&& 255).toUInt8, ((word >>> 0) &&& 255).toUInt8] := rfl
  rw [bytes, byte 24 (by decide), byte 16 (by decide), byte 8 (by decide), byte 0 (by decide), last]
  rfl

theorem Represents.finalCount (represents : Represents context message)
    : finalCount context
      = be32 (bitLength message / 2 ^ 32) ++ be32 (bitLength message % 2 ^ 32) := by
  have counted := represents.counted
  have low := context.count0.toNat_lt
  have upper : context.count1.toNat = bitLength message / 2 ^ 32 := by omega
  have lower : context.count0.toNat = bitLength message % 2 ^ 32 := by omega
  rw [UvgTorrent.finalCount, wordBytes_eq_be32, wordBytes_eq_be32, upper, lower]

/-- The padding loop is left with the length field at the end of a block. -/
theorem Represents.padded (represents : Represents context message)
    : context.count0 &&& 504 = 448 ↔ message.length % 64 = 56 := by
  have counted := represents.counted
  have low := context.count0.toNat_lt
  have eights : context.count0.toNat = 8 * (context.count0.toNat / 8) := by
    simp only [bitLength] at counted
    omega
  have masked : (context.count0 &&& 504).toNat = 8 * (context.count0.toNat / 8 % 64) := by
    generalize context.count0.toNat / 8 = bytes at eights ⊢
    have field := Nat.and_two_pow_sub_one_eq_mod bytes 6
    have shifted := Nat.shiftLeft_and_distrib (i := 3) (a := bytes) (b := 2 ^ 6 - 1)
    rw [field, Nat.shiftLeft_eq, Nat.shiftLeft_eq, Nat.mul_comm _ (2 ^ 3), Nat.mul_comm _ (2 ^ 3)]
      at shifted
    rw [UInt32.toNat_and, eights]
    exact shifted.symm
  rw [← UInt32.toNat_inj, masked]
  have wanted : (448 : UInt32).toNat = 448 := rfl
  rw [wanted]
  simp only [bitLength] at counted
  omega

/-- One byte more. -/
theorem update_byte (represents : Represents context message) (byte : UInt8)
    : ∃ next,
        sha1Update context [byte] 1 = .ok next ∧ Represents next (message ++ [byte]) :=
  sha1Update_represents represents [byte] 1 (Nat.le_refl 1) (by decide)

/-- The padding loop appends the zeros that are missing to the length field. -/
theorem padLoop_represents (turns : Nat) (represents : Represents context message)
    (enough : (120 - message.length % 64) % 64 < turns)
    : ∃ next,
        padLoop turns context = .ok next
          ∧ Represents next
              (message ++ List.replicate ((120 - message.length % 64) % 64) 0) := by
  -- each turn brings the length one byte closer to 56 modulo 64
  induction turns generalizing context message with
  | zero => omega
  | succ turns ih =>
      rw [padLoop]
      by_cases done : message.length % 64 = 56
      case pos =>
        rw [if_neg (not_not_intro (represents.padded.mpr done)), done]
        refine ⟨context, rfl, ?_⟩
        rw [show (120 - 56) % 64 = 0 from rfl, List.replicate_zero, List.append_nil]
        exact represents
      case neg =>
        rw [if_pos (represents.padded.not.mpr done)]
        obtain ⟨next, updated, grown⟩ := update_byte represents 0
        have length : (message ++ [(0 : UInt8)]).length = message.length + 1 := List.length_append
        obtain ⟨final, looped, complete⟩ := ih grown (by rw [length]; omega)
        refine ⟨final, (bind_of_ok updated _).trans looped, ?_⟩
        have fewer
            : (120 - message.length % 64) % 64
              = (120 - (message.length + 1) % 64) % 64 + 1 := by
          omega
        rw [length, List.append_assoc] at complete
        rw [fewer, List.replicate_succ]
        exact complete

/-- The digest of a context is the digest of the message it stands for. -/
theorem sha1Final_represents (represents : Represents context message)
    : (sha1Final context).map Subtype.val = .ok (digest message) := by
  obtain ⟨ended, first, grown⟩ := update_byte represents 0x80
  have length : (message ++ [(0x80 : UInt8)]).length = message.length + 1 := List.length_append
  obtain ⟨aligned, looped, full⟩ := padLoop_represents 64 grown (by omega)
  have zeroed : (120 - (message.length + 1) % 64) % 64 = zeros message.length := by
    rw [zeros]
    omega
  rw [length, zeroed] at full
  obtain ⟨final, second, complete⟩ :=
    sha1Update_represents full (finalCount context) 8 (Nat.le_refl 8) (by decide)
  have state : final.state = consumer.absorb initial (pad message) := by
    rw [complete.state, represents.finalCount]
    rfl
  have finished
      : sha1Final context = .ok ⟨digestBytes final.state, digestBytes_length final.state⟩ :=
    (bind_of_ok first _).trans ((bind_of_ok looped _).trans (bind_of_ok second _))
  rw [finished]
  show Except.ok (digestBytes final.state) = _
  rw [state, digestBytes, digest, funext wordBytes_eq_be32]

-----------------------------------------------------------------------------------------
-- The whole message, in any pieces
-----------------------------------------------------------------------------------------

/-- Steps that each hand over one part of a message hand over the message. -/
theorem runSteps_represents {β : Type} (step : Sha1Context → β → Except Sha1Fault Sha1Context)
    (part : β → Bytes) {operations : List β}
    (updates
      : ∀ operation ∈ operations, ∀ {context : Sha1Context} {message : Bytes},
          Represents context message
          → ∃ next, step context operation = .ok next ∧ Represents next (message ++ part operation))
    (represents : Represents context message)
    : ∃ next,
        runSteps step context operations = .ok next
          ∧ Represents next (message ++ operations.flatMap part) := by
  induction operations generalizing context message with
  | nil => exact ⟨context, rfl, by rwa [List.flatMap_nil, List.append_nil]⟩
  | cons operation rest ih =>
      obtain ⟨next, updated, grown⟩ := updates operation List.mem_cons_self represents
      obtain ⟨final, ran, complete⟩ :=
        ih (fun other member => updates other (List.mem_cons_of_mem operation member)) grown
      refine ⟨final, runSteps_cons_eq_ok.mpr ⟨next, updated, ran⟩, ?_⟩
      rwa [List.flatMap_cons, ← List.append_assoc]

theorem update_chunk {chunk : Bytes} (short : chunk.length + 63 < 2 ^ 32)
    (represents : Represents context message)
    : ∃ next,
        sha1Update context chunk (UInt32.ofNat chunk.length) = .ok next
          ∧ Represents next (message ++ chunk) := by
  have whole : (UInt32.ofNat chunk.length).toNat = chunk.length :=
    UInt32.toNat_ofNat_of_lt' (lt_of_le_of_lt (Nat.le_add_right _ 63) short)
  have updated :=
    sha1Update_represents represents chunk (UInt32.ofNat chunk.length) (by omega) (by omega)
  rwa [whole, slice_zero, List.take_length] at updated

/-- However a message is cut into calls of `SHA1Update`, and whatever the context held before, the
digest is the one that the standard gives the message.
-/
theorem sha1_of_chunks (context : Sha1Context) {chunks : List Bytes}
    (short : ∀ chunk ∈ chunks, chunk.length + 63 < 2 ^ 32)
    : ((runSteps (fun context chunk => sha1Update context chunk (UInt32.ofNat chunk.length))
            (sha1Init context) chunks).bind sha1Final).map Subtype.val
      = .ok (digest chunks.flatten) := by
  obtain ⟨next, ran, represents⟩ :=
    runSteps_represents
      (fun context chunk => sha1Update context chunk (UInt32.ofNat chunk.length)) id
      (fun chunk member {_ _} => update_chunk (short chunk member))
      (sha1Init_represents context)
  rw [bind_of_ok ran, sha1Final_represents represents, List.nil_append, List.flatMap_id]

theorem sha1_of_two_chunks
    : ((runSteps (fun context chunk => sha1Update context chunk (UInt32.ofNat chunk.length))
            (sha1Init aContext) [[97, 98], [99]]).bind sha1Final).map Subtype.val
      = .ok (digest [97, 98, 99]) :=
  sha1_of_chunks aContext (by decide)

/-- `SHA1` hands the string over byte by byte. -/
theorem sha1_eq_digest (context : Sha1Context) (str : Bytes)
    : (sha1 context str).map Subtype.val = .ok (digest str) := by
  obtain ⟨next, ran, represents⟩ :=
    runSteps_represents (fun context byte => sha1Update context [byte] 1) (fun byte => [byte])
      (fun byte _ {_ _} represents => update_byte represents byte) (sha1Init_represents context)
  rw [sha1, bind_of_ok ran, sha1Final_represents represents, List.nil_append,
    List.flatMap_singleton']

example
    : (UvgTorrent.sha1 aContext [97, 98, 99]).map Subtype.val
      = .ok [0xA9, 0x99, 0x3E, 0x36, 0x47, 0x06, 0x81, 0x6A, 0xBA, 0x3E, 0x25, 0x71, 0x78, 0x50,
          0xC2, 0x6C, 0x9C, 0xD0, 0xD8, 0x9D] := by
  decide +kernel

-----------------------------------------------------------------------------------------
-- The digest of a piece
-----------------------------------------------------------------------------------------

theorem digest_length (message : Bytes) : (digest message).length = 20 := by
  simp [digest]

/-- The digest that `torrent_data_validate_piece` compares with the table of the metadata. -/
def sha1 (message : Bytes) : Digest := ⟨digest message, digest_length message⟩

/-- The one update of `torrent_data_validate_piece` and its `SHA1Final` compute that digest. -/
theorem validate_piece_sha1 (context : Sha1Context) {piece : Bytes} {pieceSize : Nat}
    (inside : u32 pieceSize ≤ piece.length) (short : u32 pieceSize + 63 < 2 ^ 32)
    : (sha1Update (sha1Init context) piece (UInt32.ofNat (u32 pieceSize))).bind sha1Final
      = .ok (sha1 (piece.take (u32 pieceSize))) := by
  have whole : (UInt32.ofNat (u32 pieceSize)).toNat = u32 pieceSize :=
    UInt32.toNat_ofNat_of_lt' (lt_of_le_of_lt (Nat.le_add_right _ 63) short)
  obtain ⟨next, updated, represents⟩ :=
    sha1Update_represents (sha1Init_represents context) piece (UInt32.ofNat (u32 pieceSize))
      (by omega) (by omega)
  have final := sha1Final_represents represents
  rw [whole, slice_zero, List.nil_append] at final
  rw [bind_of_ok updated]
  cases finished : sha1Final next with
  | error fault =>
      rw [finished] at final
      cases final
  | ok hash =>
      rw [finished] at final
      exact congrArg Except.ok (Subtype.ext (Except.ok.inj final))

end Standard

end UvgTorrent

import UvgTorrent.TorrentData.RangeReading
import UvgTorrent.TorrentData.Setup

/-! When the outer loop of `torrent_data_read_data` comes to an end. A turn adds the smaller of two
unsigned differences to `read_length`, cut to an `int`: this is 0 at the end of a piece, and again
and again once the rest of the range is a multiple of `2 ^ 32`.
-/

namespace UvgTorrent

open Foundations

-----------------------------------------------------------------------------------------
-- The number of bytes that a turn copies
-----------------------------------------------------------------------------------------

/-- `bytes_to_read` of the copy, as the `size_t` that `memcpy` takes and `read_length` grows by. -/
def copyCount (pieceSize start left : Nat) : Nat :=
  u64OfInt (wrap32 (min (u64Sub pieceSize start) left : Nat))

/-- The copy of a turn stays in the piece buffer, which has one byte more than the piece. -/
def CopyFits (pieceSize start left : Nat) : Prop :=
  start + copyCount pieceSize start left ≤ pieceSize + 1

/-- With `left` bytes still to copy from `start` on, the loop comes to a turn that copies nothing:
nothing of the piece is left, or what is copied of it does not fit an `int`, or the range begins at
the spare byte of the buffer.
-/
inductive StandsStill (pieceSize start left : Nat) : Prop
  | atEnd (unread : 0 < left) (here : start = pieceSize)
  | cut (inside : start ≤ pieceSize) (large : 2 ^ 32 ≤ min (pieceSize - start) left)
    (kept : min (pieceSize - start) left % 2 ^ 32 < 2 ^ 31)
  | atSpare (unread : 0 < left) (here : start = pieceSize + 1) (wrapped : left % 2 ^ 32 = 0)

variable {pieceSize start left : Nat}

theorem copyCount_of_le (inside : start ≤ pieceSize) (fits : pieceSize < 2 ^ 64)
    (small : min (pieceSize - start) left % 2 ^ 32 < 2 ^ 31)
    : copyCount pieceSize start left = min (pieceSize - start) left % 2 ^ 32 := by
  rw [copyCount, u64Sub_of_le inside fits]
  generalize min (pieceSize - start) left = count at *
  unfold u64OfInt wrap32
  omega

theorem copyCount_ge_of_negative (inside : start ≤ pieceSize) (fits : pieceSize < 2 ^ 64)
    (large : 2 ^ 31 ≤ min (pieceSize - start) left % 2 ^ 32)
    : 2 ^ 63 ≤ copyCount pieceSize start left := by
  rw [copyCount, u64Sub_of_le inside fits]
  generalize min (pieceSize - start) left = count at *
  unfold u64OfInt wrap32
  omega

/-- Behind the end of the piece all that is left is copied. -/
theorem copyCount_of_gt (past : pieceSize < start) (size_lt : pieceSize + 1 < 2 ^ 63)
    (start_lt : start < 2 ^ 31) (left_lt : left < 2 ^ 64)
    (close : start ≤ pieceSize + 1 ∨ left < 2 ^ 63)
    : copyCount pieceSize start left = u64OfInt (wrap32 left) := by
  have all : min (u64Sub pieceSize start) left = left := by
    unfold u64Sub
    omega
  rw [copyCount, all]

/-- A stuck loop copies inside its buffer, and is as stuck afterwards. -/
theorem StandsStill.next (still : StandsStill pieceSize start left)
    (size_lt : pieceSize + 1 < 2 ^ 63) (start_lt : start < 2 ^ 31) (left_lt : left < 2 ^ 64)
    : 0 < left
      ∧ CopyFits pieceSize start left
      ∧ copyCount pieceSize start left ≤ left
      ∧ StandsStill pieceSize start (left - copyCount pieceSize start left) := by
  unfold CopyFits
  cases still with
  | atEnd unread here =>
      have none : copyCount pieceSize start left = 0 := by
        rw [copyCount_of_le (by omega) (by omega) (by omega)]
        omega
      rw [none]
      exact ⟨unread, by omega, by omega, .atEnd unread here⟩
  | cut inside large kept =>
      rw [copyCount_of_le inside (by omega) kept]
      exact ⟨by omega, by omega, by omega, .cut inside (by omega) (by omega)⟩
  | atSpare unread here wrapped =>
      have none : copyCount pieceSize start left = 0 := by
        rw [copyCount_of_gt (by omega) size_lt start_lt left_lt (.inl (by omega))]
        unfold u64OfInt wrap32
        omega
      rw [none]
      exact ⟨unread, by omega, by omega, .atSpare unread here wrapped⟩

/-- A piece that has bytes from `start` on, no more of them to be copied than `2 ^ 32`. -/
structure Moves (pieceSize start length : Nat) : Prop where
  inside : start < pieceSize
  small : min (pieceSize - start) length < 2 ^ 32

/-- Where the first copy fits and the loop is not stuck, it moves. -/
theorem Moves.of_not_standsStill (moving : ¬ StandsStill pieceSize start left)
    (unread : 0 < left) (size_lt : pieceSize + 1 < 2 ^ 63) (start_lt : start < 2 ^ 31)
    (left_lt : left < 2 ^ 64) (fits : CopyFits pieceSize start left)
    : Moves pieceSize start left := by
  unfold CopyFits at fits
  rcases Nat.lt_trichotomy start (pieceSize + 1) with inside | here | past
  · have notEnd : start ≠ pieceSize := fun here => moving (.atEnd unread here)
    refine ⟨by omega, Nat.lt_of_not_le fun large => ?_⟩
    rcases Nat.lt_or_ge (min (pieceSize - start) left % 2 ^ 32) (2 ^ 31) with kept | negative
    · exact moving (.cut (by omega) large kept)
    · have huge := copyCount_ge_of_negative (by omega) (by omega) negative
      omega
  · have count := copyCount_of_gt (by omega) size_lt start_lt left_lt (.inl (by omega))
    refine absurd (.atSpare unread here ?_) moving
    unfold u64OfInt wrap32 at count
    omega
  · omega

/-- A loop that moves copies something in each turn. -/
theorem Moves.copyCount_pos {length : Nat} (moves : Moves pieceSize start length)
    (size_lt : pieceSize + 1 < 2 ^ 63) (unread : 0 < left) (atMost : left ≤ length)
    : 0 < copyCount pieceSize start left := by
  obtain ⟨inside, small⟩ := moves
  rcases Nat.lt_or_ge (min (pieceSize - start) left % 2 ^ 32) (2 ^ 31) with kept | negative
  · rw [copyCount_of_le (by omega) (by omega) kept]
    omega
  · have huge := copyCount_ge_of_negative (by omega) (by omega) negative
    omega

/-- A copy that fits copies no more than is left. -/
theorem CopyFits.count_le (fits : CopyFits pieceSize start left)
    (size_lt : pieceSize + 1 < 2 ^ 63)
    : copyCount pieceSize start left ≤ left := by
  unfold CopyFits at fits
  unfold copyCount at *
  generalize u64Sub pieceSize start = rest at *
  unfold u64OfInt wrap32 at *
  omega

-----------------------------------------------------------------------------------------
-- One turn of the loop
-----------------------------------------------------------------------------------------

namespace TorrentData

variable {td : TorrentData} {io : Nat → Nat → ReadOutcome} {disk : Disk} {offset length : Nat}
  {stack : Stack} {steps turn : Nat} {read next : Bytes}

/-- The body of the outer loop: the bytes copied so far and those of this turn, or `none` when the
turn throws.
-/
def readTurn (td : TorrentData) (io : Nat → Nat → ReadOutcome) (disk : Disk)
    (offset length : Nat) (stack : Stack) (turn : Nat) (read : Bytes)
    : Except Fault (Option Bytes) :=
  if td.pieceSize = 0 then .error .divisionByZero
  else
    let pieceInfo := td.readInfo offset stack
    if 2 ^ 63 ≤ pieceInfo.pieceSize + 1 then .error .nullPointer
    else
      (td.pieceInTurn io disk offset stack turn).bind fun
      | none => .ok none
      | some piece =>
          let relativeOffset := wrap32 (u64Sub offset pieceInfo.pieceOffset : Nat)
          let bytesToRead := wrap32
            (min (u64Sub pieceInfo.pieceSize (u64OfInt relativeOffset))
              (u64Sub length read.length) : Nat)
          let count := u64OfInt bytesToRead
          if relativeOffset < 0
              ∨ (pieceInfo.pieceSize + 1 : Int) < relativeOffset + count then
            .error .pieceBounds
          else .ok (some (read ++ slice (piece ++ [0]) relativeOffset.toNat count))

/-- The loop is its body, again and again. -/
theorem readLoop_succ
    : td.readLoop io disk offset length stack (steps + 1) turn read
      = if length ≤ read.length then .ok (.success, read)
        else
          (td.readTurn io disk offset length stack turn read).bind fun
          | none => .ok (.failure, read)
          | some next => td.readLoop io disk offset length stack steps (turn + 1) next := by
  rw [readLoop, readTurn]
  by_cases done : length ≤ read.length
  · rw [if_pos done, if_pos done]
  rw [if_neg done, if_neg done]
  by_cases zero : td.pieceSize = 0
  · rw [if_pos zero, if_pos zero, bind_of_error rfl]
  rw [if_neg zero, if_neg zero]
  dsimp only
  by_cases allocated : 2 ^ 63 ≤ (td.readInfo offset stack).pieceSize + 1
  · rw [if_pos allocated, if_pos allocated, bind_of_error rfl]
  rw [if_neg allocated, if_neg allocated, pieceInTurn]
  cases pieceRead : readPiece (io turn) disk (td.readInfo offset stack).pieceOffset
      (td.readInfo offset stack).pieceSize 0 td.files [] with
  | error fault => rw [bind_of_error rfl, bind_of_error rfl, bind_of_error rfl]
  | ok taken =>
      rw [bind_of_ok rfl, bind_of_ok rfl]
      cases taken with
      | none => rw [bind_of_ok rfl]
      | some piece =>
          dsimp only
          split
          · rw [bind_of_error rfl]
          · rw [bind_of_ok rfl]

/-- The loops that a run of the outer loop passes through. -/
inductive Turns (td : TorrentData) (io : Nat → Nat → ReadOutcome) (disk : Disk)
    (offset length : Nat) (stack : Stack)
    : Nat → Bytes → Prop
  | start : Turns td io disk offset length stack 0 []
  | next {turn : Nat} {read next : Bytes} (reached : Turns td io disk offset length stack turn read)
    (unread : read.length < length)
    (turned : td.readTurn io disk offset length stack turn read = .ok (some next))
    : Turns td io disk offset length stack (turn + 1) next

/-- The outer loop ends: it returns, or the program stops at a fault. -/
def ReadEnds (td : TorrentData) (io : Nat → Nat → ReadOutcome) (disk : Disk)
    (offset length : Nat) (stack : Stack)
    : Prop :=
  ∃ steps, td.readData io disk offset length stack steps ≠ .error .endlessLoop

/-- Each turn fails or makes `read_length` larger. -/
def ReadAdvances (td : TorrentData) (io : Nat → Nat → ReadOutcome) (disk : Disk)
    (offset length : Nat) (stack : Stack)
    : Prop :=
  ∀ turn read next,
    td.Turns io disk offset length stack turn read
    → read.length < length
    → td.readTurn io disk offset length stack turn read = .ok (some next)
    → read.length < next.length

/-- The files can deliver the piece of an offset. -/
def PieceReadable (td : TorrentData) (disk : Disk) (offset : Nat) (stack : Stack) : Prop :=
  ∃ outcomes piece,
    readPiece outcomes disk (td.readInfo offset stack).pieceOffset
      (td.readInfo offset stack).pieceSize 0 td.files []
    = .ok (some piece)

/-- The range starts where the loop cannot get on: its piece is small enough for its buffer, its
relative offset is not negative as an `int`, and the numbers of bytes stand still.
-/
structure Stuck (td : TorrentData) (offset length : Nat) (stack : Stack) : Prop where
  size_lt : (td.readInfo offset stack).pieceSize + 1 < 2 ^ 63
  nonneg : 0 ≤ wrap32 (u64Sub offset (td.readInfo offset stack).pieceOffset : Nat)
  still
    : StandsStill (td.readInfo offset stack).pieceSize (td.readStart offset stack) length

theorem readStart_lt : td.readStart offset stack < 2 ^ 31 := by
  unfold readStart wrap32
  omega

/-- What a turn does that does not fail. -/
theorem readTurn_eq_some_iff (positive : 0 < td.pieceSize) (unread : read.length < length)
    (length_lt : length < 2 ^ 64)
    : td.readTurn io disk offset length stack turn read = .ok (some next)
      ↔ (td.readInfo offset stack).pieceSize + 1 < 2 ^ 63
        ∧ 0 ≤ wrap32 (u64Sub offset (td.readInfo offset stack).pieceOffset : Nat)
        ∧ CopyFits (td.readInfo offset stack).pieceSize (td.readStart offset stack)
            (length - read.length)
        ∧ ∃ piece,
            td.pieceInTurn io disk offset stack turn = .ok (some piece)
            ∧ next
              = read
                ++ slice (piece ++ [0]) (td.readStart offset stack)
                    (copyCount (td.readInfo offset stack).pieceSize (td.readStart offset stack)
                      (length - read.length)) := by
  have start_lt : wrap32 (u64Sub offset (td.readInfo offset stack).pieceOffset : Nat)
      < 2 ^ 31 := by
    unfold wrap32
    omega
  rw [readTurn, if_neg (by omega)]
  dsimp only
  by_cases allocated : 2 ^ 63 ≤ (td.readInfo offset stack).pieceSize + 1
  · rw [if_pos allocated]
    exact iff_of_false (fun faulted => by cases faulted)
      (fun turned => absurd turned.1 (Nat.not_lt.mpr allocated))
  rw [if_neg allocated, bind_eq_ok, and_iff_right (Nat.lt_of_not_le allocated)]
  by_cases negative : wrap32 (u64Sub offset (td.readInfo offset stack).pieceOffset : Nat) < 0
  · simp only [Int.not_le.mpr negative, false_and, iff_false]
    rintro ⟨taken, _, returned⟩
    cases taken with
    | none => cases returned
    | some piece =>
        dsimp only at returned
        rw [if_pos (.inl negative)] at returned
        cases returned
  · obtain ⟨start, relative⟩ := Int.eq_ofNat_of_zero_le (Int.not_lt.mp negative)
    have startEq : td.readStart offset stack = start := by
      rw [readStart, relative, Int.toNat_natCast]
    rw [relative, startEq, u64OfInt_natCast (by omega),
      u64Sub_of_le (Nat.le_of_lt unread) length_lt, Int.toNat_natCast,
      and_iff_right (Int.natCast_nonneg start), ← copyCount]
    have test : ((start : Int) < 0
          ∨ ((td.readInfo offset stack).pieceSize + 1 : Int)
            < start
              + copyCount (td.readInfo offset stack).pieceSize start (length - read.length))
        ↔ ¬ CopyFits (td.readInfo offset stack).pieceSize start (length - read.length) := by
      unfold CopyFits
      omega
    by_cases fits : CopyFits (td.readInfo offset stack).pieceSize start (length - read.length)
    · rw [and_iff_right fits]
      constructor
      · rintro ⟨taken, pieceRead, returned⟩
        cases taken with
        | none => cases returned
        | some piece =>
            dsimp only at returned
            rw [if_neg (fun outside => test.mp outside fits)] at returned
            cases returned
            exact ⟨piece, pieceRead, rfl⟩
      · rintro ⟨piece, pieceRead, rfl⟩
        refine ⟨some piece, pieceRead, ?_⟩
        dsimp only
        rw [if_neg (fun outside => test.mp outside fits)]
    · simp only [fits, false_and, iff_false]
      rintro ⟨taken, _, returned⟩
      cases taken with
      | none => cases returned
      | some piece =>
          dsimp only at returned
          rw [if_pos (test.mpr fits)] at returned
          cases returned

theorem readTurn_length (positive : 0 < td.pieceSize) (unread : read.length < length)
    (length_lt : length < 2 ^ 64)
    (turned : td.readTurn io disk offset length stack turn read = .ok (some next))
    : next.length
      = read.length
        + copyCount (td.readInfo offset stack).pieceSize (td.readStart offset stack)
            (length - read.length) := by
  obtain ⟨_, _, fits, piece, pieceRead, rfl⟩ :=
    (readTurn_eq_some_iff positive unread length_lt).mp turned
  have sized := readPiece_length pieceRead
  unfold CopyFits at fits
  rw [List.length_append, slice_length_of_le (by simp only [List.length_append, sized]; exact fits)]

theorem readTurn_ne_endless
    : td.readTurn io disk offset length stack turn read ≠ .error .endlessLoop := by
  rw [readTurn]
  split
  · simp
  dsimp only
  split
  · simp
  rw [ne_eq, bind_eq_error, not_or]
  refine ⟨fun faulted => Fault.noConfusion (readPiece_faults _ faulted), ?_⟩
  rintro ⟨taken, _, faulted⟩
  cases taken with
  | none => cases faulted
  | some piece =>
      dsimp only at faulted
      split at faulted <;> cases faulted

-----------------------------------------------------------------------------------------
-- The end of the loop
-----------------------------------------------------------------------------------------

/-- A loop that is not stuck moves, once its first turn has not failed. -/
theorem Turns.moves (reached : td.Turns io disk offset length stack turn read)
    (positive : 0 < td.pieceSize) (length_lt : length < 2 ^ 64)
    (moving : ¬ td.Stuck offset length stack) (unread : read.length < length)
    (turned : td.readTurn io disk offset length stack turn read = .ok (some next))
    : Moves (td.readInfo offset stack).pieceSize (td.readStart offset stack) length := by
  induction reached generalizing next with
  | start =>
      obtain ⟨size_lt, nonneg, fits, _⟩ :=
        (readTurn_eq_some_iff positive unread length_lt).mp turned
      exact Moves.of_not_standsStill (fun still => moving ⟨size_lt, nonneg, still⟩)
        unread size_lt readStart_lt length_lt fits
  | next _ earlier before ih => exact ih earlier before

/-- A loop that is not stuck makes progress in every turn. -/
theorem readAdvances_of_not_stuck (positive : 0 < td.pieceSize) (length_lt : length < 2 ^ 64)
    (moving : ¬ td.Stuck offset length stack)
    : td.ReadAdvances io disk offset length stack := by
  intro turn read next reached unread turned
  have moves := reached.moves positive length_lt moving unread turned
  have grown := readTurn_length positive unread length_lt turned
  obtain ⟨size_lt, _⟩ := (readTurn_eq_some_iff positive unread length_lt).mp turned
  have count := moves.copyCount_pos size_lt (Nat.sub_pos_of_lt unread) (Nat.sub_le _ _)
  omega

/-- A loop that makes progress in every turn ends. Witness: induction on the bytes still to be
copied.
-/
theorem ReadAdvances.ends (advances : td.ReadAdvances io disk offset length stack)
    : td.ReadEnds io disk offset length stack := by
  have fromTurn (left : Nat)
      : ∀ turn read,
          td.Turns io disk offset length stack turn read
          → length - read.length ≤ left
          → ∃ steps,
              td.readLoop io disk offset length stack steps turn read ≠ .error .endlessLoop := by
    induction left with
    | zero =>
        intro turn read _ within
        refine ⟨1, ?_⟩
        rw [readLoop_succ, if_pos (by omega)]
        simp
    | succ left ih =>
        intro turn read reached within
        by_cases done : length ≤ read.length
        · refine ⟨1, ?_⟩
          rw [readLoop_succ, if_pos done]
          simp
        · cases turned : td.readTurn io disk offset length stack turn read with
          | error fault =>
              refine ⟨1, ?_⟩
              rw [readLoop_succ, if_neg done, bind_of_error turned]
              intro same
              cases same
              exact readTurn_ne_endless turned
          | ok taken =>
              cases taken with
              | none =>
                  refine ⟨1, ?_⟩
                  rw [readLoop_succ, if_neg done, bind_of_ok turned]
                  simp
              | some next =>
                  have unread := Nat.lt_of_not_le done
                  have longer := advances turn read next reached unread turned
                  obtain ⟨steps, ended⟩ :=
                    ih (turn + 1) next (.next reached unread turned) (by omega)
                  refine ⟨steps + 1, ?_⟩
                  rw [readLoop_succ, if_neg done, bind_of_ok turned]
                  exact ended
  exact fromTurn length 0 [] .start (by simp)

/-- A stuck loop whose piece is delivered in every turn never ends. Witness: induction on the
turns that it is given; it is stuck after each of them.
-/
theorem readLoop_endless (positive : 0 < td.pieceSize) (length_lt : length < 2 ^ 64)
    (size_lt : (td.readInfo offset stack).pieceSize + 1 < 2 ^ 63)
    (nonneg : 0 ≤ wrap32 (u64Sub offset (td.readInfo offset stack).pieceOffset : Nat))
    (delivered : ∀ turn, ∃ piece, td.pieceInTurn io disk offset stack turn = .ok (some piece))
    (still
      : StandsStill (td.readInfo offset stack).pieceSize (td.readStart offset stack)
          (length - read.length))
    : td.readLoop io disk offset length stack steps turn read = .error .endlessLoop := by
  induction steps generalizing turn read with
  | zero => rfl
  | succ steps ih =>
      obtain ⟨left, fits, atMost, stillNext⟩ := still.next size_lt readStart_lt (by omega)
      have unread : read.length < length := by omega
      obtain ⟨piece, pieceRead⟩ := delivered turn
      have turned := (readTurn_eq_some_iff positive unread length_lt).mpr
        ⟨size_lt, nonneg, fits, piece, pieceRead, rfl⟩
      have grown := readTurn_length positive unread length_lt turned
      rw [readLoop_succ, if_neg (Nat.not_le.mpr unread), bind_of_ok turned]
      apply ih
      rw [grown, ← Nat.sub_sub]
      exact stillNext

theorem Stuck.not_readEnds (stuck : td.Stuck offset length stack) (positive : 0 < td.pieceSize)
    (length_lt : length < 2 ^ 64)
    (delivered : ∀ turn, ∃ piece, td.pieceInTurn io disk offset stack turn = .ok (some piece))
    : ¬ td.ReadEnds io disk offset length stack := by
  rintro ⟨steps, ended⟩
  exact ended (readLoop_endless positive length_lt stuck.size_lt stuck.nonneg delivered
    stuck.still)

/-- A range read ends, and gets on in every turn, whatever the file operations answer, exactly when
the range does not start where the loop is stuck or the files cannot deliver its piece.
-/
theorem readData_ends_iff (positive : 0 < td.pieceSize) (length_lt : length < 2 ^ 64)
    : (∀ io, td.ReadEnds io disk offset length stack ∧ td.ReadAdvances io disk offset length stack)
      ↔ ¬ (td.Stuck offset length stack ∧ td.PieceReadable disk offset stack) := by
  constructor
  · rintro ends ⟨stuck, outcomes, piece, pieceRead⟩
    exact stuck.not_readEnds positive length_lt (fun _ => ⟨piece, pieceRead⟩)
      (ends fun _ => outcomes).1
  · intro moving io
    have advances : td.ReadAdvances io disk offset length stack := by
      by_cases stuck : td.Stuck offset length stack
      · -- no turn gets its piece
        intro turn read next _ unread turned
        obtain ⟨_, _, _, piece, pieceRead, _⟩ :=
          (readTurn_eq_some_iff positive unread length_lt).mp turned
        exact absurd ⟨stuck, io turn, piece, pieceRead⟩ moving
      · exact readAdvances_of_not_stuck positive length_lt stuck
    exact ⟨advances.ends, advances⟩

/-- The piece of an offset, as far as its id fits an `int`. -/
theorem readInfo_eq (positive : 0 < td.pieceSize) (nonempty : 0 < td.dataSize)
    (offset_lt : offset < 2 ^ 64) (fits : offset / td.pieceSize < 2 ^ 31)
    : td.readInfo offset stack
      = {
          pieceId := (offset / td.pieceSize : Nat)
          pieceSize
            := min td.pieceSize (u64Sub td.dataSize (td.pieceSize * (offset / td.pieceSize)))
          pieceOffset := td.pieceSize * (offset / td.pieceSize)
        } := by
  have floor := Nat.mul_div_le offset td.pieceSize
  rw [readInfo, getPieceInfo, if_neg (by omega), wrap32_natCast fits, u64OfInt_natCast (by omega),
    u64_of_lt (by omega)]

/-- For pieces of less than `2 ^ 31` bytes and ranges of less than `2 ^ 32`, the loop is stuck
exactly at the end of the data.
-/
theorem stuck_iff_end (positive : 0 < td.pieceSize) (pieceSize_lt : td.pieceSize < 2 ^ 31)
    (nonempty : 0 < td.dataSize) (fits : offset / td.pieceSize < 2 ^ 31)
    (length_lt : length < 2 ^ 32) (dataSize_lt : td.dataSize < 2 ^ 64)
    : td.Stuck offset length stack ↔ 0 < length ∧ offset = td.dataSize := by
  have floor := Nat.mul_div_le offset td.pieceSize
  have split := Nat.mod_add_div offset td.pieceSize
  have small := Nat.mod_lt offset positive
  have bound : td.pieceSize * (offset / td.pieceSize) ≤ 2 ^ 31 * 2 ^ 31 :=
    Nat.mul_le_mul (by omega) (by omega)
  have info : td.readInfo offset stack = _ := readInfo_eq positive nonempty (by omega) fits
  have start : td.readStart offset stack = offset % td.pieceSize := by
    rw [readStart, info, u64Sub_of_le floor (by omega), wrap32_natCast (by omega),
      Int.toNat_natCast]
    omega
  have size : (td.readInfo offset stack).pieceSize
      = if td.pieceSize * (offset / td.pieceSize) ≤ td.dataSize then
          min td.pieceSize (td.dataSize - td.pieceSize * (offset / td.pieceSize))
        else td.pieceSize := by
    rw [info]
    dsimp only
    split
    · rw [u64Sub_of_le (by omega) dataSize_lt]
    · unfold u64Sub
      omega
  constructor
  · rintro ⟨_, _, still⟩
    rw [start, size] at still
    cases still with
    | atEnd unread here => exact ⟨unread, by split at here <;> omega⟩
    | cut inside large kept => split at large <;> omega
    | atSpare unread here wrapped => omega
  · rintro ⟨unread, rfl⟩
    have atEnd : td.dataSize % td.pieceSize = (td.readInfo td.dataSize stack).pieceSize := by
      rw [size, if_pos floor]
      omega
    refine ⟨by omega, ?_, .atEnd unread (by rw [start, atEnd])⟩
    rw [info, u64Sub_of_le floor (by omega), wrap32_natCast (by omega)]
    omega

/-- A disk with one file, of three bytes. -/
def threeBytes : Disk := fun path => if path = [46, 47, 97] then some [1, 2, 3] else none

/-- A range inside the data of a torrent with one file. -/
theorem readData_ends_inside
    : 0 < (ofSingleFile none 3 2 1).pieceSize
      ∧ ∀ io,
          (ofSingleFile none 3 2 1).ReadEnds io threeBytes 1 2 ⟨⟨0, 0, 0, 0⟩, ⟨0, 0, 0⟩⟩
          ∧ (ofSingleFile none 3 2 1).ReadAdvances io threeBytes 1 2
              ⟨⟨0, 0, 0, 0⟩, ⟨0, 0, 0⟩⟩ := by
  have sizes : 0 < (ofSingleFile none 3 2 1).pieceSize
      ∧ (ofSingleFile none 3 2 1).pieceSize < 2 ^ 31
      ∧ 0 < (ofSingleFile none 3 2 1).dataSize
      ∧ (ofSingleFile none 3 2 1).dataSize < 2 ^ 64 := by
    decide
  obtain ⟨positive, small, nonempty, fits⟩ := sizes
  refine ⟨positive, (readData_ends_iff positive (by norm_num)).mpr fun stuck => ?_⟩
  have atEnd := (stuck_iff_end positive small nonempty (by decide) (by norm_num) fits).mp stuck.1
  exact absurd atEnd.2 (by decide)

/-- One byte asked for at the end of the data: every file operation succeeds, and the loop never
ends.
-/
theorem read_at_end_endless
    : (ofSingleFile none 3 2 1).JustInitialised
      ∧ 0 < (ofSingleFile none 3 2 1).pieceSize
      ∧ ¬ (ofSingleFile none 3 2 1).ReadEnds (fun _ _ => .good) threeBytes 3 1
          ⟨⟨0, 0, 0, 0⟩, ⟨0, 0, 0⟩⟩ := by
  have sizes : 0 < (ofSingleFile none 3 2 1).pieceSize
      ∧ (ofSingleFile none 3 2 1).pieceSize < 2 ^ 31
      ∧ 0 < (ofSingleFile none 3 2 1).dataSize
      ∧ (ofSingleFile none 3 2 1).dataSize < 2 ^ 64 := by
    decide
  obtain ⟨positive, small, nonempty, fits⟩ := sizes
  have stuck : (ofSingleFile none 3 2 1).Stuck 3 1 ⟨⟨0, 0, 0, 0⟩, ⟨0, 0, 0⟩⟩ :=
    (stuck_iff_end positive small nonempty (by decide) (by norm_num) fits).mpr (by decide)
  refine ⟨SingleFileFits.justInitialised (by decide +kernel), positive, ?_⟩
  have delivered : (ofSingleFile none 3 2 1).pieceInTurn (fun _ _ => .good) threeBytes 3
      ⟨⟨0, 0, 0, 0⟩, ⟨0, 0, 0⟩⟩ 0 = .ok (some [3]) := by
    decide
  exact stuck.not_readEnds positive (by norm_num) (fun _ => ⟨[3], delivered⟩)

-----------------------------------------------------------------------------------------
-- Calls that return
-----------------------------------------------------------------------------------------

/-- A range whose read can be made: nothing is asked for; or there are pieces, the buffer of the
offset's piece can be allocated and is not left by the file loop, and if the files can deliver that
piece, the range starts inside it, with fewer bytes of it to copy than an `int` can count.
-/
def RangeReturns (td : TorrentData) (disk : Disk) (offset length : Nat) (stack : Stack) : Prop :=
  let pieceInfo := td.readInfo offset stack
  length = 0
  ∨ 0 < td.pieceSize
    ∧ pieceInfo.pieceSize + 1 < 2 ^ 63
    ∧ (∀ outcomes,
        ∃ taken,
          readPiece outcomes disk pieceInfo.pieceOffset pieceInfo.pieceSize 0 td.files []
          = .ok taken)
    ∧ (td.PieceReadable disk offset stack
      → 0 ≤ wrap32 (u64Sub offset pieceInfo.pieceOffset : Nat)
        ∧ td.readStart offset stack < pieceInfo.pieceSize
        ∧ min (pieceInfo.pieceSize - td.readStart offset stack) length < 2 ^ 31)

/-- A copy of so few bytes fits, and copies something. -/
theorem copyFits_of_lt (inside : start < pieceSize) (size_lt : pieceSize + 1 < 2 ^ 63)
    (small : min (pieceSize - start) left < 2 ^ 31)
    : CopyFits pieceSize start left := by
  rw [CopyFits, copyCount_of_le (by omega) (by omega) (by omega)]
  omega

/-- From any turn on the loop of such a range returns. Induction on the bytes still to be copied. -/
theorem RangeReturns.readLoop (returns : td.RangeReturns disk offset length stack)
    (length_lt : length < 2 ^ 64) (left : Nat)
    (within : length - read.length ≤ left)
    : ∃ steps result, td.readLoop io disk offset length stack steps turn read = .ok result := by
  induction left generalizing turn read with
  | zero => exact ⟨1, _, by rw [readLoop_succ, if_pos (by omega)]⟩
  | succ left ih =>
      by_cases done : length ≤ read.length
      · exact ⟨1, _, by rw [readLoop_succ, if_pos done]⟩
      have unread := Nat.lt_of_not_le done
      obtain ⟨positive, size_lt, taken, moves⟩ := returns.resolve_left (by omega)
      obtain ⟨delivered, pieceRead⟩ := taken (io turn)
      cases delivered with
      | none =>
          have turned : td.readTurn io disk offset length stack turn read = .ok none := by
            rw [readTurn, if_neg (by omega)]
            dsimp only
            rw [if_neg (by omega), pieceInTurn, pieceRead, bind_of_ok rfl]
          exact ⟨1, _, by rw [readLoop_succ, if_neg done, bind_of_ok turned]⟩
      | some piece =>
          obtain ⟨nonneg, inside, small⟩ := moves ⟨io turn, piece, pieceRead⟩
          have fits : CopyFits (td.readInfo offset stack).pieceSize (td.readStart offset stack)
              (length - read.length) :=
            copyFits_of_lt inside size_lt (by omega)
          obtain ⟨next, turned⟩
              : ∃ next,
                  td.readTurn io disk offset length stack turn read = .ok (some next) :=
            ⟨_, (readTurn_eq_some_iff positive unread length_lt).mpr
              ⟨size_lt, nonneg, fits, piece, pieceRead, rfl⟩⟩
          have grown := readTurn_length positive unread length_lt turned
          have counted := (Moves.mk inside (by omega)).copyCount_pos size_lt
            (Nat.sub_pos_of_lt unread) (Nat.sub_le length read.length)
          obtain ⟨steps, result, ran⟩ := @ih (turn + 1) next (by omega)
          refine ⟨steps + 1, result, ?_⟩
          rw [readLoop_succ, if_neg done, bind_of_ok turned]
          exact ran

/-- A range read returns, whatever the file operations answer, exactly when it can be made. -/
theorem readData_returns_iff (length_lt : length < 2 ^ 64)
    : (∀ io, ∃ steps result, td.readData io disk offset length stack steps = .ok result)
      ↔ td.RangeReturns disk offset length stack := by
  constructor
  · intro returns
    by_cases nothing : length = 0
    · exact .inl nothing
    have unread : ([] : Bytes).length < length := Nat.pos_of_ne_zero nothing
    -- what the first turn of a call does that returns
    have first (io : Nat → Nat → ReadOutcome)
        : ∃ taken, td.readTurn io disk offset length stack 0 [] = .ok taken := by
      obtain ⟨steps, result, ran⟩ := returns io
      cases steps with
      | zero => cases ran
      | succ steps =>
          rw [readData, readLoop_succ, if_neg (Nat.not_le.mpr unread)] at ran
          obtain ⟨taken, turned, _⟩ := bind_eq_ok.mp ran
          exact ⟨taken, turned⟩
    have positive : 0 < td.pieceSize := by
      obtain ⟨taken, turned⟩ := first fun _ _ => .good
      by_contra zero
      rw [readTurn, if_pos (by omega)] at turned
      cases turned
    have size_lt : (td.readInfo offset stack).pieceSize + 1 < 2 ^ 63 := by
      obtain ⟨taken, turned⟩ := first fun _ _ => .good
      by_contra large
      rw [readTurn, if_neg (by omega)] at turned
      dsimp only at turned
      rw [if_pos (by omega)] at turned
      cases turned
    have turned (outcomes : Nat → ReadOutcome)
        : ∃ taken, td.pieceInTurn (fun _ => outcomes) disk offset stack 0 = .ok taken := by
      obtain ⟨taken, turned⟩ := first fun _ => outcomes
      rw [readTurn, if_neg (by omega)] at turned
      dsimp only at turned
      rw [if_neg (by omega)] at turned
      obtain ⟨delivered, pieceRead, _⟩ := bind_eq_ok.mp turned
      exact ⟨delivered, pieceRead⟩
    refine .inr ⟨positive, size_lt, turned, ?_⟩
    rintro ⟨outcomes, piece, pieceRead⟩
    obtain ⟨taken, copied⟩ := first fun _ => outcomes
    obtain ⟨next, rfl⟩ : ∃ next, taken = some next := by
      cases taken with
      | some next => exact ⟨next, rfl⟩
      | none =>
          rw [readTurn, if_neg (by omega)] at copied
          dsimp only at copied
          rw [if_neg (by omega), pieceInTurn, pieceRead, bind_of_ok rfl] at copied
          dsimp only at copied
          split at copied <;> cases copied
    obtain ⟨_, nonneg, fits, _⟩ := (readTurn_eq_some_iff positive unread length_lt).mp copied
    have moving : ¬ td.Stuck offset length stack := by
      intro stuck
      obtain ⟨steps, result, ran⟩ := returns fun _ => outcomes
      refine stuck.not_readEnds positive length_lt (fun _ => ⟨piece, pieceRead⟩) ⟨steps, ?_⟩
      rw [ran]
      simp
    have moves := Moves.of_not_standsStill (fun still => moving ⟨size_lt, nonneg, still⟩) unread
      size_lt readStart_lt length_lt fits
    refine ⟨nonneg, moves.inside, ?_⟩
    obtain ⟨inside, few⟩ := moves
    by_contra negative
    have huge
        : 2 ^ 63
          ≤ copyCount (td.readInfo offset stack).pieceSize (td.readStart offset stack) length :=
      copyCount_ge_of_negative (by omega) (by omega) (by omega)
    unfold CopyFits at fits
    simp only [List.length_nil, Nat.sub_zero] at fits
    omega
  · intro returns io
    exact returns.readLoop length_lt length (Nat.sub_le length _)

end TorrentData

end UvgTorrent

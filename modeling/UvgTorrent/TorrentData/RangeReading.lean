import UvgTorrent.TorrentData.ChunkWriting

/-! `torrent_data_read_data`: a range of the data, read piece by piece from the files. The outcome
of every file operation is an argument, and so is the number of turns that the loop may take.
-/

namespace UvgTorrent

open Foundations

/-- What the system answers to the operations on one file: the `fopen` with `"rb"`, the `fseek`,
and how many bytes `fread` delivers at most (`none`: all of them).
-/
structure ReadOutcome where
  opens : Bool
  seeks : Bool
  delivers : Option Nat
  deriving DecidableEq, Repr

/-- Every operation on the file succeeds. -/
def ReadOutcome.good : ReadOutcome := { opens := true, seeks := true, delivers := none }

/-- The body of the file loop for a file that overlaps the piece; `none` when it throws. A failed
`fseek` is not noticed and leaves the stream at its start.
-/
def readFile (outcome : ReadOutcome) (disk : Disk) (pieceBegin pieceSize pieceDataRead : Nat)
    (file : TorrentDataFileInfo)
    : Except Fault (Option Bytes) :=
  let relativeOffset := u64Sub (u64 (pieceBegin + pieceDataRead)) file.fileOffset
  let bytesToRead :=
    wrap32 (min (u64Sub file.fileSize relativeOffset) (u64Sub pieceSize pieceDataRead) : Nat)
  match disk file.filePath with
  | none => .ok none
  | some content =>
      if outcome.opens then
        let position := if outcome.seeks ∧ relativeOffset < 2 ^ 63 then relativeOffset else 0
        let count := u64OfInt bytesToRead
        let bytes := slice content position (min (outcome.delivers.getD count) count)
        if pieceSize + 1 < pieceDataRead + bytes.length then .error .pieceBounds
        else if bytes.length ≠ count then .ok none
        else .ok (some bytes)
      else .ok none

/-- The file loop of `torrent_data_read_data`, from the file at `index` on: the bytes of the
piece, or `none` when it throws. Files are tested with both ends included.
-/
def readPiece (io : Nat → ReadOutcome) (disk : Disk) (pieceBegin pieceSize : Nat)
    : Nat → List TorrentDataFileInfo → Bytes → Except Fault (Option Bytes)
  | _, [], read => if read.length = pieceSize then .ok (some read) else .ok none
  | index, file :: rest, read =>
      if read.length = pieceSize then .ok (some read)
      else if pieceBegin ≤ u64 (file.fileOffset + file.fileSize)
          ∧ file.fileOffset ≤ u64 (pieceBegin + pieceSize) then
        (readFile (io index) disk pieceBegin pieceSize read.length file).bind fun
          | none => .ok none
          | some bytes => readPiece io disk pieceBegin pieceSize (index + 1) rest (read ++ bytes)
      else readPiece io disk pieceBegin pieceSize (index + 1) rest read

namespace TorrentData

/-- The `struct PieceInfo` of an offset. -/
def readInfo (td : TorrentData) (offset : Nat) (stack : Stack) : PieceInfo :=
  (td.getPieceInfo (wrap32 (offset / td.pieceSize : Nat)) stack.pieceInfo).2

/-- The loop of `torrent_data_read_data`, with the bytes it has copied. The offset is not moved on,
so every turn reads the same piece. `io` gives the file operations of each turn.
-/
def readLoop (td : TorrentData) (io : Nat → Nat → ReadOutcome) (disk : Disk)
    (offset length : Nat) (stack : Stack)
    : Nat → Nat → Bytes → Except Fault (Exit × Bytes)
  | 0, _, _ => .error .endlessLoop
  | steps + 1, turn, read =>
      if length ≤ read.length then .ok (.success, read)
      else if td.pieceSize = 0 then .error .divisionByZero
      else
        let pieceInfo := td.readInfo offset stack
        if 2 ^ 63 ≤ pieceInfo.pieceSize + 1 then .error .nullPointer
        else
          (readPiece (io turn) disk pieceInfo.pieceOffset pieceInfo.pieceSize 0 td.files []).bind
            fun
            | none => .ok (.failure, read)
            | some piece =>
                let relativeOffset := wrap32 (u64Sub offset pieceInfo.pieceOffset : Nat)
                let bytesToRead := wrap32
                  (min (u64Sub pieceInfo.pieceSize (u64OfInt relativeOffset))
                    (u64Sub length read.length) : Nat)
                let count := u64OfInt bytesToRead
                if relativeOffset < 0
                    ∨ (pieceInfo.pieceSize + 1 : Int) < relativeOffset + count then
                  .error .pieceBounds
                else
                  readLoop td io disk offset length stack steps (turn + 1)
                    (read ++ slice (piece ++ [0]) relativeOffset.toNat count)

/-- `torrent_data_read_data`, with the bytes it has copied to the buffer. -/
def readData (td : TorrentData) (io : Nat → Nat → ReadOutcome) (disk : Disk)
    (offset length : Nat) (stack : Stack) (steps : Nat)
    : Except Fault (Exit × Bytes) :=
  td.readLoop io disk offset length stack steps 0 []

-----------------------------------------------------------------------------------------
-- The bytes that a call copies
-----------------------------------------------------------------------------------------

/-- Where in its piece a range starts to be copied. -/
def readStart (td : TorrentData) (offset : Nat) (stack : Stack) : Nat :=
  (wrap32 (u64Sub offset (td.readInfo offset stack).pieceOffset : Nat)).toNat

/-- How many bytes one turn of the loop copies, the last turn apart. -/
def readStride (td : TorrentData) (offset : Nat) (stack : Stack) : Nat :=
  (td.readInfo offset stack).pieceSize - td.readStart offset stack

/-- The piece of an offset as the files give it in one turn of the loop. -/
def pieceInTurn (td : TorrentData) (io : Nat → Nat → ReadOutcome) (disk : Disk) (offset : Nat)
    (stack : Stack) (turn : Nat)
    : Except Fault (Option Bytes) :=
  let pieceInfo := td.readInfo offset stack
  readPiece (io turn) disk pieceInfo.pieceOffset pieceInfo.pieceSize 0 td.files []

end TorrentData

/-- Reading a file can only leave the piece buffer. -/
theorem readFile_faults {outcome : ReadOutcome} {disk : Disk}
    {pieceBegin pieceSize pieceDataRead : Nat} {file : TorrentDataFileInfo}
    : FaultsOnly (· = .pieceBounds)
        (readFile outcome disk pieceBegin pieceSize pieceDataRead file) := by
  rw [readFile]
  dsimp only
  cases disk file.filePath with
  | none => exact .ok _
  | some content =>
      dsimp only
      generalize (if outcome.seeks ∧ u64Sub (u64 (pieceBegin + pieceDataRead)) file.fileOffset
        < 2 ^ 63 then u64Sub (u64 (pieceBegin + pieceDataRead)) file.fileOffset else 0) = position
      split_ifs
      · exact .error rfl
      · exact .ok _
      · exact .ok _
      · exact .ok _

theorem readPiece_faults {io : Nat → ReadOutcome} {disk : Disk} {pieceBegin pieceSize index : Nat}
    {files : List TorrentDataFileInfo} {read : Bytes}
    : FaultsOnly (· = .pieceBounds)
        (readPiece io disk pieceBegin pieceSize index files read) := by
  induction files generalizing index read with
  | nil =>
      rw [readPiece]
      split
      · exact .ok _
      · exact .ok _
  | cons file rest ih =>
      rw [readPiece]
      split
      · exact .ok _
      · split
        · refine .bind readFile_faults fun taken => ?_
          cases taken with
          | none => exact .ok _
          | some bytes => exact ih
        · exact ih

theorem readPiece_length {io : Nat → ReadOutcome} {disk : Disk} {pieceBegin pieceSize : Nat}
    {files : List TorrentDataFileInfo} {index : Nat} {read piece : Bytes}
    (returned : readPiece io disk pieceBegin pieceSize index files read = .ok (some piece))
    : piece.length = pieceSize := by
  induction files generalizing index read with
  | nil =>
      unfold readPiece at returned
      split at returned
      · rename_i whole
        cases returned
        exact whole
      · cases returned
  | cons file rest ih =>
      unfold readPiece at returned
      split at returned
      · rename_i whole
        cases returned
        exact whole
      · split at returned
        · obtain ⟨bytes, _, returned⟩ := bind_eq_ok.mp returned
          cases bytes with
          | none => cases returned
          | some bytes => exact ih returned
        · exact ih returned

namespace TorrentData

variable {td : TorrentData} {io : Nat → Nat → ReadOutcome} {disk : Disk} {offset length : Nat}
  {stack : Stack} {steps turn : Nat} {read out : Bytes} {exit : Exit}

/-- The bytes of one turn, once the copy is known to stay in the piece buffer. -/
theorem copied_count {size start left : Nat} (size_lt : size + 1 < 2 ^ 63)
    (start_lt : start < 2 ^ 31) (left_pos : 0 < left) (left_lt : left < 2 ^ 32)
    (inside
      : start + u64OfInt (wrap32 (min (u64Sub size start) left : Nat)) ≤ size + 1)
    : start ≤ size ∧ u64OfInt (wrap32 (min (u64Sub size start) left : Nat))
        = min (size - start) left := by
  have below : start ≤ size := by
    by_contra past
    have all : min (u64Sub size start) left = left := by
      unfold u64Sub
      omega
    rw [all] at inside
    rcases Nat.lt_or_ge left (2 ^ 31) with small | large
    · rw [wrap32_natCast small, u64OfInt_natCast (by omega)] at inside
      omega
    · have huge := le_u64OfInt_wrap32 (x := left) (by omega) (by omega)
      omega
  refine ⟨below, ?_⟩
  rw [u64Sub_of_le below (by omega)] at inside ⊢
  generalize min_eq : min (size - start) left = count at inside ⊢
  rcases Nat.lt_or_ge count (2 ^ 31) with small | large
  · rw [wrap32_natCast small, u64OfInt_natCast (by omega)]
  · have huge := le_u64OfInt_wrap32 (x := count) (by omega) (by omega)
    omega

/-- One turn of a loop that returns: the files fail, or the piece is copied from its start on as
far as it goes.
-/
theorem readLoop_turn (unread : read.length < length) (length_lt : length < 2 ^ 32)
    (run : td.readLoop io disk offset length stack (steps + 1) turn read = .ok (exit, out))
    : td.pieceInTurn io disk offset stack turn = .ok none ∧ exit = .failure ∧ out = read
      ∨ ∃ piece,
          td.pieceInTurn io disk offset stack turn = .ok (some piece)
          ∧ piece.length = td.readStart offset stack + td.readStride offset stack
          ∧ td.readLoop io disk offset length stack steps (turn + 1)
              (read
                ++ slice piece (td.readStart offset stack)
                    (min (td.readStride offset stack) (length - read.length)))
            = .ok (exit, out) := by
  simp only [readLoop] at run
  rw [if_neg (Nat.not_le.mpr unread)] at run
  split at run
  · cases run
  · split at run
    · cases run
    · rename_i allocated
      obtain ⟨taken, pieceRead, run⟩ := bind_eq_ok.mp run
      cases taken with
      | none =>
          cases run
          exact .inl ⟨pieceRead, rfl, rfl⟩
      | some piece =>
          have sized := readPiece_length pieceRead
          dsimp only at run
          split at run
          · cases run
          · rename_i inside
            simp only [not_or, Int.not_lt] at inside
            obtain ⟨nonneg, inside⟩ := inside
            obtain ⟨start, relative⟩ := Int.eq_ofNat_of_zero_le nonneg
            have start_lt : start < 2 ^ 31 := by
              have bound : wrap32 (u64Sub offset (td.readInfo offset stack).pieceOffset : Nat)
                  < 2 ^ 31 := by
                unfold wrap32
                omega
              omega
            have startEq : td.readStart offset stack = start := by
              rw [readStart, relative, Int.toNat_natCast]
            rw [relative, u64OfInt_natCast (by omega),
              u64Sub_of_le (Nat.le_of_lt unread) (by omega)] at inside run
            obtain ⟨below, count⟩ := copied_count (Nat.lt_of_not_le allocated) start_lt
              (Nat.sub_pos_of_lt unread) (by omega) (by exact_mod_cast inside)
            refine .inr ⟨piece, pieceRead, ?_, ?_⟩
            · rw [sized, readStride, startEq]
              omega
            · have padded : slice (piece ++ [0]) start
                    (min ((td.readInfo offset stack).pieceSize - start) (length - read.length))
                  = slice piece start
                    (min ((td.readInfo offset stack).pieceSize - start) (length - read.length)) := by
                rw [slice, slice, List.drop_append_of_le_length (by omega),
                  List.take_append_of_le_length (by rw [List.length_drop]; omega)]
              rw [count, Int.toNat_natCast, padded] at run
              rw [readStride, startEq]
              exact run

/-- The byte that the call copies for index `i` of a range is the wanted one: turn after turn, the
piece of the offset is copied from the same place on.
-/
def Serves (td : TorrentData) (io : Nat → Nat → ReadOutcome) (disk : Disk) (offset : Nat)
    (stack : Stack) (wanted : Option UInt8) (i : Nat)
    : Prop :=
  ∃ piece,
    td.pieceInTurn io disk offset stack (i / td.readStride offset stack) = .ok (some piece)
    ∧ piece[td.readStart offset stack + i % td.readStride offset stack]? = wanted

/-- Inside one turn, the served byte is that of the turn's piece. -/
theorem serves_iff {piece : Bytes} {wanted : Option UInt8} {i : Nat}
    (pieceRead : td.pieceInTurn io disk offset stack turn = .ok (some piece))
    (after : turn * td.readStride offset stack ≤ i)
    (before : i < turn * td.readStride offset stack + td.readStride offset stack)
    : td.Serves io disk offset stack wanted i
      ↔ piece[td.readStart offset stack + (i - turn * td.readStride offset stack)]? = wanted := by
  have quotient : i / td.readStride offset stack = turn := by
    apply Nat.div_eq_of_lt_le after
    rw [Nat.add_mul, Nat.one_mul]
    exact before
  have remainder : i % td.readStride offset stack = i - turn * td.readStride offset stack := by
    rw [Nat.mod_eq_sub_mul_div, quotient, Nat.mul_comm]
  simp [Serves, quotient, remainder, pieceRead]

/-- A turn that fails, or that copies nothing, does not serve the next byte. -/
theorem not_serves_of_failed {wanted : Option UInt8} (present : wanted ≠ none)
    (failed
      : td.pieceInTurn io disk offset stack turn = .ok none ∨ td.readStride offset stack = 0)
    : ¬ td.Serves io disk offset stack wanted (turn * td.readStride offset stack) := by
  rintro ⟨piece, pieceRead, byte⟩
  rcases Nat.eq_zero_or_pos (td.readStride offset stack) with none | positive
  · have sized := readPiece_length pieceRead
    rw [List.getElem?_eq_none (by rw [readStride] at none; omega)] at byte
    exact present byte.symm
  · rw [Nat.mul_div_cancel _ positive] at pieceRead
    rcases failed with failed | none
    · rw [failed] at pieceRead
      cases pieceRead
    · omega

/-- A loop that returns has copied exactly the wanted bytes, without a failure, if and only if it
had copied wanted bytes so far and serves the rest. Witness: induction on the turns.
-/
theorem readLoop_copies_iff {wanted : Nat → Option UInt8}
    (present : ∀ i < length, wanted i ≠ none) (length_lt : length < 2 ^ 32)
    (aligned : read.length = turn * td.readStride offset stack ∨ length ≤ read.length)
    (run : td.readLoop io disk offset length stack steps turn read = .ok (exit, out))
    : (exit = .success ∧ ∀ i < length, out[i]? = wanted i)
      ↔ (∀ i < length, i < read.length → read[i]? = wanted i)
        ∧ ∀ i < length, read.length ≤ i → td.Serves io disk offset stack (wanted i) i := by
  induction steps generalizing turn read with
  | zero => cases run
  | succ steps ih =>
      by_cases done : length ≤ read.length
      · rw [readLoop, if_pos done] at run
        cases run
        refine ⟨fun copied => ⟨fun i inRange _ => copied.2 i inRange, ?_⟩,
          fun copied => ⟨rfl, fun i inRange => copied.1 i inRange (by omega)⟩⟩
        intro i inRange past
        omega
      · have unread := Nat.lt_of_not_le done
        have lengthEq := aligned.resolve_right done
        rcases readLoop_turn unread length_lt run with ⟨failed, rfl, _⟩
            | ⟨piece, pieceRead, sized, later⟩
        · refine iff_of_false (fun copied => by cases copied.1) (fun copied => ?_)
          have served := copied.2 read.length unread (Nat.le_refl _)
          rw [lengthEq] at served
          exact not_serves_of_failed (by rw [← lengthEq]; exact present _ unread) (.inl failed)
            served
        · generalize countEq : min (td.readStride offset stack) (length - read.length) = count
            at later
          have copiedLength : (slice piece (td.readStart offset stack) count).length = count :=
            slice_length_of_le (by omega)
          have nextAligned
              : (read ++ slice piece (td.readStart offset stack) count).length
                  = (turn + 1) * td.readStride offset stack
                ∨ length ≤ (read ++ slice piece (td.readStart offset stack) count).length := by
            rw [List.length_append, copiedLength, Nat.add_mul, Nat.one_mul]
            omega
          rw [ih nextAligned later]
          simp only [List.length_append, copiedLength]
          have servedHere : ∀ i < length, read.length ≤ i → i < read.length + count
              → ((read ++ slice piece (td.readStart offset stack) count)[i]? = wanted i
                  ↔ td.Serves io disk offset stack (wanted i) i) := by
            intro i _ past before
            rw [serves_iff pieceRead (by omega) (by omega), ← lengthEq,
              List.getElem?_append_right past, slice_getElem?, if_pos (by omega)]
          constructor
          · rintro ⟨soFar, rest⟩
            constructor
            · intro i inRange before
              rw [← soFar i inRange (by omega), List.getElem?_append_left before]
            · intro i inRange past
              by_cases now : i < read.length + count
              · exact (servedHere i inRange past now).mp (soFar i inRange now)
              · exact rest i inRange (by omega)
          · rintro ⟨soFar, rest⟩
            constructor
            · intro i inRange before
              by_cases earlier : i < read.length
              · rw [List.getElem?_append_left earlier]
                exact soFar i inRange earlier
              · exact (servedHere i inRange (by omega) before).mpr (rest i inRange (by omega))
            · intro i inRange past
              exact rest i inRange (by omega)

/-- A call that returns has copied exactly the wanted bytes if and only if it serves them. -/
theorem readData_copies_iff {wanted : Nat → Option UInt8}
    (present : ∀ i < length, wanted i ≠ none) (length_lt : length < 2 ^ 32)
    (run : td.readData io disk offset length stack steps = .ok (exit, out))
    : (exit = .success ∧ ∀ i < length, out[i]? = wanted i)
      ↔ ∀ i < length, td.Serves io disk offset stack (wanted i) i := by
  have aligned : ([] : Bytes).length = 0 * td.readStride offset stack := (Nat.zero_mul _).symm
  rw [readLoop_copies_iff present length_lt (.inl aligned) run]
  simp

/-- A call copies at most the length it was asked for, and all of it when it succeeds. -/
theorem readLoop_length (atMost : read.length ≤ length) (length_lt : length < 2 ^ 32)
    (run : td.readLoop io disk offset length stack steps turn read = .ok (exit, out))
    : out.length ≤ length ∧ (exit = .success → out.length = length) := by
  induction steps generalizing turn read with
  | zero => cases run
  | succ steps ih =>
      by_cases done : length ≤ read.length
      · rw [readLoop, if_pos done] at run
        cases run
        exact ⟨atMost, fun _ => Nat.le_antisymm atMost done⟩
      · rcases readLoop_turn (Nat.lt_of_not_le done) length_lt run with ⟨_, rfl, rfl⟩
            | ⟨piece, _, sized, later⟩
        · exact ⟨atMost, fun succeeded => by cases succeeded⟩
        · refine ih ?_ later
          rw [List.length_append, slice_length]
          omega

end TorrentData

end UvgTorrent

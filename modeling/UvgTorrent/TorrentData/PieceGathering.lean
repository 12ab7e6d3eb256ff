import UvgTorrent.TorrentData.PieceFiles
import UvgTorrent.TorrentData.RangeReading

/-! What the file loop of `torrent_data_read_data` gets from the files when every file operation
succeeds: a piece exactly when all its bytes are stored and the files it works on are on disk.
-/

namespace UvgTorrent

open Foundations

variable {files others : List TorrentDataFileInfo} {disk : Disk} {pieceBegin pieceSize : Nat}

/-- Every file that the loops over a piece work on is on disk. -/
def TouchedExist (pieceBegin pieceSize : Nat) (files : List TorrentDataFileInfo) (disk : Disk)
    : Prop :=
  ∀ file ∈ files, Touches pieceBegin pieceSize file → disk file.filePath ≠ none

/-- The gather loop looks at nothing but the layout of the files. -/
theorem readPiece_of_layout {io : Nat → ReadOutcome} {index : Nat} {read : Bytes}
    (same : others.map TorrentDataFileInfo.layout = files.map TorrentDataFileInfo.layout)
    : readPiece io disk pieceBegin pieceSize index others read
      = readPiece io disk pieceBegin pieceSize index files read := by
  induction files generalizing others index read with
  | nil =>
      cases others with
      | nil => rfl
      | cons other more => simp at same
  | cons file rest ih =>
      cases others with
      | nil => simp at same
      | cons other more =>
          simp only [List.map_cons, List.cons.injEq, TorrentDataFileInfo.layout,
            Prod.mk.injEq] at same
          obtain ⟨⟨path, offset, size⟩, later⟩ := same
          simp only [readPiece, readFile, path, offset, size, ih later]

-----------------------------------------------------------------------------------------
-- One file
-----------------------------------------------------------------------------------------

/-- A file that the loop works on delivers its share of the piece, or the loop fails. -/
theorem readFile_good {read : Nat} {file : TorrentDataFileInfo}
    (readSoFar : read = file.fileOffset - pieceBegin) (touches : Touches pieceBegin pieceSize file)
    (small : pieceSize < 2 ^ 31) (pieceFits : pieceBegin + pieceSize < 2 ^ 64)
    (seekable : file.fileSize < 2 ^ 63)
    : readFile .good disk pieceBegin pieceSize read file
      = .ok
          ((disk file.filePath).bind fun content =>
            let share := slice content (shareOffset pieceBegin file.fileOffset)
              (shareLength pieceBegin pieceSize file.fileOffset file.fileSize)
            if share.length = shareLength pieceBegin pieceSize file.fileOffset file.fileSize then
              some share
            else none) := by
  obtain ⟨reaches, unfinished⟩ := id touches
  have inFile := touches.shareOffset_le
  have relative : u64Sub (u64 (pieceBegin + read)) file.fileOffset
      = shareOffset pieceBegin file.fileOffset := by
    rw [u64_of_lt (by omega), u64Sub_of_le (by omega) (by omega), shareOffset]
    omega
  have toRead : min (u64Sub file.fileSize (shareOffset pieceBegin file.fileOffset))
      (u64Sub pieceSize read)
      = shareLength pieceBegin pieceSize file.fileOffset file.fileSize := by
    rw [u64Sub_of_le inFile (by omega), u64Sub_of_le (by omega) (by omega), shareLength]
    congr 2
    omega
  have bound : shareLength pieceBegin pieceSize file.fileOffset file.fileSize
      ≤ pieceSize - read := by
    unfold shareLength
    omega
  have seek : shareOffset pieceBegin file.fileOffset < 2 ^ 63 := by omega
  simp only [readFile, relative, toRead,
    wrap32_natCast (Nat.lt_of_le_of_lt bound (by omega)),
    u64OfInt_natCast (Nat.lt_of_le_of_lt bound (by omega))]
  cases disk file.filePath with
  | none => rfl
  | some content =>
      simp only [ReadOutcome.good, seek, and_self, if_true, Option.getD_none, Nat.min_self,
        Option.bind_some]
      generalize shareEq : slice content (shareOffset pieceBegin file.fileOffset)
        (shareLength pieceBegin pieceSize file.fileOffset file.fileSize) = share
      have sized : share.length
          ≤ shareLength pieceBegin pieceSize file.fileOffset file.fileSize := by
        rw [← shareEq, slice_length]
        exact Nat.min_le_left ..
      rw [if_neg (by omega)]
      by_cases whole : share.length
          = shareLength pieceBegin pieceSize file.fileOffset file.fileSize
      · rw [if_neg (not_not.mpr whole), if_pos whole]
      · rw [if_pos whole, if_neg whole]

/-- A file stores its bytes of a piece exactly when it delivers the share of the piece. -/
theorem share_stored_iff {bytes content : Bytes} {file : TorrentDataFileInfo}
    (touches : Touches pieceBegin pieceSize file)
    : (∀ index < pieceSize,
        file.fileOffset ≤ pieceBegin + index
        → pieceBegin + index < file.fileOffset + file.fileSize
        → content[pieceBegin + index - file.fileOffset]? = bytes[index]?)
      ↔ slice content (shareOffset pieceBegin file.fileOffset)
          (shareLength pieceBegin pieceSize file.fileOffset file.fileSize)
        = fileShare bytes pieceBegin pieceSize file := by
  obtain ⟨reaches, unfinished⟩ := touches
  constructor
  · intro stored
    apply List.ext_getElem?
    intro index
    rw [fileShare, slice_getElem?, slice_getElem?]
    by_cases inShare : index < shareLength pieceBegin pieceSize file.fileOffset file.fileSize
    · rw [if_pos inShare, if_pos inShare]
      unfold shareLength shareOffset at inShare
      have byte := stored (file.fileOffset - pieceBegin + index) (by omega) (by omega) (by omega)
      rw [← byte]
      congr 1
      unfold shareOffset
      omega
    · rw [if_neg inShare, if_neg inShare]
  · intro share index inPiece begins ends
    have byte :=
      congrArg (fun bytes : Bytes => bytes[index - (file.fileOffset - pieceBegin)]?) share
    have inShare : index - (file.fileOffset - pieceBegin)
        < shareLength pieceBegin pieceSize file.fileOffset file.fileSize := by
      unfold shareLength shareOffset
      omega
    simp only [fileShare, slice_getElem?, if_pos inShare] at byte
    rw [show file.fileOffset - pieceBegin + (index - (file.fileOffset - pieceBegin)) = index by
      omega] at byte
    rw [← byte]
    congr 1
    unfold shareOffset
    omega

/-- The bytes read so far and a share behind them are the start of the piece. -/
theorem taken_append_iff {bytes read share : Bytes} {file : TorrentDataFileInfo}
    (readSoFar : read.length = file.fileOffset - pieceBegin)
    (full : share.length = shareLength pieceBegin pieceSize file.fileOffset file.fileSize)
    (sized : bytes.length = pieceSize) (touches : Touches pieceBegin pieceSize file)
    : bytes.take (read ++ share).length = read ++ share
      ↔ bytes.take read.length = read ∧ share = fileShare bytes pieceBegin pieceSize file := by
  have inside : read.length ≤ bytes.length := by
    obtain ⟨_, unfinished⟩ := touches
    omega
  have split : bytes.take (read ++ share).length
      = bytes.take read.length ++ fileShare bytes pieceBegin pieceSize file := by
    rw [List.length_append, full, List.take_add, readSoFar, fileShare, slice]
  rw [split]
  constructor
  · intro same
    obtain ⟨taken, shares⟩ := List.append_inj same (by rw [List.length_take]; omega)
    exact ⟨taken, shares.symm⟩
  · rintro ⟨taken, rfl⟩
    rw [taken]

/-- The stored bytes of a list of files are those of its first file and those of the others. -/
theorem stored_cons_iff {bytes : Bytes} {file : TorrentDataFileInfo}
    {rest : List TorrentDataFileInfo}
    : (∀ index < pieceSize,
        file.fileOffset ≤ pieceBegin + index
        → storedByte (file :: rest) disk (pieceBegin + index) = bytes[index]?)
      ↔ (∀ index < pieceSize,
          file.fileOffset ≤ pieceBegin + index
          → pieceBegin + index < file.fileOffset + file.fileSize
          → (fileContent disk file)[pieceBegin + index - file.fileOffset]? = bytes[index]?)
        ∧ ∀ index < pieceSize,
            file.fileOffset + file.fileSize ≤ pieceBegin + index
            → storedByte rest disk (pieceBegin + index) = bytes[index]? := by
  constructor
  · intro stored
    refine ⟨fun index inPiece begins ends => ?_, fun index inPiece behind => ?_⟩
    · rw [← stored index inPiece begins, storedByte, if_pos ⟨begins, ends⟩]
    · rw [← stored index inPiece (by omega), storedByte, if_neg (by omega)]
  · rintro ⟨own, later⟩ index inPiece begins
    rw [storedByte]
    by_cases ends : pieceBegin + index < file.fileOffset + file.fileSize
    · rw [if_pos ⟨begins, ends⟩, own index inPiece begins ends]
    · rw [if_neg (fun both => ends both.2), later index inPiece (Nat.le_of_not_lt ends)]

-----------------------------------------------------------------------------------------
-- The loop over the files
-----------------------------------------------------------------------------------------

/-- The loop delivers exactly the stored bytes, when the files it works on are on disk. Induction on
the files that are left: the bytes read so far are those of the piece before them.
-/
theorem readPiece_eq_some_iff {start index : Nat} {read bytes : Bytes}
    (laid : LaidOut start files) (filesFit : start + totalSize files < 2 ^ 64)
    (seekable : ∀ file ∈ files, file.fileSize < 2 ^ 63) (small : pieceSize < 2 ^ 31)
    (pieceFits : pieceBegin + pieceSize < 2 ^ 64)
    (covered : pieceBegin + pieceSize ≤ start + totalSize files)
    (readLength : read.length = min pieceSize (start - pieceBegin))
    : readPiece (fun _ => .good) disk pieceBegin pieceSize index files read = .ok (some bytes)
      ↔ bytes.length = pieceSize
        ∧ bytes.take read.length = read
        ∧ TouchedExist pieceBegin pieceSize files disk
        ∧ ∀ index < pieceSize,
            start ≤ pieceBegin + index
            → storedByte files disk (pieceBegin + index) = bytes[index]? := by
  induction files generalizing start index read with
  | nil =>
      simp only [totalSize, List.map_nil, List.sum_nil, Nat.add_zero] at covered
      rw [readPiece, if_pos (by omega), Except.ok.injEq, Option.some.injEq]
      constructor
      · rintro rfl
        exact ⟨by omega, List.take_length, fun file member => (by cases member),
          fun index inPiece late => by omega⟩
      · rintro ⟨sized, taken, _⟩
        rw [← taken, List.take_of_length_le (by omega)]
  | cons file rest ih =>
      obtain ⟨atStart, laidRest⟩ := id laid
      have total : totalSize (file :: rest) = file.fileSize + totalSize rest := by
        simp [totalSize]
      rw [total] at filesFit covered
      have later := @ih (start + file.fileSize) (index + 1)
      unfold readPiece
      by_cases finished : read.length = pieceSize
      · -- the piece ended before this file
        rw [if_pos finished, Except.ok.injEq, Option.some.injEq]
        constructor
        · rintro rfl
          refine ⟨finished, List.take_length, fun other member touches => ?_,
            fun index inPiece late => by omega⟩
          have behind := laid.start_le member
          obtain ⟨_, unfinished⟩ := touches
          omega
        · rintro ⟨sized, taken, _⟩
          rw [← taken, List.take_of_length_le (by omega)]
      rw [if_neg finished, u64_of_lt (by omega), u64_of_lt (by omega), ← atStart, stored_cons_iff]
      by_cases reaches : pieceBegin ≤ file.fileOffset + file.fileSize
      · have touches : Touches pieceBegin pieceSize file := ⟨reaches, by omega⟩
        have existCons : TouchedExist pieceBegin pieceSize (file :: rest) disk
            ↔ disk file.filePath ≠ none ∧ TouchedExist pieceBegin pieceSize rest disk := by
          simp [TouchedExist, touches]
        rw [if_pos ⟨reaches, by omega⟩, readFile_good (by omega) touches small pieceFits
          (seekable file (by simp)), existCons]
        cases found : disk file.filePath with
        | none => simp [Except.bind]
        | some content =>
            have ownContent : fileContent disk file = content := by
              rw [fileContent, found, Option.getD_some]
            have advanced : min pieceSize (file.fileOffset - pieceBegin)
                + shareLength pieceBegin pieceSize file.fileOffset file.fileSize
                = min pieceSize (file.fileOffset + file.fileSize - pieceBegin) := by
              unfold shareLength shareOffset
              omega
            rw [ownContent, share_stored_iff touches, Option.bind_some]
            generalize slice content (shareOffset pieceBegin file.fileOffset)
              (shareLength pieceBegin pieceSize file.fileOffset file.fileSize) = share
            by_cases full : share.length
                = shareLength pieceBegin pieceSize file.fileOffset file.fileSize
            · simp only [full, if_true, Except.bind]
              have readOn : (read ++ share).length
                  = min pieceSize (start + file.fileSize - pieceBegin) := by
                rw [List.length_append, full]
                omega
              rw [later laidRest (by omega) (fun other member => seekable other (by simp [member]))
                (by omega) readOn, ← atStart]
              refine and_congr_right fun sized => ?_
              rw [taken_append_iff (by omega) full sized touches]
              constructor
              · rintro ⟨⟨taken, shares⟩, exist, stored⟩
                exact ⟨taken, ⟨Option.some_ne_none _, exist⟩, shares, stored⟩
              · rintro ⟨taken, ⟨_, exist⟩, shares, stored⟩
                exact ⟨⟨taken, shares⟩, exist, stored⟩
            · simp only [full, if_false, Except.bind]
              constructor
              · intro failed
                cases failed
              · rintro ⟨sized, _, _, share, _⟩
                exact absurd (by rw [share, fileShare_length (by omega) touches]) full
      · -- the file ends before the piece begins
        have existCons : TouchedExist pieceBegin pieceSize (file :: rest) disk
            ↔ TouchedExist pieceBegin pieceSize rest disk := by
          simp [TouchedExist, Touches, reaches]
        rw [if_neg (fun both => reaches both.1), existCons,
          later laidRest (by omega) (fun other member => seekable other (by simp [member]))
            (by omega) (by omega), ← atStart]
        refine and_congr_right fun sized => and_congr_right fun taken => and_congr_right fun _ => ?_
        exact ⟨fun stored => ⟨fun index inPiece begins ends => by omega, stored⟩,
          fun stored => stored.2⟩

end UvgTorrent

import UvgTorrent.TorrentData.ChunkWriting

/-! What the file loop of `torrent_data_write_chunk` does to the files.
The files are read as one virtual byte string; a piece whose writes all succeed appears at
its range there and disturbs no other stored byte.
-/

namespace UvgTorrent

open Foundations

/-- The part of a file node that no operation changes. -/
def TorrentDataFileInfo.layout (file : TorrentDataFileInfo) : CString × Nat × Nat :=
  (file.filePath, file.fileOffset, file.fileSize)

/-- The files are laid end to end from an offset on, as `torrent_data_add_file` does. -/
def LaidOut : Nat → List TorrentDataFileInfo → Prop
  | _, [] => True
  | start, file :: rest => file.fileOffset = start ∧ LaidOut (start + file.fileSize) rest

def totalSize (files : List TorrentDataFileInfo) : Nat :=
  (files.map TorrentDataFileInfo.fileSize).sum

theorem totalSize_append (files : List TorrentDataFileInfo) (file : TorrentDataFileInfo)
    : totalSize (files ++ [file]) = totalSize files + file.fileSize := by
  simp [totalSize]

/-- A file that starts where the others end extends the layout. -/
theorem LaidOut.append {start : Nat} {files : List TorrentDataFileInfo}
    {file : TorrentDataFileInfo} (laid : LaidOut start files)
    (next : file.fileOffset = start + totalSize files)
    : LaidOut start (files ++ [file]) := by
  induction files generalizing start with
  | nil => exact ⟨by simpa [totalSize] using next, trivial⟩
  | cons first rest ih =>
      refine ⟨laid.1, ih laid.2 ?_⟩
      rw [next]
      simp [totalSize, Nat.add_assoc]

/-- No file of a layout starts before it. -/
theorem LaidOut.start_le {start : Nat} {files : List TorrentDataFileInfo}
    {file : TorrentDataFileInfo} (laid : LaidOut start files) (member : file ∈ files)
    : start ≤ file.fileOffset := by
  induction files generalizing start with
  | nil => cases member
  | cons first rest ih =>
      rcases List.mem_cons.mp member with rfl | later
      · exact Nat.le_of_eq laid.1.symm
      · have bound := ih laid.2 later
        omega

/-- No file of a layout ends behind it. -/
theorem LaidOut.end_le {start : Nat} {files : List TorrentDataFileInfo}
    {file : TorrentDataFileInfo} (laid : LaidOut start files) (member : file ∈ files)
    : file.fileOffset + file.fileSize ≤ start + totalSize files := by
  induction files generalizing start with
  | nil => cases member
  | cons first rest ih =>
      have total : totalSize (first :: rest) = first.fileSize + totalSize rest := by
        simp [totalSize]
      rcases List.mem_cons.mp member with rfl | later
      · have begins := laid.1
        omega
      · have bound := ih laid.2 later
        omega

/-- The bytes that a file has on disk; a file that was never created has none. -/
def fileContent (disk : Disk) (file : TorrentDataFileInfo) : Bytes :=
  (disk file.filePath).getD []

/-- The byte at a position of the virtual concatenation of the files, if it is stored. -/
def storedByte : List TorrentDataFileInfo → Disk → Nat → Option UInt8
  | [], _, _ => none
  | file :: rest, disk, position =>
      if file.fileOffset ≤ position ∧ position < file.fileOffset + file.fileSize then
        (fileContent disk file)[position - file.fileOffset]?
      else storedByte rest disk position

/-- The files hold the bytes from a position of the virtual concatenation on. -/
def StoredAt (files : List TorrentDataFileInfo) (disk : Disk) (position : Nat)
    (bytes : Bytes)
    : Prop :=
  ∀ index < bytes.length, storedByte files disk (position + index) = bytes[index]?

/-- No file on disk is longer than its entry in the file list. -/
def WithinSizes (files : List TorrentDataFileInfo) (disk : Disk) : Prop :=
  ∀ file ∈ files, (fileContent disk file).length ≤ file.fileSize

theorem Disk.write_of_ne (disk : Disk) {path target : CString} (apart : path ≠ target)
    (position : Nat) (bytes : Bytes)
    : disk.write target position bytes path = disk path :=
  Function.update_of_ne apart _ _

theorem storedByte_of_layout {files others : List TorrentDataFileInfo} (disk : Disk)
    (same : files.map TorrentDataFileInfo.layout = others.map TorrentDataFileInfo.layout)
    (position : Nat)
    : storedByte files disk position = storedByte others disk position := by
  induction files generalizing others with
  | nil =>
      cases others with
      | nil => rfl
      | cons other more => simp at same
  | cons file rest ih =>
      cases others with
      | nil => simp at same
      | cons other more =>
          simp only [List.map_cons, List.cons.injEq, TorrentDataFileInfo.layout,
            Prod.mk.injEq] at same
          obtain ⟨⟨path, offset, size⟩, later⟩ := same
          simp only [storedByte, fileContent, path, offset, size, ih later]

/-- A byte inside the files laid end to end is a byte of one of them, whatever the disk. -/
theorem storedByte_owner {files : List TorrentDataFileInfo} {start position : Nat}
    (laid : LaidOut start files) (late : start ≤ position)
    (early : position < start + totalSize files)
    : ∃ file ∈ files,
        file.fileOffset ≤ position
        ∧ position < file.fileOffset + file.fileSize
        ∧ ∀ disk,
            storedByte files disk position
            = (fileContent disk file)[position - file.fileOffset]? := by
  induction files generalizing start with
  | nil =>
      simp only [totalSize, List.map_nil, List.sum_nil] at early
      omega
  | cons file rest ih =>
      obtain ⟨atStart, laidRest⟩ := laid
      have total : totalSize (file :: rest) = file.fileSize + totalSize rest := by
        simp [totalSize]
      by_cases own : file.fileOffset ≤ position ∧ position < file.fileOffset + file.fileSize
      · refine ⟨file, by simp, own.1, own.2, fun disk => ?_⟩
        rw [storedByte, if_pos own]
      · obtain ⟨owner, member, begins, ends, bytes⟩ :=
          ih laidRest (by omega) (by omega)
        refine ⟨owner, by simp [member], begins, ends, fun disk => ?_⟩
        rw [storedByte, if_neg own, bytes disk]

/-- What holds of every file's byte at a position holds of the stored byte there. -/
theorem storedByte_related {related : Option UInt8 → Option UInt8 → Prop}
    {files : List TorrentDataFileInfo} {disk other : Disk} {position : Nat}
    (absent : related none none)
    (each
      : ∀ file ∈ files,
          file.fileOffset ≤ position
          → position < file.fileOffset + file.fileSize
          → related (fileContent disk file)[position - file.fileOffset]?
              (fileContent other file)[position - file.fileOffset]?)
    : related (storedByte files disk position) (storedByte files other position) := by
  induction files with
  | nil => exact absent
  | cons file rest ih =>
      simp only [storedByte]
      by_cases own : file.fileOffset ≤ position ∧ position < file.fileOffset + file.fileSize
      · rw [if_pos own, if_pos own]
        exact each file (by simp) own.1 own.2
      · rw [if_neg own, if_neg own]
        exact ih (fun later member => each later (by simp [member]))

-----------------------------------------------------------------------------------------
-- One file
-----------------------------------------------------------------------------------------

/-- Opening a file changes no content: a file that is created is empty before and after. -/
theorem openForWriting_good (file : TorrentDataFileInfo) (disk : Disk)
    : ∃ position next,
        openForWriting .good file disk = .ok (some position, next)
        ∧ (∀ path, path ≠ file.filePath → next path = disk path)
        ∧ fileContent next file = fileContent disk file := by
  unfold openForWriting
  cases stream : file.fp with
  | some position => exact ⟨position, disk, rfl, fun _ _ => rfl, rfl⟩
  | none =>
      cases content : disk file.filePath with
      | some bytes => exact ⟨0, disk, rfl, fun _ _ => rfl, rfl⟩
      | none =>
          refine ⟨0, Function.update disk file.filePath (some []), rfl, ?_, ?_⟩
          · intro path apart
            exact Function.update_of_ne apart _ _
          · simp [fileContent, content]

/-- The part of a piece that falls into a file: where it starts in the file and how long it
is.
-/
def shareOffset (pieceBegin fileBegin : Nat) : Nat := max pieceBegin fileBegin - fileBegin

def shareLength (pieceBegin pieceSize fileBegin fileSize : Nat) : Nat :=
  min (fileSize - shareOffset pieceBegin fileBegin)
    (pieceSize - (max pieceBegin fileBegin - pieceBegin))

/-- The loops over a piece work on a file that the piece neither ends before nor begins behind. -/
def Touches (pieceBegin pieceSize : Nat) (file : TorrentDataFileInfo) : Prop :=
  pieceBegin ≤ file.fileOffset + file.fileSize ∧ file.fileOffset - pieceBegin < pieceSize

instance (pieceBegin pieceSize : Nat) (file : TorrentDataFileInfo)
    : Decidable (Touches pieceBegin pieceSize file) :=
  inferInstanceAs (Decidable (_ ∧ _))

def fileShare (piece : Bytes) (pieceBegin pieceSize : Nat) (file : TorrentDataFileInfo) : Bytes :=
  slice piece (file.fileOffset - pieceBegin)
    (shareLength pieceBegin pieceSize file.fileOffset file.fileSize)

/-- What a file holds after the piece is written: a file that the loop works on exists then and
holds its share.
-/
def contentAfter (piece : Bytes) (pieceBegin pieceSize : Nat) (disk : Disk)
    (file : TorrentDataFileInfo)
    : Option Bytes :=
  if Touches pieceBegin pieceSize file then
    some
      (writeAt (fileContent disk file) (shareOffset pieceBegin file.fileOffset)
        (fileShare piece pieceBegin pieceSize file))
  else disk file.filePath

theorem Touches.shareOffset_le {pieceBegin pieceSize : Nat} {file : TorrentDataFileInfo}
    (touches : Touches pieceBegin pieceSize file)
    : shareOffset pieceBegin file.fileOffset ≤ file.fileSize := by
  obtain ⟨reaches, _⟩ := touches
  unfold shareOffset
  omega

theorem fileShare_length {piece : Bytes} {pieceBegin pieceSize : Nat} {file : TorrentDataFileInfo}
    (whole : pieceSize ≤ piece.length) (touches : Touches pieceBegin pieceSize file)
    : (fileShare piece pieceBegin pieceSize file).length
      = shareLength pieceBegin pieceSize file.fileOffset file.fileSize := by
  obtain ⟨reaches, unfinished⟩ := touches
  apply slice_length_of_le
  unfold shareLength shareOffset
  omega

/-- Each byte of a file after the piece is written: that of the piece in the range of the piece,
the old one elsewhere, and a zero in a gap that the share would leave before it.
-/
theorem contentAfter_getElem? {piece : Bytes} {pieceBegin pieceSize : Nat}
    (whole : pieceSize ≤ piece.length) (disk : Disk) (file : TorrentDataFileInfo) (index : Nat)
    : ((contentAfter piece pieceBegin pieceSize disk file).getD [])[index]?
      = if index < file.fileSize
            ∧ pieceBegin ≤ file.fileOffset + index
            ∧ file.fileOffset + index < pieceBegin + pieceSize then
          piece[file.fileOffset + index - pieceBegin]?
        else if index < (fileContent disk file).length then (fileContent disk file)[index]?
        else if Touches pieceBegin pieceSize file
            ∧ fileShare piece pieceBegin pieceSize file ≠ []
            ∧ index < shareOffset pieceBegin file.fileOffset then
          some 0
        else none := by
  by_cases touches : Touches pieceBegin pieceSize file
  · have sized := fileShare_length whole touches
    have bound := touches.shareOffset_le
    rw [contentAfter, if_pos touches, Option.getD_some]
    by_cases empty : fileShare piece pieceBegin pieceSize file = []
    · rw [empty, List.length_nil] at sized
      have outside : ¬ (index < file.fileSize
          ∧ pieceBegin ≤ file.fileOffset + index
          ∧ file.fileOffset + index < pieceBegin + pieceSize) := by
        unfold shareLength shareOffset at sized
        omega
      have noGap : ¬ (Touches pieceBegin pieceSize file
          ∧ fileShare piece pieceBegin pieceSize file ≠ []
          ∧ index < shareOffset pieceBegin file.fileOffset) :=
        fun gap => gap.2.1 empty
      rw [if_neg outside, if_neg noGap, empty, writeAt, if_pos rfl]
      by_cases old : index < (fileContent disk file).length
      · rw [if_pos old]
      · rw [if_neg old, List.getElem?_eq_none (Nat.le_of_not_lt old)]
    · rw [writeAt_getElem? empty, sized]
      obtain ⟨reaches, unfinished⟩ := touches
      by_cases inPiece : index < file.fileSize
          ∧ pieceBegin ≤ file.fileOffset + index
          ∧ file.fileOffset + index < pieceBegin + pieceSize
      · have inShare : shareOffset pieceBegin file.fileOffset ≤ index
            ∧ index - shareOffset pieceBegin file.fileOffset
              < shareLength pieceBegin pieceSize file.fileOffset file.fileSize := by
          unfold shareLength shareOffset
          omega
        rw [if_pos inPiece, if_pos (by omega), fileShare, slice_getElem?, if_pos inShare.2]
        congr 1
        unfold shareOffset at inShare ⊢
        omega
      · have notInShare : ¬ (shareOffset pieceBegin file.fileOffset ≤ index
            ∧ index < shareOffset pieceBegin file.fileOffset
              + shareLength pieceBegin pieceSize file.fileOffset file.fileSize) := by
          unfold shareLength shareOffset
          omega
        rw [if_neg inPiece, if_neg notInShare]
        simp only [empty, ne_eq, not_false_eq_true, true_and]
        simp only [show Touches pieceBegin pieceSize file from ⟨reaches, unfinished⟩, true_and]
  · have outside : ¬ (index < file.fileSize
        ∧ pieceBegin ≤ file.fileOffset + index
        ∧ file.fileOffset + index < pieceBegin + pieceSize) := by
      unfold Touches at touches
      omega
    have noGap : ¬ (Touches pieceBegin pieceSize file
        ∧ fileShare piece pieceBegin pieceSize file ≠ []
        ∧ index < shareOffset pieceBegin file.fileOffset) :=
      fun gap => touches gap.1
    rw [contentAfter, if_neg touches, if_neg outside, if_neg noGap, ← fileContent]
    by_cases old : index < (fileContent disk file).length
    · rw [if_pos old]
    · rw [if_neg old, List.getElem?_eq_none (Nat.le_of_not_lt old)]

/-- A file that the loop works on takes exactly its share of the piece. -/
theorem writeFile_good {piece : Bytes} {pieceBegin pieceSize dataWritten : Nat}
    {file : TorrentDataFileInfo} (disk : Disk)
    (written : dataWritten = file.fileOffset - pieceBegin)
    (touches : Touches pieceBegin pieceSize file)
    (small : pieceSize < 2 ^ 31) (whole : pieceSize ≤ piece.length)
    (pieceFits : pieceBegin + pieceSize < 2 ^ 63)
    (fileFits : file.fileOffset + file.fileSize < 2 ^ 64)
    : ∃ here,
        writeFile .good piece pieceBegin pieceSize dataWritten file disk = .ok here
        ∧ here.thrown = false
        ∧ here.dataWritten
          = dataWritten + shareLength pieceBegin pieceSize file.fileOffset file.fileSize
        ∧ (∀ path, path ≠ file.filePath → here.disk path = disk path)
        ∧ here.disk file.filePath = contentAfter piece pieceBegin pieceSize disk file := by
  obtain ⟨reaches, unfinished⟩ := id touches
  obtain ⟨position, next, opened, others, content⟩ := openForWriting_good file disk
  have relative : u64Sub (u64 (pieceBegin + dataWritten)) file.fileOffset
      = shareOffset pieceBegin file.fileOffset := by
    rw [u64_of_lt (by omega), u64Sub_of_le (by omega) (by omega), shareOffset]
    omega
  have count : min (u64Sub file.fileSize (shareOffset pieceBegin file.fileOffset))
      (u64Sub pieceSize dataWritten)
      = shareLength pieceBegin pieceSize file.fileOffset file.fileSize := by
    rw [u64Sub_of_le touches.shareOffset_le (by omega), u64Sub_of_le (by omega) (by omega),
      shareLength]
    congr 2
    omega
  have bound : shareLength pieceBegin pieceSize file.fileOffset file.fileSize
      ≤ pieceSize - dataWritten := by
    unfold shareLength
    omega
  have seek : shareOffset pieceBegin file.fileOffset < 2 ^ 63 := by
    unfold shareOffset
    omega
  have share : slice piece dataWritten
      (shareLength pieceBegin pieceSize file.fileOffset file.fileSize)
      = fileShare piece pieceBegin pieceSize file := by
    rw [written, fileShare]
  have flushed : (fileShare piece pieceBegin pieceSize file).take
      (shareLength pieceBegin pieceSize file.fileOffset file.fileSize)
      = fileShare piece pieceBegin pieceSize file := by
    rw [← fileShare_length whole touches, List.take_length]
  have inside : ¬ piece.length
      < dataWritten + shareLength pieceBegin pieceSize file.fileOffset file.fileSize := by
    omega
  simp only [writeFile, relative, count, opened, Except.bind]
  simp only [FileOutcome.good, seek, and_self, if_true,
    wrap32_natCast (Nat.lt_of_le_of_lt bound (by omega)),
    u64OfInt_natCast (Nat.lt_of_le_of_lt bound (by omega)), inside, if_false,
    Option.getD_none, Nat.min_self, share, fileShare_length whole touches, flushed, ne_eq,
    not_true_eq_false]
  refine ⟨_, rfl, rfl, u64_of_lt (by omega), ?_, ?_⟩
  · intro path apart
    exact (Disk.write_of_ne next apart _ _).trans (others path apart)
  · rw [contentAfter, if_pos touches, ← content]
    exact Function.update_self ..

/-- A new file takes the data that the piece begins with. -/
theorem writeFile_new {data rest : Bytes} {path : CString} {disk : Disk}
    (small : data.length < 2 ^ 31) (absent : disk path = none)
    : ∃ reached,
        writeFile .good (data ++ rest) 0 data.length 0
            { fp := none, filePath := path, fileOffset := 0, fileSize := data.length } disk
          = .ok
            {
              file :=
                {
                  fp := some data.length
                  filePath := path
                  fileOffset := 0
                  fileSize := data.length
                }
              disk := Function.update disk path (some data)
              dataWritten := data.length
              thrown := false
              accepted := data
              reached
            } := by
  have start : u64Sub (u64 (0 + 0)) 0 = 0 := rfl
  have whole : u64Sub data.length 0 = data.length := u64Sub_of_le (Nat.zero_le _) (by omega)
  have inside : ¬ (data ++ rest).length < data.length := by simp
  have taken : slice (data ++ rest) 0 data.length = data := by simp [slice]
  have placed : writeAt [] 0 data = data := by
    unfold writeAt
    split
    · rename_i empty
      exact empty.symm
    · simp [overwrite]
  have seek : (0 : Nat) < 2 ^ 63 := by decide
  have fits : data.length < 2 ^ 64 := Nat.lt_trans small (by decide)
  simp only [writeFile, openForWriting, absent, FileOutcome.good, Except.bind, if_true, start,
    whole, Nat.min_self, wrap32_natCast small, u64OfInt_natCast fits, Nat.zero_add, inside,
    if_false, Option.getD_none, taken, List.take_length, ne_eq, not_true_eq_false, Disk.write,
    Function.update_self, Function.update_idem, Option.getD_some, placed, u64_of_lt fits, seek,
    and_self]
  exact ⟨_, rfl⟩

-----------------------------------------------------------------------------------------
-- The loop over the files
-----------------------------------------------------------------------------------------

/-- The loop over the only file, when that is new. -/
theorem writePiece_new {data rest : Bytes} {path : CString} {disk : Disk} (nonempty : data ≠ [])
    (small : data.length < 2 ^ 31) (absent : disk path = none)
    : ∃ reached,
        writePiece (fun _ => .good) (data ++ rest) 0 data.length 0
            [{ fp := none, filePath := path, fileOffset := 0, fileSize := data.length }] 0 disk
          = .ok
            {
              files :=
                [{
                  fp := some data.length
                  filePath := path
                  fileOffset := 0
                  fileSize := data.length
                }]
              disk := Function.update disk path (some data)
              dataWritten := data.length
              thrown := false
              accepted := data
              reached
            } := by
  have unfinished : ¬ 0 = data.length := fun empty =>
    nonempty (List.length_eq_zero_iff.mp empty.symm)
  obtain ⟨reached, wrote⟩ := @writeFile_new data rest path disk small absent
  refine ⟨reached, ?_⟩
  simp only [writePiece, unfinished, if_false, Nat.zero_le, and_self, if_true, wrote, Except.bind,
    Bool.false_eq_true, List.append_nil]

/-- A count that comes back from its `int` below `2 ^ 63` was not enlarged by it. -/
theorem narrowed_le {count : Nat} (small : u64OfInt (wrap32 count) < 2 ^ 63)
    : u64OfInt (wrap32 count) ≤ count := by
  unfold u64OfInt wrap32 at *
  omega

/-- Whatever the system answers, a file keeps its layout. -/
theorem writeFile_layout {outcome : FileOutcome} {piece : Bytes}
    {pieceBegin pieceSize dataWritten : Nat} {file : TorrentDataFileInfo} {disk : Disk}
    {here : FileWrite}
    (wrote : writeFile outcome piece pieceBegin pieceSize dataWritten file disk = .ok here)
    : here.file.layout = file.layout := by
  unfold writeFile at wrote
  obtain ⟨⟨stream, next⟩, opened, wrote⟩ := bind_eq_ok.mp wrote
  cases stream with
  | none =>
      obtain rfl := Except.ok.inj wrote
      rfl
  | some position =>
      dsimp only at wrote
      split at wrote
      · cases wrote
      · split at wrote
        · obtain rfl := Except.ok.inj wrote
          rfl
        · obtain rfl := Except.ok.inj wrote
          rfl

/-- Whatever the system answers, the file loop keeps the layout. -/
theorem writePiece_layout {io : Nat → FileOutcome} {piece : Bytes}
    {pieceBegin pieceSize index dataWritten : Nat} {files : List TorrentDataFileInfo}
    {disk : Disk} {loop : WriteLoop}
    (ran : writePiece io piece pieceBegin pieceSize index files dataWritten disk = .ok loop)
    : loop.files.map TorrentDataFileInfo.layout = files.map TorrentDataFileInfo.layout := by
  induction files generalizing index dataWritten disk loop with
  | nil =>
      obtain rfl := Except.ok.inj ran
      rfl
  | cons file rest ih =>
      unfold writePiece at ran
      split at ran
      · obtain rfl := Except.ok.inj ran
        rfl
      split at ran
      · obtain ⟨here, wrote, ran⟩ := bind_eq_ok.mp ran
        have sameLayout := writeFile_layout wrote
        split at ran
        · obtain rfl := Except.ok.inj ran
          simp [sameLayout]
        · obtain ⟨later, ranLater, same⟩ := bind_eq_ok.mp ran
          obtain rfl := Except.ok.inj same
          simp [sameLayout, ih ranLater]
      · obtain ⟨later, ranLater, same⟩ := bind_eq_ok.mp ran
        obtain rfl := Except.ok.inj same
        simp [ih ranLater]

/-- Whatever the system answers, a body that does not fail has written the bytes it counts, and one
that fails leaves a part of the piece unwritten.
-/
theorem writeFile_accepts {outcome : FileOutcome} {piece : Bytes}
    {pieceBegin pieceSize dataWritten : Nat} {file : TorrentDataFileInfo} {disk : Disk}
    {here : FileWrite} (small : piece.length < 2 ^ 63) (whole : pieceSize ≤ piece.length)
    (unfinished : dataWritten < pieceSize)
    (wrote : writeFile outcome piece pieceBegin pieceSize dataWritten file disk = .ok here)
    : (here.thrown = false
        → ∃ count,
            dataWritten + count ≤ pieceSize
            ∧ here.dataWritten = dataWritten + count
            ∧ here.accepted = slice piece dataWritten count)
      ∧ (here.thrown = true → dataWritten + here.accepted.length < pieceSize) := by
  unfold writeFile at wrote
  obtain ⟨⟨stream, next⟩, opened, wrote⟩ := bind_eq_ok.mp wrote
  cases stream with
  | none =>
      obtain rfl := Except.ok.inj wrote
      exact ⟨fun notThrown => Bool.noConfusion notThrown, fun _ => unfinished⟩
  | some position =>
      have rest : u64Sub pieceSize dataWritten = pieceSize - dataWritten :=
        u64Sub_of_le (Nat.le_of_lt unfinished) (by omega)
      rw [rest] at wrote
      generalize u64Sub file.fileSize
        (u64Sub (u64 (pieceBegin + dataWritten)) file.fileOffset) = room at wrote
      have bounded := @narrowed_le (min room (pieceSize - dataWritten))
      generalize u64OfInt (wrap32 (min room (pieceSize - dataWritten) : Nat)) = count
        at wrote bounded
      dsimp only at wrote
      split at wrote
      · cases wrote
      · rename_i inside
        have fits : dataWritten + count ≤ pieceSize := by
          have narrowed := bounded (by omega)
          omega
        split at wrote
        · rename_i short
          obtain rfl := Except.ok.inj wrote
          refine ⟨fun notThrown => Bool.noConfusion notThrown, fun _ => ?_⟩
          rw [slice_length] at short
          rw [slice_length]
          omega
        · rename_i taken
          obtain rfl := Except.ok.inj wrote
          refine ⟨fun _ => ⟨count, fits, u64_of_lt (by omega), ?_⟩,
            fun thrown => Bool.noConfusion thrown⟩
          exact slice_of_whole (not_not.mp taken)

/-- Whatever the system answers, a loop that does not fail has written the next bytes of the piece,
in order; one that fails leaves a part of it unwritten.
-/
theorem writePiece_accepts {io : Nat → FileOutcome} {piece : Bytes}
    {pieceBegin pieceSize index dataWritten : Nat} {files : List TorrentDataFileInfo}
    {disk : Disk} {loop : WriteLoop} (small : piece.length < 2 ^ 63)
    (whole : pieceSize ≤ piece.length) (begun : dataWritten ≤ pieceSize)
    (ran : writePiece io piece pieceBegin pieceSize index files dataWritten disk = .ok loop)
    : (loop.thrown = false
        → dataWritten ≤ loop.dataWritten
          ∧ loop.dataWritten ≤ pieceSize
          ∧ loop.accepted = slice piece dataWritten (loop.dataWritten - dataWritten))
      ∧ (loop.thrown = true → dataWritten + loop.accepted.length < pieceSize) := by
  induction files generalizing index dataWritten disk loop with
  | nil =>
      obtain rfl := Except.ok.inj ran
      exact ⟨fun _ => ⟨Nat.le_refl _, begun, by simp [slice]⟩,
        fun thrown => Bool.noConfusion thrown⟩
  | cons file rest ih =>
      unfold writePiece at ran
      split at ran
      · obtain rfl := Except.ok.inj ran
        exact ⟨fun _ => ⟨Nat.le_refl _, begun, by simp [slice]⟩,
          fun thrown => Bool.noConfusion thrown⟩
      rename_i unfinished
      split at ran
      · obtain ⟨here, wrote, ran⟩ := bind_eq_ok.mp ran
        obtain ⟨counted, cut⟩ :=
          writeFile_accepts small whole (Nat.lt_of_le_of_ne begun unfinished) wrote
        split at ran
        · rename_i thrown
          obtain rfl := Except.ok.inj ran
          exact ⟨fun notThrown => Bool.noConfusion notThrown,
            fun _ => cut thrown⟩
        · rename_i notThrown
          obtain ⟨count, inside, advanced, taken⟩ := counted (Bool.eq_false_iff.mpr notThrown)
          obtain ⟨later, ranLater, same⟩ := bind_eq_ok.mp ran
          obtain rfl := Except.ok.inj same
          obtain ⟨restAccepted, restCut⟩ := ih (by omega) ranLater
          have takenLength : here.accepted.length = count := by
            rw [taken]
            exact slice_length_of_le (by omega)
          refine ⟨fun laterNotThrown => ?_, fun thrown => ?_⟩
          · obtain ⟨grown, within, rest⟩ := restAccepted laterNotThrown
            refine ⟨by dsimp only; omega, within, ?_⟩
            have total : later.dataWritten - dataWritten
                = count + (later.dataWritten - here.dataWritten) := by
              omega
            dsimp only
            rw [taken, rest, total, advanced, slice, slice, slice, List.take_add,
              List.drop_drop]
          · have cutLater := restCut thrown
            rw [List.length_append]
            omega
      · obtain ⟨later, ranLater, same⟩ := bind_eq_ok.mp ran
        obtain rfl := Except.ok.inj same
        obtain ⟨restAccepted, restCut⟩ := ih begun ranLater
        exact ⟨restAccepted, restCut⟩

/-- What the loop over the other files leaves behind the first one is what the whole loop leaves. -/
theorem shares_cons {piece : Bytes} {pieceBegin pieceSize : Nat} {file : TorrentDataFileInfo}
    {rest : List TorrentDataFileInfo} {disk middle final : Disk}
    (distinct : ((file :: rest).map TorrentDataFileInfo.filePath).Nodup)
    (others : ∀ path, path ≠ file.filePath → middle path = disk path)
    (content : middle file.filePath = contentAfter piece pieceBegin pieceSize disk file)
    (untouched : ∀ path, path ∉ rest.map TorrentDataFileInfo.filePath → final path = middle path)
    (shares
      : ∀ other ∈ rest,
          final other.filePath = contentAfter piece pieceBegin pieceSize middle other)
    : (∀ path,
        path ∉ (file :: rest).map TorrentDataFileInfo.filePath → final path = disk path)
      ∧ ∀ other ∈ file :: rest,
          final other.filePath = contentAfter piece pieceBegin pieceSize disk other := by
  rw [List.map_cons, List.nodup_cons] at distinct
  refine ⟨fun path absent => ?_, fun other member => ?_⟩
  · simp only [List.map_cons, List.mem_cons, not_or] at absent
    exact (untouched path absent.2).trans (others path absent.1)
  · rcases List.mem_cons.mp member with rfl | inRest
    · exact (untouched _ distinct.1).trans content
    · have apart : other.filePath ≠ file.filePath := fun same =>
        distinct.1 (List.mem_map.mpr ⟨other, inRest, same⟩)
      have share := shares other inRest
      rwa [contentAfter, fileContent, others _ apart] at share

/-- The loop when every file operation succeeds: the whole piece is written, and each file that the
loop works on takes its share. Induction on the files that are left, where `dataWritten` is the part
of the piece before them.
-/
theorem writePiece_files {io : Nat → FileOutcome} (good : ∀ index, io index = .good)
    {piece : Bytes} {pieceBegin pieceSize : Nat}
    (small : pieceSize < 2 ^ 31) (whole : pieceSize ≤ piece.length)
    (pieceFits : pieceBegin + pieceSize < 2 ^ 63)
    {files : List TorrentDataFileInfo} {start : Nat} (laid : LaidOut start files)
    (distinct : (files.map TorrentDataFileInfo.filePath).Nodup)
    (filesFit : start + totalSize files < 2 ^ 64)
    (covered : pieceBegin + pieceSize ≤ start + totalSize files)
    {dataWritten : Nat} (written : dataWritten = min pieceSize (start - pieceBegin))
    (index : Nat) (disk : Disk)
    : ∃ loop,
        writePiece io piece pieceBegin pieceSize index files dataWritten disk = .ok loop
        ∧ loop.thrown = false
        ∧ loop.dataWritten = pieceSize
        ∧ (∀ path, path ∉ files.map TorrentDataFileInfo.filePath → loop.disk path = disk path)
        ∧ ∀ file ∈ files,
            loop.disk file.filePath = contentAfter piece pieceBegin pieceSize disk file := by
  induction files generalizing start dataWritten index disk with
  | nil =>
      simp only [totalSize, List.map_nil, List.sum_nil, Nat.add_zero] at covered
      refine ⟨_, rfl, rfl, ?_, fun _ _ => rfl, fun file member => by cases member⟩
      change dataWritten = pieceSize
      omega
  | cons file rest ih =>
      obtain ⟨atStart, laidRest⟩ := id laid
      have distinctRest := (List.nodup_cons.mp distinct).2
      have total : totalSize (file :: rest) = file.fileSize + totalSize rest := by
        simp [totalSize]
      rw [total] at filesFit covered
      unfold writePiece
      by_cases finished : dataWritten = pieceSize
      · -- the piece ended before this file
        rw [if_pos finished]
        refine ⟨_, rfl, rfl, finished, fun _ _ => rfl, fun later member => ?_⟩
        have behind := laid.start_le member
        rw [contentAfter, if_neg]
        unfold Touches
        omega
      rw [if_neg finished, u64_of_lt (by omega), u64_of_lt (by omega)]
      by_cases reaches : pieceBegin ≤ file.fileOffset + file.fileSize
      · have touches : Touches pieceBegin pieceSize file := ⟨reaches, by omega⟩
        rw [if_pos ⟨reaches, by omega⟩, good]
        obtain ⟨here, wrote, notThrown, count, others, content⟩ :=
          writeFile_good disk (show dataWritten = file.fileOffset - pieceBegin by omega)
            touches small whole pieceFits (by omega)
        have advanced : here.dataWritten
            = min pieceSize (start + file.fileSize - pieceBegin) := by
          rw [count]
          unfold shareLength shareOffset
          omega
        obtain ⟨loop, ran, loopNotThrown, loopWritten, untouched, shares⟩ :=
          ih laidRest distinctRest (by omega) (by omega) advanced (index + 1) here.disk
        refine ⟨{ loop with
            files := here.file :: loop.files, accepted := here.accepted ++ loop.accepted,
            reached := here.reached ++ loop.reached },
          ?_, loopNotThrown, loopWritten, shares_cons distinct others content untouched shares⟩
        simp [wrote, notThrown, ran, Except.bind]
      · -- the file ends before the piece begins
        rw [if_neg (fun both => reaches both.1)]
        obtain ⟨loop, ran, loopNotThrown, loopWritten, untouched, shares⟩ :=
          ih laidRest distinctRest (by omega) (by omega)
            (show dataWritten = min pieceSize (start + file.fileSize - pieceBegin) by omega)
            (index + 1) disk
        have apart
            : disk file.filePath = contentAfter piece pieceBegin pieceSize disk file := by
          rw [contentAfter, if_neg (fun touches => reaches touches.1)]
        refine ⟨{ loop with files := file :: loop.files }, ?_, loopNotThrown, loopWritten,
          shares_cons distinct (fun _ _ => rfl) apart untouched shares⟩
        simp [ran, Except.bind]

-----------------------------------------------------------------------------------------
-- The stored bytes
-----------------------------------------------------------------------------------------

section Shares

variable {piece : Bytes} {pieceBegin pieceSize : Nat} {files : List TorrentDataFileInfo}
  {disk after : Disk}

/-- Where every file has taken its share, the piece is stored at its range. -/
theorem storedByte_placed (whole : pieceSize ≤ piece.length)
    (shares
      : ∀ file ∈ files, after file.filePath = contentAfter piece pieceBegin pieceSize disk file)
    {start : Nat} (laid : LaidOut start files)
    (covered : pieceBegin + pieceSize ≤ start + totalSize files) {position : Nat}
    (late : start ≤ position) (inPiece : pieceBegin ≤ position)
    (early : position < pieceBegin + pieceSize)
    : storedByte files after position = piece[position - pieceBegin]? := by
  obtain ⟨file, member, begins, ends, bytes⟩ := storedByte_owner laid late (by omega)
  have place : file.fileOffset + (position - file.fileOffset) = position :=
    Nat.add_sub_cancel' begins
  rw [bytes, fileContent, shares file member, contentAfter_getElem? whole, place,
    if_pos ⟨by omega, inPiece, early⟩]

/-- Where every file has taken its share, a byte outside the range of the piece is as before, and
one that was missing is missing or the zero of a gap.
-/
theorem storedByte_kept (whole : pieceSize ≤ piece.length)
    (shares
      : ∀ file ∈ files, after file.filePath = contentAfter piece pieceBegin pieceSize disk file)
    {position : Nat} (outside : position < pieceBegin ∨ pieceBegin + pieceSize ≤ position)
    : (∀ byte,
        storedByte files disk position = some byte → storedByte files after position = some byte)
      ∧ (storedByte files disk position = none
        → storedByte files after position = none ∨ storedByte files after position = some 0) := by
  refine @storedByte_related
    (fun old new =>
      (∀ byte, old = some byte → new = some byte) ∧ (old = none → new = none ∨ new = some 0))
    files disk after position ⟨fun _ absent => absent, fun _ => .inl rfl⟩
    (fun file member begins ends => ?_)
  have notInPiece : ¬ (position - file.fileOffset < file.fileSize
      ∧ pieceBegin ≤ file.fileOffset + (position - file.fileOffset)
      ∧ file.fileOffset + (position - file.fileOffset) < pieceBegin + pieceSize) := by
    omega
  rw [show fileContent after file = (contentAfter piece pieceBegin pieceSize disk file).getD [] by
    rw [fileContent, shares file member], contentAfter_getElem? whole, if_neg notInPiece]
  constructor
  · intro byte old
    rw [if_pos (List.getElem?_eq_some_iff.mp old).1, old]
  · intro missing
    rw [if_neg (Nat.not_lt.mpr (List.getElem?_eq_none_iff.mp missing))]
    split
    · exact .inr rfl
    · exact .inl rfl

/-- A share never reaches past the size of its file. -/
theorem fileContent_past (whole : pieceSize ≤ piece.length) {file : TorrentDataFileInfo}
    (share : after file.filePath = contentAfter piece pieceBegin pieceSize disk file)
    {index : Nat} (past : file.fileSize ≤ index)
    : (fileContent after file)[index]? = (fileContent disk file)[index]? := by
  have notInPiece : ¬ (index < file.fileSize
      ∧ pieceBegin ≤ file.fileOffset + index
      ∧ file.fileOffset + index < pieceBegin + pieceSize) := by
    omega
  rw [show fileContent after file = (contentAfter piece pieceBegin pieceSize disk file).getD [] by
    rw [fileContent, share], contentAfter_getElem? whole, if_neg notInPiece]
  by_cases old : index < (fileContent disk file).length
  · rw [if_pos old]
  · rw [if_neg old, List.getElem?_eq_none (Nat.le_of_not_lt old), if_neg]
    rintro ⟨touches, _, gap⟩
    have bound := touches.shareOffset_le
    omega

theorem withinSizes_shares (whole : pieceSize ≤ piece.length)
    (shares
      : ∀ file ∈ files, after file.filePath = contentAfter piece pieceBegin pieceSize disk file)
    (within : WithinSizes files disk)
    : WithinSizes files after := by
  intro file member
  have unchanged := fileContent_past whole (shares file member) (Nat.le_refl _)
  rw [List.getElem?_eq_none (within file member)] at unchanged
  exact List.getElem?_eq_none_iff.mp unchanged

end Shares

/-- The loop when every file operation succeeds: the whole piece is written, each byte of it
is then stored at its position, and no byte outside it is lost.
-/
theorem writePiece_good {io : Nat → FileOutcome} (good : ∀ index, io index = .good)
    {piece : Bytes} {pieceBegin pieceSize : Nat}
    (small : pieceSize < 2 ^ 31) (whole : pieceSize ≤ piece.length)
    (pieceFits : pieceBegin + pieceSize < 2 ^ 63)
    {files : List TorrentDataFileInfo} {start : Nat} (laid : LaidOut start files)
    (distinct : (files.map TorrentDataFileInfo.filePath).Nodup)
    (filesFit : start + totalSize files < 2 ^ 64)
    (covered : pieceBegin + pieceSize ≤ start + totalSize files)
    {dataWritten : Nat} (written : dataWritten = min pieceSize (start - pieceBegin))
    (index : Nat) (disk : Disk)
    : ∃ loop,
        writePiece io piece pieceBegin pieceSize index files dataWritten disk = .ok loop
        ∧ loop.thrown = false
        ∧ loop.dataWritten = pieceSize
        ∧ loop.files.map TorrentDataFileInfo.layout = files.map TorrentDataFileInfo.layout
        ∧ (∀ path, path ∉ files.map TorrentDataFileInfo.filePath → loop.disk path = disk path)
        ∧ (∀ position,
            start ≤ position
            → pieceBegin ≤ position
            → position < pieceBegin + pieceSize
            → storedByte files loop.disk position = piece[position - pieceBegin]?)
        ∧ (∀ position byte,
            (position < pieceBegin ∨ pieceBegin + pieceSize ≤ position)
            → storedByte files disk position = some byte
            → storedByte files loop.disk position = some byte)
        ∧ (WithinSizes files disk → WithinSizes files loop.disk) := by
  obtain ⟨loop, ran, notThrown, complete, untouched, shares⟩ :=
    writePiece_files good small whole pieceFits laid distinct filesFit covered written index disk
  refine ⟨loop, ran, notThrown, complete, writePiece_layout ran, untouched, ?_, ?_,
    withinSizes_shares whole shares⟩
  · intro position late inPiece early
    exact storedByte_placed whole shares laid covered late inPiece early
  · intro position byte outside
    exact (storedByte_kept whole shares outside).1 byte

end UvgTorrent

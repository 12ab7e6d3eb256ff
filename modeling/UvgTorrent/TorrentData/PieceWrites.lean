import UvgTorrent.TorrentData.PieceFiles

/-! What comes to the disk when a piece is written. The loop counts the bytes that `fwrite` takes
into the buffer of a stream, and looks neither at its `fseek` nor at its `fflush`; where both
succeed the loop ends with all bytes counted exactly when every file has its share of the piece.
-/

namespace UvgTorrent

open Foundations

/-- The `fseek` succeeds, and the `fflush` brings all that `fwrite` took into the file. -/
def FileOutcome.Lands (outcome : FileOutcome) : Prop :=
  outcome.seeks = true ∧ outcome.flushes = none

theorem lands_of_good {io : Nat → FileOutcome} (good : ∀ index, io index = .good) (index : Nat)
    : (io index).Lands := by
  rw [good]
  exact ⟨rfl, rfl⟩

/-- The share of a file, as it comes to the disk. -/
def shareWrite (piece : Bytes) (pieceBegin pieceSize : Nat) (file : TorrentDataFileInfo)
    : DiskWrite :=
  {
    path := file.filePath
    position := shareOffset pieceBegin file.fileOffset
    bytes := fileShare piece pieceBegin pieceSize file
  }

/-- What comes to the disk, without the writes of no bytes. -/
def nonemptyWrites (reached : List DiskWrite) : List DiskWrite := reached.filter (·.bytes ≠ [])

def writtenLength (reached : List DiskWrite) : Nat := (reached.map (·.bytes.length)).sum

/-- Each file got its share of the piece at its place, in order, and the shares are the whole
piece.
-/
def WritesWhole (files : List TorrentDataFileInfo) (piece : Bytes) (pieceBegin pieceSize : Nat)
    (reached : List DiskWrite)
    : Prop :=
  nonemptyWrites reached = nonemptyWrites (files.map (shareWrite piece pieceBegin pieceSize))
  ∧ writtenLength reached = pieceSize

instance (files : List TorrentDataFileInfo) (piece : Bytes) (pieceBegin pieceSize : Nat)
    (reached : List DiskWrite)
    : Decidable (WritesWhole files piece pieceBegin pieceSize reached) :=
  inferInstanceAs (Decidable (_ ∧ _))

/-- The shares depend on the layout of the files only. -/
theorem shareWrites_of_layout {files others : List TorrentDataFileInfo}
    (same : files.map TorrentDataFileInfo.layout = others.map TorrentDataFileInfo.layout)
    (piece : Bytes) (pieceBegin pieceSize : Nat)
    : files.map (shareWrite piece pieceBegin pieceSize)
      = others.map (shareWrite piece pieceBegin pieceSize) := by
  have shares (files : List TorrentDataFileInfo)
      : files.map (shareWrite piece pieceBegin pieceSize)
        = (files.map TorrentDataFileInfo.layout).map fun (path, begins, size) =>
            shareWrite piece pieceBegin pieceSize
              { filePath := path, fileOffset := begins, fileSize := size, fp := none } := by
    rw [List.map_map]
    rfl
  rw [shares files, shares others, same]

/-- A file that the loop does not work on has no share. -/
theorem fileShare_eq_nil {piece : Bytes} {pieceBegin pieceSize : Nat} {file : TorrentDataFileInfo}
    (apart : ¬ Touches pieceBegin pieceSize file)
    : fileShare piece pieceBegin pieceSize file = [] := by
  have none : shareLength pieceBegin pieceSize file.fileOffset file.fileSize = 0 := by
    unfold Touches at apart
    unfold shareLength shareOffset
    omega
  rw [fileShare, none]
  exact List.take_zero

theorem nonemptyWrites_of_apart {piece : Bytes} {pieceBegin pieceSize : Nat}
    {files : List TorrentDataFileInfo}
    (apart : ∀ file ∈ files, ¬ Touches pieceBegin pieceSize file)
    : nonemptyWrites (files.map (shareWrite piece pieceBegin pieceSize)) = [] := by
  apply List.filter_eq_nil_iff.mpr
  intro write member
  obtain ⟨file, inFiles, rfl⟩ := List.mem_map.mp member
  simp [shareWrite, fileShare_eq_nil (apart file inFiles)]

theorem nonemptyWrites_append (first second : List DiskWrite)
    : nonemptyWrites (first ++ second) = nonemptyWrites first ++ nonemptyWrites second :=
  List.filter_append ..

theorem writtenLength_append (first second : List DiskWrite)
    : writtenLength (first ++ second) = writtenLength first + writtenLength second := by
  simp [writtenLength]

section Loop

variable {io : Nat → FileOutcome} {outcome : FileOutcome} {piece : Bytes}
  {pieceBegin pieceSize dataWritten start index : Nat} {file : TorrentDataFileInfo}
  {files : List TorrentDataFileInfo} {disk : Disk} {here : FileWrite} {loop : WriteLoop}

-----------------------------------------------------------------------------------------
-- How many bytes come to the disk
-----------------------------------------------------------------------------------------

/-- No more comes to the disk than `fwrite` took, and all of it when the flush succeeds. -/
theorem writeFile_reached
    (wrote : writeFile outcome piece pieceBegin pieceSize dataWritten file disk = .ok here)
    : writtenLength here.reached ≤ here.accepted.length
      ∧ (outcome.flushes = none → writtenLength here.reached = here.accepted.length) := by
  unfold writeFile at wrote
  obtain ⟨⟨stream, next⟩, opened, wrote⟩ := bind_eq_ok.mp wrote
  cases stream with
  | none =>
      obtain rfl := Except.ok.inj wrote
      exact ⟨Nat.le_refl 0, fun _ => rfl⟩
  | some position =>
      dsimp only at wrote
      split at wrote
      · cases wrote
      · split at wrote
        all_goals
          obtain rfl := Except.ok.inj wrote
          refine ⟨by simp [writtenLength], fun flushed => by simp [writtenLength, flushed]⟩

theorem writePiece_reached
    (ran : writePiece io piece pieceBegin pieceSize index files dataWritten disk = .ok loop)
    : writtenLength loop.reached ≤ loop.accepted.length
      ∧ ((∀ index, (io index).flushes = none)
        → writtenLength loop.reached = loop.accepted.length) := by
  induction files generalizing index dataWritten disk loop with
  | nil =>
      obtain rfl := Except.ok.inj ran
      exact ⟨Nat.le_refl 0, fun _ => rfl⟩
  | cons file rest ih =>
      unfold writePiece at ran
      split at ran
      · obtain rfl := Except.ok.inj ran
        exact ⟨Nat.le_refl 0, fun _ => rfl⟩
      split at ran
      · obtain ⟨here, wrote, ran⟩ := bind_eq_ok.mp ran
        obtain ⟨bound, whole⟩ := writeFile_reached wrote
        split at ran
        · obtain rfl := Except.ok.inj ran
          exact ⟨bound, fun flushed => whole (flushed index)⟩
        · obtain ⟨later, ranLater, same⟩ := bind_eq_ok.mp ran
          obtain rfl := Except.ok.inj same
          obtain ⟨boundLater, wholeLater⟩ := ih ranLater
          dsimp only
          rw [writtenLength_append, List.length_append]
          exact ⟨Nat.add_le_add bound boundLater,
            fun flushed => by rw [whole (flushed index), wholeLater flushed]⟩
      · obtain ⟨later, ranLater, same⟩ := bind_eq_ok.mp ran
        obtain rfl := Except.ok.inj same
        obtain ⟨boundLater, wholeLater⟩ := ih ranLater
        exact ⟨boundLater, wholeLater⟩

-----------------------------------------------------------------------------------------
-- The part of the piece before a file
-----------------------------------------------------------------------------------------

/-- The part of a piece that lies before an offset. -/
def pieceBefore (pieceBegin pieceSize offset : Nat) : Nat := min pieceSize (offset - pieceBegin)

/-- A count that is too large for its `int` loses at least `2 ^ 32`, or is made too large to be
written.
-/
theorem narrowed_cases {count : Nat} (small : u64OfInt (wrap32 count) < 2 ^ 63)
    : (u64OfInt (wrap32 count) = count ∧ count < 2 ^ 31)
      ∨ u64OfInt (wrap32 count) + 2 ^ 32 ≤ count := by
  unfold u64OfInt wrap32 at *
  omega

/-- What is left to write up to the end of a file, also where the loop is behind. -/
theorem writeFile_room (begun : dataWritten ≤ pieceBefore pieceBegin pieceSize file.fileOffset)
    (reaches : pieceBegin ≤ file.fileOffset + file.fileSize)
    (pieceFits : pieceBegin + pieceSize < 2 ^ 64)
    (fileFits : file.fileOffset + file.fileSize < 2 ^ 64)
    : min (u64Sub file.fileSize (u64Sub (u64 (pieceBegin + dataWritten)) file.fileOffset))
        (u64Sub pieceSize dataWritten)
      = pieceBefore pieceBegin pieceSize (file.fileOffset + file.fileSize) - dataWritten := by
  unfold pieceBefore at *
  have position : u64 (pieceBegin + dataWritten) = pieceBegin + dataWritten :=
    u64_of_lt (by omega)
  have rest : u64Sub pieceSize dataWritten = pieceSize - dataWritten :=
    u64Sub_of_le (by omega) (by omega)
  have room
      : u64Sub file.fileSize (u64Sub (pieceBegin + dataWritten) file.fileOffset)
        = file.fileOffset + file.fileSize - (pieceBegin + dataWritten) := by
    unfold u64Sub
    omega
  rw [position, rest, room]
  omega

/-- A body that does not fail comes to the end of the file, or it falls behind. -/
theorem writeFile_advances (begun : dataWritten ≤ pieceBefore pieceBegin pieceSize file.fileOffset)
    (reaches : pieceBegin ≤ file.fileOffset + file.fileSize) (small : piece.length < 2 ^ 63)
    (pieceFits : pieceBegin + pieceSize < 2 ^ 64)
    (fileFits : file.fileOffset + file.fileSize < 2 ^ 64)
    (wrote : writeFile outcome piece pieceBegin pieceSize dataWritten file disk = .ok here)
    (notThrown : here.thrown = false)
    : (here.dataWritten = pieceBefore pieceBegin pieceSize (file.fileOffset + file.fileSize)
        ∧ here.dataWritten - dataWritten < 2 ^ 31)
      ∨ here.dataWritten + 2 ^ 32
        ≤ pieceBefore pieceBegin pieceSize (file.fileOffset + file.fileSize) := by
  unfold writeFile at wrote
  obtain ⟨⟨stream, next⟩, opened, wrote⟩ := bind_eq_ok.mp wrote
  cases stream with
  | none =>
      obtain rfl := Except.ok.inj wrote
      cases notThrown
  | some position =>
      dsimp only at wrote
      rw [writeFile_room begun reaches pieceFits fileFits] at wrote
      have grown
          : dataWritten ≤ pieceBefore pieceBegin pieceSize (file.fileOffset + file.fileSize) := by
        unfold pieceBefore at *
        omega
      have cases := @narrowed_cases
        (pieceBefore pieceBegin pieceSize (file.fileOffset + file.fileSize) - dataWritten)
      have bound : pieceBefore pieceBegin pieceSize (file.fileOffset + file.fileSize) ≤ pieceSize :=
        Nat.min_le_left ..
      generalize pieceBefore pieceBegin pieceSize (file.fileOffset + file.fileSize) = goal at *
      generalize u64OfInt (wrap32 (goal - dataWritten : Nat)) = count at wrote cases
      split at wrote
      · cases wrote
      · split at wrote
        · obtain rfl := Except.ok.inj wrote
          cases notThrown
        · obtain rfl := Except.ok.inj wrote
          have counted : u64 (dataWritten + count) = dataWritten + count := u64_of_lt (by omega)
          dsimp only
          rw [counted]
          have cases := cases (by omega)
          omega

/-- A loop that is behind by what an `int` loses stays behind: it never counts the whole piece. -/
theorem writePiece_behind
    (behind : dataWritten + 2 ^ 32 ≤ pieceBefore pieceBegin pieceSize start)
    (small : piece.length < 2 ^ 63)
    (pieceFits : pieceBegin + pieceSize < 2 ^ 64) (laid : LaidOut start files)
    (filesFit : start + totalSize files < 2 ^ 64)
    (ran : writePiece io piece pieceBegin pieceSize index files dataWritten disk = .ok loop)
    (notThrown : loop.thrown = false)
    : loop.dataWritten + 2 ^ 32 ≤ pieceSize := by
  induction files generalizing start index dataWritten disk loop with
  | nil =>
      obtain rfl := Except.ok.inj ran
      exact behind.trans (Nat.min_le_left ..)
  | cons file rest ih =>
      obtain ⟨atStart, laidRest⟩ := laid
      have total : totalSize (file :: rest) = file.fileSize + totalSize rest := by
        simp [totalSize]
      rw [total] at filesFit
      have further : pieceBefore pieceBegin pieceSize start
          ≤ pieceBefore pieceBegin pieceSize (start + file.fileSize) := by
        unfold pieceBefore
        omega
      have fits : pieceBefore pieceBegin pieceSize start ≤ pieceSize := Nat.min_le_left ..
      unfold writePiece at ran
      rw [if_neg (by omega), u64_of_lt (by omega), u64_of_lt (by omega)] at ran
      split at ran
      · rename_i touches
        obtain ⟨here, wrote, ran⟩ := bind_eq_ok.mp ran
        split at ran
        · rename_i thrown
          obtain rfl := Except.ok.inj ran
          cases notThrown
        · rename_i hereNotThrown
          obtain ⟨later, ranLater, same⟩ := bind_eq_ok.mp ran
          obtain rfl := Except.ok.inj same
          have advances := writeFile_advances (by rw [atStart]; omega) touches.1 small
            pieceFits (by omega) wrote (Bool.eq_false_iff.mpr hereNotThrown)
          rw [atStart] at advances
          have stillBehind : here.dataWritten + 2 ^ 32
              ≤ pieceBefore pieceBegin pieceSize (start + file.fileSize) := by
            omega
          have bound := ih stillBehind laidRest (by omega) ranLater notThrown
          exact bound
      · obtain ⟨later, ranLater, same⟩ := bind_eq_ok.mp ran
        obtain rfl := Except.ok.inj same
        have bound := ih (behind.trans further) laidRest (by omega) ranLater notThrown
        exact bound

-----------------------------------------------------------------------------------------
-- Shares at their places
-----------------------------------------------------------------------------------------

/-- A stream that is opened, whatever else the system answers, leaves all content as it is. -/
theorem openForWriting_content {position : Nat} {next : Disk}
    (opened : openForWriting outcome file disk = .ok (some position, next))
    : (∀ path, path ≠ file.filePath → next path = disk path)
      ∧ fileContent next file = fileContent disk file := by
  unfold openForWriting at opened
  cases stream : file.fp with
  | some old =>
      simp only [stream, Except.ok.injEq, Prod.mk.injEq] at opened
      obtain ⟨_, rfl⟩ := opened
      exact ⟨fun _ _ => rfl, rfl⟩
  | none =>
      cases content : disk file.filePath with
      | some bytes =>
          simp only [stream, content, Except.ok.injEq, Prod.mk.injEq] at opened
          obtain ⟨_, rfl⟩ := opened
          exact ⟨fun _ _ => rfl, rfl⟩
      | none =>
          simp only [stream, content] at opened
          split at opened
          · simp only [Except.ok.injEq, Prod.mk.injEq] at opened
            obtain ⟨_, rfl⟩ := opened
            refine ⟨fun path apart => Function.update_of_ne apart _ _, ?_⟩
            simp [fileContent, content]
          · cases opened

/-- A body that does not fail, with a share that its `int` can count, puts it at its place. -/
theorem writeFile_lands (lands : outcome.Lands)
    (written : dataWritten = file.fileOffset - pieceBegin)
    (touches : Touches pieceBegin pieceSize file)
    (counted : shareLength pieceBegin pieceSize file.fileOffset file.fileSize < 2 ^ 31)
    (whole : pieceSize ≤ piece.length) (pieceFits : pieceBegin + pieceSize < 2 ^ 64)
    (seekable : file.fileSize ≤ 2 ^ 63)
    (wrote : writeFile outcome piece pieceBegin pieceSize dataWritten file disk = .ok here)
    (notThrown : here.thrown = false)
    : nonemptyWrites here.reached = nonemptyWrites [shareWrite piece pieceBegin pieceSize file]
      ∧ (∀ path, path ≠ file.filePath → here.disk path = disk path)
      ∧ here.disk file.filePath = contentAfter piece pieceBegin pieceSize disk file := by
  obtain ⟨reaches, unfinished⟩ := id touches
  have sized := fileShare_length whole touches
  have relative : u64Sub (u64 (pieceBegin + dataWritten)) file.fileOffset
      = shareOffset pieceBegin file.fileOffset := by
    rw [u64_of_lt (by omega), u64Sub_of_le (by omega) (by omega), shareOffset]
    omega
  have count : min (u64Sub file.fileSize (shareOffset pieceBegin file.fileOffset))
      (u64Sub pieceSize dataWritten)
      = shareLength pieceBegin pieceSize file.fileOffset file.fileSize := by
    rw [u64Sub_of_le touches.shareOffset_le (by omega), u64Sub_of_le (by omega) (by omega),
      shareLength]
    congr 2
    omega
  have share : slice piece dataWritten
      (shareLength pieceBegin pieceSize file.fileOffset file.fileSize)
      = fileShare piece pieceBegin pieceSize file := by
    rw [written, fileShare]
  have exact
      : u64OfInt (wrap32 (shareLength pieceBegin pieceSize file.fileOffset file.fileSize : Nat))
        = shareLength pieceBegin pieceSize file.fileOffset file.fileSize := by
    rw [wrap32_natCast counted, u64OfInt_natCast (by omega)]
  unfold writeFile at wrote
  obtain ⟨⟨stream, next⟩, opened, wrote⟩ := bind_eq_ok.mp wrote
  cases stream with
  | none =>
      obtain rfl := Except.ok.inj wrote
      cases notThrown
  | some position =>
      obtain ⟨others, content⟩ := openForWriting_content opened
      simp only [relative, count, exact, lands.1, lands.2, true_and, Option.getD_none,
        List.take_length] at wrote
      split at wrote
      · cases wrote
      · split at wrote
        · obtain rfl := Except.ok.inj wrote
          cases notThrown
        · rename_i taken
          obtain rfl := Except.ok.inj wrote
          rw [slice_of_whole (not_not.mp taken), share]
          dsimp only
          have placed
              : fileShare piece pieceBegin pieceSize file = []
                ∨ shareOffset pieceBegin file.fileOffset < 2 ^ 63 := by
            rw [← List.length_eq_zero_iff, sized, shareLength]
            omega
          rw [contentAfter, if_pos touches, shareWrite, ← content]
          generalize fileShare piece pieceBegin pieceSize file = bytes at placed
          refine ⟨?_, fun path apart => ?_, ?_⟩
          · rcases placed with rfl | low
            · rfl
            · rw [if_pos low]
          · exact (Disk.write_of_ne next apart _ _).trans (others path apart)
          · rcases placed with rfl | low
            · exact Function.update_self ..
            · rw [if_pos low]
              exact Function.update_self ..

/-- The loop, where each seek and flush succeeds, ends with all bytes counted only when the files
hold the piece and each of them has its share. Induction on the files that are left, where
`dataWritten` is the part of the piece before them.
-/
theorem writePiece_lands (lands : ∀ index, (io index).Lands) (positive : 0 < pieceSize)
    (small : piece.length < 2 ^ 63) (whole : pieceSize ≤ piece.length)
    (pieceFits : pieceBegin + pieceSize < 2 ^ 64) (laid : LaidOut start files)
    (filesFit : start + totalSize files < 2 ^ 64)
    (seekable : ∀ file ∈ files, file.fileSize ≤ 2 ^ 63)
    (written : dataWritten = pieceBefore pieceBegin pieceSize start)
    (ran : writePiece io piece pieceBegin pieceSize index files dataWritten disk = .ok loop)
    (notThrown : loop.thrown = false) (complete : loop.dataWritten = pieceSize)
    : nonemptyWrites loop.reached
        = nonemptyWrites (files.map (shareWrite piece pieceBegin pieceSize))
      ∧ pieceSize ≤ start + totalSize files - pieceBegin
      ∧ ((files.map TorrentDataFileInfo.filePath).Nodup
        → (∀ path, path ∉ files.map TorrentDataFileInfo.filePath → loop.disk path = disk path)
          ∧ ∀ file ∈ files,
              loop.disk file.filePath = contentAfter piece pieceBegin pieceSize disk file) := by
  induction files generalizing start index dataWritten disk loop with
  | nil =>
      obtain rfl := Except.ok.inj ran
      refine ⟨rfl, ?_, fun _ => ⟨fun _ _ => rfl, fun file member => by cases member⟩⟩
      have ended : dataWritten = pieceSize := complete
      unfold pieceBefore at written
      omega
  | cons file rest ih =>
      obtain ⟨atStart, laidRest⟩ := id laid
      have total : totalSize (file :: rest) = file.fileSize + totalSize rest := by
        simp [totalSize]
      rw [total] at filesFit
      unfold writePiece at ran
      split at ran
      · -- the piece ended before this file
        rename_i finished
        obtain rfl := Except.ok.inj ran
        have ended : pieceBegin + pieceSize ≤ start := by
          unfold pieceBefore at written
          omega
        have apart (other : TorrentDataFileInfo) (member : other ∈ file :: rest)
            : ¬ Touches pieceBegin pieceSize other := by
          have behind := laid.start_le member
          unfold Touches
          omega
        refine ⟨?_, by omega, fun _ => ⟨fun _ _ => rfl, fun other member => ?_⟩⟩
        · rw [nonemptyWrites_of_apart apart]
          rfl
        · rw [contentAfter, if_neg (apart other member)]
      rename_i unfinished
      rw [u64_of_lt (by omega), u64_of_lt (by omega)] at ran
      have before : dataWritten = file.fileOffset - pieceBegin := by
        unfold pieceBefore at written
        omega
      split at ran
      · rename_i reaches
        have touches : Touches pieceBegin pieceSize file := by
          refine ⟨reaches.1, ?_⟩
          unfold pieceBefore at written
          omega
        obtain ⟨here, wrote, ran⟩ := bind_eq_ok.mp ran
        split at ran
        · rename_i thrown
          obtain rfl := Except.ok.inj ran
          cases notThrown
        · rename_i hereNotThrown
          have hereNotThrown : here.thrown = false := Bool.eq_false_iff.mpr hereNotThrown
          obtain ⟨later, ranLater, same⟩ := bind_eq_ok.mp ran
          obtain rfl := Except.ok.inj same
          have advances := writeFile_advances (by rw [atStart]; omega) touches.1 small
            pieceFits (by omega) wrote hereNotThrown
          rw [atStart] at advances
          -- a loop that fell behind would not have counted the whole piece
          have advanced
              : here.dataWritten = pieceBefore pieceBegin pieceSize (start + file.fileSize)
                ∧ here.dataWritten - dataWritten < 2 ^ 31 := by
            rcases advances with exact | behind
            · exact exact
            · have bound := writePiece_behind behind small pieceFits laidRest (by omega)
                ranLater notThrown
              simp only at complete
              omega
          have counted
              : shareLength pieceBegin pieceSize file.fileOffset file.fileSize < 2 ^ 31 := by
            unfold pieceBefore at advanced written
            unfold shareLength shareOffset
            omega
          obtain ⟨share, others, content⟩ := writeFile_lands (lands index) before touches counted
            whole pieceFits (seekable file (by simp)) wrote hereNotThrown
          obtain ⟨sharesLater, covered, contents⟩ :=
            ih laidRest (by omega) (fun other member => seekable other (by simp [member]))
              advanced.1 ranLater notThrown complete
          refine ⟨?_, by omega, fun distinct => ?_⟩
          · dsimp only
            rw [nonemptyWrites_append, share, sharesLater, ← nonemptyWrites_append]
            rfl
          · obtain ⟨untouched, shares⟩ := contents (List.nodup_cons.mp distinct).2
            exact shares_cons distinct others content untouched shares
      · -- the file ends before the piece begins
        rename_i apart
        have apart : ¬ Touches pieceBegin pieceSize file := by
          unfold Touches
          omega
        obtain ⟨later, ranLater, same⟩ := bind_eq_ok.mp ran
        obtain rfl := Except.ok.inj same
        have advanced : dataWritten = pieceBefore pieceBegin pieceSize (start + file.fileSize) := by
          unfold Touches at apart
          unfold pieceBefore at *
          omega
        obtain ⟨sharesLater, covered, contents⟩ :=
          ih laidRest (by omega) (fun other member => seekable other (by simp [member])) advanced
            ranLater notThrown complete
        refine ⟨?_, by omega, fun distinct => ?_⟩
        · have none :=
            @nonemptyWrites_of_apart piece pieceBegin pieceSize [file] (by simpa using apart)
          rw [sharesLater, List.map_cons, ← List.singleton_append, nonemptyWrites_append]
          exact (congrArg (· ++ _) none).symm
        · obtain ⟨untouched, shares⟩ := contents (List.nodup_cons.mp distinct).2
          refine shares_cons distinct (fun _ _ => rfl) ?_ untouched shares
          rw [contentAfter, if_neg apart]

/-- A loop, where each seek and flush succeeds, ends with all bytes counted exactly when every file
got its share and the shares are the whole piece.
-/
theorem writePiece_whole_iff (lands : ∀ index, (io index).Lands) (positive : 0 < pieceSize)
    (small : piece.length < 2 ^ 63) (whole : pieceSize ≤ piece.length)
    (pieceFits : pieceBegin + pieceSize < 2 ^ 64) (laid : LaidOut 0 files)
    (filesFit : totalSize files < 2 ^ 64) (seekable : ∀ file ∈ files, file.fileSize ≤ 2 ^ 63)
    (ran : writePiece io piece pieceBegin pieceSize index files 0 disk = .ok loop)
    : (loop.thrown = false ∧ loop.dataWritten = pieceSize)
      ↔ WritesWhole files piece pieceBegin pieceSize loop.reached := by
  obtain ⟨bound, all⟩ := writePiece_reached ran
  obtain ⟨counted, cut⟩ := writePiece_accepts small whole (Nat.zero_le _) ran
  constructor
  · rintro ⟨notThrown, complete⟩
    have begun : 0 = pieceBefore pieceBegin pieceSize 0 := by
      unfold pieceBefore
      omega
    obtain ⟨shares, _⟩ := writePiece_lands lands positive small whole pieceFits laid (by omega)
      seekable begun ran notThrown complete
    refine ⟨shares, ?_⟩
    obtain ⟨-, -, taken⟩ := counted notThrown
    rw [all (fun index => (lands index).2), taken, complete, slice_zero, List.length_take]
    omega
  · rintro ⟨_, total⟩
    cases thrown : loop.thrown with
    | true =>
        have missing := cut thrown
        omega
    | false =>
        obtain ⟨-, within, taken⟩ := counted thrown
        rw [taken, slice_length] at bound
        exact ⟨rfl, by omega⟩

/-- The disk behind such a loop holds the piece, if no two files share a path. -/
theorem writePiece_stores (lands : ∀ index, (io index).Lands) (positive : 0 < pieceSize)
    (small : piece.length < 2 ^ 63) (whole : pieceSize ≤ piece.length)
    (pieceFits : pieceBegin + pieceSize < 2 ^ 64) (laid : LaidOut 0 files)
    (filesFit : totalSize files < 2 ^ 64) (seekable : ∀ file ∈ files, file.fileSize ≤ 2 ^ 63)
    (distinct : (files.map TorrentDataFileInfo.filePath).Nodup)
    (ran : writePiece io piece pieceBegin pieceSize index files 0 disk = .ok loop)
    (notThrown : loop.thrown = false) (complete : loop.dataWritten = pieceSize)
    : StoredAt files loop.disk pieceBegin (piece.take pieceSize) := by
  have begun : 0 = pieceBefore pieceBegin pieceSize 0 := by
    unfold pieceBefore
    omega
  obtain ⟨_, covered, contents⟩ := writePiece_lands lands positive small whole pieceFits laid
    (by omega) seekable begun ran notThrown complete
  obtain ⟨_, shares⟩ := contents distinct
  intro offset inside
  rw [List.length_take] at inside
  rw [storedByte_placed whole shares laid (by omega) (Nat.zero_le _) (Nat.le_add_right ..)
    (by omega), Nat.add_sub_cancel_left, List.getElem?_take_of_lt (by omega)]

end Loop

end UvgTorrent

import UvgTorrent.TorrentData.PieceGathering
import UvgTorrent.TorrentData.PieceStorage
import UvgTorrent.TorrentData.Setup

/-! Scattering a piece over the files and gathering it again. For files that were added under paths
of their own, the file loop of `torrent_data_write_chunk` and that of `torrent_data_read_data` are
inverse, and no other piece is gathered differently afterwards.
-/

namespace UvgTorrent

open Foundations

namespace TorrentData

variable {td : TorrentData} {root : CString} {entries : List (CString × Nat)} {disk : Disk}
  {piece : Nat} {bytes buffer : Bytes} {io : Nat → FileOutcome} {loop : WriteLoop}

/-- `torrent_data_add_file` for every entry of a list. -/
def addEntries (td : TorrentData) (entries : List (CString × Nat)) : TorrentData :=
  entries.foldl (fun td entry => td.addFile entry.1 entry.2) td

/-- The file loop of `torrent_data_write_chunk` on the buffer of a piece. -/
def scatterPiece (td : TorrentData) (disk : Disk) (piece : Nat) (buffer : Bytes)
    (io : Nat → FileOutcome) (info : PieceInfo)
    : Except Fault WriteLoop :=
  let pieceInfo := (td.getPieceInfo piece info).2
  writePiece io buffer pieceInfo.pieceOffset pieceInfo.pieceSize 0 td.files 0 disk

/-- The file loop of `torrent_data_read_data` for a piece, when every file operation succeeds. -/
def gatherPiece (td : TorrentData) (disk : Disk) (piece : Nat) (info : PieceInfo)
    : Except Fault (Option Bytes) :=
  let pieceInfo := (td.getPieceInfo piece info).2
  readPiece (fun _ => .good) disk pieceInfo.pieceOffset pieceInfo.pieceSize 0 td.files []

/-- The files of a struct are those of a list of entries, with any streams open, and the data is as
long as they are together.
-/
structure HoldsEntries (td : TorrentData) (root : CString) (entries : List (CString × Nat))
    : Prop where
  files
    : td.files.map TorrentDataFileInfo.layout
      = ((new root).addEntries entries).files.map TorrentDataFileInfo.layout
  distinct : (entries.map Prod.fst).Nodup
  total_lt : (entries.map Prod.snd).sum < 2 ^ 63
  dataSize : td.dataSize = (entries.map Prod.snd).sum
  pieceSize_pos : 0 < td.pieceSize
  pieceSize_lt : td.pieceSize < 2 ^ 31

-----------------------------------------------------------------------------------------
-- The added files
-----------------------------------------------------------------------------------------

/-- Adding files adds their lengths and their joined paths, and keeps the struct configured. -/
theorem addEntries_files (configured : Configured td)
    (fits : ∀ entry ∈ entries, entry.2 < 2 ^ 64)
    : Configured (td.addEntries entries)
      ∧ totalSize (td.addEntries entries).files
        = totalSize td.files + (entries.map Prod.snd).sum
      ∧ (td.addEntries entries).files.map TorrentDataFileInfo.filePath
        = td.files.map TorrentDataFileInfo.filePath
          ++ entries.map (fun entry => td.rootPath ++ entry.1) := by
  induction entries generalizing td with
  | nil => exact ⟨configured, by simp [addEntries], by simp [addEntries]⟩
  | cons entry rest ih =>
      obtain ⟨built, total, paths⟩ := ih
        (@Configured.addFile td entry.1 entry.2 configured (fits entry (by simp)))
        (fun other member => fits other (by simp [member]))
      refine ⟨built, total.trans ?_, paths.trans ?_⟩
      · simp [addFile, totalSize_append, Nat.add_assoc]
      · simp [addFile]

/-- So the files hold exactly the data, each under a path of its own. -/
theorem HoldsEntries.stored (holds : td.HoldsEntries root entries) : td.Stored := by
  have total_lt := holds.total_lt
  have fits (entry : CString × Nat) (member : entry ∈ entries) : entry.2 < 2 ^ 64 := by
    have bound := List.single_le_sum (fun _ _ => Nat.zero_le _) entry.2
      (List.mem_map_of_mem (f := Prod.snd) member)
    omega
  obtain ⟨configured, total, paths⟩ := addEntries_files (.new root) fits
  have none : totalSize (new root).files = 0 := rfl
  rw [none, Nat.zero_add] at total
  have pieceSize_lt := holds.pieceSize_lt
  exact
    {
      laidOut := (configured.unstarted.laidOut (by omega)).of_layout holds.files
      distinct := by
        rw [filePaths_of_layout holds.files, paths]
        simp only [new, List.map_nil, List.nil_append]
        have injective : Function.Injective (fun path : CString => root ++ path) :=
          fun _ _ same => List.append_cancel_left same
        rw [show (fun entry : CString × Nat => root ++ entry.1)
          = (fun path => root ++ path) ∘ Prod.fst from rfl, ← List.map_map]
        exact holds.distinct.map injective
      total := by rw [totalSize_of_layout holds.files, total, holds.dataSize]
      dataSize_lt := by
        rw [holds.dataSize]
        exact total_lt
      pieceLength_lt := fun piece => Nat.lt_of_le_of_lt (Nat.min_le_left ..) pieceSize_lt
    }

-----------------------------------------------------------------------------------------
-- Gathering
-----------------------------------------------------------------------------------------

/-- A piece is gathered exactly when it is stored and the files it lies in are on disk. -/
theorem gatherPiece_eq_some_iff (stored : td.Stored) (positive : 0 < td.pieceSize)
    (inRange : piece < td.pieceTotal) (fits : piece < 2 ^ 31) (info : PieceInfo)
    : td.gatherPiece disk piece info = .ok (some bytes)
      ↔ TouchedExist (td.pieceSize * piece) (td.pieceLength piece) td.files disk
        ∧ td.PieceStored disk piece bytes := by
  have inData := pieceEnd_le positive inRange
  have total := stored.total
  have dataSize_lt := stored.dataSize_lt
  rw [gatherPiece, getPieceInfo_inRange positive (by omega) inRange fits]
  dsimp only
  rw [readPiece_eq_some_iff stored.laidOut (by omega) ?_ (stored.pieceLength_lt piece) (by omega)
    (by omega) (by simp)]
  · constructor
    · rintro ⟨sized, _, exist, bytesStored⟩
      refine ⟨exist, sized, fun index inPiece => ?_⟩
      exact bytesStored index (by omega) (Nat.zero_le _)
    · rintro ⟨exist, sized, bytesStored⟩
      refine ⟨sized, List.take_zero, exist, fun index inPiece _ => ?_⟩
      exact bytesStored index (by omega)
  · intro file member
    have bound := stored.laidOut.end_le member
    omega

-----------------------------------------------------------------------------------------
-- Scattering
-----------------------------------------------------------------------------------------

/-- What the write loop has done that scattered the bytes of a piece over the files. Nothing is
written behind the size of a file. Outside the piece a stored byte stays, and a missing one can only
be filled with zero. All pieces that could be gathered still are.
-/
structure Scattered (td : TorrentData) (disk : Disk) (piece : Nat) (bytes : Bytes)
    (info : PieceInfo) (loop : WriteLoop)
    : Prop where
  notThrown : loop.thrown = false
  dataWritten : loop.dataWritten = bytes.length
  accepted : loop.accepted = bytes
  pastSize
    : ∀ file ∈ td.files,
        ∀ index,
          file.fileSize ≤ index
          → (fileContent loop.disk file)[index]? = (fileContent disk file)[index]?
  otherPaths
    : ∀ path, path ∉ td.files.map TorrentDataFileInfo.filePath → loop.disk path = disk path
  outside
    : ∀ position,
        position < td.pieceSize * piece ∨ td.pieceSize * piece + bytes.length ≤ position
        → (∀ byte,
            storedByte td.files disk position = some byte
            → storedByte loop.files loop.disk position = some byte)
          ∧ (storedByte td.files disk position = none
            → storedByte loop.files loop.disk position = none
              ∨ storedByte loop.files loop.disk position = some 0)
  gathers : { td with files := loop.files }.gatherPiece loop.disk piece info = .ok (some bytes)
  others
    : ∀ other written,
        other ≠ piece
        → other < td.pieceTotal
        → other < 2 ^ 31
        → td.gatherPiece disk other info = .ok (some written)
        → { td with files := loop.files }.gatherPiece loop.disk other info = .ok (some written)

/-- Files that take their share exist afterwards, and no file disappears. -/
theorem touchedExist_after {begins size pieceBegin pieceSize : Nat}
    {files : List TorrentDataFileInfo} {after : Disk}
    (shares
      : ∀ file ∈ files, after file.filePath = contentAfter buffer pieceBegin pieceSize disk file)
    (exist
      : (begins = pieceBegin ∧ size = pieceSize) ∨ TouchedExist begins size files disk)
    : TouchedExist begins size files after := by
  intro file member touches
  rw [shares file member, contentAfter]
  by_cases shared : Touches pieceBegin pieceSize file
  · rw [if_pos shared]
    exact Option.some_ne_none _
  · rw [if_neg shared]
    rcases exist with ⟨rfl, rfl⟩ | exist
    · exact absurd touches shared
    · exact exist file member touches

/-- The write loop on a piece of the data scatters it. -/
theorem Stored.scatterPiece_scatters (stored : td.Stored) (positive : 0 < td.pieceSize)
    (inRange : piece < td.pieceTotal) (fits : piece < 2 ^ 31)
    (whole : td.pieceLength piece ≤ buffer.length) (buffer_lt : buffer.length < 2 ^ 63)
    (good : ∀ index, io index = .good) (disk : Disk) (info : PieceInfo)
    : ∃ loop,
        td.scatterPiece disk piece buffer io info = .ok loop
        ∧ td.Scattered disk piece (buffer.take (td.pieceLength piece)) info loop := by
  have inData := pieceEnd_le positive inRange
  have total := stored.total
  have dataSize_lt := stored.dataSize_lt
  have small := stored.pieceLength_lt piece
  obtain ⟨loop, ran, notThrown, complete, untouched, shares⟩ :=
    writePiece_files good small whole (show td.pieceSize * piece + _ < 2 ^ 63 by omega)
      stored.laidOut stored.distinct (by omega) (by omega)
      (show 0 = min _ (0 - td.pieceSize * piece) by omega) 0 disk
  have sized : (buffer.take (td.pieceLength piece)).length = td.pieceLength piece := by
    rw [List.length_take, Nat.min_eq_left whole]
  have layout := writePiece_layout ran
  have sameBytes := storedByte_of_layout loop.disk layout
  have gathersAfter (other : Nat) (inData : other < td.pieceTotal) (otherFits : other < 2 ^ 31)
      (written : Bytes)
      : { td with files := loop.files }.gatherPiece loop.disk other info = .ok (some written)
        ↔ TouchedExist (td.pieceSize * other) (td.pieceLength other) td.files loop.disk
          ∧ td.PieceStored loop.disk other written := by
    rw [← gatherPiece_eq_some_iff stored positive inData otherFits info, gatherPiece, gatherPiece]
    dsimp only
    rw [readPiece_of_layout layout]
    rfl
  refine ⟨loop, ?_, notThrown, complete.trans sized.symm, ?_, ?_, untouched, ?_, ?_, ?_⟩
  · rw [scatterPiece, getPieceInfo_inRange positive (by omega) inRange fits]
    exact ran
  · have taken := (writePiece_accepts buffer_lt whole (Nat.zero_le _) ran).1 notThrown
    rw [taken.2.2, complete, Nat.sub_zero, slice_zero]
  · intro file member index past
    exact fileContent_past whole (shares file member) past
  · intro position outside
    rw [sized] at outside
    rw [sameBytes]
    exact storedByte_kept whole shares outside
  · refine (gathersAfter piece inRange fits _).mpr
      ⟨touchedExist_after shares (.inl ⟨rfl, rfl⟩), sized, fun index inPiece => ?_⟩
    rw [sized] at inPiece
    rw [storedByte_placed whole shares stored.laidOut (by omega) (Nat.zero_le _) (by omega)
      (by omega), List.getElem?_take, if_pos inPiece, Nat.add_sub_cancel_left]
  · intro other written apart otherInRange otherFits gathered
    obtain ⟨exist, length, held⟩ :=
      (gatherPiece_eq_some_iff stored positive otherInRange otherFits info).mp gathered
    refine (gathersAfter other otherInRange otherFits _).mpr
      ⟨touchedExist_after shares (.inr exist), length, fun index inPiece => ?_⟩
    have byte := held index inPiece
    rw [List.getElem?_eq_getElem inPiece] at byte ⊢
    exact (storedByte_kept whole shares (piece_apart apart (by omega))).1 _ byte

/-- Files that were added under paths of their own take every piece of their data: the write loop
writes the bytes of the piece, within the files and at its range, the gather loop gets them back,
and every other piece that it got before it gets again.
-/
theorem scatter_gather_inverse (holds : td.HoldsEntries root entries)
    (inRange : piece < td.pieceTotal) (fits : piece < 2 ^ 31)
    (whole : td.pieceLength piece ≤ buffer.length) (allocated : buffer.length ≤ td.pieceSize)
    (good : ∀ index, io index = .good) (disk : Disk) (info : PieceInfo)
    : ∃ loop,
        td.scatterPiece disk piece buffer io info = .ok loop
        ∧ td.Scattered disk piece (buffer.take (td.pieceLength piece)) info loop := by
  have pieceSize_lt := holds.pieceSize_lt
  exact holds.stored.scatterPiece_scatters holds.pieceSize_pos inRange fits whole (by omega) good
    disk info

/-- Three files of three, zero and two bytes in pieces of two: the second piece ends one file,
passes the empty one and begins the last.
-/
def ofThreeFiles : TorrentData :=
  {
    (new [46]).addEntries [([97], 3), ([98], 0), ([99], 2)] with
    pieceSize := 2
    dataSize := 5
  }

theorem ofThreeFiles_holds
    : ofThreeFiles.HoldsEntries [46] [([97], 3), ([98], 0), ([99], 2)] :=
  {
    files := rfl
    distinct := by decide
    total_lt := by decide
    dataSize := rfl
    pieceSize_pos := by decide
    pieceSize_lt := by decide
  }

theorem scatter_gather_inverse_between_files
    : ∃ loop,
        ofThreeFiles.scatterPiece (fun _ => none) 1 [7, 8] (fun _ => .good) ⟨0, 0, 0⟩ = .ok loop
        ∧ ofThreeFiles.Scattered (fun _ => none) 1 [7, 8] ⟨0, 0, 0⟩ loop :=
  scatter_gather_inverse ofThreeFiles_holds (by decide) (by decide) (by decide) (by decide)
    (fun _ => rfl) (fun _ => none) ⟨0, 0, 0⟩

end TorrentData

end UvgTorrent

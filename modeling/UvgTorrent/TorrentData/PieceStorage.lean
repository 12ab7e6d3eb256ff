import UvgTorrent.TorrentData.ChunkEffects
import UvgTorrent.TorrentData.PieceWrites

/-! Storing the assembled piece of a chunk. Where each seek and flush succeeds, the loop ends with
all bytes counted exactly when the piece is on disk. Where every file operation succeeds and the
files cover the data end to end, the piece appears at its own range of the data and nothing else that
is stored changes.
-/

namespace UvgTorrent

open Foundations

theorem LaidOut.of_layout {start : Nat} {files others : List TorrentDataFileInfo}
    (laid : LaidOut start files)
    (same : others.map TorrentDataFileInfo.layout = files.map TorrentDataFileInfo.layout)
    : LaidOut start others := by
  induction files generalizing start others with
  | nil =>
      cases others with
      | nil => trivial
      | cons other more => simp at same
  | cons file rest ih =>
      cases others with
      | nil => simp at same
      | cons other more =>
          simp only [List.map_cons, List.cons.injEq, TorrentDataFileInfo.layout,
            Prod.mk.injEq] at same
          obtain ⟨⟨_, offset, size⟩, later⟩ := same
          exact ⟨offset.trans laid.1, ih (by rw [size]; exact laid.2) later⟩

theorem totalSize_of_layout {files others : List TorrentDataFileInfo}
    (same : others.map TorrentDataFileInfo.layout = files.map TorrentDataFileInfo.layout)
    : totalSize others = totalSize files := by
  have sizes := congrArg (List.map (fun layout => layout.2.2)) same
  simp only [List.map_map, Function.comp_def, TorrentDataFileInfo.layout] at sizes
  exact congrArg List.sum sizes

theorem filePaths_of_layout {files others : List TorrentDataFileInfo}
    (same : others.map TorrentDataFileInfo.layout = files.map TorrentDataFileInfo.layout)
    : others.map TorrentDataFileInfo.filePath = files.map TorrentDataFileInfo.filePath := by
  have paths := congrArg (List.map Prod.fst) same
  simpa [List.map_map, Function.comp_def, TorrentDataFileInfo.layout] using paths

theorem WithinSizes.of_layout {files others : List TorrentDataFileInfo} {disk : Disk}
    (within : WithinSizes files disk)
    (same : others.map TorrentDataFileInfo.layout = files.map TorrentDataFileInfo.layout)
    : WithinSizes others disk := by
  intro other member
  have listed : other.layout ∈ files.map TorrentDataFileInfo.layout := by
    rw [← same]
    exact List.mem_map_of_mem member
  obtain ⟨file, inFiles, layout⟩ := List.mem_map.mp listed
  simp only [TorrentDataFileInfo.layout, Prod.mk.injEq] at layout
  have bound := within file inFiles
  rw [fileContent, layout.1, layout.2.2] at bound
  exact bound

namespace TorrentData

variable {sha1 : Bytes → Digest} {td next : TorrentData} {disk : Disk} {chunk piece : Nat}
  {data : Bytes} {io : Nat → FileOutcome} {result : WriteResult} {completed : Bitfield}
  {map : HashMap Bytes}

/-- The files hold exactly the data, each file under its own path, and a piece is small enough
for the `int` that counts its bytes.
-/
structure Stored (td : TorrentData) : Prop where
  laidOut : LaidOut 0 td.files
  distinct : (td.files.map TorrentDataFileInfo.filePath).Nodup
  total : totalSize td.files = td.dataSize
  dataSize_lt : td.dataSize < 2 ^ 63
  pieceLength_lt : ∀ piece, td.pieceLength piece < 2 ^ 31

theorem SameSetup.stored (same : td.SameSetup next) (stored : td.Stored) : next.Stored :=
  {
    laidOut := stored.laidOut.of_layout same.layout
    distinct := by
      rw [filePaths_of_layout same.layout]
      exact stored.distinct
    total := by
      rw [totalSize_of_layout same.layout, same.dataSize]
      exact stored.total
    dataSize_lt := by
      rw [same.dataSize]
      exact stored.dataSize_lt
    pieceLength_lt := by
      rw [same.pieceLength]
      exact stored.pieceLength_lt
  }

/-- The offsets of the files do not wrap, and `fseek` reaches every byte of a file. -/
structure Addressable (td : TorrentData) : Prop where
  laidOut : LaidOut 0 td.files
  total_lt : totalSize td.files < 2 ^ 64
  fileSize_le : ∀ file ∈ td.files, file.fileSize ≤ 2 ^ 63

theorem SameSetup.addressable (same : td.SameSetup next) (addressable : td.Addressable)
    : next.Addressable :=
  {
    laidOut := addressable.laidOut.of_layout same.layout
    total_lt := by
      rw [totalSize_of_layout same.layout]
      exact addressable.total_lt
    fileSize_le := by
      intro file member
      have listed : file.layout ∈ td.files.map TorrentDataFileInfo.layout := by
        rw [← same.layout]
        exact List.mem_map_of_mem member
      obtain ⟨other, inFiles, layout⟩ := List.mem_map.mp listed
      have sizes := congrArg (·.2.2) layout
      exact (Nat.le_of_eq sizes.symm).trans (addressable.fileSize_le other inFiles)
  }

theorem Stored.addressable (stored : td.Stored) : td.Addressable := by
  have total := stored.total
  have dataSize_lt := stored.dataSize_lt
  refine { laidOut := stored.laidOut, total_lt := by omega, fileSize_le := fun file member => ?_ }
  have ends := stored.laidOut.end_le member
  omega

section Writes

variable {loop : WriteLoop} (ready : td.Initialised) (addressable : td.Addressable)
  (stores : td.Stores completed map chunk data) (inRange : chunk < td.chunkTotal)
  (lands : ∀ index, (io index).Lands) (ran : td.writeAssembled disk chunk data io = .ok loop)

include ready addressable stores inRange lands ran

/-- The file loop on an assembled piece, where each seek and flush succeeds, ends with all bytes
counted exactly when each file got its share.
-/
theorem writeAssembled_whole_iff
    : (loop.thrown = false ∧ loop.dataWritten = td.pieceLength (td.pieceOf chunk))
      ↔ WritesWhole td.files (td.assembledPiece chunk data) (td.pieceSize * td.pieceOf chunk)
          (td.pieceLength (td.pieceOf chunk)) loop.reached := by
  have sized := stores.assembled_length ready
  have bufferFits := stores.bufferFits
  have inData := ready.piece_end_le (ready.pieceOf_lt inRange)
  have dataFits := ready.dataSize_lt
  exact writePiece_whole_iff lands (ready.pieceLength_pos inRange) (by omega)
    (by rw [sized]; exact Nat.min_le_left ..) (by omega) addressable.laidOut
    addressable.total_lt addressable.fileSize_le ran

/-- Then the disk holds the piece, if no two files share a path. -/
theorem writeAssembled_stores (distinct : (td.files.map TorrentDataFileInfo.filePath).Nodup)
    (notThrown : loop.thrown = false)
    (complete : loop.dataWritten = td.pieceLength (td.pieceOf chunk))
    : StoredAt td.files loop.disk (td.pieceSize * td.pieceOf chunk)
        ((td.assembledPiece chunk data).take (td.pieceLength (td.pieceOf chunk))) := by
  have sized := stores.assembled_length ready
  have bufferFits := stores.bufferFits
  have inData := ready.piece_end_le (ready.pieceOf_lt inRange)
  have dataFits := ready.dataSize_lt
  exact writePiece_stores lands (ready.pieceLength_pos inRange) (by omega)
    (by rw [sized]; exact Nat.min_le_left ..) (by omega) addressable.laidOut
    addressable.total_lt addressable.fileSize_le distinct ran notThrown complete

end Writes

/-- The bytes stored at the range of a piece are the given ones. -/
def PieceStored (td : TorrentData) (disk : Disk) (piece : Nat) (bytes : Bytes) : Prop :=
  bytes.length = td.pieceLength piece
  ∧ StoredAt td.files disk (td.pieceSize * piece) bytes

/-- The file loop on an assembled piece when every file operation succeeds. -/
theorem writeAssembled_good (ready : td.Initialised) (stored : td.Stored)
    (stores : td.Stores completed map chunk data) (inRange : chunk < td.chunkTotal)
    (good : ∀ index, io index = .good)
    : ∃ loop,
        td.writeAssembled disk chunk data io = .ok loop
        ∧ loop.thrown = false
        ∧ loop.dataWritten = td.pieceLength (td.pieceOf chunk)
        ∧ (∀ position,
            td.pieceSize * td.pieceOf chunk ≤ position
            → position < td.pieceSize * td.pieceOf chunk + td.pieceLength (td.pieceOf chunk)
            → storedByte td.files loop.disk position
              = (td.assembledPiece chunk data)[position - td.pieceSize * td.pieceOf chunk]?)
        ∧ (∀ position byte,
            (position < td.pieceSize * td.pieceOf chunk
              ∨ td.pieceSize * td.pieceOf chunk + td.pieceLength (td.pieceOf chunk) ≤ position)
            → storedByte td.files disk position = some byte
            → storedByte td.files loop.disk position = some byte)
        ∧ (WithinSizes td.files disk → WithinSizes td.files loop.disk) := by
  have inData := ready.piece_end_le (ready.pieceOf_lt inRange)
  have dataFits := stored.dataSize_lt
  have total := stored.total
  have whole : td.pieceLength (td.pieceOf chunk) ≤ (td.assembledPiece chunk data).length := by
    rw [stores.assembled_length ready]
    exact Nat.min_le_left ..
  obtain ⟨loop, ran, notThrown, written, _, _, placed, kept, within⟩ :=
    writePiece_good good (stored.pieceLength_lt _) whole
      (show td.pieceSize * td.pieceOf chunk + _ < 2 ^ 63 by omega) stored.laidOut
      stored.distinct (by omega) (by omega) (show 0 = min _ (0 - _) by omega) 0 disk
  exact ⟨loop, ran, notThrown, written, fun position => placed position (Nat.zero_le _), kept,
    within⟩

/-- Pieces do not overlap. -/
theorem piece_apart {first second offset : Nat} (apart : first ≠ second)
    (inside : offset < td.pieceLength first)
    : td.pieceSize * first + offset < td.pieceSize * second
      ∨ td.pieceSize * second + td.pieceLength second ≤ td.pieceSize * first + offset := by
  have small : td.pieceLength first ≤ td.pieceSize := Nat.min_le_left ..
  have otherSmall : td.pieceLength second ≤ td.pieceSize := Nat.min_le_left ..
  rcases Nat.lt_or_gt_of_ne apart with before | after
  · have bound := Nat.mul_le_mul_left td.pieceSize (Nat.succ_le_of_lt before)
    rw [Nat.mul_succ] at bound
    omega
  · have bound := Nat.mul_le_mul_left td.pieceSize (Nat.succ_le_of_lt after)
    rw [Nat.mul_succ] at bound
    omega

theorem storedByte_of_setup (same : td.SameSetup next) (disk : Disk) (position : Nat)
    : storedByte next.files disk position = storedByte td.files disk position :=
  storedByte_of_layout disk same.layout position

/-- On the same disk, a piece stays stored. -/
theorem PieceStored.of_setup {bytes : Bytes} (stored : td.PieceStored disk piece bytes)
    (same : td.SameSetup next)
    : next.PieceStored disk piece bytes := by
  refine ⟨stored.1.trans (congrFun same.pieceLength piece).symm, fun index below => ?_⟩
  rw [storedByte_of_setup same, same.pieceSize]
  exact stored.2 index below

/-- The outcome of a step on the disk when every file operation succeeds: either its chunk
completes a piece that validates, and the piece is stored beside the others, or the disk is as
before.
-/
theorem ChunkStep.storage (step : ChunkStep sha1 td disk chunk data io result)
    (ready : td.Initialised) (stored : td.Stored) (inRange : chunk < td.chunkTotal)
    (good : ∀ index, io index = .good)
    : (∃ completed map,
        td.Judged sha1 completed map chunk data .success
        ∧ result.exit = .success
        ∧ result.td.PieceStored result.disk (td.pieceOf chunk)
            ((td.assembledPiece chunk data).take (td.pieceLength (td.pieceOf chunk)))
        ∧ (∀ other bytes,
            other ≠ td.pieceOf chunk
            → td.PieceStored disk other bytes
            → result.td.PieceStored result.disk other bytes)
        ∧ (WithinSizes td.files disk → WithinSizes result.td.files result.disk))
      ∨ (result.disk = disk
        ∧ result.exit = .failure
        ∧ (WithinSizes td.files disk → WithinSizes result.td.files result.disk)
        ∧ ∀ completed map, ¬ td.Judged sha1 completed map chunk data .success) := by
  have same := step.setup
  cases step with
  | refused reason =>
      exact .inr ⟨rfl, rfl, id, fun _ _ judged => reason judged.stores.accepted⟩
  | held stores unfinished =>
      refine .inr ⟨rfl, rfl, id, fun other _ judged => unfinished ?_⟩
      rw [Option.some.inj (stores.field.symm.trans judged.stores.field)]
      exact judged.completes
  | rejected rejected =>
      refine .inr ⟨rfl, rfl, id, fun other _ judged => ?_⟩
      have verdicts := rejected.validated.symm.trans judged.validated
      cases verdicts
  | abandoned judged ran stopped =>
      obtain ⟨loop, succeeds, notThrown, whole, _⟩ :=
        writeAssembled_good ready stored judged.stores inRange good
      obtain rfl := Except.ok.inj (succeeds.symm.trans ran)
      rcases stopped with thrown | cut
      · rw [notThrown] at thrown
        cases thrown
      · exact absurd whole cut
  | finished judged ran notThrown whole =>
      obtain ⟨loop, succeeds, _, _, placed, kept, within⟩ :=
        writeAssembled_good ready stored judged.stores inRange good
      obtain rfl := Except.ok.inj (succeeds.symm.trans ran)
      have sized := judged.stores.assembled_length ready
      refine .inl ⟨_, _, judged, rfl, ⟨?_, ?_⟩, ?_, ?_⟩
      · rw [List.length_take, sized, same.pieceLength]
        exact Nat.min_eq_left (Nat.min_le_left ..)
      · intro index below
        rw [List.length_take] at below
        rw [storedByte_of_setup same, same.pieceSize, placed _ (by omega) (by omega),
          List.getElem?_take, if_pos (by omega), Nat.add_sub_cancel_left]
      · rintro other bytes apart ⟨length, held⟩
        refine ⟨by rw [same.pieceLength]; exact length, fun index below => ?_⟩
        rw [storedByte_of_setup same, same.pieceSize]
        have byte := held index below
        rw [List.getElem?_eq_getElem below] at byte ⊢
        exact kept _ _ (piece_apart apart (by omega)) byte
      · exact fun before => (within before).of_layout same.layout

end TorrentData

end UvgTorrent

import UvgTorrent.TorrentData.State
import UvgTorrent.Foundations.FallibleRuns

/-! The writer half of `torrent_data.c`: one piece scattered over the files, and
`torrent_data_write_chunk`. The outcome of every file operation is an argument.
-/

namespace UvgTorrent

open Foundations

/-- The files on disk, by path. Directories are not modelled: whether `mkpath` and the
creating `fopen` work is part of a file's outcome.
-/
abbrev Disk := CString → Option Bytes

/-- What the system answers to the operations on one file: the creating `fopen` with
`"wb+"`, the `fopen` with `"rb+"`, the `fseek`, how many bytes `fwrite` takes into the buffer of
the stream, and how many of these the `fflush` brings into the file (`none`: all of them). The
results of `fseek` and `fflush` are not looked at; bytes that are not flushed are lost.
-/
structure FileOutcome where
  creates : Bool
  opens : Bool
  seeks : Bool
  accepts : Option Nat
  flushes : Option Nat
  deriving DecidableEq, Repr

/-- Every operation on the file succeeds. -/
def FileOutcome.good : FileOutcome :=
  { creates := true, opens := true, seeks := true, accepts := none, flushes := none }

/-- Bytes that reach a file on disk, and where. -/
structure DiskWrite where
  path : CString
  position : Nat
  bytes : Bytes
  deriving DecidableEq, Repr

/-- Bytes that are put at a position of a file. -/
def Disk.write (disk : Disk) (path : CString) (position : Nat) (bytes : Bytes) : Disk :=
  Function.update disk path (some (writeAt ((disk path).getD []) position bytes))

/-- The state of the file loop of `torrent_data_write_chunk`. `accepted` collects what the
`fwrite` calls took, in order, and `reached` what came to the disk; the source does not keep them.
-/
structure WriteLoop where
  files : List TorrentDataFileInfo
  disk : Disk
  dataWritten : Nat
  thrown : Bool
  accepted : Bytes
  reached : List DiskWrite

/-- The state after the body of the file loop: `file` is the node it worked on. -/
structure FileWrite where
  file : TorrentDataFileInfo
  disk : Disk
  dataWritten : Nat
  thrown : Bool
  accepted : Bytes
  reached : List DiskWrite

/-- The stream used for a file: the one already open, or the file opened for update, which
is created first when it does not exist. The stream of a failed creation is closed unchecked.
-/
def openForWriting (outcome : FileOutcome) (file : TorrentDataFileInfo) (disk : Disk)
    : Except Fault (Option Nat × Disk) :=
  match file.fp with
  | some position => .ok (some position, disk)
  | none =>
      let opened := if outcome.opens then some 0 else none
      match disk file.filePath with
      | some _ => .ok (opened, disk)
      | none =>
          if outcome.creates then .ok (opened, Function.update disk file.filePath (some []))
          else .error .streamNull

/-- The body of the file loop for a file that overlaps the piece. -/
def writeFile (outcome : FileOutcome) (piece : Bytes)
    (pieceBegin pieceSize dataWritten : Nat) (file : TorrentDataFileInfo) (disk : Disk)
    : Except Fault FileWrite :=
  let relativeOffset := u64Sub (u64 (pieceBegin + dataWritten)) file.fileOffset
  let bytesToWrite :=
    wrap32 (min (u64Sub file.fileSize relativeOffset) (u64Sub pieceSize dataWritten) : Nat)
  (openForWriting outcome file disk).bind fun (stream, disk) =>
    match stream with
    | none => .ok { file, disk, dataWritten, thrown := true, accepted := [], reached := [] }
    | some position =>
        let position :=
          if outcome.seeks ∧ relativeOffset < 2 ^ 63 then relativeOffset else position
        let count := u64OfInt bytesToWrite
        if piece.length < dataWritten + count then .error .fileWriteBounds
        else
          let accepted := slice piece dataWritten (min (outcome.accepts.getD count) count)
          let bytes := accepted.take (outcome.flushes.getD accepted.length)
          let disk := disk.write file.filePath position bytes
          let reached := [{ path := file.filePath, position, bytes }]
          if accepted.length ≠ count then
            .ok
              {
                file := { file with fp := none }
                disk
                dataWritten
                thrown := true
                accepted
                reached
              }
          else
            .ok
              {
                file := { file with fp := some (position + count) }
                disk
                dataWritten := u64 (dataWritten + count)
                thrown := false
                accepted
                reached
              }

/-- The file loop of `torrent_data_write_chunk`, from the file at `index` on. Files are
tested with both ends included, so one that only touches the piece is opened too.
-/
def writePiece (io : Nat → FileOutcome) (piece : Bytes) (pieceBegin pieceSize : Nat)
    : Nat → List TorrentDataFileInfo → Nat → Disk → Except Fault WriteLoop
  | _, [], dataWritten, disk =>
      .ok { files := [], disk, dataWritten, thrown := false, accepted := [], reached := [] }
  | index, file :: rest, dataWritten, disk =>
      if dataWritten = pieceSize then
        .ok
          {
            files := file :: rest
            disk
            dataWritten
            thrown := false
            accepted := []
            reached := []
          }
      else if pieceBegin ≤ u64 (file.fileOffset + file.fileSize)
          ∧ file.fileOffset ≤ u64 (pieceBegin + pieceSize) then
        (writeFile (io index) piece pieceBegin pieceSize dataWritten file disk).bind
          fun here =>
            if here.thrown then
              .ok
                {
                  files := here.file :: rest
                  disk := here.disk
                  dataWritten := here.dataWritten
                  thrown := true
                  accepted := here.accepted
                  reached := here.reached
                }
            else
              (writePiece io piece pieceBegin pieceSize (index + 1) rest here.dataWritten
                here.disk).bind fun later =>
                  .ok
                    {
                      later with
                      files := here.file :: later.files
                      accepted := here.accepted ++ later.accepted
                      reached := here.reached ++ later.reached
                    }
      else
        (writePiece io piece pieceBegin pieceSize (index + 1) rest dataWritten disk).bind
          fun later => .ok { later with files := file :: later.files }

/-- What a call did with a piece that its chunk completed: the buffer it validated, the
verdict, and what came to the disk. The source does not keep it.
-/
structure PieceReport where
  pieceId : Int
  piece : Bytes
  verdict : Exit
  reached : List DiskWrite
  deriving DecidableEq, Repr

/-- The state and result after `torrent_data_write_chunk`. -/
structure WriteResult where
  td : TorrentData
  disk : Disk
  exit : Exit
  report : Option PieceReport

/-- The environment of one `torrent_data_write_chunk` call. -/
structure WriteEnv where
  io : Nat → FileOutcome
  stack : Stack

namespace TorrentData

/-- `sprintf` into `piece_key` and the `hashmap_get` of the piece; a new buffer of zeros
when the piece has none. `malloc` gives no object of `PTRDIFF_MAX` bytes or more, and the
`memset` of its `NULL` is not guarded.
-/
def takePiece (td : TorrentData) (pieceId : Int) : Except Fault (Bytes × HashMap Bytes) :=
  let pieceKey := formatInt pieceId
  if 10 < pieceKey.length + 1 then .error .keyBounds
  else
    match td.data with
    | none => .error .nullPointer
    | some map =>
        match map.get pieceKey with
        | (some piece, map) => .ok (piece, map)
        | (none, map) =>
            if td.pieceSize < 2 ^ 63 then .ok (List.replicate td.pieceSize 0, map)
            else .error .nullPointer

/-- The `memcpy` of a chunk into the piece buffer, at an `int` offset. -/
def copyChunk (piece data : Bytes) (chunkOffset pieceOffset : Nat) : Except Fault Bytes :=
  let relativeChunkOffset := wrap32 (u64Sub chunkOffset pieceOffset : Nat)
  if relativeChunkOffset < 0 ∨ (piece.length : Int) < relativeChunkOffset + data.length then
    .error .pieceBounds
  else .ok (overwrite piece relativeChunkOffset.toNat data)

/-- `td->downloaded += size; td->left -= size`. -/
def countDownloaded (td : TorrentData) (size : Nat) : TorrentData :=
  {
    td with
    downloaded := wrap64 (td.downloaded + size)
    left := wrap64 (td.left - size)
  }

/-- `hashmap_set` of the piece; a key that is already bound is refused. -/
def holdPiece (td : TorrentData) (map : HashMap Bytes) (pieceKey : CString) (piece : Bytes)
    : TorrentData :=
  { td with data := some (map.set pieceKey piece).2 }

/-- The part of `torrent_data_write_chunk` for a piece that has just become complete: `td`
has the chunk marked and the piece out of the map.
-/
def finishPiece (sha1 : Bytes → Digest) (td : TorrentData) (disk : Disk)
    (map : HashMap Bytes) (pieceKey : CString) (pieceInfo : PieceInfo) (piece : Bytes)
    (chunkSize : Nat) (io : Nat → FileOutcome)
    : Except Fault WriteResult :=
  (td.validatePiece sha1 pieceInfo piece).bind fun verdict =>
    match verdict with
    | .failure =>
        .ok
          {
            td := (td.holdPiece map pieceKey piece).countDownloaded chunkSize
            disk
            exit := .failure
            report := some { pieceId := pieceInfo.pieceId, piece, verdict, reached := [] }
          }
    | .success =>
        (writePiece io piece pieceInfo.pieceOffset pieceInfo.pieceSize 0 td.files 0 disk).bind
          fun loop =>
            let report := some
              { pieceId := pieceInfo.pieceId, piece, verdict, reached := loop.reached }
            let td := { td with files := loop.files }
            if loop.thrown ∨ loop.dataWritten ≠ pieceInfo.pieceSize then
              .ok { td, disk := loop.disk, exit := .failure, report }
            else
              let td := { td with completedPieces := wrap32 (td.completedPieces + 1) }
              let td := if td.isComplete then { td with needed := false } else td
              .ok
                {
                  td := td.countDownloaded chunkSize
                  disk := loop.disk
                  exit := .success
                  report
                }

/-- `torrent_data_write_chunk`; `data_size` is the number of bytes in `data`. -/
def writeChunk (sha1 : Bytes → Digest) (td : TorrentData) (disk : Disk) (chunkId : Int)
    (data : Bytes) (env : WriteEnv)
    : Except Fault WriteResult :=
  match td.completed with
  | none => .error .nullPointer
  | some completed =>
      (completed.getBit chunkId).bind fun done =>
        -- ignore already completed chunks
        if done then .ok { td, disk, exit := .failure, report := none }
        else
          (td.getChunkInfo chunkId env.stack.chunkInfo).bind fun (_, chunkInfo) =>
            let pieceInfo := (td.getPieceInfo chunkInfo.pieceId env.stack.pieceInfo).2
            if data.length ≠ chunkInfo.chunkSize then
              .ok { td, disk, exit := .failure, report := none }
            else
              (td.takePiece chunkInfo.pieceId).bind fun (piece, map) =>
                (copyChunk piece data chunkInfo.chunkOffset pieceInfo.pieceOffset).bind
                  fun piece =>
                    (td.isPieceComplete pieceInfo.pieceId env.stack).bind
                      fun pieceAlreadyCompleted =>
                        let marked :=
                          {
                            td with
                            completed := some (completed.setBit chunkInfo.chunkId 1)
                            data := some map
                          }
                        (marked.isPieceComplete pieceInfo.pieceId env.stack).bind
                          fun pieceCompleted =>
                            if pieceCompleted ∧ ¬ pieceAlreadyCompleted then
                              finishPiece sha1 marked disk map (formatInt chunkInfo.pieceId)
                                pieceInfo piece chunkInfo.chunkSize env.io
                            else
                              -- hold unfinished pieces in memory
                              .ok
                                {
                                  td := (marked.holdPiece map (formatInt chunkInfo.pieceId)
                                    piece).countDownloaded chunkInfo.chunkSize
                                  disk
                                  exit := .failure
                                  report := none
                                }

end TorrentData

end UvgTorrent

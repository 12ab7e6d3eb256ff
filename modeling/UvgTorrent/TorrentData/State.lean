import UvgTorrent.Containers.Bitfields
import UvgTorrent.Containers.HashMaps
import UvgTorrent.Foundations.FallibleRuns
import UvgTorrent.Foundations.PointerChains

/-! `torrent_data.h` and the initialization half of `torrent_data.c`.
Sizes are `size_t` values kept as naturals, `int` fields are integers, and each conversion
between them is written out. A C local that a failed call leaves unset is an argument.
-/

namespace UvgTorrent

open Foundations

-----------------------------------------------------------------------------------------
-- The structs of `torrent_data.h`
-----------------------------------------------------------------------------------------

/-- `struct TorrentDataClaim`; its `next` pointer is the list cell's. -/
structure TorrentDataClaim where
  deadline : Int
  chunkId : Int
  deriving DecidableEq, Repr

/-- `struct TorrentDataFileInfo`. An open `fp` is the position of its stream. -/
structure TorrentDataFileInfo where
  fp : Option Nat
  filePath : CString
  fileOffset : Nat
  fileSize : Nat
  deriving DecidableEq, Repr

/-- `struct ChunkInfo`. -/
structure ChunkInfo where
  chunkId : Int
  pieceId : Int
  chunkSize : Nat
  chunkOffset : Nat
  deriving DecidableEq, Repr

/-- `struct PieceInfo`. -/
structure PieceInfo where
  pieceId : Int
  pieceSize : Nat
  pieceOffset : Nat
  deriving DecidableEq, Repr

/-- `struct TorrentData` without its lock. The table `sha1_hashes` has `sha1_hashes_len`
bytes.
-/
structure TorrentData where
  needed : Bool
  initialized : Bool
  claims : PtrList TorrentDataClaim
  claimed : Option Bitfield
  completed : Option Bitfield
  rootPath : CString
  files : List TorrentDataFileInfo
  filesSize : Nat
  pieceSize : Nat
  chunkSize : Nat
  dataSize : Nat
  pieceCount : Int
  completedPieces : Int
  chunkCount : Int
  downloaded : Int
  left : Int
  uploaded : Int
  data : Option (HashMap Bytes)
  sha1Hashes : Option Bytes

/-- What the uninitialized locals of a call hold before they are assigned. -/
structure Stack where
  chunkInfo : ChunkInfo
  pieceInfo : PieceInfo

/-- Locals that hold zeros. -/
def zeroStack : Stack :=
  {
    chunkInfo := { chunkId := 0, pieceId := 0, chunkSize := 0, chunkOffset := 0 }
    pieceInfo := { pieceId := 0, pieceSize := 0, pieceOffset := 0 }
  }

/-- A SHA-1 digest. -/
abbrev Digest := { bytes : Bytes // bytes.length = 20 }

/-- A digest of equal bytes. -/
def Digest.filled (byte : UInt8) : Digest := ⟨List.replicate 20 byte, List.length_replicate⟩

namespace TorrentData

-----------------------------------------------------------------------------------------
-- Initialization
-----------------------------------------------------------------------------------------

/-- `torrent_data_new`. -/
def new (rootPath : CString) : TorrentData :=
  {
    needed := false
    initialized := false
    claims := .nil
    claimed := none
    completed := none
    rootPath
    files := []
    filesSize := 0
    pieceSize := 0
    chunkSize := 0
    dataSize := 0
    pieceCount := 0
    completedPieces := 0
    chunkCount := 0
    downloaded := 0
    left := 0
    uploaded := 0
    data := none
    sha1Hashes := none
  }

/-- `torrent_data_set_piece_size`: a late call is logged and made all the same. -/
def setPieceSize (td : TorrentData) (pieceSize : Nat) : TorrentData :=
  { td with pieceSize }

/-- `torrent_data_set_chunk_size`. -/
def setChunkSize (td : TorrentData) (chunkSize : Nat) : TorrentData :=
  { td with chunkSize }

/-- `torrent_data_add_file`, with memory available and the joined path within its buffer. -/
def addFile (td : TorrentData) (path : CString) (length : Nat) : TorrentData :=
  {
    td with
    files := td.files
      ++ [{
            fp := none
            filePath := td.rootPath ++ path
            fileOffset := td.filesSize
            fileSize := length
          }]
    filesSize := u64 (td.filesSize + length)
  }

/-- `torrent_data_set_sha1_hashes`. -/
def setSha1Hashes (td : TorrentData) (sha1Hashes : Bytes) : TorrentData :=
  { td with sha1Hashes := some sha1Hashes }

/-- `torrent_data_set_data_size`. -/
def setDataSize (td : TorrentData) (dataSize : Nat) : Except Fault (Exit × TorrentData) :=
  if td.initialized then .ok (.failure, td)
  else if td.chunkSize = 0 then .ok (.failure, td)
  else if td.pieceSize = 0 then .error .divisionByZero
  else
    let pieceCount := wrap32 (u64 (dataSize + u64Sub td.pieceSize 1) / td.pieceSize : Nat)
    let chunkCount := wrap32 (u64 (dataSize + u64Sub td.chunkSize 1) / td.chunkSize : Nat)
    (Bitfield.make (u64OfInt chunkCount) 0 0xFF).bind fun claimed =>
      (Bitfield.make (u64OfInt chunkCount) 0 0xFF).bind fun completed =>
        .ok
          (.success,
            {
              td with
              dataSize
              pieceCount
              chunkCount
              claimed
              completed
              downloaded := 0
              left := wrap64 dataSize
              uploaded := 0
              data := some (HashMap.new 1000)
              initialized := true
            })

/-- The struct that an initialization leaves. -/
def initialisedWith (td : TorrentData) (dataSize : Nat) : TorrentData :=
  let chunkCount := wrap32 (u64 (dataSize + u64Sub td.chunkSize 1) / td.chunkSize : Nat)
  {
    td with
    dataSize
    pieceCount := wrap32 (u64 (dataSize + u64Sub td.pieceSize 1) / td.pieceSize : Nat)
    chunkCount
    claimed := Bitfield.new (u64OfInt chunkCount) 0 0xFF
    completed := Bitfield.new (u64OfInt chunkCount) 0 0xFF
    downloaded := 0
    left := wrap64 dataSize
    uploaded := 0
    data := some (HashMap.new 1000)
    initialized := true
  }

theorem initialisedWith_pieceCount (td : TorrentData) (dataSize : Nat)
    : (td.initialisedWith dataSize).pieceCount
      = wrap32 (u64 (dataSize + u64Sub td.pieceSize 1) / td.pieceSize : Nat) := by
  simp only [initialisedWith]

theorem initialisedWith_chunkCount (td : TorrentData) (dataSize : Nat)
    : (td.initialisedWith dataSize).chunkCount
      = wrap32 (u64 (dataSize + u64Sub td.chunkSize 1) / td.chunkSize : Nat) := by
  simp only [initialisedWith]

theorem initialisedWith_left (td : TorrentData) (dataSize : Nat)
    : (td.initialisedWith dataSize).left = wrap64 dataSize := by
  simp only [initialisedWith]

theorem initialisedWith_completed (td : TorrentData) (dataSize : Nat)
    : (td.initialisedWith dataSize).completed
      = Bitfield.new (u64OfInt (td.initialisedWith dataSize).chunkCount) 0 0xFF := by
  simp only [initialisedWith]

theorem initialisedWith_claimed (td : TorrentData) (dataSize : Nat)
    : (td.initialisedWith dataSize).claimed
      = Bitfield.new (u64OfInt (td.initialisedWith dataSize).chunkCount) 0 0xFF := by
  simp only [initialisedWith]

/-- A call that returns has done nothing, or it was the first one with both sizes set. -/
theorem setDataSize_cases {td next : TorrentData} {dataSize : Nat} {exit : Exit}
    (set : td.setDataSize dataSize = .ok (exit, next))
    : (td.initialized = true ∨ td.chunkSize = 0) ∧ exit = .failure ∧ next = td
      ∨ td.initialized = false
        ∧ td.chunkSize ≠ 0
        ∧ td.pieceSize ≠ 0
        ∧ exit = .success
        ∧ next = td.initialisedWith dataSize := by
  unfold setDataSize at set
  split at set
  · rename_i already
    cases set
    exact .inl ⟨.inl already, rfl, rfl⟩
  rename_i untouched
  split at set
  · rename_i noChunkSize
    cases set
    exact .inl ⟨.inr noChunkSize, rfl, rfl⟩
  rename_i chunkSize
  split at set
  · cases set
  rename_i pieceSize
  obtain ⟨claimed, made, set⟩ := bind_eq_ok.mp set
  obtain ⟨completed, madeAgain, same⟩ := bind_eq_ok.mp set
  have first := Bitfield.eq_new_of_make made
  have second := Bitfield.eq_new_of_make madeAgain
  simp only [Except.ok.injEq, Prod.mk.injEq] at same
  obtain ⟨rfl, rfl⟩ := same
  rw [first, second]
  exact .inr ⟨by simpa using untouched, chunkSize, pieceSize, rfl, rfl⟩

/-- The first call with both sizes set succeeds, unless the chunks ask for a bitfield without bytes.
-/
theorem setDataSize_of_fits {td : TorrentData} {dataSize : Nat} (untouched : td.initialized = false)
    (chunkSize : td.chunkSize ≠ 0) (pieceSize : td.pieceSize ≠ 0)
    (fits : u64OfInt (td.initialisedWith dataSize).chunkCount + 7 < 2 ^ 64)
    : td.setDataSize dataSize = .ok (.success, td.initialisedWith dataSize) := by
  rw [setDataSize, untouched, if_neg Bool.false_ne_true, if_neg chunkSize, if_neg pieceSize]
  exact (bind_of_ok (Bitfield.make_of_fits fits 0 0xFF) _).trans
    (bind_of_ok (Bitfield.make_of_fits fits 0 0xFF) _)

-----------------------------------------------------------------------------------------
-- Chunk and piece info
-----------------------------------------------------------------------------------------

/-- `torrent_data_get_chunk_info`; `info` is the caller's struct before the call. -/
def getChunkInfo (td : TorrentData) (chunkId : Int) (info : ChunkInfo)
    : Except Fault (Exit × ChunkInfo) :=
  if td.chunkSize = 0 ∨ td.dataSize = 0 then .ok (.failure, info)
  else if td.pieceSize = 0 then .error .divisionByZero
  else
    let chunkOffset := u64 (td.chunkSize * u64OfInt chunkId)
    .ok
      (.success,
        {
          chunkId
          chunkOffset
          chunkSize := min td.chunkSize (u64Sub td.dataSize chunkOffset)
          pieceId := wrap32 (chunkOffset / td.pieceSize : Nat)
        })

/-- `torrent_data_get_piece_info`; `info` is the caller's struct before the call. -/
def getPieceInfo (td : TorrentData) (pieceId : Int) (info : PieceInfo) : Exit × PieceInfo :=
  if td.pieceSize = 0 ∨ td.dataSize = 0 then (.failure, info)
  else
    let pieceOffset := u64 (td.pieceSize * u64OfInt pieceId)
    (.success,
      { pieceId, pieceOffset, pieceSize := min td.pieceSize (u64Sub td.dataSize pieceOffset) })

/-- The test that `torrent_data_is_piece_complete` makes on one byte of `completed`. The
index is compared as a `size_t`, so one outside the bytes is passed over.
-/
def byteComplete (completed : Bitfield) (byteIndex : Int) : Bool :=
  if u64OfInt byteIndex < completed.bytesCount then
    completed.bytes[byteIndex.toNat]? == some 0xFF
  else true

/-- `torrent_data_is_piece_complete`. -/
def isPieceComplete (td : TorrentData) (pieceId : Int) (stack : Stack) : Except Fault Bool :=
  let pieceInfo := (td.getPieceInfo pieceId stack.pieceInfo).2
  if td.chunkSize = 0 then .error .divisionByZero
  else
    let chunksPerPiece := wrap32 (td.pieceSize / td.chunkSize : Nat)
    let uintsPerPiece := chunksPerPiece.tdiv 8
    if uintsPerPiece ≤ 0 then .ok true
    else
      match td.completed with
      | none => .error .nullPointer
      | some completed =>
          .ok
            ((List.range uintsPerPiece.toNat).all
              (fun i =>
                byteComplete completed (wrap32 (wrap32 (pieceInfo.pieceId * uintsPerPiece) + i))))

/-- `torrent_data_is_complete`. -/
def isComplete (td : TorrentData) : Bool :=
  if td.pieceCount = 0 then false else td.completedPieces = td.pieceCount

-----------------------------------------------------------------------------------------
-- Validation
-----------------------------------------------------------------------------------------

/-- Whether `strncmp` of at most `count` characters returns 0: it stops at a difference and
at a NUL that both strings share. `none` means that it reads past the end of one.
-/
def strncmpEqual : Nat → Bytes → Bytes → Option Bool
  | 0, _, _ => some true
  | count + 1, x :: xs, y :: ys =>
      if x ≠ y then some false else if x = 0 then some true else strncmpEqual count xs ys
  | _ + 1, _, _ => none

/-- `torrent_data_validate_piece`. The entry's position is an `int` product, compared and
used as a `size_t`; `SHA1Update` takes the length as a `uint32_t`.
-/
def validatePiece (sha1 : Bytes → Digest) (td : TorrentData) (info : PieceInfo)
    (piece : Bytes)
    : Except Fault Exit :=
  match td.sha1Hashes with
  | none => .ok .success
  | some table =>
      let sha1Offset := u64OfInt (wrap32 (info.pieceId * 20))
      if u64Sub table.length 20 < sha1Offset then .ok .failure
      else
        match strncmpEqual 20 (sha1 (piece.take (u32 info.pieceSize))).1 (table.drop sha1Offset) with
        | none => .error .sha1Bounds
        | some true => .ok .success
        | some false => .ok .failure

end TorrentData

end UvgTorrent

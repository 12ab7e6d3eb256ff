import UvgTorrent.Foundations.Tilings
import UvgTorrent.TorrentData.Initialisation

/-! The chunks and the pieces that the info functions give tile the data, unless the rounding of the
piece count wraps.
-/

namespace UvgTorrent

open Foundations

namespace TorrentData

variable {td next : TorrentData} {dataSize : Nat}

/-- The ranges that the info functions give for the ids in range tile the data, and each chunk lies
inside the piece that it names.
-/
def GeometryTiles (td : TorrentData) : Prop :=
  ∃ (chunks : Nat → ChunkInfo) (pieces : Nat → PieceInfo),
    (∀ chunk < td.chunkCount.toNat,
      ∀ info, td.getChunkInfo chunk info = .ok (.success, chunks chunk))
    ∧ (∀ piece < td.pieceCount.toNat,
        ∀ info, td.getPieceInfo piece info = (.success, pieces piece))
    ∧ Tiles td.dataSize td.chunkCount.toNat (fun chunk => (chunks chunk).chunkOffset)
        (fun chunk => (chunks chunk).chunkSize)
    ∧ Tiles td.dataSize td.pieceCount.toNat (fun piece => (pieces piece).pieceOffset)
        (fun piece => (pieces piece).pieceSize)
    ∧ ∀ chunk < td.chunkCount.toNat,
        ∃ piece < td.pieceCount.toNat,
          (chunks chunk).pieceId = piece
          ∧ (pieces piece).pieceOffset ≤ (chunks chunk).chunkOffset
          ∧ (chunks chunk).chunkOffset + (chunks chunk).chunkSize
            ≤ (pieces piece).pieceOffset + (pieces piece).pieceSize

/-- With exact counts, chunks of a size that divides the piece size tile the data inside their
pieces.
-/
theorem geometryTiles_of_exact (chunkPos : 0 < td.chunkSize) (piecePos : 0 < td.pieceSize)
    (divides : td.chunkSize ∣ td.pieceSize) (dataFits : td.dataSize < 2 ^ 64)
    (chunkCount : td.chunkCount = unitCount td.dataSize td.chunkSize)
    (pieceCount : td.pieceCount = unitCount td.dataSize td.pieceSize)
    (chunksFit : unitCount td.dataSize td.chunkSize < 2 ^ 31)
    (piecesFit : unitCount td.dataSize td.pieceSize < 2 ^ 31)
    : td.GeometryTiles := by
  have chunkStart {chunk : Nat} (inRange : chunk < unitCount td.dataSize td.chunkSize)
      : td.chunkSize * chunk < td.dataSize :=
    (unit_start_lt_iff chunkPos).mp inRange
  have pieceIn {chunk : Nat} (inRange : chunk < unitCount td.dataSize td.chunkSize)
      : td.pieceOf chunk < unitCount td.dataSize td.pieceSize :=
    (unit_start_lt_iff piecePos).mpr ((pieceStart_le chunk).trans_lt (chunkStart inRange))
  rw [GeometryTiles, chunkCount, pieceCount, Int.toNat_natCast, Int.toNat_natCast]
  refine ⟨fun chunk =>
      {
        chunkId := chunk
        pieceId := td.pieceOf chunk
        chunkSize := td.chunkLength chunk
        chunkOffset := td.chunkSize * chunk
      }, fun piece =>
      {
        pieceId := piece
        pieceSize := td.pieceLength piece
        pieceOffset := td.pieceSize * piece
      }, ?_, ?_, tiles_units chunkPos, tiles_units piecePos, ?_⟩
  · intro chunk inRange info
    exact getChunkInfo_inRange chunkPos piecePos dataFits (chunkStart inRange)
      (inRange.trans chunksFit) ((pieceIn inRange).trans piecesFit) info
  · intro piece inRange info
    exact getPieceInfo_inRange piecePos dataFits inRange (inRange.trans piecesFit) info
  · intro chunk inRange
    exact ⟨td.pieceOf chunk, pieceIn inRange, rfl, pieceStart_le chunk,
      unit_within divides piecePos (chunkStart inRange)⟩

/-- After an initialisation with a chunk size that divides the piece size, the chunks and the pieces
tile the data if and only if the sum that rounds the piece count up does not wrap.
-/
theorem geometryTiles_iff (untouched : td.initialized = false) (chunkPos : 0 < td.chunkSize)
    (piecePos : 0 < td.pieceSize) (divides : td.chunkSize ∣ td.pieceSize) (dataPos : 0 < dataSize)
    (pieceFits : td.pieceSize < 2 ^ 64) (dataFits : dataSize < 2 ^ 64)
    (chunksFit : unitCount dataSize td.chunkSize < 2 ^ 31)
    (piecesFit : unitCount dataSize td.pieceSize < 2 ^ 31)
    (set : td.setDataSize dataSize = .ok (.success, next))
    : next.GeometryTiles ↔ dataSize + td.pieceSize ≤ 2 ^ 64 := by
  have chunkSmaller := Nat.le_of_dvd piecePos divides
  have pieces := countKept_iff piecePos dataFits pieceFits
  have chunks := countKept_iff chunkPos dataFits (chunkSmaller.trans_lt pieceFits)
  rw [← initialisedWith_pieceCount] at pieces
  rw [← initialisedWith_chunkCount] at chunks
  rcases setDataSize_cases set with ⟨ready | noChunkSize, _⟩ | ⟨_, _, _, _, rfl⟩
  · rw [untouched] at ready
    cases ready
  · exact absurd noChunkSize (Nat.pos_iff_ne_zero.mp chunkPos)
  constructor
  · rintro ⟨_, _, _, _, _, tiles, _⟩
    by_contra wraps
    have counted := tiles.count_pos dataPos
    rw [initialisedWith_pieceCount,
      wrappedCount_eq_zero piecePos dataFits pieceFits (by omega)] at counted
    exact absurd counted (by decide)
  · intro rounds
    exact geometryTiles_of_exact chunkPos piecePos divides dataFits
      (chunks.mpr ⟨by omega, chunksFit⟩).1 (pieces.mpr ⟨rounds, piecesFit⟩).1 chunksFit piecesFit

/-- Witness: 100000 bytes have a short last chunk inside a short last piece. -/
theorem geometryTiles_shortLast
    : ∃ next,
        (configureFile none 100000 65536 16384).setDataSize 100000 = .ok (.success, next)
        ∧ next.GeometryTiles := by
  have set := @SingleFileFits.setDataSize none 100000 65536 16384 (by decide +kernel)
  refine ⟨_, set, ?_⟩
  exact (geometryTiles_iff rfl (by decide) (by decide) (by decide) (by decide) (by decide)
    (by decide) (by decide) (by decide) set).mpr (by decide)

/-- A piece length of -16384 in the metadata becomes a piece size near 2^64: the data has two chunks
and one piece, and the piece count is 0.
-/
theorem negative_piece_length_leaves_no_piece
    : ∃ next,
        (configureFile none 20000 (u64OfInt (-16384)) 16384).setDataSize 20000
          = .ok (.success, next)
        ∧ unitCount 20000 (u64OfInt (-16384)) = 1
        ∧ next.pieceCount = 0
        ∧ ¬ next.GeometryTiles := by
  have set := @SingleFileFits.setDataSize none 20000 (u64OfInt (-16384)) 16384 (by decide +kernel)
  have none : ((configureFile none 20000 (u64OfInt (-16384)) 16384).initialisedWith
      20000).pieceCount = 0 := by
    decide +kernel
  refine ⟨_, set, by decide, none, ?_⟩
  rintro ⟨_, _, _, _, _, tiles, _⟩
  have counted := tiles.count_pos (show 0 < 20000 by norm_num)
  rw [none] at counted
  exact absurd counted (by decide)

end TorrentData

end UvgTorrent

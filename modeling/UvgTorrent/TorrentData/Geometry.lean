import UvgTorrent.TorrentData.State

/-! Chunk and piece arithmetic of an initialized `TorrentData`, as exact integers.
Every `int` and `size_t` conversion of the info functions is shown to be harmless for the ids
in range, so later proofs use the closed forms below.
-/

namespace UvgTorrent

open Foundations

namespace TorrentData

variable {td : TorrentData}

/-- The number of chunks, by the struct's own count. -/
def chunkTotal (td : TorrentData) : Nat := td.chunkCount.toNat

/-- The number of pieces that the data is cut into. -/
def pieceTotal (td : TorrentData) : Nat := (td.dataSize + td.pieceSize - 1) / td.pieceSize

def chunkLength (td : TorrentData) (chunk : Nat) : Nat :=
  min td.chunkSize (td.dataSize - td.chunkSize * chunk)

def pieceLength (td : TorrentData) (piece : Nat) : Nat :=
  min td.pieceSize (td.dataSize - td.pieceSize * piece)

/-- The piece that a chunk belongs to. -/
def pieceOf (td : TorrentData) (chunk : Nat) : Nat := td.chunkSize * chunk / td.pieceSize

/-- The offset of a chunk in its piece. -/
def offsetInPiece (td : TorrentData) (chunk : Nat) : Nat :=
  td.chunkSize * chunk - td.pieceSize * td.pieceOf chunk

/-- The `completed` bit of a chunk. -/
def completedBit (td : TorrentData) (chunk : Nat) : Bool :=
  (td.completed.map (·.bit chunk)).getD false

/-- The `claimed` bit of a chunk. -/
def claimedBit (td : TorrentData) (chunk : Nat) : Bool :=
  (td.claimed.map (·.bit chunk)).getD false

/-- The buffer that the `data` map holds for a piece. -/
def heldPiece (td : TorrentData) (piece : Nat) : Option Bytes :=
  td.data.bind (·.find (formatInt piece))

/-- A bitfield with one bit for each chunk and every spare bit set. -/
def ChunkField (td : TorrentData) (field : Bitfield) : Prop :=
  field.bitCount = td.chunkTotal ∧ field.SpareSet

/-- What a successful `torrent_data_set_data_size` sets up and every later call keeps: chunks
that start inside the data, piece ids that fit their `int`, both bitfields, and buffers of the
piece size. The counts need not be exact: they are kept in an `int`.
-/
structure Initialised (td : TorrentData) : Prop where
  initialized : td.initialized = true
  chunkSize_pos : 0 < td.chunkSize
  pieceSize_pos : 0 < td.pieceSize
  pieceSize_lt : td.pieceSize < 2 ^ 64
  dataSize_lt : td.dataSize < 2 ^ 64
  chunkTotal_lt : td.chunkTotal < 2 ^ 31
  chunkStart_lt : ∀ chunk < td.chunkTotal, td.chunkSize * chunk < td.dataSize
  pieceOf_fits : ∀ chunk < td.chunkTotal, td.pieceOf chunk < 2 ^ 31
  completed_field : ∃ field, td.completed = some field ∧ td.ChunkField field
  claimed_field : ∃ field, td.claimed = some field ∧ td.ChunkField field
  data_map
    : ∃ map,
        td.data = some map
        ∧ ∀ key buffer,
            map.find key = some buffer → buffer.length = td.pieceSize ∧ td.pieceSize < 2 ^ 63

/-- The counts are those of the data: nothing was lost in the `int`s that keep them. -/
structure ExactCounts (td : TorrentData) : Prop where
  chunks : td.chunkTotal = (td.dataSize + td.chunkSize - 1) / td.chunkSize
  pieces : td.pieceCount = td.pieceTotal
  pieceTotal_lt : td.pieceTotal < 2 ^ 31

/-- An offset inside the data lies in a piece in range. -/
theorem div_pieceSize_lt (positive : 0 < td.pieceSize) {offset : Nat}
    (inside : offset < td.dataSize)
    : offset / td.pieceSize < td.pieceTotal := by
  apply (Nat.le_div_iff_mul_le positive).mpr
  have floor := Nat.div_mul_le_self offset td.pieceSize
  rw [Nat.succ_eq_add_one, Nat.add_mul, Nat.one_mul]
  omega

/-- A piece in range starts inside the data. -/
theorem pieceStart_lt (positive : 0 < td.pieceSize) {piece : Nat}
    (inRange : piece < td.pieceTotal)
    : td.pieceSize * piece < td.dataSize := by
  have bound : (piece + 1) * td.pieceSize ≤ td.dataSize + td.pieceSize - 1 :=
    (Nat.le_div_iff_mul_le positive).mp inRange
  rw [Nat.add_mul, Nat.one_mul, Nat.mul_comm] at bound
  omega

theorem pieceEnd_le (positive : 0 < td.pieceSize) {piece : Nat} (inRange : piece < td.pieceTotal)
    : td.pieceSize * piece + td.pieceLength piece ≤ td.dataSize := by
  have start := pieceStart_lt positive inRange
  unfold pieceLength
  omega

/-- The info of a piece in range, once the sizes are set. -/
theorem getPieceInfo_inRange (positive : 0 < td.pieceSize) (dataSize_lt : td.dataSize < 2 ^ 64)
    {piece : Nat} (inRange : piece < td.pieceTotal) (fits : piece < 2 ^ 31) (info : PieceInfo)
    : td.getPieceInfo piece info
      = (.success,
          {
            pieceId := piece
            pieceSize := td.pieceLength piece
            pieceOffset := td.pieceSize * piece
          }) := by
  have start := pieceStart_lt positive inRange
  have offset : u64 (td.pieceSize * u64OfInt piece) = td.pieceSize * piece := by
    rw [u64OfInt_natCast (by omega), u64_of_lt (by omega)]
  have guard : ¬ (td.pieceSize = 0 ∨ td.dataSize = 0) := by omega
  simp only [getPieceInfo, guard, if_false, offset,
    u64Sub_of_le (Nat.le_of_lt start) dataSize_lt, pieceLength]

/-- The info of a chunk that starts inside the data, once the sizes are set. -/
theorem getChunkInfo_inRange (chunkPos : 0 < td.chunkSize) (piecePos : 0 < td.pieceSize)
    (dataSize_lt : td.dataSize < 2 ^ 64) {chunk : Nat}
    (start : td.chunkSize * chunk < td.dataSize) (fits : chunk < 2 ^ 31)
    (pieceFits : td.pieceOf chunk < 2 ^ 31) (info : ChunkInfo)
    : td.getChunkInfo chunk info
      = .ok
          (.success,
            {
              chunkId := chunk
              pieceId := td.pieceOf chunk
              chunkSize := td.chunkLength chunk
              chunkOffset := td.chunkSize * chunk
            }) := by
  have offset : u64 (td.chunkSize * u64OfInt chunk) = td.chunkSize * chunk := by
    rw [u64OfInt_natCast (by omega), u64_of_lt (by omega)]
  have pieceId : wrap32 (td.chunkSize * chunk / td.pieceSize : Nat) = td.pieceOf chunk :=
    wrap32_natCast (n := td.pieceOf chunk) pieceFits
  have guard : ¬ (td.chunkSize = 0 ∨ td.dataSize = 0) := by omega
  have divisor : td.pieceSize ≠ 0 := Nat.pos_iff_ne_zero.mp piecePos
  simp only [getChunkInfo, guard, divisor, if_false, offset, pieceId,
    u64Sub_of_le (Nat.le_of_lt start) dataSize_lt, chunkLength]

theorem pieceStart_le (chunk : Nat)
    : td.pieceSize * td.pieceOf chunk ≤ td.chunkSize * chunk :=
  Nat.mul_div_le _ _

theorem offsetInPiece_lt (positive : 0 < td.pieceSize) (chunk : Nat)
    : td.offsetInPiece chunk < td.pieceSize := by
  have split := Nat.mod_add_div (td.chunkSize * chunk) td.pieceSize
  have small := Nat.mod_lt (td.chunkSize * chunk) positive
  unfold offsetInPiece pieceOf
  omega

namespace Initialised

theorem pieceOf_lt (ready : td.Initialised) {chunk : Nat} (inRange : chunk < td.chunkTotal)
    : td.pieceOf chunk < td.pieceTotal :=
  div_pieceSize_lt ready.pieceSize_pos (ready.chunkStart_lt chunk inRange)

theorem piece_end_le (ready : td.Initialised) {piece : Nat} (inRange : piece < td.pieceTotal)
    : td.pieceSize * piece + td.pieceLength piece ≤ td.dataSize :=
  pieceEnd_le ready.pieceSize_pos inRange

theorem pieceLength_pos (ready : td.Initialised) {chunk : Nat} (inRange : chunk < td.chunkTotal)
    : 0 < td.pieceLength (td.pieceOf chunk) := by
  have start := pieceStart_lt ready.pieceSize_pos (ready.pieceOf_lt inRange)
  have positive := ready.pieceSize_pos
  unfold pieceLength
  omega

/-- `torrent_data_get_chunk_info` on a chunk in range. -/
theorem getChunkInfo_eq (ready : td.Initialised) {chunk : Nat}
    (inRange : chunk < td.chunkTotal) (info : ChunkInfo)
    : td.getChunkInfo chunk info
      = .ok
          (.success,
            {
              chunkId := chunk
              pieceId := td.pieceOf chunk
              chunkSize := td.chunkLength chunk
              chunkOffset := td.chunkSize * chunk
            }) :=
  getChunkInfo_inRange ready.chunkSize_pos ready.pieceSize_pos ready.dataSize_lt
    (ready.chunkStart_lt chunk inRange) (inRange.trans ready.chunkTotal_lt)
    (ready.pieceOf_fits chunk inRange) info

/-- `torrent_data_get_piece_info` on a piece in range. -/
theorem getPieceInfo_eq (ready : td.Initialised) {piece : Nat}
    (inRange : piece < td.pieceTotal) (fits : piece < 2 ^ 31) (info : PieceInfo)
    : td.getPieceInfo piece info
      = (.success,
          {
            pieceId := piece
            pieceSize := td.pieceLength piece
            pieceOffset := td.pieceSize * piece
          }) :=
  getPieceInfo_inRange ready.pieceSize_pos ready.dataSize_lt inRange fits info

end Initialised

-----------------------------------------------------------------------------------------
-- Piece completeness
-----------------------------------------------------------------------------------------

/-- The number of bytes of `completed` that the completeness test reads for a piece. -/
def uintsPerPiece (td : TorrentData) : Int :=
  (wrap32 (td.pieceSize / td.chunkSize : Nat)).tdiv 8

/-- The value of `torrent_data_is_piece_complete` on a given `completed` field. -/
def pieceDone (td : TorrentData) (completed : Bitfield) (piece : Nat) : Bool :=
  if td.uintsPerPiece ≤ 0 then true
  else
    (List.range td.uintsPerPiece.toNat).all
      (fun i => byteComplete completed (wrap32 (wrap32 (piece * td.uintsPerPiece) + i)))

/-- `torrent_data_is_piece_complete`, once the sizes are set: it fails only on bytes of a missing
bitfield.
-/
theorem isPieceComplete_of_sizes (chunkPos : td.chunkSize ≠ 0) (piecePos : td.pieceSize ≠ 0)
    (dataPos : td.dataSize ≠ 0) (piece : Nat) (stack : Stack)
    : td.isPieceComplete piece stack
      = match td.completed with
        | none => if td.uintsPerPiece ≤ 0 then .ok true else .error .nullPointer
        | some completed => .ok (td.pieceDone completed piece) := by
  have info : (td.getPieceInfo piece stack.pieceInfo).2.pieceId = piece := by
    rw [getPieceInfo, if_neg (by omega)]
  unfold isPieceComplete pieceDone
  rw [if_neg chunkPos]
  dsimp only
  rw [info]
  change (if td.uintsPerPiece ≤ 0 then _ else _) = _
  cases td.completed with
  | none => split <;> rfl
  | some completed => split <;> simp [uintsPerPiece]

theorem Initialised.isPieceComplete_eq (ready : td.Initialised) {piece : Nat}
    (inRange : piece < td.pieceTotal) {completed : Bitfield}
    (field : td.completed = some completed) (stack : Stack)
    : td.isPieceComplete piece stack = .ok (td.pieceDone completed piece) := by
  have start := pieceStart_lt ready.pieceSize_pos inRange
  rw [isPieceComplete_of_sizes (Nat.pos_iff_ne_zero.mp ready.chunkSize_pos)
    (Nat.pos_iff_ne_zero.mp ready.pieceSize_pos) (by omega), field]

/-- Setting a bit never makes a byte incomplete. -/
theorem byteComplete_setBit {completed : Bitfield} {chunk : Nat}
    (inRange : chunk < completed.bitCount) (small : chunk < 2 ^ 64) {byteIndex : Int}
    (complete : byteComplete completed byteIndex = true)
    : byteComplete (completed.setBit chunk 1) byteIndex = true := by
  unfold byteComplete at complete ⊢
  rw [Bitfield.setBit_bytesCount]
  split
  · rename_i inside
    rw [if_pos inside] at complete
    by_cases stored : byteIndex.toNat < completed.bytesCount
    · have bits := (Bitfield.byte_full_iff_bits stored).mp (by simpa using complete)
      have kept : (completed.setBit chunk 1).bytes[byteIndex.toNat]? = some 0xFF := by
        refine (Bitfield.byte_full_iff_bits (by simpa using stored)).mpr ?_
        intro index inByte
        rw [Bitfield.bit_setBit_one inRange small, bits index inByte]
        simp
      simp [kept]
    · have absent : completed.bytes[byteIndex.toNat]? = none :=
        List.getElem?_eq_none (Nat.le_of_not_lt stored)
      simp [absent] at complete
  · rfl

/-- A piece that is complete stays complete when further chunks are marked. -/
theorem pieceDone_setBit {completed : Bitfield} {chunk : Nat}
    (inRange : chunk < completed.bitCount) (small : chunk < 2 ^ 64) {piece : Nat}
    (done : td.pieceDone completed piece = true)
    : td.pieceDone (completed.setBit chunk 1) piece = true := by
  unfold pieceDone at done ⊢
  split
  · rfl
  · rename_i positive
    rw [if_neg positive, List.all_eq_true] at done
    rw [List.all_eq_true]
    exact fun i member => byteComplete_setBit inRange small (done i member)

/-- `8 * chunk_size` divides `piece_size`, and the quotient fits the `int` it is kept in. -/
structure Aligned (td : TorrentData) : Prop where
  divides : 8 * td.chunkSize ∣ td.pieceSize
  fits : td.pieceSize / td.chunkSize < 2 ^ 31

/-- The number of whole bytes of chunks in an aligned piece. -/
theorem Aligned.exists_bytes (aligned : td.Aligned) (ready : td.Initialised)
    : ∃ count,
        0 < count
        ∧ td.pieceSize = td.chunkSize * (8 * count)
        ∧ td.uintsPerPiece = count
        ∧ 8 * count < 2 ^ 31 := by
  obtain ⟨count, product⟩ := aligned.divides
  have size : td.pieceSize = td.chunkSize * (8 * count) := by
    rw [product]
    ring
  have quotient : td.pieceSize / td.chunkSize = 8 * count := by
    rw [size, Nat.mul_div_cancel_left _ ready.chunkSize_pos]
  have fits := aligned.fits
  have positive : 0 < count := by
    rcases Nat.eq_zero_or_pos count with rfl | positive
    · have nonzero := ready.pieceSize_pos
      simp [size] at nonzero
    · exact positive
  refine ⟨count, positive, size, ?_, by omega⟩
  rw [uintsPerPiece, quotient, wrap32_natCast (by omega)]
  push_cast
  exact Int.mul_tdiv_cancel_left _ (by norm_num)

/-- An aligned chunk's piece is found from its id alone. -/
theorem pieceOf_eq_div {count : Nat} (positive : 0 < td.chunkSize)
    (size : td.pieceSize = td.chunkSize * (8 * count)) (chunk : Nat)
    : td.pieceOf chunk = chunk / (8 * count) := by
  rw [pieceOf, size, Nat.mul_div_mul_left _ _ positive]

/-- With exact counts, every piece in range has a chunk in range. -/
theorem Aligned.exists_chunk (aligned : td.Aligned) (ready : td.Initialised)
    (exact : td.ExactCounts) {piece : Nat} (inRange : piece < td.pieceTotal)
    : ∃ chunk < td.chunkTotal, td.pieceOf chunk = piece := by
  obtain ⟨count, positive, size, uints, fits⟩ := aligned.exists_bytes ready
  refine ⟨piece * (8 * count), ?_, ?_⟩
  · have start := pieceStart_lt ready.pieceSize_pos inRange
    rw [size, Nat.mul_assoc] at start
    rw [exact.chunks]
    apply (Nat.le_div_iff_mul_le ready.chunkSize_pos).mpr
    have reorder : td.chunkSize * (8 * count * piece)
        = piece * (8 * count) * td.chunkSize := by
      ring
    rw [reorder] at start
    rw [Nat.succ_eq_add_one, Nat.add_mul, Nat.one_mul]
    omega
  · rw [pieceOf_eq_div ready.chunkSize_pos size, Nat.mul_div_cancel _ (by omega)]

/-- For an aligned piece, the byte test answers whether every chunk of the piece is marked.
Witness: the piece's chunks fill whole bytes, bytes past the end are passed over, and the
spare bits of the last byte are set.
-/
theorem Aligned.pieceDone_iff (aligned : td.Aligned) (ready : td.Initialised)
    {completed : Bitfield} (field : td.ChunkField completed) {piece : Nat}
    (reached : ∃ chunk < td.chunkTotal, td.pieceOf chunk = piece)
    : td.pieceDone completed piece = true
      ↔ ∀ chunk < td.chunkTotal, td.pieceOf chunk = piece → completed.bit chunk = true := by
  obtain ⟨count, positive, size, uints, fits⟩ := aligned.exists_bytes ready
  obtain ⟨counted, spare⟩ := field
  have chunks := ready.chunkTotal_lt
  have bytes := completed.bytesCount_eq
  -- the first byte of the piece is a byte of the field
  have firstByte : piece * (8 * count) < td.chunkTotal := by
    obtain ⟨chunk, inRange, member⟩ := reached
    rw [pieceOf_eq_div ready.chunkSize_pos size] at member
    have lower := Nat.div_mul_le_self chunk (8 * count)
    rw [member] at lower
    omega
  have index (i : Nat) (member : i < count)
      : wrap32 (wrap32 ((piece : Int) * count) + i) = (piece * count + i : Nat) := by
    have product : ((piece : Int) * count) = (piece * count : Nat) := by push_cast; ring
    have reorder : piece * (8 * count) = 8 * (piece * count) := by ring
    rw [product, wrap32_natCast (by omega), ← Nat.cast_add, wrap32_natCast (by omega)]
  have reading (i : Nat) (member : i < count)
      : byteComplete completed (wrap32 (wrap32 ((piece : Int) * count) + i)) = true
        ↔ ∀ chunk < td.chunkTotal, chunk / 8 = piece * count + i → completed.bit chunk = true := by
    have reorder : piece * (8 * count) = 8 * (piece * count) := by ring
    rw [index i member, byteComplete, u64OfInt_natCast (by omega), Int.toNat_natCast]
    by_cases inside : piece * count + i < completed.bytesCount
    · rw [if_pos inside, beq_iff_eq, Bitfield.byte_full_iff_bits inside]
      constructor
      · intro all chunk _ inByte
        exact all chunk inByte
      · intro all chunk inByte
        rcases Nat.lt_or_ge chunk td.chunkTotal with early | past
        · exact all chunk early inByte
        · exact spare chunk (by omega) (by omega)
    · rw [if_neg inside]
      simp only [true_iff]
      intro chunk early inByte
      omega
  have notEmpty : ¬ (count : Int) ≤ 0 := by omega
  simp only [pieceDone, uints, notEmpty, if_false, Int.toNat_natCast, List.all_eq_true,
    List.mem_range]
  constructor
  · intro all chunk early member
    rw [pieceOf_eq_div ready.chunkSize_pos size] at member
    have lower := Nat.div_mul_le_self chunk (8 * count)
    have upper := Nat.lt_div_mul_add (a := chunk) (b := 8 * count) (by omega)
    rw [member] at lower upper
    have reorder : piece * (8 * count) = 8 * (piece * count) := by ring
    have within : chunk / 8 - piece * count < count := by omega
    exact (reading (chunk / 8 - piece * count) within).mp
      (all (chunk / 8 - piece * count) within) chunk early (by omega)
  · intro all i member
    refine (reading i member).mpr ?_
    intro chunk early inByte
    apply all chunk early
    rw [pieceOf_eq_div ready.chunkSize_pos size]
    have reorder : piece * (8 * count) = 8 * (piece * count) := by ring
    have next : (piece + 1) * (8 * count) = 8 * (piece * count) + 8 * count := by ring
    apply Nat.div_eq_of_lt_le
    · omega
    · omega

end TorrentData

end UvgTorrent

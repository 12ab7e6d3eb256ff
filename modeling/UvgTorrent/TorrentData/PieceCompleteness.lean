import UvgTorrent.TorrentData.Setup

/-! `torrent_data_is_piece_complete` against the bits of a piece's chunks. The test reads whole
bytes, as many for each piece as the chunks of a piece fill, so it answers for other chunks than
those of the piece as soon as pieces do not begin and end with a byte.
-/

namespace UvgTorrent

open Foundations

namespace TorrentData

variable {td next : TorrentData} {field : Bitfield} {piece chunk : Nat} {stack : Stack}

-----------------------------------------------------------------------------------------
-- The chunks that the test looks at
-----------------------------------------------------------------------------------------

/-- The test of a piece reads the byte of `completed` with the bit of a chunk. -/
def TestReads (td : TorrentData) (piece chunk : Nat) : Prop :=
  ∃ i : Nat,
    (i : Int) < td.uintsPerPiece
    ∧ wrap32 (wrap32 (piece * td.uintsPerPiece) + i) = (chunk / 8 : Nat)

/-- A byte passes when every bit in it that is not spare is set. -/
theorem byteComplete_iff (spare : field.SpareSet) (small : field.bitCount < 2 ^ 31)
    {byteIndex : Int} (lower : -2 ^ 31 ≤ byteIndex) (upper : byteIndex < 2 ^ 31)
    : byteComplete field byteIndex = true
      ↔ ∀ chunk < field.bitCount, byteIndex = (chunk / 8 : Nat) → field.bit chunk = true := by
  have bytes := field.bytesCount_eq
  unfold byteComplete
  by_cases inside : u64OfInt byteIndex < field.bytesCount
  · have nonneg : 0 ≤ byteIndex := by
      by_contra negative
      unfold u64OfInt at inside
      omega
    obtain ⟨position, rfl⟩ := Int.eq_ofNat_of_zero_le nonneg
    rw [if_pos inside, beq_iff_eq, Int.toNat_natCast]
    rw [u64OfInt_natCast (by omega)] at inside
    rw [Bitfield.byte_full_iff_bits inside]
    constructor
    · intro all chunk _ here
      exact all chunk (by omega)
    · intro all chunk here
      rcases Nat.lt_or_ge chunk field.bitCount with early | past
      · exact all chunk early (by omega)
      · exact spare chunk past (by omega)
  · rw [if_neg inside]
    refine iff_of_true rfl fun chunk early here => absurd ?_ inside
    rw [here, u64OfInt_natCast (by omega)]
    omega

/-- The test passes when every chunk that it looks at is marked. -/
theorem pieceDone_iff (spare : field.SpareSet) (small : field.bitCount < 2 ^ 31)
    : td.pieceDone field piece = true
      ↔ ∀ chunk < field.bitCount, td.TestReads piece chunk → field.bit chunk = true := by
  have reads (i : Nat)
      : byteComplete field (wrap32 (wrap32 (piece * td.uintsPerPiece) + i)) = true
        ↔ ∀ chunk < field.bitCount,
            wrap32 (wrap32 (piece * td.uintsPerPiece) + i) = (chunk / 8 : Nat)
            → field.bit chunk = true :=
    byteComplete_iff spare small (by unfold wrap32; omega) (by unfold wrap32; omega)
  unfold pieceDone
  by_cases none : td.uintsPerPiece ≤ 0
  · rw [if_pos none]
    refine iff_of_true rfl ?_
    rintro chunk _ ⟨i, some, _⟩
    omega
  · simp only [if_neg none, List.all_eq_true, List.mem_range, reads]
    constructor
    · rintro all chunk early ⟨i, some, here⟩
      exact all i (by omega) chunk early here
    · intro all i some chunk early here
      exact all chunk early ⟨i, by omega, here⟩

-----------------------------------------------------------------------------------------
-- The states of `completed`
-----------------------------------------------------------------------------------------

/-- The structs that calls of `bitfield_set_bit` on `completed` lead to. -/
inductive Marked (td : TorrentData) : TorrentData → Prop
  | start : Marked td td
  | setBit {next : TorrentData} {field : Bitfield} {index value : Int} (marked : Marked td next)
    (found : next.completed = some field) (lower : -2 ^ 31 ≤ index) (upper : index < 2 ^ 31)
    : Marked td { next with completed := some (field.setBit index value) }

/-- The test answers whether every chunk of the piece is marked. -/
def PieceAgrees (td : TorrentData) (piece : Nat) (stack : Stack) : Prop :=
  td.isPieceComplete piece stack = .ok true
  ↔ ∀ chunk : Nat,
      (chunk : Int) < td.chunkCount
      → ∀ info,
          td.getChunkInfo chunk stack.chunkInfo = .ok (.success, info)
          → info.pieceId = piece
          → td.completedBit chunk = true

/-- Marking changes `completed` alone, which keeps its size and its spare bits. -/
theorem Marked.kept (marked : td.Marked next) (small : td.chunkTotal < 2 ^ 31)
    (found : td.completed = some field) (valid : td.ChunkField field)
    : ∃ marks, next = { td with completed := some marks } ∧ td.ChunkField marks := by
  induction marked with
  | start => exact ⟨field, by rw [← found], valid⟩
  | setBit marked present lower upper ih =>
      obtain ⟨marks, rfl, counted, spare⟩ := ih
      obtain rfl := Option.some.inj present
      exact ⟨_, rfl, by rw [Bitfield.setBit_bitCount, counted],
        spare.setBit lower upper (by omega) _⟩

/-- Without a bitfield nothing is marked. -/
theorem Marked.eq_of_none (marked : td.Marked next) (missing : td.completed = none)
    : next = td := by
  induction marked with
  | start => rfl
  | setBit marked present lower upper ih =>
      rw [ih, missing] at present
      cases present

/-- Some calls mark every chunk but one. Witness: induction on how many chunks were visited. -/
theorem exists_marked_but (small : td.chunkTotal < 2 ^ 31) (found : td.completed = some field)
    (counted : field.bitCount = td.chunkTotal) (left : Nat) {count : Nat}
    (within : count ≤ td.chunkTotal)
    : ∃ marks : Bitfield,
        td.Marked { td with completed := some marks }
        ∧ marks.bitCount = td.chunkTotal
        ∧ ∀ chunk < count, marks.bit chunk = decide (chunk ≠ left) := by
  induction count with
  | zero => exact ⟨field, by rw [← found]; exact .start, counted, fun chunk early => by omega⟩
  | succ count ih =>
      obtain ⟨marks, marked, sized, bits⟩ := ih (by omega)
      have next : td.Marked
          {
            td with
            completed := some (marks.setBit (count : Nat) (if count = left then 0 else 1))
          } :=
        marked.setBit rfl (by omega) (by omega)
      refine ⟨_, next, by rw [Bitfield.setBit_bitCount, sized], fun chunk early => ?_⟩
      by_cases earlier : chunk < count
      · rw [Bitfield.bit_setBit_of_ne (by omega) (by omega) (by omega) _ (by omega),
          bits chunk earlier]
      · obtain rfl : chunk = count := by omega
        split
        · rename_i here
          rw [Bitfield.bit_setBit_zero (by omega) (by omega)]
          simp [here]
        · rename_i there
          rw [Bitfield.bit_setBit_one (by omega) (by omega)]
          simp [there]

-----------------------------------------------------------------------------------------
-- When the test agrees
-----------------------------------------------------------------------------------------

/-- The bytes that the test of a piece reads hold the chunks of the piece and no others. -/
def ReadsOwnBytes (td : TorrentData) (piece : Nat) : Prop :=
  ∀ chunk < td.chunkTotal, td.TestReads piece chunk ↔ td.pieceOf chunk = piece

/-- The chunks that `torrent_data_get_chunk_info` gives to a piece. -/
theorem chunkInfo_pieceId_iff (fresh : td.Fresh) (larger : td.chunkSize ≤ td.pieceSize)
    (inRange : chunk < td.chunkTotal) (info : ChunkInfo)
    : (∃ filled, td.getChunkInfo chunk info = .ok (.success, filled) ∧ filled.pieceId = piece)
      ↔ td.pieceOf chunk = piece := by
  have counted : 0 ≤ td.chunkCount := by
    unfold chunkTotal at inRange
    omega
  have ready := fresh.initialised counted (fun _ => fresh.pieceOf_fits_of_le larger)
  rw [ready.getChunkInfo_eq inRange]
  constructor
  · rintro ⟨filled, same, named⟩
    cases same
    exact Int.ofNat_inj.mp named
  · intro named
    exact ⟨_, rfl, Int.ofNat_inj.mpr named⟩

/-- The test on a bitfield agrees with the chunks exactly when looking at the chunks that it reads
is as good as looking at those of the piece.
-/
theorem pieceAgrees_iff (fresh : td.Fresh) (larger : td.chunkSize ≤ td.pieceSize)
    (nonempty : td.dataSize ≠ 0) (valid : td.ChunkField field)
    : { td with completed := some field }.PieceAgrees piece stack
      ↔ ((∀ chunk < td.chunkTotal, td.TestReads piece chunk → field.bit chunk = true)
        ↔ ∀ chunk < td.chunkTotal, td.pieceOf chunk = piece → field.bit chunk = true) := by
  obtain ⟨counted, spare⟩ := valid
  have small := fresh.chunkTotal_lt
  have done : td.pieceDone field piece = true
      ↔ ∀ chunk < field.bitCount, td.TestReads piece chunk → field.bit chunk = true :=
    pieceDone_iff spare (by omega)
  have tested : { td with completed := some field }.isPieceComplete piece stack = .ok true
      ↔ td.pieceDone field piece = true := by
    rw [@isPieceComplete_of_sizes { td with completed := some field }
      (Nat.pos_iff_ne_zero.mp fresh.chunkSize_pos) (Nat.pos_iff_ne_zero.mp fresh.pieceSize_pos)
      nonempty]
    dsimp only
    rw [Except.ok.injEq]
    rfl
  have below (chunk : Nat) : (chunk : Int) < td.chunkCount ↔ chunk < td.chunkTotal := by
    unfold chunkTotal
    omega
  have marked
      : (∀ chunk : Nat,
          (chunk : Int) < td.chunkCount
          → ∀ info,
              td.getChunkInfo chunk stack.chunkInfo = .ok (.success, info)
              → info.pieceId = piece
              → field.bit chunk = true)
        ↔ ∀ chunk < td.chunkTotal, td.pieceOf chunk = piece → field.bit chunk = true := by
    constructor
    · intro all chunk inRange named
      obtain ⟨info, given, same⟩ :=
        (chunkInfo_pieceId_iff fresh larger inRange stack.chunkInfo).mpr named
      exact all chunk ((below chunk).mpr inRange) info given same
    · intro all chunk inRange info given same
      have early := (below chunk).mp inRange
      exact all chunk early
        ((chunkInfo_pieceId_iff fresh larger early stack.chunkInfo).mp ⟨info, given, same⟩)
  rw [counted] at done
  exact (iff_congr (tested.trans done) marked)

/-- The sizes of a struct with pieces are not 0. -/
theorem Fresh.dataSize_ne_zero (fresh : td.Fresh) (inRange : (piece : Int) < td.pieceCount)
    : td.dataSize ≠ 0 := by
  intro empty
  have positive := fresh.pieceSize_pos
  have fits := fresh.pieceSize_lt
  have none : u64 (td.dataSize + u64Sub td.pieceSize 1) / td.pieceSize = 0 := by
    rw [empty, Nat.zero_add, u64Sub_of_le positive fits, u64_of_lt (by omega)]
    exact Nat.div_eq_of_lt (by omega)
  have counted := fresh.pieceCount
  rw [none] at counted
  simp [wrap32] at counted
  omega

/-- A piece's completeness agrees with its chunks, in every state of `completed`, exactly when the
test of the piece reads the bytes of its chunks, and these can be read at all.
-/
theorem isPieceComplete_agrees_iff (started : td.JustInitialised)
    (divides : td.chunkSize ∣ td.pieceSize) (inRange : (piece : Int) < td.pieceCount)
    : (∀ next stack, td.Marked next → next.PieceAgrees piece stack)
      ↔ td.ReadsOwnBytes piece ∧ (0 < td.uintsPerPiece → 0 ≤ td.chunkCount) := by
  have fresh := started.fresh
  have larger := Nat.le_of_dvd fresh.pieceSize_pos divides
  have nonempty := fresh.dataSize_ne_zero inRange
  have small := fresh.chunkTotal_lt
  by_cases counted : 0 ≤ td.chunkCount
  · obtain ⟨field, made, valid, _⟩ := fresh.newField counted
    have found := fresh.completed.trans made
    rw [and_iff_left (fun _ => counted)]
    constructor
    · intro agrees chunk early
      -- the only chunk that is not marked decides
      obtain ⟨marks, marked, _, bits⟩ :=
        exists_marked_but small found valid.1 chunk (Nat.le_refl td.chunkTotal)
      obtain ⟨_, same, marksValid⟩ := marked.kept small found valid
      obtain rfl : marks = _ := Option.some.inj (congrArg TorrentData.completed same)
      have both := (pieceAgrees_iff fresh larger nonempty marksValid).mp
        (agrees _ ⟨⟨0, 0, 0, 0⟩, ⟨0, 0, 0⟩⟩ marked)
      have decides (test : Nat → Prop)
          : (∀ other < td.chunkTotal, test other → marks.bit other = true) ↔ ¬ test chunk := by
        constructor
        · intro all tested
          have bit := all chunk early tested
          rw [bits chunk early] at bit
          simp at bit
        · intro untested other inside tested
          rw [bits other inside, decide_eq_true_eq]
          rintro rfl
          exact untested tested
      rw [decides, decides (fun other => td.pieceOf other = piece)] at both
      exact not_iff_not.mp both
    · intro own next stack marked
      obtain ⟨marks, rfl, marksValid⟩ := marked.kept small found valid
      refine (pieceAgrees_iff fresh larger nonempty marksValid).mpr ?_
      constructor
      · exact fun all chunk early named => all chunk early ((own chunk early).mpr named)
      · exact fun all chunk early read => all chunk early ((own chunk early).mp read)
  · have missing : td.completed = none := by
      have bounds : -2 ^ 31 ≤ td.chunkCount := by
        rw [fresh.chunkCount, wrap32]
        omega
      rw [fresh.completed, Bitfield.new, if_neg]
      unfold u64OfInt
      omega
    have total : td.chunkTotal = 0 := by
      unfold chunkTotal
      omega
    have own : td.ReadsOwnBytes piece := by
      intro chunk early
      omega
    have answers (stack : Stack) : td.PieceAgrees piece stack ↔ td.uintsPerPiece ≤ 0 := by
      unfold PieceAgrees
      rw [isPieceComplete_of_sizes (Nat.pos_iff_ne_zero.mp fresh.chunkSize_pos)
        (Nat.pos_iff_ne_zero.mp fresh.pieceSize_pos) nonempty, missing,
        iff_true_right (fun chunk early => by omega)]
      split <;> simp_all
    rw [and_iff_right own]
    constructor
    · intro agrees positive
      have none := (answers ⟨⟨0, 0, 0, 0⟩, ⟨0, 0, 0⟩⟩).mp (agrees td _ .start)
      omega
    · intro readable next stack marked
      rw [marked.eq_of_none missing]
      refine (answers stack).mpr (Int.not_lt.mp fun positive => ?_)
      exact absurd (readable positive) counted

-----------------------------------------------------------------------------------------
-- The sizes for which the test agrees
-----------------------------------------------------------------------------------------

/-- The number of chunks that a full piece is cut into. -/
def chunksPerPiece (td : TorrentData) : Nat := td.pieceSize / td.chunkSize

theorem pieceOf_eq_div_chunksPerPiece (positive : 0 < td.chunkSize)
    (divides : td.chunkSize ∣ td.pieceSize) (chunk : Nat)
    : td.pieceOf chunk = chunk / td.chunksPerPiece := by
  obtain ⟨count, size⟩ := divides
  rw [pieceOf, chunksPerPiece, size, Nat.mul_div_cancel_left _ positive,
    Nat.mul_div_mul_left _ _ positive]

/-- With exact counts the first chunk of a piece in range is in range. -/
theorem ExactCounts.firstChunk_lt (exact : td.ExactCounts) (ready : td.Initialised)
    (divides : td.chunkSize ∣ td.pieceSize) (inRange : piece < td.pieceTotal)
    : piece * td.chunksPerPiece < td.chunkTotal := by
  have start := pieceStart_lt ready.pieceSize_pos inRange
  have size := Nat.div_mul_cancel divides
  have reorder : piece * td.chunksPerPiece * td.chunkSize = td.pieceSize * piece := by
    rw [chunksPerPiece, Nat.mul_assoc, size, Nat.mul_comm]
  rw [exact.chunks]
  apply (Nat.le_div_iff_mul_le ready.chunkSize_pos).mpr
  rw [Nat.succ_eq_add_one, Nat.add_mul, Nat.one_mul, reorder]
  omega

/-- A quotient that fits its `int` gives the number of whole bytes. -/
theorem uintsPerPiece_eq (fits : td.chunksPerPiece < 2 ^ 31)
    : td.uintsPerPiece = (td.chunksPerPiece / 8 : Nat) := by
  rw [uintsPerPiece]
  change (wrap32 td.chunksPerPiece).tdiv 8 = _
  rw [wrap32_natCast fits, Int.tdiv_eq_ediv_of_nonneg (by omega)]
  omega

/-- The bytes that are read, where no index is cut to its `int`. -/
theorem testReads_iff {count : Nat} (uints : td.uintsPerPiece = count)
    (fits : piece * count + count ≤ 2 ^ 31)
    : td.TestReads piece chunk
      ↔ piece * count ≤ chunk / 8 ∧ chunk / 8 < piece * count + count := by
  have index (i : Nat) (member : i < count)
      : wrap32 (wrap32 ((piece : Int) * count) + i) = (piece * count + i : Nat) := by
    rw [← Nat.cast_mul, wrap32_natCast (by omega), ← Nat.cast_add, wrap32_natCast (by omega)]
  unfold TestReads
  rw [uints]
  constructor
  · rintro ⟨i, member, here⟩
    rw [index i (by omega)] at here
    omega
  · rintro ⟨lower, upper⟩
    refine ⟨chunk / 8 - piece * count, by omega, ?_⟩
    rw [index _ (by omega)]
    omega

/-- With exact counts the test is right when a piece has a multiple of eight chunks, and on the
first piece when it is the only one and its chunks lie in the bytes that are read.
-/
theorem readsOwnBytes_iff (ready : td.Initialised) (exact : td.ExactCounts)
    (divides : td.chunkSize ∣ td.pieceSize) (inRange : piece < td.pieceTotal)
    : td.ReadsOwnBytes piece
      ↔ td.chunksPerPiece < 2 ^ 31 ∧ 8 ∣ td.chunksPerPiece
        ∨ piece = 0 ∧ td.chunkTotal ≤ 8 * td.uintsPerPiece := by
  have first := exact.firstChunk_lt ready divides inRange
  have small := ready.chunkTotal_lt
  have positive : 0 < td.chunksPerPiece :=
    Nat.div_pos (Nat.le_of_dvd ready.pieceSize_pos divides) ready.chunkSize_pos
  have uintsSmall : td.uintsPerPiece < 2 ^ 28 := by
    have quotient : wrap32 (td.pieceSize / td.chunkSize : Nat) ≤ 2 ^ 31 - 1 := by
      unfold wrap32
      omega
    exact (Int.tdiv_le_tdiv (by norm_num) quotient).trans_lt (by decide)
  have belongs (chunk : Nat)
      : td.pieceOf chunk = piece
        ↔ piece * td.chunksPerPiece ≤ chunk
          ∧ chunk < piece * td.chunksPerPiece + td.chunksPerPiece := by
    rw [pieceOf_eq_div_chunksPerPiece ready.chunkSize_pos divides, Nat.div_eq_iff positive,
      Nat.mul_comm]
    omega
  unfold ReadsOwnBytes
  simp only [belongs]
  rcases Nat.eq_zero_or_pos piece with rfl | later
  · -- the first piece: the bytes from the first one on
    by_cases some : 0 < td.uintsPerPiece
    · obtain ⟨count, uints⟩ := Int.eq_ofNat_of_zero_le (Int.le_of_lt some)
      have reads (chunk : Nat) : td.TestReads 0 chunk ↔ _ := testReads_iff uints (by omega)
      simp only [reads, uints, true_and]
      by_cases fits : td.chunksPerPiece < 2 ^ 31
      · rw [uintsPerPiece_eq fits] at uints
        constructor
        · intro own
          have last := own (8 * count)
          omega
        · intro sizes chunk early
          omega
      · constructor
        · intro own
          have last := own (8 * count)
          omega
        · intro sizes chunk early
          omega
    · have unread : ¬ td.TestReads 0 0 := by
        rintro ⟨i, member, _⟩
        omega
      constructor
      · intro own
        exact absurd ((own 0 (by omega)).mpr (by omega)) unread
      · rintro (⟨fits, bytes⟩ | ⟨_, within⟩)
        · rw [uintsPerPiece_eq fits] at some
          omega
        · omega
  · -- a later piece: its chunks are in range, so nothing is cut
    have fits : td.chunksPerPiece < 2 ^ 31 := by
      have atLeast := Nat.le_mul_of_pos_left td.chunksPerPiece later
      omega
    have uints := uintsPerPiece_eq fits
    have bytes : td.chunksPerPiece / 8 * 8 ≤ td.chunksPerPiece := Nat.div_mul_le_self _ 8
    have scaled : piece * (td.chunksPerPiece / 8) * 8 ≤ piece * td.chunksPerPiece := by
      rw [Nat.mul_assoc]
      exact Nat.mul_le_mul_left piece bytes
    have reads (chunk : Nat) : td.TestReads piece chunk ↔ _ := testReads_iff uints (by omega)
    simp only [reads]
    rw [or_iff_left (by omega), and_iff_right fits]
    constructor
    · intro own
      by_contra uneven
      -- the test then begins before the piece does
      have shorter : td.chunksPerPiece / 8 * 8 < td.chunksPerPiece := by omega
      have before : piece * (td.chunksPerPiece / 8) * 8 < piece * td.chunksPerPiece := by
        rw [Nat.mul_assoc]
        exact Nat.mul_lt_mul_of_pos_left shorter later
      have firstRead := own (piece * (td.chunksPerPiece / 8) * 8) (by omega)
      have atFirst := own (piece * td.chunksPerPiece) first
      omega
    · rintro ⟨count, quotient⟩ chunk early
      have reorder : piece * (8 * count) = 8 * (piece * count) := by ring
      rw [quotient, Nat.mul_div_cancel_left _ (by norm_num : 0 < 8), reorder]
      omega

/-- A torrent of two pieces, with eight chunks in each. -/
theorem isPieceComplete_agrees_eight
    : (ofSingleFile none 262144 131072 16384).JustInitialised
      ∧ (∀ next stack,
          (ofSingleFile none 262144 131072 16384).Marked next → next.PieceAgrees 1 stack) := by
  have started : (ofSingleFile none 262144 131072 16384).JustInitialised :=
    SingleFileFits.justInitialised (by decide +kernel)
  have chunks : (ofSingleFile none 262144 131072 16384).chunkTotal = 16 := by decide
  have uints : (ofSingleFile none 262144 131072 16384).uintsPerPiece = (1 : Nat) := by decide
  refine ⟨started, (isPieceComplete_agrees_iff started (by decide) (by decide)).mpr
    ⟨fun chunk early => ?_, by decide⟩⟩
  rw [chunks] at early
  rw [testReads_iff uints (by norm_num)]
  change _ ↔ 16384 * chunk / 131072 = 1
  omega

/-- Two chunks fill no byte: the test passes on their piece before either has arrived. -/
theorem incomplete_piece_passes
    : (ofSingleFile none 32768 32768 16384).JustInitialised
      ∧ (ofSingleFile none 32768 32768 16384).chunkSize
        ∣ (ofSingleFile none 32768 32768 16384).pieceSize
      ∧ 0 < (ofSingleFile none 32768 32768 16384).pieceCount
      ∧ ¬ ∀ next stack,
          (ofSingleFile none 32768 32768 16384).Marked next → next.PieceAgrees 0 stack := by
  refine ⟨SingleFileFits.justInitialised (by decide +kernel), by decide, by decide,
    fun agrees => ?_⟩
  obtain ⟨pieceSize, chunkSize, dataSize, _⟩ :=
    @SingleFileFits.fields none 32768 32768 16384 (by decide +kernel)
  have first (info : ChunkInfo)
      : (ofSingleFile none 32768 32768 16384).getChunkInfo 0 info
        = .ok (.success, ⟨0, 0, 16384, 0⟩) := by
    rw [getChunkInfo, pieceSize, chunkSize, dataSize]
    norm_num [u64, u64OfInt, wrap32, u64Sub]
  have marked := (agrees _ ⟨⟨0, 0, 0, 0⟩, ⟨0, 0, 0⟩⟩ .start).mp (by decide) 0 (by decide) _
    (first _) rfl
  exact absurd marked (by decide)

end TorrentData

end UvgTorrent

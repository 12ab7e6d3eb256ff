import UvgTorrent.TorrentData.Setup

/-! When `torrent_data_set_data_size` does what it says: the counts round up in 64 bits and are kept
in `int`s, and a piece size of 0 is divided by.
-/

namespace UvgTorrent

open Foundations

namespace TorrentData

variable {td next : TorrentData} {dataSize : Nat}

/-- How many units of a size the data is cut into. -/
def unitCount (dataSize unit : Nat) : Nat := (dataSize + unit - 1) / unit

/-- A bitfield with so many clear bits and every spare bit set. -/
def ClearField (field : Option Bitfield) (bitCount : Nat) : Prop :=
  ∃ made,
    field = some made
    ∧ made.bitCount = bitCount
    ∧ (∀ index < bitCount, made.bit index = false)
    ∧ made.SpareSet

/-- What an initialisation promises of the struct that it leaves. -/
structure ExactlyInitialised (td next : TorrentData) (dataSize : Nat) : Prop where
  pieceSize_pos : 0 < td.pieceSize
  pieceCount : next.pieceCount = unitCount dataSize td.pieceSize
  chunkCount : next.chunkCount = unitCount dataSize td.chunkSize
  pieces_fit : unitCount dataSize td.pieceSize < 2 ^ 31
  chunks_fit : unitCount dataSize td.chunkSize < 2 ^ 31
  claimed : ClearField next.claimed (unitCount dataSize td.chunkSize)
  completed : ClearField next.completed (unitCount dataSize td.chunkSize)
  downloaded : next.downloaded = 0
  left : next.left = dataSize

/-- The call fails and changes nothing, or it initialises exactly. -/
def InitialisesExactly (td : TorrentData) (dataSize : Nat) : Prop :=
  td.setDataSize dataSize = .ok (.failure, td)
  ∨ ∃ next,
      td.setDataSize dataSize = .ok (.success, next) ∧ td.ExactlyInitialised next dataSize

/-- A piece size is set, neither division rounds up past 64 bits, both counts fit an `int`, and the
data size fits the counter of the bytes that are left.
-/
structure SizesFit (td : TorrentData) (dataSize : Nat) : Prop where
  pieceSize_pos : 0 < td.pieceSize
  pieces_round : dataSize + td.pieceSize ≤ 2 ^ 64
  chunks_round : dataSize + td.chunkSize ≤ 2 ^ 64
  pieces_fit : unitCount dataSize td.pieceSize < 2 ^ 31
  chunks_fit : unitCount dataSize td.chunkSize < 2 ^ 31
  left_fits : dataSize < 2 ^ 63

-----------------------------------------------------------------------------------------
-- One count
-----------------------------------------------------------------------------------------

/-- A rounding sum that wraps gives the count 0. -/
theorem wrappedCount_eq_zero {size unit : Nat} (positive : 0 < unit) (sizeFits : size < 2 ^ 64)
    (unitFits : unit < 2 ^ 64) (wraps : 2 ^ 64 < size + unit)
    : u64 (size + u64Sub unit 1) / unit = 0 := by
  rw [u64Sub_of_le positive unitFits]
  apply Nat.div_eq_of_lt
  unfold u64
  omega

theorem wrappedCount_eq {size unit : Nat} (positive : 0 < unit) (unitFits : unit < 2 ^ 64)
    (rounds : size + unit ≤ 2 ^ 64)
    : u64 (size + u64Sub unit 1) / unit = unitCount size unit := by
  rw [u64Sub_of_le positive unitFits, u64_of_lt (by omega), unitCount,
    Nat.add_sub_assoc (Nat.one_le_iff_ne_zero.mpr (Nat.pos_iff_ne_zero.mp positive))]

theorem unitCount_pos {size unit : Nat} (positive : 0 < unit) (some : 0 < size)
    : 0 < unitCount size unit := by
  apply Nat.div_pos
  · omega
  · exact positive

/-- The `int` that keeps a count has it exactly when the rounding does not wrap and the count fits.
-/
theorem countKept_iff {size unit : Nat} (positive : 0 < unit) (sizeFits : size < 2 ^ 64)
    (unitFits : unit < 2 ^ 64)
    : wrap32 (u64 (size + u64Sub unit 1) / unit : Nat) = unitCount size unit
        ∧ unitCount size unit < 2 ^ 31
      ↔ size + unit ≤ 2 ^ 64 ∧ unitCount size unit < 2 ^ 31 := by
  refine and_congr_left fun fits => ?_
  by_cases rounds : size + unit ≤ 2 ^ 64
  · rw [wrappedCount_eq positive unitFits rounds]
    exact iff_of_true (wrap32_natCast fits) rounds
  · rw [wrappedCount_eq_zero positive sizeFits unitFits (by omega)]
    refine iff_of_false (fun kept => ?_) rounds
    have counted := unitCount_pos positive (show 0 < size by omega)
    rw [wrap32_natCast (by decide)] at kept
    omega

/-- The bitfields of an initialisation whose count fits. -/
theorem clearField_new {bitCount : Nat} (fits : bitCount < 2 ^ 31)
    : ClearField (Bitfield.new (u64OfInt (bitCount : Int)) 0 0xFF) bitCount := by
  obtain ⟨field, made, counted, clear, _⟩ := Bitfield.new_spec fits 0xFF
  refine ⟨field, ?_, counted, clear, (Bitfield.spareSet_of_new false made).1⟩
  rw [u64OfInt_natCast (by omega), made]

-----------------------------------------------------------------------------------------
-- The whole call
-----------------------------------------------------------------------------------------

/-- The count of chunks that fit is no negative `int`. -/
theorem SizesFit.counted (fits : td.SizesFit dataSize) (chunkPos : 0 < td.chunkSize)
    (chunkFits : td.chunkSize < 2 ^ 64) (dataFits : dataSize < 2 ^ 64)
    : 0 ≤ (td.initialisedWith dataSize).chunkCount := by
  obtain ⟨kept, _⟩ :=
    (countKept_iff chunkPos dataFits chunkFits).mpr ⟨fits.chunks_round, fits.chunks_fit⟩
  rw [initialisedWith_chunkCount, kept]
  exact Int.natCast_nonneg _

/-- A call that goes through is exact when the sizes fit, and only then. -/
theorem exactlyInitialised_iff (untouched : td.initialized = false) (chunkPos : 0 < td.chunkSize)
    (piecePos : 0 < td.pieceSize) (pieceFits : td.pieceSize < 2 ^ 64)
    (chunkFits : td.chunkSize < 2 ^ 64) (dataFits : dataSize < 2 ^ 64)
    (set : td.setDataSize dataSize = .ok (.success, next))
    : td.ExactlyInitialised next dataSize ↔ td.SizesFit dataSize := by
  have pieces := countKept_iff piecePos dataFits pieceFits
  have chunks := countKept_iff chunkPos dataFits chunkFits
  rw [← initialisedWith_pieceCount] at pieces
  rw [← initialisedWith_chunkCount] at chunks
  rcases setDataSize_cases set with ⟨ready | noChunkSize, _⟩ | ⟨_, _, _, _, rfl⟩
  · rw [untouched] at ready
    cases ready
  · exact absurd noChunkSize (Nat.pos_iff_ne_zero.mp chunkPos)
  constructor
  · intro exact
    obtain ⟨pieceRound, _⟩ := pieces.mp ⟨exact.pieceCount, exact.pieces_fit⟩
    obtain ⟨chunkRound, _⟩ := chunks.mp ⟨exact.chunkCount, exact.chunks_fit⟩
    have left := exact.left
    rw [initialisedWith_left] at left
    refine ⟨piecePos, pieceRound, chunkRound, exact.pieces_fit, exact.chunks_fit, ?_⟩
    unfold wrap64 at left
    omega
  · intro fits
    obtain ⟨pieceCount, _⟩ := pieces.mpr ⟨fits.pieces_round, fits.pieces_fit⟩
    obtain ⟨chunkCount, _⟩ := chunks.mpr ⟨fits.chunks_round, fits.chunks_fit⟩
    have left := fits.left_fits
    have field := clearField_new fits.chunks_fit
    rw [← chunkCount] at field
    exact
      {
        pieceSize_pos := piecePos
        pieceCount
        chunkCount
        pieces_fit := fits.pieces_fit
        chunks_fit := fits.chunks_fit
        claimed := by
          rw [initialisedWith_claimed]
          exact field
        completed := by
          rw [initialisedWith_completed]
          exact field
        downloaded := rfl
        left := by
          rw [initialisedWith_left]
          exact wrap64_of_fits (by omega) (by omega)
      }

/-- The first call fails without a change or initialises exactly, if and only if the chunk size is
missing or all sizes fit; every later call fails without a change.
-/
theorem setDataSize_initialisesExactly_iff (pieceFits : td.pieceSize < 2 ^ 64)
    (chunkFits : td.chunkSize < 2 ^ 64) (dataFits : dataSize < 2 ^ 64)
    : (td.initialized = false
        → (td.InitialisesExactly dataSize ↔ td.chunkSize = 0 ∨ td.SizesFit dataSize))
      ∧ (td.initialized = true → td.setDataSize dataSize = .ok (.failure, td)) := by
  constructor
  · intro untouched
    rcases Nat.eq_zero_or_pos td.chunkSize with noChunkSize | chunkPos
    · refine iff_of_true (.inl ?_) (.inl noChunkSize)
      rw [setDataSize, untouched, if_neg Bool.false_ne_true, if_pos noChunkSize]
    rw [or_iff_right (Nat.pos_iff_ne_zero.mp chunkPos)]
    rcases Nat.eq_zero_or_pos td.pieceSize with noPieceSize | piecePos
    · have faulted : td.setDataSize dataSize = .error .divisionByZero := by
        rw [setDataSize, untouched, if_neg Bool.false_ne_true,
          if_neg (Nat.pos_iff_ne_zero.mp chunkPos), if_pos noPieceSize]
      refine iff_of_false ?_ fun fits => Nat.ne_of_gt fits.pieceSize_pos noPieceSize
      rintro (failed | ⟨next, set, _⟩)
      · rw [faulted] at failed
        cases failed
      · rw [faulted] at set
        cases set
    · have exact {next : TorrentData} (set : td.setDataSize dataSize = .ok (.success, next)) :=
        exactlyInitialised_iff untouched chunkPos piecePos pieceFits chunkFits dataFits set
      constructor
      · rintro (failed | ⟨next, set, exactly⟩)
        · obtain ⟨ready | noChunkSize, _⟩ | ⟨_, _, _, succeeded, _⟩ := setDataSize_cases failed
          · rw [untouched] at ready
            cases ready
          · exact absurd noChunkSize (Nat.pos_iff_ne_zero.mp chunkPos)
          · cases succeeded
        · exact (exact set).mp exactly
      · intro fits
        have set := setDataSize_success untouched (Nat.pos_iff_ne_zero.mp chunkPos)
          (Nat.pos_iff_ne_zero.mp piecePos) (fits.counted chunkPos chunkFits dataFits)
        exact .inr ⟨_, set, (exact set).mpr fits⟩
  · intro initialised
    rw [setDataSize, if_pos initialised]

/-- Witness: a file of 100000 bytes in pieces of 65536, and a second call. -/
theorem setDataSize_initialisesExactly_twice
    : (configureFile none 100000 65536 16384).InitialisesExactly 100000
      ∧ (ofSingleFile none 100000 65536 16384).setDataSize 5
        = .ok (.failure, ofSingleFile none 100000 65536 16384) := by
  have small : (100000 : Nat) < 2 ^ 64 := by decide
  constructor
  · refine ((@setDataSize_initialisesExactly_iff (configureFile none 100000 65536 16384) 100000
      (by decide) (by decide) small).1 rfl).mpr (.inr ?_)
    constructor <;> decide
  · exact (@setDataSize_initialisesExactly_iff (ofSingleFile none 100000 65536 16384) 5
      (by decide +kernel) (by decide +kernel) (by decide)).2 rfl

/-- Metadata with a piece length of 0 makes the call divide by zero. -/
theorem zero_piece_length_divides
    : (configureFile none 100000 0 16384).setDataSize 100000 = .error .divisionByZero
      ∧ ¬ (configureFile none 100000 0 16384).InitialisesExactly 100000 := by
  have faulted : (configureFile none 100000 0 16384).setDataSize 100000
      = .error .divisionByZero := rfl
  refine ⟨faulted, ?_⟩
  rintro (failed | ⟨next, set, _⟩)
  · rw [faulted] at failed
    cases failed
  · rw [faulted] at set
    cases set

end TorrentData

end UvgTorrent

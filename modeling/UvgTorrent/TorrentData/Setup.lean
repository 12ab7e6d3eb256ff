import UvgTorrent.TorrentData.ChunkEffects

/-! From `torrent_data_new` through the setters to a successful `torrent_data_set_data_size`:
what such a struct holds before its first chunk.
-/

namespace UvgTorrent

open Foundations

namespace TorrentData

variable {td : TorrentData}

/-- The structs that the setters build from `torrent_data_new`. Sizes are `size_t` values, and
the table comes from a buffer in memory, which has fewer than `2 ^ 63` bytes.
-/
inductive Configured : TorrentData → Prop
  | new (rootPath : CString) : Configured (.new rootPath)
  | setPieceSize {td size} (configured : Configured td) (fits : size < 2 ^ 64)
    : Configured (td.setPieceSize size)
  | setChunkSize {td size} (configured : Configured td) (fits : size < 2 ^ 64)
    : Configured (td.setChunkSize size)
  | addFile {td path length} (configured : Configured td) (fits : length < 2 ^ 64)
    : Configured (td.addFile path length)
  | setSha1Hashes {td hashes} (configured : Configured td) (fits : hashes.length < 2 ^ 63)
    : Configured (td.setSha1Hashes hashes)

/-- A struct right after its successful initialization. `needed` is set by its owner. -/
def JustInitialised (td : TorrentData) : Prop :=
  ∃ before dataSize after needed,
    Configured before
    ∧ dataSize < 2 ^ 64
    ∧ before.setDataSize dataSize = .ok (.success, after)
    ∧ td = { after with needed }

/-- What the setters leave in a struct. -/
structure Unstarted (td : TorrentData) : Prop where
  claims : td.claims = .nil
  chunkSize_lt : td.chunkSize < 2 ^ 64
  pieceSize_lt : td.pieceSize < 2 ^ 64
  completedPieces : td.completedPieces = 0
  hashes_lt : ∀ table, td.sha1Hashes = some table → table.length < 2 ^ 63
  filesSize : td.filesSize = u64 (totalSize td.files)
  laidOut : totalSize td.files < 2 ^ 64 → LaidOut 0 td.files

theorem Configured.unstarted (configured : Configured td) : td.Unstarted := by
  induction configured with
  | new rootPath =>
      exact
        {
          claims := rfl
          chunkSize_lt := by simp [TorrentData.new]
          pieceSize_lt := by simp [TorrentData.new]
          completedPieces := rfl
          hashes_lt := fun table found => by cases found
          filesSize := rfl
          laidOut := fun _ => trivial
        }
  | setPieceSize configured fits ih => exact { ih with pieceSize_lt := fits }
  | setChunkSize configured fits ih => exact { ih with chunkSize_lt := fits }
  | addFile configured fits ih =>
      rename_i td path length
      refine { ih with filesSize := ?_, laidOut := ?_ }
      · simp only [TorrentData.addFile, totalSize_append, ih.filesSize, u64]
        omega
      · intro small
        simp only [TorrentData.addFile, totalSize_append] at small
        refine (ih.laidOut (by omega)).append ?_
        rw [ih.filesSize, u64_of_lt (by omega), Nat.zero_add]
  | setSha1Hashes configured fits ih =>
      refine { ih with hashes_lt := ?_ }
      intro table found
      rw [← Option.some.inj found]
      exact fits

/-- What a struct holds right after its initialization. -/
structure Fresh (td : TorrentData) : Prop extends td.Unstarted where
  initialized : td.initialized = true
  chunkSize_pos : 0 < td.chunkSize
  pieceSize_pos : 0 < td.pieceSize
  dataSize_lt : td.dataSize < 2 ^ 64
  pieceCount
    : td.pieceCount = wrap32 (u64 (td.dataSize + u64Sub td.pieceSize 1) / td.pieceSize : Nat)
  chunkCount
    : td.chunkCount = wrap32 (u64 (td.dataSize + u64Sub td.chunkSize 1) / td.chunkSize : Nat)
  claimed : td.claimed = Bitfield.new (u64OfInt td.chunkCount) 0 0xFF
  completed : td.completed = Bitfield.new (u64OfInt td.chunkCount) 0 0xFF
  downloaded : td.downloaded = 0
  left : td.left = wrap64 td.dataSize
  data : td.data = some (HashMap.new 1000)

theorem JustInitialised.fresh (started : td.JustInitialised) : td.Fresh := by
  obtain ⟨before, dataSize, after, needed, configured, dataFits, initialised, rfl⟩ := started
  have unstarted := configured.unstarted
  rcases setDataSize_cases initialised with
    ⟨_, failed, _⟩ | ⟨untouched, noChunkSize, noPieceSize, _, rfl⟩
  · cases failed
  exact
    {
      claims := unstarted.claims
      chunkSize_lt := unstarted.chunkSize_lt
      pieceSize_lt := unstarted.pieceSize_lt
      completedPieces := unstarted.completedPieces
      hashes_lt := unstarted.hashes_lt
      filesSize := unstarted.filesSize
      laidOut := unstarted.laidOut
      initialized := rfl
      chunkSize_pos := Nat.pos_of_ne_zero noChunkSize
      pieceSize_pos := Nat.pos_of_ne_zero noPieceSize
      dataSize_lt := dataFits
      pieceCount := by simp only [initialisedWith]
      chunkCount := by simp only [initialisedWith]
      claimed := by simp only [initialisedWith]
      completed := by simp only [initialisedWith]
      downloaded := rfl
      left := rfl
      data := rfl
    }

/-- A count kept in an `int` is at most the exact one. -/
theorem wrappedCount_le (size : Nat) {unit : Nat} (positive : 0 < unit) (fits : unit < 2 ^ 64)
    : (wrap32 (u64 (size + u64Sub unit 1) / unit : Nat)).toNat ≤ (size + unit - 1) / unit := by
  have bound : u64 (size + u64Sub unit 1) ≤ size + unit - 1 := by
    rw [u64Sub_of_le positive fits]
    exact (Nat.mod_le _ _).trans (by omega)
  have quotient := Nat.div_le_div_right (c := unit) bound
  generalize u64 (size + u64Sub unit 1) / unit = count at *
  unfold wrap32
  omega

namespace Fresh

theorem chunkTotal_lt (fresh : td.Fresh) : td.chunkTotal < 2 ^ 31 := by
  rw [chunkTotal, fresh.chunkCount, wrap32]
  omega

theorem pieceCount_lt (fresh : td.Fresh) : td.pieceCount < 2 ^ 31 := by
  rw [fresh.pieceCount, wrap32]
  omega

/-- A chunk in range starts inside the data, also when the count was cut to its `int`. -/
theorem chunkStart_lt (fresh : td.Fresh) {chunk : Nat} (inRange : chunk < td.chunkTotal)
    : td.chunkSize * chunk < td.dataSize := by
  have positive := fresh.chunkSize_pos
  rw [chunkTotal, fresh.chunkCount] at inRange
  have exact := inRange.trans_le
    (wrappedCount_le td.dataSize fresh.chunkSize_pos fresh.chunkSize_lt)
  have bound : (chunk + 1) * td.chunkSize ≤ td.dataSize + td.chunkSize - 1 :=
    (Nat.le_div_iff_mul_le positive).mp exact
  rw [Nat.add_mul, Nat.one_mul, Nat.mul_comm] at bound
  omega

/-- Both bitfields have one clear bit for each chunk, and set spare bits. -/
theorem newField (fresh : td.Fresh) (counted : 0 ≤ td.chunkCount)
    : ∃ field,
        Bitfield.new (u64OfInt td.chunkCount) 0 0xFF = some field
        ∧ td.ChunkField field
        ∧ ∀ chunk < td.chunkTotal, field.bit chunk = false := by
  have small := fresh.chunkTotal_lt
  have count : u64OfInt td.chunkCount = td.chunkTotal := by
    unfold chunkTotal at *
    exact u64OfInt_of_nonneg counted (by omega)
  obtain ⟨field, made, bits, clear, _⟩ := Bitfield.new_spec small 0xFF
  exact ⟨field, by rw [count, made], ⟨bits, (Bitfield.spareSet_of_new false made).1⟩, clear⟩

/-- A struct with piece ids that fit is ready for its first chunk. -/
theorem initialised (fresh : td.Fresh) (counted : 0 ≤ td.chunkCount)
    (pieceFits : ∀ chunk < td.chunkTotal, td.pieceOf chunk < 2 ^ 31)
    : td.Initialised := by
  obtain ⟨field, made, valid, _⟩ := fresh.newField counted
  exact
    {
      initialized := fresh.initialized
      chunkSize_pos := fresh.chunkSize_pos
      pieceSize_pos := fresh.pieceSize_pos
      pieceSize_lt := fresh.pieceSize_lt
      dataSize_lt := fresh.dataSize_lt
      chunkTotal_lt := fresh.chunkTotal_lt
      chunkStart_lt := fun chunk inRange => fresh.chunkStart_lt inRange
      pieceOf_fits := pieceFits
      completed_field := ⟨field, fresh.completed.trans made, valid⟩
      claimed_field := ⟨field, fresh.claimed.trans made, valid⟩
      data_map := ⟨_, fresh.data, fun key buffer found => by cases found⟩
    }

/-- When pieces are at least as large as chunks, every piece id fits its `int`. -/
theorem pieceOf_fits_of_le (fresh : td.Fresh) (larger : td.chunkSize ≤ td.pieceSize) {chunk : Nat}
    (inRange : chunk < td.chunkTotal)
    : td.pieceOf chunk < 2 ^ 31 := by
  have small := fresh.chunkTotal_lt
  have bound : td.pieceOf chunk ≤ chunk := by
    apply Nat.div_le_of_le_mul
    exact Nat.mul_le_mul_right chunk larger
  omega

theorem pieceOf_fits (fresh : td.Fresh) (divides : 8 * td.chunkSize ∣ td.pieceSize)
    {chunk : Nat} (inRange : chunk < td.chunkTotal)
    : td.pieceOf chunk < 2 ^ 31 :=
  fresh.pieceOf_fits_of_le
    ((Nat.le_mul_of_pos_left _ (by norm_num)).trans (Nat.le_of_dvd fresh.pieceSize_pos divides))
    inRange

theorem completedBit_eq_false (fresh : td.Fresh) (counted : 0 ≤ td.chunkCount) {chunk : Nat}
    (inRange : chunk < td.chunkTotal)
    : td.completedBit chunk = false := by
  obtain ⟨field, made, _, clear⟩ := fresh.newField counted
  rw [completedBit_eq (fresh.completed.trans made), clear chunk inRange]

end Fresh

/-- The first call with both sizes set succeeds when its chunk count is no negative `int`. -/
theorem setDataSize_success {dataSize : Nat} (untouched : td.initialized = false)
    (chunkPos : td.chunkSize ≠ 0) (piecePos : td.pieceSize ≠ 0)
    (counted : 0 ≤ (td.initialisedWith dataSize).chunkCount)
    : td.setDataSize dataSize = .ok (.success, td.initialisedWith dataSize) := by
  refine setDataSize_of_fits untouched chunkPos piecePos ?_
  have small : (td.initialisedWith dataSize).chunkCount < 2 ^ 31 := by
    rw [initialisedWith_chunkCount]
    unfold wrap32
    omega
  unfold u64OfInt
  omega

/-- A number of chunks that an `int` can count is kept. -/
theorem initialisedWith_counted {dataSize : Nat} (chunkPos : 0 < td.chunkSize)
    (few : dataSize + td.chunkSize ≤ 2 ^ 31 * td.chunkSize)
    : 0 ≤ (td.initialisedWith dataSize).chunkCount := by
  have rounded : u64 (dataSize + u64Sub td.chunkSize 1) / td.chunkSize < 2 ^ 31 := by
    have unit : u64Sub td.chunkSize 1 ≤ td.chunkSize - 1 := by
      unfold u64Sub
      omega
    have sum := Nat.mod_le (dataSize + u64Sub td.chunkSize 1) (2 ^ 64)
    rw [Nat.div_lt_iff_lt_mul chunkPos, u64]
    omega
  rw [initialisedWith_chunkCount, wrap32_natCast rounded]
  exact Int.natCast_nonneg _

/-- The setters that `torrent.c` calls for a torrent with one file, in its order. -/
def configureFile (hashes : Option Bytes) (length pieceSize chunkSize : Nat) : TorrentData :=
  let hashed := match hashes with
    | none => new [46]
    | some table => (new [46]).setSha1Hashes table
  ((hashed.addFile [47, 97] length).setPieceSize pieceSize).setChunkSize chunkSize

/-- The initialized struct of a torrent with one file, as `torrent.c` leaves it. -/
def ofSingleFile (hashes : Option Bytes) (length pieceSize chunkSize : Nat) : TorrentData :=
  match (configureFile hashes length pieceSize chunkSize).setDataSize length with
  | .ok (_, td) => { td with needed := true }
  | .error _ => configureFile hashes length pieceSize chunkSize

/-- A torrent with one file whose sizes are `size_t` values and whose initialization succeeds. -/
@[mk_iff]
structure SingleFileFits (hashes : Option Bytes) (length pieceSize chunkSize : Nat) : Prop where
  hashes_lt : ∀ table ∈ hashes, table.length < 2 ^ 63
  length_lt : length < 2 ^ 64
  pieceSize_lt : pieceSize < 2 ^ 64
  chunkSize_lt : chunkSize < 2 ^ 64
  pieceSize_ne : pieceSize ≠ 0
  chunkSize_ne : chunkSize ≠ 0
  counted
    : 0 ≤ ((configureFile hashes length pieceSize chunkSize).initialisedWith length).chunkCount

instance (hashes : Option Bytes) (length pieceSize chunkSize : Nat)
    : Decidable (SingleFileFits hashes length pieceSize chunkSize) :=
  decidable_of_iff' _ (singleFileFits_iff hashes length pieceSize chunkSize)

namespace SingleFileFits

variable {hashes : Option Bytes} {length pieceSize chunkSize : Nat}

theorem configured (fits : SingleFileFits hashes length pieceSize chunkSize)
    : Configured (configureFile hashes length pieceSize chunkSize) := by
  cases hashes with
  | none =>
      exact (((Configured.new [46]).addFile fits.length_lt).setPieceSize
        fits.pieceSize_lt).setChunkSize fits.chunkSize_lt
  | some table =>
      exact ((((Configured.new [46]).setSha1Hashes (fits.hashes_lt table rfl)).addFile
        fits.length_lt).setPieceSize fits.pieceSize_lt).setChunkSize fits.chunkSize_lt

theorem setDataSize (fits : SingleFileFits hashes length pieceSize chunkSize)
    : (configureFile hashes length pieceSize chunkSize).setDataSize length
      = .ok
          (.success, (configureFile hashes length pieceSize chunkSize).initialisedWith length) := by
  have untouched : (configureFile hashes length pieceSize chunkSize).initialized = false := by
    cases hashes <;> rfl
  exact setDataSize_success untouched fits.chunkSize_ne fits.pieceSize_ne fits.counted

theorem justInitialised (fits : SingleFileFits hashes length pieceSize chunkSize)
    : (ofSingleFile hashes length pieceSize chunkSize).JustInitialised := by
  refine ⟨_, length, _, true, fits.configured, fits.length_lt, fits.setDataSize, ?_⟩
  rw [ofSingleFile, fits.setDataSize]

theorem fields (fits : SingleFileFits hashes length pieceSize chunkSize)
    : (ofSingleFile hashes length pieceSize chunkSize).pieceSize = pieceSize
      ∧ (ofSingleFile hashes length pieceSize chunkSize).chunkSize = chunkSize
      ∧ (ofSingleFile hashes length pieceSize chunkSize).dataSize = length
      ∧ (ofSingleFile hashes length pieceSize chunkSize).sha1Hashes = hashes
      ∧ (ofSingleFile hashes length pieceSize chunkSize).files
        = [{ fp := none, filePath := [46, 47, 97], fileOffset := 0, fileSize := length }] := by
  rw [ofSingleFile, fits.setDataSize]
  cases hashes <;> exact ⟨rfl, rfl, rfl, rfl, rfl⟩

end SingleFileFits

end TorrentData

end UvgTorrent

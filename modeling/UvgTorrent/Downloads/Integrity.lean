import UvgTorrent.Downloads.Runs
import UvgTorrent.TorrentData.PieceStorage

/-! Verified before complete: which runs leave only pieces marked that the files hold and
whose SHA-1 is the one of the table.
`torrent_data_write_chunk` sets the bits of a piece before it validates it, so this rests on
every piece validating when its last chunk arrives.
-/

namespace UvgTorrent

open Foundations

namespace TorrentData

variable {sha1 : Bytes → Digest} {td next : TorrentData} {disk : Disk} {chunk piece : Nat}
  {data : Bytes} {io : Nat → FileOutcome} {result : WriteResult} {completed : Bitfield}
  {map : HashMap Bytes}

/-- Every chunk of the piece has its bit set. -/
def AllChunks (td : TorrentData) (piece : Nat) : Prop :=
  ∀ chunk < td.chunkTotal, td.pieceOf chunk = piece → td.completedBit chunk = true

instance (td : TorrentData) (piece : Nat) : Decidable (td.AllChunks piece) :=
  inferInstanceAs (Decidable (∀ chunk < td.chunkTotal, _))

/-- Every other chunk of the chunk's piece has its bit set. -/
def LastMissing (td : TorrentData) (chunk : Nat) : Prop :=
  ∀ other < td.chunkTotal,
    td.pieceOf other = td.pieceOf chunk → other = chunk ∨ td.completedBit other = true

/-- The entry of a piece in the table of SHA-1 hashes. -/
def hashEntry (table : Bytes) (piece : Nat) : Bytes := slice table (20 * piece) 20

/-- If the chunk is the last one missing from its piece, the piece it completes has the SHA-1
of its entry, and the entry's position fits the `int` it is computed in.
-/
def DeliversTrue (sha1 : Bytes → Digest) (td : TorrentData) (chunk : Nat) (data : Bytes)
    : Prop :=
  td.Accepts chunk data
  → td.LastMissing chunk
  → 20 * td.pieceOf chunk < 2 ^ 31
    ∧ ∃ table,
        td.sha1Hashes = some table
        ∧ (sha1 ((td.assembledPiece chunk data).take (td.pieceLength (td.pieceOf chunk)))).1
          = hashEntry table (td.pieceOf chunk)

instance (td : TorrentData) (chunk : Nat) (data : Bytes) : Decidable (td.Accepts chunk data) :=
  inferInstanceAs (Decidable (_ ∧ _))

instance (td : TorrentData) (chunk : Nat) : Decidable (td.LastMissing chunk) :=
  inferInstanceAs (Decidable (∀ other < td.chunkTotal, _))

instance (sha1 : Bytes → Digest) (td : TorrentData) (chunk : Nat) (data : Bytes)
    : Decidable (td.DeliversTrue sha1 chunk data) :=
  inferInstanceAs
    (Decidable
      (_ → _ → _ ∧ ∃ table ∈ td.sha1Hashes,
        (sha1 ((td.assembledPiece chunk data).take (td.pieceLength (td.pieceOf chunk)))).1
          = hashEntry table (td.pieceOf chunk)))

/-- Every quantity that `torrent_data.c` keeps in an `int` fits it. -/
structure FitsInts (td : TorrentData) : Prop where
  chunks : td.chunkCount = ((td.dataSize + td.chunkSize - 1) / td.chunkSize : Nat)
  pieces : td.pieceCount = td.pieceTotal
  chunksPerPiece : td.pieceSize / td.chunkSize < 2 ^ 31
  pieceBytes : min td.pieceSize td.dataSize < 2 ^ 31

/-- For an aligned struct, the code's test for the last chunk is whether all others are there. -/
theorem Aligned.completes_iff (aligned : td.Aligned) (ready : td.Initialised)
    (inRange : chunk < td.chunkTotal) (field : td.completed = some completed)
    (missing : td.completedBit chunk = false)
    : td.Completes completed chunk ↔ td.LastMissing chunk := by
  obtain ⟨other, same, valid⟩ := ready.completed_field
  obtain rfl : other = completed := Option.some.inj (same.symm.trans field)
  have reached : ∃ member < td.chunkTotal, td.pieceOf member = td.pieceOf chunk :=
    ⟨chunk, inRange, rfl⟩
  have small := ready.chunkTotal_lt
  have counted := valid.1
  have marked : td.ChunkField (other.setBit chunk 1) :=
    ⟨by simpa using counted, valid.2.setBit_one (by omega) (by omega)⟩
  have unset : td.pieceDone other (td.pieceOf chunk) = false := by
    refine Bool.eq_false_iff.mpr fun done => ?_
    have set := (aligned.pieceDone_iff ready valid reached).mp done chunk inRange rfl
    rw [← completedBit_eq field, missing] at set
    cases set
  rw [Completes, unset, aligned.pieceDone_iff ready marked reached]
  constructor
  · rintro ⟨all, -⟩ member below inPiece
    have set := all member below inPiece
    rw [Bitfield.bit_setBit_one (by omega) (by omega), Bool.or_eq_true, decide_eq_true_eq] at set
    rcases set with here | before
    · exact .inl here.symm
    · exact .inr ((completedBit_eq field member).trans before)
  · intro last
    refine ⟨fun member below inPiece => ?_, rfl⟩
    rw [Bitfield.bit_setBit_one (by omega) (by omega), Bool.or_eq_true, decide_eq_true_eq]
    rcases last member below inPiece with here | before
    · exact .inl here.symm
    · exact .inr ((completedBit_eq field member).symm.trans before)

/-- `strncmp` finds no difference between equal strings. -/
theorem strncmpEqual_of_eq {count : Nat} {digest entry : Bytes} (length : digest.length = count)
    (same : digest = entry.take count)
    : strncmpEqual count digest entry = some true := by
  induction count generalizing digest entry with
  | zero => rfl
  | succ count ih =>
      cases digest with
      | nil => cases length
      | cons first rest =>
          cases entry with
          | nil => cases same
          | cons other more =>
              rw [List.take_succ_cons, List.cons.injEq] at same
              obtain ⟨rfl, later⟩ := same
              simp only [strncmpEqual, ne_eq, not_true_eq_false, if_false]
              split
              · rfl
              · exact ih (Nat.succ.inj length) later

/-- A piece with the SHA-1 of its entry validates, if the position of the entry fits. -/
theorem validatePiece_of_entry {table piece : Bytes} {id : Nat}
    (hashes : td.sha1Hashes = some table) (positionFits : 20 * id < 2 ^ 31)
    (inTable : 20 * id + 20 ≤ table.length) (tableFits : table.length < 2 ^ 64)
    (pieceFits : td.pieceLength id < 2 ^ 32)
    (same : (sha1 (piece.take (td.pieceLength id))).1 = hashEntry table id)
    : td.validatePiece sha1 (td.pieceInfoOf id) piece = .ok .success := by
  have position : u64OfInt (wrap32 (((id : Nat) : Int) * 20)) = 20 * id := by
    have product : ((id : Nat) : Int) * 20 = ((20 * id : Nat) : Int) := by push_cast; ring
    rw [product, wrap32_natCast positionFits, u64OfInt_natCast (by omega)]
  have length : u32 (td.pieceLength id) = td.pieceLength id := Nat.mod_eq_of_lt pieceFits
  have within : ¬ u64Sub table.length 20 < 20 * id := by
    rw [u64Sub_of_le (by omega) tableFits]
    omega
  have equal := strncmpEqual_of_eq (sha1 (piece.take (td.pieceLength id))).2
    (same.trans (by rw [hashEntry, slice]))
  simp only [validatePiece, hashes, pieceInfoOf, position, within, if_false, length, equal]

/-- A step that accepts its chunk has taken it in. -/
theorem ChunkStep.stores_of_accepts (step : ChunkStep sha1 td disk chunk data io result)
    (accepted : td.Accepts chunk data)
    : ∃ completed map, td.Stores completed map chunk data := by
  cases step with
  | refused reason => exact absurd accepted reason
  | held stores unfinished => exact ⟨_, _, stores⟩
  | rejected judged => exact ⟨_, _, judged.stores⟩
  | abandoned judged ran stopped => exact ⟨_, _, judged.stores⟩
  | finished judged ran notThrown whole => exact ⟨_, _, judged.stores⟩

/-- A piece other than the chunk's own has all chunks only if it had them before. -/
theorem ChunkStep.allChunks_of_ne (step : ChunkStep sha1 td disk chunk data io result)
    (ready : td.Initialised) (inRange : chunk < td.chunkTotal)
    (apart : piece ≠ td.pieceOf chunk) (all : result.td.AllChunks piece)
    : td.AllChunks piece := by
  have same := step.setup
  intro member below inPiece
  have set := all member (by rw [same.chunkTotal]; exact below)
    (by rw [same.pieceOf]; exact inPiece)
  rcases (step.completedBit_iff ready inRange member).mp set with before | ⟨rfl, _⟩
  · exact before
  · exact absurd inPiece.symm apart

/-- A chunk that leaves its piece with all chunks was the last one missing. -/
theorem ChunkStep.lastMissing (step : ChunkStep sha1 td disk chunk data io result)
    (ready : td.Initialised) (inRange : chunk < td.chunkTotal)
    (all : result.td.AllChunks (td.pieceOf chunk))
    : td.LastMissing chunk := by
  have same := step.setup
  intro other below inPiece
  have set := all other (by rw [same.chunkTotal]; exact below)
    (by rw [same.pieceOf]; exact inPiece)
  rcases (step.completedBit_iff ready inRange other).mp set with before | ⟨here, _⟩
  · exact .inr before
  · exact .inl here

/-- What fits the `int`s gives exact counts. -/
theorem FitsInts.exactCounts (fits : td.FitsInts) (fresh : td.Fresh) : td.ExactCounts :=
  {
    chunks := by rw [chunkTotal, fits.chunks, Int.toNat_natCast]
    pieces := fits.pieces
    pieceTotal_lt := by
      have bound := fresh.pieceCount_lt
      rw [fits.pieces] at bound
      omega
  }

theorem FitsInts.chunkCount_nonneg (fits : td.FitsInts) : 0 ≤ td.chunkCount := by
  rw [fits.chunks]
  exact Int.natCast_nonneg _

/-- Files that cover the data under distinct paths hold it, when everything fits its `int`. -/
theorem FitsInts.stored (fits : td.FitsInts) (fresh : td.Fresh)
    (total : totalSize td.files = td.dataSize)
    (distinct : (td.files.map TorrentDataFileInfo.filePath).Nodup)
    : td.Stored := by
  have dataFits := fresh.dataSize_lt
  have exact := fits.exactCounts fresh
  have bytes := fits.pieceBytes
  have covered : td.dataSize ≤ td.pieceSize * td.pieceTotal := by
    have upper := Nat.lt_div_mul_add (a := td.dataSize + td.pieceSize - 1) fresh.pieceSize_pos
    have positive := fresh.pieceSize_pos
    rw [Nat.mul_comm] at upper
    unfold pieceTotal
    omega
  have dataSmall : td.dataSize < 2 ^ 63 := by
    rcases Nat.le_total td.pieceSize td.dataSize with smaller | larger
    · have pieces := exact.pieceTotal_lt
      have size : td.pieceSize ≤ 2 ^ 31 := by omega
      have product := Nat.mul_le_mul size (Nat.le_of_lt pieces)
      omega
    · omega
  refine ⟨fresh.laidOut (by omega), distinct, total, dataSmall, fun piece => ?_⟩
  unfold pieceLength
  omega

end TorrentData

namespace Download

variable {sha1 : Bytes → Digest} {state final : Download} {call : WriteCall}
  {calls : List WriteCall} {td : TorrentData} {disk : Disk} {result : WriteResult}
  {chunk piece : Nat}

/-- The bytes stored in the files at the piece's range hash to the piece's entry. -/
def Verified (sha1 : Bytes → Digest) (state : Download) (piece : Nat) : Prop :=
  ∃ bytes table,
    state.td.PieceStored state.disk piece bytes
    ∧ state.td.sha1Hashes = some table
    ∧ (sha1 bytes).1 = TorrentData.hashEntry table piece

/-- A call in range whose file operations all succeed and that completes no false piece. -/
def TrueDelivery (sha1 : Bytes → Digest) (state : Download) (call : WriteCall) : Prop :=
  state.InRange call
  ∧ (∀ index, call.env.io index = .good)
  ∧ state.td.DeliversTrue sha1 call.chunkId.toNat call.data

/-- A true delivery that leaves its piece with all chunks has validated it. -/
theorem judged_of_allChunks (ready : state.td.Initialised) (aligned : state.td.Aligned)
    (stored : state.td.Stored) {table : Bytes} (hashes : state.td.sha1Hashes = some table)
    (tableLength : table.length = 20 * state.td.pieceTotal)
    (tableFits : table.length < 2 ^ 64) (inRange : chunk < state.td.chunkTotal)
    {data : Bytes} {io : Nat → FileOutcome}
    (step : TorrentData.ChunkStep sha1 state.td state.disk chunk data io result)
    (accepted : state.td.Accepts chunk data)
    (faithful : state.td.DeliversTrue sha1 chunk data)
    (all : result.td.AllChunks (state.td.pieceOf chunk))
    : ∃ completed map,
        state.td.Judged sha1 completed map chunk data .success := by
  obtain ⟨completed, map, stores⟩ := step.stores_of_accepts accepted
  have last := step.lastMissing ready inRange all
  obtain ⟨positionFits, other, found, same⟩ := faithful accepted last
  obtain rfl : other = table := Option.some.inj (found.symm.trans hashes)
  have pieceInRange := ready.pieceOf_lt inRange
  have pieceSmall := stored.pieceLength_lt (state.td.pieceOf chunk)
  exact ⟨completed, map,
    {
      stores
      completes :=
        (aligned.completes_iff ready inRange stores.field accepted.1).mpr last
      validated :=
        TorrentData.validatePiece_of_entry hashes positionFits (by omega) tableFits (by omega) same
    }⟩

/-- One true delivery leaves every piece with all chunks verified. -/
theorem verified_step (ready : state.td.Initialised) (aligned : state.td.Aligned)
    (stored : state.td.Stored) {table : Bytes} (hashes : state.td.sha1Hashes = some table)
    (tableLength : table.length = 20 * state.td.pieceTotal)
    (tableFits : table.length < 2 ^ 64) (inRange : chunk < state.td.chunkTotal)
    (good : ∀ index, call.env.io index = .good)
    (faithful : state.td.DeliversTrue sha1 chunk call.data)
    (step
      : TorrentData.ChunkStep sha1 state.td state.disk chunk call.data call.env.io result)
    (before
      : ∀ piece < state.td.pieceTotal,
          state.td.AllChunks piece → state.Verified sha1 piece)
    : ∀ piece < state.td.pieceTotal,
        result.td.AllChunks piece → (state.record call result).Verified sha1 piece := by
  intro piece pieceInRange all
  have same := step.setup
  have hashesAfter : result.td.sha1Hashes = some table := same.sha1Hashes.trans hashes
  by_cases accepted : state.td.Accepts chunk call.data
  · by_cases own : piece = state.td.pieceOf chunk
    · -- the chunk's own piece has just been completed
      rw [own] at all ⊢
      obtain ⟨completed, map, judged⟩ :=
        judged_of_allChunks ready aligned stored hashes tableLength tableFits inRange step
          accepted faithful all
      have last := step.lastMissing ready inRange all
      obtain ⟨_, other, found, digest⟩ := faithful accepted last
      rcases step.storage ready stored inRange good with
        ⟨_, _, _, _, placed, _⟩ | ⟨_, _, _, never⟩
      · refine ⟨_, other, placed, same.sha1Hashes.trans found, digest⟩
      · exact absurd judged (never completed map)
    · obtain ⟨bytes, other, held, found, digest⟩ :=
        before piece pieceInRange (step.allChunks_of_ne ready inRange own all)
      have foundAfter : result.td.sha1Hashes = some other := same.sha1Hashes.trans found
      rcases step.storage ready stored inRange good with
        ⟨_, _, _, _, _, kept, _⟩ | ⟨sameDisk, _⟩
      · exact ⟨bytes, other, kept piece bytes own held, foundAfter, digest⟩
      · refine ⟨bytes, other, ?_, foundAfter, digest⟩
        rw [← sameDisk] at held
        exact held.of_setup same
  · rw [step.eq_of_refused accepted] at all ⊢
    exact before piece pieceInRange all

/-- In every run of true deliveries, a piece with all chunks marked is one whose stored bytes
hash to its entry, and `torrent_data_is_piece_complete` tells exactly those pieces. It needs
distinct file paths and sizes that fit their `int`s.
-/
theorem verified_before_complete {table : Bytes} (started : td.JustInitialised)
    (divides : 8 * td.chunkSize ∣ td.pieceSize) (total : totalSize td.files = td.dataSize)
    (hashes : td.sha1Hashes = some table)
    (tableLength : (table.length : Int) = 20 * td.pieceCount)
    (distinct : (td.files.map TorrentDataFileInfo.filePath).Nodup) (fits : td.FitsInts)
    (deliveries : Guarded (write sha1) (TrueDelivery sha1) (start td disk) calls)
    (run : runSteps (write sha1) (start td disk) calls = .ok final)
    : ∀ piece < td.pieceTotal,
        (∀ stack,
          final.td.isPieceComplete piece stack = .ok true ↔ final.td.AllChunks piece)
        ∧ (final.td.AllChunks piece → final.Verified sha1 piece) := by
  have fresh := started.fresh
  have exact := fits.exactCounts fresh
  have counted := fits.chunkCount_nonneg
  have pieceFits : ∀ chunk < td.chunkTotal, td.pieceOf chunk < 2 ^ 31 :=
    fun chunk below => fresh.pieceOf_fits divides below
  have aligned : td.Aligned := ⟨divides, fits.chunksPerPiece⟩
  have stored := fits.stored fresh total distinct
  have ready := fresh.initialised counted pieceFits
  have pieceBound := exact.pieceTotal_lt
  have entries : table.length = 20 * td.pieceTotal := by
    rw [fits.pieces] at tableLength
    omega
  have base : ∀ piece < td.pieceTotal,
      (start td disk).td.AllChunks piece → (start td disk).Verified sha1 piece := by
    intro piece inRange all
    obtain ⟨chunk, below, inPiece⟩ := aligned.exists_chunk ready exact inRange
    have set := all chunk below inPiece
    rw [show (start td disk).td.completedBit chunk = false from
      fresh.completedBit_eq_false counted below] at set
    cases set
  obtain ⟨verified, same, stillReady⟩ :=
    run_induction
      (fun state => ∀ piece < td.pieceTotal,
        state.td.AllChunks piece → state.Verified sha1 piece)
      fresh pieceFits (fun _ _ allowed => allowed.1) base
      (fun state call chunk result ready same before allowed named below step => by
        rw [← same.pieceTotal] at before entries ⊢
        have faithful := allowed.2.2
        rw [named, Int.toNat_natCast] at faithful
        exact verified_step ready (same.aligned aligned) (same.stored stored)
          (same.sha1Hashes.trans hashes) entries (by rw [same.pieceTotal] at entries; omega)
          below allowed.2.1 faithful step before)
      deliveries run
  have finalReady := stillReady counted
  obtain ⟨field, found, valid⟩ := finalReady.completed_field
  intro piece inRange
  refine ⟨fun stack => ?_, verified piece inRange⟩
  rw [← same.pieceTotal] at inRange pieceBound
  have reached := (same.aligned aligned).exists_chunk finalReady (same.exactCounts exact) inRange
  rw [finalReady.isPieceComplete_eq inRange found, Except.ok.injEq,
    (same.aligned aligned).pieceDone_iff finalReady valid reached]
  simp only [TorrentData.AllChunks, TorrentData.completedBit_eq found]

/-- A digest that tells the sum of the bytes. -/
def sumDigest (bytes : Bytes) : Digest := .filled (bytes.foldl (· + ·) 0)

/-- The setters for two files of 5 and 11 bytes, with two pieces of eight one-byte chunks, where the
table is that of the bytes from 1 to 16.
-/
def configureTwoFiles : TorrentData :=
  let hashed := (TorrentData.new [46]).setSha1Hashes (List.replicate 20 36 ++ List.replicate 20 100)
  (((hashed.addFile [47, 97] 5).addFile [47, 98] 11).setPieceSize 8).setChunkSize 1

def twoFiles : TorrentData := { configureTwoFiles.initialisedWith 16 with needed := true }

theorem twoFiles_justInitialised : twoFiles.JustInitialised := by
  have configured : TorrentData.Configured configureTwoFiles :=
    .setChunkSize
      (.setPieceSize
        (.addFile (.addFile (.setSha1Hashes (.new [46]) (by decide)) (by decide)) (by decide))
        (by decide))
      (by decide)
  exact
    ⟨configureTwoFiles, 16, configureTwoFiles.initialisedWith 16, true, configured, by decide,
      TorrentData.setDataSize_success rfl (by decide) (by decide) (by decide +kernel), rfl⟩

/-- The delivery of a chunk, when every file operation succeeds. -/
def deliverChunk (chunk : Nat) (data : Bytes) : WriteCall :=
  { chunkId := chunk, data, env := { io := fun _ => .good, stack := zeroStack } }

/-- The chunks of both pieces in turn, with a wrong byte for a chunk that is there, and with two
bytes for one that is not.
-/
def deliverTwoFiles : List WriteCall :=
  let chunks (first count : Nat) : List WriteCall :=
    (List.range' first count).map fun chunk => deliverChunk chunk [.ofNat (chunk + 1)]
  chunks 8 4 ++ [deliverChunk 9 [77]] ++ chunks 0 8 ++ [deliverChunk 12 [13, 14]] ++ chunks 12 4

/-- Both pieces are verified in their two files, and no wrong block is in them. -/
theorem verified_before_complete_of_two_files
    : ∃ final,
        runSteps (write sumDigest) (start twoFiles (fun _ => none)) deliverTwoFiles = .ok final
          ∧ final.disk [46, 47, 97] = some [1, 2, 3, 4, 5]
          ∧ final.disk [46, 47, 98] = some [6, 7, 8, 9, 10, 11, 12, 13, 14, 15, 16]
          ∧ final.Verified sumDigest 0
          ∧ final.Verified sumDigest 1 := by
  have passed : returnsWith
      (runSteps (write sumDigest) (start twoFiles (fun _ => none)) deliverTwoFiles)
      (fun final =>
        decide
          (final.disk [46, 47, 97] = some [1, 2, 3, 4, 5]
            ∧ final.disk [46, 47, 98] = some [6, 7, 8, 9, 10, 11, 12, 13, 14, 15, 16]
            ∧ final.td.AllChunks 0
            ∧ final.td.AllChunks 1))
      = true := by
    decide +kernel
  obtain ⟨final, run, observed⟩ := exists_ok_of_returnsWith passed
  obtain ⟨inFirst, inSecond, first, second⟩ := of_decide_eq_true observed
  have good : ∀ call ∈ deliverTwoFiles, ∀ index, call.env.io index = .good := by
    intro call member index
    simp only [deliverTwoFiles, List.mem_append, List.mem_map, List.mem_singleton] at member
    rcases member with (((⟨_, _, rfl⟩ | rfl) | ⟨_, _, rfl⟩) | rfl) | ⟨_, _, rfl⟩ <;> rfl
  have faithful
      : Guarded (write sumDigest)
          (fun state call =>
            state.InRange call ∧ state.td.DeliversTrue sumDigest call.chunkId.toNat call.data)
          (start twoFiles (fun _ => none)) deliverTwoFiles := by
    decide +kernel
  have deliveries
      : Guarded (write sumDigest) (TrueDelivery sumDigest) (start twoFiles (fun _ => none))
          deliverTwoFiles :=
    @Guarded.of_invariant _ _ _ _ _ _ (fun _ => True)
      (fun _ _ _ met => ⟨⟨met.1.1, met.2, met.1.2⟩, fun _ _ => trivial⟩) _ _ trivial
      (faithful.and_of_mem good)
  have verified :=
    verified_before_complete twoFiles_justInitialised (by decide +kernel) (by decide +kernel)
      (show twoFiles.sha1Hashes = some (List.replicate 20 36 ++ List.replicate 20 100) from
        by decide +kernel)
      (by decide +kernel) (by decide +kernel)
      ⟨by decide +kernel, by decide +kernel, by decide +kernel, by decide +kernel⟩ deliveries run
  exact ⟨final, run, inFirst, inSecond, (verified 0 (by decide +kernel)).2 first,
    (verified 1 (by decide +kernel)).2 second⟩

/-- A piece that fails validation keeps all its bits, and the files do not hold it. -/
theorem complete_without_verification
    : ¬ ∀ (sha1 : Bytes → Digest) (td : TorrentData) (disk : Disk) (table : Bytes)
          (calls : List WriteCall) (final : Download),
        td.JustInitialised
        → 8 * td.chunkSize ∣ td.pieceSize
        → totalSize td.files = td.dataSize
        → td.sha1Hashes = some table
        → (table.length : Int) = 20 * td.pieceCount
        → (∀ call ∈ calls, 0 ≤ call.chunkId ∧ call.chunkId < td.chunkCount)
        → (∀ call ∈ calls, ∀ index, call.env.io index = .good)
        → runSteps (write sha1) (start td disk) calls = .ok final
        → ∀ piece < td.pieceTotal, final.td.AllChunks piece → final.Verified sha1 piece := by
  intro claim
  have passed : returnsWith
      (runSteps (write zeroDigest)
        (start (.ofSingleFile (some (List.replicate 20 1)) 8 8 1) (fun _ => none))
        (deliver 8 [7]))
      (fun final =>
        decide (final.td.AllChunks 0) && decide (final.td.pieceLength 0 = 8)
          && decide (storedByte final.td.files final.disk (final.td.pieceSize * 0 + 0) = none))
      = true := by
    decide +kernel
  obtain ⟨final, run, observed⟩ := exists_ok_of_returnsWith passed
  simp only [Bool.and_eq_true, decide_eq_true_eq] at observed
  obtain ⟨⟨all, length⟩, missing⟩ := observed
  obtain ⟨bytes, _, ⟨sized, held⟩, _⟩ := claim zeroDigest _ _ (List.replicate 20 1) _ final
    (TorrentData.SingleFileFits.justInitialised (by decide +kernel))
    (by decide +kernel) (by decide +kernel) (by decide +kernel) (by decide +kernel)
    (deliver_inRange (by decide +kernel)) (deliver_good 8 [7]) run 0 (by decide +kernel) all
  have byte := held 0 (by omega)
  rw [missing, List.getElem?_eq_getElem (by omega)] at byte
  cases byte

end Download

end UvgTorrent

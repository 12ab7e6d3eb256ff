import UvgTorrent.Downloads.Completion
import UvgTorrent.Downloads.PieceBuffers

/-! Order-independent assembly: chunks of one content, delivered in any order and any number
of times, leave the content in the files.
The invariant ties the bits to the buffers of unfinished pieces and to the stored bytes of
finished ones. It breaks only where the position of a hash does not fit its `int`.
-/

namespace UvgTorrent

open Foundations

/-- Files that hold a content byte by byte, and nothing more, concatenate to it. -/
theorem flatten_of_stored {files : List TorrentDataFileInfo} {disk : Disk} {start : Nat}
    {content : Bytes} (laid : LaidOut start files) (within : WithinSizes files disk)
    (sized : content.length = start + totalSize files)
    (stored
      : ∀ position,
          start ≤ position
          → position < start + totalSize files
          → storedByte files disk position = content[position]?)
    : (files.map (fileContent disk)).flatten = content.drop start := by
  induction files generalizing start with
  | nil =>
      simp only [totalSize, List.map_nil, List.sum_nil, Nat.add_zero] at sized
      simp [← sized]
  | cons file rest ih =>
      obtain ⟨atStart, laidRest⟩ := laid
      have total : totalSize (file :: rest) = file.fileSize + totalSize rest := by
        simp [totalSize]
      rw [total] at sized stored
      have own : fileContent disk file = slice content start file.fileSize := by
        apply List.ext_getElem?
        intro index
        rw [slice_getElem?]
        by_cases inside : index < file.fileSize
        · have byte := stored (start + index) (by omega) (by omega)
          rw [storedByte, if_pos (by omega)] at byte
          rw [if_pos inside, ← byte]
          simp [atStart]
        · rw [if_neg inside]
          apply List.getElem?_eq_none
          exact (within file (by simp)).trans (Nat.le_of_not_lt inside)
      have later := ih laidRest (fun other member => within other (by simp [member]))
        (by omega) (by
          intro position late early
          have byte := stored position (by omega) (by omega)
          rwa [storedByte, if_neg (by omega)] at byte)
      rw [List.map_cons, List.flatten_cons, own, later, slice, ← List.drop_drop,
        List.take_append_drop]

namespace TorrentData

variable {sha1 : Bytes → Digest} {td : TorrentData} {disk : Disk} {chunk piece : Nat}
  {data content : Bytes} {io : Nat → FileOutcome} {result : WriteResult}

/-- The bytes of all marked chunks. -/
def markedBytes (td : TorrentData) : Nat :=
  ∑ chunk ∈ (Finset.range td.chunkTotal).filter (td.completedBit · = true), td.chunkLength chunk

theorem sum_chunkLength (td : TorrentData) (count : Nat)
    : ∑ chunk ∈ Finset.range count, td.chunkLength chunk
      = min (td.chunkSize * count) td.dataSize := by
  induction count with
  | zero => simp
  | succ count ih =>
      rw [Finset.sum_range_succ, ih, chunkLength, Nat.mul_succ]
      omega

theorem markedBytes_le (td : TorrentData) : td.markedBytes ≤ td.dataSize :=
  calc td.markedBytes
      ≤ ∑ chunk ∈ Finset.range td.chunkTotal, td.chunkLength chunk :=
        Finset.sum_le_sum_of_subset (Finset.filter_subset _ _)
    _ = min (td.chunkSize * td.chunkTotal) td.dataSize := td.sum_chunkLength _
    _ ≤ td.dataSize := Nat.min_le_right ..

/-- With exact counts, all chunks together are the data. -/
theorem markedBytes_of_all (ready : td.Initialised) (exact : td.ExactCounts)
    (all : ∀ chunk < td.chunkTotal, td.completedBit chunk = true)
    : td.markedBytes = td.dataSize := by
  have everything : (Finset.range td.chunkTotal).filter (td.completedBit · = true)
      = Finset.range td.chunkTotal :=
    Finset.filter_true_of_mem (fun chunk member => all chunk (Finset.mem_range.mp member))
  have upper := Nat.lt_div_mul_add (a := td.dataSize + td.chunkSize - 1) ready.chunkSize_pos
  have positive := ready.chunkSize_pos
  rw [← exact.chunks, Nat.mul_comm] at upper
  rw [markedBytes, everything, sum_chunkLength]
  omega

/-- Marking a clear chunk adds its bytes to the marked ones. -/
theorem markedBytes_setBit {next : TorrentData} {completed : Bitfield}
    (field : td.completed = some completed)
    (counted : completed.bitCount = td.chunkTotal) (small : td.chunkTotal < 2 ^ 31)
    (inRange : chunk < td.chunkTotal) (clear : completed.bit chunk = false)
    (marked : next.completed = some (completed.setBit chunk 1))
    (total : next.chunkTotal = td.chunkTotal) (length : next.chunkLength = td.chunkLength)
    : next.markedBytes = td.chunkLength chunk + td.markedBytes := by
  have within : chunk < completed.bitCount := by omega
  have bits := Bitfield.bit_setBit_one within (by omega)
  have grown : (Finset.range next.chunkTotal).filter (next.completedBit · = true)
      = insert chunk ((Finset.range td.chunkTotal).filter (td.completedBit · = true)) := by
    ext other
    simp only [Finset.mem_filter, Finset.mem_range, Finset.mem_insert, total,
      completedBit_eq marked, completedBit_eq field, bits, Bool.or_eq_true, decide_eq_true_eq]
    constructor
    · rintro ⟨below, here | set⟩
      · exact .inl here.symm
      · exact .inr ⟨below, set⟩
    · rintro (rfl | ⟨below, set⟩)
      · exact ⟨inRange, .inl rfl⟩
      · exact ⟨below, .inr set⟩
  rw [markedBytes, grown, length, Finset.sum_insert, markedBytes]
  intro member
  have set := (Finset.mem_filter.mp member).2
  rw [completedBit_eq field, clear] at set
  cases set

/-- An accepted chunk adds its own bytes. -/
theorem ChunkStep.markedBytes_eq (step : ChunkStep sha1 td disk chunk data io result)
    (ready : td.Initialised) (inRange : chunk < td.chunkTotal)
    (accepted : td.Accepts chunk data)
    : result.td.markedBytes = td.chunkLength chunk + td.markedBytes := by
  have same := step.setup
  obtain ⟨completed, field, counted, _⟩ := ready.completed_field
  have clear : completed.bit chunk = false := by
    rw [← completedBit_eq field]
    exact accepted.1
  exact markedBytes_setBit field counted ready.chunkTotal_lt inRange clear
    (step.completed_of_accepts accepted field) same.chunkTotal same.chunkLength

@[simp] theorem countPiece_downloaded (td : TorrentData) (files : List TorrentDataFileInfo)
    (size : Nat)
    : (td.countPiece files size).downloaded = wrap64 (td.downloaded + size) := by
  unfold countPiece countDownloaded
  dsimp only
  split <;> rfl

@[simp] theorem countPiece_left (td : TorrentData) (files : List TorrentDataFileInfo)
    (size : Nat)
    : (td.countPiece files size).left = wrap64 (td.left - size) := by
  unfold countPiece countDownloaded
  dsimp only
  split <;> rfl

/-- A full count resets `needed`. -/
theorem countPiece_cleared {files : List TorrentDataFileInfo} {size : Nat}
    (complete : (td.countPiece files size).isComplete = true)
    : (td.countPiece files size).needed = false := by
  unfold countPiece countDownloaded at complete ⊢
  dsimp only at complete ⊢
  split at complete
  · rename_i full
    rw [if_pos full]
  · rename_i notFull
    exact absurd complete notFull

/-- Both counters follow every accepted chunk. -/
theorem ChunkStep.counters (step : ChunkStep sha1 td disk chunk data io result)
    (succeeds : result.exit = .failure → result.report = none)
    (accepted : td.Accepts chunk data)
    : result.td.downloaded = wrap64 (td.downloaded + td.chunkLength chunk)
      ∧ result.td.left = wrap64 (td.left - td.chunkLength chunk) := by
  cases step with
  | refused reason => exact absurd accepted reason
  | held stores unfinished => exact ⟨rfl, rfl⟩
  | rejected judged => exact ⟨rfl, rfl⟩
  | abandoned judged ran stopped =>
      have none := succeeds rfl
      cases none
  | finished judged ran notThrown whole => exact ⟨countPiece_downloaded .., countPiece_left ..⟩

/-- The table is absent or holds the digest of every piece of the content. -/
def CorrectTable (sha1 : Bytes → Digest) (td : TorrentData) (content : Bytes) : Prop :=
  td.sha1Hashes = none
  ∨ ∃ table,
      td.sha1Hashes = some table
      ∧ ∀ piece < td.pieceTotal,
          hashEntry table piece = (sha1 (td.pieceData content piece)).1

/-- The position of every hash fits its `int`. -/
def HashesReachable (td : TorrentData) : Prop :=
  td.sha1Hashes = none ∨ 20 * (td.pieceTotal - 1) < 2 ^ 31

end TorrentData

namespace Download

variable {sha1 : Bytes → Digest} {state final : Download} {call : WriteCall}
  {calls : List WriteCall} {td : TorrentData} {disk : Disk} {result : WriteResult}
  {content : Bytes} {chunk piece : Nat}

/-- A torrent whose chunks are to be assembled to a content: aligned sizes that fit their
`int`s, files under distinct paths that do not exist yet and have the content's length
together, and no table or the right one.
-/
structure Assemblable (sha1 : Bytes → Digest) (td : TorrentData) (disk : Disk)
    (content : Bytes)
    : Prop where
  started : td.JustInitialised
  divides : 8 * td.chunkSize ∣ td.pieceSize
  pieceSize_lt : td.pieceSize < 2 ^ 31
  chunks_lt : (td.dataSize + td.chunkSize - 1) / td.chunkSize < 2 ^ 31
  content_length : content.length = td.dataSize
  nonempty : 0 < td.dataSize
  total : totalSize td.files = td.dataSize
  distinct : (td.files.map TorrentDataFileInfo.filePath).Nodup
  absent : ∀ file ∈ td.files, disk file.filePath = none
  table : td.CorrectTable sha1 content

/-- The call delivers the content of a chunk, and every file operation succeeds. -/
def Delivers (td : TorrentData) (content : Bytes) (call : WriteCall) : Prop :=
  ∃ chunk < td.chunkTotal,
    call.chunkId = (chunk : Nat)
    ∧ call.data = td.chunkData content chunk
    ∧ ∀ index, call.env.io index = .good

/-- The download is complete and the files hold the content. -/
structure Assembled (state : Download) (content : Bytes) : Prop where
  files : (state.td.files.map (fileContent state.disk)).flatten = content
  bits : ∀ chunk < state.td.chunkTotal, state.td.completedBit chunk = true
  completedPieces : state.td.completedPieces = state.td.pieceCount
  complete : state.td.isComplete = true
  needed : state.td.needed = false
  downloaded : state.td.downloaded = state.td.dataSize
  left : state.td.left = 0
  buffers : ∃ map, state.td.data = some map ∧ ∀ key, map.find key = none
  successes : state.announcedPieces.Perm (List.range state.td.pieceTotal)

namespace Assemblable

/-- The sizes of an assemblable torrent fit every `int`. -/
theorem fitsInts (setting : Assemblable sha1 td disk content) : td.FitsInts := by
  have fresh := setting.started.fresh
  have chunkPos := fresh.chunkSize_pos
  have piecePos := fresh.pieceSize_pos
  have pieceSmall := setting.pieceSize_lt
  have chunks := setting.chunks_lt
  have smaller : 8 * td.chunkSize ≤ td.pieceSize := Nat.le_of_dvd piecePos setting.divides
  have upper := Nat.lt_div_mul_add (a := td.dataSize + td.chunkSize - 1) chunkPos
  have product : (td.dataSize + td.chunkSize - 1) / td.chunkSize * td.chunkSize
      ≤ 2 ^ 31 * 2 ^ 28 :=
    Nat.mul_le_mul (Nat.le_of_lt chunks) (by omega)
  have fewer : td.pieceTotal ≤ (td.dataSize + td.chunkSize - 1) / td.chunkSize := by
    rw [TorrentData.pieceTotal]
    apply (Nat.le_div_iff_mul_le chunkPos).mpr
    have floor := Nat.div_mul_le_self (td.dataSize + td.pieceSize - 1) td.pieceSize
    rcases Nat.eq_zero_or_pos ((td.dataSize + td.pieceSize - 1) / td.pieceSize) with
      none | some
    · rw [none]
      omega
    · have larger := Nat.mul_le_mul_left
        ((td.dataSize + td.pieceSize - 1) / td.pieceSize - 1)
        (show td.chunkSize ≤ td.pieceSize by omega)
      rw [Nat.sub_mul, Nat.sub_mul, Nat.one_mul, Nat.one_mul] at larger
      have one := Nat.mul_le_mul_right td.chunkSize some
      have onePiece := Nat.mul_le_mul_right td.pieceSize some
      omega
  refine ⟨?_, ?_, ?_, by omega⟩
  · rw [fresh.chunkCount, u64Sub_of_le chunkPos (by omega), u64_of_lt (by omega),
      ← Nat.add_sub_assoc chunkPos]
    exact wrap32_natCast chunks
  · rw [fresh.pieceCount, u64Sub_of_le piecePos (by omega), u64_of_lt (by omega),
      ← Nat.add_sub_assoc piecePos]
    exact wrap32_natCast (Nat.lt_of_le_of_lt fewer chunks)
  · exact Nat.lt_of_le_of_lt (Nat.div_le_self ..) pieceSmall

theorem aligned (setting : Assemblable sha1 td disk content) : td.Aligned :=
  ⟨setting.divides, setting.fitsInts.chunksPerPiece⟩

theorem initialised (setting : Assemblable sha1 td disk content) : td.Initialised :=
  setting.started.fresh.initialised setting.fitsInts.chunkCount_nonneg
    (fun _ below => setting.started.fresh.pieceOf_fits setting.divides below)

theorem exactCounts (setting : Assemblable sha1 td disk content) : td.ExactCounts :=
  setting.fitsInts.exactCounts setting.started.fresh

theorem stored (setting : Assemblable sha1 td disk content) : td.Stored :=
  setting.fitsInts.stored setting.started.fresh setting.total setting.distinct

theorem pieceTotal_pos (setting : Assemblable sha1 td disk content) : 0 < td.pieceTotal :=
  (Nat.le_div_iff_mul_le setting.started.fresh.pieceSize_pos).mpr (by
    have positive := setting.nonempty
    omega)

end Assemblable

/-- What holds between two deliveries. -/
structure Assembling (td : TorrentData) (content : Bytes) (state : Download) : Prop where
  ready : state.td.Initialised
  same : td.SameSetup state.td
  counting : state.Counting td.needed
  buffers
    : ∀ piece < td.pieceTotal,
        ¬ state.td.AllChunks piece
        → state.td.AgreesOn content piece (state.td.completedBit · = true)
            (state.td.pieceBuffer piece)
  stored
    : ∀ piece < td.pieceTotal,
        state.td.AllChunks piece
        → state.td.PieceStored state.disk piece (td.pieceData content piece)
          ∧ state.td.heldPiece piece = none
          ∧ state.Written piece
  keys
    : ∀ map key buffer,
        state.td.data = some map
        → map.find key = some buffer
        → ∃ piece < td.pieceTotal, key = formatInt (piece : Nat)
  within : WithinSizes state.td.files state.disk
  downloaded : state.td.downloaded = state.td.markedBytes
  left : state.td.left = td.dataSize - state.td.markedBytes
  cleared : state.td.isComplete = true → state.td.needed = false
  marked : ∀ entry ∈ state.log, state.td.completedBit entry.chunkId.toNat = true

/-- Before the first delivery no chunk is marked and no file exists. -/
theorem Assembling.start (setting : Assemblable sha1 td disk content)
    : Assembling td content (start td disk) := by
  have fresh := setting.started.fresh
  have ready := setting.initialised
  have counted := setting.fitsInts.chunkCount_nonneg
  have dataSmall := setting.stored.dataSize_lt
  have clear (chunk : Nat) (below : chunk < td.chunkTotal)
      : td.completedBit chunk = false :=
    fresh.completedBit_eq_false counted below
  have unmarked : td.markedBytes = 0 := by
    rw [TorrentData.markedBytes, Finset.filter_false_of_mem, Finset.sum_empty]
    intro chunk member
    rw [clear chunk (Finset.mem_range.mp member)]
    exact Bool.false_ne_true
  refine
    {
      ready
      same := .refl td
      counting := Counting.start fresh disk
      buffers := ?_
      stored := ?_
      keys := ?_
      within := ?_
      downloaded := ?_
      left := ?_
      cleared := ?_
      marked := fun entry member => by cases member
    }
  · intro piece inRange _ index inside set
    obtain ⟨below, _⟩ :=
      setting.aligned.chunk_of_position ready setting.exactCounts inRange inside
    have set : td.completedBit ((td.pieceSize * piece + index) / td.chunkSize) = true := set
    rw [clear _ below] at set
    cases set
  · intro piece inRange all
    obtain ⟨chunk, below, own⟩ :=
      setting.aligned.exists_chunk ready setting.exactCounts inRange
    have set := all chunk below own
    change td.completedBit chunk = true at set
    rw [clear chunk below] at set
    cases set
  · intro map key buffer found bound
    rw [show (Download.start td disk).td.data = some (HashMap.new 1000) from fresh.data] at found
    rw [← Option.some.inj found, HashMap.find_new] at bound
    cases bound
  · intro file member
    rw [fileContent, show (Download.start td disk).disk file.filePath = none from
      setting.absent file member]
    exact Nat.zero_le _
  · change td.downloaded = (td.markedBytes : Int)
    rw [fresh.downloaded, unmarked]
    rfl
  · change td.left = (td.dataSize : Int) - (td.markedBytes : Int)
    rw [fresh.left, unmarked, wrap64_of_fits (by omega) (by omega)]
    omega
  · intro complete
    have positive := setting.pieceTotal_pos
    change td.isComplete = true at complete
    unfold TorrentData.isComplete at complete
    split at complete
    · cases complete
    · have full := of_decide_eq_true complete
      rw [fresh.completedPieces, setting.exactCounts.pieces] at full
      omega

/-- The assembled buffer agrees with the content on the marked chunks and the new one. -/
theorem Assembling.assembled_agrees (assembling : Assembling td content state)
    (setting : Assemblable sha1 td disk content) (inRange : chunk < state.td.chunkTotal)
    {data : Bytes} {completed : Bitfield} {map : HashMap Bytes}
    (stores : state.td.Stores completed map chunk data)
    (delivered : data = state.td.chunkData content chunk)
    : state.td.AgreesOn content (state.td.pieceOf chunk)
        (fun other => other = chunk ∨ state.td.completedBit other = true)
        (state.td.assembledPiece chunk data) := by
  have ready := assembling.ready
  have same := assembling.same
  have pieceInRange := ready.pieceOf_lt inRange
  have offsetFits : state.td.offsetInPiece chunk < 2 ^ 31 := by
    have bound := TorrentData.offsetInPiece_lt ready.pieceSize_pos chunk
    have pieceSmall := setting.pieceSize_lt
    rw [same.pieceSize] at bound
    omega
  have incomplete : ¬ state.td.AllChunks (state.td.pieceOf chunk) := by
    intro all
    have set := all chunk inRange rfl
    rw [stores.accepted.1] at set
    cases set
  have before :=
    assembling.buffers _ (by rw [← same.pieceTotal]; exact pieceInRange) incomplete
  exact before.assembled ready stores (setting.content_length.trans same.dataSize.symm)
    offsetFits rfl delivered pieceInRange

/-- The last missing chunk of a piece completes the piece of the content, which validates when
the position of its hash fits.
-/
theorem Assembling.validates (assembling : Assembling td content state)
    (setting : Assemblable sha1 td disk content) (reachable : td.HashesReachable)
    (inRange : chunk < state.td.chunkTotal) {data : Bytes} {completed : Bitfield}
    {map : HashMap Bytes} (stores : state.td.Stores completed map chunk data)
    (delivered : data = state.td.chunkData content chunk)
    (last : state.td.LastMissing chunk)
    : (state.td.assembledPiece chunk data).take (state.td.pieceLength (state.td.pieceOf chunk))
        = state.td.pieceData content (state.td.pieceOf chunk)
      ∧ state.td.validatePiece sha1 (state.td.pieceInfoOf (state.td.pieceOf chunk))
          (state.td.assembledPiece chunk data)
        = .ok .success := by
  have ready := assembling.ready
  have same := assembling.same
  have aligned := same.aligned setting.aligned
  have exact := same.exactCounts setting.exactCounts
  have sized : content.length = state.td.dataSize :=
    setting.content_length.trans same.dataSize.symm
  have pieceInRange := ready.pieceOf_lt inRange
  have whole :=
    (assembling.assembled_agrees setting inRange stores delivered).take_eq aligned ready exact
      pieceInRange last
  refine ⟨whole, ?_⟩
  have pieces : state.td.pieceTotal = td.pieceTotal := same.pieceTotal
  rcases setting.table with absent | ⟨table, found, digests⟩
  · simp only [TorrentData.validatePiece, same.sha1Hashes, absent]
  · have entry := digests (state.td.pieceOf chunk) (by rw [← pieces]; exact pieceInRange)
    have entryLength : (TorrentData.hashEntry table (state.td.pieceOf chunk)).length = 20 := by
      rw [entry]
      exact (sha1 _).2
    rw [TorrentData.hashEntry, slice_length] at entryLength
    have positionFits : 20 * state.td.pieceOf chunk < 2 ^ 31 := by
      rcases reachable with absent | fits
      · rw [absent] at found
        cases found
      · omega
    have pieceSmall := (same.stored setting.stored).pieceLength_lt (state.td.pieceOf chunk)
    have tableFits := setting.started.fresh.hashes_lt table found
    refine TorrentData.validatePiece_of_entry (same.sha1Hashes.trans found) positionFits
      (by omega) (Nat.lt_trans tableFits (by norm_num)) (by omega) ?_
    rw [whole, entry, TorrentData.pieceData, TorrentData.pieceData, same.pieceSize,
      same.pieceLength]

/-- A delivery returns: an accepted chunk is taken in, and the piece it may complete validates
and is written.
-/
theorem Assembling.returns (assembling : Assembling td content state)
    (setting : Assemblable sha1 td disk content) (reachable : td.HashesReachable)
    (inRange : chunk < state.td.chunkTotal) {data : Bytes}
    (delivered : data = state.td.chunkData content chunk) {env : WriteEnv}
    (good : ∀ index, env.io index = .good)
    : ∃ result, state.td.writeChunk sha1 state.disk chunk data env = .ok result := by
  have ready := assembling.ready
  have same := assembling.same
  have aligned := same.aligned setting.aligned
  obtain ⟨completed, field, _⟩ := ready.completed_field
  obtain ⟨map, pieces, _⟩ := ready.data_map
  by_cases accepted : state.td.Accepts chunk data
  · have pieceSmall : state.td.pieceSize < 2 ^ 31 := by
      rw [same.pieceSize]
      exact setting.pieceSize_lt
    have stores := aligned.stores ready pieceSmall inRange accepted field pieces
    rw [TorrentData.writeChunk_of_stores ready inRange stores]
    split
    · rename_i completes
      have last := (aligned.completes_iff ready inRange field accepted.1).mp completes
      have validated := (assembling.validates setting reachable inRange stores delivered last).2
      obtain ⟨loop, ran, _⟩ :=
        TorrentData.writeAssembled_good ready (same.stored setting.stored) stores inRange good
      exact TorrentData.finishPiece_returns validated ran
    · exact ⟨_, rfl⟩
  · exact ⟨_, TorrentData.writeChunk_refused ready inRange accepted env⟩

/-- Pieces other than the delivered one keep their buffers. -/
theorem Assembling.buffers_apart (assembling : Assembling td content state)
    (setting : Assemblable sha1 td disk content) (inRange : chunk < state.td.chunkTotal)
    {data : Bytes} {io : Nat → FileOutcome}
    (step : TorrentData.ChunkStep sha1 state.td state.disk chunk data io result)
    (held
      : ∀ piece ≠ state.td.pieceOf chunk,
          result.td.heldPiece piece = state.td.heldPiece piece)
    (pieceInRange : piece < td.pieceTotal) (apart : piece ≠ state.td.pieceOf chunk)
    (incomplete : ¬ result.td.AllChunks piece)
    : result.td.AgreesOn content piece (result.td.completedBit · = true)
        (result.td.pieceBuffer piece) := by
  have ready := assembling.ready
  have same := step.setup
  have aligned := assembling.same.aligned setting.aligned
  have exact := assembling.same.exactCounts setting.exactCounts
  have unfinished : ¬ state.td.AllChunks piece := by
    intro all
    apply incomplete
    intro other below own
    rw [same.chunkTotal] at below
    rw [same.pieceOf] at own
    exact step.completedBit_mono ready inRange (all other below own)
  have buffer : result.td.pieceBuffer piece = state.td.pieceBuffer piece := by
    rw [TorrentData.pieceBuffer, held piece apart, same.pieceSize, TorrentData.pieceBuffer]
  intro index inside set
  rw [same.pieceLength] at inside
  rw [same.pieceSize, same.chunkSize] at set
  rw [buffer, same.pieceSize]
  apply assembling.buffers piece pieceInRange unfinished index inside
  rcases (step.completedBit_iff ready inRange _).mp set with before | ⟨here, _⟩
  · exact before
  · obtain ⟨_, own⟩ := aligned.chunk_of_position ready exact
      (by rw [assembling.same.pieceTotal]; exact pieceInRange) inside
    rw [here] at own
    exact absurd own.symm apart

/-- Pieces other than the delivered one stay stored. -/
theorem Assembling.stored_apart (assembling : Assembling td content state)
    (inRange : chunk < state.td.chunkTotal) {data : Bytes} {io : Nat → FileOutcome}
    (step : TorrentData.ChunkStep sha1 state.td state.disk chunk data io result)
    (held
      : ∀ piece ≠ state.td.pieceOf chunk,
          result.td.heldPiece piece = state.td.heldPiece piece)
    (kept
      : ∀ other bytes,
          other ≠ state.td.pieceOf chunk
          → state.td.PieceStored state.disk other bytes
          → result.td.PieceStored result.disk other bytes)
    (pieceInRange : piece < td.pieceTotal) (apart : piece ≠ state.td.pieceOf chunk)
    (all : result.td.AllChunks piece)
    : result.td.PieceStored result.disk piece (td.pieceData content piece)
      ∧ result.td.heldPiece piece = none
      ∧ (state.record call result).Written piece := by
  obtain ⟨stored, empty, written⟩ :=
    assembling.stored piece pieceInRange
      (step.allChunks_of_ne assembling.ready inRange apart all)
  exact ⟨kept piece _ apart stored, (held piece apart).trans empty,
    (written_record_iff step.setup).mpr (.inl written)⟩

/-- The result of a call that changes nothing. -/
def unchanged (state : Download) : WriteResult :=
  { td := state.td, disk := state.disk, exit := .failure, report := none }

/-- A chunk that is already there changes nothing but the log. -/
theorem Assembling.record_unchanged (assembling : Assembling td content state)
    (counting : (state.record call state.unchanged).Counting td.needed)
    (set : state.td.completedBit call.chunkId.toNat = true)
    : Assembling td content (state.record call state.unchanged) := by
  refine { assembling with counting, stored := ?_, marked := ?_ }
  · intro piece inRange all
    obtain ⟨stored, empty, written⟩ := assembling.stored piece inRange all
    exact ⟨stored, empty, (written_record_iff (.refl _)).mpr (.inl written)⟩
  · intro entry member
    rcases List.mem_cons.mp member with rfl | old
    · exact set
    · exact assembling.marked entry old

/-- An accepted chunk that is taken in keeps the invariant, given what becomes of its own
piece.
-/
theorem Assembling.record_accepted (assembling : Assembling td content state)
    (setting : Assemblable sha1 td disk content) (named : call.chunkId = chunk)
    (inRange : chunk < state.td.chunkTotal)
    (step
      : TorrentData.ChunkStep sha1 state.td state.disk chunk call.data call.env.io result)
    (accepted : state.td.Accepts chunk call.data)
    (good : ∀ index, call.env.io index = .good)
    (counted
      : result.td.downloaded = wrap64 (state.td.downloaded + state.td.chunkLength chunk)
        ∧ result.td.left = wrap64 (state.td.left - state.td.chunkLength chunk))
    (held
      : ∀ piece ≠ state.td.pieceOf chunk,
          result.td.heldPiece piece = state.td.heldPiece piece)
    (ownBuffer
      : ¬ result.td.AllChunks (state.td.pieceOf chunk)
        → result.td.AgreesOn content (state.td.pieceOf chunk)
            (result.td.completedBit · = true)
            (result.td.pieceBuffer (state.td.pieceOf chunk)))
    (ownStored
      : result.td.AllChunks (state.td.pieceOf chunk)
        → result.td.PieceStored result.disk (state.td.pieceOf chunk)
            (td.pieceData content (state.td.pieceOf chunk))
          ∧ result.td.heldPiece (state.td.pieceOf chunk) = none
          ∧ (state.record call result).Written (state.td.pieceOf chunk))
    (keys
      : ∀ map key buffer,
          result.td.data = some map
          → map.find key = some buffer
          → ∃ piece < td.pieceTotal, key = formatInt (piece : Nat))
    (cleared : result.td.isComplete = true → result.td.needed = false)
    : Assembling td content (state.record call result) := by
  have ready := assembling.ready
  have same := step.setup
  have exact := assembling.same.exactCounts setting.exactCounts
  have dataSmall := setting.stored.dataSize_lt
  have bytes := step.markedBytes_eq ready inRange accepted
  have bound := result.td.markedBytes_le
  rw [same.dataSize, assembling.same.dataSize] at bound
  have storage := step.storage ready (assembling.same.stored setting.stored) inRange good
  have kept : ∀ other bytes,
      other ≠ state.td.pieceOf chunk
      → state.td.PieceStored state.disk other bytes
      → result.td.PieceStored result.disk other bytes := by
    rcases storage with ⟨_, _, _, _, _, kept, _⟩ | ⟨sameDisk, _⟩
    · exact kept
    · intro other bytes _ stored
      rw [sameDisk]
      exact stored.of_setup same
  refine
    {
      ready := step.initialised ready inRange
      same := assembling.same.trans same
      counting :=
        assembling.counting.record exact.pieces exact.pieceTotal_lt ready
          (assembling.same.stored setting.stored).addressable named inRange (lands_of_good good)
          step
      buffers := ?_
      stored := ?_
      keys
      within := ?_
      downloaded := ?_
      left := ?_
      cleared
      marked := ?_
    }
  · intro piece pieceInRange incomplete
    by_cases own : piece = state.td.pieceOf chunk
    · rw [own] at incomplete ⊢
      exact ownBuffer incomplete
    · exact assembling.buffers_apart setting inRange step held pieceInRange own incomplete
  · intro piece pieceInRange all
    by_cases own : piece = state.td.pieceOf chunk
    · rw [own] at all ⊢
      exact ownStored all
    · exact assembling.stored_apart inRange step held kept pieceInRange own all
  · rcases storage with ⟨_, _, _, _, _, _, within⟩ | ⟨_, _, within, _⟩
    · exact within assembling.within
    · exact within assembling.within
  · change result.td.downloaded = (result.td.markedBytes : Int)
    rw [counted.1, assembling.downloaded, bytes, wrap64_of_fits (by omega) (by omega)]
    push_cast
    ring
  · change result.td.left = (td.dataSize : Int) - (result.td.markedBytes : Int)
    rw [counted.2, assembling.left, bytes, wrap64_of_fits (by omega) (by omega)]
    push_cast
    ring
  · intro entry member
    rcases List.mem_cons.mp member with rfl | old
    · refine (step.completedBit_iff ready inRange _).mpr (.inr ⟨?_, accepted⟩)
      rw [named, Int.toNat_natCast]
    · exact step.completedBit_mono ready inRange (assembling.marked entry old)

/-- A piece key of the map after the chunk's own piece is stored or taken. -/
theorem Assembling.keys_set (assembling : Assembling td content state)
    (inRange : chunk < state.td.chunkTotal) {map : HashMap Bytes}
    (pieces : state.td.data = some map) {key : CString} {buffer : Bytes}
    (bound
      : key = formatInt (state.td.pieceOf chunk) ∨ map.find key = some buffer)
    : ∃ piece < td.pieceTotal, key = formatInt (piece : Nat) := by
  rcases bound with own | old
  · refine ⟨state.td.pieceOf chunk, ?_, own⟩
    rw [← assembling.same.pieceTotal]
    exact assembling.ready.pieceOf_lt inRange
  · exact assembling.keys map key buffer pieces old

/-- A chunk that leaves its piece unfinished is held in the buffer. -/
theorem Assembling.record_held (assembling : Assembling td content state)
    (setting : Assemblable sha1 td disk content) (named : call.chunkId = chunk)
    (inRange : chunk < state.td.chunkTotal)
    (delivered : call.data = state.td.chunkData content chunk)
    (good : ∀ index, call.env.io index = .good) {completed : Bitfield} {map : HashMap Bytes}
    (stores : state.td.Stores completed map chunk call.data)
    (unfinished : ¬ state.td.Completes completed chunk)
    (made
      : result
        = {
            td := state.td.holdChunk completed map chunk
              (state.td.assembledPiece chunk call.data)
            disk := state.disk
            exit := .failure
            report := none
          })
    : Assembling td content (state.record call result) := by
  have ready := assembling.ready
  have aligned := assembling.same.aligned setting.aligned
  have accepted := stores.accepted
  have step : TorrentData.ChunkStep sha1 state.td state.disk chunk call.data call.env.io
      result := by
    rw [made]
    exact .held stores unfinished
  have setup := step.setup
  have heldPieces (piece : Nat)
      : result.td.heldPiece piece
        = if piece = state.td.pieceOf chunk then
            some (state.td.assembledPiece chunk call.data)
          else state.td.heldPiece piece := by
    rw [made]
    exact TorrentData.heldPiece_holdChunk stores.pieces completed chunk _ piece
  have notAll : ¬ result.td.AllChunks (state.td.pieceOf chunk) := by
    intro all
    exact unfinished ((aligned.completes_iff ready inRange stores.field accepted.1).mpr
      (step.lastMissing ready inRange all))
  refine assembling.record_accepted setting named inRange step accepted good
    ⟨by rw [made]; rfl, by rw [made]; rfl⟩ ?_ ?_ (fun all => absurd all notAll) ?_
    (by rw [made]; exact assembling.cleared)
  · intro piece apart
    rw [heldPieces, if_neg apart]
  · intro _ index inside set
    have buffer : result.td.pieceBuffer (state.td.pieceOf chunk)
        = state.td.assembledPiece chunk call.data := by
      rw [TorrentData.pieceBuffer, heldPieces, if_pos rfl, Option.getD_some]
    rw [setup.pieceLength] at inside
    rw [setup.pieceSize, setup.chunkSize, step.completedBit_iff ready inRange] at set
    rw [buffer, setup.pieceSize]
    apply assembling.assembled_agrees setting inRange stores delivered index inside
    rcases set with before | ⟨here, _⟩
    · exact .inr before
    · exact .inl here
  · intro other key buffer found bound
    rw [made] at found
    rw [← Option.some.inj found, HashMap.find_set_get] at bound
    apply assembling.keys_set inRange stores.pieces
    split at bound
    · rename_i own
      exact .inl own
    · exact .inr bound

/-- A chunk that completes its piece leaves the piece in the files. -/
theorem Assembling.record_finished (assembling : Assembling td content state)
    (setting : Assemblable sha1 td disk content) (reachable : td.HashesReachable)
    (named : call.chunkId = chunk) (inRange : chunk < state.td.chunkTotal)
    (delivered : call.data = state.td.chunkData content chunk)
    (good : ∀ index, call.env.io index = .good) {completed : Bitfield} {map : HashMap Bytes}
    {loop : WriteLoop}
    (judged : state.td.Judged sha1 completed map chunk call.data .success)
    (ran : state.td.writeAssembled state.disk chunk call.data call.env.io = .ok loop)
    (notThrown : loop.thrown = false)
    (whole : loop.dataWritten = state.td.pieceLength (state.td.pieceOf chunk))
    (made
      : result
        = {
            td := (state.td.markChunk completed map chunk).countPiece loop.files
              (state.td.chunkLength chunk)
            disk := loop.disk
            exit := .success
            report := some (state.td.reportOf chunk call.data .success loop.reached)
          })
    : Assembling td content (state.record call result) := by
  have ready := assembling.ready
  have aligned := assembling.same.aligned setting.aligned
  have stores := judged.stores
  have accepted := stores.accepted
  have step : TorrentData.ChunkStep sha1 state.td state.disk chunk call.data call.env.io
      result := by
    rw [made]
    exact .finished judged ran notThrown whole
  have setup := step.setup
  have last :=
    (aligned.completes_iff ready inRange stores.field accepted.1).mp judged.completes
  have content' := (assembling.validates setting reachable inRange stores delivered last).1
  have taken : result.td.data = some (map.get (formatInt (state.td.pieceOf chunk))).2 := by
    rw [made]
    exact TorrentData.countPiece_data ..
  have heldPieces := TorrentData.heldPiece_of_taken stores.pieces taken
  have all : result.td.AllChunks (state.td.pieceOf chunk) := by
    intro other below own
    rw [setup.chunkTotal] at below
    rw [setup.pieceOf] at own
    rw [step.completedBit_iff ready inRange]
    rcases last other below own with here | before
    · exact .inr ⟨here, accepted⟩
    · exact .inl before
  refine assembling.record_accepted setting named inRange step accepted good
    ⟨by rw [made]; exact TorrentData.countPiece_downloaded ..,
      by rw [made]; exact TorrentData.countPiece_left ..⟩
    ?_ (fun notAll => absurd all notAll) ?_ ?_
    (by rw [made]; exact TorrentData.countPiece_cleared)
  · intro piece apart
    rw [heldPieces, if_neg apart]
  · intro _
    refine ⟨?_, by rw [heldPieces, if_pos rfl], ?_⟩
    · rcases step.storage ready (assembling.same.stored setting.stored) inRange good with
        ⟨_, _, _, _, placed, _⟩ | ⟨_, _, _, never⟩
      · rw [content', TorrentData.pieceData, assembling.same.pieceSize,
          assembling.same.pieceLength] at placed
        exact placed
      · exact absurd judged (never _ _)
    · have addressable := (assembling.same.stored setting.stored).addressable
      have lands := lands_of_good good
      rw [made] at setup ⊢
      refine (written_record_iff setup).mpr (.inr ⟨_, rfl, rfl, rfl, ?_, fun distinct => ?_⟩)
      · exact (TorrentData.writeAssembled_whole_iff ready addressable stores inRange lands ran).mp
          ⟨notThrown, whole⟩
      · exact TorrentData.writeAssembled_stores ready addressable stores inRange lands ran distinct
          notThrown whole
  · intro other key buffer found bound
    rw [← Option.some.inj (taken.symm.trans found), HashMap.find_get_snd] at bound
    apply assembling.keys_set inRange stores.pieces
    split at bound
    · rename_i own
      exact .inl own
    · exact .inr bound

/-- One delivery returns and keeps the invariant. -/
theorem Assembling.deliver (assembling : Assembling td content state)
    (setting : Assemblable sha1 td disk content) (reachable : td.HashesReachable)
    (delivers : Delivers td content call)
    : ∃ next, state.write sha1 call = .ok next ∧ Assembling td content next := by
  obtain ⟨chunk, below, named, delivered, good⟩ := delivers
  have ready := assembling.ready
  have same := assembling.same
  have aligned := same.aligned setting.aligned
  have exact := same.exactCounts setting.exactCounts
  have inRange : chunk < state.td.chunkTotal := by
    rw [same.chunkTotal]
    exact below
  have delivered : call.data = state.td.chunkData content chunk := by
    rw [delivered, TorrentData.chunkData, TorrentData.chunkData, same.chunkSize, same.chunkLength]
  obtain ⟨result, returned⟩ :=
    assembling.returns setting reachable inRange delivered good
  have step := TorrentData.writeChunk_step ready inRange returned
  refine ⟨state.record call result, ?_, ?_⟩
  · unfold write
    rw [named, bind_of_ok returned]
    simp [Download.record, named]
  have counting :=
    assembling.counting.record exact.pieces exact.pieceTotal_lt ready
      (same.stored setting.stored).addressable named inRange (lands_of_good good) step
  cases step with
  | refused reason =>
      have set : state.td.completedBit chunk = true := by
        by_contra clear
        apply reason
        refine ⟨Bool.eq_false_iff.mpr clear, ?_⟩
        rw [delivered]
        exact TorrentData.chunkData_length (setting.content_length.trans same.dataSize.symm) chunk
      exact assembling.record_unchanged counting (by rw [named, Int.toNat_natCast]; exact set)
  | held stores unfinished =>
      exact assembling.record_held setting named inRange delivered good stores unfinished rfl
  | rejected judged =>
      have last :=
        (aligned.completes_iff ready inRange judged.stores.field judged.stores.accepted.1).mp
          judged.completes
      have validated :=
        (assembling.validates setting reachable inRange judged.stores delivered last).2
      rw [judged.validated] at validated
      cases validated
  | abandoned judged ran stopped =>
      have abandoned := TorrentData.ChunkStep.abandoned judged ran stopped
      rcases abandoned.storage ready (same.stored setting.stored) inRange good with
        ⟨_, _, _, succeeded, _⟩ | ⟨_, _, _, never⟩
      · cases succeeded
      · exact absurd judged (never _ _)
  | finished judged ran notThrown whole =>
      exact assembling.record_finished setting reachable named inRange delivered good judged ran
        notThrown whole rfl

/-- Every position of the data is stored when every piece is. -/
theorem Assembling.storedByte_eq (assembling : Assembling td content state)
    (setting : Assemblable sha1 td disk content)
    (all : ∀ chunk < state.td.chunkTotal, state.td.completedBit chunk = true)
    {position : Nat} (inside : position < td.dataSize)
    : storedByte state.td.files state.disk position = content[position]? := by
  have fresh := setting.started.fresh
  have pieceInRange : position / td.pieceSize < td.pieceTotal :=
    TorrentData.div_pieceSize_lt fresh.pieceSize_pos inside
  obtain ⟨⟨length, stored⟩, _⟩ :=
    assembling.stored _ pieceInRange (fun chunk below _ => all chunk below)
  have offset := Nat.mod_add_div position td.pieceSize
  have small := Nat.mod_lt position fresh.pieceSize_pos
  have here : position % td.pieceSize < td.pieceLength (position / td.pieceSize) := by
    rw [TorrentData.pieceLength]
    omega
  have byte := stored (position % td.pieceSize) (by
    rw [length, assembling.same.pieceLength]
    exact here)
  rw [assembling.same.pieceSize, TorrentData.pieceData, slice_getElem?, if_pos here,
    Nat.add_comm, offset] at byte
  exact byte

/-- When every chunk is marked, the download is assembled. -/
theorem Assembling.assembled (assembling : Assembling td content state)
    (setting : Assemblable sha1 td disk content)
    (all : ∀ chunk < state.td.chunkTotal, state.td.completedBit chunk = true)
    : state.Assembled content := by
  have ready := assembling.ready
  have same := assembling.same
  have exact := same.exactCounts setting.exactCounts
  have stored := same.stored setting.stored
  have pieces : state.td.pieceTotal = td.pieceTotal := same.pieceTotal
  have positive := setting.pieceTotal_pos
  have written : state.writtenPieces.card = state.td.pieceTotal := by
    rw [writtenPieces, Finset.filter_true_of_mem, Finset.card_range]
    intro piece member
    rw [Finset.mem_range, pieces] at member
    exact (assembling.stored piece member (fun chunk below _ => all chunk below)).2.2
  have count : state.td.completedPieces = state.td.pieceCount := by
    rw [assembling.counting.counted, written, exact.pieces]
  have complete : state.td.isComplete = true := by
    have nonzero : state.td.pieceCount ≠ 0 := by
      rw [exact.pieces]
      omega
    rw [TorrentData.isComplete, if_neg nonzero]
    exact decide_eq_true count
  have bytes := TorrentData.markedBytes_of_all ready exact all
  refine
    {
      files := ?_
      bits := all
      completedPieces := count
      complete
      needed := assembling.cleared complete
      downloaded := by rw [assembling.downloaded, bytes]
      left := by rw [assembling.left, bytes, same.dataSize]; omega
      buffers := ?_
      successes := ?_
    }
  · have total := stored.total
    rw [same.dataSize] at total
    have concatenated := flatten_of_stored stored.laidOut assembling.within
      (by rw [total, setting.content_length]; omega)
      (fun position _ below => assembling.storedByte_eq setting all (by omega))
    rwa [List.drop_zero] at concatenated
  · obtain ⟨map, found, _⟩ := ready.data_map
    refine ⟨map, found, fun key => ?_⟩
    cases bound : map.find key with
    | none => rfl
    | some buffer =>
        obtain ⟨piece, inRange, rfl⟩ := assembling.keys map key buffer found bound
        have empty :=
          (assembling.stored piece inRange (fun chunk below _ => all chunk below)).2.1
        rw [TorrentData.heldPiece, found, Option.bind_some, bound] at empty
        cases empty
  · have inRange : state.announcedPieces ⊆ List.range state.td.pieceTotal := by
      intro piece member
      exact List.mem_range.mpr (assembling.counting.successes.announced ready member).1
    refine (assembling.counting.once.subperm inRange).perm_of_length_le ?_
    rw [List.length_range, assembling.counting.announced, written]

/-- No piece whose hash lies beyond the `int` range ever validates. -/
def NoneBeyond (state : Download) : Prop :=
  ∀ report ∈ state.reports,
    report.verdict = .success → ¬ (2 ^ 31 ≤ report.pieceId * 20 ∧ report.pieceId * 20 < 2 ^ 32)

/-- The position of such a hash is a negative `int`, which is beyond every table. -/
theorem validatePiece_beyond {table piece : Bytes} {info : PieceInfo}
    (found : td.sha1Hashes = some table) (tableFits : table.length < 2 ^ 63)
    (beyond : 2 ^ 31 ≤ info.pieceId * 20 ∧ info.pieceId * 20 < 2 ^ 32)
    : td.validatePiece sha1 info piece ≠ .ok .success := by
  have position := le_u64OfInt_wrap32 beyond.1 beyond.2
  have digest := (sha1 (piece.take (u32 info.pieceSize))).2
  intro succeeded
  unfold TorrentData.validatePiece at succeeded
  rw [found] at succeeded
  generalize u64OfInt (wrap32 (info.pieceId * 20)) = offset at position succeeded
  generalize (sha1 (piece.take (u32 info.pieceSize))).1 = bytes at digest succeeded
  have past : table.drop offset = [] :=
    List.drop_eq_nil_of_le (Nat.le_of_lt (Nat.lt_of_lt_of_le tableFits position))
  simp only [past] at succeeded
  split at succeeded
  · cases succeeded
  · cases bytes with
    | nil => cases digest
    | cons first rest => cases succeeded

/-- In every run with a table, no piece beyond the `int` range validates. -/
theorem noneBeyond_of_run {table : Bytes} (fresh : td.Fresh)
    (divides : 8 * td.chunkSize ∣ td.pieceSize) (found : td.sha1Hashes = some table)
    (inRange : Guarded (write sha1) InRange (start td disk) calls)
    (run : runSteps (write sha1) (start td disk) calls = .ok final)
    : final.NoneBeyond := by
  refine (run_induction NoneBeyond fresh (fun chunk below => fresh.pieceOf_fits divides below)
    (fun _ _ allowed => allowed) (fun report member => by cases member) ?_ inRange run).1
  intro state call chunk result ready same before _ _ _ step report member succeeded
  rw [reports_record, List.mem_append, Option.mem_toList] at member
  rcases member with new | old
  · have hashes := same.sha1Hashes.trans found
    have tableFits := fresh.hashes_lt table found
    cases step with
    | refused reason => cases new
    | held stores unfinished => cases new
    | rejected judged =>
        cases new
        cases succeeded
    | abandoned judged ran stopped =>
        cases new
        exact fun beyond => validatePiece_beyond hashes tableFits beyond judged.validated
    | finished judged ran notThrown whole =>
        cases new
        exact fun beyond => validatePiece_beyond hashes tableFits beyond judged.validated
  · exact before report old succeeded

theorem Delivers.inRange (delivers : Delivers td content call)
    : 0 ≤ call.chunkId ∧ call.chunkId < td.chunkCount := by
  obtain ⟨chunk, below, named, _⟩ := delivers
  rw [named]
  unfold TorrentData.chunkTotal at below
  omega

/-- An assembled download had every hash within reach. Witness: the first piece whose hash
position is `2 ^ 31` or more never validates, so it is never counted.
-/
theorem reachable_of_assembled (setting : Assemblable sha1 td disk content)
    (delivers : ∀ call ∈ calls, Delivers td content call)
    (run : runSteps (write sha1) (start td disk) calls = .ok final)
    (assembled : final.Assembled content)
    : td.HashesReachable := by
  have fresh := setting.started.fresh
  have guarded : Guarded (write sha1) InRange (start td disk) calls :=
    guarded_of_ids (fun call member => (delivers call member).inRange)
  have lands : ∀ call ∈ calls, ∀ index, (call.env.io index).Lands := by
    intro call member
    obtain ⟨_, _, _, _, good⟩ := delivers call member
    exact lands_of_good good
  cases found : td.sha1Hashes with
  | none => exact .inl found
  | some table =>
      refine .inr ?_
      by_contra far
      obtain ⟨counting, same⟩ :=
        counting_of_run fresh setting.divides setting.exactCounts.pieces setting.stored.addressable
          (guarded.and_of_mem lands) run
      have exactFinal := (same.exactCounts setting.exactCounts).pieces
      have written := counting.all_written_of_complete exactFinal assembled.complete 107374183 (by
        rw [same.pieceTotal]
        omega)
      obtain ⟨report, member, named, succeeded⟩ := written.reported
      refine noneBeyond_of_run fresh setting.divides found guarded run report member succeeded ?_
      rw [named]
      norm_num

/-- Chunks of a content, delivered in any order and with any repetitions until each has come
at least once, leave the content assembled exactly when there is no table or every hash
position fits its `int`. Witness: `Assembling` is kept by every delivery.
-/
theorem assembles_iff_hashes_reachable (setting : Assemblable sha1 td disk content)
    (delivers : ∀ call ∈ calls, Delivers td content call)
    (covers : ∀ chunk < td.chunkTotal, ∃ call ∈ calls, call.chunkId = (chunk : Nat))
    : (∃ final,
        runSteps (write sha1) (start td disk) calls = .ok final ∧ final.Assembled content)
      ↔ td.HashesReachable := by
  constructor
  · rintro ⟨final, run, assembled⟩
    exact reachable_of_assembled setting delivers run assembled
  · intro reachable
    obtain ⟨final, run, assembling⟩ :=
      runSteps_returns
        (fun state kept call member =>
          Assembling.deliver kept setting reachable (delivers call member))
        (Assembling.start setting)
    refine ⟨final, run, assembling.assembled setting ?_⟩
    intro chunk below
    rw [assembling.same.chunkTotal] at below
    obtain ⟨call, member, named⟩ := covers chunk below
    have logged : call.chunkId ∈ final.log.map (·.chunkId) := by
      rw [log_of_run run]
      simp only [List.mem_append, List.mem_reverse]
      exact .inl (List.mem_map_of_mem member)
    obtain ⟨entry, inLog, same⟩ := List.mem_map.mp logged
    have set := assembling.marked entry inLog
    rwa [same, named, Int.toNat_natCast] at set

/-- A torrent of one-byte chunks that an `int` can count. -/
theorem uniform_fits {pieces : Nat} (few : 8 * pieces < 2 ^ 31)
    : TorrentData.SingleFileFits (some (List.replicate (20 * pieces) 0)) (8 * pieces) 8 1 := by
  have chunkSize : (TorrentData.configureFile (some (List.replicate (20 * pieces) 0)) (8 * pieces) 8
      1).chunkSize = 1 :=
    rfl
  refine
    {
      hashes_lt := fun table found => ?_
      length_lt := by omega
      pieceSize_lt := by norm_num
      chunkSize_lt := by norm_num
      pieceSize_ne := by norm_num
      chunkSize_ne := by norm_num
      counted := TorrentData.initialisedWith_counted (by rw [chunkSize]; norm_num)
        (by rw [chunkSize]; omega)
    }
  rw [← Option.mem_some.mp found, List.length_replicate]
  omega

/-- A torrent of one-byte chunks whose content is one byte repeated, with the table of a
constant digest.
-/
theorem uniform_assemblable {pieces : Nat} (positive : 0 < pieces) (few : 8 * pieces < 2 ^ 31)
    : Assemblable zeroDigest
        (.ofSingleFile (some (List.replicate (20 * pieces) 0)) (8 * pieces) 8 1)
        (fun _ => none) (List.replicate (8 * pieces) 7) := by
  obtain ⟨pieceSize, chunkSize, dataSize, hashes, files⟩ := (uniform_fits few).fields
  refine
    {
      started := (uniform_fits few).justInitialised
      divides := by rw [pieceSize, chunkSize]
      pieceSize_lt := by rw [pieceSize]; norm_num
      chunks_lt := by rw [dataSize, chunkSize, Nat.add_sub_cancel, Nat.div_one]; exact few
      content_length := by rw [dataSize, List.length_replicate]
      nonempty := by rw [dataSize]; omega
      total := by rw [files, dataSize]; simp [totalSize]
      distinct := by rw [files]; simp
      absent := fun _ _ => rfl
      table := .inr ⟨_, hashes, ?_⟩
    }
  intro piece inRange
  rw [TorrentData.pieceTotal, dataSize, pieceSize] at inRange
  rw [TorrentData.hashEntry, slice, List.drop_replicate, List.take_replicate,
    Nat.min_eq_left (by omega)]
  rfl

theorem uniform_deliveries {pieces : Nat} (positive : 0 < pieces) (few : 8 * pieces < 2 ^ 31)
    : (∀ call ∈ deliver (8 * pieces) [7],
        Delivers (.ofSingleFile (some (List.replicate (20 * pieces) 0)) (8 * pieces) 8 1)
          (List.replicate (8 * pieces) 7) call)
      ∧ ∀ chunk
          < (TorrentData.ofSingleFile (some (List.replicate (20 * pieces) 0)) (8 * pieces) 8
            1).chunkTotal,
          ∃ call ∈ deliver (8 * pieces) [7], call.chunkId = (chunk : Nat) := by
  obtain ⟨_, chunkSize, dataSize, _⟩ := (uniform_fits few).fields
  have total := (uniform_assemblable positive few).exactCounts.chunks
  rw [dataSize, chunkSize, Nat.add_sub_cancel, Nat.div_one] at total
  rw [total]
  constructor
  · intro call member
    obtain ⟨index, below, rfl⟩ := List.mem_map.mp member
    rw [List.mem_range] at below
    refine ⟨index, by rw [total]; exact below, rfl, ?_, fun _ => rfl⟩
    rw [TorrentData.chunkData, TorrentData.chunkLength, chunkSize, dataSize, slice,
      List.drop_replicate, List.take_replicate, Nat.min_eq_left (by omega),
      Nat.min_eq_left (by omega)]
    rfl
  · intro chunk below
    exact ⟨_, List.mem_map_of_mem (List.mem_range.mpr below), rfl⟩

/-- Two pieces of eight one-byte chunks are assembled. -/
theorem assembles_two_pieces
    : ∃ final,
        runSteps (write zeroDigest)
            (start (.ofSingleFile (some (List.replicate 40 0)) 16 8 1) (fun _ => none))
            (deliver 16 [7])
          = .ok final
        ∧ final.Assembled (List.replicate 16 7) :=
  (assembles_iff_hashes_reachable (uniform_assemblable (show 0 < 2 by norm_num) (by norm_num))
    (uniform_deliveries (by norm_num) (by norm_num)).1
    (uniform_deliveries (by norm_num) (by norm_num)).2).mpr (.inr (by decide +kernel))

/-- With 107374184 pieces and a table, the position of the last hash is `2 ^ 31` or more, and
its piece is never validated.
-/
theorem not_assembled_beyond_int
    : ¬ ∀ (sha1 : Bytes → Digest) (td : TorrentData) (disk : Disk) (content : Bytes)
          (calls : List WriteCall),
        Assemblable sha1 td disk content
        → (∀ call ∈ calls, Delivers td content call)
        → (∀ chunk < td.chunkTotal, ∃ call ∈ calls, call.chunkId = (chunk : Nat))
        → ∃ final,
            runSteps (write sha1) (start td disk) calls = .ok final ∧ final.Assembled content := by
  intro claim
  have positive : 0 < 107374184 := by norm_num
  have few : 8 * 107374184 < 2 ^ 31 := by norm_num
  have setting := uniform_assemblable positive few
  obtain ⟨delivers, covers⟩ := uniform_deliveries positive few
  obtain ⟨final, run, assembled⟩ := claim _ _ _ _ _ setting delivers covers
  obtain ⟨pieceSize, _, dataSize, hashes, _⟩ := (uniform_fits few).fields
  rcases reachable_of_assembled setting delivers run assembled with absent | fits
  · rw [hashes] at absent
    cases absent
  · rw [TorrentData.pieceTotal, dataSize, pieceSize] at fits
    norm_num at fits

end Download

end UvgTorrent

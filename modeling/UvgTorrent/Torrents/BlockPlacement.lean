import UvgTorrent.Torrents.RequestAgreement
import UvgTorrent.TorrentData.ChunkEffects

/-! What a PIECE message with any index, begin and block can make `torrent_process_data_chunk`
do: when it stays inside memory, and when the block lands where the message says.
-/

namespace UvgTorrent

open Foundations

-----------------------------------------------------------------------------------------
-- Faults behind the copy
-----------------------------------------------------------------------------------------

theorem openForWriting_fault {outcome : FileOutcome} {file : TorrentDataFileInfo} {disk : Disk}
    {fault : Fault} (faulted : openForWriting outcome file disk = .error fault)
    : fault = .streamNull := by
  unfold openForWriting at faulted
  split at faulted
  · cases faulted
  · dsimp only at faulted
    split at faulted
    · cases faulted
    · split at faulted
      · cases faulted
      · exact (Except.error.inj faulted).symm

theorem writeFile_fault {outcome : FileOutcome} {piece : Bytes}
    {pieceBegin pieceSize dataWritten : Nat} {file : TorrentDataFileInfo} {disk : Disk}
    {fault : Fault}
    (faulted
      : writeFile outcome piece pieceBegin pieceSize dataWritten file disk = .error fault)
    : fault = .streamNull ∨ fault = .fileWriteBounds := by
  unfold writeFile at faulted
  dsimp only at faulted
  rcases bind_eq_error.mp faulted with opening | ⟨⟨stream, disk⟩, _, faulted⟩
  · exact .inl (openForWriting_fault opening)
  · dsimp only at faulted
    split at faulted
    · cases faulted
    · split at faulted
      · exact .inr (Except.error.inj faulted).symm
      · split at faulted <;> cases faulted

/-- The file loop can only fail to create a file or read past the piece buffer. -/
theorem writePiece_fault {io : Nat → FileOutcome} {piece : Bytes} {pieceBegin pieceSize : Nat}
    {files : List TorrentDataFileInfo} {index dataWritten : Nat} {disk : Disk} {fault : Fault}
    (faulted
      : writePiece io piece pieceBegin pieceSize index files dataWritten disk = .error fault)
    : fault = .streamNull ∨ fault = .fileWriteBounds := by
  induction files generalizing index dataWritten disk with
  | nil => cases faulted
  | cons file rest ih =>
      unfold writePiece at faulted
      split at faulted
      · cases faulted
      · split at faulted
        · rcases bind_eq_error.mp faulted with here | ⟨here, _, faulted⟩
          · exact writeFile_fault here
          · split at faulted
            · cases faulted
            · rcases bind_eq_error.mp faulted with later | ⟨later, _, faulted⟩
              · exact ih later
              · cases faulted
        · rcases bind_eq_error.mp faulted with later | ⟨later, _, faulted⟩
          · exact ih later
          · cases faulted

/-- A computation that does not end in a division by zero, a read of `completed` outside its
bytes, or a copy outside a piece buffer.
-/
def StaysInside {α : Type} (outcome : Except Fault α) : Prop :=
  ∀ fault,
    outcome = .error fault
    → fault ≠ .divisionByZero ∧ fault ≠ .bitfieldBounds ∧ fault ≠ .pieceBounds

theorem StaysInside.of_ok {α : Type} {outcome : Except Fault α} {value : α}
    (returned : outcome = .ok value)
    : StaysInside outcome := by
  intro fault faulted
  rw [returned] at faulted
  cases faulted

/-- Only the first part of a computation can leave the bounds. -/
theorem StaysInside.bind {α β : Type} {outcome : Except Fault α} {rest : α → Except Fault β}
    (later : ∀ value, outcome = .ok value → StaysInside (rest value))
    : StaysInside (outcome.bind rest) ↔ StaysInside outcome := by
  cases outcome with
  | error fault => simp [StaysInside, Except.bind]
  | ok value => exact iff_of_true (later value rfl) (.of_ok rfl)

theorem StaysInside.error_iff {α : Type} {fault : Fault}
    : StaysInside (.error fault : Except Fault α)
      ↔ fault ≠ .divisionByZero ∧ fault ≠ .bitfieldBounds ∧ fault ≠ .pieceBounds := by
  simp [StaysInside]

namespace TorrentData

variable {sha1 : Bytes → Digest} {td : TorrentData} {disk : Disk} {env : WriteEnv}

theorem validatePiece_fault {info : PieceInfo} {piece : Bytes} {fault : Fault}
    (faulted : td.validatePiece sha1 info piece = .error fault)
    : fault = .sha1Bounds := by
  unfold validatePiece at faulted
  split at faulted
  · cases faulted
  · dsimp only at faulted
    split at faulted
    · cases faulted
    · split at faulted
      · exact (Except.error.inj faulted).symm
      · cases faulted
      · cases faulted

/-- Finishing a piece copies nothing into its buffer. -/
theorem finishPiece_staysInside {map : HashMap Bytes} {pieceKey : CString}
    {pieceInfo : PieceInfo} {piece : Bytes} {chunkSize : Nat} {io : Nat → FileOutcome}
    : StaysInside (finishPiece sha1 td disk map pieceKey pieceInfo piece chunkSize io) := by
  intro fault faulted
  unfold finishPiece at faulted
  rcases bind_eq_error.mp faulted with validating | ⟨verdict, _, faulted⟩
  · rw [validatePiece_fault validating]
    decide
  · cases verdict with
    | failure => cases faulted
    | success =>
        rcases bind_eq_error.mp faulted with writing | ⟨loop, _, faulted⟩
        · rcases writePiece_fault writing with rfl | rfl <;> decide
        · dsimp only at faulted
          split at faulted <;> cases faulted

theorem isPieceComplete_returns (divisor : td.chunkSize ≠ 0) {completed : Bitfield}
    (field : td.completed = some completed) (pieceId : Int) (stack : Stack)
    : ∃ complete, td.isPieceComplete pieceId stack = .ok complete := by
  simp only [isPieceComplete, divisor, if_false, field]
  split <;> exact ⟨_, rfl⟩

-----------------------------------------------------------------------------------------
-- When a message keeps inside memory
-----------------------------------------------------------------------------------------

/-- Every held piece buffer was allocated with `piece_size` bytes. -/
def BuffersSized (td : TorrentData) : Prop :=
  ∀ map key buffer,
    td.data = some map → map.find key = some buffer → buffer.length = td.pieceSize

/-- The `struct ChunkInfo` that `torrent_data_write_chunk` fills for a chunk id. -/
def chunkInfoOf (td : TorrentData) (chunkId : Int) (stack : Stack) : ChunkInfo :=
  match td.getChunkInfo chunkId stack.chunkInfo with
  | .ok (_, info) => info
  | .error _ => stack.chunkInfo

/-- `relative_chunk_offset`: where a chunk is copied in its piece, as an `int`. -/
def copyOffset (td : TorrentData) (chunkId : Int) (stack : Stack) : Int :=
  let chunkInfo := td.chunkInfoOf chunkId stack
  let pieceInfo := (td.getPieceInfo chunkInfo.pieceId stack.pieceInfo).2
  wrap32 (u64Sub chunkInfo.chunkOffset pieceInfo.pieceOffset : Nat)

/-- A block is copied: its chunk is not complete, it has the expected length, and the buffer of
its piece can be taken.
-/
def ReachesCopy (td : TorrentData) (completed : Bitfield) (chunkId : Int) (block : Bytes)
    (stack : Stack)
    : Prop :=
  completed.bit chunkId.toNat = false
  ∧ block.length = (td.chunkInfoOf chunkId stack).chunkSize
  ∧ ∃ taken, td.takePiece (td.chunkInfoOf chunkId stack).pieceId = .ok taken

/-- The chunk id has a byte in `completed`, the piece of a chunk can be computed, and a block that
is copied fits its piece buffer.
-/
def BlockInside (td : TorrentData) (chunkId : Int) (block : Bytes) (stack : Stack) : Prop :=
  ∀ completed,
    td.completed = some completed
    → (0 ≤ chunkId ∧ chunkId.toNat / 8 < completed.bytesCount)
      ∧ (completed.bit chunkId.toNat = false → td.dataSize ≠ 0 → td.pieceSize ≠ 0)
      ∧ (td.ReachesCopy completed chunkId block stack
        → 0 ≤ td.copyOffset chunkId stack
          ∧ td.copyOffset chunkId stack + block.length ≤ td.pieceSize)

/-- An initialized struct holds buffers of the piece size. -/
theorem Initialised.buffersSized (ready : td.Initialised) : td.BuffersSized := by
  obtain ⟨map, pieces, sized⟩ := ready.data_map
  intro other key buffer same found
  rw [pieces] at same
  cases same
  exact (sized key buffer found).1

theorem takePiece_length (sized : td.BuffersSized) {pieceId : Int} {piece : Bytes}
    {map : HashMap Bytes} (taken : td.takePiece pieceId = .ok (piece, map))
    : piece.length = td.pieceSize := by
  unfold takePiece at taken
  dsimp only at taken
  split at taken
  · cases taken
  · split at taken
    · cases taken
    · rename_i map' pieces
      split at taken
      · rename_i buffer rest found
        cases taken
        refine sized map' (formatInt pieceId) piece pieces ?_
        rw [← HashMap.get_fst, found]
      · split at taken
        · cases taken
          exact List.length_replicate
        · cases taken

theorem takePiece_staysInside (td : TorrentData) (pieceId : Int)
    : StaysInside (td.takePiece pieceId) := by
  intro fault faulted
  unfold takePiece at faulted
  dsimp only at faulted
  split at faulted
  · cases faulted
    decide
  · split at faulted
    · cases faulted
      decide
    · split at faulted
      · cases faulted
      · split at faulted
        · cases faulted
        · cases faulted
          decide

/-- The copy is inside exactly when its range is. -/
theorem copyChunk_staysInside_iff (piece data : Bytes) (chunkOffset pieceOffset : Nat)
    : StaysInside (copyChunk piece data chunkOffset pieceOffset)
      ↔ 0 ≤ wrap32 (u64Sub chunkOffset pieceOffset : Nat)
        ∧ wrap32 (u64Sub chunkOffset pieceOffset : Nat) + data.length ≤ piece.length := by
  unfold copyChunk
  dsimp only
  split
  · rename_i outside
    rw [StaysInside.error_iff]
    simp only [ne_eq, reduceCtorEq, not_false_eq_true, not_true_eq_false, and_false, false_iff]
    omega
  · rename_i inside
    exact iff_of_true (.of_ok rfl) (by omega)

theorem getChunkInfo_staysInside_iff (divisor : td.chunkSize ≠ 0) (chunkId : Int)
    (info : ChunkInfo)
    : StaysInside (td.getChunkInfo chunkId info) ↔ (td.dataSize ≠ 0 → td.pieceSize ≠ 0) := by
  unfold getChunkInfo
  by_cases noData : td.dataSize = 0
  · rw [if_pos (.inr noData)]
    exact iff_of_true (.of_ok rfl) (fun data => absurd noData data)
  · rw [if_neg (by omega)]
    by_cases noPiece : td.pieceSize = 0
    · simp [noPiece, noData, StaysInside.error_iff]
    · rw [if_neg noPiece]
      exact iff_of_true (.of_ok rfl) (fun _ => noPiece)

theorem getChunkInfo_fault {chunkId : Int} {info : ChunkInfo} {fault : Fault}
    (faulted : td.getChunkInfo chunkId info = .error fault)
    : fault = .divisionByZero := by
  unfold getChunkInfo at faulted
  split at faulted
  · cases faulted
  · split at faulted
    · exact (Except.error.inj faulted).symm
    · cases faulted

/-- Behind the chunk info, only the copy can leave the bounds. -/
theorem writeBlock_staysInside_iff (divisor : td.chunkSize ≠ 0) (sized : td.BuffersSized)
    {completed : Bitfield} (field : td.completed = some completed) {chunkInfo : ChunkInfo}
    {block : Bytes}
    : StaysInside
        (let pieceInfo := (td.getPieceInfo chunkInfo.pieceId env.stack.pieceInfo).2
         if block.length ≠ chunkInfo.chunkSize then
          .ok { td, disk, exit := .failure, report := none }
         else
          (td.takePiece chunkInfo.pieceId).bind fun (piece, map) =>
            (copyChunk piece block chunkInfo.chunkOffset pieceInfo.pieceOffset).bind fun piece =>
              (td.isPieceComplete pieceInfo.pieceId env.stack).bind fun before =>
                let marked :=
                  {
                    td with
                    completed := some (completed.setBit chunkInfo.chunkId 1)
                    data := some map
                  }
                (marked.isPieceComplete pieceInfo.pieceId env.stack).bind fun after =>
                  if after ∧ ¬ before then
                    finishPiece sha1 marked disk map (formatInt chunkInfo.pieceId) pieceInfo piece
                      chunkInfo.chunkSize env.io
                  else
                    .ok
                      {
                        td := (marked.holdPiece map (formatInt chunkInfo.pieceId)
                          piece).countDownloaded chunkInfo.chunkSize
                        disk
                        exit := .failure
                        report := none
                      })
      ↔ (block.length = chunkInfo.chunkSize
        → (∃ taken, td.takePiece chunkInfo.pieceId = .ok taken)
        → let pieceInfo := (td.getPieceInfo chunkInfo.pieceId env.stack.pieceInfo).2
          let offset := wrap32 (u64Sub chunkInfo.chunkOffset pieceInfo.pieceOffset : Nat)
          0 ≤ offset ∧ offset + block.length ≤ td.pieceSize) := by
  dsimp only
  by_cases length : block.length = chunkInfo.chunkSize
  · rw [if_neg (not_not.mpr length)]
    by_cases reach : ∃ taken, td.takePiece chunkInfo.pieceId = .ok taken
    · obtain ⟨⟨piece, map⟩, taken⟩ := id reach
      rw [bind_of_ok taken]
      dsimp only
      rw [StaysInside.bind, copyChunk_staysInside_iff, takePiece_length sized taken]
      · exact ⟨fun inside _ _ => inside, fun inside => inside length reach⟩
      · intro copied _
        obtain ⟨before, answered⟩ := isPieceComplete_returns divisor field
          (td.getPieceInfo chunkInfo.pieceId env.stack.pieceInfo).2.pieceId env.stack
        rw [bind_of_ok answered]
        let marked :=
          { td with completed := some (completed.setBit chunkInfo.chunkId 1), data := some map }
        obtain ⟨after, answeredAfter⟩ :=
          isPieceComplete_returns (show marked.chunkSize ≠ 0 from divisor)
            (show marked.completed = some _ from rfl)
            (td.getPieceInfo chunkInfo.pieceId env.stack.pieceInfo).2.pieceId env.stack
        rw [bind_of_ok answeredAfter]
        split
        · exact finishPiece_staysInside
        · exact .of_ok rfl
    · refine iff_of_true ?_ (fun _ taken => absurd taken reach)
      have inside := takePiece_staysInside td chunkInfo.pieceId
      cases taken : td.takePiece chunkInfo.pieceId with
      | ok pair => exact absurd ⟨pair, taken⟩ reach
      | error fault =>
          rw [taken] at inside
          exact fun other same => inside other (by simpa [Except.bind] using same)
  · rw [if_pos length]
    exact iff_of_true (.of_ok rfl) (fun same => absurd same length)

/-- `torrent_data_write_chunk` stays inside memory exactly for a chunk id and a block that do. -/
theorem writeChunk_staysInside_iff (divisor : td.chunkSize ≠ 0) (sized : td.BuffersSized)
    (chunkId : Int) (block : Bytes)
    : StaysInside (td.writeChunk sha1 disk chunkId block env)
      ↔ td.BlockInside chunkId block env.stack := by
  unfold writeChunk
  cases field : td.completed with
  | none =>
      refine iff_of_true ?_ (fun completed same => by rw [field] at same; cases same)
      exact StaysInside.error_iff.mpr (by decide)
  | some completed =>
      have only : td.BlockInside chunkId block env.stack
          ↔ (0 ≤ chunkId ∧ chunkId.toNat / 8 < completed.bytesCount)
            ∧ (completed.bit chunkId.toNat = false → td.dataSize ≠ 0 → td.pieceSize ≠ 0)
            ∧ (td.ReachesCopy completed chunkId block env.stack
              → 0 ≤ td.copyOffset chunkId env.stack
                ∧ td.copyOffset chunkId env.stack + block.length ≤ td.pieceSize) := by
        simp [BlockInside, field]
      rw [only]
      dsimp only
      by_cases inBytes : 0 ≤ chunkId ∧ chunkId.toNat / 8 < completed.bytesCount
      · have bitRead : completed.getBit chunkId = .ok (completed.bit chunkId.toNat) := by
          rw [Bitfield.getBit, if_pos inBytes]
        rw [bind_of_ok bitRead]
        cases done : completed.bit chunkId.toNat with
        | true =>
            refine iff_of_true (.of_ok rfl)
              ⟨inBytes, fun early => absurd early.symm Bool.false_ne_true, fun reaches => ?_⟩
            rw [reaches.1] at done
            cases done
        | false =>
            simp only [Bool.false_eq_true, if_false]
            cases known : td.getChunkInfo chunkId env.stack.chunkInfo with
            | error fault =>
                have outside := (getChunkInfo_staysInside_iff divisor chunkId
                  env.stack.chunkInfo).not
                rw [known] at outside
                have divides := getChunkInfo_fault known
                rw [divides] at outside ⊢
                refine iff_of_false (fun inside => ?_) (fun inside => ?_)
                · exact (inside .divisionByZero rfl).1 rfl
                · exact outside.mp (fun stays => (stays .divisionByZero rfl).1 rfl)
                    (inside.2.1 trivial)
            | ok answer =>
                obtain ⟨exit, info⟩ := answer
                have sameInfo : td.chunkInfoOf chunkId env.stack = info := by
                  rw [chunkInfoOf, known]
                have computed : td.dataSize ≠ 0 → td.pieceSize ≠ 0 :=
                  (getChunkInfo_staysInside_iff divisor chunkId env.stack.chunkInfo).mp
                    (.of_ok known)
                rw [and_iff_right inBytes, and_iff_right (fun _ => computed)]
                simp only [ReachesCopy, done, true_and, copyOffset, sameInfo]
                refine Iff.trans (writeBlock_staysInside_iff divisor sized field) ?_
                exact ⟨fun inside reaches => inside reaches.1 reaches.2,
                  fun inside length taken => inside ⟨length, taken⟩⟩
      · have bitRead : completed.getBit chunkId = .error .bitfieldBounds := by
          rw [Bitfield.getBit, if_neg inBytes]
        rw [bind_of_error bitRead]
        simp [StaysInside.error_iff, inBytes]

end TorrentData

namespace Torrent

variable {sha1 : Bytes → Digest} {disk : Disk} {env : WriteEnv}

theorem queueHave_fault {pieceId : Int} {ips : List CString} {peers : HashMap Peer}
    {fault : Fault} (faulted : queueHave pieceId ips peers = .error fault)
    : fault = .nullPointer := by
  induction ips generalizing peers with
  | nil => cases faulted
  | cons ip rest ih =>
      unfold queueHave at faulted
      split at faulted
      · exact (Except.error.inj faulted).symm
      · exact ih faulted

/-- A PIECE message with an index and a begin makes `torrent_process_data_chunk` neither divide by
zero, nor read `completed` outside its bytes, nor copy outside a piece buffer, if and only if the
chunk size is set and the chunk id and block of the message stay inside.
-/
theorem processDataChunk_staysInside_iff (t : Torrent) (sized : t.torrentData.BuffersSized)
    {message : Message} (payload : 13 ≤ message.bytes.length)
    : StaysInside (t.processDataChunk sha1 disk message env)
      ↔ ∃ chunkId,
          t.torrentData.chunkIdOf message.index message.begin env.stack = .ok chunkId
          ∧ t.torrentData.BlockInside chunkId message.block env.stack := by
  unfold processDataChunk
  rw [StaysInside.bind]
  · unfold TorrentData.processPiece
    rw [if_neg (Nat.not_lt.mpr payload)]
    by_cases unset : t.torrentData.chunkSize = 0
    · have faulted : t.torrentData.chunkIdOf message.index message.begin env.stack
          = .error .divisionByZero := by
        rw [TorrentData.chunkIdOf, if_pos unset]
      rw [bind_of_error faulted, faulted]
      simp [StaysInside.error_iff]
    · obtain ⟨chunkId, known⟩ : ∃ chunkId,
          t.torrentData.chunkIdOf message.index message.begin env.stack = .ok chunkId := by
        rw [TorrentData.chunkIdOf, if_neg unset]
        exact ⟨_, rfl⟩
      rw [bind_of_ok known, TorrentData.writeChunk_staysInside_iff unset sized, known]
      simp
  · intro result _
    cases result.exit with
    | failure => exact .of_ok rfl
    | success =>
        intro fault faulted
        rcases bind_eq_error.mp faulted with queueing | ⟨peers, _, faulted⟩
        · rw [queueHave_fault queueing]
          decide
        · cases faulted

/-- A torrent without peers. -/
def ofData (torrentData : TorrentData) : Torrent :=
  { torrentMetadata := .new [46], torrentData, peers := .new 1, peerIps := [] }

/-- A PIECE message of one byte for the last chunk of the 8-byte torrent. -/
def lastByteMessage : Message := ⟨[0, 0, 0, 10, 7, 0, 0, 0, 0, 0, 0, 0, 7, 5], by decide⟩

def sampleDigest : Bytes → Digest := fun _ => Digest.filled 0

def sampleEnv : WriteEnv := { io := fun _ => .good, stack := zeroStack }

/-- Witness: a message for a chunk of an initialized torrent. -/
theorem processDataChunk_staysInside_last
    : StaysInside ((ofData byteTorrent).processDataChunk sampleDigest (fun _ => none)
        lastByteMessage sampleEnv) := by
  have covered
      : ∀ completed ∈ byteTorrent.completed,
          (0 ≤ (7 : Int) ∧ 7 / 8 < completed.bytesCount)
            ∧ 0 ≤ byteTorrent.copyOffset 7 zeroStack
            ∧ byteTorrent.copyOffset 7 zeroStack + lastByteMessage.block.length
              ≤ byteTorrent.pieceSize := by
    decide +kernel
  have sized : byteTorrent.pieceSize ≠ 0 := by decide +kernel
  have inside : byteTorrent.BlockInside 7 lastByteMessage.block zeroStack := by
    intro completed field
    obtain ⟨present, fits⟩ := covered completed field
    exact ⟨present, fun _ _ => sized, fun _ => fits⟩
  exact (processDataChunk_staysInside_iff (ofData byteTorrent)
    byteTorrent_initialised.buffersSized (by decide)).mpr ⟨7, by decide +kernel, inside⟩

/-- Before the metadata is known, a PIECE message divides by zero. -/
theorem piece_before_metadata_divides_by_zero
    : 13 ≤ lastByteMessage.bytes.length
      ∧ (ofData (.new [46])).processDataChunk sampleDigest (fun _ => none) lastByteMessage
          sampleEnv
        = .error .divisionByZero
      ∧ ¬ StaysInside ((ofData (.new [46])).processDataChunk sampleDigest (fun _ => none)
          lastByteMessage sampleEnv) := by
  have faulted : (ofData (.new [46])).processDataChunk sampleDigest (fun _ => none)
      lastByteMessage sampleEnv = .error .divisionByZero := rfl
  exact ⟨by decide, faulted, fun inside => (inside _ faulted).1 rfl⟩

end Torrent

-----------------------------------------------------------------------------------------
-- Where a block lands
-----------------------------------------------------------------------------------------

namespace TorrentData

variable {sha1 : Bytes → Digest} {td : TorrentData} {disk : Disk} {env : WriteEnv}
  {message : Message} {result : WriteResult}

/-- The block is refused: the chunk id of the message is complete or has another length. -/
def Refuses (td : TorrentData) (message : Message) (stack : Stack) : Prop :=
  ∀ chunk : Nat,
    td.chunkIdOf message.index message.begin stack = .ok chunk → ¬ td.Accepts chunk message.block

/-- The position that the message names, inside its piece, is the start of a chunk. -/
def NamesChunk (td : TorrentData) (message : Message) : Prop :=
  message.begin < td.pieceSize
  ∧ ∃ chunk < td.chunkTotal, td.pieceSize * message.index + message.begin = td.chunkSize * chunk

/-- The block is at `begin` of the buffer of piece `index`, which is held or was written out, and
the chunk that covers exactly that range is the one that is newly marked.
-/
def StoredExactly (td : TorrentData) (message : Message) (after : TorrentData)
    (report : Option PieceReport)
    : Prop :=
  ∃ chunk < td.chunkTotal,
    td.chunkSize * chunk = td.pieceSize * message.index + message.begin
    ∧ message.block.length = td.chunkLength chunk
    ∧ (∀ other,
        after.completedBit other = true ↔ td.completedBit other = true ∨ other = chunk)
    ∧ ∃ buffer,
        (after.heldPiece message.index = some buffer
          ∨ ∃ finished ∈ report, finished.pieceId = message.index ∧ finished.piece = buffer)
        ∧ slice buffer message.begin message.block.length = message.block

/-- A returning call has found a chunk in range or refuses the block. -/
theorem processPiece_step (ready : td.Initialised)
    (processed : td.processPiece sha1 disk message env = .ok result)
    : (∃ chunk < td.chunkTotal,
        td.chunkIdOf message.index message.begin env.stack = .ok (chunk : Nat)
        ∧ ChunkStep sha1 td disk chunk message.block env.io result)
      ∨ td.Refuses message env.stack
        ∧ result = { td, disk, exit := .failure, report := none } := by
  unfold processPiece at processed
  split at processed
  · cases processed
  · obtain ⟨chunkId, known, wrote⟩ := bind_eq_ok.mp processed
    obtain ⟨completed, field, counted, spare⟩ := ready.completed_field
    have opened := wrote
    simp only [writeChunk, field] at opened
    obtain ⟨done, bitRead, _⟩ := bind_eq_ok.mp opened
    unfold Bitfield.getBit at bitRead
    split at bitRead
    · rename_i inBytes
      obtain ⟨chunk, rfl⟩ := Int.eq_ofNat_of_zero_le inBytes.1
      rcases Nat.lt_or_ge chunk td.chunkTotal with inRange | past
      · exact .inl ⟨chunk, inRange, known, writeChunk_step ready inRange wrote⟩
      · have set : completed.bit chunk = true :=
          spare chunk (by omega) (by simpa using inBytes.2)
        refine .inr ⟨?_, ?_⟩
        · intro other same accepted
          rw [known] at same
          obtain rfl : chunk = other := by simpa using same
          have missing := accepted.1
          rw [completedBit_eq field, set] at missing
          cases missing
        · have read : completed.getBit (chunk : Nat) = .ok true := by
            rw [Bitfield.getBit_of_inside (by simpa using inBytes.2), set]
          simp only [writeChunk, field] at wrote
          rw [bind_of_ok read] at wrote
          exact (Except.ok.inj wrote).symm
    · cases bitRead

/-- The buffer of a piece that an accepted chunk ends up in. -/
theorem ChunkStep.assembled {chunk : Nat} {data : Bytes} {io : Nat → FileOutcome}
    (step : ChunkStep sha1 td disk chunk data io result) (accepted : td.Accepts chunk data)
    : (result.td.heldPiece (td.pieceOf chunk) = some (td.assembledPiece chunk data)
        ∨ ∃ report ∈ result.report,
            report.pieceId = td.pieceOf chunk ∧ report.piece = td.assembledPiece chunk data)
      ∧ 0 ≤ wrap32 (td.offsetInPiece chunk)
      ∧ (wrap32 (td.offsetInPiece chunk)).toNat + data.length ≤ td.pieceSize := by
  cases step with
  | refused reason => exact absurd accepted reason
  | held stores unfinished =>
      refine ⟨.inl ?_, stores.offsetFits, stores.copyFits⟩
      rw [heldPiece_holdChunk stores.pieces, if_pos rfl]
  | rejected judged =>
      exact ⟨.inr ⟨_, rfl, rfl, rfl⟩, judged.stores.offsetFits, judged.stores.copyFits⟩
  | abandoned judged ran stopped =>
      exact ⟨.inr ⟨_, rfl, rfl, rfl⟩, judged.stores.offsetFits, judged.stores.copyFits⟩
  | finished judged ran notThrown whole =>
      exact ⟨.inr ⟨_, rfl, rfl, rfl⟩, judged.stores.offsetFits, judged.stores.copyFits⟩

/-- Every reported piece buffer has the piece size, and names the chunk's piece. -/
theorem ChunkStep.report_spec {chunk : Nat} {data : Bytes} {io : Nat → FileOutcome}
    (step : ChunkStep sha1 td disk chunk data io result) (ready : td.Initialised)
    {report : PieceReport} (reported : report ∈ result.report)
    : report.piece.length = td.pieceSize ∧ report.pieceId = td.pieceOf chunk := by
  cases step with
  | refused reason => cases reported
  | held stores unfinished => cases reported
  | rejected judged =>
      cases reported
      exact ⟨judged.stores.assembled_length ready, rfl⟩
  | abandoned judged ran stopped =>
      cases reported
      exact ⟨judged.stores.assembled_length ready, rfl⟩
  | finished judged ran notThrown whole =>
      cases reported
      exact ⟨judged.stores.assembled_length ready, rfl⟩

theorem ChunkStep.report_of_success {chunk : Nat} {data : Bytes} {io : Nat → FileOutcome}
    (step : ChunkStep sha1 td disk chunk data io result) (success : result.exit = .success)
    : ∃ report, report ∈ result.report := by
  cases step with
  | refused reason => cases success
  | held stores unfinished => cases success
  | rejected judged => cases success
  | abandoned judged ran stopped => cases success
  | finished judged ran notThrown whole => exact ⟨_, rfl⟩

/-- A chunk in range is not empty. -/
theorem Initialised.chunkLength_pos (ready : td.Initialised) {chunk : Nat}
    (inRange : chunk < td.chunkTotal)
    : 0 < td.chunkLength chunk := by
  have start := ready.chunkStart_lt chunk inRange
  have positive := ready.chunkSize_pos
  rw [chunkLength]
  omega

/-- A position inside piece `index` where a chunk starts lies in that chunk's piece. -/
theorem NamesChunk.piece_eq (ready : td.Initialised) {index begin chunk : Nat}
    (inside : begin < td.pieceSize)
    (position : td.pieceSize * index + begin = td.chunkSize * chunk)
    : td.pieceOf chunk = index ∧ td.offsetInPiece chunk = begin := by
  have piece : td.pieceOf chunk = index := by
    rw [pieceOf, ← position, Nat.mul_add_div ready.pieceSize_pos, Nat.div_eq_of_lt inside,
      Nat.add_zero]
  refine ⟨piece, ?_⟩
  rw [offsetInPiece, piece]
  omega

/-- An accepted block whose message names a chunk is stored there. -/
theorem ChunkStep.storedExactly {chunk : Nat} {io : Nat → FileOutcome}
    (step : ChunkStep sha1 td disk chunk message.block io result) (ready : td.Initialised)
    (inRange : chunk < td.chunkTotal) (accepted : td.Accepts chunk message.block)
    (inside : message.begin < td.pieceSize) (beginFits : message.begin < 2 ^ 32)
    (position : td.pieceSize * message.index + message.begin = td.chunkSize * chunk)
    : td.StoredExactly message result.td result.report := by
  obtain ⟨piece, offset⟩ := NamesChunk.piece_eq ready inside position
  obtain ⟨kept, offsetFits, copyFits⟩ := step.assembled accepted
  have bits := step.completedBit_iff ready inRange
  rw [offset] at offsetFits copyFits
  have small : message.begin < 2 ^ 31 := by
    unfold wrap32 at offsetFits
    omega
  have exact : (wrap32 message.begin).toNat = message.begin := by
    rw [wrap32_natCast small, Int.toNat_natCast]
  rw [exact] at copyFits
  refine ⟨chunk, inRange, position.symm, accepted.2, ?_, td.assembledPiece chunk message.block,
    by rwa [piece] at kept, ?_⟩
  · intro other
    rw [bits other]
    simp [accepted]
  · rw [assembledPiece, offset, exact]
    exact slice_overwrite (by rw [pieceBuffer_length ready]; exact copyFits)

/-- A block that is stored exactly was named by its message. -/
theorem StoredExactly.namesChunk (stored : td.StoredExactly message result.td result.report)
    (ready : td.Initialised) (after : result.td.Initialised)
    (samePieceSize : result.td.pieceSize = td.pieceSize)
    (reports : ∀ report ∈ result.report, report.piece.length = td.pieceSize)
    : td.NamesChunk message := by
  obtain ⟨chunk, inRange, position, sized, _, buffer, kept, block⟩ := stored
  refine ⟨?_, chunk, inRange, position.symm⟩
  have bufferLength : buffer.length = td.pieceSize := by
    rcases kept with held | ⟨report, reported, _, rfl⟩
    · rw [heldPiece, Option.bind_eq_some_iff] at held
      obtain ⟨map, pieces, found⟩ := held
      rw [← samePieceSize]
      exact after.buffersSized map _ buffer pieces found
    · exact reports report reported
  have positive := ready.chunkLength_pos inRange
  have lengths := congrArg List.length block
  rw [slice_length, bufferLength] at lengths
  omega

end TorrentData

namespace Torrent

variable {sha1 : Bytes → Digest} {t next : Torrent} {disk disk' : Disk} {env : WriteEnv}
  {message : Message} {report : Option PieceReport}

/-- The progress queues of the peers only grow by copies of one piece id. -/
def QueuesOnly (before after : HashMap Peer) (pieceId : Int) : Prop :=
  ∀ ip p,
    after.find ip = some p
    → ∃ old count,
        before.find ip = some old
        ∧ p.progressQueue = old.progressQueue ++ List.replicate count pieceId

/-- Nothing changes; or the block is stored exactly where the message says, and peers are told
at most of the piece that became complete.
-/
def PlacesBlock (t : Torrent) (disk : Disk) (message : Message) (next : Torrent) (disk' : Disk)
    (report : Option PieceReport)
    : Prop :=
  (next = t ∧ disk' = disk)
  ∨ t.torrentData.StoredExactly message next.torrentData report
    ∧ (next.peers = t.peers ∨ ∃ finished ∈ report, QueuesOnly t.peers next.peers finished.pieceId)

theorem queueHave_queuesOnly {pieceId : Int} {ips : List CString} {peers after : HashMap Peer}
    (queued : queueHave pieceId ips peers = .ok after)
    : QueuesOnly peers after pieceId := by
  induction ips generalizing peers with
  | nil =>
      cases queued
      exact fun ip p found => ⟨p, 0, found, by simp⟩
  | cons ip rest ih =>
      unfold queueHave at queued
      split at queued
      · cases queued
      · rename_i p map taken
        have stored : peers.find ip = some p := by rw [← HashMap.get_fst, taken]
        have map_eq : map = (peers.get ip).2 := by rw [taken]
        intro other final found
        obtain ⟨middle, count, bound, queue⟩ := ih queued other final found
        rw [map_eq, HashMap.find_set_get] at bound
        split at bound
        · rename_i same
          obtain rfl := Option.some.inj bound
          rw [same]
          split at queue
          · refine ⟨p, count + 1, stored, ?_⟩
            rw [queue, List.append_assoc, List.replicate_succ]
            rfl
          · exact ⟨p, count, stored, queue⟩
        · exact ⟨middle, count, bound, queue⟩

/-- What `torrent_process_data_chunk` makes of the return of `torrent_data_write_chunk`. -/
theorem processed_parts {result : WriteResult}
    (processed
      : (match result.exit with
        | .failure =>
            .ok ({ t with torrentData := result.td }, result.disk, result.report)
        | .success =>
            (queueHave (wrap32 message.index) t.peerIps t.peers).bind fun peers =>
              .ok ({ t with torrentData := result.td, peers }, result.disk, result.report))
        = (.ok (next, disk', report) : Except Fault (Torrent × Disk × Option PieceReport)))
    : next.torrentData = result.td
      ∧ report = result.report
      ∧ (next.peers = t.peers
        ∨ result.exit = .success
          ∧ QueuesOnly t.peers next.peers (wrap32 message.index)) := by
  cases exit : result.exit with
  | failure =>
      rw [exit] at processed
      cases processed
      exact ⟨rfl, rfl, .inl rfl⟩
  | success =>
      rw [exit] at processed
      obtain ⟨peers, queued, processed⟩ := bind_eq_ok.mp processed
      cases processed
      exact ⟨rfl, rfl, .inr ⟨rfl, queueHave_queuesOnly queued⟩⟩

/-- A block is placed as its message says, or not at all, if and only if it is refused or the
message names the start of a chunk inside its piece.
-/
theorem processDataChunk_places_iff (ready : t.torrentData.Initialised)
    (processed : t.processDataChunk sha1 disk message env = .ok (next, disk', report))
    : t.PlacesBlock disk message next disk' report
      ↔ t.torrentData.Refuses message env.stack ∨ t.torrentData.NamesChunk message := by
  unfold processDataChunk at processed
  obtain ⟨result, wrote, processed⟩ := bind_eq_ok.mp processed
  have payload : 13 ≤ message.bytes.length := by
    by_contra short
    rw [TorrentData.processPiece, if_pos (by omega)] at wrote
    cases wrote
  have beginFits : message.begin < 2 ^ 32 := ofBe32_lt (slice_length_of_le (by omega))
  rcases TorrentData.processPiece_step ready wrote with ⟨chunk, inRange, known, step⟩
      | ⟨refuses, rfl⟩
  · by_cases accepted : t.torrentData.Accepts chunk message.block
    · have notRefused : ¬ t.torrentData.Refuses message env.stack :=
        fun refuses => refuses chunk known accepted
      rw [or_iff_right notRefused]
      obtain ⟨sameData, sameReport, peers⟩ := processed_parts processed
      have newBit := (step.completedBit_iff ready inRange chunk).mpr (.inr ⟨rfl, accepted⟩)
      constructor
      · rintro (⟨unchanged, _⟩ | ⟨stored, _⟩)
        · have oldBit := accepted.1
          rw [← sameData, unchanged, oldBit] at newBit
          cases newBit
        · rw [sameData, sameReport] at stored
          exact stored.namesChunk ready (step.initialised ready inRange)
            step.setup.pieceSize fun report reported =>
              (step.report_spec ready reported).1
      · rintro ⟨inside, named, namedInRange, position⟩
        obtain ⟨piece, _⟩ := TorrentData.NamesChunk.piece_eq ready inside position
        have indexFits : message.index < 2 ^ 31 := by
          rw [← piece]
          exact ready.pieceOf_fits named namedInRange
        have found := ready.chunkIdOf_eq namedInRange position indexFits env.stack
        rw [known] at found
        obtain rfl : chunk = named := by simpa using found
        refine .inr ⟨?_, ?_⟩
        · rw [sameData, sameReport]
          exact step.storedExactly ready inRange accepted inside beginFits position
        · rcases peers with same | ⟨finished, queued⟩
          · exact .inl same
          · obtain ⟨report, reported⟩ := step.report_of_success finished
            refine .inr ⟨report, sameReport ▸ reported, ?_⟩
            rw [(step.report_spec ready reported).2, piece]
            rwa [wrap32_natCast indexFits] at queued
    · rw [step.eq_of_refused accepted] at processed
      cases processed
      refine iff_of_true (.inl ⟨rfl, rfl⟩) (.inl fun other same taken => ?_)
      rw [known] at same
      obtain rfl : chunk = other := by simpa using same
      exact accepted taken
  · cases processed
    exact iff_of_true (.inl ⟨rfl, rfl⟩) (.inl refuses)

/-- Witness: the last byte of the 8-byte torrent. -/
theorem processDataChunk_places_last
    : ∃ next disk' report,
        (ofData byteTorrent).processDataChunk sampleDigest (fun _ => none) lastByteMessage
            sampleEnv
          = .ok (next, disk', report)
        ∧ (ofData byteTorrent).PlacesBlock (fun _ => none) lastByteMessage next disk' report := by
  have names : byteTorrent.NamesChunk lastByteMessage :=
    ⟨by decide +kernel, 7, by decide +kernel, by decide +kernel⟩
  have passed : returnsWith
      ((ofData byteTorrent).processDataChunk sampleDigest (fun _ => none) lastByteMessage
        sampleEnv)
      (fun _ => true)
      = true := by
    decide +kernel
  obtain ⟨⟨next, disk', report⟩, processed, _⟩ := exists_ok_of_returnsWith passed
  exact ⟨next, disk', report, processed,
    (processDataChunk_places_iff byteTorrent_initialised processed).mpr (.inr names)⟩

/-- A torrent of one piece of 32 bytes in chunks of 4. -/
def fourByteTorrent : TorrentData := .ofSingleFile none 32 32 4

/-- A PIECE message for four bytes from byte 1 of piece 0 on. -/
def unalignedMessage : Message :=
  ⟨[0, 0, 0, 13, 7, 0, 0, 0, 0, 0, 0, 0, 1, 9, 9, 9, 9], by decide⟩

/-- A block with an unaligned begin is stored at the start of the chunk before it. -/
theorem unaligned_block_misplaced
    : fourByteTorrent.Initialised
      ∧ 8 * fourByteTorrent.chunkSize ∣ fourByteTorrent.pieceSize
      ∧ ∃ next disk' report,
          (ofData fourByteTorrent).processDataChunk sampleDigest (fun _ => none) unalignedMessage
              sampleEnv
            = .ok (next, disk', report)
          ∧ next.torrentData.heldPiece 0 = some ([9, 9, 9, 9] ++ List.replicate 28 0)
          ∧ ¬ (ofData fourByteTorrent).PlacesBlock (fun _ => none) unalignedMessage next disk'
              report := by
  refine ⟨?_, by decide +kernel, ?_⟩
  · exact (TorrentData.SingleFileFits.justInitialised (by decide +kernel)).fresh.initialised
      (by decide +kernel) (by decide +kernel)
  · have passed : returnsWith
        ((ofData fourByteTorrent).processDataChunk sampleDigest (fun _ => none) unalignedMessage
          sampleEnv)
        (fun answer =>
          answer.1.torrentData.heldPiece 0 = some ([9, 9, 9, 9] ++ List.replicate 28 0))
        = true := by
      decide +kernel
    obtain ⟨⟨next, disk', report⟩, processed, observed⟩ := exists_ok_of_returnsWith passed
    have held := of_decide_eq_true observed
    refine ⟨next, disk', report, processed, held, ?_⟩
    rintro (⟨rfl, _⟩ | ⟨⟨chunk, _, position, _⟩, _⟩)
    · have unheld : (ofData fourByteTorrent).torrentData.heldPiece 0 = none := by
        decide +kernel
      rw [unheld] at held
      cases held
    · have sizes : fourByteTorrent.chunkSize = 4 ∧ fourByteTorrent.pieceSize = 32 := by
        decide +kernel
      have fields : unalignedMessage.index = 0 ∧ unalignedMessage.begin = 1 := by decide +kernel
      change fourByteTorrent.chunkSize * chunk = fourByteTorrent.pieceSize * _ + _ at position
      rw [sizes.1, sizes.2, fields.1, fields.2] at position
      omega

end Torrent

end UvgTorrent

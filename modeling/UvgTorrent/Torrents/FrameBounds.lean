import UvgTorrent.Bencode.Decoding
import UvgTorrent.Peers.Framing
import UvgTorrent.Peers.Traffic
import UvgTorrent.Torrents.BlockPlacement

/-! How far the handlers read in the buffer of a message: those that `peer_run` chooses, and those
of the main thread for a message that was queued. A message that is too short for the struct it is
read through, or that ends inside a number that is decoded, is read past its end.
-/

namespace UvgTorrent

open Foundations

/-- The computation does not read past the end of a message. -/
def StaysInMessage {α : Type} (computation : Except Fault α) : Prop :=
  FaultsOnly (· ≠ .messageBounds) computation

theorem StaysInMessage.ok {α : Type} (value : α) : StaysInMessage (.ok value) := FaultsOnly.ok value

theorem StaysInMessage.bind {α β : Type} {first : Except Fault α} {second : α → Except Fault β}
    (stays : StaysInMessage first) (later : ∀ value, StaysInMessage (second value))
    : StaysInMessage (first.bind second) :=
  FaultsOnly.bind stays later

/-- Any other fault is no read past the end of a message. -/
theorem StaysInMessage.error {α : Type} {fault : Fault} (other : fault ≠ .messageBounds)
    : StaysInMessage (.error fault : Except Fault α) :=
  FaultsOnly.error other

-----------------------------------------------------------------------------------------
-- What does not look at the message
-----------------------------------------------------------------------------------------

theorem Bitfield.getBit_stays (field : Bitfield) (index : Int)
    : StaysInMessage (field.getBit index) := by
  unfold getBit
  split
  · exact .ok _
  · exact .error (by decide)

theorem Bitfield.copyFrom_stays (field : Bitfield) (bytes : Bytes)
    : StaysInMessage (field.copyFrom bytes) := by
  unfold copyFrom
  split
  · exact .ok _
  · exact .error (by decide)

namespace TorrentData

variable {sha1 : Bytes → Digest} {td : TorrentData} {disk : Disk}

theorem isPieceComplete_stays (td : TorrentData) (pieceId : Int) (stack : Stack)
    : StaysInMessage (td.isPieceComplete pieceId stack) := by
  unfold isPieceComplete
  dsimp only
  split
  · exact .error (by decide)
  · split
    · exact .ok _
    · split
      · exact .error (by decide)
      · exact .ok _

theorem getChunkInfo_stays (td : TorrentData) (chunkId : Int) (info : ChunkInfo)
    : StaysInMessage (td.getChunkInfo chunkId info) := by
  intro fault faulted
  rw [getChunkInfo_fault faulted]
  decide

theorem readLoop_stays {io : Nat → Nat → ReadOutcome} {offset length : Nat} {stack : Stack}
    {steps turn : Nat} {read : Bytes}
    : StaysInMessage (td.readLoop io disk offset length stack steps turn read) := by
  induction steps generalizing turn read with
  | zero => exact .error (by decide)
  | succ steps ih =>
      unfold readLoop
      split
      · exact .ok _
      split
      · exact .error (by decide)
      dsimp only
      split
      · exact .error (by decide)
      refine .bind (readPiece_faults.mono fun fault same => by rw [same]; decide) fun taken => ?_
      cases taken with
      | none => exact .ok _
      | some piece =>
          dsimp only
          split
          · exact .error (by decide)
          · exact ih

theorem readData_stays {io : Nat → Nat → ReadOutcome} {offset length : Nat} {stack : Stack}
    {steps : Nat}
    : StaysInMessage (td.readData io disk offset length stack steps) :=
  readLoop_stays

theorem takePiece_stays (td : TorrentData) (pieceId : Int)
    : StaysInMessage (td.takePiece pieceId) := by
  unfold takePiece
  dsimp only
  split
  · exact .error (by decide)
  · split
    · exact .error (by decide)
    · split
      · exact .ok _
      · split
        · exact .ok _
        · exact .error (by decide)

theorem copyChunk_stays (piece data : Bytes) (chunkOffset pieceOffset : Nat)
    : StaysInMessage (copyChunk piece data chunkOffset pieceOffset) := by
  unfold copyChunk
  dsimp only
  split
  · exact .error (by decide)
  · exact .ok _

theorem finishPiece_stays {map : HashMap Bytes} {pieceKey : CString} {pieceInfo : PieceInfo}
    {piece : Bytes} {chunkSize : Nat} {io : Nat → FileOutcome}
    : StaysInMessage (finishPiece sha1 td disk map pieceKey pieceInfo piece chunkSize io) := by
  unfold finishPiece
  refine .bind (fun fault faulted => ?_) fun verdict => ?_
  · rw [validatePiece_fault faulted]
    decide
  · cases verdict with
    | failure => exact .ok _
    | success =>
        refine .bind (fun fault faulted => ?_) fun loop => ?_
        · rcases writePiece_fault faulted with rfl | rfl
          · decide
          · decide
        · dsimp only
          split
          · exact .ok _
          · exact .ok _

theorem writeChunk_stays {chunkId : Int} {data : Bytes} {env : WriteEnv}
    : StaysInMessage (td.writeChunk sha1 disk chunkId data env) := by
  unfold writeChunk
  split
  · exact .error (by decide)
  refine .bind (Bitfield.getBit_stays _ _) fun done => ?_
  split
  · exact .ok _
  refine .bind (getChunkInfo_stays _ _ _) fun (_, chunkInfo) => ?_
  dsimp only
  split
  · exact .ok _
  refine .bind (takePiece_stays _ _) fun (piece, map) => ?_
  refine .bind (copyChunk_stays _ _ _ _) fun piece => ?_
  refine .bind (isPieceComplete_stays _ _ _) fun already => ?_
  refine .bind (isPieceComplete_stays _ _ _) fun complete => ?_
  split
  · exact finishPiece_stays
  · exact .ok _

theorem chunkIdOf_stays (td : TorrentData) (index begin : Nat) (stack : Stack)
    : StaysInMessage (td.chunkIdOf index begin stack) := by
  unfold chunkIdOf
  dsimp only
  split
  · exact .error (by decide)
  · exact .ok _

theorem joinPath_stays {components : List BeNode} {remaining : Nat} {path : CString}
    : StaysInMessage (joinPath components remaining path) := by
  induction components generalizing remaining path with
  | nil => exact .ok _
  | cons component rest ih =>
      cases component with
      | str bytes =>
          unfold joinPath
          split
          · exact .ok _
          · dsimp only
            split
            · exact .error (by decide)
            · exact ih
      | num value => exact .error (by decide)
      | list entries => exact .error (by decide)
      | dict entries => exact .error (by decide)

theorem addFilePath_stays (td : TorrentData) (path : CString) (length : Nat)
    : StaysInMessage (td.addFilePath path length) := by
  unfold addFilePath
  split
  · exact .error (by decide)
  · exact .ok _

theorem addFiles_stays {entries : List BeNode} : StaysInMessage (td.addFiles entries) := by
  induction entries generalizing td with
  | nil => exact .ok _
  | cons file rest ih =>
      unfold addFiles
      split
      · refine .bind joinPath_stays fun path => ?_
        cases path with
        | none => exact .ok _
        | some path => exact .bind (addFilePath_stays _ _ _) fun _ => ih
      · exact .error (by decide)

theorem addMetadataFiles_stays {info : BeNode} : StaysInMessage (td.addMetadataFiles info) := by
  unfold addMetadataFiles
  split
  · split
    · exact .error (by decide)
    · dsimp only
      split
      · exact .error (by decide)
      · exact .bind (addFilePath_stays _ _ _) fun _ => .ok _
  · exact addFiles_stays
  · exact .error (by decide)

theorem makeBitfield_stays (bitCount : Nat) (defaultBit : Int) (defaultByte : UInt8)
    : StaysInMessage (Bitfield.make bitCount defaultBit defaultByte) := by
  unfold Bitfield.make
  split
  · exact .ok _
  · exact .error (by decide)

theorem setDataSize_stays (td : TorrentData) (dataSize : Nat)
    : StaysInMessage (td.setDataSize dataSize) := by
  unfold setDataSize
  split
  · exact .ok _
  · split
    · exact .ok _
    · split
      · exact .error (by decide)
      · exact .bind (makeBitfield_stays _ _ _) fun _ =>
          .bind (makeBitfield_stays _ _ _) fun _ => .ok _

theorem configure_stays {info : BeNode} : StaysInMessage (td.configure info) := by
  unfold configure
  refine .bind addMetadataFiles_stays fun (td, exit) => ?_
  cases exit with
  | failure => exact .ok _
  | success => exact .bind (setDataSize_stays _ _) fun _ => .ok _

end TorrentData

namespace Peer

variable {p : Peer} {td : TorrentData} {disk : Disk} {stack : Stack}

theorem write_stays (p : Peer) (data : Bytes) : StaysInMessage (p.write data) := by
  unfold write
  split
  · exact .ok _
  · refine .bind ?_ fun _ => .ok _
    unfold BufferedSocket.write
    split
    · exact .ok _
    · dsimp only
      split
      · exact .ok _
      · split
        · exact .error (by decide)
        · exact .ok _

theorem sendBasic_stays (p : Peer) (msgId : UInt8) : StaysInMessage (p.sendBasic msgId) :=
  .bind (write_stays p _) fun _ => .ok _

theorem hasInterestingPieces_stays {field : Bitfield} {remaining index : Nat}
    : StaysInMessage (hasInterestingPieces td field stack remaining index) := by
  induction remaining generalizing index with
  | zero => exact .ok _
  | succ remaining ih =>
      unfold hasInterestingPieces
      refine .bind ?_ fun held => ?_
      · split
        · exact .ok _
        · split
          · exact TorrentData.isPieceComplete_stays _ _ _
          · exact .ok _
      · split
        · exact ih
        · refine .bind (Bitfield.getBit_stays _ _) fun offered => ?_
          split
          · exact .ok _
          · exact ih

theorem updateInterested_stays : StaysInMessage (p.updateInterested td stack) := by
  unfold updateInterested
  split
  · exact .ok _
  · refine .bind hasInterestingPieces_stays fun interesting => ?_
    split
    · exact .bind (sendBasic_stays _ _) fun _ => .ok _
    · split
      · exact .bind (sendBasic_stays _ _) fun _ => .ok _
      · exact .ok _

theorem handleUtMetadataRequest_stays {chunkId : Int} {reads : Nat → Nat → ReadOutcome}
    {steps : Nat}
    : StaysInMessage (p.handleUtMetadataRequest chunkId td disk reads stack steps) := by
  unfold handleUtMetadataRequest
  split
  · refine .bind (TorrentData.getChunkInfo_stays _ _ _) fun (_, chunkInfo) => ?_
    dsimp only
    split
    · exact .error (by decide)
    · exact .bind TorrentData.readData_stays fun _ => .bind (write_stays _ _) fun _ => .ok _
  · exact .ok _

end Peer

-----------------------------------------------------------------------------------------
-- A message and its handlers
-----------------------------------------------------------------------------------------

namespace Message

/-- `get_msg_id`. -/
def msgId (message : Message) : Option Nat := message.bytes[4]?.map UInt8.toNat

/-- `get_msg_buffer_size`. -/
def bufferSize (message : Message) : Nat := 4 + ofBe32 (message.bytes.take 4)

/-- The length that a handler computes for the payload behind a struct of some size. -/
def payloadSize (message : Message) (headerSize : Nat) : Nat := u64Sub message.bufferSize headerSize

/-- The size of the struct behind which a payload length is computed: `struct PEER_MSG_BITFIELD`,
`struct PEER_MSG_PIECE` or `struct PEER_MSG_EXTENSION`.
-/
def payloadHeader (message : Message) : Option Nat :=
  match message.msgId with
  | some 5 => some 5
  | some 7 => some 13
  | some 20 => some 6
  | _ => none

/-- `peer_handle_msg_extension` decodes the payload. -/
def Decoded (message : Message) : Prop :=
  ∃ extendedMsgId,
    message.bytes[5]? = some extendedMsgId
    ∧ (extendedMsgId = 0 ∨ extendedMsgId.toNat = utMetadataId)

instance (message : Message) : Decidable message.Decoded :=
  match found : message.bytes[5]? with
  | none => .isFalse (by simp [Decoded, found])
  | some extendedMsgId =>
      decidable_of_iff (extendedMsgId = 0 ∨ extendedMsgId.toNat = utMetadataId)
        (by simp [Decoded, found])

/-- The bytes behind a `struct PEER_MSG_EXTENSION`. -/
def payload (message : Message) : Bytes := message.bytes.drop 6

theorem bufferSize_eq (message : Message) : message.bufferSize = message.bytes.length :=
  message.framed.symm

theorem bufferSize_lt (message : Message) : message.bufferSize < 2 ^ 33 := by
  have sized := message.bufferSize_eq
  by_cases four : 4 ≤ message.bytes.length
  · have bound := ofBe32_lt (List.length_take_of_le four)
    rw [bufferSize]
    omega
  · omega

theorem payloadSize_exact (message : Message) {header : Nat} (room : header ≤ message.bytes.length)
    : header ≤ message.bufferSize ∧ message.payloadSize header = message.bufferSize - header := by
  rw [← bufferSize_eq] at room
  have bound := message.bufferSize_lt
  exact ⟨room, u64Sub_of_le room (by omega)⟩

end Message

/-- What a message meets: the peer and the structs of its thread, and those of the main thread. -/
structure FrameContext where
  peer : Peer
  input : RunInput
  sha1 : Bytes → Digest
  torrent : Torrent
  disk : Disk
  env : MetadataEnv

namespace FrameContext

/-- The handler that `peer_run` chooses, with the reads of the decoder. -/
def handle (context : FrameContext) (message : Message) : Except Fault (Peer × Option MainQueue) :=
  (if message.msgId = some 20 ∧ message.Decoded then beDecode message.payload
    else .ok none).bind fun _ =>
      context.peer.handleMessage decodeInside context.input.torrentMetadata
        context.input.torrentData context.input.disk message context.input.outcome

/-- The main thread on a message from one of its queues. -/
def process (context : FrameContext) (message : Message) : Option MainQueue → Except Fault Unit
  | none => .ok ()
  | some .data =>
      (context.torrent.processDataChunk context.sha1 context.disk message context.env.write).bind
        fun _ => .ok ()
  | some .metadata =>
      (beDecode message.payload).bind fun _ =>
        (context.torrent.processMetadataPiece decodeInside context.sha1 context.disk message
            context.env).bind fun _ =>
          .ok ()

/-- What is done with a message, from its handler on. -/
def serve (context : FrameContext) (message : Message) : Except Fault Unit :=
  (context.handle message).bind fun (_, queue) => context.process message queue

/-- The handlers stay inside the message, and every length they compute for a part of it is exact.
-/
structure StaysInFrame (context : FrameContext) (message : Message) : Prop where
  reads : StaysInMessage (context.serve message)
  payload
    : ∀ header,
        message.payloadHeader = some header
        → header ≤ message.bufferSize
          ∧ message.payloadSize header = message.bufferSize - header
  chunk
    : ∀ node readAmount,
        beDecode message.payload = .ok (some (node, readAmount))
        → readAmount ≤ message.payloadSize 6
          ∧ u64Sub (message.payloadSize 6) readAmount = message.payloadSize 6 - readAmount

end FrameContext

/-- The message has all bytes of the struct that it is read through, and its payload does not end
inside a number that is decoded.
-/
structure Message.Fits (message : Message) : Prop where
  haveRoom : message.msgId = some 4 → 9 ≤ message.bytes.length
  requestRoom : message.msgId = some 6 → 17 ≤ message.bytes.length
  pieceRoom : message.msgId = some 7 → 13 ≤ message.bytes.length
  extensionRoom : message.msgId = some 20 → 6 ≤ message.bytes.length
  numbersEnd : message.msgId = some 20 → message.Decoded → ¬ EndsInNumber 10 message.payload

/-- A message that fits has the struct behind which its payload length is computed. -/
theorem Message.Fits.header_le {message : Message} {header : Nat} (fits : message.Fits)
    (found : message.payloadHeader = some header)
    : header ≤ message.bytes.length := by
  unfold payloadHeader at found
  split at found
  · rename_i msgId
    cases found
    obtain ⟨_, byte, _⟩ := Option.map_eq_some_iff.mp msgId
    obtain ⟨inside, _⟩ := List.getElem?_eq_some_iff.mp byte
    exact inside
  · rename_i msgId
    cases found
    exact fits.pieceRoom msgId
  · rename_i msgId
    cases found
    exact fits.extensionRoom msgId
  · cases found

-----------------------------------------------------------------------------------------
-- The handlers on a message that fits
-----------------------------------------------------------------------------------------

namespace Peer

variable {p : Peer} {td : TorrentData} {disk : Disk} {stack : Stack} {message : Message}

theorem handleMsgHave_stays (room : 9 ≤ message.bytes.length)
    : StaysInMessage (p.handleMsgHave td message stack) := by
  unfold handleMsgHave
  rw [if_neg (Nat.not_lt.mpr room)]
  split
  · exact .error (by decide)
  · exact updateInterested_stays

theorem handleMsgBitfield_stays : StaysInMessage (p.handleMsgBitfield td message stack) := by
  unfold handleMsgBitfield
  dsimp only
  split
  · exact .error (by decide)
  · exact .bind (Bitfield.copyFrom_stays _ _) fun _ => updateInterested_stays

theorem handleMsgRequest_stays {reads : Nat → Nat → ReadOutcome} {steps : Nat}
    (room : 17 ≤ message.bytes.length)
    : StaysInMessage (p.handleMsgRequest td disk message reads stack steps) := by
  unfold handleMsgRequest
  rw [if_neg (Nat.not_lt.mpr room)]
  exact .bind TorrentData.readData_stays fun _ => .bind (write_stays _ _) fun _ => .ok _

theorem handleMsgExtension_stays {decoder : BeDecode} {reads : Nat → Nat → ReadOutcome}
    {steps : Nat} {now : Int} (room : 6 ≤ message.bytes.length)
    : StaysInMessage
        (p.handleMsgExtension decoder td disk message reads stack steps now) := by
  unfold handleMsgExtension
  split
  · rename_i missing
    rw [List.getElem?_eq_none_iff] at missing
    omega
  · dsimp only
    split
    · exact .ok _
    · split
      · split
        · exact .ok _
        · split
          · exact .bind handleUtMetadataRequest_stays fun _ => .ok _
          · split
            · exact .ok _
            · split
              · exact .ok _
              · exact .ok _
      · exact .ok _

/-- Every handler stays in a message that fits. -/
theorem handleMessage_stays {decoder : BeDecode} {torrentMetadata : TorrentData}
    {outcome : RunOutcome} (fits : message.Fits)
    : StaysInMessage
        (p.handleMessage decoder torrentMetadata td disk message outcome) := by
  unfold handleMessage
  split
  · exact .ok _
  · exact .ok _
  · exact .ok _
  · exact .ok _
  · rename_i msgId
    exact .bind (handleMsgHave_stays (fits.haveRoom msgId)) fun _ => .ok _
  · exact .bind handleMsgBitfield_stays fun _ => .ok _
  · rename_i msgId
    exact .bind (handleMsgRequest_stays (fits.requestRoom msgId)) fun _ => .ok _
  · exact .ok _
  · rename_i msgId
    exact handleMsgExtension_stays (fits.extensionRoom msgId)
  · exact .ok _

/-- Only PIECE messages are queued for the data, and only decoded messages for the metadata. -/
theorem handleMessage_queued {decoder : BeDecode} {torrentMetadata : TorrentData} {next : Peer}
    {outcome : RunOutcome} {queue : MainQueue}
    (handled
      : p.handleMessage decoder torrentMetadata td disk message outcome = .ok (next, some queue))
    : queue = .data ∧ message.msgId = some 7
      ∨ queue = .metadata ∧ message.msgId = some 20 ∧ message.Decoded := by
  unfold handleMessage at handled
  split at handled
  · cases handled
  · cases handled
  · cases handled
  · cases handled
  · obtain ⟨_, _, handled⟩ := bind_eq_ok.mp handled
    cases handled
  · obtain ⟨_, _, handled⟩ := bind_eq_ok.mp handled
    cases handled
  · obtain ⟨_, _, handled⟩ := bind_eq_ok.mp handled
    cases handled
  · rename_i msgId
    cases handled
    exact .inl ⟨rfl, msgId⟩
  · rename_i msgId
    unfold handleMsgExtension at handled
    split at handled
    · cases handled
    · rename_i extendedMsgId found
      dsimp only at handled
      split at handled
      · cases handled
      · split at handled
        · rename_i isUtMetadata
          have decoded : message.Decoded := ⟨extendedMsgId, found, .inr isUtMetadata⟩
          split at handled
          · cases handled
          · split at handled
            · obtain ⟨_, _, handled⟩ := bind_eq_ok.mp handled
              cases handled
            · split at handled
              · cases handled
                exact .inr ⟨rfl, msgId, decoded⟩
              · split at handled
                · cases handled
                · cases handled
        · cases handled
  · cases handled

end Peer

namespace Torrent

variable {sha1 : Bytes → Digest} {t : Torrent} {disk : Disk} {message : Message}

theorem processDataChunk_stays {env : WriteEnv} (room : 13 ≤ message.bytes.length)
    : StaysInMessage (t.processDataChunk sha1 disk message env) := by
  unfold processDataChunk TorrentData.processPiece
  rw [if_neg (Nat.not_lt.mpr room)]
  refine .bind (.bind (TorrentData.chunkIdOf_stays _ _ _ _) fun _ =>
    TorrentData.writeChunk_stays) fun result => ?_
  split
  · exact .ok _
  · refine .bind (fun fault faulted => ?_) fun _ => .ok _
    rw [queueHave_fault faulted]
    decide

theorem processMetadataPiece_stays {decoder : BeDecode} {env : MetadataEnv}
    (room : 6 ≤ message.bytes.length)
    : StaysInMessage (t.processMetadataPiece decoder sha1 disk message env) := by
  unfold processMetadataPiece writeMetadata
  rw [if_neg (Nat.not_lt.mpr room)]
  refine .bind ?_ fun written => ?_
  · split
    · exact .ok _
    · exact .bind TorrentData.writeChunk_stays fun _ => .ok _
  · split
    · exact .ok _
    · split
      · refine .bind ?_ fun info => ?_
        · unfold readInfo
          refine .bind TorrentData.readData_stays fun (exit, _) => ?_
          cases exit with
          | failure => exact .ok _
          | success => exact .ok _
        · cases info with
          | none => exact .ok _
          | some info => exact .bind TorrentData.configure_stays fun _ => .ok _
      · exact .ok _

end Torrent

-----------------------------------------------------------------------------------------
-- Both threads
-----------------------------------------------------------------------------------------

theorem beDecode_stays {input : Bytes} (ends : ¬ EndsInNumber 10 input)
    : StaysInMessage (beDecode input) :=
  fun _ faulted => absurd ((beDecode_faults_iff _ _).mp faulted).2 ends

namespace FrameContext

variable {context : FrameContext} {message : Message}

/-- A message that fits is not read past its end in either thread. -/
theorem serve_stays (fits : message.Fits) : StaysInMessage (context.serve message) := by
  intro fault faulted
  rcases bind_eq_error.mp faulted with faulted | ⟨⟨next, queue⟩, handled, faulted⟩
  · have handles : StaysInMessage (context.handle message) := by
      refine .bind ?_ fun _ => Peer.handleMessage_stays fits
      split
      · rename_i decodes
        exact beDecode_stays (fits.numbersEnd decodes.1 decodes.2)
      · exact .ok _
    exact handles fault faulted
  · obtain ⟨_, _, handled⟩ := bind_eq_ok.mp handled
    cases queue with
    | none => cases faulted
    | some queue =>
        have processes : StaysInMessage (context.process message (some queue)) := by
          rcases Peer.handleMessage_queued handled with ⟨rfl, msgId⟩ | ⟨rfl, msgId, decoded⟩
          · exact .bind (Torrent.processDataChunk_stays (fits.pieceRoom msgId)) fun _ => .ok _
          · exact .bind (beDecode_stays (fits.numbersEnd msgId decoded)) fun _ =>
              .bind (Torrent.processMetadataPiece_stays (fits.extensionRoom msgId)) fun _ => .ok _
        exact processes fault faulted

/-- What a handler reads past the end is read past it in the whole. -/
theorem not_stays_of_handle
    (faulted : context.handle message = .error .messageBounds)
    : ¬ StaysInMessage (context.serve message) :=
  fun stays => stays _ (bind_of_error faulted _) rfl

theorem handle_eq (other : message.msgId ≠ some 20)
    : context.handle message
      = context.peer.handleMessage decodeInside context.input.torrentMetadata
          context.input.torrentData context.input.disk message context.input.outcome := by
  rw [handle, if_neg (fun both => other both.1)]
  rfl

/-- A handler on a message without room for its struct. -/
theorem handle_short (msgId : message.msgId = some 4 ∧ message.bytes.length < 9
      ∨ message.msgId = some 6 ∧ message.bytes.length < 17)
    : context.handle message = .error .messageBounds := by
  rcases msgId with ⟨msgId, short⟩ | ⟨msgId, short⟩
  · rw [handle_eq (by rw [msgId]; decide), Peer.handleMessage]
    rw [Message.msgId] at msgId
    rw [msgId]
    dsimp only
    rw [Peer.handleMsgHave, if_pos short]
    rfl
  · rw [handle_eq (by rw [msgId]; decide), Peer.handleMessage]
    rw [Message.msgId] at msgId
    rw [msgId]
    dsimp only
    rw [Peer.handleMsgRequest, if_pos short]
    rfl

/-- The handlers of both threads stay inside a message, with exact lengths, if and only if the
message has room for the struct of its id and its payload does not end inside a number that is
decoded.
-/
theorem staysInFrame_iff (context : FrameContext) (message : Message)
    : context.StaysInFrame message ↔ message.Fits := by
  have sized := message.bufferSize_eq
  constructor
  · intro stays
    have headerFits (header : Nat) (found : message.payloadHeader = some header)
        : header ≤ message.bytes.length := by
      rw [← sized]
      exact (stays.payload header found).1
    constructor
    case haveRoom =>
      intro msgId
      by_contra short
      exact not_stays_of_handle (handle_short (.inl ⟨msgId, by omega⟩)) stays.reads
    case requestRoom =>
      intro msgId
      by_contra short
      exact not_stays_of_handle (handle_short (.inr ⟨msgId, by omega⟩)) stays.reads
    case pieceRoom =>
      intro msgId
      refine headerFits 13 ?_
      rw [Message.payloadHeader, msgId]
      rfl
    case extensionRoom =>
      intro msgId
      refine headerFits 6 ?_
      rw [Message.payloadHeader, msgId]
      rfl
    case numbersEnd =>
      intro msgId decoded ends
      have faulted : context.handle message = .error .messageBounds := by
        rw [handle, if_pos ⟨msgId, decoded⟩]
        exact bind_of_error ((beDecode_faults_iff _ _).mpr ⟨rfl, ends⟩) _
      exact not_stays_of_handle faulted stays.reads
  · intro fits
    refine ⟨serve_stays fits, fun header found => ?_, fun node readAmount decoded => ?_⟩
    · exact message.payloadSize_exact (fits.header_le found)
    · have reads := beDecode_reads decoded
      rw [Message.payload, List.length_drop] at reads
      cases readAmount with
      | zero =>
          have fits64 : message.payloadSize 6 < 2 ^ 64 := Nat.mod_lt _ (by decide)
          exact ⟨Nat.zero_le _, u64Sub_of_le (Nat.zero_le _) fits64⟩
      | succ readAmount =>
          obtain ⟨_, size⟩ := message.payloadSize_exact (show 6 ≤ message.bytes.length by omega)
          have bound := message.bufferSize_lt
          rw [size]
          exact ⟨by omega, u64Sub_of_le (by omega) (by omega)⟩

end FrameContext

/-- Counterexample: the reader returns a HAVE message of length 1, whose handler reads an index that
the message does not have.
-/
theorem short_have_read_past
    : ∃ message : Message,
        ((handshakenPeer [0, 0, 0, 1, 4]).readMessage 1).2 = some message.bytes
        ∧ message.msgId = some 4
        ∧ ¬ ({
              peer := handshakenPeer []
              input := quietInput none
              sha1 := Torrent.sampleDigest
              torrent := Torrent.ofData (.new [46])
              disk := fun _ => none
              env := { write := Torrent.sampleEnv, reads := fun _ _ => .good, steps := 1 }
            } : FrameContext).StaysInFrame message := by
  refine ⟨⟨[0, 0, 0, 1, 4], by decide⟩, by decide +kernel, rfl, fun stays => ?_⟩
  refine FrameContext.not_stays_of_handle (FrameContext.handle_short ?_) stays.reads
  exact .inl ⟨rfl, by decide⟩

end UvgTorrent

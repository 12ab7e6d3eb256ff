import UvgTorrent.Claims.ClaimList
import UvgTorrent.Peers.MetadataRequests
import UvgTorrent.Peers.Serving
import UvgTorrent.Torrents.MetadataMessages

/-! `peer_messages.c` and the answers of `peer_ut_metadata.c`: the messages that a peer is sent, and
the handlers of those that it sends.
-/

namespace UvgTorrent

open Foundations

/-- `REQUEST_MSG_QUEUE_LENGTH`. -/
def requestMsgQueueLength : Int := 10

namespace Bitfield

/-- The `memcpy` of bytes to the start of a bitfield. -/
def copyFrom (field : Bitfield) (bytes : Bytes) : Except Fault Bitfield :=
  if fits : bytes.length ≤ field.bytesCount then
    .ok
      {
        field with
        bytes := overwrite field.bytes 0 bytes
        sized := by
          rw [overwrite_length (by simpa [bytesCount] using fits)]
          exact field.sized
      }
  else .error .bitfieldBounds

/-- The assignment to one byte in `peer_send_msg_request`, which compares the index as a `size_t`.
-/
def setByte (field : Bitfield) (index : Int) (byte : UInt8) : Bitfield :=
  if u64OfInt index < field.bytesCount then
    {
      field with
      bytes := field.bytes.set index.toNat byte
      sized := by simpa using field.sized
    }
  else field

end Bitfield

/-- A `struct PEER_MSG_BASIC`. -/
def basicMessage (msgId : UInt8) : Bytes := be32 1 ++ [msgId]

/-- A `struct PEER_MSG_HAVE`. -/
def haveMessage (pieceId : Int) : Bytes := be32 5 ++ [4] ++ be32 (u32 (u64OfInt pieceId))

/-- A `struct PEER_MSG_BITFIELD`. -/
def bitfieldMessage (field : Bitfield) : Bytes := be32 (1 + field.bytesCount) ++ [5] ++ field.bytes

namespace Peer

-----------------------------------------------------------------------------------------
-- Choking and interest
-----------------------------------------------------------------------------------------

/-- The body of the functions that send a message without a payload. -/
def sendBasic (p : Peer) (msgId : UInt8) : Except Fault (Peer × Exit) :=
  (p.write (basicMessage msgId)).bind fun (p, result) =>
    .ok (p, if result = 5 then .success else .failure)

/-- `peer_send_msg_choke`. -/
def sendMsgChoke (p : Peer) : Except Fault (Peer × Exit) := { p with amChoking := true }.sendBasic 0

/-- `peer_send_msg_unchoke`. -/
def sendMsgUnchoke (p : Peer) : Except Fault (Peer × Exit) :=
  { p with amChoking := false }.sendBasic 1

/-- `peer_send_msg_interested`. -/
def sendMsgInterested (p : Peer) : Except Fault (Peer × Exit) :=
  { p with amInterested := true }.sendBasic 2

/-- `peer_send_msg_not_interested`. -/
def sendMsgNotInterested (p : Peer) : Except Fault (Peer × Exit) :=
  { p with amInterested := false }.sendBasic 3

/-- The loop of `peer_update_interested`, which stops at the first piece that is missing here and
offered there.
-/
def hasInterestingPieces (td : TorrentData) (peerBitfield : Bitfield) (stack : Stack)
    : Nat → Nat → Except Fault Bool
  | 0, _ => .ok false
  | remaining + 1, index =>
      (if td.isComplete then .ok true
        else if td.needed then td.isPieceComplete index stack
        else .ok false).bind fun held =>
          if held then hasInterestingPieces td peerBitfield stack remaining (index + 1)
          else
            (peerBitfield.getBit index).bind fun offered =>
              if offered then .ok true
              else hasInterestingPieces td peerBitfield stack remaining (index + 1)

/-- `peer_update_interested`. -/
def updateInterested (p : Peer) (td : TorrentData) (stack : Stack) : Except Fault Peer :=
  match p.peerBitfield with
  | none => .ok p
  | some peerBitfield =>
      (hasInterestingPieces td peerBitfield stack peerBitfield.bitCount 0).bind fun interesting =>
        if ¬ p.amInterested ∧ interesting then p.sendMsgInterested.bind fun (p, _) => .ok p
        else if p.amInterested ∧ ¬ interesting then
          p.sendMsgNotInterested.bind fun (p, _) => .ok p
        else .ok p

-----------------------------------------------------------------------------------------
-- HAVE and BITFIELD
-----------------------------------------------------------------------------------------

/-- `peer_should_send_msg_have`. -/
def shouldSendMsgHave (p : Peer) : Bool :=
  0 < p.progressQueue.length ∧ p.status = .handshakeComplete

/-- The loop of `peer_send_msg_have` over the queue, with the ids that were written. An id whose
write fails is lost.
-/
def sendHaves : List Int → Peer → Except Fault (Peer × Exit × List Int)
  | [], p => .ok (p, .success, [])
  | pieceId :: rest, p =>
      ({ p with progressQueue := rest }.write (haveMessage pieceId)).bind fun (p, result) =>
        if result ≠ 9 then .ok (p, .failure, [])
        else (sendHaves rest p).bind fun (p, exit, sent) => .ok (p, exit, pieceId :: sent)

/-- `peer_send_msg_have`, with the ids that were written. -/
def sendMsgHave (p : Peer) (td : TorrentData) (stack : Stack) : Except Fault (Peer × List Int) :=
  (sendHaves p.progressQueue p).bind fun
    | (p, .failure, sent) => .ok (p, sent)
    | (p, .success, sent) => (p.updateInterested td stack).bind fun p => .ok (p, sent)

/-- `peer_should_send_msg_bitfield`. -/
def shouldSendMsgBitfield (p : Peer) (td : TorrentData) : Bool :=
  p.status = .handshakeComplete ∧ p.msgBitfieldSent = false ∧ td.needed = true

/-- The resizing of a partial bitfield in `peer_send_msg_bitfield`; `blank` is a bitfield of the
right size.
-/
def resizeBitfield (p : Peer) (blank : Bitfield) : Except Fault Peer :=
  match p.peerBitfield with
  | none => .ok p
  | some partialField =>
      if partialField.bytesCount < blank.bytesCount then
        (blank.copyFrom partialField.bytes).bind fun field =>
          .ok { p with peerBitfield := some field }
      else .ok p

/-- The loop of `peer_send_msg_bitfield` over the pieces. -/
def markPieces (td : TorrentData) (stack : Stack) : Nat → Nat → Bitfield → Except Fault Bitfield
  | 0, _, field => .ok field
  | remaining + 1, piece, field =>
      (td.isPieceComplete piece stack).bind fun complete =>
        markPieces td stack remaining (piece + 1) (field.setBit piece (if complete then 1 else 0))

/-- `peer_send_msg_bitfield`, with the bitfield when it was written. -/
def sendMsgBitfield (p : Peer) (td : TorrentData) (stack : Stack)
    : Except Fault (Peer × Option Bitfield) :=
  match Bitfield.new (u64OfInt td.pieceCount) 0 0x00 with
  | none => .error .nullPointer
  | some blank =>
      ({ p with msgBitfieldSent := true }.resizeBitfield blank).bind fun p =>
        (markPieces td stack td.pieceCount.toNat 0 blank).bind fun field =>
          (p.write (bitfieldMessage field)).bind fun (p, result) =>
            .ok (p, if result = (bitfieldMessage field).length then some field else none)

/-- `peer_handle_msg_have`. -/
def handleMsgHave (p : Peer) (td : TorrentData) (message : Message) (stack : Stack)
    : Except Fault Peer :=
  if message.bytes.length < 9 then .error .messageBounds
  else
    match p.peerBitfield.or (Bitfield.new (u64OfInt td.pieceCount) 0 0x00) with
    | none => .error .nullPointer
    | some field =>
        { p with peerBitfield := some (field.setBit (wrap32 message.index) 1) }.updateInterested td
          stack

/-- `peer_handle_msg_bitfield`: an existing bitfield keeps its size. -/
def handleMsgBitfield (p : Peer) (td : TorrentData) (message : Message) (stack : Stack)
    : Except Fault Peer :=
  let bitfield := message.bytes.drop 5
  let chunkCount := if td.needed then td.pieceCount else wrap32 (bitfield.length * 8 : Nat)
  match p.peerBitfield.or (Bitfield.new (u64OfInt chunkCount) 0 0x00) with
  | none => .error .nullPointer
  | some field =>
      (field.copyFrom bitfield).bind fun field =>
        { p with peerBitfield := some field }.updateInterested td stack

-----------------------------------------------------------------------------------------
-- REQUEST and PIECE
-----------------------------------------------------------------------------------------

/-- `peer_should_send_msg_request`. -/
def shouldSendMsgRequest (p : Peer) (td : TorrentData) : Bool :=
  p.status = .handshakeComplete
  ∧ td.needed = true
  ∧ p.pendingRequestCount < requestMsgQueueLength
  ∧ p.peerChoking = false
  ∧ p.amInterested = true

/-- The inner loop of `peer_send_msg_request` over the bytes of one piece. -/
def fillPiece (interested : Bitfield) (uintsPerPiece : Int) (piece : Nat) (wanted : Bool)
    : Bitfield :=
  (List.range uintsPerPiece.toNat).foldl
    (fun field x =>
      field.setByte (wrap32 (wrap32 (piece * uintsPerPiece) + x)) (if wanted then 0xFF else 0x00))
    interested

/-- The outer loop of `peer_send_msg_request`, which builds the bitfield of the chunks of interest.
-/
def interestedChunks (td : TorrentData) (peerBitfield : Option Bitfield)
    : Nat → Nat → Bitfield → Except Fault Bitfield
  | 0, _, interested => .ok interested
  | remaining + 1, piece, interested =>
      match peerBitfield with
      | none => .error .nullPointer
      | some offered =>
          (offered.getBit piece).bind fun wanted =>
            if td.chunkSize = 0 then .error .divisionByZero
            else
              let chunksPerPiece := wrap32 (td.pieceSize / td.chunkSize : Nat)
              interestedChunks td peerBitfield remaining (piece + 1)
                (fillPiece interested (chunksPerPiece.tdiv 8) piece wanted)

/-- The loop of `peer_send_msg_request` over the claimed chunks. -/
def sendRequests (td : TorrentData) (stack : Stack)
    : List (Option Nat) → Peer → Except Fault (Peer × Exit)
  | [], p => .ok (p, .success)
  | none :: _, p => .ok (p, .success)
  | some chunk :: rest, p =>
      (td.requestMessage chunk stack).bind fun request =>
        (p.write request).bind fun (p, result) =>
          if result ≠ 17 then .ok (p, .failure)
          else
            sendRequests td stack rest
              { p with pendingRequestCount := wrap32 (p.pendingRequestCount + 1) }

/-- `peer_send_msg_request`. -/
def sendMsgRequest (p : Peer) (td : TorrentData) (stack : Stack) (clock : Nat → Int)
    : Except Fault (Peer × TorrentData × Exit) :=
  match Bitfield.new (u64OfInt td.chunkCount) 0 0xFF with
  | none => .error .nullPointer
  | some blank =>
      (interestedChunks td p.peerBitfield td.pieceCount.toNat 0 blank).bind fun interested =>
        if p.pendingRequestCount < requestMsgQueueLength then
          (td.claimChunk interested 10 (requestMsgQueueLength - p.pendingRequestCount) clock).bind
            fun
              | (td, .failure, _) => .ok (p, td, .success)
              | (td, .success, chunks) =>
                  (sendRequests td stack chunks p).bind fun (p, exit) => .ok (p, td, exit)
        else .ok (p, td, .success)

/-- `peer_handle_msg_piece`, up to the push of the message. -/
def handleMsgPiece (p : Peer) : Peer :=
  { p with pendingRequestCount := wrap32 (p.pendingRequestCount - 1) }

-----------------------------------------------------------------------------------------
-- Extension messages
-----------------------------------------------------------------------------------------

/-- `peer_handle_ut_metadata_request`: nothing is sent while the metadata is not complete. The exit
code of the read is ignored.
-/
def handleUtMetadataRequest (p : Peer) (chunkId : Int) (torrentMetadata : TorrentData) (disk : Disk)
    (reads : Nat → Nat → ReadOutcome) (stack : Stack) (steps : Nat)
    : Except Fault Peer :=
  if torrentMetadata.isComplete then
    (torrentMetadata.getChunkInfo (wrap32 chunkId) stack.chunkInfo).bind fun (_, chunkInfo) =>
      let encoded :=
        (BeNode.dict
          [(ascii "msg_type", .num 1), (ascii "piece", .num chunkId),
            (ascii "total_size", .num (wrap32 torrentMetadata.dataSize))]).encode
      if 65535 < encoded.length + chunkInfo.chunkSize then .error .answerBounds
      else
        (torrentMetadata.readData reads disk chunkInfo.chunkOffset chunkInfo.chunkSize stack
            steps).bind fun (_, read) =>
          let chunk := read ++ List.replicate (chunkInfo.chunkSize - read.length) 0
          (p.write (extensionMessage (UInt8.ofInt p.utMetadata) (encoded ++ chunk))).bind
            fun (p, _) => .ok p
  else .ok p

end Peer

/-- The queues of the main thread that a message can be handed to. -/
inductive MainQueue where
  | metadata
  | data
  deriving DecidableEq, Repr

namespace Peer

/-- `peer_handle_msg_extension`, with the queue that takes the message. -/
def handleMsgExtension (beDecode : BeDecode) (p : Peer) (torrentMetadata : TorrentData)
    (disk : Disk) (message : Message) (reads : Nat → Nat → ReadOutcome) (stack : Stack)
    (steps : Nat) (now : Int)
    : Except Fault (Peer × Option MainQueue) :=
  match message.bytes[5]? with
  | none => .error .messageBounds
  | some extendedMsgId =>
      let decoded := (beDecode (message.bytes.drop 6)).map (·.1)
      if extendedMsgId = 0 then .ok (p.handleExtendedHandshake decoded now, none)
      else if extendedMsgId.toNat = utMetadataId then
        match decoded with
        | none => .ok (p.disconnect now, none)
        | some d =>
            let msgType := d.dictLookupNum (ascii "msg_type")
            if msgType = 0 then
              (p.handleUtMetadataRequest (d.dictLookupNum (ascii "piece")) torrentMetadata disk
                  reads stack steps).bind fun p => .ok (p, none)
            else if msgType = 1 then .ok (p, some .metadata)
            -- `peer_handle_ut_metadata_reject`
            else if msgType = 2 then .ok ({ p with utMetadata := 0 }, none)
            else .ok (p, none)
      else .ok (p, none)

-----------------------------------------------------------------------------------------
-- Silence
-----------------------------------------------------------------------------------------

/-- `peer_should_send_keepalive`; `lastUpdate` is the socket's `last_download_rate_update`, with
which the difference of the clock is compared as a `uint64_t`.
-/
def shouldSendKeepalive (p : Peer) (lastUpdate now : Int) : Bool :=
  p.socket.isSome
  ∧ p.status = .handshakeComplete
  ∧ u64OfInt lastUpdate < u64OfInt (now - 60 * 1000 * 2)

/-- `peer_send_keepalive`. -/
def sendKeepalive (p : Peer) : Except Fault (Peer × Exit) :=
  (p.write (be32 0)).bind fun (p, result) => .ok (p, if result = 4 then .success else .failure)

/-- `peer_should_timeout`. -/
def shouldTimeout (p : Peer) (lastUpdate now : Int) : Bool :=
  p.socket.isSome
  ∧ if p.status = .handshakeComplete then
      u64OfInt lastUpdate < u64OfInt (now - 60 * 1000 * 2 + 500)
    else u64OfInt lastUpdate < u64OfInt (now - 10 * 1000)

end Peer

end UvgTorrent

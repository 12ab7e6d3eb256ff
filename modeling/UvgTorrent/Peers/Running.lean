import UvgTorrent.Peers.MessageReading
import UvgTorrent.Peers.Messages

/-! `peer_run`: the connection and the handshake, the messages that a peer is sent, one message that
it sends, and the network buffers again.
-/

namespace UvgTorrent

open Foundations

/-- What one `peer_run` meets behind the handshake. `lastUpdate` is the socket's
`last_download_rate_update` where the silence of the peer is judged.
-/
structure RunOutcome where
  connection : ConnectionOutcome
  stack : Stack
  metadataClock : Nat → Int
  claimClock : Nat → Int
  reads : Nat → Nat → ReadOutcome
  steps : Nat
  lastUpdate : Int
  now : Int
  network : NetworkOutcome

/-- A message that tells a peer of pieces. -/
inductive Advert where
  | pieceHave (pieceId : Int)
  | bitfield (field : Bitfield)

/-- Whether a message tells of a piece; the id of a HAVE message has 32 bits. -/
def Advert.names (piece : Nat) : Advert → Bool
  | pieceHave pieceId => u32 (u64OfInt pieceId) = piece
  | bitfield field => field.bit piece

/-- What `peer_run` leaves: the structs, the queue that took the message, and the messages on pieces
that were written. The source does not keep the last.
-/
structure RunResult where
  peer : Peer
  torrentMetadata : TorrentData
  torrentData : TorrentData
  queued : Option (MainQueue × Bytes)
  adverts : List Advert

namespace Peer

/-- The part of `peer_run` for HAVE and BITFIELD messages. -/
def runAdverts (p : Peer) (td : TorrentData) (stack : Stack)
    : Except Fault (Peer × List Advert) :=
  (if p.shouldSendMsgHave then p.sendMsgHave td stack else .ok (p, [])).bind fun (p, sent) =>
    if p.shouldSendMsgBitfield td then
      (p.sendMsgBitfield td stack).bind fun (p, field) =>
        .ok (p, sent.map .pieceHave ++ field.toList.map .bitfield)
    else .ok (p, sent.map .pieceHave)

/-- The part of `peer_run` that asks for metadata and data. -/
def runRequests (p : Peer) (torrentMetadata torrentData : TorrentData) (outcome : RunOutcome)
    : Except Fault (Peer × TorrentData × TorrentData) :=
  (if p.shouldSendUtMetadataRequest torrentMetadata then
    (p.sendUtMetadataRequest torrentMetadata outcome.metadataClock).bind
      fun (p, torrentMetadata, _) => .ok (p, torrentMetadata)
  else .ok (p, torrentMetadata)).bind fun (p, torrentMetadata) =>
    if p.shouldSendMsgRequest torrentData then
      (p.sendMsgRequest torrentData outcome.stack outcome.claimClock).bind
        fun (p, torrentData, _) => .ok (p, torrentMetadata, torrentData)
    else .ok (p, torrentMetadata, torrentData)

/-- The part of `peer_run` that follows the upload slots. -/
def runChoking (p : Peer) : Except Fault Peer :=
  if p.status = .handshakeComplete then
    if p.uploader ∧ p.amChoking then p.sendMsgUnchoke.bind fun (p, _) => .ok p
    else if ¬ p.uploader ∧ ¬ p.amChoking then p.sendMsgChoke.bind fun (p, _) => .ok p
    else .ok p
  else .ok p

/-- The dispatch of `peer_run` on the id of a message. -/
def handleMessage (beDecode : BeDecode) (p : Peer) (torrentMetadata torrentData : TorrentData)
    (disk : Disk) (message : Message) (outcome : RunOutcome)
    : Except Fault (Peer × Option MainQueue) :=
  match message.bytes[4]?.map UInt8.toNat with
  | some 0 => .ok ({ p with peerChoking := true }, none)
  | some 1 => .ok ({ p with peerChoking := false }, none)
  | some 2 => .ok ({ p with peerInterested := true }, none)
  | some 3 => .ok ({ p with peerInterested := false }, none)
  | some 4 => (p.handleMsgHave torrentData message outcome.stack).bind fun p => .ok (p, none)
  | some 5 => (p.handleMsgBitfield torrentData message outcome.stack).bind fun p => .ok (p, none)
  | some 6 =>
      (p.handleMsgRequest torrentData disk message outcome.reads outcome.stack outcome.steps).bind
        fun (p, _) => .ok (p, none)
  | some 7 => .ok (p.handleMsgPiece, some .data)
  | some 20 =>
      p.handleMsgExtension beDecode torrentMetadata disk message outcome.reads outcome.stack
        outcome.steps outcome.now
  | _ => .ok (p, none)

/-- The part of `peer_run` that reads a message. -/
def runMessage (beDecode : BeDecode) (p : Peer) (torrentMetadata torrentData : TorrentData)
    (disk : Disk) (outcome : RunOutcome)
    : Except Fault (Peer × Option (MainQueue × Bytes)) :=
  if p.shouldReadMessage then
    match p.readMessage outcome.now with
    | (p, none) => .ok (p, none)
    | (p, some bytes) =>
        -- a message that was read is framed, see `readMessage_framed`
        if framed : bytes.length = 4 + ofBe32 (bytes.take 4) then
          (p.handleMessage beDecode torrentMetadata torrentData disk ⟨bytes, framed⟩ outcome).bind
            fun (p, queue) => .ok (p, queue.map fun queue => (queue, bytes))
        else .error .messageBounds
  else .ok (p, none)

/-- The part of `peer_run` for a silent peer. -/
def runSilence (p : Peer) (lastUpdate now : Int) : Except Fault Peer :=
  (if p.shouldSendKeepalive lastUpdate now then p.sendKeepalive.bind fun (p, _) => .ok p
  else .ok p).bind fun p =>
    .ok (if p.shouldTimeout lastUpdate now then p.disconnect now else p)

/-- The part of `peer_run` behind the messages on pieces. -/
def runMessages (beDecode : BeDecode) (p : Peer) (torrentMetadata torrentData : TorrentData)
    (disk : Disk) (outcome : RunOutcome)
    : Except Fault RunResult :=
  (p.runRequests torrentMetadata torrentData outcome).bind
    fun (p, torrentMetadata, torrentData) =>
      p.runChoking.bind fun p =>
        (p.runMessage beDecode torrentMetadata torrentData disk outcome).bind fun (p, queued) =>
          (p.runSilence outcome.lastUpdate outcome.now).bind fun p =>
            (p.runNetworkBuffers outcome.network outcome.now).bind fun (p, _) =>
              .ok
                {
                  peer := { p with running := false }
                  torrentMetadata
                  torrentData
                  queued
                  adverts := []
                }

/-- `peer_run`. -/
def run (beDecode : BeDecode) (p : Peer) (infoHash : InfoHash)
    (torrentMetadata torrentData : TorrentData) (disk : Disk) (outcome : RunOutcome)
    : Except Fault RunResult :=
  (p.runHandshake infoHash torrentMetadata.dataSize outcome.connection).bind fun
    | (p, .failure) =>
        .ok
          {
            peer := { p with running := false }
            torrentMetadata
            torrentData
            queued := none
            adverts := []
          }
    | (p, .success) =>
        (p.runAdverts torrentData outcome.stack).bind fun (p, adverts) =>
          (p.runMessages beDecode torrentMetadata torrentData disk outcome).bind fun result =>
            .ok { result with adverts }

end Peer

end UvgTorrent

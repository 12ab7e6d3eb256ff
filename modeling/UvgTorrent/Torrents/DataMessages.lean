import UvgTorrent.Peers.State
import UvgTorrent.TorrentData.ChunkWriting

/-! REQUEST and PIECE messages, and `torrent_process_data_chunk` of `torrent.c`: the block of a
PIECE message is written by the chunk id that its index and begin give.
-/

namespace UvgTorrent

open Foundations

/-- A buffer that `peer_read_message` returns: it is as long as its length field says. -/
structure Message where
  bytes : Bytes
  framed : bytes.length = 4 + ofBe32 (bytes.take 4)

namespace Message

/-- `index`, the first field behind the message id. -/
def index (message : Message) : Nat := ofBe32 (slice message.bytes 5 4)

/-- `begin`, the second field. -/
def begin (message : Message) : Nat := ofBe32 (slice message.bytes 9 4)

/-- The bytes from `block` on, of a `struct PEER_MSG_PIECE`. -/
def block (message : Message) : Bytes := message.bytes.drop 13

end Message

/-- `struct Torrent`, as far as the processing of messages uses it. A peer is found in the map by
the address strings of the list `peer_ips`.
-/
structure Torrent where
  torrentMetadata : TorrentData
  torrentData : TorrentData
  peers : HashMap Peer
  peerIps : List CString

namespace TorrentData

/-- The chunk id that `torrent_process_data_chunk` recovers from a message. The index is an `int`
for `torrent_data_get_piece_info`, and the quotient a `uint32_t` and then an `int`.
-/
def chunkIdOf (td : TorrentData) (index begin : Nat) (stack : Stack) : Except Fault Int :=
  let pieceInfo := (td.getPieceInfo (wrap32 index) stack.pieceInfo).2
  let chunkOffset := u64 (pieceInfo.pieceOffset + begin)
  if td.chunkSize = 0 then .error .divisionByZero
  else .ok (wrap32 (u32 (chunkOffset / td.chunkSize) : Nat))

/-- `torrent_process_data_chunk`, up to the return of `torrent_data_write_chunk`. -/
def processPiece (sha1 : Bytes → Digest) (td : TorrentData) (disk : Disk) (message : Message)
    (env : WriteEnv)
    : Except Fault WriteResult :=
  if message.bytes.length < 13 then .error .messageBounds
  else
    (td.chunkIdOf message.index message.begin env.stack).bind fun chunkId =>
      td.writeChunk sha1 disk chunkId message.block env

end TorrentData

namespace Torrent

/-- The loop of `torrent_process_data_chunk` over the peers: a handshaken peer gets the piece id
in its progress queue.
-/
def queueHave (pieceId : Int) : List CString → HashMap Peer → Except Fault (HashMap Peer)
  | [], peers => .ok peers
  | ip :: rest, peers =>
      match peers.get ip with
      | (none, _) => .error .nullPointer
      | (some p, peers) =>
          let p :=
            if p.status = .handshakeComplete then
              { p with progressQueue := p.progressQueue ++ [pieceId] }
            else p
          queueHave pieceId rest (peers.set ip p).2

/-- `torrent_process_data_chunk`, with the report on the piece that the block completed. The id
that peers are told is the one in the message.
-/
def processDataChunk (sha1 : Bytes → Digest) (t : Torrent) (disk : Disk) (message : Message)
    (env : WriteEnv)
    : Except Fault (Torrent × Disk × Option PieceReport) :=
  (t.torrentData.processPiece sha1 disk message env).bind fun result =>
    match result.exit with
    | .failure => .ok ({ t with torrentData := result.td }, result.disk, result.report)
    | .success =>
        (queueHave (wrap32 message.index) t.peerIps t.peers).bind fun peers =>
          .ok ({ t with torrentData := result.td, peers }, result.disk, result.report)

end Torrent

/-- The REQUEST message of `peer_send_msg_request` for a chunk; every field is cut to 32 bits. -/
def TorrentData.requestMessage (td : TorrentData) (chunkId : Int) (stack : Stack)
    : Except Fault Bytes :=
  (td.getChunkInfo chunkId stack.chunkInfo).bind fun (_, chunkInfo) =>
    let pieceInfo := (td.getPieceInfo chunkInfo.pieceId stack.pieceInfo).2
    .ok
      (be32 13 ++ [6] ++ be32 (u32 (u64OfInt pieceInfo.pieceId))
        ++ be32 (u32 (u64Sub chunkInfo.chunkOffset pieceInfo.pieceOffset))
        ++ be32 (u32 chunkInfo.chunkSize))

/-- The `chunk_length` of a REQUEST message. -/
def requestedLength (request : Bytes) : Nat := ofBe32 (slice request 13 4)

/-- The PIECE message with which `peer_handle_msg_request` answers: the length field is cut to 32
bits, and the index and begin are those of the request.
-/
def pieceMessage (request block : Bytes) : Bytes :=
  be32 (u32 (13 + block.length - 4)) ++ [7] ++ slice request 5 4 ++ slice request 9 4 ++ block

end UvgTorrent

import UvgTorrent.Containers.Bitfields
import UvgTorrent.Sockets.BufferedSockets

/-! `peer.h`, and the connection half of `peer.c` and `peer_connect.c`.
Clock readings are arguments, and flags that are only ever 0 or 1 are Booleans.
-/

namespace UvgTorrent

open Foundations

/-- `enum PeerStatus`. -/
inductive PeerStatus where
  | unconnected
  | connecting
  | connected
  | handshakeSent
  | handshakeComplete
  deriving DecidableEq, Repr

/-- What one `read(2)` of `buffered_socket_network_read` can deliver. -/
structure NetworkSegment where
  bytes : Bytes
  fits : bytes.length ≤ 65535

/-- `struct Peer` without its address. `network_ordered_msg_length` is kept as its four bytes,
and `progress_queue` holds the ids of completed pieces, first to last.
-/
structure Peer where
  socket : Option BufferedSocket
  utMetadata : Int
  utMetadataRequested : Option Bitfield
  utMetadataSize : Int
  running : Bool
  amChoking : Bool
  amInterested : Bool
  peerChoking : Bool
  peerInterested : Bool
  peerBitfield : Option Bitfield
  progressQueue : List Int
  status : PeerStatus
  reconnectDeadline : Int
  networkOrderedMsgLength : Bytes
  networkOrderedMsgLengthLoaded : Bool
  msgId : UInt8
  msgIdLoaded : Bool
  uploader : Bool
  msgBitfieldSent : Bool
  pendingRequestCount : Int

namespace Peer

/-- The end of `peer_read_message`: no part of a message is loaded. -/
def clearMessage (p : Peer) : Peer :=
  {
    p with
    networkOrderedMsgLength := [0, 0, 0, 0]
    networkOrderedMsgLengthLoaded := false
    msgId := 0
    msgIdLoaded := false
  }

/-- `peer_reset`. The bitfields and the progress queue are kept. -/
def reset (p : Peer) (now : Int) : Peer :=
  {
    p with
    utMetadata := 0
    utMetadataSize := 0
    running := false
    amChoking := true
    amInterested := false
    peerChoking := true
    peerInterested := false
    status := .unconnected
    reconnectDeadline := now
    networkOrderedMsgLength := [0, 0, 0, 0]
    networkOrderedMsgLengthLoaded := false
    msgId := 0
    msgIdLoaded := false
    uploader := false
    msgBitfieldSent := false
    pendingRequestCount := 0
  }

/-- `peer_new`. -/
def new (now : Int) : Peer :=
  {
    socket := none
    utMetadata := 0
    utMetadataRequested := none
    utMetadataSize := 0
    running := false
    amChoking := true
    amInterested := false
    peerChoking := true
    peerInterested := false
    peerBitfield := none
    progressQueue := []
    status := .unconnected
    reconnectDeadline := now
    networkOrderedMsgLength := [0, 0, 0, 0]
    networkOrderedMsgLengthLoaded := false
    msgId := 0
    msgIdLoaded := false
    uploader := false
    msgBitfieldSent := false
    pendingRequestCount := 0
  }

/-- `peer_disconnect`: the socket is closed and freed. -/
def disconnect (p : Peer) (now : Int) : Peer :=
  { ({ p with socket := none }.reset now) with reconnectDeadline := now + 30 * 1000 }

/-- `peer_set_socket`. -/
def setSocket (p : Peer) (socket : BufferedSocket) : Peer :=
  { p with socket := some socket, status := .connected }

/-- `buffered_socket_read` on the peer's socket; a `NULL` socket is an error. -/
def read (p : Peer) (dataLength : Nat) : Peer × Nat × Bytes :=
  match p.socket with
  | none => (p, sizeError, [])
  | some socket =>
      let (socket, result, bytes) := socket.read dataLength
      ({ p with socket := some socket }, result, bytes)

/-- `buffered_socket_network_read` on the peer's socket. -/
def networkRead (p : Peer) (received : Option Bytes) : Peer :=
  { p with socket := p.socket.map fun socket => (socket.networkRead received).1 }

/-- `buffered_socket_write` on the peer's socket; a `NULL` socket is an error. -/
def write (p : Peer) (data : Bytes) : Except Fault (Peer × Nat) :=
  match p.socket with
  | none => .ok (p, sizeError)
  | some socket =>
      (socket.write data).bind fun (socket, result) =>
        .ok ({ p with socket := some socket }, result)

/-- `buffered_socket_can_read` on the peer's socket. -/
def canRead (p : Peer) : Bool :=
  match p.socket with
  | none => false
  | some socket => socket.canRead

/-- The bytes received on the current connection that were not read yet. -/
def unread (p : Peer) : Bytes :=
  match p.socket with
  | none => []
  | some socket => socket.readBuffer

end Peer

end UvgTorrent

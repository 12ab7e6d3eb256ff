import UvgTorrent.Bencode.Nodes
import UvgTorrent.Peers.State

/-! The first half of `peer_run`: `peer_connect.c` and the network buffers of `peer.c`.
What the system calls and polls return in one run is an argument.
-/

namespace UvgTorrent

open Foundations

/-- `errno` after a failed system call. -/
inductive Errno where
  | inProgress
  | again
  | wouldBlock
  | already
  | other (code : Nat)
  deriving DecidableEq, Repr

/-- The errors that do not end a connection. -/
def Errno.isHarmless : Errno → Bool
  | .other _ => false
  | _ => true

/-- What `read(2)` does on a readable socket; end of file delivers no bytes. -/
inductive ReceiveOutcome where
  | delivers (segment : NetworkSegment)
  | fails (errno : Errno)

/-- What happens on a socket while its network buffers are handled. `received` is `none` when
the poll finds nothing to read.
-/
structure NetworkOutcome where
  hungUp : Bool
  sends : Nat → SendOutcome
  sendErrno : Errno
  received : Option ReceiveOutcome

/-- The bytes that reach the read buffer. -/
def NetworkOutcome.delivered (outcome : NetworkOutcome) : Bytes :=
  match outcome.received with
  | some (.delivers segment) => segment.bytes
  | _ => []

/-- A torrent's `info_hash_hex`. -/
structure InfoHash where
  bytes : Bytes
  sized : bytes.length = 20

theorem InfoHash.filled_sized (byte : UInt8) : (List.replicate 20 byte).length = 20 :=
  List.length_replicate

/-- An info hash of equal bytes. -/
def InfoHash.filled (byte : UInt8) : InfoHash := ⟨List.replicate 20 byte, filled_sized byte⟩

/-- What one `peer_run` meets up to the end of the handshake: the clock, the descriptor that
`socket(2)` gives, and whether the handshake can be written.
-/
structure ConnectionOutcome where
  now : Int
  descriptor : Int
  network : NetworkOutcome
  canWrite : Bool

/-- `UT_METADATA_ID`. -/
def utMetadataId : Int := 3

namespace Peer

-----------------------------------------------------------------------------------------
-- Connecting and the network buffers
-----------------------------------------------------------------------------------------

/-- `peer_should_connect`. -/
def shouldConnect (p : Peer) (now : Int) : Bool :=
  p.status == .unconnected && p.reconnectDeadline < now

/-- `peer_connect`. `buffered_socket_connect` never returns -1, the only result that counts as a
failure here, so a socket without a descriptor is taken for a connected one.
-/
def connect (p : Peer) (descriptor : Int) : Peer :=
  { p with socket := some { BufferedSocket.new with socket := descriptor }, status := .connected }

/-- `peer_should_handle_network_buffers`. -/
def shouldHandleNetworkBuffers (p : Peer) (outcome : NetworkOutcome) : Bool :=
  match p.socket with
  | none => false
  | some socket =>
      socket.socket ≠ -1
      ∧ (socket.canNetworkWrite
        ∨ outcome.received.isSome
        ∨ p.status ∈ [.connected, .handshakeSent, .handshakeComplete] ∧ outcome.hungUp)

/-- `peer_handle_network_buffers`, when `peer_should_handle_network_buffers` holds. -/
def handleNetworkBuffers (p : Peer) (outcome : NetworkOutcome) (now : Int)
    : Except Fault (Peer × Exit) :=
  match p.socket with
  | none => .error .nullPointer
  | some socket =>
      if outcome.hungUp then .ok (p.disconnect now, .failure)
      else
        (if socket.canNetworkWrite then
          (socket.networkWrite outcome.sends).bind fun (socket, result, _) => .ok (socket, result)
        else .ok (socket, 1)).bind fun (socket, result) =>
          if result = sizeError ∧ ¬ outcome.sendErrno.isHarmless then
            .ok (p.disconnect now, .failure)
          else
            let p := { p with socket := some socket }
            match outcome.received with
            | none => .ok (p, .success)
            | some (.delivers segment) => .ok (p.networkRead (some segment.bytes), .success)
            | some (.fails errno) =>
                if errno.isHarmless then .ok (p, .success) else .ok (p.disconnect now, .failure)

/-- The guarded handling of the network buffers in `peer_run`. -/
def runNetworkBuffers (p : Peer) (outcome : NetworkOutcome) (now : Int)
    : Except Fault (Peer × Exit) :=
  if p.shouldHandleNetworkBuffers outcome then p.handleNetworkBuffers outcome now
  else .ok (p, .success)

-----------------------------------------------------------------------------------------
-- The handshake
-----------------------------------------------------------------------------------------

/-- The `struct PEER_HANDSHAKE` that `peer_send_handshake` fills. -/
def handshakeMessage (infoHash : InfoHash) : Bytes :=
  [19] ++ ascii "BitTorrent protocol" ++ [0, 0, 0, 0, 0, 0x10, 0, 0] ++ infoHash.bytes
    ++ ascii "UVG11234567891234567"

/-- The dictionary of the extended handshake, with `(int) data_size` of the metadata. -/
def extendedHandshake (metadataSize : Nat) : BeNode :=
  .dict
    [(ascii "m", .dict [(ascii "ut_metadata", .num utMetadataId)]),
      (ascii "metadata_size", .num (wrap32 metadataSize))]

/-- A `struct PEER_MSG_EXTENSION` around a message. -/
def extensionMessage (extendedMsgId : UInt8) (message : Bytes) : Bytes :=
  be32 (2 + message.length) ++ [20, extendedMsgId] ++ message

/-- `peer_should_send_handshake`. -/
def shouldSendHandshake (p : Peer) (canWrite : Bool) : Bool :=
  match p.socket with
  | none => false
  | some socket => p.status == .connected && socket.socket ≠ -1 && canWrite

/-- `peer_should_handle_handshake`. -/
def shouldHandleHandshake (p : Peer) : Bool := p.status == .handshakeSent && p.canRead

/-- `peer_send_handshake`. -/
def sendHandshake (p : Peer) (infoHash : InfoHash) : Except Fault (Peer × Exit) :=
  (p.write (handshakeMessage infoHash)).bind fun (p, result) =>
    if result ≠ 68 then .ok (p, .failure) else .ok ({ p with status := .handshakeSent }, .success)

/-- `peer_handle_handshake`: only the first 8 bytes of the info hashes are compared. -/
def handleHandshake (p : Peer) (infoHash : InfoHash) (metadataSize : Nat)
    : Except Fault (Peer × Exit) :=
  let (p, result, received) := p.read 68
  if result ≠ 68 then .ok (p, .failure)
  else if slice received 28 8 ≠ infoHash.bytes.take 8 then .ok (p, .failure)
  else if received[25]? = some 0x10 then
    let message := extensionMessage 0 (extendedHandshake metadataSize).encode
    (p.write message).bind fun (p, written) =>
      if written ≠ message.length then .ok (p, .failure)
      else .ok ({ p with status := .handshakeComplete }, .success)
  else .ok ({ p with status := .handshakeComplete }, .success)

/-- A step of `peer_run` under its guard; a failure disconnects. -/
def runStep (p : Peer) (guard : Bool) (step : Except Fault (Peer × Exit)) (now : Int)
    : Except Fault (Peer × Exit) :=
  if guard then
    step.bind fun
      | (p, .success) => .ok (p, .success)
      | (p, .failure) => .ok (p.disconnect now, .failure)
  else .ok (p, .success)

/-- `peer_run` up to the end of the handshake. On a failure the run is over. -/
def runHandshake (p : Peer) (infoHash : InfoHash) (metadataSize : Nat)
    (outcome : ConnectionOutcome)
    : Except Fault (Peer × Exit) :=
  let p := if p.shouldConnect outcome.now then p.connect outcome.descriptor else p
  (p.runNetworkBuffers outcome.network outcome.now).bind fun
    | (p, .failure) => .ok (p, .failure)
    | (p, .success) =>
        (p.runStep (p.shouldSendHandshake outcome.canWrite) (p.sendHandshake infoHash)
            outcome.now).bind fun
          | (p, .failure) => .ok (p, .failure)
          | (p, .success) =>
              p.runStep p.shouldHandleHandshake (p.handleHandshake infoHash metadataSize)
                outcome.now

end Peer

end UvgTorrent

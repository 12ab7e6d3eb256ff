import UvgTorrent.Foundations.Footprints
import UvgTorrent.Peers.Running

/-! The parts of a peer that each step of `peer_run` changes. A message that is sent changes the
write buffers, one that is read the state of the reader, and only a disconnect changes most of the
rest.
-/

namespace UvgTorrent

open Foundations

namespace BufferedSocket

variable {socket next : BufferedSocket} {result : Nat}

theorem write_socket {data : Bytes} (wrote : socket.write data = .ok (next, result))
    : next.socket = socket.socket := by
  unfold write at wrote
  split at wrote
  · cases wrote
    rfl
  · dsimp only at wrote
    split at wrote
    · cases wrote
      rfl
    · split at wrote
      · cases wrote
      · cases wrote
        rfl

theorem networkWrite_socket {outcomes : Nat → SendOutcome} {sent : Bytes}
    (flushed : socket.networkWrite outcomes = .ok (next, result, sent))
    : next.socket = socket.socket := by
  unfold networkWrite at flushed
  split at flushed
  · cases flushed
    rfl
  · obtain ⟨⟨_, exit, _⟩, _, ended⟩ := bind_eq_ok.mp flushed
    cases exit <;> cases ended <;> rfl

theorem networkRead_socket (socket : BufferedSocket) (received : Option Bytes)
    : (socket.networkRead received).1.socket = socket.socket := by
  unfold networkRead
  split
  · rfl
  · split <;> rfl

theorem read_socket (socket : BufferedSocket) (count : Nat)
    : (socket.read count).1.socket = socket.socket := by
  unfold read
  split
  · rfl
  · split <;> rfl

end BufferedSocket

/-- What a statement of `peer_run` changes. -/
inductive PeerPart where
  /-- the buffers of the socket -/
  | buffers
  /-- a socket from `peer_connect` -/
  | connection
  /-- everything that `peer_disconnect` does -/
  | drop
  /-- the status of the handshake -/
  | handshake
  /-- the message that is being read -/
  | reader
  | amChoking
  | amInterested
  /-- `peer_choking` and `peer_interested` -/
  | remoteFlags
  | progressQueue
  | peerBitfield
  | msgBitfieldSent
  /-- `ut_metadata` and `ut_metadata_size` -/
  | utMetadata
  | utMetadataRequested
  | pendingRequests
  | running
  deriving DecidableEq

namespace Peer

/-- A change of one part. -/
inductive Changes : PeerPart → Peer → Peer → Prop
  | buffers (p : Peer) (socket : Option BufferedSocket)
      (kept : socket.map (·.socket) = p.socket.map (·.socket))
      : Changes .buffers p { p with socket }
  | connection (p : Peer) (descriptor : Int) : Changes .connection p (p.connect descriptor)
  | drop (p : Peer) (now : Int) : Changes .drop p (p.disconnect now)
  | handshake (p : Peer) (status : PeerStatus)
      (greeting : p.status = .connected ∨ p.status = .handshakeSent) (opened : p.takesWrites)
      (later : status = .handshakeSent ∨ status = .handshakeComplete)
      : Changes .handshake p { p with status }
  | reader (p : Peer) (networkOrderedMsgLength : Bytes) (networkOrderedMsgLengthLoaded : Bool)
      (msgId : UInt8) (msgIdLoaded : Bool)
      : Changes .reader p
          {
            p with
            networkOrderedMsgLength
            networkOrderedMsgLengthLoaded
            msgId
            msgIdLoaded
          }
  | amChoking (p : Peer) (amChoking : Bool) : Changes .amChoking p { p with amChoking }
  | amInterested (p : Peer) (amInterested : Bool)
      : Changes .amInterested p { p with amInterested }
  | remoteFlags (p : Peer) (peerChoking peerInterested : Bool)
      : Changes .remoteFlags p { p with peerChoking, peerInterested }
  | progressQueue (p : Peer) (progressQueue : List Int)
      : Changes .progressQueue p { p with progressQueue }
  | peerBitfield (p : Peer) (field : Bitfield)
      : Changes .peerBitfield p { p with peerBitfield := some field }
  | msgBitfieldSent (p : Peer) : Changes .msgBitfieldSent p { p with msgBitfieldSent := true }
  | utMetadata (p : Peer) (utMetadata utMetadataSize : Int)
      : Changes .utMetadata p { p with utMetadata, utMetadataSize }
  | utMetadataRequested (p : Peer) (utMetadataRequested : Option Bitfield)
      : Changes .utMetadataRequested p { p with utMetadataRequested }
  | pendingRequests (p : Peer) (pendingRequestCount : Int)
      : Changes .pendingRequests p { p with pendingRequestCount }
  | running (p : Peer) (running : Bool) : Changes .running p { p with running }

/-- Only the given parts are changed. -/
def Within (parts : List PeerPart) (p next : Peer) : Prop := Foundations.Within Changes parts p next

variable {p next last : Peer} {td : TorrentData} {stack : Stack} {message : Message} {now : Int}
  {parts more : List PeerPart} {exit : Exit}

theorem Within.refl (p : Peer) : Within parts p p := Foundations.Within.refl p

theorem Within.trans (first : Within parts p next) (second : Within parts next last)
    : Within parts p last :=
  Foundations.Within.trans first second

theorem Within.mono (within : Within parts p next) (included : parts ⊆ more)
    : Within more p next :=
  Foundations.Within.mono included within

theorem Changes.within {part : PeerPart} (changed : Changes part p next)
    (member : part ∈ parts)
    : Within parts p next :=
  Foundations.Within.of_change member changed

-----------------------------------------------------------------------------------------
-- Sending
-----------------------------------------------------------------------------------------

theorem write_within {data : Bytes} {result : Nat} (wrote : p.write data = .ok (next, result))
    : Within [.buffers] p next := by
  unfold write at wrote
  split at wrote
  · cases wrote
    exact .refl p
  · rename_i socket opened
    obtain ⟨⟨socket', written⟩, socketWrote, same⟩ := bind_eq_ok.mp wrote
    cases same
    refine (Changes.buffers p (some socket') ?_).within (by simp)
    rw [opened, Option.map_some, Option.map_some, BufferedSocket.write_socket socketWrote]

theorem read_within (p : Peer) (count : Nat) : Within [.buffers] p (p.read count).1 := by
  unfold read
  split
  · exact .refl p
  · rename_i socket opened
    refine (Changes.buffers p (some (socket.read count).1) ?_).within (by simp)
    rw [opened, Option.map_some, Option.map_some, BufferedSocket.read_socket]

theorem sendBasic_within {msgId : UInt8} (sent : p.sendBasic msgId = .ok (next, exit))
    : Within [.buffers] p next := by
  obtain ⟨⟨_, _⟩, wrote, same⟩ := bind_eq_ok.mp sent
  cases same
  exact write_within wrote

theorem updateInterested_within (updated : p.updateInterested td stack = .ok next)
    : Within [.amInterested, .buffers] p next := by
  unfold updateInterested at updated
  split at updated
  · cases updated
    exact .refl p
  · obtain ⟨interesting, _, updated⟩ := bind_eq_ok.mp updated
    split at updated
    · obtain ⟨⟨_, _⟩, sent, same⟩ := bind_eq_ok.mp updated
      cases same
      exact ((Changes.amInterested p true).within (by simp)).trans
        ((sendBasic_within sent).mono (by simp))
    · split at updated
      · obtain ⟨⟨_, _⟩, sent, same⟩ := bind_eq_ok.mp updated
        cases same
        exact ((Changes.amInterested p false).within (by simp)).trans
          ((sendBasic_within sent).mono (by simp))
      · cases updated
        exact .refl p

theorem sendHaves_within {queue sent : List Int}
    (sends : sendHaves queue p = .ok (next, exit, sent))
    : Within [.progressQueue, .buffers] p next := by
  induction queue generalizing p sent with
  | nil =>
      cases sends
      exact .refl _
  | cons pieceId rest ih =>
      obtain ⟨⟨written, result⟩, wrote, sends⟩ := bind_eq_ok.mp sends
      have kept : Within [.progressQueue, .buffers] p written :=
        ((Changes.progressQueue p rest).within (by simp)).trans
          ((write_within wrote).mono (by simp))
      dsimp only at sends
      split at sends
      · cases sends
        exact kept
      · obtain ⟨⟨_, _, _⟩, later, same⟩ := bind_eq_ok.mp sends
        cases same
        exact kept.trans (ih later)

theorem sendMsgHave_within {sent : List Int} (sends : p.sendMsgHave td stack = .ok (next, sent))
    : Within [.progressQueue, .buffers, .amInterested] p next := by
  obtain ⟨⟨drained, exit, ids⟩, queue, sends⟩ := bind_eq_ok.mp sends
  have drains := (sendHaves_within queue).mono
    (show _ ⊆ [.progressQueue, .buffers, .amInterested] by simp)
  cases exit with
  | failure =>
      cases sends
      exact drains
  | success =>
      obtain ⟨_, updates, same⟩ := bind_eq_ok.mp sends
      cases same
      exact drains.trans ((updateInterested_within updates).mono (by simp))

theorem resizeBitfield_within {blank : Bitfield} (resized : p.resizeBitfield blank = .ok next)
    : Within [.peerBitfield] p next := by
  unfold resizeBitfield at resized
  split at resized
  · cases resized
    exact .refl p
  · split at resized
    · obtain ⟨field, _, same⟩ := bind_eq_ok.mp resized
      cases same
      exact (Changes.peerBitfield p field).within (by simp)
    · cases resized
      exact .refl p

theorem sendMsgBitfield_within {sent : Option Bitfield}
    (sends : p.sendMsgBitfield td stack = .ok (next, sent))
    : Within [.msgBitfieldSent, .peerBitfield, .buffers] p next := by
  unfold sendMsgBitfield at sends
  split at sends
  · cases sends
  · obtain ⟨resized, resizing, sends⟩ := bind_eq_ok.mp sends
    obtain ⟨_, _, sends⟩ := bind_eq_ok.mp sends
    obtain ⟨⟨_, _⟩, wrote, same⟩ := bind_eq_ok.mp sends
    cases same
    have flagged := (Changes.msgBitfieldSent p).within
      (show _ ∈ [PeerPart.msgBitfieldSent, .peerBitfield, .buffers] by simp)
    exact (flagged.trans ((resizeBitfield_within resizing).mono (by simp))).trans
      ((write_within wrote).mono (by simp))

theorem sendUtMetadataRequest_within {torrentMetadata after : TorrentData} {clock : Nat → Int}
    (sent : p.sendUtMetadataRequest torrentMetadata clock = .ok (next, after, exit))
    : Within [.utMetadataRequested, .buffers] p next := by
  obtain ⟨prepared, prepares, sent⟩ := bind_eq_ok.mp sent
  have first : Within [.utMetadataRequested, .buffers] p prepared := by
    unfold prepareRequested at prepares
    split at prepares
    · cases prepares
      exact .refl p
    · obtain ⟨requested, _, same⟩ := bind_eq_ok.mp prepares
      cases same
      exact (Changes.utMetadataRequested p _).within (by simp)
  refine first.trans ?_
  obtain ⟨initialised, _, sent⟩ := bind_eq_ok.mp sent
  dsimp only at sent
  split at sent
  · split at sent
    · cases sent
      exact .refl _
    · cases sent
  · obtain ⟨⟨_, _, chunks⟩, _, sent⟩ := bind_eq_ok.mp sent
    split at sent
    · obtain ⟨⟨_, _⟩, wrote, same⟩ := bind_eq_ok.mp sent
      cases same
      exact ((Changes.utMetadataRequested _ _).within (by simp)).trans
        ((write_within wrote).mono (by simp))
    · cases sent
      exact .refl _

theorem sendRequests_within {chunks : List (Option Nat)}
    (sent : sendRequests td stack chunks p = .ok (next, exit))
    : Within [.pendingRequests, .buffers] p next := by
  induction chunks generalizing p with
  | nil =>
      cases sent
      exact .refl _
  | cons chunk rest ih =>
      cases chunk with
      | none =>
          cases sent
          exact .refl _
      | some chunk =>
          obtain ⟨request, _, sent⟩ := bind_eq_ok.mp sent
          obtain ⟨⟨written, result⟩, wrote, sent⟩ := bind_eq_ok.mp sent
          have writes := (write_within wrote).mono
            (show _ ⊆ [PeerPart.pendingRequests, .buffers] by simp)
          dsimp only at sent
          split at sent
          · cases sent
            exact writes
          · exact (writes.trans ((Changes.pendingRequests written _).within (by simp))).trans
              (ih sent)

theorem sendMsgRequest_within {clock : Nat → Int} {after : TorrentData}
    (sent : p.sendMsgRequest td stack clock = .ok (next, after, exit))
    : Within [.pendingRequests, .buffers] p next := by
  unfold sendMsgRequest at sent
  split at sent
  · cases sent
  · obtain ⟨interested, _, sent⟩ := bind_eq_ok.mp sent
    split at sent
    · obtain ⟨⟨claimed, claimExit, chunks⟩, claims, sent⟩ := bind_eq_ok.mp sent
      cases claimExit with
      | failure =>
          cases sent
          exact .refl p
      | success =>
          obtain ⟨⟨_, _⟩, requested, same⟩ := bind_eq_ok.mp sent
          cases same
          exact sendRequests_within requested
    · cases sent
      exact .refl p

theorem runChoking_within (ran : p.runChoking = .ok next)
    : Within [.amChoking, .buffers] p next := by
  unfold runChoking at ran
  split at ran
  · split at ran
    · obtain ⟨⟨_, _⟩, sent, same⟩ := bind_eq_ok.mp ran
      cases same
      exact ((Changes.amChoking p false).within (by simp)).trans
        ((sendBasic_within sent).mono (by simp))
    · split at ran
      · obtain ⟨⟨_, _⟩, sent, same⟩ := bind_eq_ok.mp ran
        cases same
        exact ((Changes.amChoking p true).within (by simp)).trans
          ((sendBasic_within sent).mono (by simp))
      · cases ran
        exact .refl _
  · cases ran
    exact .refl _

-----------------------------------------------------------------------------------------
-- Handling messages
-----------------------------------------------------------------------------------------

theorem handleMsgHave_within (handled : p.handleMsgHave td message stack = .ok next)
    : Within [.peerBitfield, .amInterested, .buffers] p next := by
  unfold handleMsgHave at handled
  split at handled
  · cases handled
  · split at handled
    · cases handled
    · exact ((Changes.peerBitfield p _).within (by simp)).trans
        ((updateInterested_within handled).mono (by simp))

theorem handleMsgBitfield_within (handled : p.handleMsgBitfield td message stack = .ok next)
    : Within [.peerBitfield, .amInterested, .buffers] p next := by
  unfold handleMsgBitfield at handled
  dsimp only at handled
  split at handled
  · cases handled
  · obtain ⟨field, _, handled⟩ := bind_eq_ok.mp handled
    exact ((Changes.peerBitfield p field).within (by simp)).trans
      ((updateInterested_within handled).mono (by simp))

theorem handleMsgRequest_within {disk : Disk} {io : Nat → Nat → ReadOutcome} {steps : Nat}
    {written : Option Bytes}
    (handled : p.handleMsgRequest td disk message io stack steps = .ok (next, written))
    : Within [.buffers] p next := by
  unfold handleMsgRequest at handled
  split at handled
  · cases handled
  · obtain ⟨⟨_, _⟩, _, handled⟩ := bind_eq_ok.mp handled
    obtain ⟨⟨_, _⟩, wrote, same⟩ := bind_eq_ok.mp handled
    cases same
    exact write_within wrote

theorem handleUtMetadataRequest_within {chunkId : Int} {disk : Disk}
    {reads : Nat → Nat → ReadOutcome} {steps : Nat}
    (handled : p.handleUtMetadataRequest chunkId td disk reads stack steps = .ok next)
    : Within [.buffers] p next := by
  unfold handleUtMetadataRequest at handled
  split at handled
  · obtain ⟨⟨_, _⟩, _, handled⟩ := bind_eq_ok.mp handled
    dsimp only at handled
    split at handled
    · cases handled
    · obtain ⟨⟨_, _⟩, _, handled⟩ := bind_eq_ok.mp handled
      obtain ⟨⟨_, _⟩, wrote, same⟩ := bind_eq_ok.mp handled
      cases same
      exact write_within wrote
  · cases handled
    exact .refl p

theorem handleExtendedHandshake_within (p : Peer) (decoded : Option BeNode) (now : Int)
    : Within [.utMetadata, .drop] p (p.handleExtendedHandshake decoded now) := by
  unfold handleExtendedHandshake handleUtMetadataHandshake
  cases decoded with
  | none => exact (Changes.drop p now).within (by simp)
  | some d =>
      dsimp only
      cases d.dictLookup (ascii "m") with
      | none => exact (Changes.drop p now).within (by simp)
      | some m => exact (Changes.utMetadata p _ _).within (by simp)

theorem handleMsgExtension_within {beDecode : BeDecode} {disk : Disk}
    {reads : Nat → Nat → ReadOutcome} {steps : Nat} {queue : Option MainQueue}
    (handled
      : p.handleMsgExtension beDecode td disk message reads stack steps now = .ok (next, queue))
    : Within [.utMetadata, .buffers, .drop] p next := by
  unfold handleMsgExtension at handled
  split at handled
  · cases handled
  dsimp only at handled
  split at handled
  · cases handled
    exact (handleExtendedHandshake_within ..).mono (by simp)
  split at handled
  · split at handled
    · cases handled
      exact (Changes.drop p now).within (by simp)
    · split at handled
      · obtain ⟨_, answered, same⟩ := bind_eq_ok.mp handled
        cases same
        exact (handleUtMetadataRequest_within answered).mono (by simp)
      split at handled
      · cases handled
        exact .refl p
      split at handled
      · cases handled
        exact (Changes.utMetadata p 0 p.utMetadataSize).within (by simp)
      · cases handled
        exact .refl p
  · cases handled
    exact .refl p

/-- Only HAVE and BITFIELD messages change the bitfield of the peer and our interest, and only PIECE
messages the count of requests.
-/
theorem handleMessage_within {beDecode : BeDecode} {torrentMetadata : TorrentData} {disk : Disk}
    {outcome : RunOutcome} {queue : Option MainQueue}
    (handled
      : p.handleMessage beDecode torrentMetadata td disk message outcome = .ok (next, queue))
    : Within [.remoteFlags, .utMetadata, .buffers, .drop] p next
      ∨ p.handleMsgHave td message outcome.stack = .ok next
      ∨ p.handleMsgBitfield td message outcome.stack = .ok next
      ∨ message.bytes[4]?.map UInt8.toNat = some 7 ∧ next = p.handleMsgPiece := by
  unfold handleMessage at handled
  split at handled
  case h_1 | h_2 | h_3 | h_4 =>
    cases handled
    exact .inl ((Changes.remoteFlags p _ _).within (by simp))
  case h_5 =>
    obtain ⟨_, answered, same⟩ := bind_eq_ok.mp handled
    cases same
    exact .inr (.inl answered)
  case h_6 =>
    obtain ⟨_, answered, same⟩ := bind_eq_ok.mp handled
    cases same
    exact .inr (.inr (.inl answered))
  case h_7 =>
    obtain ⟨⟨_, _⟩, answered, same⟩ := bind_eq_ok.mp handled
    cases same
    exact .inl ((handleMsgRequest_within answered).mono (by simp))
  case h_8 =>
    rename_i piece
    cases handled
    exact .inr (.inr (.inr ⟨piece, rfl⟩))
  case h_9 => exact .inl ((handleMsgExtension_within handled).mono (by simp))
  case h_10 =>
    cases handled
    exact .inl (.refl p)

/-- The parts that the handlers of messages change. -/
def handlerParts : List PeerPart :=
  [.remoteFlags, .pendingRequests, .utMetadata, .peerBitfield, .amInterested, .buffers, .drop]

theorem handleMessage_parts {beDecode : BeDecode} {torrentMetadata : TorrentData} {disk : Disk}
    {outcome : RunOutcome} {queue : Option MainQueue}
    (handled
      : p.handleMessage beDecode torrentMetadata td disk message outcome = .ok (next, queue))
    : Within handlerParts p next := by
  rcases handleMessage_within handled with other | told | told | ⟨-, rfl⟩
  · exact other.mono (by simp [handlerParts])
  · exact (handleMsgHave_within told).mono (by simp [handlerParts])
  · exact (handleMsgBitfield_within told).mono (by simp [handlerParts])
  · exact (Changes.pendingRequests p _).within (by simp [handlerParts])

-----------------------------------------------------------------------------------------
-- Reading a message
-----------------------------------------------------------------------------------------

theorem loadLength_within (p : Peer) (now : Int)
    : Within [.reader, .buffers, .drop] p (p.loadLength now).2
      ∧ ((p.loadLength now).1 = true → Within [.reader, .buffers] p (p.loadLength now).2) := by
  have reads := read_within p 4
  unfold loadLength
  split
  · exact ⟨.refl p, fun _ => .refl p⟩
  · dsimp only
    split
    · have loaded : Within [.reader, .buffers] p _ := (reads.mono (by simp)).trans
        ((Changes.reader (p.read 4).1 (p.read 4).2.2 true (p.read 4).1.msgId
          (p.read 4).1.msgIdLoaded).within (by simp))
      exact ⟨loaded.mono (by simp), fun _ => loaded⟩
    · split
      · exact ⟨(reads.mono (by simp)).trans ((Changes.drop _ now).within (by simp)), nofun⟩
      · exact ⟨reads.mono (by simp), nofun⟩

theorem loadMsgId_within (p : Peer) (now : Int)
    : Within [.reader, .buffers, .drop] p (p.loadMsgId now).2
      ∧ ((p.loadMsgId now).1 = true → Within [.reader, .buffers] p (p.loadMsgId now).2) := by
  have reads := read_within p 1
  unfold loadMsgId
  split
  · exact ⟨.refl p, fun _ => .refl p⟩
  · dsimp only
    split
    · have loaded : Within [.reader, .buffers] p _ := (reads.mono (by simp)).trans
        ((Changes.reader (p.read 1).1 (p.read 1).1.networkOrderedMsgLength
          (p.read 1).1.networkOrderedMsgLengthLoaded ((p.read 1).2.2.headD 0) true).within
            (by simp))
      exact ⟨loaded.mono (by simp), fun _ => loaded⟩
    · split
      · exact ⟨(reads.mono (by simp)).trans ((Changes.drop _ now).within (by simp)), nofun⟩
      · exact ⟨reads.mono (by simp), nofun⟩

theorem clearMessage_within (p : Peer) : Within [.reader, .buffers] p p.clearMessage :=
  (Changes.reader p [0, 0, 0, 0] false 0 false).within (by simp)

theorem loadPayload_within (p : Peer) (now : Int)
    : Within [.reader, .buffers, .drop] p (p.loadPayload now).1
      ∧ ((p.loadPayload now).2.isSome → Within [.reader, .buffers] p (p.loadPayload now).1) := by
  unfold loadPayload
  split
  · exact ⟨(Changes.drop p now).within (by simp), nofun⟩
  dsimp only
  split
  · exact ⟨.refl p, nofun⟩
  split
  · have reads := read_within p (4 + ofBe32 p.networkOrderedMsgLength - 5)
    split
    · exact ⟨(reads.mono (by simp)).trans ((Changes.drop _ now).within (by simp)), nofun⟩
    · split
      · exact ⟨reads.mono (by simp), nofun⟩
      · have cleared : Within [.reader, .buffers] p _ :=
          (reads.mono (by simp)).trans (clearMessage_within _)
        exact ⟨cleared.mono (by simp), fun _ => cleared⟩
  · exact ⟨(clearMessage_within p).mono (by simp), fun _ => clearMessage_within p⟩

/-- A message that is read leaves the connection as it was. -/
theorem readMessage_within (p : Peer) (now : Int)
    : Within [.reader, .buffers, .drop] p (p.readMessage now).1
      ∧ ((p.readMessage now).2.isSome → Within [.reader, .buffers] p (p.readMessage now).1) := by
  obtain ⟨firstEffect, firstSame⟩ := loadLength_within p now
  unfold readMessage
  cases length : p.loadLength now with
  | mk goesOn next =>
      rw [length] at firstEffect firstSame
      cases goesOn with
      | false => exact ⟨firstEffect, nofun⟩
      | true =>
          obtain ⟨secondEffect, secondSame⟩ := loadMsgId_within next now
          dsimp only
          cases identified : next.loadMsgId now with
          | mk goesOn last =>
              rw [identified] at secondEffect secondSame
              have both := firstEffect.trans secondEffect
              cases goesOn with
              | false => exact ⟨both, nofun⟩
              | true =>
                  obtain ⟨effect, same⟩ := loadPayload_within last now
                  refine ⟨both.trans effect, fun returned => ?_⟩
                  exact ((firstSame rfl).trans (secondSame rfl)).trans (same returned)

-----------------------------------------------------------------------------------------
-- The network
-----------------------------------------------------------------------------------------

theorem networkRead_within (p : Peer) (received : Option Bytes)
    : Within [.buffers] p (p.networkRead received) := by
  refine (Changes.buffers p _ ?_).within (by simp)
  simp only [Option.map_map, Function.comp_def, BufferedSocket.networkRead_socket]

theorem runNetworkBuffers_within {outcome : NetworkOutcome}
    (ran : p.runNetworkBuffers outcome now = .ok (next, exit))
    : Within [.buffers, .drop] p next ∧ (exit = .failure → next.status = .unconnected) := by
  unfold runNetworkBuffers at ran
  split at ran
  · unfold handleNetworkBuffers at ran
    split at ran
    · cases ran
    rename_i socket opened
    split at ran
    · cases ran
      exact ⟨(Changes.drop p now).within (by simp), fun _ => rfl⟩
    obtain ⟨⟨flushed, result⟩, flushing, ran⟩ := bind_eq_ok.mp ran
    dsimp only at ran
    split at ran
    · cases ran
      exact ⟨(Changes.drop p now).within (by simp), fun _ => rfl⟩
    have kept : Within [.buffers, .drop] p { p with socket := some flushed } := by
      refine (Changes.buffers p (some flushed) ?_).within (by simp)
      rw [opened, Option.map_some, Option.map_some]
      split at flushing
      · obtain ⟨⟨_, _, _⟩, wrote, same⟩ := bind_eq_ok.mp flushing
        cases same
        rw [BufferedSocket.networkWrite_socket wrote]
      · cases flushing
        rfl
    split at ran
    · cases ran
      exact ⟨kept, nofun⟩
    · cases ran
      exact ⟨kept.trans ((networkRead_within ..).mono (by simp)), nofun⟩
    · split at ran
      · cases ran
        exact ⟨kept, nofun⟩
      · cases ran
        exact ⟨kept.trans ((Changes.drop _ now).within (by simp)), fun _ => rfl⟩
  · cases ran
    exact ⟨.refl p, nofun⟩

theorem runSilence_within {lastUpdate : Int} (ran : p.runSilence lastUpdate now = .ok next)
    : Within [.buffers, .drop] p next := by
  obtain ⟨kept, keeping, same⟩ := bind_eq_ok.mp ran
  have waits : Within [.buffers, .drop] p kept := by
    split at keeping
    · obtain ⟨⟨_, _⟩, sent, same⟩ := bind_eq_ok.mp keeping
      cases same
      obtain ⟨⟨_, _⟩, wrote, same⟩ := bind_eq_ok.mp sent
      cases same
      exact (write_within wrote).mono (by simp)
    · cases keeping
      exact .refl _
  obtain rfl := Except.ok.inj same
  split
  · exact waits.trans ((Changes.drop _ now).within (by simp))
  · exact waits

-----------------------------------------------------------------------------------------
-- The parts of `peer_run`
-----------------------------------------------------------------------------------------

theorem runAdverts_within {adverts : List Advert}
    (ran : p.runAdverts td stack = .ok (next, adverts))
    : Within [.progressQueue, .amInterested, .msgBitfieldSent, .peerBitfield, .buffers] p next := by
  obtain ⟨⟨told, sent⟩, telling, ran⟩ := bind_eq_ok.mp ran
  have kept : Within [.progressQueue, .amInterested, .msgBitfieldSent, .peerBitfield, .buffers] p
      told := by
    split at telling
    · exact (sendMsgHave_within telling).mono (by simp)
    · cases telling
      exact .refl p
  dsimp only at ran
  split at ran
  · obtain ⟨⟨_, _⟩, sends, same⟩ := bind_eq_ok.mp ran
    cases same
    exact kept.trans ((sendMsgBitfield_within sends).mono (by simp))
  · cases ran
    exact kept

theorem runRequests_within {torrentMetadata after afterMetadata : TorrentData}
    {outcome : RunOutcome}
    (ran : p.runRequests torrentMetadata td outcome = .ok (next, afterMetadata, after))
    : Within [.utMetadataRequested, .pendingRequests, .buffers] p next := by
  obtain ⟨⟨asked, metadata⟩, asking, ran⟩ := bind_eq_ok.mp ran
  have kept : Within [.utMetadataRequested, .pendingRequests, .buffers] p asked := by
    split at asking
    · obtain ⟨⟨_, _, _⟩, sent, same⟩ := bind_eq_ok.mp asking
      cases same
      exact (sendUtMetadataRequest_within sent).mono (by simp)
    · cases asking
      exact .refl p
  dsimp only at ran
  split at ran
  · obtain ⟨⟨_, _, _⟩, sent, same⟩ := bind_eq_ok.mp ran
    cases same
    exact kept.trans ((sendMsgRequest_within sent).mono (by simp))
  · cases ran
    exact kept

theorem runMessage_within {beDecode : BeDecode} {torrentMetadata : TorrentData} {disk : Disk}
    {outcome : RunOutcome} {queued : Option (MainQueue × Bytes)}
    (ran : p.runMessage beDecode torrentMetadata td disk outcome = .ok (next, queued))
    : Within (.reader :: handlerParts) p next := by
  unfold runMessage at ran
  split at ran
  · have reads := (readMessage_within p outcome.now).1.mono
      (show _ ⊆ .reader :: handlerParts by simp [handlerParts])
    split at ran
    · rename_i read
      rw [read] at reads
      cases ran
      exact reads
    · rename_i read
      rw [read] at reads
      split at ran
      · obtain ⟨⟨_, _⟩, handled, same⟩ := bind_eq_ok.mp ran
        cases same
        exact reads.trans ((handleMessage_parts handled).mono (by simp))
      · cases ran
  · cases ran
    exact .refl p

/-- Behind the messages on pieces, neither the queue nor the BITFIELD flag changes. -/
theorem runMessages_within {beDecode : BeDecode} {torrentMetadata : TorrentData} {disk : Disk}
    {outcome : RunOutcome} {result : RunResult}
    (ran : p.runMessages beDecode torrentMetadata td disk outcome = .ok result)
    : Within (.reader :: .amChoking :: .utMetadataRequested :: .running :: handlerParts) p
        result.peer := by
  obtain ⟨⟨asked, metadata, after⟩, asking, ran⟩ := bind_eq_ok.mp ran
  obtain ⟨choked, choking, ran⟩ := bind_eq_ok.mp ran
  obtain ⟨⟨read, queued⟩, reading, ran⟩ := bind_eq_ok.mp ran
  obtain ⟨waited, waiting, ran⟩ := bind_eq_ok.mp ran
  obtain ⟨⟨flushed, exit⟩, flushing, ran⟩ := bind_eq_ok.mp ran
  obtain rfl := Except.ok.inj ran
  have asks := (runRequests_within asking).mono
    (show _ ⊆ .reader :: .amChoking :: .utMetadataRequested :: .running :: handlerParts by
      simp [handlerParts])
  have chokes := asks.trans ((runChoking_within choking).mono (by simp [handlerParts]))
  have reads := chokes.trans ((runMessage_within reading).mono (by simp [handlerParts]))
  have waits := reads.trans ((runSilence_within waiting).mono (by simp [handlerParts]))
  have flushes := waits.trans ((runNetworkBuffers_within flushing).1.mono (by simp [handlerParts]))
  exact flushes.trans ((Changes.running flushed false).within (by simp))

-----------------------------------------------------------------------------------------
-- The handshake
-----------------------------------------------------------------------------------------

theorem Within.status_eq (within : Within parts p next)
    (quiet : ∀ part ∈ parts, part ∉ [.connection, .drop, .handshake])
    : next.status = p.status := by
  refine Foundations.Within.same Peer.status (fun part member before after changed => ?_) within
  have other := quiet part member
  cases changed <;> first | rfl | simp at other

theorem Within.descriptor_eq (within : Within parts p next)
    (quiet : ∀ part ∈ parts, part ∉ [.connection, .drop])
    : next.socket.map (·.socket) = p.socket.map (·.socket) := by
  refine Foundations.Within.same (fun p : Peer => p.socket.map (·.socket))
    (fun part member before after changed => ?_) within
  have other := quiet part member
  cases changed <;> first | rfl | assumption | simp at other

theorem takesWrites_iff (p : Peer)
    : p.takesWrites
      ↔ ∃ descriptor, p.socket.map (·.socket) = some descriptor ∧ descriptor ≠ -1 := by
  unfold takesWrites
  cases p.socket <;> simp

theorem takesWrites_of_shouldSendHandshake {canWrite : Bool}
    (ready : p.shouldSendHandshake canWrite = true)
    : p.status = .connected ∧ p.takesWrites := by
  unfold shouldSendHandshake at ready
  split at ready
  · cases ready
  · rename_i socket present
    simp only [Bool.and_eq_true, beq_iff_eq, decide_eq_true_eq] at ready
    exact ⟨ready.1.1, socket, present, ready.1.2⟩

theorem takesWrites_of_shouldHandleHandshake (ready : p.shouldHandleHandshake = true)
    : p.status = .handshakeSent ∧ p.takesWrites := by
  simp only [shouldHandleHandshake, Bool.and_eq_true, beq_iff_eq] at ready
  refine ⟨ready.1, ?_⟩
  have readable := ready.2
  unfold canRead at readable
  split at readable
  · cases readable
  · rename_i socket present
    simp only [BufferedSocket.canRead, decide_eq_true_eq] at readable
    exact ⟨socket, present, readable.1⟩

/-- Behind what is written or read on an open socket, the handshake goes on. -/
theorem Within.advance {status : PeerStatus} (within : Within [.buffers] p next)
    (greeting : p.status = .connected ∨ p.status = .handshakeSent) (opened : p.takesWrites)
    (later : status = .handshakeSent ∨ status = .handshakeComplete)
    : Within [.buffers, .handshake] p { next with status } := by
  have stillOpen : next.takesWrites := by
    rw [takesWrites_iff, within.descriptor_eq (by simp)]
    exact (takesWrites_iff p).mp opened
  rw [← within.status_eq (by simp)] at greeting
  exact (within.mono (by simp)).trans
    ((Changes.handshake next status greeting stillOpen later).within (by simp))

variable {infoHash : InfoHash} {metadataSize : Nat}

theorem sendHandshake_within {canWrite : Bool} (ready : p.shouldSendHandshake canWrite = true)
    (sent : p.sendHandshake infoHash = .ok (next, exit))
    : Within [.buffers, .handshake] p next := by
  obtain ⟨connected, opened⟩ := takesWrites_of_shouldSendHandshake ready
  obtain ⟨⟨written, result⟩, wrote, sent⟩ := bind_eq_ok.mp sent
  dsimp only at sent
  split at sent
  · cases sent
    exact (write_within wrote).mono (by simp)
  · cases sent
    exact (write_within wrote).advance (.inl connected) opened (.inl rfl)

theorem handleHandshake_within (ready : p.shouldHandleHandshake = true)
    (handled : p.handleHandshake infoHash metadataSize = .ok (next, exit))
    : Within [.buffers, .handshake] p next := by
  obtain ⟨sent, opened⟩ := takesWrites_of_shouldHandleHandshake ready
  have reads := read_within p 68
  unfold handleHandshake at handled
  dsimp only at handled
  split at handled
  · cases handled
    exact reads.mono (by simp)
  split at handled
  · cases handled
    exact reads.mono (by simp)
  split at handled
  · obtain ⟨⟨written, result⟩, wrote, handled⟩ := bind_eq_ok.mp handled
    have writes := reads.trans (write_within wrote)
    dsimp only at handled
    split at handled
    · cases handled
      exact writes.mono (by simp)
    · cases handled
      exact writes.advance (.inr sent) opened (.inr rfl)
  · cases handled
    exact reads.advance (.inr sent) opened (.inr rfl)

/-- A guarded step of the handshake. A failure disconnects. -/
theorem runStep_within {guard : Bool} {step : Except Fault (Peer × Exit)}
    (steps
      : ∀ next exit, guard = true → step = .ok (next, exit) → Within [.buffers, .handshake] p next)
    (ran : p.runStep guard step now = .ok (next, exit))
    : Within [.buffers, .handshake, .drop] p next
      ∧ (exit = .failure → next.status = .unconnected) := by
  unfold runStep at ran
  split at ran
  · rename_i made
    obtain ⟨⟨stepped, result⟩, returned, ran⟩ := bind_eq_ok.mp ran
    have reached := (steps stepped result made returned).mono
      (show _ ⊆ [PeerPart.buffers, .handshake, .drop] by simp)
    cases result with
    | success =>
        cases ran
        exact ⟨reached, nofun⟩
    | failure =>
        cases ran
        exact ⟨reached.trans ((Changes.drop stepped now).within (by simp)), fun _ => rfl⟩
  · cases ran
    exact ⟨.refl p, nofun⟩

/-- The first half of `peer_run`, behind the connection. A failure leaves the peer disconnected. -/
theorem runHandshake_within {outcome : ConnectionOutcome}
    (ran : p.runHandshake infoHash metadataSize outcome = .ok (next, exit))
    : Within [.buffers, .handshake, .drop]
          (if p.shouldConnect outcome.now then p.connect outcome.descriptor else p) next
      ∧ (exit = .failure → next.status = .unconnected) := by
  unfold Peer.runHandshake at ran
  obtain ⟨⟨flushed, first⟩, flushing, ran⟩ := bind_eq_ok.mp ran
  obtain ⟨begun, failed⟩ := runNetworkBuffers_within flushing
  replace begun := begun.mono (show _ ⊆ [PeerPart.buffers, .handshake, .drop] by simp)
  cases first with
  | failure =>
      cases ran
      exact ⟨begun, failed⟩
  | success =>
      obtain ⟨⟨greeted, second⟩, greeting, ran⟩ := bind_eq_ok.mp ran
      obtain ⟨greets, failed⟩ :=
        runStep_within (fun _ _ ready sent => sendHandshake_within ready sent) greeting
      cases second with
      | failure =>
          cases ran
          exact ⟨begun.trans greets, failed⟩
      | success =>
          obtain ⟨answers, failed⟩ :=
            runStep_within (fun _ _ ready handled => handleHandshake_within ready handled) ran
          exact ⟨(begun.trans greets).trans answers, failed⟩

end Peer

end UvgTorrent

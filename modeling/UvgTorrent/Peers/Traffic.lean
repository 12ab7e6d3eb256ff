import UvgTorrent.Peers.RunEffects

/-! What the parts of `peer_run` keep of the requests on a connection: the count of pending requests
changes only where a request is sent or a block comes in, and a disconnect clears it.
-/

namespace UvgTorrent

open Foundations

/-- What a `peer_run` meets. The structs and files are what the other threads have made of them. -/
structure RunInput where
  infoHash : InfoHash
  torrentMetadata : TorrentData
  torrentData : TorrentData
  disk : Disk
  outcome : RunOutcome

/-- The clock of a run where it connects. -/
def RunInput.now (input : RunInput) : Int := input.outcome.connection.now

namespace Peer

variable {p next : Peer} {td : TorrentData} {stack : Stack} {message : Message} {now : Int}
  {parts : List PeerPart} {exit : Exit}

/-- `peer_run` on its input. -/
def runOn (beDecode : BeDecode) (p : Peer) (input : RunInput) : Except Fault RunResult :=
  p.run beDecode input.infoHash input.torrentMetadata input.torrentData input.disk input.outcome

-----------------------------------------------------------------------------------------
-- The count on a connection
-----------------------------------------------------------------------------------------

/-- The connection goes on, with the same count. -/
structure SameTraffic (p next : Peer) : Prop where
  descriptor : next.socket.map (·.socket) = p.socket.map (·.socket)
  status : next.status = p.status
  pending : next.pendingRequestCount = p.pendingRequestCount

theorem SameTraffic.refl (p : Peer) : p.SameTraffic p := ⟨rfl, rfl, rfl⟩

theorem SameTraffic.trans {last : Peer} (first : p.SameTraffic next)
    (second : next.SameTraffic last)
    : p.SameTraffic last :=
  ⟨second.descriptor.trans first.descriptor, second.status.trans first.status,
    second.pending.trans first.pending⟩

/-- The connection is kept with its count, or dropped. -/
inductive TrafficEffect (p next : Peer) : Prop
  | same (kept : p.SameTraffic next)
  | dropped (status : next.status = .unconnected) (pending : next.pendingRequestCount = 0)

theorem TrafficEffect.trans {last : Peer} (first : p.TrafficEffect next)
    (second : next.TrafficEffect last)
    : p.TrafficEffect last := by
  cases second with
  | dropped status pending => exact .dropped status pending
  | same kept =>
      cases first with
      | same before => exact .same (before.trans kept)
      | dropped status pending =>
          exact .dropped (kept.status.trans status) (kept.pending.trans pending)

theorem SameTraffic.effect (kept : p.SameTraffic next) : p.TrafficEffect next := .same kept

/-- The count is kept by all that neither makes nor ends a connection, and touches no request. -/
theorem Within.traffic (within : Within parts p next)
    (quiet : ∀ part ∈ parts, part ∉ [.connection, .drop, .handshake, .pendingRequests])
    : p.SameTraffic next := by
  refine Foundations.Within.keeps (fun part member before after changed reached => ?_) within
    (SameTraffic.refl p)
  have other := quiet part member
  refine reached.trans ?_
  cases changed with
  | buffers _ socket kept => exact ⟨kept, rfl, rfl⟩
  | _ => first | exact ⟨rfl, rfl, rfl⟩ | simp at other

theorem Within.trafficEffect (within : Within parts p next)
    (quiet : ∀ part ∈ parts, part ∉ [.connection, .handshake, .pendingRequests])
    : p.TrafficEffect next := by
  refine Foundations.Within.keeps (fun part member before after changed reached => ?_) within
    (TrafficEffect.same (.refl p))
  have other := quiet part member
  refine reached.trans ?_
  cases changed with
  | buffers _ socket kept => exact .same ⟨kept, rfl, rfl⟩
  | drop _ now => exact .dropped rfl rfl
  | _ => first | exact .same ⟨rfl, rfl, rfl⟩ | simp at other

theorem write_traffic {data : Bytes} {result : Nat} (wrote : p.write data = .ok (next, result))
    : p.SameTraffic next :=
  (write_within wrote).traffic (by simp)

/-- News of pieces leave the count. -/
theorem runAdverts_traffic {adverts : List Advert}
    (ran : p.runAdverts td stack = .ok (next, adverts))
    : p.SameTraffic next :=
  (runAdverts_within ran).traffic (by simp)

/-- Only the handler of PIECE messages changes the count of a connection. -/
theorem handleMessage_traffic {beDecode : BeDecode} {torrentMetadata : TorrentData} {disk : Disk}
    {outcome : RunOutcome} {queue : Option MainQueue}
    (other : message.bytes[4]?.map UInt8.toNat ≠ some 7)
    (handled
      : p.handleMessage beDecode torrentMetadata td disk message outcome = .ok (next, queue))
    : p.TrafficEffect next := by
  rcases handleMessage_within handled with rest | told | told | ⟨piece, -⟩
  · exact rest.trafficEffect (by simp)
  · exact (handleMsgHave_within told).trafficEffect (by simp)
  · exact (handleMsgBitfield_within told).trafficEffect (by simp)
  · exact absurd piece other

/-- A message that is read leaves the connection as it was. -/
theorem readMessage_traffic (p : Peer) (now : Int)
    : p.TrafficEffect (p.readMessage now).1
      ∧ ((p.readMessage now).2.isSome → p.SameTraffic (p.readMessage now).1) := by
  obtain ⟨effect, returned⟩ := readMessage_within p now
  exact ⟨effect.trafficEffect (by simp), fun some => (returned some).traffic (by simp)⟩

theorem runNetworkBuffers_traffic {outcome : NetworkOutcome}
    (ran : p.runNetworkBuffers outcome now = .ok (next, exit))
    : p.TrafficEffect next :=
  (runNetworkBuffers_within ran).1.trafficEffect (by simp)

-----------------------------------------------------------------------------------------
-- The handshake
-----------------------------------------------------------------------------------------

/-- What holds in the handshake, because it is kept by all that leaves the count of a connection,
and by the steps from one status of the handshake to the next.
-/
structure KeptByHandshake (holds : Peer → Prop) : Prop where
  effect : ∀ p next : Peer, holds p → p.TrafficEffect next → holds next
  advance
    : ∀ (p next : Peer) (status : PeerStatus),
        holds p
        → p.status = .connected ∨ p.status = .handshakeSent
        → status ≠ .unconnected
        → p.SameTraffic next
        → holds { next with status }

/-- The first half of `peer_run`, behind the connection. -/
theorem KeptByHandshake.runHandshake {holds : Peer → Prop} {infoHash : InfoHash}
    {metadataSize : Nat} {outcome : ConnectionOutcome} (kept : KeptByHandshake holds)
    (start : holds (if p.shouldConnect outcome.now then p.connect outcome.descriptor else p))
    (ran : p.runHandshake infoHash metadataSize outcome = .ok (next, exit))
    : holds next := by
  refine Foundations.Within.keeps (fun part member before after changed reached => ?_)
    (runHandshake_within ran).1 start
  cases changed with
  | buffers _ socket same => exact kept.effect before _ reached (.same ⟨same, rfl, rfl⟩)
  | drop _ now => exact kept.effect before _ reached (.dropped rfl rfl)
  | handshake _ status greeting opened later =>
      refine kept.advance before before status reached greeting ?_ (.refl before)
      rcases later with rfl | rfl <;> nofun
  | _ => simp at member

end Peer

-----------------------------------------------------------------------------------------
-- Runs on a quiet socket
-----------------------------------------------------------------------------------------

/-- A run of a peer without data, on a socket that takes nothing for now. -/
def quietInput (received : Option NetworkSegment) : RunInput :=
  {
    infoHash := .filled 1
    torrentMetadata := .new [46]
    torrentData := .new [46]
    disk := fun _ => none
    outcome :=
      {
        connection :=
          {
            now := 200000
            descriptor := 3
            network :=
              {
                hungUp := false
                sends := fun _ => .again
                sendErrno := .again
                received := received.map .delivers
              }
            canWrite := true
          }
        stack := zeroStack
        metadataClock := fun _ => 0
        claimClock := fun _ => 0
        reads := fun _ _ => .good
        steps := 0
        lastUpdate := 200000
        now := 200000
        network :=
          { hungUp := false, sends := fun _ => .again, sendErrno := .again, received := none }
      }
  }

end UvgTorrent

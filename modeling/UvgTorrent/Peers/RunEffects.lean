import UvgTorrent.Claims.ClaimSteps
import UvgTorrent.Peers.Footprints

/-! What the parts of `peer_run` keep of a connection: its descriptor, its status, the queue of HAVE
messages and the BITFIELD flag change only in the parts that are made for it, and by a disconnect.
-/

namespace UvgTorrent

open Foundations

namespace Peer

variable {p next : Peer} {td : TorrentData} {stack : Stack} {message : Message} {now : Int}
  {parts : List PeerPart}

-----------------------------------------------------------------------------------------
-- Keeping a connection, and dropping it
-----------------------------------------------------------------------------------------

/-- The connection goes on, with the same news for the peer. -/
structure SameLink (p next : Peer) : Prop where
  descriptor : next.socket.map (·.socket) = p.socket.map (·.socket)
  status : next.status = p.status
  progressQueue : next.progressQueue = p.progressQueue
  msgBitfieldSent : next.msgBitfieldSent = p.msgBitfieldSent

theorem SameLink.refl (p : Peer) : p.SameLink p := ⟨rfl, rfl, rfl, rfl⟩

theorem SameLink.trans {last : Peer} (first : p.SameLink next) (second : next.SameLink last)
    : p.SameLink last :=
  ⟨second.descriptor.trans first.descriptor, second.status.trans first.status,
    second.progressQueue.trans first.progressQueue,
    second.msgBitfieldSent.trans first.msgBitfieldSent⟩

theorem SameLink.takesWrites (same : p.SameLink next) (opened : p.takesWrites)
    : next.takesWrites := by
  rw [takesWrites_iff, same.descriptor]
  exact (takesWrites_iff p).mp opened

/-- The peer was disconnected; the queue stays. -/
structure Dropped (p next : Peer) : Prop where
  status : next.status = .unconnected
  progressQueue : next.progressQueue = p.progressQueue
  msgBitfieldSent : next.msgBitfieldSent = false

/-- The connection is kept or dropped. -/
inductive LinkEffect (p next : Peer) : Prop
  | same (kept : p.SameLink next)
  | dropped (dropped : p.Dropped next)

theorem LinkEffect.trans {last : Peer} (first : p.LinkEffect next)
    (second : next.LinkEffect last)
    : p.LinkEffect last := by
  rcases second with kept | dropped
  · rcases first with before | dropped
    · exact .same (before.trans kept)
    · exact .dropped ⟨kept.status.trans dropped.status,
        kept.progressQueue.trans dropped.progressQueue,
        kept.msgBitfieldSent.trans dropped.msgBitfieldSent⟩
  · have queue : next.progressQueue = p.progressQueue := by
      rcases first with before | dropped
      · exact before.progressQueue
      · exact dropped.progressQueue
    exact .dropped ⟨dropped.status, dropped.progressQueue.trans queue, dropped.msgBitfieldSent⟩

/-- A connection is kept by all that neither makes nor ends one, and tells no news. -/
theorem Within.link (within : Within parts p next)
    (quiet
      : ∀ part ∈ parts,
          part ∉ [.connection, .drop, .handshake, .progressQueue, .msgBitfieldSent])
    : p.SameLink next := by
  refine Foundations.Within.keeps (fun part member before after changed reached => ?_) within
    (SameLink.refl p)
  have other := quiet part member
  refine reached.trans ?_
  cases changed with
  | buffers _ socket kept => exact ⟨kept, rfl, rfl, rfl⟩
  | _ => first | exact ⟨rfl, rfl, rfl, rfl⟩ | simp at other

theorem Within.linkEffect (within : Within parts p next)
    (quiet : ∀ part ∈ parts, part ∉ [.connection, .handshake, .progressQueue, .msgBitfieldSent])
    : p.LinkEffect next := by
  refine Foundations.Within.keeps (fun part member before after changed reached => ?_) within
    (LinkEffect.same (.refl p))
  have other := quiet part member
  refine reached.trans ?_
  cases changed with
  | buffers _ socket kept => exact .same ⟨kept, rfl, rfl, rfl⟩
  | drop _ now => exact .dropped ⟨rfl, rfl, rfl⟩
  | _ => first | exact .same ⟨rfl, rfl, rfl, rfl⟩ | simp at other

theorem write_link {data : Bytes} {result : Nat} (wrote : p.write data = .ok (next, result))
    : p.SameLink next :=
  (write_within wrote).link (by simp)

theorem updateInterested_link (updated : p.updateInterested td stack = .ok next)
    : p.SameLink next :=
  (updateInterested_within updated).link (by simp)

-----------------------------------------------------------------------------------------
-- The claims of a run
-----------------------------------------------------------------------------------------

theorem sendMsgRequest_claims {clock : Nat → Int} {after : TorrentData} {exit : Exit}
    (sent : p.sendMsgRequest td stack clock = .ok (next, after, exit))
    : td.SameButClaims after ∧ (td.Initialised → after.Initialised) := by
  unfold sendMsgRequest at sent
  split at sent
  · cases sent
  · obtain ⟨interested, _, sent⟩ := bind_eq_ok.mp sent
    split at sent
    · obtain ⟨⟨claimed, claimExit, chunks⟩, claims, sent⟩ := bind_eq_ok.mp sent
      have frame := TorrentData.claimChunk_sameButClaims claims
      cases claimExit with
      | failure =>
          cases sent
          exact ⟨frame, fun ready => ready.claimChunk claims⟩
      | success =>
          obtain ⟨⟨_, _⟩, requested, same⟩ := bind_eq_ok.mp sent
          cases same
          exact ⟨frame, fun ready => ready.claimChunk claims⟩
    · cases sent
      exact ⟨rfl, id⟩

/-- Behind the messages on pieces nothing is sent about pieces, and of the data only the claims
change.
-/
theorem runMessages_effect {beDecode : BeDecode} {torrentMetadata : TorrentData} {disk : Disk}
    {outcome : RunOutcome} {result : RunResult}
    (ran : p.runMessages beDecode torrentMetadata td disk outcome = .ok result)
    : p.LinkEffect result.peer
      ∧ td.SameButClaims result.torrentData
      ∧ (td.Initialised → result.torrentData.Initialised) := by
  refine ⟨(runMessages_within ran).linkEffect (by simp [handlerParts]), ?_⟩
  obtain ⟨⟨asked, metadata, after⟩, asking, ran⟩ := bind_eq_ok.mp ran
  obtain ⟨choked, choking, ran⟩ := bind_eq_ok.mp ran
  obtain ⟨⟨read, queued⟩, reading, ran⟩ := bind_eq_ok.mp ran
  obtain ⟨waited, waiting, ran⟩ := bind_eq_ok.mp ran
  obtain ⟨⟨flushed, exit⟩, flushing, ran⟩ := bind_eq_ok.mp ran
  obtain rfl := Except.ok.inj ran
  obtain ⟨⟨requesting, requested⟩, _, asking⟩ := bind_eq_ok.mp asking
  dsimp only at asking
  split at asking
  · obtain ⟨⟨_, _, _⟩, sent, same⟩ := bind_eq_ok.mp asking
    cases same
    exact sendMsgRequest_claims sent
  · cases asking
    exact ⟨rfl, id⟩

-----------------------------------------------------------------------------------------
-- Reading a message
-----------------------------------------------------------------------------------------

/-- A read delivers nothing, or the bytes that were asked for. -/
theorem read_bytes (p : Peer) (count : Nat)
    : (p.read count).1.networkOrderedMsgLength = p.networkOrderedMsgLength
      ∧ ((p.read count).2.1 = sizeError
        ∨ (p.read count).2.1 = 0
        ∨ (p.read count).2.2.length = count) := by
  unfold read
  split
  · exact ⟨rfl, .inl rfl⟩
  · refine ⟨rfl, ?_⟩
    dsimp only [BufferedSocket.read]
    split
    · exact .inl rfl
    · split
      · exact .inr (.inl rfl)
      · exact .inr (.inr (List.length_take_of_le (by omega)))

/-- A call that has the length goes on with its four bytes. -/
theorem loadLength_sized (sized : p.networkOrderedMsgLength.length = 4)
    (goesOn : (p.loadLength now).1 = true)
    : (p.loadLength now).2.networkOrderedMsgLength.length = 4 := by
  obtain ⟨_, delivered⟩ := read_bytes p 4
  revert goesOn
  unfold loadLength
  split
  · exact fun _ => sized
  · dsimp only
    split
    · rename_i four
      intro _
      rw [four] at delivered
      simpa [sizeError] using delivered
    · split <;> exact fun goesOn => Bool.noConfusion goesOn

/-- Reading the id leaves the length. -/
theorem loadMsgId_length (p : Peer) (goesOn : (p.loadMsgId now).1 = true)
    : (p.loadMsgId now).2.networkOrderedMsgLength = p.networkOrderedMsgLength := by
  obtain ⟨kept, _⟩ := read_bytes p 1
  revert goesOn
  unfold loadMsgId
  split
  · exact fun _ => rfl
  · dsimp only
    split
    · exact fun _ => kept
    · split <;> exact fun goesOn => Bool.noConfusion goesOn

theorem loadPayload_framed {bytes : Bytes} (sized : p.networkOrderedMsgLength.length = 4)
    (returned : (p.loadPayload now).2 = some bytes)
    : bytes.length = 4 + ofBe32 (bytes.take 4) := by
  unfold loadPayload at returned
  split at returned
  · cases returned
  dsimp only at returned
  split at returned
  · cases returned
  rename_i lengthy
  split at returned
  · obtain ⟨_, delivered⟩ := read_bytes p (4 + ofBe32 p.networkOrderedMsgLength - 5)
    split at returned
    · cases returned
    split at returned
    · cases returned
    rename_i noError someBytes
    obtain rfl := Option.some.inj returned
    have length := (delivered.resolve_left noError).resolve_left someBytes
    simp only [List.append_assoc, List.take_left' sized, List.length_append, length, sized,
      List.length_singleton]
    omega
  · obtain rfl := Option.some.inj returned
    simp only [List.take_left' sized, List.length_append, sized, List.length_singleton]
    omega

/-- A message that was read is as long as its length field says. -/
theorem readMessage_framed {bytes : Bytes} (sized : p.networkOrderedMsgLength.length = 4)
    (returned : (p.readMessage now).2 = some bytes)
    : bytes.length = 4 + ofBe32 (bytes.take 4) := by
  unfold readMessage at returned
  split at returned
  · cases returned
  · rename_i next length
    have four := loadLength_sized sized (congrArg Prod.fst length)
    rw [length] at four
    split at returned
    · cases returned
    · rename_i last id
      have kept := loadMsgId_length next (congrArg Prod.fst id)
      rw [id] at kept
      exact loadPayload_framed (by rw [kept, four]) returned

-----------------------------------------------------------------------------------------
-- The handshake
-----------------------------------------------------------------------------------------

/-- Only an open socket gets as far as a handshake, and only a handshaken peer is sent the BITFIELD.
-/
structure LinkState (p : Peer) : Prop where
  opened : p.status = .handshakeSent ∨ p.status = .handshakeComplete → p.takesWrites
  unsent : p.status ≠ .handshakeComplete → p.msgBitfieldSent = false

theorem LinkEffect.linkState (effect : p.LinkEffect next) (state : p.LinkState)
    : next.LinkState := by
  rcases effect with kept | dropped
  · constructor
    · rw [kept.status]
      exact fun far => kept.takesWrites (state.opened far)
    · rw [kept.status, kept.msgBitfieldSent]
      exact state.unsent
  · constructor
    · rw [dropped.status]
      simp
    · exact fun _ => dropped.msgBitfieldSent

/-- A step towards the handshake: there is no news for the peer, and no BITFIELD. -/
structure Proceeds (p next : Peer) : Prop where
  linkState : next.LinkState
  progressQueue : next.progressQueue = p.progressQueue
  msgBitfieldSent : next.msgBitfieldSent = true → p.msgBitfieldSent = true

theorem Proceeds.trans {last : Peer} (first : p.Proceeds next) (second : next.Proceeds last)
    : p.Proceeds last :=
  ⟨second.linkState, second.progressQueue.trans first.progressQueue,
    fun sent => first.msgBitfieldSent (second.msgBitfieldSent sent)⟩

theorem LinkEffect.proceeds (effect : p.LinkEffect next) (state : p.LinkState)
    : p.Proceeds next := by
  refine ⟨effect.linkState state, ?_, ?_⟩
  · rcases effect with kept | dropped
    · exact kept.progressQueue
    · exact dropped.progressQueue
  · rcases effect with kept | dropped
    · rw [kept.msgBitfieldSent]
      exact id
    · rw [dropped.msgBitfieldSent]
      nofun

/-- The first half of `peer_run`. A failure leaves the peer disconnected. -/
theorem runHandshake_proceeds {infoHash : InfoHash} {metadataSize : Nat}
    {outcome : ConnectionOutcome} {exit : Exit} (state : p.LinkState)
    (ran : p.runHandshake infoHash metadataSize outcome = .ok (next, exit))
    : p.Proceeds next ∧ (exit = .failure → next.status = .unconnected) := by
  obtain ⟨within, failed⟩ := runHandshake_within ran
  refine ⟨?_, failed⟩
  have connects : p.Proceeds
      (if p.shouldConnect outcome.now then p.connect outcome.descriptor else p) := by
    split
    · rename_i ready
      have idle : p.status = .unconnected := by
        simp only [shouldConnect, Bool.and_eq_true, beq_iff_eq] at ready
        exact ready.1
      refine ⟨⟨?_, fun _ => state.unsent (by rw [idle]; nofun)⟩, rfl, id⟩
      simp [connect]
    · exact (LinkEffect.same (.refl p)).proceeds state
  refine Foundations.Within.keeps (fun part member before after changed reached => ?_) within
    connects
  refine reached.trans ?_
  have linked := reached.linkState
  cases changed with
  | buffers _ socket kept =>
      have link : before.SameLink { before with socket } := ⟨kept, rfl, rfl, rfl⟩
      exact (LinkEffect.same link).proceeds linked
  | drop _ now =>
      have dropped : before.Dropped (before.disconnect now) := ⟨rfl, rfl, rfl⟩
      exact (LinkEffect.dropped dropped).proceeds linked
  | handshake _ status greeting opened later =>
      have unsent := linked.unsent (by rcases greeting with same | same <;> rw [same] <;> nofun)
      exact ⟨⟨fun _ => opened, fun _ => unsent⟩, rfl, id⟩
  | _ => simp at member

end Peer

end UvgTorrent

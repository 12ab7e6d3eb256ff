import UvgTorrent.Peers.Listening
import UvgTorrent.Peers.PendingRequests

/-! What a peer is told over the runs of `peer_run`: at any time, what was written to the connection
so far is one handshake and whole messages, and who has read it knows the flags that we keep.
-/

namespace UvgTorrent

open Foundations

namespace BufferedSocket

variable {socket next : BufferedSocket} {data : Bytes} {result : Nat}

/-- The socket takes what is written to it, and puts it behind what waits. -/
structure Ready (socket : BufferedSocket) : Prop where
  linked : ∃ nodes, socket.Linked nodes
  appends : socket.writeBufferTail ≠ none ∨ socket.pending = []

/-- Nothing waits on the socket of a new connection. -/
theorem Ready.new {descriptor : Int} (connected : descriptor ≠ -1)
    : (BufferedSocket.new.setSocketFd descriptor).Ready := by
  refine ⟨⟨[], connected, PtrList.nil_holds, ?_⟩, .inr rfl⟩
  intro address last
  cases last

theorem Ready.write (ready : socket.Ready) (wrote : socket.write data = .ok (next, result))
    : next.Ready ∧ next.pending = socket.pending ++ data ∧ result = data.length := by
  obtain ⟨⟨nodes, linked⟩, appends⟩ := ready
  obtain ⟨written, nodes', returned, linked', bytes⟩ := linked.write data
  rw [returned] at wrote
  cases wrote
  have pending : next.pending = socket.pending ++ data := by
    rw [linked'.pending_eq, bytes, linked.pending_eq]
    split
    · rename_i noTail
      rw [← linked.pending_eq, appends.resolve_left (fun tailed => tailed noTail)]
    · rfl
  have tailed : next.writeBufferTail ≠ none := by
    unfold BufferedSocket.write at returned
    rw [if_neg linked.connected] at returned
    dsimp only at returned
    split at returned
    · cases returned
      nofun
    · split at returned
      · cases returned
      · cases returned
        nofun
  exact ⟨⟨⟨nodes', linked'⟩, .inl tailed⟩, pending, rfl⟩

/-- A flush sends a front part of what waits. -/
theorem Ready.networkWrite {outcomes : Nat → SendOutcome} {sent : Bytes} (ready : socket.Ready)
    (flushed : socket.networkWrite outcomes = .ok (next, result, sent))
    : (∃ nodes, next.Linked nodes) ∧ sent ++ next.pending = socket.pending := by
  obtain ⟨⟨nodes, linked⟩, _⟩ := ready
  obtain ⟨flushedTo, result', sent', nodes', returned, linked', bytes⟩ :=
    linked.networkWrite outcomes
  rw [returned] at flushed
  cases flushed
  exact ⟨⟨nodes', linked'⟩, by rw [linked'.pending_eq, bytes, linked.pending_eq]⟩

/-- Bytes are left in the write buffers that nothing is put behind. -/
def strands (socket : BufferedSocket) : Bool :=
  socket.writeBufferTail.isNone && decide (socket.pending ≠ [])

/-- The write half of a socket. -/
def output (socket : BufferedSocket) : Int × PtrList BufferedSocketWriteBuffer × Option Nat :=
  (socket.socket, socket.writeBuffers, socket.writeBufferTail)

/-- Reading does not touch the write half. -/
theorem read_output (socket : BufferedSocket) (count : Nat)
    : (socket.read count).1.output = socket.output := by
  unfold read
  split
  · rfl
  · split <;> rfl

theorem networkRead_output (socket : BufferedSocket) (received : Option Bytes)
    : (socket.networkRead received).1.output = socket.output := by
  unfold networkRead
  split
  · rfl
  · split <;> rfl

theorem Ready.of_output (same : next.output = socket.output) (ready : socket.Ready)
    : next.Ready := by
  obtain ⟨descriptor, rest⟩ := Prod.mk.inj same
  obtain ⟨buffers, tail⟩ := Prod.mk.inj rest
  obtain ⟨⟨nodes, linked⟩, appends⟩ := ready
  refine ⟨⟨nodes, ?_, ?_, ?_⟩, ?_⟩
  · rw [descriptor]
    exact linked.connected
  · rw [buffers]
    exact linked.holds
  · rw [tail]
    exact linked.tail
  · rw [tail, pending, buffers]
    exact appends

theorem pending_of_output (same : next.output = socket.output) : next.pending = socket.pending := by
  obtain ⟨_, rest⟩ := Prod.mk.inj same
  rw [pending, (Prod.mk.inj rest).1, pending]

theorem strands_of_output (same : next.output = socket.output) : next.strands = socket.strands := by
  obtain ⟨_, rest⟩ := Prod.mk.inj same
  rw [strands, (Prod.mk.inj rest).2, pending_of_output same, strands]

end BufferedSocket

namespace Peer

variable {p q next : Peer} {infoHash : InfoHash} {wire message : Bytes} {result : Nat}
  {td : TorrentData} {stack : Stack} {now : Int} {exit : Exit}

/-- What the peer can know of us: nothing before our handshake. -/
def knowledge (p : Peer) : Option Told :=
  if p.status = .handshakeSent ∨ p.status = .handshakeComplete then some p.told else none

/-- The peer is kept informed on its connection: behind the bytes on the wire, the bytes that wait
tell it what we have noted down as told.
-/
structure Informed (infoHash : InfoHash) (wire : Bytes) (p : Peer) : Prop where
  fresh : p.status ≠ .handshakeComplete → p.told = .nothing
  gone : p.status = .unconnected → p.socket = none
  opened : p.status = .handshakeSent ∨ p.status = .handshakeComplete → p.takesWrites
  ready : ∀ socket, p.socket = some socket → socket.socket ≠ -1 → socket.Ready
  requested : ∀ field, p.utMetadataRequested = some field → field.bitCount < 2 ^ 31
  heard : p.status ≠ .unconnected → observe infoHash (wire ++ p.outgoing) = some p.knowledge

-----------------------------------------------------------------------------------------
-- Steps that say nothing
-----------------------------------------------------------------------------------------

/-- Nothing is said, and nothing is noted down as told. -/
structure SameVoice (p next : Peer) : Prop where
  output : next.socket.map (·.output) = p.socket.map (·.output)
  status : next.status = p.status
  told : next.told = p.told
  requested : next.utMetadataRequested = p.utMetadataRequested

theorem SameVoice.refl (p : Peer) : p.SameVoice p := ⟨rfl, rfl, rfl, rfl⟩

theorem SameVoice.trans {last : Peer} (first : p.SameVoice next) (second : next.SameVoice last)
    : p.SameVoice last :=
  ⟨second.output.trans first.output, second.status.trans first.status,
    second.told.trans first.told, second.requested.trans first.requested⟩

theorem SameVoice.outgoing (same : p.SameVoice next) : next.outgoing = p.outgoing := by
  have output := same.output
  unfold Peer.outgoing
  revert output
  cases next.socket <;> cases p.socket <;> intro output
  case none.none => rfl
  case some.some => exact BufferedSocket.pending_of_output (Option.some.inj output)
  all_goals cases output

theorem SameVoice.informed (same : p.SameVoice next) (informed : p.Informed infoHash wire)
    : next.Informed infoHash wire := by
  have output := same.output
  have knowledge : next.knowledge = p.knowledge := by
    rw [Peer.knowledge, Peer.knowledge, same.status, same.told]
  constructor
  case fresh =>
    rw [same.status, same.told]
    exact informed.fresh
  case gone =>
    intro unconnected
    rw [same.status] at unconnected
    rwa [informed.gone unconnected, Option.map_none, Option.map_eq_none_iff] at output
  case opened =>
    intro greeted
    rw [same.status] at greeted
    obtain ⟨socket, present, opened⟩ := informed.opened greeted
    rw [present, Option.map_some] at output
    obtain ⟨socket', present', sameOutput⟩ := Option.map_eq_some_iff.mp output
    exact ⟨socket', present', by rwa [(Prod.mk.inj sameOutput).1]⟩
  case ready =>
    intro socket' present' opened
    rw [present', Option.map_some] at output
    obtain ⟨socket, present, sameOutput⟩ := Option.map_eq_some_iff.mp output.symm
    refine .of_output sameOutput.symm (informed.ready socket present ?_)
    rwa [(Prod.mk.inj sameOutput).1]
  case requested =>
    rw [same.requested]
    exact informed.requested
  case heard =>
    rw [same.status, same.outgoing, knowledge]
    exact informed.heard

/-- A new connection starts from nothing, whatever is on the wire of the old one. -/
theorem Informed.disconnect {other : Bytes} (informed : p.Informed infoHash wire) (now : Int)
    : (p.disconnect now).Informed infoHash other where
  fresh := fun _ => rfl
  gone := fun _ => rfl
  opened := nofun
  ready := nofun
  requested := informed.requested
  heard := fun connected => absurd rfl connected

theorem read_voice (p : Peer) (count : Nat) : p.SameVoice (p.read count).1 := by
  unfold Peer.read
  split
  · exact .refl p
  · rename_i socket present
    refine ⟨?_, rfl, rfl, rfl⟩
    rw [present]
    exact congrArg some (socket.read_output count)

theorem networkRead_voice (p : Peer) (received : Option Bytes)
    : p.SameVoice (p.networkRead received) := by
  refine ⟨?_, rfl, rfl, rfl⟩
  simp only [Peer.networkRead, Option.map_map, Function.comp_def, BufferedSocket.networkRead_output]

-----------------------------------------------------------------------------------------
-- A message
-----------------------------------------------------------------------------------------

/-- A write changes the socket and nothing else. -/
theorem write_eq (wrote : p.write message = .ok (next, result))
    : ∃ socket, next = { p with socket } := by
  unfold Peer.write at wrote
  split at wrote
  · cases wrote
    exact ⟨_, rfl⟩
  · obtain ⟨⟨socket, written⟩, _, same⟩ := bind_eq_ok.mp wrote
    cases same
    exact ⟨some socket, rfl⟩

/-- What is written to an open socket waits behind all that was written. -/
theorem Informed.write (informed : p.Informed infoHash wire) (opened : p.takesWrites)
    (same : q.socket = p.socket) (wrote : q.write message = .ok (next, result))
    : next.outgoing = p.outgoing ++ message
      ∧ result = message.length
      ∧ ∃ socket, next.socket = some socket ∧ socket.socket ≠ -1 ∧ socket.Ready := by
  obtain ⟨socket, present, connected⟩ := opened
  have ready := informed.ready socket present connected
  have present' := same.trans present
  unfold Peer.write at wrote
  rw [present'] at wrote
  obtain ⟨⟨written, length⟩, writes, result⟩ := bind_eq_ok.mp wrote
  cases result
  obtain ⟨readyNext, pending, sized⟩ := ready.write writes
  refine ⟨?_, sized, written, rfl, ?_, readyNext⟩
  · rw [outgoing, outgoing, present]
    exact pending
  · rw [BufferedSocket.write_socket writes]
    exact connected

/-- A message that tells what was noted down keeps the peer informed. -/
theorem Informed.say (informed : p.Informed infoHash wire)
    (wrote : q.write message = .ok (next, result)) (heard : p.told.listen message = some q.told)
    (greeted : p.status = .handshakeSent ∨ p.status = .handshakeComplete)
    (socket : q.socket = p.socket) (status : q.status = p.status)
    (requested : ∀ field, q.utMetadataRequested = some field → field.bitCount < 2 ^ 31)
    (fresh : p.status ≠ .handshakeComplete → q.told = p.told)
    : next.Informed infoHash wire ∧ result = message.length := by
  obtain ⟨outgoing, sized, socket', present, connected, ready⟩ :=
    informed.write (informed.opened greeted) socket wrote
  obtain ⟨written, rfl⟩ := write_eq wrote
  have greeted' : q.status = .handshakeSent ∨ q.status = .handshakeComplete := by rwa [status]
  have connectedPeer : p.status ≠ .unconnected := by
    rcases greeted with same | same <;> rw [same] <;> nofun
  refine ⟨?_, sized⟩
  constructor
  case fresh =>
    intro early
    have early : p.status ≠ .handshakeComplete := status ▸ early
    exact (fresh early).trans (informed.fresh early)
  case gone => exact fun unconnected => absurd (status.symm.trans unconnected) connectedPeer
  case opened => exact fun _ => ⟨socket', present, connected⟩
  case ready =>
    intro other present' _
    cases present.symm.trans present'
    exact ready
  case requested => exact requested
  case heard =>
    intro _
    have before := informed.heard connectedPeer
    rw [knowledge, if_pos greeted] at before
    have after := observe_append before heard
    rw [outgoing, ← List.append_assoc, after]
    exact congrArg some (if_pos greeted').symm

/-- A handshaken peer that is kept informed. -/
structure Conversing (infoHash : InfoHash) (wire : Bytes) (p : Peer) : Prop
    extends p.Informed infoHash wire where
  complete : p.status = .handshakeComplete

theorem SameVoice.conversing (same : p.SameVoice next) (conversing : p.Conversing infoHash wire)
    : next.Conversing infoHash wire :=
  ⟨same.informed conversing.toInformed, same.status.trans conversing.complete⟩

theorem Conversing.say (conversing : p.Conversing infoHash wire)
    (wrote : q.write message = .ok (next, result)) (heard : p.told.listen message = some q.told)
    (socket : q.socket = p.socket) (status : q.status = p.status)
    (requested : q.utMetadataRequested = p.utMetadataRequested)
    : next.Conversing infoHash wire ∧ next.told = q.told ∧ result = message.length := by
  obtain ⟨informed, sized⟩ := conversing.toInformed.say wrote heard (.inr conversing.complete)
    socket status (requested ▸ conversing.requested)
    (fun early => absurd conversing.complete early)
  obtain ⟨written, rfl⟩ := write_eq wrote
  exact ⟨⟨informed, status.trans conversing.complete⟩, rfl, sized⟩

-----------------------------------------------------------------------------------------
-- Choking and interest
-----------------------------------------------------------------------------------------

theorem Conversing.sendMsgUnchoke (conversing : p.Conversing infoHash wire)
    (choking : p.amChoking = true) (sent : p.sendMsgUnchoke = .ok (next, exit))
    : next.Conversing infoHash wire := by
  obtain ⟨⟨_, _⟩, wrote, same⟩ := bind_eq_ok.mp sent
  cases same
  exact (conversing.say wrote (p.told.listen_unchoke choking) rfl rfl rfl).1

theorem Conversing.sendMsgChoke (conversing : p.Conversing infoHash wire)
    (unchoking : p.amChoking = false) (sent : p.sendMsgChoke = .ok (next, exit))
    : next.Conversing infoHash wire := by
  obtain ⟨⟨_, _⟩, wrote, same⟩ := bind_eq_ok.mp sent
  cases same
  exact (conversing.say wrote (p.told.listen_choke unchoking) rfl rfl rfl).1

theorem Conversing.updateInterested (conversing : p.Conversing infoHash wire)
    (updated : p.updateInterested td stack = .ok next)
    : next.Conversing infoHash wire := by
  unfold Peer.updateInterested at updated
  split at updated
  · cases updated
    exact conversing
  obtain ⟨interesting, _, updated⟩ := bind_eq_ok.mp updated
  split at updated
  · rename_i changes
    obtain ⟨⟨_, _⟩, sent, same⟩ := bind_eq_ok.mp updated
    cases same
    obtain ⟨⟨_, _⟩, wrote, same⟩ := bind_eq_ok.mp sent
    cases same
    have indifferent : p.told.interested = false := Bool.eq_false_iff.mpr changes.1
    exact (conversing.say wrote (p.told.listen_interested indifferent) rfl rfl rfl).1
  split at updated
  · rename_i changes
    obtain ⟨⟨_, _⟩, sent, same⟩ := bind_eq_ok.mp updated
    cases same
    obtain ⟨⟨_, _⟩, wrote, same⟩ := bind_eq_ok.mp sent
    cases same
    exact (conversing.say wrote (p.told.listen_notInterested changes.1) rfl rfl rfl).1
  · cases updated
    exact conversing

/-- The status is looked at once more before a peer is choked or unchoked. -/
theorem Informed.runChoking (informed : p.Informed infoHash wire)
    (ran : p.runChoking = .ok next)
    : next.Informed infoHash wire := by
  unfold Peer.runChoking at ran
  split at ran
  · rename_i complete
    have conversing : p.Conversing infoHash wire := ⟨informed, complete⟩
    split at ran
    · rename_i changes
      obtain ⟨⟨_, _⟩, sent, same⟩ := bind_eq_ok.mp ran
      cases same
      exact (conversing.sendMsgUnchoke changes.2 sent).toInformed
    split at ran
    · rename_i changes
      obtain ⟨⟨_, _⟩, sent, same⟩ := bind_eq_ok.mp ran
      cases same
      exact (conversing.sendMsgChoke (Bool.not_eq_true _ ▸ changes.2) sent).toInformed
    · cases ran
      exact informed
  · cases ran
    exact informed

-----------------------------------------------------------------------------------------
-- HAVE and BITFIELD
-----------------------------------------------------------------------------------------

/-- The loop over the queue, by induction on the queue. -/
theorem Conversing.sendHaves {queue sent : List Int} (conversing : p.Conversing infoHash wire)
    (sends : Peer.sendHaves queue p = .ok (next, exit, sent))
    : next.Conversing infoHash wire := by
  induction queue generalizing p sent with
  | nil =>
      cases sends
      exact conversing
  | cons pieceId rest ih =>
      obtain ⟨⟨written, result⟩, wrote, sends⟩ := bind_eq_ok.mp sends
      have kept := (conversing.say wrote (p.told.listen_have pieceId) rfl rfl rfl).1
      dsimp only at sends
      split at sends
      · cases sends
        exact kept
      · obtain ⟨⟨_, _, _⟩, later, same⟩ := bind_eq_ok.mp sends
        cases same
        exact ih kept later

theorem Conversing.sendMsgHave {sent : List Int} (conversing : p.Conversing infoHash wire)
    (sends : p.sendMsgHave td stack = .ok (next, sent))
    : next.Conversing infoHash wire := by
  obtain ⟨⟨drained, exit, ids⟩, queue, sends⟩ := bind_eq_ok.mp sends
  have drains := conversing.sendHaves queue
  cases exit with
  | failure =>
      cases sends
      exact drains
  | success =>
      obtain ⟨_, updates, same⟩ := bind_eq_ok.mp sends
      cases same
      exact drains.updateInterested updates

theorem markPieces_bitCount {remaining first : Nat} {field marked : Bitfield}
    (marking : markPieces td stack remaining first field = .ok marked)
    : marked.bitCount = field.bitCount := by
  induction remaining generalizing first field with
  | zero =>
      cases marking
      rfl
  | succ remaining ih =>
      obtain ⟨complete, _, marking⟩ := bind_eq_ok.mp marking
      rw [ih marking, Bitfield.setBit_bitCount]

/-- A bitfield of `bitfield_new` has as many bits as an `int` can count. -/
theorem new_bitCount {bitCount : Nat} {defaultByte : UInt8} {field : Bitfield}
    (made : Bitfield.new bitCount 0 defaultByte = some field)
    : field.bitCount < 2 ^ 31 := by
  have fits : bitCount < 2 ^ 31 := by
    by_contra large
    rw [Bitfield.new, if_neg large] at made
    cases made
  obtain ⟨_, made', counted, _⟩ := Bitfield.new_spec fits defaultByte
  cases made.symm.trans made'
  omega

theorem resizeBitfield_voice {blank : Bitfield} (resized : p.resizeBitfield blank = .ok next)
    : p.SameVoice next ∧ next.socket = p.socket := by
  unfold resizeBitfield at resized
  split at resized
  · cases resized
    exact ⟨.refl p, rfl⟩
  · split at resized
    · obtain ⟨field, _, same⟩ := bind_eq_ok.mp resized
      cases same
      exact ⟨⟨rfl, rfl, rfl, rfl⟩, rfl⟩
    · cases resized
      exact ⟨.refl p, rfl⟩

theorem Conversing.sendMsgBitfield {sent : Option Bitfield}
    (conversing : p.Conversing infoHash wire) (unsent : p.msgBitfieldSent = false)
    (sends : p.sendMsgBitfield td stack = .ok (next, sent))
    : next.Conversing infoHash wire := by
  unfold Peer.sendMsgBitfield at sends
  split at sends
  · cases sends
  rename_i blank made
  obtain ⟨resized, resizing, sends⟩ := bind_eq_ok.mp sends
  obtain ⟨field, marking, sends⟩ := bind_eq_ok.mp sends
  obtain ⟨⟨_, _⟩, wrote, same⟩ := bind_eq_ok.mp sends
  cases same
  have small : field.bitCount < 2 ^ 31 := by
    rw [markPieces_bitCount marking]
    exact new_bitCount made
  obtain ⟨voice, socket⟩ := resizeBitfield_voice resizing
  have heard : p.told.listen (bitfieldMessage field) = some resized.told := by
    rw [voice.told]
    exact p.told.listen_bitfield small unsent
  exact (conversing.say wrote heard socket voice.status voice.requested).1

theorem Informed.runAdverts {adverts : List Advert} (informed : p.Informed infoHash wire)
    (ran : p.runAdverts td stack = .ok (next, adverts))
    : next.Informed infoHash wire := by
  obtain ⟨⟨told, sent⟩, telling, ran⟩ := bind_eq_ok.mp ran
  have kept : told.Informed infoHash wire := by
    split at telling
    · rename_i due
      simp only [shouldSendMsgHave, decide_eq_true_eq] at due
      have conversing : p.Conversing infoHash wire := ⟨informed, due.2⟩
      exact (conversing.sendMsgHave telling).toInformed
    · cases telling
      exact informed
  dsimp only at ran
  split at ran
  · rename_i due
    obtain ⟨⟨_, _⟩, sends, same⟩ := bind_eq_ok.mp ran
    cases same
    simp only [shouldSendMsgBitfield, decide_eq_true_eq] at due
    have conversing : told.Conversing infoHash wire := ⟨kept, due.1⟩
    exact (conversing.sendMsgBitfield due.2.1 sends).toInformed
  · cases ran
    exact kept

-----------------------------------------------------------------------------------------
-- Requests
-----------------------------------------------------------------------------------------

/-- A chunk that is claimed has a bit of the bitfield of the chunks of interest. -/
theorem firstClaimable_inside {claimed interested : Bitfield} {remaining index chunk : Nat}
    (found
      : TorrentData.firstClaimable claimed interested remaining index = .ok (some chunk))
    : chunk / 8 < interested.bytesCount := by
  induction remaining generalizing index with
  | zero => cases found
  | succ remaining ih =>
      obtain ⟨taken, _, found⟩ := bind_eq_ok.mp found
      split at found
      · exact ih found
      obtain ⟨wanted, got, found⟩ := bind_eq_ok.mp found
      split at found
      · cases found
        unfold Bitfield.getBit at got
        split at got
        · rename_i inside
          exact inside.2
        · cases got
      · exact ih found

theorem claimLoop_inside {interested : Bitfield} {timeoutSeconds : Int} {clock : Nat → Int}
    {remaining turn chunk : Nat} {after : TorrentData} {out : List (Option Nat)}
    (claims
      : TorrentData.claimLoop interested timeoutSeconds clock remaining turn td = .ok (after, out))
    (member : some chunk ∈ out)
    : chunk / 8 < interested.bytesCount := by
  induction remaining generalizing turn td out with
  | zero =>
      cases claims
      cases member
  | succ remaining ih =>
      unfold TorrentData.claimLoop at claims
      split at claims
      · cases claims
      obtain ⟨found, first, claims⟩ := bind_eq_ok.mp claims
      obtain ⟨⟨_, rest⟩, later, same⟩ := bind_eq_ok.mp claims
      cases same
      rcases List.mem_cons.mp member with same | member
      · exact firstClaimable_inside (same ▸ first)
      · exact ih later member

theorem claimChunk_inside {interested : Bitfield} {timeoutSeconds numChunks : Int}
    {clock : Nat → Int} {chunk : Nat} {after : TorrentData} {out : List (Option Nat)}
    (claims : td.claimChunk interested timeoutSeconds numChunks clock = .ok (after, exit, out))
    (member : some chunk ∈ out)
    : chunk / 8 < interested.bytesCount := by
  unfold TorrentData.claimChunk at claims
  split at claims
  · split at claims
    · cases claims
    · obtain ⟨⟨_, _⟩, loop, same⟩ := bind_eq_ok.mp claims
      cases same
      exact claimLoop_inside loop member
  · cases claims
    cases member

theorem prepareRequested_voice (prepared : p.prepareRequested = .ok next)
    (small : ∀ field, p.utMetadataRequested = some field → field.bitCount < 2 ^ 31)
    : next.socket = p.socket
      ∧ next.status = p.status
      ∧ next.told = p.told
      ∧ ∀ field, next.utMetadataRequested = some field → field.bitCount < 2 ^ 31 := by
  unfold Peer.prepareRequested at prepared
  split at prepared
  · cases prepared
    exact ⟨rfl, rfl, rfl, small⟩
  · obtain ⟨made, makes, same⟩ := bind_eq_ok.mp prepared
    cases same
    refine ⟨rfl, rfl, rfl, fun field present => ?_⟩
    obtain ⟨_, counted, fits⟩ :=
      Bitfield.spareSet_of_new true ((Bitfield.eq_new_of_make makes).symm.trans present)
    omega

theorem Conversing.sendUtMetadataRequest {torrentMetadata after : TorrentData}
    {clock : Nat → Int} (conversing : p.Conversing infoHash wire)
    (sent : p.sendUtMetadataRequest torrentMetadata clock = .ok (next, after, exit))
    : next.Informed infoHash wire := by
  obtain ⟨prepared, prepares, sent⟩ := bind_eq_ok.mp sent
  obtain ⟨socket, status, told, small⟩ := prepareRequested_voice prepares conversing.requested
  have kept : prepared.Informed infoHash wire := by
    have quiet : p.SameVoice { prepared with utMetadataRequested := p.utMetadataRequested } :=
      ⟨congrArg _ socket, status, told, rfl⟩
    have informed := quiet.informed conversing.toInformed
    exact { informed with requested := small }
  obtain ⟨initialised, _, sent⟩ := bind_eq_ok.mp sent
  split at sent
  · split at sent
    · cases sent
      exact kept
    · cases sent
  rename_i requested present
  obtain ⟨⟨claimed, claimExit, chunks⟩, claims, sent⟩ := bind_eq_ok.mp sent
  split at sent
  · rename_i chunk rest taken
    cases taken
    obtain ⟨⟨_, _⟩, wrote, same⟩ := bind_eq_ok.mp sent
    cases same
    have few := small requested present
    have inside := claimChunk_inside claims List.mem_cons_self
    rw [Bitfield.bytesCount_eq] at inside
    have length : (BeNode.requestDict chunk).encode.length ≤ 1000 :=
      (BeNode.request_encoded (by omega) (by omega)).length_le
    have heard : prepared.told.listen (prepared.utMetadataRequest chunk) = some prepared.told :=
      prepared.told.listen_extension (lt_of_le_of_lt (Nat.add_le_add_left length 2) (by decide))
    refine (kept.say wrote heard (.inr (status.trans conversing.complete)) rfl rfl ?_
      (fun _ => rfl)).1
    rintro field ⟨⟩
    rw [Bitfield.setBit_bitCount]
    exact few
  · cases sent
    exact kept

/-- A REQUEST message, whatever the chunk. -/
theorem listen_requestMessage {told : Told} {chunk : Int} (interested : told.interested = true)
    (made : td.requestMessage chunk stack = .ok message)
    : told.listen message = some told := by
  obtain ⟨⟨_, chunkInfo⟩, _, made⟩ := bind_eq_ok.mp made
  cases made
  exact told.listen_request _ _ _ interested

/-- The loop over the claimed chunks, by induction on the chunks. -/
theorem Conversing.sendRequests {chunks : List (Option Nat)}
    (conversing : p.Conversing infoHash wire) (interested : p.amInterested = true)
    (sent : Peer.sendRequests td stack chunks p = .ok (next, exit))
    : next.Conversing infoHash wire := by
  induction chunks generalizing p with
  | nil =>
      cases sent
      exact conversing
  | cons chunk rest ih =>
      cases chunk with
      | none =>
          cases sent
          exact conversing
      | some chunk =>
          obtain ⟨request, made, sent⟩ := bind_eq_ok.mp sent
          obtain ⟨⟨written, result⟩, wrote, sent⟩ := bind_eq_ok.mp sent
          have heard := @listen_requestMessage _ _ _ p.told _ interested made
          obtain ⟨kept, told, _⟩ := conversing.say wrote heard rfl rfl rfl
          dsimp only at sent
          split at sent
          · cases sent
            exact kept
          · have counted : written.SameVoice
                { written with pendingRequestCount := wrap32 (written.pendingRequestCount + 1) } :=
              ⟨rfl, rfl, rfl, rfl⟩
            exact ih (counted.conversing kept) ((congrArg Told.interested told).trans interested)
              sent

theorem Conversing.sendMsgRequest {after : TorrentData} {clock : Nat → Int}
    (conversing : p.Conversing infoHash wire) (interested : p.amInterested = true)
    (sent : p.sendMsgRequest td stack clock = .ok (next, after, exit))
    : next.Conversing infoHash wire := by
  unfold Peer.sendMsgRequest at sent
  split at sent
  · cases sent
  obtain ⟨_, _, sent⟩ := bind_eq_ok.mp sent
  split at sent
  · obtain ⟨⟨claimed, claimExit, chunks⟩, _, sent⟩ := bind_eq_ok.mp sent
    cases claimExit with
    | failure =>
        cases sent
        exact conversing
    | success =>
        obtain ⟨⟨_, _⟩, requested, same⟩ := bind_eq_ok.mp sent
        cases same
        exact conversing.sendRequests interested requested
  · cases sent
    exact conversing

theorem Informed.runRequests {torrentMetadata afterMetadata after : TorrentData}
    {outcome : RunOutcome} (informed : p.Informed infoHash wire)
    (ran : p.runRequests torrentMetadata td outcome = .ok (next, afterMetadata, after))
    : next.Informed infoHash wire := by
  obtain ⟨⟨asked, metadata⟩, asking, ran⟩ := bind_eq_ok.mp ran
  have kept : asked.Informed infoHash wire := by
    split at asking
    · rename_i due
      obtain ⟨⟨_, _, _⟩, sent, same⟩ := bind_eq_ok.mp asking
      cases same
      simp only [shouldSendUtMetadataRequest, decide_eq_true_eq] at due
      have conversing : p.Conversing infoHash wire := ⟨informed, due.2.2⟩
      exact conversing.sendUtMetadataRequest sent
    · cases asking
      exact informed
  dsimp only at ran
  split at ran
  · rename_i due
    obtain ⟨⟨_, _, _⟩, sent, same⟩ := bind_eq_ok.mp ran
    cases same
    simp only [shouldSendMsgRequest, decide_eq_true_eq] at due
    have conversing : asked.Conversing infoHash wire := ⟨kept, due.1⟩
    exact (conversing.sendMsgRequest due.2.2.2.2 sent).toInformed
  · cases ran
    exact kept

-----------------------------------------------------------------------------------------
-- Reading a message
-----------------------------------------------------------------------------------------

/-- What is loaded of a message is not told. -/
theorem reader_voice (p : Peer) (networkOrderedMsgLength : Bytes)
    (networkOrderedMsgLengthLoaded : Bool) (msgId : UInt8) (msgIdLoaded : Bool)
    : p.SameVoice
        {
          p with
          networkOrderedMsgLength
          networkOrderedMsgLengthLoaded
          msgId
          msgIdLoaded
        } :=
  ⟨rfl, rfl, rfl, rfl⟩

theorem Informed.read (informed : p.Informed infoHash wire) (count : Nat)
    : (p.read count).1.Informed infoHash wire :=
  (read_voice p count).informed informed

theorem Informed.loadLength (informed : p.Informed infoHash wire) (now : Int)
    : (p.loadLength now).2.Informed infoHash wire := by
  have reads := informed.read 4
  unfold Peer.loadLength
  split
  · exact informed
  dsimp only
  split
  · exact (reader_voice ..).informed reads
  split
  · exact reads.disconnect now
  · exact reads

theorem Informed.loadMsgId (informed : p.Informed infoHash wire) (now : Int)
    : (p.loadMsgId now).2.Informed infoHash wire := by
  have reads := informed.read 1
  unfold Peer.loadMsgId
  split
  · exact informed
  dsimp only
  split
  · exact (reader_voice ..).informed reads
  split
  · exact reads.disconnect now
  · exact reads

theorem Informed.loadPayload (informed : p.Informed infoHash wire) (now : Int)
    : (p.loadPayload now).1.Informed infoHash wire := by
  have reads := informed.read (4 + ofBe32 p.networkOrderedMsgLength - 5)
  unfold Peer.loadPayload
  split
  · exact informed.disconnect now
  dsimp only
  split
  · exact informed
  split
  · split
    · exact reads.disconnect now
    split
    · exact reads
    · exact (reader_voice ..).informed reads
  · exact (reader_voice ..).informed informed

theorem Informed.readMessage (informed : p.Informed infoHash wire) (now : Int)
    : (p.readMessage now).1.Informed infoHash wire := by
  have length := informed.loadLength now
  unfold Peer.readMessage
  cases loaded : p.loadLength now with
  | mk goesOn next =>
      rw [loaded] at length
      cases goesOn with
      | false => exact length
      | true =>
          have id := length.loadMsgId now
          dsimp only
          cases identified : next.loadMsgId now with
          | mk goesOn last =>
              rw [identified] at id
              cases goesOn with
              | false => exact id
              | true => exact id.loadPayload now

-----------------------------------------------------------------------------------------
-- Handling a message
-----------------------------------------------------------------------------------------

theorem Conversing.handleMsgHave {request : Message} (conversing : p.Conversing infoHash wire)
    (handled : p.handleMsgHave td request stack = .ok next)
    : next.Conversing infoHash wire := by
  unfold Peer.handleMsgHave at handled
  split at handled
  · cases handled
  split at handled
  · cases handled
  · rename_i field _
    have noted : p.SameVoice
        { p with peerBitfield := some (field.setBit (wrap32 request.index) 1) } :=
      ⟨rfl, rfl, rfl, rfl⟩
    exact (noted.conversing conversing).updateInterested handled

theorem Conversing.handleMsgBitfield {request : Message} (conversing : p.Conversing infoHash wire)
    (handled : p.handleMsgBitfield td request stack = .ok next)
    : next.Conversing infoHash wire := by
  unfold Peer.handleMsgBitfield at handled
  dsimp only at handled
  split at handled
  · cases handled
  · obtain ⟨copied, _, handled⟩ := bind_eq_ok.mp handled
    have noted : p.SameVoice { p with peerBitfield := some copied } := ⟨rfl, rfl, rfl, rfl⟩
    exact (noted.conversing conversing).updateInterested handled

/-- A PIECE message is framed when its block leaves room for the header. -/
theorem Conversing.handleMsgRequest {disk : Disk} {request : Message}
    {reads : Nat → Nat → ReadOutcome} {steps : Nat} {written : Option Bytes}
    (conversing : p.Conversing infoHash wire)
    (bounded : requestedLength request.bytes ≤ 2 ^ 32 - 10)
    (handled : p.handleMsgRequest td disk request reads stack steps = .ok (next, written))
    : next.Conversing infoHash wire := by
  unfold Peer.handleMsgRequest at handled
  split at handled
  · cases handled
  rename_i long
  obtain ⟨⟨_, read⟩, readRun, handled⟩ := bind_eq_ok.mp handled
  obtain ⟨⟨_, _⟩, wrote, same⟩ := bind_eq_ok.mp handled
  cases same
  have copied := (TorrentData.readLoop_length (Nat.zero_le _)
    (Nat.lt_of_le_of_lt bounded (by decide)) readRun).1
  have heard (block : Bytes) (sized : block.length = requestedLength request.bytes)
      : p.told.listen (pieceMessage request.bytes block) = some p.told :=
    p.told.listen_piece (by omega) (sized.trans_le bounded)
  have sized : (read ++ List.replicate (requestedLength request.bytes - read.length) 0).length
      = requestedLength request.bytes := by
    rw [List.length_append, List.length_replicate]
    omega
  exact (conversing.say wrote (heard _ sized) rfl rfl rfl).1

theorem Conversing.handleUtMetadataRequest {torrentMetadata : TorrentData} {disk : Disk}
    {chunkId : Int} {reads : Nat → Nat → ReadOutcome} {steps : Nat}
    (conversing : p.Conversing infoHash wire)
    (handled
      : p.handleUtMetadataRequest chunkId torrentMetadata disk reads stack steps = .ok next)
    : next.Conversing infoHash wire := by
  unfold Peer.handleUtMetadataRequest at handled
  split at handled
  · obtain ⟨⟨_, chunkInfo⟩, _, handled⟩ := bind_eq_ok.mp handled
    dsimp only at handled
    split at handled
    · cases handled
    rename_i room
    obtain ⟨⟨_, read⟩, readRun, handled⟩ := bind_eq_ok.mp handled
    obtain ⟨⟨_, _⟩, wrote, same⟩ := bind_eq_ok.mp handled
    cases same
    have copied := (TorrentData.readLoop_length (Nat.zero_le _) (by omega) readRun).1
    have sized : (read ++ List.replicate (chunkInfo.chunkSize - read.length) 0).length
        = chunkInfo.chunkSize := by
      rw [List.length_append, List.length_replicate]
      omega
    refine (conversing.say wrote (p.told.listen_extension ?_) rfl rfl rfl).1
    rw [List.length_append, sized]
    omega
  · cases handled
    exact conversing

theorem handleUtMetadataHandshake_voice (p : Peer) (decoded : Option BeNode)
    : p.SameVoice (p.handleUtMetadataHandshake decoded).1 := by
  unfold Peer.handleUtMetadataHandshake
  split
  · exact .refl p
  · split
    · exact .refl p
    · exact ⟨rfl, rfl, rfl, rfl⟩

theorem Informed.handleExtendedHandshake (informed : p.Informed infoHash wire)
    (decoded : Option BeNode) (now : Int)
    : (p.handleExtendedHandshake decoded now).Informed infoHash wire := by
  have noted := (handleUtMetadataHandshake_voice p decoded).informed informed
  unfold Peer.handleExtendedHandshake
  split
  · rename_i same
    rwa [same] at noted
  · rename_i same
    rw [same] at noted
    exact noted.disconnect now

theorem Conversing.handleMsgExtension {beDecode : BeDecode} {torrentMetadata : TorrentData}
    {disk : Disk} {request : Message} {reads : Nat → Nat → ReadOutcome} {steps : Nat}
    {queue : Option MainQueue} (conversing : p.Conversing infoHash wire)
    (handled
      : p.handleMsgExtension beDecode torrentMetadata disk request reads stack steps now
        = .ok (next, queue))
    : next.Informed infoHash wire := by
  have informed := conversing.toInformed
  unfold Peer.handleMsgExtension at handled
  split at handled
  · cases handled
  dsimp only at handled
  split at handled
  · cases handled
    exact informed.handleExtendedHandshake ..
  split at handled
  · split at handled
    · cases handled
      exact informed.disconnect now
    split at handled
    · obtain ⟨_, answered, same⟩ := bind_eq_ok.mp handled
      cases same
      exact (conversing.handleUtMetadataRequest answered).toInformed
    split at handled
    · cases handled
      exact informed
    split at handled
    · cases handled
      have rejected : p.SameVoice { p with utMetadata := 0 } := ⟨rfl, rfl, rfl, rfl⟩
      exact rejected.informed informed
    · cases handled
      exact informed
  · cases handled
    exact informed

/-- A REQUEST asks for a block that leaves room for the header of a PIECE message. -/
def AsksWithinBounds (bytes : Bytes) : Prop :=
  bytes[4]?.map UInt8.toNat = some 6 → requestedLength bytes ≤ 2 ^ 32 - 10

instance (bytes : Bytes) : Decidable (AsksWithinBounds bytes) := inferInstanceAs (Decidable (_ → _))

theorem Conversing.handleMessage {beDecode : BeDecode} {torrentMetadata : TorrentData}
    {disk : Disk} {request : Message} {outcome : RunOutcome} {queue : Option MainQueue}
    (conversing : p.Conversing infoHash wire) (bounded : AsksWithinBounds request.bytes)
    (handled
      : p.handleMessage beDecode torrentMetadata td disk request outcome = .ok (next, queue))
    : next.Informed infoHash wire := by
  have informed := conversing.toInformed
  have noted (peerChoking peerInterested : Bool)
      : p.SameVoice { p with peerChoking, peerInterested } :=
    ⟨rfl, rfl, rfl, rfl⟩
  unfold Peer.handleMessage at handled
  split at handled
  case h_1 | h_2 | h_3 | h_4 =>
    cases handled
    exact (noted _ _).informed informed
  case h_5 =>
    obtain ⟨_, answered, same⟩ := bind_eq_ok.mp handled
    cases same
    exact (conversing.handleMsgHave answered).toInformed
  case h_6 =>
    obtain ⟨_, answered, same⟩ := bind_eq_ok.mp handled
    cases same
    exact (conversing.handleMsgBitfield answered).toInformed
  case h_7 =>
    rename_i asks
    obtain ⟨⟨_, _⟩, answered, same⟩ := bind_eq_ok.mp handled
    cases same
    exact (conversing.handleMsgRequest (bounded asks) answered).toInformed
  case h_8 =>
    cases handled
    have counted : p.SameVoice p.handleMsgPiece := ⟨rfl, rfl, rfl, rfl⟩
    exact counted.informed informed
  case h_9 => exact conversing.handleMsgExtension handled
  case h_10 =>
    cases handled
    exact informed

/-- The message that a peer reads now. -/
def messageRead (p : Peer) (now : Int) : Option Bytes :=
  if p.shouldReadMessage then (p.readMessage now).2 else none

theorem Informed.runMessage {beDecode : BeDecode} {torrentMetadata : TorrentData} {disk : Disk}
    {outcome : RunOutcome} {queued : Option (MainQueue × Bytes)}
    (informed : p.Informed infoHash wire)
    (bounded : ∀ bytes, p.messageRead outcome.now = some bytes → AsksWithinBounds bytes)
    (ran : p.runMessage beDecode torrentMetadata td disk outcome = .ok (next, queued))
    : next.Informed infoHash wire := by
  have reads := informed.readMessage outcome.now
  have returned := (readMessage_within p outcome.now).2
  unfold Peer.runMessage at ran
  split at ran
  · rename_i due
    rw [messageRead, if_pos due] at bounded
    simp only [shouldReadMessage, Bool.and_eq_true, beq_iff_eq] at due
    split at ran
    · rename_i read
      rw [read] at reads
      cases ran
      exact reads
    · rename_i read
      rw [read] at reads bounded returned
      split at ran
      · obtain ⟨⟨_, _⟩, handled, same⟩ := bind_eq_ok.mp ran
        cases same
        have complete := ((returned rfl).status_eq (by simp)).trans due.1
        exact Conversing.handleMessage ⟨reads, complete⟩ (bounded _ rfl) handled
      · cases ran
  · cases ran
    exact informed

-----------------------------------------------------------------------------------------
-- Silence and the network
-----------------------------------------------------------------------------------------

theorem Informed.runSilence {lastUpdate : Int} (informed : p.Informed infoHash wire)
    (ran : p.runSilence lastUpdate now = .ok next)
    : next.Informed infoHash wire := by
  obtain ⟨kept, keeping, same⟩ := bind_eq_ok.mp ran
  have waits : kept.Informed infoHash wire := by
    split at keeping
    · rename_i due
      obtain ⟨⟨_, _⟩, sent, same⟩ := bind_eq_ok.mp keeping
      cases same
      obtain ⟨⟨_, _⟩, wrote, same⟩ := bind_eq_ok.mp sent
      cases same
      simp only [shouldSendKeepalive, decide_eq_true_eq] at due
      have conversing : p.Conversing infoHash wire := ⟨informed, due.2.1⟩
      exact (conversing.say wrote p.told.listen_keepAlive rfl rfl rfl).1.toInformed
    · cases keeping
      exact informed
  obtain rfl := Except.ok.inj same
  split
  · exact waits.disconnect now
  · exact waits

/-- The bytes that `write(2)` takes when the network buffers are handled. -/
def bytesSent (p : Peer) (outcome : NetworkOutcome) : Bytes :=
  match p.socket with
  | none => []
  | some socket =>
      if socket.canNetworkWrite ∧ ¬ outcome.hungUp then
        match socket.networkWrite outcome.sends with
        | .ok (_, _, sent) => sent
        | .error _ => []
      else []

/-- Bytes are left in the write buffers that nothing is put behind. -/
def strands (p : Peer) : Bool := p.socket.any BufferedSocket.strands

end Peer

end UvgTorrent

import UvgTorrent.Peers.Conversations
import UvgTorrent.Peers.MetadataClaims

/-! A peer over its life: its connections, their handshakes, and what the runs of `peer_run` put on
the wire. As long as no flush strands bytes, the peer knows at any time what we have noted down.
-/

namespace UvgTorrent

open Foundations

namespace Peer

variable {p q next : Peer} {infoHash : InfoHash} {wire message : Bytes} {now : Int} {exit : Exit}

-----------------------------------------------------------------------------------------
-- The network buffers
-----------------------------------------------------------------------------------------

/-- The write half of handling the network buffers, when it returns. -/
theorem flush_cases {socket flushed : BufferedSocket} {outcomes : Nat → SendOutcome} {result : Nat}
    (flushing
      : (if socket.canNetworkWrite then
          (socket.networkWrite outcomes).bind fun (socket, result, _) => .ok (socket, result)
        else .ok (socket, 1)) = (.ok (flushed, result) : Except Fault (BufferedSocket × Nat)))
    : (socket.canNetworkWrite = true
        ∧ ∃ sent, socket.networkWrite outcomes = .ok (flushed, result, sent))
      ∨ (socket.canNetworkWrite = false ∧ flushed = socket) := by
  split at flushing
  · rename_i able
    obtain ⟨⟨_, _, sent⟩, wrote, same⟩ := bind_eq_ok.mp flushing
    cases same
    exact .inl ⟨able, sent, wrote⟩
  · rename_i idle
    cases flushing
    exact .inr ⟨Bool.eq_false_iff.mpr idle, rfl⟩

/-- What a flush takes from the write buffers it puts on the wire. -/
theorem Informed.flush {socket flushed : BufferedSocket} {outcome : NetworkOutcome} {result : Nat}
    (informed : p.Informed infoHash wire) (present : p.socket = some socket)
    (opened : socket.socket ≠ -1) (connected : outcome.hungUp = false)
    (flushing
      : (if socket.canNetworkWrite then
          (socket.networkWrite outcome.sends).bind fun (socket, result, _) => .ok (socket, result)
        else .ok (socket, 1)) = (.ok (flushed, result) : Except Fault (BufferedSocket × Nat)))
    (kept : flushed.strands = false)
    : { p with socket := some flushed }.Informed infoHash (wire ++ p.bytesSent outcome) := by
  have ready := informed.ready socket present opened
  rcases flush_cases flushing with ⟨able, sent, wrote⟩ | ⟨idle, rfl⟩
  · obtain ⟨linked, bytes⟩ := ready.networkWrite wrote
    have onWire : p.bytesSent outcome = sent := by
      simp only [bytesSent, present, able, connected, wrote]
      rfl
    have descriptor : flushed.socket = socket.socket := BufferedSocket.networkWrite_socket wrote
    have appends : flushed.writeBufferTail ≠ none ∨ flushed.pending = [] := by
      simp only [BufferedSocket.strands, Bool.and_eq_false_iff, decide_eq_false_iff_not,
        not_not] at kept
      exact kept.imp_left fun tailed none => by simp [none] at tailed
    constructor
    case fresh => exact informed.fresh
    case gone =>
      intro unconnected
      rw [informed.gone unconnected] at present
      cases present
    case opened => exact fun _ => ⟨flushed, rfl, by rwa [descriptor]⟩
    case ready =>
      rintro _ ⟨⟩ _
      exact ⟨linked, appends⟩
    case requested => exact informed.requested
    case heard =>
      intro connectedPeer
      have before := informed.heard connectedPeer
      have outgoing : p.outgoing = sent ++ flushed.pending := by
        rw [Peer.outgoing, present, bytes]
      rw [outgoing, ← List.append_assoc] at before
      rwa [onWire]
  · have nothing : p.bytesSent outcome = [] := by
      simp only [bytesSent, present, idle]
      rfl
    have same : { p with socket := some flushed } = p := by rw [← present]
    rwa [nothing, List.append_nil, same]

theorem Informed.runNetworkBuffers {outcome : NetworkOutcome} (informed : p.Informed infoHash wire)
    (ran : p.runNetworkBuffers outcome now = .ok (next, exit)) (kept : next.strands = false)
    : next.Informed infoHash (wire ++ p.bytesSent outcome) := by
  unfold Peer.runNetworkBuffers at ran
  cases present : p.socket with
  | none =>
      have idle : p.shouldHandleNetworkBuffers outcome = false := by
        rw [shouldHandleNetworkBuffers, present]
      rw [if_neg (by simp [idle])] at ran
      cases ran
      have nothing : p.bytesSent outcome = [] := by rw [bytesSent, present]
      rwa [nothing, List.append_nil]
  | some socket =>
  split at ran
  · rename_i due
    simp only [shouldHandleNetworkBuffers, present, decide_eq_true_eq] at due
    simp only [handleNetworkBuffers, present] at ran
    split at ran
    · cases ran
      exact informed.disconnect now
    rename_i hungUp
    obtain ⟨⟨flushed, result⟩, flushing, ran⟩ := bind_eq_ok.mp ran
    dsimp only at ran
    have flushes (kept : flushed.strands = false) :=
      informed.flush present due.1 (Bool.eq_false_iff.mpr hungUp) flushing kept
    split at ran
    · cases ran
      exact informed.disconnect now
    split at ran
    · cases ran
      exact flushes kept
    · rename_i segment _
      cases ran
      have same := flushed.networkRead_output (some segment.bytes)
      have read := networkRead_voice { p with socket := some flushed } (some segment.bytes)
      exact read.informed (flushes ((BufferedSocket.strands_of_output same).symm.trans kept))
    · split at ran
      · cases ran
        exact flushes kept
      · cases ran
        exact informed.disconnect now
  · rename_i idle
    cases ran
    have nothing : p.bytesSent outcome = [] := by
      rw [bytesSent, present]
      refine if_neg fun able => idle ?_
      have connected : socket.socket ≠ -1 := by
        have canWrite := able.1
        simp only [BufferedSocket.canNetworkWrite, decide_eq_true_eq] at canWrite
        exact canWrite.1
      simp only [shouldHandleNetworkBuffers, present, decide_eq_true_eq]
      exact ⟨connected, .inl able.1⟩
    rwa [nothing, List.append_nil]

-----------------------------------------------------------------------------------------
-- The handshake
-----------------------------------------------------------------------------------------

theorem observe_eq_none {stream : Bytes} (silent : observe infoHash stream = some none)
    : stream = [] := by
  unfold observe at silent
  split at silent
  · assumption
  · split at silent
    · obtain ⟨_, _, impossible⟩ := Option.map_eq_some_iff.mp silent
      cases impossible
    · cases silent

/-- On a new connection nothing was said. -/
theorem Informed.connect (informed : p.Informed infoHash wire) (idle : p.status = .unconnected)
    (descriptor : Int)
    : (p.connect descriptor).Informed infoHash [] where
  fresh := fun _ => informed.fresh (by simp [idle])
  gone := by
    intro unconnected
    cases unconnected
  opened := fun greeted => by rcases greeted with greeted | greeted <;> cases greeted
  ready := by
    rintro _ ⟨⟩ connected
    exact .new connected
  requested := informed.requested
  heard := fun _ => observe_nil

theorem Informed.sendHandshake (informed : p.Informed infoHash wire) {canWrite : Bool}
    (due : p.shouldSendHandshake canWrite = true)
    (sent : p.sendHandshake infoHash = .ok (next, exit))
    : next.Informed infoHash wire := by
  obtain ⟨connected, opened⟩ := takesWrites_of_shouldSendHandshake due
  obtain ⟨⟨written, result⟩, wrote, sent⟩ := bind_eq_ok.mp sent
  obtain ⟨outgoing, sized, socket, present, connectedTo, ready⟩ := informed.write opened rfl wrote
  rw [handshakeMessage_length] at sized
  obtain ⟨_, rfl⟩ := write_eq wrote
  dsimp only at sent
  rw [if_neg (by simp [sized])] at sent
  cases sent
  have before := informed.heard (by simp [connected])
  have told := informed.fresh (by simp [connected])
  rw [knowledge, if_neg (by rw [connected]; simp)] at before
  have nothing := observe_eq_none before
  constructor
  case fresh => exact fun _ => told
  case gone =>
    intro unconnected
    cases unconnected
  case opened => exact fun _ => ⟨socket, present, connectedTo⟩
  case ready =>
    intro other present' _
    cases present.symm.trans present'
    exact ready
  case requested => exact informed.requested
  case heard =>
    intro _
    have said
        : observe infoHash (wire ++ (p.outgoing ++ handshakeMessage infoHash))
          = some (some p.told) := by
      rw [← List.append_assoc, nothing, List.nil_append, told, observe_handshake]
    rw [← outgoing] at said
    exact said

/-- The handshake is complete, whether an extended one is sent or not. -/
theorem Informed.handleHandshake {metadataSize : Nat} (informed : p.Informed infoHash wire)
    (due : p.shouldHandleHandshake = true)
    (handled : p.handleHandshake infoHash metadataSize = .ok (next, exit))
    : exit = .success → next.Informed infoHash wire := by
  have greeted := (takesWrites_of_shouldHandleHandshake due).1
  have reads := informed.read 68
  have status : (p.read 68).1.status = .handshakeSent := (read_voice p 68).status.trans greeted
  have completes {q : Peer} (kept : q.Informed infoHash wire) (sent : q.status = .handshakeSent)
      : { q with status := .handshakeComplete }.Informed infoHash wire := by
    have heard := kept.heard (by simp [sent])
    rw [knowledge, if_pos (.inl sent)] at heard
    exact ⟨fun early => absurd rfl early, by simp, fun _ => kept.opened (.inl sent), kept.ready,
      kept.requested, fun _ => heard⟩
  unfold Peer.handleHandshake at handled
  dsimp only at handled
  split at handled
  · cases handled
    intro succeeded
    cases succeeded
  split at handled
  · cases handled
    intro succeeded
    cases succeeded
  split at handled
  · obtain ⟨⟨written, result⟩, wrote, handled⟩ := bind_eq_ok.mp handled
    dsimp only at handled
    split at handled
    · cases handled
      intro succeeded
      cases succeeded
    · cases handled
      intro _
      have length : (extendedHandshake metadataSize).encode.length ≤ 1000 :=
        (BeNode.handshake_encoded metadataSize).length_le
      have heard
          : (p.read 68).1.told.listen (extensionMessage 0 (extendedHandshake metadataSize).encode)
            = some (p.read 68).1.told :=
        Told.listen_extension (lt_of_le_of_lt (Nat.add_le_add_left length 2) (by decide))
      have said := (reads.say wrote heard (.inl status) rfl rfl reads.requested fun _ => rfl).1
      obtain ⟨_, rfl⟩ := write_eq wrote
      exact completes said status
  · cases handled
    exact fun _ => completes reads status

/-- A step that keeps the peer informed, under its guard. -/
theorem Informed.runStep {guard : Bool} {step : Except Fault (Peer × Exit)}
    (informed : p.Informed infoHash wire)
    (steps
      : ∀ stepped,
          guard = true → step = .ok (stepped, .success) → stepped.Informed infoHash wire)
    (requests
      : ∀ stepped,
          guard = true
          → step = .ok (stepped, .failure)
          → stepped.utMetadataRequested = p.utMetadataRequested)
    (ran : p.runStep guard step now = .ok (next, exit))
    : next.Informed infoHash wire := by
  unfold Peer.runStep at ran
  split at ran
  · rename_i made
    obtain ⟨⟨stepped, result⟩, returned, ran⟩ := bind_eq_ok.mp ran
    cases result with
    | success =>
        cases ran
        exact steps _ made returned
    | failure =>
        cases ran
        refine ⟨fun _ => rfl, fun _ => rfl, ?_, ?_, ?_, fun connected => absurd rfl connected⟩
        · rintro (greeted | greeted) <;> cases greeted
        · intro socket present
          cases present
        · have kept := requests stepped made returned
          exact fun field present => informed.requested field (kept.symm.trans present)
  · cases ran
    exact informed

/-- Without a connection it does not matter what is on the wire. -/
theorem Informed.of_unconnected {other : Bytes} (informed : p.Informed infoHash wire)
    (unconnected : p.status = .unconnected)
    : p.Informed infoHash other :=
  { informed with heard := fun connected => absurd unconnected connected }

/-- The peer behind the first step of `peer_run`, which connects it if that is due. -/
def opening (p : Peer) (outcome : ConnectionOutcome) : Peer :=
  if p.shouldConnect outcome.now then p.connect outcome.descriptor else p

theorem Informed.opening (informed : p.Informed infoHash wire)
    (closed : p.status = .unconnected → wire = []) (outcome : ConnectionOutcome)
    : (p.opening outcome).Informed infoHash wire := by
  unfold Peer.opening
  split
  · rename_i due
    simp only [shouldConnect, Bool.and_eq_true, beq_iff_eq] at due
    rw [closed due.1]
    exact informed.connect due.1 outcome.descriptor
  · exact informed

theorem Informed.runHandshake {metadataSize : Nat} {outcome : ConnectionOutcome}
    (informed : p.Informed infoHash wire) (closed : p.status = .unconnected → wire = [])
    (kept
      : ∀ flushed,
          (p.opening outcome).runNetworkBuffers outcome.network outcome.now = .ok flushed
          → flushed.1.strands = false)
    (ran : p.runHandshake infoHash metadataSize outcome = .ok (next, exit))
    : next.Informed infoHash (wire ++ (p.opening outcome).bytesSent outcome.network) := by
  unfold Peer.runHandshake at ran
  obtain ⟨⟨flushed, first⟩, flushing, ran⟩ := bind_eq_ok.mp ran
  have flushes :=
    (informed.opening closed outcome).runNetworkBuffers flushing (kept _ flushing)
  cases first with
  | failure =>
      cases ran
      exact flushes
  | success =>
      obtain ⟨⟨greeted, second⟩, greeting, ran⟩ := bind_eq_ok.mp ran
      have greets := flushes.runStep (fun _ due sent => flushes.sendHandshake due sent)
        (fun _ due sent => (sendHandshake_within due sent).utMetadataRequested_eq (by simp))
        greeting
      cases second with
      | failure =>
          cases ran
          exact greets
      | success =>
          exact greets.runStep (fun _ due handled => greets.handleHandshake due handled rfl)
            (fun _ due handled => (handleHandshake_within due handled).utMetadataRequested_eq
              (by simp))
            ran

-----------------------------------------------------------------------------------------
-- A whole run
-----------------------------------------------------------------------------------------

/-- `peer_run` up to its last flush. -/
def runUnflushed (beDecode : BeDecode) (p : Peer) (input : RunInput) : Except Fault (Peer × Exit) :=
  (p.runHandshake input.infoHash input.torrentMetadata.dataSize input.outcome.connection).bind fun
    | (p, .failure) => .ok (p, .failure)
    | (p, .success) =>
        (p.runAdverts input.torrentData input.outcome.stack).bind fun (p, _) =>
          (p.runRequests input.torrentMetadata input.torrentData input.outcome).bind
            fun (p, torrentMetadata, torrentData) =>
              p.runChoking.bind fun p =>
                (p.runMessage beDecode torrentMetadata torrentData input.disk input.outcome).bind
                  fun (p, _) =>
                    (p.runSilence input.outcome.lastUpdate input.outcome.now).bind fun p =>
                      .ok (p, .success)

/-- The bytes that `write(2)` takes in a run: in the flush before the handshake, and in the last
one.
-/
def runSends (beDecode : BeDecode) (p : Peer) (input : RunInput) : Except Fault Bytes :=
  (p.runUnflushed beDecode input).bind fun (last, exit) =>
    .ok
      ((p.opening input.outcome.connection).bytesSent input.outcome.connection.network
        ++ match exit with
          | .failure => []
          | .success => last.bytesSent input.outcome.network)

/-- A run is what comes before its last flush, and the flush. -/
theorem runOn_flushes {beDecode : BeDecode} {input : RunInput} {result : RunResult}
    (ran : p.runOn beDecode input = .ok result)
    : ∃ last exit,
        p.runUnflushed beDecode input = .ok (last, exit)
        ∧ (exit = .failure ∧ result.peer = { last with running := false }
          ∨ exit = .success
            ∧ ∃ flushed outcome,
                last.runNetworkBuffers input.outcome.network input.outcome.now
                  = .ok (flushed, outcome)
                ∧ result.peer = { flushed with running := false }) := by
  obtain ⟨⟨greeted, exit⟩, greeting, ran⟩ := bind_eq_ok.mp ran
  cases exit with
  | failure =>
      cases ran
      exact ⟨greeted, .failure, bind_of_ok greeting _, .inl ⟨rfl, rfl⟩⟩
  | success =>
      obtain ⟨⟨told, adverts⟩, telling, ran⟩ := bind_eq_ok.mp ran
      obtain ⟨behind, running, same⟩ := bind_eq_ok.mp ran
      obtain ⟨⟨asked, metadata, data⟩, asking, running⟩ := bind_eq_ok.mp running
      obtain ⟨choked, choking, running⟩ := bind_eq_ok.mp running
      obtain ⟨⟨read, queued⟩, reading, running⟩ := bind_eq_ok.mp running
      obtain ⟨waited, waiting, running⟩ := bind_eq_ok.mp running
      obtain ⟨⟨flushed, outcome⟩, flushing, running⟩ := bind_eq_ok.mp running
      cases running
      cases same
      refine ⟨waited, .success, ?_, .inr ⟨rfl, flushed, outcome, flushing, rfl⟩⟩
      rw [runUnflushed, bind_of_ok greeting]
      dsimp only
      rw [bind_of_ok telling]
      dsimp only
      rw [bind_of_ok asking]
      dsimp only
      rw [bind_of_ok choking, bind_of_ok reading]
      dsimp only
      rw [bind_of_ok waiting]

/-- Only a handshake ends a run before its last flush, with the connection. -/
theorem runUnflushed_failure {beDecode : BeDecode} {input : RunInput}
    (ran : p.runUnflushed beDecode input = .ok (next, .failure))
    : next.status = .unconnected := by
  obtain ⟨⟨greeted, result⟩, greeting, ran⟩ := bind_eq_ok.mp ran
  cases result with
  | failure =>
      cases ran
      exact (runHandshake_within greeting).2 rfl
  | success =>
      obtain ⟨_, _, ran⟩ := bind_eq_ok.mp ran
      obtain ⟨_, _, ran⟩ := bind_eq_ok.mp ran
      obtain ⟨_, _, ran⟩ := bind_eq_ok.mp ran
      obtain ⟨_, _, ran⟩ := bind_eq_ok.mp ran
      obtain ⟨_, _, ran⟩ := bind_eq_ok.mp ran
      cases ran

/-- The message that a run reads, once it has come so far. -/
theorem traffic_received {input : RunInput} {greeted told asked choked : Peer}
    {adverts : List Advert} {metadata data : TorrentData}
    (greeting
      : p.runHandshake input.infoHash input.torrentMetadata.dataSize input.outcome.connection
        = .ok (greeted, .success))
    (telling : greeted.runAdverts input.torrentData input.outcome.stack = .ok (told, adverts))
    (asking
      : told.runRequests input.torrentMetadata input.torrentData input.outcome
        = .ok (asked, metadata, data))
    (choking : asked.runChoking = .ok choked)
    : ∃ traffic,
        p.traffic input = .ok traffic
        ∧ traffic.received = choked.messageRead input.outcome.now := by
  obtain ⟨⟨requesting, requested⟩, requests, _⟩ := bind_eq_ok.mp asking
  have requests
      : told.runMetadataRequest input.torrentMetadata input.outcome = .ok (requesting, requested) :=
    requests
  refine
    ⟨
      {
        requests := requesting.runRequestsSent input.torrentData input.outcome
        received := choked.messageRead input.outcome.now
      }, ?_, rfl⟩
  rw [traffic, bind_of_ok greeting]
  dsimp only
  rw [bind_of_ok telling]
  dsimp only
  rw [bind_of_ok requests]
  dsimp only
  rw [bind_of_ok asking]
  dsimp only
  rw [bind_of_ok choking]
  rfl

/-- Up to its last flush, a run keeps the peer informed. -/
theorem Informed.runUnflushed {beDecode : BeDecode} {input : RunInput}
    (informed : p.Informed input.infoHash wire) (closed : p.status = .unconnected → wire = [])
    (kept
      : ∀ flushed,
          (p.opening input.outcome.connection).runNetworkBuffers input.outcome.connection.network
              input.outcome.connection.now
            = .ok flushed
          → flushed.1.strands = false)
    (bounded
      : ∀ traffic,
          p.traffic input = .ok traffic → ∀ bytes ∈ traffic.received, AsksWithinBounds bytes)
    (ran : p.runUnflushed beDecode input = .ok (next, exit))
    : next.Informed input.infoHash
        (wire
          ++ (p.opening input.outcome.connection).bytesSent input.outcome.connection.network) := by
  obtain ⟨⟨greeted, result⟩, greeting, ran⟩ := bind_eq_ok.mp ran
  have greets := informed.runHandshake closed kept greeting
  cases result with
  | failure =>
      cases ran
      exact greets
  | success =>
      obtain ⟨⟨told, adverts⟩, telling, ran⟩ := bind_eq_ok.mp ran
      obtain ⟨⟨asked, metadata, data⟩, asking, ran⟩ := bind_eq_ok.mp ran
      obtain ⟨choked, choking, ran⟩ := bind_eq_ok.mp ran
      obtain ⟨⟨read, queued⟩, reading, ran⟩ := bind_eq_ok.mp ran
      obtain ⟨waited, waiting, ran⟩ := bind_eq_ok.mp ran
      cases ran
      obtain ⟨traffic, returned, received⟩ := traffic_received greeting telling asking choking
      have chokes := ((greets.runAdverts telling).runRequests asking).runChoking choking
      have reads := chokes.runMessage
        (fun bytes read => bounded traffic returned bytes (received.trans read)) reading
      exact reads.runSilence waiting

/-- A run keeps the peer informed, if its last flush strands no bytes either. -/
theorem Informed.runOn {beDecode : BeDecode} {input : RunInput} {sent : Bytes} {result : RunResult}
    (informed : p.Informed input.infoHash wire) (closed : p.status = .unconnected → wire = [])
    (first
      : ∀ flushed,
          (p.opening input.outcome.connection).runNetworkBuffers input.outcome.connection.network
              input.outcome.connection.now
            = .ok flushed
          → flushed.1.strands = false)
    (bounded
      : ∀ traffic,
          p.traffic input = .ok traffic → ∀ bytes ∈ traffic.received, AsksWithinBounds bytes)
    (kept : result.peer.strands = false) (sends : p.runSends beDecode input = .ok sent)
    (ran : p.runOn beDecode input = .ok result)
    : result.peer.Informed input.infoHash (wire ++ sent) := by
  obtain ⟨last, exit, unflushed, ends⟩ := runOn_flushes ran
  rw [runSends, bind_of_ok unflushed] at sends
  have spoke := informed.runUnflushed closed first bounded unflushed
  have stopped (q : Peer) : q.SameVoice { q with running := false } := ⟨rfl, rfl, rfl, rfl⟩
  rcases ends with ⟨rfl, peer⟩ | ⟨rfl, flushed, outcome, flushing, peer⟩
  · rw [peer]
    exact (stopped last).informed (spoke.of_unconnected (runUnflushed_failure unflushed))
  · cases sends
    rw [peer] at kept ⊢
    rw [← List.append_assoc]
    exact (stopped flushed).informed (spoke.runNetworkBuffers flushing kept)

end Peer

-----------------------------------------------------------------------------------------
-- A peer over its life
-----------------------------------------------------------------------------------------

/-- A peer, and the bytes that `write(2)` took on its current connection. -/
structure Conversation where
  peer : Peer
  wire : Bytes

/-- What other threads leave for a peer until its next run, and that run. -/
structure Turn where
  progressQueue : List Int
  uploader : Bool
  input : RunInput

namespace Conversation

variable {beDecode : BeDecode} {infoHash : InfoHash} {c next : Conversation} {turn : Turn}

/-- The peer of `peer_new`, or one that has connected to us. -/
def start (now : Int) (accepted : Option Int) : Conversation :=
  {
    peer := match accepted with
      | none => .new now
      | some fd => (Peer.new now).setSocket (BufferedSocket.new.setSocketFd fd)
    wire := []
  }

/-- The peer as its next run finds it. -/
def found (c : Conversation) (turn : Turn) : Peer :=
  { c.peer with progressQueue := turn.progressQueue, uploader := turn.uploader }

/-- One `peer_run`. A peer without a connection has no wire. -/
def step (beDecode : BeDecode) (c : Conversation) (turn : Turn) : Except Fault Conversation :=
  ((c.found turn).runSends beDecode turn.input).bind fun sent =>
    ((c.found turn).runOn beDecode turn.input).bind fun result =>
      .ok
        {
          peer := result.peer
          wire := if result.peer.status = .unconnected then [] else c.wire ++ sent
        }

/-- The run is for the torrent, none of its two flushes strands bytes, and a REQUEST that it reads
asks for no more than a message can hold.
-/
structure Undisturbed (beDecode : BeDecode) (infoHash : InfoHash) (c : Conversation) (turn : Turn)
    : Prop where
  torrent : turn.input.infoHash = infoHash
  first
    : ∀ flushed,
        ((c.found turn).opening turn.input.outcome.connection).runNetworkBuffers
            turn.input.outcome.connection.network turn.input.outcome.connection.now
          = .ok flushed
        → flushed.1.strands = false
  last
    : ∀ result,
        (c.found turn).runOn beDecode turn.input = .ok result → result.peer.strands = false
  bounded
    : ∀ traffic,
        (c.found turn).traffic turn.input = .ok traffic
        → ∀ bytes ∈ traffic.received, Peer.AsksWithinBounds bytes

/-- The peer is kept informed, and without a connection nothing is on the wire. -/
structure Sound (infoHash : InfoHash) (c : Conversation) : Prop where
  informed : c.peer.Informed infoHash c.wire
  closed : c.peer.status = .unconnected → c.wire = []

theorem start_sound (now : Int) (accepted : Option Int) : (start now accepted).Sound infoHash := by
  cases accepted with
  | none =>
      refine ⟨⟨fun _ => rfl, fun _ => rfl, ?_, ?_, ?_, fun connected => absurd rfl connected⟩,
        fun _ => rfl⟩
      · rintro (greeted | greeted) <;> cases greeted
      · intro socket present
        cases present
      · intro field present
        cases present
  | some fd =>
      refine ⟨⟨fun _ => rfl, ?_, ?_, ?_, ?_, fun _ => observe_nil⟩, fun _ => rfl⟩
      · intro unconnected
        cases unconnected
      · rintro (greeted | greeted) <;> cases greeted
      · rintro _ ⟨⟩ connected
        exact .new connected
      · intro field present
        cases present

/-- One run keeps the peer informed. -/
theorem Sound.step (sound : c.Sound infoHash) (undisturbed : c.Undisturbed beDecode infoHash turn)
    (stepped : c.step beDecode turn = .ok next)
    : next.Sound infoHash := by
  obtain ⟨sent, sends, stepped⟩ := bind_eq_ok.mp stepped
  obtain ⟨result, ran, same⟩ := bind_eq_ok.mp stepped
  cases same
  obtain rfl := undisturbed.torrent
  have met : c.peer.SameVoice (c.found turn) := ⟨rfl, rfl, rfl, rfl⟩
  have informed := (met.informed sound.informed).runOn sound.closed undisturbed.first
    undisturbed.bounded (undisturbed.last result ran) sends ran
  refine ⟨?_, fun unconnected => if_pos unconnected⟩
  dsimp only
  split
  · rename_i unconnected
    exact informed.of_unconnected unconnected
  · exact informed

/-- Over any runs, whatever the other threads, the network and the peer do: as long as no flush
strands bytes, the bytes written to a connection begin with our handshake and go on in whole
messages, none of which tells the peer what it knew, and they tell it the flags that we keep.
-/
theorem peer_knows_flags {now : Int} {accepted : Option Int} {turns : List Turn}
    (undisturbed
      : Guarded (step beDecode) (Undisturbed beDecode infoHash) (start now accepted) turns)
    (ran : runSteps (step beDecode) (start now accepted) turns = .ok c)
    : observe infoHash (c.wire ++ c.peer.outgoing) = some c.peer.knowledge := by
  have sound : c.Sound infoHash :=
    runSteps_invariant (fun _ _ _ sound guarded stepped => sound.step guarded stepped)
      (start_sound now accepted) undisturbed ran
  by_cases unconnected : c.peer.status = .unconnected
  · have nothing : c.peer.outgoing = [] := by
      rw [Peer.outgoing, sound.informed.gone unconnected]
    rw [sound.closed unconnected, nothing, Peer.knowledge, if_neg (by rw [unconnected]; simp)]
    exact observe_nil
  · exact sound.informed.heard unconnected

deriving instance DecidableEq for InfoHash

instance (c : Conversation) (turn : Turn) : Decidable (c.Undisturbed beDecode infoHash turn) :=
  decidable_of_iff
    (turn.input.infoHash = infoHash
      ∧ (∀ flushed,
        ((c.found turn).opening turn.input.outcome.connection).runNetworkBuffers
            turn.input.outcome.connection.network turn.input.outcome.connection.now
          = .ok flushed
        → flushed.1.strands = false)
      ∧ (∀ result,
        (c.found turn).runOn beDecode turn.input = .ok result → result.peer.strands = false)
      ∧ ∀ traffic,
        (c.found turn).traffic turn.input = .ok traffic
        → ∀ bytes ∈ traffic.received, Peer.AsksWithinBounds bytes)
    ⟨fun ⟨torrent, first, last, bounded⟩ => ⟨torrent, first, last, bounded⟩,
      fun ⟨torrent, first, last, bounded⟩ => ⟨torrent, first, last, bounded⟩⟩

/-- A run with the data of a torrent of one byte, on a socket that takes all. -/
def openInput (received : Option NetworkSegment) : RunInput :=
  let quiet := RequestLog.oneByteInput received
  let taking (network : NetworkOutcome) : NetworkOutcome :=
    { network with sends := fun _ => .accepts 1000 }
  {
    quiet with
    outcome :=
      {
        quiet.outcome with
        connection :=
          { quiet.outcome.connection with network := taking quiet.outcome.connection.network }
        network := taking quiet.outcome.network
      }
  }

/-- The peer connects, has the only piece, and gets an upload slot. -/
def welcome : List Turn :=
  [
    { progressQueue := [], uploader := false, input := openInput none },
    {
      progressQueue := []
      uploader := false
      input :=
        openInput (some ⟨RequestLog.plainHandshake ++ [0, 0, 0, 5, 4, 0, 0, 0, 0], by decide +kernel⟩)
    },
    { progressQueue := [], uploader := true, input := openInput none }
  ]

theorem peer_knows_flags_unchoked
    : ∃ final,
        runSteps (step fun _ => none) (start 0 none) welcome = .ok final
        ∧ observe (.filled 1) (final.wire ++ final.peer.outgoing)
          = some (some { choking := false, interested := true, bitfield := true }) := by
  have undisturbed
      : Guarded (step fun _ => none) (Undisturbed (fun _ => none) (.filled 1)) (start 0 none)
          welcome := by
    decide +kernel
  have returns
      : returnsWith (runSteps (step fun _ => none) (start 0 none) welcome)
          (fun c =>
            c.peer.knowledge = some { choking := false, interested := true, bitfield := true })
        = true := by
    decide +kernel
  obtain ⟨final, ran, known⟩ := exists_ok_of_returnsWith returns
  rw [decide_eq_true_eq] at known
  exact ⟨final, ran, known ▸ peer_knows_flags undisturbed ran⟩

end Conversation

end UvgTorrent

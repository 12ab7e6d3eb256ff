import UvgTorrent.Peers.Traffic

/-! The window of REQUEST messages. `pending_request_count` is counted up for each REQUEST and down
for each PIECE message, whether it was asked for or not; it bounds the requests of a connection as
long as every block that comes in answers one of them.
-/

namespace UvgTorrent

open Foundations

-----------------------------------------------------------------------------------------
-- The requests and blocks of a run
-----------------------------------------------------------------------------------------

/-- The REQUEST messages that a run writes, and the message that it reads. -/
structure RunTraffic where
  requests : List Bytes
  received : Option Bytes

/-- The PIECE message that a run reads. -/
def RunTraffic.piece (traffic : RunTraffic) : Option Bytes :=
  traffic.received.filter fun bytes => bytes[4]?.map UInt8.toNat = some 7

theorem RunTraffic.piece_of_received {traffic : RunTraffic} {bytes : Bytes}
    (received : traffic.received = some bytes)
    : traffic.piece = if bytes[4]?.map UInt8.toNat = some 7 then some bytes else none := by
  simp only [piece, received, Option.filter_some, decide_eq_true_eq]

/-- A PIECE message has the index and the begin of a REQUEST. -/
def answersRequest (piece request : Bytes) : Bool := slice piece 5 8 = slice request 5 8

namespace Peer

/-- The messages that the loop of `peer_send_msg_request` writes. -/
def requestsSent (td : TorrentData) (stack : Stack) : List (Option Nat) → Peer → List Bytes
  | [], _ => []
  | none :: _, _ => []
  | some chunk :: rest, p =>
      match td.requestMessage chunk stack with
      | .error _ => []
      | .ok request =>
          match p.write request with
          | .error _ => []
          | .ok (p, result) =>
              if result ≠ 17 then []
              else
                request
                  :: requestsSent td stack rest
                    { p with pendingRequestCount := wrap32 (p.pendingRequestCount + 1) }

/-- The chunks that `peer_send_msg_request` claims, with the struct they are claimed in. -/
def chunksToRequest (p : Peer) (td : TorrentData) (clock : Nat → Int)
    : Except Fault (TorrentData × List (Option Nat)) :=
  match Bitfield.new (u64OfInt td.chunkCount) 0 0xFF with
  | none => .error .nullPointer
  | some blank =>
      (interestedChunks td p.peerBitfield td.pieceCount.toNat 0 blank).bind fun interested =>
        if p.pendingRequestCount < requestMsgQueueLength then
          (td.claimChunk interested 10 (requestMsgQueueLength - p.pendingRequestCount) clock).bind
            fun
              | (td, .failure, _) => .ok (td, [])
              | (td, .success, chunks) => .ok (td, chunks)
        else .ok (td, [])

/-- The messages that the guarded `peer_send_msg_request` of `peer_run` writes. -/
def runRequestsSent (p : Peer) (td : TorrentData) (outcome : RunOutcome) : List Bytes :=
  if p.shouldSendMsgRequest td then
    match p.chunksToRequest td outcome.claimClock with
    | .error _ => []
    | .ok (td, chunks) => requestsSent td outcome.stack chunks p
  else []

/-- The part of `peer_run` that asks for metadata. -/
def runMetadataRequest (p : Peer) (torrentMetadata : TorrentData) (outcome : RunOutcome)
    : Except Fault (Peer × TorrentData) :=
  if p.shouldSendUtMetadataRequest torrentMetadata then
    (p.sendUtMetadataRequest torrentMetadata outcome.metadataClock).bind
      fun (p, torrentMetadata, _) => .ok (p, torrentMetadata)
  else .ok (p, torrentMetadata)

/-- The requests and the message of a `peer_run`. -/
def traffic (p : Peer) (input : RunInput) : Except Fault RunTraffic :=
  (p.runHandshake input.infoHash input.torrentMetadata.dataSize input.outcome.connection).bind fun
    | (_, .failure) => .ok { requests := [], received := none }
    | (p, .success) =>
        (p.runAdverts input.torrentData input.outcome.stack).bind fun (p, _) =>
          (p.runMetadataRequest input.torrentMetadata input.outcome).bind fun (asking, _) =>
            (p.runRequests input.torrentMetadata input.torrentData input.outcome).bind
              fun (p, _, _) =>
                p.runChoking.bind fun p =>
                  .ok
                    {
                      requests := asking.runRequestsSent input.torrentData input.outcome
                      received :=
                        if p.shouldReadMessage then (p.readMessage input.outcome.now).2 else none
                    }

end Peer

/-- A peer with the requests on its current connection: those not answered yet, and how many were
sent and answered.
-/
structure RequestLog where
  peer : Peer
  outstanding : List Bytes
  sent : Nat
  answered : Nat

namespace RequestLog

variable {beDecode : BeDecode} {s next : RequestLog} {input : RunInput}

/-- A peer of `peer_new`, which came with a socket when it connected to us. -/
def start (now : Int) (accepted : Option BufferedSocket) : RequestLog :=
  {
    peer := match accepted with
      | none => .new now
      | some socket => (Peer.new now).setSocket socket
    outstanding := []
    sent := 0
    answered := 0
  }

/-- The log after the requests and the message of a run. -/
def record (s : RequestLog) (traffic : RunTraffic) : RequestLog :=
  let outstanding := s.outstanding ++ traffic.requests
  let s := { s with outstanding, sent := s.sent + traffic.requests.length }
  match traffic.piece with
  | none => s
  | some piece =>
      if outstanding.any (answersRequest piece) then
        { s with outstanding := outstanding.eraseP (answersRequest piece), answered := s.answered + 1 }
      else s

/-- One `peer_run`. The log ends with the connection. -/
def step (beDecode : BeDecode) (s : RequestLog) (input : RunInput) : Except Fault RequestLog :=
  (s.peer.traffic input).bind fun traffic =>
    (s.peer.runOn beDecode input).bind fun result =>
      if result.peer.status = .unconnected then
        .ok { peer := result.peer, outstanding := [], sent := 0, answered := 0 }
      else .ok { s.record traffic with peer := result.peer }

/-- What is claimed of every state: the count and the requests that wait for an answer are within
the window.
-/
structure Bounded (s : RequestLog) : Prop where
  count_nonneg : 0 ≤ s.peer.pendingRequestCount
  count_le : s.peer.pendingRequestCount ≤ requestMsgQueueLength
  outstanding_le : (s.sent : Int) - s.answered ≤ requestMsgQueueLength

/-- A PIECE message that the run reads answers a request of the connection. -/
def PieceIsAnswer (s : RequestLog) (input : RunInput) : Prop :=
  ∀ traffic piece,
    s.peer.traffic input = .ok traffic
    → traffic.piece = some piece
    → (s.outstanding ++ traffic.requests).any (answersRequest piece) = true

end RequestLog

-----------------------------------------------------------------------------------------
-- The count over the parts of a run
-----------------------------------------------------------------------------------------

/-- The claims of one call are as many as were asked for. -/
theorem TorrentData.claimLoop_length {td next : TorrentData} {interested : Bitfield}
    {timeoutSeconds : Int} {clock : Nat → Int} {remaining chunk : Nat} {out : List (Option Nat)}
    (claims
      : TorrentData.claimLoop interested timeoutSeconds clock remaining chunk td = .ok (next, out))
    : out.length = remaining := by
  induction remaining generalizing chunk td out with
  | zero =>
      cases claims
      rfl
  | succ remaining ih =>
      unfold TorrentData.claimLoop at claims
      split at claims
      · cases claims
      · obtain ⟨found, _, claims⟩ := bind_eq_ok.mp claims
        obtain ⟨⟨_, rest⟩, later, same⟩ := bind_eq_ok.mp claims
        cases same
        rw [List.length_cons, ih later]

theorem TorrentData.claimChunk_length {td next : TorrentData} {interested : Bitfield}
    {timeoutSeconds numChunks : Int} {clock : Nat → Int} {exit : Exit} {out : List (Option Nat)}
    (claims : td.claimChunk interested timeoutSeconds numChunks clock = .ok (next, exit, out))
    : out.length ≤ numChunks.toNat := by
  unfold TorrentData.claimChunk at claims
  split at claims
  · split at claims
    · cases claims
    · obtain ⟨⟨_, _⟩, loop, same⟩ := bind_eq_ok.mp claims
      cases same
      exact Nat.le_of_eq (TorrentData.claimLoop_length loop)
  · cases claims
    exact Nat.zero_le _

namespace Peer

variable {p next : Peer} {td : TorrentData} {stack : Stack} {count : Nat}

/-- Each request that is written is counted. -/
theorem sendRequests_count {chunks : List (Option Nat)} {exit : Exit}
    (nonneg : 0 ≤ p.pendingRequestCount)
    (fits : p.pendingRequestCount + chunks.length < 2 ^ 31)
    (sent : sendRequests td stack chunks p = .ok (next, exit))
    : next.status = p.status
      ∧ next.pendingRequestCount
        = p.pendingRequestCount + (requestsSent td stack chunks p).length := by
  induction chunks generalizing p with
  | nil =>
      cases sent
      simp [requestsSent]
  | cons chunk rest ih =>
      cases chunk with
      | none =>
          cases sent
          simp [requestsSent]
      | some chunk =>
          obtain ⟨request, made, sent⟩ := bind_eq_ok.mp sent
          obtain ⟨⟨written, result⟩, wrote, sent⟩ := bind_eq_ok.mp sent
          have kept := write_traffic wrote
          rw [requestsSent, made]
          dsimp only at sent ⊢
          rw [wrote]
          dsimp only
          split at sent
          · rename_i short
            cases sent
            rw [if_pos short]
            exact ⟨kept.status, by simp [kept.pending]⟩
          · rename_i whole
            rw [if_neg whole]
            simp only [List.length_cons, Nat.cast_add, Nat.cast_one] at fits
            have counted
                : wrap32 (written.pendingRequestCount + 1) = p.pendingRequestCount + 1 := by
              rw [kept.pending]
              exact wrap32_of_fits (by omega) (by omega)
            obtain ⟨status, pending⟩ := ih (by dsimp only; omega) (by dsimp only; omega) sent
            refine ⟨status.trans kept.status, ?_⟩
            rw [pending, List.length_cons, Nat.cast_add, Nat.cast_one]
            dsimp only
            rw [counted]
            omega

theorem requestsSent_length_le (td : TorrentData) (stack : Stack) (chunks : List (Option Nat))
    (p : Peer)
    : (requestsSent td stack chunks p).length ≤ chunks.length := by
  induction chunks generalizing p with
  | nil => exact Nat.le_refl 0
  | cons chunk rest ih =>
      cases chunk with
      | none => exact Nat.zero_le _
      | some chunk =>
          rw [requestsSent]
          split
          · exact Nat.zero_le _
          · split
            · exact Nat.zero_le _
            · split
              · exact Nat.zero_le _
              · exact Nat.succ_le_succ (ih _)

/-- `peer_send_msg_request` fills the window at most. -/
theorem sendMsgRequest_count {after : TorrentData} {clock : Nat → Int} {exit : Exit}
    (nonneg : 0 ≤ p.pendingRequestCount) (window : p.pendingRequestCount ≤ requestMsgQueueLength)
    (sent : p.sendMsgRequest td stack clock = .ok (next, after, exit))
    : ∃ claimed chunks,
        p.chunksToRequest td clock = .ok (claimed, chunks)
        ∧ next.status = p.status
        ∧ next.pendingRequestCount
          = p.pendingRequestCount + (requestsSent claimed stack chunks p).length
        ∧ next.pendingRequestCount ≤ requestMsgQueueLength := by
  unfold sendMsgRequest at sent
  unfold chunksToRequest
  generalize Bitfield.new (u64OfInt td.chunkCount) 0 0xFF = made at sent ⊢
  rcases made with _ | blank
  · cases sent
  obtain ⟨interested, chosen, sent⟩ := bind_eq_ok.mp sent
  dsimp only
  rw [chosen, bind_of_ok rfl]
  split at sent
  · rename_i room
    rw [if_pos room]
    obtain ⟨⟨claimed, claimExit, chunks⟩, claims, sent⟩ := bind_eq_ok.mp sent
    have asked := TorrentData.claimChunk_length claims
    rw [claims, bind_of_ok rfl]
    cases claimExit with
    | failure =>
        cases sent
        exact ⟨_, [], rfl, rfl, by simp [requestsSent], window⟩
    | success =>
        obtain ⟨⟨_, _⟩, requested, same⟩ := bind_eq_ok.mp sent
        cases same
        simp only [requestMsgQueueLength] at asked window room ⊢
        obtain ⟨status, pending⟩ := sendRequests_count nonneg (by omega) requested
        have sentFew := requestsSent_length_le after stack chunks p
        exact ⟨_, chunks, rfl, status, pending, by omega⟩
  · rename_i full
    cases sent
    rw [if_neg full]
    exact ⟨_, [], rfl, rfl, by simp [requestsSent], window⟩

-----------------------------------------------------------------------------------------
-- The count of a connection
-----------------------------------------------------------------------------------------

/-- The peer counts so many requests, if it has a connection. -/
def Counts (p : Peer) (count : Nat) : Prop :=
  p.pendingRequestCount = if p.status = .unconnected then 0 else (count : Int)

theorem TrafficEffect.counts (effect : p.TrafficEffect next) (counts : p.Counts count)
    : next.Counts count := by
  cases effect with
  | same kept => rw [Counts, kept.pending, kept.status, counts]
  | dropped status pending => rw [Counts, pending, if_pos status]

theorem SameTraffic.counts (kept : p.SameTraffic next) (counts : p.Counts count)
    : next.Counts count :=
  kept.effect.counts counts

/-- The handshake sends no requests. -/
theorem counts_keptByHandshake (count : Nat) : KeptByHandshake (fun p => p.Counts count) where
  effect := fun _ _ counts effect => effect.counts counts
  advance := by
    intro p next status counts greeting reached kept
    have connected : p.status ≠ .unconnected := by
      rcases greeting with connected | sent
      · rw [connected]
        nofun
      · rw [sent]
        nofun
    rw [Counts, if_neg connected] at counts
    rw [Counts, if_neg reached]
    exact kept.pending.trans counts

/-- The first half of `peer_run`; a new connection has no requests. -/
theorem runHandshake_counts {infoHash : InfoHash} {metadataSize : Nat}
    {outcome : ConnectionOutcome} {exit : Exit} (counts : p.Counts count)
    (noneUnconnected : p.status = .unconnected → count = 0)
    (ran : p.runHandshake infoHash metadataSize outcome = .ok (next, exit))
    : next.Counts count := by
  refine (counts_keptByHandshake count).runHandshake ?_ ran
  split
  · rename_i ready
    simp only [shouldConnect, Bool.and_eq_true, beq_iff_eq] at ready
    rw [Counts, if_pos ready.1] at counts
    rw [noneUnconnected ready.1]
    exact counts
  · exact counts

/-- The requests of a run, which find room in the window. -/
theorem runRequests_counts {torrentMetadata afterMetadata after : TorrentData}
    {outcome : RunOutcome} (counts : p.Counts count)
    (window : (count : Int) ≤ requestMsgQueueLength)
    (ran : p.runRequests torrentMetadata td outcome = .ok (next, afterMetadata, after))
    : ∃ asking metadata,
        p.runMetadataRequest torrentMetadata outcome = .ok (asking, metadata)
        ∧ next.Counts (count + (asking.runRequestsSent td outcome).length)
        ∧ (count + (asking.runRequestsSent td outcome).length : Nat) ≤ requestMsgQueueLength := by
  obtain ⟨⟨asking, metadata⟩, asks, ran⟩ := bind_eq_ok.mp ran
  refine ⟨asking, metadata, asks, ?_⟩
  have askingCounts : asking.Counts count := by
    split at asks
    · obtain ⟨⟨_, _, _⟩, sent, same⟩ := bind_eq_ok.mp asks
      cases same
      exact ((sendUtMetadataRequest_within sent).traffic (by simp)).counts counts
    · cases asks
      exact counts
  dsimp only at ran
  unfold runRequestsSent
  split at ran
  · rename_i ready
    obtain ⟨⟨sender, _, _⟩, sent, same⟩ := bind_eq_ok.mp ran
    cases same
    rw [if_pos ready]
    have connected : asking.status ≠ .unconnected := by
      simp only [shouldSendMsgRequest, decide_eq_true_eq] at ready
      rw [ready.1]
      nofun
    have pendingBefore := askingCounts
    rw [Counts, if_neg connected] at pendingBefore
    obtain ⟨claimed, chunks, chosen, status, pending, room⟩ :=
      sendMsgRequest_count (by rw [pendingBefore]; exact Int.natCast_nonneg count)
        (by rw [pendingBefore]; exact window) sent
    rw [chosen]
    dsimp only
    rw [pendingBefore] at pending
    refine ⟨?_, ?_⟩
    · rw [Counts, status, if_neg connected, pending, Nat.cast_add]
    · rw [Nat.cast_add, ← pending]
      exact room
  · rename_i idle
    cases ran
    rw [if_neg idle]
    exact ⟨askingCounts, by simpa using window⟩

/-- A message that is not a block leaves the count, and a block takes one off it. -/
theorem runMessage_counts {beDecode : BeDecode} {torrentMetadata : TorrentData} {disk : Disk}
    {outcome : RunOutcome} {queued : Option (MainQueue × Bytes)} {traffic : RunTraffic}
    (counts : p.Counts count) (window : (count : Int) ≤ requestMsgQueueLength)
    (reads
      : traffic.received = if p.shouldReadMessage then (p.readMessage outcome.now).2 else none)
    (solicited : traffic.piece.isSome → 0 < count)
    (ran : p.runMessage beDecode torrentMetadata td disk outcome = .ok (next, queued))
    : next.Counts (count - traffic.piece.toList.length) := by
  unfold runMessage at ran
  by_cases ready : p.shouldReadMessage
  · rw [if_pos ready] at ran reads
    obtain ⟨effect, same⟩ := readMessage_traffic p outcome.now
    have connected : p.status ≠ .unconnected := by
      simp only [shouldReadMessage, Bool.and_eq_true, beq_iff_eq] at ready
      rw [ready.1]
      nofun
    cases read : p.readMessage outcome.now with
    | mk reader received =>
        rw [read] at ran reads effect same
        dsimp only at reads effect same
        cases received with
        | none =>
            cases ran
            simp only [RunTraffic.piece, reads, Option.filter_none, Option.toList_none,
              List.length_nil, Nat.sub_zero]
            exact effect.counts counts
        | some bytes =>
            have kept := same rfl
            dsimp only at ran
            split at ran
            · rename_i framed
              obtain ⟨⟨handler, queue⟩, handled, same⟩ := bind_eq_ok.mp ran
              cases same
              by_cases block : bytes[4]?.map UInt8.toNat = some 7
              · have piece : traffic.piece = some bytes := by
                  rw [RunTraffic.piece_of_received reads, if_pos block]
                have some := solicited (by rw [piece]; rfl)
                simp only [handleMessage, block] at handled
                cases handled
                have pending := kept.counts counts
                rw [Counts, kept.status, if_neg connected] at pending
                simp only [requestMsgQueueLength] at window
                rw [Counts, piece]
                simp only [handleMsgPiece, kept.status, if_neg connected, pending,
                  Option.toList_some, List.length_singleton]
                rw [wrap32_of_fits (by omega) (by omega)]
                omega
              · have noPiece : traffic.piece = none := by
                  rw [RunTraffic.piece_of_received reads, if_neg block]
                rw [noPiece, Option.toList_none, List.length_nil, Nat.sub_zero]
                exact (kept.effect.trans (handleMessage_traffic block handled)).counts counts
            · cases ran
  · rw [if_neg ready] at ran reads
    cases ran
    simp only [RunTraffic.piece, reads, Option.filter_none, Option.toList_none, List.length_nil,
      Nat.sub_zero]
    exact counts

/-- A whole run: its requests are added to the count, and its block is taken off. -/
theorem runOn_counts {beDecode : BeDecode} {input : RunInput} {result : RunResult}
    (counts : p.Counts count) (window : (count : Int) ≤ requestMsgQueueLength)
    (noneUnconnected : p.status = .unconnected → count = 0)
    (solicited
      : ∀ traffic,
          p.traffic input = .ok traffic
          → traffic.piece.isSome
          → 0 < count + traffic.requests.length)
    (ran : p.runOn beDecode input = .ok result)
    : ∃ traffic,
        p.traffic input = .ok traffic
        ∧ result.peer.Counts
          (count + traffic.requests.length - traffic.piece.toList.length)
        ∧ (count + traffic.requests.length : Nat) ≤ requestMsgQueueLength := by
  unfold traffic at solicited ⊢
  obtain ⟨⟨greeted, exit⟩, greeting, ran⟩ := bind_eq_ok.mp ran
  have begun := runHandshake_counts counts noneUnconnected greeting
  rw [greeting, bind_of_ok rfl] at solicited ⊢
  cases exit with
  | failure =>
      cases ran
      exact ⟨_, rfl, begun, window⟩
  | success =>
      obtain ⟨⟨told, adverts⟩, telling, ran⟩ := bind_eq_ok.mp ran
      obtain ⟨last, messages, same⟩ := bind_eq_ok.mp ran
      cases same
      have toldCounts := (runAdverts_traffic telling).counts begun
      obtain ⟨⟨asked, metadata, after⟩, asks, messages⟩ := bind_eq_ok.mp messages
      obtain ⟨choked, choking, messages⟩ := bind_eq_ok.mp messages
      obtain ⟨⟨reader, queued⟩, reading, messages⟩ := bind_eq_ok.mp messages
      obtain ⟨waited, waiting, messages⟩ := bind_eq_ok.mp messages
      obtain ⟨⟨flushed, exit⟩, flushing, messages⟩ := bind_eq_ok.mp messages
      obtain rfl := Except.ok.inj messages
      obtain ⟨asking, claimed, metadataAsks, askedCounts, room⟩ :=
        runRequests_counts toldCounts window asks
      dsimp only at solicited ⊢
      rw [telling, bind_of_ok rfl, metadataAsks, bind_of_ok rfl, asks, bind_of_ok rfl]
        at solicited ⊢
      dsimp only at solicited ⊢
      rw [choking, bind_of_ok rfl] at solicited ⊢
      refine ⟨_, rfl, ?_, room⟩
      have chokedCounts := ((runChoking_within choking).traffic (by simp)).counts askedCounts
      have readCounts := runMessage_counts chokedCounts room rfl (solicited _ rfl) reading
      have waitedCounts := ((runSilence_within waiting).trafficEffect (by simp)).counts readCounts
      exact (runNetworkBuffers_traffic flushing).counts waitedCounts

end Peer

-----------------------------------------------------------------------------------------
-- Runs of a peer
-----------------------------------------------------------------------------------------

/-- The traffic of a run that returns is known. -/
theorem Peer.traffic_of_runOn {beDecode : BeDecode} {p : Peer} {input : RunInput}
    {result : RunResult} (ran : p.runOn beDecode input = .ok result)
    : ∃ traffic, p.traffic input = .ok traffic := by
  unfold Peer.traffic
  obtain ⟨⟨greeted, exit⟩, greeting, ran⟩ := bind_eq_ok.mp ran
  rw [greeting, bind_of_ok rfl]
  cases exit with
  | failure => exact ⟨_, rfl⟩
  | success =>
      obtain ⟨⟨told, adverts⟩, telling, ran⟩ := bind_eq_ok.mp ran
      obtain ⟨last, messages, _⟩ := bind_eq_ok.mp ran
      obtain ⟨⟨asked, metadata, after⟩, asks, messages⟩ := bind_eq_ok.mp messages
      obtain ⟨choked, choking, _⟩ := bind_eq_ok.mp messages
      obtain ⟨⟨asking, claimed⟩, metadataAsks, _⟩ := bind_eq_ok.mp asks
      have metadataRequest
          : told.runMetadataRequest input.torrentMetadata input.outcome = .ok (asking, claimed) :=
        metadataAsks
      dsimp only
      rw [telling, bind_of_ok rfl, metadataRequest, bind_of_ok rfl, asks, bind_of_ok rfl]
      dsimp only
      rw [choking, bind_of_ok rfl]
      exact ⟨_, rfl⟩

namespace RequestLog

variable {beDecode : BeDecode} {s next : RequestLog} {input : RunInput}

/-- A step of the log is a run of its peer. -/
theorem exists_step_iff (beDecode : BeDecode) (s : RequestLog) (input : RunInput) (p : Peer)
    : (∃ next, s.step beDecode input = .ok next ∧ next.peer = p)
      ↔ ∃ result, s.peer.runOn beDecode input = .ok result ∧ result.peer = p := by
  constructor
  · rintro ⟨next, stepped, rfl⟩
    obtain ⟨traffic, _, stepped⟩ := bind_eq_ok.mp stepped
    obtain ⟨result, ran, stepped⟩ := bind_eq_ok.mp stepped
    refine ⟨result, ran, ?_⟩
    split at stepped <;> cases stepped <;> rfl
  · rintro ⟨result, ran, rfl⟩
    obtain ⟨traffic, known⟩ := Peer.traffic_of_runOn ran
    rw [step, known, bind_of_ok rfl, ran, bind_of_ok rfl]
    split <;> exact ⟨_, rfl, rfl⟩

/-- The count is the number of requests that wait for an answer. -/
structure Exact (s : RequestLog) : Prop where
  counts : s.peer.Counts s.outstanding.length
  window : (s.outstanding.length : Int) ≤ requestMsgQueueLength
  balance : s.sent = s.answered + s.outstanding.length
  unconnected : s.peer.status = .unconnected → s.outstanding = []

theorem Exact.bounded (exact : s.Exact) : s.Bounded := by
  have window := exact.window
  have counts := exact.counts
  rw [Peer.Counts] at counts
  simp only [requestMsgQueueLength] at window
  refine ⟨?_, ?_, ?_⟩
  · rw [counts]
    split <;> omega
  · rw [counts, requestMsgQueueLength]
    split <;> omega
  · rw [exact.balance, requestMsgQueueLength]
    omega

theorem start_exact (now : Int) (accepted : Option BufferedSocket)
    : (start now accepted).Exact := by
  refine ⟨?_, by simp [start, requestMsgQueueLength], rfl, fun _ => rfl⟩
  cases accepted <;> rfl

/-- What the log keeps of the traffic of a run. -/
theorem record_outstanding (s : RequestLog) {traffic : RunTraffic}
    (solicited
      : ∀ piece,
          traffic.piece = some piece
          → (s.outstanding ++ traffic.requests).any (answersRequest piece) = true)
    : (s.record traffic).outstanding.length
        = s.outstanding.length + traffic.requests.length - traffic.piece.toList.length
      ∧ (s.record traffic).sent = s.sent + traffic.requests.length
      ∧ (s.record traffic).answered = s.answered + traffic.piece.toList.length := by
  unfold record
  cases found : traffic.piece with
  | none => exact ⟨by simp, rfl, rfl⟩
  | some piece =>
      have answered := solicited piece found
      dsimp only
      rw [if_pos answered]
      obtain ⟨request, member, answers⟩ := List.any_eq_true.mp answered
      exact ⟨by simp [List.length_eraseP_of_mem member answers], rfl, rfl⟩

/-- A run whose block answers a request keeps the count exact. -/
theorem Exact.step (exact : s.Exact) (solicited : s.PieceIsAnswer input)
    (stepped : s.step beDecode input = .ok next)
    : next.Exact := by
  obtain ⟨traffic, known, stepped⟩ := bind_eq_ok.mp stepped
  obtain ⟨result, ran, stepped⟩ := bind_eq_ok.mp stepped
  have answers := fun piece => solicited traffic piece known
  have some (isBlock : traffic.piece.isSome)
      : 0 < s.outstanding.length + traffic.requests.length := by
    obtain ⟨piece, found⟩ := Option.isSome_iff_exists.mp isBlock
    obtain ⟨request, member, _⟩ := List.any_eq_true.mp (answers piece found)
    rw [← List.length_append]
    exact List.length_pos_of_mem member
  obtain ⟨same, knownSame, counts, room⟩ := Peer.runOn_counts exact.counts exact.window
    (fun unconnected => by rw [exact.unconnected unconnected, List.length_nil])
    (fun other otherKnown isBlock => by
      rw [known] at otherKnown
      cases otherKnown
      exact some isBlock) ran
  rw [known] at knownSame
  cases knownSame
  split at stepped
  · rename_i unconnected
    cases stepped
    rw [Peer.Counts, if_pos unconnected] at counts
    refine ⟨?_, by simp [requestMsgQueueLength], rfl, fun _ => rfl⟩
    rw [Peer.Counts, if_pos unconnected]
    exact counts
  · rename_i connected
    cases stepped
    obtain ⟨outstanding, sent, answered⟩ := s.record_outstanding answers
    have balance := exact.balance
    have window : (s.outstanding.length + traffic.requests.length : Nat) ≤ requestMsgQueueLength :=
      room
    have blocks : traffic.piece.toList.length ≤ s.outstanding.length + traffic.requests.length := by
      cases found : traffic.piece with
      | none => exact Nat.zero_le _
      | some piece => exact some (by rw [found]; rfl)
    refine ⟨?_, ?_, ?_, fun unconnected => absurd unconnected connected⟩
    · dsimp only
      rw [outstanding]
      exact counts
    · dsimp only
      rw [outstanding]
      omega
    · dsimp only
      rw [outstanding, sent, answered]
      omega

/-- In a run of a peer whose blocks all answer requests, the count and the requests that wait for an
answer stay within the window.
-/
theorem requests_bounded {now : Int} {accepted : Option BufferedSocket} {inputs : List RunInput}
    {final : RequestLog}
    (solicited : Guarded (step beDecode) PieceIsAnswer (start now accepted) inputs)
    (run : runSteps (step beDecode) (start now accepted) inputs = .ok final)
    : final.Bounded := by
  refine (runSteps_invariant ?_ (start_exact now accepted) solicited run).bounded
  exact fun s input next exact solicited stepped => exact.step solicited stepped

-----------------------------------------------------------------------------------------
-- A block that was asked for, and one that was not
-----------------------------------------------------------------------------------------

instance (s : RequestLog) (input : RunInput) : Decidable (s.PieceIsAnswer input) :=
  match known : s.peer.traffic input with
  | .error _ => .isTrue (by simp [PieceIsAnswer, known])
  | .ok traffic =>
      decidable_of_iff
        (∀ piece ∈ traffic.piece.toList,
          (s.outstanding ++ traffic.requests).any (answersRequest piece) = true)
        ⟨by
            intro all other piece otherKnown found
            rw [known] at otherKnown
            cases otherKnown
            exact all piece (by simp [found]),
          fun solicited piece member => solicited traffic piece known (by simpa using member)⟩

/-- The handshake of a peer without extensions. -/
def plainHandshake : Bytes :=
  [19] ++ ascii "BitTorrent protocol" ++ List.replicate 8 0 ++ List.replicate 40 1

/-- A PIECE message for the first byte of the data. -/
def firstBlock : Bytes := [0, 0, 0, 10, 7, 0, 0, 0, 0, 0, 0, 0, 0, 5]

/-- A run with the data of a torrent of one byte. -/
def oneByteInput (received : Option NetworkSegment) : RunInput :=
  { quietInput received with torrentData := .ofSingleFile none 1 8 1 }

/-- The peer connects, has the only piece, unchokes, and sends the block that it is asked for. -/
def solicitedInputs : List RunInput :=
  [
    oneByteInput none,
    oneByteInput
      (some
        ⟨plainHandshake ++ [0, 0, 0, 5, 4, 0, 0, 0, 0] ++ [0, 0, 0, 1, 1] ++ firstBlock,
          by decide +kernel⟩),
    oneByteInput none,
    oneByteInput none
  ]

/-- The peer connects, and sends a block that it was not asked for. -/
def unsolicitedInputs : List RunInput :=
  [quietInput none, quietInput (some ⟨plainHandshake ++ firstBlock, by decide +kernel⟩)]

theorem requests_bounded_of_solicited
    : ∃ final,
        (Guarded (step fun _ => none) PieceIsAnswer (start 0 none) solicitedInputs
          ∧ runSteps (step fun _ => none) (start 0 none) solicitedInputs = .ok final)
        ∧ final.sent = 1
        ∧ final.answered = 1
        ∧ final.Bounded := by
  have solicited : Guarded (step fun _ => none) PieceIsAnswer (start 0 none) solicitedInputs := by
    decide +kernel
  have returns
      : returnsWith (runSteps (step fun _ => none) (start 0 none) solicitedInputs)
          (fun s => s.sent = 1 ∧ s.answered = 1)
        = true := by
    decide +kernel
  obtain ⟨final, run, counted⟩ := exists_ok_of_returnsWith returns
  rw [decide_eq_true_eq] at counted
  exact ⟨final, ⟨solicited, run⟩, counted.1, counted.2, requests_bounded solicited run⟩

/-- A block that was not asked for takes the count below zero. -/
theorem unsolicited_block_breaks_bound
    : ∃ final,
        runSteps (step fun _ => none) (start 0 none) unsolicitedInputs = .ok final
        ∧ ¬ final.Bounded := by
  have returns
      : returnsWith (runSteps (step fun _ => none) (start 0 none) unsolicitedInputs)
          (fun s => s.peer.pendingRequestCount = -1)
        = true := by
    decide +kernel
  obtain ⟨final, run, count⟩ := exists_ok_of_returnsWith returns
  rw [decide_eq_true_eq] at count
  refine ⟨final, run, fun bounded => ?_⟩
  have nonneg := bounded.count_nonneg
  omega

end RequestLog

end UvgTorrent

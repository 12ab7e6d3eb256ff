import UvgTorrent.Peers.Connections
import UvgTorrent.Sockets.StreamIntegrity

/-! A handshake that arrives in parts, over the runs of `peer_run` that wait for it.
Without a socket error only `peer_handle_handshake` can end the connection.
-/

namespace UvgTorrent

open Foundations

/-- No hang-up, and no error other than those that are passed over. -/
structure NetworkOutcome.Healthy (outcome : NetworkOutcome) : Prop where
  connected : outcome.hungUp = false
  sends : outcome.sendErrno.isHarmless = true
  receives : ∀ errno, outcome.received = some (.fails errno) → errno.isHarmless = true

namespace Peer

variable {p : Peer} {bytes : Bytes} {outcome : NetworkOutcome} {now : Int} {infoHash : InfoHash}

/-- A peer with an open socket that holds these unread bytes. -/
def Opened (p : Peer) (bytes : Bytes) : Prop :=
  ∃ socket nodes, p.socket = some socket ∧ socket.Linked nodes ∧ socket.readBuffer = bytes

theorem Opened.unread_eq (opened : p.Opened bytes) : p.unread = bytes := by
  obtain ⟨socket, _, socketEq, _, rfl⟩ := opened
  rw [unread, socketEq]

theorem Opened.canRead_eq (opened : p.Opened bytes) : p.canRead = decide (bytes ≠ []) := by
  obtain ⟨socket, _, socketEq, linked, rfl⟩ := opened
  simp [canRead, BufferedSocket.canRead, socketEq, linked.connected]

theorem Opened.write (opened : p.Opened bytes) (data : Bytes)
    : ∃ next,
        p.write data = .ok (next, data.length)
        ∧ next.Opened bytes
        ∧ next.status = p.status := by
  obtain ⟨socket, nodes, socketEq, linked, rfl⟩ := opened
  obtain ⟨socket', nodes', wrote, linked', _⟩ := linked.write data
  refine ⟨{ p with socket := some socket' }, ?_,
    ⟨socket', nodes', rfl, linked', BufferedSocket.write_readBuffer wrote⟩, rfl⟩
  simp only [Peer.write, socketEq]
  exact bind_of_ok wrote _

/-- The write half of handling the network buffers. -/
theorem Opened.flush {socket : BufferedSocket} {nodes : List (Nat × BufferedSocketWriteBuffer)}
    (linked : socket.Linked nodes) (sends : Nat → SendOutcome)
    : ∃ socket' nodes' result,
        (if socket.canNetworkWrite then
          (socket.networkWrite sends).bind fun (socket, result, _) => .ok (socket, result)
        else .ok (socket, 1)) = (.ok (socket', result) : Except Fault (BufferedSocket × Nat))
        ∧ socket'.Linked nodes'
        ∧ socket'.readBuffer = socket.readBuffer := by
  split
  · obtain ⟨socket', result, sent, nodes', flushed, linked', _⟩ := linked.networkWrite sends
    exact ⟨socket', nodes', result, bind_of_ok flushed _, linked',
      BufferedSocket.networkWrite_readBuffer flushed⟩
  · exact ⟨socket, nodes, 1, rfl, linked, rfl⟩

/-- Without a socket error the network buffers are handled, and the delivered bytes are appended
to the unread ones.
-/
theorem Opened.runNetworkBuffers (opened : p.Opened bytes) (healthy : outcome.Healthy)
    (now : Int)
    : ∃ next,
        p.runNetworkBuffers outcome now = .ok (next, .success)
        ∧ next.Opened (bytes ++ outcome.delivered)
        ∧ next.status = p.status := by
  obtain ⟨socket, nodes, socketEq, linked, rfl⟩ := opened
  unfold Peer.runNetworkBuffers
  split
  · obtain ⟨socket', nodes', result, flushed, linked', same⟩ := Opened.flush linked outcome.sends
    simp only [handleNetworkBuffers, socketEq, healthy.connected, Bool.false_eq_true, if_false]
    rw [bind_of_ok flushed]
    simp only [healthy.sends, not_true_eq_false, and_false, if_false]
    cases received : outcome.received with
    | none =>
        refine ⟨_, rfl, ⟨socket', nodes', rfl, linked', ?_⟩, rfl⟩
        simp [NetworkOutcome.delivered, received, same]
    | some outcome' =>
        cases outcome' with
        | fails errno =>
            simp only [healthy.receives errno received, if_true]
            refine ⟨_, rfl, ⟨socket', nodes', rfl, linked', ?_⟩, rfl⟩
            simp [NetworkOutcome.delivered, received, same]
        | delivers segment =>
            have appended := BufferedSocket.networkRead_segment linked'.connected segment.fits
            refine ⟨_, rfl,
              ⟨{ socket' with readBuffer := socket'.readBuffer ++ segment.bytes }, nodes', ?_,
                ⟨linked'.connected, linked'.holds, linked'.tail⟩, ?_⟩, rfl⟩
            · simp [Peer.networkRead, appended]
            · simp [NetworkOutcome.delivered, received, same]
  · rename_i idle
    refine ⟨p, rfl, ⟨socket, nodes, socketEq, linked, ?_⟩, rfl⟩
    have nothing : outcome.received = none := by
      by_contra received
      refine idle ?_
      simp [shouldHandleNetworkBuffers, socketEq, linked.connected, Option.isSome_iff_ne_none,
        received]
    simp [NetworkOutcome.delivered, nothing]

theorem handshakeMessage_length (infoHash : InfoHash)
    : (handshakeMessage infoHash).length = 68 := by
  have protocol : (ascii "BitTorrent protocol").length = 19 := by decide +kernel
  have peerId : (ascii "UVG11234567891234567").length = 20 := by decide +kernel
  simp [handshakeMessage, infoHash.sized, protocol, peerId]

theorem Opened.sendHandshake (opened : p.Opened bytes) (infoHash : InfoHash)
    : ∃ next,
        p.sendHandshake infoHash = .ok (next, .success)
        ∧ next.Opened bytes
        ∧ next.status = .handshakeSent := by
  obtain ⟨next, wrote, openNext, _⟩ := opened.write (handshakeMessage infoHash)
  refine ⟨{ next with status := .handshakeSent }, ?_, openNext, rfl⟩
  rw [Peer.sendHandshake, bind_of_ok wrote]
  simp [handshakeMessage_length]

theorem Opened.read_eq (opened : p.Opened bytes) (count : Nat)
    : ∃ next,
        p.read count
          = (if bytes.length < count then (p, 0, []) else (next, count, bytes.take count))
        ∧ next.Opened (bytes.drop count)
        ∧ next.status = p.status := by
  obtain ⟨socket, nodes, socketEq, linked, rfl⟩ := opened
  refine ⟨{ p with socket := some { socket with readBuffer := socket.readBuffer.drop count } },
    ?_, ⟨_, nodes, rfl, ⟨linked.connected, linked.holds, linked.tail⟩, rfl⟩, rfl⟩
  have same : { p with socket := some socket } = p := by rw [← socketEq]
  simp only [Peer.read, socketEq, BufferedSocket.read, if_neg linked.connected]
  split
  · rw [same]
  · rfl

/-- A handshake that has not arrived in full counts as a failed one. -/
theorem Opened.handleHandshake_short (opened : p.Opened bytes) (short : bytes.length < 68)
    (infoHash : InfoHash) (metadataSize : Nat)
    : p.handleHandshake infoHash metadataSize = .ok (p, .failure) := by
  obtain ⟨_, load, _⟩ := opened.read_eq 68
  simp [handleHandshake, load, short]

/-- A whole handshake for the torrent is accepted, and what stands behind it is left. -/
theorem Opened.handleHandshake_whole (opened : p.Opened bytes) (whole : 68 ≤ bytes.length)
    (ours : slice bytes 28 20 = infoHash.bytes) (metadataSize : Nat)
    : ∃ next,
        p.handleHandshake infoHash metadataSize = .ok (next, .success)
        ∧ next.Opened (bytes.drop 68)
        ∧ next.status = .handshakeComplete := by
  obtain ⟨next, load, openNext, _⟩ := opened.read_eq 68
  rw [if_neg (by omega)] at load
  have sameStart : slice (bytes.take 68) 28 8 = infoHash.bytes.take 8 := by
    rw [← slice_zero bytes 68, slice_slice (by omega), ← ours]
    simp [slice, List.take_take]
  simp only [handleHandshake, load, ne_eq, not_true_eq_false, if_false, sameStart]
  split
  · obtain ⟨after, wrote, openAfter, _⟩ :=
      openNext.write (extensionMessage 0 (extendedHandshake metadataSize).encode)
    refine ⟨{ after with status := .handshakeComplete }, ?_, openAfter, rfl⟩
    rw [bind_of_ok wrote]
    simp
  · exact ⟨{ next with status := .handshakeComplete }, rfl, openNext, rfl⟩

/-- Up to its last step, a run on an open connection reads from the network and sends the
handshake if that is due and possible.
-/
theorem Opened.runHandshake_eq (opened : p.Opened bytes) {outcome : ConnectionOutcome}
    (healthy : outcome.network.Healthy)
    (waiting : p.status = .connected ∨ p.status = .handshakeSent) (infoHash : InfoHash)
    (metadataSize : Nat)
    : ∃ next : Peer,
        p.runHandshake infoHash metadataSize outcome
          = next.runStep next.shouldHandleHandshake
              (next.handleHandshake infoHash metadataSize) outcome.now
        ∧ next.Opened (bytes ++ outcome.network.delivered)
        ∧ (next.status = .connected ∨ next.status = .handshakeSent)
        ∧ (next.status = .handshakeSent
          ↔ p.status = .handshakeSent ∨ outcome.canWrite = true) := by
  have connected : p.shouldConnect outcome.now = false := by
    rcases waiting with status | status <;> simp [shouldConnect, status]
  obtain ⟨next, handled, openNext, sameStatus⟩ :=
    opened.runNetworkBuffers healthy outcome.now
  obtain ⟨socket, nodes, socketEq, linked, _⟩ := id openNext
  have sends : next.shouldSendHandshake outcome.canWrite
      = decide (p.status = .connected ∧ outcome.canWrite = true) := by
    simp [shouldSendHandshake, socketEq, sameStatus, linked.connected, beq_eq_decide]
  simp only [runHandshake, connected, Bool.false_eq_true, if_false]
  rw [bind_of_ok handled]
  dsimp only
  by_cases due : p.status = .connected ∧ outcome.canWrite = true
  · obtain ⟨after, sent, openAfter, afterStatus⟩ := openNext.sendHandshake infoHash
    have step : next.runStep (next.shouldSendHandshake outcome.canWrite)
        (next.sendHandshake infoHash) outcome.now = .ok (after, .success) := by
      rw [runStep, sends, decide_eq_true due, if_pos rfl, bind_of_ok sent]
    rw [bind_of_ok step]
    exact ⟨after, rfl, openAfter, .inr afterStatus, by simp [afterStatus, due]⟩
  · have step : next.runStep (next.shouldSendHandshake outcome.canWrite)
        (next.sendHandshake infoHash) outcome.now = .ok (next, .success) := by
      rw [runStep, sends, decide_eq_false due]
      rfl
    rw [bind_of_ok step]
    refine ⟨next, rfl, openNext, by rwa [sameStatus], ?_⟩
    rw [sameStatus]
    rcases waiting with status | status
    · simpa [status] using due
    · simp [status]

/-- The four ends of a run on an open connection: the handshake is not sent yet, nothing of the
answer is there, a part of it is, or all of it.
-/
theorem Opened.runHandshake_cases (opened : p.Opened bytes) {outcome : ConnectionOutcome}
    (healthy : outcome.network.Healthy)
    (waiting : p.status = .connected ∨ p.status = .handshakeSent) (metadataSize : Nat)
    (ours
      : 68 ≤ (bytes ++ outcome.network.delivered).length
        → slice (bytes ++ outcome.network.delivered) 28 20 = infoHash.bytes)
    : let run := p.runHandshake infoHash metadataSize outcome
      let arrived := bytes ++ outcome.network.delivered
      let due := p.status = .handshakeSent ∨ outcome.canWrite = true
      ∃ next : Peer,
        (run = .ok (next, .success) ∧ next.Opened arrived ∧ next.status = .connected ∧ ¬ due)
        ∨ due
          ∧ (run = .ok (next, .success)
              ∧ next.Opened arrived
              ∧ next.status = .handshakeSent
              ∧ arrived.length = 0
            ∨ run = .ok (next, .failure)
              ∧ next.status = .unconnected
              ∧ 0 < arrived.length
              ∧ arrived.length < 68
            ∨ run = .ok (next, .success)
              ∧ next.Opened (arrived.drop 68)
              ∧ next.status = .handshakeComplete
              ∧ 68 ≤ arrived.length) := by
  intro run arrived due
  obtain ⟨next, runs, openNext, nextWaiting, sent⟩ :=
    opened.runHandshake_eq healthy waiting infoHash metadataSize
  rcases nextWaiting with status | status
  · refine ⟨next, .inl ⟨?_, openNext, status, ?_⟩⟩
    · exact runs.trans (by simp [runStep, shouldHandleHandshake, status])
    · intro isDue
      have := sent.mpr isDue
      rw [status] at this
      cases this
  · have isDue : due := sent.mp status
    rcases Nat.eq_zero_or_pos arrived.length with none | some
    · refine ⟨next, .inr ⟨isDue, .inl ⟨?_, openNext, status, none⟩⟩⟩
      have noBytes : bytes ++ outcome.network.delivered = [] := List.length_eq_zero_iff.mp none
      have unreadable := openNext.canRead_eq
      rw [noBytes] at unreadable
      exact runs.trans (by simp [runStep, shouldHandleHandshake, unreadable])
    · have readable : next.shouldHandleHandshake = true := by
        have nonempty := List.ne_nil_of_length_pos some
        rw [shouldHandleHandshake, openNext.canRead_eq, status, decide_eq_true nonempty]
        rfl
      have step := runs
      rw [runStep, if_pos readable] at step
      rcases Nat.lt_or_ge arrived.length 68 with short | whole
      · refine ⟨next.disconnect outcome.now, .inr ⟨isDue, .inr (.inl ⟨?_, rfl, some, short⟩)⟩⟩
        rw [openNext.handleHandshake_short short] at step
        exact step
      · obtain ⟨after, handled, openAfter, afterStatus⟩ :=
          openNext.handleHandshake_whole whole (ours whole) metadataSize
        refine ⟨after, .inr ⟨isDue, .inr (.inr ⟨?_, openAfter, afterStatus, whole⟩)⟩⟩
        rw [bind_of_ok handled] at step
        exact step

end Peer

-----------------------------------------------------------------------------------------
-- Runs that wait for the handshake
-----------------------------------------------------------------------------------------

/-- What one `peer_run` meets while the handshake is not complete. Between the handshake and the
last handling of the network buffers every step is for handshaken peers or a timeout.
-/
structure HandshakeIteration where
  connection : ConnectionOutcome
  after : NetworkOutcome

/-- A peer that waits for a handshake, the bytes delivered on its connection, and how many of
them were there when the peer last looked for the handshake.
-/
structure Handshaking where
  peer : Peer
  received : Bytes
  examined : Nat

namespace Handshaking

def start (p : Peer) : Handshaking := { peer := p, received := p.unread, examined := 0 }

/-- The connection is open and its handshake is not complete. -/
def Waiting (state : Handshaking) : Prop :=
  state.peer.status = .connected ∨ state.peer.status = .handshakeSent

instance (state : Handshaking) : Decidable state.Waiting := inferInstanceAs (Decidable (_ ∨ _))

/-- One `peer_run`, without a timeout. A handshake that is complete and a connection that is
closed are left as they are.
-/
def iterate (infoHash : InfoHash) (metadataSize : Nat) (state : Handshaking)
    (iteration : HandshakeIteration)
    : Except Fault Handshaking :=
  if state.Waiting then
    let received := state.received ++ iteration.connection.network.delivered
    (state.peer.runHandshake infoHash metadataSize iteration.connection).bind fun
      | (peer, .failure) => .ok { peer, received, examined := received.length }
      | (peer, .success) =>
          match peer.status with
          | .handshakeComplete => .ok { peer, received, examined := received.length }
          | status =>
              let examined := if status = .connected then state.examined else received.length
              (peer.runNetworkBuffers iteration.after iteration.connection.now).bind
                fun (peer, _) =>
                  .ok { peer, received := received ++ iteration.after.delivered, examined }
  else .ok state

/-- The stream begins with a handshake that carries the info hash. -/
def BeginsWithHandshake (infoHash : InfoHash) (stream : Bytes) : Prop :=
  68 ≤ stream.length ∧ slice stream 28 20 = infoHash.bytes

/-- The run meets no socket error and delivers the next bytes of the stream. -/
structure Delivers (stream : Bytes) (state : Handshaking) (iteration : HandshakeIteration)
    : Prop where
  before : iteration.connection.network.Healthy
  after : iteration.after.Healthy
  next
    : state.received ++ iteration.connection.network.delivered ++ iteration.after.delivered
      <+: stream

/-- The handshake is waited for while it is not there in full, and accepted once it is. -/
def InTime (state : Handshaking) : Prop :=
  if state.examined < 68 then state.Waiting ∧ state.peer.unread = state.received
  else
    state.peer.status = .handshakeComplete ∧ state.peer.unread = state.received.drop 68

/-- A run that looks for the handshake finds no byte of it, or all of it. -/
def Uncut (state : Handshaking) (iteration : HandshakeIteration) : Prop :=
  state.Waiting
  → state.peer.status = .handshakeSent ∨ iteration.connection.canWrite = true
  → let arrived := (state.received ++ iteration.connection.network.delivered).length
    arrived = 0 ∨ 68 ≤ arrived

variable {state next : Handshaking} {infoHash : InfoHash} {metadataSize : Nat}
  {iteration : HandshakeIteration} {stream : Bytes}

/-- A connection that waits, one whose handshake is complete, or one that was given up. -/
inductive Standing (state : Handshaking) : Prop
  | waiting (status : state.Waiting) (opened : state.peer.Opened state.received)
    (unexamined : state.examined < 68)
  | complete (status : state.peer.status = .handshakeComplete)
    (unread : state.peer.unread = state.received.drop 68) (examined : 68 ≤ state.examined)
  | lost (status : state.peer.status = .unconnected) (unexamined : state.examined < 68)

theorem Standing.inTime_iff (standing : state.Standing)
    : state.InTime ↔ state.peer.status ≠ .unconnected := by
  cases standing with
  | waiting status opened unexamined =>
      have connected : state.peer.status ≠ .unconnected := by
        rcases status with status | status <;> simp [status]
      simp [InTime, unexamined, status, opened.unread_eq, connected]
  | complete status unread examined =>
      simp [InTime, Nat.not_lt.mpr examined, status, unread]
  | lost status unexamined => simp [InTime, unexamined, Waiting, status]

theorem Standing.and_inTime {before : Prop} (standing : state.Standing)
    (kept : state.peer.status ≠ .unconnected ↔ before)
    : state.Standing ∧ (state.InTime ↔ before) :=
  ⟨standing, standing.inTime_iff.trans kept⟩

/-- A stream that begins with the handshake is recognised from any part that has all of it. -/
theorem BeginsWithHandshake.of_prefix {arrived : Bytes}
    (begins : BeginsWithHandshake infoHash stream) (part : arrived <+: stream)
    (whole : 68 ≤ arrived.length)
    : slice arrived 28 20 = infoHash.bytes := by
  obtain ⟨rest, rfl⟩ := part
  rw [← begins.2, slice, slice, List.drop_append_of_le_length (by omega),
    List.take_append_of_le_length (by rw [List.length_drop]; omega)]

/-- One run returns, and keeps a waiting connection exactly when it does not find a part of the
handshake.
-/
theorem Standing.iterate (standing : state.Standing) (begins : BeginsWithHandshake infoHash stream)
    (delivers : Delivers stream state iteration) (metadataSize : Nat)
    : ∃ next,
        state.iterate infoHash metadataSize iteration = .ok next
        ∧ next.Standing
        ∧ (next.InTime ↔ state.InTime ∧ state.Uncut iteration) := by
  have inTime := standing.inTime_iff
  have stays (ended : ¬ state.Waiting)
      : ∃ next,
          state.iterate infoHash metadataSize iteration = .ok next
          ∧ next.Standing
          ∧ (next.InTime ↔ state.InTime ∧ state.Uncut iteration) :=
    ⟨state, by rw [Handshaking.iterate, if_neg ended], standing, by simp [Uncut, ended]⟩
  cases standing with
  | complete status _ _ => exact stays (by simp [Waiting, status])
  | lost status _ => exact stays (by simp [Waiting, status])
  | waiting status opened unexamined =>
      have connected : state.peer.status ≠ .unconnected := by
        rcases status with status | status <;> simp [status]
      have ours (whole : 68 ≤ (state.received ++ iteration.connection.network.delivered).length)
          : slice (state.received ++ iteration.connection.network.delivered) 28 20
            = infoHash.bytes :=
        begins.of_prefix ((List.prefix_append _ _).trans delivers.next) whole
      have good : state.InTime ∧ state.Uncut iteration
          ↔ (state.peer.status = .handshakeSent ∨ iteration.connection.canWrite = true
            → let arrived := (state.received ++ iteration.connection.network.delivered).length
              arrived = 0 ∨ 68 ≤ arrived) := by
        rw [and_iff_right (inTime.mpr connected)]
        simp [Uncut, status]
      simp only [Handshaking.iterate, if_pos status, good]
      obtain ⟨peer, ⟨runs, openPeer, peerStatus, notDue⟩ | ⟨due,
          ⟨runs, openPeer, peerStatus, none⟩ | ⟨runs, peerStatus, some, short⟩
          | ⟨runs, openPeer, peerStatus, whole⟩⟩⟩ :=
        opened.runHandshake_cases delivers.before status metadataSize ours
      · -- the handshake is not sent yet, and nothing looks for the answer
        obtain ⟨after, handled, openAfter, afterStatus⟩ :=
          openPeer.runNetworkBuffers delivers.after iteration.connection.now
        rw [bind_of_ok runs]
        simp only [peerStatus, if_true]
        rw [bind_of_ok handled]
        refine ⟨_, rfl, Standing.and_inTime
          (.waiting (.inl (afterStatus.trans peerStatus)) openAfter unexamined) ?_⟩
        simp [afterStatus, peerStatus, notDue]
      · obtain ⟨after, handled, openAfter, afterStatus⟩ :=
          openPeer.runNetworkBuffers delivers.after iteration.connection.now
        rw [bind_of_ok runs]
        simp only [peerStatus, reduceCtorEq, if_false]
        rw [bind_of_ok handled]
        refine ⟨_, rfl, Standing.and_inTime
          (.waiting (.inr (afterStatus.trans peerStatus)) openAfter (by simp [none])) ?_⟩
        simp only [afterStatus, peerStatus, none, true_or, implies_true]
        simp
      · -- a part of the answer disconnects the peer
        rw [bind_of_ok runs]
        refine ⟨_, rfl, Standing.and_inTime (.lost peerStatus short) ?_⟩
        refine iff_of_false (not_not_intro peerStatus) (fun accepted => ?_)
        rcases accepted due with none | whole
        · exact absurd none (Nat.ne_of_gt some)
        · exact absurd whole (Nat.not_le.mpr short)
      · rw [bind_of_ok runs]
        simp only [peerStatus]
        refine ⟨_, rfl, Standing.and_inTime (.complete peerStatus openPeer.unread_eq whole) ?_⟩
        exact iff_of_true (by simp [peerStatus]) (fun _ => .inr whole)

/-- Whatever way a stream that begins with our handshake is cut, the runs of `peer_run` return,
and the handshake is waited for and accepted if and only if no run that looks for it finds only
a part of it.
-/
theorem handshake_inTime_iff {p : Peer} {iterations : List HandshakeIteration}
    (waiting : p.status = .connected ∨ p.status = .handshakeSent) (opened : p.Opened p.unread)
    (begins : BeginsWithHandshake infoHash stream)
    (delivers
      : Guarded (iterate infoHash metadataSize) (Delivers stream) (start p) iterations)
    : ∃ final,
        runSteps (iterate infoHash metadataSize) (start p) iterations = .ok final
        ∧ (final.InTime ↔ Guarded (iterate infoHash metadataSize) Uncut (start p) iterations) := by
  have standing : (start p).Standing := .waiting waiting opened (Nat.zero_lt_succ _)
  have inTime : (start p).InTime := by simpa [InTime, start, Waiting] using waiting
  obtain ⟨final, run, _⟩ := runSteps_returns_of_guarded
    (fun _ _ kept allowed =>
      let ⟨next, iterated, standing, _⟩ := kept.iterate begins allowed metadataSize
      ⟨next, iterated, standing⟩)
    standing delivers
  refine ⟨final, run, ?_⟩
  have ends : final.InTime ↔ (start p).InTime ∧ _ :=
    runSteps_good_iff
      (fun state iteration next kept allowed iterated => by
        obtain ⟨next', returned, standing', iff⟩ := kept.iterate begins allowed metadataSize
        obtain rfl := Except.ok.inj (iterated.symm.trans returned)
        exact ⟨standing', iff⟩)
      standing delivers run
  rw [ends]
  exact and_iff_right inTime

/-- A peer that has sent its handshake and received nothing. -/
def sentPeer : Peer :=
  {
    (Peer.new 0) with
    socket := some { BufferedSocket.new with socket := 3 }
    status := .handshakeSent
  }

theorem sentPeer_opened : sentPeer.Opened sentPeer.unread :=
  ⟨_, [], rfl, ⟨by simp, PtrList.nil_holds, nofun⟩, rfl⟩

def sampleInfoHash : InfoHash := .filled 7

/-- A network that delivers one segment and takes what is sent. -/
def delivery (segment : NetworkSegment) : NetworkOutcome :=
  {
    hungUp := false
    sends := fun _ => .accepts 65535
    sendErrno := .again
    received := some (.delivers segment)
  }

theorem delivery_healthy (segment : NetworkSegment) : (delivery segment).Healthy :=
  ⟨rfl, rfl, nofun⟩

/-- A run that receives a part of the stream first and one more segment at its end. -/
def deliveries (first last : NetworkSegment) : HandshakeIteration :=
  {
    connection := { now := 1, descriptor := 3, network := delivery first, canWrite := true }
    after := delivery last
  }

/-- Our own handshake, sent back by a remote. -/
def sampleStream : Bytes := Peer.handshakeMessage sampleInfoHash

theorem sampleStream_begins : BeginsWithHandshake sampleInfoHash sampleStream :=
  ⟨by decide +kernel, by decide +kernel⟩

/-- Witness: all 68 bytes arrive in one read. -/
theorem handshake_inTime_iff_whole
    : ∃ final,
        runSteps (iterate sampleInfoHash 0) (start sentPeer)
            [deliveries ⟨sampleStream, by decide +kernel⟩ ⟨[], by decide⟩]
          = .ok final
        ∧ final.InTime := by
  obtain ⟨final, run, inTime⟩ := handshake_inTime_iff (.inr rfl) sentPeer_opened
    sampleStream_begins
    (show Guarded (iterate sampleInfoHash 0) (Delivers sampleStream) (start sentPeer)
        [deliveries ⟨sampleStream, by decide +kernel⟩ ⟨[], by decide⟩] from
      ⟨⟨delivery_healthy _, delivery_healthy _, ⟨[], by decide +kernel⟩⟩, fun _ _ => trivial⟩)
  refine ⟨final, run, inTime.mpr ⟨fun _ _ => .inr ?_, fun _ _ => trivial⟩⟩
  decide +kernel

/-- A remote whose first byte arrives alone is disconnected. -/
theorem first_byte_disconnects
    : BeginsWithHandshake sampleInfoHash sampleStream
      ∧ Guarded (iterate sampleInfoHash 0) (Delivers sampleStream) (start sentPeer)
          [deliveries ⟨sampleStream.take 1, by decide +kernel⟩ ⟨[], by decide⟩]
      ∧ ∃ final,
          runSteps (iterate sampleInfoHash 0) (start sentPeer)
              [deliveries ⟨sampleStream.take 1, by decide +kernel⟩ ⟨[], by decide⟩]
            = .ok final
          ∧ final.received = sampleStream.take 1
          ∧ final.peer.status = .unconnected
          ∧ ¬ final.InTime := by
  refine ⟨sampleStream_begins, ⟨⟨delivery_healthy _, delivery_healthy _, ?_⟩, fun _ _ => trivial⟩,
    ?_⟩
  · exact ⟨sampleStream.drop 1, by decide +kernel⟩
  · have passed : returnsWith
          (runSteps (iterate sampleInfoHash 0) (start sentPeer)
            [deliveries ⟨sampleStream.take 1, by decide +kernel⟩ ⟨[], by decide⟩])
          (fun final =>
            decide
              (final.received = sampleStream.take 1
                ∧ final.examined < 68
                ∧ final.peer.status = .unconnected))
        = true := by
      decide +kernel
    obtain ⟨final, run, observed⟩ := exists_ok_of_returnsWith passed
    obtain ⟨received, unexamined, status⟩ := of_decide_eq_true observed
    refine ⟨final, run, received, status, ?_⟩
    simp [InTime, unexamined, Waiting, status]

end Handshaking

end UvgTorrent

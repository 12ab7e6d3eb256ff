import UvgTorrent.Peers.Traffic

/-! `peer_connect` with the calls of `buffered_socket_connect`. Its failures are `EXIT_FAILURE`, and
`peer_connect` looks for -1: a peer whose socket could not be connected counts as connected, so a
run keeps its promise exactly when every connection that it tries is made.
-/

namespace UvgTorrent

open Foundations

/-- The value of `EXIT_SUCCESS` and `EXIT_FAILURE`. -/
def Exit.code : Exit → Int
  | success => 0
  | failure => 1

/-- What `socket`, the two calls of `fcntl` and `connect` return, with `errno` behind the last. -/
structure ConnectCalls where
  socket : Int
  getFlags : Int
  setFlags : Int
  connect : Int
  errno : Errno

/-- `buffered_socket_connect`. -/
def BufferedSocket.connect (socket : BufferedSocket) (calls : ConnectCalls)
    : BufferedSocket × Exit :=
  let socket := { socket with socket := calls.socket }
  if calls.socket = -1 then (socket, .failure)
  else if calls.getFlags < 0 then (socket, .failure)
  else if calls.setFlags < 0 then (socket, .failure)
  else if calls.connect < 0 ∧ calls.errno ≠ .inProgress then (socket, .failure)
  else (socket, .success)

namespace Peer

/-- `peer_connect`, with the calls it comes to. On its error path the socket is freed and the peer
keeps the pointer.
-/
def tryConnect (p : Peer) (calls : ConnectCalls) : Peer × Exit :=
  let p := { p with status := .connecting, socket := some .new }
  let (socket, result) := BufferedSocket.new.connect calls
  let p := { p with socket := some socket }
  if result.code = -1 then ({ p with status := .unconnected }, .failure)
  else ({ p with status := .connected }, .success)

/-- The guarded connection in `peer_run`. Behind a failure `peer_disconnect` would free the socket
again.
-/
def runConnect (p : Peer) (now : Int) (calls : ConnectCalls) : Except Fault Peer :=
  if p.shouldConnect now then
    match p.tryConnect calls with
    | (p, .success) => .ok p
    | (_, .failure) => .error .danglingPointer
  else .ok p

end Peer

/-- What a `peer_run` of an outgoing peer meets. -/
structure PeerIteration extends RunInput where
  calls : ConnectCalls

/-- An outgoing peer, with the result of the `buffered_socket_connect` call that made its socket. -/
structure OutgoingPeer where
  peer : Peer
  created : Option Exit

namespace OutgoingPeer

variable {beDecode : BeDecode} {s next : OutgoingPeer} {iteration : PeerIteration}

/-- A peer of `peer_new`. -/
def new (now : Int) : OutgoingPeer := { peer := .new now, created := none }

/-- The run tries to connect, with this result. -/
def Attempts (s : OutgoingPeer) (iteration : PeerIteration) (result : Exit) : Prop :=
  s.peer.shouldConnect iteration.now = true
  ∧ (BufferedSocket.new.connect iteration.calls).2 = result

/-- One `peer_run`. The connected peer is one that `peer_run` does not connect again. -/
def step (beDecode : BeDecode) (s : OutgoingPeer) (iteration : PeerIteration)
    : Except Fault OutgoingPeer :=
  (s.peer.runConnect iteration.now iteration.calls).bind fun p =>
    (p.runOn beDecode iteration.toRunInput).bind fun result =>
      .ok
        {
          peer := result.peer
          created :=
            if s.peer.shouldConnect iteration.now then
              some (BufferedSocket.new.connect iteration.calls).2
            else s.created
        }

/-- A status from `PEER_CONNECTED` on comes with an open socket that was connected. -/
def Connected (s : OutgoingPeer) : Prop :=
  s.peer.status ∈ [.connected, .handshakeSent, .handshakeComplete]
  → s.peer.takesWrites ∧ s.created = some .success

/-- What is promised of a run: its state means what it says, and a connection that fails ends it
unconnected, to be tried again later.
-/
structure KeepsPromise (beDecode : BeDecode) (s : OutgoingPeer) (iteration : PeerIteration)
    : Prop where
  connected : ∀ next, s.step beDecode iteration = .ok next → next.Connected
  reported
    : s.Attempts iteration .failure → (s.peer.tryConnect iteration.calls).2 = .failure
  unconnected
    : s.Attempts iteration .failure
      → ∀ next,
          s.step beDecode iteration = .ok next
          → next.peer.status = .unconnected
            ∧ next.peer.socket = none
            ∧ iteration.now < next.peer.reconnectDeadline

/-- A connection that is tried is made. -/
def AttemptSucceeds (s : OutgoingPeer) (iteration : PeerIteration) : Prop :=
  ¬ s.Attempts iteration .failure

end OutgoingPeer

-----------------------------------------------------------------------------------------
-- Connecting
-----------------------------------------------------------------------------------------

namespace Peer

variable {p next : Peer} {now : Int}

/-- `peer_connect` never fails, and takes the socket for a connected one. -/
theorem tryConnect_eq (p : Peer) (calls : ConnectCalls)
    : p.tryConnect calls = (p.connect calls.socket, .success) := by
  have socket
      : (BufferedSocket.new.connect calls).1
        = { BufferedSocket.new with socket := calls.socket } := by
    unfold BufferedSocket.connect
    dsimp only
    repeat' split
    all_goals rfl
  have never : (BufferedSocket.new.connect calls).2.code ≠ -1 := by
    cases (BufferedSocket.new.connect calls).2 <;> decide
  unfold tryConnect
  dsimp only
  rw [if_neg never, socket]
  rfl

theorem runConnect_eq (p : Peer) (now : Int) (calls : ConnectCalls)
    : p.runConnect now calls
      = .ok (if p.shouldConnect now then p.connect calls.socket else p) := by
  unfold runConnect
  rw [tryConnect_eq]
  split <;> rfl

end Peer

/-- A connection that was made has a descriptor. -/
theorem BufferedSocket.connect_success {socket : BufferedSocket} {calls : ConnectCalls}
    (success : (socket.connect calls).2 = .success)
    : calls.socket ≠ -1 := by
  unfold connect at success
  dsimp only at success
  split at success
  · cases success
  · assumption

-----------------------------------------------------------------------------------------
-- No other part of a run opens a connection
-----------------------------------------------------------------------------------------

namespace Peer

variable {p next : Peer} {now : Int}

/-- A peer that is not unconnected was not, and its socket is as open as it was. -/
def Stays (p next : Peer) : Prop :=
  next.status ≠ .unconnected → p.status ≠ .unconnected ∧ (p.takesWrites → next.takesWrites)

theorem Stays.refl (p : Peer) : p.Stays p := fun connected => ⟨connected, id⟩

theorem Stays.trans {last : Peer} (first : p.Stays next) (second : next.Stays last)
    : p.Stays last := by
  intro connected
  obtain ⟨between, opened⟩ := second connected
  obtain ⟨before, openedBefore⟩ := first between
  exact ⟨before, opened ∘ openedBefore⟩

theorem SameTraffic.stays (kept : p.SameTraffic next) : p.Stays next := by
  intro connected
  rw [kept.status] at connected
  refine ⟨connected, fun opened => ?_⟩
  rw [takesWrites_iff] at opened ⊢
  rwa [kept.descriptor]

theorem LinkEffect.stays (effect : p.LinkEffect next) : p.Stays next := by
  intro connected
  rcases effect with kept | dropped
  · rw [kept.status] at connected
    exact ⟨connected, kept.takesWrites⟩
  · exact absurd dropped.status connected

theorem TrafficEffect.stays (effect : p.TrafficEffect next) : p.Stays next := by
  cases effect with
  | same kept => exact kept.stays
  | dropped status pending => exact fun connected => absurd status connected

/-- The handshake does not open a connection either. -/
theorem stays_keptByHandshake (p : Peer) : KeptByHandshake p.Stays where
  effect := fun _ _ stays effect => stays.trans effect.stays
  advance := by
    intro q next status stays greeting _ kept
    refine stays.trans fun _ => ⟨?_, fun opened => ?_⟩
    · rcases greeting with connected | sent
      · rw [connected]
        nofun
      · rw [sent]
        nofun
    · rw [takesWrites_iff] at opened ⊢
      rwa [← kept.descriptor] at opened

/-- A run that does not connect does not open a connection. -/
theorem runOn_stays {beDecode : BeDecode} {input : RunInput} {result : RunResult}
    (idle : p.shouldConnect input.now = false) (ran : p.runOn beDecode input = .ok result)
    : p.Stays result.peer := by
  obtain ⟨⟨greeted, exit⟩, greeting, ran⟩ := bind_eq_ok.mp ran
  have begun : p.Stays greeted := by
    refine (stays_keptByHandshake p).runHandshake ?_ greeting
    have same : p.shouldConnect input.outcome.connection.now = false := idle
    rw [same]
    exact .refl p
  cases exit with
  | failure =>
      cases ran
      exact begun
  | success =>
      obtain ⟨⟨told, adverts⟩, telling, ran⟩ := bind_eq_ok.mp ran
      obtain ⟨last, messages, same⟩ := bind_eq_ok.mp ran
      cases same
      exact (begun.trans (runAdverts_traffic telling).stays).trans
        (runMessages_effect messages).1.stays

end Peer

-----------------------------------------------------------------------------------------
-- Runs of an outgoing peer
-----------------------------------------------------------------------------------------

namespace OutgoingPeer

variable {beDecode : BeDecode} {s next : OutgoingPeer} {iteration : PeerIteration}

/-- What a run relies on: also a peer that is connecting has its connection. -/
def Sound (s : OutgoingPeer) : Prop :=
  s.peer.status ≠ .unconnected → s.peer.takesWrites ∧ s.created = some .success

theorem Sound.connected (sound : s.Sound) : s.Connected :=
  fun member => sound fun unconnected => by simp [unconnected] at member

/-- The peer that the rest of a run works on, which is not connected again. -/
theorem not_shouldConnect (s : OutgoingPeer) (iteration : PeerIteration)
    : Peer.shouldConnect
        (if s.peer.shouldConnect iteration.now then s.peer.connect iteration.calls.socket
          else s.peer) iteration.now
      = false := by
  split
  · rfl
  · rename_i idle
    simpa using idle

/-- A run whose connection is made leaves a peer that means what it says. -/
theorem Sound.step (sound : s.Sound) (succeeds : s.AttemptSucceeds iteration)
    (stepped : s.step beDecode iteration = .ok next)
    : next.Sound := by
  obtain ⟨p, connecting, stepped⟩ := bind_eq_ok.mp stepped
  rw [Peer.runConnect_eq] at connecting
  obtain rfl := Except.ok.inj connecting
  obtain ⟨result, ran, same⟩ := bind_eq_ok.mp stepped
  obtain rfl := Except.ok.inj same
  have stays := Peer.runOn_stays (s.not_shouldConnect iteration) ran
  intro connected
  obtain ⟨before, opened⟩ := stays connected
  dsimp only
  by_cases ready : s.peer.shouldConnect iteration.now = true
  · rw [if_pos ready] at opened ⊢
    have made : (BufferedSocket.new.connect iteration.calls).2 = .success := by
      cases result : (BufferedSocket.new.connect iteration.calls).2 with
      | success => rfl
      | failure => exact absurd ⟨ready, result⟩ succeeds
    refine ⟨opened ⟨_, rfl, BufferedSocket.connect_success made⟩, by rw [made]⟩
  · rw [if_neg ready] at before opened ⊢
    obtain ⟨openedBefore, created⟩ := sound before
    exact ⟨opened openedBefore, created⟩

/-- A run of an outgoing peer keeps its promise in every iteration exactly when every connection
that it tries is made.
-/
theorem keepsPromise_iff (beDecode : BeDecode) (now : Int) (iterations : List PeerIteration)
    : Guarded (step beDecode) (KeepsPromise beDecode) (new now) iterations
      ↔ Guarded (step beDecode) AttemptSucceeds (new now) iterations := by
  constructor
  · refine Guarded.of_invariant (fun s iteration _ keeps => ⟨fun failing => ?_, fun _ _ => trivial⟩)
      (trivial : (fun _ => True) (new now))
    have reported := keeps.reported failing
    rw [Peer.tryConnect_eq] at reported
    cases reported
  · have start : Sound (new now) := fun connected => absurd rfl connected
    refine Guarded.of_invariant (fun s iteration (sound : Sound s) succeeds => ?_) start
    have kept (next : OutgoingPeer) (stepped : s.step beDecode iteration = .ok next) : next.Sound :=
      sound.step succeeds stepped
    have promise : s.KeepsPromise beDecode iteration :=
      {
        connected := fun next stepped => (kept next stepped).connected
        reported := fun failing => absurd failing succeeds
        unconnected := fun failing => absurd failing succeeds
      }
    exact ⟨promise, kept⟩

/-- A connection that is refused at once, with an errno other than `EINPROGRESS`. -/
def refusedIteration : PeerIteration :=
  {
    quietInput none with
    calls := { socket := 3, getFlags := 2, setFlags := 0, connect := -1, errno := .other 111 }
  }

/-- A peer whose connection was refused counts as connected. -/
theorem refused_connection_breaks_promise
    : ¬ Guarded (step fun _ => none) (KeepsPromise fun _ => none) (new 0) [refusedIteration] := by
  rintro ⟨keeps, -⟩
  have failing : Attempts (new 0) refusedIteration .failure := ⟨rfl, rfl⟩
  have reported := keeps.reported failing
  rw [Peer.tryConnect_eq] at reported
  cases reported

end OutgoingPeer

end UvgTorrent

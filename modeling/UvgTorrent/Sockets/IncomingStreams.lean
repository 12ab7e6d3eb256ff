import UvgTorrent.Sockets.ReadBuffers

/-! Runs of `buffered_socket_network_read` and `buffered_socket_read` on one connected socket. The
bytes delivered and the bytes still buffered are all the bytes received, in order, also when the
buffer is drained and filled again.
-/

namespace UvgTorrent

open Foundations

/-- What `read(2)` does on a connected socket with room for 65535 bytes. -/
inductive NetworkReadOutcome where
  | segment (bytes : Bytes) (nonempty : bytes ≠ []) (fits : bytes.length ≤ 65535)
  | endOfFile
  | fails

/-- The bytes that `read(2)` returns; `none` is its -1. -/
def NetworkReadOutcome.received : NetworkReadOutcome → Option Bytes
  | .segment bytes _ _ => some bytes
  | .endOfFile => some []
  | .fails => none

/-- The bytes that arrive. -/
def NetworkReadOutcome.bytes (outcome : NetworkReadOutcome) : Bytes := outcome.received.getD []

/-- One call on the socket, with what the system answers to it. -/
inductive IncomingOperation where
  | networkRead (memory : Allocator) (outcome : NetworkReadOutcome)
  | read (memory : Allocator) (dataLength : Nat) (positive : 1 ≤ dataLength)

/-- The read buffer, all the bytes received so far and all those delivered to the reader. -/
structure IncomingStream where
  buffer : ReadBuffer
  received : Bytes
  delivered : Bytes

namespace IncomingStream

variable {state next : IncomingStream} {operation : IncomingOperation} {socket : BufferedSocket}
  {fd : Int}

/-- A new socket once it is connected. -/
def start (fd : Int) : IncomingStream :=
  { buffer := .connected fd, received := [], delivered := [] }

/-- The state after one call. All that arrives from the network was received, whatever the call
makes of it, and all that is copied to the reader was delivered.
-/
def perform (state : IncomingStream) : IncomingOperation → Except Fault IncomingStream
  | .networkRead memory outcome =>
      (state.buffer.networkRead memory outcome.received).bind fun (buffer, _) =>
        .ok { state with buffer, received := state.received ++ outcome.bytes }
  | .read memory dataLength _ =>
      (state.buffer.read memory dataLength).bind fun (buffer, _, data) =>
        .ok { state with buffer, delivered := state.delivered ++ data }

/-- Nothing was lost, duplicated or reordered. -/
def Intact (state : IncomingStream) : Prop :=
  state.delivered ++ state.buffer.buffered = state.received

/-- A read returns 0 and changes nothing when fewer bytes are buffered than it asks for. Otherwise
it delivers as many as it asks for.
-/
def ReadsAll (state : IncomingStream) : IncomingOperation → Prop
  | .networkRead _ _ => True
  | .read memory dataLength _ =>
      (state.buffer.buffered.length < dataLength
        ∧ state.buffer.read memory dataLength = .ok (state.buffer, 0, []))
      ∨ (dataLength ≤ state.buffer.buffered.length
        ∧ ∃ buffer data,
            state.buffer.read memory dataLength = .ok (buffer, dataLength, data)
            ∧ data.length = dataLength)

/-- The memory that a call asks for is available. -/
def Allocates (state : IncomingStream) : IncomingOperation → Prop
  | .networkRead memory outcome =>
      ReadBuffer.Grants memory (state.buffer.networkReadRequest outcome.received)
  | .read memory dataLength _ => ReadBuffer.Grants memory (state.buffer.readRequest dataLength)

instance (state : IncomingStream) (operation : IncomingOperation)
    : Decidable (state.Allocates operation) :=
  match operation with
  | .networkRead _ _ => inferInstanceAs (Decidable (ReadBuffer.Grants _ _))
  | .read _ _ _ => inferInstanceAs (Decidable (ReadBuffer.Grants _ _))

/-- The read buffer stands for the bytes of a connected socket, and these continue what was
delivered.
-/
structure Carries (state : IncomingStream) (socket : BufferedSocket) : Prop where
  connected : socket.socket ≠ -1
  represents : state.buffer.Represents socket
  whole : state.delivered ++ socket.readBuffer = state.received

/-- The read buffer stands for the bytes of some connected socket. -/
def Standing (state : IncomingStream) : Prop := ∃ socket, state.Carries socket

theorem start_carries (connected : fd ≠ -1)
    : (start fd).Carries (BufferedSocket.new.setSocketFd fd) :=
  ⟨connected, ReadBuffer.connected_represents fd, rfl⟩

theorem Carries.intact (carries : state.Carries socket) : state.Intact := by
  rw [Intact, carries.represents.buffered_eq, carries.whole]

/-- A network read on an open socket appends what arrives. -/
theorem networkRead_outcome (connected : socket.socket ≠ -1) (outcome : NetworkReadOutcome)
    : (socket.networkRead outcome.received).1
      = { socket with readBuffer := socket.readBuffer ++ outcome.bytes } := by
  cases outcome with
  | segment bytes nonempty fits => exact BufferedSocket.networkRead_segment connected fits
  | endOfFile | fails =>
      rw [NetworkReadOutcome.received, BufferedSocket.networkRead, if_neg connected]
      simp [NetworkReadOutcome.bytes, NetworkReadOutcome.received]

/-- What a network read receives goes behind the buffered bytes. -/
theorem Carries.networkRead (carries : state.Carries socket) {memory : Allocator}
    {outcome : NetworkReadOutcome} (allocates : state.Allocates (.networkRead memory outcome))
    : ∃ next socket',
        state.perform (.networkRead memory outcome) = .ok next ∧ next.Carries socket' := by
  obtain ⟨connected, represents, whole⟩ := carries
  obtain ⟨buffer, returned, after⟩ := represents.networkRead allocates
  have appended := networkRead_outcome connected outcome
  refine ⟨_, _, bind_of_ok returned _, ?_, after, ?_⟩
  · rwa [appended]
  · rw [appended]
    dsimp only
    rw [← List.append_assoc, whole]

/-- A read takes all that it asks for from the front of the buffered bytes, or nothing. -/
theorem Carries.read (carries : state.Carries socket) {memory : Allocator} {dataLength : Nat}
    {positive : 1 ≤ dataLength} (allocates : state.Allocates (.read memory dataLength positive))
    : state.ReadsAll (.read memory dataLength positive)
      ∧ ∃ next socket',
          state.perform (.read memory dataLength positive) = .ok next ∧ next.Carries socket' := by
  obtain ⟨connected, represents, whole⟩ := carries
  unfold ReadsAll
  rw [represents.buffered_eq]
  by_cases short : socket.readBuffer.length < dataLength
  · have unchanged : state.buffer.read memory dataLength = .ok (state.buffer, 0, []) :=
      ReadBuffer.read_of_lt (by rwa [represents.descriptor]) (by rwa [represents.size])
    refine ⟨.inl ⟨short, unchanged⟩, _, socket, bind_of_ok unchanged _, connected, represents, ?_⟩
    simpa using whole
  · obtain ⟨buffer, returned, after⟩ := represents.read allocates
    have taken : socket.read dataLength
        = ({ socket with readBuffer := socket.readBuffer.drop dataLength }, dataLength,
            socket.readBuffer.take dataLength) := by
      rw [BufferedSocket.read, if_neg connected, if_neg short]
    rw [taken] at returned after
    have length : (socket.readBuffer.take dataLength).length = dataLength := by
      rw [List.length_take]
      omega
    refine ⟨.inr ⟨by omega, buffer, _, returned, length⟩, ?_⟩
    refine ⟨_, { socket with readBuffer := socket.readBuffer.drop dataLength },
      bind_of_ok returned _, connected, after, ?_⟩
    dsimp only
    rw [List.append_assoc, List.take_append_drop, whole]

/-- A call keeps the stream, and a read is all or nothing. -/
theorem Carries.perform (carries : state.Carries socket) (allocates : state.Allocates operation)
    : state.ReadsAll operation
      ∧ ∃ next socket', state.perform operation = .ok next ∧ next.Carries socket' := by
  cases operation with
  | networkRead memory outcome => exact ⟨trivial, carries.networkRead allocates⟩
  | read memory dataLength positive => exact carries.read allocates

/-- Every run on a connected socket returns, as long as the memory it asks for is available. Each
read delivers all that it asks for, or nothing while less is buffered, and the bytes delivered and
those still buffered are all the bytes received, in order.
-/
theorem intact_of_allocated (connected : fd ≠ -1) {operations : List IncomingOperation}
    (allocated : Guarded perform Allocates (start fd) operations)
    : Guarded perform ReadsAll (start fd) operations
      ∧ ∃ final, runSteps perform (start fd) operations = .ok final ∧ final.Intact := by
  have started : (start fd).Standing := ⟨_, start_carries connected⟩
  constructor
  · refine Guarded.of_invariant (fun state operation standing allocates => ?_) started allocated
    obtain ⟨socket, carries⟩ := standing
    obtain ⟨reads, next, socket', performed, kept⟩ := carries.perform allocates
    refine ⟨reads, fun other same => ?_⟩
    obtain rfl := Except.ok.inj (performed.symm.trans same)
    exact ⟨socket', kept⟩
  · have steps (state : IncomingStream) (operation : IncomingOperation) (standing : state.Standing)
        (allocates : state.Allocates operation)
        : ∃ next, state.perform operation = .ok next ∧ next.Standing := by
      obtain ⟨socket, carries⟩ := standing
      obtain ⟨_, next, socket', performed, kept⟩ := carries.perform allocates
      exact ⟨next, performed, socket', kept⟩
    obtain ⟨final, run, socket, carries⟩ := runSteps_returns_of_guarded steps started allocated
    exact ⟨final, run, carries.intact⟩

/-- Bytes that arrive in two segments, are read one part at a time until none is left, and are
followed by others.
-/
def drainAndRefill : List IncomingOperation :=
  [.networkRead .zeroed (.segment [1, 2, 3] (by decide) (by decide)),
    .networkRead .zeroed (.segment [4] (by decide) (by decide)), .read .zeroed 3 (by decide),
    .read .zeroed 2 (by decide), .networkRead .zeroed .endOfFile, .read .zeroed 1 (by decide),
    .networkRead .zeroed .fails, .networkRead .zeroed (.segment [5] (by decide) (by decide))]

/-- Witness: the run above on descriptor 3. -/
theorem intact_of_drainAndRefill
    : (3 : Int) ≠ -1
      ∧ Guarded perform Allocates (start 3) drainAndRefill
      ∧ Guarded perform ReadsAll (start 3) drainAndRefill
      ∧ ∃ final, runSteps perform (start 3) drainAndRefill = .ok final ∧ final.Intact := by
  have connected : (3 : Int) ≠ -1 := by decide
  have allocated : Guarded perform Allocates (start 3) drainAndRefill := by decide +kernel
  exact ⟨connected, allocated, intact_of_allocated connected allocated⟩

end IncomingStream

end UvgTorrent

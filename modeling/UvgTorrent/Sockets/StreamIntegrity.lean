import UvgTorrent.Sockets.BufferedSockets

/-! Runs of `buffered_socket_write` and `buffered_socket_network_write` on one connected socket.
The bytes on the wire and the bytes still reachable are all the bytes written, in order, as long
as no buffer is put in the place of unsent ones.
-/

namespace UvgTorrent

open Foundations

namespace BufferedSocket

variable {socket : BufferedSocket}
  {buffers : PtrList BufferedSocketWriteBuffer}
  {nodes : List (Nat × BufferedSocketWriteBuffer)}

/-- The unsent bytes of a list of write buffers. -/
def unsentBytes (nodes : List (Nat × BufferedSocketWriteBuffer)) : Bytes :=
  nodes.flatMap (·.2.unsent)

/-- The write buffers are `nodes`, and a tail that is set points to the last one. -/
structure Linked (socket : BufferedSocket) (nodes : List (Nat × BufferedSocketWriteBuffer))
    : Prop where
  connected : socket.socket ≠ -1
  holds : socket.writeBuffers.Holds nodes
  tail
    : ∀ address,
        socket.writeBufferTail = some address → nodes.getLast?.map Prod.fst = some address

theorem Linked.pending_eq (linked : socket.Linked nodes) : socket.pending = unsentBytes nodes := by
  rw [pending, linked.holds.values_eq, unsentBytes, List.flatMap_map]

/-- The loop sends a front part of the unsent bytes and keeps the rest. On an early exit the
last buffer is still in the list. Witness: induction on the buffers, each sent in full before
the next is tried.
-/
theorem sendLoop_spec (outcomes : Nat → SendOutcome) {steps : Nat} (call : Nat)
    (holds : buffers.Holds nodes) (enough : nodes.length < steps)
    : ∃ buffers' exit sent nodes',
        sendLoop outcomes steps call buffers = .ok (buffers', exit, sent)
        ∧ buffers'.Holds nodes'
        ∧ sent ++ unsentBytes nodes' = unsentBytes nodes
        ∧ (exit ≠ .finished → nodes' ≠ [] ∧ nodes'.getLast? = nodes.getLast?) := by
  induction nodes generalizing steps call buffers with
  | nil =>
      obtain ⟨steps, rfl⟩ := Nat.exists_eq_succ_of_ne_zero (Nat.ne_zero_of_lt enough)
      have empty : buffers.head = none := holds
      exact ⟨buffers, .finished, [], [], by simp [sendLoop, empty], holds, rfl, by simp⟩
  | cons node rest ih =>
      obtain ⟨steps, rfl⟩ := Nat.exists_eq_succ_of_ne_zero (Nat.ne_zero_of_lt enough)
      have opened := holds.at_head
      have pointed : buffers.head = some node.1 := by
        simpa [PtrList.load] using opened.load
      have found := opened.cell
      simp only [sendLoop, pointed, found]
      cases outcomes call with
      | again => exact ⟨buffers, .finished, [], node :: rest, rfl, holds, rfl, by simp⟩
      | fails => exact ⟨buffers, .error, [], node :: rest, rfl, holds, rfl, by simp⟩
      | accepts count =>
          dsimp only
          generalize result_eq : min count (min node.2.unsent.length maxTransfer) = result
          have asked : result ≤ node.2.unsent.length := by omega
          by_cases nothing : result = 0
          · rw [if_pos nothing]
            exact ⟨buffers, .zero, [], node :: rest, rfl, holds, rfl, by simp⟩
          · rw [if_neg nothing]
            by_cases partly : result < node.2.unsent.length
            · rw [if_pos partly]
              refine ⟨_, _, _, _, rfl, holds.modifyFirst _, ?_, by simp⟩
              simp only [unsentBytes, List.flatMap_cons,
                BufferedSocketWriteBuffer.unsent_sendSome asked]
              rw [← List.append_assoc, List.take_append_drop]
            · rw [if_neg partly]
              obtain ⟨buffers', exit, sent, nodes', looped, holds', bytes, last⟩ :=
                ih (call + 1) (by simpa using opened.remove.holds) (by simpa using enough)
              refine ⟨buffers', exit, _, nodes', bind_of_ok looped _, holds', ?_, ?_⟩
              · have whole : node.2.unsent.take result = node.2.unsent :=
                  List.take_of_length_le (by omega)
                rw [whole, List.append_assoc, bytes]
                rfl
              · intro early
                obtain ⟨nonempty, kept⟩ := last early
                refine ⟨nonempty, kept.trans ?_⟩
                cases rest with
                | nil => simp [nonempty] at kept
                | cons second others => rfl

/-- A flush returns, moves a front part of the unsent bytes to the wire and keeps the list
linked. Its early exits keep the tail, which is still in the list.
-/
theorem Linked.networkWrite (linked : socket.Linked nodes) (outcomes : Nat → SendOutcome)
    : ∃ socket' result sent nodes',
        socket.networkWrite outcomes = .ok (socket', result, sent)
        ∧ socket'.Linked nodes'
        ∧ sent ++ unsentBytes nodes' = unsentBytes nodes := by
  obtain ⟨connected, holds, tail⟩ := linked
  unfold BufferedSocket.networkWrite
  split
  · exact ⟨socket, sizeError, [], nodes, rfl, ⟨connected, holds, tail⟩, rfl⟩
  · obtain ⟨buffers', exit, sent, nodes', looped, holds', bytes, last⟩ :=
      sendLoop_spec outcomes 0 holds (Nat.lt_succ_of_le holds.length_le)
    rw [bind_of_ok looped]
    cases exit with
    | finished => exact ⟨_, _, sent, nodes', rfl, ⟨connected, holds', nofun⟩, bytes⟩
    | zero =>
        obtain ⟨_, kept⟩ := last nofun
        exact ⟨_, _, sent, nodes', rfl, ⟨connected, holds', by simpa [kept] using tail⟩, bytes⟩
    | error =>
        obtain ⟨_, kept⟩ := last nofun
        exact ⟨_, _, sent, nodes', rfl, ⟨connected, holds', by simpa [kept] using tail⟩, bytes⟩

/-- A write returns and keeps the list linked. Behind a tail that is set the new buffer is
appended; otherwise it takes the place of all buffers.
-/
theorem Linked.write (linked : socket.Linked nodes) (data : Bytes)
    : ∃ socket' nodes',
        socket.write data = .ok (socket', data.length)
        ∧ socket'.Linked nodes'
        ∧ unsentBytes nodes'
          = (if socket.writeBufferTail = none then [] else unsentBytes nodes) ++ data := by
  obtain ⟨connected, holds, tail⟩ := linked
  unfold BufferedSocket.write
  rw [if_neg connected]
  cases tailed : socket.writeBufferTail with
  | none =>
      refine ⟨_, _, rfl, ⟨connected, PtrList.allocLast_holds .., ?_⟩, ?_⟩
      · simp
      · simp [unsentBytes, BufferedSocketWriteBuffer.unsent]
  | some address =>
      have last := tail address tailed
      rcases List.eq_nil_or_concat nodes with rfl | ⟨front, final, rfl⟩
      · simp at last
      · rw [List.concat_eq_append] at holds last ⊢
        obtain rfl : final.1 = address := by simpa using last
        have member : final ∈ front ++ [final] := by simp
        obtain ⟨next, found⟩ := Segment.found holds member
        have kept (value : BufferedSocketWriteBuffer)
            : (socket.writeBuffers.allocLast value).heap.cell final.1 = some ⟨final.2, next⟩ :=
          CellHeap.alloc_cell_of_found found _
        simp only [kept]
        refine ⟨_, _, rfl, ⟨connected, holds.linkLast _, ?_⟩, ?_⟩
        · simp
        · simp [unsentBytes, BufferedSocketWriteBuffer.unsent]

end BufferedSocket

-----------------------------------------------------------------------------------------
-- Runs on one connected socket
-----------------------------------------------------------------------------------------

/-- One call on the socket: data to send, or a flush with the results of `write(2)`. -/
inductive StreamOperation where
  | write (data : Bytes)
  | networkWrite (outcomes : Nat → SendOutcome)

/-- The socket, the bytes that `write(2)` has taken, and all the data written so far. -/
structure OutgoingStream where
  socket : BufferedSocket
  wire : Bytes
  written : Bytes

namespace OutgoingStream

open BufferedSocket

variable {state next final : OutgoingStream} {operation : StreamOperation}
  {operations : List StreamOperation} {nodes : List (Nat × BufferedSocketWriteBuffer)} {fd : Int}

/-- A new socket once it is connected. -/
def start (fd : Int) : OutgoingStream :=
  { socket := BufferedSocket.new.setSocketFd fd, wire := [], written := [] }

/-- The state after one call. -/
def perform (state : OutgoingStream) : StreamOperation → Except Fault OutgoingStream
  | .write data =>
      (state.socket.write data).bind fun (socket, _) =>
        .ok { state with socket, written := state.written ++ data }
  | .networkWrite outcomes =>
      (state.socket.networkWrite outcomes).bind fun (socket, _, sent) =>
        .ok { state with socket, wire := state.wire ++ sent }

/-- The bytes on the wire and those still to be sent. -/
def carried (state : OutgoingStream) : Bytes := state.wire ++ state.socket.pending

/-- Nothing was lost, duplicated or reordered. -/
def Intact (state : OutgoingStream) : Prop := state.carried = state.written

/-- A write is made behind a tail that is set, or when no byte waits to be sent. -/
def Appends (state : OutgoingStream) : StreamOperation → Prop
  | .write _ => state.socket.writeBufferTail ≠ none ∨ state.socket.pending = []
  | .networkWrite _ => True

instance (state : OutgoingStream) : Decidable state.Intact :=
  inferInstanceAs (Decidable (_ = _))

instance (state : OutgoingStream) (operation : StreamOperation)
    : Decidable (state.Appends operation) :=
  match operation with
  | .write _ => inferInstanceAs (Decidable (_ ∨ _))
  | .networkWrite _ => inferInstanceAs (Decidable True)

/-- The data that a call hands to the socket. -/
def handed : StreamOperation → Bytes
  | .write data => data
  | .networkWrite _ => []

/-- Every call returns and keeps the list linked. The carried bytes grow by exactly the data
handed over when the call appends, and by less otherwise.
-/
theorem perform_returns (linked : state.socket.Linked nodes) (operation : StreamOperation)
    : ∃ next nodes',
        state.perform operation = .ok next
        ∧ next.socket.Linked nodes'
        ∧ next.written = state.written ++ handed operation
        ∧ (state.Appends operation → next.carried = state.carried ++ handed operation)
        ∧ (¬ state.Appends operation
          → next.carried.length < state.carried.length + (handed operation).length) := by
  cases operation with
  | write data =>
      obtain ⟨socket', nodes', wrote, linked', bytes⟩ := linked.write data
      have pending : socket'.pending
          = (if state.socket.writeBufferTail = none then [] else state.socket.pending)
            ++ data := by
        rw [linked'.pending_eq, bytes, linked.pending_eq]
      refine ⟨_, nodes', bind_of_ok wrote _, linked', rfl, ?_, ?_⟩
      · rintro (tailed | nothing)
        · simp [carried, pending, tailed, handed]
        · simp [carried, pending, nothing, handed]
      · intro replaces
        simp only [Appends, not_or, not_not] at replaces
        obtain ⟨noTail, waiting⟩ := replaces
        have lost := List.length_pos_iff.mpr waiting
        simp only [carried, pending, noTail, if_true, List.nil_append, List.length_append, handed]
        omega
  | networkWrite outcomes =>
      obtain ⟨socket', result, sent, nodes', flushed, linked', bytes⟩ :=
        linked.networkWrite outcomes
      refine ⟨_, nodes', bind_of_ok flushed _, linked', by simp [handed], ?_, ?_⟩
      · intro _
        simp [carried, linked'.pending_eq, linked.pending_eq, bytes, handed]
      · intro replaces
        exact absurd trivial replaces

/-- The list is linked, and a state that is not intact carries too few bytes: lost bytes never
come back.
-/
def Accountable (state : OutgoingStream) : Prop :=
  (∃ nodes, state.socket.Linked nodes)
  ∧ (state.Intact ∨ state.carried.length < state.written.length)

/-- One call leaves an intact stream exactly when it found one and appends. -/
theorem Accountable.perform (accountable : state.Accountable)
    (performed : state.perform operation = .ok next)
    : next.Accountable ∧ (next.Intact ↔ state.Intact ∧ state.Appends operation) := by
  obtain ⟨⟨nodes, linked⟩, whole⟩ := accountable
  obtain ⟨after, nodes', returned, linked', written, appends, replaces⟩ :=
    perform_returns linked operation
  obtain rfl := Except.ok.inj (performed.symm.trans returned)
  have short (missing : next.carried.length < next.written.length) : ¬ next.Intact := by
    intro intact
    rw [intact] at missing
    exact Nat.lt_irrefl _ missing
  by_cases appended : state.Appends operation
  · rcases whole with intact | fewer
    · have kept : next.Intact := by rw [Intact, appends appended, written, intact]
      exact ⟨⟨⟨nodes', linked'⟩, .inl kept⟩, iff_of_true kept ⟨intact, appended⟩⟩
    · have missing : next.carried.length < next.written.length := by
        rw [written, appends appended, List.length_append, List.length_append]
        exact Nat.add_lt_add_right fewer _
      refine ⟨⟨⟨nodes', linked'⟩, .inr missing⟩, iff_of_false (short missing) ?_⟩
      rintro ⟨intact, _⟩
      rw [intact] at fewer
      exact Nat.lt_irrefl _ fewer
  · -- the bytes that waited are lost here
    have carried : state.carried.length ≤ state.written.length := by
      rcases whole with intact | fewer
      · rw [intact]
      · exact Nat.le_of_lt fewer
    have missing : next.carried.length < next.written.length := by
      rw [written, List.length_append]
      exact (replaces appended).trans_le (Nat.add_le_add_right carried _)
    exact ⟨⟨⟨nodes', linked'⟩, .inr missing⟩,
      iff_of_false (short missing) (fun both => appended both.2)⟩

/-- Every run on a connected socket returns, and what it leaves on the wire and in the list is
all the data written, in order, exactly when every write was made behind a tail that is set or
with nothing left to send.
-/
theorem intact_iff_appends (connected : fd ≠ -1) (operations : List StreamOperation)
    : ∃ final,
        runSteps perform (start fd) operations = .ok final
        ∧ (final.Intact ↔ Guarded perform Appends (start fd) operations) := by
  have linked : (start fd).socket.Linked [] := ⟨connected, PtrList.nil_holds, nofun⟩
  have returns (state : OutgoingStream) (shaped : ∃ nodes, state.socket.Linked nodes)
      (operation : StreamOperation) (_ : operation ∈ operations)
      : ∃ next, state.perform operation = .ok next ∧ ∃ nodes, next.socket.Linked nodes := by
    obtain ⟨nodes, linked⟩ := shaped
    obtain ⟨next, nodes', returned, linked', _⟩ := perform_returns linked operation
    exact ⟨next, returned, nodes', linked'⟩
  obtain ⟨final, run, _⟩ := runSteps_returns returns ⟨[], linked⟩
  have empty : (start fd).Intact := rfl
  have accountable : (start fd).Accountable := ⟨⟨[], linked⟩, .inl empty⟩
  have unguarded : Guarded perform (fun _ _ => True) (start fd) operations :=
    Guarded.of_forall (fun _ _ => trivial) ..
  have ends := runSteps_good_iff (fun _ _ _ before _ performed => before.perform performed)
    accountable unguarded run
  exact ⟨final, run, by simpa [empty] using ends⟩

/-- Two buffers, the first one sent in two parts, with the second written in between. -/
def partialSend : List StreamOperation :=
  [.write [1, 2, 3], .networkWrite (fun _ => .accepts 1), .write [4, 5],
    .networkWrite (fun _ => .accepts 9)]

theorem intact_of_flushed_writes
    : (3 : Int) ≠ -1
      ∧ ∃ final,
          runSteps perform (start 3)
              [.write [1, 2, 3], .write [4], .networkWrite (fun _ => .accepts 9), .write [5]]
            = .ok final
          ∧ final.Intact := by
  have connected : (3 : Int) ≠ -1 := by decide
  refine ⟨connected, ?_⟩
  obtain ⟨final, run, intact⟩ := intact_iff_appends connected
    [.write [1, 2, 3], .write [4], .networkWrite (fun _ => .accepts 9), .write [5]]
  exact ⟨final, run, intact.mpr (by decide +kernel)⟩

/-- The two bytes left by a partial send are lost when more data is written. -/
theorem lost_after_partial_send
    : ¬ ∀ (fd : Int) (operations : List StreamOperation) (final : OutgoingStream),
        fd ≠ -1 → runSteps perform (start fd) operations = .ok final → final.Intact := by
  intro claim
  have passed : returnsWith (runSteps perform (start 3) partialSend)
      (fun final => !decide final.Intact)
      = true := by
    decide +kernel
  obtain ⟨final, run, observed⟩ := exists_ok_of_returnsWith passed
  have intact := claim 3 partialSend final (by decide) run
  simp [intact] at observed

end OutgoingStream

end UvgTorrent

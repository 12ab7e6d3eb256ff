import UvgTorrent.Foundations.ByteStrings
import UvgTorrent.Foundations.FallibleRuns
import UvgTorrent.Foundations.PointerChains
import UvgTorrent.Outcomes

/-! `buffered_socket.c`: a linked list of buffers that wait to be sent and one growing buffer of
received bytes. What the system calls return is an argument, and memory is available.
-/

namespace UvgTorrent

open Foundations

/-- `struct BufferedSocketWriteBuffer`; `data_size` is the number of bytes in `data`, and the
`next` pointer is the list cell's.
-/
structure BufferedSocketWriteBuffer where
  data : Bytes
  dataSent : Nat
  within : dataSent ≤ data.length
  deriving DecidableEq

/-- `struct BufferedSocket` without its address and rate measures. The write buffers are the
list from `write_buffer_head`, and `read_buffer` has `read_buffer_size` bytes.
-/
structure BufferedSocket where
  socket : Int
  writeBuffers : PtrList BufferedSocketWriteBuffer
  writeBufferTail : Option Nat
  readBuffer : Bytes

/-- What `write(2)` does: it takes at most `count` bytes, or returns -1 with or without
`EAGAIN`.
-/
inductive SendOutcome where
  | accepts (count : Nat)
  | again
  | fails
  deriving DecidableEq, Repr

/-- How the loop of `buffered_socket_network_write` is left. -/
inductive SendExit where
  | finished
  | zero
  | error
  deriving DecidableEq, Repr

/-- `(size_t) -1`. -/
def sizeError : Nat := 2 ^ 64 - 1

namespace BufferedSocketWriteBuffer

/-- The bytes that `write(2)` is asked to send. -/
def unsent (buffer : BufferedSocketWriteBuffer) : Bytes := buffer.data.drop buffer.dataSent

/-- `data_sent += result`; a result is never larger than what was asked for. -/
def sendSome (buffer : BufferedSocketWriteBuffer) (result : Nat) : BufferedSocketWriteBuffer :=
  if fits : buffer.dataSent + result ≤ buffer.data.length then
    { buffer with dataSent := buffer.dataSent + result, within := fits }
  else buffer

theorem unsent_sendSome {buffer : BufferedSocketWriteBuffer} {result : Nat}
    (asked : result ≤ buffer.unsent.length)
    : (buffer.sendSome result).unsent = buffer.unsent.drop result := by
  have within := buffer.within
  have fits : buffer.dataSent + result ≤ buffer.data.length := by
    simp only [unsent, List.length_drop] at asked
    omega
  simp [sendSome, fits, unsent, List.drop_drop]

end BufferedSocketWriteBuffer

namespace BufferedSocket

/-- `buffered_socket_new`. -/
def new : BufferedSocket :=
  { socket := -1, writeBuffers := .nil, writeBufferTail := none, readBuffer := [] }

/-- `buffered_socket_set_socket_fd` and `buffered_socket_connect`, once they have succeeded. -/
def setSocketFd (socket : BufferedSocket) (fd : Int) : BufferedSocket :=
  { socket with socket := fd }

/-- `buffered_socket_close`. -/
def close (socket : BufferedSocket) : BufferedSocket :=
  if 0 < socket.socket then { socket with socket := -1 } else socket

/-- `buffered_socket_can_network_write`. -/
def canNetworkWrite (socket : BufferedSocket) : Bool :=
  socket.socket ≠ -1 ∧ socket.writeBuffers.head ≠ none

/-- `buffered_socket_can_read`. -/
def canRead (socket : BufferedSocket) : Bool :=
  socket.socket ≠ -1 ∧ socket.readBuffer.length ≠ 0

/-- `buffered_socket_write`: a new buffer becomes the only one when `write_buffer_tail` is
`NULL`, and is linked behind the tail otherwise.
-/
def write (socket : BufferedSocket) (data : Bytes) : Except Fault (BufferedSocket × Nat) :=
  if socket.socket = -1 then .ok (socket, sizeError)
  else
    let address := socket.writeBuffers.heap.fresh
    let buffers := socket.writeBuffers.allocLast
      { data, dataSent := 0, within := Nat.zero_le _ }
    match socket.writeBufferTail with
    | none =>
        .ok
          ({
              socket with
              writeBuffers := buffers.store .head (some address)
              writeBufferTail := some address
            }, data.length)
    | some tail =>
        match buffers.heap.cell tail with
        | none => .error .danglingPointer
        | some _ =>
            .ok
              ({
                  socket with
                  writeBuffers := buffers.store (.nextOf tail) (some address)
                  writeBufferTail := some address
                }, data.length)

/-- The most that Linux transfers in one `write(2)`. -/
def maxTransfer : Nat := 0x7ffff000

/-- The loop of `buffered_socket_network_write`, with the bytes that `write(2)` takes. -/
def sendLoop (outcomes : Nat → SendOutcome)
    : Nat
      → Nat
      → PtrList BufferedSocketWriteBuffer
      → Except Fault (PtrList BufferedSocketWriteBuffer × SendExit × Bytes)
  | 0, _, _ => .error .endlessList
  | steps + 1, call, buffers =>
      match buffers.head with
      | none => .ok (buffers, .finished, [])
      | some address =>
          match buffers.heap.cell address with
          | none => .error .danglingPointer
          | some node =>
              match outcomes call with
              | .again => .ok (buffers, .finished, [])
              | .fails => .ok (buffers, .error, [])
              | .accepts count =>
                  let bytesToSend := node.value.unsent
                  let result := min count (min bytesToSend.length maxTransfer)
                  if result = 0 then .ok (buffers, .zero, [])
                  else if result < bytesToSend.length then
                    .ok
                      (buffers.modifyValue address (·.sendSome result), .finished,
                        bytesToSend.take result)
                  else
                    (sendLoop outcomes steps (call + 1)
                      ((buffers.free address).store .head node.next)).bind
                        fun (buffers, exit, sent) =>
                          .ok (buffers, exit, bytesToSend.take result ++ sent)

/-- `buffered_socket_network_write`, with the bytes that `write(2)` takes. The tail is reset
after the loop, also when buffers are left; the early exits keep it.
-/
def networkWrite (socket : BufferedSocket) (outcomes : Nat → SendOutcome)
    : Except Fault (BufferedSocket × Nat × Bytes) :=
  if socket.socket = -1 ∨ socket.writeBuffers.head = none then .ok (socket, sizeError, [])
  else
    (sendLoop outcomes (socket.writeBuffers.heap.fresh + 1) 0 socket.writeBuffers).bind
      fun (writeBuffers, exit, sent) =>
        match exit with
        | .finished => .ok ({ socket with writeBuffers, writeBufferTail := none }, 1, sent)
        | .zero => .ok ({ socket with writeBuffers }, 0, sent)
        | .error => .ok ({ socket with writeBuffers }, sizeError, sent)

/-- `buffered_socket_network_read`, when `read(2)` returns -1 (`none`) or the given bytes. -/
def networkRead (socket : BufferedSocket) (received : Option Bytes) : BufferedSocket × Nat :=
  if socket.socket = -1 then (socket, sizeError)
  else
    match received with
    | none => (socket, sizeError)
    | some [] => (socket, 0)
    | some bytes => ({ socket with readBuffer := socket.readBuffer ++ bytes.take 65535 }, 1)

/-- `buffered_socket_read`: all the bytes asked for, or none and the result 0. -/
def read (socket : BufferedSocket) (dataLength : Nat) : BufferedSocket × Nat × Bytes :=
  if socket.socket = -1 then (socket, sizeError, [])
  else if socket.readBuffer.length < dataLength then (socket, 0, [])
  else
    ({ socket with readBuffer := socket.readBuffer.drop dataLength }, dataLength,
      socket.readBuffer.take dataLength)

/-- Sending does not touch the received bytes. -/
theorem write_readBuffer {socket next : BufferedSocket} {data : Bytes} {result : Nat}
    (wrote : socket.write data = .ok (next, result))
    : next.readBuffer = socket.readBuffer := by
  simp only [write] at wrote
  split at wrote
  · cases wrote
    rfl
  · split at wrote
    · cases wrote
      rfl
    · split at wrote
      · cases wrote
      · cases wrote
        rfl

theorem networkWrite_readBuffer {socket next : BufferedSocket} {outcomes : Nat → SendOutcome}
    {result : Nat} {sent : Bytes}
    (flushed : socket.networkWrite outcomes = .ok (next, result, sent))
    : next.readBuffer = socket.readBuffer := by
  simp only [networkWrite] at flushed
  split at flushed
  · cases flushed
    rfl
  · obtain ⟨⟨_, exit, _⟩, _, ended⟩ := bind_eq_ok.mp flushed
    cases exit <;> cases ended <;> rfl

/-- A network read on an open socket appends what it gets. -/
theorem networkRead_segment {socket : BufferedSocket} {bytes : Bytes}
    (connected : socket.socket ≠ -1) (fits : bytes.length ≤ 65535)
    : (socket.networkRead (some bytes)).1
      = { socket with readBuffer := socket.readBuffer ++ bytes } := by
  cases bytes with
  | nil => simp [networkRead, connected]
  | cons byte rest =>
      simp only [networkRead, if_neg connected]
      rw [List.take_of_length_le fits]

/-- The bytes still reachable from `write_buffer_head` that were not sent. -/
def pending (socket : BufferedSocket) : Bytes :=
  socket.writeBuffers.values.flatMap (·.unsent)

end BufferedSocket

end UvgTorrent

import UvgTorrent.Foundations.AllocatedBlocks
import UvgTorrent.Foundations.MachineIntegers
import UvgTorrent.Sockets.BufferedSockets

/-! The read buffer of `buffered_socket.c` in memory: a pointer to a block and a size that are
updated one after the other. It is absent, fresh or grown; in each case it stands for the received
bytes that `BufferedSocket` keeps.
-/

namespace UvgTorrent

open Foundations

-----------------------------------------------------------------------------------------
-- The calls in memory
-----------------------------------------------------------------------------------------

/-- The fields of `struct BufferedSocket` that reading uses; `none` is `NULL`. -/
structure ReadBuffer where
  socket : Int
  readBuffer : Option Bytes
  readBufferSize : Nat

namespace ReadBuffer

/-- `memcpy` to an offset behind a pointer. -/
def copyTo (pointer : Option Bytes) (offset : Nat) (source : Bytes) : Except Fault Bytes :=
  match pointer with
  | none => .error .nullPointer
  | some block =>
      match copyInto block offset source with
      | none => .error .readBufferBounds
      | some written => .ok written

/-- `memcpy` from an offset behind a pointer; a copy of no bytes does not follow it. -/
def copyOf (pointer : Option Bytes) (offset count : Nat) : Except Fault Bytes :=
  if count = 0 then .ok []
  else
    match pointer with
    | none => .error .nullPointer
    | some block =>
        match copyOut block offset count with
        | none => .error .readBufferBounds
        | some bytes => .ok bytes

/-- A new socket once it is connected. -/
def connected (fd : Int) : ReadBuffer := { socket := fd, readBuffer := none, readBufferSize := 0 }

/-- `buffered_socket_network_read`, when `read(2)` returns -1 (`none`) or the given bytes. The first
bytes go into a fresh block, and later ones behind those in a grown block.
-/
def networkRead (buffer : ReadBuffer) (memory : Allocator) (received : Option Bytes)
    : Except Fault (ReadBuffer × Nat) :=
  if buffer.socket = -1 then .ok (buffer, sizeError)
  else
    match received with
    | none => .ok (buffer, sizeError)
    | some [] => .ok (buffer, 0)
    | some bytes =>
        let bytes := bytes.take 65535
        let readSize := bytes.length
        if buffer.readBufferSize = 0 then
          (copyTo (memory.malloc readSize) 0 bytes).bind fun block =>
            .ok ({ buffer with readBuffer := some block, readBufferSize := readSize }, 1)
        else
          let newBufferSize := u64 (buffer.readBufferSize + readSize)
          (copyTo (memory.realloc buffer.readBuffer newBufferSize) buffer.readBufferSize bytes).bind
            fun block =>
              .ok ({ buffer with readBuffer := some block, readBufferSize := newBufferSize }, 1)

/-- `buffered_socket_read`, with the bytes that it copies to `data`. What is left moves to a fresh
block; when nothing is left the pointer becomes `NULL`.
-/
def read (buffer : ReadBuffer) (memory : Allocator) (dataLength : Nat)
    : Except Fault (ReadBuffer × Nat × Bytes) :=
  if buffer.socket = -1 then .ok (buffer, sizeError, [])
  else if buffer.readBufferSize < dataLength then .ok (buffer, 0, [])
  else
    (copyOf buffer.readBuffer 0 dataLength).bind fun data =>
      let newBufferSize := buffer.readBufferSize - dataLength
      if newBufferSize = 0 then
        .ok ({ buffer with readBuffer := none, readBufferSize := 0 }, dataLength, data)
      else
        match memory.malloc newBufferSize with
        | none => .ok (buffer, sizeError, data)
        | some newReadBuffer =>
            (copyOf buffer.readBuffer dataLength newBufferSize).bind fun rest =>
              (copyTo (some newReadBuffer) 0 rest).bind fun block =>
                .ok
                  ({ buffer with readBuffer := some block, readBufferSize := newBufferSize },
                    dataLength, data)

/-- The size of the block that a network read asks for. -/
def networkReadRequest (buffer : ReadBuffer) (received : Option Bytes) : Option Nat :=
  match received with
  | none | some [] => none
  | some bytes =>
      if buffer.readBufferSize = 0 then some (bytes.take 65535).length
      else some (u64 (buffer.readBufferSize + (bytes.take 65535).length))

/-- The size of the block that a read asks for. -/
def readRequest (buffer : ReadBuffer) (dataLength : Nat) : Option Nat :=
  if dataLength < buffer.readBufferSize then some (buffer.readBufferSize - dataLength) else none

/-- The allocator has a block of the size that is asked for, if any is. -/
def Grants (memory : Allocator) (request : Option Nat) : Prop :=
  ∀ size ∈ request, (memory.block size).isSome

instance (memory : Allocator) (request : Option Nat) : Decidable (Grants memory request) :=
  inferInstanceAs (Decidable (∀ size ∈ request, _))

/-- The bytes that wait in the read buffer. -/
def buffered (buffer : ReadBuffer) : Bytes :=
  (buffer.readBuffer.getD []).take buffer.readBufferSize

-----------------------------------------------------------------------------------------
-- The bytes that a read buffer stands for
-----------------------------------------------------------------------------------------

/-- The read buffer in memory keeps the received bytes of the socket: there is a block exactly when
there are bytes, and it has the size of these.
-/
structure Represents (buffer : ReadBuffer) (socket : BufferedSocket) : Prop where
  descriptor : buffer.socket = socket.socket
  block : buffer.readBuffer = if socket.readBuffer = [] then none else some socket.readBuffer
  size : buffer.readBufferSize = socket.readBuffer.length
  bounded : socket.readBuffer.length < 2 ^ 63

variable {buffer : ReadBuffer} {socket : BufferedSocket} {memory : Allocator}

theorem Grants.block {size : Nat} (granted : Grants memory (some size))
    : ∃ block, memory.block size = some block :=
  Option.isSome_iff_exists.mp (granted size rfl)

theorem copyTo_malloc {source : Bytes} (granted : Grants memory (some source.length))
    : copyTo (memory.malloc source.length) 0 source = .ok source := by
  obtain ⟨block, given⟩ := granted.block
  have answered : memory.malloc source.length = some block := given
  rw [answered, copyTo, copyInto_malloc answered]

theorem copyTo_realloc {old source : Bytes}
    (granted : Grants memory (some (old.length + source.length)))
    : copyTo (memory.realloc (some old) (old.length + source.length)) old.length source
      = .ok (old ++ source) := by
  obtain ⟨fresh, given⟩ := granted.block
  cases grown : memory.realloc (some old) (old.length + source.length) with
  | none => simp [Allocator.realloc, given] at grown
  | some block => rw [copyTo, copyInto_realloc grown]

theorem copyOf_block {block : Bytes} {offset count : Nat} (inside : offset + count ≤ block.length)
    : copyOf (if block = [] then none else some block) offset count
      = .ok (slice block offset count) := by
  unfold copyOf
  by_cases nothing : count = 0
  · rw [if_pos nothing, nothing]
    simp [slice]
  · have present : block ≠ [] := by
      rintro rfl
      simp at inside
      omega
    rw [if_neg nothing, if_neg present]
    dsimp only
    rw [copyOut_of_le inside]

theorem Represents.buffered_eq (represents : buffer.Represents socket)
    : buffer.buffered = socket.readBuffer := by
  rw [buffered, represents.block, represents.size]
  split
  · rename_i empty
    rw [empty]
    rfl
  · exact List.take_length

theorem connected_represents (fd : Int)
    : (connected fd).Represents (BufferedSocket.new.setSocketFd fd) :=
  ⟨rfl, rfl, rfl, by simp [BufferedSocket.setSocketFd, BufferedSocket.new]⟩

/-- A network read that gets its memory appends what it receives. -/
theorem Represents.networkRead (represents : buffer.Represents socket) {received : Option Bytes}
    (granted : Grants memory (buffer.networkReadRequest received))
    : ∃ next,
        buffer.networkRead memory received = .ok (next, (socket.networkRead received).2)
        ∧ next.Represents (socket.networkRead received).1 := by
  obtain ⟨sameSocket, block, size, bounded⟩ := represents
  unfold ReadBuffer.networkRead BufferedSocket.networkRead
  rw [sameSocket]
  split
  · exact ⟨buffer, rfl, sameSocket, block, size, bounded⟩
  unfold networkReadRequest at granted
  rcases received with - | (- | ⟨byte, more⟩)
  · exact ⟨buffer, rfl, sameSocket, block, size, bounded⟩
  · exact ⟨buffer, rfl, sameSocket, block, size, bounded⟩
  dsimp only at granted ⊢
  have nonempty : (byte :: more).take 65535 ≠ [] := by simp
  have fits : ((byte :: more).take 65535).length ≤ 65535 := List.length_take_le ..
  generalize (byte :: more).take 65535 = bytes at granted nonempty fits ⊢
  by_cases absent : buffer.readBufferSize = 0
  · have empty : socket.readBuffer = [] := List.eq_nil_of_length_eq_zero (size.symm.trans absent)
    rw [if_pos absent] at granted
    rw [if_pos absent, copyTo_malloc granted, empty, List.nil_append]
    refine ⟨_, rfl, rfl, (if_neg nonempty).symm, rfl, ?_⟩
    dsimp only
    omega
  · have present : socket.readBuffer ≠ [] := by
      intro empty
      rw [empty] at size
      exact absent size
    rw [if_neg absent] at granted
    have wrapless : u64 (buffer.readBufferSize + bytes.length)
        = socket.readBuffer.length + bytes.length := by
      rw [size, u64_of_lt (by omega)]
    rw [wrapless] at granted
    obtain ⟨fresh, given⟩ := granted.block
    have small := memory.bounded _ _ given
    rw [if_neg absent, wrapless, block, if_neg present, size, copyTo_realloc granted]
    refine ⟨_, rfl, rfl, ?_, ?_, ?_⟩
    · simp [present]
    · simp
    · simpa using small

/-- A read of more than there is changes nothing. -/
theorem read_of_lt {dataLength : Nat} (connected : buffer.socket ≠ -1)
    (short : buffer.readBufferSize < dataLength)
    : buffer.read memory dataLength = .ok (buffer, 0, []) := by
  rw [read, if_neg connected, if_pos short]

/-- A read that gets its memory takes the bytes from the front, or none. -/
theorem Represents.read (represents : buffer.Represents socket) {dataLength : Nat}
    (granted : Grants memory (buffer.readRequest dataLength))
    : ∃ next,
        buffer.read memory dataLength = .ok (next, (socket.read dataLength).2)
        ∧ next.Represents (socket.read dataLength).1 := by
  obtain ⟨sameSocket, block, size, bounded⟩ := represents
  unfold ReadBuffer.read BufferedSocket.read
  rw [sameSocket, size]
  split
  · exact ⟨buffer, rfl, sameSocket, block, size, bounded⟩
  split
  · exact ⟨buffer, rfl, sameSocket, block, size, bounded⟩
  rename_i enough
  rw [Nat.not_lt] at enough
  rw [block, copyOf_block (by omega), bind_of_ok rfl, slice_zero]
  dsimp only
  by_cases drained : socket.readBuffer.length - dataLength = 0
  · have whole : socket.readBuffer.drop dataLength = [] :=
      List.drop_of_length_le (by omega)
    rw [if_pos drained]
    exact ⟨_, rfl, rfl, by simp [whole], by simp [whole], by simp [whole]⟩
  · have less : dataLength < buffer.readBufferSize := by omega
    rw [readRequest, if_pos less, size] at granted
    obtain ⟨fresh, given⟩ := granted.block
    have answered : memory.malloc (socket.readBuffer.length - dataLength) = some fresh := given
    have rest : slice socket.readBuffer dataLength (socket.readBuffer.length - dataLength)
        = socket.readBuffer.drop dataLength := by
      rw [slice, List.take_of_length_le (by rw [List.length_drop])]
    have remaining : (socket.readBuffer.drop dataLength).length
        = socket.readBuffer.length - dataLength :=
      List.length_drop ..
    rw [← remaining] at answered granted
    have copied := copyTo_malloc granted
    rw [answered] at copied
    rw [if_neg drained, ← remaining, answered]
    dsimp only
    rw [remaining, copyOf_block (by omega), bind_of_ok rfl, rest, copied, bind_of_ok rfl]
    have left : socket.readBuffer.drop dataLength ≠ [] := by
      intro none
      rw [none] at remaining
      exact drained remaining.symm
    refine ⟨_, rfl, rfl, (if_neg left).symm, remaining.symm, ?_⟩
    dsimp only
    omega

end ReadBuffer

end UvgTorrent

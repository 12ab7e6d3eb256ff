import UvgTorrent.TorrentData.RangeReading
import UvgTorrent.Torrents.RequestAgreement

/-! `peer_handle_msg_request`: the block of the answer is what `torrent_data_read_data` has copied,
whatever it returns.
-/

namespace UvgTorrent

open Foundations

namespace Peer

/-- `peer_handle_msg_request`, with the PIECE message when it is written. The buffer holds zeros
wherever the read did not come to, and the exit code of the read is ignored.
-/
def handleMsgRequest (p : Peer) (td : TorrentData) (disk : Disk) (request : Message)
    (io : Nat → Nat → ReadOutcome) (stack : Stack) (steps : Nat)
    : Except Fault (Peer × Option Bytes) :=
  if request.bytes.length < 17 then .error .messageBounds
  else
    let pieceInfo := (td.getPieceInfo (wrap32 request.index) stack.pieceInfo).2
    let chunkOffset := u64 (pieceInfo.pieceOffset + request.begin)
    let chunkSize := requestedLength request.bytes
    (td.readData io disk chunkOffset chunkSize stack steps).bind fun (_, read) =>
      let pieceMsg :=
        pieceMessage request.bytes (read ++ List.replicate (chunkSize - read.length) 0)
      (p.write pieceMsg).bind fun (p, result) =>
        .ok (p, if result = pieceMsg.length then some pieceMsg else none)

/-- The socket takes what is written to it. -/
def takesWrites (p : Peer) : Prop := ∃ socket, p.socket = some socket ∧ socket.socket ≠ -1

theorem write_result {p next : Peer} {data : Bytes} {result : Nat}
    (wrote : p.write data = .ok (next, result))
    : p.takesWrites ∧ result = data.length ∨ ¬ p.takesWrites ∧ result = sizeError := by
  unfold write at wrote
  cases socketEq : p.socket with
  | none =>
      rw [socketEq] at wrote
      cases wrote
      exact .inr ⟨fun ⟨_, present, _⟩ => (by rw [socketEq] at present; cases present), rfl⟩
  | some socket =>
      rw [socketEq] at wrote
      obtain ⟨⟨nextSocket, written⟩, socketWrote, wrote⟩ := bind_eq_ok.mp wrote
      cases wrote
      unfold BufferedSocket.write at socketWrote
      split at socketWrote
      · rename_i closed
        cases socketWrote
        refine .inr ⟨?_, rfl⟩
        rintro ⟨_, present, opened⟩
        rw [socketEq] at present
        cases present
        exact opened closed
      · rename_i opened
        refine .inl ⟨⟨socket, socketEq, opened⟩, ?_⟩
        dsimp only at socketWrote
        split at socketWrote
        · cases socketWrote
          rfl
        · split at socketWrote
          · cases socketWrote
          · cases socketWrote
            rfl

end Peer

namespace TorrentData

/-- Where in the data a request starts. -/
def requestStart (td : TorrentData) (request : Message) : Nat :=
  td.pieceSize * request.index + request.begin

/-- The offset that `peer_handle_msg_request` computes from a request. -/
def chunkOffsetOf (td : TorrentData) (request : Message) (stack : Stack) : Nat :=
  u64 ((td.getPieceInfo (wrap32 request.index) stack.pieceInfo).2.pieceOffset + request.begin)

/-- Every byte of a piece lies in a chunk of the torrent that is marked as received. -/
def Received (td : TorrentData) (piece : Nat) : Prop :=
  ∀ byte < td.dataSize,
    byte / td.pieceSize = piece
    → byte / td.chunkSize < td.chunkTotal ∧ td.completedBit (byte / td.chunkSize) = true

instance (td : TorrentData) (piece : Nat) : Decidable (td.Received piece) :=
  inferInstanceAs (Decidable (∀ byte < td.dataSize, _))

/-- The requested bytes lie inside the data and inside pieces that are complete. -/
structure Requestable (td : TorrentData) (request : Message) : Prop where
  inside : td.requestStart request + requestedLength request.bytes ≤ td.dataSize
  complete
    : ∀ i < requestedLength request.bytes,
        td.Received ((td.requestStart request + i) / td.pieceSize)

/-- A PIECE message that answers a request with the content at the requested range. -/
structure Answers (td : TorrentData) (content : Bytes) (request reply : Message)
    : Prop where
  requestable : td.Requestable request
  index : reply.index = request.index
  begin : reply.begin = request.begin
  block
    : reply.block = slice content (td.requestStart request) (requestedLength request.bytes)

/-- Only correct data is served: a message that is written answers the request, and none is
written when the data cannot be read.
-/
structure ServesOnlyContent (td : TorrentData) (disk : Disk) (content : Bytes)
    (io : Nat → Nat → ReadOutcome) (stack : Stack) (steps : Nat) (request : Message)
    (written : Option Bytes)
    : Prop where
  answers
    : ∀ bytes,
        written = some bytes
        → ∃ reply : Message, reply.bytes = bytes ∧ td.Answers content request reply
  readable
    : ∀ read,
        td.readData io disk (td.chunkOffsetOf request stack) (requestedLength request.bytes) stack
            steps
          = .ok (.failure, read)
        → written = none

/-- The request can be answered: its range fits a message and lies in complete pieces, and the
files serve the content for each of its bytes.
-/
structure Answerable (td : TorrentData) (disk : Disk) (content : Bytes)
    (io : Nat → Nat → ReadOutcome) (stack : Stack) (request : Message)
    : Prop where
  fits : requestedLength request.bytes ≤ 2 ^ 32 - 10
  requestable : td.Requestable request
  served
    : ∀ i < requestedLength request.bytes,
        td.Serves io disk (td.chunkOffsetOf request stack) stack
          content[td.requestStart request + i]? i

end TorrentData

theorem requestedLength_lt (request : Message) (long : 17 ≤ request.bytes.length)
    : requestedLength request.bytes < 2 ^ 32 :=
  ofBe32_lt (slice_length_of_le (by omega))

theorem pieceMessage_length {request : Bytes} (long : 13 ≤ request.length) (block : Bytes)
    : (pieceMessage request block).length = 13 + block.length := by
  have index : (slice request 5 4).length = 4 := slice_length_of_le (by omega)
  have begin : (slice request 9 4).length = 4 := slice_length_of_le (by omega)
  simp [pieceMessage, be32, index, begin]
  omega

/-- A message whose length field was cut is no message. -/
theorem fits_of_framed {request block : Bytes} (long : 13 ≤ request.length) {reply : Message}
    (bytes : reply.bytes = pieceMessage request block) (blockFits : block.length < 2 ^ 32)
    : block.length ≤ 2 ^ 32 - 10 := by
  have framed := reply.framed
  have header : (pieceMessage request block).take 4 = be32 (u32 (13 + block.length - 4)) := by
    rw [pieceMessage, List.append_assoc, List.append_assoc, List.append_assoc]
    exact List.take_left' (by simp [be32])
  rw [bytes, pieceMessage_length long, header,
    ofBe32_be32 (by unfold u32; omega)] at framed
  unfold u32 at framed
  omega

namespace Peer

variable {p next : Peer} {td : TorrentData} {disk : Disk} {content : Bytes}
  {io : Nat → Nat → ReadOutcome} {stack : Stack} {steps : Nat} {request : Message}
  {written : Option Bytes}

/-- What a call that returns has read and written. -/
theorem handleMsgRequest_cases
    (run : p.handleMsgRequest td disk request io stack steps = .ok (next, written))
    : 17 ≤ request.bytes.length
      ∧ ∃ exit read,
          td.readData io disk (td.chunkOffsetOf request stack) (requestedLength request.bytes)
              stack steps
            = .ok (exit, read)
          ∧ (¬ p.takesWrites ∧ written = none
            ∨ p.takesWrites
              ∧ written
                = some
                    (pieceMessage request.bytes
                      (read
                        ++ List.replicate (requestedLength request.bytes - read.length) 0))) := by
  unfold handleMsgRequest at run
  split at run
  · cases run
  · rename_i long
    have long := Nat.le_of_not_lt long
    obtain ⟨⟨exit, read⟩, readRun, run⟩ := bind_eq_ok.mp run
    obtain ⟨⟨nextPeer, result⟩, wrote, run⟩ := bind_eq_ok.mp run
    have copied := (TorrentData.readLoop_length (Nat.zero_le _) (requestedLength_lt request long)
      readRun).1
    have fits := requestedLength_lt request long
    refine ⟨long, exit, read, readRun, ?_⟩
    rcases write_result wrote with ⟨opened, rfl⟩ | ⟨closed, rfl⟩
    · right
      cases run
      exact ⟨opened, if_pos rfl⟩
    · left
      cases run
      refine ⟨closed, if_neg ?_⟩
      rw [pieceMessage_length (by omega), List.length_append, List.length_replicate, sizeError]
      omega

/-- A call that returns serves only the content of complete pieces if and only if the socket
refuses the message, or the request can be answered.
-/
theorem handleMsgRequest_servesOnlyContent_iff (sized : content.length = td.dataSize)
    (run : p.handleMsgRequest td disk request io stack steps = .ok (next, written))
    : td.ServesOnlyContent disk content io stack steps request written
      ↔ ¬ p.takesWrites ∨ td.Answerable disk content io stack request := by
  obtain ⟨long, exit, read, readRun, wrote⟩ := handleMsgRequest_cases run
  have fits := requestedLength_lt request long
  have copied := TorrentData.readLoop_length (Nat.zero_le _) fits readRun
  rcases wrote with ⟨closed, rfl⟩ | ⟨opened, rfl⟩
  · exact iff_of_true ⟨(fun _ impossible => by cases impossible), fun _ _ => rfl⟩ (.inl closed)
  · have blockLength : (read ++ List.replicate (requestedLength request.bytes - read.length)
        (0 : UInt8)).length = requestedLength request.bytes := by
      rw [List.length_append, List.length_replicate]
      omega
    have present (requestable : td.Requestable request)
        : ∀ i < requestedLength request.bytes, content[td.requestStart request + i]? ≠ none := by
      intro i inRange missing
      have inside := requestable.inside
      rw [List.getElem?_eq_none_iff] at missing
      omega
    constructor
    · intro correct
      obtain ⟨reply, bytes, answers⟩ := correct.answers _ rfl
      have replyFits := fits_of_framed (by omega) bytes (by rw [blockLength]; exact fits)
      obtain ⟨framed, framedBytes, _, _, block⟩ :=
        @pieceMessage_framed request.bytes _ (by omega) replyFits
      have succeeded : exit = .success := by
        cases exit with
        | success => rfl
        | failure => cases correct.readable read readRun
      have whole := copied.2 succeeded
      refine .inr ⟨by rw [← blockLength]; exact replyFits, answers.requestable, ?_⟩
      rw [← TorrentData.readData_copies_iff (present answers.requestable) fits readRun]
      refine ⟨succeeded, fun i inRange => ?_⟩
      have readBlock : read = slice content (td.requestStart request)
          (requestedLength request.bytes) := by
        rw [← answers.block, Message.block, bytes, ← framedBytes, ← Message.block, block, whole,
          Nat.sub_self, List.replicate_zero, List.append_nil]
      rw [readBlock, slice_getElem?, if_pos inRange]
    · rintro (closed | answerable)
      · exact absurd opened closed
      · have requestable := answerable.requestable
        obtain ⟨succeeded, same⟩ :=
          (TorrentData.readData_copies_iff (present requestable) fits readRun).mpr
            answerable.served
        have whole := copied.2 succeeded
        have readBlock : read = slice content (td.requestStart request)
            (requestedLength request.bytes) := by
          apply List.ext_getElem?
          intro i
          rw [slice_getElem?]
          split
          · rename_i inRange
            exact same i inRange
          · exact List.getElem?_eq_none (by omega)
        constructor
        · intro bytes bytesEq
          obtain ⟨reply, replyBytes, index, begin, block⟩ := @pieceMessage_framed request.bytes
            (read ++ List.replicate (requestedLength request.bytes - read.length) 0)
            (by omega) (by rw [blockLength]; exact answerable.fits)
          cases bytesEq
          refine ⟨reply, replyBytes, requestable, index, begin, ?_⟩
          rw [block, whole, Nat.sub_self, List.replicate_zero, List.append_nil, readBlock]
        · intro failedRead failed
          rw [readRun] at failed
          cases failed
          cases succeeded

/-- A REQUEST message for the first two bytes of the data. -/
def twoByteRequest : Message :=
  ⟨[0, 0, 0, 13, 6, 0, 0, 0, 0, 0, 0, 0, 0, 0, 0, 0, 2], by decide⟩

def openedPeer : Peer :=
  { (Peer.new 0) with socket := some { BufferedSocket.new with socket := 3 } }

/-- The 8-byte torrent with all its chunks. -/
def completeTorrent : TorrentData :=
  {
    byteTorrent with
    completed := byteTorrent.completed.map fun completed =>
      (List.range 8).foldl (fun bits chunk => bits.setBit chunk 1) completed
  }

def countingContent : Bytes := [1, 2, 3, 4, 5, 6, 7, 8]

def countingDisk : Disk := fun path => if path = [46, 47, 97] then some countingContent else none

/-- Witness: the first two bytes of a complete torrent whose file is on the disk. -/
theorem handleMsgRequest_servesOnlyContent_complete
    : ∃ next written,
        openedPeer.handleMsgRequest completeTorrent countingDisk twoByteRequest
            (fun _ _ => .good) zeroStack 2
          = .ok (next, some written)
        ∧ completeTorrent.ServesOnlyContent countingDisk countingContent (fun _ _ => .good)
            zeroStack 2 twoByteRequest (some written) := by
  have returned : returnsWith (openedPeer.handleMsgRequest completeTorrent countingDisk
      twoByteRequest (fun _ _ => .good) zeroStack 2) (fun result => result.2.isSome) = true := by
    decide +kernel
  obtain ⟨⟨next, written⟩, run, present⟩ := exists_ok_of_returnsWith returned
  obtain ⟨bytes, rfl⟩ := Option.isSome_iff_exists.mp present
  have size : completeTorrent.dataSize = 8 := by decide +kernel
  refine ⟨next, bytes, run, (handleMsgRequest_servesOnlyContent_iff (by rw [size]; rfl) run).mpr
    (.inr ⟨by decide, ⟨by decide +kernel, ?_⟩, ?_⟩)⟩
  · intro i inRange
    have inRange : i < 2 := inRange
    interval_cases i <;> decide +kernel
  · intro i inRange
    have inRange : i < 2 := inRange
    interval_cases i <;> exact ⟨countingContent, rfl, rfl⟩

/-- For a piece that is missing and whose file does not exist, zeros are sent. -/
theorem request_for_missing_piece_serves_zeros
    : ¬ ∀ (p next : Peer) (td : TorrentData) (disk : Disk) (content : Bytes)
        (io : Nat → Nat → ReadOutcome) (stack : Stack) (steps : Nat) (request : Message)
        (written : Option Bytes),
        content.length = td.dataSize
        → p.handleMsgRequest td disk request io stack steps = .ok (next, written)
        → td.ServesOnlyContent disk content io stack steps request written := by
  intro claim
  have returned : returnsWith (openedPeer.handleMsgRequest byteTorrent (fun _ => none)
      twoByteRequest (fun _ _ => .good) zeroStack 2)
        (fun result => decide (result.2.map (fun bytes => bytes.drop 13) = some [0, 0]))
      = true := by
    decide +kernel
  obtain ⟨⟨next, written⟩, run, zeros⟩ := exists_ok_of_returnsWith returned
  have correct := claim _ _ _ _ countingContent _ _ _ _ _ (by decide +kernel) run
  cases written with
  | none => cases zeros
  | some bytes =>
      obtain ⟨reply, rfl, answers⟩ := correct.answers bytes rfl
      have missing
          : ¬ byteTorrent.Received
              ((byteTorrent.requestStart twoByteRequest + 0) / byteTorrent.pieceSize) := by
        decide +kernel
      exact missing (answers.requestable.complete 0 (by decide))

end Peer

end UvgTorrent

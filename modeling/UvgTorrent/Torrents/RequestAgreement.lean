import UvgTorrent.Torrents.DataMessages
import UvgTorrent.TorrentData.Setup

/-! The request for a chunk and the block that answers it: `peer_send_msg_request`, the reply of
`peer_handle_msg_request` and `torrent_process_data_chunk` agree on the chunk.
-/

namespace UvgTorrent

open Foundations

namespace TorrentData

variable {td : TorrentData} {chunk : Nat}

/-- The id of the chunk that starts at the position of an index and a begin. -/
theorem Initialised.chunkIdOf_eq (ready : td.Initialised) (inRange : chunk < td.chunkTotal)
    {index begin : Nat} (position : td.pieceSize * index + begin = td.chunkSize * chunk)
    (indexFits : index < 2 ^ 31) (stack : Stack)
    : td.chunkIdOf index begin stack = .ok chunk := by
  have start := ready.chunkStart_lt chunk inRange
  have dataFits := ready.dataSize_lt
  have chunks := ready.chunkTotal_lt
  have pieceInRange : index < td.pieceTotal := by
    have inPiece : td.pieceSize * index / td.pieceSize < td.pieceTotal :=
      div_pieceSize_lt ready.pieceSize_pos (by omega)
    rwa [Nat.mul_div_cancel_left _ ready.pieceSize_pos] at inPiece
  have info := ready.getPieceInfo_eq pieceInRange indexFits stack.pieceInfo
  have quotient : td.chunkSize * chunk / td.chunkSize = chunk :=
    Nat.mul_div_cancel_left _ ready.chunkSize_pos
  rw [chunkIdOf, wrap32_natCast indexFits, info]
  simp only [position, Nat.pos_iff_ne_zero.mp ready.chunkSize_pos, if_false]
  rw [u64_of_lt (by omega), quotient, u32, Nat.mod_eq_of_lt (by omega), wrap32_natCast (by omega)]

/-- A chunk starts at its offset behind the start of its piece. -/
theorem offsetInPiece_add (td : TorrentData) (chunk : Nat)
    : td.pieceSize * td.pieceOf chunk + td.offsetInPiece chunk = td.chunkSize * chunk := by
  have start := td.pieceStart_le chunk
  rw [offsetInPiece]
  omega

/-- The fields of the request for a chunk. -/
theorem Initialised.requestMessage_eq (ready : td.Initialised) (inRange : chunk < td.chunkTotal)
    (offsetFits : td.offsetInPiece chunk < 2 ^ 32) (stack : Stack)
    : td.requestMessage chunk stack
      = .ok
          (be32 13 ++ [6] ++ be32 (td.pieceOf chunk) ++ be32 (td.offsetInPiece chunk)
            ++ be32 (u32 (td.chunkLength chunk))) := by
  have piece := ready.pieceOf_fits chunk inRange
  have start := ready.chunkStart_lt chunk inRange
  have info := ready.getPieceInfo_eq (ready.pieceOf_lt inRange) piece stack.pieceInfo
  have offset : u64Sub (td.chunkSize * chunk) (td.pieceSize * td.pieceOf chunk)
      = td.offsetInPiece chunk :=
    u64Sub_of_le (td.pieceStart_le chunk) (start.trans ready.dataSize_lt)
  rw [requestMessage, bind_of_ok (ready.getChunkInfo_eq inRange stack.chunkInfo)]
  simp only [info, offset, u64OfInt_natCast (n := td.pieceOf chunk) (by omega)]
  rw [u32, Nat.mod_eq_of_lt (by omega), u32, Nat.mod_eq_of_lt offsetFits]

end TorrentData

/-- The fields of a request at their places. -/
theorem request_fields (index begin length : Nat)
    : let request := be32 13 ++ [6] ++ be32 index ++ be32 begin ++ be32 length
      slice request 5 4 = be32 index
      ∧ slice request 9 4 = be32 begin
      ∧ slice request 13 4 = be32 length := by
  simp [slice, be32]

/-- The field that stands between two parts of a message. -/
theorem slice_field {front field : Bytes} {start length : Nat} (frontLength : front.length = start)
    (fieldLength : field.length = length) (rest : Bytes)
    : slice (front ++ (field ++ rest)) start length = field := by
  rw [slice, List.drop_left' frontLength, List.take_left' fieldLength]

/-- A reply whose length fits its field is framed, echoes the fields and carries the block. -/
theorem pieceMessage_framed {request block : Bytes} (long : 13 ≤ request.length)
    (fits : block.length ≤ 2 ^ 32 - 10)
    : ∃ reply : Message,
        reply.bytes = pieceMessage request block
        ∧ reply.index = ofBe32 (slice request 5 4)
        ∧ reply.begin = ofBe32 (slice request 9 4)
        ∧ reply.block = block := by
  have index : (slice request 5 4).length = 4 := slice_length_of_le (by omega)
  have begin : (slice request 9 4).length = 4 := slice_length_of_le (by omega)
  have size : 13 + block.length - 4 < 2 ^ 32 := by omega
  let front := be32 (13 + block.length - 4) ++ [7]
  have parts : pieceMessage request block
      = front ++ (slice request 5 4 ++ (slice request 9 4 ++ block)) := by
    simp only [pieceMessage, u32, Nat.mod_eq_of_lt size, front, List.append_assoc]
  have frontLength : front.length = 5 := rfl
  have framed : (pieceMessage request block).length
      = 4 + ofBe32 ((pieceMessage request block).take 4) := by
    have header : (pieceMessage request block).take 4 = be32 (13 + block.length - 4) := by
      rw [parts]
      simp only [front, List.append_assoc]
      exact List.take_left' (be32_length _)
    rw [header, ofBe32_be32 size, parts]
    simp only [List.length_append, frontLength, index, begin]
    omega
  refine ⟨⟨pieceMessage request block, framed⟩, rfl, ?_, ?_, ?_⟩
  · simp only [Message.index, parts]
    rw [slice_field frontLength index]
  · simp only [Message.begin, parts]
    rw [← List.append_assoc, slice_field (by simp [frontLength, index]) begin]
  · simp only [Message.block, parts]
    rw [← List.append_assoc, ← List.append_assoc,
      List.drop_left' (by simp [frontLength, index, begin])]

/-- An 8-byte torrent in chunks of one byte. -/
def byteTorrent : TorrentData := .ofSingleFile none 8 8 1

theorem byteTorrent_initialised : byteTorrent.Initialised :=
  (TorrentData.SingleFileFits.justInitialised (by decide +kernel)).fresh.initialised
    (by decide +kernel) (by decide +kernel)

end UvgTorrent

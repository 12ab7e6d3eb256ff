import UvgTorrent.Downloads.Integrity

/-! Piece buffers that are filled chunk by chunk from one content.
A buffer agrees with the content on the marked chunks of its piece; copying a chunk marks one
more, and a buffer with all chunks marked starts with the whole piece.
-/

namespace UvgTorrent

open Foundations

namespace TorrentData

variable {sha1 : Bytes → Digest} {td next : TorrentData} {disk : Disk} {chunk piece : Nat}
  {data content buffer : Bytes} {completed : Bitfield} {map : HashMap Bytes}
  {marked : Nat → Prop}

/-- The content at the range of a chunk. -/
def chunkData (td : TorrentData) (content : Bytes) (chunk : Nat) : Bytes :=
  slice content (td.chunkSize * chunk) (td.chunkLength chunk)

/-- The content at the range of a piece. -/
def pieceData (td : TorrentData) (content : Bytes) (piece : Nat) : Bytes :=
  slice content (td.pieceSize * piece) (td.pieceLength piece)

/-- The buffer has the content's byte at each position of the piece whose chunk is marked. -/
def AgreesOn (td : TorrentData) (content : Bytes) (piece : Nat) (marked : Nat → Prop)
    (buffer : Bytes)
    : Prop :=
  ∀ index < td.pieceLength piece,
    marked ((td.pieceSize * piece + index) / td.chunkSize)
    → buffer[index]? = content[td.pieceSize * piece + index]?

theorem chunkData_length (sized : content.length = td.dataSize) (chunk : Nat)
    : (td.chunkData content chunk).length = td.chunkLength chunk := by
  rw [chunkData, slice_length, sized, chunkLength]
  omega

/-- Every position of a piece in range belongs to a chunk of that piece. -/
theorem Aligned.chunk_of_position (aligned : td.Aligned) (ready : td.Initialised)
    (exact : td.ExactCounts) (inRange : piece < td.pieceTotal) {index : Nat}
    (inside : index < td.pieceLength piece)
    : (td.pieceSize * piece + index) / td.chunkSize < td.chunkTotal
      ∧ td.pieceOf ((td.pieceSize * piece + index) / td.chunkSize) = piece := by
  obtain ⟨count, _, size, _, _⟩ := aligned.exists_bytes ready
  have inData := ready.piece_end_le inRange
  have small : td.pieceLength piece ≤ td.pieceSize := Nat.min_le_left ..
  constructor
  · rw [exact.chunks]
    apply (Nat.le_div_iff_mul_le ready.chunkSize_pos).mpr
    have floor := Nat.div_mul_le_self (td.pieceSize * piece + index) td.chunkSize
    rw [Nat.succ_eq_add_one, Nat.add_mul, Nat.one_mul]
    omega
  · rw [pieceOf_eq_div ready.chunkSize_pos size, Nat.div_div_eq_div_mul, ← size,
      Nat.mul_add_div ready.pieceSize_pos, Nat.div_eq_of_lt (by omega), Nat.add_zero]

/-- Copying a chunk's own data marks the chunk. Witness: the copied range is the positions
whose chunk it is.
-/
theorem AgreesOn.assembled (agrees : td.AgreesOn content piece marked (td.pieceBuffer piece))
    (ready : td.Initialised) (stores : td.Stores completed map chunk data)
    (sized : content.length = td.dataSize) (offsetFits : td.offsetInPiece chunk < 2 ^ 31)
    (own : td.pieceOf chunk = piece) (same : data = td.chunkData content chunk)
    (inRange : piece < td.pieceTotal)
    : td.AgreesOn content piece (fun other => other = chunk ∨ marked other)
        (td.assembledPiece chunk data) := by
  have offset : (wrap32 (td.offsetInPiece chunk)).toNat = td.offsetInPiece chunk := by
    rw [wrap32_natCast offsetFits, Int.toNat_natCast]
  have bufferLength := pieceBuffer_length ready (td.pieceOf chunk)
  have inData := ready.piece_end_le inRange
  have startLe := td.pieceStart_le chunk
  have length : data.length = td.chunkLength chunk := by
    rw [same, chunkData_length sized]
  have copyFits := stores.copyFits
  rw [offset] at copyFits
  intro index inside mark
  rw [assembledPiece, offset, overwrite_getElem? (by omega)]
  rw [own] at startLe
  have relative : td.offsetInPiece chunk = td.chunkSize * chunk - td.pieceSize * piece := by
    rw [offsetInPiece, own]
  have quotient := Nat.div_mul_le_self (td.pieceSize * piece + index) td.chunkSize
  have remainder := Nat.lt_div_mul_add (a := td.pieceSize * piece + index) ready.chunkSize_pos
  by_cases inChunk : td.offsetInPiece chunk ≤ index
      ∧ index < td.offsetInPiece chunk + data.length
  · have position : td.chunkSize * chunk + (index - td.offsetInPiece chunk)
        = td.pieceSize * piece + index := by
      omega
    rw [if_pos inChunk, same, chunkData, slice_getElem?, if_pos (by omega), position]
  · rw [if_neg inChunk, own]
    rcases mark with here | before
    · rw [here, Nat.mul_comm chunk] at quotient remainder
      have within : td.pieceSize * piece + index < td.dataSize := by omega
      unfold chunkLength at length
      omega
    · exact agrees index inside before

/-- A buffer that agrees on all chunks of its piece starts with the piece. -/
theorem AgreesOn.take_eq (agrees : td.AgreesOn content piece marked buffer)
    (aligned : td.Aligned) (ready : td.Initialised) (exact : td.ExactCounts)
    (inRange : piece < td.pieceTotal)
    (all : ∀ chunk < td.chunkTotal, td.pieceOf chunk = piece → marked chunk)
    : buffer.take (td.pieceLength piece) = td.pieceData content piece := by
  apply List.ext_getElem?
  intro index
  rw [pieceData, slice_getElem?, List.getElem?_take]
  by_cases inside : index < td.pieceLength piece
  · obtain ⟨below, own⟩ := aligned.chunk_of_position ready exact inRange inside
    rw [if_pos inside, if_pos inside, agrees index inside (all _ below own)]
  · rw [if_neg inside, if_neg inside]

/-- An aligned chunk lies inside its piece. -/
theorem Aligned.copyFits (aligned : td.Aligned) (ready : td.Initialised) (chunk : Nat)
    : td.offsetInPiece chunk + td.chunkLength chunk ≤ td.pieceSize := by
  obtain ⟨count, positive, size, _, _⟩ := aligned.exists_bytes ready
  have quotient := Nat.mod_add_div chunk (8 * count)
  have small := Nat.mod_lt chunk (show 0 < 8 * count by omega)
  have short : td.chunkLength chunk ≤ td.chunkSize := Nat.min_le_left ..
  have offset : td.offsetInPiece chunk = td.chunkSize * (chunk % (8 * count)) := by
    rw [offsetInPiece, pieceOf_eq_div ready.chunkSize_pos size, size, Nat.mul_assoc,
      ← Nat.mul_sub, ← Nat.mod_def]
  have bound := Nat.mul_le_mul_left td.chunkSize (Nat.succ_le_of_lt small)
  rw [Nat.mul_succ, ← size] at bound
  omega

/-- With pieces of less than `2 ^ 31` bytes, every accepted chunk can be taken in. -/
theorem Aligned.stores (aligned : td.Aligned) (ready : td.Initialised)
    (pieceSmall : td.pieceSize < 2 ^ 31) (inRange : chunk < td.chunkTotal)
    (accepted : td.Accepts chunk data) (field : td.completed = some completed)
    (pieces : td.data = some map)
    : td.Stores completed map chunk data := by
  have offsetFits : td.offsetInPiece chunk < 2 ^ 31 :=
    (offsetInPiece_lt ready.pieceSize_pos chunk).trans pieceSmall
  have inside := aligned.copyFits ready chunk
  have keyFits : td.pieceOf chunk < 10 ^ 9 := by
    obtain ⟨count, positive, size, _, _⟩ := aligned.exists_bytes ready
    have chunks := ready.chunkTotal_lt
    have bound : chunk / (8 * count) ≤ chunk / 8 := Nat.div_le_div_left (by omega) (by norm_num)
    rw [pieceOf_eq_div ready.chunkSize_pos size]
    omega
  refine
    { accepted, field, pieces, keyFits, bufferFits := by omega, offsetFits := ?_, copyFits := ?_ }
  · rw [wrap32_natCast offsetFits]
    exact Int.natCast_nonneg _
  · rw [wrap32_natCast offsetFits, Int.toNat_natCast, accepted.2]
    exact inside

end TorrentData

end UvgTorrent

import UvgTorrent.Claims.ClaimBatches
import UvgTorrent.Peers.Messages
import UvgTorrent.TorrentData.PieceCompleteness

/-! The chunks that `peer_send_msg_request` is interested in, against the pieces that the peer has.
The loop over the pieces writes whole bytes, as many for each piece as its chunks fill.
-/

namespace UvgTorrent

open Foundations

-----------------------------------------------------------------------------------------
-- Whole bytes
-----------------------------------------------------------------------------------------

namespace Bitfield

variable {field : Bitfield}

@[simp] theorem setByte_bitCount (field : Bitfield) (index : Int) (byte : UInt8)
    : (field.setByte index byte).bitCount = field.bitCount := by
  unfold setByte
  split <;> rfl

@[simp] theorem setByte_bytesCount (field : Bitfield) (index : Int) (byte : UInt8)
    : (field.setByte index byte).bytesCount = field.bytesCount := by
  rw [bytesCount_eq, bytesCount_eq, setByte_bitCount]

/-- A byte that is written has its eight bits from the value. -/
theorem bit_setByte (small : field.bitCount < 2 ^ 31) {index : Int} (lower : -2 ^ 31 ≤ index)
    (upper : index < 2 ^ 31) (byte : UInt8) {chunk : Nat} (inside : chunk / 8 < field.bytesCount)
    : (field.setByte index byte).bit chunk
      = if index = (chunk / 8 : Nat) then byteBit byte (chunk % 8) else field.bit chunk := by
  have bytes := field.bytesCount_eq
  unfold setByte
  by_cases within : u64OfInt index < field.bytesCount
  · obtain ⟨position, rfl⟩ : ∃ position : Nat, index = position := by
      refine Int.eq_ofNat_of_zero_le ?_
      by_contra negative
      unfold u64OfInt at within
      omega
    rw [if_pos within]
    rw [u64OfInt_natCast (by omega)] at within
    change byteBit ((field.bytes.set position byte).getD (chunk / 8) 0) (chunk % 8) = _
    by_cases here : position = chunk / 8
    · subst here
      simp only [if_true, List.getD_eq_getElem?_getD, List.getElem?_set_self inside,
        Option.getD_some]
    · rw [if_neg (by omega), bit, List.getD_eq_getElem?_getD, List.getD_eq_getElem?_getD,
        List.getElem?_set_ne here]
  · rw [if_neg within, if_neg]
    rintro rfl
    rw [u64OfInt_natCast (by omega)] at within
    exact within inside

/-- Of a run of writes of one byte, those to the byte of a bit decide it. -/
theorem bit_setBytes (small : field.bitCount < 2 ^ 31) {index : Nat → Int}
    (fits : ∀ x, -2 ^ 31 ≤ index x ∧ index x < 2 ^ 31) (byte : UInt8) (count : Nat)
    : ((List.range count).foldl (fun field x => field.setByte (index x) byte) field).bitCount
        = field.bitCount
      ∧ ∀ chunk,
          chunk / 8 < field.bytesCount
          → ((∃ x < count, index x = (chunk / 8 : Nat))
              → ((List.range count).foldl (fun field x => field.setByte (index x) byte) field).bit
                  chunk
                = byteBit byte (chunk % 8))
            ∧ ((¬ ∃ x < count, index x = (chunk / 8 : Nat))
              → ((List.range count).foldl (fun field x => field.setByte (index x) byte) field).bit
                  chunk
                = field.bit chunk) := by
  induction count with
  | zero => exact ⟨rfl, fun chunk inside => ⟨by simp, fun _ => rfl⟩⟩
  | succ count ih =>
      obtain ⟨counted, bits⟩ := ih
      rw [List.range_succ, List.foldl_append, List.foldl_cons, List.foldl_nil]
      refine ⟨by rw [setByte_bitCount, counted], fun chunk inside => ?_⟩
      have sized : ((List.range count).foldl (fun field x => field.setByte (index x) byte)
          field).bytesCount = field.bytesCount := by
        rw [bytesCount_eq, bytesCount_eq, counted]
      rw [bit_setByte (by omega) (fits count).1 (fits count).2 byte (by omega)]
      obtain ⟨written, kept⟩ := bits chunk inside
      split
      · rename_i here
        exact ⟨fun _ => rfl, fun none => absurd ⟨count, by omega, here⟩ none⟩
      · rename_i there
        constructor
        · rintro ⟨x, below, here⟩
          refine written ⟨x, ?_, here⟩
          rcases Nat.lt_succ_iff_lt_or_eq.mp below with less | rfl
          · exact less
          · exact absurd here there
        · intro none
          exact kept fun ⟨x, below, here⟩ => none ⟨x, by omega, here⟩

end Bitfield

namespace Peer

variable {p : Peer} {td : TorrentData} {field after offered : Bitfield}

theorem byteBit_wanted (wanted : Bool) (chunk : Nat)
    : byteBit (if wanted then 0xFF else 0x00) (chunk % 8) = wanted := by
  have inByte := Nat.mod_lt chunk (show 8 > 0 by norm_num)
  cases wanted with
  | true => exact (byte_full_iff 0xFF).mp rfl _ inByte
  | false => simp [byteBit]

theorem fillPiece_eq (field : Bitfield) (uintsPerPiece : Int) (piece : Nat) (wanted : Bool)
    : fillPiece field uintsPerPiece piece wanted
      = (List.range uintsPerPiece.toNat).foldl
          (fun field (x : Nat) =>
            field.setByte (wrap32 (wrap32 (piece * uintsPerPiece) + x))
              (if wanted then 0xFF else 0x00))
          field := by
  unfold fillPiece
  rw [show (do let x ← List.range uintsPerPiece.toNat; pure (x : Int))
      = (List.range uintsPerPiece.toNat).map Nat.cast from List.flatMap_pure_eq_map _ _,
    List.foldl_map]

/-- The inner loop writes the bytes of its piece, and no others. -/
theorem bit_fillPiece (small : field.bitCount < 2 ^ 31) (piece : Nat) (wanted : Bool)
    : (fillPiece field td.uintsPerPiece piece wanted).bitCount = field.bitCount
      ∧ ∀ chunk,
          chunk / 8 < field.bytesCount
          → (td.TestReads piece chunk
              → (fillPiece field td.uintsPerPiece piece wanted).bit chunk = wanted)
            ∧ (¬ td.TestReads piece chunk
              → (fillPiece field td.uintsPerPiece piece wanted).bit chunk = field.bit chunk) := by
  obtain ⟨counted, bits⟩ := @Bitfield.bit_setBytes field small
    (fun x => wrap32 (wrap32 (piece * td.uintsPerPiece) + (x : Nat)))
    (fun x => by unfold wrap32; omega) (if wanted then 0xFF else 0x00) td.uintsPerPiece.toNat
  have reads (chunk : Nat)
      : td.TestReads piece chunk
        ↔ ∃ x < td.uintsPerPiece.toNat, wrap32 (wrap32 (piece * td.uintsPerPiece) + (x : Nat))
            = (chunk / 8 : Nat) := by
    constructor
    · rintro ⟨x, below, here⟩
      exact ⟨x, by omega, here⟩
    · rintro ⟨x, below, here⟩
      exact ⟨x, by omega, here⟩
  rw [fillPiece_eq]
  refine ⟨counted, fun chunk inside => ?_⟩
  obtain ⟨written, kept⟩ := bits chunk inside
  rw [byteBit_wanted] at written
  rw [reads]
  exact ⟨written, kept⟩

/-- The outer loop leaves each bit as the last piece wrote it that wrote its byte. -/
theorem interestedChunks_bit {remaining first : Nat} (small : field.bitCount < 2 ^ 31)
    (ran : interestedChunks td (some offered) remaining first field = .ok after)
    : after.bitCount = field.bitCount
      ∧ ∀ chunk,
          chunk / 8 < field.bytesCount
          → ((∀ piece, first ≤ piece → piece < first + remaining → ¬ td.TestReads piece chunk)
              → after.bit chunk = field.bit chunk)
            ∧ ∀ piece,
                first ≤ piece
                → piece < first + remaining
                → td.TestReads piece chunk
                → (∀ later, piece < later → later < first + remaining → ¬ td.TestReads later chunk)
                → after.bit chunk = offered.bit piece := by
  induction remaining generalizing first field with
  | zero =>
      cases ran
      exact ⟨rfl, fun chunk _ => ⟨fun _ => rfl, fun piece above below => by omega⟩⟩
  | succ remaining ih =>
      obtain ⟨wanted, read, ran⟩ := bind_eq_ok.mp ran
      split at ran
      · cases ran
      · obtain ⟨filledCount, filled⟩ := @bit_fillPiece td field small first wanted
        have wantedBit : offered.bit first = wanted := by
          unfold Bitfield.getBit at read
          split at read
          · simpa using read
          · cases read
        have smaller : (fillPiece field td.uintsPerPiece first wanted).bitCount < 2 ^ 31 := by
          omega
        have sized : (fillPiece field td.uintsPerPiece first wanted).bytesCount
            = field.bytesCount := by
          rw [Bitfield.bytesCount_eq, Bitfield.bytesCount_eq, filledCount]
        obtain ⟨counted, bits⟩ := ih smaller ran
        refine ⟨counted.trans filledCount, fun chunk inside => ?_⟩
        obtain ⟨written, kept⟩ := filled chunk inside
        obtain ⟨untouched, last⟩ := bits chunk (by omega)
        constructor
        · intro none
          rw [untouched fun piece above below => none piece (by omega) (by omega)]
          exact kept (none first (Nat.le_refl _) (by omega))
        · intro piece above below reads latest
          by_cases here : piece = first
          · subst here
            rw [untouched fun later above below => latest later (by omega) (by omega),
              written reads, wantedBit]
          · exact last piece (by omega) (by omega) reads
              fun later above below => latest later above (by omega)

/-- The loop returns when the bitfield of the peer covers the pieces. -/
theorem interestedChunks_returns {remaining first : Nat} (chunkSize : td.chunkSize ≠ 0)
    (covers : first + remaining ≤ offered.bitCount)
    : ∃ after, interestedChunks td (some offered) remaining first field = .ok after := by
  induction remaining generalizing first field with
  | zero => exact ⟨field, rfl⟩
  | succ remaining ih =>
      simp only [interestedChunks, chunkSize, if_false]
      rw [bind_of_ok (Bitfield.getBit_of_lt (by omega))]
      exact ih (by omega)

end Peer

-----------------------------------------------------------------------------------------
-- The chunks of interest
-----------------------------------------------------------------------------------------

namespace TorrentData

variable {start td : TorrentData} {offered interested : Bitfield}

/-- What no call changes behind the initialisation: the sizes, the counts, and the number of chunks
that can be claimed.
-/
structure Later (start td : TorrentData) : Prop where
  pieceSize : td.pieceSize = start.pieceSize
  chunkSize : td.chunkSize = start.chunkSize
  dataSize : td.dataSize = start.dataSize
  pieceCount : td.pieceCount = start.pieceCount
  chunkCount : td.chunkCount = start.chunkCount
  claimed : td.claimed.map (·.bitCount) = start.claimed.map (·.bitCount)

/-- The last piece that has its bytes written over the bit of a chunk. -/
structure LastWriter (td : TorrentData) (piece chunk : Nat) : Prop where
  inRange : (piece : Int) < td.pieceCount
  reads : td.TestReads piece chunk
  latest : ∀ later : Nat, piece < later → (later : Int) < td.pieceCount → ¬ td.TestReads later chunk

/-- The peer has the last piece that writes the bit of a chunk exactly when it has the chunk's own,
and does not have the piece of a chunk whose bit no piece writes.
-/
structure OffersMatch (td : TorrentData) (offered : Bitfield) : Prop where
  written
    : ∀ chunk < td.chunkTotal, ∀ piece,
        td.LastWriter piece chunk
        → offered.bit piece = offered.bit (td.pieceOf chunk)
  unwritten
    : ∀ chunk < td.chunkTotal,
        (∀ piece : Nat, (piece : Int) < td.pieceCount → ¬ td.TestReads piece chunk)
        → offered.bit (td.pieceOf chunk) = false

/-- The chunks of interest are those of the pieces that the peer has. So a claim takes no other
chunk, and can take each of them that is unclaimed.
-/
structure InterestAgrees (td : TorrentData) (offered interested : Bitfield) : Prop where
  bits
    : ∀ chunk : Nat, ∀ before info,
        (chunk : Int) < td.chunkCount
        → td.getChunkInfo chunk before = .ok (.success, info)
        → (interested.bit chunk = true ↔ offered.bit info.pieceId.toNat = true)
  asked
    : ∀ timeoutSeconds numChunks clock next exit out chunk before info,
        td.claimChunk interested timeoutSeconds numChunks clock = .ok (next, exit, out)
        → some chunk ∈ out
        → td.getChunkInfo chunk before = .ok (.success, info)
        → offered.bit info.pieceId.toNat = true
  unclaimed
    : ∀ claimed, ∀ chunk : Nat, ∀ before info,
        td.claimed = some claimed
        → (chunk : Int) < td.chunkCount
        → claimed.bit chunk = false
        → td.getChunkInfo chunk before = .ok (.success, info)
        → offered.bit info.pieceId.toNat = true
        → chunk ∈ claimable claimed interested

end TorrentData

namespace Peer

/-- The bitfield that `peer_send_msg_request` builds. -/
def buildInterested (p : Peer) (td : TorrentData) : Except Fault Bitfield :=
  match Bitfield.new (u64OfInt td.chunkCount) 0 0xFF with
  | none => .error .nullPointer
  | some blank => interestedChunks td p.peerBitfield td.pieceCount.toNat 0 blank

/-- `peer_send_msg_request` builds it, and claims with it. -/
theorem sendMsgRequest_eq (p : Peer) (td : TorrentData) (stack : Stack) (clock : Nat → Int)
    : p.sendMsgRequest td stack clock
      = (p.buildInterested td).bind fun interested =>
          if p.pendingRequestCount < requestMsgQueueLength then
            (td.claimChunk interested 10 (requestMsgQueueLength - p.pendingRequestCount)
                clock).bind
              fun
                | (td, .failure, _) => .ok (p, td, .success)
                | (td, .success, chunks) =>
                    (sendRequests td stack chunks p).bind fun (p, exit) => .ok (p, td, exit)
          else .ok (p, td, .success) := by
  unfold sendMsgRequest buildInterested
  cases Bitfield.new (u64OfInt td.chunkCount) 0 0xFF <;> rfl

end Peer

namespace TorrentData

variable {start td : TorrentData} {offered interested : Bitfield} {p : Peer}

theorem Later.chunkTotal (later : start.Later td) : td.chunkTotal = start.chunkTotal := by
  rw [TorrentData.chunkTotal, TorrentData.chunkTotal, later.chunkCount]

/-- What `torrent_data_get_chunk_info` tells of a chunk in range. -/
theorem Later.getChunkInfo_eq (later : start.Later td) (fresh : start.Fresh)
    (larger : td.chunkSize ≤ td.pieceSize) {chunk : Nat} (inRange : chunk < td.chunkTotal)
    (before : ChunkInfo)
    : ∃ info,
        td.getChunkInfo chunk before = .ok (.success, info)
        ∧ info.pieceId.toNat = td.pieceOf chunk := by
  have counted : 0 ≤ start.chunkCount := by
    have total := later.chunkTotal
    unfold TorrentData.chunkTotal at total inRange
    omega
  have smaller : start.chunkSize ≤ start.pieceSize := by
    rw [← later.chunkSize, ← later.pieceSize]
    exact larger
  have ready := fresh.initialised counted fun _ => fresh.pieceOf_fits_of_le smaller
  have same : td.getChunkInfo chunk before = start.getChunkInfo chunk before := by
    unfold TorrentData.getChunkInfo
    rw [later.chunkSize, later.dataSize, later.pieceSize]
  rw [same, ready.getChunkInfo_eq (by rw [← later.chunkTotal]; exact inRange)]
  refine ⟨_, rfl, ?_⟩
  rw [Int.toNat_natCast, pieceOf, pieceOf, later.chunkSize, later.pieceSize]

/-- A claim takes chunks that are wanted. -/
theorem claimLoop_picks {claimed : Bitfield} {timeoutSeconds : Int} {clock : Nat → Int}
    {remaining slot : Nat} {next : TorrentData} {out : List (Option Nat)}
    (field : td.claimed = some claimed)
    (ran : claimLoop interested timeoutSeconds clock remaining slot td = .ok (next, out))
    : ∀ chunk, some chunk ∈ out → chunk < claimed.bitCount ∧ interested.bit chunk = true := by
  induction remaining generalizing td claimed slot out with
  | zero =>
      cases ran
      exact fun chunk member => absurd member (List.not_mem_nil)
  | succ remaining ih =>
      simp only [claimLoop, field] at ran
      obtain ⟨found, picked, ran⟩ := bind_eq_ok.mp ran
      obtain ⟨⟨after, rest⟩, looped, same⟩ := bind_eq_ok.mp ran
      cases same
      intro chunk member
      cases found with
      | none =>
          rcases List.mem_cons.mp member with same | later
          · cases same
          · exact ih field looped chunk later
      | some index =>
          rcases List.mem_cons.mp member with same | later
          · cases same
            have below := (firstClaimable_eq_some picked).2.1
            exact ⟨by omega, firstClaimable_wanted picked⟩
          · obtain ⟨marked, markedField, counted⟩ : ∃ marked,
                (td.layClaim claimed timeoutSeconds (clock slot) index).claimed = some marked
                  ∧ marked.bitCount = claimed.bitCount := by
              unfold layClaim
              split
              · exact ⟨_, rfl, Bitfield.setBit_bitCount ..⟩
              · exact ⟨claimed, field, rfl⟩
            rw [← counted]
            exact ih markedField looped chunk later

theorem claimChunk_picks {claimed : Bitfield} {timeoutSeconds numChunks : Int} {clock : Nat → Int}
    {next : TorrentData} {exit : Exit} {out : List (Option Nat)}
    (field : td.claimed = some claimed)
    (claims : td.claimChunk interested timeoutSeconds numChunks clock = .ok (next, exit, out))
    : ∀ chunk, some chunk ∈ out → chunk < claimed.bitCount ∧ interested.bit chunk = true := by
  unfold claimChunk at claims
  split at claims
  · rw [field] at claims
    obtain ⟨⟨after, found⟩, ran, same⟩ := bind_eq_ok.mp claims
    cases same
    exact claimLoop_picks field ran
  · cases claims
    exact fun chunk member => absurd member (List.not_mem_nil)

/-- Among pieces there is a last one of a kind, if there is one. -/
theorem exists_last (kind : Nat → Prop) (count : Nat)
    : (∀ piece < count, ¬ kind piece)
      ∨ ∃ piece < count, kind piece ∧ ∀ later, piece < later → later < count → ¬ kind later := by
  induction count with
  | zero => exact .inl fun piece below => by omega
  | succ count ih =>
      by_cases here : kind count
      · exact .inr ⟨count, by omega, here, fun later above below => by omega⟩
      · rcases ih with none | ⟨piece, below, holds, latest⟩
        · refine .inl fun piece below => ?_
          by_cases last : piece = count
          · rw [last]
            exact here
          · exact none piece (by omega)
        · refine .inr ⟨piece, by omega, holds, fun later above under => ?_⟩
          by_cases last : later = count
          · rw [last]
            exact here
          · exact latest later above (by omega)

/-- The bits of the bitfield that is built. -/
theorem buildInterested_bit (counted : 0 ≤ td.chunkCount) (few : td.chunkCount < 2 ^ 31)
    (present : p.peerBitfield = some offered) (built : p.buildInterested td = .ok interested)
    : interested.bitCount = td.chunkTotal
      ∧ ∀ chunk < td.chunkTotal,
          ((∀ piece : Nat, (piece : Int) < td.pieceCount → ¬ td.TestReads piece chunk)
            → interested.bit chunk = false)
          ∧ ∀ piece, td.LastWriter piece chunk → interested.bit chunk = offered.bit piece := by
  have total : u64OfInt td.chunkCount = td.chunkTotal := by
    unfold u64OfInt chunkTotal
    omega
  have small : td.chunkTotal < 2 ^ 31 := by
    unfold chunkTotal
    omega
  obtain ⟨blank, made, blankCount, clear, -⟩ := Bitfield.new_spec small 0xFF
  have bytes := blank.bytesCount_eq
  unfold Peer.buildInterested at built
  rw [total, made, present] at built
  obtain ⟨kept, bits⟩ := Peer.interestedChunks_bit (by omega) built
  refine ⟨kept.trans blankCount, fun chunk early => ?_⟩
  obtain ⟨untouched, last⟩ := bits chunk (by omega)
  constructor
  · intro none
    rw [untouched fun piece _ below => none piece (by omega), clear chunk early]
  · intro piece writer
    have inRange := writer.inRange
    exact last piece (by omega) (by omega) writer.reads
      fun later above below => writer.latest later above (by omega)

/-- The chunks of interest are those of the pieces that the peer has if and only if the chunk count
fits its `int` and the peer's pieces match those that write their chunks.
-/
theorem interestAgrees_iff (started : start.JustInitialised) (later : start.Later td)
    (divides : td.chunkSize ∣ td.pieceSize) (present : p.peerBitfield = some offered)
    (covers : td.pieceCount ≤ offered.bitCount)
    : (∃ interested, p.buildInterested td = .ok interested ∧ td.InterestAgrees offered interested)
      ↔ 0 ≤ td.chunkCount ∧ td.OffersMatch offered := by
  have fresh := started.fresh
  have few : td.chunkCount < 2 ^ 31 := by
    rw [later.chunkCount, fresh.chunkCount, wrap32]
    omega
  have larger : td.chunkSize ≤ td.pieceSize := by
    refine Nat.le_of_dvd ?_ divides
    rw [later.pieceSize]
    exact fresh.pieceSize_pos
  have below (chunk : Nat) : (chunk : Int) < td.chunkCount ↔ chunk < td.chunkTotal := by
    unfold chunkTotal
    omega
  constructor
  · rintro ⟨interested, built, agrees⟩
    have counted : 0 ≤ td.chunkCount := by
      by_contra negative
      have lower : -2 ^ 31 ≤ td.chunkCount := by
        rw [later.chunkCount, fresh.chunkCount, wrap32]
        omega
      unfold Peer.buildInterested at built
      rw [Bitfield.new, if_neg (by unfold u64OfInt; omega)] at built
      cases built
    obtain ⟨-, bits⟩ := buildInterested_bit counted few present built
    have own (chunk : Nat) (early : chunk < td.chunkTotal)
        : interested.bit chunk = offered.bit (td.pieceOf chunk) := by
      obtain ⟨info, told, piece⟩ := later.getChunkInfo_eq fresh larger early ⟨0, 0, 0, 0⟩
      have same := agrees.bits chunk _ info ((below chunk).mpr early) told
      rwa [piece, ← Bool.eq_iff_iff] at same
    refine ⟨counted, fun chunk early piece writer => ?_, fun chunk early none => ?_⟩
    · rw [← own chunk early, (bits chunk early).2 piece writer]
    · rw [← own chunk early, (bits chunk early).1 none]
  · rintro ⟨counted, matched⟩
    obtain ⟨interested, built⟩ : ∃ interested, p.buildInterested td = .ok interested := by
      obtain ⟨blank, made, -⟩ := @Bitfield.new_spec (u64OfInt td.chunkCount)
        (by unfold u64OfInt; omega) 0xFF
      unfold Peer.buildInterested
      rw [made, present]
      refine Peer.interestedChunks_returns ?_ (by omega)
      rw [later.chunkSize]
      exact Nat.pos_iff_ne_zero.mp fresh.chunkSize_pos
    obtain ⟨size, bits⟩ := buildInterested_bit counted few present built
    have own (chunk : Nat) (early : chunk < td.chunkTotal)
        : interested.bit chunk = offered.bit (td.pieceOf chunk) := by
      rcases exists_last (td.TestReads · chunk) td.pieceCount.toNat with
        none | ⟨piece, less, reads, last⟩
      · have unwritten (piece : Nat) (inside : (piece : Int) < td.pieceCount) :=
          none piece (by omega)
        rw [(bits chunk early).1 unwritten, matched.unwritten chunk early unwritten]
      · have writer : td.LastWriter piece chunk :=
          ⟨by omega, reads, fun later above inside => last later above (by omega)⟩
        rw [(bits chunk early).2 piece writer, matched.written chunk early piece writer]
    have told {chunk : Nat} {before info : ChunkInfo} (early : chunk < td.chunkTotal)
        (tells : td.getChunkInfo chunk before = .ok (.success, info))
        : interested.bit chunk = offered.bit info.pieceId.toNat := by
      obtain ⟨other, same, piece⟩ := later.getChunkInfo_eq fresh larger early before
      rw [same] at tells
      cases tells
      rw [piece]
      exact own chunk early
    obtain ⟨claimed, field, claimedCount⟩ : ∃ claimed,
        td.claimed = some claimed ∧ claimed.bitCount = td.chunkTotal := by
      have kept := later.claimed
      obtain ⟨first, made, firstCount, -⟩ := @Bitfield.new_spec (u64OfInt start.chunkCount)
        (by rw [← later.chunkCount]; unfold u64OfInt; omega) 0xFF
      rw [fresh.claimed, made, Option.map_some] at kept
      obtain ⟨claimed, field, same⟩ := Option.map_eq_some_iff.mp kept
      refine ⟨claimed, field, ?_⟩
      rw [same, firstCount, ← later.chunkCount]
      unfold u64OfInt chunkTotal
      omega
    refine ⟨interested, built, ?_, ?_, ?_⟩
    · intro chunk before info inside tells
      rw [told ((below chunk).mp inside) tells]
    · intro timeoutSeconds numChunks clock next exit out chunk before info claims member tells
      obtain ⟨inside, wanted⟩ := claimChunk_picks field claims chunk member
      rw [← told (by omega) tells]
      exact wanted
    · intro other chunk before info same inside unclaimed tells has
      rw [field] at same
      cases same
      have early := (below chunk).mp inside
      refine mem_claimable.mpr ⟨by omega, unclaimed, ?_⟩
      rw [told early tells]
      exact has

-----------------------------------------------------------------------------------------
-- The sizes for which every peer's pieces match
-----------------------------------------------------------------------------------------

/-- Where every piece writes the bytes of its own chunks, the pieces of every peer match. -/
theorem offersMatch_of_readsOwnBytes
    (own : ∀ piece : Nat, (piece : Int) < td.pieceCount → td.ReadsOwnBytes piece)
    (pieces : ∀ chunk < td.chunkTotal, (td.pieceOf chunk : Int) < td.pieceCount)
    (offered : Bitfield)
    : td.OffersMatch offered := by
  refine ⟨fun chunk early piece writer => ?_, fun chunk early none => ?_⟩
  · rw [(own piece writer.inRange chunk early).mp writer.reads]
  · have inRange := pieces chunk early
    exact absurd ((own _ inRange chunk early).mpr rfl) (none _ inRange)

/-- Without a second look at the counts nothing has changed. -/
theorem Later.refl (td : TorrentData) : td.Later td := ⟨rfl, rfl, rfl, rfl, rfl, rfl⟩

/-- Witness: two pieces of eight chunks, of which the peer has the first one. -/
theorem interestAgrees_iff_eight
    : ∃ interested,
        { Peer.new 0 with peerBitfield := some ⟨2, [0x80], rfl⟩ }.buildInterested
            (ofSingleFile none 262144 131072 16384)
          = .ok interested
        ∧ (ofSingleFile none 262144 131072 16384).InterestAgrees ⟨2, [0x80], rfl⟩ interested := by
  have started : (ofSingleFile none 262144 131072 16384).JustInitialised :=
    SingleFileFits.justInitialised (by decide +kernel)
  have chunks : (ofSingleFile none 262144 131072 16384).chunkTotal = 16 := by decide
  have pieces : (ofSingleFile none 262144 131072 16384).pieceCount = 2 := by decide
  have uints : (ofSingleFile none 262144 131072 16384).uintsPerPiece = (1 : Nat) := by decide
  refine (interestAgrees_iff started (.refl _) (by decide) rfl (by rw [pieces]; decide)).mpr
    ⟨by decide, offersMatch_of_readsOwnBytes (fun piece inRange chunk early => ?_)
      (fun chunk early => ?_) _⟩
  · rw [chunks] at early
    rw [pieces] at inRange
    rw [testReads_iff uints (by omega)]
    change _ ↔ 16384 * chunk / 131072 = piece
    omega
  · rw [chunks] at early
    rw [pieces]
    change ((16384 * chunk / 131072 : Nat) : Int) < 2
    omega

/-- Of a piece of two chunks that the peer has, no chunk is of interest. -/
theorem small_pieces_uninteresting
    : ¬ ∀ (start td : TorrentData) (p : Peer) (offered : Bitfield),
        start.JustInitialised
        → start.Later td
        → td.chunkSize ∣ td.pieceSize
        → p.peerBitfield = some offered
        → td.pieceCount ≤ offered.bitCount
        → ∃ interested,
            p.buildInterested td = .ok interested ∧ td.InterestAgrees offered interested := by
  intro claim
  have started : (ofSingleFile none 32768 32768 16384).JustInitialised :=
    SingleFileFits.justInitialised (by decide +kernel)
  obtain ⟨interested, built, agrees⟩ := claim _ _
    { Peer.new 0 with peerBitfield := some ⟨1, [0x80], rfl⟩ } ⟨1, [0x80], rfl⟩ started (.refl _)
    (by decide) rfl (by decide)
  have returned : returnsWith
      ({ Peer.new 0 with peerBitfield := some ⟨1, [0x80], rfl⟩ }.buildInterested
        (ofSingleFile none 32768 32768 16384))
      (fun interested => !interested.bit 0) = true := by
    decide +kernel
  rw [built] at returned
  have first : (ofSingleFile none 32768 32768 16384).getChunkInfo 0 ⟨0, 0, 0, 0⟩
      = .ok (.success, ⟨0, 0, 16384, 0⟩) := by
    decide +kernel
  have wanted := (agrees.bits 0 _ _ (by decide) first).mpr (by decide)
  simp [returnsWith, wanted] at returned

end TorrentData

end UvgTorrent

import UvgTorrent.Peers.ChunksOfInterest
import UvgTorrent.Peers.Conversations

/-! The requests that `peer_send_msg_request` makes, of chunks that fit its 32-bit fields: the reply
to each is taken for its chunk, and has its size.
-/

namespace UvgTorrent

open Foundations

namespace Peer

variable {p next : Peer} {td after : TorrentData} {stack : Stack} {clock : Nat → Int}

-----------------------------------------------------------------------------------------
-- The requests of a call
-----------------------------------------------------------------------------------------

/-- The requests that the loop of `peer_send_msg_request` encodes, each with its chunk. The last one
is one that cannot be written, if there is such.
-/
def requestsEncoded (td : TorrentData) (stack : Stack)
    : List (Option Nat) → Peer → List (Nat × Bytes)
  | [], _ => []
  | none :: _, _ => []
  | some chunk :: rest, p =>
      match td.requestMessage chunk stack with
      | .error _ => []
      | .ok request =>
          (chunk, request)
          :: match p.write request with
            | .error _ => []
            | .ok (p, result) =>
                if result ≠ 17 then []
                else
                  requestsEncoded td stack rest
                    { p with pendingRequestCount := wrap32 (p.pendingRequestCount + 1) }

/-- The requests that a call of `peer_send_msg_request` encodes. -/
def encodedRequests (p : Peer) (td : TorrentData) (stack : Stack) (clock : Nat → Int)
    : List (Nat × Bytes) :=
  match p.chunksToRequest td clock with
  | .error _ => []
  | .ok (td, chunks) => requestsEncoded td stack chunks p

/-- `peer_send_msg_request` chooses its chunks first, and then makes the requests. -/
theorem sendMsgRequest_chunks (p : Peer) (td : TorrentData) (stack : Stack) (clock : Nat → Int)
    : p.sendMsgRequest td stack clock
      = (p.chunksToRequest td clock).bind fun (td, chunks) =>
          (sendRequests td stack chunks p).bind fun (p, exit) => .ok (p, td, exit) := by
  unfold sendMsgRequest chunksToRequest
  cases Bitfield.new (u64OfInt td.chunkCount) 0 0xFF with
  | none => rfl
  | some blank =>
      dsimp only
      cases interestedChunks td p.peerBitfield td.pieceCount.toNat 0 blank with
      | error fault => rfl
      | ok interested =>
          simp only [Except.bind]
          split
          · cases td.claimChunk interested 10 (requestMsgQueueLength - p.pendingRequestCount)
              clock with
            | error fault => rfl
            | ok claims =>
                obtain ⟨claimed, exit, chunks⟩ := claims
                cases exit <;> rfl
          · rfl

/-- What the loop encodes for an open socket is written to it. -/
theorem sendRequests_written {socket : BufferedSocket} {chunks : List (Option Nat)} {exit : Exit}
    (present : p.socket = some socket) (ready : socket.Ready)
    (sent : sendRequests td stack chunks p = .ok (next, exit))
    : next.outgoing = p.outgoing ++ ((requestsEncoded td stack chunks p).map Prod.snd).flatten := by
  induction chunks generalizing p socket with
  | nil =>
      cases sent
      simp [requestsEncoded]
  | cons chunk rest ih =>
      cases chunk with
      | none =>
          cases sent
          simp [requestsEncoded]
      | some chunk =>
          obtain ⟨request, made, sent⟩ := bind_eq_ok.mp sent
          obtain ⟨⟨written, result⟩, wrote, sent⟩ := bind_eq_ok.mp sent
          rw [requestsEncoded, made]
          dsimp only at sent ⊢
          rw [wrote]
          unfold write at wrote
          rw [present] at wrote
          obtain ⟨⟨kept, length⟩, writes, same⟩ := bind_eq_ok.mp wrote
          cases same
          obtain ⟨readyNext, pending, -⟩ := ready.write writes
          have before : p.outgoing = socket.pending := by rw [outgoing, present]
          dsimp only
          split at sent
          · rename_i short
            cases sent
            rw [if_pos short, before]
            simpa [outgoing] using pending
          · rename_i whole
            rw [if_neg whole, ih rfl readyNext sent, before]
            simp [outgoing, pending]

/-- A call writes the requests that it encodes. -/
theorem sendMsgRequest_written {socket : BufferedSocket} {exit : Exit}
    (present : p.socket = some socket) (ready : socket.Ready)
    (sent : p.sendMsgRequest td stack clock = .ok (next, after, exit))
    : next.outgoing = p.outgoing ++ ((p.encodedRequests td stack clock).map Prod.snd).flatten := by
  rw [sendMsgRequest_chunks] at sent
  obtain ⟨⟨claimed, chunks⟩, chosen, sent⟩ := bind_eq_ok.mp sent
  obtain ⟨⟨_, _⟩, requested, same⟩ := bind_eq_ok.mp sent
  cases same
  rw [encodedRequests, chosen]
  exact sendRequests_written present ready requested

/-- Each request that is encoded is that of a chunk which was claimed. -/
theorem mem_requestsEncoded {chunks : List (Option Nat)} {chunk : Nat} {request : Bytes}
    (encoded : (chunk, request) ∈ requestsEncoded td stack chunks p)
    : some chunk ∈ chunks ∧ td.requestMessage chunk stack = .ok request := by
  induction chunks generalizing p with
  | nil => cases encoded
  | cons first rest ih =>
      cases first with
      | none => cases encoded
      | some first =>
          rw [requestsEncoded] at encoded
          split at encoded
          · cases encoded
          · rename_i made
            rcases List.mem_cons.mp encoded with same | later
            · cases same
              exact ⟨List.mem_cons_self, made⟩
            · split at later
              · cases later
              · split at later
                · cases later
                · obtain ⟨member, made⟩ := ih later
                  exact ⟨List.mem_cons_of_mem _ member, made⟩

/-- No chunk is of interest where the chunks of a piece fill no byte. -/
theorem interestedChunks_idle {offered : Option Bitfield} {field interested : Bitfield}
    {remaining first : Nat} (none : td.uintsPerPiece ≤ 0)
    (ran : interestedChunks td offered remaining first field = .ok interested)
    : interested = field := by
  induction remaining generalizing first with
  | zero =>
      cases ran
      rfl
  | succ remaining ih =>
      unfold interestedChunks at ran
      split at ran
      · cases ran
      · obtain ⟨wanted, _, ran⟩ := bind_eq_ok.mp ran
        split at ran
        · cases ran
        · have unwritten : fillPiece field td.uintsPerPiece first wanted = field := by
            rw [fillPiece_eq, Int.toNat_of_nonpos none, List.range_zero, List.foldl_nil]
          refine @ih (first + 1) ?_
          rw [← unwritten]
          exact ran

/-- The chunks that are chosen are in range, and the chunks of a piece fill whole bytes. -/
theorem chunksToRequest_spec (ready : td.Initialised) {chunks : List (Option Nat)}
    (chosen : p.chunksToRequest td clock = .ok (after, chunks))
    : td.SameButClaims after
      ∧ ∀ chunk, some chunk ∈ chunks → chunk < td.chunkTotal ∧ 0 < td.uintsPerPiece := by
  unfold chunksToRequest at chosen
  split at chosen
  · cases chosen
  rename_i blank made
  obtain ⟨interested, built, chosen⟩ := bind_eq_ok.mp chosen
  have bits : ∀ chunk < td.chunkTotal, blank.bit chunk = false := by
    intro chunk inRange
    have counted : 0 ≤ td.chunkCount := by
      unfold TorrentData.chunkTotal at inRange
      omega
    have total : u64OfInt td.chunkCount = td.chunkTotal := by
      have small := ready.chunkTotal_lt
      unfold u64OfInt TorrentData.chunkTotal
      unfold TorrentData.chunkTotal at small
      omega
    rw [total] at made
    obtain ⟨field, news, _, clear, -⟩ := Bitfield.new_spec ready.chunkTotal_lt 0xFF
    obtain rfl : field = blank := Option.some.inj (news.symm.trans made)
    exact clear chunk inRange
  have picked (claimed : TorrentData) (exit : Exit) (out : List (Option Nat))
      (claims
        : td.claimChunk interested 10 (requestMsgQueueLength - p.pendingRequestCount) clock
          = .ok (claimed, exit, out))
      : ∀ chunk, some chunk ∈ out → chunk < td.chunkTotal ∧ 0 < td.uintsPerPiece := by
    intro chunk member
    obtain ⟨field, present, counted, -⟩ := ready.claimed_field
    obtain ⟨inRange, wanted⟩ := TorrentData.claimChunk_picks present claims chunk member
    rw [counted] at inRange
    refine ⟨inRange, ?_⟩
    by_contra none
    rw [interestedChunks_idle (not_lt.mp none) built, bits chunk inRange] at wanted
    cases wanted
  split at chosen
  · obtain ⟨⟨claimed, exit, out⟩, claims, same⟩ := bind_eq_ok.mp chosen
    have kept := TorrentData.claimChunk_sameButClaims claims
    cases exit with
    | failure =>
        cases same
        exact ⟨kept, fun chunk member => by cases member⟩
    | success =>
        cases same
        exact ⟨kept, picked _ _ _ claims⟩
  · cases chosen
    exact ⟨rfl, fun chunk member => by cases member⟩

end Peer

-----------------------------------------------------------------------------------------
-- The replies
-----------------------------------------------------------------------------------------

namespace TorrentData

variable {td : TorrentData}

/-- Pieces below 4 GiB whose chunks fill bytes have chunks below half a gigabyte. -/
theorem chunkSize_lt_of_uintsPerPiece (pieceFits : td.pieceSize < 2 ^ 32)
    (bytes : 0 < td.uintsPerPiece)
    : td.chunkSize < 2 ^ 29 := by
  have quotient : td.pieceSize / td.chunkSize ≤ td.pieceSize := Nat.div_le_self _ _
  have whole : 8 ≤ td.pieceSize / td.chunkSize := by
    unfold uintsPerPiece wrap32 at bytes
    generalize td.pieceSize / td.chunkSize = chunks at bytes quotient
    by_contra few
    rcases Nat.lt_or_ge chunks (2 ^ 31) with small | large
    · rw [Int.tdiv_eq_ediv_of_nonneg (by omega)] at bytes
      omega
    · omega
  have product := Nat.mul_le_of_le_div _ _ _ whole
  omega

/-- A request is made from the sizes, which claims do not change. -/
theorem SameButClaims.requestMessage_eq {after : TorrentData} (same : td.SameButClaims after)
    (chunk : Int) (stack : Stack)
    : after.requestMessage chunk stack = td.requestMessage chunk stack := by
  rw [same]
  rfl

theorem chunkLength_le (td : TorrentData) (chunk : Nat) : td.chunkLength chunk ≤ td.chunkSize :=
  Nat.min_le_left _ _

end TorrentData

/-- The reply to each request that `peer_send_msg_request` encodes, with as many bytes as were asked
for, is taken for the chunk and has its size; and no two chunks have the same index and begin.
-/
theorem request_piece_agreement {td : TorrentData} (ready : td.Initialised)
    (pieceFits : td.pieceSize < 2 ^ 32)
    : (∀ (p : Peer) (stack : Stack) (clock : Nat → Int) (chunk : Nat) (request : Bytes),
        (chunk, request) ∈ p.encodedRequests td stack clock
        → ∀ block : Bytes,
            block.length = requestedLength request
            → ∃ reply : Message,
                reply.bytes = pieceMessage request block
                ∧ (∀ stack, td.chunkIdOf reply.index reply.begin stack = .ok chunk)
                ∧ reply.block = block
                ∧ reply.block.length = td.chunkLength chunk)
      ∧ ∀ (stack : Stack),
          ∀ chunk < td.chunkTotal,
            ∀ other < td.chunkTotal,
              other ≠ chunk
              → ∃ request request',
                  td.requestMessage chunk stack = .ok request
                  ∧ td.requestMessage other stack = .ok request'
                  ∧ (slice request' 5 4, slice request' 9 4)
                    ≠ (slice request 5 4, slice request 9 4) := by
  have offsetFits (chunk : Nat) : td.offsetInPiece chunk < 2 ^ 32 :=
    (td.offsetInPiece_lt ready.pieceSize_pos chunk).trans pieceFits
  constructor
  · intro p stack clock chunk request encoded block sized
    unfold Peer.encodedRequests at encoded
    split at encoded
    · cases encoded
    rename_i after chunks chosen
    obtain ⟨same, picked⟩ := Peer.chunksToRequest_spec ready chosen
    obtain ⟨member, made⟩ := Peer.mem_requestsEncoded encoded
    obtain ⟨inRange, bytes⟩ := picked chunk member
    have small : td.chunkLength chunk < 2 ^ 29 :=
      (td.chunkLength_le chunk).trans_lt (td.chunkSize_lt_of_uintsPerPiece pieceFits bytes)
    have indexFits := ready.pieceOf_fits chunk inRange
    rw [same.requestMessage_eq, ready.requestMessage_eq inRange (offsetFits chunk) stack] at made
    cases made
    obtain ⟨indexField, beginField, lengthField⟩ := request_fields (td.pieceOf chunk)
      (td.offsetInPiece chunk) (u32 (td.chunkLength chunk))
    have asked : block.length = td.chunkLength chunk := by
      rw [sized, requestedLength, lengthField, u32, Nat.mod_eq_of_lt (by omega),
        ofBe32_be32 (by omega)]
    have long : 13 ≤ (be32 13 ++ [6] ++ be32 (td.pieceOf chunk) ++ be32 (td.offsetInPiece chunk)
        ++ be32 (u32 (td.chunkLength chunk))).length := by
      simp
    have short : block.length ≤ 2 ^ 32 - 10 := by
      omega
    obtain ⟨reply, bytes, index, begin, carried⟩ := pieceMessage_framed long short
    refine ⟨reply, bytes, fun stack => ?_, carried, by rw [carried, asked]⟩
    rw [index, begin, indexField, beginField, ofBe32_be32 (by omega),
      ofBe32_be32 (offsetFits chunk)]
    exact ready.chunkIdOf_eq inRange (td.offsetInPiece_add chunk) indexFits stack
  · intro stack chunk inRange other otherInRange differs
    have indexFits := ready.pieceOf_fits chunk inRange
    have otherFits := ready.pieceOf_fits other otherInRange
    obtain ⟨indexField, beginField, _⟩ := request_fields (td.pieceOf chunk)
      (td.offsetInPiece chunk) (u32 (td.chunkLength chunk))
    obtain ⟨otherIndex, otherBegin, _⟩ := request_fields (td.pieceOf other)
      (td.offsetInPiece other) (u32 (td.chunkLength other))
    refine ⟨_, _, ready.requestMessage_eq inRange (offsetFits chunk) stack,
      ready.requestMessage_eq otherInRange (offsetFits other) stack, ?_⟩
    rw [indexField, beginField, otherIndex, otherBegin]
    intro same
    obtain ⟨sameIndex, sameBegin⟩ := Prod.mk.inj same
    have index := congrArg ofBe32 sameIndex
    have begin := congrArg ofBe32 sameBegin
    rw [ofBe32_be32 (by omega), ofBe32_be32 (by omega)] at index
    rw [ofBe32_be32 (offsetFits other), ofBe32_be32 (offsetFits chunk)] at begin
    have start := td.offsetInPiece_add chunk
    have otherStart := td.offsetInPiece_add other
    rw [index, begin, start] at otherStart
    exact differs (Nat.eq_of_mul_eq_mul_left ready.chunkSize_pos otherStart).symm

/-- A connected peer that has the first piece, with two requests open. -/
def firstPiecePeer : Peer :=
  {
    Peer.new 0 with
    socket := some (BufferedSocket.new.setSocketFd 3)
    peerBitfield := some { bitCount := 1, bytes := [0x80], sized := rfl }
    pendingRequestCount := 2
  }

/-- Witness: the peer is asked for all eight chunks, the last one among them. -/
theorem request_piece_agreement_last
    : ∃ request,
        (7, request) ∈ firstPiecePeer.encodedRequests byteTorrent zeroStack (fun _ => 0)
        ∧ ∀ block : Bytes,
            block.length = requestedLength request
            → ∃ reply : Message,
                reply.bytes = pieceMessage request block
                ∧ (∀ stack, byteTorrent.chunkIdOf reply.index reply.begin stack = .ok (7 : Nat))
                ∧ reply.block = block
                ∧ reply.block.length = byteTorrent.chunkLength 7 := by
  obtain ⟨taken, _⟩ := request_piece_agreement byteTorrent_initialised (by decide +kernel)
  have chunks
      : (firstPiecePeer.encodedRequests byteTorrent zeroStack fun _ => 0).map Prod.fst
        = [0, 1, 2, 3, 4, 5, 6, 7] := by
    decide +kernel
  have last
      : 7 ∈ (firstPiecePeer.encodedRequests byteTorrent zeroStack fun _ => 0).map Prod.fst := by
    rw [chunks]
    decide
  obtain ⟨⟨chunk, request⟩, member, rfl⟩ := List.mem_map.mp last
  exact ⟨request, member, taken firstPiecePeer zeroStack (fun _ => 0) _ request member⟩

end UvgTorrent

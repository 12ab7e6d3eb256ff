import UvgTorrent.Peers.BitfieldSizes
import UvgTorrent.TorrentData.RangeTermination

/-! The messages whose handlers return, whatever the file operations answer: the message is long
enough for the fields that are read, what it is copied into has room, and a range that it asks for
can be read.
-/

namespace UvgTorrent

open Foundations

-----------------------------------------------------------------------------------------
-- Pieces and interest
-----------------------------------------------------------------------------------------

namespace TorrentData

variable {td : TorrentData} {stack : Stack}

/-- `torrent_data_is_piece_complete` has what it reads: chunks, and their bits unless the chunks of
a piece fill no byte.
-/
def JudgesPieces (td : TorrentData) : Prop :=
  td.chunkSize ≠ 0 ∧ (0 < td.uintsPerPiece → td.completed ≠ none)

theorem isPieceComplete_returns_iff {piece : Int}
    : Returns (td.isPieceComplete piece stack) ↔ td.JudgesPieces := by
  unfold isPieceComplete JudgesPieces uintsPerPiece
  by_cases zero : td.chunkSize = 0
  · simp [zero, not_returns_error]
  rw [if_neg zero, and_iff_right zero]
  dsimp only
  split
  · rename_i none
    exact iff_of_true (returns_ok _) fun some => absurd some (not_lt.mpr none)
  · rename_i some
    cases completed : td.completed with
    | none => exact iff_of_false (not_returns_error _) fun present => present (not_le.mp some) rfl
    | some field => exact iff_of_true (returns_ok _) fun _ absent => by cases absent

/-- `peer_update_interested` can judge whether a piece is needed. -/
def JudgesInterest (td : TorrentData) : Prop :=
  td.isComplete = true ∨ td.needed = false ∨ td.JudgesPieces

theorem judgesInterest_iff {piece : Int}
    : Returns
          (if td.isComplete then .ok true
            else if td.needed then td.isPieceComplete piece stack
            else .ok false)
      ↔ td.JudgesInterest := by
  unfold JudgesInterest
  split
  · rename_i complete
    exact iff_of_true (returns_ok _) (.inl complete)
  · rename_i incomplete
    rw [or_iff_right incomplete]
    split
    · rename_i needed
      rw [isPieceComplete_returns_iff, needed]
      simp
    · rename_i idle
      exact iff_of_true (returns_ok _) (.inl (by simpa using idle))

end TorrentData

namespace Peer

variable {p : Peer} {td : TorrentData} {disk : Disk} {message : Message} {stack : Stack}

/-- What is written to the socket is not linked behind a buffer that was freed, unless the memory of
that one is used again.
-/
def TailStands (p : Peer) : Prop :=
  ∀ socket tail,
    p.socket = some socket
    → socket.socket ≠ -1
    → socket.writeBufferTail = some tail
    → tail = socket.writeBuffers.heap.fresh ∨ (socket.writeBuffers.heap.cell tail).isSome

theorem write_returns_iff {data : Bytes} : Returns (p.write data) ↔ p.TailStands := by
  unfold write TailStands
  cases present : p.socket with
  | none => exact iff_of_true (returns_ok _) fun socket tail absent => by cases absent
  | some socket =>
      dsimp only
      rw [returns_bind_ok fun result => returns_ok _]
      unfold BufferedSocket.write
      by_cases closed : socket.socket = -1
      · rw [if_pos closed]
        refine iff_of_true (returns_ok _) ?_
        rintro _ tail ⟨⟩ opened
        exact absurd closed opened
      rw [if_neg closed]
      cases tailed : socket.writeBufferTail with
      | none =>
          refine iff_of_true (returns_ok _) ?_
          rintro _ tail ⟨⟩ _ last
          rw [tailed] at last
          cases last
      | some tail =>
          have standing
              : (((socket.writeBuffers.allocLast ⟨data, 0, Nat.zero_le _⟩).heap.cell tail).isSome
                  = true)
                ↔ tail = socket.writeBuffers.heap.fresh
                  ∨ (socket.writeBuffers.heap.cell tail).isSome := by
            by_cases here : tail = socket.writeBuffers.heap.fresh
            · simp [PtrList.allocLast, CellHeap.alloc, here]
            · simp [PtrList.allocLast, CellHeap.alloc, here]
          have linked
              : (tail = socket.writeBuffers.heap.fresh
                  ∨ (socket.writeBuffers.heap.cell tail).isSome)
                ↔ ∀ other last,
                    some socket = some other
                    → other.socket ≠ -1
                    → other.writeBufferTail = some last
                    → last = other.writeBuffers.heap.fresh
                      ∨ (other.writeBuffers.heap.cell last).isSome := by
            constructor
            · rintro stands _ last ⟨⟩ _ found
              rw [tailed] at found
              cases found
              exact stands
            · exact fun all => all socket tail rfl closed tailed
          rw [← linked, ← standing]
          dsimp only
          cases (socket.writeBuffers.allocLast ⟨data, 0, Nat.zero_le _⟩).heap.cell tail with
          | none => simp [not_returns_error]
          | some buffer => exact iff_of_true (returns_ok _) rfl

-----------------------------------------------------------------------------------------
-- The handlers
-----------------------------------------------------------------------------------------

theorem sendBasic_returns_iff {msgId : UInt8} : Returns (p.sendBasic msgId) ↔ p.TailStands := by
  rw [sendBasic, returns_bind_ok fun result => returns_ok _, write_returns_iff]

/-- The loop over the pieces returns when there are none, or each can be judged. -/
theorem hasInterestingPieces_returns_iff {field : Bitfield} {remaining index : Nat}
    (inside : index + remaining ≤ field.bitCount)
    : Returns (hasInterestingPieces td field stack remaining index)
      ↔ remaining = 0 ∨ td.JudgesInterest := by
  induction remaining generalizing index with
  | zero => exact iff_of_true (returns_ok _) (.inl rfl)
  | succ remaining ih =>
      rw [hasInterestingPieces, returns_bind, or_iff_right (Nat.succ_ne_zero remaining)]
      have later : td.JudgesInterest
          → Returns (hasInterestingPieces td field stack remaining (index + 1)) :=
        fun judges => (ih (by omega)).mpr (.inr judges)
      constructor
      · rintro ⟨held, judged, _⟩
        exact TorrentData.judgesInterest_iff.mp ⟨held, judged⟩
      · intro judges
        obtain ⟨held, judged⟩ := TorrentData.judgesInterest_iff.mpr judges
        refine ⟨held, judged, ?_⟩
        split
        · exact later judges
        · rw [Bitfield.getBit_of_lt (by omega), returns_bind]
          refine ⟨_, rfl, ?_⟩
          split
          · exact returns_ok _
          · exact later judges

/-- `peer_update_interested` can judge the pieces of the peer, and tell it of a change. -/
def UpdatesInterest (p : Peer) (td : TorrentData) (stack : Stack) : Prop :=
  ∀ field,
    p.peerBitfield = some field
    → (field.bitCount = 0 ∨ td.JudgesInterest)
      ∧ (hasInterestingPieces td field stack field.bitCount 0 = .ok (!p.amInterested)
        → p.TailStands)

theorem updateInterested_returns_iff
    : Returns (p.updateInterested td stack) ↔ p.UpdatesInterest td stack := by
  unfold updateInterested UpdatesInterest
  cases present : p.peerBitfield with
  | none => exact iff_of_true (returns_ok _) fun field absent => by cases absent
  | some field =>
      simp only [Option.some.injEq, forall_eq']
      rw [← @hasInterestingPieces_returns_iff td stack field field.bitCount 0 (by omega),
        returns_bind]
      have starting
          : Returns (p.sendMsgInterested.bind fun sent => .ok sent.1) ↔ p.TailStands := by
        rw [sendMsgInterested, returns_bind_ok fun result => returns_ok _, sendBasic_returns_iff]
        rfl
      have stopping
          : Returns (p.sendMsgNotInterested.bind fun sent => .ok sent.1) ↔ p.TailStands := by
        rw [sendMsgNotInterested, returns_bind_ok fun result => returns_ok _,
          sendBasic_returns_iff]
        rfl
      constructor
      · rintro ⟨interesting, judged, told⟩
        refine ⟨⟨interesting, judged⟩, fun changed => ?_⟩
        cases judged.symm.trans changed
        cases interested : p.amInterested with
        | false =>
            rw [if_pos (by simp [interested])] at told
            exact starting.mp told
        | true =>
            rw [if_neg (by simp [interested]), if_pos (by simp [interested])] at told
            exact stopping.mp told
      · rintro ⟨⟨interesting, judged⟩, stands⟩
        refine ⟨interesting, judged, ?_⟩
        rw [judged] at stands
        split
        · rename_i starts
          exact starting.mpr (stands (by simp [starts.1, starts.2]))
        · split
          · rename_i stops
            exact stopping.mpr (stands (by simp [stops.1, stops.2]))
          · exact returns_ok _

/-- A HAVE message has its field, and the peer a bitfield for it. -/
def HandlesHave (p : Peer) (td : TorrentData) (message : Message) (stack : Stack) : Prop :=
  9 ≤ message.bytes.length
  ∧ ∃ field,
      p.peerBitfield.or (Bitfield.new (u64OfInt td.pieceCount) 0 0x00) = some field
      ∧ { p with peerBitfield := some (field.setBit (wrap32 message.index) 1) }.UpdatesInterest td
          stack

theorem handleMsgHave_returns_iff
    : Returns (p.handleMsgHave td message stack) ↔ p.HandlesHave td message stack := by
  unfold handleMsgHave HandlesHave
  split
  · rename_i short
    exact iff_of_false (not_returns_error _) fun handles => absurd handles.1 (by omega)
  · rename_i long
    rw [and_iff_right (by omega)]
    cases p.peerBitfield.or (Bitfield.new (u64OfInt td.pieceCount) 0 0x00) with
    | none => simp [not_returns_error]
    | some field => simp [updateInterested_returns_iff]

/-- A BITFIELD message has room in the bitfield of the peer. -/
def HandlesBitfield (p : Peer) (td : TorrentData) (message : Message) (stack : Stack) : Prop :=
  p.BitfieldFits td message
  ∧ ∀ field filled,
      p.bitfieldTarget td message = some field
      → field.copyFrom (message.bytes.drop 5) = .ok filled
      → { p with peerBitfield := some filled }.UpdatesInterest td stack

theorem handleMsgBitfield_returns_iff
    : Returns (p.handleMsgBitfield td message stack) ↔ p.HandlesBitfield td message stack := by
  rw [handleMsgBitfield_eq, copyMsgBitfield_eq, HandlesBitfield, bitfieldFits_iff_target]
  cases p.bitfieldTarget td message with
  | none => simp [Except.bind, not_returns_error]
  | some field =>
      by_cases fits : (message.bytes.drop 5).length ≤ field.bytesCount
      · obtain ⟨filled, copied, _⟩ := Bitfield.copyFrom_of_fits fits
        simp only [copied, Except.bind, updateInterested_returns_iff]
        constructor
        · intro updates
          refine ⟨⟨field, rfl, fits⟩, ?_⟩
          rintro _ other ⟨⟩ same
          cases copied.symm.trans same
          exact updates
        · exact fun handles => handles.2 field filled rfl copied
      · have outside : field.copyFrom (message.bytes.drop 5) = .error .bitfieldBounds := by
          rw [Bitfield.copyFrom, dif_neg fits]
        simp only [outside, Except.bind]
        refine iff_of_false (not_returns_error _) ?_
        rintro ⟨⟨_, ⟨⟩, room⟩, _⟩
        exact fits room

/-- What is read and then written returns when the range can be read and the socket written to. -/
theorem readAndWrite_returns_iff {offset length : Nat} (length_lt : length < 2 ^ 64)
    {answer : Exit × Bytes → Bytes} {β : Type}
    {later : Exit × Bytes → Peer × Nat → Except Fault β}
    (ends : ∀ read written, Returns (later read written))
    : (∀ reads,
        ∃ steps,
          Returns
            ((td.readData reads disk offset length stack steps).bind fun read =>
              (p.write (answer read)).bind (later read)))
      ↔ td.RangeReturns disk offset length stack ∧ p.TailStands := by
  rw [← TorrentData.readData_returns_iff length_lt]
  have written (read : Exit × Bytes)
      : Returns ((p.write (answer read)).bind (later read)) ↔ p.TailStands := by
    rw [returns_bind_ok (ends read), write_returns_iff]
  constructor
  · intro returns
    constructor
    · intro reads
      obtain ⟨steps, returned⟩ := returns reads
      obtain ⟨read, ran, _⟩ := returns_bind.mp returned
      exact ⟨steps, read, ran⟩
    · obtain ⟨steps, returned⟩ := returns fun _ _ => .good
      obtain ⟨read, _, wrote⟩ := returns_bind.mp returned
      exact (written read).mp wrote
  · rintro ⟨returns, stands⟩ reads
    obtain ⟨steps, read, ran⟩ := returns reads
    exact ⟨steps, returns_bind.mpr ⟨read, ran, (written read).mpr stands⟩⟩

/-- A REQUEST message has its fields, its range can be read, and the answer can be written. -/
def HandlesRequest (p : Peer) (td : TorrentData) (disk : Disk) (message : Message) (stack : Stack)
    : Prop :=
  17 ≤ message.bytes.length
  ∧ td.RangeReturns disk (td.chunkOffsetOf message stack) (requestedLength message.bytes) stack
  ∧ p.TailStands

theorem handleMsgRequest_returns_iff
    : (∀ reads, ∃ steps, Returns (p.handleMsgRequest td disk message reads stack steps))
      ↔ p.HandlesRequest td disk message stack := by
  unfold handleMsgRequest HandlesRequest
  by_cases short : message.bytes.length < 17
  · simp only [if_pos short]
    refine iff_of_false (fun returns => ?_) fun handles => absurd handles.1 (by omega)
    obtain ⟨_, returned⟩ := returns fun _ _ => .good
    exact not_returns_error _ returned
  · simp only [if_neg short]
    have length_lt := requestedLength_lt message (by omega)
    rw [and_iff_right (by omega)]
    exact readAndWrite_returns_iff (by omega) fun _ _ => returns_ok _

/-- An answer with a chunk of the metadata fits its buffer, its range can be read, and it can be
written; nothing is answered before the metadata is complete.
-/
def AnswersMetadata (p : Peer) (chunkId : Int) (torrentMetadata : TorrentData) (disk : Disk)
    (stack : Stack)
    : Prop :=
  torrentMetadata.isComplete = true
  → ∃ exit chunkInfo,
      torrentMetadata.getChunkInfo (wrap32 chunkId) stack.chunkInfo = .ok (exit, chunkInfo)
      ∧ (BeNode.dict
            [(ascii "msg_type", .num 1), (ascii "piece", .num chunkId),
              (ascii "total_size", .num (wrap32 torrentMetadata.dataSize))]).encode.length
          + chunkInfo.chunkSize
        ≤ 65535
      ∧ torrentMetadata.RangeReturns disk chunkInfo.chunkOffset chunkInfo.chunkSize stack
      ∧ p.TailStands

theorem handleUtMetadataRequest_returns_iff {chunkId : Int} {torrentMetadata : TorrentData}
    : (∀ reads,
        ∃ steps,
          Returns (p.handleUtMetadataRequest chunkId torrentMetadata disk reads stack steps))
      ↔ p.AnswersMetadata chunkId torrentMetadata disk stack := by
  unfold handleUtMetadataRequest AnswersMetadata
  by_cases complete : torrentMetadata.isComplete = true
  · simp only [if_pos complete]
    rw [forall_prop_of_true complete]
    cases told : torrentMetadata.getChunkInfo (wrap32 chunkId) stack.chunkInfo with
    | error fault =>
        refine iff_of_false (fun returns => ?_) ?_
        · obtain ⟨_, returned⟩ := returns fun _ _ => .good
          exact not_returns_error _ returned
        · rintro ⟨_, _, same, _⟩
          cases same
    | ok info =>
        obtain ⟨exit, chunkInfo⟩ := info
        simp only [bind_of_ok rfl, Except.ok.injEq, Prod.mk.injEq]
        generalize (BeNode.dict
            [(ascii "msg_type", .num 1), (ascii "piece", .num chunkId),
              (ascii "total_size", .num (wrap32 torrentMetadata.dataSize))]).encode = encoded
        by_cases long : 65535 < encoded.length + chunkInfo.chunkSize
        · simp only [if_pos long]
          refine iff_of_false (fun returns => ?_) ?_
          · obtain ⟨_, returned⟩ := returns fun _ _ => .good
            exact not_returns_error _ returned
          · rintro ⟨_, _, ⟨rfl, rfl⟩, fits, _⟩
            omega
        · simp only [if_neg long]
          refine (readAndWrite_returns_iff (by omega) fun _ _ => returns_ok _).trans ?_
          constructor
          · exact fun readable => ⟨exit, chunkInfo, ⟨rfl, rfl⟩, by omega, readable⟩
          · rintro ⟨_, _, ⟨rfl, rfl⟩, _, readable⟩
            exact readable
  · simp only [if_neg complete]
    exact iff_of_true (fun _ => ⟨0, returns_ok _⟩) fun impossible => absurd impossible complete

end Peer

end UvgTorrent

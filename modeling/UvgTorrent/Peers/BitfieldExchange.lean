import UvgTorrent.Peers.BitfieldSizes
import UvgTorrent.Peers.Handshakes

/-! A BITFIELD message from `peer_send_msg_bitfield` of one client to `peer_handle_msg_bitfield` of
another, which sizes its bitfield by the message or by the metadata.
-/

namespace UvgTorrent

open Foundations

namespace Bitfield

variable {field other : Bitfield}

theorem bit_congr (same : field.bytes = other.bytes) (index : Nat)
    : field.bit index = other.bit index := by
  rw [bit, bit, same]

/-- As many bytes as a bitfield has replace them all. -/
theorem copyFrom_whole {bytes : Bytes} (whole : bytes.length = field.bytesCount)
    : ∃ filled,
        field.copyFrom bytes = .ok filled
        ∧ filled.bitCount = field.bitCount
        ∧ filled.bytes = bytes := by
  obtain ⟨filled, copies, counted, same⟩ := copyFrom_of_fits (Nat.le_of_eq whole)
  refine ⟨filled, copies, counted, ?_⟩
  rw [same, overwrite, List.take_zero, List.nil_append, Nat.zero_add, whole, bytesCount,
    List.drop_length, List.append_nil]

end Bitfield

namespace Peer

variable {p next : Peer} {td : TorrentData} {stack : Stack} {field : Bitfield}

-----------------------------------------------------------------------------------------
-- The message
-----------------------------------------------------------------------------------------

/-- The loop over the pieces sets each bit to the answer of `torrent_data_is_piece_complete`, and no
other.
-/
theorem markPieces_answers {remaining first : Nat} {after : Bitfield}
    (sized : first + remaining ≤ field.bitCount) (small : field.bitCount < 2 ^ 64)
    (ran : markPieces td stack remaining first field = .ok after)
    : after.bitCount = field.bitCount
      ∧ ∀ index : Nat,
          if first ≤ index ∧ index < first + remaining then
            td.isPieceComplete index stack = .ok (after.bit index)
          else after.bit index = field.bit index := by
  induction remaining generalizing first field with
  | zero =>
      cases ran
      refine ⟨rfl, fun index => ?_⟩
      rw [if_neg (by omega)]
  | succ remaining ih =>
      obtain ⟨done, answers, ran⟩ := bind_eq_ok.mp ran
      obtain ⟨counted, rest⟩ := ih (by rw [Bitfield.setBit_bitCount]; omega)
        (by rw [Bitfield.setBit_bitCount]; exact small) ran
      refine ⟨counted.trans (Bitfield.setBit_bitCount ..), fun index => ?_⟩
      have later := rest index
      have here : (field.setBit (first : Nat) (if done then 1 else 0)).bit index
          = if first = index then done else field.bit index := by
        cases done with
        | true =>
            rw [if_pos rfl, Bitfield.bit_setBit_one (by omega) (by omega)]
            by_cases same : first = index <;> simp [same]
        | false =>
            rw [if_neg nofun, Bitfield.bit_setBit_zero (by omega) (by omega)]
            by_cases same : first = index <;> simp [same]
      by_cases same : first = index
      · subst same
        rw [if_neg (by omega), here, if_pos rfl] at later
        rw [if_pos (by omega), answers, later]
      · rw [here, if_neg same] at later
        by_cases inside : first + 1 ≤ index ∧ index < first + 1 + remaining
        · rw [if_pos inside] at later
          rw [if_pos (by omega), later]
        · rw [if_neg inside] at later
          rw [if_neg (by omega), later]

/-- The loop over the pieces returns when every piece has an answer. -/
theorem markPieces_returns {remaining first : Nat}
    (answers
      : ∀ piece : Nat,
          piece < first + remaining
          → ∃ done, td.isPieceComplete piece stack = .ok done)
    : ∃ after, markPieces td stack remaining first field = .ok after := by
  induction remaining generalizing first field with
  | zero => exact ⟨field, rfl⟩
  | succ remaining ih =>
      obtain ⟨done, answer⟩ := answers first (by omega)
      obtain ⟨after, ran⟩ : ∃ after,
          markPieces td stack remaining (first + 1)
            (field.setBit (first : Nat) (if done then 1 else 0)) = .ok after :=
        ih fun piece below => answers piece (by omega)
      exact ⟨after, (bind_of_ok answer _).trans ran⟩

/-- The bitfield of a BITFIELD message has a bit for each piece, which tells whether it is complete,
and no others.
-/
structure TellsPieces (td : TorrentData) (stack : Stack) (field : Bitfield) : Prop where
  counted : (field.bitCount : Int) = td.pieceCount
  answers
    : ∀ piece : Nat,
        (piece : Int) < td.pieceCount
        → td.isPieceComplete piece stack = .ok (field.bit piece)
  spareClear : ∀ index, field.bitCount ≤ index → field.bit index = false

theorem sendMsgBitfield_tells (pieces : 0 ≤ td.pieceCount) (fits : td.pieceCount < 2 ^ 31)
    (sent : p.sendMsgBitfield td stack = .ok (next, some field))
    : TellsPieces td stack field := by
  obtain ⟨count, countEq⟩ := Int.eq_ofNat_of_zero_le pieces
  have small : count < 2 ^ 31 := by omega
  obtain ⟨blank, made, counted, clear, spare⟩ := Bitfield.new_spec small 0x00
  unfold sendMsgBitfield at sent
  rw [countEq, u64OfInt_natCast (by omega), made] at sent
  obtain ⟨resized, _, sent⟩ := bind_eq_ok.mp sent
  obtain ⟨marked, marking, sent⟩ := bind_eq_ok.mp sent
  obtain ⟨⟨written, result⟩, _, same⟩ := bind_eq_ok.mp sent
  obtain rfl : marked = field := by
    injection same with same
    injection same with _ same
    split at same
    · exact Option.some.inj same
    · cases same
  rw [Int.toNat_natCast] at marking
  obtain ⟨kept, bits⟩ := markPieces_answers (by omega) (by omega) marking
  refine ⟨by omega, fun piece below => ?_, fun index past => ?_⟩
  · have answer := bits piece
    rwa [if_pos (by omega)] at answer
  · have unset := bits index
    rw [if_neg (by omega)] at unset
    rw [unset]
    by_cases inside : index / 8 < blank.bytesCount
    · rw [spare index (by omega) inside]
      simp [byteBit]
    · have absent : blank.bytes[index / 8]? = none :=
        List.getElem?_eq_none (Nat.le_of_not_lt inside)
      simp [Bitfield.bit, byteBit, List.getD_eq_getElem?_getD, absent]

/-- On an open connection the message is built and written, if every piece has an answer. -/
theorem Opened.sendMsgBitfield {bytes : Bytes} (opened : p.Opened bytes)
    (fits : u64OfInt td.pieceCount < 2 ^ 31)
    (answers
      : ∀ piece : Nat,
          piece < td.pieceCount.toNat
          → ∃ done, td.isPieceComplete piece stack = .ok done)
    : ∃ next field, p.sendMsgBitfield td stack = .ok (next, some field) := by
  obtain ⟨blank, made, -⟩ := Bitfield.new_spec fits 0x00
  obtain ⟨resized, resizing, socket⟩ : ∃ resized,
      { p with msgBitfieldSent := true }.resizeBitfield blank = .ok resized
        ∧ resized.socket = p.socket := by
    unfold resizeBitfield
    dsimp only
    split
    · exact ⟨_, rfl, rfl⟩
    · split
      · rename_i partialField _ short
        obtain ⟨copied, copies, -⟩ := Bitfield.copyFrom_of_fits (Nat.le_of_lt short)
        exact ⟨_, bind_of_ok copies _, rfl⟩
      · exact ⟨_, rfl, rfl⟩
  obtain ⟨marked, marking⟩ : ∃ marked,
      markPieces td stack td.pieceCount.toNat 0 blank = .ok marked :=
    markPieces_returns fun piece below => answers piece (by omega)
  have stillOpen : resized.Opened bytes := by
    unfold Opened
    rwa [socket]
  obtain ⟨next, wrote, -⟩ := stillOpen.write (bitfieldMessage marked)
  refine ⟨next, marked, ?_⟩
  unfold Peer.sendMsgBitfield
  rw [made]
  dsimp only
  rw [bind_of_ok resizing, bind_of_ok marking, bind_of_ok wrote]
  simp

/-- A BITFIELD message is framed. -/
theorem bitfieldMessage_framed (small : field.bitCount < 2 ^ 31)
    : (bitfieldMessage field).length = 4 + ofBe32 ((bitfieldMessage field).take 4) := by
  have bytes := field.bytesCount_eq
  rw [bitfieldMessage, List.append_assoc, List.take_left' (be32_length _), ofBe32_be32 (by omega)]
  simp [Bitfield.bytesCount]
  omega

/-- What stands behind the header of a BITFIELD message. -/
theorem bitfieldMessage_payload (field : Bitfield) : (bitfieldMessage field).drop 5 = field.bytes :=
  rfl

-----------------------------------------------------------------------------------------
-- The receiver
-----------------------------------------------------------------------------------------

theorem Within.peerBitfield_eq {parts : List PeerPart} (within : Within parts p next)
    (quiet : .peerBitfield ∉ parts)
    : next.peerBitfield = p.peerBitfield := by
  refine Foundations.Within.same Peer.peerBitfield (fun part member before after changed => ?_)
    within
  cases changed <;> first | rfl | exact absurd member quiet

/-- The bitfield of a peer reads as the pieces of the data. -/
def Reflects (td : TorrentData) (stack : Stack) (p : Peer) : Prop :=
  ∃ field,
    p.peerBitfield = some field
    ∧ ∀ piece : Nat,
        (piece : Int) < td.pieceCount
        → ∃ done, td.isPieceComplete piece stack = .ok done ∧ field.getBit piece = .ok done

/-- A BITFIELD message on the data of its sender arrives: the receiver's bitfield reads as the
pieces, also behind the resizing of its own `peer_send_msg_bitfield`, and no spare bit is set in the
message.
-/
structure Exchanged (td : TorrentData) (stack : Stack) (receiver : Peer) (known : TorrentData)
    (message : Message)
    : Prop where
  copied
    : ∃ next,
        receiver.copyMsgBitfield known message = .ok (next, .success) ∧ next.Reflects td stack
  handled
    : ∀ env next,
        receiver.handleMsgBitfield known message env = .ok next
        → next.Reflects td stack
  resized
    : ∀ env next later told last,
        receiver.handleMsgBitfield known message env = .ok next
        → later.pieceCount = td.pieceCount
        → next.sendMsgBitfield later env = .ok (last, told)
        → last.Reflects td stack
  spareClear
    : ∀ index : Nat,
        td.pieceCount ≤ index
        → byteBit ((message.bytes.drop 5).getD (index / 8) 0) (index % 8) = false

variable {receiver : Peer} {known : TorrentData} {message : Message}

/-- A new bitfield for the message has as many bytes as it, unless their bits are no `int`. -/
theorem bitfieldTarget_of_fresh (tells : TellsPieces td stack field)
    (small : td.pieceCount < 2 ^ 31) (carries : message.bytes = bitfieldMessage field)
    (fresh : receiver.peerBitfield = none)
    (same : known.needed = true → known.pieceCount = td.pieceCount)
    (room : known.needed = true ∨ td.pieceCount ≤ 2 ^ 31 - 8)
    : ∃ target,
        receiver.bitfieldTarget known message = some target
        ∧ target.bytesCount = field.bytesCount := by
  have counted := tells.counted
  have sized := field.bytesCount_eq
  have length : (message.bytes.drop 5).length = field.bytesCount := by
    rw [carries, bitfieldMessage_payload]
    rfl
  obtain ⟨count, chunkCount, small, bytes⟩ : ∃ count : Nat,
      bitfieldChunkCount known message = count ∧ count < 2 ^ 31
        ∧ (count + 7) / 8 = field.bytesCount := by
    rw [bitfieldChunkCount, length]
    cases needed : known.needed with
    | true =>
        rw [if_pos rfl, same needed]
        exact ⟨field.bitCount, counted.symm, by omega, sized.symm⟩
    | false =>
        have few : td.pieceCount ≤ 2 ^ 31 - 8 := room.resolve_left (by simp [needed])
        rw [if_neg Bool.false_ne_true]
        exact ⟨field.bytesCount * 8, wrap32_natCast (by omega), by omega, by omega⟩
  obtain ⟨target, made, targetCount, -⟩ := Bitfield.new_spec small 0x00
  refine ⟨target, ?_, ?_⟩
  · rw [bitfieldTarget, fresh, Option.none_or, chunkCount, u64OfInt_natCast (by omega), made]
  · rw [target.bytesCount_eq, targetCount, bytes]

/-- A bitfield with the bytes of the message reads as the pieces. -/
theorem TellsPieces.reflects (tells : TellsPieces td stack field) {got : Bitfield}
    (present : p.peerBitfield = some got) (same : got.bytes = field.bytes)
    : p.Reflects td stack := by
  refine ⟨got, present, fun piece below => ⟨field.bit piece, tells.answers piece below, ?_⟩⟩
  have counted := tells.counted
  have sized := field.bytesCount_eq
  have bytes : got.bytesCount = field.bytesCount := by rw [Bitfield.bytesCount, same]; rfl
  rw [Bitfield.getBit_of_inside (by omega), Bitfield.bit_congr same]

/-- The bitfield of a peer is kept by a resizing to as many bytes. -/
theorem sendMsgBitfield_keeps {got : Bitfield} {later : TorrentData} {told : Option Bitfield}
    (present : p.peerBitfield = some got) (pieces : 0 < later.pieceCount)
    (fits : later.pieceCount < 2 ^ 31)
    (sized : (got.bytesCount : Int) = (later.pieceCount + 7) / 8)
    (sent : p.sendMsgBitfield later stack = .ok (next, told))
    : next.peerBitfield = some got := by
  obtain ⟨count, countEq⟩ := Int.eq_ofNat_of_zero_le (Int.le_of_lt pieces)
  obtain ⟨blank, made, counted, -⟩ := Bitfield.new_spec (show count < 2 ^ 31 by omega) 0x00
  have blankSized := blank.bytesCount_eq
  unfold sendMsgBitfield at sent
  rw [countEq, u64OfInt_natCast (by omega), made] at sent
  obtain ⟨resized, resizing, sent⟩ := bind_eq_ok.mp sent
  obtain ⟨marked, _, sent⟩ := bind_eq_ok.mp sent
  obtain ⟨⟨written, result⟩, wrote, same⟩ := bind_eq_ok.mp sent
  cases same
  rw [(write_within wrote).peerBitfield_eq (by simp)]
  simp only [resizeBitfield, present] at resizing
  rw [if_neg (by omega)] at resizing
  cases resizing
  rfl

/-- A message is copied into a new bitfield only where there is room for one. -/
theorem TellsPieces.room_of_copied {exit : Exit} (tells : TellsPieces td stack field)
    (small : td.pieceCount < 2 ^ 31) (carries : message.bytes = bitfieldMessage field)
    (fresh : receiver.peerBitfield = none)
    (copied : receiver.copyMsgBitfield known message = .ok (next, exit))
    : known.needed = true ∨ td.pieceCount ≤ 2 ^ 31 - 8 := by
  have counted := tells.counted
  have sized := field.bytesCount_eq
  by_contra neither
  obtain ⟨unknown, many⟩ := not_or.mp neither
  have length : (message.bytes.drop 5).length = 2 ^ 28 := by
    have bytes : field.bytes.length = field.bytesCount := rfl
    rw [carries, bitfieldMessage_payload]
    omega
  rw [copyMsgBitfield_eq, bitfieldTarget, fresh, bitfieldChunkCount, if_neg unknown, length,
    Option.none_or, Bitfield.new, if_neg (by decide)] at copied
  cases copied

/-- A BITFIELD message arrives at a receiver without a bitfield for the sender if and only if the
receiver knows the number of pieces, or the bits of the message's bytes are an `int`.
-/
theorem exchanged_iff {sender after : Peer} (pieces : 0 < td.pieceCount)
    (small : td.pieceCount < 2 ^ 31)
    (sent : sender.sendMsgBitfield td stack = .ok (after, some field))
    (carries : message.bytes = bitfieldMessage field) (fresh : receiver.peerBitfield = none)
    (same : known.needed = true → known.pieceCount = td.pieceCount)
    : Exchanged td stack receiver known message
      ↔ known.needed = true ∨ td.pieceCount ≤ 2 ^ 31 - 8 := by
  have tells := sendMsgBitfield_tells pieces.le small sent
  have counted := tells.counted
  have sized := field.bytesCount_eq
  have payload : message.bytes.drop 5 = field.bytes := by rw [carries, bitfieldMessage_payload]
  constructor
  · rintro ⟨⟨next, copied, -⟩, -⟩
    exact tells.room_of_copied small carries fresh copied
  · intro room
    obtain ⟨target, made, targetSized⟩ :=
      bitfieldTarget_of_fresh tells small carries fresh same room
    obtain ⟨got, copies, gotCount, gotBytes⟩ := @Bitfield.copyFrom_whole target field.bytes
      (show field.bytes.length = _ from targetSized.symm)
    have copied : receiver.copyMsgBitfield known message
        = .ok ({ receiver with peerBitfield := some got }, .success) := by
      rw [copyMsgBitfield_eq, made, payload]
      exact bind_of_ok copies _
    have handled {env : Stack} {next : Peer}
        (handled : receiver.handleMsgBitfield known message env = .ok next)
        : next.peerBitfield = some got := by
      rw [handleMsgBitfield_eq, bind_of_ok copied] at handled
      rw [(updateInterested_within handled).peerBitfield_eq (by simp)]
    refine ⟨⟨_, copied, tells.reflects rfl gotBytes⟩,
      fun env next done => tells.reflects (handled done) gotBytes, ?_, ?_⟩
    · intro env next later told last done pieceCount sends
      have gotSized : got.bytesCount = field.bytesCount := by
        rw [Bitfield.bytesCount, gotBytes]
        rfl
      refine tells.reflects
        (sendMsgBitfield_keeps (handled done) (by omega) (by omega) ?_ sends) gotBytes
      omega
    · intro index past
      have clear := tells.spareClear index (by omega)
      rwa [Bitfield.bit, ← payload] at clear

-----------------------------------------------------------------------------------------
-- Pieces of one byte
-----------------------------------------------------------------------------------------

/-- A file whose pieces are single bytes, and chunks of the usual size. -/
def bytePieces (count : Nat) : TorrentData := .ofSingleFile none count 1 16384

/-- A chunk that is larger than a piece makes every piece complete. -/
theorem bytePieces_complete {count : Nat} (pieceSize : (bytePieces count).pieceSize = 1)
    (chunkSize : (bytePieces count).chunkSize = 16384) (piece : Int) (stack : Stack)
    : (bytePieces count).isPieceComplete piece stack = .ok true := by
  have none : (wrap32 ((1 / 16384 : Nat) : Int)).tdiv 8 ≤ 0 := by decide
  simp only [TorrentData.isPieceComplete, pieceSize, chunkSize]
  rw [if_neg (by decide), if_pos none]

/-- Witness: nine pieces, and a receiver that does not know their number. -/
theorem exchanged_iff_nine
    : ∃ message : Message,
        message.bytes = [0, 0, 0, 3, 5, 0xFF, 0x80]
        ∧ Exchanged (bytePieces 9) zeroStack (.new 0) (.new [46]) message := by
  have passed : returnsWith (Handshaking.sentPeer.sendMsgBitfield (bytePieces 9) zeroStack)
      (fun result => result.2.any fun field =>
        decide (field.bitCount = 9 ∧ bitfieldMessage field = [0, 0, 0, 3, 5, 0xFF, 0x80]))
      = true := by
    decide +kernel
  obtain ⟨⟨after, told⟩, sent, observed⟩ := exists_ok_of_returnsWith passed
  cases told with
  | none => cases observed
  | some field =>
      obtain ⟨nine, bytes⟩ := of_decide_eq_true observed
      refine ⟨⟨bitfieldMessage field, bitfieldMessage_framed (by omega)⟩, bytes, ?_⟩
      exact (exchanged_iff (by decide +kernel) (by decide +kernel) sent rfl rfl
        (fun needed => absurd needed (by decide))).mpr
        (.inr (by decide +kernel))

/-- With as many pieces as an `int` counts, the message asks for a bitfield of a negative size. -/
theorem largest_bitfield_lost
    : ¬ ∀ (td known : TorrentData) (stack : Stack) (sender after receiver : Peer)
          (field : Bitfield) (message : Message),
        0 < td.pieceCount
        → td.pieceCount < 2 ^ 31
        → sender.sendMsgBitfield td stack = .ok (after, some field)
        → message.bytes = bitfieldMessage field
        → receiver.peerBitfield = none
        → (known.needed = true → known.pieceCount = td.pieceCount)
        → Exchanged td stack receiver known message := by
  intro claim
  have count : (bytePieces 2147483647).pieceCount = 2147483647 := by decide +kernel
  obtain ⟨pieceSize, chunkSize, _⟩ :=
    @TorrentData.SingleFileFits.fields none 2147483647 1 16384 (by decide +kernel)
  obtain ⟨after, field, sent⟩ := Handshaking.sentPeer_opened.sendMsgBitfield
    (show u64OfInt (bytePieces 2147483647).pieceCount < 2 ^ 31 by rw [count]; decide)
    (fun piece _ => ⟨true, bytePieces_complete pieceSize chunkSize piece zeroStack⟩)
  have tells := sendMsgBitfield_tells (by rw [count]; decide) (by rw [count]; decide) sent
  have counted := tells.counted
  rw [count] at counted
  have exchanged := claim (bytePieces 2147483647) (.new [46]) zeroStack Handshaking.sentPeer after
    (.new 0) field ⟨bitfieldMessage field, bitfieldMessage_framed (by omega)⟩
    (by rw [count]; decide) (by rw [count]; decide) sent rfl rfl
    (fun needed => absurd needed (by decide))
  obtain ⟨next, copied, -⟩ := exchanged.copied
  rcases tells.room_of_copied (by rw [count]; decide) rfl rfl copied with needed | few
  · cases needed
  · rw [count] at few
    revert few
    decide

end Peer

end UvgTorrent

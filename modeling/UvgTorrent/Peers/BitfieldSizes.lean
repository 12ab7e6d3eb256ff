import UvgTorrent.Peers.Traffic

/-! The copy of `peer_handle_msg_bitfield`: its length comes from the message, its destination from
whatever made the bitfield of the peer. The size check compares a count with itself.
-/

namespace UvgTorrent

open Foundations

theorem Bitfield.copyFrom_of_fits {field : Bitfield} {bytes : Bytes}
    (fits : bytes.length ≤ field.bytesCount)
    : ∃ filled,
        field.copyFrom bytes = .ok filled
        ∧ filled.bitCount = field.bitCount
        ∧ filled.bytes = overwrite field.bytes 0 bytes := by
  rw [copyFrom, dif_pos fits]
  exact ⟨_, rfl, rfl, rfl⟩

namespace Peer

-----------------------------------------------------------------------------------------
-- The copy
-----------------------------------------------------------------------------------------

/-- `chunk_count` of `peer_handle_msg_bitfield`: the bits of the message, or the pieces of the data
once these are known.
-/
def bitfieldChunkCount (td : TorrentData) (message : Message) : Int :=
  if td.needed then td.pieceCount else wrap32 ((message.bytes.drop 5).length * 8 : Nat)

/-- The bitfield that `peer_handle_msg_bitfield` copies into; `none` when there is no memory for it.
-/
def bitfieldTarget (p : Peer) (td : TorrentData) (message : Message) : Option Bitfield :=
  p.peerBitfield.or (Bitfield.new (u64OfInt (bitfieldChunkCount td message)) 0 0x00)

/-- `peer_handle_msg_bitfield` up to the copy, with its exit code. -/
def copyMsgBitfield (p : Peer) (td : TorrentData) (message : Message)
    : Except Fault (Peer × Exit) :=
  if td.needed ∧ bitfieldChunkCount td message ≠ td.pieceCount then .ok (p, .failure)
  else
    match p.bitfieldTarget td message with
    | none => .error .nullPointer
    | some field =>
        (field.copyFrom (message.bytes.drop 5)).bind fun field =>
          .ok ({ p with peerBitfield := some field }, .success)

variable {p next : Peer} {td : TorrentData} {message : Message} {stack : Stack}

/-- The size check never fails. -/
theorem bitfieldChunkCount_checked (td : TorrentData) (message : Message)
    : ¬ (td.needed ∧ bitfieldChunkCount td message ≠ td.pieceCount) := by
  rintro ⟨needed, differs⟩
  rw [bitfieldChunkCount, if_pos needed] at differs
  exact differs rfl

theorem copyMsgBitfield_eq (p : Peer) (td : TorrentData) (message : Message)
    : p.copyMsgBitfield td message
      = match p.bitfieldTarget td message with
        | none => .error .nullPointer
        | some field =>
            (field.copyFrom (message.bytes.drop 5)).bind fun field =>
              .ok ({ p with peerBitfield := some field }, .success) := by
  rw [copyMsgBitfield, if_neg (bitfieldChunkCount_checked td message)]

/-- The handler is the copy, and then the update of our interest. -/
theorem handleMsgBitfield_eq (p : Peer) (td : TorrentData) (message : Message) (stack : Stack)
    : p.handleMsgBitfield td message stack
      = (p.copyMsgBitfield td message).bind fun
          | (p, .failure) => .ok p
          | (p, .success) => p.updateInterested td stack := by
  have target : p.handleMsgBitfield td message stack
      = match p.bitfieldTarget td message with
        | none => .error .nullPointer
        | some field =>
            (field.copyFrom (message.bytes.drop 5)).bind fun field =>
              { p with peerBitfield := some field }.updateInterested td stack :=
    rfl
  rw [target, copyMsgBitfield_eq]
  cases p.bitfieldTarget td message with
  | none => rfl
  | some field =>
      dsimp only
      cases field.copyFrom (message.bytes.drop 5) <;> rfl

/-- No more is copied than the bitfield holds, and what is longer is rejected. -/
structure RejectsOversized (p : Peer) (td : TorrentData) (message : Message) : Prop where
  within : ∃ result, p.copyMsgBitfield td message = .ok result
  rejects
    : ∀ field,
        p.bitfieldTarget td message = some field
        → field.bytesCount < (message.bytes.drop 5).length
        → ∃ next,
            p.copyMsgBitfield td message = .ok (next, .failure)
            ∧ next.peerBitfield = p.peerBitfield

/-- The bits of the message have room: in the bitfield that is there, or else in one for the pieces
of the data, or as long as their number is an `int`.
-/
def BitfieldFits (p : Peer) (td : TorrentData) (message : Message) : Prop :=
  let length := (message.bytes.drop 5).length
  match p.peerBitfield with
  | some field => length ≤ field.bytesCount
  | none =>
      if td.needed then
        u64OfInt td.pieceCount < 2 ^ 31 ∧ length ≤ (u64OfInt td.pieceCount + 7) / 8
      else length * 8 < 2 ^ 31

/-- A new bitfield has room for some bytes. -/
theorem bitfieldNew_room {count length : Nat}
    : (∃ field ∈ Bitfield.new count 0 0x00, length ≤ field.bytesCount)
      ↔ count < 2 ^ 31 ∧ length ≤ (count + 7) / 8 := by
  by_cases fits : count < 2 ^ 31
  · obtain ⟨field, made, counted, -⟩ := Bitfield.new_spec fits 0x00
    have bytes : field.bytesCount = (count + 7) / 8 := by rw [field.bytesCount_eq, counted]
    rw [and_iff_right fits]
    simp [made, bytes]
  · have unmade : Bitfield.new count 0 0x00 = none := by rw [Bitfield.new, if_neg fits]
    simp only [unmade, fits, false_and, iff_false]
    rintro ⟨field, absent, -⟩
    cases absent

/-- The number of bits, cut to an `int`, has room for them only as long as it is one. -/
theorem messageBits_room {length : Nat}
    : (u64OfInt (wrap32 (length * 8 : Nat)) < 2 ^ 31
          ∧ length ≤ (u64OfInt (wrap32 (length * 8 : Nat)) + 7) / 8)
      ↔ length * 8 < 2 ^ 31 := by
  constructor
  · rintro ⟨small, room⟩
    unfold u64OfInt wrap32 at *
    omega
  · intro fits
    have exact : u64OfInt (wrap32 (length * 8 : Nat)) = length * 8 := by
      rw [wrap32_natCast fits, u64OfInt_natCast (by omega)]
    omega

theorem bitfieldFits_iff_target
    : p.BitfieldFits td message
      ↔ ∃ field ∈ p.bitfieldTarget td message,
          (message.bytes.drop 5).length ≤ field.bytesCount := by
  unfold BitfieldFits bitfieldTarget bitfieldChunkCount
  cases p.peerBitfield with
  | some field => simp
  | none =>
      dsimp only
      rw [Option.none_or, bitfieldNew_room]
      split
      · rfl
      · exact messageBits_room.symm

/-- Nothing is ever rejected, and what is longer is copied all the same. -/
theorem rejectsOversized_iff_fits : p.RejectsOversized td message ↔ p.BitfieldFits td message := by
  rw [bitfieldFits_iff_target]
  constructor
  · rintro ⟨⟨result, copied⟩, -⟩
    rw [copyMsgBitfield_eq] at copied
    cases target : p.bitfieldTarget td message with
    | none =>
        rw [target] at copied
        cases copied
    | some field =>
        rw [target] at copied
        obtain ⟨filled, copies, -⟩ := bind_eq_ok.mp copied
        unfold Bitfield.copyFrom at copies
        split at copies
        · rename_i fits
          exact ⟨field, rfl, fits⟩
        · cases copies
  · rintro ⟨field, target, fits⟩
    obtain ⟨filled, copies, -⟩ := Bitfield.copyFrom_of_fits fits
    constructor
    · refine ⟨({ p with peerBitfield := some filled }, .success), ?_⟩
      rw [copyMsgBitfield_eq, target]
      exact bind_of_ok copies _
    · intro other same longer
      rw [target] at same
      cases same
      omega

-----------------------------------------------------------------------------------------
-- The message of a run
-----------------------------------------------------------------------------------------

/-- The peer and the data that the handler of the message of a run is called with, and the message.
-/
def dispatch (p : Peer) (input : RunInput) : Except Fault (Option (Peer × TorrentData × Bytes)) :=
  (p.runHandshake input.infoHash input.torrentMetadata.dataSize input.outcome.connection).bind fun
    | (_, .failure) => .ok none
    | (p, .success) =>
        (p.runAdverts input.torrentData input.outcome.stack).bind fun (p, _) =>
          (p.runRequests input.torrentMetadata input.torrentData input.outcome).bind
            fun (p, _, torrentData) =>
              p.runChoking.bind fun p =>
                if p.shouldReadMessage then
                  match p.readMessage input.outcome.now with
                  | (_, none) => .ok none
                  | (p, some bytes) => .ok (some (p, torrentData, bytes))
                else .ok none

/-- The message of a run goes to its handler. -/
theorem runOn_of_dispatch {beDecode : BeDecode} {input : RunInput} {result : RunResult} {q : Peer}
    {bytes : Bytes} (ran : p.runOn beDecode input = .ok result)
    (dispatched : p.dispatch input = .ok (some (q, td, bytes)))
    : ∃ framed torrentMetadata next queue,
        q.handleMessage beDecode torrentMetadata td input.disk ⟨bytes, framed⟩ input.outcome
        = .ok (next, queue) := by
  obtain ⟨⟨greeted, exit⟩, greeting, ran⟩ := bind_eq_ok.mp ran
  rw [dispatch, bind_of_ok greeting] at dispatched
  cases exit with
  | failure => cases dispatched
  | success =>
      obtain ⟨⟨told, adverts⟩, telling, ran⟩ := bind_eq_ok.mp ran
      obtain ⟨last, messages, -⟩ := bind_eq_ok.mp ran
      obtain ⟨⟨asked, metadata, after⟩, asking, messages⟩ := bind_eq_ok.mp messages
      obtain ⟨choked, choking, messages⟩ := bind_eq_ok.mp messages
      obtain ⟨⟨read, queued⟩, reading, -⟩ := bind_eq_ok.mp messages
      dsimp only at dispatched
      rw [bind_of_ok telling, bind_of_ok asking] at dispatched
      dsimp only at dispatched
      rw [bind_of_ok choking] at dispatched
      unfold runMessage at reading
      split at dispatched
      · rename_i ready
        rw [if_pos ready] at reading
        split at dispatched
        · cases dispatched
        · rename_i reader message read
          cases dispatched
          rw [read] at reading
          dsimp only at reading
          split at reading
          · rename_i framed
            obtain ⟨⟨next, queue⟩, handled, -⟩ := bind_eq_ok.mp reading
            exact ⟨framed, metadata, next, queue, handled⟩
          · cases reading
      · cases dispatched

end Peer

-----------------------------------------------------------------------------------------
-- Runs of a peer
-----------------------------------------------------------------------------------------

/-- A peer of `peer_new`, which came with a socket when it connected to us. -/
def Peer.start (now : Int) : Option BufferedSocket → Peer
  | none => .new now
  | some socket => (Peer.new now).setSocket socket

/-- One `peer_run`. -/
def Peer.step (beDecode : BeDecode) (p : Peer) (input : RunInput) : Except Fault Peer :=
  (p.runOn beDecode input).map RunResult.peer

/-- A property of the handling of the BITFIELD message that a run reads, if it reads one. -/
def Peer.OnBitfield (holds : Peer → TorrentData → Message → Prop) (p : Peer) (input : RunInput)
    : Prop :=
  ∀ q td message,
    p.dispatch input = .ok (some (q, td, message.bytes))
    → message.bytes[4]? = some 5
    → holds q td message

/-- Over every run of a peer, BITFIELD messages that are too long are rejected, exactly when none is
too long.
-/
theorem Peer.rejectsOversized_iff (beDecode : BeDecode) (now : Int)
    (accepted : Option BufferedSocket) (inputs : List RunInput)
    : Guarded (Peer.step beDecode) (OnBitfield RejectsOversized) (start now accepted) inputs
      ↔ Guarded (Peer.step beDecode) (OnBitfield BitfieldFits) (start now accepted) inputs := by
  have same : RejectsOversized = BitfieldFits := by
    funext p td message
    exact propext rejectsOversized_iff_fits
  rw [same]

/-- A BITFIELD message of one byte. -/
def byteBitfield : Message := ⟨[0, 0, 0, 2, 5, 0xFF], by decide⟩

/-- A remote that sends its handshake, a HAVE and the BITFIELD in one segment. -/
def earlyHave : RunInput :=
  quietInput
    (some
      ⟨Peer.handshakeMessage (.filled 1) ++ haveMessage 0 ++ byteBitfield.bytes,
        by decide +kernel⟩)

/-- Before the pieces are known a HAVE makes a bitfield of no bytes, and the next BITFIELD is copied
behind its end.
-/
theorem Peer.bitfield_overruns
    : ¬ Guarded (Peer.step fun _ => none) (OnBitfield RejectsOversized) (start 0 none)
        [earlyHave, quietInput none] := by
  rintro ⟨-, later⟩
  have passed : returnsWith ((start 0 none).step (fun _ => none) earlyHave) (fun next =>
      returnsWith (next.dispatch (quietInput none)) (fun call =>
        match call with
        | none => false
        | some (q, td, bytes) =>
            decide
              (q.peerBitfield.map (·.bytesCount) = some 0
                ∧ td.needed = false
                ∧ bytes = byteBitfield.bytes)))
      = true := by
    decide +kernel
  obtain ⟨next, stepped, observed⟩ := exists_ok_of_returnsWith passed
  obtain ⟨call, dispatched, observed⟩ := exists_ok_of_returnsWith observed
  cases call with
  | none => cases observed
  | some call =>
      obtain ⟨q, td, bytes⟩ := call
      obtain ⟨empty, -, rfl⟩ := of_decide_eq_true observed
      have rejects := (later next stepped).1 q td byteBitfield dispatched rfl
      have fits := rejectsOversized_iff_fits.mp rejects
      unfold BitfieldFits at fits
      cases present : q.peerBitfield with
      | none =>
          rw [present] at empty
          cases empty
      | some field =>
          simp only [present, Option.map_some, Option.some.injEq] at empty fits
          rw [empty] at fits
          revert fits
          decide

end UvgTorrent

import UvgTorrent.Foundations.Framings
import UvgTorrent.Peers.BitfieldExchange
import UvgTorrent.Peers.EncodedMessages

/-! What a remote peer makes of the bytes that it is sent. It refuses a stream that does not begin
with a handshake for the torrent, a frame that is cut, and a message that tells what it knew.
-/

namespace UvgTorrent

open Foundations

/-- The frames behind a handshake: four bytes tell how many follow. -/
def messageFraming : Framing UInt8 :=
  {
    front := 4
    size := fun front => 4 + ofBe32 front
    positive := by decide
    holdsFront := fun _ => Nat.le_add_right 4 _
  }

/-- What a peer has been told: whether it is choked, whether we are interested, and whether the
BITFIELD has come.
-/
structure Told where
  choking : Bool
  interested : Bool
  bitfield : Bool
  deriving DecidableEq, Repr

/-- A new connection is choked, without interest. -/
def Told.nothing : Told := { choking := true, interested := false, bitfield := false }

/-- A message in the ears of a strict peer. A change of state must change it, a BITFIELD comes at
most once, and a REQUEST only from who is interested. Of each message the fixed part is whole.
-/
def Told.hear (told : Told) (message : Bytes) : Option Told :=
  match message[4]?.map UInt8.toNat with
  -- a keep-alive
  | none => some told
  | some 0 => if told.choking then none else some { told with choking := true }
  | some 1 => if told.choking then some { told with choking := false } else none
  | some 2 => if told.interested then none else some { told with interested := true }
  | some 3 => if told.interested then some { told with interested := false } else none
  | some 4 => if message.length = 9 then some told else none
  | some 5 => if told.bitfield then none else some { told with bitfield := true }
  | some 6 => if message.length = 17 ∧ told.interested then some told else none
  | some 7 => if 13 ≤ message.length then some told else none
  | some 20 => if 6 ≤ message.length then some told else none
  | some _ => none

/-- What a peer has been told by the messages behind the handshake. -/
def Told.listen (told : Told) (stream : Bytes) : Option Told :=
  messageFraming.listen Told.hear told stream

/-- What a peer has been told by all that it was sent on a connection; `none` before the handshake.
-/
def observe (infoHash : InfoHash) (stream : Bytes) : Option (Option Told) :=
  if stream = [] then some none
  else if stream.take 68 = Peer.handshakeMessage infoHash then
    (Told.nothing.listen (stream.drop 68)).map some
  else none

variable {infoHash : InfoHash} {stream message : Bytes} {known after : Told}

theorem Told.listen_message (framed : message.length = 4 + ofBe32 (message.take 4))
    : known.listen message = known.hear message :=
  @Framing.listen_frame _ messageFraming _ _ _ _ framed

theorem observe_nil : observe infoHash [] = some none := if_pos rfl

theorem observe_handshake
    : observe infoHash (Peer.handshakeMessage infoHash) = some (some .nothing) := by
  have length := Peer.handshakeMessage_length infoHash
  have nonempty : Peer.handshakeMessage infoHash ≠ [] := by
    intro empty
    rw [empty] at length
    cases length
  rw [observe, if_neg nonempty, if_pos (List.take_of_length_le (Nat.le_of_eq length)),
    List.drop_of_length_le (Nat.le_of_eq length), Told.listen, Framing.listen_nil]
  rfl

/-- Behind the handshake, what follows is heard by who has heard what was sent. -/
theorem observe_append (before : observe infoHash stream = some (some known))
    (heard : known.listen message = some after)
    : observe infoHash (stream ++ message) = some (some after) := by
  unfold observe at before
  split at before
  · cases before
  · rename_i nonempty
    split at before
    · rename_i greeted
      have length : 68 ≤ stream.length := by
        have sized := congrArg List.length greeted
        rw [List.length_take, Peer.handshakeMessage_length] at sized
        omega
      obtain ⟨known', listened, same⟩ := Option.map_eq_some_iff.mp before
      cases same
      have whole : stream ++ message ≠ [] := fun empty =>
        nonempty (List.append_eq_nil_iff.mp empty).1
      rw [observe, if_neg whole, List.take_append_of_le_length length, if_pos greeted,
        List.drop_append_of_le_length length]
      have goesOn : Told.nothing.listen (stream.drop 68 ++ message) = some after :=
        Framing.listen_append listened heard
      rw [goesOn]
      rfl
    · cases before

-----------------------------------------------------------------------------------------
-- The messages
-----------------------------------------------------------------------------------------

theorem Told.listen_choke (unchoked : known.choking = false)
    : known.listen (basicMessage 0) = some { known with choking := true } := by
  rw [listen_message (by rfl)]
  exact (if_neg (by rw [unchoked]; nofun))

theorem Told.listen_unchoke (choked : known.choking = true)
    : known.listen (basicMessage 1) = some { known with choking := false } := by
  rw [listen_message (by rfl)]
  exact if_pos choked

theorem Told.listen_interested (indifferent : known.interested = false)
    : known.listen (basicMessage 2) = some { known with interested := true } := by
  rw [listen_message (by rfl)]
  exact (if_neg (by rw [indifferent]; nofun))

theorem Told.listen_notInterested (interested : known.interested = true)
    : known.listen (basicMessage 3) = some { known with interested := false } := by
  rw [listen_message (by rfl)]
  exact if_pos interested

theorem Told.listen_have (pieceId : Int) : known.listen (haveMessage pieceId) = some known := by
  have id : (haveMessage pieceId)[4]? = some 4 := rfl
  have length : (haveMessage pieceId).length = 9 := rfl
  have framed : (haveMessage pieceId).length = 4 + ofBe32 ((haveMessage pieceId).take 4) := rfl
  rw [listen_message framed, hear, id]
  exact if_pos length

theorem Told.listen_keepAlive : known.listen (be32 0) = some known := by
  rw [listen_message (by rfl)]
  rfl

theorem Told.listen_bitfield {field : Bitfield} (small : field.bitCount < 2 ^ 31)
    (unsent : known.bitfield = false)
    : known.listen (bitfieldMessage field) = some { known with bitfield := true } := by
  have id : (bitfieldMessage field)[4]? = some 5 := rfl
  rw [listen_message (Peer.bitfieldMessage_framed small), hear, id]
  exact if_neg (by rw [unsent]; nofun)

/-- A REQUEST, whatever its fields. -/
theorem Told.listen_request (index begin length : Nat) (interested : known.interested = true)
    : known.listen (be32 13 ++ [6] ++ be32 index ++ be32 begin ++ be32 length) = some known := by
  rw [listen_message (by rfl)]
  exact if_pos ⟨rfl, interested⟩

theorem Told.listen_piece {request block : Bytes} (long : 13 ≤ request.length)
    (fits : block.length ≤ 2 ^ 32 - 10)
    : known.listen (pieceMessage request block) = some known := by
  obtain ⟨reply, bytes, _⟩ := pieceMessage_framed long fits
  have framed := reply.framed
  rw [bytes] at framed
  have id : (pieceMessage request block)[4]? = some 7 := rfl
  have length := pieceMessage_length long block
  rw [listen_message framed, hear, id]
  exact if_pos (by omega)

theorem Told.listen_extension {extendedMsgId : UInt8} {text : Bytes}
    (small : 2 + text.length < 2 ^ 32)
    : known.listen (Peer.extensionMessage extendedMsgId text) = some known := by
  have id : (Peer.extensionMessage extendedMsgId text)[4]? = some 20 := rfl
  rw [listen_message (extensionMessage_framed small), hear, id]
  exact if_pos (by rw [extensionMessage_length]; omega)

namespace Peer

/-- What we have told a peer. -/
def told (p : Peer) : Told :=
  { choking := p.amChoking, interested := p.amInterested, bitfield := p.msgBitfieldSent }

/-- The bytes that wait to be sent. -/
def outgoing (p : Peer) : Bytes :=
  match p.socket with
  | none => []
  | some socket => socket.pending

end Peer

end UvgTorrent

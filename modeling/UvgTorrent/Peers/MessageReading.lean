import UvgTorrent.Foundations.Scanners
import UvgTorrent.Peers.State

/-! `peer_read_message` of `peer_messages.c`: a reader that resumes after the length, after the
id and inside the payload. Memory for the message is available.
-/

namespace UvgTorrent

open Foundations

/-- `VALID_MSG_IDS`. -/
def validMsgIds : List UInt8 := [0, 1, 2, 3, 4, 5, 6, 7, 8, 9, 20]

/-- `is_valid_msg_id`. -/
def isValidMsgId (msgId : UInt8) : Bool := validMsgIds.contains msgId

namespace Peer

/-- `peer_should_read_message`. -/
def shouldReadMessage (p : Peer) : Bool := p.status == .handshakeComplete && p.canRead

/-- The first stage of `peer_read_message`: whether it goes on, and the peer after it. -/
def loadLength (p : Peer) (now : Int) : Bool × Peer :=
  if p.networkOrderedMsgLengthLoaded then (true, p)
  else
    let (next, readLength, bytes) := p.read 4
    if readLength = 4 then
      (true, { next with networkOrderedMsgLength := bytes, networkOrderedMsgLengthLoaded := true })
    else if readLength = sizeError then (false, next.disconnect now)
    else (false, next)

/-- The second stage of `peer_read_message`. -/
def loadMsgId (p : Peer) (now : Int) : Bool × Peer :=
  if p.msgIdLoaded then (true, p)
  else
    let (next, readLength, bytes) := p.read 1
    if readLength = 1 then (true, { next with msgId := bytes.headD 0, msgIdLoaded := true })
    else if readLength = sizeError then (false, next.disconnect now)
    else (false, next)

/-- The last stage of `peer_read_message`, with the length and the id loaded. A length of four
bytes fits all the integers it is kept in.
-/
def loadPayload (p : Peer) (now : Int) : Peer × Option Bytes :=
  if ¬ isValidMsgId p.msgId then (p.disconnect now, none)
  else
    let msgLength := ofBe32 p.networkOrderedMsgLength
    if msgLength = 0 then (p, none)
    else
      let header := p.networkOrderedMsgLength ++ [p.msgId]
      let totalExpectedBytes := 4 + msgLength - 5
      if 0 < totalExpectedBytes then
        let (next, readLength, bytes) := p.read totalExpectedBytes
        if readLength = sizeError then (next.disconnect now, none)
        else if readLength = 0 then (next, none)
        else (next.clearMessage, some (header ++ bytes))
      else (p.clearMessage, some header)

/-- `peer_read_message`. -/
def readMessage (p : Peer) (now : Int) : Peer × Option Bytes :=
  match p.loadLength now with
  | (false, p) => (p, none)
  | (true, p) =>
      match p.loadMsgId now with
      | (false, p) => (p, none)
      | (true, p) => p.loadPayload now

end Peer

-----------------------------------------------------------------------------------------
-- The framing of the peer wire protocol
-----------------------------------------------------------------------------------------

/-- Where the reader stands: between messages, behind a length, behind a length and an id, or
disconnected.
-/
inductive ReadStage where
  | start
  | length (lengthBytes : Bytes)
  | identified (lengthBytes : Bytes) (msgId : UInt8)
  | closed
  deriving DecidableEq, Repr

/-- One move of the reader on the bytes it has: the length, the id, or the payload. A message
of length 1 is complete with its id, and nothing moves behind a length of 0 and an id.
-/
def frameStep : ReadStage → Bytes → Option (ReadStage × Bytes × List Bytes)
  | .start, input =>
      if 4 ≤ input.length then some (.length (input.take 4), input.drop 4, []) else none
  | .length _, [] => none
  | .length lengthBytes, msgId :: rest =>
      if ¬ isValidMsgId msgId then some (.closed, rest, [])
      else if ofBe32 lengthBytes = 1 then some (.start, rest, [lengthBytes ++ [msgId]])
      else some (.identified lengthBytes msgId, rest, [])
  | .identified lengthBytes msgId, input =>
      let expected := ofBe32 lengthBytes - 1
      if 0 < expected ∧ expected ≤ input.length then
        some
          (.start, input.drop expected, [lengthBytes ++ [msgId] ++ input.take expected])
      else none
  | .closed, _ => none

/-- The reader as a scanner of the received bytes. -/
def frameScanner : Scanner ReadStage UInt8 Bytes :=
  {
    step := frameStep
    stable := by
      intro stage input next rest items stepped more
      cases stage with
      | start =>
          simp only [frameStep] at stepped ⊢
          split at stepped
          · rename_i enough
            cases stepped
            rw [if_pos (by rw [List.length_append]; omega), List.take_append_of_le_length enough,
              List.drop_append_of_le_length enough]
          · cases stepped
      | length lengthBytes =>
          cases input with
          | nil => cases stepped
          | cons msgId tail =>
              simp only [frameStep, List.cons_append] at stepped ⊢
              split at stepped
              · cases stepped
                simp_all
              · split at stepped
                · cases stepped
                  simp_all
                · cases stepped
                  simp_all
      | identified lengthBytes msgId =>
          simp only [frameStep] at stepped ⊢
          split at stepped
          · rename_i enough
            cases stepped
            rw [if_pos ⟨enough.1, by rw [List.length_append]; omega⟩,
              List.take_append_of_le_length enough.2, List.drop_append_of_le_length enough.2]
          · cases stepped
      | closed => cases stepped
    shrinks := by
      intro stage input next rest items stepped
      cases stage with
      | start =>
          simp only [frameStep] at stepped
          split at stepped
          · rename_i enough
            cases stepped
            rw [List.length_drop]
            omega
          · cases stepped
      | length lengthBytes =>
          cases input with
          | nil => cases stepped
          | cons msgId tail =>
              simp only [frameStep] at stepped
              split at stepped
              · cases stepped
                exact Nat.lt_succ_self _
              · split at stepped <;> cases stepped <;> exact Nat.lt_succ_self _
      | identified lengthBytes msgId =>
          simp only [frameStep] at stepped
          split at stepped
          · rename_i enough
            cases stepped
            rw [List.length_drop]
            omega
          · cases stepped
      | closed => cases stepped
  }

namespace Peer

variable {p : Peer} {socket : BufferedSocket} {stage : ReadStage} {input : Bytes} {now : Int}

/-- A peer whose handshake is complete and whose socket is open. -/
structure Handshaken (p : Peer) (socket : BufferedSocket) : Prop where
  status : p.status = .handshakeComplete
  socket_eq : p.socket = some socket
  connected : socket.socket ≠ -1

/-- The partial-message flags and the unread bytes of the peer are those of the stage. -/
inductive Follows (p : Peer) : ReadStage → Bytes → Prop
  | start {socket : BufferedSocket} (open_ : p.Handshaken socket)
    (lengthBytes : p.networkOrderedMsgLength = [0, 0, 0, 0])
    (lengthUnloaded : p.networkOrderedMsgLengthLoaded = false)
    (msgId : p.msgId = 0)
    (idUnloaded : p.msgIdLoaded = false)
    : Follows p .start socket.readBuffer
  | length {socket : BufferedSocket} (open_ : p.Handshaken socket)
    (sized : p.networkOrderedMsgLength.length = 4)
    (lengthLoaded : p.networkOrderedMsgLengthLoaded = true)
    (msgId : p.msgId = 0)
    (idUnloaded : p.msgIdLoaded = false)
    : Follows p (.length p.networkOrderedMsgLength) socket.readBuffer
  | identified {socket : BufferedSocket} (open_ : p.Handshaken socket)
    (sized : p.networkOrderedMsgLength.length = 4)
    (lengthLoaded : p.networkOrderedMsgLengthLoaded = true)
    (idLoaded : p.msgIdLoaded = true)
    (valid : isValidMsgId p.msgId = true)
    (notBare : ofBe32 p.networkOrderedMsgLength ≠ 1)
    : Follows p (.identified p.networkOrderedMsgLength p.msgId) socket.readBuffer
  | closed {input : Bytes} (noSocket : p.socket = none) (status : p.status = .unconnected)
    (lengthBytes : p.networkOrderedMsgLength = [0, 0, 0, 0])
    (lengthUnloaded : p.networkOrderedMsgLengthLoaded = false)
    (msgId : p.msgId = 0)
    (idUnloaded : p.msgIdLoaded = false)
    : Follows p .closed input

/-- The peer after so many of its unread bytes were taken. -/
def consume (p : Peer) (socket : BufferedSocket) (count : Nat) : Peer :=
  { p with socket := some { socket with readBuffer := socket.readBuffer.drop count } }

theorem Handshaken.consume (open_ : p.Handshaken socket) (count : Nat)
    : (p.consume socket count).Handshaken
        { socket with readBuffer := socket.readBuffer.drop count } :=
  ⟨open_.status, rfl, open_.connected⟩

/-- A read takes all the bytes asked for, or none. -/
theorem Handshaken.read_eq (open_ : p.Handshaken socket) (count : Nat)
    : p.read count
      = if socket.readBuffer.length < count then (p, 0, [])
        else (p.consume socket count, count, socket.readBuffer.take count) := by
  have same : { p with socket := some socket } = p := by rw [← open_.socket_eq]
  simp only [Peer.read, open_.socket_eq, BufferedSocket.read, if_neg open_.connected]
  split
  · rw [same]
  · rfl

/-- Disconnecting ends in the closed stage, whatever was loaded. -/
theorem disconnect_follows (p : Peer) (now : Int) (input : Bytes)
    : (p.disconnect now).Follows .closed input :=
  .closed rfl rfl rfl rfl rfl rfl

/-- After a message the reader stands at the start again. -/
theorem clearMessage_follows (open_ : p.Handshaken socket)
    : p.clearMessage.Follows .start socket.readBuffer :=
  .start ⟨open_.status, open_.socket_eq, open_.connected⟩ rfl rfl rfl rfl

/-- A stage that goes on is skipped when the call is made again. -/
theorem readMessage_of_loadLength {next : Peer} (loaded : p.loadLength now = (true, next))
    : p.readMessage now = next.readMessage now := by
  have again : next.loadLength now = (true, next) := by
    unfold loadLength at loaded
    split at loaded
    · rename_i already
      cases loaded
      rw [loadLength, if_pos already]
    · dsimp only at loaded
      split at loaded
      · cases loaded
        rfl
      · split at loaded <;> cases loaded
  rw [readMessage, readMessage, loaded, again]

theorem readMessage_of_loadMsgId {next : Peer} (length : p.loadLength now = (true, p))
    (loaded : p.loadMsgId now = (true, next))
    : p.readMessage now = next.loadPayload now := by
  rw [readMessage, length]
  dsimp only
  rw [loaded]

/-- The result of a call: the stage that is reached with the message it returns. A call that is
blocked changes nothing.
-/
def Advances (p : Peer) (stage : ReadStage) (input : Bytes) (now : Int) : Prop :=
  ∃ stage' rest,
    frameScanner.Reaches stage input (p.readMessage now).2.toList stage' rest
    ∧ (p.readMessage now).1.Follows stage' rest
    ∧ (frameScanner.Blocked stage input → p.readMessage now = (p, none))
    ∧ (¬ frameScanner.Blocked stage input → rest.length < input.length)

/-- A call that waits where it stands. -/
theorem Advances.waits (follows : p.Follows stage input)
    (blocked : frameScanner.Blocked stage input) (call : p.readMessage now = (p, none))
    : p.Advances stage input now := by
  refine ⟨stage, input, ?_, ?_, fun _ => call, fun moves => absurd blocked moves⟩
  · rw [call]
    exact .refl stage input
  · rw [call]
    exact follows

/-- A call that makes the last move of its stage. -/
theorem Advances.ends {next : Peer} {result : Option Bytes} {stage' : ReadStage} {rest : Bytes}
    (stepped : frameScanner.step stage input = some (stage', rest, result.toList))
    (follows : next.Follows stage' rest) (call : p.readMessage now = (next, result))
    : p.Advances stage input now := by
  refine ⟨stage', rest, ?_, ?_, ?_, fun _ => frameScanner.shrinks stepped⟩
  · rw [call]
    exact .one stepped
  · rw [call]
    exact follows
  · intro blocked
    rw [Scanner.Blocked, stepped] at blocked
    cases blocked

/-- A call that makes a move and goes on from there. -/
theorem Advances.goesOn {next : Peer} {stage' : ReadStage} {rest : Bytes}
    (stepped : frameScanner.step stage input = some (stage', rest, []))
    (call : p.readMessage now = next.readMessage now) (later : next.Advances stage' rest now)
    : p.Advances stage input now := by
  obtain ⟨last, final, reaches, follows, _, _⟩ := later
  have shorter := frameScanner.shrinks stepped
  have within := reaches.length_le
  refine ⟨last, final, ?_, ?_, ?_, fun _ => by omega⟩
  · rw [call]
    exact .step stepped reaches
  · rw [call]
    exact follows
  · intro blocked
    rw [Scanner.Blocked, stepped] at blocked
    cases blocked

/-- Behind a length and an id, the whole payload is taken or the call waits. -/
theorem advances_identified (now : Int) (open_ : p.Handshaken socket)
    (sized : p.networkOrderedMsgLength.length = 4)
    (lengthLoaded : p.networkOrderedMsgLengthLoaded = true) (idLoaded : p.msgIdLoaded = true)
    (valid : isValidMsgId p.msgId = true) (notBare : ofBe32 p.networkOrderedMsgLength ≠ 1)
    : p.Advances (.identified p.networkOrderedMsgLength p.msgId) socket.readBuffer now := by
  have length : p.loadLength now = (true, p) := by rw [loadLength, if_pos lengthLoaded]
  have identified : p.loadMsgId now = (true, p) := by rw [loadMsgId, if_pos idLoaded]
  have call := readMessage_of_loadMsgId length identified
  have here : p.Follows (.identified p.networkOrderedMsgLength p.msgId) socket.readBuffer :=
    .identified open_ sized lengthLoaded idLoaded valid notBare
  rw [loadPayload] at call
  simp only [valid, not_true_eq_false, if_false] at call
  have fits := ofBe32_lt sized
  by_cases keepAlive : ofBe32 p.networkOrderedMsgLength = 0
  · rw [if_pos keepAlive] at call
    refine .waits here ?_ call
    simp [Scanner.Blocked, frameScanner, frameStep, keepAlive]
  · have same : 4 + ofBe32 p.networkOrderedMsgLength - 5
        = ofBe32 p.networkOrderedMsgLength - 1 := by omega
    have expected : 0 < ofBe32 p.networkOrderedMsgLength - 1 := by omega
    have noError : ofBe32 p.networkOrderedMsgLength - 1 ≠ sizeError := by
      unfold sizeError
      omega
    rw [if_neg keepAlive, same, if_pos expected, open_.read_eq] at call
    by_cases short : socket.readBuffer.length < ofBe32 p.networkOrderedMsgLength - 1
    · rw [if_pos short] at call
      refine .waits here ?_ call
      rw [Scanner.Blocked, frameScanner]
      simp only [frameStep]
      rw [if_neg (by omega)]
    · rw [if_neg short] at call
      dsimp only at call
      rw [if_neg noError, if_neg (by omega)] at call
      have cleared := clearMessage_follows (open_.consume (ofBe32 p.networkOrderedMsgLength - 1))
      refine .ends ?_ cleared call
      rw [frameScanner]
      simp only [frameStep]
      rw [if_pos ⟨expected, Nat.le_of_not_lt short⟩]
      rfl

/-- Behind a length, the id is taken or the call waits. -/
theorem advances_length (now : Int) (open_ : p.Handshaken socket)
    (sized : p.networkOrderedMsgLength.length = 4)
    (lengthLoaded : p.networkOrderedMsgLengthLoaded = true) (msgId : p.msgId = 0)
    (idUnloaded : p.msgIdLoaded = false)
    : p.Advances (.length p.networkOrderedMsgLength) socket.readBuffer now := by
  have length : p.loadLength now = (true, p) := by rw [loadLength, if_pos lengthLoaded]
  have here : p.Follows (.length p.networkOrderedMsgLength) socket.readBuffer :=
    .length open_ sized lengthLoaded msgId idUnloaded
  have load := open_.read_eq 1
  cases buffered : socket.readBuffer with
  | nil =>
      rw [buffered, if_pos (by simp)] at load
      have call : p.readMessage now = (p, none) := by
        rw [readMessage, length]
        simp [loadMsgId, idUnloaded, load, sizeError]
      rw [buffered] at here
      exact .waits here rfl call
  | cons byte rest =>
      rw [buffered, if_neg (by simp)] at load
      obtain ⟨next, loaded, openNext, nextId, nextIdLoaded, nextLength, nextLengthLoaded⟩
          : ∃ next : Peer,
              p.loadMsgId now = (true, next)
              ∧ next.Handshaken { socket with readBuffer := rest }
              ∧ next.msgId = byte
              ∧ next.msgIdLoaded = true
              ∧ next.networkOrderedMsgLength = p.networkOrderedMsgLength
              ∧ next.networkOrderedMsgLengthLoaded = true := by
        refine ⟨{ p.consume socket 1 with msgId := byte, msgIdLoaded := true }, ?_,
          ⟨open_.status, ?_, open_.connected⟩, rfl, rfl, rfl, lengthLoaded⟩
        · simp [loadMsgId, idUnloaded, load]
        · simp [consume, buffered]
      have call := readMessage_of_loadMsgId length loaded
      by_cases valid : isValidMsgId byte = true
      · by_cases bare : ofBe32 p.networkOrderedMsgLength = 1
        · simp only [loadPayload, nextId, valid, nextLength, bare, not_true_eq_false, if_false,
            one_ne_zero, Nat.reduceAdd, Nat.sub_self, lt_self_iff_false] at call
          refine .ends ?_ (clearMessage_follows openNext) call
          simp [frameScanner, frameStep, valid, bare]
        · have again : next.readMessage now = next.loadPayload now := by
            refine readMessage_of_loadMsgId ?_ ?_
            · rw [loadLength, if_pos nextLengthLoaded]
            · rw [loadMsgId, if_pos nextIdLoaded]
          have later := advances_identified now openNext (by rwa [nextLength])
            nextLengthLoaded nextIdLoaded (by rwa [nextId]) (by rwa [nextLength])
          rw [nextLength, nextId] at later
          refine .goesOn ?_ (call.trans again.symm) later
          simp [frameScanner, frameStep, valid, bare]
      · simp only [loadPayload, nextId, valid] at call
        refine .ends ?_ (disconnect_follows next now rest) call
        simp [frameScanner, frameStep, valid]

/-- Between messages, the length is taken or the call waits. -/
theorem advances_start (now : Int) (open_ : p.Handshaken socket)
    (lengthBytes : p.networkOrderedMsgLength = [0, 0, 0, 0])
    (lengthUnloaded : p.networkOrderedMsgLengthLoaded = false) (msgId : p.msgId = 0)
    (idUnloaded : p.msgIdLoaded = false)
    : p.Advances .start socket.readBuffer now := by
  have here : p.Follows .start socket.readBuffer :=
    .start open_ lengthBytes lengthUnloaded msgId idUnloaded
  have load := open_.read_eq 4
  by_cases short : socket.readBuffer.length < 4
  · rw [if_pos short] at load
    have call : p.readMessage now = (p, none) := by
      simp [readMessage, loadLength, lengthUnloaded, load, sizeError]
    refine .waits here ?_ call
    rw [Scanner.Blocked, frameScanner]
    simp only [frameStep]
    rw [if_neg (by omega)]
  · rw [if_neg short] at load
    obtain ⟨next, loaded, openNext, nextId, nextIdUnloaded, nextLength, nextLengthLoaded⟩
        : ∃ next : Peer,
            p.loadLength now = (true, next)
            ∧ next.Handshaken { socket with readBuffer := socket.readBuffer.drop 4 }
            ∧ next.msgId = 0
            ∧ next.msgIdLoaded = false
            ∧ next.networkOrderedMsgLength = socket.readBuffer.take 4
            ∧ next.networkOrderedMsgLengthLoaded = true := by
      refine
        ⟨{
            p.consume socket 4 with
            networkOrderedMsgLength := socket.readBuffer.take 4
            networkOrderedMsgLengthLoaded := true
          }, ?_, ⟨open_.status, rfl, open_.connected⟩, msgId, idUnloaded, rfl, rfl⟩
      simp [loadLength, lengthUnloaded, load]
    have sized : next.networkOrderedMsgLength.length = 4 := by
      rw [nextLength, List.length_take]
      omega
    have later := advances_length now openNext sized nextLengthLoaded nextId nextIdUnloaded
    rw [nextLength] at later
    refine .goesOn ?_ (readMessage_of_loadLength loaded) later
    rw [frameScanner]
    simp only [frameStep]
    rw [if_pos (by omega)]

/-- Every call of `peer_read_message` on an open connection moves along the framing of the bytes
received so far.
-/
theorem Follows.advances (follows : p.Follows stage input) (open_ : p.socket ≠ none) (now : Int)
    : p.Advances stage input now := by
  cases follows with
  | start open_ lengthBytes lengthUnloaded msgId idUnloaded =>
      exact advances_start now open_ lengthBytes lengthUnloaded msgId idUnloaded
  | length open_ sized lengthLoaded msgId idUnloaded =>
      exact advances_length now open_ sized lengthLoaded msgId idUnloaded
  | identified open_ sized lengthLoaded idLoaded valid notBare =>
      exact advances_identified now open_ sized lengthLoaded idLoaded valid notBare
  | closed noSocket _ _ _ _ _ => exact absurd noSocket open_

end Peer

end UvgTorrent

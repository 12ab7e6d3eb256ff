import UvgTorrent.Peers.MessageReading

/-! Runs of the message reader over a connection: network reads that deliver the stream in
segments, and guarded calls of `peer_read_message` between them.
-/

namespace UvgTorrent

open Foundations

/-- A network read, or a call of `peer_read_message` under its guard in `peer_run`. -/
inductive ReadEvent where
  | arrive (segment : NetworkSegment)
  | call (now : Int)

/-- A peer, the message buffers its reader has returned, and how many it had returned when the
peer was disconnected.
-/
structure Reading where
  peer : Peer
  returned : List Bytes
  closedAfter : Option Nat

/-- The bytes that the events deliver. -/
def arrived (events : List ReadEvent) : Bytes :=
  events.flatMap fun
    | .arrive segment => segment.bytes
    | .call _ => []

namespace Reading

/-- A connection whose handshake was just completed. -/
def start (p : Peer) : Reading := { peer := p, returned := [], closedAfter := none }

def apply (reading : Reading) : ReadEvent → Reading
  | .arrive segment => { reading with peer := reading.peer.networkRead (some segment.bytes) }
  | .call now =>
      if reading.peer.shouldReadMessage then
        let (peer, message) := reading.peer.readMessage now
        let returned := reading.returned ++ message.toList
        let closedAfter := if peer.socket.isNone then some returned.length else none
        { peer, returned, closedAfter }
      else reading

def run (reading : Reading) (events : List ReadEvent) : Reading := events.foldl apply reading

/-- No further call changes anything. -/
def Quiescent (reading : Reading) : Prop := ∀ now, reading.apply (.call now) = reading

/-- The calls so far moved along the framing of the bytes received so far. -/
def Tracks (reading : Reading) (stream : Bytes) : Prop :=
  ∃ stage rest,
    frameScanner.Reaches .start stream reading.returned stage rest
    ∧ reading.peer.Follows stage rest
    ∧ reading.closedAfter
      = if reading.peer.socket.isNone then some reading.returned.length else none

end Reading

/-- Connected after a handshake, with no part of a message loaded. -/
def Peer.AfterHandshake (p : Peer) : Prop := p.Follows .start p.unread

/-- The four fields of a peer that hold a partly read message. -/
def Peer.partialMessage (p : Peer) : Bytes × Bool × UInt8 × Bool :=
  (p.networkOrderedMsgLength, p.networkOrderedMsgLengthLoaded, p.msgId, p.msgIdLoaded)

/-- What a peer holds of a message at a stage of the reader. -/
def ReadStage.partialMessage : ReadStage → Bytes × Bool × UInt8 × Bool
  | .start | .closed => ([0, 0, 0, 0], false, 0, false)
  | .length lengthBytes => (lengthBytes, true, 0, false)
  | .identified lengthBytes msgId => (lengthBytes, true, msgId, true)

namespace Peer

variable {p q : Peer} {socket : BufferedSocket} {stage : ReadStage} {input : Bytes} {now : Int}

theorem Handshaken.unread_eq (open_ : p.Handshaken socket) : p.unread = socket.readBuffer := by
  rw [unread, open_.socket_eq]

theorem Handshaken.shouldReadMessage_iff (open_ : p.Handshaken socket)
    : p.shouldReadMessage = true ↔ socket.readBuffer ≠ [] := by
  simp [shouldReadMessage, canRead, BufferedSocket.canRead, open_.status, open_.socket_eq,
    open_.connected]

/-- An open connection stays open over a network read, which appends the segment. -/
theorem Handshaken.networkRead (open_ : p.Handshaken socket) (segment : NetworkSegment)
    : (p.networkRead (some segment.bytes)).Handshaken
        { socket with readBuffer := socket.readBuffer ++ segment.bytes } := by
  refine ⟨open_.status, ?_, open_.connected⟩
  simp [Peer.networkRead, open_.socket_eq,
    BufferedSocket.networkRead_segment open_.connected segment.fits]

theorem Follows.networkRead (follows : p.Follows stage input) (segment : NetworkSegment)
    : (p.networkRead (some segment.bytes)).Follows stage (input ++ segment.bytes) := by
  cases follows with
  | start open_ lengthBytes lengthUnloaded msgId idUnloaded =>
      exact .start (open_.networkRead segment) lengthBytes lengthUnloaded msgId idUnloaded
  | length open_ sized lengthLoaded msgId idUnloaded =>
      exact .length (open_.networkRead segment) sized lengthLoaded msgId idUnloaded
  | identified open_ sized lengthLoaded idLoaded valid notBare =>
      exact .identified (open_.networkRead segment) sized lengthLoaded idLoaded valid notBare
  | closed noSocket status lengthBytes lengthUnloaded msgId idUnloaded =>
      refine .closed ?_ status lengthBytes lengthUnloaded msgId idUnloaded
      simp [Peer.networkRead, noSocket]

/-- A peer that follows a stage is connected unless the stage is closed. -/
theorem Follows.open_or_closed (follows : p.Follows stage input)
    : (∃ socket, p.Handshaken socket ∧ input = socket.readBuffer ∧ stage ≠ .closed)
      ∨ p.socket = none ∧ p.status = .unconnected ∧ stage = .closed := by
  cases follows with
  | start open_ _ _ _ _ => exact .inl ⟨_, open_, rfl, by simp⟩
  | length open_ _ _ _ _ => exact .inl ⟨_, open_, rfl, by simp⟩
  | identified open_ _ _ _ _ _ => exact .inl ⟨_, open_, rfl, by simp⟩
  | closed noSocket status _ _ _ _ => exact .inr ⟨noSocket, status, rfl⟩

theorem Follows.partialMessage_eq (follows : p.Follows stage input)
    : p.partialMessage = stage.partialMessage := by
  cases follows <;> simp_all [Peer.partialMessage, ReadStage.partialMessage]

/-- Peers at one place of the framing hold the same partial message and unread bytes, and are
both connected or both not.
-/
theorem Follows.agree (left : p.Follows stage input) (right : q.Follows stage input)
    : p.partialMessage = q.partialMessage ∧ p.unread = q.unread
      ∧ p.socket.isNone = q.socket.isNone := by
  have sameSide : p.unread = q.unread ∧ p.socket.isNone = q.socket.isNone := by
    rcases left.open_or_closed with ⟨_, leftOpen, leftUnread, notClosed⟩ | ⟨noLeft, _, closed⟩
    · rcases right.open_or_closed with ⟨_, rightOpen, rightUnread, _⟩ | ⟨_, _, closed⟩
      · refine ⟨?_, by simp [leftOpen.socket_eq, rightOpen.socket_eq]⟩
        rw [leftOpen.unread_eq, rightOpen.unread_eq, ← leftUnread, rightUnread]
      · exact absurd closed notClosed
    · rcases right.open_or_closed with ⟨_, _, _, notClosed⟩ | ⟨noRight, _, _⟩
      · exact absurd closed notClosed
      · simp [unread, noLeft, noRight]
  rw [left.partialMessage_eq, right.partialMessage_eq]
  exact ⟨rfl, sameSide⟩

/-- The reader can go on only where bytes are left, and then its guard holds. -/
theorem Follows.guard_of_moves (follows : p.Follows stage input)
    (moves : ¬ frameScanner.Blocked stage input)
    : p.shouldReadMessage = true := by
  obtain ⟨next, stepped⟩ := Option.ne_none_iff_exists'.mp moves
  obtain ⟨_, rest, items⟩ := next
  have shorter := frameScanner.shrinks stepped
  rcases follows.open_or_closed with ⟨_, open_, rfl, _⟩ | ⟨_, _, rfl⟩
  · apply open_.shouldReadMessage_iff.mpr
    intro empty
    rw [empty] at shorter
    exact absurd shorter (Nat.not_lt_zero _)
  · cases stepped

theorem Follows.socket_of_guard (follows : p.Follows stage input)
    (guard : p.shouldReadMessage = true)
    : p.socket ≠ none := by
  rcases follows.open_or_closed with ⟨_, open_, _, _⟩ | ⟨_, status, _⟩
  · simp [open_.socket_eq]
  · simp [shouldReadMessage, status] at guard

end Peer

-----------------------------------------------------------------------------------------
-- What a run preserves
-----------------------------------------------------------------------------------------

namespace Reading

variable {reading : Reading} {stream : Bytes}

theorem start_tracks {p : Peer} (fresh : p.AfterHandshake) : (start p).Tracks p.unread := by
  refine ⟨.start, p.unread, .refl _ _, fresh, ?_⟩
  rcases fresh.open_or_closed with ⟨_, open_, _, _⟩ | ⟨_, _, closed⟩
  · simp [start, open_.socket_eq]
  · cases closed

/-- A network read extends the stream and moves nothing. -/
theorem Tracks.arrive (tracks : reading.Tracks stream) (segment : NetworkSegment)
    : (reading.apply (.arrive segment)).Tracks (stream ++ segment.bytes) := by
  obtain ⟨stage, rest, reaches, follows, closed⟩ := tracks
  refine ⟨stage, rest ++ segment.bytes, reaches.append segment.bytes,
    follows.networkRead segment, ?_⟩
  simp [apply, Peer.networkRead, closed]

/-- A guarded call moves on from where the earlier calls ended. -/
theorem Tracks.call (tracks : reading.Tracks stream) (now : Int)
    : (reading.apply (.call now)).Tracks stream := by
  by_cases guard : reading.peer.shouldReadMessage = true
  · obtain ⟨stage, rest, reaches, follows, _⟩ := tracks
    obtain ⟨stage', rest', moved, followsNext, _, _⟩ :=
      follows.advances (follows.socket_of_guard guard) now
    simp only [apply, guard, if_true]
    exact ⟨stage', rest', reaches.trans moved, followsNext, rfl⟩
  · simpa [apply, guard] using tracks

theorem Tracks.run {events : List ReadEvent} (tracks : reading.Tracks stream)
    : (reading.run events).Tracks (stream ++ arrived events) := by
  induction events generalizing reading stream with
  | nil => simpa [Reading.run, arrived] using tracks
  | cons event rest ih =>
      cases event with
      | arrive segment =>
          have later := ih (tracks.arrive segment)
          simpa [Reading.run, arrived, List.append_assoc] using later
      | call now =>
          have later := ih (tracks.call now)
          simpa [Reading.run, arrived] using later

/-- A run that cannot change any more has come to the end of the framing. -/
theorem Tracks.ends (tracks : reading.Tracks stream) (quiescent : reading.Quiescent)
    : ∃ stage rest,
        frameScanner.Reaches .start stream reading.returned stage rest
        ∧ reading.peer.Follows stage rest
        ∧ frameScanner.Blocked stage rest := by
  obtain ⟨stage, rest, reaches, follows, _⟩ := tracks
  refine ⟨stage, rest, reaches, follows, ?_⟩
  by_contra moves
  have guard := follows.guard_of_moves moves
  obtain ⟨stage', rest', _, followsNext, _, shorter⟩ :=
    follows.advances (follows.socket_of_guard guard) 0
  have same := congrArg Reading.peer (quiescent 0)
  simp only [apply, guard, if_true] at same
  rw [same] at followsNext
  rcases follows.open_or_closed with ⟨_, open_, rfl, _⟩ | ⟨noSocket, _, _⟩
  · rcases followsNext.open_or_closed with ⟨_, openNext, rfl, _⟩ | ⟨noSocket, _, _⟩
    · have sameBytes := openNext.unread_eq.symm.trans open_.unread_eq
      rw [sameBytes] at shorter
      exact absurd (shorter moves) (Nat.lt_irrefl _)
    · rw [open_.socket_eq] at noSocket
      cases noSocket
  · exact absurd noSocket (follows.socket_of_guard guard)

theorem Tracks.closedAfter_eq (tracks : reading.Tracks stream)
    : reading.closedAfter
      = if reading.peer.socket.isNone then some reading.returned.length else none := by
  obtain ⟨_, _, _, _, closed⟩ := tracks
  exact closed

/-- A call either ends the run or leaves fewer unread bytes. -/
theorem Tracks.quiescent_or_shrinks (tracks : reading.Tracks stream) (now : Int)
    : reading.Quiescent
      ∨ (reading.apply (.call now)).peer.unread.length < reading.peer.unread.length := by
  obtain ⟨stage, rest, _, follows, closed⟩ := tracks
  by_cases blocked : frameScanner.Blocked stage rest
  · refine .inl fun now => ?_
    by_cases guard : reading.peer.shouldReadMessage = true
    · obtain ⟨_, _, _, _, waits, _⟩ := follows.advances (follows.socket_of_guard guard) now
      simp only [apply, guard, if_true, waits blocked, Option.toList_none, List.append_nil]
      rw [← closed]
    · simp [apply, guard]
  · refine .inr ?_
    have guard := follows.guard_of_moves blocked
    obtain ⟨stage', rest', _, followsNext, _, shorter⟩ :=
      follows.advances (follows.socket_of_guard guard) now
    simp only [apply, guard, if_true]
    have before : reading.peer.unread = rest := by
      rcases follows.open_or_closed with ⟨_, open_, rfl, _⟩ | ⟨noSocket, _, _⟩
      · exact open_.unread_eq
      · exact absurd noSocket (follows.socket_of_guard guard)
    rw [before]
    refine Nat.lt_of_le_of_lt ?_ (shorter blocked)
    rcases followsNext.open_or_closed with ⟨_, open_, rfl, _⟩ | ⟨noSocket, _, _⟩
    · rw [open_.unread_eq]
    · simp [Peer.unread, noSocket]

theorem Quiescent.run_calls (quiescent : reading.Quiescent) (clocks : List Int)
    : reading.run (clocks.map .call) = reading := by
  induction clocks with
  | nil => rfl
  | cons now rest ih =>
      rw [List.map_cons, run, List.foldl_cons, quiescent now]
      exact ih

/-- As many calls as there are unread bytes bring every run to its end. -/
theorem Tracks.quiescent_of_calls {clocks : List Int} (tracks : reading.Tracks stream)
    (enough : reading.peer.unread.length ≤ clocks.length)
    : (reading.run (clocks.map .call)).Quiescent := by
  induction clocks generalizing reading with
  | nil =>
      rcases tracks.quiescent_or_shrinks 0 with quiescent | shorter
      · exact quiescent
      · rw [List.length_nil] at enough
        omega
  | cons now rest ih =>
      rcases tracks.quiescent_or_shrinks now with quiescent | shorter
      · rw [quiescent.run_calls]
        exact quiescent
      · rw [List.length_cons] at enough
        exact ih (tracks.call now) (by omega)

end Reading

/-- However one stream is cut into network reads and however often the reader is called between
them, runs that are continued to their end return the same messages, are disconnected after the
same message or not at all, and keep the same partial message and unread bytes. Every run comes
to its end with as many calls as it has unread bytes.
-/
theorem readMessage_segmentation_independent {p q : Peer} {events others : List ReadEvent}
    (left : p.AfterHandshake) (right : q.AfterHandshake)
    (sameStream : p.unread ++ arrived events = q.unread ++ arrived others)
    : let first := (Reading.start p).run events
      let second := (Reading.start q).run others
      (∀ clocks : List Int,
          first.peer.unread.length ≤ clocks.length → (first.run (clocks.map .call)).Quiescent)
      ∧ (first.Quiescent
        → second.Quiescent
        → first.returned = second.returned
          ∧ first.closedAfter = second.closedAfter
          ∧ first.peer.partialMessage = second.peer.partialMessage
          ∧ first.peer.unread = second.peer.unread) := by
  intro first second
  have tracksFirst : first.Tracks (p.unread ++ arrived events) := (Reading.start_tracks left).run
  have tracksSecond : second.Tracks (q.unread ++ arrived others) :=
    (Reading.start_tracks right).run
  refine ⟨fun clocks enough => tracksFirst.quiescent_of_calls enough, ?_⟩
  intro firstEnds secondEnds
  have firstClosed := tracksFirst.closedAfter_eq
  have secondClosed := tracksSecond.closedAfter_eq
  obtain ⟨stage, rest, reaches, follows, blocked⟩ := tracksFirst.ends firstEnds
  obtain ⟨stage', rest', reaches', follows', blocked'⟩ := tracksSecond.ends secondEnds
  rw [← sameStream] at reaches'
  obtain ⟨returned, rfl, rfl⟩ := reaches.unique blocked reaches' blocked'
  obtain ⟨samePartial, sameUnread, sameSide⟩ := follows.agree follows'
  refine ⟨returned, ?_, samePartial, sameUnread⟩
  rw [firstClosed, secondClosed, returned, sameSide]

/-- A handshaken peer with these bytes in its read buffer. -/
def handshakenPeer (buffered : Bytes) : Peer :=
  {
    (Peer.new 0) with
    socket := some { BufferedSocket.new with socket := 3, readBuffer := buffered }
    status := .handshakeComplete
  }

theorem handshakenPeer_afterHandshake (buffered : Bytes)
    : (handshakenPeer buffered).AfterHandshake :=
  .start ⟨rfl, rfl, by simp⟩ rfl rfl rfl rfl

/-- Witness: an unchoke message that is cut inside its length, and one delivered whole. -/
theorem readMessage_segmentation_independent_unchoke
    : let first := (Reading.start (handshakenPeer [0, 0])).run
        [.call 1, .arrive ⟨[0, 1, 1], by decide⟩, .call 2]
      let second := (Reading.start (handshakenPeer [])).run
        [.arrive ⟨[0, 0, 0, 1, 1], by decide⟩, .call 1]
      first.returned = second.returned
      ∧ first.closedAfter = second.closedAfter
      ∧ first.peer.partialMessage = second.peer.partialMessage
      ∧ first.peer.unread = second.peer.unread :=
  (readMessage_segmentation_independent (handshakenPeer_afterHandshake [0, 0])
    (handshakenPeer_afterHandshake []) (by decide)).2 (fun _ => rfl) (fun _ => rfl)

-----------------------------------------------------------------------------------------
-- Well-formed streams
-----------------------------------------------------------------------------------------

/-- A frame of the peer wire protocol: a keep-alive, or a message with a valid id whose length
fits its field.
-/
inductive Frame where
  | keepAlive
  | message (msgId : UInt8) (payload : Bytes) (valid : isValidMsgId msgId = true)
    (fits : payload.length + 1 < 2 ^ 32)

namespace Frame

/-- The frame on the wire; `peer_send_keepalive` sends the length 0. -/
def bytes : Frame → Bytes
  | keepAlive => be32 0
  | message msgId payload _ _ => be32 (payload.length + 1) ++ [msgId] ++ payload

/-- The buffer that a reader is to return for the frame. -/
def content : Frame → Option Bytes
  | keepAlive => none
  | message msgId payload valid fits => some (message msgId payload valid fits).bytes

/-- The bytes of the frames, one behind the other. -/
def stream (frames : List Frame) : Bytes := frames.flatMap bytes

/-- A message is read back as its own bytes. -/
theorem reaches_message (msgId : UInt8) (payload : Bytes) (valid : isValidMsgId msgId = true)
    (fits : payload.length + 1 < 2 ^ 32) (rest : Bytes)
    : frameScanner.Reaches .start ((message msgId payload valid fits).bytes ++ rest)
        [(message msgId payload valid fits).bytes] .start rest := by
  have length : frameScanner.step .start ((message msgId payload valid fits).bytes ++ rest)
      = some (.length (be32 (payload.length + 1)), msgId :: (payload ++ rest), []) := by
    simp [frameScanner, frameStep, bytes, be32]
  refine .step length ?_
  cases payload with
  | nil =>
      refine .one ?_
      simp [frameScanner, frameStep, bytes, valid, ofBe32_be32]
  | cons byte payload =>
      have decoded : ofBe32 (be32 ((byte :: payload).length + 1)) = payload.length + 2 := by
        rw [ofBe32_be32 fits, List.length_cons]
      have identified : frameScanner.step (.length (be32 ((byte :: payload).length + 1)))
            (msgId :: (byte :: payload ++ rest))
          = some
              (.identified (be32 ((byte :: payload).length + 1)) msgId, byte :: payload ++ rest,
                []) := by
        simp only [frameScanner, frameStep, valid, not_true_eq_false, if_false, decoded]
        rw [if_neg (by omega)]
      refine .step identified (.one ?_)
      simp only [frameScanner, frameStep, decoded, bytes]
      rw [if_pos (by simp), show payload.length + 2 - 1 = (byte :: payload).length from rfl,
        List.take_left, List.drop_left]

/-- Messages without a keep-alive among them are all read back. -/
theorem reaches_messages {frames : List Frame} (noKeepAlive : keepAlive ∉ frames) (rest : Bytes)
    : frameScanner.Reaches .start (stream frames ++ rest) (frames.filterMap content) .start
        rest := by
  induction frames with
  | nil => exact Scanner.Reaches.refl ReadStage.start rest
  | cons frame later ih =>
      rw [List.mem_cons, not_or] at noKeepAlive
      cases frame with
      | keepAlive => exact absurd rfl noKeepAlive.1
      | message msgId payload valid fits =>
          have first := reaches_message msgId payload valid fits (stream later ++ rest)
          have both := first.trans (ih noKeepAlive.2)
          simpa [stream, content, List.append_assoc] using both

/-- A keep-alive leaves its length loaded. What comes next is taken for an id, behind which
nothing is read, or ends the connection.
-/
theorem reaches_keepAlive (later : List Frame)
    : ∃ stage rest,
        frameScanner.Reaches .start (keepAlive.bytes ++ stream later) [] stage rest
        ∧ frameScanner.Blocked stage rest
        ∧ (stage.partialMessage.2.1 = true ∨ later.filterMap content ≠ []) := by
  have length : frameScanner.step .start (keepAlive.bytes ++ stream later)
      = some (.length [0, 0, 0, 0], stream later, []) := by
    simp [frameScanner, frameStep, bytes, be32]
  cases later with
  | nil => exact ⟨_, _, .one length, rfl, .inl rfl⟩
  | cons frame later =>
      cases frame with
      | keepAlive =>
          refine ⟨.identified [0, 0, 0, 0] 0, [0, 0, 0] ++ stream later,
            .step length (.one ?_), ?_, .inl rfl⟩
          · simp [frameScanner, frameStep, stream, bytes, be32, isValidMsgId, validMsgIds,
              ofBe32]
          · simp [Scanner.Blocked, frameScanner, frameStep, ofBe32]
      | message msgId payload valid fits =>
          have content : (message msgId payload valid fits :: later).filterMap content ≠ [] := by
            simp [content]
          obtain ⟨byte, tail, cut⟩
              : ∃ byte tail, stream (message msgId payload valid fits :: later)
                  = byte :: tail := ⟨_, _, rfl⟩
          rw [cut] at length ⊢
          by_cases asId : isValidMsgId byte = true
          · refine ⟨.identified [0, 0, 0, 0] byte, tail, .step length (.one ?_), ?_,
              .inr content⟩
            · simp [frameScanner, frameStep, asId, ofBe32]
            · simp [Scanner.Blocked, frameScanner, frameStep, ofBe32]
          · refine ⟨.closed, tail, .step length (.one ?_), rfl, .inr content⟩
            simp [frameScanner, frameStep, asId]

end Frame

/-- The reader has returned exactly the messages among the frames, and nothing is left of the
stream in the peer.
-/
def Reading.AcceptsFrames (reading : Reading) (frames : List Frame) : Prop :=
  reading.returned = frames.filterMap Frame.content
  ∧ reading.peer.unread = []
  ∧ reading.peer.networkOrderedMsgLengthLoaded = false
  ∧ reading.peer.msgIdLoaded = false

/-- However a well-formed stream is cut into network reads, calls of the reader come to an end,
and they end with exactly its messages returned if and only if no keep-alive is in it.
-/
theorem readMessage_acceptsFrames_iff {p : Peer} {frames : List Frame} {events : List ReadEvent}
    (fresh : p.AfterHandshake) (wellFormed : p.unread ++ arrived events = Frame.stream frames)
    : let reading := (Reading.start p).run events
      (∀ clocks : List Int,
          reading.peer.unread.length ≤ clocks.length
          → (reading.run (clocks.map .call)).Quiescent)
      ∧ (reading.Quiescent → (reading.AcceptsFrames frames ↔ Frame.keepAlive ∉ frames)) := by
  intro reading
  have tracks : reading.Tracks (p.unread ++ arrived events) := (Reading.start_tracks fresh).run
  refine ⟨fun clocks enough => tracks.quiescent_of_calls enough, fun quiescent => ?_⟩
  obtain ⟨stage, rest, reaches, follows, blocked⟩ := tracks.ends quiescent
  rw [wellFormed] at reaches
  constructor
  · intro accepted member
    -- the messages before the first keep-alive are read, and the reader stops behind it
    obtain ⟨front, later, rfl, noKeepAlive⟩ := List.eq_append_cons_of_mem member
    obtain ⟨stage', rest', wedged, blocked', visible⟩ := Frame.reaches_keepAlive later
    have path := (Frame.reaches_messages noKeepAlive _).trans wedged
    have split : Frame.stream (front ++ .keepAlive :: later)
        = Frame.stream front ++ (Frame.keepAlive.bytes ++ Frame.stream later) := by
      simp [Frame.stream]
    rw [split] at reaches
    obtain ⟨returned, rfl, rfl⟩ := reaches.unique blocked path blocked'
    obtain ⟨all, _, lengthUnloaded, _⟩ := accepted
    have held := follows.partialMessage_eq
    rcases visible with lengthLoaded | missing
    · rw [← held] at lengthLoaded
      rw [show reading.peer.networkOrderedMsgLengthLoaded = true from lengthLoaded]
        at lengthUnloaded
      cases lengthUnloaded
    · rw [returned] at all
      exact missing (by simpa [Frame.content] using all)
  · intro noKeepAlive
    have path := Frame.reaches_messages noKeepAlive []
    rw [List.append_nil] at path
    obtain ⟨returned, rfl, rfl⟩ := reaches.unique blocked path rfl
    have held := follows.partialMessage_eq
    rcases follows.open_or_closed with ⟨_, open_, unread, _⟩ | ⟨_, _, closed⟩
    · simp only [Peer.partialMessage, ReadStage.partialMessage, Prod.mk.injEq] at held
      exact ⟨returned, open_.unread_eq.trans unread.symm, held.2.1, held.2.2.2⟩
    · cases closed

/-- Witness: a choke and an unchoke message that arrive together. -/
theorem readMessage_acceptsFrames_iff_two
    : let frames : List Frame :=
        [.message 0 [] (by decide) (by decide), .message 1 [] (by decide) (by decide)]
      let reading := (Reading.start (handshakenPeer [])).run
        [.arrive ⟨[0, 0, 0, 1, 0, 0, 0, 0, 1, 1], by decide⟩, .call 1, .call 2]
      reading.Quiescent ∧ reading.AcceptsFrames frames := by
  refine ⟨fun _ => rfl, ?_⟩
  refine ((readMessage_acceptsFrames_iff (handshakenPeer_afterHandshake []) (by decide)).2
    (fun _ => rfl)).mpr ?_
  simp

/-- An unchoke message behind a keep-alive is never returned: its bytes stay in the buffer. -/
theorem readMessage_wedged_by_keepAlive
    : let frames : List Frame := [.keepAlive, .message 1 [] (by decide) (by decide)]
      let reading := (Reading.start (handshakenPeer [])).run
        [.arrive ⟨[0, 0, 0, 0, 0, 0, 0, 1, 1], by decide⟩, .call 1]
      (handshakenPeer []).AfterHandshake
      ∧ Frame.stream frames = [0, 0, 0, 0, 0, 0, 0, 1, 1]
      ∧ reading.Quiescent
      ∧ reading.returned = []
      ∧ reading.peer.unread = [0, 0, 1, 1]
      ∧ ¬ reading.AcceptsFrames frames :=
  ⟨handshakenPeer_afterHandshake [], rfl, fun _ => rfl, rfl, rfl, fun accepted => by
    cases accepted.1⟩

end UvgTorrent

import UvgTorrent.Downloads.Integrity
import UvgTorrent.Peers.BitfieldExchange
import UvgTorrent.Peers.Framing
import UvgTorrent.Peers.RunEffects
import UvgTorrent.Torrents.BlockPlacement

/-! What peers are told about pieces. A BITFIELD message is sent once on a connection and only while
data is needed; a HAVE message is queued for the peers that are handshaken when a piece is written.
Together they cover every piece unless the BITFIELD is withheld.
-/

namespace UvgTorrent

open Foundations

namespace TorrentData

variable {sha1 : Bytes → Digest} {td next : TorrentData} {disk : Disk} {chunk piece : Nat}
  {data : Bytes} {io : Nat → FileOutcome} {result : WriteResult}

/-- A piece for which `torrent_data_is_piece_complete` returns 1. -/
def HasPiece (td : TorrentData) (piece : Nat) : Prop :=
  (piece : Int) < td.pieceCount ∧ ∀ stack, td.isPieceComplete piece stack = .ok true

/-- An initialised struct whose pieces the code can tell apart: chunks fill whole bytes, and no
count is cut by its `int`.
-/
structure Tracked (td : TorrentData) : Prop where
  ready : td.Initialised
  aligned : td.Aligned
  exactCounts : td.ExactCounts

namespace Tracked

theorem isPieceComplete_iff (tracked : td.Tracked) (inRange : (piece : Int) < td.pieceCount)
    (stack : Stack)
    : ∃ done, td.isPieceComplete piece stack = .ok done ∧ (done = true ↔ td.AllChunks piece) := by
  obtain ⟨field, completed, valid⟩ := tracked.ready.completed_field
  have below : piece < td.pieceTotal := by
    rw [tracked.exactCounts.pieces] at inRange
    exact_mod_cast inRange
  have fits := tracked.exactCounts.pieceTotal_lt
  have reached := tracked.aligned.exists_chunk tracked.ready tracked.exactCounts below
  refine ⟨_, tracked.ready.isPieceComplete_eq below completed stack, ?_⟩
  rw [tracked.aligned.pieceDone_iff tracked.ready valid reached]
  simp only [AllChunks, completedBit_eq completed]

/-- A piece is had when it is one of the data's and all its chunks are marked. -/
theorem hasPiece_iff (tracked : td.Tracked)
    : td.HasPiece piece ↔ (piece : Int) < td.pieceCount ∧ td.AllChunks piece := by
  refine and_congr_right fun inRange => ?_
  constructor
  · intro complete
    obtain ⟨done, answers, all⟩ := tracked.isPieceComplete_iff inRange
      zeroStack
    rw [complete] at answers
    exact all.mp (Except.ok.inj answers).symm
  · intro all stack
    obtain ⟨done, answers, complete⟩ := tracked.isPieceComplete_iff inRange stack
    rw [answers, complete.mpr all]

/-- The answer of `torrent_data_is_piece_complete` for a piece in range. -/
theorem isPieceComplete_eq (tracked : td.Tracked) (inRange : (piece : Int) < td.pieceCount)
    (stack : Stack)
    : ∃ done, td.isPieceComplete piece stack = .ok done ∧ (done = true ↔ td.HasPiece piece) := by
  obtain ⟨done, answers, all⟩ := tracked.isPieceComplete_iff inRange stack
  refine ⟨done, answers, ?_⟩
  rw [all, tracked.hasPiece_iff]
  simp [inRange]

theorem step (tracked : td.Tracked) (inRange : chunk < td.chunkTotal)
    (step : ChunkStep sha1 td disk chunk data io result)
    : result.td.Tracked :=
  {
    ready := step.initialised tracked.ready inRange
    aligned := step.setup.aligned tracked.aligned
    exactCounts := step.setup.exactCounts tracked.exactCounts
  }

/-- A step loses no piece. -/
theorem hasPiece_mono (tracked : td.Tracked) (inRange : chunk < td.chunkTotal)
    (step : ChunkStep sha1 td disk chunk data io result) (had : td.HasPiece piece)
    : result.td.HasPiece piece := by
  have same := step.setup
  obtain ⟨below, all⟩ := tracked.hasPiece_iff.mp had
  refine (tracked.step inRange step).hasPiece_iff.mpr ⟨by rw [same.pieceCount]; exact below, ?_⟩
  intro other otherBelow inPiece
  rw [same.chunkTotal] at otherBelow
  rw [same.pieceOf] at inPiece
  exact step.completedBit_mono tracked.ready inRange (all other otherBelow inPiece)

/-- A piece that a step gives is that of its chunk, which was the last one missing. -/
theorem hasPiece_new (tracked : td.Tracked) (inRange : chunk < td.chunkTotal)
    (step : ChunkStep sha1 td disk chunk data io result) (has : result.td.HasPiece piece)
    (lacked : ¬ td.HasPiece piece)
    : piece = td.pieceOf chunk ∧ td.Accepts chunk data ∧ td.LastMissing chunk := by
  have same := step.setup
  obtain ⟨below, all⟩ := (tracked.step inRange step).hasPiece_iff.mp has
  rw [same.pieceCount] at below
  have accepted : td.Accepts chunk data := by
    by_contra refused
    rw [step.eq_of_refused refused] at has
    exact lacked has
  by_cases own : piece = td.pieceOf chunk
  · rw [own] at all
    exact ⟨own, accepted, step.lastMissing tracked.ready inRange all⟩
  · refine absurd (tracked.hasPiece_iff.mpr ⟨below, ?_⟩) lacked
    exact step.allChunks_of_ne tracked.ready inRange own all

/-- A successful step has completed the piece of its chunk. -/
theorem of_success (tracked : td.Tracked) (inRange : chunk < td.chunkTotal)
    (step : ChunkStep sha1 td disk chunk data io result) (success : result.exit = .success)
    : td.Accepts chunk data ∧ td.LastMissing chunk ∧ result.td.HasPiece (td.pieceOf chunk) := by
  obtain ⟨accepted, last⟩ : td.Accepts chunk data ∧ td.LastMissing chunk := by
    cases step with
    | refused reason => cases success
    | held stores unfinished => cases success
    | rejected judged => cases success
    | abandoned judged ran stopped => cases success
    | finished judged ran notThrown whole =>
        have missing := judged.stores.accepted.1
        exact ⟨judged.stores.accepted,
          (tracked.aligned.completes_iff tracked.ready inRange judged.stores.field missing).mp
            judged.completes⟩
  have same := step.setup
  refine ⟨accepted, last, (tracked.step inRange step).hasPiece_iff.mpr ⟨?_, ?_⟩⟩
  · rw [same.pieceCount, tracked.exactCounts.pieces]
    exact_mod_cast tracked.ready.pieceOf_lt inRange
  · intro other below inPiece
    rw [same.chunkTotal] at below
    rw [same.pieceOf] at inPiece
    rw [step.completedBit_iff tracked.ready inRange]
    rcases last other below inPiece with rfl | set
    · exact .inr ⟨rfl, accepted⟩
    · exact .inl set

/-- Claims do not change what is had. -/
theorem claims (tracked : td.Tracked) (frame : td.SameButClaims next)
    (ready : next.Initialised)
    : next.Tracked ∧ ∀ piece, next.HasPiece piece ↔ td.HasPiece piece := by
  obtain ⟨_, ⟨divides, fits⟩, ⟨chunks, pieces, total⟩⟩ := tracked
  rw [frame] at ready ⊢
  exact ⟨⟨ready, ⟨divides, fits⟩, ⟨chunks, pieces, total⟩⟩, fun piece => Iff.rfl⟩

end Tracked

end TorrentData

-----------------------------------------------------------------------------------------
-- The messages on pieces of one run
-----------------------------------------------------------------------------------------

namespace Peer

variable {p next : Peer} {td : TorrentData} {stack : Stack}

/-- On an open socket the whole queue is sent. Induction on the ids that are left. -/
theorem sendHaves_spec {ids sent : List Int} {exit : Exit} (opened : p.takesWrites)
    (queue : p.progressQueue = ids) (ran : sendHaves ids p = .ok (next, exit, sent))
    : exit = .success ∧ sent = ids ∧ p.SameLink { next with progressQueue := p.progressQueue }
      ∧ next.progressQueue = [] := by
  induction ids generalizing p next exit sent with
  | nil =>
      cases ran
      exact ⟨rfl, rfl, ⟨rfl, rfl, rfl, rfl⟩, queue⟩
  | cons pieceId rest ih =>
      obtain ⟨⟨written, result⟩, wrote, ran⟩ := bind_eq_ok.mp ran
      have kept := write_link wrote
      have length : result = 9 := by
        rcases write_result wrote with ⟨_, whole⟩ | ⟨closed, _⟩
        · simpa [haveMessage] using whole
        · exact absurd opened closed
      dsimp only at ran
      rw [if_neg (by simp [length])] at ran
      obtain ⟨⟨last, later, ids⟩, sends, same⟩ := bind_eq_ok.mp ran
      cases same
      have stillOpen : written.takesWrites := kept.takesWrites opened
      obtain ⟨success, all, link, empty⟩ := ih stillOpen kept.progressQueue sends
      refine ⟨success, by rw [all], ?_, empty⟩
      exact ⟨link.descriptor.trans kept.descriptor, link.status.trans kept.status, rfl,
        link.msgBitfieldSent.trans kept.msgBitfieldSent⟩

/-- On an open socket the BITFIELD message is sent, and nothing else about the peer changes. -/
theorem sendMsgBitfield_link {sent : Option Bitfield} (opened : p.takesWrites)
    (ran : p.sendMsgBitfield td stack = .ok (next, sent))
    : p.SameLink { next with msgBitfieldSent := p.msgBitfieldSent }
      ∧ next.msgBitfieldSent = true
      ∧ ∃ field, sent = some field := by
  unfold sendMsgBitfield at ran
  split at ran
  · cases ran
  · obtain ⟨resized, resizing, ran⟩ := bind_eq_ok.mp ran
    obtain ⟨field, _, ran⟩ := bind_eq_ok.mp ran
    obtain ⟨⟨written, result⟩, wrote, same⟩ := bind_eq_ok.mp ran
    have resizes : SameLink { p with msgBitfieldSent := true } resized :=
      (resizeBitfield_within resizing).link (by simp)
    have link := resizes.trans (write_link wrote)
    have whole : result = (bitfieldMessage field).length := by
      rcases write_result wrote with ⟨_, whole⟩ | ⟨closed, _⟩
      · exact whole
      · exact absurd (resizes.takesWrites opened) closed
    cases same
    exact ⟨⟨link.descriptor, link.status, link.progressQueue, rfl⟩, link.msgBitfieldSent, field,
      by rw [if_pos whole]⟩

/-- The BITFIELD message has the bits of the pieces that are had, and no others. -/
theorem sendMsgBitfield_spec (tracked : td.Tracked) (opened : p.takesWrites)
    {sent : Option Bitfield} (ran : p.sendMsgBitfield td stack = .ok (next, sent))
    : p.SameLink { next with msgBitfieldSent := p.msgBitfieldSent }
      ∧ next.msgBitfieldSent = true
      ∧ ∃ field, sent = some field ∧ ∀ piece, field.bit piece = true ↔ td.HasPiece piece := by
  have fits := tracked.exactCounts.pieceTotal_lt
  have count := tracked.exactCounts.pieces
  obtain ⟨link, told, field, rfl⟩ := sendMsgBitfield_link opened ran
  have tells := sendMsgBitfield_tells (by omega) (by omega) ran
  refine ⟨link, told, field, rfl, fun piece => ?_⟩
  by_cases inRange : (piece : Int) < td.pieceCount
  · obtain ⟨done, answers, has⟩ := tracked.isPieceComplete_eq inRange stack
    rw [tells.answers piece inRange] at answers
    cases answers
    exact has
  · have counted := tells.counted
    rw [tells.spareClear piece (by omega)]
    constructor
    · nofun
    · intro has
      exact absurd has.1 inRange

/-- `peer_send_msg_have` under its guard: the queue is sent, and nothing else is said. -/
theorem runHaves_spec {sent : List Int} (handshaken : p.status = .handshakeComplete)
    (opened : p.takesWrites)
    (ran : (if p.shouldSendMsgHave then p.sendMsgHave td stack else .ok (p, [])) = .ok (next, sent))
    : sent = p.progressQueue
      ∧ p.SameLink { next with progressQueue := p.progressQueue }
      ∧ next.progressQueue = [] := by
  split at ran
  · obtain ⟨⟨drained, exit, ids⟩, sends, ran⟩ := bind_eq_ok.mp ran
    obtain ⟨rfl, rfl, link, empty⟩ := sendHaves_spec opened rfl sends
    obtain ⟨told, updates, same⟩ := bind_eq_ok.mp ran
    cases same
    have kept := updateInterested_link updates
    exact ⟨rfl,
      ⟨kept.descriptor.trans link.descriptor, kept.status.trans link.status, rfl,
        kept.msgBitfieldSent.trans link.msgBitfieldSent⟩, kept.progressQueue.trans empty⟩
  · rename_i nothing
    cases ran
    have empty : p.progressQueue = [] := by simpa [shouldSendMsgHave, handshaken] using nothing
    exact ⟨empty.symm, ⟨rfl, rfl, rfl, rfl⟩, empty⟩

/-- A handshaken peer is told of the queued pieces, and by the BITFIELD of all pieces that are had.
-/
theorem runAdverts_spec (tracked : td.Tracked) (state : p.LinkState)
    (handshaken : p.status = .handshakeComplete) {adverts : List Advert}
    (ran : p.runAdverts td stack = .ok (next, adverts))
    : next.LinkState
      ∧ next.status = .handshakeComplete
      ∧ next.progressQueue = []
      ∧ ∀ piece,
          (∃ advert ∈ adverts, advert.names piece = true)
          ↔ (∃ pieceId ∈ p.progressQueue, u32 (u64OfInt pieceId) = piece)
            ∨ p.shouldSendMsgBitfield td = true ∧ td.HasPiece piece := by
  obtain ⟨⟨drained, ids⟩, drains, ran⟩ := bind_eq_ok.mp ran
  have opened := state.opened (.inr handshaken)
  obtain ⟨rfl, link, empty⟩ := runHaves_spec handshaken opened drains
  have stillOpen : drained.takesWrites := link.takesWrites opened
  have status : drained.status = .handshakeComplete := link.status.trans handshaken
  have guard : drained.shouldSendMsgBitfield td = p.shouldSendMsgBitfield td := by
    have unsent : drained.msgBitfieldSent = p.msgBitfieldSent := link.msgBitfieldSent
    simp only [shouldSendMsgBitfield, unsent, status, handshaken]
  dsimp only at ran
  rw [guard] at ran
  split at ran
  · rename_i sends
    obtain ⟨⟨told, field⟩, telling, same⟩ := bind_eq_ok.mp ran
    cases same
    obtain ⟨kept, _, bits, rfl, has⟩ := sendMsgBitfield_spec tracked stillOpen telling
    have statusNext : told.status = .handshakeComplete := kept.status.trans status
    have openNext : told.takesWrites := kept.takesWrites stillOpen
    refine ⟨⟨fun _ => openNext, fun other => absurd statusNext other⟩, statusNext,
      kept.progressQueue.trans empty, fun piece => ?_⟩
    simp [Advert.names, has piece, sends, or_and_right, exists_or]
  · rename_i withheld
    cases ran
    refine ⟨⟨fun _ => stillOpen, fun other => absurd status other⟩, status, empty,
      fun piece => ?_⟩
    simp [Advert.names, withheld]

/-- A peer without a handshake is told nothing. -/
theorem runAdverts_idle {adverts : List Advert} (waiting : p.status ≠ .handshakeComplete)
    (ran : p.runAdverts td stack = .ok (next, adverts))
    : next = p ∧ adverts = [] := by
  have noHave : p.shouldSendMsgHave = false := by simp [shouldSendMsgHave, waiting]
  have noBitfield : p.shouldSendMsgBitfield td = false := by
    simp [shouldSendMsgBitfield, waiting]
  unfold runAdverts at ran
  rw [noHave] at ran
  obtain ⟨⟨same, sent⟩, kept, ran⟩ := bind_eq_ok.mp ran
  cases kept
  dsimp only at ran
  rw [noBitfield] at ran
  cases ran
  exact ⟨rfl, rfl⟩

end Peer

-----------------------------------------------------------------------------------------
-- Data messages and runs in any order
-----------------------------------------------------------------------------------------

/-- A torrent with its peers, and what each peer was told of pieces on its current connection. -/
structure Swarm where
  torrent : Torrent
  disk : Disk
  advertised : CString → List Advert

/-- A whole `torrent_process_data_chunk`, or a whole `peer_run` of the peer with this address. -/
inductive SwarmEvent where
  | data (message : Message) (env : WriteEnv)
  | run (ip : CString) (outcome : RunOutcome)

namespace Swarm

/-- A piece that the peer was told of on its current connection. -/
def Advertised (s : Swarm) (ip : CString) (piece : Nat) : Prop :=
  ∃ advert ∈ s.advertised ip, advert.names piece = true

/-- What was said on the connection that a run of the peer works on: nothing when it is new. -/
def carried (s : Swarm) (ip : CString) (p : Peer) (outcome : RunOutcome) : List Advert :=
  if p.shouldConnect outcome.connection.now then [] else s.advertised ip

section

variable (beDecode : BeDecode) (sha1 : Bytes → Digest) (infoHash : InfoHash)

/-- One event. An address without a peer runs nothing. -/
def step (s : Swarm) : SwarmEvent → Except Fault Swarm
  | .data message env =>
      (s.torrent.processDataChunk sha1 s.disk message env).bind fun (torrent, disk, _) =>
        .ok { s with torrent, disk }
  | .run ip outcome =>
      match s.torrent.peers.find ip with
      | none => .ok s
      | some p =>
          (p.run beDecode infoHash s.torrent.torrentMetadata s.torrent.torrentData s.disk
              outcome).bind fun result =>
            .ok
              {
                torrent :=
                  {
                    s.torrent with
                    torrentMetadata := result.torrentMetadata
                    torrentData := result.torrentData
                    peers := ((s.torrent.peers.get ip).2.set ip result.peer).2
                  }
                disk := s.disk
                advertised := Function.update s.advertised ip
                  (s.carried ip p outcome ++ result.adverts)
              }

/-- A block that completes its piece is of the piece that its message names, if a peer can be told;
and the piece is validated and written, if the BITFIELD of a peer went out without it.
-/
def TellsOwnPiece (s : Swarm) (message : Message) (env : WriteEnv) : Prop :=
  ∀ (chunk : Nat) (result : WriteResult),
    s.torrent.torrentData.chunkIdOf message.index message.begin env.stack = .ok chunk
    → s.torrent.torrentData.Accepts chunk message.block
    → s.torrent.torrentData.LastMissing chunk
    → s.torrent.torrentData.processPiece sha1 s.disk message env = .ok result
    → ∀ ip p,
        s.torrent.peers.find ip = some p
        → (p.msgBitfieldSent = true → result.exit = .success)
          ∧ (p.status = .handshakeComplete
            → result.exit = .success
            → message.index = s.torrent.torrentData.pieceOf chunk)

/-- Where the BITFIELD is withheld because no data is needed, HAVE messages tell of every piece that
there is.
-/
def TellsWithoutBitfield (s : Swarm) (ip : CString) (outcome : RunOutcome) : Prop :=
  ∀ p next,
    s.torrent.peers.find ip = some p
    → p.runHandshake infoHash s.torrent.torrentMetadata.dataSize outcome.connection
      = .ok (next, .success)
    → next.status = .handshakeComplete
    → next.msgBitfieldSent = false
    → s.torrent.torrentData.needed = false
    → ∀ piece : Nat,
        s.torrent.torrentData.HasPiece piece
        → (piece : Int) ∈ next.progressQueue
          ∨ ∃ advert ∈ s.carried ip p outcome, advert.names piece = true

/-- The condition on an event. -/
def Tells (s : Swarm) : SwarmEvent → Prop
  | .data message env => s.TellsOwnPiece sha1 message env
  | .run ip outcome => s.TellsWithoutBitfield infoHash ip outcome

/-- What is advertised is what there is, behind a run that leaves its peer handshaken with nothing
queued.
-/
def Honest (s : Swarm) : SwarmEvent → Prop
  | .data _ _ => True
  | .run ip outcome =>
      ∀ next p,
        s.step beDecode sha1 infoHash (.run ip outcome) = .ok next
        → next.torrent.peers.find ip = some p
        → p.status = .handshakeComplete
        → p.progressQueue = []
        → ∀ piece, next.Advertised ip piece ↔ next.torrent.torrentData.HasPiece piece

end

/-- Right after the data is initialized: its pieces can be told apart, every peer is listed, and no
peer was told anything yet, whether it is handshaken or not.
-/
structure Start (s : Swarm) : Prop where
  initialised : s.torrent.torrentData.JustInitialised
  aligned : s.torrent.torrentData.Aligned
  exactCounts : s.torrent.torrentData.ExactCounts
  listed : ∀ ip p, s.torrent.peers.find ip = some p → ip ∈ s.torrent.peerIps
  links : ∀ ip p, s.torrent.peers.find ip = some p → p.LinkState
  unqueued : ∀ ip p, s.torrent.peers.find ip = some p → p.progressQueue = []
  unsent : ∀ ip p, s.torrent.peers.find ip = some p → p.msgBitfieldSent = false
  untold : ∀ ip, s.advertised ip = []

/-- How a peer stands: what it was told or will be told is there, and behind its BITFIELD it was or
will be told of all that is there.
-/
structure PeerStanding (td : TorrentData) (p : Peer) (adverts : List Advert) : Prop where
  linkState : p.LinkState
  queued : ∀ pieceId ∈ p.progressQueue, ∃ piece : Nat, pieceId = piece ∧ td.HasPiece piece
  sound : ∀ advert ∈ adverts, ∀ piece, advert.names piece = true → td.HasPiece piece
  covered
    : p.msgBitfieldSent = true
      → ∀ piece : Nat,
          td.HasPiece piece
          → (piece : Int) ∈ p.progressQueue ∨ ∃ advert ∈ adverts, advert.names piece = true

/-- The invariant of a run. -/
structure Standing (s : Swarm) : Prop where
  tracked : s.torrent.torrentData.Tracked
  listed : ∀ ip p, s.torrent.peers.find ip = some p → ip ∈ s.torrent.peerIps
  peers
    : ∀ ip p,
        s.torrent.peers.find ip = some p
        → PeerStanding s.torrent.torrentData p (s.advertised ip)

theorem Start.standing {s : Swarm} (start : s.Start) : s.Standing := by
  have fresh := start.initialised.fresh
  have counted : 0 ≤ s.torrent.torrentData.chunkCount := by
    by_contra negative
    have none : s.torrent.torrentData.chunkTotal = 0 := by
      unfold TorrentData.chunkTotal
      omega
    have positive := fresh.chunkSize_pos
    have fits := fresh.chunkSize_lt
    have chunks := start.exactCounts.chunks
    rw [none, eq_comm, Nat.div_eq_zero_iff_lt positive] at chunks
    have count := fresh.chunkCount
    rw [u64Sub_of_le positive fits, u64_of_lt (by omega),
      Nat.div_eq_of_lt (by omega)] at count
    simp [wrap32] at count
    omega
  have divides := start.aligned.divides
  refine
    {
      tracked :=
        {
          ready := fresh.initialised counted (fun chunk => fresh.pieceOf_fits divides)
          aligned := start.aligned
          exactCounts := start.exactCounts
        }
      listed := start.listed
      peers := fun ip p found => ?_
    }
  refine
    {
      linkState := start.links ip p found
      queued := fun pieceId member => ?_
      sound := fun advert member => ?_
      covered := fun sent => ?_
    }
  · rw [start.unqueued ip p found] at member
    cases member
  · rw [start.untold ip] at member
    cases member
  · rw [start.unsent ip p found] at sent
    cases sent

-----------------------------------------------------------------------------------------
-- A run of a peer
-----------------------------------------------------------------------------------------

section

variable {beDecode : BeDecode} {sha1 : Bytes → Digest} {infoHash : InfoHash} {s next : Swarm}
  {td : TorrentData} {p : Peer} {adverts : List Advert}

/-- A connection that is kept or dropped leaves the peer's standing, also when claims are laid. -/
theorem PeerStanding.of_effect {after : TorrentData} {later : Peer}
    (standing : PeerStanding td p adverts) (effect : p.LinkEffect later)
    (has : ∀ piece, after.HasPiece piece ↔ td.HasPiece piece)
    : PeerStanding after later adverts := by
  have proceeds := effect.proceeds standing.linkState
  refine
    {
      linkState := proceeds.linkState
      queued := fun pieceId member => ?_
      sound := fun advert member piece named =>
        (has piece).mpr (standing.sound advert member piece named)
      covered := fun sent piece had => ?_
    }
  · rw [proceeds.progressQueue] at member
    obtain ⟨piece, same, had⟩ := standing.queued pieceId member
    exact ⟨piece, same, (has piece).mpr had⟩
  · rw [proceeds.progressQueue]
    exact standing.covered (proceeds.msgBitfieldSent sent) piece ((has piece).mp had)

/-- The handshake starts a connection without news, or goes on with one. -/
theorem PeerStanding.handshake {later : Peer} {outcome : RunOutcome} {ip : CString}
    (standing : PeerStanding td p (s.advertised ip)) (proceeds : p.Proceeds later)
    : PeerStanding td later (s.carried ip p outcome) := by
  refine
    {
      linkState := proceeds.linkState
      queued := by
        rw [proceeds.progressQueue]
        exact standing.queued
      sound := fun advert member => ?_
      covered := fun sent piece had => ?_
    }
  · unfold carried at member
    split at member
    · cases member
    · exact standing.sound advert member
  · have before := proceeds.msgBitfieldSent sent
    have handshaken : p.status = .handshakeComplete := by
      by_contra waiting
      rw [standing.linkState.unsent waiting] at before
      cases before
    have goesOn : p.shouldConnect outcome.connection.now = false := by
      simp [Peer.shouldConnect, handshaken]
    rw [proceeds.progressQueue, carried, goesOn]
    exact standing.covered before piece had

/-- Behind its messages on pieces a handshaken peer was told exactly what there is. -/
theorem PeerStanding.told {later : Peer} {new : List Advert} {stack : Stack}
    (standing : PeerStanding td p adverts) (tracked : td.Tracked)
    (handshaken : p.status = .handshakeComplete)
    (covers
      : p.msgBitfieldSent = false
        → td.needed = false
        → ∀ piece : Nat,
            td.HasPiece piece
            → (piece : Int) ∈ p.progressQueue ∨ ∃ advert ∈ adverts, advert.names piece = true)
    (ran : p.runAdverts td stack = .ok (later, new))
    : later.LinkState
      ∧ later.progressQueue = []
      ∧ ∀ piece, (∃ advert ∈ adverts ++ new, advert.names piece = true) ↔ td.HasPiece piece := by
  obtain ⟨linkState, _, empty, names⟩ :=
    Peer.runAdverts_spec tracked standing.linkState handshaken ran
  have small (piece : Nat) (has : td.HasPiece piece) : piece < 2 ^ 31 := by
    have below := has.1
    have fits := tracked.exactCounts.pieceTotal_lt
    rw [tracked.exactCounts.pieces] at below
    omega
  have wire (piece : Nat) (has : td.HasPiece piece) : u32 (u64OfInt (piece : Nat)) = piece := by
    have bound := small piece has
    rw [u64OfInt_natCast (by omega)]
    exact Nat.mod_eq_of_lt (by omega)
  refine ⟨linkState, empty, fun piece => ?_⟩
  constructor
  · rintro ⟨advert, member, named⟩
    rcases List.mem_append.mp member with older | newer
    · exact standing.sound advert older piece named
    · rcases (names piece).mp ⟨advert, newer, named⟩ with ⟨pieceId, queued, same⟩ | ⟨_, has⟩
      · obtain ⟨other, rfl, has⟩ := standing.queued pieceId queued
        rw [wire other has] at same
        rwa [← same]
      · exact has
  · intro has
    have queuedOrTold : p.shouldSendMsgBitfield td = true
        ∨ (piece : Int) ∈ p.progressQueue
        ∨ ∃ advert ∈ adverts, advert.names piece = true := by
      cases sent : p.msgBitfieldSent with
      | true => exact .inr (standing.covered sent piece has)
      | false =>
          cases needed : td.needed with
          | true => exact .inl (by simp [Peer.shouldSendMsgBitfield, handshaken, sent, needed])
          | false => exact .inr (covers sent needed piece has)
    rcases queuedOrTold with sends | queued | ⟨advert, member, named⟩
    · obtain ⟨advert, member, named⟩ := (names piece).mpr (.inr ⟨sends, has⟩)
      exact ⟨advert, List.mem_append_right _ member, named⟩
    · obtain ⟨advert, member, named⟩ :=
        (names piece).mpr (.inl ⟨piece, queued, wire piece has⟩)
      exact ⟨advert, List.mem_append_right _ member, named⟩
    · exact ⟨advert, List.mem_append_left _ member, named⟩

/-- A whole `peer_run` keeps the standing of its peer, and leaves a handshaken peer with exactly
what there is.
-/
theorem PeerStanding.run {ip : CString} {torrentMetadata : TorrentData} {disk : Disk}
    {outcome : RunOutcome} {result : RunResult}
    (standing : PeerStanding td p (s.advertised ip)) (tracked : td.Tracked)
    (covers
      : ∀ later,
          p.runHandshake infoHash torrentMetadata.dataSize outcome.connection
            = .ok (later, .success)
          → later.status = .handshakeComplete
          → later.msgBitfieldSent = false
          → td.needed = false
          → ∀ piece : Nat,
              td.HasPiece piece
              → (piece : Int) ∈ later.progressQueue
                ∨ ∃ advert ∈ s.carried ip p outcome, advert.names piece = true)
    (ran : p.run beDecode infoHash torrentMetadata td disk outcome = .ok result)
    : result.torrentData.Tracked
      ∧ (∀ piece, result.torrentData.HasPiece piece ↔ td.HasPiece piece)
      ∧ PeerStanding result.torrentData result.peer (s.carried ip p outcome ++ result.adverts)
      ∧ (result.peer.status = .handshakeComplete
        → ∀ piece,
            (∃ advert ∈ s.carried ip p outcome ++ result.adverts, advert.names piece = true)
            ↔ td.HasPiece piece) := by
  obtain ⟨⟨greeted, exit⟩, greeting, ran⟩ := bind_eq_ok.mp ran
  obtain ⟨proceeds, failed⟩ := Peer.runHandshake_proceeds standing.linkState greeting
  have begun : PeerStanding td greeted (s.carried ip p outcome) := standing.handshake proceeds
  cases exit with
  | failure =>
      cases ran
      have stopped : greeted.LinkEffect { greeted with running := false } :=
        .same ⟨rfl, rfl, rfl, rfl⟩
      refine ⟨tracked, fun _ => Iff.rfl, ?_, fun handshaken => ?_⟩
      · rw [List.append_nil]
        exact begun.of_effect stopped (fun _ => Iff.rfl)
      · rw [show greeted.status = .unconnected from failed rfl] at handshaken
        cases handshaken
  | success =>
      obtain ⟨⟨told, new⟩, telling, ran⟩ := bind_eq_ok.mp ran
      obtain ⟨rest, others, same⟩ := bind_eq_ok.mp ran
      cases same
      obtain ⟨effect, claims, ready⟩ := Peer.runMessages_effect others
      obtain ⟨tracked', has⟩ := tracked.claims claims (ready tracked.ready)
      by_cases handshaken : greeted.status = .handshakeComplete
      · obtain ⟨linkState, empty, all⟩ := begun.told tracked handshaken
          (covers greeted greeting handshaken) telling
        have standing' : PeerStanding td told (s.carried ip p outcome ++ new) :=
          {
            linkState
            queued := fun pieceId member => by rw [empty] at member; cases member
            sound := fun advert member piece named => (all piece).mp ⟨advert, member, named⟩
            covered := fun _ piece had => .inr ((all piece).mpr had)
          }
        exact ⟨tracked', has, standing'.of_effect effect has, fun _ => all⟩
      · obtain ⟨rfl, rfl⟩ := Peer.runAdverts_idle handshaken telling
        rw [List.append_nil]
        refine ⟨tracked', has, begun.of_effect effect has, fun final => ?_⟩
        rcases effect with kept | dropped
        · exact absurd (kept.status.symm.trans final) handshaken
        · rw [dropped.status] at final
          cases final

theorem Standing.run {ip : CString} {outcome : RunOutcome} (standing : s.Standing)
    (tells : s.TellsWithoutBitfield infoHash ip outcome)
    (stepped : s.step beDecode sha1 infoHash (.run ip outcome) = .ok next)
    : next.Standing
      ∧ ∀ p,
          next.torrent.peers.find ip = some p
          → p.status = .handshakeComplete
          → ∀ piece, next.Advertised ip piece ↔ next.torrent.torrentData.HasPiece piece := by
  unfold step at stepped
  dsimp only at stepped
  split at stepped
  · rename_i absent
    cases stepped
    refine ⟨standing, fun p found => ?_⟩
    rw [absent] at found
    cases found
  · rename_i p found
    obtain ⟨result, ran, same⟩ := bind_eq_ok.mp stepped
    cases same
    obtain ⟨tracked, has, peer, all⟩ := (standing.peers ip p found).run standing.tracked
      (fun later => tells p later found) ran
    refine
      ⟨⟨tracked, fun other q bound => ?_, fun other q bound => ?_⟩, fun q bound done piece => ?_⟩
    · rw [HashMap.find_set_get] at bound
      split at bound
      · rename_i same
        rw [same]
        exact standing.listed ip p found
      · exact standing.listed other q bound
    · rw [HashMap.find_set_get] at bound
      dsimp only
      split at bound
      · rename_i same
        obtain rfl := Option.some.inj bound
        rw [same, Function.update_self]
        exact peer
      · rename_i apart
        rw [Function.update_of_ne apart]
        exact (standing.peers other q bound).of_effect (.same (.refl q)) has
    · rw [HashMap.find_set_get, if_pos rfl] at bound
      obtain rfl := Option.some.inj bound
      unfold Advertised
      dsimp only
      rw [Function.update_self, has piece]
      exact all done piece

-----------------------------------------------------------------------------------------
-- A data message
-----------------------------------------------------------------------------------------

/-- A peer with copies of an id put into its queue. -/
def queueCopies (p : Peer) (pieceId : Int) (count : Nat) : Peer :=
  { p with progressQueue := p.progressQueue ++ List.replicate count pieceId }

/-- The loop over the peers queues the id for each handshaken peer that is listed. -/
theorem queueHave_tells {pieceId : Int} {ips : List CString} {peers after : HashMap Peer}
    (queued : Torrent.queueHave pieceId ips peers = .ok after) {ip : CString} {later : Peer}
    (found : after.find ip = some later)
    : ∃ old count,
        peers.find ip = some old
        ∧ later = queueCopies old pieceId count
        ∧ (old.status = .handshakeComplete → ip ∈ ips → 0 < count)
        ∧ (old.status ≠ .handshakeComplete → count = 0) := by
  induction ips generalizing peers with
  | nil =>
      cases queued
      exact ⟨later, 0, found, by simp [queueCopies], by simp, by simp⟩
  | cons first rest ih =>
      unfold Torrent.queueHave at queued
      split at queued
      · cases queued
      · rename_i p map taken
        have stored : peers.find first = some p := by rw [← HashMap.get_fst, taken]
        have map_eq : map = (peers.get first).2 := by rw [taken]
        obtain ⟨middle, count, bound, same, enough, none⟩ := ih queued
        rw [map_eq, HashMap.find_set_get] at bound
        split at bound
        · rename_i here
          obtain rfl := Option.some.inj bound
          rw [here]
          by_cases handshaken : p.status = .handshakeComplete
          · rw [if_pos handshaken] at same
            refine ⟨p, count + 1, stored, ?_, fun _ _ => Nat.succ_pos count,
              fun waiting => absurd handshaken waiting⟩
            rw [same, queueCopies, queueCopies, List.replicate_succ]
            simp
          · rw [if_neg handshaken] at same none
            exact ⟨p, count, stored, same, fun other => absurd other handshaken, none⟩
        · rename_i apart
          refine ⟨middle, count, bound, same, fun handshaken member => enough handshaken ?_, none⟩
          exact (List.mem_cons.mp member).resolve_left apart

/-- What `torrent_process_data_chunk` does with the peers, by the exit of the write. -/
theorem processDataChunk_tells {t after : Torrent} {disk disk' : Disk} {message : Message}
    {env : WriteEnv} {report : Option PieceReport}
    (processed : t.processDataChunk sha1 disk message env = .ok (after, disk', report))
    : ∃ result,
        t.torrentData.processPiece sha1 disk message env = .ok result
        ∧ after.torrentData = result.td
        ∧ after.peerIps = t.peerIps
        ∧ ∀ ip later,
            after.peers.find ip = some later
            → ∃ old count,
                t.peers.find ip = some old
                ∧ later = queueCopies old (wrap32 message.index) count
                ∧ (0 < count → old.status = .handshakeComplete ∧ result.exit = .success)
                ∧ (result.exit = .success
                  → old.status = .handshakeComplete
                  → ip ∈ t.peerIps
                  → 0 < count) := by
  obtain ⟨result, wrote, processed⟩ := bind_eq_ok.mp processed
  refine ⟨result, wrote, ?_⟩
  cases exit : result.exit with
  | failure =>
      rw [exit] at processed
      cases processed
      exact ⟨rfl, rfl, fun ip later found =>
        ⟨later, 0, found, by simp [queueCopies], by simp, nofun⟩⟩
  | success =>
      rw [exit] at processed
      obtain ⟨peers, queued, same⟩ := bind_eq_ok.mp processed
      cases same
      refine ⟨rfl, rfl, fun ip later found => ?_⟩
      obtain ⟨old, count, bound, same, enough, none⟩ := queueHave_tells queued found
      refine ⟨old, count, bound, same, fun some => ⟨?_, rfl⟩, fun _ => enough⟩
      by_contra waiting
      rw [none waiting] at some
      cases some

theorem Standing.data {message : Message} {env : WriteEnv} (standing : s.Standing)
    (tells : s.TellsOwnPiece sha1 message env)
    (stepped : s.step beDecode sha1 infoHash (.data message env) = .ok next)
    : next.Standing := by
  obtain ⟨⟨after, disk, report⟩, processed, same⟩ := bind_eq_ok.mp stepped
  cases same
  obtain ⟨result, wrote, data, ips, peers⟩ := processDataChunk_tells processed
  have tracked := standing.tracked
  rcases TorrentData.processPiece_step tracked.ready wrote with
    ⟨chunk, inRange, known, step⟩ | ⟨_, refused⟩
  · refine ⟨?_, fun ip later found => ?_, fun ip later found => ?_⟩
    · dsimp only
      rw [data]
      exact tracked.step inRange step
    · obtain ⟨old, _, before, _⟩ := peers ip later found
      rw [ips]
      exact standing.listed ip old before
    · obtain ⟨old, count, before, rfl, some, enough⟩ := peers ip later found
      have peer := standing.peers ip old before
      dsimp only
      rw [data]
      refine
        {
          linkState := ⟨peer.linkState.opened, peer.linkState.unsent⟩
          queued := fun pieceId member => ?_
          sound := fun advert member piece named =>
            tracked.hasPiece_mono inRange step (peer.sound advert member piece named)
          covered := fun sent piece has => ?_
        }
      · rcases List.mem_append.mp member with older | newer
        · obtain ⟨piece, same, had⟩ := peer.queued pieceId older
          exact ⟨piece, same, tracked.hasPiece_mono inRange step had⟩
        · obtain ⟨positive, same⟩ := List.mem_replicate.mp newer
          obtain ⟨handshaken, success⟩ := some (Nat.pos_of_ne_zero positive)
          obtain ⟨accepted, last, has⟩ := tracked.of_success inRange step success
          have own := (tells chunk result known accepted last wrote ip old before).2 handshaken
            success
          have small := tracked.ready.pieceOf_fits chunk inRange
          refine ⟨_, ?_, has⟩
          rw [same, own, wrap32_natCast (by omega)]
      · by_cases had : s.torrent.torrentData.HasPiece piece
        · rcases peer.covered sent piece had with queued | told
          · exact .inl (List.mem_append_left _ queued)
          · exact .inr told
        · obtain ⟨rfl, accepted, last⟩ := tracked.hasPiece_new inRange step has had
          have handshaken : old.status = .handshakeComplete := by
            by_contra waiting
            have unsent : old.msgBitfieldSent = true := sent
            rw [peer.linkState.unsent waiting] at unsent
            cases unsent
          obtain ⟨finished, own⟩ := tells chunk result known accepted last wrote ip old before
          have success := finished sent
          have small := tracked.ready.pieceOf_fits chunk inRange
          have positive := enough success handshaken (standing.listed ip old before)
          refine .inl (List.mem_append_right _ (List.mem_replicate.mpr ⟨by omega, ?_⟩))
          rw [own handshaken success, wrap32_natCast (by omega)]
  · refine ⟨?_, fun ip later found => ?_, fun ip later found => ?_⟩
    · dsimp only
      rw [data, refused]
      exact tracked
    · obtain ⟨old, _, before, _⟩ := peers ip later found
      rw [ips]
      exact standing.listed ip old before
    · obtain ⟨old, count, before, rfl, some, _⟩ := peers ip later found
      have none : count = 0 := by
        by_contra positive
        have success := (some (Nat.pos_of_ne_zero positive)).2
        rw [refused] at success
        cases success
      dsimp only
      rw [data, refused, none]
      have peer := standing.peers ip old before
      simpa [queueCopies] using peer

/-- From the initialization of the data on, as long as every event tells peers of pieces as it
should, what is advertised is what there is, in every order of data messages and runs.
-/
theorem advertised_iff_hasPiece {start : Swarm} {events : List SwarmEvent} (begun : start.Start)
    (tells
      : Guarded (step beDecode sha1 infoHash) (fun s event => s.Tells sha1 infoHash event) start
          events)
    : Guarded (step beDecode sha1 infoHash)
        (fun s event => s.Honest beDecode sha1 infoHash event) start events := by
  refine Guarded.of_invariant ?_ begun.standing tells
  intro s event standing told
  cases event with
  | data message env => exact ⟨trivial, fun next stepped => standing.data told stepped⟩
  | run ip outcome =>
      refine ⟨fun next p stepped found done _ => ?_, fun next stepped => ?_⟩
      · exact (standing.run told stepped).2 p found done
      · exact (standing.run told stepped).1

end

-----------------------------------------------------------------------------------------
-- A torrent of one byte
-----------------------------------------------------------------------------------------

def oneByteTorrent : TorrentData := .ofSingleFile none 1 8 1

theorem oneByteTorrent_justInitialised : oneByteTorrent.JustInitialised :=
  TorrentData.SingleFileFits.justInitialised (by decide +kernel)

/-- One peer, and a torrent with one chunk. -/
def oneByteSwarm (p : Peer) : Swarm :=
  {
    torrent :=
      {
        torrentMetadata := .new [46]
        torrentData := oneByteTorrent
        peers := ((HashMap.new 10).set [49] p).2
        peerIps := [[49]]
      }
    disk := fun _ => none
    advertised := fun _ => []
  }

/-- The PIECE message with the only block of the torrent. -/
def onlyMessage : Message := ⟨[0, 0, 0, 10, 7, 0, 0, 0, 0, 0, 0, 0, 0, 5], by decide⟩

def onlyBlock : SwarmEvent := .data onlyMessage Torrent.sampleEnv

def sampleInfoHash : InfoHash := .filled 1

/-- The handshake of a peer without extensions. -/
def sampleHandshake : NetworkSegment :=
  ⟨[19] ++ ascii "BitTorrent protocol" ++ List.replicate 8 0 ++ List.replicate 40 1,
    by decide +kernel⟩

/-- A run on a socket that takes nothing for now. -/
def quietRun (received : Option NetworkSegment) : SwarmEvent :=
  .run [49]
    {
      connection :=
        {
          now := 200000
          descriptor := 3
          network :=
            {
              hungUp := false
              sends := fun _ => .again
              sendErrno := .again
              received := received.map .delivers
            }
          canWrite := true
        }
      stack := zeroStack
      metadataClock := fun _ => 0
      claimClock := fun _ => 0
      reads := fun _ _ => .good
      steps := 0
      lastUpdate := 200000
      now := 200000
      network :=
        { hungUp := false, sends := fun _ => .again, sendErrno := .again, received := none }
    }

theorem oneByteSwarm_find {p q : Peer} {ip : CString}
    (found : (oneByteSwarm p).torrent.peers.find ip = some q)
    : ip = [49] ∧ q = p := by
  have absent : (HashMap.new 10 : HashMap Peer).find [49] = none := HashMap.find_new ..
  have stored := (HashMap.set_of_absent absent p).2 ip
  change ((HashMap.new 10).set [49] p).2.find ip = some q at found
  rw [stored, HashMap.find_new] at found
  split at found
  · rename_i same
    exact ⟨same, (Option.some.inj found).symm⟩
  · cases found

/-- A torrent that has just been initialized, with a peer that was told nothing. -/
theorem oneByteSwarm_start {p : Peer} (state : p.LinkState) (unqueued : p.progressQueue = [])
    (unsent : p.msgBitfieldSent = false)
    : (oneByteSwarm p).Start := by
  have aligned : oneByteTorrent.Aligned := ⟨by decide +kernel, by decide +kernel⟩
  have exactCounts : oneByteTorrent.ExactCounts :=
    ⟨by decide +kernel, by decide +kernel, by decide +kernel⟩
  refine
    {
      initialised := oneByteTorrent_justInitialised
      aligned := aligned
      exactCounts := exactCounts
      listed := fun ip q found => ?_
      links := fun ip q found => ?_
      unqueued := fun ip q found => ?_
      unsent := fun ip q found => ?_
      untold := fun _ => rfl
    }
  · rw [(oneByteSwarm_find found).1]
    exact List.mem_singleton_self _
  · rw [(oneByteSwarm_find found).2]
    exact state
  · rw [(oneByteSwarm_find found).2]
    exact unqueued
  · rw [(oneByteSwarm_find found).2]
    exact unsent

/-- Witness: the torrent completes between two runs of a peer that was handshaken before, and the
peer is told by a HAVE message.
-/
theorem advertised_iff_hasPiece_queued
    : Guarded (step (fun _ => none) Torrent.sampleDigest sampleInfoHash)
        (fun s event => s.Honest (fun _ => none) Torrent.sampleDigest sampleInfoHash event)
        (oneByteSwarm (handshakenPeer [])) [onlyBlock, quietRun none] := by
  have state : (handshakenPeer []).LinkState :=
    ⟨fun _ => ⟨_, rfl, by decide⟩, fun waiting => absurd rfl waiting⟩
  have begun := oneByteSwarm_start state rfl rfl
  have tells : (oneByteSwarm (handshakenPeer [])).Tells Torrent.sampleDigest sampleInfoHash
      onlyBlock := by
    intro chunk result known _ _ _ ip p found
    rw [(oneByteSwarm_find found).2]
    refine ⟨nofun, fun _ _ => ?_⟩
    have first : returnsWith
        (oneByteTorrent.chunkIdOf onlyMessage.index onlyMessage.begin zeroStack)
        (fun chunkId => chunkId == 0) = true := by
      decide +kernel
    rw [show oneByteTorrent.chunkIdOf onlyMessage.index onlyMessage.begin zeroStack = .ok chunk
      from known] at first
    obtain rfl : chunk = 0 := by simpa [returnsWith] using first
    decide +kernel
  refine advertised_iff_hasPiece begun ⟨tells, fun next stepped => ⟨?_, fun _ _ => trivial⟩⟩
  intro p later found greeting _ _ _ piece has
  have standing := (begun.standing.data tells stepped).peers [49] p found
  have queue := (Peer.runHandshake_proceeds standing.linkState greeting).1.progressQueue
  have passed : returnsWith
      ((oneByteSwarm (handshakenPeer [])).step (fun _ => none) Torrent.sampleDigest
        sampleInfoHash onlyBlock)
      (fun next =>
        next.torrent.torrentData.pieceCount == 1
        && (next.torrent.peers.find [49]).map (·.progressQueue) == some [0]) = true := by
    decide +kernel
  rw [stepped] at passed
  simp only [returnsWith, Bool.and_eq_true, beq_iff_eq, found, Option.map_some,
    Option.some.injEq] at passed
  have below := has.1
  rw [passed.1] at below
  rw [queue, passed.2]
  exact .inl (by simp; omega)

/-- A peer that is handshaken after the torrent has completed is told of no piece. -/
theorem late_peer_told_nothing
    : (oneByteSwarm (.new 0)).Start
      ∧ ∃ final p,
          runSteps (step (fun _ => none) Torrent.sampleDigest sampleInfoHash)
              (oneByteSwarm (.new 0))
              [onlyBlock, quietRun none, quietRun (some sampleHandshake)]
            = .ok final
          ∧ final.torrent.peers.find [49] = some p
          ∧ p.status = .handshakeComplete
          ∧ p.progressQueue = []
          ∧ p.takesWrites
          ∧ final.torrent.torrentData.HasPiece 0
          ∧ ¬ final.Advertised [49] 0 := by
  refine ⟨oneByteSwarm_start ⟨by simp [Peer.new], fun _ => rfl⟩ rfl rfl, ?_⟩
  have passed : returnsWith
      (runSteps (step (fun _ => none) Torrent.sampleDigest sampleInfoHash)
        (oneByteSwarm (.new 0)) [onlyBlock, quietRun none, quietRun (some sampleHandshake)])
      (fun final =>
        (final.torrent.peers.find [49]).any
          (fun p =>
            p.status == .handshakeComplete
            && p.progressQueue.isEmpty
            && p.socket.map (·.socket) == some 3)
        && final.torrent.torrentData.pieceCount == 1
        && final.torrent.torrentData.pieceSize == 8
        && final.torrent.torrentData.dataSize == 1
        && returnsWith (final.torrent.torrentData.isPieceComplete 0 zeroStack) id
        && (final.advertised [49]).isEmpty) = true := by
    decide +kernel
  obtain ⟨final, ran, tested⟩ := exists_ok_of_returnsWith passed
  simp only [Bool.and_eq_true, Option.any_eq_true, beq_iff_eq, List.isEmpty_iff] at tested
  obtain ⟨⟨⟨⟨⟨⟨p, found, ⟨status, queue⟩, descriptor⟩, count⟩, pieceSize⟩, dataSize⟩, complete⟩,
    untold⟩ := tested
  obtain ⟨done, answers, isDone⟩ := exists_ok_of_returnsWith complete
  refine ⟨final, p, ran, found, status, queue, ?_, ⟨by rw [count]; decide, fun stack => ?_⟩, ?_⟩
  · exact (Peer.takesWrites_iff p).mpr ⟨3, descriptor, by decide⟩
  · -- the locals of the call are only read where a size is 0
    have sizes : ¬ (final.torrent.torrentData.pieceSize = 0
        ∨ final.torrent.torrentData.dataSize = 0) := by
      rw [pieceSize, dataSize]
      decide
    rw [show done = true from isDone] at answers
    rw [← answers]
    simp only [TorrentData.isPieceComplete, TorrentData.getPieceInfo, if_neg sizes]
    rfl
  · rintro ⟨advert, member, _⟩
    rw [untold] at member
    cases member

end Swarm

end UvgTorrent

import UvgTorrent.Peers.ChunksOfInterest
import UvgTorrent.Peers.InformedPeers

/-! The chunks of the metadata that a peer is asked for. Its bitfield of them outlives every
connection: a chunk that was asked for once is never asked for again, answered or not.
-/

namespace UvgTorrent

open Foundations

-----------------------------------------------------------------------------------------
-- The bitfield of the chunks not asked for yet
-----------------------------------------------------------------------------------------

/-- The bitfield records what was asked for: no chunk of it more than once, and none whose bit is
still set.
-/
structure RecordsAsked (field : Option Bitfield) (asked : List Nat) : Prop where
  unmade : field = none → asked = []
  small : ∀ requested, field = some requested → requested.bitCount < 2 ^ 31
  once
    : ∀ requested,
        field = some requested
        → ∀ chunk < requested.bitCount,
            asked.count chunk ≤ if requested.bit chunk then 0 else 1

/-- The bitfield is kept, or made where there was none. -/
def MadeFrom (before made : Option Bitfield) : Prop :=
  made = before ∨ before = none ∧ ∀ requested, made = some requested → requested.bitCount < 2 ^ 31

/-- Nothing is asked for, or a chunk whose bit is set and then cleared. -/
inductive ClearsAsked (made after : Option Bitfield) (chunk : Option Nat) : Prop
  | silent (same : after = made) (nothing : chunk = none)
  | asks (requested : Bitfield) (index : Nat) (present : made = some requested)
      (inside : index / 8 < requested.bytesCount) (wanted : requested.bit index = true)
      (cleared : after = some (requested.setBit index 0))
      (told : ∀ asked, chunk = some asked → asked = index)

/-- What a run does to the bitfield, and the chunk that it asks for. -/
def MarksAsked (before after : Option Bitfield) (chunk : Option Nat) : Prop :=
  ∃ made, MadeFrom before made ∧ ClearsAsked made after chunk

variable {before made after : Option Bitfield} {asked : List Nat} {chunk : Option Nat}

theorem RecordsAsked.makes (records : RecordsAsked before asked) (makes : MadeFrom before made)
    : RecordsAsked made asked := by
  rcases makes with rfl | ⟨absent, small⟩
  · exact records
  · obtain rfl := records.unmade absent
    exact ⟨fun _ => rfl, small, fun requested present index inRange => by simp⟩

theorem RecordsAsked.clears (records : RecordsAsked made asked)
    (clears : ClearsAsked made after chunk)
    : RecordsAsked after (asked ++ chunk.toList) := by
  cases clears with
  | silent same nothing =>
      rw [same, nothing, Option.toList_none, List.append_nil]
      exact records
  | asks requested index present inside wanted cleared told =>
      have small := records.small requested present
      rw [Bitfield.bytesCount_eq] at inside
      subst cleared
      constructor
      case unmade =>
        intro absent
        cases absent
      case small =>
        intro other same
        cases same
        rwa [Bitfield.setBit_bitCount]
      case once =>
        intro other same next inRange
        cases same
        rw [Bitfield.setBit_bitCount] at inRange
        have before := records.once requested present next inRange
        rw [List.count_append]
        by_cases here : next = index
        · -- The bit was set, so that the chunk was not asked for before.
          subst here
          rw [wanted, if_pos rfl] at before
          have atMost : chunk.toList.count next ≤ 1 :=
            List.count_le_length.trans (by cases chunk <;> simp)
          rw [Bitfield.bit_setBit_zero inRange (by omega), decide_eq_false (by simp),
            Bool.false_and, if_neg (by simp)]
          omega
        · have absent : chunk.toList.count next = 0 := by
            rw [List.count_eq_zero]
            intro member
            exact here (told next (Option.mem_toList.mp member))
          rw [Bitfield.bit_setBit_of_ne (by omega) (by omega) (by omega) 0 (by omega), absent]
          exact before

theorem RecordsAsked.marks (records : RecordsAsked before asked)
    (marks : MarksAsked before after chunk)
    : RecordsAsked after (asked ++ chunk.toList) := by
  obtain ⟨made, makes, clears⟩ := marks
  exact (records.makes makes).clears clears

/-- A claim takes chunks that are wanted, and reads them in the bitfield. -/
theorem TorrentData.claimChunk_wanted {td next : TorrentData} {interested : Bitfield}
    {timeoutSeconds numChunks : Int} {clock : Nat → Int} {exit : Exit} {out : List (Option Nat)}
    {index : Nat}
    (claims : td.claimChunk interested timeoutSeconds numChunks clock = .ok (next, exit, out))
    (member : some index ∈ out)
    : interested.bit index = true := by
  cases field : td.claimed with
  | some claimed => exact (claimChunk_picks field claims index member).2
  | none =>
      unfold claimChunk at claims
      rw [field] at claims
      split at claims
      · cases claims
      · cases claims
        cases member

-----------------------------------------------------------------------------------------
-- A request
-----------------------------------------------------------------------------------------

namespace Peer

variable {p next : Peer} {torrentMetadata afterMetadata : TorrentData} {clock : Nat → Int}
  {exit : Exit} {beDecode : BeDecode} {input : RunInput} {result : RunResult}

/-- The chunk that `peer_send_ut_metadata_request` asks for, when its message is written. -/
def utMetadataChunkSent (p : Peer) (torrentMetadata : TorrentData) (clock : Nat → Int)
    : Except Fault (Option Nat) :=
  p.prepareRequested.bind fun p =>
    (torrentMetadata.initialiseMetadata p.utMetadataSize).bind fun torrentMetadata =>
      match p.utMetadataRequested with
      | none => .ok none
      | some requested =>
          (torrentMetadata.claimChunk requested 0 1 clock).bind fun
            | (_, .success, some chunk :: _) =>
                let p := { p with utMetadataRequested := some (requested.setBit chunk 0) }
                (p.write (p.utMetadataRequest chunk)).bind fun (_, result) =>
                  .ok (if result = (p.utMetadataRequest chunk).length then some chunk else none)
            | _ => .ok none

/-- The chunk of the metadata that a `peer_run` asks for. -/
def metadataAsked (p : Peer) (input : RunInput) : Except Fault (Option Nat) :=
  (p.runHandshake input.infoHash input.torrentMetadata.dataSize input.outcome.connection).bind fun
    | (_, .failure) => .ok none
    | (p, .success) =>
        (p.runAdverts input.torrentData input.outcome.stack).bind fun (p, _) =>
          if p.shouldSendUtMetadataRequest input.torrentMetadata then
            p.utMetadataChunkSent input.torrentMetadata input.outcome.metadataClock
          else .ok none

theorem prepareRequested_makes (prepared : p.prepareRequested = .ok next)
    : MadeFrom p.utMetadataRequested next.utMetadataRequested := by
  unfold prepareRequested at prepared
  split at prepared
  · cases prepared
    exact .inl rfl
  · rename_i absent
    obtain ⟨field, made, same⟩ := bind_eq_ok.mp prepared
    cases same
    refine .inr ⟨absent, fun requested present => ?_⟩
    obtain ⟨-, counted, fits⟩ :=
      Bitfield.spareSet_of_new true ((Bitfield.eq_new_of_make made).symm.trans present)
    omega

/-- A request asks for the chunk whose bit it clears. -/
theorem sendUtMetadataRequest_marks
    (sent : p.sendUtMetadataRequest torrentMetadata clock = .ok (next, afterMetadata, exit))
    (asked : p.utMetadataChunkSent torrentMetadata clock = .ok chunk)
    : MarksAsked p.utMetadataRequested next.utMetadataRequested chunk := by
  obtain ⟨prepared, prepares, sent⟩ := bind_eq_ok.mp sent
  rw [utMetadataChunkSent, bind_of_ok prepares] at asked
  refine ⟨prepared.utMetadataRequested, prepareRequested_makes prepares, ?_⟩
  obtain ⟨initialised, initialises, sent⟩ := bind_eq_ok.mp sent
  rw [bind_of_ok initialises] at asked
  cases present : prepared.utMetadataRequested with
  | none =>
      rw [present] at sent asked
      cases asked
      dsimp only at sent
      split at sent
      · cases sent
        exact .silent present rfl
      · cases sent
  | some requested =>
      rw [present] at sent asked
      obtain ⟨⟨claimed, claimExit, chunks⟩, claims, sent⟩ := bind_eq_ok.mp sent
      dsimp only at asked
      rw [bind_of_ok claims] at asked
      split at sent
      · rename_i index rest taken
        cases taken
        obtain ⟨⟨written, size⟩, wrote, same⟩ := bind_eq_ok.mp sent
        cases same
        dsimp only at asked
        rw [bind_of_ok wrote] at asked
        have member : some index ∈ some index :: rest := List.mem_cons_self
        refine .asks requested index rfl (claimChunk_inside claims member)
          (TorrentData.claimChunk_wanted claims member) ?_ ?_
        · exact (write_within wrote).utMetadataRequested_eq (by simp)
        · rintro other rfl
          dsimp only at asked
          split at asked
          · cases asked
            rfl
          · cases asked
      · rename_i refused same
        cases same
        cases sent
        refine .silent present ?_
        split at asked
        · rename_i index rest taken
          cases taken
          exact (refused index rest rfl rfl).elim
        · cases asked
          rfl

theorem runRequests_marks {torrentData afterData : TorrentData} {outcome : RunOutcome}
    (ran
      : p.runRequests torrentMetadata torrentData outcome = .ok (next, afterMetadata, afterData))
    (asked
      : (if p.shouldSendUtMetadataRequest torrentMetadata then
          p.utMetadataChunkSent torrentMetadata outcome.metadataClock
        else .ok none)
        = .ok chunk)
    : MarksAsked p.utMetadataRequested next.utMetadataRequested chunk := by
  obtain ⟨⟨asking, metadata⟩, requests, ran⟩ := bind_eq_ok.mp ran
  have marks : MarksAsked p.utMetadataRequested asking.utMetadataRequested chunk := by
    split at requests
    · rename_i due
      rw [if_pos due] at asked
      obtain ⟨⟨_, _, _⟩, sent, same⟩ := bind_eq_ok.mp requests
      cases same
      exact sendUtMetadataRequest_marks sent asked
    · rename_i idle
      rw [if_neg idle] at asked
      cases asked
      cases requests
      exact ⟨_, .inl rfl, .silent rfl rfl⟩
  dsimp only at ran
  split at ran
  · obtain ⟨⟨_, _, _⟩, sent, same⟩ := bind_eq_ok.mp ran
    cases same
    rwa [(sendMsgRequest_within sent).utMetadataRequested_eq (by simp)]
  · cases ran
    exact marks

/-- Connections, handshakes, messages and disconnects leave the bitfield as it is: a run marks what
it asks for, and no more.
-/
theorem runOn_marks (ran : p.runOn beDecode input = .ok result)
    (asked : p.metadataAsked input = .ok chunk)
    : MarksAsked p.utMetadataRequested result.peer.utMetadataRequested chunk := by
  obtain ⟨⟨greeted, exit⟩, greeting, ran⟩ := bind_eq_ok.mp ran
  rw [metadataAsked, bind_of_ok greeting] at asked
  have kept : greeted.utMetadataRequested = p.utMetadataRequested := by
    rw [(runHandshake_within greeting).1.utMetadataRequested_eq (by simp)]
    split <;> rfl
  rw [← kept]
  cases exit with
  | failure =>
      cases asked
      cases ran
      exact ⟨_, .inl rfl, .silent rfl rfl⟩
  | success =>
      obtain ⟨⟨told, adverts⟩, telling, ran⟩ := bind_eq_ok.mp ran
      dsimp only at asked
      rw [bind_of_ok telling] at asked
      obtain ⟨behind, running, same⟩ := bind_eq_ok.mp ran
      cases same
      obtain ⟨⟨requesting, metadata, data⟩, requests, running⟩ := bind_eq_ok.mp running
      obtain ⟨choked, choking, running⟩ := bind_eq_ok.mp running
      obtain ⟨⟨read, queued⟩, reading, running⟩ := bind_eq_ok.mp running
      obtain ⟨waited, waiting, running⟩ := bind_eq_ok.mp running
      obtain ⟨⟨flushed, outcome⟩, flushing, running⟩ := bind_eq_ok.mp running
      cases running
      have marks := runRequests_marks requests asked
      rw [(runAdverts_within telling).utMetadataRequested_eq (by simp)] at marks
      dsimp only
      rw [(runNetworkBuffers_within flushing).1.utMetadataRequested_eq (by simp),
        (runSilence_within waiting).utMetadataRequested_eq (by simp),
        (runMessage_within reading).utMetadataRequested_eq (by simp [handlerParts]),
        (runChoking_within choking).utMetadataRequested_eq (by simp)]
      exact marks

end Peer

-----------------------------------------------------------------------------------------
-- A peer over its life
-----------------------------------------------------------------------------------------

/-- A peer, and the chunks of the metadata that it was ever asked for. -/
structure MetadataLog where
  peer : Peer
  asked : List Nat

namespace MetadataLog

variable {beDecode : BeDecode} {s next : MetadataLog} {turn : Turn}

/-- The peer of `peer_new`, or one that has connected to us. -/
def start (now : Int) (accepted : Option Int) : MetadataLog :=
  { peer := (Conversation.start now accepted).peer, asked := [] }

/-- The peer as its next run finds it. -/
def found (s : MetadataLog) (turn : Turn) : Peer :=
  { s.peer with progressQueue := turn.progressQueue, uploader := turn.uploader }

/-- One `peer_run`, with what it asks for. -/
def step (beDecode : BeDecode) (s : MetadataLog) (turn : Turn) : Except Fault MetadataLog :=
  ((s.found turn).metadataAsked turn.input).bind fun chunk =>
    ((s.found turn).runOn beDecode turn.input).bind fun result =>
      .ok { peer := result.peer, asked := s.asked ++ chunk.toList }

/-- The bitfield of the peer records what it was asked for. -/
def Recorded (s : MetadataLog) : Prop := RecordsAsked s.peer.utMetadataRequested s.asked

theorem start_recorded (now : Int) (accepted : Option Int) : (start now accepted).Recorded := by
  have unmade : (start now accepted).peer.utMetadataRequested = none := by
    cases accepted <;> rfl
  constructor
  case unmade => exact fun _ => rfl
  case small =>
    intro requested present
    cases unmade.symm.trans present
  case once =>
    intro requested present
    cases unmade.symm.trans present

theorem Recorded.step (recorded : s.Recorded) (stepped : s.step beDecode turn = .ok next)
    : next.Recorded := by
  obtain ⟨chunk, asked, stepped⟩ := bind_eq_ok.mp stepped
  obtain ⟨result, ran, same⟩ := bind_eq_ok.mp stepped
  cases same
  have marks := Peer.runOn_marks ran asked
  exact RecordsAsked.marks recorded marks

/-- Over any runs, through any connections, and whatever the other threads do to the metadata: no
chunk that the bitfield of a peer has is asked for twice, and the bit of every such chunk that was
asked for is cleared. The bitfield has the size that the peer had announced at the first request.
-/
theorem metadata_asked_once {now : Int} {accepted : Option Int} {turns : List Turn}
    {requested : Bitfield} {chunk : Nat}
    (ran : runSteps (step beDecode) (start now accepted) turns = .ok s)
    (present : s.peer.utMetadataRequested = some requested) (own : chunk < requested.bitCount)
    : s.asked.count chunk ≤ 1 ∧ (chunk ∈ s.asked → requested.bit chunk = false) := by
  have recorded : s.Recorded :=
    runSteps_invariant (fun _ _ _ recorded _ stepped => recorded.step stepped)
      (start_recorded now accepted) (Guarded.of_forall (fun _ _ => trivial) _ turns) ran
  have counted := recorded.once requested present chunk own
  constructor
  · split at counted <;> omega
  · intro member
    have once := List.count_pos_iff.mpr member
    by_contra set
    rw [if_pos (by simpa using set)] at counted
    omega

/-- An extended handshake that announces one chunk of metadata. -/
def oneChunkHandshake : BeNode :=
  .dict [(ascii "m", .dict [(ascii "ut_metadata", .num 1)]), (ascii "metadata_size", .num 1)]

/-- A run at some time on a socket that takes all, while the metadata is needed. -/
def askingTurn (now : Int) (received : Option NetworkSegment) (hungUp : Bool) : Turn :=
  let quiet := Conversation.openInput received
  let connection := quiet.outcome.connection
  {
    progressQueue := []
    uploader := false
    input :=
      {
        quiet with
        torrentMetadata := { quiet.torrentMetadata with needed := true }
        outcome :=
          {
            quiet.outcome with
            connection :=
              { connection with now, network := { connection.network with hungUp } }
            lastUpdate := now
            now
          }
      }
  }

/-- The handshake and an extended handshake. -/
def greeting : NetworkSegment :=
  ⟨RequestLog.plainHandshake ++ [0, 0, 0, 3, 20, 0, 0], by decide +kernel⟩

/-- The peer announces one chunk, is asked for it, hangs up, and announces it once more. -/
def reconnecting : List Turn :=
  [
    askingTurn 200000 none false,
    askingTurn 200000 (some greeting) false,
    askingTurn 200000 none false,
    askingTurn 200000 none true,
    askingTurn 9000000 none false,
    askingTurn 9000000 (some greeting) false,
    askingTurn 9000000 none false
  ]

theorem metadata_asked_once_reconnecting
    : ∃ s requested,
        runSteps (step fun _ => some (oneChunkHandshake, 1)) (start 0 none) reconnecting = .ok s
        ∧ s.peer.utMetadataRequested = some requested
        ∧ s.asked = [0]
        ∧ s.peer.status = .handshakeComplete
        ∧ requested.bit 0 = false := by
  have returns
      : returnsWith
          (runSteps (step fun _ => some (oneChunkHandshake, 1)) (start 0 none) reconnecting)
          (fun s =>
            s.asked = [0]
              ∧ s.peer.status = .handshakeComplete
              ∧ s.peer.utMetadataRequested.any fun requested => requested.bitCount = 1)
        = true := by
    decide +kernel
  obtain ⟨s, ran, checked⟩ := exists_ok_of_returnsWith returns
  simp only [decide_eq_true_eq, Option.any_eq_true] at checked
  obtain ⟨asked, complete, requested, present, counted⟩ := checked
  have once := @metadata_asked_once _ _ _ _ _ _ 0 ran present (by omega)
  exact ⟨s, requested, ran, present, asked, complete, once.2 (by simp [asked])⟩

end MetadataLog

end UvgTorrent

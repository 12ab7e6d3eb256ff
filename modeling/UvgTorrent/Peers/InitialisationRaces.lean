import UvgTorrent.Peers.BitfieldExchange
import UvgTorrent.Peers.PendingRequests
import UvgTorrent.Torrents.Configuration

/-! A `peer_run` while the main thread initialises the torrent data. The checks and the calls of the
run are steps of their own, and `needed` can become 1 between any two of them.
-/

namespace UvgTorrent

open Foundations

-----------------------------------------------------------------------------------------
-- The initialisation
-----------------------------------------------------------------------------------------

/-- A statement of `torrent_process_metadata_piece` on the torrent data. -/
inductive ConfigureCall where
  | sha1Hashes (table : Bytes)
  | addFile (path : CString) (length : Nat)
  | pieceSize (size : Nat)
  | chunkSize (size : Nat)
  | dataSize (size : Nat)
  | need

namespace TorrentData

variable {td next : TorrentData}

/-- What a call does to the torrent data. Data that is needed is not initialised, and it becomes
needed behind `torrent_data_set_data_size`.
-/
def call (td : TorrentData) (which : ConfigureCall) : Except Fault TorrentData :=
  if td.needed then .ok td
  else
    match which with
    | .sha1Hashes table => .ok (td.setSha1Hashes table)
    | .addFile path length => .ok (td.addFile path length)
    | .pieceSize size => .ok (td.setPieceSize size)
    | .chunkSize size => .ok (td.setChunkSize size)
    | .dataSize size => (td.setDataSize size).map Prod.snd
    | .need => .ok { td with needed := td.initialized }

theorem addFile_calls {path : CString} {length : Nat} {calls : List ConfigureCall}
    (unneeded : td.needed = false) (ran : runSteps call (td.addFile path length) calls = .ok next)
    : runSteps call td (.addFile path length :: calls) = .ok next :=
  runSteps_cons_eq_ok.mpr ⟨_, if_neg (by simp [unneeded]), ran⟩

theorem addFiles_calls {entries : List BeNode} {exit : Exit} (unneeded : td.needed = false)
    (added : td.addFiles entries = .ok (next, exit))
    : next.needed = false ∧ ∃ calls, runSteps call td calls = .ok next := by
  induction entries generalizing td with
  | nil =>
      cases added
      exact ⟨unneeded, [], rfl⟩
  | cons entry rest ih =>
      unfold addFiles at added
      split at added
      · obtain ⟨joined, _, added⟩ := bind_eq_ok.mp added
        cases joined with
        | none =>
            cases added
            exact ⟨unneeded, [], rfl⟩
        | some path =>
            obtain ⟨after, adding, added⟩ := bind_eq_ok.mp added
            rw [addFilePath_eq adding] at added
            obtain ⟨still, calls, ran⟩ := ih (show (td.addFile path _).needed = false from unneeded)
              added
            exact ⟨still, _, addFile_calls unneeded ran⟩
      · cases added

theorem addMetadataFiles_calls {info : BeNode} {exit : Exit} (unneeded : td.needed = false)
    (added : td.addMetadataFiles info = .ok (next, exit))
    : next.needed = false ∧ ∃ calls, runSteps call td calls = .ok next := by
  unfold addMetadataFiles at added
  split at added
  · split at added
    · cases added
    · dsimp only at added
      split at added
      · cases added
      · obtain ⟨after, adding, same⟩ := bind_eq_ok.mp added
        cases same
        rw [addFilePath_eq adding]
        exact ⟨unneeded, _, addFile_calls unneeded (@rfl _ (runSteps call _ []))⟩
  · exact addFiles_calls unneeded added
  · cases added

/-- A call of `torrent_data_set_data_size` that returns leaves initialised data, which has the
pieces that it had if it was initialised before.
-/
theorem setDataSize_effect {size : Nat} {exit : Exit} (set : td.setDataSize size = .ok (exit, next))
    : next.needed = td.needed
      ∧ (td.chunkSize ≠ 0 → next.initialized = true)
      ∧ (td.pieceCount < 2 ^ 31 → next.pieceCount < 2 ^ 31)
      ∧ (td.initialized = true → next = td) := by
  rcases setDataSize_cases set with ⟨idle, _, rfl⟩ | ⟨unready, _, _, _, rfl⟩
  · exact ⟨rfl, fun chunks => idle.resolve_right chunks, id, fun _ => rfl⟩
  · refine ⟨rfl, fun _ => rfl, fun _ => ?_, fun ready => ?_⟩
    · rw [initialisedWith_pieceCount]
      unfold wrap32
      omega
    · rw [unready] at ready
      cases ready

/-- The configuration of the torrent data is a run of these calls. -/
theorem configure_calls {info : BeNode} {exit : Exit} (unneeded : td.needed = false)
    (configured : td.configure info = .ok (next, exit))
    : ∃ calls, runSteps call td calls = .ok next := by
  obtain ⟨⟨filed, added⟩, adding, configured⟩ := bind_eq_ok.mp configured
  have hashed : (td.setSha1Hashes ((info.dictLookupCstr (ascii "pieces")).getD [])).needed
      = false :=
    unneeded
  obtain ⟨still, calls, files⟩ := addMetadataFiles_calls hashed adding
  have begun : runSteps call td
      (.sha1Hashes ((info.dictLookupCstr (ascii "pieces")).getD []) :: calls) = .ok filed :=
    runSteps_cons_eq_ok.mpr ⟨_, if_neg (by simp [unneeded]), files⟩
  cases added with
  | failure =>
      cases configured
      exact ⟨_, begun⟩
  | success =>
      dsimp only at configured
      obtain ⟨⟨result, sized⟩, set, same⟩ := bind_eq_ok.mp configured
      cases same
      obtain ⟨needed, ready, -⟩ := setDataSize_effect set
      have initialized : sized.initialized = true :=
        ready (by simp [setChunkSize, torrentChunkSize])
      have unneededSized : sized.needed = false := needed.trans still
      have rest : runSteps call filed
          [.pieceSize (u64OfInt (info.dictLookupNum (ascii "piece length"))),
            .chunkSize torrentChunkSize, .dataSize filed.filesSize, .need]
          = .ok { sized with needed := true } := by
        refine runSteps_cons_eq_ok.mpr ⟨_, if_neg (by simp [still]), ?_⟩
        refine runSteps_cons_eq_ok.mpr ⟨_, if_neg (by simp [setPieceSize, still]), ?_⟩
        refine runSteps_cons_eq_ok.mpr ⟨sized, ?_, ?_⟩
        · rw [call, if_neg (by simp [setPieceSize, setChunkSize, still])]
          exact congrArg (Except.map Prod.snd) set
        · refine runSteps_cons_eq_ok.mpr ⟨_, if_neg (by simp [unneededSized]), ?_⟩
          rw [initialized]
          rfl
      exact ⟨_, runSteps_append begun rest⟩

/-- What a call keeps: the pieces of initialised data, and, unless it makes it so, that the data is
not needed.
-/
theorem call_effect {which : ConfigureCall} (called : td.call which = .ok next)
    (fits : td.pieceCount < 2 ^ 31)
    : next.pieceCount < 2 ^ 31
      ∧ (td.initialized = true → next.initialized = true ∧ next.pieceCount = td.pieceCount)
      ∧ (next.needed = true
        → next = td
          ∨ td.needed = false
            ∧ td.initialized = true
            ∧ which = .need
            ∧ next = { td with needed := true }) := by
  unfold call at called
  split at called
  · cases called
    exact ⟨fits, fun ready => ⟨ready, rfl⟩, fun _ => .inl rfl⟩
  · rename_i unneeded
    cases which with
    | dataSize size =>
        dsimp only at called
        cases set : td.setDataSize size with
        | error fault =>
            rw [set] at called
            cases called
        | ok result =>
            rw [set] at called
            cases called
            obtain ⟨needed, -, pieces, kept⟩ := setDataSize_effect set
            refine
              ⟨pieces fits, fun ready => ?_, fun now => absurd (needed.symm.trans now) unneeded⟩
            rw [kept ready]
            exact ⟨ready, rfl⟩
    | need =>
        cases called
        refine ⟨fits, fun ready => ⟨ready, rfl⟩, fun ready => .inr ?_⟩
        have initialized : td.initialized = true := ready
        exact ⟨by simpa using unneeded, initialized, rfl, by rw [initialized]⟩
    | _ =>
        cases called
        exact ⟨fits, fun ready => ⟨ready, rfl⟩, fun now => absurd now unneeded⟩

end TorrentData

-----------------------------------------------------------------------------------------
-- A run, step by step
-----------------------------------------------------------------------------------------

/-- What the next step of a `peer_run` is. -/
inductive RacePoint where
  | connection
  | haves
  | bitfieldCheck
  | bitfield
  | metadata
  | requestCheck
  | request
  | choking
  | message
  | silence
  deriving DecidableEq

/-- What other calls do to the torrent data: chunks are claimed and completed, and the data is not
needed any more once it is complete.
-/
structure DataChange where
  apply : TorrentData → TorrentData
  needed : ∀ td, (apply td).needed = true → td.needed = true
  initialized : ∀ td, (apply td).initialized = td.initialized
  pieceCount : ∀ td, (apply td).pieceCount = td.pieceCount

/-- A step of the initialisation, of the peer's thread, or of other calls. -/
inductive RaceEvent where
  | main (call : ConfigureCall)
  | peer (input : RunInput)
  | other (change : DataChange)

/-- A peer in its runs, and the torrent data. -/
structure RacingPeer where
  peer : Peer
  torrentData : TorrentData
  point : RacePoint

/-- A bitfield has a byte for every piece. -/
def Bitfield.Covers (field : Bitfield) (pieceCount : Int) : Prop :=
  ∀ piece : Nat, (piece : Int) < pieceCount → piece / 8 < field.bytesCount

namespace RacingPeer

/-- The next step of the peer's thread. The torrent data is what it is at that step. -/
def advance (beDecode : BeDecode) (s : RacingPeer) (input : RunInput)
    : Except Fault RacingPeer :=
  let p := s.peer
  let td := s.torrentData
  let outcome := input.outcome
  match s.point with
  | .connection =>
      (p.runHandshake input.infoHash input.torrentMetadata.dataSize outcome.connection).bind fun
        | (p, .failure) => .ok { s with peer := { p with running := false } }
        | (p, .success) => .ok { s with peer := p, point := .haves }
  | .haves =>
      (if p.shouldSendMsgHave then p.sendMsgHave td outcome.stack else .ok (p, [])).bind
        fun (p, _) => .ok { s with peer := p, point := .bitfieldCheck }
  | .bitfieldCheck =>
      .ok { s with point := if p.shouldSendMsgBitfield td then .bitfield else .metadata }
  | .bitfield =>
      (p.sendMsgBitfield td outcome.stack).bind fun (p, _) =>
        .ok { s with peer := p, point := .metadata }
  | .metadata =>
      (p.runMetadataRequest input.torrentMetadata outcome).bind fun (p, _) =>
        .ok { s with peer := p, point := .requestCheck }
  | .requestCheck =>
      .ok { s with point := if p.shouldSendMsgRequest td then .request else .choking }
  | .request =>
      (p.sendMsgRequest td outcome.stack outcome.claimClock).bind fun (p, td, _) =>
        .ok { peer := p, torrentData := td, point := .choking }
  | .choking => p.runChoking.bind fun p => .ok { s with peer := p, point := .message }
  | .message =>
      (p.runMessage beDecode input.torrentMetadata td input.disk outcome).bind fun (p, _) =>
        .ok { s with peer := p, point := .silence }
  | .silence =>
      (p.runSilence outcome.lastUpdate outcome.now).bind fun p =>
        (p.runNetworkBuffers outcome.network outcome.now).bind fun (p, _) =>
          .ok { s with peer := { p with running := false }, point := .connection }

/-- One step. -/
def step (beDecode : BeDecode) (s : RacingPeer) : RaceEvent → Except Fault RacingPeer
  | .main call => (s.torrentData.call call).bind fun torrentData => .ok { s with torrentData }
  | .peer input => s.advance beDecode input
  | .other change => .ok { s with torrentData := change.apply s.torrentData }

/-- The bitfield of the peer is there for every piece, and has a byte for it. -/
def CoversPieces (s : RacingPeer) : Prop :=
  ∀ piece : Nat,
    (piece : Int) < s.torrentData.pieceCount
    → ∃ field, s.peer.peerBitfield = some field ∧ piece / 8 < field.bytesCount

/-- When `peer_send_msg_request` reads the bitfield of the peer, the bitfield covers the pieces. -/
def ReadsCovered (s : RacingPeer) : Prop := s.point = .request → s.CoversPieces

/-- The data does not become needed between the BITFIELD check and the request check of a run that
then asks for chunks, nor a second time behind a BITFIELD message, unless the bitfield of the peer
covers the pieces.
-/
def NeededInTime (s : RacingPeer) : RaceEvent → Prop
  | .main .need =>
      s.torrentData.needed = false
      → s.torrentData.initialized = true
      → (s.point = .metadata ∨ s.point = .requestCheck
          → s.peer.shouldSendMsgRequest { s.torrentData with needed := true } = true
          → s.CoversPieces)
        ∧ (s.peer.msgBitfieldSent = true
          → ∀ field,
              s.peer.peerBitfield = some field
              → field.Covers s.torrentData.pieceCount)
  | _ => True

/-- Before the first run of a peer, and before the initialisation. -/
structure Start (s : RacingPeer) : Prop where
  uninterested : s.peer.amInterested = false
  unsent : s.peer.msgBitfieldSent = false
  unneeded : s.torrentData.needed = false
  noPieces : s.torrentData.pieceCount = 0
  idle : s.point = .connection

end RacingPeer

-----------------------------------------------------------------------------------------
-- Uninterrupted runs
-----------------------------------------------------------------------------------------

namespace RacingPeer

variable {s next final : RacingPeer} {beDecode : BeDecode} {input : RunInput}

/-- The peer's thread alone leads from one state to another, whatever metadata its steps see. -/
def RunsTo (beDecode : BeDecode) (input : RunInput) (s final : RacingPeer) : Prop :=
  ∃ seen : List TorrentData,
    runSteps (step beDecode) s
      (seen.map fun torrentMetadata => .peer { input with torrentMetadata })
    = .ok final

theorem RunsTo.head {torrentMetadata : TorrentData}
    (advanced : s.advance beDecode { input with torrentMetadata } = .ok next)
    (later : RunsTo beDecode input next final)
    : RunsTo beDecode input s final := by
  obtain ⟨seen, ran⟩ := later
  exact ⟨torrentMetadata :: seen, runSteps_cons_eq_ok.mpr ⟨next, advanced, ran⟩⟩

/-- The steps behind the messages on pieces. -/
theorem runMessages_steps {p : Peer} {td : TorrentData} {result : RunResult}
    (ran : p.runMessages beDecode input.torrentMetadata td input.disk input.outcome = .ok result)
    : RunsTo beDecode input ⟨p, td, .metadata⟩ ⟨result.peer, result.torrentData, .connection⟩ := by
  obtain ⟨⟨asked, metadata, after⟩, asking, ran⟩ := bind_eq_ok.mp ran
  obtain ⟨choked, choking, ran⟩ := bind_eq_ok.mp ran
  obtain ⟨⟨read, queued⟩, reading, ran⟩ := bind_eq_ok.mp ran
  obtain ⟨waited, waiting, ran⟩ := bind_eq_ok.mp ran
  obtain ⟨⟨flushed, exit⟩, flushing, ran⟩ := bind_eq_ok.mp ran
  cases ran
  obtain ⟨⟨requester, claimed⟩, requested, asking⟩ := bind_eq_ok.mp asking
  dsimp only at asking choking reading waiting flushing
  have flushes : RunsTo beDecode input ⟨read, after, .silence⟩
      ⟨{ flushed with running := false }, after, .connection⟩ :=
    @RunsTo.head _ _ _ _ _ metadata ((bind_of_ok waiting _).trans (bind_of_ok flushing _))
      ⟨[], rfl⟩
  have reads : RunsTo beDecode input ⟨choked, after, .message⟩ _ :=
    @RunsTo.head _ _ _ _ _ metadata (bind_of_ok reading _) flushes
  have chokes : RunsTo beDecode input ⟨asked, after, .choking⟩ _ :=
    @RunsTo.head _ _ _ _ _ metadata (bind_of_ok choking _) reads
  refine @RunsTo.head _ ⟨requester, td, .requestCheck⟩ _ _ _ input.torrentMetadata
    (bind_of_ok requested _) ?_
  split at asking
  · rename_i asks
    obtain ⟨⟨asker, remaining, _⟩, sent, same⟩ := bind_eq_ok.mp asking
    cases same
    have chosen : advance beDecode ⟨requester, td, .requestCheck⟩ input
        = .ok ⟨requester, td, .request⟩ :=
      congrArg (fun point => Except.ok (RacingPeer.mk requester td point)) (if_pos asks)
    have requests : RunsTo beDecode input ⟨requester, td, .request⟩ _ :=
      @RunsTo.head _ ⟨asker, remaining, .choking⟩ _ _ _ metadata (bind_of_ok sent _) chokes
    exact @RunsTo.head _ _ _ _ _ input.torrentMetadata chosen requests
  · rename_i silent
    cases asking
    have skipped : advance beDecode ⟨asked, td, .requestCheck⟩ input = .ok ⟨asked, td, .choking⟩ :=
      congrArg (fun point => Except.ok (RacingPeer.mk asked td point)) (if_neg silent)
    exact @RunsTo.head _ _ _ _ _ input.torrentMetadata skipped chokes

/-- A `peer_run` is a run of these steps that nothing interrupts. -/
theorem runOn_steps {p : Peer} {result : RunResult} (ran : p.runOn beDecode input = .ok result)
    : RunsTo beDecode input ⟨p, input.torrentData, .connection⟩
        ⟨result.peer, result.torrentData, .connection⟩ := by
  obtain ⟨⟨greeted, exit⟩, greeting, ran⟩ := bind_eq_ok.mp ran
  cases exit with
  | failure =>
      cases ran
      exact @RunsTo.head _ _ _ _ _ input.torrentMetadata (bind_of_ok greeting _) ⟨[], rfl⟩
  | success =>
      obtain ⟨⟨told, adverts⟩, telling, ran⟩ := bind_eq_ok.mp ran
      obtain ⟨last, messages, same⟩ := bind_eq_ok.mp ran
      cases same
      obtain ⟨⟨haves, sent⟩, sending, telling⟩ := bind_eq_ok.mp telling
      have steps := runMessages_steps messages
      refine @RunsTo.head _ ⟨greeted, input.torrentData, .haves⟩ _ _ _ input.torrentMetadata
        (bind_of_ok greeting _) ?_
      refine @RunsTo.head _ ⟨haves, input.torrentData, .bitfieldCheck⟩ _ _ _ input.torrentMetadata
        (bind_of_ok sending _) ?_
      dsimp only at telling
      split at telling
      · rename_i due
        obtain ⟨⟨marked, field⟩, marking, same⟩ := bind_eq_ok.mp telling
        cases same
        have chosen : advance beDecode ⟨haves, input.torrentData, .bitfieldCheck⟩ input
            = .ok ⟨haves, input.torrentData, .bitfield⟩ :=
          congrArg (fun point => Except.ok (RacingPeer.mk haves input.torrentData point))
            (if_pos due)
        have fields : RunsTo beDecode input ⟨haves, input.torrentData, .bitfield⟩ _ :=
          @RunsTo.head _ ⟨marked, input.torrentData, .metadata⟩ _ _ _ input.torrentMetadata
            (bind_of_ok marking _) steps
        exact @RunsTo.head _ _ _ _ _ input.torrentMetadata chosen fields
      · rename_i undue
        cases telling
        have skipped : advance beDecode ⟨told, input.torrentData, .bitfieldCheck⟩ input
            = .ok ⟨told, input.torrentData, .metadata⟩ :=
          congrArg (fun point => Except.ok (RacingPeer.mk told input.torrentData point))
            (if_neg undue)
        exact @RunsTo.head _ _ _ _ _ input.torrentMetadata skipped steps

/-- The initialisation is a run of its calls. -/
theorem configure_steps {info : BeNode} {after : TorrentData} {exit : Exit}
    (unneeded : s.torrentData.needed = false)
    (configured : s.torrentData.configure info = .ok (after, exit))
    : ∃ calls : List ConfigureCall,
        runSteps (step beDecode) s (calls.map .main) = .ok { s with torrentData := after } := by
  obtain ⟨calls, ran⟩ := TorrentData.configure_calls unneeded configured
  refine ⟨calls, ?_⟩
  clear unneeded configured
  induction calls generalizing s with
  | nil =>
      cases ran
      rfl
  | cons which calls ih =>
      obtain ⟨next, called, ran⟩ := runSteps_cons_eq_ok.mp ran
      have rest := @ih { s with torrentData := next } ran
      exact runSteps_cons_eq_ok.mpr ⟨_, bind_of_ok called _, rest⟩

end RacingPeer

-----------------------------------------------------------------------------------------
-- The size of the bitfield
-----------------------------------------------------------------------------------------

namespace Bitfield

variable {field filled : Bitfield} {pieceCount : Int}

theorem covers_of_new (made : Bitfield.new (u64OfInt pieceCount) 0 0x00 = some field)
    (fits : pieceCount < 2 ^ 31)
    : field.Covers pieceCount := by
  intro piece below
  have count : u64OfInt pieceCount = pieceCount.toNat := by
    unfold u64OfInt
    omega
  obtain ⟨other, same, counted, -⟩ :=
    Bitfield.new_spec (show u64OfInt pieceCount < 2 ^ 31 by omega) 0x00
  rw [made] at same
  cases same
  rw [field.bytesCount_eq]
  omega

theorem copyFrom_bytesCount {bytes : Bytes} (copies : field.copyFrom bytes = .ok filled)
    : filled.bytesCount = field.bytesCount := by
  unfold copyFrom at copies
  split at copies
  · cases copies
    rw [bytesCount_eq, bytesCount_eq]
  · cases copies

theorem Covers.of_bytesCount (covers : field.Covers pieceCount)
    (same : filled.bytesCount = field.bytesCount)
    : filled.Covers pieceCount := by
  intro piece below
  rw [same]
  exact covers piece below

end Bitfield

namespace Peer

variable {p next : Peer} {td : TorrentData} {stack : Stack} {message : Message}
  {parts : List PeerPart}

/-- Our interest comes with a bitfield of the peer. Behind our BITFIELD message it covers the
pieces, while these are needed.
-/
structure Sized (td : TorrentData) (p : Peer) : Prop where
  interested : p.amInterested = true → ∃ field, p.peerBitfield = some field
  sent
    : p.msgBitfieldSent = true
      → td.needed = true
      → ∀ field, p.peerBitfield = some field → field.Covers td.pieceCount

theorem Within.sized (within : Within parts p next)
    (quiet : ∀ part ∈ parts, part ∉ [.amInterested, .peerBitfield, .msgBitfieldSent])
    (sized : p.Sized td)
    : next.Sized td := by
  refine Foundations.Within.keeps (fun part member before after changed held => ?_) within sized
  cases changed with
  | drop => exact ⟨nofun, nofun⟩
  | amInterested => exact absurd (by simp) (quiet _ member)
  | peerBitfield => exact absurd (by simp) (quiet _ member)
  | msgBitfieldSent => exact absurd (by simp) (quiet _ member)
  | _ => exact ⟨held.interested, held.sent⟩

theorem updateInterested_sized (updated : p.updateInterested td stack = .ok next)
    (sized : p.Sized td)
    : next.Sized td := by
  have within := updateInterested_within updated
  have field := within.peerBitfield_eq (by simp)
  have flag : next.msgBitfieldSent = p.msgBitfieldSent := by
    refine Foundations.Within.same Peer.msgBitfieldSent (fun part member _ _ changed => ?_) within
    cases changed <;> first | rfl | simp at member
  refine ⟨fun _ => ?_, by rw [field, flag]; exact sized.sent⟩
  cases present : p.peerBitfield with
  | none =>
      rw [updateInterested, present] at updated
      cases updated
      exact sized.interested ‹_›
  | some got => exact ⟨got, by rw [field, present]⟩

theorem sendMsgHave_sized {told : List Int} (sends : p.sendMsgHave td stack = .ok (next, told))
    (sized : p.Sized td)
    : next.Sized td := by
  obtain ⟨⟨drained, exit, ids⟩, queue, sends⟩ := bind_eq_ok.mp sends
  have drains := (sendHaves_within queue).sized (by simp) sized
  cases exit with
  | failure =>
      cases sends
      exact drains
  | success =>
      obtain ⟨_, updates, same⟩ := bind_eq_ok.mp sends
      cases same
      exact updateInterested_sized updates drains

/-- A bitfield that is there keeps its size, and a new one is made for the pieces. -/
theorem handleMsgHave_sized (handled : p.handleMsgHave td message stack = .ok next)
    (fits : td.pieceCount < 2 ^ 31) (sized : p.Sized td)
    : next.Sized td := by
  unfold handleMsgHave at handled
  split at handled
  · cases handled
  · split at handled
    · cases handled
    · rename_i field target
      refine updateInterested_sized handled ⟨fun _ => ⟨_, rfl⟩, fun sent needed marked same => ?_⟩
      cases same
      refine Bitfield.Covers.of_bytesCount ?_ (Bitfield.setBit_bytesCount ..)
      cases present : p.peerBitfield with
      | none =>
          rw [present, Option.none_or] at target
          exact Bitfield.covers_of_new target fits
      | some got =>
          rw [present, Option.some_or] at target
          cases target
          exact sized.sent sent needed _ present

theorem handleMsgBitfield_sized (handled : p.handleMsgBitfield td message stack = .ok next)
    (fits : td.pieceCount < 2 ^ 31) (sized : p.Sized td)
    : next.Sized td := by
  rw [handleMsgBitfield_eq, copyMsgBitfield_eq] at handled
  split at handled
  · cases handled
  · rename_i field target
    obtain ⟨⟨copied, exit⟩, copying, handled⟩ := bind_eq_ok.mp handled
    obtain ⟨filled, copies, same⟩ := bind_eq_ok.mp copying
    cases same
    refine updateInterested_sized handled ⟨fun _ => ⟨_, rfl⟩, fun sent needed got same => ?_⟩
    cases same
    refine Bitfield.Covers.of_bytesCount ?_ (Bitfield.copyFrom_bytesCount copies)
    unfold bitfieldTarget at target
    cases present : p.peerBitfield with
    | none =>
        rw [present, Option.none_or, bitfieldChunkCount, if_pos needed] at target
        exact Bitfield.covers_of_new target fits
    | some got =>
        rw [present, Option.some_or] at target
        cases target
        exact sized.sent sent needed _ present

/-- `peer_send_msg_bitfield` leaves a bitfield that covers the pieces, if there is one. -/
theorem sendMsgBitfield_covers {told : Option Bitfield} (fits : td.pieceCount < 2 ^ 31)
    (sends : p.sendMsgBitfield td stack = .ok (next, told))
    : next.amInterested = p.amInterested
      ∧ (next.peerBitfield = none → p.peerBitfield = none)
      ∧ ∀ field, next.peerBitfield = some field → field.Covers td.pieceCount := by
  have interest : next.amInterested = p.amInterested := by
    refine Foundations.Within.same Peer.amInterested (fun part member _ _ changed => ?_)
      (sendMsgBitfield_within sends)
    cases changed <;> first | rfl | simp at member
  refine ⟨interest, ?_⟩
  unfold sendMsgBitfield at sends
  split at sends
  · cases sends
  · rename_i blank made
    have covers := Bitfield.covers_of_new made fits
    obtain ⟨resized, resizing, sends⟩ := bind_eq_ok.mp sends
    obtain ⟨_, _, sends⟩ := bind_eq_ok.mp sends
    obtain ⟨⟨written, _⟩, wrote, same⟩ := bind_eq_ok.mp sends
    cases same
    rw [(write_within wrote).peerBitfield_eq (by simp)]
    unfold resizeBitfield at resizing
    dsimp only at resizing
    split at resizing
    · rename_i absent
      cases resizing
      rw [absent]
      exact ⟨fun _ => rfl, nofun⟩
    · rename_i partialField present
      split at resizing
      · obtain ⟨copied, copies, same⟩ := bind_eq_ok.mp resizing
        cases same
        refine ⟨nofun, fun field same => ?_⟩
        cases same
        exact covers.of_bytesCount (Bitfield.copyFrom_bytesCount copies)
      · rename_i long
        cases resizing
        rw [present]
        refine ⟨nofun, fun field same piece below => ?_⟩
        cases same
        exact Nat.lt_of_lt_of_le (covers piece below) (Nat.le_of_not_lt long)

theorem runMetadataRequest_within {torrentMetadata after : TorrentData} {outcome : RunOutcome}
    (ran : p.runMetadataRequest torrentMetadata outcome = .ok (next, after))
    : Within [.utMetadataRequested, .buffers] p next := by
  unfold runMetadataRequest at ran
  split at ran
  · obtain ⟨⟨_, _, _⟩, sent, same⟩ := bind_eq_ok.mp ran
    cases same
    exact sendUtMetadataRequest_within sent
  · cases ran
    exact .refl p

/-- Whether chunks are asked for is not changed by a request for metadata. -/
theorem Within.shouldSendMsgRequest_eq (within : Within [.utMetadataRequested, .buffers] p next)
    (td : TorrentData)
    : next.shouldSendMsgRequest td = p.shouldSendMsgRequest td := by
  refine Foundations.Within.same (Peer.shouldSendMsgRequest · td)
    (fun part member _ _ changed => ?_) within
  cases changed <;> first | rfl | simp at member

theorem runMessage_sized {beDecode : BeDecode} {torrentMetadata : TorrentData} {disk : Disk}
    {outcome : RunOutcome} {queued : Option (MainQueue × Bytes)}
    (ran : p.runMessage beDecode torrentMetadata td disk outcome = .ok (next, queued))
    (fits : td.pieceCount < 2 ^ 31) (sized : p.Sized td)
    : next.Sized td := by
  unfold runMessage at ran
  split at ran
  · have reads := (readMessage_within p outcome.now).1.sized (by simp) sized
    split at ran
    · rename_i read
      rw [read] at reads
      cases ran
      exact reads
    · rename_i read
      rw [read] at reads
      split at ran
      · obtain ⟨⟨_, _⟩, handled, same⟩ := bind_eq_ok.mp ran
        cases same
        rcases handleMessage_within handled with other | told | told | ⟨-, rfl⟩
        · exact other.sized (by simp) reads
        · exact handleMsgHave_sized told fits reads
        · exact handleMsgBitfield_sized told fits reads
        · exact ⟨reads.interested, reads.sent⟩
      · cases ran
  · cases ran
    exact sized

end Peer

namespace RacingPeer

variable {s next : RacingPeer} {beDecode : BeDecode} {input : RunInput}

/-- What holds between the steps. -/
structure Standing (s : RacingPeer) : Prop where
  known : s.torrentData.needed = true → s.torrentData.initialized = true
  fits : s.torrentData.pieceCount < 2 ^ 31
  sized : s.peer.Sized s.torrentData
  asking
    : s.point = .metadata ∨ s.point = .requestCheck
      → s.peer.shouldSendMsgRequest s.torrentData = true
      → s.CoversPieces
  requesting : s.point = .request → s.torrentData.initialized = true ∧ s.CoversPieces

theorem Start.standing (start : s.Start) : s.Standing := by
  constructor
  · intro needed
    rw [start.unneeded] at needed
    cases needed
  · rw [start.noPieces]
    decide
  · constructor
    · intro interested
      rw [start.uninterested] at interested
      cases interested
    · intro sent
      rw [start.unsent] at sent
      cases sent
  · rw [start.idle]
    rintro (other | other) <;> cases other
  · rw [start.idle]
    exact nofun

/-- A bitfield that covers the pieces if it is there does so when we are interested. -/
theorem coversPieces_of_interest (sized : s.peer.Sized s.torrentData)
    (asks : s.peer.shouldSendMsgRequest s.torrentData = true)
    (covers
      : ∀ field,
          s.peer.peerBitfield = some field
          → field.Covers s.torrentData.pieceCount)
    : s.CoversPieces := by
  simp only [Peer.shouldSendMsgRequest, decide_eq_true_eq] at asks
  obtain ⟨field, present⟩ := sized.interested asks.2.2.2.2
  exact fun piece below => ⟨field, present, covers field present piece below⟩

/-- The steps of the peer's thread keep the invariant. -/
theorem advance_standing (standing : s.Standing) (advanced : s.advance beDecode input = .ok next)
    : next.Standing := by
  obtain ⟨known, fits, sized, asking, requesting⟩ := standing
  unfold advance at advanced
  dsimp only at advanced
  cases point : s.point with
  | connection =>
      rw [point] at advanced
      obtain ⟨⟨greeted, exit⟩, greeting, advanced⟩ := bind_eq_ok.mp advanced
      have met : greeted.Sized s.torrentData := by
        refine (Peer.runHandshake_within greeting).1.sized (by simp) ?_
        split
        · exact ⟨sized.interested, sized.sent⟩
        · exact sized
      cases exit with
      | failure =>
          cases advanced
          exact ⟨known, fits, ⟨met.interested, met.sent⟩, by simp, by simp⟩
      | success =>
          cases advanced
          exact ⟨known, fits, met, by simp, by simp⟩
  | haves =>
      rw [point] at advanced
      obtain ⟨⟨told, ids⟩, telling, same⟩ := bind_eq_ok.mp advanced
      cases same
      refine ⟨known, fits, ?_, by simp, by simp⟩
      split at telling
      · exact Peer.sendMsgHave_sized telling sized
      · cases telling
        exact sized
  | bitfieldCheck =>
      rw [point] at advanced
      cases advanced
      refine ⟨known, fits, sized, fun later asks => ?_, ?_⟩
      · have status := asks
        simp only [Peer.shouldSendMsgRequest, decide_eq_true_eq] at status
        -- no BITFIELD is due although the data is needed, so it was sent
        have sent : s.peer.msgBitfieldSent = true := by
          by_contra unsent
          have due : s.peer.shouldSendMsgBitfield s.torrentData = true := by
            simp only [Peer.shouldSendMsgBitfield, decide_eq_true_eq]
            exact ⟨status.1, by simpa using unsent, status.2.1⟩
          simp [due] at later
        exact coversPieces_of_interest sized asks (sized.sent sent status.2.1)
      · dsimp only
        split <;> simp
  | bitfield =>
      rw [point] at advanced
      obtain ⟨⟨told, field⟩, telling, same⟩ := bind_eq_ok.mp advanced
      cases same
      obtain ⟨interest, presence, covers⟩ := Peer.sendMsgBitfield_covers fits telling
      have kept : told.Sized s.torrentData := by
        refine ⟨fun interested => ?_, fun _ _ => covers⟩
        obtain ⟨got, present⟩ := sized.interested (interest.symm.trans interested)
        refine Option.ne_none_iff_exists'.mp fun absent => ?_
        rw [presence absent] at present
        cases present
      exact ⟨known, fits, kept, fun _ asks => coversPieces_of_interest kept asks covers, by simp⟩
  | metadata =>
      rw [point] at advanced
      obtain ⟨⟨asked, metadata⟩, requested, same⟩ := bind_eq_ok.mp advanced
      cases same
      have within := Peer.runMetadataRequest_within requested
      refine ⟨known, fits, within.sized (by simp) sized, fun _ asks => ?_, by simp⟩
      have same := within.shouldSendMsgRequest_eq s.torrentData
      intro piece below
      obtain ⟨field, present, covers⟩ := asking (.inl point) (same.symm.trans asks) piece below
      exact ⟨field, (within.peerBitfield_eq (by simp)).trans present, covers⟩
  | requestCheck =>
      rw [point] at advanced
      cases advanced
      refine ⟨known, fits, sized, ?_, ?_⟩
      · dsimp only
        split <;> simp
      · intro chosen
        dsimp only at chosen
        split at chosen
        · rename_i asks
          have needed : s.torrentData.needed = true := by
            simp only [Peer.shouldSendMsgRequest, decide_eq_true_eq] at asks
            exact asks.2.1
          exact ⟨known needed, asking (.inr point) asks⟩
        · cases chosen
  | request =>
      rw [point] at advanced
      obtain ⟨⟨asked, claimed, exit⟩, requested, same⟩ := bind_eq_ok.mp advanced
      cases same
      have claims : s.torrentData.SameButClaims claimed := (Peer.sendMsgRequest_claims requested).1
      have kept := (Peer.sendMsgRequest_within requested).sized (by simp) sized
      rw [claims]
      exact ⟨known, fits, ⟨kept.interested, kept.sent⟩, by simp, by simp⟩
  | choking =>
      rw [point] at advanced
      obtain ⟨choked, choking, same⟩ := bind_eq_ok.mp advanced
      cases same
      exact ⟨known, fits, (Peer.runChoking_within choking).sized (by simp) sized, by simp, by simp⟩
  | message =>
      rw [point] at advanced
      obtain ⟨⟨read, queued⟩, reading, same⟩ := bind_eq_ok.mp advanced
      cases same
      exact ⟨known, fits, Peer.runMessage_sized reading fits sized, by simp, by simp⟩
  | silence =>
      rw [point] at advanced
      obtain ⟨waited, waiting, advanced⟩ := bind_eq_ok.mp advanced
      obtain ⟨⟨flushed, exit⟩, flushing, same⟩ := bind_eq_ok.mp advanced
      cases same
      have waits := (Peer.runSilence_within waiting).sized (by simp) sized
      have flushes := (Peer.runNetworkBuffers_within flushing).1.sized (by simp) waits
      exact ⟨known, fits, ⟨flushes.interested, flushes.sent⟩, by simp, by simp⟩

/-- Every step that comes in time keeps the invariant. -/
theorem step_standing {event : RaceEvent} (standing : s.Standing) (inTime : s.NeededInTime event)
    (stepped : s.step beDecode event = .ok next)
    : next.Standing := by
  cases event with
  | peer input => exact advance_standing standing stepped
  | other change =>
      cases stepped
      obtain ⟨known, fits, sized, asking, requesting⟩ := standing
      constructor
      · exact fun needed => (change.initialized _).trans (known (change.needed _ needed))
      · exact (change.pieceCount _).trans_lt fits
      · refine ⟨sized.interested, fun sent needed => ?_⟩
        rw [change.pieceCount]
        exact sized.sent sent (change.needed _ needed)
      · intro point asks
        simp only [Peer.shouldSendMsgRequest, decide_eq_true_eq] at asks
        have before : s.peer.shouldSendMsgRequest s.torrentData = true := by
          simp only [Peer.shouldSendMsgRequest, decide_eq_true_eq]
          exact ⟨asks.1, change.needed _ asks.2.1, asks.2.2⟩
        unfold CoversPieces
        rw [change.pieceCount]
        exact asking point before
      · intro point
        unfold CoversPieces
        rw [change.initialized, change.pieceCount]
        exact requesting point
  | main which =>
      obtain ⟨after, called, same⟩ := bind_eq_ok.mp stepped
      cases same
      obtain ⟨known, fits, sized, asking, requesting⟩ := standing
      obtain ⟨small, kept, needs⟩ := TorrentData.call_effect called fits
      constructor
      · intro needed
        rcases needs needed with rfl | ⟨-, initialized, -, rfl⟩
        · exact known needed
        · exact initialized
      · exact small
      · refine ⟨sized.interested, fun sent needed => ?_⟩
        rcases needs needed with rfl | ⟨unneeded, initialized, rfl, rfl⟩
        · exact sized.sent sent needed
        · exact (inTime unneeded initialized).2 sent
      · intro point asks
        have needed : after.needed = true := by
          simp only [Peer.shouldSendMsgRequest, decide_eq_true_eq] at asks
          exact asks.2.1
        rcases needs needed with rfl | ⟨unneeded, initialized, rfl, rfl⟩
        · exact asking point asks
        · exact (inTime unneeded initialized).1 point asks
      · intro point
        obtain ⟨initialized, covers⟩ := requesting point
        obtain ⟨still, pieces⟩ := kept initialized
        refine ⟨still, ?_⟩
        unfold CoversPieces
        rw [pieces]
        exact covers

/-- In every run whose data becomes needed in time, the bitfield of the peer covers the pieces
whenever it is read for a request.
-/
theorem readsCovered_of_neededInTime {final : RacingPeer} {events : List RaceEvent}
    (start : s.Start) (inTime : Guarded (step beDecode) NeededInTime s events)
    (ran : runSteps (step beDecode) s events = .ok final)
    : final.ReadsCovered :=
  have standing : final.Standing :=
    runSteps_invariant (fun _ _ _ standing inTime => step_standing standing inTime) start.standing
      inTime ran
  fun point => (standing.requesting point).2

-----------------------------------------------------------------------------------------
-- A bitfield of one byte
-----------------------------------------------------------------------------------------

/-- A new peer, and data of which nothing is known. -/
def newcomer : RacingPeer := ⟨.new 0, .new [46], .connection⟩

theorem newcomer_start : newcomer.Start :=
  ⟨rfl, rfl, rfl, rfl, rfl⟩

/-- Three runs: the peer connects, has all pieces of one byte of bits, and unchokes. -/
def offeringEvents : List RaceEvent :=
  let offer := RequestLog.plainHandshake ++ [0, 0, 0, 2, 5, 0xFF] ++ [0, 0, 0, 1, 1]
  List.replicate 8 (.peer (quietInput none))
  ++ List.replicate 8 (.peer (quietInput (some ⟨offer, by decide +kernel⟩)))
  ++ List.replicate 8 (.peer (quietInput none))

/-- The data has sixteen pieces. -/
def sixteenPieces : List RaceEvent :=
  [.addFile [47, 97] 16, .pieceSize 1, .chunkSize 16384, .dataSize 16, .need].map .main

/-- The data becomes needed between two runs. -/
def timelyEvents : List RaceEvent :=
  offeringEvents ++ sixteenPieces ++ List.replicate 6 (.peer (quietInput none))

/-- The data becomes needed behind the BITFIELD check. -/
def lateEvents : List RaceEvent :=
  offeringEvents
  ++ List.replicate 3 (.peer (quietInput none))
  ++ sixteenPieces
  ++ List.replicate 2 (.peer (quietInput none))

/-- Between two runs of a peer, to which no BITFIELD was sent, the data becomes needed in time. -/
def BetweenRuns (s : RacingPeer) : RaceEvent → Prop
  | .main .need => s.point = .connection ∧ s.peer.msgBitfieldSent = false
  | _ => True

instance (s : RacingPeer) : (event : RaceEvent) → Decidable (s.BetweenRuns event)
  | .main .need => inferInstanceAs (Decidable (_ ∧ _))
  | .main (.sha1Hashes _) | .main (.addFile _ _) | .main (.pieceSize _) | .main (.chunkSize _)
  | .main (.dataSize _) | .peer _ | .other _ => .isTrue trivial

theorem neededInTime_of_betweenRuns {event : RaceEvent} (between : s.BetweenRuns event)
    : s.NeededInTime event := by
  unfold NeededInTime
  split
  · obtain ⟨point, unsent⟩ := between
    refine fun _ _ => ⟨fun later => ?_, fun sent => ?_⟩
    · rw [point] at later
      rcases later with other | other <;> cases other
    · rw [unsent] at sent
      cases sent
  · trivial

/-- Witness: the bitfield of one byte is resized before it is read. -/
theorem readsCovered_of_neededInTime_sixteen
    : ∃ final,
        runSteps (step fun _ => none) newcomer timelyEvents = .ok final
        ∧ final.point = .request
        ∧ final.CoversPieces := by
  have returned : returnsWith (runSteps (step fun _ => none) newcomer timelyEvents)
      (fun final => final.point = .request) = true := by
    decide +kernel
  obtain ⟨final, ran, point⟩ := exists_ok_of_returnsWith returned
  rw [decide_eq_true_eq] at point
  have between : Guarded (step fun _ => none) BetweenRuns newcomer timelyEvents := by
    decide +kernel
  have inTime : Guarded (step fun _ => none) NeededInTime newcomer timelyEvents :=
    @Guarded.of_invariant _ _ _ _ BetweenRuns _ (fun _ => True)
      (fun _ _ _ met => ⟨neededInTime_of_betweenRuns met, fun _ _ => trivial⟩) _ _ trivial between
  exact ⟨final, ran, point, readsCovered_of_neededInTime newcomer_start inTime ran point⟩

/-- Behind the BITFIELD check nothing resizes the bitfield before it is read. -/
theorem late_need_reads_past
    : ¬ ∀ (s final : RacingPeer) (events : List RaceEvent),
        s.Start
        → runSteps (step fun _ => none) s events = .ok final
        → final.ReadsCovered := by
  intro claim
  have returned : returnsWith (runSteps (step fun _ => none) newcomer lateEvents)
      (fun final =>
        final.point = .request
        ∧ final.torrentData.pieceCount = 16
        ∧ final.peer.peerBitfield.map (·.bytesCount) = some 1)
      = true := by
    decide +kernel
  obtain ⟨final, ran, observed⟩ := exists_ok_of_returnsWith returned
  obtain ⟨point, pieces, bytes⟩ := of_decide_eq_true observed
  obtain ⟨field, present, inside⟩ := claim newcomer final lateEvents newcomer_start ran point 8
    (by rw [pieces]; decide)
  rw [present, Option.map_some, Option.some.injEq] at bytes
  omega

end RacingPeer

end UvgTorrent

import UvgTorrent.Claims.ClaimList
import UvgTorrent.Peers.Connections

/-! `peer_ut_metadata.c`: the extended handshake, and the request that initializes the metadata
with the size that a peer has announced. A message comes here with what `be_decode` makes of it.
-/

namespace UvgTorrent

open Foundations

/-- `METADATA_PIECE_SIZE`. -/
def metadataPieceSize : Nat := 262144

/-- `METADATA_CHUNK_SIZE`. -/
def metadataChunkSize : Nat := 16384

/-- The path that the metadata is stored under. -/
def metadataPath : CString := ascii "/metadata.bencode"

/-- The initialization in `peer_send_ut_metadata_request`; the `int` is sign-extended. -/
def TorrentData.initialiseMetadata (td : TorrentData) (utMetadataSize : Int)
    : Except Fault TorrentData :=
  if td.initialized then .ok td
  else
    let td := (td.setPieceSize metadataPieceSize).setChunkSize metadataChunkSize
    let td := td.addFile metadataPath (u64OfInt utMetadataSize)
    (td.setDataSize (u64OfInt utMetadataSize)).bind fun (_, td) => .ok td

namespace Peer

/-- `peer_supports_ut_metadata`. -/
def supportsUtMetadata (p : Peer) : Bool := 0 < p.utMetadata ∧ p.status = .handshakeComplete

/-- `peer_should_send_ut_metadata_request`. -/
def shouldSendUtMetadataRequest (p : Peer) (torrentMetadata : TorrentData) : Bool :=
  torrentMetadata.needed ∧ p.supportsUtMetadata ∧ p.status = .handshakeComplete

/-- `peer_handle_ut_metadata_handshake`: the numbers are cut to 32 bits and kept as `int`. An absent
number is -1.
-/
def handleUtMetadataHandshake (p : Peer) (decoded : Option BeNode) : Peer × Exit :=
  match decoded with
  | none => (p, .failure)
  | some d =>
      match d.dictLookup (ascii "m") with
      | none => (p, .failure)
      | some m =>
          ({
              p with
              utMetadata := wrap32 (m.dictLookupNum (ascii "ut_metadata"))
              utMetadataSize := wrap32 (d.dictLookupNum (ascii "metadata_size"))
            }, .success)

/-- `peer_handle_msg_extension` for the extended handshake. -/
def handleExtendedHandshake (p : Peer) (decoded : Option BeNode) (now : Int) : Peer :=
  match p.handleUtMetadataHandshake decoded with
  | (p, .success) => p
  | (p, .failure) => p.disconnect now

/-- The bitfield of the chunks that `peer_send_ut_metadata_request` has not asked for yet. The sum
of the two `int`s is taken to wrap around.
-/
def prepareRequested (p : Peer) : Except Fault Peer :=
  match p.utMetadataRequested with
  | some _ => .ok p
  | none =>
      let chunkCount := (wrap32 (p.utMetadataSize + (metadataChunkSize - 1))).tdiv metadataChunkSize
      (Bitfield.make (u64OfInt (wrap32 chunkCount)) 1 0xFF).bind fun requested =>
        .ok { p with utMetadataRequested := requested }

/-- The message of `peer_send_ut_metadata_request` for a chunk. -/
def utMetadataRequest (p : Peer) (chunk : Nat) : Bytes :=
  extensionMessage (UInt8.ofInt p.utMetadata)
    (BeNode.dict [(ascii "msg_type", .num 0), (ascii "piece", .num chunk)]).encode

/-- `peer_send_ut_metadata_request`. The claim has no timeout and leaves no trace; a missing
bitfield is read as soon as there is a chunk to claim.
-/
def sendUtMetadataRequest (p : Peer) (torrentMetadata : TorrentData) (clock : Nat → Int)
    : Except Fault (Peer × TorrentData × Exit) :=
  p.prepareRequested.bind fun p =>
    (torrentMetadata.initialiseMetadata p.utMetadataSize).bind fun torrentMetadata =>
      match p.utMetadataRequested with
      | none =>
          if torrentMetadata.chunkCount = 0 then .ok (p, torrentMetadata, .failure)
          else .error .nullPointer
      | some requested =>
          (torrentMetadata.claimChunk requested 0 1 clock).bind fun
            | (torrentMetadata, .success, some chunk :: _) =>
                let p := { p with utMetadataRequested := some (requested.setBit chunk 0) }
                (p.write (p.utMetadataRequest chunk)).bind fun (p, result) =>
                  .ok
                    (p, torrentMetadata,
                      if result = (p.utMetadataRequest chunk).length then .success else .failure)
            | (torrentMetadata, _, _) => .ok (p, torrentMetadata, .failure)

end Peer

/-- What the steps of a `peer_run` before the request do to the peer: a connection or a disconnect
leaves the announced size or clears it.
-/
structure ConnectionEffect where
  apply : Peer → Peer
  keepsSize
    : ∀ p, (apply p).utMetadataSize = p.utMetadataSize ∨ (apply p).utMetadataSize = 0

/-- One `peer_run`: its connection, and the extended handshake that it reads, if any, with what the
message decodes to.
-/
structure MetadataRun (Id : Type) where
  peer : Id
  connection : ConnectionEffect
  handshake : Option (Option BeNode)
  clock : Nat → Int
  now : Int

/-- The metadata and the peers that ask for it. -/
structure MetadataExchange (Id : Type) where
  torrentMetadata : TorrentData
  peers : Id → Peer

namespace MetadataExchange

variable {Id : Type}

/-- A `peer_run`, as far as it is about the metadata: a request, and then a message. -/
def step [DecidableEq Id] (s : MetadataExchange Id) (run : MetadataRun Id)
    : Except Fault (MetadataExchange Id) :=
  let p := run.connection.apply (s.peers run.peer)
  (if p.shouldSendUtMetadataRequest s.torrentMetadata then
    (p.sendUtMetadataRequest s.torrentMetadata run.clock).bind fun (p, torrentMetadata, _) =>
      .ok (p, torrentMetadata)
  else .ok (p, s.torrentMetadata)).bind fun (p, torrentMetadata) =>
    let p := match run.handshake with
      | none => p
      | some decoded => p.handleExtendedHandshake decoded run.now
    .ok { torrentMetadata, peers := Function.update s.peers run.peer p }

/-- A metadata size that can be worked with: the counts are those of the data, and the one file has
its length.
-/
structure Usable (td : TorrentData) : Prop where
  positive : 0 < td.dataSize
  fits : td.dataSize < 2 ^ 31
  chunkCount : td.chunkCount = ((td.dataSize + 16383) / 16384 : Nat)
  chunks : 1 ≤ td.chunkCount
  pieces : 1 ≤ td.pieceCount
  oneFile : ∃ file, td.files = [file] ∧ file.fileSize = td.dataSize

/-- When a run initializes the metadata, its peer has announced a size above 0. -/
def SizeKnown (s : MetadataExchange Id) (run : MetadataRun Id) : Prop :=
  let p := run.connection.apply (s.peers run.peer)
  s.torrentMetadata.initialized = false
  → p.shouldSendUtMetadataRequest s.torrentMetadata = true
  → 0 < p.utMetadataSize

instance (s : MetadataExchange Id) (run : MetadataRun Id) : Decidable (s.SizeKnown run) :=
  inferInstanceAs (Decidable (_ → _ → _))

end MetadataExchange

-----------------------------------------------------------------------------------------
-- What a request does to the metadata
-----------------------------------------------------------------------------------------

namespace TorrentData

variable {td after : TorrentData} {interested : Bitfield} {clock : Nat → Int}

theorem claimLoop_without_timeout {remaining chunk : Nat} {out : List (Option Nat)}
    (claimed : claimLoop interested 0 clock remaining chunk td = .ok (after, out))
    : after = td := by
  induction remaining generalizing chunk out with
  | zero =>
      cases claimed
      rfl
  | succ remaining ih =>
      unfold claimLoop at claimed
      split at claimed
      · cases claimed
      · obtain ⟨found, _, claimed⟩ := bind_eq_ok.mp claimed
        obtain ⟨⟨later, rest⟩, looped, claimed⟩ := bind_eq_ok.mp claimed
        cases claimed
        cases found with
        | none => exact ih looped
        | some index => exact ih looped

/-- A claim without a timeout leaves the struct as it is. -/
theorem claimChunk_without_timeout {numChunks : Int} {exit : Exit} {out : List (Option Nat)}
    (claimed : td.claimChunk interested 0 numChunks clock = .ok (after, exit, out))
    : after = td := by
  unfold claimChunk at claimed
  split at claimed
  · split at claimed
    · cases claimed
    · obtain ⟨⟨later, found⟩, looped, claimed⟩ := bind_eq_ok.mp claimed
      cases claimed
      exact claimLoop_without_timeout looped
  · cases claimed
    rfl

/-- The metadata just before its size is set. -/
def withMetadataFile (td : TorrentData) (size : Int) : TorrentData :=
  ((td.setPieceSize metadataPieceSize).setChunkSize metadataChunkSize).addFile metadataPath
    (u64OfInt size)

theorem withMetadataFile_initialized (untouched : td.initialized = false) (size : Int)
    : (td.withMetadataFile size).initialized = false :=
  untouched

/-- The counts of metadata of some size. -/
theorem withMetadataFile_counts (td : TorrentData) (size : Int)
    : ((td.withMetadataFile size).initialisedWith (u64OfInt size)).chunkCount
        = wrap32 (u64 (u64OfInt size + 16383) / 16384 : Nat)
      ∧ ((td.withMetadataFile size).initialisedWith (u64OfInt size)).pieceCount
        = wrap32 (u64 (u64OfInt size + 262143) / 262144 : Nat) := by
  have chunk : u64Sub metadataChunkSize 1 = 16383 := by decide
  have piece : u64Sub metadataPieceSize 1 = 262143 := by decide
  have chunkSize : (td.withMetadataFile size).chunkSize = metadataChunkSize := rfl
  have pieceSize : (td.withMetadataFile size).pieceSize = metadataPieceSize := rfl
  unfold initialisedWith
  dsimp only
  rw [chunkSize, pieceSize, chunk, piece]
  exact ⟨rfl, rfl⟩

/-- The metadata as a first request leaves it. -/
theorem initialiseMetadata_eq {size : Int} (untouched : td.initialized = false)
    (initialised : td.initialiseMetadata size = .ok after)
    : after.initialized = true
      ∧ after.dataSize = u64OfInt size
      ∧ after.chunkCount = wrap32 (u64 (u64OfInt size + 16383) / 16384 : Nat)
      ∧ after.pieceCount = wrap32 (u64 (u64OfInt size + 262143) / 262144 : Nat)
      ∧ after.claimed = Bitfield.new (u64OfInt after.chunkCount) 0 0xFF
      ∧ after.files
        = td.files
          ++ [{
                fp := none
                filePath := td.rootPath ++ metadataPath
                fileOffset := td.filesSize
                fileSize := u64OfInt size
              }] := by
  rw [initialiseMetadata, untouched, if_neg Bool.false_ne_true] at initialised
  obtain ⟨⟨exit, sized⟩, set, same⟩ := bind_eq_ok.mp initialised
  cases same
  change (td.withMetadataFile size).setDataSize (u64OfInt size) = _ at set
  rcases setDataSize_cases set with ⟨already | noChunks, _⟩ | ⟨_, _, _, _, rfl⟩
  · rw [withMetadataFile_initialized untouched] at already
    cases already
  · exact absurd noChunks (show metadataChunkSize ≠ 0 by decide)
  · obtain ⟨chunks, pieces⟩ := withMetadataFile_counts td size
    exact ⟨rfl, rfl, chunks, pieces, initialisedWith_claimed _ _, rfl⟩

/-- A first request with an announced size returns. -/
theorem initialiseMetadata_returns {size : Int} (untouched : td.initialized = false)
    (positive : 0 < size) (fits : size < 2 ^ 31)
    : ∃ after, td.initialiseMetadata size = .ok after := by
  obtain ⟨bytes, rfl⟩ := Int.eq_ofNat_of_zero_le (Int.le_of_lt positive)
  have set : (td.withMetadataFile bytes).setDataSize (u64OfInt bytes)
      = .ok (.success, (td.withMetadataFile bytes).initialisedWith (u64OfInt bytes)) := by
    refine setDataSize_of_fits (withMetadataFile_initialized untouched bytes)
      (show metadataChunkSize ≠ 0 by decide) (show metadataPieceSize ≠ 0 by decide) ?_
    rw [(withMetadataFile_counts td bytes).1, u64OfInt_natCast (by omega), u64_of_lt (by omega),
      wrap32_natCast (by omega), u64OfInt_natCast (by omega)]
    omega
  rw [initialiseMetadata, untouched, if_neg Bool.false_ne_true]
  exact ⟨_, bind_of_ok set _⟩

theorem initialiseMetadata_of_initialized (initialized : td.initialized = true) (size : Int)
    : td.initialiseMetadata size = .ok td := by
  rw [initialiseMetadata, if_pos initialized]

end TorrentData

namespace Peer

variable {p next : Peer} {td after : TorrentData} {clock : Nat → Int} {exit : Exit}

theorem prepareRequested_size (prepared : p.prepareRequested = .ok next)
    : next.utMetadataSize = p.utMetadataSize := by
  unfold prepareRequested at prepared
  split at prepared
  · cases prepared
    rfl
  · obtain ⟨requested, _, same⟩ := bind_eq_ok.mp prepared
    cases same
    rfl

theorem write_size {data : Bytes} {result : Nat} (wrote : p.write data = .ok (next, result))
    : next.utMetadataSize = p.utMetadataSize := by
  unfold write at wrote
  split at wrote
  · cases wrote
    rfl
  · obtain ⟨_, _, wrote⟩ := bind_eq_ok.mp wrote
    cases wrote
    rfl

/-- A request initializes the metadata, and does nothing else to it. -/
theorem sendUtMetadataRequest_metadata
    (sent : p.sendUtMetadataRequest td clock = .ok (next, after, exit))
    : td.initialiseMetadata p.utMetadataSize = .ok after
      ∧ next.utMetadataSize = p.utMetadataSize := by
  obtain ⟨prepared, prepares, sent⟩ := bind_eq_ok.mp sent
  have size := prepareRequested_size prepares
  obtain ⟨initialised, first, sent⟩ := bind_eq_ok.mp sent
  rw [size] at first
  split at sent
  · split at sent
    · cases sent
      exact ⟨first, size⟩
    · cases sent
  · obtain ⟨⟨claimedTd, claimExit, out⟩, claimed, sent⟩ := bind_eq_ok.mp sent
    cases TorrentData.claimChunk_without_timeout claimed
    dsimp only at sent
    split at sent
    · rename_i claimResult
      cases claimResult
      obtain ⟨⟨written, result⟩, wrote, sent⟩ := bind_eq_ok.mp sent
      cases sent
      exact ⟨first, (write_size wrote).trans size⟩
    · rename_i claimResult
      cases claimResult
      cases sent
      exact ⟨first, size⟩

end Peer

namespace MetadataExchange

variable {Id : Type}

/-- Announced sizes are `int`s, and the metadata has no file before it is initialized. -/
structure Standing (s : MetadataExchange Id) : Prop where
  lower : ∀ peer, -2 ^ 31 ≤ (s.peers peer).utMetadataSize
  upper : ∀ peer, (s.peers peer).utMetadataSize < 2 ^ 31
  unset : s.torrentMetadata.initialized = false → s.torrentMetadata.files = []

/-- Before any peer has announced a size, and before the metadata is initialized. -/
structure Fresh (s : MetadataExchange Id) : Prop where
  sizes : ∀ peer, (s.peers peer).utMetadataSize = 0
  untouched : s.torrentMetadata.initialized = false
  unset : s.torrentMetadata.files = []

/-- What a first request makes of the metadata is usable exactly when the size is above 0. -/
theorem usable_iff {td after : TorrentData} {size : Int} (untouched : td.initialized = false)
    (unset : td.files = []) (lower : -2 ^ 31 ≤ size) (upper : size < 2 ^ 31)
    (initialised : td.initialiseMetadata size = .ok after)
    : after.initialized = true ∧ (Usable after ↔ 0 < size) := by
  obtain ⟨flag, dataSize, chunkCount, pieceCount, _, files⟩ :=
    TorrentData.initialiseMetadata_eq untouched initialised
  refine ⟨flag, ?_, ?_⟩
  · intro usable
    have positive := usable.positive
    have fits := usable.fits
    rw [dataSize] at positive fits
    unfold u64OfInt at positive fits
    omega
  · intro positive
    obtain ⟨n, rfl⟩ := Int.eq_ofNat_of_zero_le (Int.le_of_lt positive)
    rw [u64OfInt_natCast (by omega)] at dataSize chunkCount pieceCount files
    rw [u64_of_lt (by omega), wrap32_natCast (by omega)] at chunkCount pieceCount
    constructor
    · omega
    · omega
    · rw [chunkCount, dataSize]
    · omega
    · omega
    · exact ⟨_, by rw [files, unset]; rfl, by rw [dataSize]⟩

theorem handleExtendedHandshake_size (p : Peer) (decoded : Option BeNode) (now : Int)
    : (p.handleExtendedHandshake decoded now).utMetadataSize = p.utMetadataSize
      ∨ (p.handleExtendedHandshake decoded now).utMetadataSize = 0
      ∨ ∃ value, (p.handleExtendedHandshake decoded now).utMetadataSize = wrap32 value := by
  unfold Peer.handleExtendedHandshake Peer.handleUtMetadataHandshake
  cases decoded with
  | none => exact .inr (.inl rfl)
  | some d =>
      dsimp only
      cases d.dictLookup (ascii "m") with
      | none => exact .inr (.inl rfl)
      | some m => exact .inr (.inr ⟨_, rfl⟩)

theorem wrap32_fits (x : Int) : -2 ^ 31 ≤ wrap32 x ∧ wrap32 x < 2 ^ 31 := by
  unfold wrap32
  omega

variable [DecidableEq Id] {s next : MetadataExchange Id} {run : MetadataRun Id}

/-- One run initializes the metadata with the size its peer has announced, or leaves it alone. -/
theorem step_cases (stepped : s.step run = .ok next)
    : ∃ p,
        next.peers = Function.update s.peers run.peer p
        ∧ (p.utMetadataSize = (s.peers run.peer).utMetadataSize
          ∨ p.utMetadataSize = 0
          ∨ ∃ value, p.utMetadataSize = wrap32 value)
        ∧ (if (run.connection.apply (s.peers run.peer)).shouldSendUtMetadataRequest
              s.torrentMetadata then
            s.torrentMetadata.initialiseMetadata
                (run.connection.apply (s.peers run.peer)).utMetadataSize
              = .ok next.torrentMetadata
          else next.torrentMetadata = s.torrentMetadata) := by
  obtain ⟨⟨p, torrentMetadata⟩, requested, stepped⟩ := bind_eq_ok.mp stepped
  cases stepped
  have connected := run.connection.keepsSize (s.peers run.peer)
  have request : p.utMetadataSize = (run.connection.apply (s.peers run.peer)).utMetadataSize
      ∧ (if (run.connection.apply (s.peers run.peer)).shouldSendUtMetadataRequest
            s.torrentMetadata then
          s.torrentMetadata.initialiseMetadata
              (run.connection.apply (s.peers run.peer)).utMetadataSize
            = .ok torrentMetadata
        else torrentMetadata = s.torrentMetadata) := by
    split at requested
    · rename_i sends
      obtain ⟨⟨sender, after, exit⟩, sent, requested⟩ := bind_eq_ok.mp requested
      cases requested
      rw [if_pos sends]
      exact (Peer.sendUtMetadataRequest_metadata sent).symm
    · rename_i silent
      cases requested
      rw [if_neg silent]
      exact ⟨rfl, rfl⟩
  refine ⟨_, rfl, ?_, request.2⟩
  rw [← request.1] at connected
  cases run.handshake with
  | none => exact connected.imp_right .inl
  | some decoded =>
      rcases handleExtendedHandshake_size p decoded run.now with kept | read
      · exact (connected.imp kept.trans fun zero => .inl (kept.trans zero))
      · exact .inr read

theorem Standing.step (standing : s.Standing) (stepped : s.step run = .ok next)
    : next.Standing
      ∧ ((next.torrentMetadata.initialized = true → Usable next.torrentMetadata)
        ↔ (s.torrentMetadata.initialized = true → Usable s.torrentMetadata)
          ∧ s.SizeKnown run) := by
  obtain ⟨p, peers, size, metadata⟩ := step_cases stepped
  have sizeFits : -2 ^ 31 ≤ p.utMetadataSize ∧ p.utMetadataSize < 2 ^ 31 := by
    rcases size with kept | zero | ⟨value, read⟩
    · rw [kept]
      exact ⟨standing.lower _, standing.upper _⟩
    · rw [zero]
      norm_num
    · rw [read]
      exact wrap32_fits value
  have lower : ∀ peer, -2 ^ 31 ≤ (next.peers peer).utMetadataSize := by
    intro peer
    rw [peers, Function.update_apply]
    split
    · exact sizeFits.1
    · exact standing.lower peer
  have upper : ∀ peer, (next.peers peer).utMetadataSize < 2 ^ 31 := by
    intro peer
    rw [peers, Function.update_apply]
    split
    · exact sizeFits.2
    · exact standing.upper peer
  have announced : -2 ^ 31 ≤ (run.connection.apply (s.peers run.peer)).utMetadataSize
      ∧ (run.connection.apply (s.peers run.peer)).utMetadataSize < 2 ^ 31 := by
    rcases run.connection.keepsSize (s.peers run.peer) with kept | zero
    · rw [kept]
      exact ⟨standing.lower _, standing.upper _⟩
    · rw [zero]
      norm_num
  split at metadata
  · rename_i sends
    cases known : s.torrentMetadata.initialized with
    | true =>
        rw [TorrentData.initialiseMetadata_of_initialized known] at metadata
        injection metadata with same
        rw [← same]
        refine ⟨⟨lower, upper, by rw [← same]; exact standing.unset⟩, ?_⟩
        simp [SizeKnown, known]
    | false =>
        obtain ⟨flag, usable⟩ :=
          usable_iff known (standing.unset known) announced.1 announced.2 metadata
        refine ⟨⟨lower, upper, fun unset => (by rw [flag] at unset; cases unset)⟩, ?_⟩
        simp [SizeKnown, known, sends, flag, usable]
  · rename_i silent
    rw [metadata]
    refine ⟨⟨lower, upper, by rw [metadata]; exact standing.unset⟩, ?_⟩
    simp [SizeKnown, silent]

/-- After any sequence of runs, the metadata is usable when it is initialized if and only if every
run that initializes it does so for a peer that has announced a size above 0.
-/
theorem metadata_usable_iff (fresh : s.Fresh) {runs : List (MetadataRun Id)}
    {final : MetadataExchange Id} (ran : runSteps step s runs = .ok final)
    : (final.torrentMetadata.initialized = true → Usable final.torrentMetadata)
      ↔ Guarded step SizeKnown s runs := by
  have standing : s.Standing := by
    refine ⟨?_, ?_, fun _ => fresh.unset⟩
    · intro peer
      rw [fresh.sizes]
      norm_num
    · intro peer
      rw [fresh.sizes]
      norm_num
  have goodStart : s.torrentMetadata.initialized = true → Usable s.torrentMetadata := by
    intro initialized
    rw [fresh.untouched] at initialized
    cases initialized
  rw [runSteps_good_iff (fun _ _ _ standing _ stepped => standing.step stepped) standing
    (Guarded.of_forall (fun _ _ => trivial) s runs) ran]
  exact and_iff_right goodStart

/-- One handshaken peer, and metadata that is still needed. -/
def onePeer : MetadataExchange Unit :=
  {
    torrentMetadata := { TorrentData.new [46] with needed := true }
    peers := fun _ =>
      {
        Peer.new 0 with
        socket := some { BufferedSocket.new with socket := 3 }
        status := .handshakeComplete
      }
  }

theorem onePeer_fresh : onePeer.Fresh := ⟨fun _ => rfl, rfl, rfl⟩

/-- The extended handshake that this client sends itself for a metadata size. -/
def announcement (size : Nat) : MetadataRun Unit :=
  {
    peer := ()
    connection := ⟨id, fun _ => .inl rfl⟩
    handshake := some (some (Peer.extendedHandshake size))
    clock := fun _ => 0
    now := 0
  }

/-- A run that reads no message. -/
def quietRun : MetadataRun Unit := { announcement 0 with handshake := none }

/-- Witness: a peer that announces 1000 bytes. -/
theorem metadata_usable_iff_announced
    : ∃ final,
        runSteps step onePeer [announcement 1000, quietRun] = .ok final
        ∧ final.torrentMetadata.initialized = true
        ∧ Usable final.torrentMetadata := by
  have returned : returnsWith (runSteps step onePeer [announcement 1000, quietRun])
      (fun final => final.torrentMetadata.initialized) = true := by
    decide +kernel
  obtain ⟨final, ran, initialized⟩ := exists_ok_of_returnsWith returned
  have known : Guarded step SizeKnown onePeer [announcement 1000, quietRun] := by
    decide +kernel
  exact ⟨final, ran, initialized, (metadata_usable_iff onePeer_fresh ran).mpr known initialized⟩

/-- A peer that does not know the metadata yet announces 0, and the metadata gets that size. -/
theorem metadata_initialised_with_zero
    : ¬ ∀ (s final : MetadataExchange Unit) (runs : List (MetadataRun Unit)),
        s.Fresh
        → runSteps step s runs = .ok final
        → final.torrentMetadata.initialized = true
        → Usable final.torrentMetadata := by
  intro claim
  have returned : returnsWith (runSteps step onePeer [announcement 0, quietRun])
      (fun final => final.torrentMetadata.initialized
        && decide (final.torrentMetadata.dataSize = 0)) = true := by
    decide +kernel
  obtain ⟨final, ran, tested⟩ := exists_ok_of_returnsWith returned
  rw [Bool.and_eq_true, decide_eq_true_iff] at tested
  have positive := (claim onePeer final _ onePeer_fresh ran tested.1).positive
  omega

end MetadataExchange

end UvgTorrent

import UvgTorrent.Claims.ClaimSteps
import UvgTorrent.Peers.Footprints

/-! The scan of `torrent_data_claim_chunk` for a chunk of the metadata. It is bounded by the
bitfield of the metadata, which has the size that one peer announced, and reads the bitfield of
another peer.
-/

namespace UvgTorrent

open Foundations

-----------------------------------------------------------------------------------------
-- One scan
-----------------------------------------------------------------------------------------

namespace TorrentData

variable {td : TorrentData} {claimed requested : Bitfield} {clock : Nat → Int}

/-- A scan over unclaimed chunks that finds none has read every bit, and none was set. -/
theorem firstClaimable_none {remaining start index : Nat}
    (clear : ∀ index < start + remaining, claimed.bit index = false)
    (scanned : firstClaimable claimed requested remaining start = .ok none)
    (above : start ≤ index) (below : index < start + remaining)
    : index / 8 < requested.bytesCount ∧ requested.bit index = false := by
  induction remaining generalizing start with
  | zero => omega
  | succ remaining ih =>
      obtain ⟨taken, read, scanned⟩ := bind_eq_ok.mp scanned
      have unclaimed : taken = false := by
        unfold Bitfield.getBit at read
        split at read
        · simpa [clear start (by omega)] using read.symm
        · cases read
      subst unclaimed
      obtain ⟨wanted, read, scanned⟩ := bind_eq_ok.mp scanned
      cases wanted with
      | true => cases scanned
      | false =>
          by_cases here : index = start
          · subst here
            unfold Bitfield.getBit at read
            split at read
            · rename_i inside
              exact ⟨by simpa using inside, by simpa using read⟩
            · cases read
          · exact ih (fun other less => clear other (by omega)) scanned (by omega) (by omega)

/-- A scan stops at a wanted chunk at the latest, when nothing is claimed. -/
theorem firstClaimable_reaches {remaining start target : Nat}
    (within : start + remaining ≤ claimed.bitCount)
    (clear : ∀ index < start + remaining, claimed.bit index = false)
    (above : start ≤ target) (below : target < start + remaining)
    (inside : target / 8 < requested.bytesCount) (wanted : requested.bit target = true)
    : ∃ chunk ≤ target, firstClaimable claimed requested remaining start = .ok (some chunk) := by
  induction remaining generalizing start with
  | zero => omega
  | succ remaining ih =>
      have unclaimed : claimed.getBit start = .ok false := by
        rw [Bitfield.getBit_of_lt (by omega), clear start (by omega)]
      have read : requested.getBit start = .ok (requested.bit start) :=
        Bitfield.getBit_of_inside (by omega)
      simp only [firstClaimable]
      rw [bind_of_ok unclaimed, if_neg nofun, bind_of_ok read]
      cases here : requested.bit start with
      | true => exact ⟨start, above, rfl⟩
      | false =>
          have apart : start ≠ target := by
            rintro rfl
            rw [wanted] at here
            cases here
          exact ih (by omega) (fun other less => clear other (by omega)) (by omega) (by omega)

/-- A scan within the chunks of the peer's bitfield reads inside it. -/
theorem firstClaimable_covered {remaining start : Nat}
    (within : start + remaining ≤ claimed.bitCount)
    (covered : start + remaining ≤ requested.bitCount)
    : ∃ found, firstClaimable claimed requested remaining start = .ok found := by
  induction remaining generalizing start with
  | zero => exact ⟨none, rfl⟩
  | succ remaining ih =>
      obtain ⟨found, rest⟩ := @ih (start + 1) (by omega) (by omega)
      simp only [firstClaimable]
      rw [bind_of_ok (Bitfield.getBit_of_lt (by omega))]
      split
      · exact ⟨found, rest⟩
      · rw [bind_of_ok (Bitfield.getBit_of_lt (by omega))]
        split
        · exact ⟨some start, rfl⟩
        · exact ⟨found, rest⟩

/-- The claim of one chunk without a timeout is one scan. -/
theorem claimChunk_one (initialized : td.initialized = true) (field : td.claimed = some claimed)
    : td.claimChunk requested 0 1 clock
      = (firstClaimable claimed requested claimed.bitCount 0).bind fun found =>
          .ok (td, if found.isSome then .success else .failure, [found]) := by
  simp only [claimChunk, initialized, if_true, field, Int.toNat_one, claimLoop]
  cases firstClaimable claimed requested claimed.bitCount 0 with
  | error fault => rfl
  | ok found => cases found <;> rfl

end TorrentData

namespace Peer

/-- `peer_send_ut_metadata_request` behind the initialisation of the metadata. -/
def claimMetadata (p : Peer) (torrentMetadata : TorrentData) (clock : Nat → Int)
    : Except Fault (Peer × TorrentData × Exit) :=
  match p.utMetadataRequested with
  | none =>
      if torrentMetadata.chunkCount = 0 then .ok (p, torrentMetadata, .failure)
      else .error .nullPointer
  | some requested =>
      (torrentMetadata.claimChunk requested 0 1 clock).bind fun
        | (torrentMetadata, .success, some chunk :: _) =>
            let p := { p with utMetadataRequested := some (requested.setBit chunk 0) }
            (p.write (p.utMetadataRequest chunk)).bind fun (p, result) =>
              .ok
                (p, torrentMetadata,
                  if result = (p.utMetadataRequest chunk).length then .success else .failure)
        | (torrentMetadata, _, _) => .ok (p, torrentMetadata, .failure)

variable {p next : Peer} {td after : TorrentData} {clock : Nat → Int} {exit : Exit}
  {claimed : Bitfield}

/-- A request is a preparation, the initialisation, and a claim. -/
theorem sendUtMetadataRequest_eq (p : Peer) (td : TorrentData) (clock : Nat → Int)
    : p.sendUtMetadataRequest td clock
      = p.prepareRequested.bind fun p =>
          (td.initialiseMetadata p.utMetadataSize).bind fun td => p.claimMetadata td clock :=
  rfl

/-- The claim has a bitfield to read and reads inside it, and a chunk that it takes is one of both
bitfields.
-/
def ClaimStays (p : Peer) (td : TorrentData) (clock : Nat → Int) : Prop :=
  ∃ requested claimed exit found,
    p.utMetadataRequested = some requested
    ∧ td.claimed = some claimed
    ∧ td.claimChunk requested 0 1 clock = .ok (td, exit, [found])
    ∧ ∀ chunk, found = some chunk → chunk < requested.bitCount ∧ chunk < claimed.bitCount

/-- The bitfield of the peer is there, and it has as many chunks as the metadata or one that was not
asked for.
-/
def CanAsk (p : Peer) (td : TorrentData) : Prop :=
  match p.utMetadataRequested, td.claimed with
  | some requested, some claimed =>
      claimed.bitCount ≤ requested.bitCount
      ∨ ∃ chunk < requested.bitCount, requested.bit chunk = true
  | _, _ => False

instance (p : Peer) (td : TorrentData) : Decidable (p.CanAsk td) := by
  unfold CanAsk
  split <;> infer_instance

/-- A claim on chunks that nobody has claimed stays inside exactly when the peer can ask. -/
theorem claimStays_iff (initialized : td.initialized = true) (field : td.claimed = some claimed)
    (clear : ∀ index < claimed.bitCount, claimed.bit index = false)
    (spare : ∀ requested, p.utMetadataRequested = some requested → requested.SpareSet)
    : p.ClaimStays td clock ↔ p.CanAsk td := by
  unfold ClaimStays CanAsk
  cases present : p.utMetadataRequested with
  | none =>
      constructor
      · rintro ⟨_, _, _, _, absent, -⟩
        cases absent
      · exact False.elim
  | some requested =>
      have bytes := requested.bytesCount_eq
      rw [field]
      dsimp only
      constructor
      · rintro ⟨_, _, exit, found, same, sameClaimed, claims, valid⟩
        cases same
        cases sameClaimed
        rw [TorrentData.claimChunk_one initialized field] at claims
        obtain ⟨result, scanned, claims⟩ := bind_eq_ok.mp claims
        cases claims
        by_contra neither
        obtain ⟨more, asked⟩ := not_or.mp neither
        cases found with
        | some chunk =>
            have wanted := TorrentData.firstClaimable_wanted scanned
            exact asked ⟨chunk, (valid chunk rfl).1, wanted⟩
        | none =>
            -- the scan goes on to the first spare bit, which is set, or behind the last byte
            obtain ⟨inside, unset⟩ := @TorrentData.firstClaimable_none claimed requested
              claimed.bitCount 0 requested.bitCount (fun index less => clear index (by omega))
              scanned
              (by omega) (by omega)
            rw [spare requested present requested.bitCount (Nat.le_refl _) inside] at unset
            cases unset
      · intro room
        have scan : ∃ found,
            TorrentData.firstClaimable claimed requested claimed.bitCount 0 = .ok found
            ∧ ∀ chunk, found = some chunk → chunk < requested.bitCount := by
          by_cases covered : claimed.bitCount ≤ requested.bitCount
          · obtain ⟨found, scanned⟩ := @TorrentData.firstClaimable_covered claimed requested
              claimed.bitCount 0 (by omega) (by omega)
            refine ⟨found, scanned, ?_⟩
            rintro chunk rfl
            have below := (TorrentData.firstClaimable_eq_some scanned).2.1
            omega
          · obtain ⟨target, below, wanted⟩ := room.resolve_left covered
            obtain ⟨chunk, early, scanned⟩ := @TorrentData.firstClaimable_reaches claimed requested
              claimed.bitCount 0 target (by omega) (fun index less => clear index (by omega))
              (by omega) (by omega) (by omega) wanted
            refine ⟨some chunk, scanned, ?_⟩
            rintro other same
            cases same
            omega
        obtain ⟨found, scanned, valid⟩ := scan
        refine ⟨requested, claimed, _, found, rfl, rfl,
          (TorrentData.claimChunk_one initialized field).trans (bind_of_ok scanned _),
          fun chunk same => ⟨valid chunk same, ?_⟩⟩
        subst same
        have below := (TorrentData.firstClaimable_eq_some scanned).2.1
        omega

end Peer

-----------------------------------------------------------------------------------------
-- The bitfields of a call
-----------------------------------------------------------------------------------------

/-- Metadata of an announced size has no claimed chunk. -/
theorem TorrentData.initialiseMetadata_unclaimed {td : TorrentData} {size : Int}
    (untouched : td.initialized = false) (positive : 0 < size) (fits : size < 2 ^ 31)
    : ∃ after claimed,
        td.initialiseMetadata size = .ok after
        ∧ after.initialized = true
        ∧ after.claimed = some claimed
        ∧ claimed.bitCount < 2 ^ 31
        ∧ ∀ index < claimed.bitCount, claimed.bit index = false := by
  obtain ⟨after, returned⟩ := initialiseMetadata_returns untouched positive fits
  obtain ⟨initialized, -, chunkCount, -, field, -⟩ := initialiseMetadata_eq untouched returned
  have count : u64OfInt after.chunkCount < 2 ^ 31 := by
    obtain ⟨bytes, rfl⟩ := Int.eq_ofNat_of_zero_le (Int.le_of_lt positive)
    rw [chunkCount, u64OfInt_natCast (by omega), u64_of_lt (by omega), wrap32_natCast (by omega),
      u64OfInt_natCast (by omega)]
    omega
  obtain ⟨claimed, made, counted, clear, -⟩ := Bitfield.new_spec count 0xFF
  exact ⟨after, claimed, returned, initialized, field.trans made, by omega,
    fun index below => clear index (by omega)⟩

namespace Peer

variable {p next : Peer} {td after : TorrentData} {clock : Nat → Int} {exit : Exit}
  {requested : Bitfield}

theorem prepareRequested_spare
    (spare
      : ∀ requested,
          p.utMetadataRequested = some requested
          → requested.SpareSet ∧ requested.bitCount < 2 ^ 31)
    (prepared : p.prepareRequested = .ok next) (present : next.utMetadataRequested = some requested)
    : requested.SpareSet ∧ requested.bitCount < 2 ^ 31 := by
  unfold prepareRequested at prepared
  split at prepared
  · cases prepared
    exact spare requested present
  · obtain ⟨field, made, same⟩ := bind_eq_ok.mp prepared
    cases same
    obtain ⟨set, counted, fits⟩ :=
      Bitfield.spareSet_of_new true ((Bitfield.eq_new_of_make made).symm.trans present)
    exact ⟨set, by omega⟩

theorem Within.utMetadataRequested_eq {parts : List PeerPart} (within : Within parts p next)
    (quiet : .utMetadataRequested ∉ parts)
    : next.utMetadataRequested = p.utMetadataRequested := by
  refine Foundations.Within.same Peer.utMetadataRequested (fun part member _ _ changed => ?_) within
  cases changed <;> first | rfl | exact absurd member quiet

/-- A claim leaves the metadata as it is, and sets no bit of the peer's bitfield. -/
theorem claimMetadata_spare {claimed : Bitfield} (initialized : td.initialized = true)
    (field : td.claimed = some claimed) (few : claimed.bitCount < 2 ^ 31)
    (spare
      : ∀ requested,
          p.utMetadataRequested = some requested
          → requested.SpareSet ∧ requested.bitCount < 2 ^ 31)
    (claims : p.claimMetadata td clock = .ok (next, after, exit))
    : after = td
      ∧ ∀ requested,
          next.utMetadataRequested = some requested
          → requested.SpareSet ∧ requested.bitCount < 2 ^ 31 := by
  unfold claimMetadata at claims
  split at claims
  · split at claims
    · cases claims
      exact ⟨rfl, spare⟩
    · cases claims
  · rename_i requested present
    obtain ⟨set, small⟩ := spare requested present
    rw [TorrentData.claimChunk_one initialized field] at claims
    obtain ⟨⟨_, _, _⟩, claimed, claims⟩ := bind_eq_ok.mp claims
    obtain ⟨found, scanned, same⟩ := bind_eq_ok.mp claimed
    cases same
    cases found with
    | none =>
        cases claims
        exact ⟨rfl, spare⟩
    | some chunk =>
        obtain ⟨⟨written, result⟩, wrote, same⟩ := bind_eq_ok.mp claims
        cases same
        have below := (TorrentData.firstClaimable_eq_some scanned).2.1
        refine ⟨rfl, fun other marked => ?_⟩
        rw [(write_within wrote).utMetadataRequested_eq (by simp)] at marked
        cases marked
        exact ⟨set.setBit (by omega) (by omega) (by omega) 0,
          by rw [Bitfield.setBit_bitCount]; exact small⟩

end Peer

-----------------------------------------------------------------------------------------
-- Peers with different sizes
-----------------------------------------------------------------------------------------

/-- How far a peer is with a call of `peer_send_ut_metadata_request`. -/
inductive ClaimPoint where
  | idle
  | prepared
  | initialised
  deriving DecidableEq

/-- Everything that a `peer_run` changes but the chunks asked for: connections, handshakes and
announcements, disconnects.
-/
def besidesRequested : List PeerPart :=
  [
    .buffers,
    .connection,
    .drop,
    .handshake,
    .reader,
    .amChoking,
    .amInterested,
    .remoteFlags,
    .progressQueue,
    .peerBitfield,
    .msgBitfieldSent,
    .utMetadata,
    .pendingRequests,
    .running
  ]

/-- What other calls do to a peer. -/
structure PeerChange where
  apply : Peer → Peer
  within : ∀ p, Peer.Within besidesRequested p (apply p)

/-- What other calls do to the metadata: chunks are written, and nothing is claimed for a time. -/
structure StoreChange where
  apply : TorrentData → TorrentData
  initialized : ∀ td, (apply td).initialized = td.initialized
  claimed : ∀ td, (apply td).claimed = td.claimed

/-- The next step of a peer's call, or something else that happens to a peer or to the metadata. -/
inductive ClaimEvent (Id : Type) where
  | call (peer : Id) (clock : Nat → Int)
  | other (peer : Id) (change : PeerChange)
  | store (change : StoreChange)

/-- The metadata, the peers and their calls. -/
structure MetadataClaims (Id : Type) where
  torrentMetadata : TorrentData
  peers : Id → Peer
  point : Id → ClaimPoint

namespace MetadataClaims

variable {Id : Type} [DecidableEq Id]

/-- A peer is at another point, and it and the metadata have changed. -/
def advance (s : MetadataClaims Id) (peer : Id) (p : Peer) (td : TorrentData) (point : ClaimPoint)
    : MetadataClaims Id :=
  {
    torrentMetadata := td
    peers := Function.update s.peers peer p
    point := Function.update s.point peer point
  }

/-- One step. -/
def step (s : MetadataClaims Id) : ClaimEvent Id → Except Fault (MetadataClaims Id)
  | .call peer clock =>
      let p := s.peers peer
      let td := s.torrentMetadata
      match s.point peer with
      | .idle =>
          if p.shouldSendUtMetadataRequest td then
            p.prepareRequested.bind fun p => .ok (s.advance peer p td .prepared)
          else .ok s
      | .prepared =>
          (td.initialiseMetadata p.utMetadataSize).bind fun td =>
            .ok (s.advance peer p td .initialised)
      | .initialised =>
          (p.claimMetadata td clock).bind fun (p, td, _) => .ok (s.advance peer p td .idle)
  | .other peer change =>
      .ok { s with peers := Function.update s.peers peer (change.apply (s.peers peer)) }
  | .store change => .ok { s with torrentMetadata := change.apply s.torrentMetadata }

/-- A peer that asks has announced a size, a positive `int`. -/
def SizeAnnounced (s : MetadataClaims Id) : ClaimEvent Id → Prop
  | .call peer _ =>
      s.point peer = .idle
          ∧ (s.peers peer).shouldSendUtMetadataRequest s.torrentMetadata = true
        ∨ s.point peer = .prepared
      → 0 < (s.peers peer).utMetadataSize ∧ (s.peers peer).utMetadataSize < 2 ^ 31
  | _ => True

/-- The claims of the run stay inside the bitfields. -/
def Stays (s : MetadataClaims Id) : ClaimEvent Id → Prop
  | .call peer clock =>
      s.point peer = .initialised → (s.peers peer).ClaimStays s.torrentMetadata clock
  | _ => True

/-- The peers that claim can ask. -/
def Askable (s : MetadataClaims Id) : ClaimEvent Id → Prop
  | .call peer _ => s.point peer = .initialised → (s.peers peer).CanAsk s.torrentMetadata
  | _ => True

instance (s : MetadataClaims Id) : (event : ClaimEvent Id) → Decidable (s.SizeAnnounced event)
  | .call _ _ => inferInstanceAs (Decidable (_ ∧ _ ∨ _ → _))
  | .other _ _ | .store _ => .isTrue trivial

instance (s : MetadataClaims Id) : (event : ClaimEvent Id) → Decidable (s.Askable event)
  | .call _ _ => inferInstanceAs (Decidable (_ → _))
  | .other _ _ | .store _ => .isTrue trivial

/-- Before the metadata is initialised, and before any peer asks. -/
structure Fresh (s : MetadataClaims Id) : Prop where
  untouched : s.torrentMetadata.initialized = false
  unasked : ∀ peer, (s.peers peer).utMetadataRequested = none
  idle : ∀ peer, s.point peer = .idle

/-- A call that nothing interrupts is a call of `peer_send_ut_metadata_request`. -/
theorem call_steps {s : MetadataClaims Id} {peer : Id} {clock : Nat → Int} {p : Peer}
    {td : TorrentData} {exit : Exit} (idle : s.point peer = .idle)
    (sends : (s.peers peer).shouldSendUtMetadataRequest s.torrentMetadata = true)
    (sent
      : (s.peers peer).sendUtMetadataRequest s.torrentMetadata clock = .ok (p, td, exit))
    : runSteps step s (List.replicate 3 (.call peer clock)) = .ok (s.advance peer p td .idle) := by
  rw [Peer.sendUtMetadataRequest_eq] at sent
  obtain ⟨prepared, prepares, sent⟩ := bind_eq_ok.mp sent
  obtain ⟨initialised, initialises, sent⟩ := bind_eq_ok.mp sent
  refine runSteps_cons_eq_ok.mpr ⟨s.advance peer prepared s.torrentMetadata .prepared, ?_, ?_⟩
  · simp only [step, idle, sends, if_true]
    exact bind_of_ok prepares _
  refine runSteps_cons_eq_ok.mpr ⟨s.advance peer prepared initialised .initialised, ?_, ?_⟩
  · simp only [step, advance, Function.update_self, Function.update_idem]
    exact bind_of_ok initialises _
  refine runSteps_cons_eq_ok.mpr ⟨s.advance peer p td .idle, ?_, rfl⟩
  simp only [step, advance, Function.update_self, Function.update_idem]
  exact bind_of_ok sent _

/-- Nothing of the metadata is claimed, and the spare bits of the peers' bitfields are set. -/
structure Standing (s : MetadataClaims Id) : Prop where
  unclaimed
    : s.torrentMetadata.initialized = true
      → ∃ claimed,
          s.torrentMetadata.claimed = some claimed
          ∧ claimed.bitCount < 2 ^ 31
          ∧ ∀ index < claimed.bitCount, claimed.bit index = false
  ready : ∀ peer, s.point peer = .initialised → s.torrentMetadata.initialized = true
  spare
    : ∀ peer requested,
        (s.peers peer).utMetadataRequested = some requested
        → requested.SpareSet ∧ requested.bitCount < 2 ^ 31

omit [DecidableEq Id] in
theorem Fresh.standing {s : MetadataClaims Id} (fresh : s.Fresh) : s.Standing := by
  constructor
  · rw [fresh.untouched]
    exact nofun
  · intro peer
    rw [fresh.idle]
    exact nofun
  · intro peer
    rw [fresh.unasked]
    exact nofun

variable {s next : MetadataClaims Id} {peer : Id}

/-- A peer moves on with its call, and the metadata keeps what is claimed. -/
theorem Standing.advance (standing : s.Standing) {p : Peer} {point : ClaimPoint} {td : TorrentData}
    (unclaimed
      : td.initialized = true
        → ∃ claimed,
            td.claimed = some claimed
            ∧ claimed.bitCount < 2 ^ 31
            ∧ ∀ index < claimed.bitCount, claimed.bit index = false)
    (kept : s.torrentMetadata.initialized = true → td.initialized = true)
    (ready : point = .initialised → td.initialized = true)
    (spare
      : ∀ requested,
          p.utMetadataRequested = some requested
          → requested.SpareSet ∧ requested.bitCount < 2 ^ 31)
    : (s.advance peer p td point).Standing := by
  refine ⟨unclaimed, fun other at_ => ?_, fun other requested present => ?_⟩
  · simp only [MetadataClaims.advance, Function.update_apply] at at_
    split at at_
    · exact ready at_
    · exact kept (standing.ready other at_)
  · simp only [MetadataClaims.advance, Function.update_apply] at present
    split at present
    · exact spare requested present
    · exact standing.spare other requested present

/-- A step of a peer with an announced size keeps the invariant. -/
theorem step_standing {event : ClaimEvent Id} (standing : s.Standing)
    (announced : s.SizeAnnounced event) (stepped : s.step event = .ok next)
    : next.Standing := by
  cases event with
  | other peer change =>
      cases stepped
      refine ⟨standing.unclaimed, standing.ready, fun other requested present => ?_⟩
      dsimp only at present
      rw [Function.update_apply] at present
      split at present
      · rw [(change.within _).utMetadataRequested_eq (by simp [besidesRequested])] at present
        exact standing.spare _ requested present
      · exact standing.spare other requested present
  | store change =>
      cases stepped
      obtain ⟨unclaimed, ready, spare⟩ := standing
      refine ⟨fun initialized => ?_, fun peer at_ => ?_, spare⟩
      · rw [change.claimed]
        exact unclaimed ((change.initialized _).symm.trans initialized)
      · exact (change.initialized _).trans (ready peer at_)
  | call peer clock =>
      unfold step at stepped
      cases point : s.point peer with
      | idle =>
          simp only [point] at stepped
          split at stepped
          · obtain ⟨p, prepared, same⟩ := bind_eq_ok.mp stepped
            cases same
            exact standing.advance standing.unclaimed id nofun fun requested present =>
              Peer.prepareRequested_spare (standing.spare peer) prepared present
          · cases stepped
            exact standing
      | prepared =>
          simp only [point] at stepped
          obtain ⟨after, initialised, same⟩ := bind_eq_ok.mp stepped
          cases same
          cases known : s.torrentMetadata.initialized with
          | true =>
              rw [TorrentData.initialiseMetadata_of_initialized known] at initialised
              cases initialised
              exact standing.advance standing.unclaimed id (fun _ => known) (standing.spare peer)
          | false =>
              obtain ⟨positive, fits⟩ := announced (.inr point)
              obtain ⟨result, claimed, returned, initialized, field, few, clear⟩ :=
                TorrentData.initialiseMetadata_unclaimed known positive fits
              rw [returned] at initialised
              cases initialised
              exact standing.advance (fun _ => ⟨claimed, field, few, clear⟩) (fun _ => initialized)
                (fun _ => initialized) (standing.spare peer)
      | initialised =>
          simp only [point] at stepped
          obtain ⟨⟨p, after, exit⟩, claims, same⟩ := bind_eq_ok.mp stepped
          cases same
          have initialized := standing.ready peer point
          obtain ⟨claimed, field, few, clear⟩ := standing.unclaimed initialized
          obtain ⟨rfl, spare⟩ :=
            Peer.claimMetadata_spare initialized field few (standing.spare peer) claims
          exact standing.advance standing.unclaimed id nofun spare

/-- The claims of a run in which every peer that asks has announced a size stay inside the bitfields
if and only if every peer that claims can ask.
-/
theorem claims_stay_iff (fresh : s.Fresh) {events : List (ClaimEvent Id)}
    (announced : Guarded step SizeAnnounced s events)
    : Guarded step Stays s events ↔ Guarded step Askable s events := by
  refine Guarded.iff_of_invariant (fun state event standing announced => ?_) fresh.standing
    announced
  refine ⟨?_, fun next stepped => step_standing standing announced stepped⟩
  cases event with
  | other _ _ => rfl
  | store _ => rfl
  | call peer clock =>
      refine forall_congr' fun point => ?_
      have initialized := standing.ready peer point
      obtain ⟨claimed, field, _, clear⟩ := standing.unclaimed initialized
      exact Peer.claimStays_iff initialized field clear fun requested present =>
        (standing.spare peer requested present).1

/-- Two peers that have announced eight chunks of metadata, or those and some bytes more. -/
def twoSizes (more : Int) : MetadataClaims Bool :=
  {
    torrentMetadata := { TorrentData.new [46] with needed := true }
    peers := fun larger =>
      {
        Peer.new 0 with
        socket := some { BufferedSocket.new with socket := 3 }
        status := .handshakeComplete
        utMetadata := 1
        utMetadataSize := if larger then 131072 + more else 131072
      }
    point := fun _ => .idle
  }

theorem twoSizes_fresh (more : Int) : (twoSizes more).Fresh := ⟨rfl, fun _ => rfl, fun _ => rfl⟩

/-- Whole calls of one peer. -/
def calls (peer : Bool) (count : Nat) : List (ClaimEvent Bool) :=
  List.replicate (3 * count) (.call peer fun _ => 0)

/-- Witness: with the same size, both peers ask until nothing is left. -/
theorem claims_stay_iff_equal
    : Guarded step Stays (twoSizes 0) (calls true 2 ++ calls false 9) := by
  have announced : Guarded step SizeAnnounced (twoSizes 0) (calls true 2 ++ calls false 9) := by
    decide +kernel
  exact (claims_stay_iff (twoSizes_fresh 0) announced).mpr (by decide +kernel)

/-- When the other peer has announced a ninth chunk, the ninth call reads behind the bitfield of the
eight.
-/
theorem ninth_claim_reads_past
    : ¬ ∀ (s : MetadataClaims Bool) (events : List (ClaimEvent Bool)),
        s.Fresh
        → Guarded step SizeAnnounced s events
        → Guarded step Stays s events := by
  intro claim
  let before : List (ClaimEvent Bool) :=
    calls true 1 ++ calls false 8 ++ List.replicate 2 (.call false fun _ => 0)
  have announced : Guarded step SizeAnnounced (twoSizes 1)
      (before ++ [.call false fun _ => 0]) := by
    decide +kernel
  have returned : returnsWith (runSteps step (twoSizes 1) before) (fun final =>
      decide (final.point false = .initialised)
      && (final.peers false).utMetadataRequested.all fun requested =>
        !returnsWith (final.torrentMetadata.claimChunk requested 0 1 fun _ => 0) fun _ => true)
      = true := by
    decide +kernel
  obtain ⟨final, ran, observed⟩ := exists_ok_of_returnsWith returned
  rw [Bool.and_eq_true, decide_eq_true_iff] at observed
  obtain ⟨point, past⟩ := observed
  obtain ⟨requested, claimed, exit, found, present, -, claims, -⟩ :=
    (claim _ _ (twoSizes_fresh 1) announced).last ran point
  rw [present, Option.all_some, claims] at past
  cases past

end MetadataClaims

end UvgTorrent

import UvgTorrent.Peers.MetadataRequests

/-! Several workers in `peer_send_ut_metadata_request` at once: the test of `initialized` and the
four calls behind it are steps of their own, and any worker can make the next one.
-/

namespace UvgTorrent

open Foundations

/-- How far a peer is with a call of `peer_send_ut_metadata_request`: `tested` has found the
metadata uninitialized, and `claiming` is behind the initialization.
-/
inductive RequestPoint where
  | idle
  | tested
  | pieceSized
  | chunkSized
  | fileAdded
  | claiming
  deriving DecidableEq, Repr

/-- A `ut_metadata_size` above 0. -/
structure AnnouncedSize where
  size : Nat
  positive : 0 < size
  fits : size < 2 ^ 31

/-- The metadata, and the calls that are under way. -/
structure MetadataCalls (Id : Type) where
  torrentMetadata : TorrentData
  point : Id → RequestPoint

namespace MetadataCalls

variable {Id : Type}

/-- The peer has found the metadata uninitialized and has not added its file yet. -/
def Pending (s : MetadataCalls Id) (peer : Id) : Prop :=
  s.point peer = .tested ∨ s.point peer = .pieceSized ∨ s.point peer = .chunkSized

/-- The peer is between its test and its `torrent_data_set_data_size`. -/
def Initialising (s : MetadataCalls Id) (peer : Id) : Prop :=
  s.Pending peer ∨ s.point peer = .fileAdded

/-- A peer that starts a call before the metadata is initialized is the only one to do so. -/
def Alone (s : MetadataCalls Id) (peer : Id) : Prop :=
  s.point peer = .idle
  → s.torrentMetadata.initialized = false
  → ∀ other, ¬ s.Initialising other

instance [Fintype Id] (s : MetadataCalls Id) (peer : Id) : Decidable (s.Alone peer) :=
  inferInstanceAs (Decidable (_ → _ → ∀ _, ¬ ((_ ∨ _ ∨ _) ∨ _)))

/-- The metadata has exactly one file, at offset 0, and its size is that of the data. -/
def ConfiguredOnce (td : TorrentData) : Prop :=
  ∃ file,
    td.files = [file]
    ∧ file.fileOffset = 0
    ∧ file.fileSize = td.filesSize
    ∧ td.filesSize = td.dataSize

/-- A second file has been added or will be. -/
def Crowded (s : MetadataCalls Id) : Prop :=
  2 ≤ s.torrentMetadata.files.length
  ∨ (s.torrentMetadata.files ≠ [] ∧ ∃ peer, s.Pending peer)
  ∨ ∃ peer other, peer ≠ other ∧ s.Pending peer ∧ s.Pending other

/-- What holds of the metadata between any two steps. -/
structure Standing (sizes : Id → AnnouncedSize) (s : MetadataCalls Id) : Prop where
  pieceSize
    : ∀ peer, s.point peer = .pieceSized ∨ s.point peer = .chunkSized ∨ s.point peer = .fileAdded
        → s.torrentMetadata.pieceSize ≠ 0
  chunkSize
    : ∀ peer, s.point peer = .chunkSized ∨ s.point peer = .fileAdded
        → s.torrentMetadata.chunkSize ≠ 0
  added : ∀ peer, s.point peer = .fileAdded → s.torrentMetadata.files ≠ []
  known
    : s.torrentMetadata.files ≠ []
      → s.torrentMetadata.initialized = true ∨ ∃ peer, s.point peer = .fileAdded
  present : s.torrentMetadata.initialized = true → s.torrentMetadata.files ≠ []
  single
    : ∀ file, s.torrentMetadata.files = [file]
        → file.fileOffset = 0 ∧ file.fileSize = s.torrentMetadata.filesSize
  empty : s.torrentMetadata.files = [] → s.torrentMetadata.filesSize = 0
  ownSize
    : ¬ s.Crowded → ∀ peer, s.point peer = .fileAdded
        → s.torrentMetadata.filesSize = (sizes peer).size
  wholeSize
    : ¬ s.Crowded → s.torrentMetadata.initialized = true
        → s.torrentMetadata.filesSize = s.torrentMetadata.dataSize

variable {sizes : Id → AnnouncedSize} {s next : MetadataCalls Id} {peer : Id}

/-- A step that crowds nothing, of a peer that is inside a call or alone. -/
theorem uncrowded_step (moved : next.Standing sizes ∧ (next.Crowded ↔ s.Crowded))
    (alone : s.Alone peer)
    : next.Standing sizes ∧ (¬ next.Crowded ↔ ¬ s.Crowded ∧ s.Alone peer) := by
  refine ⟨moved.1, ?_⟩
  rw [moved.2]
  exact (and_iff_left alone).symm

theorem alone_of_busy (busy : s.point peer ≠ .idle) : s.Alone peer :=
  fun idle => absurd idle busy

/-- Before the first call. -/
structure Fresh (s : MetadataCalls Id) : Prop where
  idle : ∀ peer, s.point peer = .idle
  untouched : s.torrentMetadata.initialized = false
  files : s.torrentMetadata.files = []
  filesSize : s.torrentMetadata.filesSize = 0

theorem Fresh.standing (fresh : s.Fresh) (sizes : Id → AnnouncedSize) : s.Standing sizes := by
  constructor <;> simp [fresh.idle, fresh.untouched, fresh.files, fresh.filesSize]

theorem Fresh.not_crowded (fresh : s.Fresh) : ¬ s.Crowded := by
  simp [Crowded, Pending, fresh.idle, fresh.files]

theorem metadataPieceSize_ne_zero : metadataPieceSize ≠ 0 := by
  decide

theorem metadataChunkSize_ne_zero : metadataChunkSize ≠ 0 := by
  decide

variable [DecidableEq Id]

/-- The peer moves to another point, and the metadata changes. -/
def advance (s : MetadataCalls Id) (peer : Id) (point : RequestPoint) (td : TorrentData)
    : MetadataCalls Id :=
  { torrentMetadata := td, point := Function.update s.point peer point }

/-- The next step of one peer. The claim behind the initialization does not change the metadata. -/
def step (sizes : Id → AnnouncedSize) (s : MetadataCalls Id) (peer : Id)
    : Except Fault (MetadataCalls Id) :=
  let td := s.torrentMetadata
  match s.point peer with
  | .idle => .ok (s.advance peer (if td.initialized then .claiming else .tested) td)
  | .tested => .ok (s.advance peer .pieceSized (td.setPieceSize metadataPieceSize))
  | .pieceSized => .ok (s.advance peer .chunkSized (td.setChunkSize metadataChunkSize))
  | .chunkSized => .ok (s.advance peer .fileAdded (td.addFile metadataPath (sizes peer).size))
  | .fileAdded =>
      (td.setDataSize (sizes peer).size).bind fun (_, td) => .ok (s.advance peer .claiming td)
  | .claiming => .ok (s.advance peer .idle td)

@[simp] theorem advance_torrentMetadata (s : MetadataCalls Id) (peer : Id) (point : RequestPoint)
    (td : TorrentData)
    : (s.advance peer point td).torrentMetadata = td :=
  rfl

@[simp, grind =]
theorem advance_point (s : MetadataCalls Id) (peer other : Id) (point : RequestPoint)
    (td : TorrentData)
    : (s.advance peer point td).point other = if other = peer then point else s.point other :=
  Function.update_apply s.point peer point other

/-- The calls see the same files and sizes, and the two metadata parameters stay set. -/
structure SameFiles (td after : TorrentData) : Prop where
  files : after.files = td.files
  filesSize : after.filesSize = td.filesSize
  dataSize : after.dataSize = td.dataSize
  initialized : after.initialized = td.initialized
  pieceSize : td.pieceSize ≠ 0 → after.pieceSize ≠ 0
  chunkSize : td.chunkSize ≠ 0 → after.chunkSize ≠ 0

theorem SameFiles.refl (td : TorrentData) : SameFiles td td := ⟨rfl, rfl, rfl, rfl, id, id⟩

/-- A step that touches no file and starts no initialization changes nothing that counts. -/
theorem Standing.move (standing : s.Standing sizes) (peer : Id) (point : RequestPoint)
    {td : TorrentData} (same : SameFiles s.torrentMetadata td)
    (before : s.point peer ≠ .fileAdded) (after : point ≠ .fileAdded)
    (pending : (s.advance peer point td).Pending peer ↔ s.Pending peer)
    (pieceSized : point = .pieceSized ∨ point = .chunkSized → td.pieceSize ≠ 0)
    (chunkSized : point = .chunkSized → td.chunkSize ≠ 0)
    : (s.advance peer point td).Standing sizes
      ∧ ((s.advance peer point td).Crowded ↔ s.Crowded) := by
  have pendingOf : ∀ other, (s.advance peer point td).Pending other ↔ s.Pending other := by
    intro other
    by_cases here : other = peer
    · rw [here]
      exact pending
    · simp [Pending, here]
  have addedOf : ∀ other, (s.advance peer point td).point other = .fileAdded
      ↔ s.point other = .fileAdded := by
    intro other
    by_cases here : other = peer
    · rw [here]
      simp [before, after]
    · simp [here]
  have crowded : (s.advance peer point td).Crowded ↔ s.Crowded := by
    simp only [Crowded, pendingOf, advance_torrentMetadata, same.files]
  refine ⟨?_, crowded⟩
  constructor
  · have kept := standing.pieceSize
    have fixed := same.pieceSize
    grind [advance_torrentMetadata]
  · have kept := standing.chunkSize
    have fixed := same.chunkSize
    grind [advance_torrentMetadata]
  · intro other added
    rw [advance_torrentMetadata, same.files]
    exact standing.added other ((addedOf other).mp added)
  · simp only [addedOf, advance_torrentMetadata, same.files, same.initialized]
    exact standing.known
  · simp only [advance_torrentMetadata, same.files, same.initialized]
    exact standing.present
  · simp only [advance_torrentMetadata, same.files, same.filesSize]
    exact standing.single
  · simp only [advance_torrentMetadata, same.files, same.filesSize]
    exact standing.empty
  · simp only [crowded, addedOf, advance_torrentMetadata, same.filesSize]
    exact standing.ownSize
  · simp only [crowded, advance_torrentMetadata, same.filesSize, same.dataSize, same.initialized]
    exact standing.wholeSize

/-- A call that finds the metadata uninitialized crowds it unless no other is under way. -/
theorem Standing.test (standing : s.Standing sizes) (idle : s.point peer = .idle)
    (untouched : s.torrentMetadata.initialized = false)
    : (s.advance peer .tested s.torrentMetadata).Standing sizes
      ∧ (¬ (s.advance peer .tested s.torrentMetadata).Crowded
        ↔ ¬ s.Crowded ∧ ∀ other, ¬ s.Initialising other) := by
  have added := standing.added
  have known := standing.known
  have crowded : ¬ (s.advance peer .tested s.torrentMetadata).Crowded
        ↔ ¬ s.Crowded ∧ ∀ other, ¬ s.Initialising other := by
    simp only [Crowded, Pending, Initialising, advance_point, advance_torrentMetadata]
    grind
  have addedOf : ∀ other, (s.advance peer .tested s.torrentMetadata).point other = .fileAdded
      ↔ s.point other = .fileAdded := by
    grind
  refine ⟨?_, crowded⟩
  constructor
  · have kept := standing.pieceSize
    grind [advance_torrentMetadata]
  · have kept := standing.chunkSize
    grind [advance_torrentMetadata]
  · simp only [addedOf, advance_torrentMetadata]
    exact added
  · simp only [addedOf, advance_torrentMetadata]
    exact known
  · exact standing.present
  · exact standing.single
  · exact standing.empty
  · intro free
    simp only [addedOf, advance_torrentMetadata]
    exact standing.ownSize (crowded.mp free).1
  · intro free
    exact standing.wholeSize (crowded.mp free).1

/-- The file that a peer adds is the only one when nobody else is under way. -/
theorem Standing.addFile (standing : s.Standing sizes) (sized : s.point peer = .chunkSized)
    : (s.advance peer .fileAdded
          (s.torrentMetadata.addFile metadataPath (sizes peer).size)).Standing sizes
      ∧ ((s.advance peer .fileAdded
            (s.torrentMetadata.addFile metadataPath (sizes peer).size)).Crowded
        ↔ s.Crowded) := by
  have crowded : (s.advance peer .fileAdded
        (s.torrentMetadata.addFile metadataPath (sizes peer).size)).Crowded
      ↔ s.Crowded := by
    simp only [Crowded, Pending, advance_point, advance_torrentMetadata, TorrentData.addFile,
      List.length_append, List.length_cons, List.length_nil]
    cases s.torrentMetadata.files <;> grind
  have pending : s.Pending peer := .inr (.inr sized)
  have first (free : ¬ s.Crowded) : s.torrentMetadata.files = [] := by
    by_contra another
    exact free (.inr (.inl ⟨another, peer, pending⟩))
  have fits : u64 (0 + (sizes peer).size) = (sizes peer).size := by
    have bound := (sizes peer).fits
    exact (u64_of_lt (by omega)).trans (Nat.zero_add _)
  refine ⟨?_, crowded⟩
  constructor
  · intro _ _
    exact standing.pieceSize peer (.inr (.inl sized))
  · intro _ _
    exact standing.chunkSize peer (.inl sized)
  · intro _ _
    exact List.append_ne_nil_of_right_ne_nil _ (List.cons_ne_nil _ _)
  · intro _
    exact .inr ⟨peer, by simp⟩
  · intro _
    exact List.append_ne_nil_of_right_ne_nil _ (List.cons_ne_nil _ _)
  · intro file files
    simp only [advance_torrentMetadata, TorrentData.addFile, List.append_eq_singleton_iff,
      List.cons_ne_nil, and_false, or_false, List.cons.injEq, and_true] at files ⊢
    obtain ⟨none, rfl⟩ := files
    rw [standing.empty none, fits]
    exact ⟨rfl, rfl⟩
  · intro files
    simp [TorrentData.addFile] at files
  · intro free other added
    have none := first (fun full => free (crowded.mpr full))
    have same : other = peer := by
      by_contra apart
      rw [advance_point, if_neg apart] at added
      exact standing.added other added none
    rw [same]
    simp only [advance_torrentMetadata, TorrentData.addFile, standing.empty none, fits]
  · intro free initialized
    exact absurd (first fun full => free (crowded.mpr full)) (standing.present initialized)

/-- The size of the first peer that gets there is set. -/
theorem Standing.setDataSize (standing : s.Standing sizes) (added : s.point peer = .fileAdded)
    {td : TorrentData} {exit : Exit}
    (set : s.torrentMetadata.setDataSize (sizes peer).size = .ok (exit, td))
    : (s.advance peer .claiming td).Standing sizes
      ∧ ((s.advance peer .claiming td).Crowded ↔ s.Crowded) := by
  have chunkSize := standing.chunkSize peer (.inr added)
  have pieceSize := standing.pieceSize peer (.inr (.inr added))
  have fields : td.files = s.torrentMetadata.files
      ∧ td.filesSize = s.torrentMetadata.filesSize
      ∧ td.pieceSize = s.torrentMetadata.pieceSize
      ∧ td.chunkSize = s.torrentMetadata.chunkSize
      ∧ td.initialized = true
      ∧ td.dataSize
        = if s.torrentMetadata.initialized then s.torrentMetadata.dataSize
          else (sizes peer).size := by
    rcases TorrentData.setDataSize_cases set with
      ⟨already | noChunks, _, rfl⟩ | ⟨untouched, _, _, _, rfl⟩
    · simp [already]
    · exact absurd noChunks chunkSize
    · refine ⟨rfl, rfl, rfl, rfl, rfl, ?_⟩
      rw [untouched, if_neg Bool.false_ne_true]
      rfl
  obtain ⟨files, filesSize, pieceSame, chunkSame, initialized, dataSize⟩ := fields
  have crowded : (s.advance peer .claiming td).Crowded ↔ s.Crowded := by
    simp only [Crowded, Pending, advance_point, advance_torrentMetadata, files]
    grind
  refine ⟨?_, crowded⟩
  constructor
  · intro _ _
    rw [advance_torrentMetadata, pieceSame]
    exact pieceSize
  · intro _ _
    rw [advance_torrentMetadata, chunkSame]
    exact chunkSize
  · intro _ _
    rw [advance_torrentMetadata, files]
    exact standing.added peer added
  · intro _
    exact .inl initialized
  · intro _
    rw [advance_torrentMetadata, files]
    exact standing.added peer added
  · simp only [advance_torrentMetadata, files, filesSize]
    exact standing.single
  · simp only [advance_torrentMetadata, files, filesSize]
    exact standing.empty
  · intro free other otherAdded
    rw [advance_torrentMetadata, filesSize]
    refine standing.ownSize (fun full => free (crowded.mpr full)) other ?_
    grind
  · intro free _
    have alone := fun full => free (crowded.mpr full)
    rw [advance_torrentMetadata, filesSize, dataSize]
    split
    · rename_i already
      exact standing.wholeSize alone already
    · exact standing.ownSize alone peer added

/-- One step of one peer: the metadata becomes crowded exactly by a call that is not alone. -/
theorem Standing.step (standing : s.Standing sizes) (stepped : s.step sizes peer = .ok next)
    : next.Standing sizes ∧ (¬ next.Crowded ↔ ¬ s.Crowded ∧ s.Alone peer) := by
  unfold MetadataCalls.step at stepped
  cases at_ : s.point peer with
  | idle =>
      simp only [at_] at stepped
      cases known : s.torrentMetadata.initialized with
      | true =>
          rw [if_pos known] at stepped
          cases stepped
          refine uncrowded_step (standing.move peer .claiming (.refl _) (by simp [at_]) (by simp)
            (by simp [Pending, at_]) (by simp) (by simp)) ?_
          intro _ untouched
          rw [known] at untouched
          cases untouched
      | false =>
          rw [known, if_neg Bool.false_ne_true] at stepped
          cases stepped
          obtain ⟨kept, crowded⟩ := standing.test at_ known
          refine ⟨kept, crowded.trans (and_congr_right fun _ => ?_)⟩
          exact ⟨fun lone _ _ => lone, fun alone => alone at_ known⟩
  | tested =>
      simp only [at_] at stepped
      cases stepped
      refine uncrowded_step (standing.move peer .pieceSized ?_ (by simp [at_]) (by simp)
        (by simp [Pending, at_]) ?_ (by simp)) (alone_of_busy (by simp [at_]))
      · exact ⟨rfl, rfl, rfl, rfl, fun _ => metadataPieceSize_ne_zero, id⟩
      · intro _
        exact metadataPieceSize_ne_zero
  | pieceSized =>
      simp only [at_] at stepped
      cases stepped
      refine uncrowded_step (standing.move peer .chunkSized ?_ (by simp [at_]) (by simp)
        (by simp [Pending, at_]) ?_ ?_) (alone_of_busy (by simp [at_]))
      · exact ⟨rfl, rfl, rfl, rfl, id, fun _ => metadataChunkSize_ne_zero⟩
      · intro _
        exact standing.pieceSize peer (.inl at_)
      · intro _
        exact metadataChunkSize_ne_zero
  | chunkSized =>
      simp only [at_] at stepped
      cases stepped
      exact uncrowded_step (standing.addFile at_) (alone_of_busy (by simp [at_]))
  | fileAdded =>
      simp only [at_] at stepped
      obtain ⟨⟨exit, td⟩, set, stepped⟩ := bind_eq_ok.mp stepped
      cases stepped
      exact uncrowded_step (standing.setDataSize at_ set) (alone_of_busy (by simp [at_]))
  | claiming =>
      simp only [at_] at stepped
      cases stepped
      exact uncrowded_step (standing.move peer .idle (.refl _) (by simp [at_]) (by simp)
        (by simp [Pending, at_]) (by simp) (by simp)) (alone_of_busy (by simp [at_]))

/-- Once the metadata is initialized and all calls have returned, it has been configured once if and
only if every call that found it uninitialized was the only one under way.
-/
theorem metadata_configuredOnce_iff (fresh : s.Fresh) {schedule : List Id}
    {final : MetadataCalls Id} (ran : runSteps (step sizes) s schedule = .ok final)
    (returned : ∀ peer, final.point peer = .idle)
    (initialized : final.torrentMetadata.initialized = true)
    : ConfiguredOnce final.torrentMetadata ↔ Guarded (step sizes) Alone s schedule := by
  have within : Guarded (step sizes) (fun _ _ => True) s schedule :=
    Guarded.of_forall (fun _ _ => trivial) s schedule
  have standing : final.Standing sizes :=
    runSteps_invariant (fun _ _ _ standing _ stepped => (standing.step stepped).1)
      (fresh.standing sizes) within ran
  have crowding : ¬ final.Crowded ↔ ¬ s.Crowded ∧ Guarded (step sizes) Alone s schedule :=
    runSteps_good_iff (fun _ _ _ standing _ stepped => standing.step stepped)
      (fresh.standing sizes) within ran
  rw [and_iff_right fresh.not_crowded] at crowding
  rw [← crowding]
  have noPending : ∀ peer, ¬ final.Pending peer := by
    intro peer
    simp [Pending, returned peer]
  constructor
  · rintro ⟨file, files, _⟩
    simp [Crowded, noPending, files]
  · intro free
    have present := standing.present initialized
    have short : ¬ 2 ≤ final.torrentMetadata.files.length := fun two => free (.inl two)
    obtain ⟨file, files⟩ : ∃ file, final.torrentMetadata.files = [file] := by
      rw [← List.length_eq_one_iff]
      have := List.length_pos_iff.mpr present
      omega
    obtain ⟨offset, size⟩ := standing.single file files
    exact ⟨file, files, offset, size, standing.wholeSize free initialized⟩

/-- Two peers, before the first call. -/
def twoPeers : MetadataCalls Bool :=
  { torrentMetadata := .new [46], point := fun _ => .idle }

theorem twoPeers_fresh : twoPeers.Fresh := ⟨fun _ => rfl, rfl, rfl, rfl⟩

def sampleSizes : Bool → AnnouncedSize
  | true => ⟨1000, by decide, by decide⟩
  | false => ⟨2000, by decide, by decide⟩

/-- Witness: the second peer calls after the first one has initialized the metadata. -/
theorem metadata_configuredOnce_iff_two
    : ∃ final,
        runSteps (step sampleSizes) twoPeers [true, true, true, true, true, false, true, false]
          = .ok final
        ∧ ConfiguredOnce final.torrentMetadata := by
  have ran : returnsWith (runSteps (step sampleSizes) twoPeers
        [true, true, true, true, true, false, true, false])
      (fun final => final.torrentMetadata.initialized && decide (final.point true = .idle)
        && decide (final.point false = .idle)) = true := by
    decide +kernel
  obtain ⟨final, ran, tested⟩ := exists_ok_of_returnsWith ran
  simp only [Bool.and_eq_true, decide_eq_true_iff] at tested
  refine ⟨final, ran, (metadata_configuredOnce_iff twoPeers_fresh ran ?_ tested.1.1).mpr ?_⟩
  · intro peer
    cases peer
    · exact tested.2
    · exact tested.1.2
  · decide +kernel

/-- Both peers find the metadata uninitialized, and both add their file. -/
theorem two_peers_add_two_files
    : ¬ ∀ (sizes : Bool → AnnouncedSize) (s final : MetadataCalls Bool) (schedule : List Bool),
        s.Fresh
        → runSteps (step sizes) s schedule = .ok final
        → (∀ peer, final.point peer = .idle)
        → final.torrentMetadata.initialized = true
        → ConfiguredOnce final.torrentMetadata := by
  intro claim
  have ran : returnsWith (runSteps (step sampleSizes) twoPeers
        [true, false, true, false, true, false, true, false, true, false, true, false])
      (fun final => final.torrentMetadata.initialized && decide (final.point true = .idle)
        && decide (final.point false = .idle)
        && decide (final.torrentMetadata.files.length = 2)) = true := by
    decide +kernel
  obtain ⟨final, ran, tested⟩ := exists_ok_of_returnsWith ran
  simp only [Bool.and_eq_true, decide_eq_true_iff] at tested
  obtain ⟨⟨⟨initialized, first⟩, second⟩, two⟩ := tested
  obtain ⟨file, files, _⟩ := claim sampleSizes twoPeers final _ twoPeers_fresh ran
    (fun peer => by cases peer <;> assumption) initialized
  rw [files] at two
  cases two

end MetadataCalls

end UvgTorrent

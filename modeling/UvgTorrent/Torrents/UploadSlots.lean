import UvgTorrent.Torrents.PeerRuns

/-! Which peers hold an upload slot after `torrent_assign_upload_slots`. The call sets the flag of
every interested peer, but it does not take the slot of a peer that has lost its interest, and the
optimistic index may lie behind the last peer.
-/

namespace UvgTorrent

open Foundations

/-- `qsort` when it finds an array in order. -/
def Sorting.unchanged : Sorting := { sort := id, perm := fun _ => .refl _ }

namespace PeerRegistry

/-- An interested peer behind its handshake. -/
def isCandidate (t : PeerRegistry) (p : Nat) : Bool :=
  (t.memory p).any fun named =>
    named.peer.peerInterested ∧ named.peer.status = .handshakeComplete

/-- A peer with a slot. -/
def isUploader (t : PeerRegistry) (p : Nat) : Bool :=
  (t.memory p).any fun named => named.peer.uploader

/-- `torrent_assign_upload_slots` has something to do. -/
def Reassigns (t : PeerRegistry) (now : Int) : Prop :=
  t.assignUploadSlotsDeadline ≤ now ∧ 0 < t.peerCount

instance (t : PeerRegistry) (now : Int) : Decidable (t.Reassigns now) :=
  inferInstanceAs (Decidable (_ ∧ _))

/-- The slots of some peers: only interested, handshaken peers hold one, and as many of these as
there are slots.
-/
def SlotsAssigned (t : PeerRegistry) (listed : List Nat) : Prop :=
  (∀ p ∈ listed, t.isUploader p = true → t.isCandidate p = true)
  ∧ (listed.filter t.isUploader).length = min (listed.filter t.isCandidate).length 4

variable {t next : PeerRegistry} {entries : List (Nat × CString)}

-----------------------------------------------------------------------------------------
-- The candidates
-----------------------------------------------------------------------------------------

theorem takePeer_memory {strIp : CString} {item : Option Nat} {p : Nat}
    (taken : t.takePeer strIp item = .ok (next, p))
    : next.memory = t.memory := by
  obtain ⟨⟨peers, found⟩, _, taken⟩ := bind_eq_ok.mp taken
  cases found with
  | none => cases taken
  | some p =>
      obtain ⟨name, _, taken⟩ := bind_eq_ok.mp taken
      obtain ⟨stored, _, same⟩ := bind_eq_ok.mp taken
      cases same
      rfl

theorem setPeer_memory_self {p : Nat} {named : NamedPeer} (found : t.memory p = some named)
    (peer : Peer)
    : (t.setPeer p peer).memory p = some { named with peer } := by
  simp [setPeer, found]

theorem setPeer_memory_of_ne {p other : Nat} {peer : Peer} (apart : other ≠ p)
    : (t.setPeer p peer).memory other = t.memory other :=
  Function.update_of_ne apart _ _

theorem setPeer_same {p : Nat} {named : NamedPeer} (found : t.memory p = some named)
    : t.setPeer p named.peer = t := by
  have same
      : Function.update t.memory p ((t.memory p).map fun old => { old with peer := named.peer })
        = t.memory := by
    rw [found, Option.map_some]
    exact Function.update_eq_self_iff.mpr found.symm
  rw [setPeer, same]

/-- The loop that collects the interested peers changes no peer, and finds the candidates among
those that it visits.
-/
theorem traverse_interested {peerCount steps : Nat} {stack : Nat → Option Nat}
    {peerIp : Option Nat} {peers result visited : List Nat}
    (ran
      : traverse (interestedBody peerCount) stack steps peerIp t peers
        = .ok (next, result, visited))
    : next.memory = t.memory ∧ result = peers ++ visited.filter t.isCandidate := by
  induction steps generalizing peerIp t peers next result visited with
  | zero => cases ran
  | succ steps hyp =>
      cases peerIp with
      | none =>
          cases ran
          exact ⟨rfl, by simp⟩
      | some address =>
          rw [traverse] at ran
          split at ran
          · cases ran
          obtain ⟨name, _, ran⟩ := bind_eq_ok.mp ran
          obtain ⟨⟨taken, p⟩, took, ran⟩ := bind_eq_ok.mp ran
          have kept := takePeer_memory took
          dsimp only at ran
          split at ran
          · cases ran
          · rename_i named found
            have candidate
                : t.isCandidate p
                  = decide
                      (named.peer.peerInterested ∧ named.peer.status = .handshakeComplete) := by
              rw [isCandidate, ← kept, found]
              rfl
            obtain ⟨⟨changed, collected, goesOn⟩, visit, ran⟩ := bind_eq_ok.mp ran
            have outcome
                : changed = named.peer
                  ∧ goesOn = true
                  ∧ collected = peers ++ [p].filter t.isCandidate := by
              unfold interestedBody at visit
              by_cases interested
                  : named.peer.peerInterested ∧ named.peer.status = .handshakeComplete
              · rw [if_pos interested] at visit
                split at visit
                · cases visit
                  simp [candidate, interested]
                · cases visit
              · rw [if_neg interested] at visit
                cases visit
                simp only [List.filter_cons, candidate, interested]
                simp
            obtain ⟨rfl, rfl, rfl⟩ := outcome
            rw [if_pos rfl, setPeer_same found] at ran
            obtain ⟨⟨final, all, others⟩, walked, same⟩ := bind_eq_ok.mp ran
            cases same
            obtain ⟨memory, every⟩ := hyp walked
            have sameCandidates : taken.isCandidate = t.isCandidate := by
              funext q
              rw [isCandidate, isCandidate, kept]
            refine ⟨memory.trans kept, ?_⟩
            rw [every, sameCandidates, List.append_assoc, ← List.filter_append]
            rfl

-----------------------------------------------------------------------------------------
-- The slots
-----------------------------------------------------------------------------------------

/-- Whether the peer at a position of the sorted array gets a slot. -/
def slotAt (optimisticIndex : Int) (i : Nat) : Bool := i < 3 ∨ (i : Int) = optimisticIndex

theorem setUploader_effect {p : Nat} {uploader : Bool}
    (set : t.setUploader p uploader = .ok next)
    : next.isUploader p = uploader
      ∧ (∀ other, other ≠ p → next.isUploader other = t.isUploader other)
      ∧ next.isCandidate = t.isCandidate := by
  unfold setUploader at set
  split at set
  · cases set
  · rename_i named found
    cases set
    refine ⟨?_, fun other apart => ?_, funext fun other => ?_⟩
    · rw [isUploader, setPeer_memory_self found]
      rfl
    · rw [isUploader, isUploader, setPeer_memory_of_ne apart]
    · by_cases same : other = p
      · rw [same, isCandidate, isCandidate, setPeer_memory_self found, found]
        rfl
      · rw [isCandidate, isCandidate, setPeer_memory_of_ne same]

/-- One turn of the loop gives the peer the slot of its position. -/
theorem slotLoop_cons {optimisticIndex : Int} {p : Nat} {rest : List Nat} {i : Nat}
    (ran : slotLoop optimisticIndex (p :: rest) i (min i 3) t = .ok next)
    : ∃ after,
        t.setUploader p (slotAt optimisticIndex i) = .ok after
        ∧ slotLoop optimisticIndex rest (i + 1) (min (i + 1) 3) after = .ok next := by
  rw [slotLoop] at ran
  by_cases regular : i < 3
  · have slot : slotAt optimisticIndex i = true := decide_eq_true (.inl regular)
    rw [if_pos (by omega), show min i 3 + 1 = min (i + 1) 3 by omega] at ran
    rw [slot]
    exact bind_eq_ok.mp ran
  · have slot : slotAt optimisticIndex i = ((i : Int) == optimisticIndex) := by
      simp [slotAt, regular, Bool.beq_eq_decide_eq]
    rw [if_neg (by omega), show min i 3 = min (i + 1) 3 by omega] at ran
    rw [slot]
    exact bind_eq_ok.mp ran

/-- The loop gives every peer of the array the slot of its position, and leaves the others alone. -/
theorem slotLoop_effect {optimisticIndex : Int} {peers : List Nat} {i : Nat}
    (distinct : peers.Nodup)
    (ran : slotLoop optimisticIndex peers i (min i 3) t = .ok next)
    : next.isCandidate = t.isCandidate
      ∧ (∀ p, p ∉ peers → next.isUploader p = t.isUploader p)
      ∧ ∀ k p, peers[k]? = some p → next.isUploader p = slotAt optimisticIndex (i + k) := by
  induction peers generalizing t i with
  | nil =>
      cases ran
      exact ⟨rfl, fun _ _ => rfl, fun k p there => by simp at there⟩
  | cons first rest hyp =>
      obtain ⟨fresh, distinct⟩ := List.nodup_cons.mp distinct
      obtain ⟨after, set, later⟩ := slotLoop_cons ran
      obtain ⟨here, others, candidates⟩ := setUploader_effect set
      obtain ⟨laterCandidates, untouched, slots⟩ := hyp distinct later
      refine ⟨laterCandidates.trans candidates, fun p absent => ?_, fun k p there => ?_⟩
      · rw [List.mem_cons, not_or] at absent
        rw [untouched p absent.2, others p absent.1]
      · cases k with
        | zero =>
            obtain rfl : first = p := by simpa using there
            rw [untouched first fresh, here]
            rfl
        | succ k =>
            rw [slots k p (by simpa using there)]
            exact congrArg (slotAt optimisticIndex) (by omega)

/-- The slots of an array of which the peers before `i` are done. -/
theorem slots_count {optimisticIndex : Int} {peers : List Nat} {i : Nat} {uploads : Nat → Bool}
    (slots : ∀ k p, peers[k]? = some p → uploads p = slotAt optimisticIndex (i + k))
    : (peers.filter uploads).length
      = min (i + peers.length) 3 - min i 3
        + if (max i 3 : Nat) ≤ optimisticIndex ∧ optimisticIndex < (i + peers.length : Nat) then 1
          else 0 := by
  induction peers generalizing i with
  | nil =>
      rw [if_neg (by simp only [List.length_nil]; omega)]
      simp
  | cons first rest hyp =>
      have here : uploads first = slotAt optimisticIndex i := slots 0 first rfl
      have later := @hyp (i + 1) fun k p there => by
        rw [slots (k + 1) p (by simpa using there)]
        exact congrArg (slotAt optimisticIndex) (by omega)
      by_cases slot : i < 3 ∨ (i : Int) = optimisticIndex
      · rw [List.filter_cons_of_pos (by rw [here]; exact decide_eq_true slot), List.length_cons,
          List.length_cons, later]
        split <;> split <;> omega
      · rw [List.filter_cons_of_neg (by rw [here]; simpa [slotAt] using slot), List.length_cons,
          later]
        split <;> split <;> omega

-----------------------------------------------------------------------------------------
-- One call
-----------------------------------------------------------------------------------------

/-- The `optimistic_index` for a number of interested peers. -/
def optimisticIndex (interestedPeers rand : Nat) : Int :=
  if 3 < interestedPeers then randr 3 interestedPeers rand else -1

/-- The listed peers that a call may give a slot, in the order of the list. -/
def candidates (t : PeerRegistry) (entries : List (Nat × CString)) : List Nat :=
  (entries.map Prod.fst).filter t.isCandidate

/-- What a call does to the slots: the peers of the sorted array get those of their positions, and
all others keep theirs.
-/
structure AssignsSlots (t next : PeerRegistry) (sorted : List Nat) (rand : Nat) : Prop where
  candidates : next.isCandidate = t.isCandidate
  others : ∀ p, p ∉ sorted → next.isUploader p = t.isUploader p
  slots
    : ∀ k p,
        sorted[k]? = some p
        → next.isUploader p = slotAt (optimisticIndex sorted.length rand) k

theorem Lists.addresses_nodup (lists : t.Lists entries) : (entries.map Prod.fst).Nodup := by
  refine List.Nodup.map_on (fun first inFirst second inSecond same => ?_) (.of_map _ lists.distinct)
  have names : some first.2 = some second.2 := by
    rw [← lists.named first inFirst, ← lists.named second inSecond, same]
  exact Prod.ext same (Option.some.inj names)

/-- A call that reassigns visits every listed peer. -/
theorem Lists.assignUploadSlots_visited (lists : t.Lists entries) {now later : Int}
    {sorting : Sorting} {rand : Nat} {stack : Nat → Option Nat} {visited : List Nat}
    (due : t.Reassigns now)
    (ran : t.assignUploadSlots now later sorting rand stack = .ok (next, visited))
    : visited = entries.map Prod.fst := by
  obtain ⟨_, _, returned, _, every⟩ := lists.assignUploadSlots now later sorting rand stack
  rw [ran] at returned
  cases returned
  obtain ⟨reached, some⟩ := due
  rwa [if_neg (by omega)] at every

theorem Lists.assignsSlots (lists : t.Lists entries) {now later : Int} {sorting : Sorting}
    {rand : Nat} {stack : Nat → Option Nat} {visited : List Nat} (due : t.Reassigns now)
    (ran : t.assignUploadSlots now later sorting rand stack = .ok (next, visited))
    : t.AssignsSlots next (sorting.sort (t.candidates entries)) rand := by
  have every := lists.assignUploadSlots_visited due ran
  rw [PeerRegistry.assignUploadSlots, if_neg (Int.not_lt.mpr due.1), if_pos due.2] at ran
  obtain ⟨⟨collected, peers, order⟩, walked, ran⟩ := bind_eq_ok.mp ran
  obtain ⟨final, assigned, same⟩ := bind_eq_ok.mp ran
  cases same
  obtain ⟨memory, found⟩ := traverse_interested walked
  rw [List.nil_append, every] at found
  have listed : peers = t.candidates entries := found
  have permuted := sorting.perm peers
  have distinct : (sorting.sort peers).Nodup :=
    permuted.nodup_iff.mpr (listed ▸ lists.addresses_nodup.filter _)
  obtain ⟨kept, others, slots⟩ := slotLoop_effect distinct assigned
  have sameUploaders : collected.isUploader = t.isUploader := by
    funext p
    rw [isUploader, isUploader, memory]
  have sameCandidates : collected.isCandidate = t.isCandidate := by
    funext p
    rw [isCandidate, isCandidate, memory]
  rw [← listed]
  refine ⟨kept.trans sameCandidates, fun p absent => ?_, fun k p there => ?_⟩
  · rw [others p absent, sameUploaders]
  · rw [slots k p there, permuted.length_eq, Nat.zero_add]
    rfl

/-- The slots are assigned exactly when no other peer has kept one from before, and the optimistic
index, if there is one, is that of a peer.
-/
theorem Lists.slotsAssigned_iff (lists : t.Lists entries) {now later : Int} {sorting : Sorting}
    {rand : Nat} {stack : Nat → Option Nat} {visited : List Nat} (due : t.Reassigns now)
    (ran : t.assignUploadSlots now later sorting rand stack = .ok (next, visited))
    : next.SlotsAssigned (entries.map Prod.fst)
      ↔ (∀ p ∈ entries.map Prod.fst, t.isUploader p = true → t.isCandidate p = true)
        ∧ (3 < (t.candidates entries).length
          → randr 3 (t.candidates entries).length rand < (t.candidates entries).length) := by
  have assigns := lists.assignsSlots due ran
  have permuted := sorting.perm (t.candidates entries)
  have among {p : Nat} (member : p ∈ sorting.sort (t.candidates entries))
      : p ∈ entries.map Prod.fst ∧ t.isCandidate p = true :=
    List.mem_filter.mp (permuted.mem_iff.mp member)
  have stale
      : (∀ p ∈ entries.map Prod.fst, next.isUploader p = true → next.isCandidate p = true)
        ↔ ∀ p ∈ entries.map Prod.fst, t.isUploader p = true → t.isCandidate p = true := by
    refine forall₂_congr fun p member => ?_
    rw [assigns.candidates]
    by_cases candidate : t.isCandidate p = true
    · simp [candidate]
    · have absent : p ∉ sorting.sort (t.candidates entries) := fun here =>
        candidate (among here).2
      rw [assigns.others p absent]
  rw [SlotsAssigned, stale]
  refine and_congr_right fun fresh => ?_
  -- without stale slots, the peers with a slot are those of the sorted array
  have uploaders
      : ((entries.map Prod.fst).filter next.isUploader).length
        = ((sorting.sort (t.candidates entries)).filter next.isUploader).length := by
    rw [(permuted.filter next.isUploader).length_eq, candidates, List.filter_filter]
    refine congrArg List.length (List.filter_congr fun p member => ?_)
    have slot := stale.mpr fresh p member
    rw [assigns.candidates] at slot
    cases uploads : next.isUploader p with
    | false => rfl
    | true => rw [slot uploads]; rfl
  have total : ((entries.map Prod.fst).filter next.isCandidate).length
      = (t.candidates entries).length := by
    rw [assigns.candidates, candidates]
  have count := @slots_count (optimisticIndex (sorting.sort (t.candidates entries)).length rand)
    (sorting.sort (t.candidates entries)) 0 next.isUploader fun k p there => by
      rw [assigns.slots k p there, Nat.zero_add]
  rw [uploaders, total, count, permuted.length_eq, optimisticIndex]
  have above : 3 ≤ randr 3 (t.candidates entries).length rand := Nat.le_add_left _ _
  by_cases crowded : 3 < (t.candidates entries).length
  · rw [if_pos crowded]
    split <;> omega
  · rw [if_neg crowded]
    split <;> omega

-----------------------------------------------------------------------------------------
-- Runs
-----------------------------------------------------------------------------------------

/-- A call that reassigns leaves the slots assigned among the listed peers. -/
def LeavesSlotsAssigned (t : PeerRegistry) : RegistryAction → Prop
  | .assignUploadSlots now later sorting rand stack =>
      t.Reassigns now
      → ∃ entries next visited,
          t.Lists entries
          ∧ t.assignUploadSlots now later sorting rand stack = .ok (next, visited)
          ∧ next.SlotsAssigned (entries.map Prod.fst)
  | _ => True

/-- A call that reassigns finds slots only with peers that are interested, and draws an index below
their number when there are more than three.
-/
def FindsSlotsClear (t : PeerRegistry) : RegistryAction → Prop
  | .assignUploadSlots now _ _ rand _ =>
      t.Reassigns now
      → ∃ entries,
          t.Lists entries
          ∧ (∀ p ∈ entries.map Prod.fst, t.isUploader p = true → t.isCandidate p = true)
          ∧ (3 < (t.candidates entries).length
            → randr 3 (t.candidates entries).length rand < (t.candidates entries).length)
  | _ => True

theorem leavesSlotsAssigned_iff (t : PeerRegistry) (action : RegistryAction)
    : t.LeavesSlotsAssigned action ↔ t.FindsSlotsClear action := by
  cases action with
  | assignUploadSlots now later sorting rand stack =>
      refine forall_congr' fun due => ?_
      constructor
      · rintro ⟨entries, next, visited, lists, returned, assigned⟩
        exact ⟨entries, lists, (lists.slotsAssigned_iff due returned).mp assigned⟩
      · rintro ⟨entries, lists, clear⟩
        obtain ⟨next, visited, returned, _, _⟩ :=
          lists.assignUploadSlots now later sorting rand stack
        exact ⟨entries, next, visited, lists, returned,
          (lists.slotsAssigned_iff due returned).mpr clear⟩
  | addPeer ip peer item => exact Iff.rfl
  | workers change => exact Iff.rfl
  | runPeers refused stack => exact Iff.rfl
  | processDataChunk pieceId written stack => exact Iff.rfl

/-- In every run of the main loop, the calls leave the slots assigned exactly when they find them
clear.
-/
theorem run_leavesSlotsAssigned_iff (actions : List RegistryAction)
    : Guarded step LeavesSlotsAssigned new actions ↔ Guarded step FindsSlotsClear new actions := by
  have steps (state : PeerRegistry) (action : RegistryAction) (_ : True) (_ : True)
      : (state.LeavesSlotsAssigned action ↔ state.FindsSlotsClear action)
        ∧ ∀ next, state.step action = .ok next → True :=
    ⟨leavesSlotsAssigned_iff state action, fun _ _ => trivial⟩
  exact Guarded.iff_of_invariant steps trivial (Guarded.of_forall (fun _ _ => trivial) new actions)

/-- A peer gets a slot and loses its interest. -/
def staleSlot : List RegistryAction :=
  [
    .addPeer 16843009
      { Peer.new 0 with status := .handshakeComplete, peerInterested := true } none,
    .assignUploadSlots 1 1 .unchanged 0 (fun _ => none),
    .workers fun _ p => { p with peerInterested := false }
  ]

/-- The next call leaves it its slot. -/
theorem uninterested_peer_keeps_slot
    : ¬ Guarded step LeavesSlotsAssigned new
        (staleSlot ++ [.assignUploadSlots 20000 20000 .unchanged 0 (fun _ => none)]) := by
  intro guarded
  have passed
      : returnsWith (runSteps step new staleSlot) (fun final =>
          decide (final.Reassigns 20000)
          && returnsWith (final.assignUploadSlots 20000 20000 .unchanged 0 (fun _ => none))
            (fun result =>
              decide (result.2 = [0]) && result.1.isUploader 0 && !result.1.isCandidate 0))
        = true := by
    decide +kernel
  obtain ⟨final, run, tested⟩ := exists_ok_of_returnsWith passed
  rw [Bool.and_eq_true, decide_eq_true_eq] at tested
  obtain ⟨due, tested⟩ := tested
  obtain ⟨⟨next, visited⟩, returned, tested⟩ := exists_ok_of_returnsWith tested
  simp only [Bool.and_eq_true, decide_eq_true_eq, Bool.not_eq_true'] at tested
  obtain ⟨⟨rfl, uploads⟩, uninterested⟩ := tested
  obtain ⟨entries, _, _, lists, again, interested, _⟩ := guarded.last run due
  rw [returned] at again
  cases again
  have every := lists.assignUploadSlots_visited due returned
  have candidate := interested 0 (every ▸ List.mem_cons_self) uploads
  rw [uninterested] at candidate
  cases candidate

end PeerRegistry

end UvgTorrent

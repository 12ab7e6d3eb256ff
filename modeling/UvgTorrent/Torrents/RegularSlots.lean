import UvgTorrent.Foundations.Comparators
import UvgTorrent.Torrents.UploadSlots

/-! Which interested peers get the three regular slots. The comparator of the sort puts the slowest
peers first, and the first peers of the array get the slots.
-/

namespace UvgTorrent

open Foundations

/-- The upload measures of a socket: `upload_rate` as an exact rational, and the milliseconds since
`last_upload_rate_update`.
-/
structure UploadMeter where
  uploadRate : ℚ
  elapsed : Nat
  elapsed_pos : 0 < elapsed

namespace PeerRegistry

/-- The rate that `peer_compare_upload_speed` computes for a peer. -/
def socketRate (t : PeerRegistry) (meter : Nat → UploadMeter) (p : Nat) : ℚ :=
  match t.memory p with
  | none => 0
  | some named =>
      if named.peer.socket.isSome then (meter p).uploadRate / (meter p).elapsed else 0

/-- `peer_compare_upload_speed`. The difference becomes an `int`, which is `INT_MIN` (the
processor's value for a conversion that fails) when the difference does not fit, in either direction.
-/
def compareUploadSpeed (t : PeerRegistry) (meter : Nat → UploadMeter) (a b : Nat) : Int :=
  truncateWithin (2 ^ 31) (t.socketRate meter a - t.socketRate meter b)

/-- The peers to which a call gives the regular slots. -/
def regularSlots (t : PeerRegistry) (entries : List (Nat × CString)) (sorting : Sorting)
    : List Nat :=
  (sorting.sort (t.candidates entries)).take 3

variable {t next : PeerRegistry} {entries : List (Nat × CString)}

/-- The call gives these peers a slot, and besides them only the peer at the optimistic index. -/
theorem Lists.regularSlots_uploader (lists : t.Lists entries) {now later : Int}
    {sorting : Sorting} {rand : Nat} {stack : Nat → Option Nat} {visited : List Nat}
    (due : t.Reassigns now)
    (ran : t.assignUploadSlots now later sorting rand stack = .ok (next, visited))
    : (∀ p ∈ t.regularSlots entries sorting, next.isUploader p = true)
      ∧ ∀ p ∈ t.candidates entries,
          p ∉ t.regularSlots entries sorting
          → next.isUploader p = true
          → ∃ k : Nat,
              (k : Int) = optimisticIndex (t.candidates entries).length rand
              ∧ (sorting.sort (t.candidates entries))[k]? = some p := by
  have assigns := lists.assignsSlots due ran
  have permuted := sorting.perm (t.candidates entries)
  constructor
  · intro p member
    obtain ⟨k, inRange, rfl⟩ := List.mem_take_iff_getElem.mp member
    rw [assigns.slots k _ (List.getElem?_eq_getElem (by omega))]
    exact decide_eq_true (.inl (by omega))
  · intro p member irregular uploads
    obtain ⟨k, inRange, rfl⟩ := List.getElem_of_mem (permuted.mem_iff.mpr member)
    have there := List.getElem?_eq_getElem inRange
    rw [assigns.slots k _ there, permuted.length_eq] at uploads
    refine ⟨k, (of_decide_eq_true uploads).resolve_left fun regular => irregular ?_, there⟩
    exact List.mem_take_iff_getElem.mpr ⟨k, by omega, rfl⟩

/-- The comparator is that of a total preorder on the interested peers, and a call at `now` whose
sort is right gives the regular slots to peers that no other interested peer is faster than.
-/
def FastestGetSlots (t : PeerRegistry) (now : Int) (meter : Nat → UploadMeter)
    (entries : List (Nat × CString))
    : Prop :=
  ConsistentOn (t.compareUploadSpeed meter) (t.candidates entries)
  ∧ ∀ later sorting rand stack next visited,
      SortedBy (t.compareUploadSpeed meter) (sorting.sort (t.candidates entries))
      → t.assignUploadSlots now later sorting rand stack = .ok (next, visited)
      → ∀ p ∈ t.regularSlots entries sorting,
          next.isUploader p = true
          ∧ ∀ q ∈ t.candidates entries,
              q ∉ t.regularSlots entries sorting
              → t.socketRate meter q ≤ t.socketRate meter p

/-- All interested peers are equally fast; or there is a regular slot for each, no difference of two
is too large for an `int`, and no three are a chain of steps below one that add up to one.
-/
def RatesHarmless (t : PeerRegistry) (meter : Nat → UploadMeter)
    (entries : List (Nat × CString))
    : Prop :=
  (∀ p ∈ t.candidates entries, ∀ q ∈ t.candidates entries,
    t.socketRate meter p = t.socketRate meter q)
  ∨ (t.candidates entries).length ≤ 3
    ∧ (∀ a ∈ t.candidates entries, ∀ b ∈ t.candidates entries,
        t.socketRate meter a - t.socketRate meter b < 2 ^ 31)
    ∧ ∀ a ∈ t.candidates entries, ∀ b ∈ t.candidates entries, ∀ c ∈ t.candidates entries,
        t.socketRate meter a - t.socketRate meter b < 1
        → t.socketRate meter b - t.socketRate meter c < 1
        → t.socketRate meter a - t.socketRate meter c < 1

theorem int_limit_pos : (0 : Int) < 2 ^ 31 := by norm_num

theorem int_limit_cast : ((2 ^ 31 : Int) : ℚ) = 2 ^ 31 := by norm_num

/-- Rates with which the comparator is consistent. -/
theorem RatesHarmless.consistent {meter : Nat → UploadMeter}
    (harmless : t.RatesHarmless meter entries)
    : ConsistentOn (t.compareUploadSpeed meter) (t.candidates entries) := by
  refine (consistentOn_truncated_iff int_limit_pos).mpr ?_
  rw [int_limit_cast]
  cases harmless with
  | inl level =>
      constructor
      · intro a inA b inB
        rw [level a inA b inB, sub_self]
        positivity
      · intro a inA b inB c inC _ _
        rw [level a inA c inC, sub_self]
        exact one_pos
  | inr few => exact few.2

/-- The fastest peers get the regular slots exactly when all are equally fast, or there are too few
peers for a choice and the comparator is consistent.
-/
theorem Lists.fastestGetSlots_iff (lists : t.Lists entries) {now : Int} (due : t.Reassigns now)
    (meter : Nat → UploadMeter)
    : t.FastestGetSlots now meter entries ↔ t.RatesHarmless meter entries := by
  constructor
  · rintro ⟨preorder, fastest⟩
    by_cases few : (t.candidates entries).length ≤ 3
    · have rates := (consistentOn_truncated_iff int_limit_pos).mp preorder
      rw [int_limit_cast] at rates
      exact .inr ⟨few, rates⟩
    · -- a sort in the order of the rates is right, and gives the slowest peers the slots
      left
      let sorting : Sorting :=
        { sort := sortByMeasure (t.socketRate meter), perm := sortByMeasure_perm _ }
      have permuted := sorting.perm (t.candidates entries)
      have ascending := sortByMeasure_ascending (t.socketRate meter) (t.candidates entries)
      have distinct : (sorting.sort (t.candidates entries)).Nodup :=
        permuted.nodup_iff.mpr (lists.addresses_nodup.filter _)
      obtain ⟨next, visited, returned, _, _⟩ :=
        lists.assignUploadSlots now 0 sorting 0 fun _ => none
      have largest
          : ∀ p ∈ (sorting.sort (t.candidates entries)).take 3,
              ∀ q ∈ (sorting.sort (t.candidates entries)).drop 3,
                t.socketRate meter q ≤ t.socketRate meter p := by
        intro p inTake q inDrop
        obtain ⟨_, fast⟩ :=
          fastest 0 sorting 0 _ next visited (sortedBy_truncated int_limit_pos ascending) returned p
            inTake
        exact fast q (permuted.mem_iff.mp (List.mem_of_mem_drop inDrop))
          fun again => List.disjoint_take_drop distinct (le_refl 3) again inDrop
      have others : 3 < (sorting.sort (t.candidates entries)).length := by
        rw [permuted.length_eq]
        omega
      have level := measure_eq_of_ascending ascending (show 0 < 3 by decide) others largest
      intro p inP q inQ
      exact level p (permuted.mem_iff.mpr inP) q (permuted.mem_iff.mpr inQ)
  · intro harmless
    refine ⟨harmless.consistent, fun later sorting rand stack next visited _ ran p inP => ?_⟩
    refine ⟨(lists.regularSlots_uploader due ran).1 p inP, fun q inQ irregular => ?_⟩
    have permuted := sorting.perm (t.candidates entries)
    cases harmless with
    | inl level => exact (level q inQ p (permuted.mem_iff.mp (List.mem_of_mem_take inP))).le
    | inr few =>
        refine absurd ?_ irregular
        rw [regularSlots, List.take_of_length_le (by rw [permuted.length_eq]; exact few.1)]
        exact permuted.mem_iff.mpr inQ

-----------------------------------------------------------------------------------------
-- Four peers
-----------------------------------------------------------------------------------------

/-- Sockets that upload at ten times the address of their peer. -/
def addressMeter (p : Nat) : UploadMeter :=
  { uploadRate := 10 * p, elapsed := 1, elapsed_pos := Nat.one_pos }

/-- A connected, interested peer is added. -/
def addCandidate (ip : UInt32) : RegistryAction :=
  .addPeer ip
    {
      Peer.new 0 with
      socket := some .new
      status := .handshakeComplete
      peerInterested := true
    }
    none

/-- Witness: two connected peers, both of which get a regular slot. -/
theorem fastestGetSlots_two
    : ∃ t entries,
        runSteps step new [addCandidate 1, addCandidate 2] = .ok t
        ∧ t.candidates entries = [0, 1]
        ∧ t.FastestGetSlots 1 addressMeter entries := by
  have passed
      : returnsWith (runSteps step new [addCandidate 1, addCandidate 2]) (fun t =>
          decide (t.Reassigns 1)
          && decide (t.socketRate addressMeter 0 = 0 ∧ t.socketRate addressMeter 1 = 10)
          && decide ([0, 1].filter t.isCandidate = [0, 1])
          && returnsWith (t.assignUploadSlots 1 1 .unchanged 0 (fun _ => none)) (fun result =>
            decide (result.2 = [0, 1])))
        = true := by
    decide +kernel
  obtain ⟨t, run, tested⟩ := exists_ok_of_returnsWith passed
  simp only [Bool.and_eq_true, decide_eq_true_eq] at tested
  obtain ⟨⟨⟨due, slow, fast⟩, interested⟩, tested⟩ := tested
  obtain ⟨⟨next, visited⟩, returned, every⟩ := exists_ok_of_returnsWith tested
  obtain rfl := of_decide_eq_true every
  obtain ⟨entries, lists⟩ := registered_of_run run
  have all : t.candidates entries = [0, 1] := by
    rw [candidates, ← lists.assignUploadSlots_visited due returned]
    exact interested
  refine ⟨t, entries, run, all, (lists.fastestGetSlots_iff due addressMeter).mpr (.inr ?_)⟩
  rw [all]
  norm_num [slow, fast]

/-- Of four connected peers the fastest gets no regular slot. -/
theorem slowest_peers_get_slots
    : ∃ t entries,
        runSteps step new [addCandidate 1, addCandidate 2, addCandidate 3, addCandidate 4] = .ok t
        ∧ t.Lists entries
        ∧ t.Reassigns 1
        ∧ ¬ t.FastestGetSlots 1 addressMeter entries := by
  have passed
      : returnsWith
          (runSteps step new [addCandidate 1, addCandidate 2, addCandidate 3, addCandidate 4])
          (fun t =>
            decide (t.Reassigns 1)
            && decide (SortedBy (t.compareUploadSpeed addressMeter) [0, 1, 2, 3])
            && decide (t.socketRate addressMeter 0 < t.socketRate addressMeter 3)
            && decide ([0, 1, 2, 3].filter t.isCandidate = [0, 1, 2, 3])
            && returnsWith (t.assignUploadSlots 1 1 .unchanged 0 (fun _ => none)) (fun result =>
              decide (result.2 = [0, 1, 2, 3])))
        = true := by
    decide +kernel
  obtain ⟨t, run, tested⟩ := exists_ok_of_returnsWith passed
  simp only [Bool.and_eq_true, decide_eq_true_eq] at tested
  obtain ⟨⟨⟨⟨due, sorted⟩, slower⟩, interested⟩, tested⟩ := tested
  obtain ⟨⟨next, visited⟩, returned, every⟩ := exists_ok_of_returnsWith tested
  obtain rfl := of_decide_eq_true every
  obtain ⟨entries, lists⟩ := registered_of_run run
  have all : t.candidates entries = [0, 1, 2, 3] := by
    rw [candidates, ← lists.assignUploadSlots_visited due returned]
    exact interested
  have regular : t.regularSlots entries .unchanged = [0, 1, 2] := by
    rw [regularSlots, all]
    rfl
  refine ⟨t, entries, run, lists, due, fun fastest => ?_⟩
  obtain ⟨_, fast⟩ := fastest.2 1 .unchanged 0 _ next _ (all ▸ sorted) returned 0
    (regular ▸ List.mem_cons_self)
  exact absurd slower (not_lt.mpr (fast 3 (by rw [all]; decide) (by rw [regular]; decide)))

end PeerRegistry

end UvgTorrent

import Mathlib.Data.List.ReduceOption
import UvgTorrent.Claims.ClaimList
import UvgTorrent.TorrentData.Setup

/-! What one claim or one release does to the list of claims and to the `claimed` bits.
`ClaimState` ties the linked list to the two bitfields; every operation keeps it.
-/

namespace UvgTorrent

open Foundations

namespace TorrentData

variable {td next : TorrentData} {nodes : List (Nat × TorrentDataClaim)}
  {claimed completed interested : Bitfield} {clock : Nat → Int}

/-- The list of claims in memory is `nodes`, no chunk is listed twice, a listed chunk has its
`claimed` bit, and a chunk with its `claimed` bit is listed or completed.
-/
structure ClaimState (td : TorrentData) (nodes : List (Nat × TorrentDataClaim))
    (claimed completed : Bitfield)
    : Prop where
  initialized : td.initialized = true
  holds : td.claims.Holds nodes
  claimed_field : td.claimed = some claimed
  completed_field : td.completed = some completed
  sameCount : completed.bitCount = claimed.bitCount
  small : claimed.bitCount < 2 ^ 31
  distinct : (nodes.map (·.2.chunkId)).Nodup
  listed
    : ∀ node ∈ nodes,
        ∃ chunk : Nat,
          node.2.chunkId = chunk ∧ chunk < claimed.bitCount ∧ claimed.bit chunk = true
  covered
    : ∀ chunk < claimed.bitCount,
        claimed.bit chunk = true
        → (∃ node ∈ nodes, node.2.chunkId = chunk) ∨ completed.bit chunk = true

-----------------------------------------------------------------------------------------
-- Claiming
-----------------------------------------------------------------------------------------

/-- A chunk that the inner loop picks is in range and unclaimed. -/
theorem firstClaimable_eq_some {remaining start index : Nat}
    (picked : firstClaimable claimed interested remaining start = .ok (some index))
    : start ≤ index ∧ index < start + remaining ∧ claimed.bit index = false := by
  induction remaining generalizing start with
  | zero => cases picked
  | succ remaining ih =>
      obtain ⟨taken, read, picked⟩ := bind_eq_ok.mp picked
      have here : claimed.bit start = taken := by
        unfold Bitfield.getBit at read
        split at read
        · simpa using read
        · cases read
      cases taken with
      | true =>
          obtain ⟨above, below, clear⟩ := ih picked
          exact ⟨by omega, by omega, clear⟩
      | false =>
          obtain ⟨wanted, _, picked⟩ := bind_eq_ok.mp picked
          cases wanted with
          | true =>
              obtain rfl : start = index := by simpa using picked
              exact ⟨by omega, by omega, here⟩
          | false =>
              obtain ⟨above, below, clear⟩ := ih picked
              exact ⟨by omega, by omega, clear⟩

/-- The scan picks a chunk that is wanted. -/
theorem firstClaimable_wanted {remaining start index : Nat}
    (picked : firstClaimable claimed interested remaining start = .ok (some index))
    : interested.bit index = true := by
  induction remaining generalizing start with
  | zero => cases picked
  | succ remaining ih =>
      obtain ⟨taken, _, picked⟩ := bind_eq_ok.mp picked
      cases taken with
      | true => exact ih picked
      | false =>
          obtain ⟨wanted, read, picked⟩ := bind_eq_ok.mp picked
          cases wanted with
          | true =>
              obtain rfl : start = index := by simpa using picked
              unfold Bitfield.getBit at read
              split at read
              · simpa using read
              · cases read
          | false => exact ih picked

/-- Laying a claim on an unclaimed chunk puts it in front of the list. -/
theorem ClaimState.layClaim (state : td.ClaimState nodes claimed completed)
    {timeoutSeconds : Int} (lasting : 0 < timeoutSeconds) (now : Int) {index : Nat}
    (inRange : index < claimed.bitCount) (clear : claimed.bit index = false)
    : ∃ node,
        (td.layClaim claimed timeoutSeconds now index).ClaimState (node :: nodes)
          (claimed.setBit index 1) completed := by
  have small := state.small
  have bits := Bitfield.bit_setBit_one inRange (by omega)
  have unlisted : ∀ node ∈ nodes, node.2.chunkId ≠ (index : Int) := by
    intro node member same
    obtain ⟨chunk, named, _, set⟩ := state.listed node member
    obtain rfl : chunk = index := by omega
    simp [clear] at set
  have changed : (td.layClaim claimed timeoutSeconds now index)
      = {
          td with
          claimed := some (claimed.setBit index 1)
          claims := td.claims.pushFront
            {
              deadline := wrap64 (now + wrap32 (timeoutSeconds * 1000))
              chunkId := index
            }
        } := by
    rw [TorrentData.layClaim, if_pos (by omega)]
  rw [changed]
  refine
    ⟨_,
      {
        initialized := state.initialized
        holds := state.holds.pushFront _
        claimed_field := rfl
        completed_field := state.completed_field
        sameCount := by simpa using state.sameCount
        small := by simpa using small
        distinct := ?_
        listed := ?_
        covered := ?_
      }⟩
  · rw [List.map_cons, List.nodup_cons]
    refine ⟨?_, state.distinct⟩
    intro again
    obtain ⟨node, member, same⟩ := List.mem_map.mp again
    exact unlisted node member same
  · intro node member
    rcases List.mem_cons.mp member with rfl | older
    · exact ⟨index, rfl, by simpa using inRange, by simp [bits]⟩
    · obtain ⟨chunk, named, within, set⟩ := state.listed node older
      exact ⟨chunk, named, by simpa using within, by simp [bits, set]⟩
  · intro chunk within set
    rw [bits, Bool.or_eq_true, decide_eq_true_eq] at set
    rcases set with rfl | older
    · exact .inl ⟨_, List.mem_cons_self, rfl⟩
    · rcases state.covered chunk (by simpa using within) older with ⟨node, member, same⟩ | done
      · exact .inl ⟨node, List.mem_cons_of_mem _ member, same⟩
      · exact .inr done

/-- A claim or a release changes only the list and the `claimed` field. -/
def SameButClaims (td next : TorrentData) : Prop :=
  next = { td with claims := next.claims, claimed := next.claimed }

theorem SameButClaims.trans {last : TorrentData} (first : td.SameButClaims next)
    (second : next.SameButClaims last)
    : td.SameButClaims last := by
  unfold SameButClaims at *
  rw [second, first]

/-- What every claim on a chunk in range keeps, `torrent_data_claim_chunk` keeps. Induction on the
entries of `out` left to fill.
-/
theorem claimChunk_keeps {invariant : TorrentData → Prop} {numChunks timeoutSeconds : Int}
    (lays
      : ∀ td claimed now index,
          invariant td
          → td.claimed = some claimed
          → index < claimed.bitCount
          → invariant (td.layClaim claimed timeoutSeconds now index))
    {exit : Exit} {out : List (Option Nat)} (start : invariant td)
    (claims : td.claimChunk interested timeoutSeconds numChunks clock = .ok (next, exit, out))
    : invariant next := by
  have loops (remaining chunk : Nat) {td next : TorrentData} {out : List (Option Nat)}
      (start : invariant td)
      (ran : claimLoop interested timeoutSeconds clock remaining chunk td = .ok (next, out))
      : invariant next := by
    induction remaining generalizing chunk td out with
    | zero =>
        cases ran
        exact start
    | succ remaining ih =>
        unfold claimLoop at ran
        split at ran
        · cases ran
        · rename_i claimed field
          obtain ⟨found, picked, ran⟩ := bind_eq_ok.mp ran
          obtain ⟨⟨last, later⟩, ranLater, same⟩ := bind_eq_ok.mp ran
          cases same
          refine ih _ ?_ ranLater
          cases found with
          | none => exact start
          | some index =>
              have below := (firstClaimable_eq_some picked).2.1
              exact lays td claimed _ index start field (by omega)
  unfold claimChunk at claims
  split at claims
  · split at claims
    · cases claims
    · obtain ⟨⟨last, later⟩, ran, same⟩ := bind_eq_ok.mp claims
      cases same
      exact loops _ _ start ran
  · cases claims
    exact start

/-- No claim touches anything but the claims. -/
theorem claimChunk_sameButClaims {numChunks timeoutSeconds : Int} {exit : Exit}
    {out : List (Option Nat)}
    (claims : td.claimChunk interested timeoutSeconds numChunks clock = .ok (next, exit, out))
    : td.SameButClaims next := by
  refine claimChunk_keeps (fun middle claimed now index same _ _ => ?_)
    (show td.SameButClaims td from rfl) claims
  refine same.trans ?_
  unfold layClaim
  split <;> rfl

/-- Claims leave an initialized struct. -/
theorem Initialised.claimChunk (ready : td.Initialised) {numChunks timeoutSeconds : Int}
    {exit : Exit} {out : List (Option Nat)}
    (claims : td.claimChunk interested timeoutSeconds numChunks clock = .ok (next, exit, out))
    : next.Initialised := by
  refine claimChunk_keeps (fun middle claimed now index ready field below => ?_) ready claims
  obtain ⟨other, same, counted, spare⟩ := ready.claimed_field
  obtain rfl : claimed = other := Option.some.inj (field.symm.trans same)
  have small := ready.chunkTotal_lt
  unfold layClaim
  split
  · exact
      {
        ready with
        claimed_field := ⟨_, rfl, (Bitfield.setBit_bitCount ..).trans counted,
          spare.setBit_one below (by omega)⟩
      }
  · exact ready

/-- The outer loop hands out distinct unclaimed chunks and lists a claim for each. Witness:
induction on the entries of `out` left to fill, each claim marking its chunk for the next.
-/
theorem ClaimState.claimLoop (state : td.ClaimState nodes claimed completed)
    {timeoutSeconds : Int} (lasting : 0 < timeoutSeconds) {remaining chunk : Nat}
    {out : List (Option Nat)}
    (returned
      : TorrentData.claimLoop interested timeoutSeconds clock remaining chunk td
        = .ok (next, out))
    : ∃ nodes' claimed',
        next.ClaimState nodes' claimed' completed
        ∧ (∀ index, claimed.bit index = true → claimed'.bit index = true)
        ∧ td.SameButClaims next
        ∧ out.reduceOption.Nodup
        ∧ ∀ index ∈ out.reduceOption, index < claimed.bitCount ∧ claimed.bit index = false := by
  induction remaining generalizing td nodes claimed chunk out with
  | zero =>
      simp only [TorrentData.claimLoop, Except.ok.injEq, Prod.mk.injEq] at returned
      obtain ⟨rfl, rfl⟩ := returned
      exact ⟨nodes, claimed, state, fun _ set => set, rfl, by simp, by simp⟩
  | succ remaining ih =>
      simp only [TorrentData.claimLoop, state.claimed_field] at returned
      obtain ⟨found, picked, returned⟩ := bind_eq_ok.mp returned
      obtain ⟨⟨after, rest⟩, looped, same⟩ := bind_eq_ok.mp returned
      simp only [Except.ok.injEq, Prod.mk.injEq] at same
      obtain ⟨rfl, rfl⟩ := same
      cases found with
      | none =>
          obtain ⟨nodes', claimed', later, kept, frame, distinct, unclaimed⟩ := ih state looped
          exact ⟨nodes', claimed', later, kept, frame, by simpa using distinct,
            by simpa using unclaimed⟩
      | some index =>
          obtain ⟨_, below, clear⟩ := firstClaimable_eq_some picked
          have inRange : index < claimed.bitCount := by omega
          have small := state.small
          have bits := Bitfield.bit_setBit_one inRange (by omega)
          obtain ⟨node, laid⟩ := state.layClaim lasting (clock chunk) inRange clear
          obtain ⟨nodes', claimed', later, kept, frame, distinct, unclaimed⟩ := ih laid looped
          have layFrame : td.SameButClaims
              (td.layClaim claimed timeoutSeconds (clock chunk) index) := by
            unfold SameButClaims TorrentData.layClaim
            split <;> rfl
          -- a chunk handed out later is clear after this claim, so it is another one
          have others : ∀ other ∈ rest.reduceOption, other ≠ index ∧ other < claimed.bitCount
              ∧ claimed.bit other = false := by
            intro other member
            obtain ⟨within, open_⟩ := unclaimed other member
            rw [bits, Bool.or_eq_false_iff, decide_eq_false_iff_not] at open_
            exact ⟨fun same => open_.1 same.symm, by simpa using within, open_.2⟩
          refine ⟨nodes', claimed', later, ?_, layFrame.trans frame, ?_, ?_⟩
          · intro other set
            exact kept other (by simp [bits, set])
          · rw [List.reduceOption_cons_of_some, List.nodup_cons]
            exact ⟨fun again => (others index again).1 rfl, distinct⟩
          · intro other member
            rw [List.reduceOption_cons_of_some, List.mem_cons] at member
            rcases member with rfl | later
            · exact ⟨inRange, clear⟩
            · exact (others other later).2

/-- A claim call keeps the claim state and hands out distinct unclaimed chunks. -/
theorem ClaimState.claimChunk (state : td.ClaimState nodes claimed completed)
    {timeoutSeconds numChunks : Int} (lasting : 0 < timeoutSeconds) {exit : Exit}
    {out : List (Option Nat)}
    (returned
      : td.claimChunk interested timeoutSeconds numChunks clock = .ok (next, exit, out))
    : ∃ nodes' claimed',
        next.ClaimState nodes' claimed' completed
        ∧ (∀ index, claimed.bit index = true → claimed'.bit index = true)
        ∧ td.SameButClaims next
        ∧ out.reduceOption.Nodup
        ∧ ∀ index ∈ out.reduceOption, index < claimed.bitCount ∧ claimed.bit index = false := by
  simp only [TorrentData.claimChunk, state.initialized, if_true, state.claimed_field] at returned
  obtain ⟨⟨after, handed⟩, looped, same⟩ := bind_eq_ok.mp returned
  simp only [Except.ok.injEq, Prod.mk.injEq] at same
  obtain ⟨rfl, -, rfl⟩ := same
  exact state.claimLoop lasting looped

-----------------------------------------------------------------------------------------
-- Releasing
-----------------------------------------------------------------------------------------

/-- The claims whose deadline has not passed, when the claim visited as number `visit` is
compared with that clock reading.
-/
def unexpired (clock : Nat → Int)
    : Nat → List (Nat × TorrentDataClaim) → List (Nat × TorrentDataClaim)
  | _, [] => []
  | visit, node :: rest =>
      if node.2.deadline < clock visit then unexpired clock (visit + 1) rest
      else node :: unexpired clock (visit + 1) rest

/-- The `claimed` bits after the expired claims on uncompleted chunks are released. -/
def releasedBits (completed : Bitfield) (clock : Nat → Int)
    : Nat → List (Nat × TorrentDataClaim) → Bitfield → Bitfield
  | _, [], claimed => claimed
  | visit, node :: rest, claimed =>
      releasedBits completed clock (visit + 1) rest
        (if node.2.deadline < clock visit ∧ completed.bit node.2.chunkId.toNat = false then
          claimed.setBit node.2.chunkId 0
        else claimed)

theorem unexpired_sublist (clock : Nat → Int) (visit : Nat)
    (nodes : List (Nat × TorrentDataClaim))
    : (unexpired clock visit nodes).Sublist nodes := by
  induction nodes generalizing visit with
  | nil => exact .slnil
  | cons node rest ih =>
      unfold unexpired
      split
      · exact (ih (visit + 1)).cons node
      · exact (ih (visit + 1)).cons_cons node

@[simp] theorem releasedBits_bitCount (completed : Bitfield) (clock : Nat → Int) (visit : Nat)
    (nodes : List (Nat × TorrentDataClaim)) (claimed : Bitfield)
    : (releasedBits completed clock visit nodes claimed).bitCount = claimed.bitCount := by
  induction nodes generalizing visit claimed with
  | nil => rfl
  | cons node rest ih =>
      rw [releasedBits, ih]
      split <;> simp

/-- A `claimed` bit survives a release exactly when its chunk is completed or every claim on
it is kept.
-/
theorem releasedBits_bit {visit : Nat} (distinct : (nodes.map (·.2.chunkId)).Nodup)
    (small : claimed.bitCount < 2 ^ 31)
    (named
      : ∀ node ∈ nodes, ∃ chunk : Nat, node.2.chunkId = chunk ∧ chunk < claimed.bitCount)
    (index : Nat)
    : (releasedBits completed clock visit nodes claimed).bit index = true
      ↔ claimed.bit index = true
        ∧ (completed.bit index = true
          ∨ ∀ node ∈ nodes, node.2.chunkId = index → node ∈ unexpired clock visit nodes) := by
  induction nodes generalizing visit claimed with
  | nil => simp [releasedBits]
  | cons node rest ih =>
      obtain ⟨chunk, own, within⟩ := named node (by simp)
      rw [List.map_cons, List.nodup_cons] at distinct
      obtain ⟨alone, distinct⟩ := distinct
      have unlisted : ∀ other ∈ rest, other.2.chunkId ≠ node.2.chunkId := by
        intro other member same
        exact alone (List.mem_map.mpr ⟨other, member, same⟩)
      have notKept : node ∉ unexpired clock (visit + 1) rest := by
        intro member
        exact unlisted node ((unexpired_sublist ..).subset member) rfl
      have chunkOf : node.2.chunkId.toNat = chunk := by omega
      have cleared := Bitfield.bit_setBit_zero within (by omega) index
      rw [releasedBits, chunkOf, own, unexpired]
      rw [ih distinct (by split <;> simpa using small)]
      · by_cases same : chunk = index
        · subst same
          by_cases expired : node.2.deadline < clock visit
          · cases done : completed.bit chunk <;> simp [*]
          · simp only [expired, false_and, if_false]
            grind
        · by_cases expired : node.2.deadline < clock visit
          · simp only [expired, true_and, if_true]
            grind
          · simp only [expired, false_and, if_false]
            grind
      · intro other member
        obtain ⟨number, called, inside⟩ := named other (by simp [member])
        exact ⟨number, called, by split <;> simpa using inside⟩

/-- `prev` of the release loop: unset in front of the first node, else the location that points
to the last node passed.
-/
def prevSlot (before : List (Nat × TorrentDataClaim)) : Option Slot :=
  match before with
  | [] => none
  | _ :: _ => some (slotAfter before.dropLast)

theorem prevSlot_concat (front : List (Nat × TorrentDataClaim)) (last : Nat × TorrentDataClaim)
    : prevSlot (front ++ [last]) = some (slotAfter front) := by
  cases front with
  | nil => rfl
  | cons first rest =>
      rw [List.cons_append, prevSlot, ← List.cons_append, List.dropLast_concat]

/-- Unlinking through `current` or through the node before it drops the freed node, and the
location stays where it was.
-/
theorem unlinkClaim_spec {claims : PtrList TorrentDataClaim} {current : Slot}
    {before rest : List (Nat × TorrentDataClaim)} {node : Nat × TorrentDataClaim}
    (opened : claims.At current before (node :: rest))
    : ∃ claims',
        unlinkClaim ((claims.free node.1).store current none) current (prevSlot before)
            (rest.head?.map Prod.fst)
          = .ok claims'
        ∧ claims'.At current before rest := by
  have removed := opened.remove
  rcases List.eq_nil_or_concat before with rfl | ⟨front, last, rfl⟩
  · refine ⟨_, rfl, ?_⟩
    rw [PtrList.store_store]
    exact removed
  · rw [List.concat_eq_append] at opened removed ⊢
    obtain ⟨pointed, cell, present⟩ := opened.load_before none
    have slotLast : current = .nextOf last.1 := by
      rw [opened.slot_eq]
      simp [slotAfter]
    refine
      ⟨((claims.free node.1).store current none).store (.nextOf last.1)
        (rest.head?.map Prod.fst), ?_, ?_⟩
    · simp only [unlinkClaim, prevSlot_concat, pointed, present]
    · rw [← slotLast, PtrList.store_store]
      exact removed

/-- The release loop keeps exactly the unexpired claims, in order. Witness: induction on the
nodes left, with the list opened at `current` and `prev` one node behind.
-/
theorem releaseLoop_spec {steps : Nat} (visit : Nat) (claimed : Bitfield) {current : Slot}
    {claims : PtrList TorrentDataClaim} {before after : List (Nat × TorrentDataClaim)}
    (opened : claims.At current before after) (enough : after.length < steps)
    (named
      : ∀ node ∈ after, ∃ chunk : Nat, node.2.chunkId = chunk ∧ chunk < completed.bitCount)
    : ∃ claims',
        releaseLoop (some completed) clock steps visit current (prevSlot before) claims claimed
          = .ok (claims', releasedBits completed clock visit after claimed)
        ∧ claims'.Holds (before ++ unexpired clock visit after) := by
  induction after generalizing steps visit current claims before claimed with
  | nil =>
      obtain ⟨steps, rfl⟩ := Nat.exists_eq_succ_of_ne_zero (Nat.ne_zero_of_lt enough)
      refine ⟨claims, ?_, by simpa [unexpired] using opened.holds⟩
      simp [releaseLoop, opened.load, releasedBits]
  | cons node rest ih =>
      obtain ⟨steps, rfl⟩ := Nat.exists_eq_succ_of_ne_zero (Nat.ne_zero_of_lt enough)
      obtain ⟨chunk, own, within⟩ := named node (by simp)
      have few : rest.length < steps := by simpa using enough
      have namedRest : ∀ other ∈ rest, ∃ chunk : Nat,
          other.2.chunkId = chunk ∧ chunk < completed.bitCount :=
        fun other member => named other (by simp [member])
      have chunkOf : node.2.chunkId.toNat = chunk := by omega
      simp only [releaseLoop, opened.load, opened.cell, List.head?_cons, Option.map_some,
        releasedBits, unexpired, own]
      by_cases expired : node.2.deadline < clock visit
      · obtain ⟨shorter, unlinked, reopened⟩ := unlinkClaim_spec opened
        simp only [expired, if_true, true_and]
        rw [bind_of_ok (Bitfield.getBit_of_lt within), bind_of_ok unlinked]
        cases rest with
        | nil =>
            refine ⟨shorter, ?_, by simpa [unexpired] using reopened.holds⟩
            cases done : completed.bit chunk <;> simp [releasedBits, done]
        | cons second others =>
            obtain ⟨claims', looped, holds⟩ := ih (visit + 1)
              (if completed.bit chunk = true then claimed else claimed.setBit chunk 0)
              reopened few namedRest
            refine ⟨claims', ?_, holds⟩
            cases done : completed.bit chunk <;> simpa [done] using looped
      · obtain ⟨claims', looped, holds⟩ :=
          ih (visit + 1) claimed opened.advance few namedRest
        rw [prevSlot_concat, ← opened.slot_eq] at looped
        refine ⟨claims', ?_, by simpa [expired] using holds⟩
        simpa [expired] using looped

/-- A release returns, keeps exactly the unexpired claims in order, and clears no bit of a
completed chunk.
-/
theorem ClaimState.releaseExpiredClaims (state : td.ClaimState nodes claimed completed)
    (clock : Nat → Int)
    : ∃ next claimed',
        td.releaseExpiredClaims clock = .ok next
        ∧ next.ClaimState (unexpired clock 0 nodes) claimed' completed
        ∧ td.SameButClaims next
        ∧ ∀ index,
            claimed.bit index = true → completed.bit index = true → claimed'.bit index = true := by
  have named : ∀ node ∈ nodes, ∃ chunk : Nat,
      node.2.chunkId = chunk ∧ chunk < claimed.bitCount := by
    intro node member
    obtain ⟨chunk, own, within, _⟩ := state.listed node member
    exact ⟨chunk, own, within⟩
  have bits (index : Nat)
      : (releasedBits completed clock 0 nodes claimed).bit index = true ↔ _ :=
    releasedBits_bit state.distinct state.small named index
  have kept := unexpired_sublist clock 0 nodes
  obtain ⟨claims', looped, holds⟩ := releaseLoop_spec 0 claimed state.holds.at_head
    (Nat.lt_succ_of_le state.holds.length_le) (by rwa [state.sameCount])
  refine
    ⟨{ td with claims := claims', claimed := some (releasedBits completed clock 0 nodes claimed) },
      _, ?_,
      {
        initialized := state.initialized
        holds := holds
        claimed_field := rfl
        completed_field := state.completed_field
        sameCount := by simpa using state.sameCount
        small := by simpa using state.small
        distinct := state.distinct.sublist (kept.map _)
        listed := ?_
        covered := ?_
      }, rfl, ?_⟩
  · simp only [TorrentData.releaseExpiredClaims, state.initialized, if_true,
      state.claimed_field, state.completed_field]
    exact bind_of_ok looped _
  · intro node member
    obtain ⟨chunk, own, within, set⟩ := state.listed node (kept.subset member)
    refine ⟨chunk, own, by simpa using within, (bits chunk).mpr ⟨set, .inr ?_⟩⟩
    intro other listed same
    -- one claim a chunk: the other one is this one
    have inj := List.inj_on_of_nodup_map state.distinct listed (kept.subset member)
      (same.trans own.symm)
    rwa [inj]
  · intro chunk within set
    obtain ⟨before, reason⟩ := (bits chunk).mp set
    rcases reason with done | all
    · exact .inr done
    · rcases state.covered chunk (by simpa using within) before with ⟨node, member, own⟩ | done
      · exact .inl ⟨node, all node member own, own⟩
      · exact .inr done
  · intro index set done
    exact (bits index).mpr ⟨set, .inl done⟩

-----------------------------------------------------------------------------------------
-- Writing
-----------------------------------------------------------------------------------------

/-- Chunks in range start inside the data. -/
structure ChunkBounds (td : TorrentData) : Prop where
  chunkSize_pos : 0 < td.chunkSize
  dataSize_lt : td.dataSize < 2 ^ 64
  chunkTotal_lt : td.chunkTotal < 2 ^ 31
  chunkStart_lt : ∀ chunk < td.chunkTotal, td.chunkSize * chunk < td.dataSize

theorem Fresh.chunkBounds (fresh : td.Fresh) : td.ChunkBounds :=
  {
    chunkSize_pos := fresh.chunkSize_pos
    dataSize_lt := fresh.dataSize_lt
    chunkTotal_lt := fresh.chunkTotal_lt
    chunkStart_lt := fun _ inRange => fresh.chunkStart_lt inRange
  }

theorem ChunkBounds.of_setup {next : TorrentData} (bounds : td.ChunkBounds)
    (same : td.SameSetup next)
    : next.ChunkBounds :=
  {
    chunkSize_pos := by rw [same.chunkSize]; exact bounds.chunkSize_pos
    dataSize_lt := by rw [same.dataSize]; exact bounds.dataSize_lt
    chunkTotal_lt := by rw [same.chunkTotal]; exact bounds.chunkTotal_lt
    chunkStart_lt := by
      rw [same.chunkTotal, same.chunkSize, same.dataSize]
      exact bounds.chunkStart_lt
  }

/-- Whatever becomes of its piece id, the info of a chunk in range has its id and length. -/
theorem ChunkBounds.chunkInfo (bounds : td.ChunkBounds) {chunk : Nat}
    (inRange : chunk < td.chunkTotal) {info : ChunkInfo} {result : Exit × ChunkInfo}
    (known : td.getChunkInfo chunk info = .ok result)
    : result.2.chunkId = chunk ∧ result.2.chunkSize = td.chunkLength chunk := by
  have start := bounds.chunkStart_lt chunk inRange
  have chunks := bounds.chunkTotal_lt
  have dataFits := bounds.dataSize_lt
  have positive := bounds.chunkSize_pos
  have offset : u64 (td.chunkSize * u64OfInt chunk) = td.chunkSize * chunk := by
    rw [u64OfInt_natCast (by omega), u64_of_lt (by omega)]
  have guard : ¬ (td.chunkSize = 0 ∨ td.dataSize = 0) := by omega
  simp only [getChunkInfo, guard, if_false, offset] at known
  split at known
  · cases known
  · obtain rfl := Except.ok.inj known
    exact ⟨rfl, by simp only [u64Sub_of_le (Nat.le_of_lt start) dataFits, chunkLength]⟩

/-- A write keeps the claims and marks at most its chunk, and only when it accepts it. -/
theorem ClaimState.writeChunk (state : td.ClaimState nodes claimed completed)
    (bounds : td.ChunkBounds) (counted : claimed.bitCount = td.chunkTotal)
    {sha1 : Bytes → Digest} {disk : Disk} {chunk : Nat} {data : Bytes} {env : WriteEnv}
    {result : WriteResult} (inRange : chunk < td.chunkTotal)
    (wrote : td.writeChunk sha1 disk chunk data env = .ok result)
    : ∃ completed',
        result.td.ClaimState nodes claimed completed'
        ∧ ∀ index,
            completed'.bit index = true
            → completed.bit index = true ∨ (index = chunk ∧ td.Accepts chunk data) := by
  obtain ⟨setup, _, _⟩ := writeChunk_setup wrote
  have moved {completed' : Bitfield} (field : result.td.completed = some completed')
      (same : completed'.bitCount = completed.bitCount)
      (grows : ∀ index, completed.bit index = true → completed'.bit index = true)
      : result.td.ClaimState nodes claimed completed' :=
    {
      initialized := setup.initialized.trans state.initialized
      holds := by rw [setup.claims]; exact state.holds
      claimed_field := setup.claimed.trans state.claimed_field
      completed_field := field
      sameCount := same.trans state.sameCount
      small := state.small
      distinct := state.distinct
      listed := state.listed
      covered := fun index within set =>
        (state.covered index within set).imp_right (grows index)
    }
  rcases writeChunk_marks wrote
    with unmarked | ⟨field, info, before, clear, known, sized, marked⟩
  · exact ⟨completed, moved (unmarked.trans state.completed_field) rfl (fun _ set => set),
      fun _ set => .inl set⟩
  · obtain rfl : completed = field := Option.some.inj (state.completed_field.symm.trans before)
    obtain ⟨own, length⟩ := bounds.chunkInfo inRange known
    have small := state.small
    have within : chunk < completed.bitCount := by rw [state.sameCount, counted]; exact inRange
    have bits := Bitfield.bit_setBit_one within (by omega)
    rw [own] at marked
    refine ⟨_, moved marked (by simp) (fun index set => by simp [bits, set]), ?_⟩
    intro index set
    rw [bits, Bool.or_eq_true, decide_eq_true_eq] at set
    rcases set with rfl | older
    · refine .inr ⟨rfl, ?_, sized.trans length⟩
      rw [Bitfield.getBit_of_lt within] at clear
      rw [completedBit_eq state.completed_field]
      exact Except.ok.inj clear
    · exact .inl older

end TorrentData

end UvgTorrent

import UvgTorrent.Claims.ClaimSteps

/-! Which chunks one `torrent_data_claim_chunk` with a timeout takes: the first ones that are
unclaimed and of interest. Each claim marks its chunk, so the search for the next one, which
starts at 0 again, goes past it.
-/

namespace UvgTorrent

open Foundations

namespace TorrentData

variable {td next : TorrentData} {nodes : List (Nat × TorrentDataClaim)}
  {claimed interested : Bitfield} {clock : Nat → Int}

/-- The chunks that are unclaimed and of interest, in increasing order. -/
def claimable (claimed interested : Bitfield) : List Nat :=
  (List.range claimed.bitCount).filter fun chunk => !claimed.bit chunk && interested.bit chunk

theorem mem_claimable {chunk : Nat}
    : chunk ∈ claimable claimed interested
      ↔ chunk < claimed.bitCount ∧ claimed.bit chunk = false ∧ interested.bit chunk = true := by
  simp [claimable]

theorem claimable_sorted (claimed interested : Bitfield)
    : (claimable claimed interested).Pairwise (· < ·) :=
  List.pairwise_lt_range.filter _

/-- The inner loop finds the first claimable chunk from its start on. -/
theorem firstClaimable_eq_find (sameCount : interested.bitCount = claimed.bitCount)
    {remaining start : Nat} (inside : start + remaining ≤ claimed.bitCount)
    : firstClaimable claimed interested remaining start
      = .ok
          ((List.range' start remaining).find? fun chunk =>
            !claimed.bit chunk && interested.bit chunk) := by
  induction remaining generalizing start with
  | zero => rfl
  | succ remaining ih =>
      have taken : claimed.getBit start = .ok (claimed.bit start) :=
        Bitfield.getBit_of_lt (by omega)
      have wanted : interested.getBit start = .ok (interested.bit start) :=
        Bitfield.getBit_of_lt (by omega)
      rw [firstClaimable, bind_of_ok taken, ih (by omega), bind_of_ok wanted, List.range'_succ,
        List.find?_cons]
      cases claimed.bit start <;> cases interested.bit start <;> rfl

theorem firstClaimable_eq_head (sameCount : interested.bitCount = claimed.bitCount)
    : firstClaimable claimed interested claimed.bitCount 0
      = .ok (claimable claimed interested).head? := by
  rw [firstClaimable_eq_find sameCount (by omega), ← List.range_eq_range', claimable,
    List.head?_filter]

/-- Marking the first claimable chunk leaves the others claimable. -/
theorem claimable_mark {index : Nat} {rest : List Nat}
    (first : claimable claimed interested = index :: rest) (small : claimed.bitCount < 2 ^ 31)
    : claimable (claimed.setBit index 1) interested = rest := by
  have inRange : index < claimed.bitCount :=
    (mem_claimable.mp (first ▸ List.mem_cons_self)).1
  have sorted := claimable_sorted claimed interested
  rw [first, List.pairwise_cons] at sorted
  calc claimable (claimed.setBit index 1) interested
      = (claimable claimed interested).filter (fun chunk => chunk ≠ index) := by
        rw [claimable, claimable, List.filter_filter, Bitfield.setBit_bitCount]
        congr 1
        funext chunk
        rw [Bitfield.bit_setBit_one inRange (by omega)]
        by_cases same : index = chunk
        · simp [same]
        · simp [same, Ne.symm same]
    _ = rest := by
        rw [first, List.filter_cons_of_neg (by simp), List.filter_eq_self]
        intro chunk member
        have later := sorted.1 chunk member
        simp
        omega

/-- The first `count` claimable chunks were taken: they fill the front of the output, their bits
and no others were set, and one claim on each stands before the older claims.
-/
structure TakesFirst (td next : TorrentData) (nodes : List (Nat × TorrentDataClaim))
    (claimed interested : Bitfield) (count : Nat) (out : List (Option Nat))
    : Prop where
  filled
    : out
      = ((claimable claimed interested).take count).map some
        ++ List.replicate (count - (claimable claimed interested).length) none
  marked
    : ∃ after,
        next.claimed = some after
        ∧ after.bitCount = claimed.bitCount
        ∧ ∀ index,
            after.bit index
            = (decide (index ∈ (claimable claimed interested).take count) || claimed.bit index)
  listed
    : ∃ added,
        next.claims.Holds (added ++ nodes)
        ∧ added.map (·.2.chunkId)
          = ((claimable claimed interested).take count).reverse.map Int.ofNat
  same : td.SameButClaims next

/-- A slot for which nothing is left stays unset. -/
theorem TakesFirst.skip {count : Nat} {out : List (Option Nat)}
    (nothing : claimable claimed interested = [])
    (later : td.TakesFirst next nodes claimed interested count out)
    : td.TakesFirst next nodes claimed interested (count + 1) (none :: out) := by
  refine { later with filled := ?_, marked := ?_, listed := ?_ }
  · simp [later.filled, nothing, List.replicate_succ]
  · simpa [nothing] using later.marked
  · simpa [nothing] using later.listed

/-- One slot takes the first claimable chunk, the others take the rest. -/
theorem TakesFirst.take {index count : Nat} {rest : List Nat} {out : List (Option Nat)}
    {timeoutSeconds now : Int}
    (first : claimable claimed interested = index :: rest) (small : claimed.bitCount < 2 ^ 31)
    {address : Nat}
    (later
      : (td.layClaim claimed timeoutSeconds now index).TakesFirst next
          ((address,
              {
                deadline := wrap64 (now + wrap32 (timeoutSeconds * 1000))
                chunkId := index
              }) :: nodes) (claimed.setBit index 1) interested count out)
    : td.TakesFirst next nodes claimed interested (count + 1) (some index :: out) := by
  have inRange : index < claimed.bitCount :=
    (mem_claimable.mp (first ▸ List.mem_cons_self)).1
  have others := claimable_mark first small
  refine { filled := ?_, marked := ?_, listed := ?_, same := ?_ }
  · simp [later.filled, others, first]
  · obtain ⟨after, field, counted, bits⟩ := later.marked
    refine ⟨after, field, by simpa using counted, ?_⟩
    intro other
    rw [bits, others, Bitfield.bit_setBit_one inRange (by omega), first, List.take_succ_cons]
    by_cases same : index = other
    · simp [same]
    · simp [same, Ne.symm same]
  · obtain ⟨added, holds, ids⟩ := later.listed
    refine ⟨added ++ [(address, _)], by simpa using holds, ?_⟩
    rw [List.map_append, ids, others, first]
    simp
  · refine SameButClaims.trans ?_ later.same
    unfold SameButClaims layClaim
    split <;> rfl

/-- The outer loop takes one claimable chunk for each slot, first ones first. Induction on the
slots left to fill; the marks of one slot are the bitfield that the next one searches.
-/
theorem claimLoop_takes {timeoutSeconds : Int} (lasting : 0 < timeoutSeconds) (count chunk : Nat)
    (field : td.claimed = some claimed) (holds : td.claims.Holds nodes)
    (sameCount : interested.bitCount = claimed.bitCount) (small : claimed.bitCount < 2 ^ 31)
    : ∃ next out,
        claimLoop interested timeoutSeconds clock count chunk td = .ok (next, out)
        ∧ td.TakesFirst next nodes claimed interested count out := by
  induction count generalizing td claimed nodes chunk with
  | zero =>
      exact ⟨td, [], rfl, by simp, ⟨claimed, field, rfl, by simp⟩, ⟨[], holds, rfl⟩, rfl⟩
  | succ count ih =>
      cases list : claimable claimed interested with
      | nil =>
          obtain ⟨next, out, looped, takes⟩ := ih (chunk + 1) field holds sameCount small
          refine ⟨next, none :: out, ?_, takes.skip list⟩
          have picked := firstClaimable_eq_head sameCount
          rw [list] at picked
          rw [claimLoop, field]
          dsimp only
          rw [bind_of_ok picked, List.head?_nil, bind_of_ok looped]
      | cons index rest =>
          have laid : td.layClaim claimed timeoutSeconds (clock chunk) index
              = {
                  td with
                  claimed := some (claimed.setBit index 1)
                  claims := td.claims.pushFront
                    {
                      deadline := wrap64 (clock chunk + wrap32 (timeoutSeconds * 1000))
                      chunkId := index
                    }
                } := by
            rw [layClaim, if_pos (by omega)]
          obtain ⟨next, out, looped, takes⟩ :=
            @ih (td.layClaim claimed timeoutSeconds (clock chunk) index) _
              (claimed.setBit index 1) (chunk + 1) (by rw [laid])
              (by rw [laid]; exact holds.pushFront _) (by simpa using sameCount)
              (by simpa using small)
          refine ⟨next, some index :: out, ?_, takes.take list small⟩
          have picked := firstClaimable_eq_head sameCount
          rw [list] at picked
          rw [claimLoop, field]
          dsimp only
          rw [bind_of_ok picked, List.head?_cons, bind_of_ok looped]

/-- A claim call with a timeout takes the first claimable chunks, as many as it was asked for, and
succeeds when there is one. The counts of bitfields are `int` values.
-/
theorem claimChunk_takes_first (initialized : td.initialized = true)
    (field : td.claimed = some claimed) (holds : td.claims.Holds nodes)
    (sameCount : interested.bitCount = claimed.bitCount) (small : claimed.bitCount < 2 ^ 31)
    {timeoutSeconds numChunks : Int} (lasting : 0 < timeoutSeconds) (asked : 1 ≤ numChunks)
    (clock : Nat → Int)
    : ∃ next exit out,
        td.claimChunk interested timeoutSeconds numChunks clock = .ok (next, exit, out)
        ∧ td.TakesFirst next nodes claimed interested numChunks.toNat out
        ∧ (exit = .success ↔ 1 ≤ (claimable claimed interested).length) := by
  obtain ⟨next, out, looped, takes⟩ :=
    @claimLoop_takes td nodes claimed interested clock timeoutSeconds lasting numChunks.toNat 0
      field holds sameCount small
  have slot : 0 < numChunks.toNat := by omega
  have found : out.any Option.isSome = true ↔ 1 ≤ (claimable claimed interested).length := by
    rw [takes.filled]
    cases claimable claimed interested with
    | nil => simp
    | cons index rest =>
        obtain ⟨count, counted⟩ := Nat.exists_eq_succ_of_ne_zero slot.ne'
        simp [counted]
  refine ⟨next, if out.any Option.isSome then .success else .failure, out, ?_, takes, ?_⟩
  · rw [claimChunk, if_pos initialized, field]
    dsimp only
    rw [bind_of_ok looped]
  · rw [← found]
    cases out.any Option.isSome <;> simp

/-- Three slots for the two chunks 1 and 3 that are unclaimed and of interest. -/
theorem claimChunk_takes_first_two
    : ∃ next,
        { TorrentData.new [46] with
            initialized := true, claimed := some ⟨4, [0x8F], rfl⟩ }.claimChunk
              ⟨4, [0xDF], rfl⟩ 10 3 (fun _ => 0)
          = .ok (next, .success, [some 1, some 3, none])
        ∧ ∃ added,
            next.claims.Holds added ∧ added.map (·.2.chunkId) = [3, 1] := by
  obtain ⟨next, exit, out, claims, takes, found⟩ :=
    @claimChunk_takes_first
      { TorrentData.new [46] with initialized := true, claimed := some ⟨4, [0x8F], rfl⟩ } []
      ⟨4, [0x8F], rfl⟩ ⟨4, [0xDF], rfl⟩ rfl rfl PtrList.nil_holds rfl (by decide) 10 3 (by decide)
      (by decide) (fun _ => 0)
  have chunks : claimable ⟨4, [0x8F], rfl⟩ ⟨4, [0xDF], rfl⟩ = [1, 3] := by decide
  obtain ⟨added, holds, ids⟩ := takes.listed
  have filled := takes.filled
  rw [chunks] at found filled ids
  rw [found.mpr (by decide), filled] at claims
  exact ⟨next, claims, added, by simpa using holds, ids⟩

end TorrentData

end UvgTorrent

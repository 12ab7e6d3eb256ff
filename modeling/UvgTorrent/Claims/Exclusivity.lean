import UvgTorrent.Claims.ClaimSteps
import UvgTorrent.Downloads.Runs

/-! Runs of claims, releases and writes by any number of peers, with arbitrary clock readings.
In every state reached the claims are exclusive; that no completed chunk is handed out needs
every accepted write to be on a claimed chunk.
-/

namespace UvgTorrent

open Foundations

/-- One call that a peer or the main loop makes on the shared struct. -/
inductive ClaimOperation where
  | claim (interested : Bitfield) (timeoutSeconds numChunks : Int) (clock : Nat → Int)
  | release (clock : Nat → Int)
  | write (call : WriteCall)

/-- The shared struct and the disk its files are on. -/
structure ClaimSession where
  td : TorrentData
  disk : Disk

namespace ClaimSession

variable {sha1 : Bytes → Digest} {td next : TorrentData} {disk : Disk}
  {state after final : ClaimSession} {operation : ClaimOperation}
  {operations : List ClaimOperation} {nodes : List (Nat × TorrentDataClaim)}
  {claimed completed : Bitfield}

/-- The state after one operation. -/
def perform (sha1 : Bytes → Digest) (state : ClaimSession)
    : ClaimOperation → Except Fault ClaimSession
  | .claim interested timeoutSeconds numChunks clock =>
      (state.td.claimChunk interested timeoutSeconds numChunks clock).bind fun (td, _, _) =>
        .ok { state with td }
  | .release clock =>
      (state.td.releaseExpiredClaims clock).bind fun td => .ok { state with td }
  | .write call =>
      (state.td.writeChunk sha1 state.disk call.chunkId call.data call.env).bind fun result =>
        .ok { td := result.td, disk := result.disk }

/-- Claims have a positive timeout and writes name one of the struct's chunks. -/
def Allowed (state : ClaimSession) : ClaimOperation → Prop
  | .claim _ timeoutSeconds _ _ => 0 < timeoutSeconds
  | .release _ => True
  | .write call => 0 ≤ call.chunkId ∧ call.chunkId < state.td.chunkCount

/-- An allowed operation that, when it is a write of a chunk that is accepted, is made while
the chunk's `claimed` bit is set.
-/
def Solicited (state : ClaimSession) (operation : ClaimOperation) : Prop :=
  state.Allowed operation
  ∧ match operation with
    | .write call =>
        state.td.Accepts call.chunkId.toNat call.data
        → state.td.claimedBit call.chunkId.toNat = true
    | _ => True

instance (state : ClaimSession) (operation : ClaimOperation)
    : Decidable (state.Allowed operation) :=
  match operation with
  | .claim _ timeoutSeconds _ _ => inferInstanceAs (Decidable (0 < timeoutSeconds))
  | .release _ => inferInstanceAs (Decidable True)
  | .write _ => inferInstanceAs (Decidable (_ ∧ _))

instance (state : ClaimSession) (operation : ClaimOperation)
    : Decidable (state.Solicited operation) :=
  match operation with
  | .claim _ _ _ _ | .release _ => inferInstanceAs (Decidable (_ ∧ True))
  | .write call =>
      inferInstanceAs
        (Decidable
          (_ ∧ (state.td.completedBit call.chunkId.toNat = false ∧ _ = _ → _ = true)))

/-- The claims list, as the nodes met in memory, and the two bitfields agree. -/
structure Exclusive (td : TorrentData) (nodes : List (Nat × TorrentDataClaim)) : Prop where
  holds : td.claims.Holds nodes
  distinct : (nodes.map (·.2.chunkId)).Nodup
  listed
    : ∀ node ∈ nodes,
        ∃ chunk : Nat,
          node.2.chunkId = chunk ∧ chunk < td.chunkTotal ∧ td.claimedBit chunk = true
  covered
    : ∀ chunk < td.chunkTotal,
        td.claimedBit chunk = true
        → (∃ node ∈ nodes, node.2.chunkId = chunk) ∨ td.completedBit chunk = true

-----------------------------------------------------------------------------------------
-- The invariant
-----------------------------------------------------------------------------------------

/-- The claim state of a struct whose fields cover its chunks. -/
structure Claiming (td : TorrentData) (nodes : List (Nat × TorrentDataClaim))
    (claimed completed : Bitfield)
    : Prop where
  bounds : td.ChunkBounds
  counted : claimed.bitCount = td.chunkTotal
  state : td.ClaimState nodes claimed completed

theorem claimedBit_eq (field : td.claimed = some claimed) (chunk : Nat)
    : td.claimedBit chunk = claimed.bit chunk := by
  simp [TorrentData.claimedBit, field]

/-- Right after initialization nothing is claimed, listed or completed. -/
theorem Claiming.start (fresh : td.Fresh) (counted : 0 ≤ td.chunkCount)
    : ∃ field,
        Claiming td [] field field ∧ ∀ chunk < td.chunkTotal, field.bit chunk = false := by
  obtain ⟨field, made, ⟨bits, _⟩, clear⟩ := fresh.newField counted
  have few := fresh.chunkTotal_lt
  refine
    ⟨field,
      {
        bounds := fresh.chunkBounds
        counted := bits
        state :=
          {
            initialized := fresh.initialized
            holds := by rw [fresh.claims]; exact PtrList.nil_holds
            claimed_field := fresh.claimed.trans made
            completed_field := fresh.completed.trans made
            sameCount := rfl
            small := by omega
            distinct := by simp
            listed := by simp
            covered := fun chunk within set => .inr set
          }
      }, clear⟩

/-- The chunk geometry is untouched by claims and releases. -/
theorem chunkBounds_of_sameButClaims (same : td.SameButClaims next) (bounds : td.ChunkBounds)
    : next.ChunkBounds ∧ next.chunkTotal = td.chunkTotal := by
  rw [same]
  exact ⟨⟨bounds.chunkSize_pos, bounds.dataSize_lt, bounds.chunkTotal_lt, bounds.chunkStart_lt⟩,
    rfl⟩

/-- The operations from a claim state reach claim states, and mark a chunk only where an
accepted write names it. A `claimed` bit is lost only where the chunk is not completed.
-/
theorem Claiming.perform (claiming : Claiming state.td nodes claimed completed)
    (allowed : state.Allowed operation)
    (performed : state.perform sha1 operation = .ok after)
    : ∃ nodes' claimed' completed',
        Claiming after.td nodes' claimed' completed'
        ∧ after.td.chunkTotal = state.td.chunkTotal
        ∧ (∀ index,
            completed'.bit index = true
            → completed.bit index = true
              ∨ ∃ call,
                  operation = .write call
                  ∧ call.chunkId.toNat = index
                  ∧ state.td.Accepts index call.data)
        ∧ ∀ index,
            claimed.bit index = true
            → completed'.bit index = true
            → claimed'.bit index = true := by
  obtain ⟨bounds, counted, claims⟩ := claiming
  cases operation with
  | claim interested timeoutSeconds numChunks clock =>
      obtain ⟨⟨td', exit, out⟩, returned, same⟩ := bind_eq_ok.mp performed
      obtain rfl := Except.ok.inj same
      obtain ⟨nodes', claimed', later, kept, frame, _, _⟩ := claims.claimChunk allowed returned
      obtain ⟨bounds', total⟩ := chunkBounds_of_sameButClaims frame bounds
      have counted' : claimed'.bitCount = td'.chunkTotal := by
        rw [← later.sameCount, claims.sameCount, counted, total]
      exact ⟨nodes', claimed', completed, ⟨bounds', counted', later⟩, total, fun _ set => .inl set,
        fun index set _ => kept index set⟩
  | release clock =>
      obtain ⟨td', released, same⟩ := bind_eq_ok.mp performed
      obtain rfl := Except.ok.inj same
      obtain ⟨_, claimed', returned, later, frame, kept⟩ := claims.releaseExpiredClaims clock
      obtain rfl := Except.ok.inj (released.symm.trans returned)
      obtain ⟨bounds', total⟩ := chunkBounds_of_sameButClaims frame bounds
      have counted' : claimed'.bitCount = td'.chunkTotal := by
        rw [← later.sameCount, claims.sameCount, counted, total]
      exact ⟨_, claimed', completed, ⟨bounds', counted', later⟩, total, fun _ set => .inl set, kept⟩
  | write call =>
      obtain ⟨result, wrote, same⟩ := bind_eq_ok.mp performed
      obtain rfl := Except.ok.inj same
      obtain ⟨chunk, named⟩ := Int.eq_ofNat_of_zero_le allowed.1
      have inRange : chunk < state.td.chunkTotal := by
        have below := allowed.2
        unfold TorrentData.chunkTotal
        omega
      obtain ⟨setup, _, _⟩ := TorrentData.writeChunk_setup wrote
      have total := setup.chunkTotal
      rw [named] at wrote
      obtain ⟨completed', later, marks⟩ := claims.writeChunk bounds counted inRange wrote
      refine ⟨nodes, claimed, completed', ⟨?_, counted.trans total.symm, later⟩, total, ?_,
        fun _ set _ => set⟩
      · exact bounds.of_setup setup
      · intro index set
        rcases marks index set with older | ⟨rfl, accepted⟩
        · exact .inl older
        · exact .inr ⟨call, rfl, by omega, accepted⟩

/-- What a claim state says in terms of the struct's own bits. -/
theorem Claiming.exclusive (claiming : Claiming td nodes claimed completed)
    : Exclusive td nodes := by
  obtain ⟨bounds, counted, claims⟩ := claiming
  have claimedIs := claimedBit_eq claims.claimed_field
  have completedIs := TorrentData.completedBit_eq claims.completed_field
  exact
    {
      holds := claims.holds
      distinct := claims.distinct
      listed := by simpa only [claimedIs, ← counted] using claims.listed
      covered := by simpa only [claimedIs, completedIs, ← counted] using claims.covered
    }

/-- A struct whose chunk count was cut to a negative `int` has no bitfields. Every operation on
it faults, so that a run which returns has no operation at all.
-/
theorem run_of_negative (fresh : td.Fresh) (negative : td.chunkCount < 0)
    (run : runSteps (perform sha1) { td, disk } operations = .ok final)
    : final.td = td ∧ td.claimed = none ∧ td.completed = none := by
  have huge : ¬ u64OfInt td.chunkCount < 2 ^ 31 := by
    have lower : -2 ^ 31 ≤ td.chunkCount := by
      rw [fresh.chunkCount, wrap32]
      omega
    unfold u64OfInt
    omega
  have noField : Bitfield.new (u64OfInt td.chunkCount) 0 0xFF = none := by
    rw [Bitfield.new, if_neg huge]
  have noClaimed := fresh.claimed.trans noField
  have noCompleted := fresh.completed.trans noField
  refine ⟨?_, noClaimed, noCompleted⟩
  cases operations with
  | nil =>
      obtain rfl := Except.ok.inj run
      rfl
  | cons operation rest =>
      obtain ⟨after, performed, _⟩ := runSteps_cons_eq_ok.mp run
      cases operation with
      | claim interested timeoutSeconds numChunks clock =>
          simp [perform, TorrentData.claimChunk, fresh.initialized, noClaimed, Except.bind]
            at performed
      | release clock =>
          simp [perform, TorrentData.releaseExpiredClaims, fresh.initialized, noClaimed,
            Except.bind] at performed
      | write call =>
          simp [perform, TorrentData.writeChunk, noCompleted, Except.bind] at performed

-----------------------------------------------------------------------------------------
-- Exclusivity
-----------------------------------------------------------------------------------------

/-- Every state that a run of allowed operations reaches is a claim state. -/
theorem claiming_of_run (fresh : td.Fresh) (counted : 0 ≤ td.chunkCount)
    (guarded : Guarded (perform sha1) Allowed { td, disk } operations)
    (run : runSteps (perform sha1) { td, disk } operations = .ok final)
    : ∃ nodes claimed completed, Claiming final.td nodes claimed completed := by
  let kept (state : ClaimSession) : Prop :=
    ∃ nodes claimed completed, Claiming state.td nodes claimed completed
  have preserved (state : ClaimSession) (operation : ClaimOperation) (after : ClaimSession)
      (before : kept state) (allowed : state.Allowed operation)
      (performed : perform sha1 state operation = .ok after)
      : kept after := by
    obtain ⟨nodes, claimed, completed, claiming⟩ := before
    obtain ⟨nodes', claimed', completed', later, _⟩ := claiming.perform allowed performed
    exact ⟨nodes', claimed', completed', later⟩
  obtain ⟨field, initial, _⟩ := Claiming.start fresh counted
  exact runSteps_invariant preserved ⟨[], field, field, initial⟩ guarded run

/-- What the claims of a state promise for the next call: a claim hands out distinct chunks
that no listed claim is on, and a release returns and keeps the unexpired claims in order.
-/
structure HandsOutOnce (td : TorrentData) (nodes : List (Nat × TorrentDataClaim))
    : Prop where
  claim
    : ∀ interested timeoutSeconds numChunks clock next exit out,
        0 < timeoutSeconds
        → td.claimChunk interested timeoutSeconds numChunks clock = .ok (next, exit, out)
        → out.reduceOption.Nodup
          ∧ ∀ index ∈ out.reduceOption,
              index < td.chunkTotal ∧ ∀ node ∈ nodes, node.2.chunkId ≠ (index : Int)
  release
    : ∀ clock next,
        td.releaseExpiredClaims clock = .ok next
        → next.claims.Holds (TorrentData.unexpired clock 0 nodes)
  released : td.claimed ≠ none → ∀ clock, ∃ next, td.releaseExpiredClaims clock = .ok next

theorem Claiming.handsOutOnce (claiming : Claiming td nodes claimed completed)
    : HandsOutOnce td nodes := by
  obtain ⟨bounds, counted, claims⟩ := claiming
  refine ⟨?_, ?_, ?_⟩
  · intro interested timeoutSeconds numChunks clock next exit out lasting returned
    obtain ⟨_, _, _, _, _, distinct, unclaimed⟩ := claims.claimChunk lasting returned
    refine ⟨distinct, fun index member => ?_⟩
    obtain ⟨within, clear⟩ := unclaimed index member
    refine ⟨by omega, fun node listed same => ?_⟩
    obtain ⟨chunk, named, _, set⟩ := claims.listed node listed
    obtain rfl : chunk = index := by omega
    simp [clear] at set
  · intro clock next released
    obtain ⟨_, _, returned, later, _, _⟩ := claims.releaseExpiredClaims clock
    obtain rfl := Except.ok.inj (released.symm.trans returned)
    exact later.holds
  · intro _ clock
    obtain ⟨next, _, returned, _⟩ := claims.releaseExpiredClaims clock
    exact ⟨next, returned⟩

/-- In every state reached by claims with a positive timeout, releases and writes in range, in
any order and with any clock, the claims are exclusive and stay so at the next call.
-/
theorem claims_exclusive (started : td.JustInitialised)
    (guarded : Guarded (perform sha1) Allowed { td, disk } operations)
    (run : runSteps (perform sha1) { td, disk } operations = .ok final)
    : ∃ nodes, Exclusive final.td nodes ∧ HandsOutOnce final.td nodes := by
  have fresh := started.fresh
  rcases lt_or_ge td.chunkCount 0 with negative | counted
  · -- without bitfields no call returns, and nothing is claimed
    obtain ⟨unchanged, noClaimed, _⟩ := run_of_negative fresh negative run
    have noChunks : td.chunkTotal = 0 := by
      unfold TorrentData.chunkTotal
      omega
    refine ⟨[], ⟨?_, by simp, by simp, ?_⟩, ⟨?_, ?_, ?_⟩⟩
    · rw [unchanged, fresh.claims]
      exact PtrList.nil_holds
    · intro chunk within
      rw [unchanged, noChunks] at within
      omega
    · intro interested timeoutSeconds numChunks clock next exit out _ returned
      simp [unchanged, TorrentData.claimChunk, fresh.initialized, noClaimed] at returned
    · intro clock next returned
      simp [unchanged, TorrentData.releaseExpiredClaims, fresh.initialized, noClaimed] at returned
    · intro present
      rw [unchanged] at present
      exact absurd noClaimed present
  · obtain ⟨nodes, claimed, completed, claiming⟩ := claiming_of_run fresh counted guarded run
    exact ⟨nodes, claiming.exclusive, claiming.handsOutOnce⟩

-----------------------------------------------------------------------------------------
-- Concrete sessions
-----------------------------------------------------------------------------------------

/-- A peer that is interested in all eight chunks. -/
def everyChunk : Bitfield := { bitCount := 8, bytes := [0xFF], sized := rfl }

/-- One file of eight chunks of one byte, in one piece. -/
def eightChunks : ClaimSession :=
  { td := .ofSingleFile none 8 8 1, disk := fun _ => none }

theorem eightChunks_justInitialised : eightChunks.td.JustInitialised := by
  change (TorrentData.ofSingleFile none 8 8 1).JustInitialised
  exact TorrentData.SingleFileFits.justInitialised (by decide +kernel)

/-- Two chunks claimed for one second, the first one delivered, and a release later on. -/
def claimAndDeliver : List ClaimOperation :=
  [.claim everyChunk 1 2 (fun _ => 0)]
    ++ (Download.deliver 1 [7]).map .write
    ++ [.release (fun _ => 2000)]

theorem claims_exclusive_of_delivery
    : ∃ final,
        runSteps (perform Download.zeroDigest) eightChunks claimAndDeliver = .ok final
        ∧ ∃ nodes, Exclusive final.td nodes ∧ HandsOutOnce final.td nodes := by
  have passed : returnsWith
      (runSteps (perform Download.zeroDigest) eightChunks claimAndDeliver) (fun _ => true)
      = true := by
    decide +kernel
  obtain ⟨final, run, _⟩ := exists_ok_of_returnsWith passed
  exact ⟨final, run, claims_exclusive eightChunks_justInitialised (by decide +kernel) run⟩

-----------------------------------------------------------------------------------------
-- Claims on completed chunks
-----------------------------------------------------------------------------------------

/-- When every accepted write is on a claimed chunk, every completed chunk stays claimed: a
release keeps the `claimed` bit of a completed chunk. Witness: the claim state together with
`completed` being covered by `claimed`, preserved by each operation.
-/
theorem completed_claimed_of_run (fresh : td.Fresh) (counted : 0 ≤ td.chunkCount)
    (guarded : Guarded (perform sha1) Solicited { td, disk } operations)
    (run : runSteps (perform sha1) { td, disk } operations = .ok final)
    : ∃ nodes claimed completed,
        Claiming final.td nodes claimed completed
        ∧ ∀ index < final.td.chunkTotal,
            completed.bit index = true → claimed.bit index = true := by
  let kept (state : ClaimSession) : Prop :=
    ∃ nodes claimed completed,
      Claiming state.td nodes claimed completed
      ∧ ∀ index < state.td.chunkTotal, completed.bit index = true → claimed.bit index = true
  have preserved (state : ClaimSession) (operation : ClaimOperation) (after : ClaimSession)
      (before : kept state) (solicited : state.Solicited operation)
      (performed : perform sha1 state operation = .ok after)
      : kept after := by
    obtain ⟨nodes, claimed, completed, claiming, covers⟩ := before
    obtain ⟨nodes', claimed', completed', later, total, marks, keeps⟩ :=
      claiming.perform solicited.1 performed
    refine ⟨nodes', claimed', completed', later, fun index within set => ?_⟩
    rw [total] at within
    refine keeps index ?_ set
    rcases marks index set with older | ⟨call, rfl, rfl, accepted⟩
    · exact covers index within older
    · rw [← claimedBit_eq claiming.state.claimed_field]
      exact solicited.2 accepted
  obtain ⟨field, initial, _⟩ := Claiming.start fresh counted
  refine runSteps_invariant preserved ⟨[], field, field, initial, ?_⟩ guarded run
  intro index _ set
  exact set

/-- In every run whose accepted writes are all on claimed chunks, no claim from a state reached
hands out a completed chunk.
-/
theorem claims_uncompleted_of_solicited (started : td.JustInitialised)
    (guarded : Guarded (perform sha1) Solicited { td, disk } operations)
    (run : runSteps (perform sha1) { td, disk } operations = .ok final)
    {interested : Bitfield} {timeoutSeconds numChunks : Int} {clock : Nat → Int} {exit : Exit}
    {out : List (Option Nat)} (lasting : 0 < timeoutSeconds)
    (returned
      : final.td.claimChunk interested timeoutSeconds numChunks clock = .ok (next, exit, out))
    : ∀ index ∈ out.reduceOption, final.td.completedBit index = false := by
  have fresh := started.fresh
  rcases lt_or_ge td.chunkCount 0 with negative | counted
  · obtain ⟨unchanged, noClaimed, _⟩ := run_of_negative fresh negative run
    simp [unchanged, TorrentData.claimChunk, fresh.initialized, noClaimed] at returned
  · obtain ⟨nodes, claimed, completed, ⟨bounds, total, claims⟩, covers⟩ :=
      completed_claimed_of_run fresh counted guarded run
    obtain ⟨_, _, _, _, _, _, unclaimed⟩ := claims.claimChunk lasting returned
    intro index member
    obtain ⟨within, clear⟩ := unclaimed index member
    rw [TorrentData.completedBit_eq claims.completed_field]
    by_contra set
    rw [covers index (by omega) (by simpa using set)] at clear
    cases clear

theorem claims_uncompleted_of_delivery
    : ∃ final next exit,
        runSteps (perform Download.zeroDigest) eightChunks claimAndDeliver = .ok final
        ∧ final.td.claimChunk everyChunk 1 1 (fun _ => 3000) = .ok (next, exit, [some 1])
        ∧ ∀ index ∈ [some 1].reduceOption, final.td.completedBit index = false := by
  have passed : returnsWith
      (runSteps (perform Download.zeroDigest) eightChunks claimAndDeliver)
      (fun final =>
        returnsWith (final.td.claimChunk everyChunk 1 1 (fun _ => 3000))
          (fun (_, _, out) => out == [some 1]))
      = true := by
    decide +kernel
  obtain ⟨final, run, observed⟩ := exists_ok_of_returnsWith passed
  obtain ⟨⟨next, exit, out⟩, returned, handed⟩ := exists_ok_of_returnsWith observed
  obtain rfl : out = [some 1] := by simpa using handed
  exact ⟨final, next, exit, run, returned,
    claims_uncompleted_of_solicited eightChunks_justInitialised (by decide +kernel) run
      (by norm_num) returned⟩

/-- A claim expires, the chunk is delivered late, and the next claim hands it out again. -/
def lateDelivery : List ClaimOperation :=
  [.claim everyChunk 1 1 (fun _ => 0), .release (fun _ => 2000)]
    ++ (Download.deliver 1 [7]).map .write

theorem claims_completed_of_late_delivery
    : ¬ ∀ (sha1 : Bytes → Digest) (td next : TorrentData) (disk : Disk)
          (operations : List ClaimOperation) (final : ClaimSession) (interested : Bitfield)
          (timeoutSeconds numChunks : Int) (clock : Nat → Int) (exit : Exit)
          (out : List (Option Nat)),
        td.JustInitialised
        → Guarded (perform sha1) Allowed { td, disk } operations
        → runSteps (perform sha1) { td, disk } operations = .ok final
        → 0 < timeoutSeconds
        → final.td.claimChunk interested timeoutSeconds numChunks clock = .ok (next, exit, out)
        → ∀ index ∈ out.reduceOption, final.td.completedBit index = false := by
  intro claim
  have passed : returnsWith
      (runSteps (perform Download.zeroDigest) eightChunks lateDelivery)
      (fun final =>
        final.td.completedBit 0
        && returnsWith (final.td.claimChunk everyChunk 1 1 (fun _ => 3000))
          (fun (_, _, out) => out == [some 0]))
      = true := by
    decide +kernel
  obtain ⟨final, run, observed⟩ := exists_ok_of_returnsWith passed
  rw [Bool.and_eq_true] at observed
  obtain ⟨done, observed⟩ := observed
  obtain ⟨⟨next, exit, out⟩, returned, handed⟩ := exists_ok_of_returnsWith observed
  obtain rfl : out = [some 0] := by simpa using handed
  have uncompleted := claim Download.zeroDigest _ next _ lateDelivery final everyChunk 1 1
    (fun _ => 3000) exit [some 0] eightChunks_justInitialised (by decide +kernel) run
    (by norm_num) returned 0 (by simp [List.reduceOption])
  rw [done] at uncompleted
  cases uncompleted

end ClaimSession

end UvgTorrent

import UvgTorrent.TorrentData.Setup

/-! Runs of `torrent_data_write_chunk` calls on one struct, from its initialization on.
The log keeps what each call returned and what it reported on a piece, newest first.
-/

namespace UvgTorrent

open Foundations

/-- One `torrent_data_write_chunk` call. -/
structure WriteCall where
  chunkId : Int
  data : Bytes
  env : WriteEnv

/-- What a call returned, what it did with a piece, and the disk behind it. -/
structure WriteRecord where
  chunkId : Int
  exit : Exit
  report : Option PieceReport
  disk : Disk

/-- A struct, the disk its files are on, and the calls made so far. -/
structure Download where
  td : TorrentData
  disk : Disk
  log : List WriteRecord

namespace Download

variable {sha1 : Bytes → Digest} {state next final : Download} {call : WriteCall}
  {calls : List WriteCall} {td : TorrentData} {disk : Disk}

/-- No call has been made yet. -/
def start (td : TorrentData) (disk : Disk) : Download := { td, disk, log := [] }

/-- The state after one call. -/
def write (sha1 : Bytes → Digest) (state : Download) (call : WriteCall)
    : Except Fault Download :=
  (state.td.writeChunk sha1 state.disk call.chunkId call.data call.env).bind fun result =>
    .ok
      {
        td := result.td
        disk := result.disk
        log :=
          {
            chunkId := call.chunkId
            exit := result.exit
            report := result.report
            disk := result.disk
          }
          :: state.log
      }

/-- The call names one of the struct's chunks. -/
def InRange (state : Download) (call : WriteCall) : Prop :=
  0 ≤ call.chunkId ∧ call.chunkId < state.td.chunkCount

instance (state : Download) (call : WriteCall) : Decidable (state.InRange call) :=
  inferInstanceAs (Decidable (_ ∧ _))

/-- The reports of all calls, newest first. -/
def reports (state : Download) : List PieceReport := state.log.filterMap (·.report)

/-- The state after a call whose exit is known. -/
def record (state : Download) (call : WriteCall) (result : WriteResult) : Download :=
  {
    td := result.td
    disk := result.disk
    log :=
      {
        chunkId := call.chunkId
        exit := result.exit
        report := result.report
        disk := result.disk
      }
      :: state.log
  }

/-- A call in range takes one of the exits of `torrent_data_write_chunk`. -/
theorem write_step (ready : state.td.Initialised) (inRange : state.InRange call)
    (wrote : state.write sha1 call = .ok next)
    : ∃ (chunk : Nat) (result : WriteResult),
        call.chunkId = chunk
        ∧ chunk < state.td.chunkTotal
        ∧ TorrentData.ChunkStep sha1 state.td state.disk chunk call.data call.env.io result
        ∧ next = state.record call result := by
  obtain ⟨chunk, named⟩ := Int.eq_ofNat_of_zero_le inRange.1
  have below : chunk < state.td.chunkTotal := by
    have bound := inRange.2
    unfold TorrentData.chunkTotal
    omega
  obtain ⟨result, returned, same⟩ := bind_eq_ok.mp wrote
  rw [named] at returned
  exact ⟨chunk, result, named, below, TorrentData.writeChunk_step ready below returned,
    (Except.ok.inj same).symm⟩

/-- Calls in range at the start stay in range: no call changes the chunk count. -/
theorem guarded_of_ids
    (ids : ∀ call ∈ calls, 0 ≤ call.chunkId ∧ call.chunkId < state.td.chunkCount)
    : Guarded (write sha1) InRange state calls := by
  induction calls generalizing state with
  | nil => trivial
  | cons call rest ih =>
      refine ⟨ids call (by simp), fun next wrote => ih ?_⟩
      obtain ⟨result, returned, same⟩ := bind_eq_ok.mp wrote
      obtain rfl := Except.ok.inj same
      have counts : result.td.chunkCount = state.td.chunkCount :=
        (TorrentData.writeChunk_setup returned).1.chunkCount
      intro later member
      rw [counts]
      exact ids later (by simp [member])

/-- The log has one entry a call, newest first. -/
theorem log_of_run (run : runSteps (write sha1) state calls = .ok final)
    : final.log.map (·.chunkId)
      = (calls.map (·.chunkId)).reverse ++ state.log.map (·.chunkId) := by
  induction calls generalizing state with
  | nil =>
      obtain rfl := Except.ok.inj run
      rfl
  | cons call rest ih =>
      obtain ⟨next, wrote, later⟩ := runSteps_cons_eq_ok.mp run
      obtain ⟨result, _, same⟩ := bind_eq_ok.mp wrote
      obtain rfl := Except.ok.inj same
      rw [ih later]
      simp

/-- Induction over the runs of an initialized struct: what every exit of a guarded call
preserves holds after every guarded run. The struct stays initialized and keeps its setup, and
when its chunk count was cut to a negative `int` no call is in range at all.
-/
theorem run_induction {guard : Download → WriteCall → Prop} (invariant : Download → Prop)
    (fresh : td.Fresh) (pieceFits : ∀ chunk < td.chunkTotal, td.pieceOf chunk < 2 ^ 31)
    (ranged : ∀ state call, guard state call → state.InRange call)
    (base : invariant (start td disk))
    (preserved
      : ∀ (state : Download) (call : WriteCall) (chunk : Nat) (result : WriteResult),
          state.td.Initialised
          → td.SameSetup state.td
          → invariant state
          → guard state call
          → call.chunkId = chunk
          → chunk < state.td.chunkTotal
          → TorrentData.ChunkStep sha1 state.td state.disk chunk call.data call.env.io result
          → invariant (state.record call result))
    (guarded : Guarded (write sha1) guard (start td disk) calls)
    (run : runSteps (write sha1) (start td disk) calls = .ok final)
    : invariant final ∧ td.SameSetup final.td ∧ (0 ≤ td.chunkCount → final.td.Initialised) := by
  cases calls with
  | nil =>
      obtain rfl := Except.ok.inj run
      exact ⟨base, .refl td, fun counted => fresh.initialised counted pieceFits⟩
  | cons first rest =>
      have counted : 0 ≤ td.chunkCount := by
        obtain ⟨lower, upper⟩ := ranged _ _ guarded.1
        exact Int.le_of_lt (Int.lt_of_le_of_lt lower upper)
      let kept (state : Download) : Prop :=
        invariant state ∧ td.SameSetup state.td ∧ state.td.Initialised
      have preservedKept (state : Download) (call : WriteCall) (next : Download)
          (before : kept state) (allowed : guard state call)
          (wrote : write sha1 state call = .ok next)
          : kept next := by
        obtain ⟨holds, same, ready⟩ := before
        obtain ⟨chunk, result, named, below, step, rfl⟩ :=
          write_step ready (ranged state call allowed) wrote
        exact ⟨preserved state call chunk result ready same holds allowed named below step,
          same.trans step.setup, step.initialised ready below⟩
      obtain ⟨holds, same, ready⟩ := runSteps_invariant preservedKept
        ⟨base, .refl td, fresh.initialised counted pieceFits⟩ guarded run
      exact ⟨holds, same, fun _ => ready⟩

/-- Calls that deliver the first `count` chunks, each with the same data, when every file
operation succeeds.
-/
def deliver (count : Nat) (data : Bytes) : List WriteCall :=
  (List.range count).map fun (index : Nat) =>
    {
      chunkId := index
      data
      env := { io := fun _ => .good, stack := zeroStack }
    }

theorem deliver_inRange {count : Nat} {data : Bytes} (few : (count : Int) ≤ td.chunkCount)
    : ∀ call ∈ deliver count data, 0 ≤ call.chunkId ∧ call.chunkId < td.chunkCount := by
  intro call member
  obtain ⟨index, below, rfl⟩ := List.mem_map.mp member
  rw [List.mem_range] at below
  exact ⟨Int.natCast_nonneg index, by dsimp only; omega⟩

theorem deliver_good (count : Nat) (data : Bytes)
    : ∀ call ∈ deliver count data, ∀ index, call.env.io index = .good := by
  intro call member index
  obtain ⟨_, _, rfl⟩ := List.mem_map.mp member
  rfl

/-- A digest that is the same for all data. -/
def zeroDigest : Bytes → Digest := fun _ => Digest.filled 0

end Download

end UvgTorrent

import UvgTorrent.Claims.ClaimSteps
import UvgTorrent.Downloads.Assembly

/-! The byte counters that trackers are told: `downloaded` and `left` against the `completed`
bits. The bit of a chunk is set before its piece is written and the counters after, so an
abandoned piece leaves them apart.
-/

namespace UvgTorrent

open Foundations

namespace TorrentData

variable {sha1 : Bytes → Digest} {td : TorrentData} {disk : Disk} {chunk : Nat}
  {call : WriteCall} {result : WriteResult} {completed : Bitfield}

/-- The piece that a call completes, by the tests of `torrent_data_write_chunk`: the struct with
the chunk marked, the piece's info and its buffer.
-/
def completedPiece (td : TorrentData) (call : WriteCall)
    : Except Fault (Option (TorrentData × PieceInfo × Bytes)) :=
  match td.completed with
  | none => .error .nullPointer
  | some completed =>
      (completed.getBit call.chunkId).bind fun done =>
        if done then .ok none
        else
          (td.getChunkInfo call.chunkId call.env.stack.chunkInfo).bind fun (_, chunkInfo) =>
            let pieceInfo := (td.getPieceInfo chunkInfo.pieceId call.env.stack.pieceInfo).2
            if call.data.length ≠ chunkInfo.chunkSize then .ok none
            else
              (td.takePiece chunkInfo.pieceId).bind fun (piece, map) =>
                (copyChunk piece call.data chunkInfo.chunkOffset pieceInfo.pieceOffset).bind
                  fun piece =>
                    (td.isPieceComplete pieceInfo.pieceId call.env.stack).bind
                      fun pieceAlreadyCompleted =>
                        let marked :=
                          {
                            td with
                            completed := some (completed.setBit chunkInfo.chunkId 1)
                            data := some map
                          }
                        (marked.isPieceComplete pieceInfo.pieceId call.env.stack).bind
                          fun pieceCompleted =>
                            .ok
                              (if pieceCompleted ∧ ¬ pieceAlreadyCompleted then
                                some (marked, pieceInfo, piece)
                              else none)

/-- When the call completes a piece that validates, the files take all of its bytes. -/
def filesTakePiece (sha1 : Bytes → Digest) (td : TorrentData) (disk : Disk) (call : WriteCall)
    : Bool :=
  match td.completedPiece call with
  | .ok (some (marked, info, piece)) =>
      match marked.validatePiece sha1 info piece with
      | .ok .success =>
          match writePiece call.env.io piece info.pieceOffset info.pieceSize 0 td.files 0 disk with
          | .ok loop => !loop.thrown && loop.dataWritten == info.pieceSize
          | .error _ => true
      | _ => true
  | _ => true

/-- Any return of `torrent_data_write_chunk` either changes nothing, or marks the chunk and
counts its bytes, or, when the files do not take the whole piece, marks it uncounted.
-/
theorem writeChunk_counts
    (wrote : td.writeChunk sha1 disk call.chunkId call.data call.env = .ok result)
    : (result.td = td ∧ td.filesTakePiece sha1 disk call = true)
      ∨ ∃ field info,
          td.completed = some field
          ∧ field.getBit call.chunkId = .ok false
          ∧ td.getChunkInfo call.chunkId call.env.stack.chunkInfo = .ok info
          ∧ call.data.length = info.2.chunkSize
          ∧ result.td.completed = some (field.setBit info.2.chunkId 1)
          ∧ ((td.filesTakePiece sha1 disk call = true
              ∧ result.td.downloaded = wrap64 (td.downloaded + info.2.chunkSize)
              ∧ result.td.left = wrap64 (td.left - info.2.chunkSize))
            ∨ (td.filesTakePiece sha1 disk call = false
              ∧ result.td.downloaded = td.downloaded
              ∧ result.td.left = td.left)) := by
  unfold writeChunk at wrote
  unfold filesTakePiece completedPiece
  cases field : td.completed with
  | none =>
      rw [field] at wrote
      cases wrote
  | some completed =>
      rw [field] at wrote
      obtain ⟨done, read, wrote⟩ := bind_eq_ok.mp wrote
      dsimp only
      rw [bind_of_ok read]
      cases done with
      | true =>
          obtain rfl := Except.ok.inj wrote
          exact .inl ⟨rfl, rfl⟩
      | false =>
          obtain ⟨info, known, wrote⟩ := bind_eq_ok.mp wrote
          simp only [Bool.false_eq_true, if_false]
          rw [bind_of_ok known]
          dsimp only at wrote ⊢
          split at wrote
          · rename_i wrong
            obtain rfl := Except.ok.inj wrote
            rw [if_pos wrong]
            exact .inl ⟨rfl, rfl⟩
          · rename_i sized
            obtain ⟨⟨piece, map⟩, taken, wrote⟩ := bind_eq_ok.mp wrote
            obtain ⟨buffer, copied, wrote⟩ := bind_eq_ok.mp wrote
            obtain ⟨before, wasDone, wrote⟩ := bind_eq_ok.mp wrote
            obtain ⟨after, isDone, wrote⟩ := bind_eq_ok.mp wrote
            rw [if_neg sized, bind_of_ok taken, bind_of_ok copied, bind_of_ok wasDone,
              bind_of_ok isDone]
            refine .inr ⟨completed, info, rfl, read, known, not_not.mp sized, ?_⟩
            split at wrote
            · rename_i completes
              rw [if_pos completes]
              rcases finishPiece_cases wrote with ⟨invalid, rfl⟩ | ⟨loop, valid, ran, exits⟩
              · dsimp only at invalid ⊢
                rw [invalid]
                exact ⟨rfl, .inl ⟨rfl, rfl, rfl⟩⟩
              · dsimp only at valid ran ⊢
                rw [valid, ran]
                rcases exits with ⟨stopped, rfl⟩ | ⟨notThrown, whole, rfl⟩
                · refine ⟨rfl, .inr ⟨?_, rfl, rfl⟩⟩
                  rcases stopped with thrown | short
                  · simp [thrown]
                  · simp [short]
                · refine ⟨countPiece_completed .., .inl ⟨?_, ?_, ?_⟩⟩
                  · simp [notThrown, whole]
                  · exact countPiece_downloaded ..
                  · exact countPiece_left ..
            · rename_i unfinished
              rw [if_neg unfinished]
              obtain rfl := Except.ok.inj wrote
              exact ⟨rfl, .inl ⟨rfl, rfl, rfl⟩⟩

/-- The counters tell exactly the marked chunks and the rest of the data. -/
structure Accounted (td : TorrentData) : Prop where
  downloaded : td.downloaded = td.markedBytes
  left : td.left = td.dataSize - td.downloaded
  nonneg : 0 ≤ td.left

end TorrentData

namespace Download

variable {sha1 : Bytes → Digest} {state next final : Download} {call : WriteCall}
  {calls : List WriteCall} {td : TorrentData} {disk : Disk}

/-- What every call keeps: `left` is the rest of the data, and no more bytes are counted than
are marked.
-/
structure Accounting (td : TorrentData) : Prop where
  bounds : td.ChunkBounds
  completed_field : ∃ field, td.completed = some field ∧ field.bitCount = td.chunkTotal
  dataSize_lt : td.dataSize < 2 ^ 63
  left : td.left = td.dataSize - td.downloaded
  downloaded_nonneg : 0 ≤ td.downloaded
  downloaded_le : td.downloaded ≤ td.markedBytes

theorem Accounting.accounted_iff (accounting : Accounting td)
    : td.Accounted ↔ td.downloaded = td.markedBytes := by
  have marked := td.markedBytes_le
  have left := accounting.left
  have counted := accounting.downloaded_le
  exact ⟨fun accounted => accounted.downloaded, fun same => ⟨same, left, by omega⟩⟩

/-- A call in range leaves exact counters exactly when it found them so and the files take the
piece that it completes.
-/
theorem Accounting.write (accounting : Accounting state.td) (inRange : state.InRange call)
    (wrote : state.write sha1 call = .ok next)
    : Accounting next.td
      ∧ (next.td.Accounted
        ↔ state.td.Accounted ∧ state.td.filesTakePiece sha1 state.disk call = true) := by
  obtain ⟨result, returned, same⟩ := bind_eq_ok.mp wrote
  obtain rfl := Except.ok.inj same
  have before := accounting
  obtain ⟨bounds, ⟨completed, field, counted⟩, dataSmall, left, nonneg, covered⟩ := accounting
  rcases TorrentData.writeChunk_counts returned with ⟨unchanged, took⟩ | marks
  · dsimp only
    rw [unchanged]
    exact ⟨⟨bounds, ⟨completed, field, counted⟩, dataSmall, left, nonneg, covered⟩,
      by simp [took]⟩
  · obtain ⟨other, info, here, clear, known, _, marked, counters⟩ := marks
    obtain rfl : completed = other := Option.some.inj (field.symm.trans here)
    obtain ⟨chunk, named⟩ := Int.eq_ofNat_of_zero_le inRange.1
    have below : chunk < state.td.chunkTotal := by
      have upper := inRange.2
      unfold TorrentData.chunkTotal
      omega
    obtain ⟨setup, _, _⟩ := TorrentData.writeChunk_setup returned
    have dataSize := setup.dataSize
    have total := setup.chunkTotal
    rw [named] at clear known
    obtain ⟨own, length⟩ := bounds.chunkInfo below known
    rw [own] at marked
    rw [Bitfield.getBit_of_lt (by omega)] at clear
    have bytes := TorrentData.markedBytes_setBit field counted bounds.chunkTotal_lt below
      (Except.ok.inj clear) marked total setup.chunkLength
    have upper := result.td.markedBytes_le
    have positive : 0 < state.td.chunkLength chunk := by
      have start := bounds.chunkStart_lt chunk below
      have size := bounds.chunkSize_pos
      unfold TorrentData.chunkLength
      omega
    rw [dataSize, bytes] at upper
    rw [length] at counters
    have bounds' := bounds.of_setup setup
    have field' : ∃ field,
        result.td.completed = some field ∧ field.bitCount = result.td.chunkTotal :=
      ⟨_, marked, by rw [total, ← counted]; simp⟩
    rcases counters with ⟨took, downloaded, rest⟩ | ⟨missed, downloaded, rest⟩
    · rw [wrap64_of_fits (by omega) (by omega)] at downloaded rest
      have kept : Accounting result.td :=
        ⟨bounds', field', by omega, by omega, by omega, by omega⟩
      refine ⟨kept, ?_⟩
      rw [kept.accounted_iff, before.accounted_iff]
      simp only [took, and_true]
      omega
    · have kept : Accounting result.td :=
        ⟨bounds', field', by omega, by omega, by omega, by omega⟩
      refine ⟨kept, ?_⟩
      rw [kept.accounted_iff]
      simp only [missed, Bool.false_eq_true, and_false, iff_false]
      omega

/-- Right after initialization nothing is marked and everything is left. -/
theorem accounted_of_fresh (fresh : td.Fresh) (dataSmall : td.dataSize < 2 ^ 63)
    : td.Accounted := by
  have unmarked : td.markedBytes = 0 := by
    rw [TorrentData.markedBytes, Finset.filter_false_of_mem, Finset.sum_empty]
    intro chunk member
    have below := Finset.mem_range.mp member
    have counted : 0 ≤ td.chunkCount := by
      unfold TorrentData.chunkTotal at below
      omega
    rw [fresh.completedBit_eq_false counted below]
    exact Bool.false_ne_true
  have left : td.left = td.dataSize := by
    rw [fresh.left, wrap64_of_fits (by omega) (by omega)]
  have downloaded := fresh.downloaded
  exact ⟨by omega, by omega, by omega⟩

theorem Accounting.start (fresh : td.Fresh) (counted : 0 ≤ td.chunkCount)
    (dataSmall : td.dataSize < 2 ^ 63)
    : Accounting td := by
  obtain ⟨field, made, ⟨bits, _⟩, _⟩ := fresh.newField counted
  obtain ⟨downloaded, left, _⟩ := accounted_of_fresh fresh dataSmall
  exact ⟨fresh.chunkBounds, ⟨field, fresh.completed.trans made, bits⟩, dataSmall, left, by omega,
    by omega⟩

/-- After every run of calls in range, with any data and any outcome of the file operations,
the counters are exact precisely when at every call the files took the piece it completed.
-/
theorem accounted_iff_pieces_taken (started : td.JustInitialised)
    (dataSmall : td.dataSize < 2 ^ 63)
    (ids : ∀ call ∈ calls, 0 ≤ call.chunkId ∧ call.chunkId < td.chunkCount)
    (run : runSteps (write sha1) (start td disk) calls = .ok final)
    : final.td.Accounted
      ↔ Guarded (write sha1)
          (fun state call => state.td.filesTakePiece sha1 state.disk call = true)
          (start td disk) calls := by
  have fresh := started.fresh
  have accounted := accounted_of_fresh fresh dataSmall
  cases calls with
  | nil =>
      obtain rfl := Except.ok.inj run
      exact iff_of_true accounted trivial
  | cons first rest =>
      -- a call in range means that there are chunks
      have counted : 0 ≤ td.chunkCount := by
        obtain ⟨lower, upper⟩ := ids first (by simp)
        omega
      have stepped (state : Download) (call : WriteCall) (next : Download)
          (before : Accounting state.td) (inRange : state.InRange call)
          (wrote : state.write sha1 call = .ok next)
          : Accounting next.td
            ∧ (next.td.Accounted
              ↔ state.td.Accounted ∧ state.td.filesTakePiece sha1 state.disk call = true) :=
        before.write inRange wrote
      have ends := runSteps_good_iff stepped (Accounting.start fresh counted dataSmall)
        (guarded_of_ids ids) run
      rw [ends]
      exact and_iff_right accounted

/-- Eight chunks of one byte that are delivered in order to one file of one piece. -/
theorem accounted_of_delivery
    : ∃ final,
        runSteps (write zeroDigest) (start (.ofSingleFile none 8 8 1) (fun _ => none))
            (deliver 8 [7])
          = .ok final
        ∧ final.td.Accounted := by
  have passed : returnsWith
      (runSteps (write zeroDigest) (start (.ofSingleFile none 8 8 1) (fun _ => none))
        (deliver 8 [7]))
      (fun _ => true)
      = true := by
    decide +kernel
  obtain ⟨final, run, _⟩ := exists_ok_of_returnsWith passed
  refine ⟨final, run, (accounted_iff_pieces_taken ?_ ?_ ?_ run).mpr (by decide +kernel)⟩
  · exact TorrentData.SingleFileFits.justInitialised (by decide +kernel)
  · decide +kernel
  · exact deliver_inRange (by decide +kernel)

/-- The delivery of eight chunks when the file cannot be opened. -/
def deliverUnopened : List WriteCall :=
  (deliver 8 [7]).map fun call =>
    {
      call with
      env := { call.env with io := fun _ => { FileOutcome.good with opens := false } }
    }

/-- The last chunk is marked but never counted when its piece cannot be written. -/
theorem uncounted_of_unopened_file
    : ¬ ∀ (sha1 : Bytes → Digest) (td : TorrentData) (disk : Disk) (calls : List WriteCall)
          (final : Download),
        td.JustInitialised
        → (∀ call ∈ calls, 0 ≤ call.chunkId ∧ call.chunkId < td.chunkCount)
        → runSteps (write sha1) (start td disk) calls = .ok final
        → final.td.Accounted := by
  intro claim
  have passed : returnsWith
      (runSteps (write zeroDigest) (start (.ofSingleFile none 8 8 1) (fun _ => none))
        deliverUnopened)
      (fun final => decide (final.td.downloaded ≠ final.td.markedBytes))
      = true := by
    decide +kernel
  obtain ⟨final, run, observed⟩ := exists_ok_of_returnsWith passed
  have ids : ∀ call ∈ deliverUnopened,
      0 ≤ call.chunkId ∧ call.chunkId < (TorrentData.ofSingleFile none 8 8 1).chunkCount := by
    decide +kernel
  have accounted := claim zeroDigest _ _ deliverUnopened final
    (TorrentData.SingleFileFits.justInitialised (by decide +kernel))
    ids run
  exact of_decide_eq_true observed accounted.downloaded

end Download

end UvgTorrent

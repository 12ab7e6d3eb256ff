import UvgTorrent.Downloads.Runs
import UvgTorrent.TorrentData.PieceStorage

/-! `completed_pieces` counts the pieces that were validated and then came to the disk whole, as
long as each `fseek` and `fflush` succeeds: their results are not looked at. A piece is reported at
most once, when its last missing bit is set, so the counter goes up by one exactly when a new piece
joins the written ones.
-/

namespace UvgTorrent

open Foundations

/-- In the call `torrent_data_validate_piece` returned success on the piece's buffer, and then all
bytes of the piece came to their places on the disk: behind the call it holds the piece, unless two
files share a path.
-/
def WriteRecord.Writes (entry : WriteRecord) (td : TorrentData) (piece : Nat) : Prop :=
  ∃ report ∈ entry.report,
    report.pieceId = piece
    ∧ report.verdict = .success
    ∧ WritesWhole td.files report.piece (td.pieceSize * piece) (td.pieceLength piece)
        report.reached
    ∧ ((td.files.map TorrentDataFileInfo.filePath).Nodup
      → StoredAt td.files entry.disk (td.pieceSize * piece)
          (report.piece.take (td.pieceLength piece)))

instance (files : List TorrentDataFileInfo) (disk : Disk) (position : Nat) (bytes : Bytes)
    : Decidable (StoredAt files disk position bytes) :=
  inferInstanceAs (Decidable (∀ index < bytes.length, _))

instance (entry : WriteRecord) (td : TorrentData) (piece : Nat)
    : Decidable (entry.Writes td piece) :=
  inferInstanceAs (Decidable (∃ report ∈ entry.report, _))

/-- What a call writes depends on the setup only. -/
theorem WriteRecord.writes_of_setup {entry : WriteRecord} {td next : TorrentData} {piece : Nat}
    (same : td.SameSetup next)
    : entry.Writes next piece ↔ entry.Writes td piece := by
  have stored (bytes : Bytes)
      : StoredAt next.files entry.disk (td.pieceSize * piece) bytes
        ↔ StoredAt td.files entry.disk (td.pieceSize * piece) bytes := by
    simp only [StoredAt, storedByte_of_layout entry.disk same.layout]
  simp only [Writes, WritesWhole, shareWrites_of_layout same.layout, same.pieceSize,
    same.pieceLength, filePaths_of_layout same.layout, stored]

namespace Download

variable {sha1 : Bytes → Digest} {state final : Download} {call : WriteCall}
  {calls : List WriteCall} {td : TorrentData} {disk : Disk} {result : WriteResult}
  {chunk piece : Nat}

/-- Some call validated the piece and brought it to the disk. -/
def Written (state : Download) (piece : Nat) : Prop :=
  ∃ entry ∈ state.log, entry.Writes state.td piece

instance (state : Download) (piece : Nat) : Decidable (state.Written piece) :=
  inferInstanceAs (Decidable (∃ entry ∈ state.log, _))

/-- The pieces that were validated and written. -/
def writtenPieces (state : Download) : Finset Nat :=
  (Finset.range state.td.pieceTotal).filter state.Written

/-- The pieces of the chunks for which a call returned `EXIT_SUCCESS`, one entry a call. -/
def announcedPieces (state : Download) : List Nat :=
  (state.log.filter (·.exit = .success)).map (fun entry => state.td.pieceOf entry.chunkId.toNat)

/-- Completion is never announced early. -/
structure HonestCompletion (state : Download) (needed : Bool) : Prop where
  counted : state.td.completedPieces = state.writtenPieces.card
  once : state.announcedPieces.Nodup
  announced : state.announcedPieces.length = state.writtenPieces.card
  bounded : state.td.completedPieces ≤ state.td.pieceCount
  complete : state.td.isComplete = true → ∀ piece < state.td.pieceTotal, state.Written piece
  reset
    : needed = true
      → state.td.needed = false
      → ∀ piece < state.td.pieceTotal, state.Written piece

/-- Every piece that was ever reported is complete by the code's own test. -/
def ReportedDone (state : Download) : Prop :=
  ∀ report ∈ state.reports,
    ∃ (piece : Nat) (field : Bitfield),
      report.pieceId = piece
      ∧ state.td.completed = some field
      ∧ state.td.pieceDone field piece = true

/-- Every call that returned `EXIT_SUCCESS` reported on the piece of its chunk. -/
def SuccessReported (state : Download) : Prop :=
  ∀ entry ∈ state.log,
    entry.exit = .success
    → ∃ (chunk : Nat) (report : PieceReport),
        entry.chunkId = chunk
        ∧ chunk < state.td.chunkTotal
        ∧ entry.report = some report
        ∧ report.pieceId = state.td.pieceOf chunk

/-- What the counter, the log and `needed` have to do with each other. -/
structure Counting (state : Download) (needed : Bool) : Prop where
  reported : state.ReportedDone
  successes : state.SuccessReported
  counted : state.td.completedPieces = state.writtenPieces.card
  once : state.announcedPieces.Nodup
  announced : state.announcedPieces.length = state.writtenPieces.card
  reset
    : needed = true
      → state.td.needed = false
      → ∀ piece < state.td.pieceTotal, state.Written piece

theorem reports_record (state : Download) (call : WriteCall) (result : WriteResult)
    : (state.record call result).reports = result.report.toList ++ state.reports := by
  cases found : result.report <;> simp [reports, record, found]

/-- The entry that a call adds to the log. -/
def entryOf (call : WriteCall) (result : WriteResult) : WriteRecord :=
  {
    chunkId := call.chunkId
    exit := result.exit
    report := result.report
    disk := result.disk
  }

/-- Only a call that writes a piece adds to the written pieces. -/
theorem written_record_iff (same : state.td.SameSetup result.td)
    : (state.record call result).Written piece
      ↔ state.Written piece ∨ (entryOf call result).Writes state.td piece := by
  have written (entry : WriteRecord)
      : entry.Writes (state.record call result).td piece ↔ entry.Writes state.td piece :=
    WriteRecord.writes_of_setup same
  constructor
  · rintro ⟨entry, member, writes⟩
    rcases List.mem_cons.mp member with rfl | old
    · exact .inr ((written _).mp writes)
    · exact .inl ⟨entry, old, (written entry).mp writes⟩
  · rintro (⟨entry, old, writes⟩ | writes)
    · exact ⟨entry, List.mem_cons_of_mem _ old, (written entry).mpr writes⟩
    · exact ⟨_, List.mem_cons_self, (written _).mpr writes⟩

/-- A piece that was written was reported with success. -/
theorem Written.reported (written : state.Written piece)
    : ∃ report ∈ state.reports, report.pieceId = piece ∧ report.verdict = .success := by
  obtain ⟨entry, logged, report, made, named, succeeded, _⟩ := written
  exact ⟨report, List.mem_filterMap.mpr ⟨entry, logged, made⟩, named, succeeded⟩

/-- A report says that its piece has just become complete. -/
theorem report_completes {report : PieceReport} {disk : Disk} {data : Bytes}
    {io : Nat → FileOutcome} (step : TorrentData.ChunkStep sha1 td disk chunk data io result)
    (made : result.report = some report)
    : ∃ completed map verdict,
        report.pieceId = td.pieceOf chunk
        ∧ td.Judged sha1 completed map chunk data verdict := by
  cases step with
  | refused reason => cases made
  | held stores unfinished => cases made
  | rejected judged =>
      cases made
      exact ⟨_, _, _, rfl, judged⟩
  | abandoned judged ran stopped =>
      cases made
      exact ⟨_, _, _, rfl, judged⟩
  | finished judged ran notThrown whole =>
      cases made
      exact ⟨_, _, _, rfl, judged⟩

theorem ReportedDone.record (reported : state.ReportedDone) (ready : state.td.Initialised)
    (inRange : chunk < state.td.chunkTotal) {data : Bytes} {io : Nat → FileOutcome}
    (step : TorrentData.ChunkStep sha1 state.td state.disk chunk data io result)
    (call : WriteCall)
    : (state.record call result).ReportedDone := by
  have tests : (state.record call result).td.pieceDone = state.td.pieceDone :=
    step.setup.pieceDone
  intro report member
  rw [reports_record, List.mem_append, Option.mem_toList] at member
  rcases member with new | old
  · obtain ⟨completed, map, verdict, named, judged⟩ := report_completes step new
    refine ⟨_, _, named,
      step.completed_of_accepts judged.stores.accepted judged.stores.field, ?_⟩
    rw [tests]
    exact judged.completes.1
  · obtain ⟨piece, field, named, found, done⟩ := reported report old
    obtain ⟨other, same, counted, _⟩ := ready.completed_field
    obtain rfl : other = field := Option.some.inj (same.symm.trans found)
    have small := ready.chunkTotal_lt
    by_cases accepted : state.td.Accepts chunk data
    · refine ⟨piece, _, named, step.completed_of_accepts accepted found, ?_⟩
      rw [tests]
      exact TorrentData.pieceDone_setBit (by omega) (by omega) done
    · refine ⟨piece, other, named, ?_, by rw [tests]; exact done⟩
      rw [step.eq_of_refused accepted]
      exact found

/-- A piece that has just become complete was not reported before. -/
theorem ReportedDone.absent (reported : state.ReportedDone) {completed : Bitfield}
    {map : HashMap Bytes} {data : Bytes} {verdict : Exit}
    (judged : state.td.Judged sha1 completed map chunk data verdict) {report : PieceReport}
    (member : report ∈ state.reports)
    : report.pieceId ≠ state.td.pieceOf chunk := by
  intro same
  obtain ⟨piece, field, named, found, done⟩ := reported report member
  obtain rfl : piece = state.td.pieceOf chunk := by
    rw [same] at named
    exact (Int.ofNat_inj.mp named).symm
  obtain rfl : field = completed :=
    Option.some.inj (found.symm.trans judged.stores.field)
  rw [judged.completes.2] at done
  cases done

/-- An announced piece is in range and was reported. -/
theorem SuccessReported.announced (successes : state.SuccessReported)
    (ready : state.td.Initialised) (member : piece ∈ state.announcedPieces)
    : piece < state.td.pieceTotal ∧ ∃ report ∈ state.reports, report.pieceId = piece := by
  obtain ⟨entry, kept, same⟩ := List.mem_map.mp member
  obtain ⟨logged, succeeded⟩ := List.mem_filter.mp kept
  obtain ⟨chunk, report, named, inRange, made, pieceId⟩ :=
    successes entry logged (of_decide_eq_true succeeded)
  rw [named, Int.toNat_natCast] at same
  rw [← same]
  exact ⟨ready.pieceOf_lt inRange, report, List.mem_filterMap.mpr ⟨entry, logged, made⟩,
    pieceId⟩

/-- Old entries keep their meaning, since the geometry does not change. -/
theorem SuccessReported.record (successes : state.SuccessReported)
    (same : state.td.SameSetup result.td)
    (new
      : result.exit = .success
        → ∃ (chunk : Nat) (report : PieceReport),
            call.chunkId = chunk
            ∧ chunk < state.td.chunkTotal
            ∧ result.report = some report
            ∧ report.pieceId = state.td.pieceOf chunk)
    : (state.record call result).SuccessReported := by
  have total : (state.record call result).td.chunkTotal = state.td.chunkTotal := same.chunkTotal
  have pieces : (state.record call result).td.pieceOf = state.td.pieceOf := same.pieceOf
  intro entry member succeeded
  rw [total, pieces]
  rcases List.mem_cons.mp member with rfl | old
  · exact new succeeded
  · exact successes entry old succeeded

/-- A full count means that every piece is written. -/
theorem all_written_of_count (full : state.writtenPieces.card = state.td.pieceTotal)
    : ∀ piece < state.td.pieceTotal, state.Written piece := by
  intro piece inRange
  refine Finset.card_filter_eq_iff.mp ?_ piece (Finset.mem_range.mpr inRange)
  rw [Finset.card_range]
  exact full

theorem writtenPieces_card_le (state : Download)
    : state.writtenPieces.card ≤ state.td.pieceTotal := by
  have bound := Finset.card_filter_le (Finset.range state.td.pieceTotal) state.Written
  rwa [Finset.card_range] at bound

/-- A call that does not finish a piece leaves the counts as they are. -/
theorem Counting.record_failure {needed : Bool} (counting : state.Counting needed)
    (same : state.td.SameSetup result.td)
    (reported : (state.record call result).ReportedDone) (failed : result.exit = .failure)
    (sameCount : result.td.completedPieces = state.td.completedPieces)
    (sameNeeded : result.td.needed = state.td.needed)
    (unwritten : ∀ piece, ¬ (entryOf call result).Writes state.td piece)
    : (state.record call result).Counting needed := by
  have writtenIff (piece : Nat)
      : (state.record call result).Written piece ↔ state.Written piece := by
    rw [written_record_iff same]
    exact or_iff_left (unwritten piece)
  have total : (state.record call result).td.pieceTotal = state.td.pieceTotal :=
    same.pieceTotal
  have pieces : (state.record call result).writtenPieces = state.writtenPieces := by
    simp only [writtenPieces, total, writtenIff]
  have announced : (state.record call result).announcedPieces = state.announcedPieces := by
    simp [announcedPieces, record, failed, same.pieceOf]
  refine
    {
      reported
      successes := counting.successes.record same (by rw [failed]; intro other; cases other)
      counted := by rw [pieces]; exact sameCount.trans counting.counted
      once := by rw [announced]; exact counting.once
      announced := by rw [announced, pieces]; exact counting.announced
      reset := ?_
    }
  intro wanted cleared piece inRange
  rw [total] at inRange
  exact (writtenIff piece).mpr (counting.reset wanted (sameNeeded.symm.trans cleared) piece inRange)

/-- A call that finishes a piece adds that piece to the written ones. -/
theorem Counting.record_finished {needed : Bool} (counting : state.Counting needed)
    (exact : state.td.pieceCount = state.td.pieceTotal)
    (fits : state.td.pieceTotal < 2 ^ 31) (ready : state.td.Initialised)
    (named : call.chunkId = chunk) (inRange : chunk < state.td.chunkTotal)
    {completed : Bitfield} {map : HashMap Bytes} {data : Bytes} {files : List TorrentDataFileInfo}
    {reached : List DiskWrite}
    (judged : state.td.Judged sha1 completed map chunk data .success)
    (same : state.td.SameSetup result.td)
    (writes : (entryOf call result).Writes state.td (state.td.pieceOf chunk))
    (made
      : result.td
        = (state.td.markChunk completed map chunk).countPiece files (state.td.chunkLength chunk))
    (succeeded : result.exit = .success)
    (report : result.report = some (state.td.reportOf chunk data .success reached))
    (reported : (state.record call result).ReportedDone)
    : (state.record call result).Counting needed := by
  have pieceInRange := ready.pieceOf_lt inRange
  have total : (state.record call result).td.pieceTotal = state.td.pieceTotal :=
    same.pieceTotal
  have new : ¬ state.Written (state.td.pieceOf chunk) := by
    intro written
    obtain ⟨old, member, named, _⟩ := written.reported
    exact counting.reported.absent judged member named
  have writtenIff (piece : Nat)
      : (state.record call result).Written piece
        ↔ piece = state.td.pieceOf chunk ∨ state.Written piece := by
    rw [written_record_iff same]
    constructor
    · rintro (old | ⟨other, here, named, _⟩)
      · exact .inr old
      · obtain rfl := Option.some.inj (report.symm.trans here)
        exact .inl (Int.ofNat_inj.mp named).symm
    · rintro (rfl | old)
      · exact .inr writes
      · exact .inl old
  have pieces : (state.record call result).writtenPieces
      = insert (state.td.pieceOf chunk) state.writtenPieces := by
    ext piece
    simp only [writtenPieces, total, Finset.mem_filter, Finset.mem_range, Finset.mem_insert,
      writtenIff]
    constructor
    · rintro ⟨below, here | old⟩
      · exact .inl here
      · exact .inr ⟨below, old⟩
    · rintro (rfl | ⟨below, old⟩)
      · exact ⟨pieceInRange, .inl rfl⟩
      · exact ⟨below, .inr old⟩
  have grown : (state.record call result).writtenPieces.card
      = state.writtenPieces.card + 1 := by
    rw [pieces, Finset.card_insert_of_notMem]
    intro member
    exact new (Finset.mem_filter.mp member).2
  have announced : (state.record call result).announcedPieces
      = state.td.pieceOf chunk :: state.announcedPieces := by
    simp [announcedPieces, record, succeeded, same.pieceOf, named]
  have bound := (state.record call result).writtenPieces_card_le
  rw [total] at bound
  have count : wrap32 (state.td.completedPieces + 1)
      = (state.record call result).writtenPieces.card := by
    rw [counting.counted, grown, Nat.cast_add, Nat.cast_one]
    exact wrap32_of_fits (by omega) (by omega)
  refine
    {
      reported
      successes :=
        counting.successes.record same (fun _ => ⟨chunk, _, named, inRange, report, rfl⟩)
      counted := by rw [← count]; simp [record, made, TorrentData.markChunk]
      once := ?_
      announced := by rw [announced, grown, List.length_cons, counting.announced]
      reset := ?_
    }
  · rw [announced, List.nodup_cons]
    refine ⟨fun member => ?_, counting.once⟩
    obtain ⟨_, old, logged, pieceId⟩ := counting.successes.announced ready member
    exact counting.reported.absent judged logged pieceId
  · intro wanted cleared
    have cleared : ((state.td.markChunk completed map chunk).countPiece files
        (state.td.chunkLength chunk)).needed = false := by
      rw [← made]
      exact cleared
    rcases TorrentData.countPiece_needed cleared with before | full
    · intro piece below
      rw [total] at below
      exact (writtenIff piece).mpr (.inr (counting.reset wanted before piece below))
    · apply all_written_of_count
      have full : wrap32 (state.td.completedPieces + 1) = state.td.pieceCount := full
      rw [count, exact] at full
      rw [total]
      exact Int.ofNat_inj.mp full

/-- Every exit keeps the counts right. -/
theorem Counting.record {needed : Bool} (counting : state.Counting needed)
    (exact : state.td.pieceCount = state.td.pieceTotal)
    (fits : state.td.pieceTotal < 2 ^ 31) (ready : state.td.Initialised)
    (addressable : state.td.Addressable) (named : call.chunkId = chunk)
    (inRange : chunk < state.td.chunkTotal) {data : Bytes} {io : Nat → FileOutcome}
    (lands : ∀ index, (io index).Lands)
    (step : TorrentData.ChunkStep sha1 state.td state.disk chunk data io result)
    : (state.record call result).Counting needed := by
  have same := step.setup
  have reported := counting.reported.record ready inRange step call
  cases step with
  | refused reason =>
      refine counting.record_failure same reported rfl rfl rfl ?_
      rintro piece ⟨report, made, _⟩
      cases made
  | held stores unfinished =>
      refine counting.record_failure same reported rfl rfl rfl ?_
      rintro piece ⟨report, made, _⟩
      cases made
  | rejected judged =>
      refine counting.record_failure same reported rfl rfl rfl ?_
      rintro piece ⟨report, made, _, verdict, _⟩
      cases made
      cases verdict
  | abandoned judged ran stopped =>
      refine counting.record_failure same reported rfl rfl rfl ?_
      rintro piece ⟨report, made, named, _, whole, _⟩
      cases made
      obtain rfl : state.td.pieceOf chunk = piece := Int.ofNat_inj.mp named
      obtain ⟨notThrown, all⟩ :=
        (TorrentData.writeAssembled_whole_iff ready addressable judged.stores inRange lands
          ran).mpr whole
      rcases stopped with thrown | cut
      · rw [notThrown] at thrown
        cases thrown
      · exact cut all
  | finished judged ran notThrown whole =>
      have shares := (TorrentData.writeAssembled_whole_iff ready addressable judged.stores inRange
        lands ran).mp ⟨notThrown, whole⟩
      refine counting.record_finished exact fits ready named inRange judged same ?_ rfl rfl rfl
        reported
      refine ⟨_, rfl, rfl, rfl, shares, fun distinct => ?_⟩
      exact TorrentData.writeAssembled_stores ready addressable judged.stores inRange lands ran
        distinct notThrown whole

/-- Before the first call nothing is written and nothing is counted. -/
theorem Counting.start (fresh : td.Fresh) (disk : Disk)
    : (start td disk).Counting td.needed := by
  have none : (Download.start td disk).writtenPieces = ∅ := by
    apply Finset.filter_eq_empty_iff.mpr
    rintro piece _ ⟨entry, member, _⟩
    cases member
  refine
    {
      reported := fun report member => by cases member
      successes := fun entry member => by cases member
      counted := by rw [none]; exact fresh.completedPieces
      once := List.nodup_nil
      announced := by rw [none]; rfl
      reset := ?_
    }
  intro wanted cleared
  rw [show (Download.start td disk).td.needed = true from wanted] at cleared
  cases cleared

/-- The call is in range, and each of its seeks and flushes succeeds. -/
def LandsInRange (state : Download) (call : WriteCall) : Prop :=
  state.InRange call ∧ ∀ index, (call.env.io index).Lands

/-- The counts are right after every run whose `piece_count` is exact. -/
theorem counting_of_run (fresh : td.Fresh) (divides : 8 * td.chunkSize ∣ td.pieceSize)
    (exact : td.pieceCount = td.pieceTotal) (addressable : td.Addressable)
    (guarded : Guarded (write sha1) LandsInRange (start td disk) calls)
    (run : runSteps (write sha1) (start td disk) calls = .ok final)
    : final.Counting td.needed ∧ td.SameSetup final.td := by
  have fits : td.pieceTotal < 2 ^ 31 := by
    have bound := fresh.pieceCount_lt
    omega
  obtain ⟨counting, same, _⟩ :=
    run_induction (Counting · td.needed) fresh
      (fun chunk below => fresh.pieceOf_fits divides below)
      (fun _ _ allowed => allowed.1) (Counting.start fresh disk)
      (fun state call chunk result ready same counting allowed named below step =>
        counting.record (by rw [same.pieceCount, same.pieceTotal, exact])
          (by rw [same.pieceTotal]; exact fits) ready (same.addressable addressable) named below
          allowed.2 step)
      guarded run
  exact ⟨counting, same⟩

theorem Counting.all_written_of_complete {needed : Bool} (counting : state.Counting needed)
    (exact : state.td.pieceCount = state.td.pieceTotal)
    (complete : state.td.isComplete = true)
    : ∀ piece < state.td.pieceTotal, state.Written piece := by
  unfold TorrentData.isComplete at complete
  split at complete
  · cases complete
  · have full := of_decide_eq_true complete
    rw [counting.counted, exact] at full
    exact all_written_of_count (Int.ofNat_inj.mp full)

/-- In every run of chunk writes in range, with any data and any outcomes of opening and writing the
files, completion is announced only when every piece was validated and came to the disk, provided
that `piece_count` holds the number of pieces, that the offsets of the files fit, and that each
`fseek` and `fflush` succeeds. Witness: `Counting` is kept by every exit.
-/
theorem completion_never_early (started : td.JustInitialised)
    (divides : 8 * td.chunkSize ∣ td.pieceSize) (exact : td.pieceCount = td.pieceTotal)
    (filesFit : totalSize td.files < 2 ^ 64)
    (seekable : ∀ file ∈ td.files, file.fileSize ≤ 2 ^ 63)
    (inRange : ∀ call ∈ calls, 0 ≤ call.chunkId ∧ call.chunkId < td.chunkCount)
    (lands : ∀ call ∈ calls, ∀ index, (call.env.io index).Lands)
    (run : runSteps (write sha1) (start td disk) calls = .ok final)
    : final.HonestCompletion td.needed := by
  have fresh := started.fresh
  have addressable : td.Addressable :=
    { laidOut := fresh.laidOut filesFit, total_lt := filesFit, fileSize_le := seekable }
  obtain ⟨counting, same⟩ :=
    counting_of_run fresh divides exact addressable ((guarded_of_ids inRange).and_of_mem lands) run
  have bound := final.writtenPieces_card_le
  have exactFinal : final.td.pieceCount = final.td.pieceTotal := by
    rw [same.pieceCount, same.pieceTotal, exact]
  exact
    {
      counted := counting.counted
      once := counting.once
      announced := counting.announced
      bounded := by rw [counting.counted, exactFinal]; omega
      complete := counting.all_written_of_complete exactFinal
      reset := counting.reset
    }

/-- The delivery of a torrent of two pieces, where the file cannot be opened for the first. -/
def deliverWithoutFile : List WriteCall :=
  (deliver 16 [7]).map fun call =>
    if call.chunkId = 7 then
      { call with env := { call.env with io := fun _ => { FileOutcome.good with opens := false } } }
    else call

/-- The run counts the piece that came to the disk, and the download is not complete. -/
theorem completion_never_early_of_two_pieces
    : ∃ final,
        runSteps (write zeroDigest) (start (.ofSingleFile none 16 8 1) (fun _ => none))
            deliverWithoutFile
          = .ok final
        ∧ final.td.completedPieces = 1
        ∧ ¬ final.Written 0
        ∧ final.Written 1
        ∧ final.HonestCompletion true := by
  have passed : returnsWith
      (runSteps (write zeroDigest) (start (.ofSingleFile none 16 8 1) (fun _ => none))
        deliverWithoutFile)
      (fun final =>
        decide (final.td.completedPieces = 1 ∧ ¬ final.Written 0 ∧ final.Written 1)) = true := by
    decide +kernel
  obtain ⟨final, run, observed⟩ := exists_ok_of_returnsWith passed
  obtain ⟨counted, unwritten, written⟩ := of_decide_eq_true observed
  refine ⟨final, run, counted, unwritten, written, ?_⟩
  have ids
      : ∀ call ∈ deliverWithoutFile,
          0 ≤ call.chunkId ∧ call.chunkId < (TorrentData.ofSingleFile none 16 8 1).chunkCount := by
    decide +kernel
  have lands : ∀ call ∈ deliverWithoutFile, ∀ index, (call.env.io index).Lands := by
    intro call member index
    obtain ⟨other, inDelivery, rfl⟩ := List.mem_map.mp member
    split
    · exact ⟨rfl, rfl⟩
    · exact lands_of_good (deliver_good 16 [7] other inDelivery) index
  exact completion_never_early (TorrentData.SingleFileFits.justInitialised (by decide +kernel))
    (by decide +kernel) (by decide +kernel) (by decide +kernel) (by decide +kernel) ids lands run

/-- Deliveries after which the disk takes nothing of what is flushed to it. -/
def deliverToFullDisk (count : Nat) : List WriteCall :=
  (deliver count [7]).map fun call =>
    {
      call with
      env := { call.env with io := fun _ => { FileOutcome.good with flushes := some 0 } }
    }

/-- A disk that is full when the piece is flushed keeps nothing of it, and the download is announced
as complete.
-/
theorem completion_early_of_full_disk
    : ¬ ∀ (sha1 : Bytes → Digest) (td : TorrentData) (disk : Disk) (calls : List WriteCall)
          (final : Download),
        td.JustInitialised
        → 8 * td.chunkSize ∣ td.pieceSize
        → (∀ call ∈ calls, 0 ≤ call.chunkId ∧ call.chunkId < td.chunkCount)
        → runSteps (write sha1) (start td disk) calls = .ok final
        → final.HonestCompletion td.needed := by
  intro claim
  have passed : returnsWith
      (runSteps (write zeroDigest) (start (.ofSingleFile none 8 8 1) (fun _ => none))
        (deliverToFullDisk 8))
      (fun final =>
        final.td.isComplete && decide (0 < final.td.pieceTotal) && !decide (final.Written 0))
      = true := by
    decide +kernel
  obtain ⟨final, run, observed⟩ := exists_ok_of_returnsWith passed
  have honest := claim zeroDigest _ _ _ final
    (TorrentData.SingleFileFits.justInitialised (by decide +kernel))
    (by decide +kernel) (by decide +kernel) run
  simp only [Bool.and_eq_true, Bool.not_eq_true', decide_eq_true_eq, decide_eq_false_iff_not]
    at observed
  exact observed.2 (honest.complete observed.1.1 0 observed.1.2)

/-- Also where all files take what is written to them: a count of `2 ^ 32 + 1` pieces is kept as 1,
so the first piece announces completion.
-/
theorem completion_early_of_wrapped_count
    : ¬ ∀ (sha1 : Bytes → Digest) (td : TorrentData) (disk : Disk) (calls : List WriteCall)
          (final : Download),
        td.JustInitialised
        → 8 * td.chunkSize ∣ td.pieceSize
        → (∀ call ∈ calls, 0 ≤ call.chunkId ∧ call.chunkId < td.chunkCount)
        → (∀ call ∈ calls, ∀ index, call.env.io index = .good)
        → runSteps (write sha1) (start td disk) calls = .ok final
        → final.HonestCompletion td.needed := by
  intro claim
  have passed : returnsWith
      (runSteps (write zeroDigest)
        (start (.ofSingleFile none (2 ^ 35 + 8) 8 1) (fun _ => none)) (deliver 8 [7]))
      (fun final =>
        final.td.isComplete && decide (1 < final.td.pieceTotal) && !decide (final.Written 1))
      = true := by
    decide +kernel
  obtain ⟨final, run, observed⟩ := exists_ok_of_returnsWith passed
  have honest := claim zeroDigest _ _ _ final
    (TorrentData.SingleFileFits.justInitialised (by decide +kernel))
    (by decide +kernel) (deliver_inRange (by decide +kernel)) (deliver_good 8 [7]) run
  simp only [Bool.and_eq_true, Bool.not_eq_true', decide_eq_true_eq, decide_eq_false_iff_not]
    at observed
  exact observed.2 (honest.complete observed.1.1 1 observed.1.2)

end Download

end UvgTorrent

import UvgTorrent.TorrentData.Geometry
import UvgTorrent.TorrentData.PieceFiles

/-! What one `torrent_data_write_chunk` call on an initialized `TorrentData` can do.
`ChunkStep` lists the exits of the function; every invariant is derived from it.
-/

namespace UvgTorrent

open Foundations

namespace TorrentData

variable {sha1 : Bytes → Digest} {td : TorrentData} {disk : Disk}

/-- The buffer of a piece before a chunk is copied into it. -/
def pieceBuffer (td : TorrentData) (piece : Nat) : Bytes :=
  (td.heldPiece piece).getD (List.replicate td.pieceSize 0)

/-- The buffer of a chunk's piece with the chunk's data copied into it. The offset is kept in
an `int`.
-/
def assembledPiece (td : TorrentData) (chunk : Nat) (data : Bytes) : Bytes :=
  overwrite (td.pieceBuffer (td.pieceOf chunk)) (wrap32 (td.offsetInPiece chunk)).toNat data

/-- A chunk that is not refused: it is not complete yet and has the expected length. -/
def Accepts (td : TorrentData) (chunk : Nat) (data : Bytes) : Prop :=
  td.completedBit chunk = false ∧ data.length = td.chunkLength chunk

/-- The chunk is the last one that its piece misses, by the code's own test. -/
def Completes (td : TorrentData) (completed : Bitfield) (chunk : Nat) : Prop :=
  td.pieceDone (completed.setBit chunk 1) (td.pieceOf chunk) = true
  ∧ td.pieceDone completed (td.pieceOf chunk) = false

instance (td : TorrentData) (completed : Bitfield) (chunk : Nat)
    : Decidable (td.Completes completed chunk) :=
  inferInstanceAs (Decidable (_ ∧ _))

/-- The struct after the chunk is marked and its piece taken out of the map. -/
def markChunk (td : TorrentData) (completed : Bitfield) (map : HashMap Bytes) (chunk : Nat)
    : TorrentData :=
  {
    td with
    completed := some (completed.setBit chunk 1)
    data := some (map.get (formatInt (td.pieceOf chunk))).2
  }

/-- The `struct PieceInfo` of a piece in range. -/
def pieceInfoOf (td : TorrentData) (piece : Nat) : PieceInfo :=
  {
    pieceId := piece
    pieceSize := td.pieceLength piece
    pieceOffset := td.pieceSize * piece
  }

/-- The struct after a chunk is stored in the held buffer of its piece. -/
def holdChunk (td : TorrentData) (completed : Bitfield) (map : HashMap Bytes) (chunk : Nat)
    (piece : Bytes)
    : TorrentData :=
  ((td.markChunk completed map chunk).holdPiece (map.get (formatInt (td.pieceOf chunk))).2
    (formatInt (td.pieceOf chunk)) piece).countDownloaded (td.chunkLength chunk)

/-- The struct after a piece is on disk and counted. -/
def countPiece (td : TorrentData) (files : List TorrentDataFileInfo) (size : Nat)
    : TorrentData :=
  let counted := { td with files, completedPieces := wrap32 (td.completedPieces + 1) }
  (if counted.isComplete then { counted with needed := false } else counted).countDownloaded size

/-- The chunk is taken in: it is accepted, its key fits `piece_key`, its piece has a buffer,
and the `memcpy` stays inside it.
-/
structure Stores (td : TorrentData) (completed : Bitfield) (map : HashMap Bytes) (chunk : Nat)
    (data : Bytes)
    : Prop where
  accepted : td.Accepts chunk data
  field : td.completed = some completed
  pieces : td.data = some map
  keyFits : td.pieceOf chunk < 10 ^ 9
  bufferFits : td.pieceSize < 2 ^ 63
  offsetFits : 0 ≤ wrap32 (td.offsetInPiece chunk)
  copyFits : (wrap32 (td.offsetInPiece chunk)).toNat + data.length ≤ td.pieceSize

/-- The chunk completes its piece and `torrent_data_validate_piece` answers. -/
structure Judged (sha1 : Bytes → Digest) (td : TorrentData) (completed : Bitfield)
    (map : HashMap Bytes) (chunk : Nat) (data : Bytes) (verdict : Exit)
    : Prop where
  stores : td.Stores completed map chunk data
  completes : td.Completes completed chunk
  validated
    : td.validatePiece sha1 (td.pieceInfoOf (td.pieceOf chunk)) (td.assembledPiece chunk data)
      = .ok verdict

/-- The file loop on the assembled piece of a chunk. -/
def writeAssembled (td : TorrentData) (disk : Disk) (chunk : Nat) (data : Bytes)
    (io : Nat → FileOutcome)
    : Except Fault WriteLoop :=
  writePiece io (td.assembledPiece chunk data) (td.pieceSize * td.pieceOf chunk)
    (td.pieceLength (td.pieceOf chunk)) 0 td.files 0 disk

/-- The report on the piece of a chunk. -/
def reportOf (td : TorrentData) (chunk : Nat) (data : Bytes) (verdict : Exit)
    (reached : List DiskWrite)
    : PieceReport :=
  {
    pieceId := td.pieceOf chunk
    piece := td.assembledPiece chunk data
    verdict
    reached
  }

/-- The exits of `torrent_data_write_chunk` for a chunk in range. -/
inductive ChunkStep (sha1 : Bytes → Digest) (td : TorrentData) (disk : Disk) (chunk : Nat)
    (data : Bytes) (io : Nat → FileOutcome)
    : WriteResult → Prop
  | refused (reason : ¬ td.Accepts chunk data)
    : ChunkStep sha1 td disk chunk data io
        { td, disk, exit := .failure, report := none }
  | held {completed map} (stores : td.Stores completed map chunk data)
    (unfinished : ¬ td.Completes completed chunk)
    : ChunkStep sha1 td disk chunk data io
        {
          td := td.holdChunk completed map chunk (td.assembledPiece chunk data)
          disk
          exit := .failure
          report := none
        }
  | rejected {completed map} (judged : td.Judged sha1 completed map chunk data .failure)
    : ChunkStep sha1 td disk chunk data io
        {
          td := td.holdChunk completed map chunk (td.assembledPiece chunk data)
          disk
          exit := .failure
          report := some (td.reportOf chunk data .failure [])
        }
  | abandoned {completed map loop} (judged : td.Judged sha1 completed map chunk data .success)
    (ran : td.writeAssembled disk chunk data io = .ok loop)
    (stopped : loop.thrown = true ∨ loop.dataWritten ≠ td.pieceLength (td.pieceOf chunk))
    : ChunkStep sha1 td disk chunk data io
        {
          td := { td.markChunk completed map chunk with files := loop.files }
          disk := loop.disk
          exit := .failure
          report := some (td.reportOf chunk data .success loop.reached)
        }
  | finished {completed map loop} (judged : td.Judged sha1 completed map chunk data .success)
    (ran : td.writeAssembled disk chunk data io = .ok loop)
    (notThrown : loop.thrown = false)
    (whole : loop.dataWritten = td.pieceLength (td.pieceOf chunk))
    : ChunkStep sha1 td disk chunk data io
        {
          td := (td.markChunk completed map chunk).countPiece loop.files (td.chunkLength chunk)
          disk := loop.disk
          exit := .success
          report := some (td.reportOf chunk data .success loop.reached)
        }

theorem completedBit_eq {completed : Bitfield} (field : td.completed = some completed)
    (chunk : Nat)
    : td.completedBit chunk = completed.bit chunk := by
  simp [completedBit, field]

/-- Marking a chunk keeps everything that the completeness test reads besides the field. -/
theorem markChunk_initialised (ready : td.Initialised) {completed : Bitfield}
    {map : HashMap Bytes} (field : td.completed = some completed)
    (pieces : td.data = some map) {chunk : Nat} (inRange : chunk < td.chunkTotal)
    : (td.markChunk completed map chunk).Initialised := by
  obtain ⟨other, same, counted, spare⟩ := ready.completed_field
  obtain rfl : other = completed := Option.some.inj (same.symm.trans field)
  have chunks := ready.chunkTotal_lt
  refine { ready with completed_field := ?_, data_map := ?_ }
  · exact ⟨_, rfl, by simpa [ChunkField, chunkTotal, markChunk] using counted,
      spare.setBit_one (by omega) (by omega)⟩
  · obtain ⟨_, same, sized⟩ := ready.data_map
    obtain rfl := Option.some.inj (same.symm.trans pieces)
    refine ⟨_, rfl, ?_⟩
    intro key buffer found
    rw [HashMap.find_get_snd] at found
    split at found
    · cases found
    · exact sized key buffer found

/-- The buffer of a piece has the piece size. -/
theorem pieceBuffer_length (ready : td.Initialised) (piece : Nat)
    : (td.pieceBuffer piece).length = td.pieceSize := by
  obtain ⟨map, pieces, sized⟩ := ready.data_map
  unfold pieceBuffer heldPiece
  rw [pieces, Option.bind_some]
  cases found : map.find (formatInt piece) with
  | none => simp
  | some buffer => exact (sized _ buffer found).1

/-- `takePiece` hands out the buffer of a piece whose key fits. -/
theorem takePiece_eq {map : HashMap Bytes} (pieces : td.data = some map) {piece : Nat}
    (keyFits : piece < 10 ^ 9) (bufferFits : td.pieceSize < 2 ^ 63)
    : td.takePiece piece = .ok (td.pieceBuffer piece, (map.get (formatInt piece)).2) := by
  have short : ¬ 10 < (formatInt piece).length + 1 := by
    have digits := formatInt_length_le keyFits
    omega
  simp only [takePiece, pieces, short, if_false, pieceBuffer, heldPiece, Option.bind_some,
    ← HashMap.get_fst]
  cases taken : map.get (formatInt piece) with
  | mk held rest =>
      cases held with
      | none => simp only [bufferFits, if_true, Option.getD_none]
      | some buffer => rfl

/-- Without a buffer in the map, a piece too large for `malloc` is a fault. -/
theorem takePiece_nullPointer (ready : td.Initialised) {piece : Nat}
    (keyFits : piece < 10 ^ 9) (large : 2 ^ 63 ≤ td.pieceSize)
    : td.takePiece piece = .error .nullPointer := by
  obtain ⟨map, pieces, sized⟩ := ready.data_map
  have short : ¬ 10 < (formatInt piece).length + 1 := by
    have digits := formatInt_length_le keyFits
    omega
  have unheld : (map.get (formatInt piece)).1 = none := by
    rw [HashMap.get_fst]
    cases found : map.find (formatInt piece) with
    | none => rfl
    | some buffer => exact absurd (sized _ buffer found).2 (Nat.not_lt.mpr large)
  have unfit : ¬ td.pieceSize < 2 ^ 63 := Nat.not_lt.mpr large
  simp only [takePiece, pieces, short, if_false]
  cases taken : map.get (formatInt piece) with
  | mk held rest =>
      rw [taken] at unheld
      cases held with
      | none => simp only [unfit, if_false]
      | some buffer => cases unheld

theorem takePiece_keyBounds {piece : Nat} (large : 10 ^ 9 ≤ piece)
    : td.takePiece piece = .error .keyBounds := by
  have long : 10 < (formatInt piece).length + 1 := Nat.succ_lt_succ (formatInt_length_gt large)
  simp only [takePiece, long, if_true]

/-- The `memcpy` of a chunk in range, by its offset in the piece. -/
theorem copyChunk_eq (ready : td.Initialised) {chunk : Nat} (inRange : chunk < td.chunkTotal)
    (data : Bytes)
    : copyChunk (td.pieceBuffer (td.pieceOf chunk)) data (td.chunkSize * chunk)
        (td.pieceSize * td.pieceOf chunk)
      = if wrap32 (td.offsetInPiece chunk) < 0
            ∨ (td.pieceSize : Int) < wrap32 (td.offsetInPiece chunk) + data.length then
          .error .pieceBounds
        else .ok (td.assembledPiece chunk data) := by
  have start := ready.chunkStart_lt chunk inRange
  have offset : u64Sub (td.chunkSize * chunk) (td.pieceSize * td.pieceOf chunk)
      = td.offsetInPiece chunk :=
    u64Sub_of_le (td.pieceStart_le chunk) (Nat.lt_trans start ready.dataSize_lt)
  rw [copyChunk, offset, pieceBuffer_length ready, assembledPiece]

/-- A refused chunk changes nothing. -/
theorem writeChunk_refused (ready : td.Initialised) {chunk : Nat}
    (inRange : chunk < td.chunkTotal) {data : Bytes} (reason : ¬ td.Accepts chunk data)
    (env : WriteEnv)
    : td.writeChunk sha1 disk chunk data env
      = .ok { td, disk, exit := .failure, report := none } := by
  obtain ⟨completed, field, counted, _⟩ := ready.completed_field
  have bitRead : completed.getBit chunk = .ok (completed.bit chunk) :=
    Bitfield.getBit_of_lt (by omega)
  simp only [writeChunk, field]
  refine (bind_of_ok bitRead _).trans ?_
  split
  · rfl
  · rename_i missing
    refine (bind_of_ok (ready.getChunkInfo_eq inRange _) _).trans (if_pos ?_)
    intro sameLength
    apply reason
    exact ⟨(completedBit_eq field chunk).trans (Bool.eq_false_iff.mpr missing), sameLength⟩

/-- An accepted chunk goes on to its piece buffer. -/
private theorem writeChunk_accepted (ready : td.Initialised) {chunk : Nat}
    (inRange : chunk < td.chunkTotal) {data : Bytes} (accepted : td.Accepts chunk data)
    {completed : Bitfield} (field : td.completed = some completed) (env : WriteEnv)
    : td.writeChunk sha1 disk chunk data env
      = (td.takePiece (td.pieceOf chunk)).bind fun (piece, map) =>
          (copyChunk piece data (td.chunkSize * chunk) (td.pieceSize * td.pieceOf chunk)).bind
            fun piece =>
              (td.isPieceComplete (td.pieceOf chunk) env.stack).bind fun before =>
                let marked :=
                  { td with completed := some (completed.setBit chunk 1), data := some map }
                (marked.isPieceComplete (td.pieceOf chunk) env.stack).bind fun after =>
                  if after ∧ ¬ before then
                    finishPiece sha1 marked disk map (formatInt (td.pieceOf chunk))
                      (td.pieceInfoOf (td.pieceOf chunk)) piece (td.chunkLength chunk) env.io
                  else
                    .ok
                      {
                        td := (marked.holdPiece map (formatInt (td.pieceOf chunk))
                          piece).countDownloaded (td.chunkLength chunk)
                        disk
                        exit := .failure
                        report := none
                      } := by
  obtain ⟨other, same, counted, _⟩ := ready.completed_field
  obtain rfl : other = completed := Option.some.inj (same.symm.trans field)
  have bitRead : other.getBit chunk = .ok (other.bit chunk) :=
    Bitfield.getBit_of_lt (by omega)
  have missing : ¬ other.bit chunk = true := by
    rw [← completedBit_eq field, accepted.1]
    exact Bool.false_ne_true
  have info := ready.getPieceInfo_eq (ready.pieceOf_lt inRange)
    (ready.pieceOf_fits chunk inRange) env.stack.pieceInfo
  simp only [writeChunk, field]
  refine (bind_of_ok bitRead _).trans ((if_neg missing).trans ?_)
  refine (bind_of_ok (ready.getChunkInfo_eq inRange _) _).trans ?_
  refine (if_neg (not_not.mpr accepted.2)).trans ?_
  simp only [info, pieceInfoOf]

/-- The three ways out of a piece that has become complete. -/
theorem finishPiece_cases {map : HashMap Bytes} {pieceKey : CString}
    {pieceInfo : PieceInfo} {piece : Bytes} {chunkSize : Nat} {io : Nat → FileOutcome}
    {result : WriteResult}
    (done : finishPiece sha1 td disk map pieceKey pieceInfo piece chunkSize io = .ok result)
    : (td.validatePiece sha1 pieceInfo piece = .ok .failure
        ∧ result
          = {
              td := (td.holdPiece map pieceKey piece).countDownloaded chunkSize
              disk
              exit := .failure
              report := some
                { pieceId := pieceInfo.pieceId, piece, verdict := .failure, reached := [] }
            })
      ∨ ∃ loop,
          td.validatePiece sha1 pieceInfo piece = .ok .success
          ∧ writePiece io piece pieceInfo.pieceOffset pieceInfo.pieceSize 0 td.files 0 disk
            = .ok loop
          ∧ (((loop.thrown = true ∨ loop.dataWritten ≠ pieceInfo.pieceSize)
              ∧ result
                = {
                    td := { td with files := loop.files }
                    disk := loop.disk
                    exit := .failure
                    report := some
                      {
                        pieceId := pieceInfo.pieceId
                        piece
                        verdict := .success
                        reached := loop.reached
                      }
                  })
            ∨ (loop.thrown = false
              ∧ loop.dataWritten = pieceInfo.pieceSize
              ∧ result
                = {
                    td := td.countPiece loop.files chunkSize
                    disk := loop.disk
                    exit := .success
                    report := some
                      {
                        pieceId := pieceInfo.pieceId
                        piece
                        verdict := .success
                        reached := loop.reached
                      }
                  })) := by
  unfold finishPiece at done
  obtain ⟨verdict, validated, done⟩ := bind_eq_ok.mp done
  cases verdict with
  | failure => exact .inl ⟨validated, (Except.ok.inj done).symm⟩
  | success =>
      obtain ⟨loop, ran, done⟩ := bind_eq_ok.mp done
      refine .inr ⟨loop, validated, ran, ?_⟩
      dsimp only at done
      split at done
      · rename_i stopped
        exact .inl ⟨stopped, (Except.ok.inj done).symm⟩
      · rename_i whole
        simp only [not_or, not_not] at whole
        exact .inr ⟨Bool.eq_false_iff.mpr whole.1, whole.2, (Except.ok.inj done).symm⟩

/-- A piece that validates and whose file loop returns is finished without a fault. -/
theorem finishPiece_returns {map : HashMap Bytes} {pieceKey : CString}
    {pieceInfo : PieceInfo} {piece : Bytes} {chunkSize : Nat} {io : Nat → FileOutcome}
    {loop : WriteLoop} (validated : td.validatePiece sha1 pieceInfo piece = .ok .success)
    (ran
      : writePiece io piece pieceInfo.pieceOffset pieceInfo.pieceSize 0 td.files 0 disk
        = .ok loop)
    : ∃ result,
        finishPiece sha1 td disk map pieceKey pieceInfo piece chunkSize io = .ok result := by
  unfold finishPiece
  rw [bind_of_ok validated, bind_of_ok ran]
  dsimp only
  split <;> exact ⟨_, rfl⟩

/-- A piece that validates and comes to its files is counted. -/
theorem finishPiece_counts {map : HashMap Bytes} {pieceKey : CString}
    {pieceInfo : PieceInfo} {piece : Bytes} {chunkSize : Nat} {io : Nat → FileOutcome}
    {loop : WriteLoop} (validated : td.validatePiece sha1 pieceInfo piece = .ok .success)
    (ran
      : writePiece io piece pieceInfo.pieceOffset pieceInfo.pieceSize 0 td.files 0 disk
        = .ok loop)
    (notThrown : loop.thrown = false) (whole : loop.dataWritten = pieceInfo.pieceSize)
    : ∃ report,
        finishPiece sha1 td disk map pieceKey pieceInfo piece chunkSize io
        = .ok
          {
            td := td.countPiece loop.files chunkSize
            disk := loop.disk
            exit := .success
            report
          } := by
  obtain ⟨result, done⟩ :=
    @finishPiece_returns sha1 td disk map pieceKey pieceInfo piece chunkSize io loop validated ran
  rcases finishPiece_cases done with ⟨rejected, _⟩ | ⟨other, _, ranAgain, ends⟩
  · rw [validated] at rejected
    cases rejected
  · cases ran.symm.trans ranAgain
    rcases ends with ⟨thrown | short, _⟩ | ⟨_, _, same⟩
    · rw [notThrown] at thrown
      cases thrown
    · exact absurd whole short
    · exact ⟨_, done.trans (congrArg Except.ok same)⟩

/-- The fault of an accepted chunk whose piece key, buffer or `memcpy` does not fit. -/
def storeFault (td : TorrentData) (chunk : Nat) : Fault :=
  if td.pieceOf chunk < 10 ^ 9 then
    if td.pieceSize < 2 ^ 63 then .pieceBounds else .nullPointer
  else .keyBounds

/-- An accepted chunk that cannot be taken in is a fault. -/
theorem writeChunk_fault (ready : td.Initialised) {chunk : Nat}
    (inRange : chunk < td.chunkTotal) {data : Bytes} (accepted : td.Accepts chunk data)
    {completed : Bitfield} {map : HashMap Bytes} (field : td.completed = some completed)
    (pieces : td.data = some map) (unfit : ¬ td.Stores completed map chunk data)
    (env : WriteEnv)
    : td.writeChunk sha1 disk chunk data env = .error (td.storeFault chunk) := by
  rw [writeChunk_accepted ready inRange accepted field, storeFault]
  split
  · rename_i keyFits
    split
    · rename_i bufferFits
      refine (bind_of_ok (takePiece_eq pieces keyFits bufferFits) _).trans ?_
      refine bind_of_error ((copyChunk_eq ready inRange data).trans (if_pos ?_)) _
      by_contra inside
      simp only [not_or, Int.not_lt] at inside
      have copyFits (offset : Int) (nonneg : 0 ≤ offset)
          (within : offset + data.length ≤ td.pieceSize)
          : offset.toNat + data.length ≤ td.pieceSize := by
        omega
      exact unfit
        {
          accepted
          field
          pieces
          keyFits
          bufferFits
          offsetFits := inside.1
          copyFits := copyFits _ inside.1 inside.2
        }
    · rename_i large
      exact bind_of_error (takePiece_nullPointer ready keyFits (Nat.le_of_not_lt large)) _
  · rename_i large
    exact bind_of_error (takePiece_keyBounds (Nat.le_of_not_lt large)) _

/-- A chunk that is taken in either finishes its piece or is held. -/
theorem writeChunk_of_stores (ready : td.Initialised) {chunk : Nat}
    (inRange : chunk < td.chunkTotal) {data : Bytes} {completed : Bitfield}
    {map : HashMap Bytes} (stores : td.Stores completed map chunk data) (env : WriteEnv)
    : td.writeChunk sha1 disk chunk data env
      = if td.Completes completed chunk then
          finishPiece sha1 (td.markChunk completed map chunk) disk
            (map.get (formatInt (td.pieceOf chunk))).2 (formatInt (td.pieceOf chunk))
            (td.pieceInfoOf (td.pieceOf chunk)) (td.assembledPiece chunk data)
            (td.chunkLength chunk) env.io
        else
          .ok
            {
              td := td.holdChunk completed map chunk (td.assembledPiece chunk data)
              disk
              exit := .failure
              report := none
            } := by
  obtain ⟨accepted, field, pieces, keyFits, bufferFits, offsetFits, copyFits⟩ := stores
  have pieceInRange := ready.pieceOf_lt inRange
  have pieceFits := ready.pieceOf_fits chunk inRange
  have marked := markChunk_initialised ready field pieces inRange
  have inside (offset : Int) (nonneg : 0 ≤ offset)
      (within : offset.toNat + data.length ≤ td.pieceSize)
      : ¬ (offset < 0 ∨ (td.pieceSize : Int) < offset + data.length) := by
    omega
  rw [writeChunk_accepted ready inRange accepted field]
  refine (bind_of_ok (takePiece_eq pieces keyFits bufferFits) _).trans ?_
  refine (bind_of_ok ((copyChunk_eq ready inRange data).trans
    (if_neg (inside _ offsetFits copyFits))) _).trans ?_
  refine (bind_of_ok (ready.isPieceComplete_eq pieceInRange field env.stack) _).trans ?_
  refine (bind_of_ok (marked.isPieceComplete_eq pieceInRange rfl env.stack) _).trans ?_
  refine if_congr ?_ rfl rfl
  exact and_congr Iff.rfl Bool.eq_false_iff.symm

/-- Every return of `torrent_data_write_chunk` for a chunk in range is one of the exits. -/
theorem writeChunk_step (ready : td.Initialised) {chunk : Nat}
    (inRange : chunk < td.chunkTotal) {data : Bytes} {env : WriteEnv} {result : WriteResult}
    (wrote : td.writeChunk sha1 disk chunk data env = .ok result)
    : ChunkStep sha1 td disk chunk data env.io result := by
  obtain ⟨completed, field, _⟩ := ready.completed_field
  obtain ⟨map, pieces, _⟩ := ready.data_map
  by_cases accepted : td.Accepts chunk data
  · by_cases stores : td.Stores completed map chunk data
    · rw [writeChunk_of_stores ready inRange stores] at wrote
      split at wrote
      · rename_i completes
        rcases finishPiece_cases wrote with ⟨validated, same⟩ | ⟨loop, validated, ran, exits⟩
        · rw [same]
          exact .rejected { stores, completes, validated }
        · rcases exits with ⟨stopped, same⟩ | ⟨notThrown, whole, same⟩
          · rw [same]
            exact .abandoned { stores, completes, validated } ran stopped
          · rw [same]
            exact .finished { stores, completes, validated } ran notThrown whole
      · rename_i unfinished
        rw [← Except.ok.inj wrote]
        exact .held stores unfinished
    · rw [writeChunk_fault ready inRange accepted field pieces stores] at wrote
      cases wrote
  · rw [writeChunk_refused ready inRange accepted] at wrote
    rw [← Except.ok.inj wrote]
    exact .refused accepted

-----------------------------------------------------------------------------------------
-- Data of one chunk
-----------------------------------------------------------------------------------------

/-- The data is one chunk that is missing, in one file without a stream. -/
def isOneChunk (td : TorrentData) (path : CString) (size : Nat) (stack : Stack) : Bool :=
  td.completed.any (fun completed =>
    returnsWith (completed.getBit 0) (!·)
    && returnsWith (td.isPieceComplete 0 stack) (!·)
    && returnsWith (isPieceComplete { td with completed := some (completed.setBit 0 1) } 0 stack)
      (·))
  && td.data.any (fun map => (map.get (formatInt 0)).1.isNone)
  && returnsWith (td.getChunkInfo 0 stack.chunkInfo)
    (·.2 = { chunkId := 0, pieceId := 0, chunkSize := size, chunkOffset := 0 })
  && (td.getPieceInfo 0 stack.pieceInfo).2 = { pieceId := 0, pieceSize := size, pieceOffset := 0 }
  && td.files = [{ fp := none, filePath := path, fileOffset := 0, fileSize := size }]
  && size ≤ td.pieceSize
  && td.pieceSize < 2 ^ 31

/-- The struct after this chunk is stored. -/
def withOneChunk (td : TorrentData) (path : CString) (size : Nat) : TorrentData :=
  countPiece
    {
      td with
      completed := td.completed.map (·.setBit 0 1)
      data := td.data.map fun map => (map.get (formatInt 0)).2
    }
    [{ fp := some size, filePath := path, fileOffset := 0, fileSize := size }] size

/-- Data that is as long as the buffer or shorter is copied to its beginning. -/
theorem copyChunk_begins {size : Nat} {data : Bytes} (fits : data.length ≤ size)
    : copyChunk (List.replicate size 0) data 0 0
      = .ok (data ++ List.replicate (size - data.length) 0) := by
  have start : wrap32 (u64Sub 0 0 : Nat) = 0 := rfl
  have inside
      : ¬ ((0 : Int) < 0
          ∨ ((List.replicate size (0 : UInt8)).length : Int) < 0 + data.length) := by
    rw [List.length_replicate]
    omega
  rw [copyChunk, start, if_neg inside]
  simp [overwrite]

/-- The only chunk of the data is stored in its new file. -/
theorem writeChunk_oneChunk {path : CString} {data : Bytes} {stack : Stack}
    (one : td.isOneChunk path data.length stack = true) (nonempty : data ≠ [])
    (valid
      : ∀ piece,
          td.validatePiece sha1 { pieceId := 0, pieceSize := data.length, pieceOffset := 0 } piece
          = .ok .success)
    (absent : disk path = none)
    : ∃ report,
        td.writeChunk sha1 disk 0 data { io := fun _ => .good, stack }
        = .ok
          {
            td := td.withOneChunk path data.length
            disk := Function.update disk path (some data)
            exit := .success
            report
          } := by
  simp only [isOneChunk, Bool.and_eq_true, Option.any_eq_true, decide_eq_true_eq] at one
  obtain ⟨⟨⟨⟨⟨⟨⟨completed, field, ⟨missing, before⟩, after⟩, map, pieces, fresh⟩, chunk⟩, piece⟩,
    files⟩, fits⟩, bounded⟩ := one
  obtain ⟨done, missing, notDone⟩ := exists_ok_of_returnsWith missing
  obtain ⟨wasComplete, before, incomplete⟩ := exists_ok_of_returnsWith before
  obtain ⟨complete, after, whole⟩ := exists_ok_of_returnsWith after
  obtain ⟨⟨exit, info⟩, chunk, same⟩ := exists_ok_of_returnsWith chunk
  simp only [Bool.not_eq_true', decide_eq_true_eq] at notDone incomplete whole same
  subst notDone incomplete whole same
  have small : data.length < 2 ^ 31 := Nat.lt_of_le_of_lt fits bounded
  have buffer : td.pieceBuffer 0 = List.replicate td.pieceSize 0 := by
    rw [pieceBuffer, heldPiece, pieces, Option.bind_some, ← HashMap.get_fst]
    rw [show (map.get (formatInt (0 : Nat))).1 = none from Option.isNone_iff_eq_none.mp fresh]
    rfl
  have taken
      : td.takePiece 0 = .ok (List.replicate td.pieceSize 0, (map.get (formatInt 0)).2) := by
    rw [← buffer]
    exact @takePiece_eq td map pieces 0 (by decide) (by omega)
  obtain ⟨reached, wrote⟩ :=
    @writePiece_new data (List.replicate (td.pieceSize - data.length) 0) path disk nonempty small
      absent
  let marked : TorrentData :=
    { td with completed := some (completed.setBit 0 1), data := some (map.get (formatInt 0)).2 }
  have wroteFiles : writePiece (fun _ => .good) _ 0 data.length 0 marked.files 0 disk = .ok _ :=
    (congrArg (fun files => writePiece _ _ 0 data.length 0 files 0 disk) files).trans wrote
  obtain ⟨report, finished⟩ :=
    @finishPiece_counts sha1 marked disk (map.get (formatInt 0)).2 (formatInt 0) _ _ data.length _ _
      (valid _) wroteFiles rfl rfl
  refine ⟨report, ?_⟩
  simp only [writeChunk, field]
  refine (bind_of_ok missing _).trans ((if_neg Bool.false_ne_true).trans ?_)
  refine (bind_of_ok chunk _).trans ?_
  dsimp only
  rw [piece, if_neg (not_not.mpr rfl), bind_of_ok taken]
  dsimp only
  refine (bind_of_ok (copyChunk_begins fits) _).trans ?_
  refine (bind_of_ok before _).trans ((bind_of_ok after _).trans ?_)
  refine (if_pos ⟨rfl, Bool.false_ne_true⟩).trans (finished.trans ?_)
  rw [withOneChunk, field, pieces]
  rfl

end TorrentData

end UvgTorrent

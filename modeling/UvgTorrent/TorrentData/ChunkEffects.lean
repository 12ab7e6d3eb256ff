import UvgTorrent.TorrentData.ChunkSteps

/-! The effects of `torrent_data_write_chunk` that every property of a run starts from: what
no exit changes, which bit an accepted chunk sets, and what happens to the held buffers.
-/

namespace UvgTorrent

open Foundations

namespace TorrentData

variable {sha1 : Bytes → Digest} {td next : TorrentData} {disk : Disk} {chunk : Nat}
  {data : Bytes} {io : Nat → FileOutcome} {result : WriteResult} {completed : Bitfield}
  {map : HashMap Bytes}

/-- What no `torrent_data_write_chunk` call changes. -/
structure SameSetup (td next : TorrentData) : Prop where
  initialized : next.initialized = td.initialized
  chunkSize : next.chunkSize = td.chunkSize
  pieceSize : next.pieceSize = td.pieceSize
  dataSize : next.dataSize = td.dataSize
  chunkCount : next.chunkCount = td.chunkCount
  pieceCount : next.pieceCount = td.pieceCount
  sha1Hashes : next.sha1Hashes = td.sha1Hashes
  claims : next.claims = td.claims
  claimed : next.claimed = td.claimed
  layout
    : next.files.map TorrentDataFileInfo.layout = td.files.map TorrentDataFileInfo.layout

namespace SameSetup

theorem refl (td : TorrentData) : td.SameSetup td :=
  ⟨rfl, rfl, rfl, rfl, rfl, rfl, rfl, rfl, rfl, rfl⟩

theorem trans {last : TorrentData} (first : td.SameSetup next) (second : next.SameSetup last)
    : td.SameSetup last :=
  ⟨second.initialized.trans first.initialized, second.chunkSize.trans first.chunkSize,
    second.pieceSize.trans first.pieceSize, second.dataSize.trans first.dataSize,
    second.chunkCount.trans first.chunkCount, second.pieceCount.trans first.pieceCount,
    second.sha1Hashes.trans first.sha1Hashes, second.claims.trans first.claims,
    second.claimed.trans first.claimed, second.layout.trans first.layout⟩

theorem chunkTotal (same : td.SameSetup next) : next.chunkTotal = td.chunkTotal := by
  simp [TorrentData.chunkTotal, same.chunkCount]

theorem pieceTotal (same : td.SameSetup next) : next.pieceTotal = td.pieceTotal := by
  simp [TorrentData.pieceTotal, same.dataSize, same.pieceSize]

theorem chunkLength (same : td.SameSetup next) : next.chunkLength = td.chunkLength := by
  funext chunk
  simp [TorrentData.chunkLength, same.dataSize, same.chunkSize]

theorem pieceLength (same : td.SameSetup next) : next.pieceLength = td.pieceLength := by
  funext piece
  simp [TorrentData.pieceLength, same.dataSize, same.pieceSize]

theorem pieceOf (same : td.SameSetup next) : next.pieceOf = td.pieceOf := by
  funext chunk
  simp [TorrentData.pieceOf, same.chunkSize, same.pieceSize]

theorem pieceDone (same : td.SameSetup next) : next.pieceDone = td.pieceDone := by
  have uints : next.uintsPerPiece = td.uintsPerPiece := by
    simp [uintsPerPiece, same.chunkSize, same.pieceSize]
  funext completed piece
  rw [TorrentData.pieceDone, TorrentData.pieceDone, uints]

theorem aligned (same : td.SameSetup next) (aligned : td.Aligned) : next.Aligned := by
  obtain ⟨divides, fits⟩ := aligned
  exact ⟨by rwa [same.chunkSize, same.pieceSize], by rwa [same.chunkSize, same.pieceSize]⟩

theorem exactCounts (same : td.SameSetup next) (exact : td.ExactCounts) : next.ExactCounts := by
  obtain ⟨chunks, pieces, fits⟩ := exact
  exact ⟨by rwa [same.chunkTotal, same.dataSize, same.chunkSize],
    by rwa [same.pieceCount, same.pieceTotal], by rwa [same.pieceTotal]⟩

/-- The setup facts of an initialized struct carry over; the mutable fields are given. -/
theorem initialised (same : td.SameSetup next) (ready : td.Initialised)
    (completed_field : ∃ field, next.completed = some field ∧ td.ChunkField field)
    (data_map
      : ∃ map,
          next.data = some map
          ∧ ∀ key buffer,
              map.find key = some buffer → buffer.length = td.pieceSize ∧ td.pieceSize < 2 ^ 63)
    : next.Initialised := by
  refine
    {
      initialized := same.initialized.trans ready.initialized
      chunkSize_pos := by simpa [same.chunkSize] using ready.chunkSize_pos
      pieceSize_pos := by simpa [same.pieceSize] using ready.pieceSize_pos
      pieceSize_lt := by simpa [same.pieceSize] using ready.pieceSize_lt
      dataSize_lt := by simpa [same.dataSize] using ready.dataSize_lt
      chunkTotal_lt := by simpa [same.chunkTotal] using ready.chunkTotal_lt
      chunkStart_lt := by
        simpa [same.chunkTotal, same.chunkSize, same.dataSize] using ready.chunkStart_lt
      pieceOf_fits := by simpa [same.chunkTotal, same.pieceOf] using ready.pieceOf_fits
      completed_field := ?_
      claimed_field := ?_
      data_map := ?_
    }
  · simpa [ChunkField, same.chunkTotal] using completed_field
  · simpa [ChunkField, same.chunkTotal, same.claimed] using ready.claimed_field
  · simpa [same.pieceSize] using data_map

end SameSetup

/-- The assembled buffer keeps the piece size. -/
theorem Stores.assembled_length (stores : td.Stores completed map chunk data)
    (ready : td.Initialised)
    : (td.assembledPiece chunk data).length = td.pieceSize := by
  have sized := pieceBuffer_length ready (td.pieceOf chunk)
  rw [assembledPiece, overwrite_length (by rw [sized]; exact stores.copyFits), sized]

@[simp] theorem countPiece_completed (td : TorrentData) (files : List TorrentDataFileInfo)
    (size : Nat)
    : (td.countPiece files size).completed = td.completed := by
  unfold countPiece countDownloaded
  dsimp only
  split <;> rfl

@[simp] theorem countPiece_data (td : TorrentData) (files : List TorrentDataFileInfo)
    (size : Nat)
    : (td.countPiece files size).data = td.data := by
  unfold countPiece countDownloaded
  dsimp only
  split <;> rfl

@[simp] theorem countPiece_completedPieces (td : TorrentData)
    (files : List TorrentDataFileInfo) (size : Nat)
    : (td.countPiece files size).completedPieces = wrap32 (td.completedPieces + 1) := by
  unfold countPiece countDownloaded
  dsimp only
  split <;> rfl

/-- Counting a piece resets `needed` only when the count is full. -/
theorem countPiece_needed {files : List TorrentDataFileInfo} {size : Nat}
    (cleared : (td.countPiece files size).needed = false)
    : td.needed = false ∨ wrap32 (td.completedPieces + 1) = td.pieceCount := by
  unfold countPiece countDownloaded at cleared
  dsimp only at cleared
  split at cleared
  · rename_i complete
    unfold isComplete at complete
    split at complete
    · cases complete
    · exact .inr (of_decide_eq_true complete)
  · exact .inl cleared

/-- Counting a piece keeps the setup when the file loop kept the layout. -/
theorem countPiece_setup {files : List TorrentDataFileInfo}
    (layout : files.map TorrentDataFileInfo.layout = td.files.map TorrentDataFileInfo.layout)
    (size : Nat)
    : td.SameSetup (td.countPiece files size) := by
  unfold countPiece countDownloaded
  dsimp only
  split <;> exact ⟨rfl, rfl, rfl, rfl, rfl, rfl, rfl, rfl, rfl, layout⟩

theorem markChunk_setup (td : TorrentData) (completed : Bitfield) (map : HashMap Bytes)
    (chunk : Nat)
    : td.SameSetup (td.markChunk completed map chunk) :=
  ⟨rfl, rfl, rfl, rfl, rfl, rfl, rfl, rfl, rfl, rfl⟩

theorem holdChunk_setup (td : TorrentData) (completed : Bitfield) (map : HashMap Bytes)
    (chunk : Nat) (piece : Bytes)
    : td.SameSetup (td.holdChunk completed map chunk piece) :=
  ⟨rfl, rfl, rfl, rfl, rfl, rfl, rfl, rfl, rfl, rfl⟩

/-- The buffers after the piece of a chunk is taken out of the map. -/
theorem heldPiece_of_taken (pieces : td.data = some map)
    (taken : next.data = some (map.get (formatInt (td.pieceOf chunk))).2) (piece : Nat)
    : next.heldPiece piece = if piece = td.pieceOf chunk then none else td.heldPiece piece := by
  simp only [heldPiece, taken, pieces, Option.bind_some, HashMap.find_get_snd]
  by_cases same : piece = td.pieceOf chunk
  · rw [if_pos same, if_pos (by rw [same])]
  · rw [if_neg same, if_neg (fun keys => same (formatInt_injective keys))]

/-- The buffers after a chunk is held. -/
theorem heldPiece_holdChunk (pieces : td.data = some map) (completed : Bitfield) (chunk : Nat)
    (buffer : Bytes) (piece : Nat)
    : (td.holdChunk completed map chunk buffer).heldPiece piece
      = if piece = td.pieceOf chunk then some buffer else td.heldPiece piece := by
  have stored : (td.holdChunk completed map chunk buffer).data
      = some ((map.get (formatInt (td.pieceOf chunk))).2.set (formatInt (td.pieceOf chunk))
          buffer).2 := rfl
  simp only [heldPiece, stored, pieces, Option.bind_some, HashMap.find_set_get]
  by_cases same : piece = td.pieceOf chunk
  · rw [if_pos same, if_pos (by rw [same])]
  · rw [if_neg same, if_neg (fun keys => same (formatInt_injective keys))]

/-- What a return of `torrent_data_write_chunk` does to a struct in which it has marked a chunk. -/
inductive WriteEnd (marked : TorrentData) : TorrentData → Prop
  | held (map : HashMap Bytes) (size : Nat)
    : WriteEnd marked ({ marked with data := some map }.countDownloaded size)
  | abandoned (files : List TorrentDataFileInfo)
      (layout
        : files.map TorrentDataFileInfo.layout = marked.files.map TorrentDataFileInfo.layout)
    : WriteEnd marked { marked with files }
  | counted (files : List TorrentDataFileInfo) (size : Nat)
      (layout
        : files.map TorrentDataFileInfo.layout = marked.files.map TorrentDataFileInfo.layout)
    : WriteEnd marked (marked.countPiece files size)

/-- The ends of `torrent_data_write_chunk`, for any chunk id and any struct: nothing is changed, or
the chunk that `torrent_data_get_chunk_info` names is marked.
-/
theorem writeChunk_ends {chunkId : Int} {env : WriteEnv}
    (wrote : td.writeChunk sha1 disk chunkId data env = .ok result)
    : result.td = td
      ∨ ∃ field info map,
          td.completed = some field
          ∧ field.getBit chunkId = .ok false
          ∧ td.getChunkInfo chunkId env.stack.chunkInfo = .ok info
          ∧ data.length = info.2.chunkSize
          ∧ WriteEnd
              { td with completed := some (field.setBit info.2.chunkId 1), data := some map }
              result.td := by
  unfold writeChunk at wrote
  cases field : td.completed with
  | none =>
      rw [field] at wrote
      cases wrote
  | some completed =>
      rw [field] at wrote
      obtain ⟨done, read, wrote⟩ := bind_eq_ok.mp wrote
      cases done with
      | true =>
          obtain rfl := Except.ok.inj wrote
          exact .inl rfl
      | false =>
          obtain ⟨info, known, wrote⟩ := bind_eq_ok.mp wrote
          dsimp only at wrote
          split at wrote
          · obtain rfl := Except.ok.inj wrote
            exact .inl rfl
          · rename_i sized
            obtain ⟨taken, _, wrote⟩ := bind_eq_ok.mp wrote
            obtain ⟨piece, _, wrote⟩ := bind_eq_ok.mp wrote
            obtain ⟨before, _, wrote⟩ := bind_eq_ok.mp wrote
            obtain ⟨after, _, wrote⟩ := bind_eq_ok.mp wrote
            refine .inr ⟨completed, info, taken.2, rfl, read, known, not_not.mp sized, ?_⟩
            split at wrote
            · rcases finishPiece_cases wrote with ⟨_, rfl⟩ | ⟨loop, _, ran, exits⟩
              · exact .held _ _
              · rcases exits with ⟨_, rfl⟩ | ⟨_, _, rfl⟩
                · exact .abandoned _ (writePiece_layout ran)
                · exact .counted _ _ (writePiece_layout ran)
            · obtain rfl := Except.ok.inj wrote
              exact .held _ _

namespace WriteEnd

variable {marked : TorrentData}

theorem setup (ended : WriteEnd marked next) : marked.SameSetup next := by
  cases ended with
  | held map size => exact ⟨rfl, rfl, rfl, rfl, rfl, rfl, rfl, rfl, rfl, rfl⟩
  | abandoned files layout => exact ⟨rfl, rfl, rfl, rfl, rfl, rfl, rfl, rfl, rfl, layout⟩
  | counted files size layout => exact countPiece_setup layout size

theorem keepsMarks (ended : WriteEnd marked next) : next.completed = marked.completed := by
  cases ended with
  | held map size => rfl
  | abandoned files layout => rfl
  | counted files size layout => exact countPiece_completed ..

theorem filesSize (ended : WriteEnd marked next) : next.filesSize = marked.filesSize := by
  cases ended with
  | held map size => rfl
  | abandoned files layout => rfl
  | counted files size layout =>
      unfold countPiece countDownloaded
      dsimp only
      split <;> rfl

/-- No chunk makes the data needed again. -/
theorem needed (ended : WriteEnd marked next) (unneeded : marked.needed = false)
    : next.needed = false := by
  cases ended with
  | held map size => exact unneeded
  | abandoned files layout => exact unneeded
  | counted files size layout =>
      unfold countPiece countDownloaded
      dsimp only
      split
      · rfl
      · exact unneeded

end WriteEnd

/-- Any return of `torrent_data_write_chunk`, for any chunk id and any struct, keeps the setup
and the size of the files, and never makes the data needed.
-/
theorem writeChunk_setup {chunkId : Int} {env : WriteEnv}
    (wrote : td.writeChunk sha1 disk chunkId data env = .ok result)
    : td.SameSetup result.td
      ∧ result.td.filesSize = td.filesSize
      ∧ (td.needed = false → result.td.needed = false) := by
  rcases writeChunk_ends wrote with same | ⟨field, info, map, _, _, _, _, ended⟩
  · rw [same]
    exact ⟨.refl td, rfl, id⟩
  · have marks : td.SameSetup
        { td with completed := some (field.setBit info.2.chunkId 1), data := some map } :=
      ⟨rfl, rfl, rfl, rfl, rfl, rfl, rfl, rfl, rfl, rfl⟩
    exact ⟨marks.trans ended.setup, ended.filesSize, ended.needed⟩

/-- Any return of `torrent_data_write_chunk` marks at most the chunk that
`torrent_data_get_chunk_info` names.
-/
theorem writeChunk_marks {chunkId : Int} {env : WriteEnv}
    (wrote : td.writeChunk sha1 disk chunkId data env = .ok result)
    : result.td.completed = td.completed
      ∨ ∃ field info,
          td.completed = some field
          ∧ field.getBit chunkId = .ok false
          ∧ td.getChunkInfo chunkId env.stack.chunkInfo = .ok info
          ∧ data.length = info.2.chunkSize
          ∧ result.td.completed = some (field.setBit info.2.chunkId 1) := by
  rcases writeChunk_ends wrote with same | ⟨field, info, map, marks, read, known, sized, ended⟩
  · exact .inl (by rw [same])
  · exact .inr ⟨field, info, marks, read, known, sized, ended.keepsMarks⟩

namespace ChunkStep

/-- Every exit keeps the setup. -/
theorem setup (step : ChunkStep sha1 td disk chunk data io result)
    : td.SameSetup result.td := by
  cases step with
  | refused reason => exact .refl td
  | held stores unfinished => exact holdChunk_setup ..
  | rejected judged => exact holdChunk_setup ..
  | abandoned judged ran stopped =>
      exact ⟨rfl, rfl, rfl, rfl, rfl, rfl, rfl, rfl, rfl,
        writePiece_layout ran⟩
  | finished judged ran notThrown whole =>
      have layout := writePiece_layout ran
      refine (markChunk_setup td _ _ chunk).trans (countPiece_setup ?_ _)
      exact layout

/-- A refused chunk changes nothing. -/
theorem eq_of_refused (step : ChunkStep sha1 td disk chunk data io result)
    (reason : ¬ td.Accepts chunk data)
    : result = { td, disk, exit := .failure, report := none } := by
  cases step with
  | refused _ => rfl
  | held stores unfinished => exact absurd stores.accepted reason
  | rejected judged => exact absurd judged.stores.accepted reason
  | abandoned judged ran stopped => exact absurd judged.stores.accepted reason
  | finished judged ran notThrown whole => exact absurd judged.stores.accepted reason

/-- An accepted chunk is marked, whatever becomes of its piece. -/
theorem completed_of_accepts (step : ChunkStep sha1 td disk chunk data io result)
    (accepted : td.Accepts chunk data) (field : td.completed = some completed)
    : result.td.completed = some (completed.setBit chunk 1) := by
  have marked {other : Bitfield} {map : HashMap Bytes}
      (stores : td.Stores other map chunk data)
      : some (other.setBit chunk 1) = some (completed.setBit chunk 1) := by
    rw [Option.some.inj (stores.field.symm.trans field)]
  cases step with
  | refused reason => exact absurd accepted reason
  | held stores unfinished => exact marked stores
  | rejected judged => exact marked judged.stores
  | abandoned judged ran stopped => exact marked judged.stores
  | finished judged ran notThrown whole =>
      exact (countPiece_completed ..).trans (marked judged.stores)

/-- The bits after a step: the chunk's own is set when it is accepted. -/
theorem completedBit_iff (step : ChunkStep sha1 td disk chunk data io result)
    (ready : td.Initialised) (inRange : chunk < td.chunkTotal) (other : Nat)
    : result.td.completedBit other = true
      ↔ td.completedBit other = true ∨ (other = chunk ∧ td.Accepts chunk data) := by
  obtain ⟨completed, field, counted, _⟩ := ready.completed_field
  have small := ready.chunkTotal_lt
  by_cases accepted : td.Accepts chunk data
  · rw [completedBit_eq (step.completed_of_accepts accepted field), completedBit_eq field,
      Bitfield.bit_setBit_one (by omega) (by omega)]
    simp only [Bool.or_eq_true, decide_eq_true_eq, accepted, and_true]
    constructor
    · rintro (same | set)
      · exact .inr same.symm
      · exact .inl set
    · rintro (set | same)
      · exact .inr set
      · exact .inl same.symm
  · rw [step.eq_of_refused accepted]
    simp [accepted]

/-- The bits of the `completed` field never go back. -/
theorem completedBit_mono (step : ChunkStep sha1 td disk chunk data io result)
    (ready : td.Initialised) (inRange : chunk < td.chunkTotal) {other : Nat}
    (set : td.completedBit other = true)
    : result.td.completedBit other = true :=
  (step.completedBit_iff ready inRange other).mpr (.inl set)

/-- Every exit leaves buffers of the piece size. -/
private theorem data_map (step : ChunkStep sha1 td disk chunk data io result)
    (ready : td.Initialised)
    : ∃ map,
        result.td.data = some map
        ∧ ∀ key buffer,
            map.find key = some buffer → buffer.length = td.pieceSize ∧ td.pieceSize < 2 ^ 63 := by
  obtain ⟨original, found, sized⟩ := ready.data_map
  have taken {completed : Bitfield} {map : HashMap Bytes}
      (stores : td.Stores completed map chunk data) (key : CString) (buffer : Bytes)
      (bound : (map.get (formatInt (td.pieceOf chunk))).2.find key = some buffer)
      : buffer.length = td.pieceSize ∧ td.pieceSize < 2 ^ 63 := by
    rw [Option.some.inj (stores.pieces.symm.trans found), HashMap.find_get_snd] at bound
    split at bound
    · cases bound
    · exact sized key buffer bound
  have stored {completed : Bitfield} {map : HashMap Bytes}
      (stores : td.Stores completed map chunk data) (key : CString) (buffer : Bytes)
      (bound
        : ((map.get (formatInt (td.pieceOf chunk))).2.set (formatInt (td.pieceOf chunk))
            (td.assembledPiece chunk data)).2.find key = some buffer)
      : buffer.length = td.pieceSize ∧ td.pieceSize < 2 ^ 63 := by
    rw [Option.some.inj (stores.pieces.symm.trans found), HashMap.find_set_get] at bound
    split at bound
    · rw [← Option.some.inj bound]
      exact ⟨stores.assembled_length ready, stores.bufferFits⟩
    · exact sized key buffer bound
  cases step with
  | refused reason => exact ⟨original, found, sized⟩
  | held stores unfinished => exact ⟨_, rfl, stored stores⟩
  | rejected judged => exact ⟨_, rfl, stored judged.stores⟩
  | abandoned judged ran stopped => exact ⟨_, rfl, taken judged.stores⟩
  | finished judged ran notThrown whole =>
      exact ⟨_, countPiece_data .., taken judged.stores⟩

/-- Every exit leaves an initialized struct. -/
theorem initialised (step : ChunkStep sha1 td disk chunk data io result)
    (ready : td.Initialised) (inRange : chunk < td.chunkTotal)
    : result.td.Initialised := by
  refine step.setup.initialised ready ?_ (step.data_map ready)
  obtain ⟨completed, field, counted, spare⟩ := ready.completed_field
  have small := ready.chunkTotal_lt
  by_cases accepted : td.Accepts chunk data
  · exact ⟨_, step.completed_of_accepts accepted field, by simpa using counted,
      spare.setBit_one (by omega) (by omega)⟩
  · rw [step.eq_of_refused accepted]
    exact ⟨completed, field, counted, spare⟩

end ChunkStep

end TorrentData

end UvgTorrent

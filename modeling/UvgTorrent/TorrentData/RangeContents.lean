import UvgTorrent.TorrentData.PieceGathering
import UvgTorrent.TorrentData.RangeTermination

/-! The bytes that `torrent_data_read_data` copies when all the data is on disk and every file
operation succeeds. The offset of the loop never moves, so a range that leaves the piece it starts
in gets bytes of that piece again.
-/

namespace UvgTorrent

open Foundations

/-- Every file of the list exists and holds its part of the content. No file is longer than an
offset in it can say.
-/
def FullyPresent (files : List TorrentDataFileInfo) (disk : Disk) (content : Bytes) : Prop :=
  ∀ file ∈ files,
    ∃ bytes,
      disk file.filePath = some bytes
      ∧ bytes.length < 2 ^ 63
      ∧ bytes.take file.fileSize = slice content file.fileOffset file.fileSize

variable {files : List TorrentDataFileInfo} {disk : Disk} {content : Bytes}
  {pieceBegin pieceSize : Nat}

-----------------------------------------------------------------------------------------
-- The file loop
-----------------------------------------------------------------------------------------

/-- Files that hold a content are no longer than it, and no longer than an offset can say. -/
theorem FullyPresent.fileSize_lt {start : Nat} (present : FullyPresent files disk content)
    (laid : LaidOut start files) (whole : content.length = start + totalSize files)
    {file : TorrentDataFileInfo} (member : file ∈ files)
    : file.fileSize < 2 ^ 63 := by
  obtain ⟨bytes, _, bytes_lt, holds⟩ := present file member
  have inside := laid.end_le member
  have lengths := congrArg List.length holds
  rw [List.length_take, slice_length] at lengths
  omega

/-- Files that hold a content store each of its bytes. -/
theorem FullyPresent.storedByte_eq {start position : Nat}
    (present : FullyPresent files disk content) (laid : LaidOut start files)
    (late : start ≤ position) (early : position < start + totalSize files)
    : storedByte files disk position = content[position]? := by
  obtain ⟨file, member, begins, ends, stored⟩ := storedByte_owner laid late early
  obtain ⟨bytes, found, _, holds⟩ := present file member
  have byte := congrArg (fun bytes : Bytes => bytes[position - file.fileOffset]?) holds
  simp only [List.getElem?_take, slice_getElem?, if_pos (show
    position - file.fileOffset < file.fileSize by omega), Nat.add_sub_cancel' begins] at byte
  rw [stored, fileContent, found, Option.getD_some, byte]

/-- The files deliver every piece that lies in the content. -/
theorem readPiece_present {start index : Nat} (present : FullyPresent files disk content)
    (laid : LaidOut start files) (whole : content.length = start + totalSize files)
    (content_lt : content.length < 2 ^ 64) (size_lt : pieceSize < 2 ^ 31)
    (inside : pieceBegin + pieceSize ≤ content.length)
    : readPiece (fun _ => .good) disk pieceBegin pieceSize index files
        (slice content pieceBegin (min pieceSize (start - pieceBegin)))
      = .ok (some (slice content pieceBegin pieceSize)) := by
  have readLength : (slice content pieceBegin (min pieceSize (start - pieceBegin))).length
      = min pieceSize (start - pieceBegin) :=
    slice_length_of_le (by omega)
  refine (readPiece_eq_some_iff laid (by omega)
    (fun file member => present.fileSize_lt laid whole member) size_lt (by omega) (by omega)
    readLength).mpr ⟨slice_length_of_le inside, ?_, ?_, ?_⟩
  · rw [readLength, slice, slice, List.take_take, Nat.min_eq_left (Nat.min_le_left ..)]
  · intro file member _
    obtain ⟨bytes, found, _⟩ := present file member
    rw [found]
    exact Option.some_ne_none bytes
  · intro index inPiece late
    rw [slice_getElem?, if_pos inPiece, present.storedByte_eq laid late (by omega)]

/-- No file reaches a piece behind the content. -/
theorem readPiece_beyond {start index : Nat} {outcomes : Nat → ReadOutcome}
    (laid : LaidOut start files) (beyond : start + totalSize files < pieceBegin)
    (content_lt : pieceBegin < 2 ^ 64) (positive : 0 < pieceSize)
    : readPiece outcomes disk pieceBegin pieceSize index files [] = .ok none := by
  have unread : ([] : Bytes).length ≠ pieceSize := Nat.ne_of_lt positive
  induction files generalizing start index with
  | nil => rw [readPiece, if_neg unread]
  | cons file rest ih =>
      obtain ⟨offset, laidRest⟩ := laid
      have beyondRest : start + file.fileSize + totalSize rest < pieceBegin := by
        simp only [totalSize, List.map_cons, List.sum_cons] at beyond ⊢
        omega
      rw [readPiece, if_neg unread, if_neg, ih laidRest beyondRest]
      rw [offset, u64_of_lt (by omega)]
      omega

-----------------------------------------------------------------------------------------
-- The outer loop
-----------------------------------------------------------------------------------------

namespace TorrentData

variable {td : TorrentData} {io : Nat → Nat → ReadOutcome} {offset length : Nat} {stack : Stack}
  {steps turn : Nat} {read out : Bytes} {exit : Exit}

/-- The files of the struct are laid end to end over the whole data, and a piece is smaller than
an `int` can say.
-/
structure FilesCover (td : TorrentData) : Prop where
  laidOut : LaidOut 0 td.files
  total : totalSize td.files = td.dataSize
  dataSize_lt : td.dataSize < 2 ^ 64
  pieceSize_pos : 0 < td.pieceSize
  pieceSize_lt : td.pieceSize < 2 ^ 31

/-- So they are after an initialization with the length of all files. -/
theorem JustInitialised.filesCover (started : td.JustInitialised)
    (total : totalSize td.files = td.dataSize) (pieceSize_lt : td.pieceSize < 2 ^ 31)
    : td.FilesCover := by
  have fresh := started.fresh
  have dataSize_lt := fresh.dataSize_lt
  exact
    {
      laidOut := fresh.laidOut (by rw [total]; exact dataSize_lt)
      total
      dataSize_lt
      pieceSize_pos := fresh.pieceSize_pos
      pieceSize_lt
    }

/-- Whatever the content, the files can hold it. -/
def Storable (td : TorrentData) : Prop :=
  ∀ content : Bytes, content.length = td.dataSize → ∃ disk, FullyPresent td.files disk content

/-- The read succeeds, with the bytes of the range in the buffer. -/
def ReadsSlice (td : TorrentData) (disk : Disk) (content : Bytes) (offset length : Nat)
    (stack : Stack)
    : Prop :=
  ∃ steps,
    td.readData (fun _ _ => .good) disk offset length stack steps
    = .ok (.success, slice content offset length)

/-- The piece that is looked up for the offset has the whole range. -/
structure WithinPiece (td : TorrentData) (offset length : Nat) (stack : Stack) : Prop where
  found : (td.readInfo offset stack).pieceOffset + td.readStart offset stack = offset
  inside : td.readStart offset stack + length ≤ (td.readInfo offset stack).pieceSize

/-- The piece that is looked up for an offset lies in the data, or it starts behind its end. -/
theorem FilesCover.readInfo_inside (covers : td.FilesCover) (nonempty : 0 < td.dataSize)
    (offset : Nat) (stack : Stack)
    : 0 < td.pieceSize
      ∧ (td.readInfo offset stack).pieceSize ≤ td.pieceSize
      ∧ (td.readInfo offset stack).pieceOffset < 2 ^ 64
      ∧ ((td.readInfo offset stack).pieceOffset + (td.readInfo offset stack).pieceSize
            ≤ td.dataSize
        ∨ td.dataSize < (td.readInfo offset stack).pieceOffset
          ∧ 0 < (td.readInfo offset stack).pieceSize) := by
  have positive := covers.pieceSize_pos
  have fits := covers.dataSize_lt
  rw [readInfo, getPieceInfo, if_neg (by omega)]
  dsimp only
  generalize u64OfInt (wrap32 (offset / td.pieceSize : Nat)) = piece
  have start_lt : u64 (td.pieceSize * piece) < 2 ^ 64 := Nat.mod_lt _ (by norm_num)
  generalize u64 (td.pieceSize * piece) = start at *
  refine ⟨positive, by omega, start_lt, ?_⟩
  rcases Nat.lt_or_ge td.dataSize start with beyond | inside
  · right
    unfold u64Sub
    omega
  · left
    rw [u64Sub_of_le inside fits]
    omega

/-- A turn that gets its piece gets the content of the piece. -/
theorem FilesCover.pieceInTurn_eq (covers : td.FilesCover) (nonempty : 0 < td.dataSize)
    (present : FullyPresent td.files disk content) (sized : content.length = td.dataSize)
    : td.pieceInTurn (fun _ _ => .good) disk offset stack turn
      = if (td.readInfo offset stack).pieceOffset ≤ td.dataSize then
          .ok
            (some
              (slice content (td.readInfo offset stack).pieceOffset
                (td.readInfo offset stack).pieceSize))
        else .ok none := by
  obtain ⟨_, size_le, start_lt, place⟩ := covers.readInfo_inside nonempty offset stack
  have size_lt := covers.pieceSize_lt
  have fits := covers.dataSize_lt
  have total := covers.total
  rw [pieceInTurn]
  rcases place with inside | ⟨beyond, some⟩
  · rw [if_pos (by omega)]
    have delivered := @readPiece_present td.files disk content
      (td.readInfo offset stack).pieceOffset (td.readInfo offset stack).pieceSize 0 0 present
      covers.laidOut (by omega) (by omega) (Nat.lt_of_le_of_lt size_le size_lt) (by omega)
    rw [Nat.zero_sub, Nat.min_zero] at delivered
    exact delivered
  · rw [if_neg (by omega)]
    exact readPiece_beyond covers.laidOut (by omega) start_lt some

/-- What was copied stays at the beginning of the result. -/
theorem readLoop_prefix (positive : 0 < td.pieceSize) (length_lt : length < 2 ^ 64)
    (run : td.readLoop io disk offset length stack steps turn read = .ok (exit, out))
    : read <+: out := by
  induction steps generalizing turn read with
  | zero => cases run
  | succ steps ih =>
      rw [readLoop_succ] at run
      split at run
      · cases run
        exact List.prefix_rfl
      · rename_i unread
        obtain ⟨taken, turned, run⟩ := bind_eq_ok.mp run
        cases taken with
        | none =>
            cases run
            exact List.prefix_rfl
        | some next =>
            obtain ⟨_, _, _, piece, _, rfl⟩ :=
              (readTurn_eq_some_iff positive (Nat.lt_of_not_le unread) length_lt).mp turned
            exact (List.prefix_append _ _).trans (ih run)

/-- However many turns it is given, a loop that returns returns the same. -/
theorem readLoop_unique {other : Nat} {first second : Exit × Bytes}
    (run : td.readLoop io disk offset length stack steps turn read = .ok first)
    (otherRun : td.readLoop io disk offset length stack other turn read = .ok second)
    : first = second := by
  induction steps generalizing turn read other with
  | zero => cases run
  | succ steps ih =>
      cases other with
      | zero => cases otherRun
      | succ other =>
          rw [readLoop_succ] at run otherRun
          split at run
          · rename_i done
            rw [if_pos done] at otherRun
            exact Except.ok.inj (run.symm.trans otherRun)
          · rename_i unread
            rw [if_neg unread] at otherRun
            obtain ⟨taken, turned, run⟩ := bind_eq_ok.mp run
            rw [bind_of_ok turned] at otherRun
            cases taken with
            | none => exact Except.ok.inj (run.symm.trans otherRun)
            | some next => exact ih run otherRun

/-- A copy that copies something from inside its buffer begins inside the piece. -/
theorem start_lt_of_copies {pieceSize start left : Nat} (size_lt : pieceSize + 1 < 2 ^ 63)
    (fits : CopyFits pieceSize start left) (some : 0 < copyCount pieceSize start left)
    : start < pieceSize := by
  unfold CopyFits at fits
  rcases Nat.lt_or_ge start pieceSize with inside | past
  · exact inside
  · obtain rfl : start = pieceSize := by omega
    have none : copyCount start start left = 0 := by
      rw [copyCount_of_le (Nat.le_refl _) (by omega) (by omega)]
      omega
    omega

/-- A loop that succeeds with bytes still to copy comes to a turn that copies some of them. -/
theorem readLoop_copies_next (positive : 0 < td.pieceSize) (length_lt : length < 2 ^ 64)
    (unread : read.length < length)
    (run : td.readLoop io disk offset length stack steps turn read = .ok (.success, out))
    : ∃ here piece later,
        td.pieceInTurn io disk offset stack here = .ok (some piece)
        ∧ piece.length = (td.readInfo offset stack).pieceSize
        ∧ td.readStart offset stack < piece.length
        ∧ CopyFits piece.length (td.readStart offset stack) (length - read.length)
        ∧ 0 < copyCount piece.length (td.readStart offset stack) (length - read.length)
        ∧ td.readLoop io disk offset length stack later (here + 1)
            (read
              ++ slice (piece ++ [0]) (td.readStart offset stack)
                  (copyCount piece.length (td.readStart offset stack) (length - read.length)))
          = .ok (.success, out) := by
  induction steps generalizing turn with
  | zero => cases run
  | succ steps ih =>
      rw [readLoop_succ, if_neg (Nat.not_le.mpr unread)] at run
      obtain ⟨taken, turned, run⟩ := bind_eq_ok.mp run
      cases taken with
      | none => cases run
      | some next =>
          obtain ⟨size_lt, _, fits, piece, pieceRead, rfl⟩ :=
            (readTurn_eq_some_iff positive unread length_lt).mp turned
          have sized := readPiece_length pieceRead
          change piece.length = (td.readInfo offset stack).pieceSize at sized
          rw [← sized] at fits size_lt run
          rcases Nat.eq_zero_or_pos
              (copyCount piece.length (td.readStart offset stack) (length - read.length))
            with none | some
          · dsimp only at run
            rw [none, slice, List.take_zero, List.append_nil] at run
            exact ih run
          · exact ⟨turn, piece, steps, pieceRead, sized, start_lt_of_copies size_lt fits some,
              fits, some, run⟩

/-- The first byte of a range that is read is the one at the start in the looked-up piece. -/
theorem FilesCover.first_byte (covers : td.FilesCover) (nonempty : 0 < td.dataSize)
    (present : FullyPresent td.files disk content) (sized : content.length = td.dataSize)
    (length_lt : length < 2 ^ 64) (unread : read.length < length)
    (run
      : td.readLoop (fun _ _ => .good) disk offset length stack steps turn read
        = .ok (.success, out))
    : out[read.length]?
      = content[(td.readInfo offset stack).pieceOffset + td.readStart offset stack]? := by
  obtain ⟨here, piece, later, pieceRead, length, inside, fits, some, next⟩ :=
    readLoop_copies_next covers.pieceSize_pos length_lt unread run
  obtain ⟨rest, rfl⟩ := readLoop_prefix covers.pieceSize_pos length_lt next
  rw [covers.pieceInTurn_eq nonempty present sized] at pieceRead
  split at pieceRead
  · obtain rfl := Option.some.inj (Except.ok.inj pieceRead)
    rw [List.append_assoc, List.getElem?_append_right (Nat.le_refl _), Nat.sub_self,
      List.getElem?_append_left (by rw [slice_length, List.length_append]; simp; omega),
      slice_getElem?, if_pos some, Nat.add_zero, List.getElem?_append_left inside, slice_getElem?,
      if_pos (by rw [← length]; exact inside)]
  · cases pieceRead

-----------------------------------------------------------------------------------------
-- The ranges that are read right
-----------------------------------------------------------------------------------------

/-- A range inside one piece is read in one turn. -/
theorem WithinPiece.readsSlice (within : td.WithinPiece offset length stack)
    (covers : td.FilesCover) (nonempty : 0 < td.dataSize) (unread : 0 < length)
    (inside : offset + length ≤ td.dataSize) (present : FullyPresent td.files disk content)
    (sized : content.length = td.dataSize)
    : td.ReadsSlice disk content offset length stack := by
  obtain ⟨found, inPiece⟩ := within
  obtain ⟨_, size_le, _, _⟩ := covers.readInfo_inside nonempty offset stack
  have size_lt := covers.pieceSize_lt
  have fits := covers.dataSize_lt
  have relative : wrap32 (u64Sub offset (td.readInfo offset stack).pieceOffset : Nat)
      = td.readStart offset stack := by
    have start_lt : td.readStart offset stack < 2 ^ 31 := readStart_lt
    rw [u64Sub_of_le (by omega) (by omega), wrap32_natCast (by omega)]
    omega
  have all : copyCount (td.readInfo offset stack).pieceSize (td.readStart offset stack) length
      = length := by
    rw [copyCount_of_le (by omega) (by omega) (by omega)]
    omega
  have pieceRead : td.pieceInTurn (fun _ _ => .good) disk offset stack 0 = _ :=
    covers.pieceInTurn_eq nonempty present sized
  rw [if_pos (by omega)] at pieceRead
  have unreadYet : ([] : Bytes).length < length := unread
  have turned := (readTurn_eq_some_iff covers.pieceSize_pos unreadYet (by omega)).mpr
    ⟨by omega, by omega, by rw [CopyFits, List.length_nil, Nat.sub_zero, all]; omega, _,
      pieceRead, rfl⟩
  have copied : slice
        (slice content (td.readInfo offset stack).pieceOffset
          (td.readInfo offset stack).pieceSize ++ [0])
        (td.readStart offset stack) length
      = slice content offset length := by
    have length : (slice content (td.readInfo offset stack).pieceOffset
        (td.readInfo offset stack).pieceSize).length = (td.readInfo offset stack).pieceSize :=
      readPiece_length pieceRead
    rw [slice, List.drop_append_of_le_length (by omega),
      List.take_append_of_le_length (by rw [List.length_drop]; omega), ← slice,
      slice_slice inPiece, found]
  refine ⟨2, ?_⟩
  rw [readData, readLoop_succ, if_neg (Nat.not_le.mpr unreadYet), bind_of_ok turned]
  dsimp only
  rw [List.length_nil, Nat.sub_zero, all, copied, List.nil_append, readLoop_succ,
    if_pos (by rw [slice_length_of_le (by omega)])]

/-- A content of zeros, with a one at a position. -/
def spike (size position : Nat) : Bytes := (List.replicate size 0).set position 1

theorem spike_length (size position : Nat) : (spike size position).length = size := by
  simp [spike]

theorem spike_getElem? {size position : Nat} (inside : position < size) (index : Nat)
    : (spike size position)[index]? = some 1 ↔ index = position := by
  rw [spike, List.getElem?_set]
  by_cases here : position = index
  · simp [here ▸ inside, here]
  · simp [here, Ne.symm here, List.getElem?_replicate]

/-- A range that is read right whatever the content lies in one piece. Witness: contents with a one
where the loop does not look.
-/
theorem withinPiece_of_readsSlice (covers : td.FilesCover) (storable : td.Storable)
    (unread : 0 < length) (inside : offset + length ≤ td.dataSize)
    (reads
      : ∀ content disk,
          content.length = td.dataSize
          → FullyPresent td.files disk content
          → td.ReadsSlice disk content offset length stack)
    : td.WithinPiece offset length stack := by
  have nonempty : 0 < td.dataSize := by omega
  have fits := covers.dataSize_lt
  have size_lt := covers.pieceSize_lt
  obtain ⟨_, size_le, _, _⟩ := covers.readInfo_inside nonempty offset stack
  have run (position : Nat)
      : ∃ disk steps,
          FullyPresent td.files disk (spike td.dataSize position)
          ∧ td.readLoop (fun _ _ => .good) disk offset length stack steps 0 []
            = .ok (.success, slice (spike td.dataSize position) offset length) := by
    obtain ⟨disk, present⟩ := storable _ (spike_length _ position)
    obtain ⟨steps, read⟩ := reads _ disk (spike_length _ position) present
    exact ⟨disk, steps, present, read⟩
  have found : (td.readInfo offset stack).pieceOffset + td.readStart offset stack = offset := by
    obtain ⟨disk, steps, present, read⟩ := run offset
    have first := covers.first_byte nonempty present (spike_length _ _) (by omega) unread read
    rw [List.length_nil, slice_getElem?, if_pos unread, Nat.add_zero,
      (spike_getElem? (by omega) offset).mpr rfl] at first
    exact (spike_getElem? (by omega) _).mp first.symm
  refine ⟨found, Nat.le_of_not_lt fun leaves => ?_⟩
  -- the second turn begins where the first one did
  obtain ⟨disk, steps, present, read⟩ := run
    (offset + ((td.readInfo offset stack).pieceSize - td.readStart offset stack))
  obtain ⟨here, piece, later, pieceRead, sized, starts, -, -, next⟩ :=
    readLoop_copies_next covers.pieceSize_pos (by omega) unread read
  have count : copyCount piece.length (td.readStart offset stack) (length - ([] : Bytes).length)
      = (td.readInfo offset stack).pieceSize - td.readStart offset stack := by
    rw [List.length_nil, copyCount_of_le (by omega) (by omega) (by omega)]
    omega
  rw [count, List.nil_append] at next
  have copied : (slice (piece ++ [0]) (td.readStart offset stack)
      ((td.readInfo offset stack).pieceSize - td.readStart offset stack)).length
      = (td.readInfo offset stack).pieceSize - td.readStart offset stack :=
    slice_length_of_le (by rw [List.length_append]; omega)
  have again := covers.first_byte nonempty present (spike_length _ _) (by omega)
    (by rw [copied]; omega) next
  rw [copied, slice_getElem?, if_pos (by omega), found,
    (spike_getElem? (by omega) _).mpr rfl] at again
  have same := (spike_getElem? (by omega) offset).mp again.symm
  omega

/-- A range of the data is read right when it is empty or lies in the piece that is looked up for
its offset; and when the files can hold any content, these are the only ranges that are read right
whatever the content.
-/
theorem readData_slices_iff (covers : td.FilesCover) (inside : offset + length ≤ td.dataSize)
    : (length = 0 ∨ td.WithinPiece offset length stack
        → ∀ content disk,
            content.length = td.dataSize
            → FullyPresent td.files disk content
            → td.ReadsSlice disk content offset length stack)
      ∧ (td.Storable
          → (∀ content disk,
              content.length = td.dataSize
              → FullyPresent td.files disk content
              → td.ReadsSlice disk content offset length stack)
          → length = 0 ∨ td.WithinPiece offset length stack) := by
  rcases Nat.eq_zero_or_pos length with rfl | unread
  · refine ⟨fun _ content disk _ _ => ⟨1, ?_⟩, fun _ _ => .inl rfl⟩
    rw [readData, readLoop_succ, if_pos (Nat.zero_le _), slice, List.take_zero]
  · constructor
    · rintro (rfl | within) content disk sized present
      · omega
      · exact within.readsSlice covers (by omega) unread inside present sized
    · intro storable reads
      exact .inr (withinPiece_of_readsSlice covers storable unread inside reads)

/-- As far as piece ids fit an `int`, a range lies in the piece that is looked up exactly when it
does not go past the end of the piece it starts in.
-/
theorem withinPiece_iff (covers : td.FilesCover) (unread : 0 < length)
    (inside : offset + length ≤ td.dataSize) (fits : offset / td.pieceSize < 2 ^ 31)
    : td.WithinPiece offset length stack ↔ offset % td.pieceSize + length ≤ td.pieceSize := by
  have floor := Nat.mul_div_le offset td.pieceSize
  have split := Nat.mod_add_div offset td.pieceSize
  have small := Nat.mod_lt offset covers.pieceSize_pos
  have size_lt := covers.pieceSize_lt
  have dataSize_lt := covers.dataSize_lt
  have info : td.readInfo offset stack = _ :=
    readInfo_eq covers.pieceSize_pos (by omega) (by omega) fits
  have start : td.readStart offset stack = offset % td.pieceSize := by
    rw [readStart, info, u64Sub_of_le floor (by omega), wrap32_natCast (by omega),
      Int.toNat_natCast]
    omega
  have size : (td.readInfo offset stack).pieceSize
      = min td.pieceSize (td.dataSize - td.pieceSize * (offset / td.pieceSize)) := by
    rw [info]
    dsimp only
    rw [u64Sub_of_le (by omega) dataSize_lt]
  constructor
  · rintro ⟨_, inPiece⟩
    rw [start, size] at inPiece
    omega
  · intro inPiece
    refine ⟨?_, by rw [start, size]; omega⟩
    rw [start, info]
    exact (Nat.add_comm _ _).trans split

/-- Files with their own paths, none too long for its offsets, can hold any content. -/
theorem storable_of_distinct (distinct : (td.files.map TorrentDataFileInfo.filePath).Nodup)
    (small : ∀ file ∈ td.files, file.fileSize < 2 ^ 63)
    : td.Storable := by
  intro content _
  generalize td.files = files at distinct small
  induction files with
  | nil => exact ⟨fun _ => none, fun file member => by cases member⟩
  | cons file rest ih =>
      rw [List.map_cons, List.nodup_cons] at distinct
      obtain ⟨disk, present⟩ :=
        ih distinct.2 (fun other member => small other (List.mem_cons_of_mem _ member))
      refine ⟨Function.update disk file.filePath
        (some (slice content file.fileOffset file.fileSize)), fun other member => ?_⟩
      rcases List.mem_cons.mp member with rfl | later
      · refine ⟨_, Function.update_self .., ?_, by rw [slice, List.take_take, Nat.min_self]⟩
        have bound := small other (by simp)
        rw [slice_length]
        omega
      · have apart : other.filePath ≠ file.filePath := by
          intro same
          exact distinct.1 (same ▸ List.mem_map_of_mem later)
        obtain ⟨bytes, found, holds⟩ := present other later
        exact ⟨bytes, by rw [Function.update_of_ne apart, found], holds⟩

/-- A torrent with one file of three bytes, in pieces of two. -/
theorem ofThreeBytes_filesCover : (ofSingleFile none 3 2 1).FilesCover :=
  (SingleFileFits.justInitialised (by decide +kernel)).filesCover (by decide) (by decide)

theorem threeBytes_present
    : FullyPresent (ofSingleFile none 3 2 1).files threeBytes [1, 2, 3] := by
  intro file member
  obtain ⟨_, _, _, _, files⟩ := @SingleFileFits.fields none 3 2 1 (by decide +kernel)
  rw [files, List.mem_singleton] at member
  rw [member]
  exact ⟨[1, 2, 3], rfl, by decide, rfl⟩

/-- The first piece of the three bytes is read; a range over both pieces is not, for some content.
-/
theorem readData_slices_piece
    : (ofSingleFile none 3 2 1).ReadsSlice threeBytes [1, 2, 3] 0 2 ⟨⟨0, 0, 0, 0⟩, ⟨0, 0, 0⟩⟩
      ∧ ¬ ∀ content disk,
          content.length = 3
          → FullyPresent (ofSingleFile none 3 2 1).files disk content
          → (ofSingleFile none 3 2 1).ReadsSlice disk content 0 3 ⟨⟨0, 0, 0, 0⟩, ⟨0, 0, 0⟩⟩ := by
  have covers := ofThreeBytes_filesCover
  constructor
  · have within : (ofSingleFile none 3 2 1).WithinPiece 0 2 ⟨⟨0, 0, 0, 0⟩, ⟨0, 0, 0⟩⟩ :=
      (withinPiece_iff covers (by decide) (by decide) (by decide)).mpr (by decide)
    exact (readData_slices_iff covers (by decide)).1 (.inr within) [1, 2, 3] threeBytes (by decide)
      threeBytes_present
  · intro all
    have storable : (ofSingleFile none 3 2 1).Storable :=
      storable_of_distinct (by decide) (by decide)
    rcases (readData_slices_iff covers (by decide)).2 storable all with empty | within
    · cases empty
    · exact absurd ((withinPiece_iff covers (by decide) (by decide) (by decide)).mp within)
        (by decide)

/-- All three bytes: the first byte comes again in the place of the third. -/
theorem whole_data_read_wrong
    : (ofSingleFile none 3 2 1).JustInitialised
      ∧ totalSize (ofSingleFile none 3 2 1).files = (ofSingleFile none 3 2 1).dataSize
      ∧ (ofSingleFile none 3 2 1).pieceSize < 2 ^ 31
      ∧ FullyPresent (ofSingleFile none 3 2 1).files threeBytes [1, 2, 3]
      ∧ ¬ (ofSingleFile none 3 2 1).ReadsSlice threeBytes [1, 2, 3] 0 3
          ⟨⟨0, 0, 0, 0⟩, ⟨0, 0, 0⟩⟩ := by
  refine ⟨SingleFileFits.justInitialised (by decide +kernel), by decide, by decide,
    threeBytes_present, ?_⟩
  rintro ⟨steps, read⟩
  have wrong : (ofSingleFile none 3 2 1).readData (fun _ _ => .good) threeBytes 0 3
      ⟨⟨0, 0, 0, 0⟩, ⟨0, 0, 0⟩⟩ 3 = .ok (.success, [1, 2, 1]) := by
    decide
  exact absurd (readLoop_unique read wrong) (by decide)

end TorrentData

end UvgTorrent

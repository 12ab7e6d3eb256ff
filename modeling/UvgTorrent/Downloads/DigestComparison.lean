import UvgTorrent.Downloads.Integrity

/-! `torrent_data_validate_piece` on untrusted tables: `strncmp` stops at a NUL that digest and
entry share, and the bound on the entry's position is an unsigned difference of the table's length.
-/

namespace UvgTorrent

open Foundations

namespace TorrentData

variable {count : Nat} {digest entry table piece : Bytes} {td : TorrentData} {info : PieceInfo}

-----------------------------------------------------------------------------------------
-- What `strncmp` sees of a string
-----------------------------------------------------------------------------------------

/-- No character before the last one is a NUL, so `strncmp` reaches the last one. -/
def NulFree (count : Nat) (entry : Bytes) : Prop :=
  ∀ index, index + 1 < count → entry[index]? ≠ some 0

/-- A string that is long enough and has no early NUL is compared in full. -/
theorem strncmpEqual_of_nulFree (length : digest.length = count) (long : count ≤ entry.length)
    (nulFree : NulFree count entry)
    : strncmpEqual count digest entry = some (decide (digest = entry.take count)) := by
  induction count generalizing digest entry with
  | zero =>
      have empty := List.eq_nil_of_length_eq_zero length
      simp [strncmpEqual, empty]
  | succ count ih =>
      cases digest with
      | nil => cases length
      | cons first rest =>
          cases entry with
          | nil => cases long
          | cons other more =>
              have sized : rest.length = count := Nat.succ.inj length
              simp only [strncmpEqual, List.take_succ_cons, List.cons.injEq]
              by_cases same : first = other
              · subst same
                by_cases nul : first = 0
                · -- a NUL can only stand at the end
                  have last : count = 0 := by
                    by_contra inner
                    exact nulFree 0 (by omega) (by simp [nul])
                  subst last
                  simp [nul, List.eq_nil_of_length_eq_zero sized]
                · have later : NulFree count more := by
                    intro index inside
                    simpa using nulFree (index + 1) (by omega)
                  simp [nul, ih sized (Nat.le_of_succ_le_succ long) later]
              · simp [same]

/-- As far as the strings agree up to the end of the shorter one, `strncmp` finds no difference. -/
theorem strncmpEqual_of_agrees (rest : Bytes)
    : strncmpEqual count (entry ++ rest) entry ≠ some false := by
  induction count generalizing entry with
  | zero => simp [strncmpEqual]
  | succ count ih =>
      cases entry with
      | nil => cases rest <;> simp [strncmpEqual]
      | cons first more =>
          simp only [List.cons_append, strncmpEqual, ne_eq, not_true_eq_false, if_false]
          split
          · simp
          · exact ih

/-- A NUL that both strings have hides what stands behind it. -/
theorem strncmpEqual_of_shared_nul {front behind hidden : Bytes} (early : front.length < count)
    : strncmpEqual count (front ++ 0 :: hidden) (front ++ 0 :: behind) = some true := by
  induction count generalizing front with
  | zero => cases early
  | succ count ih =>
      cases front with
      | nil => simp [strncmpEqual]
      | cons first more =>
          simp only [List.cons_append, strncmpEqual, ne_eq, not_true_eq_false, if_false]
          split
          · rfl
          · exact ih (Nat.lt_of_succ_lt_succ early)

-----------------------------------------------------------------------------------------
-- Entries that are compared in full
-----------------------------------------------------------------------------------------

/-- Where `torrent_data_validate_piece` reads the entry of a piece: an `int` product, used as a
`size_t`.
-/
def sha1Offset (pieceId : Int) : Nat := u64OfInt (wrap32 (pieceId * 20))

/-- The table has a full entry for a piece. -/
def HasEntry (table : Bytes) (piece : Nat) : Prop := 20 * piece + 20 ≤ table.length

/-- The verdict on a piece is whether its digest is its entry in all 20 bytes, and the table is not
read past its end.
-/
structure ComparesWholeDigest (sha1 : Bytes → Digest) (td : TorrentData) (table : Bytes)
    (info : PieceInfo) (piece : Bytes)
    : Prop where
  success_iff
    : td.validatePiece sha1 info piece = .ok .success
      ↔ HasEntry table info.pieceId.toNat
        ∧ (sha1 (piece.take info.pieceSize)).1 = hashEntry table info.pieceId.toNat
  inside : td.validatePiece sha1 info piece ≠ .error .sha1Bounds

/-- The table refuses a piece without an entry, or has its entry where it is looked for, without an
early NUL, for a piece whose length fits a `uint32_t`.
-/
inductive EntryComparable (table : Bytes) (info : PieceInfo) : Prop
  | refused (beyond : u64Sub table.length 20 < sha1Offset info.pieceId)
    (absent : ¬ HasEntry table info.pieceId.toNat)
  | compared (within : ¬ u64Sub table.length 20 < sha1Offset info.pieceId)
    (read : sha1Offset info.pieceId + 20 ≤ table.length)
    (present : HasEntry table info.pieceId.toNat)
    (same : slice table (sha1Offset info.pieceId) 20 = hashEntry table info.pieceId.toNat)
    (nulFree : NulFree 20 (hashEntry table info.pieceId.toNat))
    (fits : info.pieceSize < 2 ^ 32)

theorem hashEntry_length {id : Nat} (present : HasEntry table id)
    : (hashEntry table id).length = 20 :=
  slice_length_of_le present

/-- `torrent_data_validate_piece` on a table, as the comparison of two byte strings. -/
theorem validatePiece_eq (hashes : td.sha1Hashes = some table) (sha1 : Bytes → Digest)
    (info : PieceInfo) (piece : Bytes)
    : td.validatePiece sha1 info piece
      = if u64Sub table.length 20 < sha1Offset info.pieceId then .ok .failure
        else
          match strncmpEqual 20 (sha1 (piece.take (u32 info.pieceSize))).1
              (table.drop (sha1Offset info.pieceId)) with
          | none => .error .sha1Bounds
          | some true => .ok .success
          | some false => .ok .failure := by
  rw [validatePiece, hashes]
  rfl

/-- A comparable entry is compared in full, whatever SHA-1 is. -/
theorem EntryComparable.comparesWhole (comparable : EntryComparable table info)
    (hashes : td.sha1Hashes = some table) (sha1 : Bytes → Digest) (piece : Bytes)
    : ComparesWholeDigest sha1 td table info piece := by
  have verdict := validatePiece_eq hashes sha1 info piece
  cases comparable with
  | refused beyond absent =>
      rw [if_pos beyond] at verdict
      constructor
      · rw [verdict]
        exact iff_of_false (by simp) (fun both => absent both.1)
      · simp [verdict]
  | compared within read present same nulFree fits =>
      rw [← same, slice] at nulFree
      have late : NulFree 20 (table.drop (sha1Offset info.pieceId)) := by
        intro index early
        have kept := nulFree index early
        rwa [List.getElem?_take, if_pos (by omega)] at kept
      rw [if_neg within, u32, Nat.mod_eq_of_lt fits,
        strncmpEqual_of_nulFree (sha1 (piece.take info.pieceSize)).2
          (by rw [List.length_drop]; omega) late, ← slice, same] at verdict
      by_cases equal : (sha1 (piece.take info.pieceSize)).1 = hashEntry table info.pieceId.toNat
      · rw [decide_eq_true equal] at verdict
        exact ⟨iff_of_true verdict ⟨present, equal⟩, by simp [verdict]⟩
      · rw [decide_eq_false equal] at verdict
        exact ⟨iff_of_false (by simp [verdict]) (fun both => equal both.2), by simp [verdict]⟩

-----------------------------------------------------------------------------------------
-- Entries that are not
-----------------------------------------------------------------------------------------

/-- A string of the same length that differs in every character. -/
def bump (bytes : Bytes) : Bytes := bytes.map (· + 1)

theorem bump_ne {bytes : Bytes} (nonempty : bytes ≠ []) : bump bytes ≠ bytes := by
  cases bytes with
  | nil => exact absurd rfl nonempty
  | cons first rest =>
      intro same
      have head : first + 1 = first := (List.cons.inj same).1
      simp at head

/-- If the comparison is right for every digest, the digests that `strncmp` does not tell from the
entry are the entry.
-/
theorem eq_hashEntry_of_not_false (hashes : td.sha1Hashes = some table)
    (right : ∀ sha1, ComparesWholeDigest sha1 td table info piece)
    (within : ¬ u64Sub table.length 20 < sha1Offset info.pieceId) (length : digest.length = 20)
    (alike : strncmpEqual 20 digest (table.drop (sha1Offset info.pieceId)) ≠ some false)
    : HasEntry table info.pieceId.toNat ∧ digest = hashEntry table info.pieceId.toNat := by
  have whole := right (fun _ => ⟨digest, length⟩)
  have verdict := validatePiece_eq hashes (fun _ => ⟨digest, length⟩) info piece
  rw [if_neg within] at verdict
  dsimp only at verdict
  cases compared : strncmpEqual 20 digest (table.drop (sha1Offset info.pieceId)) with
  | none =>
      rw [compared] at verdict
      exact absurd verdict whole.inside
  | some equal =>
      cases equal with
      | false => exact absurd compared alike
      | true =>
          rw [compared] at verdict
          exact whole.success_iff.mp verdict

/-- The bytes at the computed position are there: otherwise two digests that begin with what is left
of the table pass for the entry.
-/
theorem read_of_comparesWhole (hashes : td.sha1Hashes = some table)
    (right : ∀ sha1, ComparesWholeDigest sha1 td table info piece)
    (within : ¬ u64Sub table.length 20 < sha1Offset info.pieceId)
    : sha1Offset info.pieceId + 20 ≤ table.length := by
  by_contra short
  have leftLength : (table.drop (sha1Offset info.pieceId)).length < 20 := by
    rw [List.length_drop]
    omega
  have alike (byte : UInt8)
      : table.drop (sha1Offset info.pieceId)
          ++ List.replicate (20 - (table.drop (sha1Offset info.pieceId)).length) byte
        = hashEntry table info.pieceId.toNat :=
    (eq_hashEntry_of_not_false hashes right within
      (by rw [List.length_append, List.length_replicate]; omega) (strncmpEqual_of_agrees _)).2
  have same := List.append_cancel_left ((alike 1).trans (alike 2).symm)
  rw [List.replicate_inj] at same
  rcases same.2 with none | one
  · omega
  · cases one

/-- The entry has no early NUL: otherwise a digest that differs behind it passes too. -/
theorem nulFree_of_comparesWhole (hashes : td.sha1Hashes = some table)
    (right : ∀ sha1, ComparesWholeDigest sha1 td table info piece)
    (within : ¬ u64Sub table.length 20 < sha1Offset info.pieceId)
    (read : sha1Offset info.pieceId + 20 ≤ table.length)
    : NulFree 20 (slice table (sha1Offset info.pieceId) 20) := by
  intro index early nul
  let found := table.drop (sha1Offset info.pieceId)
  have length : found.length = table.length - sha1Offset info.pieceId := List.length_drop
  have nulFound : found[index]? = some 0 := by
    rwa [slice_getElem?, if_pos (by omega), ← List.getElem?_drop] at nul
  have split : found = found.take index ++ 0 :: found.drop (index + 1) := by
    obtain ⟨inside, byte⟩ := List.getElem?_eq_some_iff.mp nulFound
    rw [← byte, List.getElem_cons_drop inside, List.take_append_drop]
  -- what stands behind the NUL in the entry, and something else in its place
  have hides (hidden : Bytes) (sized : hidden.length = 19 - index)
      : found.take index ++ 0 :: hidden = hashEntry table info.pieceId.toNat := by
    refine (eq_hashEntry_of_not_false hashes right within
      (by simp [sized, length]; omega) ?_).2
    have equal : strncmpEqual 20 (found.take index ++ 0 :: hidden)
        (found.take index ++ 0 :: found.drop (index + 1)) = some true :=
      strncmpEqual_of_shared_nul (by simp; omega)
    rw [← split] at equal
    rw [equal]
    simp
  have first := hides (List.replicate (19 - index) 1) (by simp)
  have second := hides (List.replicate (19 - index) 2) (by simp)
  have same := List.append_cancel_left (first.trans second.symm)
  rw [List.cons.injEq, List.replicate_inj] at same
  rcases same.2.2 with none | one
  · omega
  · cases one

/-- The length of the piece is not cut: otherwise SHA-1 may tell the piece from its beginning. -/
theorem fits_of_comparesWhole (hashes : td.sha1Hashes = some table)
    (right : ∀ sha1, ComparesWholeDigest sha1 td table info piece)
    (within : ¬ u64Sub table.length 20 < sha1Offset info.pieceId)
    (present : HasEntry table info.pieceId.toNat)
    (same : slice table (sha1Offset info.pieceId) 20 = hashEntry table info.pieceId.toNat)
    (whole : info.pieceSize ≤ piece.length)
    : info.pieceSize < 2 ^ 32 := by
  by_contra large
  have cut : piece.take (u32 info.pieceSize) ≠ piece.take info.pieceSize := by
    intro equal
    have lengths := congrArg List.length equal
    have small : u32 info.pieceSize < 2 ^ 32 := Nat.mod_lt _ (by norm_num)
    simp only [List.length_take] at lengths
    omega
  let entry : Digest := ⟨hashEntry table info.pieceId.toNat, hashEntry_length present⟩
  let other : Digest := ⟨bump entry.1, by simp [bump, entry.2]⟩
  have tells := right (fun bytes => if bytes = piece.take info.pieceSize then other else entry)
  have verdict := validatePiece_eq hashes
    (fun bytes => if bytes = piece.take info.pieceSize then other else entry) info piece
  rw [if_neg within, if_neg cut, strncmpEqual_of_eq entry.2 (by rw [← slice, same])] at verdict
  have equal := (tells.success_iff.mp verdict).2
  rw [if_pos rfl] at equal
  refine bump_ne ?_ equal
  exact List.ne_nil_of_length_pos (by rw [hashEntry_length present]; norm_num)

/-- Validation compares the whole digest, for every SHA-1, exactly when the entry is comparable. -/
theorem validatePiece_comparesWhole_iff (hashes : td.sha1Hashes = some table)
    (whole : info.pieceSize ≤ piece.length)
    : (∀ sha1, ComparesWholeDigest sha1 td table info piece) ↔ EntryComparable table info := by
  constructor
  · intro right
    by_cases beyond : u64Sub table.length 20 < sha1Offset info.pieceId
    · refine .refused beyond fun present => ?_
      let entry : Digest := ⟨hashEntry table info.pieceId.toNat, hashEntry_length present⟩
      have accepted := (right (fun _ => entry)).success_iff.mpr ⟨present, rfl⟩
      rw [validatePiece_eq hashes, if_pos beyond] at accepted
      cases accepted
    · have read := read_of_comparesWhole hashes right beyond
      have length : (slice table (sha1Offset info.pieceId) 20).length = 20 :=
        slice_length_of_le read
      obtain ⟨present, same⟩ := eq_hashEntry_of_not_false hashes right beyond length
        (by rw [strncmpEqual_of_eq length rfl]; simp)
      have nulFree := nulFree_of_comparesWhole hashes right beyond read
      rw [same] at nulFree
      exact .compared beyond read present same nulFree
        (fits_of_comparesWhole hashes right beyond present same whole)
  · intro comparable sha1
    exact comparable.comparesWhole hashes sha1 piece

/-- Witness: a table of one entry of ones, with every SHA-1. -/
theorem validatePiece_comparesWhole_iff_ones
    : EntryComparable (List.replicate 20 1) { pieceId := 0, pieceSize := 1, pieceOffset := 0 }
      ∧ ∀ sha1,
          ComparesWholeDigest sha1 ((TorrentData.new []).setSha1Hashes (List.replicate 20 1))
            (List.replicate 20 1) { pieceId := 0, pieceSize := 1, pieceOffset := 0 } [7] := by
  have nulFree : NulFree 20 (hashEntry (List.replicate 20 1) 0) := by
    intro index early
    rw [hashEntry, slice, List.drop_zero, List.take_replicate, Nat.min_self,
      List.getElem?_replicate, if_pos (by omega)]
    decide
  have comparable
      : EntryComparable (List.replicate 20 1)
          { pieceId := 0, pieceSize := 1, pieceOffset := 0 } :=
    .compared (by decide) (by decide) (by unfold HasEntry; decide) (by decide) nulFree (by decide)
  exact ⟨comparable, (validatePiece_comparesWhole_iff rfl (by decide)).mpr comparable⟩

/-- A digest that shares a leading NUL with the entry, and nothing else, is accepted. -/
theorem leading_nul_accepted
    : ¬ ∀ (sha1 : Bytes → Digest) (td : TorrentData) (table : Bytes) (info : PieceInfo)
          (piece : Bytes),
        td.sha1Hashes = some table
        → 0 ≤ info.pieceId
        → info.pieceId < 2 ^ 31
        → info.pieceSize ≤ piece.length
        → ComparesWholeDigest sha1 td table info piece := by
  intro claim
  have whole := claim (fun _ => ⟨0 :: List.replicate 19 2, rfl⟩)
    ((TorrentData.new []).setSha1Hashes (0 :: List.replicate 19 1)) (0 :: List.replicate 19 1)
    { pieceId := 0, pieceSize := 1, pieceOffset := 0 } [7] rfl (by decide) (by decide) (by decide)
  exact absurd (whole.success_iff.mp (by decide)).2 (by decide)

end TorrentData

end UvgTorrent

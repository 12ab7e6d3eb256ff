import Mathlib.Tactic

/-! Comparators that return a sign, as `qsort` takes them, and the one that compares two measures by
their difference without its fraction: measures that are less than one apart are equal to it.
-/

namespace Foundations

variable {α K : Type*}

/-- The comparator of a total preorder on some entries. -/
structure ConsistentOn (compare : α → α → Int) (entries : List α) : Prop where
  swap : ∀ a ∈ entries, ∀ b ∈ entries, compare a b < 0 ↔ 0 < compare b a
  trans
    : ∀ a ∈ entries, ∀ b ∈ entries, ∀ c ∈ entries,
        compare a b ≤ 0 → compare b c ≤ 0 → compare a c ≤ 0

/-- No entry is behind a larger one. -/
def SortedBy (compare : α → α → Int) (entries : List α) : Prop :=
  entries.Pairwise fun a b => compare a b ≤ 0

instance (compare : α → α → Int) (entries : List α) : Decidable (SortedBy compare entries) :=
  inferInstanceAs (Decidable (List.Pairwise _ _))

-----------------------------------------------------------------------------------------
-- The order of a measure
-----------------------------------------------------------------------------------------

section

variable [LinearOrder K] {measure : α → K} {entries : List α}

/-- The entries in the order of a measure. -/
def sortByMeasure (measure : α → K) (entries : List α) : List α :=
  entries.mergeSort fun a b => decide (measure a ≤ measure b)

theorem sortByMeasure_perm (measure : α → K) (entries : List α)
    : (sortByMeasure measure entries).Perm entries :=
  List.mergeSort_perm ..

theorem sortByMeasure_ascending (measure : α → K) (entries : List α)
    : (sortByMeasure measure entries).Pairwise fun a b => measure a ≤ measure b := by
  have transitive (a b c : α) (first : decide (measure a ≤ measure b) = true)
      (second : decide (measure b ≤ measure c) = true)
      : decide (measure a ≤ measure c) = true :=
    decide_eq_true ((of_decide_eq_true first).trans (of_decide_eq_true second))
  have total (a b : α)
      : (decide (measure a ≤ measure b) || decide (measure b ≤ measure a)) = true := by
    rw [Bool.or_eq_true, decide_eq_true_eq, decide_eq_true_eq]
    exact le_total _ _
  exact (List.pairwise_mergeSort transitive total entries).imp of_decide_eq_true

/-- Where the first entries of an ascending list are not below the others, and there are some of
both, all measures are equal.
-/
theorem measure_eq_of_ascending (ascending : entries.Pairwise fun a b => measure a ≤ measure b)
    {count : Nat} (some : 0 < count) (others : count < entries.length)
    (largest : ∀ p ∈ entries.take count, ∀ q ∈ entries.drop count, measure q ≤ measure p)
    : ∀ a ∈ entries, ∀ b ∈ entries, measure a = measure b := by
  have nonempty : 0 < entries.length := Nat.zero_lt_of_lt others
  have ordered (i j : Nat) (inRange : j < entries.length) (before : i ≤ j)
      : measure entries[i] ≤ measure entries[j] := by
    rcases Nat.lt_or_eq_of_le before with earlier | rfl
    · exact List.pairwise_iff_getElem.mp ascending i j _ inRange earlier
    · exact le_refl _
  have level : measure entries[entries.length - 1] ≤ measure entries[0] := by
    refine largest _ ?_ _ ?_
    · exact List.mem_take_iff_getElem.mpr ⟨0, by omega, rfl⟩
    · refine List.mem_drop_iff_getElem.mpr ⟨entries.length - 1 - count, by omega, ?_⟩
      congr 1
      omega
  have first (a : α) (member : a ∈ entries) : measure a = measure entries[0] := by
    obtain ⟨index, inRange, rfl⟩ := List.getElem_of_mem member
    exact le_antisymm ((ordered index _ (by omega) (by omega)).trans level)
      (ordered 0 index inRange (Nat.zero_le _))
  intro a inA b inB
  rw [first a inA, first b inB]

end

-----------------------------------------------------------------------------------------
-- The difference without its fraction
-----------------------------------------------------------------------------------------

variable [Field K] [LinearOrder K] [FloorRing K] {measure : α → K} {entries : List α}

/-- The conversion to an integer that drops the fraction. -/
def truncate (x : K) : Int := if 0 ≤ x then ⌊x⌋ else ⌈x⌉

/-- The conversion to an integer of limited size; the smallest one stands for what does not fit. -/
def truncateWithin (limit : Int) (x : K) : Int :=
  if -limit ≤ truncate x ∧ truncate x < limit then truncate x else -limit

/-- Two entries compared by the difference of their measures. -/
def compareTruncated (limit : Int) (measure : α → K) (a b : α) : Int :=
  truncateWithin limit (measure a - measure b)

theorem truncate_le_zero_iff {x : K} : truncate x ≤ 0 ↔ x < 1 := by
  unfold truncate
  split
  · rw [← Int.lt_add_one_iff, zero_add, Int.floor_lt, Int.cast_one]
  · rename_i negative
    have below : x < 0 := not_le.mp negative
    exact iff_of_true (Int.ceil_le.mpr (by simpa using below.le)) (below.trans one_pos)

variable [IsStrictOrderedRing K] {limit : Int}

theorem truncate_lt_iff {x : K} (positive : 0 < limit) : truncate x < limit ↔ x < limit := by
  unfold truncate
  split
  · exact Int.floor_lt
  · rename_i negative
    have below : x < 0 := not_le.mp negative
    have rounded : ⌈x⌉ ≤ 0 := Int.ceil_le.mpr (by simpa using below.le)
    have above : (0 : K) < limit := Int.cast_pos.mpr positive
    exact iff_of_true (by omega) (below.trans above)

theorem truncate_neg (x : K) : truncate (-x) = -truncate x := by
  unfold truncate
  rcases lt_trichotomy x 0 with negative | rfl | positive
  · rw [if_pos (neg_nonneg.mpr negative.le), if_neg (not_le.mpr negative), Int.floor_neg]
  · simp
  · rw [if_neg (by simpa using positive), if_pos positive.le, Int.ceil_neg]

/-- What fits in both directions is converted as it is. -/
theorem truncateWithin_of_lt {x : K} (positive : 0 < limit) (above : x < limit)
    (below : -x < limit)
    : truncateWithin limit x = truncate x := by
  have upper := (truncate_lt_iff positive).mpr above
  have lower := (truncate_lt_iff positive).mpr below
  rw [truncate_neg] at lower
  exact if_pos ⟨by omega, upper⟩

/-- What is too large looks like something negative. -/
theorem truncateWithin_le_zero_iff {x : K} (positive : 0 < limit)
    : truncateWithin limit x ≤ 0 ↔ x < 1 ∨ limit ≤ x := by
  rw [← truncate_le_zero_iff, ← not_lt (a := x), ← truncate_lt_iff positive]
  unfold truncateWithin
  split <;> omega

/-- The comparator is that of a total preorder exactly where no difference is too large, and being
less than one above is transitive.
-/
theorem consistentOn_truncated_iff (positive : 0 < limit)
    : ConsistentOn (compareTruncated limit measure) entries
      ↔ (∀ a ∈ entries, ∀ b ∈ entries, measure a - measure b < limit)
        ∧ ∀ a ∈ entries, ∀ b ∈ entries, ∀ c ∈ entries,
            measure a - measure b < 1 → measure b - measure c < 1 → measure a - measure c < 1 := by
  constructor
  · intro consistent
    have small : ∀ a ∈ entries, ∀ b ∈ entries, measure a - measure b < limit := by
      intro a inA b inB
      by_contra large
      rw [not_lt] at large
      have one : (1 : K) ≤ limit := by exact_mod_cast positive
      -- both directions of the comparison are negative
      have forwards : compareTruncated limit measure a b < 0 := by
        have tooLarge := (truncate_lt_iff (x := measure a - measure b) positive).not.mpr
          (not_lt.mpr large)
        rw [compareTruncated, truncateWithin, if_neg fun fits => tooLarge fits.2]
        omega
      have backwards : compareTruncated limit measure b a ≤ 0 := by
        refine (truncateWithin_le_zero_iff positive).mpr (.inl ?_)
        rw [← neg_sub]
        exact (neg_nonpos.mpr (zero_le_one.trans (one.trans large))).trans_lt one_pos
      exact absurd ((consistent.swap a inA b inB).mp forwards) (not_lt.mpr backwards)
    refine ⟨small, fun a inA b inB c inC first second => ?_⟩
    have step := consistent.trans a inA b inB c inC
      ((truncateWithin_le_zero_iff positive).mpr (.inl first))
      ((truncateWithin_le_zero_iff positive).mpr (.inl second))
    exact ((truncateWithin_le_zero_iff positive).mp step).resolve_right
      (not_le.mpr (small a inA c inC))
  · rintro ⟨small, close⟩
    have converted (a : α) (inA : a ∈ entries) (b : α) (inB : b ∈ entries)
        : compareTruncated limit measure a b = truncate (measure a - measure b) := by
      refine truncateWithin_of_lt positive (small a inA b inB) ?_
      rw [neg_sub]
      exact small b inB a inA
    constructor
    case swap =>
      intro a inA b inB
      rw [converted a inA b inB, converted b inB a inA, ← neg_sub (measure b), truncate_neg]
      exact neg_lt_zero
    case trans =>
      intro a inA b inB c inC
      rw [converted a inA b inB, converted b inB c inC, converted a inA c inC]
      simpa only [truncate_le_zero_iff] using close a inA b inB c inC

/-- Entries in the order of their measures are sorted. -/
theorem sortedBy_truncated (positive : 0 < limit)
    (ascending : entries.Pairwise fun a b => measure a ≤ measure b)
    : SortedBy (compareTruncated limit measure) entries := by
  refine ascending.imp fun ordered => ?_
  rw [compareTruncated, truncateWithin_le_zero_iff positive]
  exact .inl ((sub_nonpos.mpr ordered).trans_lt one_pos)

end Foundations

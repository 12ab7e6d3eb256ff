import Mathlib.Tactic

/-! Lengths that are cut into parts of one size, with a shorter last part where the size does not
divide the length.
-/

namespace Foundations

/-- The parts of a length, each from its start on, are not empty, do not overlap, and are the whole
length together.
-/
structure Tiles (size count : Nat) (start length : Nat → Nat) : Prop where
  nonempty : ∀ part < count, 0 < length part
  disjoint
    : ∀ first < count, ∀ second < count,
        first ≠ second
        → start first + length first ≤ start second
          ∨ start second + length second ≤ start first
  covers
    : ∀ offset,
        offset < size
        ↔ ∃ part < count, start part ≤ offset ∧ offset < start part + length part

variable {size unit count : Nat} {start length other otherLength : Nat → Nat}

/-- Nothing is not a tiling of something. -/
theorem Tiles.count_pos (tiles : Tiles size count start length) (some : 0 < size) : 0 < count := by
  obtain ⟨part, inRange, _⟩ := (tiles.covers 0).mp some
  exact Nat.zero_lt_of_lt inRange

/-- A part starts inside the length exactly when it is one of the rounded-up number of parts. -/
theorem unit_start_lt_iff (positive : 0 < unit) {part : Nat}
    : part < (size + unit - 1) / unit ↔ unit * part < size := by
  rw [Nat.lt_iff_add_one_le, Nat.le_div_iff_mul_le positive, Nat.add_mul, Nat.one_mul,
    Nat.mul_comm part unit]
  omega

/-- Parts of one size tile a length. -/
theorem tiles_units (positive : 0 < unit)
    : Tiles size ((size + unit - 1) / unit) (fun part => unit * part)
        (fun part => min unit (size - unit * part)) where
  nonempty part inRange := by
    have start := (unit_start_lt_iff positive).mp inRange
    omega
  disjoint first _ second _ apart := by
    rcases Nat.lt_or_gt_of_ne apart with before | after
    · have next : unit * (first + 1) ≤ unit * second := Nat.mul_le_mul_left unit before
      rw [Nat.mul_add, Nat.mul_one] at next
      exact .inl (by omega)
    · have next : unit * (second + 1) ≤ unit * first := Nat.mul_le_mul_left unit after
      rw [Nat.mul_add, Nat.mul_one] at next
      exact .inr (by omega)
  covers offset := by
    constructor
    · intro inside
      have floor := Nat.mul_div_le offset unit
      have above : offset < unit * (offset / unit) + unit := Nat.lt_mul_div_succ offset positive
      exact ⟨offset / unit, (unit_start_lt_iff positive).mpr (by omega), floor, by omega⟩
    · rintro ⟨part, _, _, before⟩
      omega

/-- A part lies inside the part of a multiple of its size that it starts in. -/
theorem unit_within {larger part : Nat} (divides : unit ∣ larger) (positive : 0 < larger)
    (starts : unit * part < size)
    : unit * part + min unit (size - unit * part)
      ≤ larger * (unit * part / larger) + min larger (size - larger * (unit * part / larger)) := by
  have floor := Nat.mul_div_le (unit * part) larger
  obtain ⟨factor, rfl⟩ := divides
  have unitPos : 0 < unit := Nat.pos_of_mul_pos_right positive
  have factorPos : 0 < factor := Nat.pos_of_mul_pos_left positive
  rw [Nat.mul_div_mul_left part factor unitPos] at floor ⊢
  have last : part + 1 ≤ factor * (part / factor) + factor := Nat.lt_mul_div_succ part factorPos
  have scaled := Nat.mul_le_mul_left unit last
  rw [Nat.mul_add, Nat.mul_add, ← Nat.mul_assoc, Nat.mul_one] at scaled
  omega

end Foundations

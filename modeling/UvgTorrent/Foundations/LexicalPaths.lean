import Mathlib.Tactic

/-! Paths that are resolved as texts: a name goes down, a parent segment takes back the last name,
or goes up where there is none. Nothing is above the start of an absolute path.
-/

namespace Foundations

inductive PathSegment (α : Type*) where
  | here
  | parent
  | name (name : α)
  deriving DecidableEq

/-- Where a path leads: so many levels above its start, and from there down along the names, the
innermost one first.
-/
@[ext] structure Location (α : Type*) where
  ups : Nat
  names : List α
  deriving DecidableEq

namespace Location

variable {α : Type*} {absolute : Bool} {folder relative : Location α}

/-- The start of a path. -/
def start : Location α := { ups := 0, names := [] }

/-- One segment further. -/
def step (absolute : Bool) (place : Location α) : PathSegment α → Location α
  | .here => place
  | .name name => { place with names := name :: place.names }
  | .parent =>
      match place.names with
      | _ :: names => { place with names }
      | [] => { place with ups := if absolute then place.ups else place.ups + 1 }

/-- All the segments of a path further. -/
def walk (absolute : Bool) (place : Location α) (segments : List (PathSegment α)) : Location α :=
  segments.foldl (step absolute) place

/-- From a place on along a relative location: its levels up take back names as long as there are
some.
-/
def follow (absolute : Bool) (place relative : Location α) : Location α where
  ups := if absolute then place.ups else place.ups + (relative.ups - place.names.length)
  names := relative.names ++ place.names.drop relative.ups

/-- A place is the folder or lies below it. -/
def Below (folder place : Location α) : Prop :=
  place.ups = folder.ups ∧ folder.names <:+ place.names

instance [DecidableEq α] (folder place : Location α) : Decidable (folder.Below place) :=
  inferInstanceAs (Decidable (_ ∧ _))

theorem walk_append (place : Location α) (first second : List (PathSegment α))
    : place.walk absolute (first ++ second) = (place.walk absolute first).walk absolute second :=
  List.foldl_append

@[simp] theorem follow_start (place : Location α) : place.follow absolute start = place := by
  cases absolute <;> simp [follow, start]

/-- To follow a location and then a segment is to follow the location that the segment leads to. -/
theorem step_follow (place relative : Location α) (segment : PathSegment α)
    : (place.follow absolute relative).step absolute segment
      = place.follow absolute (relative.step false segment) := by
  cases segment with
  | here => rfl
  | name name => rfl
  | parent =>
      obtain ⟨ups, names⟩ := relative
      cases names with
      | cons name names => rfl
      | nil =>
          -- the parent of a place with no names left is above the start of the path
          cases left : place.names.drop ups with
          | nil =>
              have spent : place.names.length ≤ ups := List.drop_eq_nil_iff.mp left
              have next : place.names.drop (ups + 1) = [] :=
                List.drop_eq_nil_of_le (Nat.le_succ_of_le spent)
              cases absolute with
              | true => simp [follow, step, left, next]
              | false =>
                  have above : ups - place.names.length + 1 = ups + 1 - place.names.length := by
                    omega
                  simp [follow, step, left, next, Nat.add_assoc, above]
          | cons name names =>
              have room : ups < place.names.length := by
                rw [← Nat.not_le, ← List.drop_eq_nil_iff, left]
                exact List.cons_ne_nil name names
              have next : place.names.drop (ups + 1) = names := by
                rw [← List.drop_drop, left, List.drop_one, List.tail_cons]
              have above : ups + 1 - place.names.length = ups - place.names.length := by
                omega
              cases absolute with
              | true => simp [follow, step, left, next]
              | false => simp [follow, step, left, next, above]

/-- To walk on from a place is to follow what the walk from nowhere leads to. -/
theorem walk_follow (place relative : Location α) (segments : List (PathSegment α))
    : (place.follow absolute relative).walk absolute segments
      = place.follow absolute (relative.walk false segments) := by
  induction segments generalizing relative with
  | nil => rfl
  | cons segment segments hyp =>
      rw [walk, List.foldl_cons, step_follow place relative segment]
      exact hyp (relative.step false segment)

theorem walk_eq_follow (place : Location α) (segments : List (PathSegment α))
    : place.walk absolute segments = place.follow absolute (start.walk false segments) := by
  have walked
      : (place.follow absolute start).walk absolute segments
        = place.follow absolute (start.walk false segments) :=
    walk_follow place start segments
  rwa [follow_start] at walked

/-- A location stays in the folder that it starts in: it does not go above the start of the
folder's path, and the names of the folder that it takes back it ends with again.
-/
def StaysBelow (absolute : Bool) (folder relative : Location α) : Prop :=
  (absolute = true ∨ relative.ups ≤ folder.names.length)
  ∧ folder.names.take relative.ups <:+ relative.names

instance [DecidableEq α] (absolute : Bool) (folder relative : Location α)
    : Decidable (StaysBelow absolute folder relative) :=
  inferInstanceAs (Decidable (_ ∧ _))

/-- Exactly these locations lead to places in the folder. -/
theorem below_follow_iff
    : folder.Below (folder.follow absolute relative) ↔ StaysBelow absolute folder relative := by
  have level
      : (folder.follow absolute relative).ups = folder.ups
        ↔ absolute = true ∨ relative.ups ≤ folder.names.length := by
    cases absolute with
    | true => simp [follow]
    | false =>
        simp only [follow, Bool.false_eq_true, if_false, false_or]
        omega
  have names
      : folder.names <:+ (folder.follow absolute relative).names
        ↔ folder.names.take relative.ups <:+ relative.names := by
    have whole := List.take_append_drop relative.ups folder.names
    rw [follow]
    conv_lhs => lhs; rw [← whole]
    exact List.suffix_append_self_iff
  rw [Below, StaysBelow, level, names]

end Location

end Foundations

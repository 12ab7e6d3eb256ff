import Mathlib.Tactic

/-! Scanners that consume a growing buffer item by item.
A step that can be taken on a buffer is taken in the same way when more input stands behind it,
so where a scanner ends does not depend on how its input was cut.
-/

namespace Foundations

variable {σ α ω : Type}

/-- A resumable scanner: a step consumes input and may emit items, and input that arrives later
does not change it.
-/
structure Scanner (σ α ω : Type) where
  step : σ → List α → Option (σ × List α × List ω)
  stable
    : ∀ {state input next rest items},
        step state input = some (next, rest, items)
        → ∀ more, step state (input ++ more) = some (next, rest ++ more, items)
  shrinks
    : ∀ {state input next rest items},
        step state input = some (next, rest, items) → rest.length < input.length

namespace Scanner

variable {scanner : Scanner σ α ω} {state next last : σ} {input rest final : List α}
  {items others : List ω}

/-- The second configuration is reached from the first by steps that emit the items. -/
inductive Reaches (scanner : Scanner σ α ω) : σ → List α → List ω → σ → List α → Prop
  | refl (state : σ) (input : List α) : Reaches scanner state input [] state input
  | step {state input next rest first last final items}
    (stepped : scanner.step state input = some (next, rest, first))
    (later : Reaches scanner next rest items last final)
    : Reaches scanner state input (first ++ items) last final

/-- No step can be taken. -/
def Blocked (scanner : Scanner σ α ω) (state : σ) (input : List α) : Prop :=
  scanner.step state input = none

theorem Reaches.one (stepped : scanner.step state input = some (next, rest, items))
    : scanner.Reaches state input items next rest := by
  simpa using Reaches.step stepped (.refl next rest)

theorem Reaches.trans (first : scanner.Reaches state input items next rest)
    (second : scanner.Reaches next rest others last final)
    : scanner.Reaches state input (items ++ others) last final := by
  induction first with
  | refl state input => simpa using second
  | step stepped later ih =>
      rw [List.append_assoc]
      exact .step stepped (ih second)

/-- Steps stay possible when more input stands behind. -/
theorem Reaches.append (path : scanner.Reaches state input items next rest) (more : List α)
    : scanner.Reaches state (input ++ more) items next (rest ++ more) := by
  induction path with
  | refl state input => exact .refl state (input ++ more)
  | step stepped later ih => exact .step (scanner.stable stepped more) ih

theorem Reaches.length_le (path : scanner.Reaches state input items next rest)
    : rest.length ≤ input.length := by
  induction path with
  | refl state input => exact Nat.le_refl _
  | step stepped later ih => exact ih.trans (Nat.le_of_lt (scanner.shrinks stepped))

/-- A blocked configuration is the last one of every longer path. -/
theorem Reaches.of_blocked (path : scanner.Reaches state input items next rest)
    (blocked : scanner.Blocked next rest)
    (other : scanner.Reaches state input others last final)
    : ∃ missing, items = others ++ missing ∧ scanner.Reaches last final missing next rest := by
  induction other generalizing items with
  | refl state input => exact ⟨items, rfl, path⟩
  | step stepped later ih =>
      cases path with
      | refl _ _ =>
          rw [Blocked, stepped] at blocked
          cases blocked
      | step stepped' later' =>
          rw [stepped] at stepped'
          cases stepped'
          obtain ⟨missing, same, reaches⟩ := ih later'
          exact ⟨missing, by rw [same, List.append_assoc], reaches⟩

/-- Paths from one configuration that cannot go on end in the same place with the same items. -/
theorem Reaches.unique (path : scanner.Reaches state input items next rest)
    (blocked : scanner.Blocked next rest)
    (other : scanner.Reaches state input others last final)
    (otherBlocked : scanner.Blocked last final)
    : items = others ∧ next = last ∧ rest = final := by
  obtain ⟨missing, same, reaches⟩ := path.of_blocked blocked other
  cases reaches with
  | refl _ _ => exact ⟨by simpa using same, rfl, rfl⟩
  | step stepped _ =>
      rw [Blocked, stepped] at otherBlocked
      cases otherBlocked

end Scanner

end Foundations

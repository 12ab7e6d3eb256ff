import Mathlib.Tactic

/-! Consumers of input in whole blocks. A block is taken into a state as soon as it is complete, and
what does not fill a block waits for more. How the input was cut into calls does not matter.
-/

namespace Foundations

variable {σ α : Type}

/-- A way to take blocks of one positive size into a state. -/
structure BlockConsumer (σ α : Type) where
  size : Nat
  positive : 0 < size
  compress : σ → List α → σ

namespace BlockConsumer

variable (consumer : BlockConsumer σ α)

-----------------------------------------------------------------------------------------
-- Whole blocks and what is left behind them
-----------------------------------------------------------------------------------------

/-- Takes the first `count` blocks of the input. -/
def takeBlocks : Nat → σ → List α → σ
  | 0, state, _ => state
  | count + 1, state, input =>
      takeBlocks count (consumer.compress state (input.take consumer.size))
        (input.drop consumer.size)

/-- Takes all the whole blocks of the input. -/
def absorb (state : σ) (input : List α) : σ :=
  consumer.takeBlocks (input.length / consumer.size) state input

/-- The input behind its whole blocks. -/
def residue (input : List α) : List α :=
  input.drop (consumer.size * (input.length / consumer.size))

variable {consumer} {state : σ} {input block rest : List α}

theorem residue_length
    : (consumer.residue input).length = input.length % consumer.size := by
  have split := Nat.div_add_mod input.length consumer.size
  rw [residue, List.length_drop]
  omega

/-- Input that does not fill a block only waits. -/
theorem absorb_of_short (short : input.length < consumer.size)
    : consumer.absorb state input = state := by
  rw [absorb, Nat.div_eq_of_lt short, takeBlocks]

theorem residue_of_short (short : input.length < consumer.size)
    : consumer.residue input = input := by
  rw [residue, Nat.div_eq_of_lt short, Nat.mul_zero, List.drop_zero]

theorem whole_block_count (whole : block.length = consumer.size)
    : (block ++ rest).length / consumer.size = rest.length / consumer.size + 1 := by
  rw [List.length_append, whole, Nat.add_comm, Nat.add_div_right _ consumer.positive]

/-- A whole block in front is taken first. -/
theorem absorb_block (whole : block.length = consumer.size)
    : consumer.absorb state (block ++ rest)
      = consumer.absorb (consumer.compress state block) rest := by
  rw [absorb, whole_block_count whole, takeBlocks, List.take_left' whole,
    List.drop_left' whole, absorb]

theorem residue_block (whole : block.length = consumer.size)
    : consumer.residue (block ++ rest) = consumer.residue rest := by
  rw [residue, whole_block_count whole, Nat.mul_add, Nat.mul_one, Nat.add_comm,
    ← List.drop_drop, List.drop_left' whole, residue]

-----------------------------------------------------------------------------------------
-- Consecutive calls
-----------------------------------------------------------------------------------------

/-- Whether input is taken at once or in two parts, the state is the same, and so is what waits. -/
theorem absorb_append (consumer : BlockConsumer σ α) (state : σ) (first second : List α)
    : consumer.absorb state (first ++ second)
        = consumer.absorb (consumer.absorb state first) (consumer.residue first ++ second)
      ∧ consumer.residue (first ++ second)
        = consumer.residue (consumer.residue first ++ second) := by
  -- the induction is on the number of whole blocks of the first part
  generalize counted : first.length / consumer.size = count
  induction count generalizing state first with
  | zero =>
      have short : first.length < consumer.size :=
        (Nat.div_eq_zero_iff_lt consumer.positive).mp counted
      rw [absorb_of_short short, residue_of_short short]
      exact ⟨rfl, rfl⟩
  | succ count ih =>
      have enough : consumer.size ≤ first.length := by
        by_contra short
        rw [Nat.div_eq_of_lt (by omega)] at counted
        cases counted
      have whole : (first.take consumer.size).length = consumer.size :=
        List.length_take_of_le enough
      have split : first = first.take consumer.size ++ first.drop consumer.size :=
        (List.take_append_drop _ first).symm
      generalize first.take consumer.size = block at whole split
      generalize first.drop consumer.size = tail at split
      subst split
      rw [whole_block_count whole, Nat.add_right_cancel_iff] at counted
      obtain ⟨sameState, sameResidue⟩ := ih (consumer.compress state block) tail counted
      rw [List.append_assoc, absorb_block whole, residue_block whole, absorb_block whole,
        residue_block whole]
      exact ⟨sameState, sameResidue⟩

end BlockConsumer

end Foundations

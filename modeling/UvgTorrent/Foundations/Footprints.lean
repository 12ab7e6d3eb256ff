import Mathlib.Tactic
import Mathlib.Logic.Relation

/-! Which kinds of changes lead from one state to another. A function is described by the kinds of
changes that it makes, and keeps whatever each of them keeps.
-/

namespace Foundations

variable {σ κ : Type}

/-- A state is reached from another one by changes of the given kinds. -/
def Within (change : κ → σ → σ → Prop) (kinds : List κ) : σ → σ → Prop :=
  Relation.ReflTransGen fun state next => ∃ kind ∈ kinds, change kind state next

namespace Within

variable {change : κ → σ → σ → Prop} {kinds more : List κ} {state next last : σ}

theorem refl (state : σ) : Within change kinds state state :=
  Relation.ReflTransGen.refl

theorem trans (first : Within change kinds state next) (second : Within change kinds next last)
    : Within change kinds state last :=
  Relation.ReflTransGen.trans first second

theorem of_change {kind : κ} (member : kind ∈ kinds) (changed : change kind state next)
    : Within change kinds state next :=
  .single ⟨kind, member, changed⟩

/-- Fewer kinds of changes are also changes of more kinds. -/
theorem mono (included : kinds ⊆ more) (within : Within change kinds state next)
    : Within change more state next :=
  Relation.ReflTransGen.mono
    (fun _ _ ⟨kind, member, changed⟩ => ⟨kind, included member, changed⟩) _ _ within

/-- What every change keeps is kept. -/
theorem keeps {holds : σ → Prop}
    (kept
      : ∀ kind ∈ kinds, ∀ state next,
          change kind state next
          → holds state
          → holds next)
    (within : Within change kinds state next) (start : holds state)
    : holds next := by
  induction within with
  | refl => exact start
  | tail _ step ih =>
      obtain ⟨kind, member, changed⟩ := step
      exact kept kind member _ _ changed ih

/-- What no change touches stays the same. -/
theorem same {β : Type} (field : σ → β)
    (kept : ∀ kind ∈ kinds, ∀ state next, change kind state next → field next = field state)
    (within : Within change kinds state next)
    : field next = field state := by
  induction within with
  | refl => rfl
  | tail _ step ih =>
      obtain ⟨kind, member, changed⟩ := step
      rw [kept kind member _ _ changed, ih]

end Within

end Foundations

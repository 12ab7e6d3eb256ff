import Mathlib.Tactic

/-! Finite runs of a step function that may fault.
A run stops at its first fault; an invariant of guarded steps holds in every state a guarded
run reaches.
-/

namespace Foundations

variable {σ α ε : Type}

/-- Execute the operations in order, stopping at the first fault. -/
def runSteps (step : σ → α → Except ε σ) : σ → List α → Except ε σ
  | state, [] => .ok state
  | state, operation :: rest => (step state operation).bind (runSteps step · rest)

/-- Every operation of the run is made in a state that meets its guard. -/
def Guarded (step : σ → α → Except ε σ) (guard : σ → α → Prop) : σ → List α → Prop
  | _, [] => True
  | state, operation :: rest =>
      guard state operation
      ∧ ∀ next, step state operation = .ok next → Guarded step guard next rest

/-- A run is executed to decide whether its steps meet a decidable guard. -/
instance Guarded.decide (step : σ → α → Except ε σ) (guard : σ → α → Prop)
    [∀ state operation, Decidable (guard state operation)]
    : (state : σ) → (operations : List α) → Decidable (Guarded step guard state operations)
  | _, [] => .isTrue trivial
  | state, operation :: rest =>
      match stepped : step state operation with
      | .error _ => decidable_of_iff (guard state operation) (by simp [Guarded, stepped])
      | .ok next =>
          have := Guarded.decide step guard next rest
          decidable_of_iff (guard state operation ∧ Guarded step guard next rest)
            (by simp [Guarded, stepped])

theorem bind_of_ok {β γ : Type} {first : Except ε β} {value : β} (returned : first = .ok value)
    (second : β → Except ε γ)
    : first.bind second = second value := by
  rw [returned]
  rfl

theorem bind_of_error {β γ : Type} {first : Except ε β} {fault : ε}
    (faulted : first = .error fault) (second : β → Except ε γ)
    : first.bind second = .error fault := by
  rw [faulted]
  rfl

/-- The computation returns a value that passes a test. -/
def returnsWith {β : Type} (computation : Except ε β) (test : β → Bool) : Bool :=
  match computation with
  | .ok value => test value
  | .error _ => false

theorem exists_ok_of_returnsWith {β : Type} {computation : Except ε β} {test : β → Bool}
    (passed : returnsWith computation test = true)
    : ∃ value, computation = .ok value ∧ test value = true := by
  cases computation with
  | ok value => exact ⟨value, rfl, passed⟩
  | error fault => cases passed

/-- A computation is executed to decide whether what it returns meets a decidable property. -/
instance decideReturned {β : Type} (computation : Except ε β) (property : β → Prop)
    [DecidablePred property]
    : Decidable (∀ value, computation = .ok value → property value) :=
  match computation with
  | .ok value => decidable_of_iff (property value) (by simp)
  | .error _ => .isTrue (by simp)

/-- A computation followed by another one returns exactly when both do. -/
theorem bind_eq_ok {β γ : Type} {first : Except ε β} {second : β → Except ε γ} {result : γ}
    : first.bind second = .ok result
      ↔ ∃ value, first = .ok value ∧ second value = .ok result := by
  cases first <;> simp [Except.bind]

/-- A computation followed by another one faults when either does. -/
theorem bind_eq_error {β γ : Type} {first : Except ε β} {second : β → Except ε γ} {fault : ε}
    : first.bind second = .error fault
      ↔ first = .error fault ∨ ∃ value, first = .ok value ∧ second value = .error fault := by
  cases first <;> simp [Except.bind]

/-- The computation returns. -/
def Returns {β : Type} (computation : Except ε β) : Prop := ∃ value, computation = .ok value

theorem returns_ok {β : Type} (value : β) : Returns (.ok value : Except ε β) := ⟨value, rfl⟩

theorem not_returns_error {β : Type} (fault : ε) : ¬ Returns (.error fault : Except ε β) := by
  rintro ⟨value, same⟩
  cases same

theorem returns_bind {β γ : Type} {first : Except ε β} {second : β → Except ε γ}
    : Returns (first.bind second) ↔ ∃ value, first = .ok value ∧ Returns (second value) := by
  cases first with
  | ok value => simp [Except.bind]
  | error fault => simp [Except.bind, not_returns_error]

/-- Only the first of two computations can fault. -/
theorem returns_bind_ok {β γ : Type} {first : Except ε β} {second : β → Except ε γ}
    (later : ∀ value, Returns (second value))
    : Returns (first.bind second) ↔ Returns first := by
  rw [returns_bind]
  exact ⟨fun ⟨value, same, _⟩ => ⟨value, same⟩, fun ⟨value, same⟩ => ⟨value, same, later value⟩⟩

/-- The computation ends in no other fault than the allowed ones. -/
def FaultsOnly {β : Type} (allowed : ε → Prop) (computation : Except ε β) : Prop :=
  ∀ fault, computation = .error fault → allowed fault

theorem FaultsOnly.ok {β : Type} {allowed : ε → Prop} (value : β)
    : FaultsOnly allowed (.ok value : Except ε β) := by
  intro fault faulted
  cases faulted

theorem FaultsOnly.error {β : Type} {allowed : ε → Prop} {fault : ε} (isAllowed : allowed fault)
    : FaultsOnly allowed (.error fault : Except ε β) := by
  intro other faulted
  cases faulted
  exact isAllowed

theorem FaultsOnly.mono {β : Type} {allowed wider : ε → Prop} {computation : Except ε β}
    (faults : FaultsOnly allowed computation) (wide : ∀ fault, allowed fault → wider fault)
    : FaultsOnly wider computation :=
  fun fault faulted => wide fault (faults fault faulted)

/-- A computation followed by another one ends in a fault of one of them. -/
theorem FaultsOnly.bind {β γ : Type} {allowed : ε → Prop} {first : Except ε β}
    {second : β → Except ε γ} (faults : FaultsOnly allowed first)
    (later : ∀ value, FaultsOnly allowed (second value))
    : FaultsOnly allowed (first.bind second) := by
  intro fault faulted
  rcases bind_eq_error.mp faulted with faulted | ⟨value, _, faulted⟩
  · exact faults fault faulted
  · exact later value fault faulted

theorem runSteps_cons_eq_ok {step : σ → α → Except ε σ} {state final : σ}
    {operation : α} {rest : List α}
    : runSteps step state (operation :: rest) = .ok final
      ↔ ∃ next, step state operation = .ok next ∧ runSteps step next rest = .ok final :=
  bind_eq_ok

/-- Two runs in a row. -/
theorem runSteps_append {step : σ → α → Except ε σ} {state next final : σ} {first rest : List α}
    (ran : runSteps step state first = .ok next) (later : runSteps step next rest = .ok final)
    : runSteps step state (first ++ rest) = .ok final := by
  induction first generalizing state with
  | nil =>
      cases ran
      exact later
  | cons operation first ih =>
      obtain ⟨middle, stepped, ran⟩ := runSteps_cons_eq_ok.mp ran
      exact runSteps_cons_eq_ok.mpr ⟨middle, stepped, ih ran⟩

/-- What every guarded step preserves, every guarded run preserves. -/
theorem runSteps_invariant {step : σ → α → Except ε σ} {guard : σ → α → Prop}
    {invariant : σ → Prop}
    (preserved
      : ∀ state operation next,
          invariant state
          → guard state operation
          → step state operation = .ok next
          → invariant next)
    {state final : σ} {operations : List α} (start : invariant state)
    (guarded : Guarded step guard state operations)
    (run : runSteps step state operations = .ok final)
    : invariant final := by
  induction operations generalizing state with
  | nil =>
      cases run
      exact start
  | cons operation rest ih =>
      obtain ⟨next, first, later⟩ := runSteps_cons_eq_ok.mp run
      exact ih (preserved state operation next start guarded.1 first) (guarded.2 next first) later

/-- Where every step ends well exactly when it starts well and meets a guard, a run ends well
exactly when it starts well and all its steps meet the guard.
-/
theorem runSteps_good_iff {step : σ → α → Except ε σ} {allowed guard : σ → α → Prop}
    {invariant good : σ → Prop}
    (stepped
      : ∀ state operation next,
          invariant state
          → allowed state operation
          → step state operation = .ok next
          → invariant next ∧ (good next ↔ good state ∧ guard state operation))
    {state final : σ} {operations : List α} (start : invariant state)
    (within : Guarded step allowed state operations)
    (run : runSteps step state operations = .ok final)
    : good final ↔ good state ∧ Guarded step guard state operations := by
  induction operations generalizing state with
  | nil =>
      cases run
      simp [Guarded]
  | cons operation rest ih =>
      obtain ⟨next, first, later⟩ := runSteps_cons_eq_ok.mp run
      obtain ⟨kept, goodNext⟩ := stepped state operation next start within.1 first
      rw [ih kept (within.2 next first) later, goodNext]
      constructor
      · rintro ⟨⟨before, met⟩, guarded⟩
        refine ⟨before, met, fun other reached => ?_⟩
        rw [first] at reached
        cases reached
        exact guarded
      · rintro ⟨before, met, guarded⟩
        exact ⟨⟨before, met⟩, guarded next first⟩

/-- Every step is allowed when nothing is asked of it. -/
theorem Guarded.of_forall {step : σ → α → Except ε σ} {guard : σ → α → Prop}
    (always : ∀ state operation, guard state operation) (state : σ) (operations : List α)
    : Guarded step guard state operations := by
  induction operations generalizing state with
  | nil => trivial
  | cons operation rest ih => exact ⟨always state operation, fun next _ => ih next⟩

/-- A guard can be narrowed by what holds of every operation. -/
theorem Guarded.and_of_mem {step : σ → α → Except ε σ} {guard : σ → α → Prop} {allowed : α → Prop}
    {state : σ} {operations : List α} (guarded : Guarded step guard state operations)
    (each : ∀ operation ∈ operations, allowed operation)
    : Guarded step (fun state operation => guard state operation ∧ allowed operation) state
        operations := by
  induction operations generalizing state with
  | nil => trivial
  | cons operation rest ih =>
      exact ⟨⟨guarded.1, each operation List.mem_cons_self⟩, fun next first =>
        ih (guarded.2 next first) fun later member =>
          each later (List.mem_cons_of_mem operation member)⟩

/-- A run whose steps meet a guard also meets what the guard gives in every state of an invariant.
-/
theorem Guarded.of_invariant {step : σ → α → Except ε σ} {guard goal : σ → α → Prop}
    {invariant : σ → Prop}
    (steps
      : ∀ state operation,
          invariant state
          → guard state operation
          → goal state operation
            ∧ ∀ next, step state operation = .ok next → invariant next)
    {state : σ} {operations : List α} (start : invariant state)
    (guarded : Guarded step guard state operations)
    : Guarded step goal state operations := by
  induction operations generalizing state with
  | nil => trivial
  | cons operation rest ih =>
      obtain ⟨met, kept⟩ := steps state operation start guarded.1
      exact ⟨met, fun next first => ih (kept next first) (guarded.2 next first)⟩

/-- Over a run within an invariant, two guards that agree in its states agree. -/
theorem Guarded.iff_of_invariant {step : σ → α → Except ε σ} {allowed guard goal : σ → α → Prop}
    {invariant : σ → Prop}
    (steps
      : ∀ state operation,
          invariant state
          → allowed state operation
          → (goal state operation ↔ guard state operation)
            ∧ ∀ next, step state operation = .ok next → invariant next)
    {state : σ} {operations : List α} (start : invariant state)
    (within : Guarded step allowed state operations)
    : Guarded step goal state operations ↔ Guarded step guard state operations := by
  induction operations generalizing state with
  | nil => rfl
  | cons operation rest ih =>
      obtain ⟨same, kept⟩ := steps state operation start within.1
      unfold Guarded
      rw [same]
      constructor
      · rintro ⟨met, later⟩
        exact ⟨met, fun next first =>
          (ih (kept next first) (within.2 next first)).mp (later next first)⟩
      · rintro ⟨met, later⟩
        exact ⟨met, fun next first =>
          (ih (kept next first) (within.2 next first)).mpr (later next first)⟩

/-- The operation behind a run meets the guard as well. -/
theorem Guarded.last {step : σ → α → Except ε σ} {guard : σ → α → Prop} {state final : σ}
    {operations : List α} {operation : α}
    (guarded : Guarded step guard state (operations ++ [operation]))
    (run : runSteps step state operations = .ok final)
    : guard final operation := by
  induction operations generalizing state with
  | nil =>
      cases run
      exact guarded.1
  | cons first rest ih =>
      obtain ⟨next, stepped, later⟩ := runSteps_cons_eq_ok.mp run
      exact ih (guarded.2 next stepped) later

/-- A guarded run returns when every guarded step from a state of the invariant returns to it. -/
theorem runSteps_returns_of_guarded {step : σ → α → Except ε σ} {guard : σ → α → Prop}
    {invariant : σ → Prop}
    (steps
      : ∀ state operation,
          invariant state
          → guard state operation
          → ∃ next, step state operation = .ok next ∧ invariant next)
    {state : σ} {operations : List α} (start : invariant state)
    (guarded : Guarded step guard state operations)
    : ∃ final, runSteps step state operations = .ok final ∧ invariant final := by
  induction operations generalizing state with
  | nil => exact ⟨state, rfl, start⟩
  | cons operation rest ih =>
      obtain ⟨next, first, holds⟩ := steps state operation start guarded.1
      obtain ⟨final, later, holdsFinal⟩ := ih holds (guarded.2 next first)
      exact ⟨final, runSteps_cons_eq_ok.mpr ⟨next, first, later⟩, holdsFinal⟩

/-- A run returns when every step from a state of the invariant returns to the invariant. -/
theorem runSteps_returns {step : σ → α → Except ε σ} {invariant : σ → Prop}
    {operations : List α}
    (returns
      : ∀ state, invariant state → ∀ operation ∈ operations,
          ∃ next, step state operation = .ok next ∧ invariant next)
    {state : σ} (start : invariant state)
    : ∃ final, runSteps step state operations = .ok final ∧ invariant final := by
  induction operations generalizing state with
  | nil => exact ⟨state, rfl, start⟩
  | cons operation rest ih =>
      obtain ⟨next, first, holds⟩ := returns state start operation (by simp)
      obtain ⟨final, later, holdsFinal⟩ :=
        ih (fun state kept other member => returns state kept other (by simp [member])) holds
      exact ⟨final, runSteps_cons_eq_ok.mpr ⟨next, first, later⟩, holdsFinal⟩

/-- Where every step from a state of the invariant meets its guard and returns to the invariant, or
misses its guard and ends in one fault, so does a run.
-/
theorem runSteps_guarded_or_faults {step : σ → α → Except ε σ} {guard : σ → α → Prop}
    {invariant : σ → Prop} {fault : ε}
    (steps
      : ∀ state operation,
          invariant state
          → (guard state operation ∧ ∃ next, step state operation = .ok next ∧ invariant next)
            ∨ (¬ guard state operation ∧ step state operation = .error fault))
    {state : σ} {operations : List α} (start : invariant state)
    : (Guarded step guard state operations
          ∧ ∃ final, runSteps step state operations = .ok final ∧ invariant final)
        ∨ (¬ Guarded step guard state operations
          ∧ runSteps step state operations = .error fault) := by
  induction operations generalizing state with
  | nil => exact .inl ⟨trivial, state, rfl, start⟩
  | cons operation rest ih =>
      rcases steps state operation start with ⟨met, next, first, holds⟩ | ⟨missed, faulted⟩
      · have reached (other : σ) (same : step state operation = .ok other) : next = other :=
          Except.ok.inj (first.symm.trans same)
        rcases ih holds with ⟨guarded, final, later, kept⟩ | ⟨unguarded, faulted⟩
        · refine .inl ⟨⟨met, fun other same => reached other same ▸ guarded⟩, final, ?_, kept⟩
          exact runSteps_cons_eq_ok.mpr ⟨next, first, later⟩
        · refine .inr ⟨fun guarded => unguarded (guarded.2 next first), ?_⟩
          exact (bind_of_ok first _).trans faulted
      · exact .inr ⟨fun guarded => missed guarded.1, bind_of_error faulted _⟩

end Foundations

import UvgTorrent.Containers.Queues
import UvgTorrent.Foundations.FallibleRuns

/-! Runs of `queue.c`. What was pushed comes out in order, through emptying and refilling the queue,
as long as the number of queued elements is an `int`.
-/

namespace UvgTorrent

open Foundations

variable {α : Type}

/-- One call on the queue; a push gets the memory for its node. -/
inductive QueueCall (α : Type) where
  | push (elem : α)
  | pop
  | getCount
  deriving DecidableEq, Repr

/-- The queue, with all that was pushed to it and all that was popped from it. -/
structure QueueRun (α : Type) where
  q : Queue α
  pushed : List α
  popped : List α

namespace QueueRun

variable {run next : QueueRun α} {queued : List α}

/-- A new queue. -/
def start : QueueRun α := { q := .new, pushed := [], popped := [] }

/-- The state after one call. A pop from the empty queue returns `NULL`, and `queue_get_count`
changes nothing.
-/
def perform (run : QueueRun α) : QueueCall α → Except Fault (QueueRun α)
  | .push elem =>
      (run.q.push elem true).bind fun (q, _) =>
        .ok { run with q, pushed := run.pushed ++ [elem] }
  | .pop =>
      run.q.pop.bind fun (q, elem) => .ok { run with q, popped := run.popped ++ elem.toList }
  | .getCount => .ok run

/-- The popped elements and those that can be reached from `head` are the pushed ones in order, and
`queue_get_count` tells how many can be reached.
-/
structure FirstInFirstOut (run : QueueRun α) : Prop where
  order : run.popped ++ run.q.elems = run.pushed
  count : run.q.getCount = run.q.elems.length

/-- A push leaves no more elements in the queue than its `int` can count. -/
def Countable (run : QueueRun α) : QueueCall α → Prop
  | .push _ => run.q.elems.length < 2 ^ 31 - 1
  | _ => True

instance (run : QueueRun α) (call : QueueCall α) : Decidable (run.Countable call) :=
  match call with
  | .push _ => inferInstanceAs (Decidable (_ < _))
  | .pop => inferInstanceAs (Decidable True)
  | .getCount => inferInstanceAs (Decidable True)

/-- The queue is well linked, and what it holds continues what was popped. -/
def InOrder (run : QueueRun α) : Prop :=
  ∃ queued, run.q.Holds queued ∧ run.popped ++ queued = run.pushed ∧ queued.length < 2 ^ 31

theorem start_inOrder : (start : QueueRun α).InOrder :=
  ⟨[], Queue.new_holds, rfl, by norm_num⟩

theorem InOrder.firstInFirstOut (inOrder : run.InOrder) : run.FirstInFirstOut := by
  obtain ⟨queued, holds, order, -⟩ := inOrder
  constructor
  · rw [holds.elems_eq, order]
  · rw [holds.elems_eq]
    exact holds.count

/-- A call keeps the order; only a push onto as many elements as an `int` can count does not return.
-/
theorem InOrder.perform (inOrder : run.InOrder) (call : QueueCall α)
    : (run.Countable call ∧ ∃ next, run.perform call = .ok next ∧ next.InOrder)
      ∨ (¬ run.Countable call ∧ run.perform call = .error .signedOverflow) := by
  obtain ⟨queued, holds, order, fits⟩ := inOrder
  cases call with
  | push elem =>
      have room : run.Countable (.push elem) ↔ queued.length < 2 ^ 31 - 1 := by
        rw [Countable, holds.elems_eq]
      rcases holds.push elem with ⟨overflows, full⟩ | ⟨free, q, pushed, later⟩
      · exact .inr ⟨by rw [room]; omega, bind_of_error overflows _⟩
      · refine .inl ⟨by rw [room]; omega, _, bind_of_ok pushed _, queued ++ [elem], later, ?_, ?_⟩
        · rw [← List.append_assoc, order]
        · rw [List.length_append, List.length_singleton]
          omega
  | pop =>
      cases queued with
      | nil =>
          refine .inl ⟨trivial, _, bind_of_ok holds.pop_nil _, [], holds, ?_, fits⟩
          simpa using order
      | cons elem rest =>
          obtain ⟨q, popped, later⟩ := holds.pop_cons
          refine .inl ⟨trivial, _, bind_of_ok popped _, rest, later, ?_, ?_⟩
          · simpa using order
          · rw [List.length_cons] at fits
            omega
  | getCount => exact .inl ⟨trivial, run, rfl, queued, holds, order, fits⟩

/-- Every run of calls is first in, first out, and every push in it links behind a node that is
still in the queue, exactly when no push makes the queue longer than its `int` can count. A run that
does ends there.
-/
theorem firstInFirstOut_iff (calls : List (QueueCall α))
    : ((∃ final, runSteps perform start calls = .ok final ∧ final.FirstInFirstOut)
        ↔ Guarded perform Countable start calls)
      ∧ FaultsOnly (· = .signedOverflow) (runSteps perform (start : QueueRun α) calls) := by
  rcases runSteps_guarded_or_faults (fun _ call inOrder => InOrder.perform inOrder call)
    (@start_inOrder α) with ⟨guarded, final, ran, inOrder⟩ | ⟨unguarded, overflows⟩
  · refine ⟨iff_of_true ⟨final, ran, inOrder.firstInFirstOut⟩ guarded, ?_⟩
    rw [ran]
    exact .ok final
  · rw [overflows]
    refine ⟨iff_of_false ?_ unguarded, .error rfl⟩
    rintro ⟨final, ran, -⟩
    cases ran

/-- Pushes alone overflow the count. Witness: induction on the pushes that are left. -/
theorem pushes_overflow {elem : α} {count : Nat} (holds : run.q.Holds queued)
    (few : queued.length < 2 ^ 31) (many : queued.length + count = 2 ^ 31)
    : runSteps perform run (List.replicate count (.push elem)) = .error .signedOverflow := by
  induction count generalizing run queued with
  | zero => omega
  | succ count ih =>
      rw [List.replicate_succ]
      rcases holds.push elem with ⟨overflows, _⟩ | ⟨free, q, pushed, later⟩
      · exact bind_of_error (bind_of_error overflows _) _
      · have longer : (queued ++ [elem]).length = queued.length + 1 := by simp
        have first : run.perform (.push elem)
            = .ok { run with q, pushed := run.pushed ++ [elem] } :=
          bind_of_ok pushed _
        rw [runSteps, bind_of_ok first]
        exact ih later (by omega) (by omega)

/-- 2^31 pushes without a pop do not return. -/
theorem not_always_firstInFirstOut
    : ¬ ∀ calls : List (QueueCall Nat),
        ∃ final, runSteps perform start calls = .ok final ∧ final.FirstInFirstOut := by
  intro claim
  obtain ⟨final, ran, -⟩ := claim (List.replicate (2 ^ 31) (.push 7))
  have overflows := @pushes_overflow Nat start [] 7 (2 ^ 31) Queue.new_holds (by norm_num)
    (by norm_num)
  rw [overflows] at ran
  cases ran

end QueueRun

end UvgTorrent

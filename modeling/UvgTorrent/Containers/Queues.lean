import UvgTorrent.Foundations.PointerChains
import UvgTorrent.Outcomes

/-! `queue.c`: a linked list with a count, which is filled at its tail and emptied at its head.
Each call holds the queue's mutex from its beginning to its end, so calls are single steps.
-/

namespace UvgTorrent

open Foundations

variable {α : Type}

/-- `struct Queue` without its mutex; the nodes are the list from `head`. -/
structure Queue (α : Type) where
  count : Int
  nodes : PtrList α
  tail : Option Nat

namespace Queue

/-- `queue_new`, when memory is available. -/
def new : Queue α := { count := 0, nodes := .nil, tail := none }

/-- `queue_push`. The tail is only followed when there is a head. -/
def push (q : Queue α) (elem : α) (allocates : Bool) : Except Fault (Queue α × Exit) :=
  if allocates then
    let address := q.nodes.heap.fresh
    let nodes := q.nodes.allocLast elem
    if q.count = 2 ^ 31 - 1 then .error .signedOverflow
    else
      match q.nodes.head with
      | none =>
          .ok
            ({
                count := q.count + 1
                nodes := nodes.store .head (some address)
                tail := some address
              }, .success)
      | some _ =>
          match q.tail with
          | none => .error .nullPointer
          | some tail =>
              match nodes.heap.cell tail with
              | none => .error .danglingPointer
              | some _ =>
                  .ok
                    ({
                        count := q.count + 1
                        nodes := nodes.store (.nextOf tail) (some address)
                        tail := some address
                      }, .success)
  else .ok (q, .failure)

/-- `queue_pop`; the tail keeps the address of the last node also when that node is freed. -/
def pop (q : Queue α) : Except Fault (Queue α × Option α) :=
  if q.count = 0 then .ok (q, none)
  else
    match q.nodes.head with
    | none => .error .nullPointer
    | some address =>
        match q.nodes.heap.cell address with
        | none => .error .danglingPointer
        | some node =>
            .ok
              ({
                  q with
                  count := q.count - 1
                  nodes := (q.nodes.free address).store .head node.next
                }, some node.value)

/-- `queue_get_count`. -/
def getCount (q : Queue α) : Int := q.count

/-- The elements that can be reached from `head`. -/
def elems (q : Queue α) : List α := q.nodes.values

/-- The queue holds the given elements, in the order in which they will be popped. -/
structure Holds (q : Queue α) (elems : List α) : Prop where
  count : q.count = elems.length
  chain
    : ∃ nodes,
        q.nodes.Holds nodes
        ∧ nodes.map Prod.snd = elems
        ∧ ∀ last ∈ nodes.getLast?, q.tail = some last.1

variable {q : Queue α} {elems : List α}

theorem new_holds : (new : Queue α).Holds [] :=
  ⟨rfl, [], PtrList.nil_holds, rfl, fun last none => by cases none⟩

theorem Holds.elems_eq (holds : q.Holds elems) : q.elems = elems := by
  obtain ⟨_, nodes, chain, rfl, _⟩ := holds
  exact chain.values_eq

/-- A push that gets its memory appends, unless the count is at its end. -/
theorem Holds.push (holds : q.Holds elems) (elem : α)
    : q.push elem true = .error .signedOverflow ∧ elems.length = 2 ^ 31 - 1
      ∨ elems.length ≠ 2 ^ 31 - 1
        ∧ ∃ next, q.push elem true = .ok (next, .success) ∧ next.Holds (elems ++ [elem]) := by
  obtain ⟨count, nodes, chain, rfl, tail⟩ := holds
  rw [List.length_map] at count
  unfold Queue.push
  rw [if_pos rfl]
  dsimp only
  by_cases full : q.count = 2 ^ 31 - 1
  · rw [if_pos full, List.length_map]
    exact .inl ⟨rfl, by omega⟩
  rw [if_neg full]
  refine .inr ⟨by rw [List.length_map]; omega, ?_⟩
  rcases List.eq_nil_or_concat nodes with rfl | ⟨front, last, rfl⟩
  · have head : q.nodes.head = none := chain
    rw [head]
    refine ⟨_, rfl, by simp [count], _, PtrList.allocLast_holds q.nodes elem, rfl, ?_⟩
    · intro last here
      cases here
      rfl
  · rw [List.concat_eq_append] at *
    have opened : q.nodes.At (slotAfter front) front [last] := ⟨chain, rfl⟩
    have found := opened.cell
    have some : ∃ address, q.nodes.head = some address := by
      cases front with
      | nil => exact ⟨_, chain.choose_spec.1⟩
      | cons first rest => exact ⟨_, chain.choose_spec.1⟩
    obtain ⟨address, head⟩ := some
    rw [head, tail last (by simp)]
    dsimp only
    rw [PtrList.allocLast, CellHeap.alloc_cell_of_found found]
    refine ⟨_, rfl, ?_, _, chain.linkLast elem, by simp, ?_⟩
    · simp only [count, List.length_append, List.length_map, List.length_singleton]
      omega
    · intro newLast here
      simp at here
      rw [← here]

/-- A push that gets no memory changes nothing. -/
theorem push_unallocated (q : Queue α) (elem : α) : q.push elem false = .ok (q, .failure) := rfl

theorem Holds.pop_nil (holds : q.Holds []) : q.pop = .ok (q, none) := by
  rw [pop, if_pos (by simpa using holds.count)]

/-- A pop takes the first element. -/
theorem Holds.pop_cons {elem : α} {rest : List α} (holds : q.Holds (elem :: rest))
    : ∃ next, q.pop = .ok (next, some elem) ∧ next.Holds rest := by
  obtain ⟨count, nodes, chain, values, tail⟩ := holds
  cases nodes with
  | nil => cases values
  | cons node others =>
      cases values
      have opened := chain.at_head
      have head : q.nodes.head = some node.1 := chain.choose_spec.1
      rw [List.length_cons] at count
      rw [pop, if_neg (by omega), head]
      dsimp only
      rw [opened.cell]
      refine ⟨_, rfl, by dsimp only; omega, others, opened.remove.holds, rfl, ?_⟩
      intro last here
      refine tail last ?_
      cases others with
      | nil => cases here
      | cons second more => exact here

theorem Holds.getCount_pos (holds : q.Holds elems) : 0 < q.getCount ↔ elems ≠ [] := by
  rw [getCount, holds.count, ← List.length_pos_iff]
  omega

end Queue

end UvgTorrent

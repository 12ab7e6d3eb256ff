import UvgTorrent.Containers.HashMaps
import UvgTorrent.Foundations.FallibleRuns
import UvgTorrent.Foundations.PointerChains

/-! `hash_map.c` with its items in memory: each bucket is a pointer to a chain of items, all in one
memory. The loops follow the pointers as the source does, and they are shown to do what the list
operations of `HashMap` do.
-/

namespace UvgTorrent

open Foundations

variable {α : Type}

/-- `struct HashMapItem`: its own copy of the key, and the value. Its `next` is the cell's. -/
abbrev HashMapItem (α : Type) := CString × α

/-- `struct HashMap`, with the memory of its items. -/
structure HashMapCells (α : Type) where
  maxBuckets : Nat
  buckets : Nat → Option Nat
  heap : CellHeap (HashMapItem α)

namespace HashMapCells

/-- `hashmap_new`, when memory is available. -/
def new (maxBuckets : Nat) : HashMapCells α :=
  { maxBuckets, buckets := fun _ => none, heap := .empty }

/-- The chain of a bucket. -/
def chain (hm : HashMapCells α) (index : Nat) : PtrList (HashMapItem α) :=
  { head := hm.buckets index, heap := hm.heap }

/-- The map after a change to the chain of a bucket. -/
def setChain (hm : HashMapCells α) (index : Nat) (chain : PtrList (HashMapItem α))
    : HashMapCells α :=
  { hm with buckets := Function.update hm.buckets index chain.head, heap := chain.heap }

/-- The location that points to the item behind `last_item`: the bucket when that is `NULL`. -/
def linkOf : Option Nat → Slot
  | none => .head
  | some lastItem => .nextOf lastItem

/-- The loop of `hashmap_get`, with `last_item` and `item`. -/
def getLoop (key : CString) (chain : PtrList (HashMapItem α))
    : Nat → Option Nat → Option Nat → Except Fault (PtrList (HashMapItem α) × Option α)
  | 0, _, _ => .error .endlessList
  | _ + 1, _, none => .ok (chain, none)
  | steps + 1, lastItem, some item =>
      match chain.heap.cell item with
      | none => .error .danglingPointer
      | some node =>
          if key = node.value.1 then
            .ok ((chain.store (linkOf lastItem) node.next).free item, some node.value.2)
          else getLoop key chain steps (some item) node.next

/-- `hashmap_get`. -/
def get (hm : HashMapCells α) (key : CString) : Except Fault (HashMapCells α × Option α) :=
  if hm.maxBuckets = 0 then .error .divisionByZero
  else
    let index := bucketIndex hm.maxBuckets key
    (getLoop key (hm.chain index) (hm.heap.fresh + 1) none (hm.buckets index)).bind
      fun (chain, value) => .ok (hm.setChain index chain, value)

/-- The loop of `hashmap_has_key`. -/
def hasKeyLoop (key : CString) (heap : CellHeap (HashMapItem α))
    : Nat → Option Nat → Except Fault Bool
  | 0, _ => .error .endlessList
  | _ + 1, none => .ok false
  | steps + 1, some item =>
      match heap.cell item with
      | none => .error .danglingPointer
      | some node => if key = node.value.1 then .ok true else hasKeyLoop key heap steps node.next

/-- `hashmap_has_key`. -/
def hasKey (hm : HashMapCells α) (key : CString) : Except Fault Bool :=
  if hm.maxBuckets = 0 then .error .divisionByZero
  else hasKeyLoop key hm.heap (hm.heap.fresh + 1) (hm.buckets (bucketIndex hm.maxBuckets key))

/-- The walk to the last item of a chain, in `hashmap_set` and `hashmap_empty`, with `last_item` and
`item`. The last item comes with its cell.
-/
def lastLoop (heap : CellHeap (HashMapItem α))
    : Nat → Option Nat → Nat → Except Fault (Option Nat × Nat × Cell (HashMapItem α))
  | 0, _, _ => .error .endlessList
  | steps + 1, lastItem, item =>
      match heap.cell item with
      | none => .error .danglingPointer
      | some node =>
          match node.next with
          | none => .ok (lastItem, item, node)
          | some next => lastLoop heap steps (some item) next

/-- `hashmap_item_free`, which reads the item before it frees it. -/
def itemFree (heap : CellHeap (HashMapItem α))
    : Option Nat → Except Fault (CellHeap (HashMapItem α))
  | none => .ok heap
  | some item =>
      match heap.cell item with
      | none => .error .danglingPointer
      | some _ => .ok (heap.put item none)

/-- `hashmap_set`, when memory is available. A key that is bound is refused before `item` is
initialized, and the error path frees `item`: what the stack holds there is an argument.
-/
def set (hm : HashMapCells α) (key : CString) (value : α) (item : Option Nat)
    : Except Fault (HashMapCells α × Exit) :=
  (hm.hasKey key).bind fun bound =>
    if bound then (itemFree hm.heap item).bind fun heap => .ok ({ hm with heap }, .failure)
    else
      let index := bucketIndex hm.maxBuckets key
      let item := hm.heap.fresh
      let chain := (hm.chain index).allocLast (key, value)
      match hm.buckets index with
      | none => .ok (hm.setChain index (chain.store .head (some item)), .success)
      | some existingItem =>
          (lastLoop chain.heap (chain.heap.fresh + 1) none existingItem).bind
            fun (_, existingItem, _) =>
              .ok (hm.setChain index (chain.store (.nextOf existingItem) (some item)), .success)

/-- The loop of `hashmap_empty` over the buckets from `index` on. -/
def emptyLoop (hm : HashMapCells α) : Nat → Nat → Except Fault (HashMapCells α × Option α)
  | 0, _ => .ok (hm, none)
  | left + 1, index =>
      match hm.buckets index with
      | none => emptyLoop hm left (index + 1)
      | some item =>
          (lastLoop hm.heap (hm.heap.fresh + 1) none item).bind fun (lastItem, item, node) =>
            let chain := match lastItem with
              | some lastItem => (hm.chain index).store (.nextOf lastItem) none
              | none => (hm.chain index).store .head node.next
            .ok (hm.setChain index (chain.free item), some node.value.2)

/-- `hashmap_empty`. -/
def empty (hm : HashMapCells α) : Except Fault (HashMapCells α × Option α) :=
  hm.emptyLoop hm.maxBuckets 0

-----------------------------------------------------------------------------------------
-- The loops on a chain
-----------------------------------------------------------------------------------------

variable {key : CString} {chain next : PtrList (HashMapItem α)}
  {before after : List (Nat × HashMapItem α)} {lastItem : Option Nat} {steps : Nat}

/-- The location behind the items that a loop has passed. -/
theorem linkOf_eq_slotAfter (nodes : List (Nat × HashMapItem α))
    : linkOf (nodes.getLast?.map Prod.fst) = slotAfter nodes := by
  unfold slotAfter
  cases nodes.getLast? <;> rfl

theorem hasKeyLoop_eq {heap : CellHeap (HashMapItem α)} {item : Option Nat}
    (path : Segment heap item after none) (enough : after.length < steps)
    : hasKeyLoop key heap steps item = .ok ((after.map Prod.snd).lookup key).isSome := by
  induction after generalizing item steps with
  | nil =>
      obtain rfl : item = none := path
      cases steps with
      | zero => cases enough
      | succ steps => rfl
  | cons node rest ih =>
      obtain ⟨pointer, rfl, found, later⟩ := path
      cases steps with
      | zero => cases enough
      | succ steps =>
          rw [hasKeyLoop, found]
          dsimp only
          rw [List.map_cons, List.lookup_cons]
          by_cases same : key = node.2.1
          · simp [same]
          · have differ : (key == node.2.1) = false := by simpa using same
            rw [if_neg same, differ]
            exact ih later (by simpa using enough)

/-- What `hashmap_get` leaves of a chain: without its item, in the same memory. -/
structure Unlinked (key : CString) (chain next : PtrList (HashMapItem α))
    (nodes : List (Nat × HashMapItem α))
    : Prop where
  holds
    : ∃ left,
        next.Holds left
        ∧ left.map Prod.snd = unlinkKey key (nodes.map Prod.snd)
        ∧ left ⊆ nodes
  same : chain.SameOutside next (nodes.map Prod.fst)

/-- Removing an item whose key does not occur before it. -/
theorem unlinkKey_append {front back : List (CString × α)} {item : CString × α}
    (absent : item.1 ∉ front.map Prod.fst)
    : unlinkKey item.1 (front ++ item :: back) = front ++ back := by
  induction front with
  | nil => simp [unlinkKey]
  | cons first rest ih =>
      simp only [List.map_cons, List.mem_cons, not_or] at absent
      rw [List.cons_append, unlinkKey, if_neg (Ne.symm absent.1), ih absent.2, List.cons_append]

theorem getLoop_eq (opened : chain.At (linkOf lastItem) before after)
    (absent : key ∉ before.map (fun node => node.2.1)) (enough : after.length < steps)
    : match (after.map Prod.snd).lookup key with
      | none => getLoop key chain steps lastItem (after.head?.map Prod.fst) = .ok (chain, none)
      | some value =>
          ∃ next,
            getLoop key chain steps lastItem (after.head?.map Prod.fst) = .ok (next, some value)
            ∧ Unlinked key chain next (before ++ after) := by
  induction after generalizing before lastItem steps with
  | nil =>
      cases steps with
      | zero => cases enough
      | succ steps => rfl
  | cons node rest ih =>
      cases steps with
      | zero => cases enough
      | succ steps =>
          rw [List.head?_cons, Option.map_some, getLoop, opened.cell, List.map_cons,
            List.lookup_cons]
          dsimp only
          by_cases same : key = node.2.1
          · have equal : (key == node.2.1) = true := by simpa using same
            rw [if_pos same, equal]
            have apart : linkOf lastItem ≠ .nextOf node.1 := by
              have distinct := Segment.nodup opened.holds
              rw [List.map_append, List.nodup_append] at distinct
              rw [opened.slot_eq]
              exact slotAfter_ne fun inside => distinct.2.2 node.1 inside node.1 (by simp) rfl
            rw [PtrList.store_free _ apart]
            refine ⟨_, rfl, ⟨before ++ rest, opened.remove.holds, ?_, ?_⟩,
              opened.remove_sameOutside _⟩
            · rw [same, List.map_append, List.map_append, List.map_cons, unlinkKey_append]
              rw [List.map_map]
              exact same ▸ absent
            · intro kept member
              rcases List.mem_append.mp member with inBefore | inRest
              · exact List.mem_append_left _ inBefore
              · exact List.mem_append_right _ (List.mem_cons_of_mem _ inRest)
          · have differ : (key == node.2.1) = false := by simpa using same
            rw [if_neg same, differ]
            have notBefore : key ∉ (before ++ [node]).map (fun node => node.2.1) := by
              simp [absent, same]
            have later := @ih (before ++ [node]) (some node.1) steps opened.advance notBefore
              (by simpa using enough)
            simpa using later

/-- The walk to the last item. -/
theorem lastLoop_eq {heap : CellHeap (HashMapItem α)} {item : Nat} {last : Nat × HashMapItem α}
    (path : Segment heap (some item) (after ++ [last]) none) (enough : after.length < steps)
    (before : List (Nat × HashMapItem α))
    : lastLoop heap steps (before.getLast?.map Prod.fst) item
      = .ok ((before ++ after).getLast?.map Prod.fst, last.1, ⟨last.2, none⟩) := by
  induction after generalizing before item steps with
  | nil =>
      obtain ⟨pointer, here, found, ends⟩ := path
      obtain rfl : pointer = none := ends
      obtain rfl := Option.some.inj here
      cases steps with
      | zero => cases enough
      | succ steps =>
          rw [lastLoop, found, List.append_nil]
  | cons node rest ih =>
      obtain ⟨pointer, here, found, later⟩ := path
      obtain rfl := Option.some.inj here
      cases steps with
      | zero => cases enough
      | succ steps =>
          rw [lastLoop, found]
          have some : ∃ address, pointer = some address := by
            cases rest with
            | nil => exact ⟨_, later.choose_spec.1⟩
            | cons second more => exact ⟨_, later.choose_spec.1⟩
          obtain ⟨address, rfl⟩ := some
          have walked := ih later (by simpa using enough) (before ++ [node])
          simpa using walked

end HashMapCells

end UvgTorrent

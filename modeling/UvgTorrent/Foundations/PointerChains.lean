import Mathlib.Tactic

/-! Singly linked lists in an explicit memory of cells.
A list is a head pointer and a memory; `Holds` reads it as the values met on the way to the
null pointer, and `At` opens it at a pointer to a pointer.
-/

namespace Foundations

-----------------------------------------------------------------------------------------
-- Cells, memories and the locations that hold a pointer
-----------------------------------------------------------------------------------------

/-- One list node: its value and its `next` pointer. -/
structure Cell (α : Type) where
  value : α
  next : Option Nat

/-- A memory of list nodes. Addresses are handed out in order and never reused, so a freed
address stays unreadable.
-/
structure CellHeap (α : Type) where
  fresh : Nat
  cell : Nat → Option (Cell α)
  unused : ∀ address, fresh ≤ address → cell address = none

/-- A head pointer together with the memory its nodes live in. -/
structure PtrList (α : Type) where
  head : Option Nat
  heap : CellHeap α

/-- A location that holds a pointer: the head variable or the `next` field of a node. -/
inductive Slot where
  | head
  | nextOf (address : Nat)
  deriving DecidableEq, Repr

variable {α : Type}

def CellHeap.empty : CellHeap α :=
  { fresh := 0, cell := fun _ => none, unused := fun _ _ => rfl }

/-- Replace the contents of an address that has been handed out. -/
def CellHeap.put (heap : CellHeap α) (address : Nat) (content : Option (Cell α))
    : CellHeap α :=
  if inUse : address < heap.fresh then
    {
      fresh := heap.fresh
      cell := Function.update heap.cell address content
      unused := by
        intro other free
        rw [Function.update_of_ne (by omega)]
        exact heap.unused other free
    }
  else heap

/-- Hand out the next address for a new node. -/
def CellHeap.alloc (heap : CellHeap α) (content : Cell α) : CellHeap α :=
  {
    fresh := heap.fresh + 1
    cell := Function.update heap.cell heap.fresh (some content)
    unused := by
      intro other free
      rw [Function.update_of_ne (by omega)]
      exact heap.unused other (by omega)
  }

def PtrList.nil : PtrList α := { head := none, heap := .empty }

/-- Read the pointer kept in a location; `none` when the location was freed. -/
def PtrList.load (list : PtrList α) : Slot → Option (Option Nat)
  | .head => some list.head
  | .nextOf address => (list.heap.cell address).map Cell.next

/-- Overwrite the pointer kept in a location. -/
def PtrList.store (list : PtrList α) (slot : Slot) (pointer : Option Nat) : PtrList α :=
  match slot with
  | .head => { list with head := pointer }
  | .nextOf address =>
      {
        list with
        heap := list.heap.put address
          ((list.heap.cell address).map (fun node => { node with next := pointer }))
      }

/-- Release a node. -/
def PtrList.free (list : PtrList α) (address : Nat) : PtrList α :=
  { list with heap := list.heap.put address none }

theorem CellHeap.lt_fresh {heap : CellHeap α} {address : Nat} {node : Cell α}
    (found : heap.cell address = some node)
    : address < heap.fresh := by
  by_contra outside
  have absent := heap.unused address (by omega)
  simp [absent] at found

theorem CellHeap.put_cell {heap : CellHeap α} {address : Nat} {node : Cell α}
    (found : heap.cell address = some node) (content : Option (Cell α)) (other : Nat)
    : (heap.put address content).cell other
      = if other = address then content else heap.cell other := by
  have inUse := CellHeap.lt_fresh found
  simp only [CellHeap.put, inUse, dite_true, Function.update_apply]

@[simp] theorem CellHeap.alloc_cell_self (heap : CellHeap α) (content : Cell α)
    : (heap.alloc content).cell heap.fresh = some content := by
  simp [CellHeap.alloc]

theorem CellHeap.alloc_cell_of_found {heap : CellHeap α} {address : Nat} {node : Cell α}
    (found : heap.cell address = some node) (content : Cell α)
    : (heap.alloc content).cell address = some node := by
  have inUse := CellHeap.lt_fresh found
  simp [CellHeap.alloc, Function.update_of_ne (Nat.ne_of_lt inUse), found]

-----------------------------------------------------------------------------------------
-- Segments and chains
-----------------------------------------------------------------------------------------

/-- Following `next` from `start` meets exactly the listed nodes and then the pointer
`stop`.
-/
def Segment (heap : CellHeap α) : Option Nat → List (Nat × α) → Option Nat → Prop
  | start, [], stop => start = stop
  | start, (address, value) :: rest, stop =>
      ∃ next,
        start = some address
        ∧ heap.cell address = some ⟨value, next⟩
        ∧ Segment heap next rest stop

/-- A list whose nodes, in order, are the given addresses and values. -/
def PtrList.Holds (list : PtrList α) (nodes : List (Nat × α)) : Prop :=
  Segment list.heap list.head nodes none

theorem Segment.append_iff {heap : CellHeap α} {start stop : Option Nat}
    {front back : List (Nat × α)}
    : Segment heap start (front ++ back) stop
      ↔ ∃ middle, Segment heap start front middle ∧ Segment heap middle back stop := by
  induction front generalizing start with
  | nil => simp [Segment]
  | cons node rest ih =>
      obtain ⟨address, value⟩ := node
      simp only [List.cons_append, Segment, ih]
      constructor
      · rintro ⟨next, here, found, middle, first, second⟩
        exact ⟨middle, ⟨next, here, found, first⟩, second⟩
      · rintro ⟨middle, ⟨next, here, found, first⟩, second⟩
        exact ⟨next, here, found, middle, first, second⟩

/-- Memories that agree on the listed addresses have the same segments there. -/
theorem Segment.congr {heap other : CellHeap α} {start stop : Option Nat}
    {nodes : List (Nat × α)}
    (same : ∀ node ∈ nodes, other.cell node.1 = heap.cell node.1)
    (path : Segment heap start nodes stop)
    : Segment other start nodes stop := by
  induction nodes generalizing start with
  | nil => exact path
  | cons node rest ih =>
      obtain ⟨next, here, found, later⟩ := path
      refine ⟨next, here, ?_, ih (fun n member => same n (by simp [member])) later⟩
      rw [same node (by simp)]
      exact found

theorem Segment.found {heap : CellHeap α} {start stop : Option Nat}
    {nodes : List (Nat × α)} (path : Segment heap start nodes stop)
    {node : Nat × α} (member : node ∈ nodes)
    : ∃ next, heap.cell node.1 = some ⟨node.2, next⟩ := by
  induction nodes generalizing start with
  | nil => simp at member
  | cons first rest ih =>
      obtain ⟨next, here, found, later⟩ := path
      rcases List.mem_cons.mp member with rfl | inRest
      · exact ⟨next, found⟩
      · exact ih later inRest

/-- The nodes met before null are determined by the start pointer. -/
theorem Segment.unique {heap : CellHeap α} {start : Option Nat}
    {nodes others : List (Nat × α)} (path : Segment heap start nodes none)
    (path' : Segment heap start others none)
    : nodes = others := by
  induction nodes generalizing start others with
  | nil =>
      cases others with
      | nil => rfl
      | cons node rest =>
          obtain ⟨next, here, -, -⟩ := path'
          have empty : start = none := path
          simp [empty] at here
  | cons node rest ih =>
      obtain ⟨next, here, found, later⟩ := path
      cases others with
      | nil =>
          have empty : start = none := path'
          simp [empty] at here
      | cons other more =>
          obtain ⟨next', here', found', later'⟩ := path'
          have sameAddress : node.1 = other.1 := Option.some.inj (here.symm.trans here')
          rw [sameAddress] at found
          have sameCell : (⟨node.2, next⟩ : Cell α) = ⟨other.2, next'⟩ :=
            Option.some.inj (found.symm.trans found')
          simp only [Cell.mk.injEq] at sameCell
          obtain ⟨sameValue, rfl⟩ := sameCell
          rw [ih later later', Prod.ext sameAddress sameValue]

/-- A chain never meets an address twice: the remaining chain from the second meeting would
be shorter than the one from the first.
-/
theorem Segment.nodup {heap : CellHeap α} {start : Option Nat} {nodes : List (Nat × α)}
    (path : Segment heap start nodes none)
    : (nodes.map Prod.fst).Nodup := by
  induction nodes generalizing start with
  | nil => simp
  | cons node rest ih =>
      have whole := path
      obtain ⟨next, here, found, later⟩ := path
      rw [List.map_cons, List.nodup_cons]
      refine ⟨?_, ih later⟩
      intro again
      obtain ⟨twin, member, sameAddress⟩ := List.mem_map.mp again
      obtain ⟨front, back, rfl⟩ := List.append_of_mem member
      obtain ⟨middle, -, second⟩ := Segment.append_iff.mp later
      have restart : middle = start := by
        obtain ⟨_, here', -, -⟩ := second
        rw [here, here', sameAddress]
      rw [restart] at second
      have lengths := congrArg List.length (Segment.unique whole second)
      simp at lengths
      omega

/-- Distinct addresses below `fresh` bound the length of a chain. -/
theorem PtrList.Holds.length_le {list : PtrList α} {nodes : List (Nat × α)}
    (holds : list.Holds nodes)
    : nodes.length ≤ list.heap.fresh := by
  have included : nodes.map Prod.fst ⊆ List.range list.heap.fresh := by
    intro address member
    obtain ⟨node, inNodes, rfl⟩ := List.mem_map.mp member
    obtain ⟨next, found⟩ := Segment.found holds inNodes
    exact List.mem_range.mpr (CellHeap.lt_fresh found)
  simpa using (Segment.nodup holds).length_le_of_subset included

/-- The values met in at most so many steps along `next`. -/
def CellHeap.walk (heap : CellHeap α) : Nat → Option Nat → List α
  | 0, _ => []
  | _ + 1, none => []
  | steps + 1, some address =>
      match heap.cell address with
      | none => []
      | some node => node.value :: heap.walk steps node.next

/-- The values of a list, first to last. -/
def PtrList.values (list : PtrList α) : List α := list.heap.walk list.heap.fresh list.head

theorem Segment.walk {heap : CellHeap α} {start : Option Nat} {nodes : List (Nat × α)}
    {steps : Nat} (path : Segment heap start nodes none) (enough : nodes.length ≤ steps)
    : heap.walk steps start = nodes.map Prod.snd := by
  induction nodes generalizing start steps with
  | nil =>
      obtain rfl : start = none := path
      cases steps <;> rfl
  | cons node rest ih =>
      obtain ⟨next, rfl, found, later⟩ := path
      cases steps with
      | zero => simp at enough
      | succ steps =>
          simp only [CellHeap.walk, found, List.map_cons]
          rw [ih later (by simpa using enough)]

theorem PtrList.Holds.values_eq {list : PtrList α} {nodes : List (Nat × α)}
    (holds : list.Holds nodes)
    : list.values = nodes.map Prod.snd :=
  Segment.walk holds holds.length_le

theorem PtrList.nil_holds : (PtrList.nil : PtrList α).Holds [] := rfl

-----------------------------------------------------------------------------------------
-- A list opened at a pointer location
-----------------------------------------------------------------------------------------

/-- The location that points just past the given nodes. -/
def slotAfter (nodes : List (Nat × α)) : Slot :=
  match nodes.getLast? with
  | none => .head
  | some node => .nextOf node.1

/-- The list holds `before ++ after`, and `slot` is the location between the two. -/
structure PtrList.At (list : PtrList α) (slot : Slot) (before after : List (Nat × α))
    : Prop where
  holds : list.Holds (before ++ after)
  slot_eq : slot = slotAfter before

theorem PtrList.Holds.at_head {list : PtrList α} {nodes : List (Nat × α)}
    (holds : list.Holds nodes)
    : list.At .head [] nodes :=
  ⟨holds, rfl⟩

/-- The location before `after` holds the address of its first node. -/
theorem PtrList.At.load {list : PtrList α} {slot : Slot} {before after : List (Nat × α)}
    (opened : list.At slot before after)
    : list.load slot = some (after.head?.map Prod.fst) := by
  obtain ⟨middle, first, second⟩ := Segment.append_iff.mp opened.holds
  have pointer : middle = after.head?.map Prod.fst := by
    cases after with
    | nil => exact second
    | cons node rest =>
        obtain ⟨_, here, -, -⟩ := second
        simpa using here
  rw [opened.slot_eq, slotAfter]
  rcases List.eq_nil_or_concat before with rfl | ⟨front, node, rfl⟩
  · have atHead : list.head = middle := first
    simp [PtrList.load, atHead, pointer]
  · rw [List.concat_eq_append] at first ⊢
    obtain ⟨_, -, last⟩ := Segment.append_iff.mp first
    obtain ⟨next, -, found, ends⟩ := last
    have sameNext : next = middle := ends
    simp [PtrList.load, found, sameNext, pointer]

/-- The node just behind the location is readable, and its successor starts the rest. -/
theorem PtrList.At.cell {list : PtrList α} {slot : Slot} {before rest : List (Nat × α)}
    {node : Nat × α} (opened : list.At slot before (node :: rest))
    : list.heap.cell node.1 = some ⟨node.2, rest.head?.map Prod.fst⟩ := by
  obtain ⟨middle, -, next, here, found, later⟩ := Segment.append_iff.mp opened.holds
  have pointer : next = rest.head?.map Prod.fst := by
    cases rest with
    | nil => exact later
    | cons other more =>
        obtain ⟨_, here', -, -⟩ := later
        simpa using here'
  rw [found, pointer]

/-- Stepping the location over a node keeps the list. -/
theorem PtrList.At.advance {list : PtrList α} {slot : Slot} {before rest : List (Nat × α)}
    {node : Nat × α} (opened : list.At slot before (node :: rest))
    : list.At (.nextOf node.1) (before ++ [node]) rest :=
  ⟨by simpa using opened.holds, by simp [slotAfter]⟩

/-- Freeing the node behind the location and storing its successor there drops exactly that
node. Witness: every other address keeps its cell, since a chain has no repeated address.
-/
theorem PtrList.At.remove {list : PtrList α} {slot : Slot} {before rest : List (Nat × α)}
    {node : Nat × α} (opened : list.At slot before (node :: rest))
    : ((list.free node.1).store slot (rest.head?.map Prod.fst)).At slot before rest := by
  have found := opened.cell
  have distinct := Segment.nodup opened.holds
  simp only [List.map_append, List.map_cons, List.nodup_append, List.nodup_cons] at distinct
  obtain ⟨beforeDistinct, ⟨nodeFresh, -⟩, separate⟩ := distinct
  obtain ⟨middle, first, next, here, -, later⟩ := Segment.append_iff.mp opened.holds
  have pointer : next = rest.head?.map Prod.fst := by
    cases rest with
    | nil => exact later
    | cons other more =>
        obtain ⟨_, here', -, -⟩ := later
        simpa using here'
  have freed (address : Nat) (other : address ≠ node.1)
      : (list.free node.1).heap.cell address = list.heap.cell address := by
    simp [PtrList.free, CellHeap.put_cell found, other]
  have restKept : ∀ kept ∈ rest, kept.1 ≠ node.1 := by
    intro kept member same
    exact nodeFresh (List.mem_map.mpr ⟨kept, member, same⟩)
  refine ⟨?_, opened.slot_eq⟩
  rw [opened.slot_eq, slotAfter]
  -- the location is the head variable or the last node before it
  rcases List.eq_nil_or_concat before with rfl | ⟨front, last, rfl⟩
  · simp only [List.getLast?_nil, PtrList.store, PtrList.Holds, List.nil_append]
    rw [← pointer]
    exact Segment.congr (fun kept member => freed kept.1 (restKept kept member)) later
  · rw [List.concat_eq_append] at first beforeDistinct separate ⊢
    obtain ⟨enter, frontPath, lastNext, lastHere, lastFound, -⟩ := Segment.append_iff.mp first
    have lastOther : last.1 ≠ node.1 := by
      exact separate last.1 (by simp) node.1 (by simp)
    have lastKept : (list.free node.1).heap.cell last.1 = some ⟨last.2, lastNext⟩ := by
      rw [freed last.1 lastOther, lastFound]
    simp only [List.getLast?_concat, PtrList.store, PtrList.Holds, List.append_assoc,
      List.cons_append, List.nil_append]
    have cells (address : Nat) (other : address ≠ node.1) (notLast : address ≠ last.1)
        : ((list.free node.1).heap.put last.1
            (((list.free node.1).heap.cell last.1).map
              (fun cell => { cell with next := rest.head?.map Prod.fst }))).cell address
          = list.heap.cell address := by
      rw [CellHeap.put_cell lastKept, if_neg notLast, freed address other]
    refine Segment.append_iff.mpr ⟨enter, ?_, next, lastHere, ?_, ?_⟩
    · refine Segment.congr (fun kept member => cells kept.1 ?_ ?_) frontPath
      · exact separate kept.1 (by simp; exact Or.inl ⟨kept.2, member⟩) node.1 (by simp)
      · simp only [List.map_append, List.nodup_append] at beforeDistinct
        exact beforeDistinct.2.2 kept.1 (List.mem_map.mpr ⟨kept, member, rfl⟩) last.1 (by simp)
    · rw [CellHeap.put_cell lastKept, if_pos rfl, lastKept, pointer]
      rfl
    · refine Segment.congr (fun kept member => cells kept.1 (restKept kept member) ?_) later
      exact (separate last.1 (by simp) kept.1 (by simp; exact Or.inr ⟨kept.2, member⟩)).symm

/-- Only the last pointer stored in a location counts. -/
theorem PtrList.store_store (list : PtrList α) (slot : Slot) (first second : Option Nat)
    : (list.store slot first).store slot second = list.store slot second := by
  cases slot with
  | head => rfl
  | nextOf address =>
      by_cases inUse : address < list.heap.fresh
      · simp [PtrList.store, CellHeap.put, inUse, Function.comp_def]
      · simp [PtrList.store, CellHeap.put, inUse]

/-- The location before the last node already passed still points to it while the node behind
the current location is freed and that location is overwritten.
-/
theorem PtrList.At.load_before {list : PtrList α} {slot : Slot}
    {front rest : List (Nat × α)} {last node : Nat × α}
    (opened : list.At slot (front ++ [last]) (node :: rest)) (pointer : Option Nat)
    : ((list.free node.1).store slot pointer).load (slotAfter front) = some (some last.1)
      ∧ ∃ cell, ((list.free node.1).store slot pointer).heap.cell last.1 = some cell := by
  have slotLast : slot = .nextOf last.1 := by
    rw [opened.slot_eq]
    simp [slotAfter]
  have earlier : list.At (slotAfter front) front (last :: node :: rest) :=
    ⟨by simpa using opened.holds, rfl⟩
  have distinct := Segment.nodup earlier.holds
  simp only [List.map_append, List.map_cons, List.nodup_append, List.nodup_cons,
    List.mem_cons] at distinct
  obtain ⟨-, ⟨lastFresh, -⟩, separate⟩ := distinct
  have lastOther : last.1 ≠ node.1 := fun same => lastFresh (.inl same)
  have freed (address : Nat) (other : address ≠ node.1)
      : (list.free node.1).heap.cell address = list.heap.cell address := by
    simp [PtrList.free, CellHeap.put_cell opened.cell, other]
  have lastKept := (freed last.1 lastOther).trans earlier.cell
  rw [slotLast]
  constructor
  · -- the location itself is the head variable or a node other than the two
    have loaded := earlier.load
    rcases List.eq_nil_or_concat front with rfl | ⟨first, enter, rfl⟩
    · exact loaded
    · rw [List.concat_eq_append] at loaded separate ⊢
      have enterLast : enter.1 ≠ last.1 := separate enter.1 (by simp) last.1 (.inl rfl)
      have enterNode : enter.1 ≠ node.1 := separate enter.1 (by simp) node.1 (.inr (.inl rfl))
      simp only [slotAfter, List.getLast?_concat, PtrList.load, PtrList.store,
        CellHeap.put_cell lastKept, if_neg enterLast, freed enter.1 enterNode] at loaded ⊢
      exact loaded
  · simp only [PtrList.store, CellHeap.put_cell lastKept, if_true, lastKept]
    exact ⟨_, rfl⟩

/-- A location in another node can be overwritten before or after a node is freed. -/
theorem PtrList.store_free (list : PtrList α) {slot : Slot} {address : Nat}
    (apart : slot ≠ .nextOf address) (pointer : Option Nat)
    : (list.store slot pointer).free address = (list.free address).store slot pointer := by
  cases slot with
  | head => rfl
  | nextOf other =>
      have differ : other ≠ address := fun same => apart (same ▸ rfl)
      by_cases freed : address < list.heap.fresh
      · by_cases stored : other < list.heap.fresh
        · simp [PtrList.store, PtrList.free, CellHeap.put, freed, stored,
            Function.update_of_ne differ, Function.update_comm differ.symm]
        · simp [PtrList.store, PtrList.free, CellHeap.put, freed, stored]
      · by_cases stored : other < list.heap.fresh
        · simp [PtrList.store, PtrList.free, CellHeap.put, freed, stored]
        · simp [PtrList.store, PtrList.free, CellHeap.put, freed, stored]

-----------------------------------------------------------------------------------------
-- Lists that share a memory
-----------------------------------------------------------------------------------------

/-- The memory of a list is unchanged outside the given addresses and those not yet handed out. -/
def PtrList.SameOutside (list next : PtrList α) (addresses : List Nat) : Prop :=
  ∀ address,
    address ∉ addresses
    → address < list.heap.fresh
    → next.heap.cell address = list.heap.cell address

/-- Another list in the same memory is kept when none of its addresses is touched. -/
theorem PtrList.SameOutside.holds {list next other : PtrList α} {addresses : List Nat}
    {nodes : List (Nat × α)} (same : list.SameOutside next addresses)
    (shared : other.heap = list.heap) (holds : other.Holds nodes)
    (apart : ∀ node ∈ nodes, node.1 ∉ addresses)
    : ({ head := other.head, heap := next.heap } : PtrList α).Holds nodes := by
  refine Segment.congr (fun node member => ?_) holds
  obtain ⟨_, found⟩ := Segment.found holds member
  rw [shared] at found ⊢
  exact same node.1 (apart node member) (CellHeap.lt_fresh found)

/-- Overwriting a location touches only the node that it is in. -/
theorem PtrList.store_cell_of_ne (list : PtrList α) {slot : Slot} (pointer : Option Nat)
    {address : Nat} (apart : slot ≠ .nextOf address)
    : (list.store slot pointer).heap.cell address = list.heap.cell address := by
  cases slot with
  | head => rfl
  | nextOf other =>
      have differ : address ≠ other := fun same => apart (same ▸ rfl)
      simp only [PtrList.store, CellHeap.put]
      split
      · exact Function.update_of_ne differ _ _
      · rfl

theorem PtrList.free_cell_of_ne (list : PtrList α) {freed address : Nat}
    (apart : address ≠ freed)
    : (list.free freed).heap.cell address = list.heap.cell address := by
  simp only [PtrList.free, CellHeap.put]
  split
  · exact Function.update_of_ne apart _ _
  · rfl

/-- The location after some nodes is in one of them, or it is the head. -/
theorem slotAfter_ne {nodes : List (Nat × α)} {address : Nat}
    (outside : address ∉ nodes.map Prod.fst)
    : slotAfter nodes ≠ .nextOf address := by
  unfold slotAfter
  cases last : nodes.getLast? with
  | none => simp
  | some node =>
      intro same
      refine outside (List.mem_map.mpr ⟨node, List.mem_of_getLast? last, ?_⟩)
      exact Slot.nextOf.inj same

/-- Removing a node touches the nodes of its list alone. -/
theorem PtrList.At.remove_sameOutside {list : PtrList α} {slot : Slot}
    {before rest : List (Nat × α)} {node : Nat × α}
    (opened : list.At slot before (node :: rest)) (pointer : Option Nat)
    : list.SameOutside ((list.free node.1).store slot pointer)
        ((before ++ node :: rest).map Prod.fst) := by
  intro address outside _
  simp only [List.map_append, List.map_cons, List.mem_append, List.mem_cons, not_or] at outside
  rw [opened.slot_eq, PtrList.store_cell_of_ne _ _ (slotAfter_ne outside.1),
    PtrList.free_cell_of_ne _ outside.2.1]

-----------------------------------------------------------------------------------------
-- Inserting and updating nodes
-----------------------------------------------------------------------------------------

/-- Put a new node in front of the list. -/
def PtrList.pushFront (list : PtrList α) (value : α) : PtrList α :=
  { head := some list.heap.fresh, heap := list.heap.alloc ⟨value, list.head⟩ }

theorem Segment.alloc {heap : CellHeap α} {start stop : Option Nat}
    {nodes : List (Nat × α)} (path : Segment heap start nodes stop) (content : Cell α)
    : Segment (heap.alloc content) start nodes stop := by
  refine Segment.congr (fun node member => ?_) path
  obtain ⟨next, found⟩ := Segment.found path member
  rw [CellHeap.alloc_cell_of_found found, found]

theorem PtrList.Holds.pushFront {list : PtrList α} {nodes : List (Nat × α)}
    (holds : list.Holds nodes) (value : α)
    : (list.pushFront value).Holds ((list.heap.fresh, value) :: nodes) :=
  ⟨list.head, rfl, by simp [PtrList.pushFront], Segment.alloc holds _⟩

/-- Allocate a node that ends a list, without linking it. -/
def PtrList.allocLast (list : PtrList α) (value : α) : PtrList α :=
  { list with heap := list.heap.alloc ⟨value, none⟩ }

/-- A new node that the head is set to is the whole list, whatever the list was. -/
theorem PtrList.allocLast_holds (list : PtrList α) (value : α)
    : ((list.allocLast value).store .head (some list.heap.fresh)).Holds
        [(list.heap.fresh, value)] :=
  ⟨none, rfl, by simp [PtrList.store, PtrList.allocLast], rfl⟩

/-- Linking a new node behind the last one appends it. -/
theorem PtrList.Holds.linkLast {list : PtrList α} {front : List (Nat × α)}
    {last : Nat × α} (holds : list.Holds (front ++ [last])) (value : α)
    : ((list.allocLast value).store (.nextOf last.1) (some list.heap.fresh)).Holds
        (front ++ [last, (list.heap.fresh, value)]) := by
  have distinct := Segment.nodup holds
  simp only [List.map_append, List.nodup_append] at distinct
  obtain ⟨middle, first, next, here, found, -⟩ := Segment.append_iff.mp holds
  have below := CellHeap.lt_fresh found
  have kept := CellHeap.alloc_cell_of_found found ⟨value, none⟩
  simp only [PtrList.Holds, PtrList.store, PtrList.allocLast]
  refine Segment.append_iff.mpr ⟨middle, ?_, some list.heap.fresh, here, ?_, ?_⟩
  · refine Segment.congr (fun node member => ?_) (Segment.alloc first ⟨value, none⟩)
    rw [CellHeap.put_cell kept, if_neg]
    exact distinct.2.2 node.1 (List.mem_map.mpr ⟨node, member, rfl⟩) last.1 (by simp)
  · rw [CellHeap.put_cell kept, if_pos rfl, kept]
    rfl
  · refine ⟨none, rfl, ?_, rfl⟩
    rw [CellHeap.put_cell kept, if_neg (by omega)]
    simp

/-- Linking a new node at the end of a list, which may be empty. -/
theorem PtrList.Holds.linkAfter {list : PtrList α} {nodes : List (Nat × α)}
    (holds : list.Holds nodes) (value : α)
    : ((list.allocLast value).store (slotAfter nodes) (some list.heap.fresh)).Holds
        (nodes ++ [(list.heap.fresh, value)]) := by
  rcases List.eq_nil_or_concat nodes with rfl | ⟨front, last, rfl⟩
  · exact list.allocLast_holds value
  · rw [List.concat_eq_append] at holds ⊢
    simpa [slotAfter] using holds.linkLast value

/-- Linking a new node behind the last one touches the nodes of its list alone. -/
theorem PtrList.linkLast_sameOutside (list : PtrList α) (value : α) {slot : Slot}
    {nodes : List (Nat × α)} (slotEq : slot = slotAfter nodes) (pointer : Option Nat)
    : list.SameOutside ((list.allocLast value).store slot pointer) (nodes.map Prod.fst) := by
  intro address outside below
  rw [slotEq, PtrList.store_cell_of_ne _ _ (slotAfter_ne outside)]
  exact Function.update_of_ne (Nat.ne_of_lt below) _ _

/-- Change the value kept in a node. -/
def PtrList.modifyValue (list : PtrList α) (address : Nat) (change : α → α) : PtrList α :=
  {
    list with
    heap := list.heap.put address
      ((list.heap.cell address).map (fun node => { node with value := change node.value }))
  }

/-- Changing the first node's value changes just that value in the list. -/
theorem PtrList.Holds.modifyFirst {list : PtrList α} {node : Nat × α}
    {rest : List (Nat × α)} (holds : list.Holds (node :: rest)) (change : α → α)
    : (list.modifyValue node.1 change).Holds ((node.1, change node.2) :: rest) := by
  have distinct := Segment.nodup holds
  simp only [List.map_cons, List.nodup_cons] at distinct
  obtain ⟨next, here, found, later⟩ := holds
  refine ⟨next, here, ?_, ?_⟩
  · simp only [PtrList.modifyValue]
    rw [CellHeap.put_cell found, if_pos rfl, found]
    rfl
  · refine Segment.congr (fun kept member => ?_) later
    simp only [PtrList.modifyValue]
    rw [CellHeap.put_cell found, if_neg]
    intro same
    exact distinct.1 (List.mem_map.mpr ⟨kept, member, same⟩)

end Foundations

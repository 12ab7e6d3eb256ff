import UvgTorrent.Containers.HashMapCells

/-! The map in memory does what the lists of `HashMap` do, call by call. -/

namespace UvgTorrent

open Foundations

variable {α : Type}

namespace HashMapCells

variable {hm : HashMapCells α} {map : HashMap α} {nodes : Nat → List (Nat × HashMapItem α)}
  {key : CString}

-----------------------------------------------------------------------------------------
-- Memory and lists
-----------------------------------------------------------------------------------------

/-- The buckets hold the given nodes, which are the items of the map, and no two buckets share a
node.
-/
structure HoldsNodes (hm : HashMapCells α) (map : HashMap α)
    (nodes : Nat → List (Nat × HashMapItem α))
    : Prop where
  maxBuckets : hm.maxBuckets = map.maxBuckets
  chains : ∀ index, (hm.chain index).Holds (nodes index)
  items : ∀ index, (nodes index).map Prod.snd = map.buckets index
  apart
    : ∀ first second,
        first ≠ second
        → ∀ node ∈ nodes first, ∀ other ∈ nodes second, node.1 ≠ other.1

/-- The memory of a map represents its lists. -/
def Represents (hm : HashMapCells α) (map : HashMap α) : Prop :=
  ∃ nodes, hm.HoldsNodes map nodes

theorem new_represents (maxBuckets : Nat)
    : (new maxBuckets : HashMapCells α).Represents (HashMap.new maxBuckets) :=
  ⟨fun _ => [], rfl, fun _ => rfl, fun _ => rfl, fun _ _ _ _ member => by cases member⟩

/-- A change to one bucket, whose nodes stay its own or are new. -/
theorem HoldsNodes.setChain (holds : hm.HoldsNodes map nodes) {index : Nat}
    {chain : PtrList (HashMapItem α)} {left : List (Nat × HashMapItem α)} (next : HashMap α)
    (chainHolds : chain.Holds left)
    (same : (hm.chain index).SameOutside chain ((nodes index).map Prod.fst))
    (owned : ∀ node ∈ left, node.1 ∈ (nodes index).map Prod.fst ∨ hm.heap.fresh ≤ node.1)
    (nextMax : next.maxBuckets = map.maxBuckets)
    (nextBuckets : next.buckets = Function.update map.buckets index (left.map Prod.snd))
    : (hm.setChain index chain).HoldsNodes next (Function.update nodes index left) := by
  have separate (other : Nat) (differ : other ≠ index) (node : Nat × HashMapItem α)
      (inLeft : node ∈ left) (kept : Nat × HashMapItem α) (member : kept ∈ nodes other)
      : node.1 ≠ kept.1 := by
    rcases owned node inLeft with old | new
    · obtain ⟨twin, inIndex, sameAddress⟩ := List.mem_map.mp old
      exact sameAddress ▸ holds.apart index other (Ne.symm differ) twin inIndex kept member
    · obtain ⟨_, found⟩ := Segment.found (holds.chains other) member
      have below : kept.1 < hm.heap.fresh := CellHeap.lt_fresh found
      omega
  constructor
  · exact holds.maxBuckets.trans nextMax.symm
  · intro other
    by_cases here : other = index
    · subst here
      simpa [HashMapCells.chain, HashMapCells.setChain] using chainHolds
    · have untouched : ∀ node ∈ nodes other, node.1 ∉ (nodes index).map Prod.fst := by
        intro node member inIndex
        obtain ⟨twin, twinIn, sameAddress⟩ := List.mem_map.mp inIndex
        exact holds.apart index other (Ne.symm here) twin twinIn node member sameAddress
      have kept := @same.holds _ _ _ (hm.chain other) _ _ rfl (holds.chains other) untouched
      simpa [HashMapCells.chain, HashMapCells.setChain, here] using kept
  · intro other
    rw [nextBuckets]
    by_cases here : other = index
    · subst here
      simp
    · simpa [here] using holds.items other
  · intro first second differ node inFirst other inSecond
    by_cases firstHere : first = index
    · subst firstHere
      rw [Function.update_self] at inFirst
      rw [Function.update_of_ne (Ne.symm differ)] at inSecond
      exact separate second (Ne.symm differ) node inFirst other inSecond
    · rw [Function.update_of_ne firstHere] at inFirst
      by_cases secondHere : second = index
      · subst secondHere
        rw [Function.update_self] at inSecond
        exact (separate first firstHere other inSecond node inFirst).symm
      · rw [Function.update_of_ne secondHere] at inSecond
        exact holds.apart first second differ node inFirst other inSecond

/-- Walks are given enough steps for every bucket. -/
theorem HoldsNodes.length_lt (holds : hm.HoldsNodes map nodes) (index : Nat)
    : (nodes index).length < hm.heap.fresh + 1 :=
  Nat.lt_succ_of_le (holds.chains index).length_le

/-- The bucket points to its first node. -/
theorem HoldsNodes.bucket_eq (holds : hm.HoldsNodes map nodes) (index : Nat)
    : hm.buckets index = (nodes index).head?.map Prod.fst := by
  have loaded := (holds.chains index).at_head.load
  exact Option.some.inj loaded

-----------------------------------------------------------------------------------------
-- The calls
-----------------------------------------------------------------------------------------

theorem Represents.hasKey (represents : hm.Represents map) (someBucket : 0 < map.maxBuckets)
    (key : CString)
    : hm.hasKey key = .ok (map.hasKey key) := by
  obtain ⟨nodes, holds⟩ := represents
  have positive : hm.maxBuckets ≠ 0 := by
    rw [holds.maxBuckets]
    omega
  have walked := @hasKeyLoop_eq α key _ (hm.heap.fresh + 1) hm.heap _
    (holds.chains (map.index key)) (holds.length_lt _)
  rw [holds.items] at walked
  rw [HashMapCells.hasKey, if_neg positive, holds.maxBuckets]
  exact walked

/-- `hashmap_get` in memory does what it does on the lists. -/
theorem Represents.get (represents : hm.Represents map) (someBucket : 0 < map.maxBuckets)
    (key : CString)
    : ∃ next, hm.get key = .ok (next, (map.get key).1) ∧ next.Represents (map.get key).2 := by
  obtain ⟨nodes, holds⟩ := represents
  have positive : hm.maxBuckets ≠ 0 := by
    rw [holds.maxBuckets]
    omega
  let index := map.index key
  have sameIndex : bucketIndex hm.maxBuckets key = index := by
    rw [holds.maxBuckets]
    rfl
  have walked := @getLoop_eq α key (hm.chain index) [] (nodes index) none (hm.heap.fresh + 1)
    (holds.chains index).at_head (by simp) (holds.length_lt index)
  rw [← holds.bucket_eq index, holds.items index] at walked
  rw [HashMapCells.get, if_neg positive, sameIndex, HashMap.get]
  dsimp only
  cases found : map.find key with
  | none =>
      have absent : (map.buckets index).lookup key = none := found
      rw [absent] at walked
      refine ⟨hm.setChain index (hm.chain index), by rw [walked]; rfl, nodes, ?_⟩
      have unchanged := holds.setChain map (holds.chains index) (fun _ _ _ => rfl)
        (fun node member => .inl (List.mem_map_of_mem member)) rfl
        (by rw [holds.items, Function.update_eq_self])
      rwa [Function.update_eq_self] at unchanged
  | some value =>
      have bound : (map.buckets index).lookup key = some value := found
      rw [bound] at walked
      obtain ⟨chain, returned, ⟨left, chainHolds, kept, subset⟩, same⟩ := walked
      refine ⟨hm.setChain index chain, by rw [returned]; rfl, Function.update nodes index left, ?_⟩
      refine holds.setChain (map.erase key) chainHolds same
        (fun node member => .inl (List.mem_map_of_mem (subset member))) rfl ?_
      rw [kept, List.nil_append, holds.items]
      simp only [HashMap.erase, index]

/-- A new item behind the last one of its bucket. -/
theorem HoldsNodes.link (holds : hm.HoldsNodes map nodes) (absent : map.find key = none) (value : α)
    : (hm.setChain (map.index key)
          (((hm.chain (map.index key)).allocLast (key, value)).store
            (slotAfter (nodes (map.index key))) (some hm.heap.fresh))).HoldsNodes
        (map.append key value absent)
        (Function.update nodes (map.index key)
          (nodes (map.index key) ++ [(hm.heap.fresh, (key, value))])) := by
  refine holds.setChain (map.append key value absent)
    ((holds.chains (map.index key)).linkAfter (key, value))
    ((hm.chain (map.index key)).linkLast_sameOutside _ rfl _) ?_ rfl ?_
  · intro node member
    rcases List.mem_append.mp member with old | new
    · exact .inl (List.mem_map_of_mem old)
    · rw [List.mem_singleton.mp new]
      exact .inr (Nat.le_refl _)
  · simp only [HashMap.append]
    rw [← holds.items, List.map_append]
    rfl

/-- `hashmap_set` of a key that is not bound appends it to its bucket. -/
theorem Represents.set_absent (represents : hm.Represents map) (someBucket : 0 < map.maxBuckets)
    (absent : map.find key = none) (value : α) (item : Option Nat)
    : ∃ next,
        hm.set key value item = .ok (next, .success)
        ∧ next.Represents (map.append key value absent) := by
  have notBound : hm.hasKey key = .ok false := by
    rw [represents.hasKey someBucket, HashMap.hasKey, absent]
    rfl
  obtain ⟨nodes, holds⟩ := represents
  refine ⟨_, ?_, _, holds.link absent value⟩
  have sameIndex : bucketIndex hm.maxBuckets key = map.index key := by
    rw [holds.maxBuckets]
    rfl
  have pointer := holds.bucket_eq (map.index key)
  rw [set, bind_of_ok notBound]
  dsimp only
  rw [if_neg Bool.false_ne_true, sameIndex]
  cases bucket : hm.buckets (map.index key) with
  | none =>
      have bare : nodes (map.index key) = [] := by
        rw [bucket] at pointer
        simpa using pointer.symm
      rw [bare]
      rfl
  | some existingItem =>
      obtain ⟨front, last, split⟩ : ∃ front last, nodes (map.index key) = front ++ [last] := by
        rcases List.eq_nil_or_concat (nodes (map.index key)) with bare | ⟨front, last, split⟩
        · rw [bucket, bare] at pointer
          cases pointer
        · exact ⟨front, last, by rw [split, List.concat_eq_append]⟩
      have chainHolds := holds.chains (map.index key)
      have short := holds.length_lt (map.index key)
      rw [split] at chainHolds short
      have path
          : Segment ((hm.chain (map.index key)).allocLast (key, value)).heap (some existingItem)
              (front ++ [last]) none := by
        have entered : (hm.chain (map.index key)).head = some existingItem := bucket
        rw [← entered]
        exact Segment.alloc chainHolds _
      have enough
          : front.length
            < ((hm.chain (map.index key)).allocLast (key, value)).heap.fresh + 1 := by
        simp only [List.length_append, List.length_singleton] at short
        simp only [PtrList.allocLast, CellHeap.alloc, HashMapCells.chain]
        omega
      have walked := lastLoop_eq path enough []
      rw [List.getLast?_nil, Option.map_none] at walked
      dsimp only
      rw [walked, split]
      simp only [slotAfter, List.getLast?_append, List.getLast?_singleton, Option.some_or]
      rfl

/-- `hashmap_set` of a bound key changes nothing when the stack holds `NULL` at `item`. -/
theorem Represents.set_bound (represents : hm.Represents map) (someBucket : 0 < map.maxBuckets)
    (bound : (map.find key).isSome) (value : α)
    : hm.set key value none = .ok (hm, .failure) := by
  have found : hm.hasKey key = .ok true := by
    rw [represents.hasKey someBucket, HashMap.hasKey, bound]
  rw [set, bind_of_ok found]
  rfl

/-- Dropping the last node of a bucket removes its key. -/
theorem HoldsNodes.dropLast (holds : hm.HoldsNodes map nodes) {index : Nat}
    {front : List (Nat × HashMapItem α)} {node : Nat × HashMapItem α}
    (split : nodes index = front ++ [node])
    : (hm.setChain index (((hm.chain index).store (slotAfter front) none).free node.1)).HoldsNodes
        (map.erase node.2.1) (Function.update nodes index front) := by
  have opened : (hm.chain index).At (slotAfter front) front [node] :=
    ⟨split ▸ holds.chains index, rfl⟩
  have outside : node.1 ∉ front.map Prod.fst := by
    have distinct := Segment.nodup opened.holds
    rw [List.map_append, List.nodup_append] at distinct
    exact fun inside => distinct.2.2 node.1 inside node.1 (by simp) rfl
  have bucket : map.buckets index = front.map Prod.snd ++ [node.2] := by
    rw [← holds.items, split, List.map_append]
    rfl
  have placed : map.index node.2.1 = index :=
    map.placed index node.2 (by simp [bucket])
  rw [PtrList.store_free _ (slotAfter_ne outside)]
  refine holds.setChain (map.erase node.2.1) ?_ ?_ ?_ rfl ?_
  · simpa using opened.remove.holds
  · rw [split]
    exact opened.remove_sameOutside _
  · intro other member
    rw [split]
    exact .inl (List.mem_map_of_mem (List.mem_append_left _ member))
  · have distinct := map.distinct index
    rw [bucket, List.map_append, List.nodup_append] at distinct
    have absent : node.2.1 ∉ (front.map Prod.snd).map Prod.fst := fun inside =>
      distinct.2.2 node.2.1 inside node.2.1 (by simp) rfl
    have unlinked := @unlinkKey_append α _ [] _ absent
    simp only [HashMap.erase]
    rw [placed, bucket, unlinked, List.append_nil]

/-- The search for a bucket with an item, from any bucket on. -/
theorem HoldsNodes.emptyLoop (holds : hm.HoldsNodes map nodes) (left index : Nat)
    : match (List.range' index left).findSome? (fun index => (map.buckets index).getLast?) with
      | none => hm.emptyLoop left index = .ok (hm, none)
      | some item =>
          ∃ next,
            hm.emptyLoop left index = .ok (next, some item.2)
            ∧ next.Represents (map.erase item.1) := by
  induction left generalizing index with
  | zero => rfl
  | succ left ih =>
      rw [List.range'_succ, List.findSome?_cons, HashMapCells.emptyLoop, holds.bucket_eq]
      rcases List.eq_nil_or_concat (nodes index) with bare | ⟨front, node, split⟩
      · have noItem : map.buckets index = [] := by rw [← holds.items, bare, List.map_nil]
        rw [bare, noItem]
        exact ih (index + 1)
      · rw [List.concat_eq_append] at split
        have last : (map.buckets index).getLast? = some node.2 := by
          rw [← holds.items, split]
          simp
        have chainHolds := holds.chains index
        have short := holds.length_lt index
        have entered := holds.bucket_eq index
        rw [split] at chainHolds short entered
        rw [last, split]
        obtain ⟨existingItem, first⟩
            : ∃ pointer, (front ++ [node]).head?.map Prod.fst = some pointer := by
          cases front <;> exact ⟨_, rfl⟩
        rw [first] at entered ⊢
        have path : Segment hm.heap (some existingItem) (front ++ [node]) none := by
          rw [← entered]
          exact chainHolds
        rw [List.length_append, List.length_singleton] at short
        have walked := lastLoop_eq path (Nat.lt_of_succ_lt short) []
        rw [List.getLast?_nil, Option.map_none, List.nil_append] at walked
        refine ⟨_, ?_, _, holds.dropLast split⟩
        dsimp only
        rw [walked, ← linkOf_eq_slotAfter]
        cases front.getLast? <;> rfl

/-- `hashmap_empty` in memory does what it does on the lists. -/
theorem Represents.empty (represents : hm.Represents map)
    : ∃ next, hm.empty = .ok (next, map.empty.1) ∧ next.Represents map.empty.2 := by
  obtain ⟨nodes, holds⟩ := represents
  have searched := holds.emptyLoop map.maxBuckets 0
  rw [HashMapCells.empty, holds.maxBuckets, HashMap.empty, HashMap.lastItem?]
  cases found : (List.range' 0 map.maxBuckets).findSome? (fun index => (map.buckets index).getLast?)
    with
  | none =>
      rw [found] at searched
      exact ⟨hm, searched, nodes, holds⟩
  | some item =>
      rw [found] at searched
      exact searched

end HashMapCells

end UvgTorrent

import UvgTorrent.Containers.HashMapSimulation

/-! Runs of calls on the map in memory against a partial map from keys to values.
A refused `hashmap_set` frees what the stack holds at its uninitialized `item`, so the runs that are
those of the partial map are the ones whose refusals find `NULL` there.
-/

namespace UvgTorrent

open Foundations

variable {α : Type}

-----------------------------------------------------------------------------------------
-- Calls and the partial map
-----------------------------------------------------------------------------------------

/-- A call on a map. `item` is what the stack holds where `hashmap_set` keeps its local. -/
inductive MapCall (α : Type) where
  | set (key : CString) (value : α) (item : Option Nat)
  | get (key : CString)
  | hasKey (key : CString)
  | empty

/-- What a call returns. -/
inductive MapResult (α : Type) where
  | exit (code : Exit)
  | value (value : Option α)
  | bound (bound : Bool)
  deriving DecidableEq

/-- The calls of a partial map: what each may return and the map behind it. -/
inductive MapSpec
    : (CString → Option α) → MapCall α → MapResult α → (CString → Option α) → Prop where
  | insert (map : CString → Option α) (key : CString) (value : α) (item : Option Nat)
      (absent : map key = none)
      : MapSpec map (.set key value item) (.exit .success) (Function.update map key (some value))
  | refuse (map : CString → Option α) (key : CString) (value : α) (item : Option Nat)
      (present : (map key).isSome)
      : MapSpec map (.set key value item) (.exit .failure) map
  | take (map : CString → Option α) (key : CString)
      : MapSpec map (.get key) (.value (map key)) (Function.update map key none)
  | test (map : CString → Option α) (key : CString)
      : MapSpec map (.hasKey key) (.bound (map key).isSome) map
  | pop (map : CString → Option α) (key : CString) (present : (map key).isSome)
      : MapSpec map .empty (.value (map key)) (Function.update map key none)
  | exhausted (map : CString → Option α) (nothing : ∀ key, map key = none)
      : MapSpec map .empty (.value none) map

/-- The results of a run of calls are those of a partial map. -/
inductive MapRun
    : (CString → Option α) → List (MapCall α) → List (MapResult α) → (CString → Option α) → Prop where
  | nil (map : CString → Option α) : MapRun map [] [] map
  | cons {map next final : CString → Option α} {call : MapCall α} {calls : List (MapCall α)}
      {result : MapResult α} {results : List (MapResult α)}
      (first : MapSpec map call result next) (later : MapRun next calls results final)
      : MapRun map (call :: calls) (result :: results) final

namespace HashMapCells

/-- One call on the map in memory. -/
def call (hm : HashMapCells α) : MapCall α → Except Fault (HashMapCells α × MapResult α)
  | .set key value item => (hm.set key value item).map fun (hm, code) => (hm, .exit code)
  | .get key => (hm.get key).map fun (hm, value) => (hm, .value value)
  | .hasKey key => (hm.hasKey key).map fun bound => (hm, .bound bound)
  | .empty => hm.empty.map fun (hm, value) => (hm, .value value)

/-- A run of calls, with what they return. -/
def runCalls (hm : HashMapCells α)
    : List (MapCall α) → Except Fault (HashMapCells α × List (MapResult α))
  | [] => .ok (hm, [])
  | call :: rest =>
      (hm.call call).bind fun (hm, result) =>
        (hm.runCalls rest).map fun (hm, results) => (hm, result :: results)

/-- A `hashmap_set` that refuses its key finds `NULL` in its local `item`. -/
def RefusalFindsNull (hm : HashMapCells α) : MapCall α → Prop
  | .set key _ item => hm.hasKey key = .ok true → item = none
  | _ => True

instance (hm : HashMapCells α) : (call : MapCall α) → Decidable (hm.RefusalFindsNull call)
  | .set key _ item => inferInstanceAs (Decidable (hm.hasKey key = .ok true → item = none))
  | .get _ => .isTrue trivial
  | .hasKey _ => .isTrue trivial
  | .empty => .isTrue trivial

/-- Every refusal of the run finds `NULL`. -/
def RefusalsFindNull (hm : HashMapCells α) (calls : List (MapCall α)) : Prop :=
  Guarded (fun hm call => (hm.call call).map Prod.fst) RefusalFindsNull hm calls

/-- Calls of `hashmap_empty` return the value of every bound key once, and then `NULL`. -/
def Drains (hm : HashMapCells α) (map : CString → Option α) : Prop :=
  ∃ keys : List CString, ∃ drained,
    keys.Nodup
    ∧ (∀ key, key ∈ keys ↔ (map key).isSome)
    ∧ hm.runCalls (List.replicate (keys.length + 1) .empty)
      = .ok (drained, keys.map (fun key => .value (map key)) ++ [.value none])

/-- The calls return, with the results of a partial map that the drained map agrees with. -/
def RefinesMap (hm : HashMapCells α) (calls : List (MapCall α)) : Prop :=
  ∃ results final map,
    hm.runCalls calls = .ok (final, results)
    ∧ MapRun (fun _ => none) calls results map
    ∧ final.Drains map

end HashMapCells

-----------------------------------------------------------------------------------------
-- One call
-----------------------------------------------------------------------------------------

namespace HashMap

variable {lists : HashMap α}

theorem append_spec {key : CString} (absent : lists.find key = none) (value : α)
    (item : Option Nat)
    : MapSpec lists.find (.set key value item) (.exit .success)
        (lists.append key value absent).find := by
  have inserted := MapSpec.insert lists.find key value item absent
  have same
      : Function.update lists.find key (some value) = (lists.append key value absent).find := by
    funext other
    rw [find_append, Function.update_apply]
  rwa [same] at inserted

theorem get_spec (lists : HashMap α) (key : CString)
    : MapSpec lists.find (.get key) (.value (lists.get key).1) (lists.get key).2.find := by
  have taken := MapSpec.take lists.find key
  have same : Function.update lists.find key none = (lists.get key).2.find := by
    funext other
    rw [find_get_snd, Function.update_apply]
  rwa [same, ← get_fst] at taken

theorem find_erase_eq_update (lists : HashMap α) (key : CString)
    : (lists.erase key).find = Function.update lists.find key none := by
  funext other
  rw [find_erase, Function.update_apply]

theorem empty_spec (someBucket : 0 < lists.maxBuckets)
    : MapSpec lists.find .empty (.value lists.empty.1) lists.empty.2.find := by
  unfold empty
  cases last : lists.lastItem? with
  | none => exact .exhausted lists.find (find_of_lastItem?_none someBucket last)
  | some item =>
      have bound := find_of_lastItem? last
      have popped := MapSpec.pop lists.find item.1 (by rw [bound]; rfl)
      rwa [bound, ← find_erase_eq_update] at popped

end HashMap

namespace HashMapCells

variable {hm : HashMapCells α} {lists : HashMap α}

/-- A call on memory that represents lists is a call of the partial map of the lists. -/
theorem Represents.call (represents : hm.Represents lists) (someBucket : 0 < lists.maxBuckets)
    {call : MapCall α} (guarded : hm.RefusalFindsNull call)
    : ∃ next result after,
        hm.call call = .ok (next, result)
        ∧ next.Represents after
        ∧ after.maxBuckets = lists.maxBuckets
        ∧ MapSpec lists.find call result after.find := by
  cases call with
  | set key value item =>
      cases found : lists.find key with
      | none =>
          obtain ⟨next, returned, kept⟩ := represents.set_absent someBucket found value item
          refine ⟨next, .exit .success, lists.append key value found, ?_, kept, rfl,
            HashMap.append_spec found value item⟩
          rw [HashMapCells.call, returned]
          rfl
      | some old =>
          have bound : (lists.find key).isSome := by rw [found]; rfl
          have asked : hm.hasKey key = .ok true := by
            rw [represents.hasKey someBucket, HashMap.hasKey, bound]
          obtain rfl : item = none := guarded asked
          refine ⟨hm, .exit .failure, lists, ?_, represents, rfl, .refuse _ _ _ _ bound⟩
          rw [HashMapCells.call, represents.set_bound someBucket bound]
          rfl
  | get key =>
      obtain ⟨next, returned, kept⟩ := represents.get someBucket key
      refine ⟨next, .value (lists.get key).1, (lists.get key).2, ?_, kept,
        lists.get_maxBuckets key, lists.get_spec key⟩
      rw [HashMapCells.call, returned]
      rfl
  | hasKey key =>
      refine ⟨hm, .bound (lists.find key).isSome, lists, ?_, represents, rfl, .test _ key⟩
      rw [HashMapCells.call, represents.hasKey someBucket]
      rfl
  | empty =>
      obtain ⟨next, returned, kept⟩ := represents.empty
      refine ⟨next, .value lists.empty.1, lists.empty.2, ?_, kept, lists.empty_maxBuckets,
        HashMap.empty_spec someBucket⟩
      rw [HashMapCells.call, returned]
      rfl

/-- Calls of `hashmap_empty` take the bindings out one by one. Witness: induction on the number of
items, which each call lowers.
-/
theorem Represents.drains (represents : hm.Represents lists) (someBucket : 0 < lists.maxBuckets)
    : hm.Drains lists.find := by
  induction size : lists.size using Nat.strong_induction_on generalizing hm lists with
  | h count ih =>
      subst size
      obtain ⟨next, returned, kept⟩ := represents.empty
      have called : hm.call .empty = .ok (next, .value lists.empty.1) := by
        rw [HashMapCells.call, returned]
        rfl
      cases last : lists.lastItem? with
      | none =>
          have nothing := HashMap.find_of_lastItem?_none someBucket last
          have noValue : lists.empty.1 = none := by rw [HashMap.empty, last]
          refine ⟨[], next, List.nodup_nil, fun key => by simp [nothing key], ?_⟩
          rw [List.length_nil, List.replicate_succ, runCalls, bind_of_ok called, noValue]
          rfl
      | some item =>
          have bound := HashMap.find_of_lastItem? last
          have isBound : (lists.find item.1).isSome := by rw [bound]; rfl
          have dropped : lists.empty = (some item.2, lists.erase item.1) := by
            rw [HashMap.empty, last]
          rw [dropped] at called kept
          obtain ⟨keys, drained, distinct, members, rest⟩ :=
            ih _ (HashMap.size_erase_lt someBucket isBound) kept someBucket rfl
          have notAgain : item.1 ∉ keys := by
            rw [members, HashMap.find_erase]
            simp
          have others : ∀ key ∈ keys, (lists.erase item.1).find key = lists.find key := by
            intro key member
            rw [HashMap.find_erase, if_neg]
            rintro rfl
            exact notAgain member
          refine ⟨item.1 :: keys, drained, List.nodup_cons.mpr ⟨notAgain, distinct⟩, ?_, ?_⟩
          · intro key
            rw [List.mem_cons, members, HashMap.find_erase]
            by_cases same : key = item.1
            · simp [same, isBound]
            · simp [same]
          · rw [List.length_cons, List.replicate_succ, runCalls, bind_of_ok called]
            dsimp only
            rw [rest, List.map_cons, bound]
            have values : keys.map (fun key => MapResult.value ((lists.erase item.1).find key))
                = keys.map (fun key => MapResult.value (lists.find key)) :=
              List.map_congr_left fun key member => by rw [others key member]
            rw [values]
            rfl

-----------------------------------------------------------------------------------------
-- Runs
-----------------------------------------------------------------------------------------

theorem Represents.runCalls (represents : hm.Represents lists) (someBucket : 0 < lists.maxBuckets)
    {calls : List (MapCall α)} (guarded : hm.RefusalsFindNull calls)
    : ∃ results final map,
        hm.runCalls calls = .ok (final, results)
        ∧ MapRun lists.find calls results map
        ∧ final.Drains map := by
  induction calls generalizing hm lists with
  | nil => exact ⟨[], hm, lists.find, rfl, .nil _, represents.drains someBucket⟩
  | cons call rest ih =>
      obtain ⟨next, result, after, called, kept, sameMax, first⟩ :=
        represents.call someBucket guarded.1
      have later : next.RefusalsFindNull rest := guarded.2 next (by dsimp only; rw [called]; rfl)
      obtain ⟨results, final, map, returned, followed, drains⟩ :=
        ih kept (sameMax ▸ someBucket) later
      refine ⟨result :: results, final, map, ?_, .cons first followed, drains⟩
      rw [HashMapCells.runCalls, bind_of_ok called]
      dsimp only
      rw [returned]
      rfl

/-- Runs whose refusals find `NULL` are runs of a partial map. -/
theorem calls_refine_map {maxBuckets : Nat} (someBucket : 0 < maxBuckets)
    {calls : List (MapCall α)}
    (guarded : (new maxBuckets : HashMapCells α).RefusalsFindNull calls)
    : (new maxBuckets : HashMapCells α).RefinesMap calls :=
  (new_represents maxBuckets).runCalls someBucket guarded

/-- Two keys in one bucket, one of them set again with `NULL` on the stack. -/
theorem calls_refine_map_colliding
    : (0 < 1
        ∧ (new 1 : HashMapCells Nat).RefusalsFindNull
            [.set [97] 1 none, .set [98] 2 none, .set [97] 3 none, .get [97], .empty])
      ∧ (new 1 : HashMapCells Nat).RefinesMap
          [.set [97] 1 none, .set [98] 2 none, .set [97] 3 none, .get [97], .empty] :=
  have guarded
      : (new 1 : HashMapCells Nat).RefusalsFindNull
          [.set [97] 1 none, .set [98] 2 none, .set [97] 3 none, .get [97], .empty] := by
    unfold RefusalsFindNull
    decide +kernel
  ⟨⟨Nat.zero_lt_one, guarded⟩, calls_refine_map Nat.zero_lt_one guarded⟩

/-- A key that is set twice, with the address of its item on the stack the second time: the item is
freed and stays in its bucket, so the next call for the key reads freed memory.
-/
theorem refused_set_frees_item
    : ¬ (new 1 : HashMapCells Nat).RefinesMap [.set [97] 1 none, .set [97] 2 (some 0), .get [97]] := by
  rintro ⟨results, final, map, returned, -⟩
  have faulted
      : (new 1 : HashMapCells Nat).runCalls [.set [97] 1 none, .set [97] 2 (some 0), .get [97]]
        = .error .danglingPointer := by
    rfl
  rw [faulted] at returned
  cases returned

end HashMapCells

end UvgTorrent

import UvgTorrent.Foundations.ByteStrings
import UvgTorrent.Outcomes

/-! `hash_map.c`: string keys in chained buckets.
`hashmap_get` removes what it returns, so the lookups are stated on `find`, the value a
caller would get next.
-/

namespace UvgTorrent

open Foundations

/-- A NUL-terminated C string, without its terminator. -/
abbrev CString := Bytes

-----------------------------------------------------------------------------------------
-- The hash and the chains
-----------------------------------------------------------------------------------------

/-- A `char` of a key as it is added to a `uint32_t`: `char` is signed on the target. -/
def signedChar (byte : UInt8) : UInt32 :=
  if byte < 128 then byte.toUInt32 else byte.toUInt32 + 0xFFFFFF00

/-- `jenkins_one_at_a_time_hash`. -/
def jenkinsOneAtATimeHash (key : CString) : UInt32 :=
  let mixed := key.foldl
    (fun hash byte =>
      let hash := hash + signedChar byte
      let hash := hash + (hash <<< 10)
      hash ^^^ (hash >>> 6))
    0
  let mixed := mixed + (mixed <<< 3)
  let mixed := mixed ^^^ (mixed >>> 11)
  mixed + (mixed <<< 15)

variable {α : Type}

/-- The chain without the first item of the key. -/
def unlinkKey (key : CString) : List (CString × α) → List (CString × α)
  | [] => []
  | item :: rest => if item.1 = key then rest else item :: unlinkKey key rest

theorem unlinkKey_sublist (key : CString) (chain : List (CString × α))
    : (unlinkKey key chain).Sublist chain := by
  induction chain with
  | nil => simp [unlinkKey]
  | cons item rest ih =>
      unfold unlinkKey
      split
      · exact List.sublist_cons_self item rest
      · exact ih.cons_cons item

theorem lookup_isSome_iff (key : CString) (chain : List (CString × α))
    : (chain.lookup key).isSome ↔ key ∈ chain.map Prod.fst := by
  induction chain with
  | nil => simp
  | cons item rest ih =>
      rw [List.lookup_cons]
      by_cases same : key = item.1
      · simp [same]
      · have differ : (key == item.1) = false := by simpa using same
        simp [differ, ih, same]

theorem lookup_unlinkKey_ne {key other : CString} (apart : other ≠ key)
    (chain : List (CString × α))
    : (unlinkKey key chain).lookup other = chain.lookup other := by
  induction chain with
  | nil => rfl
  | cons item rest ih =>
      unfold unlinkKey
      split
      · rename_i here
        have differ : (other == item.1) = false := by
          simpa [here] using apart
        rw [List.lookup_cons, differ]
      · rw [List.lookup_cons, List.lookup_cons, ih]

theorem lookup_unlinkKey_self {key : CString} {chain : List (CString × α)}
    (distinct : (chain.map Prod.fst).Nodup)
    : (unlinkKey key chain).lookup key = none := by
  induction chain with
  | nil => rfl
  | cons item rest ih =>
      rw [List.map_cons, List.nodup_cons] at distinct
      unfold unlinkKey
      split
      · rename_i here
        rw [← Option.not_isSome_iff_eq_none, lookup_isSome_iff, ← here]
        exact distinct.1
      · rename_i there
        have differ : (key == item.1) = false := by simpa using Ne.symm there
        rw [List.lookup_cons, differ]
        exact ih distinct.2

theorem lookup_append_singleton (key other : CString) (value : α)
    (chain : List (CString × α)) (absent : chain.lookup key = none)
    : (chain ++ [(key, value)]).lookup other
      = if other = key then some value else chain.lookup other := by
  induction chain with
  | nil =>
      by_cases same : other = key
      · simp [same]
      · have differ : (other == key) = false := by simpa using same
        simp [List.lookup_cons, differ, same]
  | cons item rest ih =>
      rw [List.lookup_cons] at absent
      cases here : key == item.1 with
      | true => simp [here] at absent
      | false =>
          rw [here] at absent
          rw [List.cons_append, List.lookup_cons, List.lookup_cons]
          cases there : other == item.1 with
          | true =>
              have apart : other ≠ key := by
                rintro rfl
                simp [here] at there
              simp [apart]
          | false => exact ih absent

theorem nodup_append_absent {key : CString} {chain : List (CString × α)}
    (distinct : (chain.map Prod.fst).Nodup) (absent : chain.lookup key = none) (value : α)
    : ((chain ++ [(key, value)]).map Prod.fst).Nodup := by
  have fresh : key ∉ chain.map Prod.fst := by
    rw [← lookup_isSome_iff, absent]
    simp
  rw [List.map_append, List.nodup_append]
  refine ⟨distinct, by simp, ?_⟩
  rintro other member new isNew rfl
  have sameKey : other = key := List.mem_singleton.mp isNew
  exact fresh (sameKey ▸ member)

-----------------------------------------------------------------------------------------
-- `struct HashMap`
-----------------------------------------------------------------------------------------

/-- The bucket that a key's hash selects. -/
def bucketIndex (maxBuckets : Nat) (key : CString) : Nat :=
  (jenkinsOneAtATimeHash key).toNat % maxBuckets

/-- `struct HashMap`: no key occurs twice, and each key is in the bucket of its hash. -/
structure HashMap (α : Type) where
  maxBuckets : Nat
  buckets : Nat → List (CString × α)
  distinct : ∀ index, ((buckets index).map Prod.fst).Nodup
  placed : ∀ index, ∀ item ∈ buckets index, bucketIndex maxBuckets item.1 = index

namespace HashMap

def index (map : HashMap α) (key : CString) : Nat := bucketIndex map.maxBuckets key

/-- `hashmap_new`. -/
def new (maxBuckets : Nat) : HashMap α :=
  {
    maxBuckets
    buckets := fun _ => []
    distinct := by simp
    placed := by simp
  }

/-- The value a key is bound to. -/
def find (map : HashMap α) (key : CString) : Option α :=
  (map.buckets (map.index key)).lookup key

/-- The map without the binding of a key. -/
def erase (map : HashMap α) (key : CString) : HashMap α :=
  {
    map with
    buckets := Function.update map.buckets (map.index key)
      (unlinkKey key (map.buckets (map.index key)))
    distinct := by
      intro index
      by_cases here : index = map.index key
      · rw [here, Function.update_self]
        exact ((unlinkKey_sublist key _).map Prod.fst).nodup (map.distinct _)
      · rw [Function.update_of_ne here]
        exact map.distinct index
    placed := by
      intro index item member
      by_cases here : index = map.index key
      · rw [here, Function.update_self] at member
        rw [here]
        exact map.placed _ item ((unlinkKey_sublist key _).subset member)
      · rw [Function.update_of_ne here] at member
        exact map.placed index item member
  }

/-- `hashmap_get`: the value of the key, which leaves the map; `NULL` when there is none. -/
def get (map : HashMap α) (key : CString) : Option α × HashMap α :=
  match map.find key with
  | some value => (some value, map.erase key)
  | none => (none, map)

/-- `hashmap_has_key`. -/
def hasKey (map : HashMap α) (key : CString) : Bool := (map.find key).isSome

/-- The map with a new binding at the end of its bucket. -/
def append (map : HashMap α) (key : CString) (value : α) (absent : map.find key = none)
    : HashMap α :=
  {
    map with
    buckets := Function.update map.buckets (map.index key)
      (map.buckets (map.index key) ++ [(key, value)])
    distinct := by
      intro index
      by_cases here : index = map.index key
      · rw [here, Function.update_self]
        exact nodup_append_absent (map.distinct _) absent value
      · rw [Function.update_of_ne here]
        exact map.distinct index
    placed := by
      intro index item member
      by_cases here : index = map.index key
      · rw [here, Function.update_self, List.mem_append, List.mem_singleton] at member
        rw [here]
        rcases member with old | rfl
        · exact map.placed _ item old
        · rfl
      · rw [Function.update_of_ne here] at member
        exact map.placed index item member
  }

/-- `hashmap_set`: a key that is already bound is refused. -/
def set (map : HashMap α) (key : CString) (value : α) : Exit × HashMap α :=
  if absent : map.find key = none then (.success, map.append key value absent)
  else (.failure, map)

/-- The last item of the first bucket that has one. -/
def lastItem? (map : HashMap α) : Option (CString × α) :=
  (List.range' 0 map.maxBuckets).findSome? (fun index => (map.buckets index).getLast?)

/-- `hashmap_empty`: the value of that item, which leaves the map; `NULL` when there is none. -/
def empty (map : HashMap α) : Option α × HashMap α :=
  match map.lastItem? with
  | some item => (some item.2, map.erase item.1)
  | none => (none, map)

theorem find_new (maxBuckets : Nat) (key : CString)
    : (HashMap.new maxBuckets : HashMap α).find key = none := rfl

/-- Lookups after a removal. -/
theorem find_erase (map : HashMap α) (key other : CString)
    : (map.erase key).find other = if other = key then none else map.find other := by
  simp only [find, erase, index]
  by_cases sameBucket : bucketIndex map.maxBuckets other = bucketIndex map.maxBuckets key
  · rw [sameBucket, Function.update_self]
    by_cases same : other = key
    · rw [if_pos same, same]
      exact lookup_unlinkKey_self (map.distinct _)
    · rw [if_neg same]
      exact lookup_unlinkKey_ne same _
  · have apart : other ≠ key := by
      rintro rfl
      exact sameBucket rfl
    rw [Function.update_of_ne sameBucket, if_neg apart]

/-- Lookups after a binding is added. -/
theorem find_append (map : HashMap α) (key other : CString) (value : α)
    (absent : map.find key = none)
    : (map.append key value absent).find other
      = if other = key then some value else map.find other := by
  simp only [find, append, index]
  by_cases sameBucket : bucketIndex map.maxBuckets other = bucketIndex map.maxBuckets key
  · rw [sameBucket, Function.update_self]
    exact lookup_append_singleton key other value _ absent
  · have apart : other ≠ key := by
      rintro rfl
      exact sameBucket rfl
    rw [Function.update_of_ne sameBucket, if_neg apart]

theorem get_fst (map : HashMap α) (key : CString) : (map.get key).1 = map.find key := by
  unfold get
  cases found : map.find key <;> rfl

/-- `hashmap_get` leaves every other key as it was and its own key unbound. -/
theorem find_get_snd (map : HashMap α) (key other : CString)
    : (map.get key).2.find other = if other = key then none else map.find other := by
  unfold get
  cases found : map.find key with
  | none =>
      by_cases same : other = key
      · simp [same, found]
      · simp [same]
  | some value => exact map.find_erase key other

/-- Storing under an unbound key succeeds and binds just that key. -/
theorem set_of_absent {map : HashMap α} {key : CString} (absent : map.find key = none)
    (value : α)
    : (map.set key value).1 = .success
      ∧ ∀ other,
          (map.set key value).2.find other
          = if other = key then some value else map.find other := by
  rw [set, dif_pos absent]
  exact ⟨rfl, fun other => map.find_append key other value absent⟩

/-- Taking a key out and storing it again binds it to the new value and keeps the rest. -/
theorem find_set_get (map : HashMap α) (key other : CString) (value : α)
    : ((map.get key).2.set key value).2.find other
      = if other = key then some value else map.find other := by
  have absent : (map.get key).2.find key = none := by simp [find_get_snd]
  rw [(set_of_absent absent value).2 other, find_get_snd]
  split <;> rfl

/-- The last item of a bucket is what its key is bound to. -/
theorem find_of_getLast? {map : HashMap α} {index : Nat} {item : CString × α}
    (last : (map.buckets index).getLast? = some item)
    : map.find item.1 = some item.2 := by
  have here : map.index item.1 = index := map.placed index item (List.mem_of_getLast? last)
  obtain ⟨front, bucket⟩ := List.getLast?_eq_some_iff.mp last
  have distinct := map.distinct index
  rw [bucket, List.map_append, List.nodup_append] at distinct
  rw [find, here, bucket, List.lookup_eq_some_iff]
  refine ⟨front, [], rfl, fun earlier member => ?_⟩
  have apart := distinct.2.2 earlier.1 (List.mem_map_of_mem member) item.1 (by simp)
  simpa using Ne.symm apart

theorem find_of_lastItem? {map : HashMap α} {item : CString × α}
    (last : map.lastItem? = some item)
    : map.find item.1 = some item.2 := by
  obtain ⟨index, -, inBucket⟩ := List.exists_of_findSome?_eq_some last
  exact find_of_getLast? inBucket

/-- A map whose buckets are all empty binds no key. -/
theorem find_of_lastItem?_none {map : HashMap α} (someBucket : 0 < map.maxBuckets)
    (noItem : map.lastItem? = none) (key : CString)
    : map.find key = none := by
  have below : map.index key ∈ List.range' 0 map.maxBuckets := by
    simpa [index, bucketIndex] using Nat.mod_lt _ someBucket
  have bare := List.findSome?_eq_none_iff.mp noItem (map.index key) below
  rw [List.getLast?_eq_none_iff] at bare
  rw [find, bare, List.lookup_nil]

theorem get_maxBuckets (map : HashMap α) (key : CString)
    : (map.get key).2.maxBuckets = map.maxBuckets := by
  unfold get
  cases map.find key <;> rfl

theorem empty_maxBuckets (map : HashMap α) : map.empty.2.maxBuckets = map.maxBuckets := by
  unfold empty
  cases map.lastItem? <;> rfl

/-- How many items a map has. -/
def size (map : HashMap α) : Nat :=
  ∑ index ∈ Finset.range map.maxBuckets, (map.buckets index).length

/-- A removal of a bound key leaves fewer items. -/
theorem size_erase_lt {map : HashMap α} (someBucket : 0 < map.maxBuckets) {key : CString}
    (bound : (map.find key).isSome)
    : (map.erase key).size < map.size := by
  have shorter
      : (unlinkKey key (map.buckets (map.index key))).length
        < (map.buckets (map.index key)).length := by
    refine lt_of_le_of_ne (unlinkKey_sublist key _).length_le (fun same => ?_)
    have unchanged := (unlinkKey_sublist key (map.buckets (map.index key))).eq_of_length same
    have removed := @lookup_unlinkKey_self _ key _ (map.distinct (map.index key))
    rw [unchanged] at removed
    simp [find, removed] at bound
  refine Finset.sum_lt_sum (fun index _ => ?_) ⟨map.index key, ?_, ?_⟩
  · by_cases here : index = map.index key
    · rw [here, erase]
      simpa using Nat.le_of_lt shorter
    · simp [erase, here]
  · exact Finset.mem_range.mpr (Nat.mod_lt _ someBucket)
  · simpa [erase] using shorter

end HashMap

-----------------------------------------------------------------------------------------
-- Decimal keys
-----------------------------------------------------------------------------------------

/-- The characters that `sprintf` writes for `"%i"`. -/
def formatInt (value : Int) : CString :=
  let digits := (Nat.toDigits 10 value.natAbs).map (fun char => UInt8.ofNat char.toNat)
  if value < 0 then 45 :: digits else digits

/-- Different numbers have different decimal keys. Witness: the digits can be read back. -/
theorem formatInt_injective {first second : Nat}
    (same : formatInt first = formatInt second)
    : first = second := by
  have readBack (number : Nat)
      : (formatInt number).map (fun byte => Char.ofNat byte.toNat) = Nat.toDigits 10 number := by
    simp only [formatInt, Int.natAbs_natCast]
    rw [if_neg (by omega), List.map_map]
    refine (List.map_congr_left (fun char member => ?_)).trans (List.map_id _)
    have digit := Nat.isDigit_of_mem_toDigits (by norm_num) (by norm_num) member
    simp only [Char.isDigit, Bool.and_eq_true, decide_eq_true_eq] at digit
    have upper : char.toNat < 256 := by
      have bound : char.val ≤ 57 := digit.2
      have asNat : char.val.toNat ≤ 57 := by simpa using UInt32.le_iff_toNat_le.mp bound
      exact Nat.lt_of_le_of_lt asNat (by norm_num)
    simp [Nat.mod_eq_of_lt upper]
  have digits : Nat.toDigits 10 first = Nat.toDigits 10 second := by
    rw [← readBack first, ← readBack second, same]
  rw [← Nat.ofDigitChars_ten_toDigits (n := first), digits, Nat.ofDigitChars_ten_toDigits]

/-- A non-negative number below `10 ^ 9` has at most nine digits. -/
theorem formatInt_length_le {number : Nat} (small : number < 10 ^ 9)
    : (formatInt number).length ≤ 9 := by
  simp only [formatInt, Int.natAbs_natCast]
  rw [if_neg (by omega), List.length_map]
  exact (Nat.length_toDigits_le_iff (by norm_num) (by norm_num)).mpr small

theorem formatInt_length_gt {number : Nat} (large : 10 ^ 9 ≤ number)
    : 9 < (formatInt number).length := by
  simp only [formatInt, Int.natAbs_natCast]
  rw [if_neg (by omega), List.length_map]
  by_contra short
  have small := (Nat.length_toDigits_le_iff (by norm_num) (by norm_num)).mp (Nat.le_of_not_lt short)
  omega

end UvgTorrent

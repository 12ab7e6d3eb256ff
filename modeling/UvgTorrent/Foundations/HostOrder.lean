import UvgTorrent.Foundations.ByteStrings

/-! Unsigned integers in the memory of a little-endian host, and the swap of their bytes with which
such a host converts to and from the order of the network. A packed struct is the concatenation of
its fields.
-/

namespace Foundations

/-- The memory of an unsigned integer of `width` bytes. -/
def leBytes : Nat → Nat → Bytes
  | 0, _ => []
  | width + 1, word => UInt8.ofNat word :: leBytes width (word / 256)

/-- The integer that bytes in memory are. -/
def ofLeBytes : Bytes → Nat
  | [] => 0
  | byte :: rest => byte.toNat + 256 * ofLeBytes rest

/-- The integer of `width` bytes with the bytes in the opposite order. -/
def byteSwap (width word : Nat) : Nat := ofLeBytes (leBytes width word).reverse

@[simp] theorem leBytes_length (width word : Nat) : (leBytes width word).length = width := by
  induction width generalizing word with
  | zero => rfl
  | succ width ih => rw [leBytes, List.length_cons, ih]

theorem leBytes_ofLeBytes (bytes : Bytes) : leBytes bytes.length (ofLeBytes bytes) = bytes := by
  induction bytes with
  | nil => rfl
  | cons byte rest ih =>
      have bound := byte.toNat_lt
      have quotient : (byte.toNat + 256 * ofLeBytes rest) / 256 = ofLeBytes rest := by omega
      have low : UInt8.ofNat (byte.toNat + 256 * ofLeBytes rest) = byte := by
        rw [← UInt8.toNat_inj, UInt8.toNat_ofNat']
        omega
      rw [List.length_cons, leBytes, ofLeBytes, quotient, low, ih]

theorem ofLeBytes_leBytes (width word : Nat)
    : ofLeBytes (leBytes width word) = word % 256 ^ width := by
  induction width generalizing word with
  | zero => simp [leBytes, ofLeBytes, Nat.mod_one]
  | succ width ih =>
      have split : word % 256 ^ (width + 1) = word % 256 + 256 * (word / 256 % 256 ^ width) := by
        rw [Nat.pow_succ, Nat.mul_comm, Nat.mod_mul]
      rw [leBytes, ofLeBytes, ih, UInt8.toNat_ofNat', split]

theorem ofLeBytes_append (low high : Bytes)
    : ofLeBytes (low ++ high) = ofLeBytes low + 256 ^ low.length * ofLeBytes high := by
  induction low with
  | nil => simp [ofLeBytes]
  | cons byte rest ih =>
      rw [List.cons_append, ofLeBytes, ih, ofLeBytes, List.length_cons, Nat.pow_succ]
      ring

theorem leBytes_add (low high word : Nat)
    : leBytes (low + high) word = leBytes low word ++ leBytes high (word / 256 ^ low) := by
  induction low generalizing word with
  | zero => simp [leBytes]
  | succ low ih =>
      rw [Nat.add_right_comm, leBytes, ih, leBytes, List.cons_append, Nat.div_div_eq_div_mul,
        Nat.pow_succ, Nat.mul_comm 256]

/-- Bytes above the width are not stored. -/
theorem leBytes_mod (width word : Nat)
    : leBytes width (word % 256 ^ width) = leBytes width word := by
  rw [← ofLeBytes_leBytes]
  have stored := leBytes_ofLeBytes (leBytes width word)
  rwa [leBytes_length] at stored

/-- In memory, a swapped integer has its most significant byte first. -/
theorem leBytes_byteSwap (width word : Nat)
    : leBytes width (byteSwap width word) = (leBytes width word).reverse := by
  have stored := leBytes_ofLeBytes (leBytes width word).reverse
  rwa [List.length_reverse, leBytes_length] at stored

/-- Bytes read most significant first are their reverse in memory. -/
theorem ofBe32_reverse (bytes : Bytes) : ofBe32 bytes.reverse = ofLeBytes bytes := by
  induction bytes with
  | nil => rfl
  | cons byte rest ih =>
      rw [ofBe32] at ih ⊢
      rw [List.reverse_cons, List.foldl_append, ih, ofLeBytes, List.foldl_cons, List.foldl_nil]
      omega

/-- The receiver reads a swapped integer as it was before the swap. -/
theorem ofBe32_byteSwap {width word : Nat} (fits : word < 256 ^ width)
    : ofBe32 (leBytes width (byteSwap width word)) = word := by
  rw [leBytes_byteSwap, ofBe32_reverse, ofLeBytes_leBytes, Nat.mod_eq_of_lt fits]

/-- The two halves of a swapped integer are the swapped halves, exchanged. -/
theorem byteSwap_add (low high word : Nat)
    : byteSwap (low + high) word
      = byteSwap high (word / 256 ^ low) + 256 ^ high * byteSwap low word := by
  rw [byteSwap, leBytes_add, List.reverse_append, ofLeBytes_append, List.length_reverse,
    leBytes_length, byteSwap, byteSwap]

theorem byteSwap_lt (width word : Nat) : byteSwap width word < 256 ^ width := by
  have stored := ofLeBytes_leBytes width (byteSwap width word)
  rw [leBytes_byteSwap] at stored
  rw [byteSwap, stored]
  exact Nat.mod_lt _ (Nat.pos_of_ne_zero (by positivity))

theorem byteSwap_mod (width word : Nat)
    : byteSwap width (word % 256 ^ width) = byteSwap width word := by
  rw [byteSwap, leBytes_mod, byteSwap]

/-- A field of a packed struct starts where the fields before it end. -/
theorem slice_flatten {fields : List Bytes} {index : Nat} {field : Bytes}
    (found : fields[index]? = some field)
    : slice fields.flatten ((fields.take index).map List.length).sum field.length = field := by
  induction fields generalizing index with
  | nil => cases found
  | cons first rest ih =>
      cases index with
      | zero =>
          rw [List.getElem?_cons_zero, Option.some.injEq] at found
          simp [found, slice]
      | succ index =>
          rw [List.getElem?_cons_succ] at found
          have later := ih found
          rw [slice] at later
          rw [List.take_succ_cons, List.map_cons, List.sum_cons, List.flatten_cons, slice,
            ← List.drop_drop, List.drop_left, later]

end Foundations

import UvgTorrent.Foundations.ByteStrings

/-! Blocks of bytes from an allocator, and copies that stay inside them. Of a fresh block only the
size is known; what was copied into it is read back.
-/

namespace Foundations

/-- The answers of an allocator at one time: for each size `NULL`, or a block of that size with
whatever contents. An object has fewer than `2 ^ 63` bytes.
-/
structure Allocator where
  block : Nat → Option Bytes
  sized : ∀ size bytes, block size = some bytes → bytes.length = size
  bounded : ∀ size bytes, block size = some bytes → size < 2 ^ 63

namespace Allocator

/-- An allocator that has memory for every object, and fills it with zeros. -/
def zeroed : Allocator :=
  {
    block := fun size => if size < 2 ^ 63 then some (List.replicate size 0) else none
    sized := by
      intro size bytes given
      split at given
      · cases given
        exact List.length_replicate
      · cases given
    bounded := by
      intro size bytes given
      split at given
      · assumption
      · cases given
  }

def malloc (memory : Allocator) (size : Nat) : Option Bytes := memory.block size

/-- `realloc` keeps the contents that fit; what it adds is fresh. -/
def realloc (memory : Allocator) (old : Option Bytes) (size : Nat) : Option Bytes :=
  (memory.block size).map fun fresh =>
    (old.getD []).take size ++ fresh.drop (old.getD []).length

end Allocator

/-- `memcpy` to an offset in a block, unless it writes past the end. -/
def copyInto (block : Bytes) (offset : Nat) (source : Bytes) : Option Bytes :=
  if offset + source.length ≤ block.length then some (overwrite block offset source) else none

/-- `memcpy` from an offset in a block, unless it reads past the end. -/
def copyOut (block : Bytes) (offset count : Nat) : Option Bytes :=
  if offset + count ≤ block.length then some (slice block offset count) else none

variable {memory : Allocator} {block old source : Bytes} {size : Nat}

/-- A block that is filled from its start holds what was copied into it. -/
theorem copyInto_malloc (given : memory.malloc source.length = some block)
    : copyInto block 0 source = some source := by
  have sized := memory.sized _ _ given
  rw [copyInto, if_pos (by omega), overwrite, List.drop_of_length_le (by omega)]
  simp

/-- A block that is grown, and then filled from where it ended, holds both parts. -/
theorem copyInto_realloc
    (given : memory.realloc (some old) (old.length + source.length) = some block)
    : copyInto block old.length source = some (old ++ source) := by
  obtain ⟨fresh, answered, rfl⟩ := Option.map_eq_some_iff.mp given
  have sized := memory.sized _ _ answered
  have kept : old.take (old.length + source.length) = old :=
    List.take_of_length_le (Nat.le_add_right ..)
  rw [Option.getD_some, kept]
  have length : (old ++ fresh.drop old.length).length = old.length + source.length := by
    rw [List.length_append, List.length_drop]
    omega
  rw [copyInto, if_pos (by omega), overwrite, List.take_left, List.drop_of_length_le (by omega),
    List.append_nil]

theorem copyOut_of_le {offset count : Nat} (inside : offset + count ≤ block.length)
    : copyOut block offset count = some (slice block offset count) :=
  if_pos inside

end Foundations

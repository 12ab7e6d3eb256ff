import Mathlib.Tactic

/-! Fixed-width integers of a 64-bit C platform, kept as unbounded integers.
Every narrowing is an explicit function, and a value that fits is left unchanged.
-/

namespace Foundations

/-- An unsigned 64-bit result (`size_t`, `uint64_t`): reduction modulo `2 ^ 64`. -/
def u64 (x : Nat) : Nat := x % 2 ^ 64

/-- Unsigned 64-bit subtraction, which wraps below zero. -/
def u64Sub (x y : Nat) : Nat := (x + (2 ^ 64 - y % 2 ^ 64)) % 2 ^ 64

/-- Conversion of a signed value to an unsigned 64-bit one (sign extension). -/
def u64OfInt (x : Int) : Nat := (x % 2 ^ 64).toNat

/-- An unsigned 32-bit result: reduction modulo `2 ^ 32`. -/
def u32 (x : Nat) : Nat := x % 2 ^ 32

/-- The `int` that a two's complement machine keeps of an integer. -/
def wrap32 (x : Int) : Int := (x + 2 ^ 31) % 2 ^ 32 - 2 ^ 31

/-- The `int64_t` that a two's complement machine keeps of an integer. -/
def wrap64 (x : Int) : Int := (x + 2 ^ 63) % 2 ^ 64 - 2 ^ 63

theorem u64_of_lt {x : Nat} (fits : x < 2 ^ 64) : u64 x = x := Nat.mod_eq_of_lt fits

/-- Unsigned subtraction of a smaller value is the exact difference. -/
theorem u64Sub_of_le {x y : Nat} (ordered : y ≤ x) (fits : x < 2 ^ 64)
    : u64Sub x y = x - y := by
  unfold u64Sub
  omega

theorem u64OfInt_natCast {n : Nat} (fits : n < 2 ^ 64) : u64OfInt n = n := by
  unfold u64OfInt
  omega

theorem u64OfInt_of_nonneg {x : Int} (nonneg : 0 ≤ x) (fits : x < 2 ^ 64)
    : u64OfInt x = x.toNat := by
  unfold u64OfInt
  omega

theorem wrap32_of_fits {x : Int} (lower : -2 ^ 31 ≤ x) (upper : x < 2 ^ 31)
    : wrap32 x = x := by
  unfold wrap32
  omega

theorem wrap32_natCast {n : Nat} (fits : n < 2 ^ 31) : wrap32 n = n :=
  wrap32_of_fits (by omega) (by omega)

/-- An `int` that wrapped below zero is a huge `size_t`. -/
theorem le_u64OfInt_wrap32 {x : Int} (lower : 2 ^ 31 ≤ x) (upper : x < 2 ^ 32)
    : 2 ^ 63 ≤ u64OfInt (wrap32 x) := by
  unfold u64OfInt wrap32
  omega

theorem wrap64_of_fits {x : Int} (lower : -2 ^ 63 ≤ x) (upper : x < 2 ^ 63)
    : wrap64 x = x := by
  unfold wrap64
  omega

end Foundations

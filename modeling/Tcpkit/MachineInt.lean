import Mathlib.Data.Int.Cast.Basic
import Mathlib.Tactic.NormNum

/-! Conversions to the fixed-width integer types of C. Signed types wrap to
two's complement, unsigned types reduce modulo their size. -/

namespace MachineInt

def int32 (x : Int) : Int := x.bmod (2 ^ 32)

def uint64 (x : Int) : Nat := (x % 2 ^ 64).toNat

theorem int32_eq_self {x : Int} (hl : -2 ^ 31 ≤ x) (hu : x < 2 ^ 31) : int32 x = x :=
  Int.bmod_eq_of_le (by omega) (by omega)

@[simp]
theorem int32_int32_add (x y : Int) : int32 (int32 x + y) = int32 (x + y) :=
  Int.bmod_add_bmod

@[simp]
theorem int32_int32_sub (x y : Int) : int32 (int32 x - y) = int32 (x - y) :=
  Int.bmod_sub_bmod

theorem uint64_natCast (n : Nat) : uint64 n = n % 2 ^ 64 := by
  rw [uint64]
  omega

theorem uint64_of_lt {n : Nat} (h : n < 2 ^ 64) : uint64 n = n := by
  rw [uint64_natCast, Nat.mod_eq_of_lt h]

end MachineInt

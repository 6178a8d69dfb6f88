/-
  Core/Types.lean --- what every part of the program is written with: the integer types of
  include/core.h, and the reasons why a run stops.

  Integers are mathematical ones, and a conversion to a type of the source is written out
  where the source's arithmetic can wrap.
-/
import Mathlib.Algebra.Order.Ring.Int

set_option autoImplicit false

namespace NoGround

/-! ## Why a run stops -/

/-- Why the process stopped. -/
inductive Halt where
  /-- `exit(code)` -/
  | exit (code : Int)
  /-- a failed `assert` -/
  | abort
  /-- an access outside an array -/
  | outOfBounds
  /-- a loop of the model was cut short -/
  | outOfFuel
  deriving DecidableEq, Repr

/-! ## Conversions (core.h:6-15) -/

/-- Conversion to `i32`. -/
def toI32 (n : Int) : Int := n.bmod (2 ^ 32)

/-- Conversion to `u32`. -/
def toU32 (n : Int) : Nat := (n % 2 ^ 32).toNat

/-- Conversion to `size_t`. -/
def toSize (n : Int) : Nat := (n % 2 ^ 64).toNat

theorem toI32_of_lt {n : Nat} (h : n < 2 ^ 31) : toI32 n = n := by
  unfold toI32
  exact Int.bmod_eq_of_le_mul_two (by omega) (by omega)

theorem toU32_of_lt {n : Nat} (h : n < 2 ^ 32) : toU32 n = n := by
  unfold toU32
  omega

theorem toSize_of_lt {n : Nat} (h : n < 2 ^ 64) : toSize n = n := by
  unfold toSize
  omega

end NoGround

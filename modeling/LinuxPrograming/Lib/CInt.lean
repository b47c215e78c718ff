import Mathlib.Tactic.Common

/-!
# Conversions between C integer types

A value of a C integer type is the integer it stands for.  A conversion to an unsigned type
takes the remainder; one to a signed type takes the representative in its range, as GCC
defines it.  A sum or difference of type `int` that leaves the range has no value.
-/

namespace LinuxPrograming
namespace Lib

/-- The conversion to `unsigned long`. -/
def toULong (x : Int) : Nat := (x % 18446744073709551616).toNat

/-- The conversion to `long`. -/
def toLong (x : Int) : Int := x.bmod 18446744073709551616

/-- The conversion to `int`. -/
def toInt (x : Int) : Int := x.bmod 4294967296

/-- `INT_MAX`. -/
def maxInt : Int := 2147483647

/-- `x` is a value of type `int`. -/
def FitsInt (x : Int) : Prop := -maxInt - 1 ≤ x ∧ x ≤ maxInt

instance (x : Int) : Decidable (FitsInt x) := inferInstanceAs (Decidable (_ ∧ _))

/-- The value of an `int` expression that comes to `x`. -/
def int (x : Int) : Option Int := if FitsInt x then some x else none

theorem toULong_of_nonneg {x : Int} (h : 0 ≤ x) (hlt : x < 18446744073709551616) :
    toULong x = x.toNat := by
  rw [toULong, Int.emod_eq_of_lt h hlt]

/-- A negative value becomes a large one. -/
theorem toULong_of_neg {x : Int} (h : x < 0) (hle : -18446744073709551616 ≤ x) :
    (toULong x : Int) = x + 18446744073709551616 := by
  rw [toULong]
  omega

theorem toLong_of_bounds {x : Int} (h : -9223372036854775808 ≤ x)
    (hlt : x < 9223372036854775808) : toLong x = x :=
  Int.bmod_eq_of_le h hlt

theorem toInt_of_bounds {x : Int} (h : -2147483648 ≤ x) (hlt : x < 2147483648) :
    toInt x = x :=
  Int.bmod_eq_of_le h hlt

theorem fitsInt_of_bounds {x : Int} (h : 0 ≤ x) (hle : x ≤ maxInt) : FitsInt x := by
  refine ⟨?_, hle⟩
  rw [maxInt]
  omega

theorem int_of_fits {x : Int} (h : FitsInt x) : int x = some x := if_pos h

theorem int_of_lt {x : Int} (h : maxInt < x) : int x = none :=
  if_neg fun hfits => Int.not_lt.mpr hfits.2 h

theorem eq_of_int_eq_some {x y : Int} (h : int x = some y) : x = y := by
  rw [int] at h
  split at h
  · exact Option.some.inj h
  · cases h

/-- Counting on from a wrapped value wraps at the same places. -/
theorem toInt_toInt_add (x y : Int) : toInt (toInt x + y) = toInt (x + y) :=
  Int.bmod_add_bmod

/-- A count is what it should be as long as it is no more than `INT_MAX`. -/
theorem toInt_natCast_eq_iff {n : Nat} : toInt n = n ↔ n < 2147483648 := by
  rw [toInt, Int.bmod]
  omega

end Lib
end LinuxPrograming

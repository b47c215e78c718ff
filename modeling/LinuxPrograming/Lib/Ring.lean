import Mathlib.Algebra.BigOperators.Group.Finset.Basic
import Mathlib.Algebra.BigOperators.Intervals
import Mathlib.Data.Nat.Periodic
import Mathlib.Tactic.Common

/-!
# Ring buffers

A ring of `n` cells takes the `i`-th value of a sequence in cell `i % n`.  Once it
is full, each write replaces the oldest value, so the cells hold the last `n`
values, rotated.  A sum over the cells does not see the rotation.
-/

namespace LinuxPrograming
namespace Lib

open Finset

variable {α : Type*}

/-- The last `n` values of `xs` lie in their cells.  While `xs` is shorter than `n`
these are all of `xs`, and the other cells are free. -/
def RingHolds (n : Nat) (cell : Nat → α) (xs : List α) : Prop :=
  ∀ i, i < xs.length → xs.length ≤ i + n → xs[i]? = some (cell (i % n))

theorem ringHolds_nil (n : Nat) (cell : Nat → α) : RingHolds n cell [] :=
  fun _ hi => absurd hi (Nat.not_lt_zero _)

/-- Writing the next value keeps the last `n` values in their cells. -/
theorem ringHolds_append {n : Nat} {cell cell' : Nat → α} {xs : List α} {x : α}
    (h : RingHolds n cell xs) (hnew : cell' (xs.length % n) = x)
    (hold : ∀ i, i < n → i ≠ xs.length % n → cell' i = cell i) :
    RingHolds n cell' (xs ++ [x]) := by
  intro i hi hin
  rw [List.length_append, List.length_singleton] at hi hin
  rcases Nat.lt_or_ge i xs.length with hlt | hge
  · have hn : 0 < n := by omega
    -- Two positions less than `n` apart do not share a cell.
    have hne : i % n ≠ xs.length % n := by
      intro he
      have hd : n ∣ xs.length - i :=
        Nat.dvd_of_mod_eq_zero (Nat.sub_mod_eq_zero_of_mod_eq he.symm)
      have := Nat.le_of_dvd (by omega) hd
      omega
    rw [List.getElem?_append_left hlt, hold _ (Nat.mod_lt _ hn) hne]
    exact h i hlt (by omega)
  · have hi' : i = xs.length := by omega
    subst hi'
    rw [List.getElem?_append_right (Nat.le_refl _), Nat.sub_self, hnew]
    rfl

theorem sum_range_getElem? [AddCommMonoid α] (ys : List α) (f : Nat → α)
    (h : ∀ i, i < ys.length → ys[i]? = some (f i)) : ∑ i ∈ range ys.length, f i = ys.sum := by
  induction ys generalizing f with
  | nil => rfl
  | cons y ys ih =>
    have hy : y = f 0 := Option.some.inj (h 0 (Nat.succ_pos _))
    have hrest := ih (fun i => f (i + 1)) fun i hi => h (i + 1) (Nat.succ_lt_succ hi)
    rw [List.length_cons, sum_range_succ', List.sum_cons, hrest, hy, add_comm]

theorem sum_ring [AddCommMonoid α] {n : Nat} {cell : Nat → α} {xs : List α}
    (h : RingHolds n cell xs) (hlen : n ≤ xs.length) :
    ∑ i ∈ range n, cell i = (xs.drop (xs.length - n)).sum := by
  have hlast : (xs.drop (xs.length - n)).length = n := by
    rw [List.length_drop]
    omega
  calc ∑ i ∈ range n, cell i
      = ∑ i ∈ (Ico (xs.length - n) (xs.length - n + n)).image (· % n), cell i := by
        rw [Nat.image_Ico_mod]
    _ = ∑ i ∈ Ico (xs.length - n) (xs.length - n + n), cell (i % n) :=
        sum_image (Nat.mod_injOn_Ico _ _)
    _ = ∑ i ∈ range n, cell ((xs.length - n + i) % n) := by
        rw [sum_Ico_eq_sum_range, Nat.add_sub_cancel_left]
    _ = (xs.drop (xs.length - n)).sum := by
        conv_lhs => rw [← hlast]
        refine sum_range_getElem? _ _ fun i hi => ?_
        rw [List.getElem?_drop, hlast]
        exact h _ (by omega) (by omega)

end Lib
end LinuxPrograming

import Mathlib.Algebra.Order.Ring.Rat
import Mathlib.Tactic.Common

/-!
# `os_gen.c`: binary search and average

Both functions take the array as an access function `Int → m _` into a monad.
Reading with `Id` gives the plain value.  Reading with an error monad makes every
access that C leaves undefined visible in the result.
-/

namespace LinuxPrograming
namespace Gateway

theorem le_tdiv_two {a b : Int} (h : a ≤ b) :
    a ≤ (a + b).tdiv 2 ∧ (a + b).tdiv 2 ≤ b := by
  rw [Int.tdiv_eq_ediv]
  split
  · constructor <;> omega
  · have : Int.sign 2 = 1 := rfl
    constructor <;> omega

variable {m : Type → Type} [Monad m]

/-- `search(arr, x, left, right)`: `true` is the C result `1`.  The division is the
truncating one of C. -/
def search (arr : Int → m Int) (x left right : Int) : m Bool :=
  if left ≤ right then do
    let mid := (left + right).tdiv 2
    let v ← arr mid
    if v = x then pure true
    else if v < x then search arr x (mid + 1) right
    else search arr x left (mid - 1)
  else pure false
termination_by (right + 1 - left).toNat
decreasing_by
  all_goals
    have h := le_tdiv_two (by assumption : left ≤ right)
    omega

/-- `avg(arr)`: the mean of the slots 1 to 5. -/
def avg (arr : Int → m Rat) : m Rat := do
  let ret ← [1, 2, 3, 4, 5].foldlM (fun ret i => do pure (ret + (← arr i))) 0
  pure (ret / 5)

theorem search_step (arr : Int → m Int) {x left right : Int} (h : left ≤ right) :
    search arr x left right = (do
      let v ← arr ((left + right).tdiv 2)
      if v = x then pure true
      else if v < x then search arr x ((left + right).tdiv 2 + 1) right
      else search arr x left ((left + right).tdiv 2 - 1)) := by
  rw [search, if_pos h]

theorem search_empty (arr : Int → m Int) {x left right : Int} (h : right < left) :
    search arr x left right = pure false := by
  rw [search, if_neg (by omega)]

/-- The paths of `search(arr, x, 0, 5)`.  The right end of the window reaches slot 5
when `x` is larger than what slots 2 and 4 hold. -/
theorem search_five (arr : Int → m Int) (x : Int) :
    search arr x 0 5 = (do
      let a₂ ← arr 2
      if a₂ = x then pure true
      else if a₂ < x then do
        let a₄ ← arr 4
        if a₄ = x then pure true
        else if a₄ < x then do
          let a₅ ← arr 5
          if a₅ = x then pure true else pure false
        else do
          let a₃ ← arr 3
          if a₃ = x then pure true else pure false
      else do
        let a₀ ← arr 0
        if a₀ = x then pure true
        else if a₀ < x then do
          let a₁ ← arr 1
          if a₁ = x then pure true else pure false
        else pure false) := by
  have leaf : ∀ k : Int, search arr x k k = (do
      let v ← arr k
      if v = x then pure true else pure false) := by
    intro k
    have hk : (k + k).tdiv 2 = k := by
      rw [← two_mul]
      exact Int.mul_tdiv_cancel_left k (by decide)
    rw [search_step arr (Int.le_refl k), hk, search_empty arr (by omega),
      search_empty arr (by omega)]
    simp only [ite_self]
  have right : search arr x 3 5 = (do
      let a₄ ← arr 4
      if a₄ = x then pure true
      else if a₄ < x then search arr x 5 5
      else search arr x 3 3) := search_step arr (by decide)
  have left : search arr x 0 1 = (do
      let a₀ ← arr 0
      if a₀ = x then pure true
      else if a₀ < x then search arr x 1 1
      else search arr x 0 (-1)) := search_step arr (by decide)
  have top : search arr x 0 5 = (do
      let a₂ ← arr 2
      if a₂ = x then pure true
      else if a₂ < x then search arr x 3 5
      else search arr x 0 1) := search_step arr (by decide)
  rw [top, right, left, leaf, leaf, leaf, search_empty arr (by decide)]

end Gateway
end LinuxPrograming

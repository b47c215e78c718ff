import Mathlib.Data.Option.Basic
import Mathlib.Tactic.Common

/-!
# Locks and the places they guard

`Owned owner inside` says that the threads at a place guarded by a lock are the owner of the
lock and no other.  `inside` is usually a condition on the program counter of a thread.
-/

namespace LinuxPrograming
namespace Lib

variable {T : Type*} {owner : Option T} {inside inside' : T → Prop} {t : T}

/-- The owner of the lock is the one thread inside. -/
def Owned (owner : Option T) (inside : T → Prop) : Prop := ∀ t, inside t ↔ owner = some t

theorem owned_none : Owned none inside ↔ ∀ t, ¬ inside t := by
  simp [Owned]

namespace Owned

/-- Mutual exclusion. -/
theorem unique {u : T} (h : Owned owner inside) (ht : inside t) (hu : inside u) : t = u :=
  Option.some.inj (((h t).mp ht).symm.trans ((h u).mp hu))

theorem owner_eq (h : Owned owner inside) (ht : inside t) : owner = some t := (h t).mp ht

/-- A step of a thread that stays on its side of the lock. -/
theorem keep (h : Owned owner inside) (ht : inside' t ↔ inside t)
    (hother : ∀ u, u ≠ t → (inside' u ↔ inside u)) : Owned owner inside' := by
  intro u
  by_cases hu : u = t
  · rw [hu, ht]
    exact h t
  · rw [hother u hu]
    exact h u

theorem acquire (h : Owned none inside) (ht : inside' t)
    (hother : ∀ u, u ≠ t → (inside' u ↔ inside u)) : Owned (some t) inside' := by
  intro u
  by_cases hu : u = t
  · rw [hu]
    exact iff_of_true ht rfl
  · rw [hother u hu]
    exact iff_of_false (owned_none.mp h u) (fun heq => hu (Option.some.inj heq).symm)

theorem release (h : Owned owner inside) (hin : inside t) (ht : ¬ inside' t)
    (hother : ∀ u, u ≠ t → (inside' u ↔ inside u)) : Owned none inside' := by
  refine owned_none.mpr fun u hu => ?_
  by_cases hut : u = t
  · exact ht (hut ▸ hu)
  · exact hut (h.unique ((hother u hut).mp hu) hin)

end Owned

end Lib
end LinuxPrograming

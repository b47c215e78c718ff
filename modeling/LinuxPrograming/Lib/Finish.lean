import Mathlib.Tactic.Common

/-!
# Operations that run in steps

`act` makes one step of an operation: from a place in its code and a state to the next
place and state, or to an error.  `Finishes act done k s t` says that the steps from the
place `k` and the state `s` make no error and arrive, at a place where the operation is
`done`, in the state `t`.
-/

namespace LinuxPrograming
namespace Lib

inductive Finishes {ε κ σ : Type*} (act : κ → σ → Except ε (κ × σ)) (done : κ → Prop) :
    κ → σ → σ → Prop where
  | done {k : κ} {s : σ} (hk : done k) : Finishes act done k s s
  | step {k k' : κ} {s s' t : σ} (hk : ¬ done k) (hact : act k s = .ok (k', s'))
    (hrest : Finishes act done k' s' t) : Finishes act done k s t

namespace Finishes

variable {ε κ σ : Type*} {act : κ → σ → Except ε (κ × σ)} {done : κ → Prop} {k : κ} {s t : σ}

theorem eq_of_done (h : Finishes act done k s t) (hk : done k) : t = s := by
  cases h with
  | done _ => rfl
  | step hnot _ _ => exact absurd hk hnot

/-- An operation that finishes makes its next step without an error. -/
theorem next (h : Finishes act done k s t) (hk : ¬ done k) :
    ∃ k' s', act k s = .ok (k', s') ∧ Finishes act done k' s' t := by
  cases h with
  | done hdone => exact absurd hdone hk
  | step _ hact hrest => exact ⟨_, _, hact, hrest⟩

end Finishes

end Lib
end LinuxPrograming

import Mathlib.Tactic.Common

/-!
# Machines that answer, and their specifications

A machine `step` may fail with an error.  A specification `spec` is total.  When
every step that `guard` allows answers as the specification does and keeps a relation
between the states, so does every run that `guard` allows.
-/

namespace LinuxPrograming
namespace Lib

variable {σ τ ε ρ φ : Type*}

/-- Feed events to a machine and collect its answers. -/
def answers (step : σ → ε → Except φ (σ × ρ)) : σ → List ε → Except φ (σ × List ρ)
  | s, [] => .ok (s, [])
  | s, e :: es =>
    match step s e with
    | .error f => .error f
    | .ok (s, r) =>
      match answers step s es with
      | .error f => .error f
      | .ok (s, rs) => .ok (s, r :: rs)

/-- The same for a specification. -/
def specAnswers (spec : τ → ε → τ × ρ) : τ → List ε → τ × List ρ
  | t, [] => (t, [])
  | t, e :: es =>
    ((specAnswers spec (spec t e).1 es).1, (spec t e).2 :: (specAnswers spec (spec t e).1 es).2)

/-- Every event is one that `guard` allows in the state it is fed to. -/
def Allowed (step : σ → ε → Except φ (σ × ρ)) (guard : σ → ε → Prop) : σ → List ε → Prop
  | _, [] => True
  | s, e :: es => guard s e ∧
    match step s e with
    | .error _ => True
    | .ok (s', _) => Allowed step guard s' es

/-- The run rule of a simulation. -/
theorem answers_refines {step : σ → ε → Except φ (σ × ρ)} {spec : τ → ε → τ × ρ}
    {guard : σ → ε → Prop} {R : σ → τ → Prop}
    (hstep : ∀ s t e, R s t → guard s e →
      ∃ s', step s e = .ok (s', (spec t e).2) ∧ R s' (spec t e).1)
    {s : σ} {t : τ} {es : List ε} (hR : R s t) (hes : Allowed step guard s es) :
    ∃ s', answers step s es = .ok (s', (specAnswers spec t es).2) ∧
      R s' (specAnswers spec t es).1 := by
  induction es generalizing s t with
  | nil => exact ⟨s, rfl, hR⟩
  | cons e es ih =>
    obtain ⟨s₁, h₁, hR₁⟩ := hstep s t e hR hes.1
    have hrest := hes.2
    rw [h₁] at hrest
    obtain ⟨s₂, h₂, hR₂⟩ := ih hR₁ hrest
    refine ⟨s₂, ?_, hR₂⟩
    rw [answers, h₁]
    dsimp only
    rw [h₂, specAnswers]

end Lib
end LinuxPrograming

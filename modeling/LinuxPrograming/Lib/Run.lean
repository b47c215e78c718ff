import Mathlib.Data.Option.Basic
import Mathlib.Tactic.Common

/-!
# Runs of an event-driven machine

A machine is a function `next : σ → ε → Option σ`.  The value `none` stands for
an event the state does not admit.  Each model chooses what that means: a thread
that is blocked, or an operation that C leaves undefined.

`run` feeds a list of events to the machine.  `Meets` says that every step of a
run satisfies a condition on the state before the step and on the event.
-/

namespace LinuxPrograming
namespace Lib

variable {σ ε : Type*}

/-- Feed a list of events to the machine. -/
def run (next : σ → ε → Option σ) : σ → List ε → Option σ
  | s, [] => some s
  | s, e :: es => (next s e).bind fun t => run next t es

/-- Every step of the run from `s` satisfies `C`. -/
def Meets (next : σ → ε → Option σ) (C : σ → ε → Prop) : σ → List ε → Prop
  | _, [] => True
  | s, e :: es => C s e ∧ ∀ t, next s e = some t → Meets next C t es

instance Meets.decidable (next : σ → ε → Option σ) (C : σ → ε → Prop)
    [∀ s e, Decidable (C s e)] : (s : σ) → (es : List ε) → Decidable (Meets next C s es)
  | _, [] => isTrue trivial
  | s, e :: es =>
    match hnext : next s e with
    | none => decidable_of_iff (C s e) (by simp [Meets, hnext])
    | some t =>
      have := Meets.decidable next C t es
      decidable_of_iff (C s e ∧ Meets next C t es) (by simp [Meets, hnext])

variable {next : σ → ε → Option σ}

theorem run_cons (s : σ) (e : ε) (es : List ε) :
    run next s (e :: es) = (next s e).bind fun t => run next t es := rfl

theorem run_cons_eq_some {s u : σ} {e : ε} {es : List ε} :
    run next s (e :: es) = some u ↔ ∃ t, next s e = some t ∧ run next t es = some u := by
  rw [run_cons, Option.bind_eq_some_iff]

theorem run_singleton (s : σ) (e : ε) : run next s [e] = next s e := by
  rw [run_cons]
  cases next s e <;> rfl

/-- A property that every step preserves holds at the end of every run. -/
theorem run_preserves {I : σ → Prop}
    (hstep : ∀ s e t, I s → next s e = some t → I t) {s t : σ} {es : List ε}
    (hs : I s) (h : run next s es = some t) : I t := by
  induction es generalizing s with
  | nil => exact Option.some.inj h ▸ hs
  | cons e es ih =>
    obtain ⟨u, hu, hrest⟩ := run_cons_eq_some.mp h
    exact ih (hstep s e u hs hu) hrest

/-- A run is no longer than the measure that each of its steps decreases. -/
theorem run_length_le {I : σ → Prop} {μ : σ → Nat}
    (hstep : ∀ s e t, I s → next s e = some t → I t ∧ μ t < μ s) {s t : σ} {es : List ε}
    (hs : I s) (h : run next s es = some t) : es.length + μ t ≤ μ s := by
  induction es generalizing s with
  | nil =>
    obtain rfl := Option.some.inj h
    exact Nat.le_of_eq (Nat.zero_add _)
  | cons e es ih =>
    obtain ⟨u, hu, hrest⟩ := run_cons_eq_some.mp h
    obtain ⟨hI, hlt⟩ := hstep s e u hs hu
    have hle := ih hI hrest
    rw [List.length_cons]
    omega

theorem run_append {s t : σ} {es : List ε} (h : run next s es = some t) (fs : List ε) :
    run next s (es ++ fs) = run next t fs := by
  induction es generalizing s with
  | nil => exact Option.some.inj h ▸ rfl
  | cons e es ih =>
    obtain ⟨u, hu, hrest⟩ := run_cons_eq_some.mp h
    rw [List.cons_append, run_cons, hu]
    exact ih hrest

theorem run_append_eq_some {s u : σ} {es fs : List ε} :
    run next s (es ++ fs) = some u ↔ ∃ t, run next s es = some t ∧ run next t fs = some u := by
  induction es generalizing s with
  | nil => exact ⟨fun h => ⟨s, rfl, h⟩, fun ⟨_, hs, h⟩ => Option.some.inj hs ▸ h⟩
  | cons e es ih =>
    rw [List.cons_append, run_cons_eq_some]
    constructor
    · rintro ⟨t, ht, hrest⟩
      obtain ⟨v, hv, hlast⟩ := ih.mp hrest
      exact ⟨v, run_cons_eq_some.mpr ⟨t, ht, hv⟩, hlast⟩
    · rintro ⟨v, hv, hlast⟩
      obtain ⟨t, ht, hrest⟩ := run_cons_eq_some.mp hv
      exact ⟨t, ht, ih.mpr ⟨v, hrest, hlast⟩⟩

theorem run_preserves_of_meets {I : σ → Prop} {C : σ → ε → Prop}
    (hstep : ∀ s e t, I s → C s e → next s e = some t → I t) {s t : σ} {es : List ε}
    (hs : I s) (hC : Meets next C s es) (h : run next s es = some t) : I t := by
  induction es generalizing s with
  | nil => exact Option.some.inj h ▸ hs
  | cons e es ih =>
    obtain ⟨u, hu, hrest⟩ := run_cons_eq_some.mp h
    exact ih (hstep s e u hs hC.1 hu) (hC.2 u hu) hrest

/-- A machine whose every step is a step of `spec` or leaves the state of `spec` as it is. -/
theorem run_simulates {τ φ : Type*} {spec : τ → φ → Option τ} {R : σ → τ → Prop}
    (hstep : ∀ s t e s', R s t → next s e = some s' →
      R s' t ∨ ∃ f t', spec t f = some t' ∧ R s' t')
    {s s' : σ} {t : τ} {es : List ε} (hR : R s t) (h : run next s es = some s') :
    ∃ fs t', run spec t fs = some t' ∧ R s' t' := by
  induction es generalizing s t with
  | nil => exact ⟨[], t, rfl, Option.some.inj h ▸ hR⟩
  | cons e es ih =>
    obtain ⟨u, hu, hrest⟩ := run_cons_eq_some.mp h
    rcases hstep s t e u hR hu with hstay | ⟨f, v, hv, hmove⟩
    · exact ih hstay hrest
    · obtain ⟨fs, t', hfs, ht'⟩ := ih hmove hrest
      exact ⟨f :: fs, t', run_cons_eq_some.mpr ⟨v, hv, hfs⟩, ht'⟩

theorem meets_of_forall {C : σ → ε → Prop} {es : List ε} (h : ∀ e ∈ es, ∀ s, C s e) (s : σ) :
    Meets next C s es := by
  induction es generalizing s with
  | nil => exact trivial
  | cons e es ih =>
    exact ⟨h e List.mem_cons_self s,
      fun t _ => ih (fun e' he' => h e' (List.mem_cons_of_mem e he')) t⟩

theorem Meets.and {C D : σ → ε → Prop} {s : σ} {es : List ε} (hC : Meets next C s es)
    (hD : Meets next D s es) : Meets next (fun s e => C s e ∧ D s e) s es := by
  induction es generalizing s with
  | nil => exact trivial
  | cons e es ih => exact ⟨⟨hC.1, hD.1⟩, fun t ht => ih (hC.2 t ht) (hD.2 t ht)⟩

/-- What every state of an invariant admits holds along every run that keeps the invariant. -/
theorem meets_of_inv {I : σ → Prop} {C E : σ → ε → Prop}
    (hstep : ∀ s e t, I s → E s e → next s e = some t → I t)
    (h : ∀ s e, I s → E s e → C s e) {s : σ} (hs : I s) {es : List ε}
    (hE : Meets next E s es) : Meets next C s es := by
  induction es generalizing s with
  | nil => exact trivial
  | cons e es ih =>
    exact ⟨h s e hs hE.1, fun t ht => ih (hstep s e t hs hE.1 ht) (hE.2 t ht)⟩

/-- Two conditions that agree in every state of an invariant, over runs whose steps keep the
invariant. -/
theorem meets_congr {I : σ → Prop} {C D E : σ → ε → Prop}
    (hstep : ∀ s e t, I s → E s e → next s e = some t → I t)
    (h : ∀ s e, I s → E s e → (C s e ↔ D s e)) {s : σ} (hs : I s) {es : List ε}
    (hE : Meets next E s es) :
    Meets next C s es ↔ Meets next D s es := by
  induction es generalizing s with
  | nil => exact Iff.rfl
  | cons e es ih =>
    exact and_congr (h s e hs hE.1) (forall_congr' fun t => forall_congr' fun ht =>
      ih (hstep s e t hs hE.1 ht) (hE.2 t ht))

end Lib
end LinuxPrograming

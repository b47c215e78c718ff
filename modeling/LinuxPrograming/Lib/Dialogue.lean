import Mathlib.Tactic.Common

/-!
# Programs that send requests

A program sends requests one after the other, and each gets an answer.  The answers are given
in advance, by the number of requests before.  What a program sends can then be listed, again
by the number of requests before it, and so can its result.  A request that does not fit its
answer is a fault, and so the program has no result.
-/

namespace LinuxPrograming
namespace Lib

/-- How requests of type `ε` with texts of type `τ` are sent from states of type `σ`. -/
structure Dialogue (σ τ ε A : Type) where
  sent : σ → List τ
  text : ε → τ
  Fits : ε → A → Prop
  answers : Nat → A

namespace Dialogue

variable {σ τ ε A α β : Type} (d : Dialogue σ τ ε A)

/-- The requests fit their answers, from number `n` on. -/
def AllFit : Nat → List ε → Prop
  | _, [] => True
  | n, e :: es => d.Fits e (d.answers n) ∧ AllFit (n + 1) es

instance AllFit.decidable [∀ e a, Decidable (d.Fits e a)] :
    (n : Nat) → (es : List ε) → Decidable (d.AllFit n es)
  | _, [] => isTrue trivial
  | n, e :: es =>
    have := AllFit.decidable (n + 1) es
    inferInstanceAs (Decidable (d.Fits e (d.answers n) ∧ d.AllFit (n + 1) es))

/-- `act` sends the requests of `plan` and comes to `result`, or has no result when one of them
does not fit. -/
def Sends (act : StateT σ Option α) (plan : Nat → List ε) (result : Nat → α) : Prop :=
  ∀ s n, n = (d.sent s).length →
    (d.AllFit n (plan n) → ∃ t, act.run s = some (result n, t) ∧
      d.sent t = d.sent s ++ (plan n).map d.text) ∧
    (¬ d.AllFit n (plan n) → act.run s = none)

variable {d}

theorem allFit_append {n : Nat} {es fs : List ε} :
    d.AllFit n (es ++ fs) ↔ d.AllFit n es ∧ d.AllFit (n + es.length) fs := by
  induction es generalizing n with
  | nil => simp [AllFit]
  | cons e es ih =>
    have hlen : n + (e :: es).length = n + 1 + es.length := by
      rw [List.length_cons]
      omega
    rw [List.cons_append, AllFit, AllFit, ih, hlen, and_assoc]

namespace Sends

variable {act : StateT σ Option α} {f : α → StateT σ Option β} {plan : Nat → List ε}
  {result : Nat → α}

/-- There is a result exactly when every request fits. -/
theorem exists_run_iff (h : d.Sends act plan result) (s : σ) :
    (∃ r t, act.run s = some (r, t)) ↔ d.AllFit (d.sent s).length (plan (d.sent s).length) := by
  obtain ⟨hfit, hfault⟩ := h s _ rfl
  constructor
  · intro hrun
    by_contra hall
    obtain ⟨r, t, hrun⟩ := hrun
    rw [hfault hall] at hrun
    cases hrun
  · intro hall
    obtain ⟨t, hrun, -⟩ := hfit hall
    exact ⟨_, t, hrun⟩

/-- A result tells what has been sent. -/
theorem of_run (h : d.Sends act plan result) {s t : σ} {r : α} (hrun : act.run s = some (r, t)) :
    r = result (d.sent s).length ∧
      d.sent t = d.sent s ++ (plan (d.sent s).length).map d.text := by
  obtain ⟨hfit, -⟩ := h s _ rfl
  obtain ⟨t', hrun', hsent⟩ := hfit ((h.exists_run_iff s).mp ⟨r, t, hrun⟩)
  obtain ⟨rfl, rfl⟩ := Prod.mk.inj (Option.some.inj (hrun.symm.trans hrun'))
  exact ⟨rfl, hsent⟩

/-- The plan and the result may be given another form. -/
theorem congr {plan' : Nat → List ε} {result' : Nat → α} (h : d.Sends act plan result)
    (hplan : ∀ n, plan' n = plan n)
    (hresult : ∀ n, d.AllFit n (plan n) → result' n = result n) :
    d.Sends act plan' result' := by
  intro s n hn
  rw [hplan]
  refine ⟨fun hall => ?_, (h s n hn).2⟩
  rw [hresult n hall]
  exact (h s n hn).1 hall

theorem of_pure (a : α) : d.Sends (pure a) (fun _ => []) (fun _ => a) := by
  intro s n hn
  refine ⟨fun _ => ⟨s, rfl, ?_⟩, fun hall => absurd trivial hall⟩
  rw [List.map_nil, List.append_nil]

/-- A change of the state that sends nothing. -/
theorem of_modify {g : σ → σ} (hg : ∀ s, d.sent (g s) = d.sent s) :
    d.Sends (modify g) (fun _ => []) (fun _ => ()) := by
  intro s n hn
  refine ⟨fun _ => ⟨g s, rfl, ?_⟩, fun hall => absurd trivial hall⟩
  rw [hg, List.map_nil, List.append_nil]

/-- One program after the other. -/
theorem bind {next : α → Nat → List ε} {last : α → Nat → β} (h : d.Sends act plan result)
    (hf : ∀ a, d.Sends (f a) (next a) (last a)) :
    d.Sends (act >>= f) (fun n => plan n ++ next (result n) (n + (plan n).length))
      (fun n => last (result n) (n + (plan n).length)) := by
  intro s n hn
  obtain ⟨hfit, hfault⟩ := h s n hn
  rw [allFit_append, StateT.run_bind]
  by_cases hall : d.AllFit n (plan n)
  · obtain ⟨t, hrun, hsent⟩ := hfit hall
    have hlen : n + (plan n).length = (d.sent t).length := by
      rw [hsent, List.length_append, List.length_map, hn]
    obtain ⟨hfit', hfault'⟩ := hf (result n) t _ hlen
    rw [hrun]
    constructor
    · intro hrest
      obtain ⟨u, hrun', hsent'⟩ := hfit' hrest.2
      refine ⟨u, hrun', ?_⟩
      rw [hsent', hsent, List.map_append, List.append_assoc]
    · intro hrest
      exact hfault' fun hnext => hrest ⟨hall, hnext⟩
  · rw [hfault hall]
    exact ⟨fun hrest => absurd hrest.1 hall, fun _ => rfl⟩

end Sends

end Dialogue

end Lib
end LinuxPrograming

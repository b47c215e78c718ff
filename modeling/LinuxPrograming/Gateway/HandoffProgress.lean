import LinuxPrograming.Gateway.HandoffSafety

/-!
# When the hand-off advances

Newness is decided by comparing strings.  A head whose string repeats the one before
it looks old to both managers, and stays.  Any other head is taken by both and removed
once the managers run for long enough.
-/

namespace LinuxPrograming
namespace Gateway
namespace Handoff

open Lib

/-- The managers alone can take the head `n` both and remove it. -/
def CanAdvance (p : Payload) (s : State) (n : Node) : Prop :=
  ∃ (ws : List Who) (t : State), run (next p) s (ws.map .mgr) = some t ∧
    t.removed = s.removed ++ [n] ∧ ∀ w, n ∈ (t.mgr w).taken

/-! ## A repeated string -/

theorem Follows.ne_of_ahead {removed items : List Node} {m : Mgr} (h : Follows removed items m)
    {n : Node} (hhead : items.head? = some n) (hne : m.taken ≠ removed) :
    m.taken = removed ++ [n] ∧ n.sent ≠ lastSent removed := by
  rcases h.taken with heq | ⟨n', hhead', heq, hnew⟩
  · exact absurd heq hne
  · rw [hhead, Option.some.injEq] at hhead'
    rw [hhead']
    exact ⟨heq, hnew⟩

theorem repeated_step {s t : State} {w : Who} {n : Node} (h : Safe s)
    (hhead : s.queue.items.head? = some n) (hrep : n.sent = lastSent s.removed)
    (hstep : MgrStep byValue s w t) : t.removed = s.removed ∧ t.queue = s.queue := by
  cases hstep with
  | remove n' hpc hcnt =>
    have htaken := (h.follows w).test n' hpc
    have hne : (s.mgr w).taken ≠ s.removed := by
      rw [htaken]
      simp
    exact absurd hrep ((h.follows w).ne_of_ahead hhead hne).2
  | _ => exact ⟨rfl, rfl⟩

theorem repeated_run {s t : State} {n : Node} (h : Safe s)
    (hhead : s.queue.items.head? = some n) (hrep : n.sent = lastSent s.removed)
    {ws : List Who} (hrun : run (next byValue) s (ws.map .mgr) = some t) :
    t.removed = s.removed := by
  induction ws generalizing s with
  | nil => rw [Option.some.inj hrun]
  | cons w ws ih =>
    obtain ⟨u, hu, hrest⟩ := run_cons_eq_some.mp hrun
    obtain ⟨hremoved, hqueue⟩ := repeated_step h hhead hrep (mgrStep_cases hu)
    rw [← hremoved]
    exact ih (next_safe h hu) (hqueue ▸ hhead) (hremoved ▸ hrep) hrest

/-! ## A new string -/

/-- How far a manager is from having taken the head, or from leaving the critical section
when it is ahead. -/
def Pc.rank (ahead : Bool) : Pc → Nat
  | .lock => if ahead then 0 else 9
  | .get => if ahead then 3 else 8
  | .cmp _ => if ahead then 2 else 7
  | .skip => if ahead then 1 else 10
  | .copy _ => 6
  | .count _ => 5
  | .test _ => 2
  | .release _ => if ahead then 1 else 11
  | .parse _ => if ahead then 0 else 10

def Mgr.rank (removed : List Node) (m : Mgr) : Nat := m.pc.rank (decide (m.taken ≠ removed))

def measure (s : State) : Nat :=
  (s.mgr .data).rank s.removed + (s.mgr .storage).rank s.removed

theorem measure_setMgr_lt {s : State} {w : Who} {m : Mgr}
    (h : m.rank s.removed < (s.mgr w).rank s.removed) : measure (s.setMgr w m) < measure s := by
  cases w <;> simp only [measure, State.setMgr] <;> simp <;> exact h

theorem rank_of_eq {removed : List Node} {m : Mgr} (h : m.taken = removed) :
    m.rank removed = m.pc.rank false := by
  rw [Mgr.rank, decide_eq_false (not_not_intro h)]

theorem rank_of_ne {removed : List Node} {m : Mgr} (h : m.taken ≠ removed) :
    m.rank removed = m.pc.rank true := by
  rw [Mgr.rank, decide_eq_true h]

theorem enabled {p : Payload} {s : State} {w : Who} (hitems : s.queue.items ≠ [])
    (h : s.owner = none ∨ (s.mgr w).pc.Inside) : ∃ t, next p s (.mgr w) = some t := by
  rw [← Option.isSome_iff_exists, next, mgrStep]
  cases hpc : (s.mgr w).pc with
  | lock =>
    rcases h with hfree | hin
    · simp [hfree]
    · rw [hpc] at hin
      exact hin.elim
  | get =>
    cases hq : s.queue.items with
    | nil => exact absurd hq hitems
    | cons n rest => rfl
  | test n =>
    dsimp only
    split <;> rfl
  | _ => rfl

theorem rank_lt_of_eq {removed : List Node} {m m' : Mgr} (h : m.taken = removed)
    (htaken : m'.taken = m.taken) (hlt : m'.pc.rank false < m.pc.rank false) :
    m'.rank removed < m.rank removed := by
  rw [rank_of_eq h, rank_of_eq (htaken.trans h)]
  exact hlt

theorem rank_lt_of_ne {removed : List Node} {m m' : Mgr} (h : m.taken ≠ removed)
    (htaken : m'.taken = m.taken) (hlt : m'.pc.rank true < m.pc.rank true) :
    m'.rank removed < m.rank removed := by
  rw [rank_of_ne h, rank_of_ne (htaken ▸ h)]
  exact hlt

/-- A move that goes down on both sides of `cnt++`. -/
theorem rank_lt {removed : List Node} {m m' : Mgr} (htaken : m'.taken = m.taken)
    (hlt : ∀ ahead, m'.pc.rank ahead < m.pc.rank ahead) : m'.rank removed < m.rank removed := by
  by_cases h : m.taken = removed
  · exact rank_lt_of_eq h htaken (hlt false)
  · exact rank_lt_of_ne h htaken (hlt true)

/-- Over a new string, a step of a manager that is inside the critical section or has not
taken the head removes the head or brings the removal closer. -/
theorem advance_step {s t : State} {w : Who} {n : Node} (h : Safe s)
    (hhead : s.queue.items.head? = some n) (hnew : n.sent ≠ lastSent s.removed)
    (hw : (s.mgr w).pc.Inside ∨ (s.mgr w).taken = s.removed)
    (hstep : MgrStep byValue s w t) :
    t.removed = s.removed ++ [n] ∨
      t.removed = s.removed ∧ t.queue = s.queue ∧ measure t < measure s := by
  have hfol := h.follows w
  cases hstep with
  | lock hpc _ =>
    -- Outside the critical section the manager has not taken the head.
    have htaken := hw.resolve_left (by rw [hpc]; exact id)
    refine Or.inr ⟨rfl, rfl, measure_setMgr_lt (s := s) (rank_lt_of_eq htaken rfl ?_)⟩
    simp [hpc, Pc.rank]
  | get n' rest hpc _ =>
    refine Or.inr ⟨rfl, rfl, measure_setMgr_lt (rank_lt rfl fun ahead => ?_)⟩
    cases ahead <;> simp [hpc, Pc.rank]
  | equal n' hpc hmsg =>
    -- An equal string means that the manager is ahead.
    have hn := hfol.atHead n' (by rw [hpc]; exact rfl)
    rw [hhead, Option.some.injEq] at hn
    have hne : (s.mgr w).taken ≠ s.removed := by
      intro heq
      have hold := hfol.oldMsg_eq fun n'' hn'' => by rw [hpc] at hn''; exact hn''
      rw [heq, ← hmsg, ← hn] at hold
      exact hnew hold
    refine Or.inr ⟨rfl, rfl, measure_setMgr_lt (rank_lt_of_ne hne rfl ?_)⟩
    simp [hpc, Pc.rank]
  | differ n' hpc hmsg =>
    have htaken := (hfol.taken_of_differ hpc hmsg).1
    refine Or.inr ⟨rfl, rfl, measure_setMgr_lt (rank_lt_of_eq htaken rfl ?_)⟩
    simp [hpc, Pc.rank]
  | skip hpc =>
    refine Or.inr ⟨rfl, rfl, measure_setMgr_lt (s := s) (rank_lt rfl fun ahead => ?_)⟩
    cases ahead <;> simp [hpc, Pc.rank]
  | copy n' hpc =>
    have htaken := (hfol.foundNew n' (by rw [hpc]; exact rfl)).1
    refine Or.inr ⟨rfl, rfl, measure_setMgr_lt (rank_lt_of_eq htaken rfl ?_)⟩
    simp [hpc, Pc.rank]
  | count n' hpc =>
    have htaken := (hfol.foundNew n' (by rw [hpc]; exact rfl)).1
    have hahead : (s.mgr w).taken ++ [n'] ≠ s.removed := by
      rw [htaken]
      simp
    refine Or.inr ⟨rfl, rfl, measure_setMgr_lt (s := s) ?_⟩
    rw [rank_of_eq htaken, rank_of_ne hahead, hpc]
    exact (by decide : 2 < 5)
  | remove n' hpc hcnt =>
    left
    obtain ⟨rest, hrest⟩ := List.head?_eq_some_iff.mp hhead
    rw [setMgr_removed, hrest]
    rfl
  | keep n' hpc _ =>
    have hne : (s.mgr w).taken ≠ s.removed := by
      rw [hfol.test n' hpc]
      simp
    refine Or.inr ⟨rfl, rfl, measure_setMgr_lt (rank_lt_of_ne hne rfl ?_)⟩
    simp [hpc, Pc.rank]
  | release n' hpc =>
    refine Or.inr ⟨rfl, rfl, measure_setMgr_lt (s := s) (rank_lt rfl fun ahead => ?_)⟩
    cases ahead <;> simp [hpc, Pc.rank]
  | parse n' hpc =>
    have htaken := hw.resolve_left (by rw [hpc]; exact id)
    refine Or.inr ⟨rfl, rfl, measure_setMgr_lt (rank_lt_of_eq htaken rfl ?_)⟩
    simp [hpc, Pc.rank]

theorem exists_mover {s : State} (h : Safe s) (hitems : s.queue.items ≠ []) :
    ∃ w t, next byValue s (.mgr w) = some t ∧
      ((s.mgr w).pc.Inside ∨ (s.mgr w).taken = s.removed) := by
  cases howner : s.owner with
  | some w =>
    have hin := (h.owner w).mpr howner
    obtain ⟨t, ht⟩ := enabled (p := byValue) hitems (Or.inr hin)
    exact ⟨w, t, ht, Or.inl hin⟩
  | none =>
    -- Not both managers are ahead, since the one that counted second removes the head.
    have hbehind : ∃ w, (s.mgr w).taken = s.removed := by
      by_contra hno
      have hahead : ∀ w, (s.mgr w).taken.length = s.removed.length + 1 := by
        intro w
        rcases (h.follows w).taken with heq | ⟨n, -, heq, -⟩
        · exact absurd ⟨w, heq⟩ hno
        · rw [heq, List.length_append, List.length_singleton]
      have hcnt := h.cnt_le_one howner
      have htotal := h.cnt
      rw [total, hahead, hahead] at htotal
      omega
    obtain ⟨w, hw⟩ := hbehind
    obtain ⟨t, ht⟩ := enabled (p := byValue) (w := w) hitems (Or.inl howner)
    exact ⟨w, t, ht, Or.inr hw⟩

theorem advance_run {s : State} {n : Node} (h : Safe s)
    (hhead : s.queue.items.head? = some n) (hnew : n.sent ≠ lastSent s.removed) :
    ∃ (ws : List Who) (t : State), run (next byValue) s (ws.map .mgr) = some t ∧
      t.removed = s.removed ++ [n] := by
  induction hm : measure s using Nat.strongRecOn generalizing s with
  | ind k ih =>
    have hitems : s.queue.items ≠ [] := fun hnil => by rw [hnil] at hhead; cases hhead
    obtain ⟨w, u, hu, hw⟩ := exists_mover h hitems
    have hu' : next byValue s (.mgr w) = some u := hu
    rcases advance_step h hhead hnew hw (mgrStep_cases hu) with hdone | ⟨hremoved, hqueue, hlt⟩
    · exact ⟨[w], u, (run_singleton s _).trans hu, hdone⟩
    · obtain ⟨ws, t, hrun, ht⟩ := ih (measure u) (hm ▸ hlt) (next_safe h hu) (hqueue ▸ hhead)
        (hremoved ▸ hnew) rfl
      exact ⟨w :: ws, t, run_cons_eq_some.mpr ⟨u, hu, hrun⟩, hremoved ▸ ht⟩

theorem Safe.canAdvance_iff {s : State} (h : Safe s) {n : Node}
    (hhead : s.queue.items.head? = some n) :
    CanAdvance byValue s n ↔ n.sent ≠ lastSent s.removed := by
  constructor
  · rintro ⟨ws, t, hrun, hremoved, -⟩ hrep
    rw [repeated_run h hhead hrep hrun] at hremoved
    simp at hremoved
  · intro hnew
    obtain ⟨ws, t, hrun, hremoved⟩ := advance_run h hhead hnew
    refine ⟨ws, t, hrun, hremoved, fun w => ?_⟩
    have ht : Safe t := run_preserves (fun _ _ _ hs hstep => next_safe hs hstep) h hrun
    rcases (ht.follows w).taken with heq | ⟨n', -, heq, -⟩ <;> rw [heq, hremoved] <;> simp

/-! ## Runs without repetitions -/

/-- A push that succeeds pushes a string other than the one pushed last. -/
def PushesNew (p : Payload) (s : State) : Event → Prop
  | .push alloc => s.queue.IsFull ∨ alloc = false ∨ p.str s.buf ≠ lastSent s.pushed
  | _ => True

instance (p : Payload) (s : State) (e : Event) : Decidable (PushesNew p s e) :=
  match e with
  | .push _ => inferInstanceAs (Decidable (_ ∨ _))
  | .recv _ | .mgr _ => isTrue trivial

/-- No node repeats the string of the node before it. -/
def NoRepeat (ns : List Node) : Prop := ∀ l n r, ns = l ++ n :: r → n.sent ≠ lastSent l

theorem noRepeat_append {ns : List Node} {n : Node} (h : NoRepeat ns)
    (hn : n.sent ≠ lastSent ns) : NoRepeat (ns ++ [n]) := by
  intro l x r heq
  rcases List.eq_nil_or_concat r with rfl | ⟨r, y, rfl⟩
  · obtain ⟨rfl, hx⟩ := List.append_inj' heq rfl
    rw [← List.singleton_inj.mp hx]
    exact hn
  · rw [List.concat_eq_append, ← List.cons_append, ← List.append_assoc] at heq
    exact h l x r (List.append_inj' heq rfl).1

theorem next_noRepeat {p : Payload} {s t : State} {e : Event} (h : NoRepeat s.pushed)
    (he : PushesNew p s e) (hstep : next p s e = some t) : NoRepeat t.pushed := by
  cases e with
  | recv bs =>
    rw [next] at hstep
    split at hstep
    · exact absurd hstep (by simp)
    · exact Option.some.inj hstep ▸ h
  | push alloc =>
    rw [next] at hstep
    split at hstep
    · obtain rfl := Option.some.inj hstep
      rw [State.listPush]
      split
      · exact h
      · next hok =>
        rw [not_or] at hok
        exact noRepeat_append h ((he.resolve_left hok.1).resolve_left hok.2)
    · exact absurd hstep (by simp)
  | mgr w =>
    cases mgrStep_cases hstep <;> exact h

/-- In every state that any interleaving reaches, the managers alone can take the head and
remove it exactly when its string differs from that of the node pushed before it, where
the first node counts as following the empty string.  So a run that never pushes a string
twice in a row can always advance. -/
theorem handoff_advances {size : Nat} {buf : Bytes} {es : List Event} {s : State}
    (h : run (next byValue) (start size buf) es = some s) :
    (∀ n, s.queue.items.head? = some n →
      (CanAdvance byValue s n ↔ n.sent ≠ lastSent s.removed)) ∧
    (Meets (next byValue) (PushesNew byValue) (start size buf) es →
      ∀ n, s.queue.items.head? = some n → CanAdvance byValue s n) := by
  have hs := run_safe h
  refine ⟨fun n hhead => hs.canAdvance_iff hhead, fun hmeets n hhead => ?_⟩
  have hempty : NoRepeat (start size buf).pushed := fun l n r heq => by
    simp [start] at heq
  have hno : NoRepeat s.pushed :=
    run_preserves_of_meets (I := fun s => NoRepeat s.pushed)
      (fun _ _ _ hI he hstep => next_noRepeat hI he hstep) hempty hmeets h
  obtain ⟨rest, hrest⟩ := List.head?_eq_some_iff.mp hhead
  exact (hs.canAdvance_iff hhead).mpr (hno s.removed n rest (hs.queue.trans (hrest ▸ rfl)))

/-- After one message is through, the same message once more stays in the list. -/
theorem handoff_repeated_stays :
    ∃ s n, run (next byValue) (start 100 []) (.recv (bytes "a") :: .push true ::
        (lap .data ++ lap .storage ++ [.recv (bytes "a"), .push true])) = some s ∧
      (∀ m ∈ s.pushed, m.sent ≠ []) ∧ s.queue.items.head? = some n ∧
      ¬ CanAdvance byValue s n := by
  obtain ⟨s, hs⟩ := Option.isSome_iff_exists.mp
    (by decide : (run (next byValue) (start 100 []) (.recv (bytes "a") :: .push true ::
      (lap .data ++ lap .storage ++ [.recv (bytes "a"), .push true]))).isSome)
  have hlists : (run (next byValue) (start 100 []) (.recv (bytes "a") :: .push true ::
      (lap .data ++ lap .storage ++ [.recv (bytes "a"), .push true]))).map
      (fun s => (s.pushed, s.removed, s.queue.items)) =
      some ([⟨0, bytes "a"⟩, ⟨1, bytes "a"⟩], [⟨0, bytes "a"⟩], [⟨1, bytes "a"⟩]) := by decide
  rw [hs, Option.map_some, Option.some.injEq, Prod.mk.injEq, Prod.mk.injEq] at hlists
  obtain ⟨hpushed, hremoved, hitems⟩ := hlists
  refine ⟨s, ⟨1, bytes "a"⟩, hs, ?_, by rw [hitems]; rfl, ?_⟩
  · rw [hpushed]
    decide
  · rw [(run_safe hs).canAdvance_iff (by rw [hitems]; rfl), hremoved]
    decide

/-- The first message is through, and the second one is new. -/
def secondNew : List Event :=
  .recv (bytes "a") :: .push true :: lap .data ++ lap .storage ++ [.recv (bytes "b"), .push true]

theorem handoff_advances_second :
    ∃ s, run (next byValue) (start 100 []) secondNew = some s ∧
      s.removed = [⟨0, bytes "a"⟩] ∧ CanAdvance byValue s ⟨1, bytes "b"⟩ := by
  have hmeets : Meets (next byValue) (PushesNew byValue) (start 100 []) secondNew := by decide
  have hlists : (run (next byValue) (start 100 []) secondNew).map
      (fun s => (s.removed, s.queue.items)) = some ([⟨0, bytes "a"⟩], [⟨1, bytes "b"⟩]) := by
    decide
  obtain ⟨s, hs, hlists⟩ := Option.map_eq_some_iff.mp hlists
  obtain ⟨hremoved, hitems⟩ := Prod.mk.inj hlists
  exact ⟨s, hs, hremoved, (handoff_advances hs).2 hmeets _ (by rw [hitems]; rfl)⟩

end Handoff
end Gateway
end LinuxPrograming

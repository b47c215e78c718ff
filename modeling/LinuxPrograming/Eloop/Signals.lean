import LinuxPrograming.Eloop.Entries

/-!
# Signals

A signal may arrive between any two steps, also while the pending ones are processed.  The flags
are such that none is lost that was counted: one that arrives behind its entry leaves
`eloop.signaled` set.  One that arrives while `eloop_register_signal` moves the entries is counted
in a block that was freed.
-/

namespace LinuxPrograming
namespace Eloop

open Lib

/-! ## The invariant -/

/-- The scan still comes to the entry `i`, unless the process has ended. -/
def Ahead (i : Nat) : Pc → Prop
  | .pending _ .disarm | .pending _ .unpend | .exited => True
  | .pending _ (.entry j) | .pending _ (.take j) => j ≤ i
  | .handler (.pending _ (.entry j)) => j ≤ i
  | _ => False

/-- The flag `eloop.pending_terminate` is about to be cleared. -/
def Clearing : Pc → Prop
  | .pending _ .disarm | .pending _ .unpend | .exited => True
  | _ => False

/-- Nothing about the signals is decided here yet. -/
def Plain : Pc → Prop
  | .pending _ (.take _) | .pending _ .unpend => False
  | .handler k => Returns k
  | _ => True

theorem Plain.ne_take {pc : Pc} (h : Plain pc) (k : After) (i : Nat) :
    pc ≠ .pending k (.take i) := by
  rintro rfl
  exact h

theorem Plain.ne_unpend {pc : Pc} (h : Plain pc) (k : After) : pc ≠ .pending k .unpend := by
  rintro rfl
  exact h

theorem Plain.returns {pc : Pc} (h : Plain pc) (k : Pc) (hpc : pc = .handler k) : Returns k := by
  rw [hpc] at h
  exact h

/-- The entries agree with the notes, and the flags see to what is owed. -/
structure Coherent (s : State) : Prop where
  entries : Entries s.signals.signals s.signals.notes
  fresh : ∀ signal moved, s.signals.growing = some (signal, moved) → signal.signaled = 0
  ahead : ∀ (i : Nat) (signal : Signal), s.signals.signals[i]? = some signal → 0 < signal.signaled →
    0 < s.signals.signaled ∨ Ahead i s.pc
  taken : ∀ k i, s.pc = .pending k (.take i) → ∃ signal : Signal,
    s.signals.signals[i]? = some signal ∧ 0 < signal.signaled
  terminating : s.signals.pendingTerminate = true → 0 < s.signals.signaled ∨ Clearing s.pc
  armed : s.signals.alarm = true →
    s.signals.pendingTerminate = true ∧ waits s.signals.notes = true
  unpending : ∀ k, s.pc = .pending k .unpend →
    s.signals.pendingTerminate = true ∧ s.signals.alarm = false
  returns : ∀ k, s.pc = .handler k → Returns k

section

variable {s t : State}

theorem handle_coherent (h : Coherent s) {sig : Nat}
    (hany : (s.signals.signals.any fun signal => signal.sig == sig) = true) :
    Coherent { s with signals := s.signals.handle sig } := by
  have hsignaled : 0 < (s.signals.handle sig).signaled := Nat.succ_pos _
  have hnote : ∀ note : Note, note = .delivered sig ∨ note = .lost sig →
      (sig = sigint ∨ sig = sigterm → note.terminates = true) ∧ note ≠ .disarmed := by
    rintro note (rfl | rfl)
    · exact ⟨fun hsig => by simpa [Note.terminates] using hsig, fun heq => by cases heq⟩
    · exact ⟨fun hsig => by simpa [Note.terminates] using hsig, fun heq => by cases heq⟩
  have hnotes : ∃ note, (note = .delivered sig ∨ note = .lost sig) ∧
      (s.signals.handle sig).notes = note :: s.signals.notes := by
    rw [Signals.handle]
    dsimp only
    split
    · exact ⟨_, Or.inr rfl, rfl⟩
    · exact ⟨_, Or.inl rfl, rfl⟩
  obtain ⟨note, hwhich, hnotes⟩ := hnotes
  obtain ⟨hterminates, hkept⟩ := hnote note hwhich
  refine ⟨?_, h.fresh, fun i signal hi hpos => Or.inl hsignaled, fun k i hpc => ?_,
    fun _ => Or.inl hsignaled, fun halarm => ?_, fun k hpc => ?_, h.returns⟩
  · rw [Signals.handle]
    dsimp only
    cases s.signals.stale with
    | true => exact h.entries.note (fun _ heq => by cases heq) fun _ heq => by cases heq
    | false => exact h.entries.count hany
  · obtain ⟨signal, hi, hpos⟩ := h.taken k i hpc
    rw [Signals.handle]
    dsimp only
    cases s.signals.stale with
    | true => exact ⟨signal, hi, hpos⟩
    | false =>
      obtain ⟨new, hnew, -, hle⟩ := countSignal_keeps sig hi
      exact ⟨new, hnew, Nat.lt_of_lt_of_le hpos hle⟩
  · change (s.signals.alarm || _) = true at halarm
    show (s.signals.pendingTerminate || _) = true ∧ waits (s.signals.handle sig).notes = true
    rw [hnotes]
    rw [Bool.or_eq_true] at halarm ⊢
    rcases halarm with halarm | hfirst
    · exact ⟨Or.inl (h.armed halarm).1, waits_cons hkept (h.armed halarm).2⟩
    · exact ⟨Or.inr hfirst, waits_of_terminates (hterminates (of_decide_eq_true hfirst).1) _⟩
  · obtain ⟨hpending, halarm⟩ := h.unpending k hpc
    show (s.signals.pendingTerminate || _) = true ∧ (s.signals.alarm || _) = false
    rw [hpending, halarm, Bool.true_or, Bool.false_or, decide_eq_false_iff_not]
    exact ⟨rfl, fun hfirst => absurd hfirst.2 (by decide)⟩

/-- A step that leaves the signals alone, and does not pass an entry that was counted. -/
theorem Coherent.goto (h : Coherent s) (hsignals : t.signals = s.signals)
    (hahead : ∀ (i : Nat) (signal : Signal), s.signals.signals[i]? = some signal →
      0 < signal.signaled → Ahead i s.pc → Ahead i t.pc)
    (hclearing : Clearing s.pc → Clearing t.pc)
    (htake : ∀ k i, t.pc = .pending k (.take i) → ∃ signal : Signal,
      s.signals.signals[i]? = some signal ∧ 0 < signal.signaled)
    (hunpend : ∀ k, t.pc ≠ .pending k .unpend)
    (hreturns : ∀ k, t.pc = .handler k → Returns k) : Coherent t := by
  refine ⟨?_, ?_, ?_, ?_, ?_, ?_, fun k hpc => absurd hpc (hunpend k), hreturns⟩
  · rw [hsignals]
    exact h.entries
  · rw [hsignals]
    exact h.fresh
  · rw [hsignals]
    exact fun i signal hi hpos => (h.ahead i signal hi hpos).imp_right (hahead i signal hi hpos)
  · rw [hsignals]
    exact htake
  · rw [hsignals]
    exact fun hpending => (h.terminating hpending).imp_right hclearing
  · rw [hsignals]
    exact h.armed

/-- Between places that have nothing to do with signals. -/
theorem Coherent.away (h : Coherent s) (hsignals : t.signals = s.signals)
    (hahead : ∀ (i : Nat) (signal : Signal), s.signals.signals[i]? = some signal →
      0 < signal.signaled → ¬ Ahead i s.pc) (hclearing : ¬ Clearing s.pc) (hplain : Plain t.pc) :
    Coherent t :=
  h.goto hsignals (fun i signal hi hpos hs => absurd hs (hahead i signal hi hpos))
    (fun hc => absurd hc hclearing) (fun k i hpc => absurd hpc (hplain.ne_take k i))
    hplain.ne_unpend hplain.returns

theorem call_coherent (h : Coherent s) (c : Call) : Coherent (s.call c) := by
  cases c with
  | registerSignal memory moved sig handler userData =>
    cases memory with
    | false => exact h
    | true =>
      refine ⟨h.entries, fun signal moved' hgrowing => ?_, h.ahead, h.taken, h.terminating, h.armed,
        h.unpending, h.returns⟩
      obtain ⟨rfl, -⟩ := Prod.mk.inj (Option.some.inj hgrowing)
      rfl
  | _ => exact ⟨h.entries, h.fresh, h.ahead, h.taken, h.terminating, h.armed, h.unpending,
      h.returns⟩

/-- The new entry is not counted yet. -/
theorem assign_coherent (h : Coherent s) {signal : Signal} (hzero : signal.signaled = 0) :
    Coherent { s with signals := s.signals.assign signal } := by
  refine ⟨h.entries.add hzero, fun _ _ hgrowing => (by cases hgrowing), fun i other hi hpos => ?_,
    fun k i hpc => ?_, h.terminating, h.armed, h.unpending, h.returns⟩
  · change (s.signals.signals ++ [signal])[i]? = some other at hi
    rcases Nat.lt_or_ge i s.signals.signals.length with hlt | hge
    · rw [List.getElem?_append_left hlt] at hi
      exact h.ahead i other hi hpos
    · rw [List.getElem?_append_right hge] at hi
      rw [List.mem_singleton.mp (List.mem_of_getElem? hi), hzero] at hpos
      exact absurd hpos (Nat.lt_irrefl 0)
  · obtain ⟨other, hi, hpos⟩ := h.taken k i hpc
    refine ⟨other, ?_, hpos⟩
    show (s.signals.signals ++ [signal])[i]? = some other
    rw [List.getElem?_append_left (List.getElem?_eq_some_iff.mp hi).1]
    exact hi

theorem resume_coherent (h : Coherent s) (k : After)
    (hahead : ∀ (i : Nat) (signal : Signal), s.signals.signals[i]? = some signal →
      0 < signal.signaled → ¬ Ahead i s.pc) (hclearing : ¬ Clearing s.pc) :
    Coherent (s.resume k) := by
  cases k with
  | top =>
    rw [State.resume]
    split
    · exact h.away rfl hahead hclearing trivial
    · exact h.away rfl hahead hclearing trivial
  | selected r => exact h.away rfl hahead hclearing trivial

/-- The handler of the entry `i` is called. -/
theorem take_coherent (h : Coherent s) {k : After} {i : Nat}
    (hpc : s.pc = .pending k (.take i)) : Coherent (s.scan k (.take i)) := by
  obtain ⟨signal, hi, hpos⟩ := h.taken k i hpc
  have hlt := (List.getElem?_eq_some_iff.mp hi).1
  rw [State.scan, hi]
  dsimp only
  have hplain : Plain (.handler (.pending k (.entry (i + 1)))) := trivial
  refine ⟨h.entries.clear hi hpos, h.fresh, fun j other hj hpos' => ?_,
    fun k' j hpc' => absurd hpc' (hplain.ne_take k' j), fun hpending => ?_,
    fun halarm => ⟨(h.armed halarm).1, waits_cons (fun heq => by cases heq) (h.armed halarm).2⟩,
    fun k' hpc' => absurd hpc' (hplain.ne_unpend k'), hplain.returns⟩
  · change (s.signals.signals.set i { signal with signaled := 0 })[j]? = some other at hj
    have hne : j ≠ i := by
      rintro rfl
      rw [List.getElem?_set_self hlt] at hj
      rw [← Option.some.inj hj] at hpos'
      exact absurd hpos' (Nat.lt_irrefl 0)
    rw [List.getElem?_set_ne (Ne.symm hne)] at hj
    refine (h.ahead j other hj hpos').imp_right fun hahead => ?_
    rw [hpc] at hahead
    change i ≤ j at hahead
    show i + 1 ≤ j
    omega
  · refine (h.terminating hpending).imp_right fun hclearing => ?_
    rw [hpc] at hclearing
    exact hclearing

theorem scan_coherent (h : Coherent s) {k : After} {scan : Scan}
    (hpc : s.pc = .pending k scan) : Coherent (s.scan k scan) := by
  have hclear : Plain (.pending k .clear) := trivial
  have hdisarm : Plain (.pending k .disarm) := trivial
  have hentry : ∀ i, Plain (.pending k (.entry i)) := fun _ => trivial
  cases scan with
  | check =>
    have hahead : ∀ i, ¬ Ahead i s.pc := by
      rw [hpc]
      exact fun _ => id
    have hclearing : ¬ Clearing s.pc := by
      rw [hpc]
      exact id
    rw [State.scan]
    split
    · exact resume_coherent h k (fun i _ _ _ => hahead i) hclearing
    · exact h.away rfl (fun i _ _ _ => hahead i) hclearing hclear
  | clear =>
    exact ⟨h.entries, h.fresh, fun _ _ _ _ => Or.inr trivial,
      fun k' j hpc' => absurd hpc' (hdisarm.ne_take k' j), fun _ => Or.inr trivial, h.armed,
      fun k' hpc' => absurd hpc' (hdisarm.ne_unpend k'), hdisarm.returns⟩
  | disarm =>
    rw [State.scan]
    split
    · next hpending =>
      exact ⟨h.entries.note (fun _ heq => by cases heq) fun _ heq => (by cases heq), h.fresh,
        fun _ _ _ _ => Or.inr trivial, fun _ _ heq => (by cases heq), fun _ => Or.inr trivial,
        fun halarm => (by cases halarm), fun _ _ => ⟨hpending, rfl⟩, fun _ heq => (by cases heq)⟩
    · next hpending =>
      exact ⟨h.entries, h.fresh, fun i _ _ _ => Or.inr (Nat.zero_le i),
        fun k' j hpc' => absurd hpc' ((hentry 0).ne_take k' j),
        fun hpending' => absurd hpending' hpending, h.armed,
        fun k' hpc' => absurd hpc' ((hentry 0).ne_unpend k'), (hentry 0).returns⟩
  | unpend =>
    refine ⟨h.entries, h.fresh, fun i _ _ _ => Or.inr (Nat.zero_le i),
      fun k' j hpc' => absurd hpc' ((hentry 0).ne_take k' j),
      fun hpending => (by cases hpending), fun halarm => ?_,
      fun k' hpc' => absurd hpc' ((hentry 0).ne_unpend k'), (hentry 0).returns⟩
    change s.signals.alarm = true at halarm
    rw [(h.unpending k hpc).2] at halarm
    cases halarm
  | entry i =>
    have hclearing : ¬ Clearing s.pc := by
      rw [hpc]
      exact id
    have hahead : ∀ {j : Nat}, Ahead j s.pc → i ≤ j := by
      rw [hpc]
      exact id
    rw [State.scan]
    split
    · next hnone =>
      refine resume_coherent h k (fun j signal hj _ hj' => ?_) hclearing
      have hle := hahead hj'
      have hlt := (List.getElem?_eq_some_iff.mp hj).1
      have hge := List.getElem?_eq_none_iff.mp hnone
      omega
    · next signal hi =>
      split
      · next hzero =>
        refine h.goto rfl (fun j other hj hpos hj' => ?_) (fun hc => absurd hc hclearing)
          (fun k' j hpc' => absurd hpc' ((hentry (i + 1)).ne_take k' j)) (hentry (i + 1)).ne_unpend
          (hentry (i + 1)).returns
        have hle := hahead hj'
        have hne : i ≠ j := by
          rintro rfl
          rw [hi] at hj
          obtain rfl := Option.some.inj hj
          omega
        show i + 1 ≤ j
        omega
      · next hcounted =>
        refine h.goto rfl (fun j other _ _ hj' => hahead hj') (fun hc => absurd hc hclearing)
          (fun k' j hpc' => ?_) (fun _ heq => by cases heq) fun _ heq => by cases heq
        cases hpc'
        exact ⟨signal, hi, Nat.pos_of_ne_zero hcounted⟩
  | take i => exact take_coherent h hpc

theorem step_coherent (h : Coherent s) {now : Reltime} (hstep : s.step now = some t) :
    Coherent t := by
  -- The places outside of `eloop_process_pending_signals` know nothing of the signals.
  have haway : ∀ {pc : Pc}, s.pc = pc → (∀ i, ¬ Ahead i pc) → ¬ Clearing pc → ∀ {t : State},
      t.signals = s.signals → Plain t.pc → Coherent t := by
    intro pc hpc hahead hclearing t hsignals
    rw [← hpc] at hahead hclearing
    exact h.away hsignals (fun i _ _ _ => hahead i) hclearing
  have hnext : ∀ {pc : Pc}, s.pc = pc → (∀ i, ¬ Ahead i pc) → ¬ Clearing pc →
      ∀ (type : EventType) (r : Result), Coherent (s.dispatchNext type r) := by
    intro pc hpc hahead hclearing type r
    cases type with
    | read => exact haway hpc hahead hclearing rfl trivial
    | write => exact haway hpc hahead hclearing rfl trivial
    | exception => exact haway hpc hahead hclearing rfl trivial
  cases loopStep_cases hstep with
  | enter hpc _ =>
    refine haway hpc (fun _ => id) id rfl ?_
    dsimp only
    cases s.signals.pendingTerminate with
    | true => trivial
    | false => trivial
  | leave hpc _ | sleep hpc _ | sleepUntil _ _ hpc _ | wait _ hpc _ | fire _ _ _ hpc _ _
  | skip _ hpc _ | dispatch _ hpc _ | call _ _ _ _ hpc _ _ | pass _ _ _ _ hpc _ _
  | back _ _ _ hpc _ => exact haway hpc (fun _ => id) id rfl trivial
  | scan k scan hpc => exact scan_coherent h hpc
  | tableEnd type _ r hpc _ | tableChanged type _ r hpc _ => exact hnext hpc (fun _ => id) id type r

theorem next_coherent (h : Coherent s) {e : Event} (hnext : next s e = some t) : Coherent t := by
  cases e with
  | call c =>
    obtain ⟨-, rfl⟩ := call_cases hnext
    exact call_coherent h c
  | assign =>
    obtain ⟨signal, moved, hgrowing, -, rfl⟩ := assign_cases hnext
    exact assign_coherent h (h.fresh signal moved hgrowing)
  | ret =>
    obtain ⟨k, hpc, rfl⟩ := ret_cases hnext
    have hreturns := h.returns k hpc
    have hclearing : ¬ Clearing s.pc := by
      rw [hpc]
      exact id
    have hplain : Plain k := by
      cases k with
      | pending a scan =>
        cases scan with
        | entry i => trivial
        | _ => exact absurd hreturns id
      | handler k => exact absurd hreturns id
      | _ => trivial
    refine h.goto rfl (fun i _ _ _ hahead => ?_) (fun hc => absurd hc hclearing)
      (fun k' i hpc' => absurd hpc' (hplain.ne_take k' i)) hplain.ne_unpend hplain.returns
    rw [hpc] at hahead
    cases k with
    | pending a scan =>
      cases scan with
      | entry i => exact hahead
      | _ => exact absurd hahead id
    | _ => exact absurd hahead id
  | run memory =>
    rcases run_cases hnext with ⟨hpc, ⟨-, rfl⟩ | ⟨-, rfl⟩⟩
    · exact h
    · refine h.away rfl (fun _ _ _ _ => ?_) ?_ trivial
      · rw [hpc]
        exact id
      · rw [hpc]
        exact id
  | step now => exact step_coherent h (step_cases hnext)
  | select result =>
    rcases select_cases hnext with ⟨_, hpc, ⟨-, rfl⟩ | ⟨r, -, -, rfl⟩⟩
    · refine h.away rfl (fun _ _ _ _ => ?_) ?_ trivial
      · rw [hpc]
        exact id
      · rw [hpc]
        exact id
    · refine h.away rfl (fun _ _ _ _ => ?_) ?_ trivial
      · rw [hpc]
        exact id
      · rw [hpc]
        exact id
  | signal sig =>
    obtain ⟨hany, rfl⟩ := signal_cases hnext
    have hhandle := handle_coherent h hany
    rw [State.interrupt]
    split
    · next hpc =>
      refine hhandle.away rfl (fun _ _ _ _ => ?_) ?_ trivial
      · rw [hpc]
        exact id
      · rw [hpc]
        exact id
    · exact hhandle
  | alarm =>
    obtain ⟨-, rfl⟩ := alarm_cases hnext
    have hplain : Plain .exited := trivial
    exact h.goto rfl (fun _ _ _ _ _ => trivial) (fun _ => trivial)
      (fun k i hpc => absurd hpc (hplain.ne_take k i)) hplain.ne_unpend hplain.returns

theorem run_coherent {es : List Event} (h : run next init es = some s) : Coherent s := by
  refine run_preserves (fun s e t hs hnext => next_coherent hs hnext) ?_ h
  refine ⟨⟨fun i signal hi => ?_, fun sig howes => ?_, fun later sig earlier heq => ?_⟩,
    fun _ _ hgrowing => ?_, fun i signal hi => ?_, fun k i hpc => ?_, fun hpending => ?_,
    fun halarm => ?_, fun k hpc => ?_, fun k hpc => ?_⟩
  · cases hi
  · cases howes
  · cases later with
    | nil => cases heq
    | cons head later => cases heq
  · cases hgrowing
  · cases hi
  · cases hpc
  · cases hpending
  · cases halarm
  · cases hpc
  · cases hpc

/-- The place is in `eloop_process_pending_signals`, or in a handler that it called. -/
def Processing : Pc → Prop
  | .pending _ _ | .handler (.pending _ _) | .exited => True
  | _ => False

/-- No signal arrives while `eloop.signals` is a block that was freed. -/
def Undisturbed (s : State) : Event → Prop
  | .signal _ => s.signals.stale = false
  | _ => True

instance (s : State) (e : Event) : Decidable (Undisturbed s e) :=
  match e with
  | .signal _ => inferInstanceAs (Decidable (_ = _))
  | .call _ | .assign | .ret | .run _ | .step _ | .select _ | .alarm =>
    inferInstanceAs (Decidable True)

theorem dispatchNext_signals (s : State) (type : EventType) (r : Result) :
    (s.dispatchNext type r).signals = s.signals := by
  cases type <;> rfl

theorem resume_signals (s : State) (k : After) : (s.resume k).signals = s.signals := by
  cases k with
  | top =>
    rw [State.resume]
    split
    · rfl
    · rfl
  | selected r => rfl

/-- The places outside of `eloop_process_pending_signals` leave the signals alone. -/
theorem step_signals {now : Reltime} (hstep : s.step now = some t) :
    t.signals = s.signals ∨ ∃ k scan, s.pc = .pending k scan ∧ t = s.scan k scan := by
  cases loopStep_cases hstep with
  | scan k scan hpc => exact Or.inr ⟨k, scan, hpc, rfl⟩
  | tableEnd type _ r _ _ | tableChanged type _ r _ _ =>
    exact Or.inl (dispatchNext_signals s type r)
  | _ => exact Or.inl rfl

/-- A step of the scan notes at most that `alarm(0)` or a handler was called. -/
theorem scan_lost (s : State) (k : After) (scan : Scan) (sig : Nat) :
    .lost sig ∈ (s.scan k scan).signals.notes ↔ .lost sig ∈ s.signals.notes := by
  have hother : ∀ {note : Note}, note ≠ .lost sig →
      (.lost sig ∈ note :: s.signals.notes ↔ .lost sig ∈ s.signals.notes) :=
    fun hne => ⟨fun h => (List.mem_cons.mp h).resolve_left (Ne.symm hne),
      List.mem_cons_of_mem _⟩
  cases scan with
  | check =>
    rw [State.scan]
    split
    · rw [resume_signals]
    · rfl
  | clear => rfl
  | disarm =>
    rw [State.scan]
    split
    · exact hother fun heq => by cases heq
    · rfl
  | unpend => rfl
  | entry i =>
    rw [State.scan]
    split
    · rw [resume_signals]
    · split
      · rfl
      · rfl
  | take i =>
    rw [State.scan]
    split
    · rfl
    · exact hother fun heq => by cases heq

theorem handle_lost (s : Signals) (arrived sig : Nat) :
    .lost sig ∈ (s.handle arrived).notes ↔
      .lost sig ∈ s.notes ∨ arrived = sig ∧ s.stale = true := by
  rw [Signals.handle]
  dsimp only
  cases s.stale with
  | true =>
    rw [if_pos rfl, List.mem_cons, Note.lost.injEq, eq_comm, or_comm]
    exact or_congr_right (and_iff_left rfl).symm
  | false =>
    rw [if_neg Bool.false_ne_true, List.mem_cons]
    exact ⟨fun h => Or.inl (h.resolve_left fun heq => by cases heq),
      fun h => Or.inr (h.resolve_right fun heq => absurd heq.2 Bool.false_ne_true)⟩

theorem interrupt_signals (s : State) : s.interrupt.signals = s.signals := by
  rw [State.interrupt]
  split
  · rfl
  · rfl

/-- A signal is lost exactly when it arrives while `eloop.signals` is a block that was freed. -/
theorem next_lost {e : Event} (hnext : next s e = some t) :
    (∃ sig, .lost sig ∈ t.signals.notes) ↔
      (∃ sig, .lost sig ∈ s.signals.notes) ∨ ¬ Undisturbed s e := by
  have hsame : ∀ {t : State}, (∀ sig, .lost sig ∈ t.signals.notes ↔ .lost sig ∈ s.signals.notes) →
      ((∃ sig, .lost sig ∈ t.signals.notes) ↔
        (∃ sig, .lost sig ∈ s.signals.notes) ∨ ¬ True) :=
    fun h => (exists_congr h).trans ⟨Or.inl, fun h => h.resolve_right fun hnot => hnot trivial⟩
  cases e with
  | call c =>
    obtain ⟨-, rfl⟩ := call_cases hnext
    refine hsame fun sig => ?_
    cases c with
    | registerSignal memory moved other handler userData =>
      cases memory with
      | true => exact Iff.rfl
      | false => exact Iff.rfl
    | _ => exact Iff.rfl
  | assign =>
    obtain ⟨_, _, -, -, rfl⟩ := assign_cases hnext
    exact hsame fun _ => Iff.rfl
  | ret =>
    obtain ⟨_, -, rfl⟩ := ret_cases hnext
    exact hsame fun _ => Iff.rfl
  | run memory =>
    rcases run_cases hnext with ⟨-, ⟨-, rfl⟩ | ⟨-, rfl⟩⟩
    · exact hsame fun _ => Iff.rfl
    · exact hsame fun _ => Iff.rfl
  | step now =>
    refine hsame fun sig => ?_
    rcases step_signals (step_cases hnext) with hsignals | ⟨k, scan, -, rfl⟩
    · rw [hsignals]
    · exact scan_lost s k scan sig
  | select result =>
    rcases select_cases hnext with ⟨_, -, ⟨-, rfl⟩ | ⟨_, -, -, rfl⟩⟩
    · exact hsame fun _ => Iff.rfl
    · exact hsame fun _ => Iff.rfl
  | signal arrived =>
    obtain ⟨-, rfl⟩ := signal_cases hnext
    rw [interrupt_signals, Undisturbed, Bool.not_eq_false]
    dsimp only
    constructor
    · rintro ⟨sig, hsig⟩
      exact ((handle_lost _ _ _).mp hsig).imp (fun hold => ⟨sig, hold⟩) And.right
    · rintro (⟨sig, hsig⟩ | hstale)
      · exact ⟨sig, (handle_lost _ _ _).mpr (Or.inl hsig)⟩
      · exact ⟨arrived, (handle_lost _ _ _).mpr (Or.inr ⟨rfl, hstale⟩)⟩
  | alarm =>
    obtain ⟨-, rfl⟩ := alarm_cases hnext
    exact hsame fun _ => Iff.rfl

theorem run_lost {es : List Event} (h : run next s es = some t) :
    (∃ sig, .lost sig ∈ t.signals.notes) ↔
      (∃ sig, .lost sig ∈ s.signals.notes) ∨ ¬ Meets next Undisturbed s es := by
  induction es generalizing s with
  | nil =>
    obtain rfl := Option.some.inj h
    exact ⟨Or.inl, fun h => h.resolve_right fun hnot => hnot trivial⟩
  | cons e es ih =>
    obtain ⟨u, hnext, hrest⟩ := run_cons_eq_some.mp h
    rw [ih hrest, next_lost hnext, or_assoc, ← Classical.not_and_iff_not_or_not]
    refine or_congr_right (not_congr (and_congr_right fun _ => ⟨fun hmeets v hv => ?_, fun hmeets =>
      hmeets u hnext⟩))
    obtain rfl := Option.some.inj (hnext.symm.trans hv)
    exact hmeets

/-- The signal 2 arrives again while its handler runs, and is handled in the next round. -/
def signalRun : List Event :=
  [.call (.registerSignal true false 2 1 0), .assign, .call (.registerSock true 3 .read 1 0 0),
    .run true, .step ⟨0, 0⟩, .step ⟨0, 0⟩, .signal 2, .step ⟨0, 0⟩, .step ⟨0, 0⟩, .step ⟨0, 0⟩,
    .step ⟨0, 0⟩, .step ⟨0, 0⟩, .step ⟨0, 0⟩, .signal 2, .ret, .step ⟨0, 0⟩, .step ⟨0, 0⟩,
    .step ⟨0, 0⟩]

/-- The signal 2 arrives while the entries are moved.  Nothing is pending at the end, and its
handler was not called. -/
def lostRun : List Event :=
  [.call (.registerSignal true false 2 1 0), .assign, .call (.registerSock true 3 .read 1 0 0),
    .call (.registerSignal true true 15 1 0), .signal 2, .assign, .run true, .step ⟨0, 0⟩,
    .step ⟨0, 0⟩, .step ⟨0, 0⟩, .step ⟨0, 0⟩, .step ⟨0, 0⟩, .step ⟨0, 0⟩, .step ⟨0, 0⟩,
    .step ⟨0, 0⟩]

theorem signal_lost : ∃ s, run next init lostRun = some s ∧ s.pc = .prepare ∧
    s.signals.signaled = 0 ∧ s.signals.notes = [.disarmed, .lost 2] :=
  ⟨_, rfl, rfl, rfl, rfl⟩

end

end Eloop
end LinuxPrograming

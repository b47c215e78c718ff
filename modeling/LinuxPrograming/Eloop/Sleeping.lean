import LinuxPrograming.Eloop.Signals

/-!
# Sleeping

The loop sleeps in `select` only in front of the first timeout, and not once it was told to
terminate.
-/

namespace LinuxPrograming
namespace Eloop

open Lib

variable {s t : State}

/-! ## In front of `select` -/

/-- What is true in front of `select`, and in it. -/
def Sleeps (s : State) : Prop :=
  match s.pc with
  | .prepare => s.terminate = false
  | .blocked tv => s.terminate = false ∧ (tv = none ↔ s.timers.timeout = [])
  | _ => True

theorem resume_sleeps (s : State) (k : After) : Sleeps (s.resume k) := by
  cases k with
  | top =>
    rw [State.resume]
    split
    · trivial
    · next hterminate => exact Bool.eq_false_iff.mpr hterminate
  | selected r => trivial

theorem scan_sleeps {k : After} {scan : Scan} (hpc : s.pc = .pending k scan) :
    Sleeps (s.scan k scan) := by
  rcases scan_cases hpc with hend | ⟨pc, signals, hstay, ⟨other, rfl⟩ | ⟨i, rfl⟩⟩
  · rw [hend]
    exact resume_sleeps s k
  · rw [hstay]
    trivial
  · rw [hstay]
    trivial

theorem dispatchNext_sleeps (s : State) (type : EventType) (r : Result) :
    Sleeps (s.dispatchNext type r) := by
  cases type <;> trivial

theorem step_sleeps (h : Sleeps s) {now : Reltime} (hstep : s.step now = some t) : Sleeps t := by
  cases loopStep_cases hstep with
  | enter _ hbusy =>
    rw [State.busy, Bool.and_eq_true, Bool.not_eq_true'] at hbusy
    cases hpending : s.signals.pendingTerminate with
    | true => trivial
    | false => exact hbusy.1
  | scan k scan hpc => exact scan_sleeps hpc
  | sleep hpc hnil =>
    rw [Sleeps, hpc] at h
    exact ⟨h, fun _ => hnil, fun _ => rfl⟩
  | sleepUntil timeout list hpc hlist =>
    rw [Sleeps, hpc] at h
    refine ⟨h, fun hnone => (by cases hnone), fun hnil => ?_⟩
    change s.timers.timeout = [] at hnil
    rw [hlist] at hnil
    cases hnil
  | tableEnd type _ r _ _ | tableChanged type _ r _ _ => exact dispatchNext_sleeps s type r
  | _ => trivial

theorem call_pc (s : State) (c : Call) : (s.call c).pc = s.pc := by
  cases c <;> rfl

theorem next_sleeps (hcoherent : Coherent s) (h : Sleeps s) {e : Event}
    (hnext : next s e = some t) : Sleeps t := by
  cases e with
  | call c =>
    obtain ⟨hpc, rfl⟩ := call_cases hnext
    rw [Sleeps, call_pc]
    rcases hpc with hpc | ⟨k, hpc⟩
    · rw [hpc]
      trivial
    · rw [hpc]
      trivial
  | assign =>
    obtain ⟨_, _, -, -, rfl⟩ := assign_cases hnext
    exact h
  | ret =>
    obtain ⟨k, hpc, rfl⟩ := ret_cases hnext
    have hreturns := hcoherent.returns k hpc
    cases k with
    | prepare => exact absurd hreturns id
    | blocked tv => exact absurd hreturns id
    | _ => trivial
  | run memory =>
    rcases run_cases hnext with ⟨-, ⟨-, rfl⟩ | ⟨-, rfl⟩⟩
    · exact h
    · trivial
  | step now => exact step_sleeps h (step_cases hnext)
  | select result =>
    rcases select_cases hnext with ⟨_, -, ⟨-, rfl⟩ | ⟨r, -, -, rfl⟩⟩
    · trivial
    · trivial
  | signal sig =>
    obtain ⟨-, rfl⟩ := signal_cases hnext
    rw [State.interrupt]
    split
    · trivial
    · exact h
  | alarm =>
    obtain ⟨-, rfl⟩ := alarm_cases hnext
    trivial

theorem run_sleeps {es : List Event} (h : run next init es = some s) : Sleeps s := by
  have hsleeps : Coherent s ∧ Sleeps s := by
    refine run_preserves (I := fun s => Coherent s ∧ Sleeps s) ?_
      ⟨@run_coherent init [] rfl, trivial⟩ h
    intro s e t hs hnext
    exact ⟨next_coherent hs.1 hnext, next_sleeps hs.1 hs.2 hnext⟩
  exact hsleeps.2

/-! ## Behind `eloop_terminate` -/

/-- `eloop_run` returns in the run, and is called again. -/
def CalledAgain (s : State) (es : List Event) : Prop :=
  ∃ before between after u v, es = before ++ (between ++ .run true :: after) ∧
    run next s before = some u ∧ u.pc ≠ .outside ∧ run next u between = some v ∧ v.pc = .outside

theorem resume_terminate (s : State) (k : After) : (s.resume k).terminate = s.terminate ∨
    (s.resume k).pc = .outside := by
  cases k with
  | top =>
    rw [State.resume]
    split
    · exact Or.inr rfl
    · exact Or.inl rfl
  | selected r => exact Or.inl rfl

theorem dispatchNext_terminate (s : State) (type : EventType) (r : Result) :
    (s.dispatchNext type r).terminate = s.terminate := by
  cases type <;> rfl

/-- Only at its end `eloop_run` clears the flag. -/
theorem step_terminate {now : Reltime} (hstep : s.step now = some t) :
    s.pc ≠ .outside ∧ (t.terminate = s.terminate ∨ t.pc = .outside) := by
  cases loopStep_cases hstep with
  | enter hpc _ | sleep hpc _ | sleepUntil _ _ hpc _ | wait _ hpc _ | fire _ _ _ hpc _ _
  | skip _ hpc _ | dispatch _ hpc _ | call _ _ _ _ hpc _ _ | pass _ _ _ _ hpc _ _
  | back _ _ _ hpc _ => exact ⟨hpc.trans_ne fun heq => (by cases heq), Or.inl rfl⟩
  | leave hpc _ => exact ⟨hpc.trans_ne fun heq => (by cases heq), Or.inr rfl⟩
  | scan k scan hpc =>
    refine ⟨hpc.trans_ne fun heq => (by cases heq), ?_⟩
    rcases scan_cases hpc with hend | ⟨pc, signals, hstay, -⟩
    · rw [hend]
      exact resume_terminate s k
    · rw [hstay]
      exact Or.inl rfl
  | tableEnd type _ r hpc _ | tableChanged type _ r hpc _ =>
    exact ⟨hpc.trans_ne fun heq => (by cases heq), Or.inl (dispatchNext_terminate s type r)⟩

theorem next_terminate {e : Event} (hnext : next s e = some t) (h : s.terminate = true) :
    t.terminate = true ∨ s.pc ≠ .outside ∧ t.pc = .outside := by
  cases e with
  | call c =>
    obtain ⟨-, rfl⟩ := call_cases hnext
    cases c with
    | terminate => exact Or.inl rfl
    | _ => exact Or.inl h
  | assign =>
    obtain ⟨_, _, -, -, rfl⟩ := assign_cases hnext
    exact Or.inl h
  | ret =>
    obtain ⟨_, -, rfl⟩ := ret_cases hnext
    exact Or.inl h
  | run memory =>
    rcases run_cases hnext with ⟨-, ⟨-, rfl⟩ | ⟨-, rfl⟩⟩
    · exact Or.inl h
    · exact Or.inl h
  | step now =>
    obtain ⟨hpc, hkept⟩ := step_terminate (step_cases hnext)
    exact hkept.imp (fun heq => heq.trans h) fun hout => ⟨hpc, hout⟩
  | select result =>
    rcases select_cases hnext with ⟨_, -, ⟨-, rfl⟩ | ⟨_, -, -, rfl⟩⟩
    · exact Or.inl h
    · exact Or.inl h
  | signal sig =>
    obtain ⟨-, rfl⟩ := signal_cases hnext
    rw [State.interrupt]
    split
    · exact Or.inl h
    · exact Or.inl h
  | alarm =>
    obtain ⟨-, rfl⟩ := alarm_cases hnext
    exact Or.inl h

/-- Outside of `eloop_run` only a call leads into it, or the alarm ends the process. -/
theorem next_outside {e : Event} (hnext : next s e = some t) (hpc : s.pc = .outside) :
    t.pc = .outside ∨ t.pc = .exited ∨ e = .run true := by
  cases e with
  | call c =>
    obtain ⟨-, rfl⟩ := call_cases hnext
    exact Or.inl ((call_pc s c).trans hpc)
  | assign =>
    obtain ⟨_, _, -, -, rfl⟩ := assign_cases hnext
    exact Or.inl hpc
  | ret =>
    obtain ⟨k, hhandler, -⟩ := ret_cases hnext
    rw [hpc] at hhandler
    cases hhandler
  | run memory =>
    rcases run_cases hnext with ⟨-, ⟨-, rfl⟩ | ⟨rfl, -⟩⟩
    · exact Or.inl hpc
    · exact Or.inr (Or.inr rfl)
  | step now => exact absurd hpc (step_terminate (step_cases hnext)).1
  | select result =>
    obtain ⟨tv, hblocked, -⟩ := select_cases hnext
    rw [hpc] at hblocked
    cases hblocked
  | signal sig =>
    obtain ⟨-, rfl⟩ := signal_cases hnext
    rw [State.interrupt]
    split
    · next _ hblocked =>
      change s.pc = _ at hblocked
      rw [hpc] at hblocked
      cases hblocked
    · exact Or.inl hpc
  | alarm =>
    obtain ⟨-, rfl⟩ := alarm_cases hnext
    exact Or.inr (Or.inl rfl)

theorem next_exited {e : Event} (hnext : next s e = some t) (hpc : s.pc = .exited) :
    t.pc = .exited := by
  cases e with
  | call c =>
    obtain ⟨hcall | ⟨_, hcall⟩, -⟩ := call_cases hnext
    · rw [hpc] at hcall
      cases hcall
    · rw [hpc] at hcall
      cases hcall
  | assign =>
    obtain ⟨_, _, -, hne, -⟩ := assign_cases hnext
    exact absurd hpc hne
  | ret =>
    obtain ⟨k, hhandler, -⟩ := ret_cases hnext
    rw [hpc] at hhandler
    cases hhandler
  | run memory =>
    have hout := (run_cases hnext).1
    rw [hpc] at hout
    cases hout
  | step now =>
    have hstep := step_cases hnext
    rw [State.step, hpc] at hstep
    cases hstep
  | select result =>
    obtain ⟨tv, hblocked, -⟩ := select_cases hnext
    rw [hpc] at hblocked
    cases hblocked
  | signal sig =>
    rw [next, hpc] at hnext
    cases hnext
  | alarm =>
    obtain ⟨-, rfl⟩ := alarm_cases hnext
    rfl

/-- From outside of `eloop_run` a run stays there, ends the process, or calls it. -/
theorem run_outside {es : List Event} (h : run next s es = some t) (hpc : s.pc = .outside) :
    t.pc = .outside ∨ t.pc = .exited ∨ ∃ before after u, es = before ++ .run true :: after ∧
      run next s before = some u ∧ u.pc = .outside := by
  induction es generalizing s with
  | nil =>
    obtain rfl := Option.some.inj h
    exact Or.inl hpc
  | cons e es ih =>
    obtain ⟨u, hnext, hrest⟩ := run_cons_eq_some.mp h
    rcases next_outside hnext hpc with hout | hexit | rfl
    · refine (ih hrest hout).imp_right fun h => h.imp_right ?_
      rintro ⟨before, after, v, rfl, hbefore, hv⟩
      exact ⟨e :: before, after, v, rfl, run_cons_eq_some.mpr ⟨u, hnext, hbefore⟩, hv⟩
    · exact Or.inr (Or.inl (run_preserves (I := fun s => s.pc = .exited)
        (fun _ _ _ hs hnext => next_exited hnext hs) hexit hrest))
    · exact Or.inr (Or.inr ⟨[], es, s, rfl, rfl, hpc⟩)

/-- Once the flag is set, it stays set until `eloop_run` has returned. -/
theorem run_terminate {es : List Event} (h : run next s es = some t) (hflag : s.terminate = true) :
    t.terminate = true ∨ t.pc = .outside ∨ t.pc = .exited ∨ CalledAgain s es := by
  induction es generalizing s with
  | nil =>
    obtain rfl := Option.some.inj h
    exact Or.inl hflag
  | cons e es ih =>
    obtain ⟨u, hnext, hrest⟩ := run_cons_eq_some.mp h
    rcases next_terminate hnext hflag with hset | ⟨hin, hout⟩
    · refine (ih hrest hset).imp_right fun h => h.imp_right fun h => h.imp_right ?_
      rintro ⟨before, between, after, v, w, rfl, hbefore, hv⟩
      exact ⟨e :: before, between, after, v, w, rfl,
        run_cons_eq_some.mpr ⟨u, hnext, hbefore⟩, hv⟩
    · refine Or.inr ((run_outside hrest hout).imp_right fun h => h.imp_right ?_)
      rintro ⟨before, after, v, rfl, hbefore, hv⟩
      exact ⟨[], e :: before, after, s, v, rfl, rfl, hin,
        run_cons_eq_some.mpr ⟨u, hnext, hbefore⟩, hv⟩

/-- After a call of `eloop_terminate` the loop does not go to sleep before `eloop_run` has returned
and was called again.  It sleeps without limit only while there is no timeout. -/
theorem sleeps {es : List Event} (h : run next init es = some s) {tv : Option Reltime}
    (hpc : s.pc = .blocked tv) :
    (∀ before after u, es = before ++ .call .terminate :: after →
      run next init (before ++ [.call .terminate]) = some u → CalledAgain u after) ∧
    (tv = none ↔ s.timers.timeout = []) := by
  have hsleeps := run_sleeps h
  rw [Sleeps, hpc] at hsleeps
  refine ⟨fun before after u heq hu => ?_, hsleeps.2⟩
  have hflag : u.terminate = true := by
    obtain ⟨v, -, hcall⟩ := run_append_eq_some.mp hu
    rw [run_singleton] at hcall
    obtain ⟨-, rfl⟩ := call_cases hcall
    rfl
  rw [heq, List.append_cons, run_append hu] at h
  rcases run_terminate h hflag with hset | hout | hexit | hagain
  · rw [hsleeps.1] at hset
    cases hset
  · rw [hpc] at hout
    cases hout
  · rw [hpc] at hexit
    cases hexit
  · exact hagain

/-- A handler is about to call `eloop_terminate`. -/
def toTerminate : List Event :=
  [.call (.registerSock true 3 .read 1 0 0), .run true, .step ⟨0, 0⟩, .step ⟨0, 0⟩,
    .select (some ⟨1, fun type => if type = .read then [3] else []⟩), .step ⟨0, 0⟩, .step ⟨0, 0⟩,
    .step ⟨0, 0⟩, .step ⟨0, 0⟩]

/-- The loop ends, and is started again. -/
def toSleep : List Event :=
  [.ret, .step ⟨0, 0⟩, .step ⟨0, 0⟩, .step ⟨0, 0⟩, .step ⟨0, 0⟩, .step ⟨0, 0⟩, .run true,
    .step ⟨0, 0⟩, .step ⟨0, 0⟩]

theorem sleeps_again : ∃ s u, run next init (toTerminate ++ .call .terminate :: toSleep) = some s ∧
    run next init (toTerminate ++ [.call .terminate]) = some u ∧ s.pc = .blocked none ∧
    CalledAgain u toSleep ∧ ((none : Option Reltime) = none ↔ s.timers.timeout = []) := by
  have hrun : run next init (toTerminate ++ .call .terminate :: toSleep) = some _ := rfl
  have hcall : run next init (toTerminate ++ [.call .terminate]) = some _ := rfl
  obtain ⟨hagain, htimeout⟩ := sleeps hrun rfl
  exact ⟨_, _, hrun, hcall, rfl, hagain _ _ _ rfl hcall, htimeout⟩

end Eloop
end LinuxPrograming

import LinuxPrograming.Eloop.Model
import Mathlib.Data.List.Perm.Basic
import Mathlib.Data.List.Perm.Subperm

/-!
# Timeouts

The list of timeouts is kept in order of time, and of registration where the times are equal.
Every timeout that was registered is in the list, was called, or was cancelled.
-/

namespace LinuxPrograming
namespace Eloop

open Lib

/-! ## Order -/

theorem Reltime.before_iff {a b : Reltime} :
    a.before b = true ↔ a.sec < b.sec ∨ a.sec = b.sec ∧ a.usec < b.usec := by
  rw [before, Bool.or_eq_true, Bool.and_eq_true, decide_eq_true_eq, beq_iff_eq, decide_eq_true_eq]

theorem Reltime.not_before_iff {a b : Reltime} :
    a.before b = false ↔ a = b ∨ b.before a = true := by
  rw [← Bool.not_eq_true, before_iff, before_iff]
  constructor
  · intro h
    by_cases hsec : a.sec = b.sec
    · by_cases husec : a.usec = b.usec
      · left
        cases a
        cases b
        cases hsec
        cases husec
        rfl
      · right
        omega
    · right
      omega
  · rintro (rfl | h)
    · omega
    · omega

theorem Reltime.before_trans {a b c : Reltime} (hab : a.before b = true)
    (hbc : b.before c = true) : a.before c = true := by
  rw [before_iff] at hab hbc ⊢
  omega

/-- `a` is called before `b`. -/
def Earlier (a b : Timeout) : Prop :=
  a.time.before b.time = true ∨ a.time = b.time ∧ a.id < b.id

/-- What is true of the timeouts at all times. -/
structure Timers.Good (s : Timers) : Prop where
  /-- The list is in order. -/
  sorted : s.timeout.Pairwise Earlier
  /-- Every registered timeout is in one place. -/
  once : ((s.timeout ++ (s.fired.map Firing.timeout ++ s.cancelled)).map Timeout.id).Perm
    (List.range s.registered)
  /-- No handler was called too early, and none before that of an earlier timeout. -/
  due : ∀ f ∈ s.fired, f.now.before f.timeout.time = false ∧ ∀ u ∈ f.waiting, Earlier f.timeout u

/-! ## The functions -/

theorem perm_insertTimeout (t : Timeout) (list : List Timeout) :
    (insertTimeout t list).Perm (t :: list) := by
  induction list with
  | nil => exact List.Perm.refl _
  | cons tmp list ih =>
    rw [insertTimeout]
    split
    · exact List.Perm.refl _
    · exact (ih.cons tmp).trans (List.Perm.swap t tmp list)

/-- A new timeout goes behind all that are not later. -/
theorem sorted_insertTimeout {t : Timeout} {list : List Timeout}
    (h : list.Pairwise Earlier) (hid : ∀ u ∈ list, u.id < t.id) :
    (insertTimeout t list).Pairwise Earlier := by
  induction list with
  | nil => exact List.pairwise_singleton _ _
  | cons tmp list ih =>
    obtain ⟨hhead, htail⟩ := List.pairwise_cons.mp h
    rw [insertTimeout]
    by_cases hbefore : t.time.before tmp.time = true
    · rw [if_pos hbefore]
      refine List.pairwise_cons.mpr ⟨fun u hu => ?_, h⟩
      rcases List.mem_cons.mp hu with rfl | hu
      · exact Or.inl hbefore
      · rcases hhead u hu with hlt | ⟨heq, -⟩
        · exact Or.inl (Reltime.before_trans hbefore hlt)
        · exact Or.inl (heq ▸ hbefore)
    · rw [if_neg hbefore]
      refine List.pairwise_cons.mpr ⟨fun u hu => ?_,
        ih htail fun u hu => hid u (List.mem_cons_of_mem _ hu)⟩
      rcases List.mem_cons.mp ((perm_insertTimeout t list).mem_iff.mp hu) with rfl | hu
      · rcases Reltime.not_before_iff.mp (Bool.not_eq_true _ ▸ hbefore) with heq | hlt
        · exact Or.inr ⟨heq.symm, hid tmp List.mem_cons_self⟩
        · exact Or.inl hlt
      · exact hhead u hu

namespace Timers

variable {s : Timers}

theorem Good.id_lt (h : s.Good) {t : Timeout} (ht : t ∈ s.timeout) : t.id < s.registered :=
  List.mem_range.mp (h.once.mem_iff.mp
    (List.mem_map_of_mem (List.mem_append_left _ ht)))

theorem register_good (h : s.Good) (memory : Bool) (now : Option Reltime)
    (secs usecs handler eloopData userData : Nat) :
    (s.register memory now secs usecs handler eloopData userData).1.Good := by
  cases memory with
  | false => exact h
  | true =>
    cases now with
    | none => exact h
    | some now =>
      show (if timeMax < now.sec + secs then _ else _ : Timers × Int).1.Good
      split
      · exact h
      · refine ⟨sorted_insertTimeout h.sorted fun u hu => h.id_lt hu, ?_, h.due⟩
        have hlist := (perm_insertTimeout ⟨⟨now.sec + secs + (now.usec + usecs) / 1000000,
          (now.usec + usecs) % 1000000⟩, eloopData, userData, handler, s.registered⟩
          s.timeout).append_right (s.fired.map Firing.timeout ++ s.cancelled)
        refine (hlist.map Timeout.id).trans ?_
        rw [List.range_succ]
        exact (h.once.cons s.registered).trans (List.perm_append_singleton _ _).symm

/-- What is new in the list is due `secs` seconds and `usecs` microseconds after `now`. -/
theorem register_time {memory : Bool} {now : Reltime} {secs usecs handler eloopData userData : Nat}
    {timeout : Timeout} (hnew : timeout ∉ s.timeout)
    (h : timeout ∈ (s.register memory (some now) secs usecs handler eloopData userData).1.timeout) :
    timeout.time.sec * 1000000 + timeout.time.usec =
        (now.sec + secs) * 1000000 + (now.usec + usecs) ∧
      0 ≤ timeout.time.usec ∧ timeout.time.usec < 1000000 := by
  cases memory with
  | false => exact absurd h hnew
  | true =>
    change timeout ∈ (if timeMax < now.sec + secs then _ else _ : Timers × Int).1.timeout at h
    split at h
    · exact absurd h hnew
    · rcases List.mem_cons.mp ((perm_insertTimeout _ _).mem_iff.mp h) with rfl | hold
      · dsimp only
        omega
      · exact absurd hold hnew

/-- Timeouts are moved from the list to the cancelled ones. -/
theorem Good.remove (h : s.Good) {kept removed : List Timeout}
    (hkept : kept.Sublist s.timeout) (hperm : (kept ++ removed).Perm s.timeout) :
    ({ s with timeout := kept, cancelled := removed ++ s.cancelled } : Timers).Good := by
  refine ⟨h.sorted.sublist hkept, ?_, h.due⟩
  have hmove : (kept ++ (s.fired.map Firing.timeout ++ (removed ++ s.cancelled))).Perm
      (s.timeout ++ (s.fired.map Firing.timeout ++ s.cancelled)) := by
    refine List.Perm.trans ?_ (hperm.append_right _)
    rw [List.append_assoc]
    refine List.Perm.append_left kept ?_
    rw [← List.append_assoc, ← List.append_assoc]
    exact List.perm_append_comm.append_right s.cancelled
  exact (hmove.map Timeout.id).trans h.once

theorem cancel_good (h : s.Good) (handler eloopData userData : Nat) :
    (s.cancel handler eloopData userData).1.Good := by
  refine h.remove List.filter_sublist ?_
  refine List.perm_append_comm.trans ?_
  exact List.filter_append_perm _ _

theorem cancelOne_good (h : s.Good) (now : Reltime) (handler eloopData userData : Nat) :
    (s.cancelOne now handler eloopData userData).1.Good := by
  rw [cancelOne]
  cases hfind : s.timeout.find? (same handler eloopData userData) with
  | none => exact h
  | some timeout =>
    have hkept : (s.timeout.eraseP (same handler eloopData userData)).Sublist s.timeout :=
      List.eraseP_sublist
    refine @Good.remove s h _ [timeout] hkept ?_
    refine List.perm_append_comm.trans ?_
    obtain ⟨hsame, pre, post, hlist, hpre⟩ := List.find?_eq_some_iff_append.mp hfind
    have herase : s.timeout.eraseP (same handler eloopData userData) = pre ++ post := by
      rw [hlist, List.eraseP_append_right _ (fun t ht => by simpa using hpre t ht),
        List.eraseP_cons_of_pos hsame]
    rw [herase, hlist]
    show (timeout :: (pre ++ post)).Perm (pre ++ timeout :: post)
    exact List.perm_middle.symm

theorem adjust_good (h : s.Good) (late : Reltime → Reltime → Bool) (memory : Bool) (now : Reltime)
    (again : Option Reltime) (reqSecs reqUsecs handler eloopData userData : Nat) :
    (s.adjust late memory now again reqSecs reqUsecs handler eloopData userData).1.Good := by
  rw [adjust]
  split
  · exact h
  · split
    · exact register_good (cancel_good h ..) ..
    · exact h

/-- The first timeout of the list is called. -/
theorem fire_good (h : s.Good) {timeout : Timeout} {list : List Timeout}
    (hlist : s.timeout = timeout :: list) {now : Reltime}
    (hnow : now.before timeout.time = false) :
    ({ s with timeout := list, fired := ⟨timeout, now, list⟩ :: s.fired } : Timers).Good := by
  have hsorted := h.sorted
  rw [hlist] at hsorted
  obtain ⟨hhead, htail⟩ := List.pairwise_cons.mp hsorted
  refine ⟨htail, ?_, ?_⟩
  · refine List.Perm.trans ?_ h.once
    rw [hlist]
    exact (List.perm_middle (a := timeout)).map Timeout.id
  · intro f hf
    rcases List.mem_cons.mp hf with rfl | hf
    · exact ⟨hnow, hhead⟩
    · exact h.due f hf

end Timers

/-! ## Runs -/

theorem call_good {s : State} (h : s.timers.Good) (c : Call) : (s.call c).timers.Good := by
  cases c with
  | registerTimeout => exact Timers.register_good h ..
  | cancelTimeout => exact Timers.cancel_good h ..
  | cancelTimeoutOne => exact Timers.cancelOne_good h ..
  | depleteTimeout => exact Timers.adjust_good h ..
  | replenishTimeout => exact Timers.adjust_good h ..
  | registerSock => exact h
  | unregisterSock => exact h
  | registerSignal => exact h
  | terminate => exact h

theorem resume_timers (s : State) (k : After) : (s.resume k).timers = s.timers := by
  cases k with
  | top =>
    rw [State.resume]
    split <;> rfl
  | selected r => rfl

theorem dispatchNext_timers (s : State) (type : EventType) (r : Result) :
    (s.dispatchNext type r).timers = s.timers := by
  cases type <;> rfl

/-- Outside of calls the loop only takes the first timeout, when it is due. -/
theorem step_timers {s t : State} {now : Reltime} (h : s.step now = some t) :
    t.timers = s.timers ∨ ∃ timeout list, s.timers.timeout = timeout :: list ∧
      now.before timeout.time = false ∧ t.timers = { s.timers with
        timeout := list, fired := ⟨timeout, now, list⟩ :: s.timers.fired } := by
  cases loopStep_cases h with
  | scan k scan hpc =>
    left
    rcases scan_cases hpc with hend | ⟨pc, signals, hstay, -⟩
    · rw [hend, resume_timers]
    · rw [hstay]
  | fire r timeout list _ hlist hdue => exact Or.inr ⟨timeout, list, hlist, hdue, rfl⟩
  | tableEnd type _ r _ _ | tableChanged type _ r _ _ => exact Or.inl (dispatchNext_timers s type r)
  | _ => exact Or.inl rfl

theorem interrupt_timers (s : State) : s.interrupt.timers = s.timers := by
  rw [State.interrupt]
  split <;> rfl

theorem next_good {s t : State} (h : s.timers.Good) {e : Event} (hnext : next s e = some t) :
    t.timers.Good := by
  cases e with
  | call c =>
    obtain ⟨-, rfl⟩ := call_cases hnext
    exact call_good h c
  | assign =>
    obtain ⟨_, _, -, -, rfl⟩ := assign_cases hnext
    exact h
  | ret =>
    obtain ⟨_, -, rfl⟩ := ret_cases hnext
    exact h
  | run memory =>
    rcases run_cases hnext with ⟨-, ⟨-, rfl⟩ | ⟨-, rfl⟩⟩
    · exact h
    · exact h
  | step now =>
    rcases step_timers (step_cases hnext) with heq | ⟨timeout, list, hlist, hnow, heq⟩
    · rw [heq]
      exact h
    · rw [heq]
      exact Timers.fire_good h hlist hnow
  | select result =>
    rcases select_cases hnext with ⟨_, -, ⟨-, rfl⟩ | ⟨r, -, -, rfl⟩⟩
    · exact h
    · exact h
  | signal sig =>
    obtain ⟨-, rfl⟩ := signal_cases hnext
    rw [interrupt_timers]
    exact h
  | alarm =>
    obtain ⟨-, rfl⟩ := alarm_cases hnext
    exact h

/-- Whatever the handlers do: every timeout that was registered is in the list, was called or was
cancelled, and only one of these.  None is called before its time, nor while an earlier one, or one
for the same time that was registered before, is in the list. -/
theorem timeouts_good {es : List Event} {s : State} (h : run next init es = some s) :
    s.timers.Good := by
  refine run_preserves (fun s e t hs hnext => next_good hs hnext) ?_ h
  refine ⟨List.Pairwise.nil, List.Perm.refl _, fun f hf => ?_⟩
  cases hf

/-- Of three timeouts the second is called, and its handler cancels the first. -/
def timeoutRun : List Event :=
  [.call (.registerTimeout true (some ⟨10, 0⟩) 2 0 1 0 0),
    .call (.registerTimeout true (some ⟨10, 0⟩) 0 1500000 2 0 0),
    .call (.registerTimeout true (some ⟨10, 500000⟩) 1 500000 3 0 0), .run true, .step ⟨10, 600000⟩,
    .step ⟨10, 600000⟩, .select (some ⟨0, fun _ => []⟩), .step ⟨11, 500000⟩, .step ⟨11, 500000⟩,
    .call (.cancelTimeout 1 allCtx 0), .ret]

theorem timeouts_good_three : ∃ s, run next init timeoutRun = some s ∧ s.timers.Good ∧
    s.timers.timeout.map Timeout.id = [2] ∧
    s.timers.fired.map (fun f => (f.timeout.id, f.waiting.map Timeout.id)) = [(1, [0, 2])] ∧
    s.timers.cancelled.map Timeout.id = [0] := by
  have hrun : run next init timeoutRun = some _ := rfl
  exact ⟨_, hrun, timeouts_good hrun, rfl, rfl, rfl⟩

end Eloop
end LinuxPrograming

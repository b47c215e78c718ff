import LinuxPrograming.Gateway.DebugLog
import Mathlib.Data.List.Perm.Basic

/-!
# The lines of `debug.log`

Every write adds at most its own line to the length of the file, and a call that opens the
file in mode `w`, or writes in it, adds less when the file is not empty.  So the lines of a
complete run are all in the file exactly when that never happens.
-/

namespace LinuxPrograming
namespace Gateway
namespace DebugLog

open Lib

variable {P T : Type}

/-- The bytes of `debug.log`, none where it is missing. -/
def State.content (s : State P T) : Bytes := s.file.getD []

/-- The complete line of a call. -/
def Setup.lineOf (su : Setup P T) (c : T × LogCall) : Bytes :=
  logLine su.dbgFlag (su.getpid (su.proc c.1)) c.2

/-- The lines of some calls, one after the other. -/
def Setup.lines (su : Setup P T) (cs : List (T × LogCall)) : Bytes := (cs.map su.lineOf).flatten

/-- No call opens `debug.log` in mode `w`, or writes in that mode, unless the file is
empty. -/
def AppendSafe (s : State P T) : Event T → Prop
  | .step t => (∀ c, s.pc t = .fopen c .w → s.content = []) ∧
    ∀ c, s.pc t = .write c .w → s.content = []
  | _ => True

/-- The places behind `logging_init`, up to the write. -/
def Pc.Started : Pc → Prop
  | .isFile _ | .fopen _ _ | .lock _ _ | .write _ _ => True
  | _ => False

/-- The call that a thread has not written yet. -/
def Pc.inFlight : Pc → List LogCall
  | .test c | .init c | .isFile c | .fopen c _ | .lock c _ | .write c _ => [c]
  | _ => []

/-- `flags.initialized` is never set, so that every call gets its `pid` from
`logging_init`. -/
structure PidOk (su : Setup P T) (s : State P T) : Prop where
  initialized : ∀ p, s.initialized p = false
  pid : ∀ u, (s.pc u).Started → s.pid (su.proc u) = su.getpid (su.proc u)

theorem logLine_ne_nil (dbgFlag : Nat) (pid : Int) (c : LogCall) : logLine dbgFlag pid c ≠ [] :=
  List.append_ne_nil_of_right_ne_nil _ (by decide)

theorem lines_append (su : Setup P T) (cs ds : List (T × LogCall)) :
    su.lines (cs ++ ds) = su.lines cs ++ su.lines ds := by
  rw [Setup.lines, List.map_append, List.flatten_append]
  rfl

theorem lines_singleton (su : Setup P T) (c : T × LogCall) : su.lines [c] = su.lineOf c :=
  List.append_nil _

theorem lines_perm (su : Setup P T) {cs ds : List (T × LogCall)} (h : cs.Perm ds) :
    (su.lines cs).length = (su.lines ds).length :=
  (h.map su.lineOf).flatten.length_eq

theorem start_pidOk (su : Setup P T) (file : Option Bytes) : PidOk su (start file) :=
  ⟨fun _ => rfl, fun _ h => h.elim⟩

variable {su : Setup P T} {s t : State P T}

/-! ## What a step does to the file -/

theorem appendSafe_of_content {e : Event T} (h : s.content = []) : AppendSafe s e := by
  cases e with
  | step u => exact ⟨fun _ _ => h, fun _ _ => h⟩
  | call u c => trivial
  | fopenFails u => trivial

/-- The new lines a step adds.  It adds them in full when it is safe, and loses bytes when it
is not. -/
structure Adds (su : Setup P T) (s : State P T) (safe : Prop) (t : State P T)
    (new : List (T × LogCall)) : Prop where
  written : t.written = s.written ++ new
  full : safe → t.content = s.content ++ su.lines new
  loses : ¬ safe → t.content.length < s.content.length + (su.lines new).length

theorem adds_nothing {safe : Prop} (hsafe : safe) (hwritten : t.written = s.written)
    (hcontent : t.content = s.content) : Adds su s safe t [] :=
  ⟨by rw [hwritten, List.append_nil], fun _ => hcontent.trans (List.append_nil _).symm,
    fun h => absurd hsafe h⟩

/-- A step at a place that does nothing in mode `w`. -/
theorem appendSafe_of_pc {u : T} {pc : Pc} (hpc : s.pc u = pc)
    (hopen : ∀ c, pc ≠ .fopen c .w) (hwrite : ∀ c, pc ≠ .write c .w) :
    AppendSafe s (.step u) :=
  ⟨fun c h => absurd (hpc.symm.trans h) (hopen c), fun c h => absurd (hpc.symm.trans h) (hwrite c)⟩

theorem Adds.trans {u : State P T} {safe safe' : Prop} {new new' : List (T × LogCall)}
    (h : Adds su s safe t new) (h' : Adds su t safe' u new') :
    Adds su s (safe ∧ safe') u (new ++ new') := by
  refine ⟨?_, fun hsafe => ?_, fun hunsafe => ?_⟩
  · rw [h'.written, h.written, List.append_assoc]
  · rw [h'.full hsafe.2, h.full hsafe.1, lines_append, List.append_assoc]
  · have hle : safe' → u.content.length = t.content.length + (su.lines new').length :=
      fun hs => by rw [h'.full hs, List.length_append]
    have hle' : safe → t.content.length = s.content.length + (su.lines new).length :=
      fun hs => by rw [h.full hs, List.length_append]
    have hlt := h.loses
    have hlt' := h'.loses
    rw [lines_append, List.length_append]
    by_cases hs : safe <;> by_cases hs' : safe'
    · exact absurd ⟨hs, hs'⟩ hunsafe
    · have := hlt' hs'
      have := hle' hs
      omega
    · have := hlt hs
      have := hle hs'
      omega
    · have := hlt hs
      have := hlt' hs'
      omega

variable [DecidableEq P] [DecidableEq T]

/-! ## Steps and runs -/

omit [DecidableEq P] in
/-- A step that leaves `flags` and `pid` alone. -/
theorem PidOk.move (h : PidOk su s) {u : T} {pc k : Pc} (hpc : s.pc u = k)
    (ht : t.pc = (s.setPc u pc).pc) (hinit : t.initialized = s.initialized)
    (hpid : t.pid = s.pid) (hstarted : pc.Started → k.Started) : PidOk su t := by
  refine ⟨fun p => hinit ▸ h.initialized p, fun v hv => ?_⟩
  rw [hpid]
  refine h.pid v ?_
  rw [ht] at hv
  by_cases hvu : v = u
  · rw [hvu, setPc_pc_self] at hv
    rw [hvu, hpc]
    exact hstarted hv
  · rw [setPc_pc_of_ne _ hvu] at hv
    exact hv

/-- `logging_init` stores the number of the process. -/
theorem PidOk.init (h : PidOk su s) {u : T} (pc : Pc) :
    PidOk su ((loggingInit su s (su.proc u)).setPc u pc) := by
  refine ⟨h.initialized, fun v hv => ?_⟩
  show (if su.proc v = su.proc u then su.getpid (su.proc u) else s.pid (su.proc v)) = _
  split
  · next hproc => rw [hproc]
  · next hproc =>
    have hvu : v ≠ u := fun heq => hproc (congrArg su.proc heq)
    rw [setPc_pc_of_ne _ hvu] at hv
    exact h.pid v hv

theorem logStep_pidOk (h : PidOk su s) {u : T} (hstep : LogStep su s u t) : PidOk su t := by
  cases hstep with
  | test c hpc =>
    rw [h.initialized]
    exact h.move hpc rfl rfl rfl id
  | init c hpc => exact h.init (.isFile c)
  | isFile _ hpc | fopenA _ hpc | fopenW _ hpc | lock _ _ hpc _ =>
    exact h.move hpc rfl rfl rfl id
  | writeA _ hpc | writeW _ hpc | unlock hpc | fclose hpc =>
    exact h.move hpc rfl rfl rfl False.elim

theorem next_pidOk (h : PidOk su s) {e : Event T} (hstep : next su s e = some t) :
    PidOk su t := by
  cases next_cases hstep with
  | quiet u c => exact h
  | step u t hlog => exact logStep_pidOk h hlog
  | call u c hpc | fopenFails u c m hpc => exact h.move hpc rfl rfl rfl False.elim

theorem logStep_adds (hpid : PidOk su s) {u : T} (hstep : LogStep su s u t) :
    ∃ new, Adds su s (AppendSafe s (.step u)) t new := by
  cases hstep with
  | test _ hpc | init _ hpc | isFile _ hpc | fopenA _ hpc | lock _ _ hpc _ | unlock hpc
  | fclose hpc =>
    exact ⟨[], adds_nothing (appendSafe_of_pc hpc (by simp) (by simp)) rfl rfl⟩
  | fopenW c hpc =>
    refine ⟨[], (List.append_nil _).symm, fun hsafe => ?_, fun hunsafe => ?_⟩
    · rw [hsafe.1 c hpc]
      rfl
    · exact List.length_pos_iff.mpr fun h => hunsafe (appendSafe_of_content h)
  | writeA c hpc =>
    have hline : logLine su.dbgFlag (s.pid (su.proc u)) c = su.lineOf (u, c) := by
      rw [hpid.pid u (by rw [hpc]; trivial)]
      rfl
    refine ⟨[(u, c)], rfl, fun _ => ?_, fun hunsafe => ?_⟩
    · rw [lines_singleton, ← hline]
      rfl
    · exact absurd (appendSafe_of_pc hpc (by simp) (by simp)) hunsafe
  | writeW c hpc =>
    have hline : logLine su.dbgFlag (s.pid (su.proc u)) c = su.lineOf (u, c) := by
      rw [hpid.pid u (by rw [hpc]; trivial)]
      rfl
    have hcontent : State.content ({ s with
        file := some (overwrite (s.file.getD []) (logLine su.dbgFlag (s.pid (su.proc u)) c))
        written := s.written ++ [(u, c)] }.setPc u .unlock) =
        overwrite s.content (su.lineOf (u, c)) := by
      rw [← hline]
      rfl
    refine ⟨[(u, c)], rfl, fun hsafe => ?_, fun hunsafe => ?_⟩
    · rw [hcontent, hsafe.2 c hpc, lines_singleton, overwrite, List.drop_nil, List.append_nil]
      rfl
    · have hpos : 0 < s.content.length :=
        List.length_pos_iff.mpr fun h => hunsafe (appendSafe_of_content h)
      have hne : 0 < (su.lineOf (u, c)).length := List.length_pos_iff.mpr (logLine_ne_nil _ _ _)
      rw [hcontent, lines_singleton, overwrite, List.length_append, List.length_drop]
      omega

theorem next_adds (hpid : PidOk su s) {e : Event T} (hstep : next su s e = some t) :
    ∃ new, Adds su s (AppendSafe s e) t new := by
  cases next_cases hstep with
  | step u t hlog => exact logStep_adds hpid hlog
  | quiet | call | fopenFails => exact ⟨[], adds_nothing trivial rfl rfl⟩

theorem run_adds (hpid : PidOk su s) {es : List (Event T)} (hrun : run (next su) s es = some t) :
    ∃ new, Adds su s (Meets (next su) AppendSafe s es) t new := by
  induction es generalizing s with
  | nil =>
    obtain rfl := Option.some.inj hrun
    exact ⟨[], adds_nothing trivial rfl rfl⟩
  | cons e es ih =>
    obtain ⟨u, hu, hrest⟩ := run_cons_eq_some.mp hrun
    obtain ⟨new, hnew⟩ := next_adds hpid hu
    obtain ⟨new', hnew'⟩ := ih (next_pidOk hpid hu) hrest
    have hmeets : Meets (next su) AppendSafe s (e :: es) ↔
        AppendSafe s e ∧ Meets (next su) AppendSafe u es := by
      refine and_congr Iff.rfl ⟨fun h => h u hu, fun h v hv => ?_⟩
      exact Option.some.inj (hu.symm.trans hv) ▸ h
    rw [hmeets]
    exact ⟨_, hnew.trans hnew'⟩

/-! ## The calls and the writes -/

/-- Thread by thread, the calls are the writes and the one that is not written yet. -/
def CallsWritten (s : State P T) : Prop :=
  ∀ u, s.calls.filter (·.1 = u) =
    s.written.filter (·.1 = u) ++ (s.pc u).inFlight.map fun c => (u, c)

omit [DecidableEq P] in
/-- A step of the thread `u` that neither calls nor writes. -/
theorem CallsWritten.move (h : CallsWritten s) {u : T} {pc k : Pc} (hpc : s.pc u = k)
    (ht : t.pc = (s.setPc u pc).pc) (hcalls : t.calls = s.calls)
    (hwritten : t.written = s.written) (hflight : pc.inFlight = k.inFlight) :
    CallsWritten t := by
  intro v
  rw [hcalls, hwritten, ht]
  by_cases hvu : v = u
  · rw [hvu, setPc_pc_self, hflight, ← hpc]
    exact h u
  · rw [setPc_pc_of_ne _ hvu]
    exact h v

omit [DecidableEq P] in
theorem CallsWritten.call (h : CallsWritten s) {u : T} (hpc : s.pc u = .idle) (c : LogCall) :
    CallsWritten ({ s with calls := s.calls ++ [(u, c)] }.setPc u (.test c)) := by
  intro v
  show (s.calls ++ [(u, c)]).filter (·.1 = v) = _
  rw [List.filter_append, h v]
  by_cases hvu : v = u
  · rw [hvu, setPc_pc_self, hpc]
    simp [Pc.inFlight, State.setPc]
  · rw [setPc_pc_of_ne _ hvu]
    simp [Ne.symm hvu, State.setPc]

omit [DecidableEq P] in
theorem CallsWritten.write (h : CallsWritten s) {u : T} {c : LogCall} {m : Mode}
    (hpc : s.pc u = .write c m) (hcalls : t.calls = s.calls)
    (hwritten : t.written = s.written ++ [(u, c)]) (ht : t.pc = (s.setPc u .unlock).pc) :
    CallsWritten t := by
  intro v
  rw [hcalls, hwritten, ht, List.filter_append, h v]
  by_cases hvu : v = u
  · rw [hvu, setPc_pc_self, hpc]
    simp [Pc.inFlight]
  · rw [setPc_pc_of_ne _ hvu]
    simp [Ne.symm hvu]

theorem logStep_callsWritten (h : CallsWritten s) {u : T} (hstep : LogStep su s u t) :
    CallsWritten t := by
  cases hstep with
  | test c hpc =>
    refine h.move hpc rfl rfl rfl ?_
    split <;> rfl
  | writeA _ hpc | writeW _ hpc => exact h.write hpc rfl rfl rfl
  | init _ hpc | isFile _ hpc | fopenA _ hpc | fopenW _ hpc | lock _ _ hpc _ | unlock hpc
  | fclose hpc => exact h.move hpc rfl rfl rfl rfl

theorem next_callsWritten (h : CallsWritten s) {e : Event T} (he : ∀ u, e ≠ .fopenFails u)
    (hstep : next su s e = some t) : CallsWritten t := by
  cases next_cases hstep with
  | quiet u c => exact h
  | call u c hpc => exact h.call hpc c
  | step u t hlog => exact logStep_callsWritten h hlog
  | fopenFails u c m hpc => exact absurd rfl (he u)

omit [DecidableEq P] in
/-- Once all calls have returned, the calls are the writes in another order. -/
theorem CallsWritten.perm (h : CallsWritten s) (hidle : ∀ u, s.pc u = .idle) :
    s.written.Perm s.calls := by
  refine List.perm_iff_count.mpr fun c => ?_
  have hfilter := h c.1
  rw [hidle c.1, show (Pc.idle).inFlight = [] from rfl, List.map_nil, List.append_nil] at hfilter
  rw [← List.count_filter (p := fun d => d.1 = c.1) (l := s.written) (by simp),
    ← List.count_filter (p := fun d => d.1 = c.1) (l := s.calls) (by simp), hfilter]

/-- Once all calls have returned, the file consists of its initial content and the complete
line of each call, in some order, exactly when no call opened it in mode `w`, or wrote in
that mode, while it was not empty. -/
theorem debugLog_lines_iff (su : Setup P T) (file : Option Bytes) (es : List (Event T))
    (hopen : ∀ u, Event.fopenFails u ∉ es) (hrun : run (next su) (start file) es = some s)
    (hidle : ∀ u, s.pc u = .idle) :
    (∃ cs, cs.Perm s.calls ∧ s.file.getD [] = file.getD [] ++ su.lines cs) ↔
      Meets (next su) AppendSafe (start file) es := by
  have hnoFail : Meets (next su) (fun _ e => ∀ u, e ≠ .fopenFails u) (start file) es := by
    refine meets_of_forall (fun e he _ u heq => ?_) _
    rw [heq] at he
    exact hopen u he
  have hcalls : CallsWritten s :=
    run_preserves_of_meets (fun _ _ _ h he hstep => next_callsWritten h he hstep) (fun _ => rfl)
      hnoFail hrun
  obtain ⟨new, hadds⟩ := run_adds (start_pidOk su file) hrun
  have hnew : s.written = new := hadds.written
  have hperm : new.Perm s.calls := hnew ▸ hcalls.perm hidle
  constructor
  · rintro ⟨cs, hcs, hfile⟩
    by_contra hno
    have hlt : (s.file.getD []).length < (file.getD []).length + (su.lines new).length :=
      hadds.loses hno
    rw [hfile, List.length_append, lines_perm su (hcs.trans hperm.symm)] at hlt
    exact Nat.lt_irrefl _ hlt
  · intro hmeets
    exact ⟨new, hperm, hadds.full hmeets⟩

/-- Two threads are in `_log` at the same time.  The second one locks the mutex and writes after the
first one, behind what was in the file. -/
def overlapping : List (Event Bool) :=
  [.call false emptyInfo, .call true emptyInfo] ++ List.replicate 4 (.step false) ++
    List.replicate 4 (.step true) ++ List.replicate 3 (.step false) ++
    List.replicate 4 (.step true) ++ [.step false]

theorem debugLog_lines_iff_two :
    ∃ s, run (next (oneProcess Bool)) (start (some (bytes "old\n"))) overlapping = some s ∧
      s.calls = [(false, emptyInfo), (true, emptyInfo)] ∧
      Meets (next (oneProcess Bool)) AppendSafe (start (some (bytes "old\n"))) overlapping := by
  have hrun : ∃ s, run (next (oneProcess Bool)) (start (some (bytes "old\n"))) overlapping =
      some s ∧ s.pc false = .idle ∧ s.pc true = .idle ∧
      s.calls = [(false, emptyInfo), (true, emptyInfo)] ∧
      s.file = some (bytes "old\n" ++
        (oneProcess Bool).lines [(false, emptyInfo), (true, emptyInfo)]) :=
    ⟨_, rfl, rfl, rfl, rfl, by decide⟩
  obtain ⟨s, hs, hfalse, htrue, hcalls, hfile⟩ := hrun
  have hidle : ∀ u, s.pc u = .idle := by
    intro u
    cases u with
    | false => exact hfalse
    | true => exact htrue
  refine ⟨s, hs, hcalls, (debugLog_lines_iff (oneProcess Bool) _ _ (by simp [overlapping]) hs
    hidle).mp ⟨s.calls, List.Perm.refl _, ?_⟩⟩
  rw [hcalls, hfile]
  rfl

/-- Two threads find no file; the second one to open it in mode `w` discards the line of the
first one. -/
theorem debugLog_line_lost :
    ∃ s, run (next (oneProcess Bool)) (start none)
        (.call false emptyInfo :: List.replicate 3 (.step false) ++
          .call true emptyInfo :: List.replicate 3 (.step true) ++
          List.replicate 5 (.step false) ++ List.replicate 5 (.step true)) = some s ∧
      (∀ u, s.pc u = .idle) ∧
      ¬ ∃ cs, cs.Perm s.calls ∧ s.file.getD [] = (oneProcess Bool).lines cs := by
  have hrun : ∃ s, run (next (oneProcess Bool)) (start none)
        (.call false emptyInfo :: List.replicate 3 (.step false) ++
          .call true emptyInfo :: List.replicate 3 (.step true) ++
          List.replicate 5 (.step false) ++ List.replicate 5 (.step true)) = some s ∧
      s.pc false = .idle ∧ s.pc true = .idle ∧
      s.calls = [(false, emptyInfo), (true, emptyInfo)] ∧
      (s.file.getD []).length <
        ((oneProcess Bool).lines [(false, emptyInfo), (true, emptyInfo)]).length :=
    ⟨_, rfl, rfl, rfl, rfl, by decide⟩
  obtain ⟨s, hs, hfalse, htrue, hcalls, hshort⟩ := hrun
  refine ⟨s, hs, fun u => by cases u <;> assumption, ?_⟩
  rintro ⟨cs, hcs, hfile⟩
  rw [hfile, lines_perm _ hcs, hcalls] at hshort
  exact Nat.lt_irrefl _ hshort

end DebugLog
end Gateway
end LinuxPrograming

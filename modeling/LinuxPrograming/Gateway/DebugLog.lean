import LinuxPrograming.Lib.Mutex
import LinuxPrograming.Lib.Printf
import LinuxPrograming.Lib.Run
import Mathlib.Data.Fintype.Defs

/-!
# `_log` of `os_debug.c`

Threads of several processes, the gateway and its child, call `_log` any number of times.
`flags`, `logging_mutex` and `pid` belong to a process, `debug.log` to all of them.  One
event is one step of one thread.
-/

namespace LinuxPrograming
namespace Gateway
namespace DebugLog

open Lib

/-- The indices of `strlevel`. -/
inductive LogLevel where
  | debug
  | info
  | warning
  | error
  | critical
  deriving DecidableEq, Repr

/-- `strlevel[level]`. -/
def LogLevel.str : LogLevel → Bytes
  | .debug => bytes "DEBUG"
  | .info => bytes "INFO"
  | .warning => bytes "WARNING"
  | .error => bytes "ERROR"
  | .critical => bytes "CRITICAL"

/-- A call of `_log`: its arguments, with `msg` after formatting, and what `get_timestamp`
returned. -/
structure LogCall where
  level : LogLevel
  file : Bytes
  line : Int
  func : Bytes
  msg : Bytes
  timestamp : Bytes
  deriving DecidableEq

/-- `strrchr(file, '/') + 1`, or `file` where there is no slash. -/
def baseName (file : Bytes) : Bytes := (file.reverse.takeWhile (· != 47)).reverse

/-- What the `fprintf` calls of `_log` put into the stream. -/
def logLine (dbgFlag : Nat) (pid : Int) (c : LogCall) : Bytes :=
  vsprintf (bytes "%s ") [.str c.timestamp] ++
  (if 0 < dbgFlag then
    vsprintf (bytes "[%d] %s:%d at %s(): ")
      [.int pid, .str (baseName c.file), .int c.line, .str c.func]
  else []) ++
  vsprintf (bytes "[%s]: ") [.str c.level.str] ++ c.msg ++ bytes "\n"

/-- The mode `debug.log` was opened in. -/
inductive Mode where
  | a
  | w
  deriving DecidableEq, Repr

/-- Where a thread is: outside of `_log`, or before `if(!flags.initialized)`, `logging_init()`,
`is_file(logfile)`, `fopen`, `mutex_lock`, `fflush`, `mutex_unlock` or `fclose`. -/
inductive Pc where
  | idle
  | test (c : LogCall)
  | init (c : LogCall)
  | isFile (c : LogCall)
  | fopen (c : LogCall) (m : Mode)
  | lock (c : LogCall) (m : Mode)
  | write (c : LogCall) (m : Mode)
  | unlock
  | fclose

/-- Between `mutex_lock` and `mutex_unlock`. -/
def Pc.Inside : Pc → Prop
  | .write _ _ | .unlock => True
  | _ => False

instance : DecidablePred Pc.Inside
  | .write _ _ | .unlock => isTrue trivial
  | .idle | .test _ | .init _ | .isFile _ | .fopen _ _ | .lock _ _ | .fclose => isFalse id

/-- The variables of the processes, the file, and where the threads are.  `calls` and
`written` record the calls and the writes in their order. -/
structure State (P T : Type) where
  initialized : P → Bool
  loggingMutex : P → Option T
  pid : P → Int
  pc : T → Pc
  file : Option Bytes
  calls : List (T × LogCall)
  written : List (T × LogCall)

inductive Event (T : Type) where
  | call (t : T) (c : LogCall)
  | step (t : T)
  /-- `fopen` returns NULL. -/
  | fopenFails (t : T)
  deriving DecidableEq

/-- The processes: which one a thread belongs to, their numbers, and `dbg_flag`. -/
structure Setup (P T : Type) where
  proc : T → P
  getpid : P → Int
  dbgFlag : Nat

variable {P T : Type}

section

variable [DecidableEq T]

def State.setPc (s : State P T) (t : T) (pc : Pc) : State P T :=
  { s with pc := fun u => if u = t then pc else s.pc u }

@[simp] theorem setPc_pc_self (s : State P T) (t : T) (pc : Pc) : (s.setPc t pc).pc t = pc :=
  if_pos rfl

theorem setPc_pc_of_ne (s : State P T) {t u : T} (h : u ≠ t) (pc : Pc) :
    (s.setPc t pc).pc u = s.pc u := if_neg h

end

section

variable [DecidableEq P]

def State.setMutex (s : State P T) (p : P) (owner : Option T) : State P T :=
  { s with loggingMutex := fun q => if q = p then owner else s.loggingMutex q }

@[simp] theorem setMutex_self (s : State P T) (p : P) (o : Option T) :
    (s.setMutex p o).loggingMutex p = o := if_pos rfl

theorem setMutex_of_ne (s : State P T) {p q : P} (h : q ≠ p) (o : Option T) :
    (s.setMutex p o).loggingMutex q = s.loggingMutex q := if_neg h

end

/-- The state before the first call.  `flags` and `pid` are static. -/
def start (file : Option Bytes) : State P T where
  initialized _ := false
  loggingMutex _ := none
  pid _ := 0
  pc _ := .idle
  file := file
  calls := []
  written := []

variable [DecidableEq P] [DecidableEq T]

/-- `logging_init()`. -/
def loggingInit (su : Setup P T) (s : State P T) (p : P) : State P T :=
  { s.setMutex p none with pid := fun q => if q = p then su.getpid p else s.pid q }

/-- One step of a thread inside `_log`. -/
def logStep (su : Setup P T) (s : State P T) (t : T) : Option (State P T) :=
  let p := su.proc t
  match s.pc t with
  | .idle => none
  | .test c => some (s.setPc t (if s.initialized p then .isFile c else .init c))
  | .init c => some ((loggingInit su s p).setPc t (.isFile c))
  | .isFile c => some (s.setPc t (.fopen c (if s.file.isSome then .a else .w)))
  | .fopen c .a => some ({ s with file := some (s.file.getD []) }.setPc t (.lock c .a))
  | .fopen c .w => some ({ s with file := some [] }.setPc t (.lock c .w))
  | .lock c m =>
    if s.loggingMutex p = none then some ((s.setMutex p (some t)).setPc t (.write c m))
    else none
  | .write c m =>
    let text := logLine su.dbgFlag (s.pid p) c
    -- A stream in mode `w` writes at its own offset, which is 0.
    let file := match m with
      | .a => s.file.getD [] ++ text
      | .w => overwrite (s.file.getD []) text
    some ({ s with file := some file, written := s.written ++ [(t, c)] }.setPc t .unlock)
  | .unlock => some ((s.setMutex p none).setPc t .fclose)
  | .fclose => some (s.setPc t .idle)

/-- `_mdebug` returns at once unless `dbg_flag` is set; the other entry points call `_log`. -/
def next (su : Setup P T) (s : State P T) : Event T → Option (State P T)
  | .call t c =>
    match s.pc t with
    | .idle =>
      if c.level = .debug ∧ su.dbgFlag = 0 then some s
      else some ({ s with calls := s.calls ++ [(t, c)] }.setPc t (.test c))
    | _ => none
  | .step t => logStep su s t
  | .fopenFails t =>
    match s.pc t with
    | .fopen _ _ => some (s.setPc t .idle)
    | _ => none

/-- What a step of a thread does, by the place it is at. -/
inductive LogStep (su : Setup P T) (s : State P T) (u : T) : State P T → Prop where
  | test (c : LogCall) (hpc : s.pc u = .test c) :
    LogStep su s u (s.setPc u (if s.initialized (su.proc u) then .isFile c else .init c))
  | init (c : LogCall) (hpc : s.pc u = .init c) :
    LogStep su s u ((loggingInit su s (su.proc u)).setPc u (.isFile c))
  | isFile (c : LogCall) (hpc : s.pc u = .isFile c) :
    LogStep su s u (s.setPc u (.fopen c (if s.file.isSome then .a else .w)))
  | fopenA (c : LogCall) (hpc : s.pc u = .fopen c .a) :
    LogStep su s u ({ s with file := some (s.file.getD []) }.setPc u (.lock c .a))
  | fopenW (c : LogCall) (hpc : s.pc u = .fopen c .w) :
    LogStep su s u ({ s with file := some [] }.setPc u (.lock c .w))
  | lock (c : LogCall) (m : Mode) (hpc : s.pc u = .lock c m)
    (hfree : s.loggingMutex (su.proc u) = none) :
    LogStep su s u ((s.setMutex (su.proc u) (some u)).setPc u (.write c m))
  | writeA (c : LogCall) (hpc : s.pc u = .write c .a) :
    LogStep su s u ({ s with
      file := some (s.file.getD [] ++ logLine su.dbgFlag (s.pid (su.proc u)) c)
      written := s.written ++ [(u, c)] }.setPc u .unlock)
  | writeW (c : LogCall) (hpc : s.pc u = .write c .w) :
    LogStep su s u ({ s with
      file := some (overwrite (s.file.getD []) (logLine su.dbgFlag (s.pid (su.proc u)) c))
      written := s.written ++ [(u, c)] }.setPc u .unlock)
  | unlock (hpc : s.pc u = .unlock) :
    LogStep su s u ((s.setMutex (su.proc u) none).setPc u .fclose)
  | fclose (hpc : s.pc u = .fclose) : LogStep su s u (s.setPc u .idle)

variable {su : Setup P T} {s t : State P T}

theorem logStep_cases {u : T} (h : logStep su s u = some t) : LogStep su s u t := by
  unfold logStep at h
  dsimp only at h
  split at h
  case h_1 => exact absurd h (by simp)
  case h_2 c hpc => exact Option.some.inj h ▸ .test c hpc
  case h_3 c hpc => exact Option.some.inj h ▸ .init c hpc
  case h_4 c hpc => exact Option.some.inj h ▸ .isFile c hpc
  case h_5 c hpc => exact Option.some.inj h ▸ .fopenA c hpc
  case h_6 c hpc => exact Option.some.inj h ▸ .fopenW c hpc
  case h_7 c m hpc =>
    split at h
    · next hfree => exact Option.some.inj h ▸ .lock c m hpc hfree
    · exact absurd h (by simp)
  case h_8 c m hpc =>
    cases m with
    | a => exact Option.some.inj h ▸ .writeA c hpc
    | w => exact Option.some.inj h ▸ .writeW c hpc
  case h_9 hpc => exact Option.some.inj h ▸ .unlock hpc
  case h_10 hpc => exact Option.some.inj h ▸ .fclose hpc

theorem logStep_of {u : T} (h : LogStep su s u t) : logStep su s u = some t := by
  cases h <;> simp_all [logStep]

/-- What an event does. -/
inductive Step (su : Setup P T) (s : State P T) : Event T → State P T → Prop where
  /-- `_mdebug` without `dbg_flag`. -/
  | quiet (u : T) (c : LogCall) : Step su s (.call u c) s
  | call (u : T) (c : LogCall) (hpc : s.pc u = .idle) :
    Step su s (.call u c) ({ s with calls := s.calls ++ [(u, c)] }.setPc u (.test c))
  | step (u : T) (t : State P T) (h : LogStep su s u t) : Step su s (.step u) t
  | fopenFails (u : T) (c : LogCall) (m : Mode) (hpc : s.pc u = .fopen c m) :
    Step su s (.fopenFails u) (s.setPc u .idle)

theorem next_cases {e : Event T} (h : next su s e = some t) : Step su s e t := by
  unfold next at h
  cases e with
  | call u c =>
    dsimp only at h
    split at h
    · next hpc =>
      split at h
      · exact Option.some.inj h ▸ .quiet u c
      · exact Option.some.inj h ▸ .call u c hpc
    · exact absurd h (by simp)
  | step u => exact .step u t (logStep_cases h)
  | fopenFails u =>
    dsimp only at h
    split at h
    · next c m hpc => exact Option.some.inj h ▸ .fopenFails u c m hpc
    · exact absurd h (by simp)

/-! ## Mutual exclusion -/

/-- The owner of a process's `logging_mutex` is its one thread that is writing. -/
def Guarded (su : Setup P T) (s : State P T) : Prop :=
  ∀ p, Owned (s.loggingMutex p) fun u => su.proc u = p ∧ (s.pc u).Inside

/-- `logging_init` runs only while no thread of the process is writing. -/
def InitSafe (su : Setup P T) (s : State P T) : Event T → Prop
  | .step t => ∀ c, s.pc t = .init c → ∀ u, su.proc u = su.proc t → ¬ (s.pc u).Inside
  | _ => True

instance [Fintype T] (su : Setup P T) (s : State P T) (e : Event T) :
    Decidable (InitSafe su s e) :=
  match e with
  | .call _ _ | .fopenFails _ => isTrue trivial
  | .step t =>
    match hpc : s.pc t with
    | .init c => decidable_of_iff (∀ u, su.proc u = su.proc t → ¬ (s.pc u).Inside)
        ⟨fun h _ _ => h, fun h => h c hpc⟩
    | .idle | .test _ | .isFile _ | .fopen _ _ | .lock _ _ | .write _ _ | .unlock | .fclose =>
      isTrue fun c heq => by
        rw [hpc] at heq
        cases heq

omit [DecidableEq P] [DecidableEq T] in
theorem start_guarded (file : Option Bytes) : Guarded su (start file) :=
  fun _ => owned_none.mpr fun _ h => h.2

omit [DecidableEq P] in
theorem inside_setPc_of_ne {u v : T} (h : v ≠ u) (pc : Pc) (p : P) :
    su.proc v = p ∧ ((s.setPc u pc).pc v).Inside ↔ su.proc v = p ∧ (s.pc v).Inside := by
  rw [setPc_pc_of_ne _ h]

omit [DecidableEq P] in
/-- A step outside the two mutex calls. -/
theorem Guarded.move (h : Guarded su s) {u : T} {pc k : Pc} (hpc : s.pc u = k)
    (ht : t.pc = (s.setPc u pc).pc) (hmutex : t.loggingMutex = s.loggingMutex)
    (hin : pc.Inside ↔ k.Inside) : Guarded su t := by
  intro p
  rw [hmutex, ht]
  refine (h p).keep (t := u) ?_ fun v hv => inside_setPc_of_ne hv pc p
  rw [setPc_pc_self, hpc, hin]

/-- A mutex call of the thread `u` on the mutex of its process. -/
theorem Guarded.mutexCall (h : Guarded su s) {u : T} {pc : Pc} {o : Option T}
    (hown : Owned o fun v => su.proc v = su.proc u ∧ ((s.setPc u pc).pc v).Inside) :
    Guarded su ((s.setMutex (su.proc u) o).setPc u pc) := by
  intro p
  by_cases hp : p = su.proc u
  · rw [hp]
    show Owned ((s.setMutex (su.proc u) o).loggingMutex (su.proc u)) _
    rw [setMutex_self]
    exact hown
  · show Owned ((s.setMutex (su.proc u) o).loggingMutex p) _
    rw [setMutex_of_ne _ hp]
    refine (h p).keep (t := u) ?_ fun v hv => inside_setPc_of_ne hv pc p
    exact iff_of_false (fun hu => hp hu.1.symm) fun hu => hp hu.1.symm

theorem Guarded.lock (h : Guarded su s) {u : T} {pc : Pc}
    (hfree : s.loggingMutex (su.proc u) = none) (hin : pc.Inside) :
    Guarded su ((s.setMutex (su.proc u) (some u)).setPc u pc) := by
  have hnone := h (su.proc u)
  rw [hfree] at hnone
  refine h.mutexCall (hnone.acquire ?_ fun v hv => inside_setPc_of_ne hv pc _)
  rw [setPc_pc_self]
  exact ⟨rfl, hin⟩

theorem Guarded.unlock (h : Guarded su s) {u : T} {pc : Pc} (hin : (s.pc u).Inside)
    (hout : ¬ pc.Inside) : Guarded su ((s.setMutex (su.proc u) none).setPc u pc) := by
  refine h.mutexCall ((h (su.proc u)).release (t := u) ⟨rfl, hin⟩ ?_
    fun v hv => inside_setPc_of_ne hv pc _)
  rw [setPc_pc_self]
  exact fun hu => hout hu.2

/-- A second initialisation is harmless while nobody of the process is writing. -/
theorem Guarded.init (h : Guarded su s) {u : T} {pc : Pc}
    (hnone : ∀ v, su.proc v = su.proc u → ¬ (s.pc v).Inside) (hout : ¬ pc.Inside) :
    Guarded su ((loggingInit su s (su.proc u)).setPc u pc) := by
  refine h.mutexCall (o := none) (owned_none.mpr fun v hv => ?_)
  by_cases hvu : v = u
  · rw [hvu, setPc_pc_self] at hv
    exact hout hv.2
  · rw [setPc_pc_of_ne _ hvu] at hv
    exact hnone v hv.1 hv.2

theorem logStep_guarded (h : Guarded su s) {u : T} (hsafe : InitSafe su s (.step u))
    (hstep : LogStep su s u t) : Guarded su t := by
  cases hstep with
  | test c hpc =>
    refine h.move hpc rfl rfl ?_
    split <;> exact Iff.rfl
  | init c hpc => exact h.init (hsafe c hpc) id
  | lock c m hpc hfree => exact h.lock hfree trivial
  | unlock hpc => exact h.unlock (hpc ▸ trivial) id
  | isFile _ hpc | fopenA _ hpc | fopenW _ hpc | writeA _ hpc | writeW _ hpc | fclose hpc =>
    exact h.move hpc rfl rfl Iff.rfl

theorem next_guarded (h : Guarded su s) {e : Event T} (hsafe : InitSafe su s e)
    (hstep : next su s e = some t) : Guarded su t := by
  cases next_cases hstep with
  | quiet u c => exact h
  | step u t hlog => exact logStep_guarded h hsafe hlog
  | call u c hpc | fopenFails u c m hpc => exact h.move hpc rfl rfl Iff.rfl

/-- Two threads of one process are writing. -/
def Clash (su : Setup P T) (s : State P T) : Prop :=
  ∃ u v, u ≠ v ∧ su.proc u = su.proc v ∧ (s.pc u).Inside ∧ (s.pc v).Inside

theorem run_step {r : State P T} {u : T} {es : List (Event T)} (h : LogStep su s u t)
    (hrest : run (next su) t es = some r) : run (next su) s (.step u :: es) = some r :=
  run_cons_eq_some.mpr ⟨t, logStep_of h, hrest⟩

/-- The thread that ran `logging_init` finds the mutex free, whoever holds it. -/
theorem clash_of_init {u v : T} {c : LogCall} (hpc : s.pc u = .init c)
    (hproc : su.proc v = su.proc u) (hv : (s.pc v).Inside) :
    ∃ r, run (next su) s [.step u, .step u, .step u, .step u] = some r ∧ Clash su r := by
  have hvu : v ≠ u := fun heq => by
    rw [heq, hpc] at hv
    exact hv
  have hinit : LogStep su s u _ := .init c hpc
  generalize hs₁ : (loggingInit su s (su.proc u)).setPc u (.isFile c) = s₁ at hinit
  have hisFile : LogStep su s₁ u _ := .isFile c (by rw [← hs₁, setPc_pc_self])
  generalize hm : (if s₁.file.isSome then Mode.a else Mode.w) = m at hisFile
  generalize hs₂ : s₁.setPc u (.fopen c m) = s₂ at hisFile
  have hopen : ∃ file, LogStep su s₂ u ({ s₂ with file := file }.setPc u (.lock c m)) := by
    cases m with
    | a => exact ⟨_, .fopenA c (by rw [← hs₂, setPc_pc_self])⟩
    | w => exact ⟨_, .fopenW c (by rw [← hs₂, setPc_pc_self])⟩
  obtain ⟨file, hopen⟩ := hopen
  generalize hs₃ : { s₂ with file := file }.setPc u (.lock c m) = s₃ at hopen
  have hfree : s₃.loggingMutex (su.proc u) = none := by
    rw [← hs₃, ← hs₂, ← hs₁]
    exact setMutex_self s (su.proc u) none
  have hlock : LogStep su s₃ u _ := .lock c m (by rw [← hs₃, setPc_pc_self]) hfree
  refine ⟨_, run_step hinit (run_step hisFile (run_step hopen (run_step hlock rfl))),
    u, v, hvu.symm, hproc.symm, ?_, ?_⟩
  · rw [setPc_pc_self]
    trivial
  · rw [setPc_pc_of_ne _ hvu]
    show (s₃.pc v).Inside
    rw [← hs₃, setPc_pc_of_ne _ hvu]
    show (s₂.pc v).Inside
    rw [← hs₂, setPc_pc_of_ne _ hvu, ← hs₁, setPc_pc_of_ne _ hvu]
    exact hv

/-- In a run whose initialisations all come while nobody of the process is writing, at most
one thread of a process is writing.  After any other initialisation two threads can be. -/
theorem logging_exclusive (su : Setup P T) (file : Option Bytes) (es : List (Event T))
    (hsafe : Meets (next su) (InitSafe su) (start file) es)
    (hrun : run (next su) (start file) es = some s) :
    (∀ u v, su.proc u = su.proc v → (s.pc u).Inside → (s.pc v).Inside → u = v) ∧
    (∀ e, ¬ InitSafe su s e → ∃ es' r, run (next su) s (e :: es') = some r ∧ Clash su r) := by
  have hguarded : Guarded su s :=
    run_preserves_of_meets (fun _ _ _ h hsafe hstep => next_guarded h hsafe hstep)
      (start_guarded file) hsafe hrun
  refine ⟨fun u v huv hu hv => (hguarded (su.proc v)).unique ⟨huv, hu⟩ ⟨rfl, hv⟩, fun e he => ?_⟩
  cases e with
  | call u c => exact absurd trivial he
  | fopenFails u => exact absurd trivial he
  | step u =>
    have hsome : ∃ c, s.pc u = .init c ∧ ∃ v, su.proc v = su.proc u ∧ (s.pc v).Inside := by
      by_contra hno
      exact he fun c hpc v hproc hv => hno ⟨c, hpc, v, hproc, hv⟩
    obtain ⟨c, hpc, v, hproc, hv⟩ := hsome
    obtain ⟨r, hr, hclash⟩ := clash_of_init hpc hproc hv
    exact ⟨_, r, hr, hclash⟩

/-- A call of `minfo` with an empty message. -/
def emptyInfo : LogCall := ⟨.info, [], 0, [], [], []⟩

/-- Threads of one process, without `dbg_flag`. -/
def oneProcess (T : Type) : Setup Unit T := ⟨fun _ => (), fun _ => 1, 0⟩

/-- Two threads find the mutex not initialised, and both initialise it before the first one
locks it. -/
def bothInit : List (Event Bool) :=
  [.call false emptyInfo, .call true emptyInfo, .step false, .step true, .step false, .step true,
    .step false, .step false, .step false]

theorem logging_exclusive_two :
    ∃ s, run (next (oneProcess Bool)) (start none) bothInit = some s ∧ (s.pc false).Inside ∧
      s.pc true = .isFile emptyInfo ∧ ∀ u v, (s.pc u).Inside → (s.pc v).Inside → u = v := by
  have hrun : ∃ s, run (next (oneProcess Bool)) (start none) bothInit = some s ∧
      (s.pc false).Inside ∧ s.pc true = .isFile emptyInfo := ⟨_, rfl, trivial, rfl⟩
  obtain ⟨s, hs, hin, hpc⟩ := hrun
  have hmeets : Meets (next (oneProcess Bool)) (InitSafe (oneProcess Bool)) (start none)
      bothInit := by decide
  have hone := (logging_exclusive (oneProcess Bool) none _ hmeets hs).1
  exact ⟨s, hs, hin, hpc, fun u v => hone u v rfl⟩

/-- The second caller initialises the mutex that the first one holds. -/
theorem logging_clash :
    ∃ s, run (next (oneProcess Bool)) (start none)
        ((.call false emptyInfo :: List.replicate 5 (.step false)) ++
          (.call true emptyInfo :: List.replicate 5 (.step true))) = some s ∧
      (s.pc false).Inside ∧ (s.pc true).Inside := ⟨_, rfl, trivial, trivial⟩

end DebugLog
end Gateway
end LinuxPrograming

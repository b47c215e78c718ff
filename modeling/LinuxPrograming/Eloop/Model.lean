import LinuxPrograming.Lib.Run

/-!
# The event loop

`eloop.c`, built for `select`.  `eloop_run` is a machine that goes from one place of the loop to
the next.  A handler is the calls that it makes until it returns, and a signal may arrive between
any two steps, also in the middle of `eloop_register_signal`.  Pointers and functions are numbers.
-/

namespace LinuxPrograming
namespace Eloop

open Lib

/-! ## Times -/

/-- `struct os_reltime`. -/
structure Reltime where
  sec : Int
  usec : Int
  deriving DecidableEq, Repr

/-- `os_reltime_before`. -/
def Reltime.before (a b : Reltime) : Bool := a.sec < b.sec || (a.sec == b.sec && a.usec < b.usec)

/-- `os_reltime_sub`. -/
def Reltime.sub (a b : Reltime) : Reltime :=
  let sec := a.sec - b.sec
  let usec := a.usec - b.usec
  if usec < 0 then ⟨sec - 1, usec + 1000000⟩ else ⟨sec, usec⟩

/-- The largest `os_time_t`. -/
def timeMax : Int := 9223372036854775807

/-! ## Timeouts -/

/-- `ELOOP_ALL_CTX`. -/
def allCtx : Nat := 18446744073709551615

/-- `struct eloop_timeout`.  `id` counts the registrations. -/
structure Timeout where
  time : Reltime
  eloopData : Nat
  userData : Nat
  handler : Nat
  id : Nat
  deriving DecidableEq, Repr

/-- A timeout whose handler was called, the time of the call, and what was left in the list. -/
structure Firing where
  timeout : Timeout
  now : Reltime
  waiting : List Timeout
  deriving DecidableEq, Repr

/-- The list `eloop.timeout`, and what became of the timeouts that were in it. -/
structure Timers where
  timeout : List Timeout
  registered : Nat
  fired : List Firing
  cancelled : List Timeout
  deriving DecidableEq, Repr

/-- In front of the first timeout that is later. -/
def insertTimeout (timeout : Timeout) : List Timeout → List Timeout
  | [] => [timeout]
  | tmp :: list =>
    if timeout.time.before tmp.time then timeout :: tmp :: list
    else tmp :: insertTimeout timeout list

namespace Timers

/-- `eloop_register_timeout`.  `now` is `none` when `os_get_reltime` fails.  A sum of seconds that
overflows is less than `now_sec`.  The carry from the microseconds is taken not to overflow. -/
def register (memory : Bool) (now : Option Reltime) (secs usecs handler eloopData userData : Nat)
    (s : Timers) : Timers × Int :=
  match memory, now with
  | true, some now =>
    if timeMax < now.sec + secs then (s, 0)
    else
      let usec := now.usec + usecs
      let time : Reltime := ⟨now.sec + secs + usec / 1000000, usec % 1000000⟩
      ({ s with
        timeout := insertTimeout ⟨time, eloopData, userData, handler, s.registered⟩ s.timeout,
        registered := s.registered + 1 }, 0)
  | _, _ => (s, -1)

/-- What `eloop_cancel_timeout` removes. -/
def matching (handler eloopData userData : Nat) (timeout : Timeout) : Bool :=
  timeout.handler == handler && (timeout.eloopData == eloopData || eloopData == allCtx) &&
    (timeout.userData == userData || userData == allCtx)

/-- What the other functions look for. -/
def same (handler eloopData userData : Nat) (timeout : Timeout) : Bool :=
  timeout.handler == handler && timeout.eloopData == eloopData && timeout.userData == userData

/-- `eloop_cancel_timeout`. -/
def cancel (handler eloopData userData : Nat) (s : Timers) : Timers × Nat :=
  let removed := s.timeout.filter (matching handler eloopData userData)
  ({ s with
    timeout := s.timeout.filter fun timeout => !matching handler eloopData userData timeout,
    cancelled := removed ++ s.cancelled }, removed.length)

/-- `eloop_cancel_timeout_one`, with what remains of the time. -/
def cancelOne (now : Reltime) (handler eloopData userData : Nat) (s : Timers) :
    Timers × Nat × Reltime :=
  match s.timeout.find? (same handler eloopData userData) with
  | none => (s, 0, ⟨0, 0⟩)
  | some timeout =>
    ({ s with
      timeout := s.timeout.eraseP (same handler eloopData userData),
      cancelled := timeout :: s.cancelled }, 1,
      if now.before timeout.time then timeout.time.sub now else ⟨0, 0⟩)

/-- Register the first matching timeout again, when `late requested remaining` holds.  The clock
is read once here and once by `eloop_register_timeout`. -/
def adjust (late : Reltime → Reltime → Bool) (memory : Bool) (now : Reltime)
    (again : Option Reltime) (reqSecs reqUsecs handler eloopData userData : Nat) (s : Timers) :
    Timers × Int :=
  match s.timeout.find? (same handler eloopData userData) with
  | none => (s, -1)
  | some tmp =>
    if late ⟨reqSecs, reqUsecs⟩ (tmp.time.sub now) then
      let s := (s.cancel handler eloopData userData).1
      ((s.register memory again reqSecs reqUsecs handler eloopData userData).1, 1)
    else (s, 0)

/-- `eloop_deplete_timeout`. -/
def deplete := adjust fun requested remaining => requested.before remaining

/-- `eloop_replenish_timeout`. -/
def replenish := adjust fun requested remaining => remaining.before requested

end Timers

/-! ## Sockets -/

/-- `eloop_event_type`. -/
inductive EventType where
  | read
  | write
  | exception
  deriving DecidableEq, Repr

/-- `struct eloop_sock`.  `id` counts the registrations. -/
structure Sock where
  sock : Nat
  handler : Nat
  eloopData : Nat
  userData : Nat
  id : Nat
  deriving DecidableEq, Repr

/-- `struct eloop_sock_table`. -/
structure Table where
  table : List Sock
  changed : Bool
  deriving DecidableEq, Repr

/-- A socket handler that was called, what `select` had found ready for the table, which sockets
were in the table then, and whether the table was changed since. -/
structure SockCall where
  type : EventType
  entry : Sock
  ready : List Nat
  selected : List Sock
  touched : Bool
  deriving DecidableEq, Repr

/-- The tables.  `selected` are the tables of the last `select`, `touched` tells which of them
were changed since, and `calls` records the handlers. -/
structure Socks where
  tables : EventType → Table
  maxSock : Nat
  registered : Nat
  selected : EventType → List Sock
  touched : EventType → Bool
  calls : List SockCall

namespace Socks

def set (type : EventType) (table : Table) (s : Socks) : Socks :=
  { s with tables := fun other => if other = type then table else s.tables other }

/-- `eloop_register_sock`.  `memory` is false when the table cannot grow. -/
def register (memory : Bool) (sock : Nat) (type : EventType) (handler eloopData userData : Nat)
    (s : Socks) : Socks × Int :=
  if memory then
    ({ s.set type ⟨(s.tables type).table ++
          [⟨sock, handler, eloopData, userData, s.registered⟩], true⟩ with
      maxSock := if s.maxSock < sock then sock else s.maxSock,
      registered := s.registered + 1,
      touched := fun other => if other = type then true else s.touched other }, 0)
  else (s, -1)

/-- `eloop_unregister_sock`. -/
def unregister (sock : Nat) (type : EventType) (s : Socks) : Socks :=
  if (s.tables type).table.any fun entry => entry.sock == sock then
    { s.set type ⟨(s.tables type).table.eraseP fun entry => entry.sock == sock, true⟩ with
      touched := fun other => if other = type then true else s.touched other }
  else s

/-- `eloop.readers.changed || eloop.writers.changed || eloop.exceptions.changed`. -/
def changed (s : Socks) : Bool :=
  (s.tables .read).changed || (s.tables .write).changed || (s.tables .exception).changed

/-- The flags are cleared behind `select`. -/
def clear (s : Socks) : Socks :=
  { s with
    tables := fun type => ⟨(s.tables type).table, false⟩,
    selected := fun type => (s.tables type).table,
    touched := fun _ => false }

/-- `table->changed = 0` in `eloop_sock_table_dispatch`. -/
def begin (type : EventType) (s : Socks) : Socks := s.set type ⟨(s.tables type).table, false⟩

end Socks

/-! ## Signals -/

/-- `struct eloop_signal`. -/
structure Signal where
  sig : Nat
  userData : Nat
  handler : Nat
  signaled : Nat
  deriving DecidableEq, Repr

/-- What happened to the signals. -/
inductive Note where
  /-- The signal arrived and was counted. -/
  | delivered (sig : Nat)
  /-- It arrived while `eloop.signals` was a block that `realloc` had freed. -/
  | lost (sig : Nat)
  /-- Its entry was cleared for a call of its handler. -/
  | handled (sig : Nat)
  /-- `alarm(0)` was called. -/
  | disarmed
  deriving DecidableEq, Repr

/-- The signals, with notes of which the newest comes first. -/
structure Signals where
  signals : List Signal
  /-- In `eloop_register_signal`, behind `realloc`: the new entry, and whether the array was
  moved. -/
  growing : Option (Signal × Bool)
  signaled : Nat
  pendingTerminate : Bool
  /-- `alarm(2)` was called and not taken back. -/
  alarm : Bool
  notes : List Note
  deriving DecidableEq, Repr

def sigint : Nat := 2
def sigterm : Nat := 15

/-- Count the signal in the first entry for it. -/
def countSignal (sig : Nat) : List Signal → List Signal
  | [] => []
  | signal :: signals =>
    if signal.sig = sig then { signal with signaled := signal.signaled + 1 } :: signals
    else signal :: countSignal sig signals

namespace Signals

/-- `eloop.signals` points to the block that `realloc` freed. -/
def stale (s : Signals) : Bool := s.growing.any Prod.snd

/-- `eloop_handle_signal`.  A count in a block that was freed does not come back. -/
def handle (sig : Nat) (s : Signals) : Signals :=
  let first := (sig = sigint ∨ sig = sigterm) ∧ s.pendingTerminate = false
  { s with
    signals := if s.stale then s.signals else countSignal sig s.signals,
    signaled := s.signaled + 1,
    pendingTerminate := s.pendingTerminate || decide first, alarm := s.alarm || decide first,
    notes := (if s.stale then .lost sig else .delivered sig) :: s.notes }

/-- `eloop_register_signal` up to `tmp[eloop.signal_count].signaled = 0`.  `moved` tells whether
`realloc` returned another block.  Without memory -1 is returned. -/
def register (memory moved : Bool) (sig handler userData : Nat) (s : Signals) : Signals :=
  if memory then { s with growing := some (⟨sig, userData, handler, 0⟩, moved) } else s

/-- The rest, from `eloop.signal_count++` to `return 0`. -/
def assign (signal : Signal) (s : Signals) : Signals :=
  { s with signals := s.signals ++ [signal], growing := none }

end Signals

/-! ## The machine -/

/-- Where `eloop_process_pending_signals` is. -/
inductive Scan where
  /-- At the test of `eloop.signaled`. -/
  | check
  /-- At `eloop.signaled = 0`. -/
  | clear
  /-- At `alarm(0)`. -/
  | disarm
  /-- At `eloop.pending_terminate = 0`. -/
  | unpend
  /-- At the test of `eloop.signals[i].signaled`. -/
  | entry (i : Nat)
  /-- At `eloop.signals[i].signaled = 0` and the call. -/
  | take (i : Nat)
  deriving DecidableEq, Repr

/-- What `select` returned: a number above 0 only with descriptors. -/
structure Result where
  res : Int
  fds : EventType → List Nat

/-- What follows `eloop_process_pending_signals`. -/
inductive After where
  | top
  | selected (r : Result)

/-- Where `eloop_run` is. -/
inductive Pc where
  /-- Not in `eloop_run`. -/
  | outside
  /-- At the condition of the loop. -/
  | top
  | pending (k : After) (scan : Scan)
  /-- Behind the block for `eloop.pending_terminate`. -/
  | prepare
  /-- In `select`, with the timeout. -/
  | blocked (tv : Option Reltime)
  /-- In front of the first timeout. -/
  | timers (r : Result)
  /-- Behind it. -/
  | sockets (r : Result)
  /-- At the test of `table[i]` in `eloop_sock_table_dispatch`. -/
  | dispatch (type : EventType) (i : Nat) (r : Result)
  /-- Behind the call of its handler. -/
  | called (type : EventType) (i : Nat) (r : Result)
  /-- In a handler. -/
  | handler (k : Pc)
  /-- Behind `exit` in `eloop_handle_alarm`. -/
  | exited

structure State where
  pc : Pc
  terminate : Bool
  timers : Timers
  socks : Socks
  signals : Signals

/-- `eloop_init`. -/
def init : State where
  pc := .outside
  terminate := false
  timers := ⟨[], 0, [], []⟩
  socks := ⟨fun _ => ⟨[], false⟩, 0, 0, fun _ => [], fun _ => false, []⟩
  signals := ⟨[], none, 0, false, false, []⟩

/-- A function of `eloop.h` that changes something, with what it finds: memory, and the clock. -/
inductive Call where
  | registerTimeout (memory : Bool) (now : Option Reltime)
    (secs usecs handler eloopData userData : Nat)
  | cancelTimeout (handler eloopData userData : Nat)
  | cancelTimeoutOne (now : Reltime) (handler eloopData userData : Nat)
  | depleteTimeout (memory : Bool) (now : Reltime) (again : Option Reltime)
    (reqSecs reqUsecs handler eloopData userData : Nat)
  | replenishTimeout (memory : Bool) (now : Reltime) (again : Option Reltime)
    (reqSecs reqUsecs handler eloopData userData : Nat)
  | registerSock (memory : Bool) (sock : Nat) (type : EventType)
    (handler eloopData userData : Nat)
  | unregisterSock (sock : Nat) (type : EventType)
  | registerSignal (memory moved : Bool) (sig handler userData : Nat)
  | terminate

def State.call (s : State) : Call → State
  | .registerTimeout memory now secs usecs handler eloopData userData =>
    { s with timers := (s.timers.register memory now secs usecs handler eloopData userData).1 }
  | .cancelTimeout handler eloopData userData =>
    { s with timers := (s.timers.cancel handler eloopData userData).1 }
  | .cancelTimeoutOne now handler eloopData userData =>
    { s with timers := (s.timers.cancelOne now handler eloopData userData).1 }
  | .depleteTimeout memory now again reqSecs reqUsecs handler eloopData userData =>
    { s with timers :=
      (s.timers.deplete memory now again reqSecs reqUsecs handler eloopData userData).1 }
  | .replenishTimeout memory now again reqSecs reqUsecs handler eloopData userData =>
    { s with timers :=
      (s.timers.replenish memory now again reqSecs reqUsecs handler eloopData userData).1 }
  | .registerSock memory sock type handler eloopData userData =>
    { s with socks := (s.socks.register memory sock type handler eloopData userData).1 }
  | .unregisterSock sock type => { s with socks := s.socks.unregister sock type }
  | .registerSignal memory moved sig handler userData =>
    { s with signals := s.signals.register memory moved sig handler userData }
  | .terminate => { s with terminate := true }

inductive Event where
  /-- A call from outside of the loop or from a handler. -/
  | call (c : Call)
  /-- `eloop_register_signal` goes on. -/
  | assign
  /-- The handler returns. -/
  | ret
  /-- `eloop_run` is called.  Without memory it returns at once. -/
  | run (memory : Bool)
  /-- The loop goes on.  `now` is the time, if it reads the clock here. -/
  | step (now : Reltime)
  /-- `select` returns: `none` for an error other than `EINTR`. -/
  | select (result : Option Result)
  | signal (sig : Nat)
  | alarm

/-- The loop ends. -/
def State.leave (s : State) : State := { s with pc := .outside, terminate := false }

/-- The condition of the loop. -/
def State.busy (s : State) : Bool :=
  !s.terminate && (!s.timers.timeout.isEmpty || !(s.socks.tables .read).table.isEmpty ||
    !(s.socks.tables .write).table.isEmpty || !(s.socks.tables .exception).table.isEmpty)

/-- What is done behind `select`, when it did not fail. -/
def State.selected (s : State) (r : Result) : State :=
  { s with pc := .pending (.selected r) .check, socks := s.socks.clear }

/-- The table that is dispatched next. -/
def State.dispatchNext (s : State) (type : EventType) (r : Result) : State :=
  match type with
  | .read => { s with pc := .dispatch .write 0 r, socks := s.socks.begin .write }
  | .write => { s with pc := .dispatch .exception 0 r, socks := s.socks.begin .exception }
  | .exception => { s with pc := .top }

/-- Where `eloop_process_pending_signals` returns to. -/
def State.resume (s : State) : After → State
  | .top => if s.terminate then s.leave else { s with pc := .prepare }
  | .selected r => { s with pc := .timers r }

/-- A step of `eloop_process_pending_signals`. -/
def State.scan (s : State) (k : After) : Scan → State
  | .check => if s.signals.signaled = 0 then s.resume k else { s with pc := .pending k .clear }
  | .clear => { s with pc := .pending k .disarm, signals := { s.signals with signaled := 0 } }
  | .disarm =>
    if s.signals.pendingTerminate then
      { s with
        pc := .pending k .unpend,
        signals := { s.signals with alarm := false, notes := .disarmed :: s.signals.notes } }
    else { s with pc := .pending k (.entry 0) }
  | .unpend =>
    { s with pc := .pending k (.entry 0), signals := { s.signals with pendingTerminate := false } }
  | .entry i =>
    match s.signals.signals[i]? with
    | none => s.resume k
    | some signal =>
      if signal.signaled = 0 then { s with pc := .pending k (.entry (i + 1)) }
      else { s with pc := .pending k (.take i) }
  | .take i =>
    match s.signals.signals[i]? with
    | none => s
    | some signal =>
      { s with
        pc := .handler (.pending k (.entry (i + 1))),
        signals := { s.signals with
          signals := s.signals.signals.set i { signal with signaled := 0 },
          notes := .handled signal.sig :: s.signals.notes } }

/-- A step of `eloop_run` outside of handlers and of `select`. -/
def State.step (s : State) (now : Reltime) : Option State :=
  match s.pc with
  | .top =>
    if s.busy then
      some { s with
        pc := if s.signals.pendingTerminate then .pending .top .check else .prepare }
    else some s.leave
  | .pending k scan => some (s.scan k scan)
  | .prepare =>
    match s.timers.timeout with
    | [] => some { s with pc := .blocked none }
    | timeout :: _ => some { s with
        pc := .blocked (some (if now.before timeout.time then timeout.time.sub now else ⟨0, 0⟩)) }
  | .timers r =>
    match s.timers.timeout with
    | [] => some { s with pc := .sockets r }
    | timeout :: list =>
      if now.before timeout.time then some { s with pc := .sockets r }
      else some { s with
        pc := .handler (.sockets r),
        timers := { s.timers with
          timeout := list, fired := ⟨timeout, now, list⟩ :: s.timers.fired } }
  | .sockets r =>
    if r.res ≤ 0 ∨ s.socks.changed then some { s with pc := .top }
    else some { s with pc := .dispatch .read 0 r, socks := s.socks.begin .read }
  | .dispatch type i r =>
    match (s.socks.tables type).table[i]? with
    | none => some (s.dispatchNext type r)
    | some entry =>
      if entry.sock ∈ r.fds type then
        some { s with
          pc := .handler (.called type i r),
          socks := { s.socks with
            calls := ⟨type, entry, r.fds type, s.socks.selected type, s.socks.touched type⟩ ::
              s.socks.calls } }
      else some { s with pc := .dispatch type (i + 1) r }
  | .called type i r =>
    if (s.socks.tables type).changed then some (s.dispatchNext type r)
    else some { s with pc := .dispatch type (i + 1) r }
  | _ => none

/-- `select` finds only what it was asked for, below `eloop.max_sock + 1`. -/
def Result.Fits (r : Result) (s : Socks) : Prop :=
  ∀ type, ∀ fd ∈ r.fds type, fd ≤ s.maxSock ∧ ∃ entry ∈ (s.tables type).table, entry.sock = fd

instance (r : Result) (s : Socks) : Decidable (r.Fits s) :=
  decidable_of_iff (∀ type ∈ [EventType.read, .write, .exception], ∀ fd ∈ r.fds type,
    fd ≤ s.maxSock ∧ ∃ entry ∈ (s.tables type).table, entry.sock = fd)
    ⟨fun h type => h type (by cases type <;> simp), fun h type _ => h type⟩

/-- A signal interrupts `select`. -/
def State.interrupt (s : State) : State :=
  match s.pc with
  | .blocked _ => s.selected ⟨-1, fun _ => []⟩
  | _ => s

/-- What the program does next, when it is not in `eloop_register_signal`. -/
def State.proceed (s : State) : Event → Option State
  | .call c =>
    match s.pc with
    | .outside => some (s.call c)
    | .handler _ => some (s.call c)
    | _ => none
  | .ret =>
    match s.pc with
    | .handler k => some { s with pc := k }
    | _ => none
  | .run memory =>
    match s.pc with
    | .outside => some (if memory then { s with pc := .top } else s)
    | _ => none
  | .step now => s.step now
  | .select result =>
    match s.pc, result with
    | .blocked _, none => some { s with pc := .outside }
    | .blocked _, some r => if r.Fits s.socks then some (s.selected r) else none
    | _, _ => none
  | _ => none

def next (s : State) : Event → Option State
  | .assign =>
    match s.pc, s.signals.growing with
    | .exited, _ => none
    | _, none => none
    | _, some (signal, _) => some { s with signals := s.signals.assign signal }
  | .signal sig =>
    match s.pc with
    | .exited => none
    | _ =>
      if s.signals.signals.any fun signal => signal.sig == sig then
        some { s with signals := s.signals.handle sig }.interrupt
      else none
  | .alarm =>
    if s.signals.alarm then some { s with pc := .exited } else none
  | e => if s.signals.growing = none then s.proceed e else none

/-- Where a handler returns to. -/
def Returns : Pc → Prop
  | .pending _ (.entry _) | .sockets _ | .called _ _ _ => True
  | _ => False

/-! ## Events -/

variable {s t : State}

theorem assign_cases (h : next s .assign = some t) :
    ∃ signal moved, s.signals.growing = some (signal, moved) ∧ s.pc ≠ .exited ∧
      t = { s with signals := s.signals.assign signal } := by
  rw [next] at h
  split at h
  · cases h
  · cases h
  · next signal moved hgrowing hpc =>
    exact ⟨signal, moved, hgrowing, hpc, (Option.some.inj h).symm⟩

/-- Within `eloop_register_signal` nothing else is done. -/
theorem proceed_cases {e : Event} (h : (if s.signals.growing = none then s.proceed e else none) =
    some t) : s.signals.growing = none ∧ s.proceed e = some t := by
  split at h
  · next hgrowing => exact ⟨hgrowing, h⟩
  · cases h

theorem call_cases {c : Call} (h : next s (.call c) = some t) :
    (s.pc = .outside ∨ ∃ k, s.pc = .handler k) ∧ t = s.call c := by
  replace h := (proceed_cases h).2
  rw [State.proceed] at h
  split at h
  · next hpc => exact ⟨Or.inl hpc, (Option.some.inj h).symm⟩
  · next k hpc => exact ⟨Or.inr ⟨k, hpc⟩, (Option.some.inj h).symm⟩
  · cases h

theorem ret_cases (h : next s .ret = some t) : ∃ k, s.pc = .handler k ∧ t = { s with pc := k } := by
  replace h := (proceed_cases h).2
  rw [State.proceed] at h
  split at h
  · next k hpc => exact ⟨k, hpc, (Option.some.inj h).symm⟩
  · cases h

theorem run_cases {memory : Bool} (h : next s (.run memory) = some t) :
    s.pc = .outside ∧ (memory = false ∧ t = s ∨ memory = true ∧ t = { s with pc := .top }) := by
  replace h := (proceed_cases h).2
  rw [State.proceed] at h
  split at h
  · next hpc =>
    rw [← Option.some.inj h]
    cases memory with
    | false => exact ⟨hpc, Or.inl ⟨rfl, rfl⟩⟩
    | true => exact ⟨hpc, Or.inr ⟨rfl, rfl⟩⟩
  · cases h

theorem step_cases {now : Reltime} (h : next s (.step now) = some t) : s.step now = some t :=
  (proceed_cases h).2

theorem select_cases {result : Option Result} (h : next s (.select result) = some t) :
    ∃ tv, s.pc = .blocked tv ∧ (result = none ∧ t = { s with pc := .outside } ∨
      ∃ r, result = some r ∧ r.Fits s.socks ∧ t = s.selected r) := by
  replace h := (proceed_cases h).2
  unfold State.proceed at h
  dsimp only at h
  split at h
  · next tv hpc => exact ⟨tv, hpc, Or.inl ⟨rfl, (Option.some.inj h).symm⟩⟩
  · next tv r hpc =>
    split at h
    · next hfits => exact ⟨tv, hpc, Or.inr ⟨r, rfl, hfits, (Option.some.inj h).symm⟩⟩
    · cases h
  · cases h

theorem signal_cases {sig : Nat} (h : next s (.signal sig) = some t) :
    (s.signals.signals.any fun signal => signal.sig == sig) = true ∧
      t = State.interrupt { s with signals := s.signals.handle sig } := by
  rw [next] at h
  split at h
  · cases h
  · split at h
    · next hany => exact ⟨hany, (Option.some.inj h).symm⟩
    · cases h

theorem alarm_cases (h : next s .alarm = some t) :
    s.signals.alarm = true ∧ t = { s with pc := .exited } := by
  rw [next] at h
  split at h
  · next halarm => exact ⟨halarm, (Option.some.inj h).symm⟩
  · cases h

/-! ## Steps -/

/-- A step of `eloop_run` outside of handlers and of `select`, by its place. -/
inductive LoopStep (s : State) (now : Reltime) : State → Prop where
  | enter (hpc : s.pc = .top) (hbusy : s.busy = true) :
    LoopStep s now { s with
      pc := if s.signals.pendingTerminate then .pending .top .check else .prepare }
  | leave (hpc : s.pc = .top) (hbusy : s.busy = false) : LoopStep s now s.leave
  | scan (k : After) (scan : Scan) (hpc : s.pc = .pending k scan) : LoopStep s now (s.scan k scan)
  | sleep (hpc : s.pc = .prepare) (hnil : s.timers.timeout = []) :
    LoopStep s now { s with pc := .blocked none }
  | sleepUntil (timeout : Timeout) (list : List Timeout) (hpc : s.pc = .prepare)
    (hlist : s.timers.timeout = timeout :: list) :
    LoopStep s now { s with
      pc := .blocked (some (if now.before timeout.time then timeout.time.sub now else ⟨0, 0⟩)) }
  | wait (r : Result) (hpc : s.pc = .timers r)
    (hearly : ∀ timeout ∈ s.timers.timeout.head?, now.before timeout.time = true) :
    LoopStep s now { s with pc := .sockets r }
  | fire (r : Result) (timeout : Timeout) (list : List Timeout) (hpc : s.pc = .timers r)
    (hlist : s.timers.timeout = timeout :: list) (hdue : now.before timeout.time = false) :
    LoopStep s now { s with
      pc := .handler (.sockets r),
      timers := { s.timers with
        timeout := list, fired := ⟨timeout, now, list⟩ :: s.timers.fired } }
  | skip (r : Result) (hpc : s.pc = .sockets r) (hskip : r.res ≤ 0 ∨ s.socks.changed = true) :
    LoopStep s now { s with pc := .top }
  | dispatch (r : Result) (hpc : s.pc = .sockets r)
    (hready : ¬ (r.res ≤ 0 ∨ s.socks.changed = true)) :
    LoopStep s now { s with pc := .dispatch .read 0 r, socks := s.socks.begin .read }
  | call (type : EventType) (i : Nat) (r : Result) (entry : Sock) (hpc : s.pc = .dispatch type i r)
    (hentry : (s.socks.tables type).table[i]? = some entry) (hready : entry.sock ∈ r.fds type) :
    LoopStep s now { s with
      pc := .handler (.called type i r),
      socks := { s.socks with
        calls := ⟨type, entry, r.fds type, s.socks.selected type, s.socks.touched type⟩ ::
          s.socks.calls } }
  | pass (type : EventType) (i : Nat) (r : Result) (entry : Sock) (hpc : s.pc = .dispatch type i r)
    (hentry : (s.socks.tables type).table[i]? = some entry) (hready : entry.sock ∉ r.fds type) :
    LoopStep s now { s with pc := .dispatch type (i + 1) r }
  | back (type : EventType) (i : Nat) (r : Result) (hpc : s.pc = .called type i r)
    (hunchanged : (s.socks.tables type).changed = false) :
    LoopStep s now { s with pc := .dispatch type (i + 1) r }
  | tableEnd (type : EventType) (i : Nat) (r : Result) (hpc : s.pc = .dispatch type i r)
    (hend : (s.socks.tables type).table[i]? = none) : LoopStep s now (s.dispatchNext type r)
  | tableChanged (type : EventType) (i : Nat) (r : Result) (hpc : s.pc = .called type i r)
    (hchanged : (s.socks.tables type).changed = true) : LoopStep s now (s.dispatchNext type r)

theorem loopStep_cases {now : Reltime} (h : s.step now = some t) : LoopStep s now t := by
  rw [State.step] at h
  split at h
  · next hpc =>
    split at h
    · next hbusy => exact Option.some.inj h ▸ .enter hpc hbusy
    · next hbusy => exact Option.some.inj h ▸ .leave hpc (Bool.eq_false_iff.mpr hbusy)
  · next k scan hpc => exact Option.some.inj h ▸ .scan k scan hpc
  · next hpc =>
    split at h
    · next hnil => exact Option.some.inj h ▸ .sleep hpc hnil
    · next timeout list hlist => exact Option.some.inj h ▸ .sleepUntil timeout list hpc hlist
  · next r hpc =>
    split at h
    · next hnil => exact Option.some.inj h ▸ .wait r hpc (by simp [hnil])
    · next timeout list hlist =>
      split at h
      · next hearly => exact Option.some.inj h ▸ .wait r hpc (by simpa [hlist] using hearly)
      · next hdue =>
        exact Option.some.inj h ▸ .fire r timeout list hpc hlist (Bool.eq_false_iff.mpr hdue)
  · next r hpc =>
    split at h
    · next hskip => exact Option.some.inj h ▸ .skip r hpc hskip
    · next hready => exact Option.some.inj h ▸ .dispatch r hpc hready
  · next type i r hpc =>
    split at h
    · next hend => exact Option.some.inj h ▸ .tableEnd type i r hpc hend
    · next entry hentry =>
      split at h
      · next hready => exact Option.some.inj h ▸ .call type i r entry hpc hentry hready
      · next hready => exact Option.some.inj h ▸ .pass type i r entry hpc hentry hready
  · next type i r hpc =>
    split at h
    · next hchanged => exact Option.some.inj h ▸ .tableChanged type i r hpc hchanged
    · next hunchanged =>
      exact Option.some.inj h ▸ .back type i r hpc (Bool.eq_false_iff.mpr hunchanged)
  · cases h

/-- A step of the scan ends it, or leaves all but the place and the signals alone. -/
theorem scan_cases {k : After} {scan : Scan} (hpc : s.pc = .pending k scan) :
    s.scan k scan = s.resume k ∨ ∃ pc signals, s.scan k scan = { s with pc, signals } ∧
      ((∃ other, pc = .pending k other) ∨ ∃ i, pc = .handler (.pending k (.entry i))) := by
  cases scan with
  | check =>
    rw [State.scan]
    split
    · exact Or.inl rfl
    · exact Or.inr ⟨_, _, rfl, Or.inl ⟨_, rfl⟩⟩
  | clear => exact Or.inr ⟨_, _, rfl, Or.inl ⟨_, rfl⟩⟩
  | disarm =>
    rw [State.scan]
    split
    · exact Or.inr ⟨_, _, rfl, Or.inl ⟨_, rfl⟩⟩
    · exact Or.inr ⟨_, _, rfl, Or.inl ⟨_, rfl⟩⟩
  | unpend => exact Or.inr ⟨_, _, rfl, Or.inl ⟨_, rfl⟩⟩
  | entry i =>
    rw [State.scan]
    split
    · exact Or.inl rfl
    · split
      · exact Or.inr ⟨_, _, rfl, Or.inl ⟨_, rfl⟩⟩
      · exact Or.inr ⟨_, _, rfl, Or.inl ⟨_, rfl⟩⟩
  | take i =>
    rw [State.scan]
    split
    · exact Or.inr ⟨s.pc, s.signals, rfl, Or.inl ⟨_, hpc⟩⟩
    · exact Or.inr ⟨_, _, rfl, Or.inr ⟨_, rfl⟩⟩

end Eloop
end LinuxPrograming

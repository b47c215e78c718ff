import LinuxPrograming.Gateway.Handoff
import LinuxPrograming.Gateway.OsListSteps
import LinuxPrograming.Lib.Mutex

/-!
# The three threads at the level of locks and nodes

`list_push` of `connection_mgr` and the hand-off sections of `data_mgr` and `storage_mgr`,
with `cnt_mutex`, `list->mutex` and `data_available`.  One event is one lock operation, one
access to a node, or one access to other shared data.  `calloc` never returns an address a
second time, so that a pointer to a freed node stays recognisable.

`sen_lock` is left out: it is locked for reading only.
-/

namespace LinuxPrograming
namespace Gateway
namespace Threads

open Lib
open Handoff (Who Node Payload)

/-- The threads. -/
inductive Thread where
  | conn
  | mgr (w : Who)
  deriving DecidableEq, Repr

/-- Where `connection_mgr` is: before `recv`, `mutex_lock(&list->mutex)`, `if(list_full(list))` or
`calloc`, behind `calloc` (at `done`, before `cond_broadcast`), or before
`mutex_unlock(&list->mutex)`. -/
inductive ConnPc where
  | idle
  | lock
  | full
  | calloc
  | push (k : PushPc Node)
  | unlock

/-- Where a manager is.  In `list_get_data_first_node` it stands before
`mutex_lock(&list->mutex)`, before `first = list->first_node, !first`, before `cond_wait`, in it
and not notified, in it and about to lock again, before the unlock, or before
`return first->data`.  At `lockRemove` and in `remove` it is in `list_remove_first_node`.  The
other places are those of `data_mgr` and `storage_mgr`: `mutex_lock(&shared_data->cnt_mutex)`,
`strcmp(msg, old_msg)`, the unlock in front of `continue`, `strcpy(old_msg, msg)`, `cnt++`,
`if(cnt == 2)`, the unlock in front of `msg_parse`, and `msg_parse(&parsed, msg, senIDs)`. -/
inductive MgrPc where
  | lockCnt
  | lockGet
  | first
  | condWait
  | waiting
  | woken
  | unlockGet (first : Nat)
  | read (first : Nat)
  | cmp (n : Node)
  | skip
  | copy (n : Node)
  | count (n : Node)
  | test (msg : Option Node)
  | lockRemove (msg : Option Node)
  | remove (k : RemovePc) (msg : Option Node)
  | release (msg : Option Node)
  | parse (msg : Option Node)

/-- A manager: where it is, and its `old_msg`. -/
structure Mgr where
  pc : MgrPc
  oldMsg : Bytes

/-- The shared data and the threads.  `allocs` is the next address that `calloc` returns. -/
structure State where
  buf : Bytes
  list : OsList (Option Node)
  mutex : Option Thread
  cntMutex : Option Who
  cnt : Nat
  allocs : Nat
  conn : ConnPc
  mgr : Who → Mgr

inductive Event where
  /-- `recv` returns some bytes. -/
  | recv (bs : Bytes)
  /-- The next step of `list_push`, whose `calloc` may fail. -/
  | conn (alloc : Bool)
  /-- The next step of a manager. -/
  | mgr (w : Who)
  /-- A spurious wake-up. -/
  | wake (w : Who)
  deriving DecidableEq, Repr

/-- The start of the threads. -/
def start (size : Nat) (buf : Bytes) : State where
  buf := buf
  list := listCreate size
  mutex := none
  cntMutex := none
  cnt := 0
  allocs := 0
  conn := .idle
  mgr _ := ⟨.lockCnt, []⟩

def State.setMgr (s : State) (w : Who) (m : Mgr) : State :=
  { s with mgr := fun v => if v = w then m else s.mgr v }

/-- A manager that is parked in `cond_wait` is notified. -/
def Mgr.notify (m : Mgr) : Mgr :=
  match m.pc with
  | .waiting => { m with pc := .woken }
  | _ => m

/-- One step of `list_push(shared_data, buf)`. -/
def connStep (p : Payload) (s : State) (alloc : Bool) : Option (Checked State) :=
  match s.conn with
  | .idle => none
  | .lock =>
    if s.mutex = none then some (pure { s with mutex := some .conn, conn := .full }) else none
  | .full => some (pure { s with conn := if listFull s.list then .unlock else .calloc })
  | .calloc =>
    if alloc then
      some (pure { s with
        list := { s.list with heap := s.list.heap.set s.allocs zeroNode }
        allocs := s.allocs + 1
        conn := .push (.data s.allocs ⟨s.allocs, p.str s.buf⟩) })
    else some (pure { s with conn := .unlock })
  | .push .done => some (pure { s with mgr := fun w => (s.mgr w).notify, conn := .unlock })
  | .push k => some do
    let (k, l) ← pushAct k s.list
    pure { s with list := l, conn := .push k }
  | .unlock => some (pure { s with mutex := none, conn := .idle })

/-- One step of the loop of `data_mgr` or `storage_mgr`. -/
def mgrStep (p : Payload) (s : State) (w : Who) : Option (Checked State) :=
  let m := s.mgr w
  match m.pc with
  | .lockCnt =>
    if s.cntMutex = none then
      some (pure ({ s with cntMutex := some w }.setMgr w { m with pc := .lockGet }))
    else none
  | .lockGet =>
    if s.mutex = none then
      some (pure ({ s with mutex := some (.mgr w) }.setMgr w { m with pc := .first }))
    else none
  | .first =>
    match s.list.firstNode with
    | none => some (pure (s.setMgr w { m with pc := .condWait }))
    | some first => some (pure (s.setMgr w { m with pc := .unlockGet first }))
  | .condWait => some (pure ({ s with mutex := none }.setMgr w { m with pc := .waiting }))
  | .waiting => none
  | .woken =>
    if s.mutex = none then
      some (pure ({ s with mutex := some (.mgr w) }.setMgr w { m with pc := .first }))
    else none
  | .unlockGet first =>
    some (pure ({ s with mutex := none }.setMgr w { m with pc := .read first }))
  | .read first => some do
    let node ← s.list.load (some first)
    match node.data with
    | none => pure (s.setMgr w { m with pc := .test none })
    | some n => pure (s.setMgr w { m with pc := .cmp n })
  | .cmp n =>
    if p.deref s.buf n = m.oldMsg then some (pure (s.setMgr w { m with pc := .skip }))
    else some (pure (s.setMgr w { m with pc := .copy n }))
  | .skip => some (pure ({ s with cntMutex := none }.setMgr w { m with pc := .lockCnt }))
  | .copy n => some (pure (s.setMgr w ⟨.count n, p.deref s.buf n⟩))
  | .count n =>
    some (pure ({ s with cnt := s.cnt + 1 }.setMgr w { m with pc := .test (some n) }))
  | .test msg =>
    if s.cnt = 2 then
      some (pure ({ s with cnt := 0 }.setMgr w { m with pc := .lockRemove msg }))
    else some (pure (s.setMgr w { m with pc := .release msg }))
  | .lockRemove msg =>
    if s.mutex = none then
      some (pure ({ s with mutex := some (.mgr w) }.setMgr w { m with pc := .remove .empty msg }))
    else none
  | .remove .done msg =>
    some (pure ({ s with mutex := none }.setMgr w { m with pc := .release msg }))
  | .remove k msg => some do
    let (k, l) ← removeAct k s.list
    pure ({ s with list := l }.setMgr w { m with pc := .remove k msg })
  | .release msg => some (pure ({ s with cntMutex := none }.setMgr w { m with pc := .parse msg }))
  | .parse _ => some (pure (s.setMgr w { m with pc := .lockCnt }))

/-- A step of the gateway: `none` when the thread cannot take it, and a fault when it
touches a node that is not allocated. -/
def next (p : Payload) (s : State) : Event → Option (Checked State)
  | .recv bs =>
    match s.conn with
    | .idle => some (pure { s with buf := p.recv s.buf bs, conn := .lock })
    | _ => none
  | .conn alloc => connStep p s alloc
  | .mgr w => mgrStep p s w
  | .wake w =>
    match (s.mgr w).pc with
    | .waiting => some (pure (s.setMgr w (s.mgr w).notify))
    | _ => none

/-- The steps without a fault, which runs are made of. -/
def advance (p : Payload) (s : State) (e : Event) : Option State :=
  (next p s e).bind Except.toOption

/-! ## What the steps do -/

section

variable (s : State) (w : Who) (m : Mgr)

@[simp] theorem setMgr_mgr_self : (s.setMgr w m).mgr w = m := if_pos rfl

theorem setMgr_mgr_of_ne {w v : Who} (h : v ≠ w) : (s.setMgr w m).mgr v = s.mgr v := if_neg h

@[simp] theorem setMgr_list : (s.setMgr w m).list = s.list := rfl

@[simp] theorem setMgr_mutex : (s.setMgr w m).mutex = s.mutex := rfl

@[simp] theorem setMgr_cntMutex : (s.setMgr w m).cntMutex = s.cntMutex := rfl

@[simp] theorem setMgr_allocs : (s.setMgr w m).allocs = s.allocs := rfl

@[simp] theorem setMgr_conn : (s.setMgr w m).conn = s.conn := rfl

end

/-- The steps of `list_push`, by the place it is at. -/
inductive ConnStep (p : Payload) (s : State) : State → Prop where
  | lock (hpc : s.conn = .lock) (hfree : s.mutex = none) :
    ConnStep p s { s with mutex := some .conn, conn := .full }
  | full (hpc : s.conn = .full) (hfull : listFull s.list) :
    ConnStep p s { s with conn := .unlock }
  | room (hpc : s.conn = .full) (hfull : ¬ listFull s.list) :
    ConnStep p s { s with conn := .calloc }
  | calloc (hpc : s.conn = .calloc) :
    ConnStep p s { s with
      list := { s.list with heap := s.list.heap.set s.allocs zeroNode }
      allocs := s.allocs + 1
      conn := .push (.data s.allocs ⟨s.allocs, p.str s.buf⟩) }
  | fail (hpc : s.conn = .calloc) : ConnStep p s { s with conn := .unlock }
  | push (k k' : PushPc Node) (l : OsList (Option Node)) (hpc : s.conn = .push k)
    (hk : k ≠ .done) (hact : pushAct k s.list = .ok (k', l)) :
    ConnStep p s { s with list := l, conn := .push k' }
  | broadcast (hpc : s.conn = .push .done) :
    ConnStep p s { s with mgr := fun w => (s.mgr w).notify, conn := .unlock }
  | unlock (hpc : s.conn = .unlock) : ConnStep p s { s with mutex := none, conn := .idle }

/-- The steps of a manager, by the place it is at. -/
inductive MgrStep (p : Payload) (s : State) (w : Who) : State → Prop where
  | lockCnt (hpc : (s.mgr w).pc = .lockCnt) (hfree : s.cntMutex = none) :
    MgrStep p s w ({ s with cntMutex := some w }.setMgr w { s.mgr w with pc := .lockGet })
  | lockGet (hpc : (s.mgr w).pc = .lockGet) (hfree : s.mutex = none) :
    MgrStep p s w ({ s with mutex := some (.mgr w) }.setMgr w { s.mgr w with pc := .first })
  | noNode (hpc : (s.mgr w).pc = .first) (hfirst : s.list.firstNode = none) :
    MgrStep p s w (s.setMgr w { s.mgr w with pc := .condWait })
  | node (a : Nat) (hpc : (s.mgr w).pc = .first) (hfirst : s.list.firstNode = some a) :
    MgrStep p s w (s.setMgr w { s.mgr w with pc := .unlockGet a })
  | condWait (hpc : (s.mgr w).pc = .condWait) :
    MgrStep p s w ({ s with mutex := none }.setMgr w { s.mgr w with pc := .waiting })
  | woken (hpc : (s.mgr w).pc = .woken) (hfree : s.mutex = none) :
    MgrStep p s w ({ s with mutex := some (.mgr w) }.setMgr w { s.mgr w with pc := .first })
  | unlockGet (a : Nat) (hpc : (s.mgr w).pc = .unlockGet a) :
    MgrStep p s w ({ s with mutex := none }.setMgr w { s.mgr w with pc := .read a })
  | readNull (a : Nat) (hpc : (s.mgr w).pc = .read a) (hdata : s.list.dataOf a = some none) :
    MgrStep p s w (s.setMgr w { s.mgr w with pc := .test none })
  | read (a : Nat) (n : Node) (hpc : (s.mgr w).pc = .read a)
    (hdata : s.list.dataOf a = some (some n)) :
    MgrStep p s w (s.setMgr w { s.mgr w with pc := .cmp n })
  | equal (n : Node) (hpc : (s.mgr w).pc = .cmp n) (hmsg : p.deref s.buf n = (s.mgr w).oldMsg) :
    MgrStep p s w (s.setMgr w { s.mgr w with pc := .skip })
  | differ (n : Node) (hpc : (s.mgr w).pc = .cmp n) (hmsg : p.deref s.buf n ≠ (s.mgr w).oldMsg) :
    MgrStep p s w (s.setMgr w { s.mgr w with pc := .copy n })
  | skip (hpc : (s.mgr w).pc = .skip) :
    MgrStep p s w ({ s with cntMutex := none }.setMgr w { s.mgr w with pc := .lockCnt })
  | copy (n : Node) (hpc : (s.mgr w).pc = .copy n) :
    MgrStep p s w (s.setMgr w ⟨.count n, p.deref s.buf n⟩)
  | count (n : Node) (hpc : (s.mgr w).pc = .count n) :
    MgrStep p s w ({ s with cnt := s.cnt + 1 }.setMgr w { s.mgr w with pc := .test (some n) })
  | two (msg : Option Node) (hpc : (s.mgr w).pc = .test msg) (hcnt : s.cnt = 2) :
    MgrStep p s w ({ s with cnt := 0 }.setMgr w { s.mgr w with pc := .lockRemove msg })
  | one (msg : Option Node) (hpc : (s.mgr w).pc = .test msg) (hcnt : s.cnt ≠ 2) :
    MgrStep p s w (s.setMgr w { s.mgr w with pc := .release msg })
  | lockRemove (msg : Option Node) (hpc : (s.mgr w).pc = .lockRemove msg)
    (hfree : s.mutex = none) :
    MgrStep p s w ({ s with mutex := some (.mgr w) }.setMgr w
      { s.mgr w with pc := .remove .empty msg })
  | remove (k k' : RemovePc) (l : OsList (Option Node)) (msg : Option Node)
    (hpc : (s.mgr w).pc = .remove k msg) (hk : k ≠ .done)
    (hact : removeAct k s.list = .ok (k', l)) :
    MgrStep p s w ({ s with list := l }.setMgr w { s.mgr w with pc := .remove k' msg })
  | unlockRemove (msg : Option Node) (hpc : (s.mgr w).pc = .remove .done msg) :
    MgrStep p s w ({ s with mutex := none }.setMgr w { s.mgr w with pc := .release msg })
  | release (msg : Option Node) (hpc : (s.mgr w).pc = .release msg) :
    MgrStep p s w ({ s with cntMutex := none }.setMgr w { s.mgr w with pc := .parse msg })
  | parse (msg : Option Node) (hpc : (s.mgr w).pc = .parse msg) :
    MgrStep p s w (s.setMgr w { s.mgr w with pc := .lockCnt })

variable {p : Payload} {s t : State}

theorem connStep_cases {alloc : Bool} (h : connStep p s alloc = some (.ok t)) :
    ConnStep p s t := by
  unfold connStep at h
  split at h
  case h_1 => exact absurd h (by simp)
  case h_2 hpc =>
    split at h
    · next hfree => exact Except.ok.inj (Option.some.inj h) ▸ .lock hpc hfree
    · exact absurd h (by simp)
  case h_3 hpc =>
    obtain rfl := Except.ok.inj (Option.some.inj h)
    split
    · next hfull => exact .full hpc hfull
    · next hfull => exact .room hpc hfull
  case h_4 hpc =>
    split at h
    · exact Except.ok.inj (Option.some.inj h) ▸ .calloc hpc
    · exact Except.ok.inj (Option.some.inj h) ▸ .fail hpc
  case h_5 hpc => exact Except.ok.inj (Option.some.inj h) ▸ .broadcast hpc
  case h_6 k hk hpc =>
    obtain ⟨⟨k', l⟩, hact, ht⟩ := bind_eq_ok.mp (Option.some.inj h)
    exact Except.ok.inj ht ▸ .push k k' l hpc hk hact
  case h_7 hpc => exact Except.ok.inj (Option.some.inj h) ▸ .unlock hpc

theorem mgrStep_cases {w : Who} (h : mgrStep p s w = some (.ok t)) : MgrStep p s w t := by
  unfold mgrStep at h
  dsimp only at h
  split at h
  case h_1 hpc =>
    split at h
    · next hfree => exact Except.ok.inj (Option.some.inj h) ▸ .lockCnt hpc hfree
    · exact absurd h (by simp)
  case h_2 hpc =>
    split at h
    · next hfree => exact Except.ok.inj (Option.some.inj h) ▸ .lockGet hpc hfree
    · exact absurd h (by simp)
  case h_3 hpc =>
    split at h
    · next hfirst => exact Except.ok.inj (Option.some.inj h) ▸ .noNode hpc hfirst
    · next a hfirst => exact Except.ok.inj (Option.some.inj h) ▸ .node a hpc hfirst
  case h_4 hpc => exact Except.ok.inj (Option.some.inj h) ▸ .condWait hpc
  case h_5 => exact absurd h (by simp)
  case h_6 hpc =>
    split at h
    · next hfree => exact Except.ok.inj (Option.some.inj h) ▸ .woken hpc hfree
    · exact absurd h (by simp)
  case h_7 a hpc => exact Except.ok.inj (Option.some.inj h) ▸ .unlockGet a hpc
  case h_8 a hpc =>
    obtain ⟨node, hnode, ht⟩ := bind_eq_ok.mp (Option.some.inj h)
    have hdata := OsList.dataOf_of_load hnode
    split at ht
    · next hnull => exact Except.ok.inj ht ▸ .readNull a hpc (hnull ▸ hdata)
    · next n hn => exact Except.ok.inj ht ▸ .read a n hpc (hn ▸ hdata)
  case h_9 n hpc =>
    split at h
    · next hmsg => exact Except.ok.inj (Option.some.inj h) ▸ .equal n hpc hmsg
    · next hmsg => exact Except.ok.inj (Option.some.inj h) ▸ .differ n hpc hmsg
  case h_10 hpc => exact Except.ok.inj (Option.some.inj h) ▸ .skip hpc
  case h_11 n hpc => exact Except.ok.inj (Option.some.inj h) ▸ .copy n hpc
  case h_12 n hpc => exact Except.ok.inj (Option.some.inj h) ▸ .count n hpc
  case h_13 msg hpc =>
    split at h
    · next hcnt => exact Except.ok.inj (Option.some.inj h) ▸ .two msg hpc hcnt
    · next hcnt => exact Except.ok.inj (Option.some.inj h) ▸ .one msg hpc hcnt
  case h_14 msg hpc =>
    split at h
    · next hfree => exact Except.ok.inj (Option.some.inj h) ▸ .lockRemove msg hpc hfree
    · exact absurd h (by simp)
  case h_15 msg hpc => exact Except.ok.inj (Option.some.inj h) ▸ .unlockRemove msg hpc
  case h_16 k msg hk hpc =>
    obtain ⟨⟨k', l⟩, hact, ht⟩ := bind_eq_ok.mp (Option.some.inj h)
    exact Except.ok.inj ht ▸ .remove k k' l msg hpc hk hact
  case h_17 msg hpc => exact Except.ok.inj (Option.some.inj h) ▸ .release msg hpc
  case h_18 msg hpc => exact Except.ok.inj (Option.some.inj h) ▸ .parse msg hpc

end Threads
end Gateway
end LinuxPrograming

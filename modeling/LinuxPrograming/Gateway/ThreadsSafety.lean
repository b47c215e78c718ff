import LinuxPrograming.Gateway.Threads

/-!
# Safety of the threads

Each lock belongs to the one thread inside its section, and an operation under `list->mutex`
settles in a well-formed list.  `first->data` is read behind the unlock of `list->mutex`, but
`cnt_mutex` is still held there, and only its owner removes nodes.
-/

namespace LinuxPrograming
namespace Gateway
namespace Threads

open Lib
open Handoff (Who Node Payload)

/-! ## The invariant -/

/-- Between the lock and the unlock of `list->mutex`. -/
def ConnPc.InList : ConnPc → Prop
  | .idle | .lock => False
  | _ => True

def MgrPc.InList : MgrPc → Prop
  | .first | .condWait | .unlockGet _ | .remove _ _ => True
  | _ => False

/-- Between the lock and the unlock of `cnt_mutex`, which `cond_wait` does not release. -/
def MgrPc.InCnt : MgrPc → Prop
  | .lockCnt | .parse _ => False
  | _ => True

/-- The operation on the list that the thread is in the middle of. -/
def ConnPc.op : ConnPc → ListPc Node
  | .push k => .push k
  | _ => .idle

def MgrPc.op : MgrPc → ListPc Node
  | .remove k _ => .remove k
  | _ => .idle

/-- What a thread knows about the list at its place. -/
def ConnPc.Knows (l : OsList (Option Node)) : ConnPc → Prop
  | .calloc => ¬ listFull l
  | _ => True

def MgrPc.Knows (l : OsList (Option Node)) (conn : ConnPc) : MgrPc → Prop
  | .condWait => l.firstNode = none
  -- Until it is notified, the first node is there only while a push goes on.
  | .waiting => l.firstNode = none ∨ ∃ k, conn = .push k
  | .unlockGet a | .read a => l.heap.get a ≠ none
  | _ => True

def State.InList (s : State) : Thread → Prop
  | .conn => s.conn.InList
  | .mgr w => (s.mgr w).pc.InList

def State.InCnt (s : State) (w : Who) : Prop := (s.mgr w).pc.InCnt

def State.op (s : State) : ListPc Node :=
  match s.mutex with
  | none => .idle
  | some .conn => s.conn.op
  | some (.mgr w) => (s.mgr w).pc.op

structure Inv (s : State) : Prop where
  mutex : Owned s.mutex s.InList
  cntMutex : Owned s.cntMutex s.InCnt
  settled : ∃ q, Settles s.op s.list q
  fresh : ∀ a, s.list.heap.get a ≠ none → a < s.allocs
  room : s.conn.Knows s.list
  knows : ∀ w, (s.mgr w).pc.Knows s.list s.conn

variable {p : Payload} {s t : State} {w v : Who} {m : Mgr}

theorem MgrPc.InList.inCnt {k : MgrPc} (h : k.InList) : k.InCnt := by
  cases k
  case lockCnt | parse => exact h.elim
  all_goals exact trivial

theorem ConnPc.knows_of_not_inList {k : ConnPc} (h : ¬ k.InList) (l : OsList (Option Node)) :
    k.Knows l := by
  cases k
  case calloc => exact absurd trivial h
  all_goals exact trivial

theorem MgrPc.knows_of_not_inCnt {k : MgrPc} (h : ¬ k.InCnt) (l : OsList (Option Node))
    (conn : ConnPc) : k.Knows l conn := by
  cases k
  case lockCnt | parse => exact trivial
  all_goals exact absurd trivial h

theorem MgrPc.Knows.of_not_push {k : MgrPc} {l : OsList (Option Node)} {conn : ConnPc}
    (h : k.Knows l conn) (hconn : ∀ j, conn ≠ .push j) (conn' : ConnPc) : k.Knows l conn' := by
  cases k
  case waiting => exact .inl (h.resolve_right fun ⟨j, hj⟩ => hconn j hj)
  all_goals exact h

/-- A push frees no node, and wakes the waiting managers later. -/
theorem MgrPc.Knows.push {k : MgrPc} {l l' : OsList (Option Node)} {conn : ConnPc}
    (h : k.Knows l conn) (hk : ¬ k.InList)
    (hlive : ∀ a, l.heap.get a ≠ none → l'.heap.get a ≠ none) (j : PushPc Node) :
    k.Knows l' (.push j) := by
  cases k
  case condWait | unlockGet => exact absurd trivial hk
  case waiting => exact .inr ⟨j, rfl⟩
  case read a => exact hlive a h
  all_goals exact trivial

theorem MgrPc.Knows.notify {k : MgrPc} {l : OsList (Option Node)} {conn : ConnPc} {oldMsg : Bytes}
    (h : k.Knows l conn) (conn' : ConnPc) : (Mgr.notify ⟨k, oldMsg⟩).pc.Knows l conn' := by
  cases k
  case waiting => exact trivial
  all_goals exact h

theorem Mgr.notify_inList (m : Mgr) : m.notify.pc.InList ↔ m.pc.InList := by
  obtain ⟨k, oldMsg⟩ := m
  cases k
  all_goals exact Iff.rfl

theorem Mgr.notify_inCnt (m : Mgr) : m.notify.pc.InCnt ↔ m.pc.InCnt := by
  obtain ⟨k, oldMsg⟩ := m
  cases k
  all_goals exact Iff.rfl

theorem inList_setConn {k : ConnPc} {u : Thread} (h : u ≠ .conn) :
    { s with conn := k }.InList u ↔ s.InList u := by
  cases u with
  | conn => exact absurd rfl h
  | mgr v => exact Iff.rfl

theorem inList_setMgr {u : Thread} (h : u ≠ .mgr w) :
    (s.setMgr w m).InList u ↔ s.InList u := by
  cases u with
  | conn => exact Iff.rfl
  | mgr v =>
    have hv : v ≠ w := fun e => h (congrArg Thread.mgr e)
    rw [State.InList, State.InList, setMgr_mgr_of_ne s m hv]

theorem inCnt_setMgr (h : v ≠ w) : (s.setMgr w m).InCnt v ↔ s.InCnt v := by
  rw [State.InCnt, State.InCnt, setMgr_mgr_of_ne s m h]

theorem op_setConn {k : ConnPc} (h : k.op = s.conn.op) : { s with conn := k }.op = s.op := by
  simp only [State.op]
  split
  · rfl
  · exact h
  · rfl

theorem op_setMgr (h : m.pc.op = (s.mgr w).pc.op) : (s.setMgr w m).op = s.op := by
  simp only [State.op, setMgr_mutex, setMgr_conn]
  split
  · rfl
  · rfl
  · next v _ =>
    by_cases hv : v = w
    · rw [hv, setMgr_mgr_self, h]
    · rw [setMgr_mgr_of_ne s m hv]

theorem op_lock (s : State) (w : Who) (m : Mgr) :
    ({ s with mutex := some (.mgr w) }.setMgr w m).op = m.pc.op := by
  rw [State.op, setMgr_mutex]
  dsimp only
  rw [setMgr_mgr_self]

theorem op_of_free (h : s.mutex = none) : s.op = .idle := by
  rw [State.op, h]

namespace Inv

theorem rep (h : Inv s) (hop : s.op.Done) : ∃ ps q, s.list.Rep ps q := by
  obtain ⟨q, hq⟩ := h.settled
  obtain ⟨ps, hps⟩ := hq.rep hop
  exact ⟨ps, q, hps⟩

theorem op_conn (h : Inv s) (hin : s.conn.InList) : s.op = s.conn.op := by
  rw [State.op, (h.mutex .conn).mp hin]

theorem op_mgr (h : Inv s) (hin : (s.mgr w).pc.InList) : s.op = (s.mgr w).pc.op := by
  rw [State.op, (h.mutex (.mgr w)).mp hin]

/-- The next step of a push that is going on. -/
theorem pushAct_ok (h : Inv s) {k : PushPc Node} (hpc : s.conn = .push k) (hk : k ≠ .done)
    {q : BoundedQueue (Option Node)} (hq : Settles s.op s.list q) :
    ∃ k' l, pushAct k s.list = .ok (k', l) ∧ Settles (.push k') l q := by
  have hin : s.conn.InList := hpc ▸ trivial
  have hop : s.op = .push k := by rw [h.op_conn hin, hpc]; rfl
  rw [hop] at hq
  obtain ⟨j, l, hstep, hrest⟩ := hq.next hk
  obtain ⟨⟨k', l'⟩, hact, hstep⟩ := bind_eq_ok.mp hstep
  obtain ⟨rfl, rfl⟩ := Prod.mk.inj (Except.ok.inj hstep)
  exact ⟨k', l', hact, hrest⟩

/-- The next step of a removal that is going on. -/
theorem removeAct_ok (h : Inv s) {k : RemovePc} {msg : Option Node}
    (hpc : (s.mgr w).pc = .remove k msg) (hk : k ≠ .done)
    {q : BoundedQueue (Option Node)} (hq : Settles s.op s.list q) :
    ∃ k' l, removeAct k s.list = .ok (k', l) ∧ Settles (.remove k') l q := by
  have hin : (s.mgr w).pc.InList := hpc ▸ trivial
  have hop : s.op = .remove k := by rw [h.op_mgr hin, hpc]; rfl
  rw [hop] at hq
  obtain ⟨j, l, hstep, hrest⟩ := hq.next hk
  obtain ⟨⟨k', l'⟩, hact, hstep⟩ := bind_eq_ok.mp hstep
  obtain ⟨rfl, rfl⟩ := Prod.mk.inj (Except.ok.inj hstep)
  exact ⟨k', l', hact, hrest⟩

/-! ## Steps of a manager -/

theorem move (h : Inv s) {o : Option Thread} {c : Option Who} {n : Nat}
    (hmutex : Owned o (s.setMgr w m).InList) (hcnt : Owned c (s.setMgr w m).InCnt)
    (hsettled : ∃ q, Settles ({ s with mutex := o }.setMgr w m).op s.list q)
    (hknows : m.pc.Knows s.list s.conn) :
    Inv ({ s with mutex := o, cntMutex := c, cnt := n }.setMgr w m) where
  mutex := hmutex
  cntMutex := hcnt
  settled := hsettled
  fresh := h.fresh
  room := h.room
  knows v := by
    by_cases hv : v = w
    · rw [hv, setMgr_mgr_self]
      exact hknows
    · rw [setMgr_mgr_of_ne _ m hv]
      exact h.knows v

/-- A step that neither locks nor unlocks `list->mutex`. -/
theorem stay (h : Inv s) {k : MgrPc} {c : Option Who} {n : Nat} (hpc : (s.mgr w).pc = k)
    (hlist : m.pc.InList ↔ k.InList) (hop : m.pc.op = k.op)
    (hcnt : Owned c (s.setMgr w m).InCnt) (hknows : m.pc.Knows s.list s.conn) :
    Inv ({ s with cntMutex := c, cnt := n }.setMgr w m) := by
  subst hpc
  refine h.move (h.mutex.keep (t := .mgr w) ?_ fun u => inList_setMgr) hcnt ?_ hknows
  · rw [State.InList, setMgr_mgr_self]
    exact hlist
  · have hsame : (s.setMgr w m).op = s.op := op_setMgr hop
    exact hsame ▸ h.settled

theorem cnt_keep (h : Inv s) {k : MgrPc} (hpc : (s.mgr w).pc = k) (hin : m.pc.InCnt ↔ k.InCnt) :
    Owned s.cntMutex (s.setMgr w m).InCnt := by
  subst hpc
  refine h.cntMutex.keep (t := w) ?_ fun v => inCnt_setMgr
  rw [State.InCnt, setMgr_mgr_self]
  exact hin

theorem cnt_acquire (h : Inv s) (hfree : s.cntMutex = none) (hin : m.pc.InCnt) :
    Owned (some w) (s.setMgr w m).InCnt := by
  have hnone : Owned none s.InCnt := hfree ▸ h.cntMutex
  refine hnone.acquire ?_ fun v => inCnt_setMgr
  rw [State.InCnt, setMgr_mgr_self]
  exact hin

theorem cnt_release (h : Inv s) (hin : (s.mgr w).pc.InCnt) (hout : ¬ m.pc.InCnt) :
    Owned none (s.setMgr w m).InCnt := by
  refine h.cntMutex.release (t := w) hin ?_ fun v => inCnt_setMgr
  rw [State.InCnt, setMgr_mgr_self]
  exact hout

theorem lockList (h : Inv s) (hfree : s.mutex = none) (hin : m.pc.InList)
    (hcnt : (s.mgr w).pc.InCnt) (hknows : m.pc.Knows s.list s.conn)
    (hsettled : ∀ ps q, s.list.Rep ps q → ∃ q', Settles m.pc.op s.list q') :
    Inv ({ s with mutex := some (.mgr w) }.setMgr w m) := by
  have hnone : Owned none s.InList := hfree ▸ h.mutex
  refine h.move (hnone.acquire ?_ fun u => inList_setMgr)
    (h.cnt_keep rfl (iff_of_true hin.inCnt hcnt)) ?_ hknows
  · rw [State.InList, setMgr_mgr_self]
    exact hin
  · obtain ⟨ps, q, hrep⟩ := h.rep (op_of_free hfree ▸ trivial)
    exact op_lock s w m ▸ hsettled ps q hrep

theorem unlockList (h : Inv s) (hin : (s.mgr w).pc.InList) (hdone : (s.mgr w).pc.op.Done)
    (hout : ¬ m.pc.InList) (hcnt : m.pc.InCnt) (hknows : m.pc.Knows s.list s.conn) :
    Inv ({ s with mutex := none }.setMgr w m) := by
  refine h.move (h.mutex.release (t := .mgr w) hin ?_ fun u => inList_setMgr)
    (h.cnt_keep rfl (iff_of_true hcnt hin.inCnt)) ?_ hknows
  · rw [State.InList, setMgr_mgr_self]
    exact hout
  · obtain ⟨ps, q, hrep⟩ := h.rep (h.op_mgr hin ▸ hdone)
    exact ⟨q, settles_of_rep trivial hrep⟩

theorem remove (h : Inv s) {k k' : RemovePc} {l : OsList (Option Node)} {msg : Option Node}
    (hpc : (s.mgr w).pc = .remove k msg) (hk : k ≠ .done)
    (hact : removeAct k s.list = .ok (k', l)) (hm : m.pc = .remove k' msg) :
    Inv ({ s with list := l }.setMgr w m) where
  mutex := by
    refine h.mutex.keep (t := .mgr w) ?_ fun u => inList_setMgr
    rw [State.InList, State.InList, setMgr_mgr_self, hm, hpc]
    exact Iff.rfl
  cntMutex := h.cnt_keep hpc (by rw [hm]; exact Iff.rfl)
  settled := by
    have hin : (s.mgr w).pc.InList := hpc ▸ trivial
    have hop : ({ s with list := l }.setMgr w m).op = .remove k' := by
      rw [State.op, setMgr_mutex, (h.mutex (.mgr w)).mp hin]
      dsimp only
      rw [setMgr_mgr_self, hm]
      rfl
    obtain ⟨q, hq⟩ := h.settled
    obtain ⟨j, l', hact', hrest⟩ := h.removeAct_ok hpc hk hq
    obtain ⟨rfl, rfl⟩ := Prod.mk.inj (Except.ok.inj (hact.symm.trans hact'))
    exact ⟨q, hop ▸ hrest⟩
  fresh a ha := h.fresh a (removeAct_live hact ha)
  room := by
    refine ConnPc.knows_of_not_inList (fun hin => ?_) l
    have hsame : Thread.mgr w = .conn := h.mutex.unique (hpc ▸ trivial : (s.mgr w).pc.InList) hin
    cases hsame
  knows v := by
    by_cases hv : v = w
    · rw [hv, setMgr_mgr_self, hm]
      exact trivial
    · -- The other manager is outside, so it holds no node that could be freed.
      rw [setMgr_mgr_of_ne _ m hv]
      refine MgrPc.knows_of_not_inCnt (fun hin => hv ?_) l s.conn
      exact h.cntMutex.unique hin (hpc ▸ trivial : (s.mgr w).pc.InCnt)

/-- What is read behind the unlock of `list->mutex` is still allocated. -/
theorem first_live (h : Inv s) (hpc : (s.mgr w).pc = .first) {a : Nat}
    (hfirst : s.list.firstNode = some a) : s.list.heap.get a ≠ none := by
  have hin : (s.mgr w).pc.InList := hpc ▸ trivial
  have hop : s.op = .idle := by rw [h.op_mgr hin, hpc]; rfl
  obtain ⟨ps, q, hrep⟩ := h.rep (hop ▸ trivial)
  cases ps with
  | nil =>
    have hnone := hrep.firstNode_eq_none_iff.mpr (hrep.nil_iff.mp rfl)
    exact absurd (hfirst.symm.trans hnone) (by simp)
  | cons b bs =>
    obtain ⟨hb, node, hnode, -⟩ := hrep.head_node
    obtain rfl := Option.some.inj (hb.symm.trans hfirst)
    simp [hnode]

theorem mgrStep (h : Inv s) (hstep : MgrStep p s w t) : Inv t := by
  cases hstep with
  | lockCnt hpc hfree =>
    exact h.stay hpc Iff.rfl rfl (h.cnt_acquire hfree trivial)
      trivial
  | lockGet hpc hfree =>
    exact h.lockList hfree trivial (hpc ▸ trivial) trivial
      fun ps q hrep => ⟨q, settles_of_rep trivial hrep⟩
  | noNode hpc hfirst =>
    exact h.stay hpc Iff.rfl rfl
      (h.cnt_keep hpc Iff.rfl) hfirst
  | node a hpc hfirst =>
    exact h.stay hpc Iff.rfl rfl
      (h.cnt_keep hpc Iff.rfl) (h.first_live hpc hfirst)
  | condWait hpc =>
    have hknows := h.knows w
    rw [hpc] at hknows
    exact h.unlockList (hpc ▸ trivial) (hpc ▸ trivial) id trivial (.inl hknows)
  | woken hpc hfree =>
    exact h.lockList hfree trivial (hpc ▸ trivial) trivial
      fun ps q hrep => ⟨q, settles_of_rep trivial hrep⟩
  | unlockGet a hpc =>
    have hknows := h.knows w
    rw [hpc] at hknows
    exact h.unlockList (hpc ▸ trivial) (hpc ▸ trivial) id trivial hknows
  | lockRemove msg hpc hfree =>
    exact h.lockList hfree trivial (hpc ▸ trivial) trivial
      fun ps q hrep => ⟨_, settles_remove hrep⟩
  | remove k k' l msg hpc hk hact => exact h.remove hpc hk hact rfl
  | unlockRemove msg hpc =>
    exact h.unlockList (hpc ▸ trivial) (hpc ▸ rfl) id trivial trivial
  | skip hpc | release _ hpc =>
    exact h.stay hpc Iff.rfl rfl
      (h.cnt_release (hpc ▸ trivial) id) trivial
  | readNull _ hpc _ | read _ _ hpc _ | equal _ hpc _ | differ _ hpc _ | copy _ hpc
  | count _ hpc | two _ hpc _ | one _ hpc _ | parse _ hpc =>
    exact h.stay hpc Iff.rfl rfl
      (h.cnt_keep hpc Iff.rfl) trivial

/-! ## Steps of `list_push` -/

/-- A step that neither locks nor unlocks `list->mutex`. -/
theorem connStay (h : Inv s) {j k : ConnPc} {b : Bytes} (hpc : s.conn = j)
    (hin : k.InList ↔ j.InList) (hop : k.op = j.op) (hroom : k.Knows s.list)
    (hj : ∀ i, j ≠ .push i) : Inv { s with buf := b, conn := k } where
  mutex := by
    subst hpc
    exact h.mutex.keep (t := .conn) hin fun u => inList_setConn
  cntMutex := h.cntMutex
  settled := by
    subst hpc
    have hsame : { s with conn := k }.op = s.op := op_setConn hop
    exact hsame ▸ h.settled
  fresh := h.fresh
  room := hroom
  knows v := (h.knows v).of_not_push (hpc ▸ hj) k

theorem connLock (h : Inv s) (hpc : s.conn = .lock) (hfree : s.mutex = none) :
    Inv { s with mutex := some .conn, conn := .full } where
  mutex := by
    have hnone : Owned none s.InList := hfree ▸ h.mutex
    have hin : { s with conn := .full }.InList .conn := trivial
    exact hnone.acquire hin fun u => inList_setConn
  cntMutex := h.cntMutex
  settled := by
    obtain ⟨q, hq⟩ := h.settled
    rw [op_of_free hfree] at hq
    exact ⟨q, hq⟩
  fresh := h.fresh
  room := trivial
  knows v := (h.knows v).of_not_push (by simp [hpc]) .full

theorem connUnlock (h : Inv s) (hpc : s.conn = .unlock) :
    Inv { s with mutex := none, conn := .idle } where
  mutex := h.mutex.release (t := .conn) (hpc ▸ trivial : s.conn.InList) id
    fun u => inList_setConn
  cntMutex := h.cntMutex
  settled := by
    have hop : s.op = .idle := by rw [h.op_conn (hpc ▸ trivial), hpc]; rfl
    obtain ⟨q, hq⟩ := h.settled
    rw [hop] at hq
    exact ⟨q, hq⟩
  fresh := h.fresh
  room := trivial
  knows v := (h.knows v).of_not_push (by simp [hpc]) .idle

/-- A manager is not in the section of `list->mutex` while `list_push` is. -/
theorem not_mgr_inList (h : Inv s) (hin : s.conn.InList) (v : Who) :
    ¬ (s.mgr v).pc.InList := by
  intro hv
  have hsame : Thread.mgr v = .conn := h.mutex.unique hv hin
  cases hsame

theorem connCalloc (h : Inv s) (hpc : s.conn = .calloc) (d : Node) :
    Inv { s with
      list := { s.list with heap := s.list.heap.set s.allocs zeroNode }
      allocs := s.allocs + 1
      conn := .push (.data s.allocs d) } where
  mutex := h.mutex.keep (t := .conn) (iff_of_true trivial (hpc ▸ trivial : s.conn.InList))
    fun u => inList_setConn
  cntMutex := h.cntMutex
  settled := by
    have hin : s.conn.InList := hpc ▸ trivial
    have hop : s.op = .idle := by rw [h.op_conn hin, hpc]; rfl
    obtain ⟨ps, q, hrep⟩ := h.rep (hop ▸ trivial)
    have hroom := h.room
    rw [hpc] at hroom
    have hnew : s.list.heap.get s.allocs = none := by
      by_contra hlive
      exact Nat.lt_irrefl _ (h.fresh _ hlive)
    refine ⟨q.push (some d), ?_⟩
    rw [State.op, (h.mutex .conn).mp hin]
    exact settles_push hrep hroom hnew d
  fresh a ha := by
    by_cases heq : a = s.allocs
    · exact heq ▸ Nat.lt_succ_self a
    · dsimp only at ha
      rw [s.list.heap.get_set_of_ne heq] at ha
      exact Nat.lt_succ_of_lt (h.fresh a ha)
  room := trivial
  knows v := by
    refine (h.knows v).push (h.not_mgr_inList (hpc ▸ trivial) v) (fun a ha => ?_) _
    have hne : a ≠ s.allocs := Nat.ne_of_lt (h.fresh a ha)
    dsimp only
    rwa [s.list.heap.get_set_of_ne hne]

theorem connPush (h : Inv s) {k k' : PushPc Node} {l : OsList (Option Node)}
    (hpc : s.conn = .push k) (hk : k ≠ .done) (hact : pushAct k s.list = .ok (k', l)) :
    Inv { s with list := l, conn := .push k' } where
  mutex := h.mutex.keep (t := .conn) (iff_of_true trivial (hpc ▸ trivial : s.conn.InList))
    fun u => inList_setConn
  cntMutex := h.cntMutex
  settled := by
    have hin : s.conn.InList := hpc ▸ trivial
    obtain ⟨q, hq⟩ := h.settled
    obtain ⟨j, l', hact', hrest⟩ := h.pushAct_ok hpc hk hq
    obtain ⟨rfl, rfl⟩ := Prod.mk.inj (Except.ok.inj (hact.symm.trans hact'))
    refine ⟨q, ?_⟩
    rw [State.op, (h.mutex .conn).mp hin]
    exact hrest
  fresh a ha := h.fresh a ((pushAct_live hact a).mp ha)
  room := trivial
  knows v := (h.knows v).push (h.not_mgr_inList (hpc ▸ trivial) v)
    (fun a => (pushAct_live hact a).mpr) k'

theorem connBroadcast (h : Inv s) (hpc : s.conn = .push .done) :
    Inv { s with mgr := fun w => (s.mgr w).notify, conn := .unlock } where
  mutex := by
    have hin : s.conn.InList := hpc ▸ trivial
    refine h.mutex.keep (t := .conn) (iff_of_true trivial hin) fun u hu => ?_
    cases u with
    | conn => exact absurd rfl hu
    | mgr v => exact (s.mgr v).notify_inList
  cntMutex v := (s.mgr v).notify_inCnt.trans (h.cntMutex v)
  settled := by
    have hin : s.conn.InList := hpc ▸ trivial
    have hop : s.op = .push .done := by rw [h.op_conn hin, hpc]; rfl
    obtain ⟨ps, q, hrep⟩ := h.rep (hop ▸ rfl)
    refine ⟨q, ?_⟩
    rw [State.op, (h.mutex .conn).mp hin]
    exact settles_of_rep trivial hrep
  fresh := h.fresh
  room := trivial
  knows v := (h.knows v).notify .unlock

theorem connStep (h : Inv s) (hstep : ConnStep p s t) : Inv t := by
  cases hstep with
  | lock hpc hfree => exact h.connLock hpc hfree
  | full hpc hfull => exact h.connStay hpc Iff.rfl rfl trivial (by simp)
  | room hpc hfull => exact h.connStay hpc Iff.rfl rfl hfull (by simp)
  | calloc hpc => exact h.connCalloc hpc _
  | fail hpc => exact h.connStay hpc Iff.rfl rfl trivial (by simp)
  | push k k' l hpc hk hact => exact h.connPush hpc hk hact
  | broadcast hpc => exact h.connBroadcast hpc
  | unlock hpc => exact h.connUnlock hpc

theorem next (h : Inv s) {e : Event} (hnext : next p s e = some (.ok t)) : Inv t := by
  cases e with
  | recv bs =>
    rw [Threads.next] at hnext
    split at hnext
    · next hpc =>
      exact Except.ok.inj (Option.some.inj hnext) ▸
        h.connStay hpc Iff.rfl rfl trivial (by simp)
    · exact absurd hnext (by simp)
  | conn alloc => exact h.connStep (connStep_cases hnext)
  | mgr w => exact h.mgrStep (mgrStep_cases hnext)
  | wake w =>
    rw [Threads.next] at hnext
    split at hnext
    · next hpc =>
      obtain rfl := Except.ok.inj (Option.some.inj hnext)
      have hwoken : (s.mgr w).notify.pc = .woken := by rw [Mgr.notify, hpc]
      refine h.stay hpc ?_ ?_ (h.cnt_keep hpc ?_) ?_
      all_goals rw [hwoken]
      · exact Iff.rfl
      · rfl
      · exact Iff.rfl
      · exact trivial
    · exact absurd hnext (by simp)

end Inv

theorem start_inv (size : Nat) (buf : Bytes) : Inv (start size buf) where
  mutex := owned_none.mpr fun t => by cases t <;> exact id
  cntMutex := owned_none.mpr fun _ => id
  settled := ⟨_, settles_of_rep trivial (listCreate_rep size)⟩
  fresh a ha := absurd rfl ha
  room := trivial
  knows _ := trivial

theorem next_of_advance {e : Event} (h : advance p s e = some t) : next p s e = some (.ok t) := by
  obtain ⟨x, hx, hok⟩ := Option.bind_eq_some_iff.mp h
  cases x with
  | error f => exact absurd hok (by simp [Except.toOption])
  | ok u =>
    obtain rfl : u = t := Option.some.inj hok
    exact hx

theorem inv_of_run {size : Nat} {buf : Bytes} {es : List Event}
    (h : run (advance p) (start size buf) es = some s) : Inv s :=
  run_preserves (fun _ _ _ hs hstep => hs.next (next_of_advance hstep)) (start_inv size buf) h

/-! ## No step touches a freed node -/

section

variable {f : Fault}

theorem Inv.connStep_ne_error (h : Inv s) (alloc : Bool) :
    Threads.connStep p s alloc ≠ some (.error f) := by
  intro herr
  unfold Threads.connStep at herr
  split at herr
  case h_6 k hk hpc =>
    obtain ⟨q, hq⟩ := h.settled
    obtain ⟨k', l, hact, -⟩ := h.pushAct_ok hpc hk hq
    rw [hact] at herr
    exact absurd herr (by simp)
  case h_1 | h_5 | h_7 => exact absurd herr (by simp)
  all_goals
    split at herr
    all_goals exact absurd herr (by simp)

theorem Inv.mgrStep_ne_error (h : Inv s) (w : Who) :
    Threads.mgrStep p s w ≠ some (.error f) := by
  intro herr
  unfold Threads.mgrStep at herr
  dsimp only at herr
  split at herr
  case h_8 a hpc =>
    have hlive := h.knows w
    rw [hpc] at hlive
    obtain ⟨node, hnode⟩ := Option.ne_none_iff_exists'.mp hlive
    rw [OsList.load_some hnode, ok_bind] at herr
    split at herr
    all_goals exact absurd herr (by simp)
  case h_16 k msg hk hpc =>
    obtain ⟨q, hq⟩ := h.settled
    obtain ⟨k', l, hact, -⟩ := h.removeAct_ok hpc hk hq
    rw [hact] at herr
    exact absurd herr (by simp)
  case h_1 | h_2 | h_3 | h_6 | h_9 | h_13 | h_14 =>
    split at herr
    all_goals exact absurd herr (by simp)
  all_goals exact absurd herr (by simp)

theorem Inv.next_ne_error (h : Inv s) (e : Event) : Threads.next p s e ≠ some (.error f) := by
  cases e with
  | conn alloc => exact h.connStep_ne_error alloc
  | mgr w => exact h.mgrStep_ne_error w
  | recv bs | wake w =>
    rw [Threads.next]
    split
    all_goals simp

end

/-- Every node that a step reads, writes or frees is allocated. -/
theorem nodes_allocated {size : Nat} {buf : Bytes} {es : List Event}
    (h : run (advance p) (start size buf) es = some s) (e : Event) (f : Fault) :
    next p s e ≠ some (.error f) := (inv_of_run h).next_ne_error e

/-- A push of one message, after which the first manager is about to read it. -/
def beforeRead : List Event :=
  .recv (bytes "a") :: List.replicate 8 (.conn true) ++ List.replicate 4 (.mgr .data)

/-- The read behind the unlock. -/
theorem nodes_allocated_read :
    ∃ s, run (advance Handoff.byValue) (start 100 []) beforeRead = some s ∧
      s.mutex = none ∧ (s.mgr .data).pc = .read 0 ∧
      ∀ f, next Handoff.byValue s (.mgr .data) ≠ some (.error f) := by
  have hread : ∃ s, run (advance Handoff.byValue) (start 100 []) beforeRead = some s ∧
      s.mutex = none ∧ (s.mgr .data).pc = .read 0 := ⟨_, rfl, rfl, rfl⟩
  obtain ⟨s, hs, hfree, hpc⟩ := hread
  exact ⟨s, hs, hfree, hpc, nodes_allocated hs _⟩

end Threads
end Gateway
end LinuxPrograming

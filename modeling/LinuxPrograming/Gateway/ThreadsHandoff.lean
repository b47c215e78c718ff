import LinuxPrograming.Gateway.HandoffSafety
import LinuxPrograming.Gateway.ThreadsSafety

/-!
# The threads refine the hand-off

A run of the threads, lock by lock and node by node, is a run of the hand-off in which
`list_push`, `list_get_data_first_node` and `list_remove_first_node` are single steps.
`list_push` takes effect at its `calloc`, or where it gives up, the removal when it locks the
list, and the hand-out of the first node where the manager finds one.
-/

namespace LinuxPrograming
namespace Gateway
namespace Threads

open Lib
open Handoff (Who Node Payload)

/-! ## The relation -/

/-- A reception whose push has not taken effect yet. -/
def ConnPc.Pending : ConnPc → Prop
  | .lock | .full | .calloc => True
  | _ => False

/-- The place in the hand-off that a manager's place belongs to. -/
def MgrPc.At (l : OsList (Option Node)) : MgrPc → Handoff.Pc → Prop
  | .lockCnt, k => k = .lock
  | .lockGet, k | .first, k | .condWait, k | .waiting, k | .woken, k => k = .get
  | .unlockGet a, k | .read a, k => ∃ n, l.dataOf a = some (some n) ∧ k = .cmp n
  | .cmp n, k => k = .cmp n
  | .skip, k => k = .skip
  | .copy n, k => k = .copy n
  | .count n, k => k = .count n
  -- `cnt` is reset before the removal, in the hand-off at the removal.
  | .test msg, k | .lockRemove msg, k => ∃ n, msg = some n ∧ k = .test n
  | .remove _ msg, k | .release msg, k => ∃ n, msg = some n ∧ k = .release n
  | .parse msg, k => ∃ n, msg = some n ∧ k = .parse n

/-- What `cnt` misses of its value in the hand-off. -/
def MgrPc.due : MgrPc → Nat
  | .lockRemove _ => 2
  | _ => 0

def State.due (s : State) : Nat := (s.mgr .data).pc.due + (s.mgr .storage).pc.due

/-- The state of the threads `s` stands for the state `t` of the hand-off. -/
structure Refines (s : State) (t : Handoff.State) : Prop where
  buf : t.buf = s.buf
  received : t.received = true ↔ s.conn.Pending
  queue : Settles s.op s.list (t.queue.map some)
  owner : t.owner = s.cntMutex
  pushed : t.pushed.length = s.allocs
  unset : ∀ a d, s.conn = .push (.data a d) → s.list.dataOf a = some none
  cnt : t.cnt = s.cnt + s.due
  reset : ∀ w, (s.mgr w).pc.due ≠ 0 → s.cnt = 0
  place : ∀ w, (s.mgr w).pc.At s.list (t.mgr w).pc
  oldMsg : ∀ w, (t.mgr w).oldMsg = (s.mgr w).oldMsg

variable {p : Payload} {s s' : State} {t : Handoff.State} {w v : Who} {m : Mgr}

theorem MgrPc.At.congr {k : MgrPc} {l l' : OsList (Option Node)} {j : Handoff.Pc}
    (h : k.At l j)
    (hdata : ∀ a n, l.dataOf a = some (some n) → l'.dataOf a = some (some n)) : k.At l' j := by
  cases k
  case unlockGet a | read a =>
    obtain ⟨n, hn, hj⟩ := h
    exact ⟨n, hdata a n hn, hj⟩
  all_goals exact h

theorem MgrPc.At.notify {k : MgrPc} {l : OsList (Option Node)} {j : Handoff.Pc} {oldMsg : Bytes}
    (h : k.At l j) : (Mgr.notify ⟨k, oldMsg⟩).pc.At l j := by
  cases k
  all_goals exact h

theorem Mgr.notify_due (m : Mgr) : m.notify.pc.due = m.pc.due := by
  obtain ⟨k, oldMsg⟩ := m
  cases k
  all_goals rfl

theorem Mgr.notify_oldMsg (m : Mgr) : m.notify.oldMsg = m.oldMsg := by
  obtain ⟨k, oldMsg⟩ := m
  cases k
  all_goals rfl

/-- Outside of the section of `cnt_mutex` the place does not depend on the list. -/
theorem MgrPc.At.of_not_inCnt {k : MgrPc} {l : OsList (Option Node)} {j : Handoff.Pc}
    (h : k.At l j) (hk : ¬ k.InCnt) (l' : OsList (Option Node)) : k.At l' j := by
  cases k
  case lockCnt | parse => exact h
  all_goals exact absurd trivial hk

theorem due_setMgr (s : State) (w : Who) (m : Mgr) :
    (s.setMgr w m).due + (s.mgr w).pc.due = s.due + m.pc.due := by
  cases w
  · have hother := setMgr_mgr_of_ne s m (by decide : Who.storage ≠ .data)
    rw [State.due, State.due, setMgr_mgr_self, hother]
    omega
  · have hother := setMgr_mgr_of_ne s m (by decide : Who.data ≠ .storage)
    rw [State.due, State.due, setMgr_mgr_self, hother]
    omega

theorem MgrPc.inCnt_of_due {k : MgrPc} (h : k.due ≠ 0) : k.InCnt := by
  cases k
  case lockRemove => exact trivial
  all_goals exact absurd rfl h

/-- No other manager is in the section of `cnt_mutex`. -/
theorem due_of_ne (h : Inv s) (hin : s.InCnt w) (hv : v ≠ w) : (s.mgr v).pc.due = 0 := by
  by_contra hdue
  exact hv (h.cntMutex.unique (MgrPc.inCnt_of_due hdue) hin)

theorem due_of_inCnt (h : Inv s) (hin : s.InCnt w) : s.due = (s.mgr w).pc.due := by
  cases w
  · rw [State.due, due_of_ne h hin (v := .storage) (by decide), Nat.add_zero]
  · rw [State.due, due_of_ne h hin (v := .data) (by decide), Nat.zero_add]

namespace Refines

/-! ## Steps of a manager -/

theorem setMgr (h : Refines s t) {o : Option Thread} {c c' : Option Who} {n n' : Nat}
    {m' : Handoff.Mgr} {q : BoundedQueue Node} {r : List Node} (howner : c' = c)
    (hqueue : Settles ({ s with mutex := o }.setMgr w m).op s.list (q.map some))
    (hcnt : n' = n + (s.setMgr w m).due)
    (hreset : ∀ v, ((s.setMgr w m).mgr v).pc.due ≠ 0 → n = 0)
    (hat : m.pc.At s.list m'.pc) (hmsg : m'.oldMsg = m.oldMsg) :
    Refines ({ s with mutex := o, cntMutex := c, cnt := n }.setMgr w m)
      ({ t with owner := c', cnt := n', queue := q, removed := r }.setMgr w m') where
  buf := h.buf
  received := h.received
  queue := hqueue
  owner := howner
  pushed := h.pushed
  unset := h.unset
  cnt := hcnt
  reset := hreset
  place v := by
    by_cases hv : v = w
    · rw [hv, setMgr_mgr_self, Handoff.setMgr_mgr_self]
      exact hat
    · rw [setMgr_mgr_of_ne _ m hv, Handoff.setMgr_mgr_of_ne _ m' hv]
      exact h.place v
  oldMsg v := by
    by_cases hv : v = w
    · rw [hv, setMgr_mgr_self, Handoff.setMgr_mgr_self]
      exact hmsg
    · rw [setMgr_mgr_of_ne _ m hv, Handoff.setMgr_mgr_of_ne _ m' hv]
      exact h.oldMsg v

/-- A step under `cnt_mutex`, after which the value of `cnt` is `n` and in the hand-off `n'`. -/
theorem under (h : Refines s t) (hinv : Inv s) {k : MgrPc} {o : Option Thread} {n n' : Nat}
    {m' : Handoff.Mgr} {q : BoundedQueue Node} {r : List Node} (hpc : (s.mgr w).pc = k)
    (hin : k.InCnt)
    (hqueue : Settles ({ s with mutex := o }.setMgr w m).op s.list (q.map some))
    (hcnt : n' = n + m.pc.due) (hreset : m.pc.due ≠ 0 → n = 0) (hat : m.pc.At s.list m'.pc)
    (hmsg : m'.oldMsg = m.oldMsg) :
    Refines ({ s with mutex := o, cnt := n }.setMgr w m)
      ({ t with cnt := n', queue := q, removed := r }.setMgr w m') := by
  have hincnt : s.InCnt w := by rw [State.InCnt, hpc]; exact hin
  refine h.setMgr h.owner hqueue ?_ (fun v hv => ?_) hat hmsg
  · have hdue := due_setMgr s w m
    have hold := due_of_inCnt hinv hincnt
    omega
  · by_cases hvw : v = w
    · rw [hvw, setMgr_mgr_self] at hv
      exact hreset hv
    · rw [setMgr_mgr_of_ne s m hvw] at hv
      exact absurd (due_of_ne hinv hincnt hvw) hv

/-- A step that leaves `cnt` alone. -/
theorem quiet (h : Refines s t) {k : MgrPc} {o : Option Thread} {c c' : Option Who}
    {m' : Handoff.Mgr} (hpc : (s.mgr w).pc = k) (howner : c' = c)
    (hqueue : Settles ({ s with mutex := o }.setMgr w m).op s.list (t.queue.map some))
    (hk : k.due = 0) (hm : m.pc.due = 0) (hat : m.pc.At s.list m'.pc)
    (hmsg : m'.oldMsg = m.oldMsg) :
    Refines ({ s with mutex := o, cntMutex := c }.setMgr w m)
      ({ t with owner := c' }.setMgr w m') := by
  refine h.setMgr howner hqueue ?_ (fun v hv => ?_) hat hmsg
  · have hdue := due_setMgr s w m
    have hcnt := h.cnt
    rw [hpc] at hdue
    omega
  · by_cases hvw : v = w
    · rw [hvw, setMgr_mgr_self] at hv
      exact absurd hm hv
    · rw [setMgr_mgr_of_ne s m hvw] at hv
      exact h.reset v hv

theorem queue_stay (h : Refines s t) {k : MgrPc} (hpc : (s.mgr w).pc = k)
    (hop : m.pc.op = k.op) : Settles (s.setMgr w m).op s.list (t.queue.map some) := by
  rw [op_setMgr (hop.trans (hpc ▸ rfl))]
  exact h.queue

/-- The same step in the hand-off, without a mutex. -/
theorem same (h : Refines s t) {k : MgrPc} {m' : Handoff.Mgr} (hpc : (s.mgr w).pc = k)
    (hop : m.pc.op = k.op) (hk : k.due = 0) (hm : m.pc.due = 0) (hat : m.pc.At s.list m'.pc)
    (hmsg : m'.oldMsg = m.oldMsg) : Refines (s.setMgr w m) (t.setMgr w m') :=
  h.quiet hpc h.owner (h.queue_stay hpc hop) hk hm hat hmsg

/-- A step that the hand-off does not see. -/
theorem stutter (h : Refines s t) {k : MgrPc} {o : Option Thread} (hpc : (s.mgr w).pc = k)
    (hqueue : Settles ({ s with mutex := o }.setMgr w m).op s.list (t.queue.map some))
    (hk : k.due = 0) (hm : m.pc.due = 0) (hat : m.pc.At s.list (t.mgr w).pc)
    (hmsg : m.oldMsg = (s.mgr w).oldMsg) : Refines ({ s with mutex := o }.setMgr w m) t := by
  have hquiet := h.quiet hpc h.owner hqueue hk hm hat ((h.oldMsg w).trans hmsg.symm)
  exact Handoff.setMgr_eq_self t w ▸ hquiet

theorem queue_lock (h : Refines s t) (hfree : s.mutex = none) (hop : m.pc.op = .idle) :
    Settles ({ s with mutex := some (.mgr w) }.setMgr w m).op s.list (t.queue.map some) := by
  have hq := h.queue
  rw [op_of_free hfree] at hq
  rw [op_lock, hop]
  exact hq

theorem queue_remove (h : Refines s t) (hfree : s.mutex = none) {msg : Option Node}
    {oldMsg : Bytes} :
    Settles ({ s with mutex := some (.mgr w) }.setMgr w ⟨.remove .empty msg, oldMsg⟩).op s.list
      (t.queue.pop.map some) := by
  have hq := h.queue
  rw [op_of_free hfree] at hq
  obtain ⟨ps, hrep⟩ := hq.rep trivial
  have hsettles := settles_remove hrep
  rw [op_lock, BoundedQueue.map_pop]
  split at hsettles
  · next hnil =>
    rw [BoundedQueue.pop_of_nil hnil]
    exact hsettles
  · exact hsettles

theorem queue_unlock (h : Refines s t) (hinv : Inv s) {k : MgrPc} (hpc : (s.mgr w).pc = k)
    (hin : k.InList) (hdone : k.op.Done) :
    Settles ({ s with mutex := none }.setMgr w m).op s.list (t.queue.map some) := by
  subst hpc
  obtain ⟨ps, hrep⟩ := h.queue.rep (hinv.op_mgr hin ▸ hdone)
  exact settles_of_rep trivial hrep

theorem first_node (h : Refines s t) (hinv : Inv s) (hpc : (s.mgr w).pc = .first) {a : Nat}
    (hfirst : s.list.firstNode = some a) :
    ∃ n rest, t.queue.items = n :: rest ∧ s.list.dataOf a = some (some n) := by
  have hin : (s.mgr w).pc.InList := hpc ▸ trivial
  have hop : s.op = .idle := by rw [hinv.op_mgr hin, hpc]; rfl
  obtain ⟨ps, hrep⟩ := h.queue.rep (hop ▸ trivial)
  cases hitems : t.queue.items with
  | nil =>
    have hnone := hrep.firstNode_eq_none_iff.mpr (by rw [BoundedQueue.map_items, hitems]; rfl)
    exact absurd (hfirst.symm.trans hnone) (by simp)
  | cons n rest =>
    refine ⟨n, rest, rfl, ?_⟩
    cases ps with
    | nil =>
      have hnil := hrep.nil_iff.mp rfl
      rw [BoundedQueue.map_items, hitems] at hnil
      exact absurd hnil (by simp)
    | cons b bs =>
      obtain ⟨hb, node, hnode, -, hhead⟩ := hrep.head_node
      obtain rfl := Option.some.inj (hb.symm.trans hfirst)
      rw [BoundedQueue.map_items, hitems] at hhead
      rw [OsList.dataOf, hnode, Option.map_some, ← Option.some.inj hhead]

theorem cnt_eq (h : Refines s t) (hinv : Inv s) {k : MgrPc} (hpc : (s.mgr w).pc = k)
    (hin : k.InCnt) (hk : k.due = 0) : t.cnt = s.cnt := by
  have hincnt : s.InCnt w := by rw [State.InCnt, hpc]; exact hin
  rw [h.cnt, due_of_inCnt hinv hincnt, hpc, hk, Nat.add_zero]

/-- The steps of a removal behind its lock. -/
theorem remove (h : Refines s t) (hinv : Inv s) {k k' : RemovePc} {l : OsList (Option Node)}
    {msg : Option Node} (hpc : (s.mgr w).pc = .remove k msg) (hk : k ≠ .done)
    (hact : removeAct k s.list = .ok (k', l)) :
    Refines ({ s with list := l }.setMgr w { s.mgr w with pc := .remove k' msg }) t where
  buf := h.buf
  received := h.received
  queue := by
    obtain ⟨j, l', hact', hrest⟩ := hinv.removeAct_ok hpc hk h.queue
    obtain ⟨rfl, rfl⟩ := Prod.mk.inj (Except.ok.inj (hact.symm.trans hact'))
    have hin : (s.mgr w).pc.InList := hpc ▸ trivial
    rw [State.op, setMgr_mutex, (hinv.mutex (.mgr w)).mp hin]
    dsimp only
    rw [setMgr_mgr_self]
    exact hrest
  owner := h.owner
  pushed := h.pushed
  unset a d hconn := by
    have hin : s.conn.InList := by rw [show s.conn = _ from hconn]; trivial
    exact absurd (hpc ▸ trivial : (s.mgr w).pc.InList) (hinv.not_mgr_inList hin w)
  cnt := by
    have hdue := due_setMgr s w { s.mgr w with pc := .remove k' msg }
    have hcnt := h.cnt
    rw [hpc] at hdue
    exact hcnt.trans (congrArg (s.cnt + ·) hdue.symm)
  reset v hv := by
    by_cases hvw : v = w
    · rw [hvw, setMgr_mgr_self] at hv
      exact absurd rfl hv
    · rw [setMgr_mgr_of_ne _ _ hvw] at hv
      exact h.reset v hv
  place v := by
    have hat := h.place v
    by_cases hvw : v = w
    · rw [hvw, hpc] at hat
      rw [hvw, setMgr_mgr_self]
      exact hat
    · rw [setMgr_mgr_of_ne _ _ hvw]
      refine hat.of_not_inCnt (fun hin => hvw ?_) l
      exact hinv.cntMutex.unique hin (hpc ▸ trivial : (s.mgr w).pc.InCnt)
  oldMsg v := by
    have hmsg := h.oldMsg v
    by_cases hvw : v = w
    · rw [hvw, setMgr_mgr_self]
      exact hvw ▸ hmsg
    · rw [setMgr_mgr_of_ne _ _ hvw]
      exact hmsg

theorem mgrStep (h : Refines s t) (hinv : Inv s) (hstep : MgrStep p s w s') :
    Refines s' t ∨ ∃ t', Handoff.MgrStep p t w t' ∧ Refines s' t' := by
  have hat := h.place w
  have hmsg := h.oldMsg w
  cases hstep with
  | lockCnt hpc hfree =>
    rw [hpc] at hat
    exact .inr ⟨_, .lock hat (h.owner.trans hfree),
      h.quiet hpc rfl (h.queue_stay hpc rfl) rfl rfl rfl hmsg⟩
  | lockGet hpc hfree | woken hpc hfree =>
    rw [hpc] at hat
    exact .inl (h.stutter hpc (h.queue_lock hfree rfl) rfl rfl hat rfl)
  | noNode hpc hfirst =>
    rw [hpc] at hat
    exact .inl (h.stutter hpc (h.queue_stay hpc rfl) rfl rfl hat rfl)
  | node a hpc hfirst =>
    obtain ⟨n, rest, hitems, hdata⟩ := h.first_node hinv hpc hfirst
    rw [hpc] at hat
    exact .inr ⟨_, .get n rest hat hitems, h.same hpc rfl rfl rfl ⟨n, hdata, rfl⟩ hmsg⟩
  | condWait hpc | unlockGet _ hpc =>
    rw [hpc] at hat
    exact .inl (h.stutter hpc (h.queue_unlock hinv hpc trivial trivial) rfl rfl hat rfl)
  | readNull a hpc hdata =>
    rw [hpc] at hat
    obtain ⟨n, hn, -⟩ := hat
    exact absurd (hdata.symm.trans hn) (by simp)
  | read a n hpc hdata =>
    rw [hpc] at hat
    obtain ⟨n', hn', hat⟩ := hat
    obtain rfl := Option.some.inj (Option.some.inj (hdata.symm.trans hn'))
    exact .inl (h.stutter hpc (h.queue_stay hpc rfl) rfl rfl hat rfl)
  | equal n hpc heq =>
    rw [hpc] at hat
    exact .inr ⟨_, .equal n hat (by rw [h.buf, hmsg]; exact heq),
      h.same hpc rfl rfl rfl rfl hmsg⟩
  | differ n hpc hne =>
    rw [hpc] at hat
    exact .inr ⟨_, .differ n hat (by rw [h.buf, hmsg]; exact hne),
      h.same hpc rfl rfl rfl rfl hmsg⟩
  | skip hpc =>
    rw [hpc] at hat
    exact .inr ⟨_, .skip hat, h.quiet hpc rfl (h.queue_stay hpc rfl) rfl rfl rfl hmsg⟩
  | copy n hpc =>
    rw [hpc] at hat
    exact .inr ⟨_, .copy n hat, h.same hpc rfl rfl rfl rfl (by rw [h.buf])⟩
  | count n hpc =>
    have hcnt := h.cnt_eq hinv hpc trivial rfl
    rw [hpc] at hat
    exact .inr ⟨_, .count n hat, h.under hinv hpc trivial (h.queue_stay hpc rfl)
      (congrArg (· + 1) hcnt) (fun hdue => absurd rfl hdue) ⟨n, rfl, rfl⟩ hmsg⟩
  | two msg hpc htwo =>
    have hcnt := h.cnt_eq hinv hpc trivial rfl
    rw [hpc] at hat
    have hunder := h.under (m := { s.mgr w with pc := .lockRemove msg }) (r := t.removed) hinv hpc
      trivial (h.queue_stay hpc rfl) (hcnt.trans htwo) (fun _ => rfl) hat hmsg
    exact .inl (Handoff.setMgr_eq_self t w ▸ hunder)
  | one msg hpc hcnt =>
    have heq := h.cnt_eq hinv hpc trivial rfl
    rw [hpc] at hat
    obtain ⟨n, rfl, hat⟩ := hat
    exact .inr ⟨_, .keep n hat (heq ▸ hcnt), h.same hpc rfl rfl rfl ⟨n, rfl, rfl⟩ hmsg⟩
  | lockRemove msg hpc hfree =>
    have hdue : (s.mgr w).pc.due = 2 := by rw [hpc]; rfl
    have hreset : s.cnt = 0 := h.reset w (by rw [hdue]; decide)
    have hin : (s.mgr w).pc.InCnt := hpc ▸ trivial
    have hcnt : t.cnt = 2 := by rw [h.cnt, hreset, due_of_inCnt hinv hin, hdue]
    rw [hpc] at hat
    obtain ⟨n, rfl, hat⟩ := hat
    refine .inr ⟨_, .remove n hat hcnt, h.under hinv hpc trivial (h.queue_remove hfree)
      (by rw [hreset]; rfl) (fun hdue => absurd rfl hdue) ⟨n, rfl, rfl⟩ hmsg⟩
  | remove k k' l msg hpc hk hact => exact .inl (h.remove hinv hpc hk hact)
  | unlockRemove msg hpc =>
    rw [hpc] at hat
    exact .inl (h.stutter hpc (h.queue_unlock hinv hpc trivial rfl) rfl rfl hat rfl)
  | release msg hpc =>
    rw [hpc] at hat
    obtain ⟨n, rfl, hat⟩ := hat
    exact .inr ⟨_, .release n hat,
      h.quiet hpc rfl (h.queue_stay hpc rfl) rfl rfl ⟨n, rfl, rfl⟩ hmsg⟩
  | parse msg hpc =>
    rw [hpc] at hat
    obtain ⟨n, rfl, hat⟩ := hat
    exact .inr ⟨_, .parse n hat, h.same hpc rfl rfl rfl rfl hmsg⟩

/-! ## Steps of `connection_mgr` -/

theorem setConn (h : Refines s t) {b b' : Bytes} {r : Bool} {o : Option Thread} {k : ConnPc}
    (hb : b' = b) (hrecv : r = true ↔ k.Pending)
    (hqueue : Settles { s with mutex := o, conn := k }.op s.list (t.queue.map some))
    (hk : ∀ j, k ≠ .push j) :
    Refines { s with buf := b, mutex := o, conn := k } { t with buf := b', received := r } where
  buf := hb
  received := hrecv
  queue := hqueue
  owner := h.owner
  pushed := h.pushed
  unset _ _ hconn := absurd hconn (hk _)
  cnt := h.cnt
  reset := h.reset
  place := h.place
  oldMsg := h.oldMsg

theorem queue_conn (h : Refines s t) {j k : ConnPc} (hpc : s.conn = j) (hop : k.op = j.op) :
    Settles { s with conn := k }.op s.list (t.queue.map some) := by
  rw [op_setConn (hop.trans (hpc ▸ rfl))]
  exact h.queue

theorem received_of (h : Refines s t) {j k : ConnPc} (hpc : s.conn = j)
    (hk : j.Pending ↔ k.Pending) : t.received = true ↔ k.Pending :=
  (hpc ▸ h.received).trans hk

theorem isFull_iff (h : Refines s t) (hop : s.op.Done) : listFull s.list ↔ t.queue.IsFull := by
  obtain ⟨ps, hrep⟩ := h.queue.rep hop
  exact hrep.listFull_iff.trans (BoundedQueue.isFull_map some t.queue)

/-- From its `calloc` on, a push has taken effect. -/
theorem calloc (h : Refines s t) (hinv : Inv s) (hpc : s.conn = .calloc)
    (hfull : ¬ t.queue.IsFull) :
    Refines { s with
      list := { s.list with heap := s.list.heap.set s.allocs zeroNode }
      allocs := s.allocs + 1
      conn := .push (.data s.allocs ⟨s.allocs, p.str s.buf⟩) } (t.listPush p true) := by
  have hin : s.conn.InList := hpc ▸ trivial
  have hop : s.op = .idle := by rw [hinv.op_conn hin, hpc]; rfl
  obtain ⟨ps, hrep⟩ := h.queue.rep (hop ▸ trivial)
  have hroom : ¬ listFull s.list := (h.isFull_iff (hop ▸ trivial)).not.mpr hfull
  have hnew : s.list.heap.get s.allocs = none := by
    by_contra hlive
    exact Nat.lt_irrefl _ (hinv.fresh _ hlive)
  have hnode : t.newNode p = ⟨s.allocs, p.str s.buf⟩ := by
    rw [Handoff.State.newNode, h.pushed, h.buf]
  rw [Handoff.State.listPush, if_neg (by simp [hfull]), hnode]
  refine ⟨h.buf, iff_of_false (by simp) id, ?_, h.owner, ?_, fun a d hconn => ?_, h.cnt, h.reset,
    fun v => ?_, h.oldMsg⟩
  · rw [State.op, (hinv.mutex .conn).mp hin, BoundedQueue.map_push]
    exact settles_push hrep hroom hnew _
  · show (t.pushed ++ [_]).length = s.allocs + 1
    rw [List.length_append, h.pushed]
    rfl
  · obtain ⟨rfl, -⟩ := PushPc.data.inj (ConnPc.push.inj hconn)
    show ((s.list.heap.set s.allocs zeroNode).get s.allocs).map (·.data) = some none
    rw [s.list.heap.get_set_self]
    rfl
  · refine (h.place v).congr fun a n hdata => ?_
    have hne : a ≠ s.allocs := by
      rintro rfl
      rw [OsList.dataOf, hnew] at hdata
      exact absurd hdata (by simp)
    show ((s.list.heap.set s.allocs zeroNode).get a).map (·.data) = some (some n)
    rw [s.list.heap.get_set_of_ne hne]
    exact hdata

/-- The steps of a push behind its `calloc`. -/
theorem push (h : Refines s t) (hinv : Inv s) {k k' : PushPc Node} {l : OsList (Option Node)}
    (hpc : s.conn = .push k) (hk : k ≠ .done) (hact : pushAct k s.list = .ok (k', l)) :
    Refines { s with list := l, conn := .push k' } t where
  buf := h.buf
  received := h.received_of hpc Iff.rfl
  queue := by
    obtain ⟨j, l', hact', hrest⟩ := hinv.pushAct_ok hpc hk h.queue
    obtain ⟨rfl, rfl⟩ := Prod.mk.inj (Except.ok.inj (hact.symm.trans hact'))
    have hin : s.conn.InList := hpc ▸ trivial
    rw [State.op, (hinv.mutex .conn).mp hin]
    exact hrest
  owner := h.owner
  pushed := h.pushed
  unset a d hconn := absurd (ConnPc.push.inj hconn) (pushAct_ne_data hact a d)
  cnt := h.cnt
  reset := h.reset
  place v := by
    refine (h.place v).congr fun a n hdata => ?_
    -- A node that a manager holds has its data already.
    rw [pushAct_dataOf hact fun d hkd => ?_]
    · exact hdata
    · have hunset := h.unset a d (hpc.trans (congrArg ConnPc.push hkd))
      exact absurd (hdata.symm.trans hunset) (by simp)
  oldMsg := h.oldMsg

theorem broadcast (h : Refines s t) (hinv : Inv s) (hpc : s.conn = .push .done) :
    Refines { s with mgr := fun w => (s.mgr w).notify, conn := .unlock } t where
  buf := h.buf
  received := h.received_of hpc Iff.rfl
  queue := by
    have hin : s.conn.InList := hpc ▸ trivial
    have hop : s.op = .push .done := by rw [hinv.op_conn hin, hpc]; rfl
    obtain ⟨ps, hrep⟩ := h.queue.rep (hop ▸ rfl)
    rw [State.op, (hinv.mutex .conn).mp hin]
    exact settles_of_rep trivial hrep
  owner := h.owner
  pushed := h.pushed
  unset _ _ hconn := by cases hconn
  cnt := by
    have hdue : ∀ w, (s.mgr w).notify.pc.due = (s.mgr w).pc.due := fun w => (s.mgr w).notify_due
    rw [h.cnt, State.due, State.due, hdue, hdue]
  reset w hw := h.reset w ((s.mgr w).notify_due ▸ hw)
  place w := (h.place w).notify
  oldMsg w := (h.oldMsg w).trans (s.mgr w).notify_oldMsg.symm

theorem connStep (h : Refines s t) (hinv : Inv s) (hstep : ConnStep p s s') :
    Refines s' t ∨ ∃ alloc t', Handoff.next p t (.push alloc) = some t' ∧ Refines s' t' := by
  cases hstep with
  | lock hpc hfree =>
    have hqueue := h.queue
    rw [op_of_free hfree] at hqueue
    exact .inl (h.setConn h.buf (h.received_of hpc Iff.rfl) hqueue (by simp))
  | full hpc hfull =>
    have hrecv : t.received = true := (h.received_of hpc Iff.rfl).mpr trivial
    have hop : s.op = .idle := by rw [hinv.op_conn (hpc ▸ trivial), hpc]; rfl
    have hisFull := (h.isFull_iff (hop ▸ trivial)).mp hfull
    refine .inr ⟨true, _, if_pos hrecv, ?_⟩
    rw [Handoff.State.listPush, if_pos (.inl hisFull)]
    exact h.setConn h.buf (by simp [ConnPc.Pending]) (h.queue_conn hpc rfl) (by simp)
  | room hpc hfull =>
    exact .inl (h.setConn h.buf (h.received_of hpc Iff.rfl) (h.queue_conn hpc rfl) (by simp))
  | calloc hpc =>
    have hrecv : t.received = true := (h.received_of hpc Iff.rfl).mpr trivial
    have hop : s.op = .idle := by rw [hinv.op_conn (hpc ▸ trivial), hpc]; rfl
    have hroom := hinv.room
    rw [hpc] at hroom
    have hisFull := (h.isFull_iff (hop ▸ trivial)).not.mp hroom
    exact .inr ⟨true, _, if_pos hrecv, h.calloc hinv hpc hisFull⟩
  | fail hpc =>
    have hrecv : t.received = true := (h.received_of hpc Iff.rfl).mpr trivial
    refine .inr ⟨false, _, if_pos hrecv, ?_⟩
    rw [Handoff.State.listPush, if_pos (.inr rfl)]
    exact h.setConn h.buf (by simp [ConnPc.Pending]) (h.queue_conn hpc rfl) (by simp)
  | push k k' l hpc hk hact => exact .inl (h.push hinv hpc hk hact)
  | broadcast hpc => exact .inl (h.broadcast hinv hpc)
  | unlock hpc =>
    have hop : s.op = .idle := by rw [hinv.op_conn (hpc ▸ trivial), hpc]; rfl
    have hqueue := h.queue
    rw [hop] at hqueue
    exact .inl (h.setConn h.buf (h.received_of hpc Iff.rfl) hqueue (by simp))

end Refines

/-! ## Runs -/

theorem start_refines (size : Nat) (buf : Bytes) :
    Refines (start size buf) (Handoff.start size buf) where
  buf := rfl
  received := iff_of_false (by simp [Handoff.start]) id
  queue := settles_of_rep trivial (listCreate_rep size)
  owner := rfl
  pushed := rfl
  unset _ _ hconn := by cases hconn
  cnt := rfl
  reset _ _ := rfl
  place _ := rfl
  oldMsg _ := rfl

theorem next_refines (hinv : Inv s) (h : Refines s t) {e : Event}
    (hnext : next p s e = some (.ok s')) :
    Refines s' t ∨ ∃ e' t', Handoff.next p t e' = some t' ∧ Refines s' t' := by
  cases e with
  | recv bs =>
    rw [next] at hnext
    split at hnext
    · next hpc =>
      obtain rfl := Except.ok.inj (Option.some.inj hnext)
      have hrecv : ¬ t.received = true := fun hr => (h.received_of hpc Iff.rfl).mp hr
      refine .inr ⟨.recv bs, _, if_neg hrecv, ?_⟩
      exact h.setConn (by rw [h.buf]) (by simp [ConnPc.Pending]) (h.queue_conn hpc rfl) (by simp)
    · exact absurd hnext (by simp)
  | conn alloc =>
    rcases h.connStep hinv (connStep_cases hnext) with hstay | ⟨alloc, t', ht', hrest⟩
    · exact .inl hstay
    · exact .inr ⟨.push alloc, t', ht', hrest⟩
  | mgr w =>
    rcases h.mgrStep hinv (mgrStep_cases hnext) with hstay | ⟨t', ht', hrest⟩
    · exact .inl hstay
    · exact .inr ⟨.mgr w, t', Handoff.mgrStep_of ht', hrest⟩
  | wake w =>
    rw [next] at hnext
    split at hnext
    · next hpc =>
      obtain rfl := Except.ok.inj (Option.some.inj hnext)
      have hwoken : (s.mgr w).notify = { s.mgr w with pc := .woken } := by rw [Mgr.notify, hpc]
      have hat := h.place w
      rw [hpc] at hat
      rw [hwoken]
      exact .inl (h.stutter hpc (h.queue_stay hpc rfl) rfl rfl hat rfl)
    · exact absurd hnext (by simp)

/-- Every run of the threads is a run of the hand-off. -/
theorem run_refines {size : Nat} {buf : Bytes} {es : List Event}
    (h : run (advance p) (start size buf) es = some s) :
    ∃ es' t, run (Handoff.next p) (Handoff.start size buf) es' = some t ∧ Refines s t := by
  have hstep : ∀ s t e s', Inv s ∧ Refines s t → advance p s e = some s' →
      (Inv s' ∧ Refines s' t) ∨
        ∃ e' t', Handoff.next p t e' = some t' ∧ Inv s' ∧ Refines s' t' := by
    intro s t e s' ⟨hinv, href⟩ hadv
    have hnext := next_of_advance hadv
    rcases next_refines hinv href hnext with hstay | ⟨e', t', ht', hmove⟩
    · exact .inl ⟨hinv.next hnext, hstay⟩
    · exact .inr ⟨e', t', ht', hinv.next hnext, hmove⟩
  obtain ⟨es', t, hrun, -, href⟩ :=
    run_simulates hstep ⟨start_inv size buf, start_refines size buf⟩ h
  exact ⟨es', t, hrun, href⟩

/-- What the hand-off keeps holds of the threads: outside of the sections of `cnt_mutex` at
most one manager has counted the first message. -/
theorem cnt_le_one {size : Nat} {buf : Bytes} {es : List Event}
    (h : run (advance Handoff.byValue) (start size buf) es = some s) (hfree : s.cntMutex = none) :
    s.cnt ≤ 1 := by
  obtain ⟨es', t, hrun, href⟩ := run_refines h
  have hle : t.cnt ≤ 1 := (Handoff.run_safe hrun).cnt_le_one (href.owner.trans hfree)
  have hcnt := href.cnt
  omega

end Threads
end Gateway
end LinuxPrograming

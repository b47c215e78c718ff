import LinuxPrograming.Gateway.Net
import LinuxPrograming.Gateway.OsList
import LinuxPrograming.Lib.Mutex
import LinuxPrograming.Lib.Run

/-!
# The hand-off between the three threads

`connection_mgr` receives into `buf` and pushes to the shared list.  `data_mgr` and
`storage_mgr` run the same critical section under `cnt_mutex`: read the head of the list,
compare it with the private `old_msg`, copy it, count, and remove the head when the count
reaches 2.  They parse the message after unlocking.

The list operations are those of the bounded queue that `os_list` refines.  One event
is one access to shared data, so that the threads interleave at every such access.
-/

namespace LinuxPrograming
namespace Gateway
namespace Handoff

open Lib

/-- The two consumers. -/
inductive Who where
  | data
  | storage
  deriving DecidableEq, Repr

/-- A node of the shared list.  `id` counts the pushes and `sent` is the string that was
in `buf` at the push. -/
structure Node where
  id : Nat
  sent : Bytes
  deriving DecidableEq, Repr

/-- Where a manager is in its loop, with the node its `msg` came from.  It stands before
`mutex_lock`, `list_get_data_first_node`, `strcmp(msg, old_msg)`, the unlock in front of
`continue`, `strcpy(old_msg, msg)`, `cnt++`, `if(cnt == 2)`, the unlock in front of `msg_parse`,
or `msg_parse(&parsed, msg, senIDs)`. -/
inductive Pc where
  | lock
  | get
  | cmp (n : Node)
  | skip
  | copy (n : Node)
  | count (n : Node)
  | test (n : Node)
  | release (n : Node)
  | parse (n : Node)
  deriving DecidableEq, Repr

/-- A manager: where it is and its `old_msg`.  The other fields record what it has done:
the nodes it counted, the nodes it handed to `msg_parse`, and every string it read
through `msg`. -/
structure Mgr where
  pc : Pc
  oldMsg : Bytes
  taken : List Node
  parsed : List Node
  uses : List (Node × Bytes)

/-- The shared data.  `received` is set between a `recv` and the `list_push` that follows
it.  `pushed` and `removed` record the nodes that entered and left the list. -/
structure State where
  buf : Bytes
  received : Bool
  queue : BoundedQueue Node
  cnt : Nat
  owner : Option Who
  mgr : Who → Mgr
  pushed : List Node
  removed : List Node

/-- What a node's `data` pointer denotes. -/
structure Payload where
  /-- `buf` after a reception. -/
  recv : Bytes → Bytes → Bytes
  /-- The string that `buf` holds. -/
  str : Bytes → Bytes
  /-- The string read through a node while `buf` has the given contents. -/
  deref : Bytes → Node → Bytes

/-- Every node keeps the string it was pushed with. -/
def byValue : Payload where
  recv _ s := s
  str s := s
  deref _ n := n.sent

/-- `list_push(shared_data, buf)` as it is: every node holds the address of `buf`, behind
which lies `mem`. -/
def byAddress (mem : Bytes) : Payload where
  recv := Gateway.recv
  str := bufStr mem
  deref buf _ := bufStr mem buf

/-- The start of the threads, with `list_create(size)` and the uninitialised `buf`. -/
def start (size : Nat) (buf : Bytes) : State where
  buf := buf
  received := false
  queue := BoundedQueue.empty size
  cnt := 0
  owner := none
  mgr _ := { pc := .lock, oldMsg := [], taken := [], parsed := [], uses := [] }
  pushed := []
  removed := []

inductive Event where
  /-- `recv` returns some bytes. -/
  | recv (bs : Bytes)
  /-- `list_push`, whose `calloc` may fail. -/
  | push (alloc : Bool)
  /-- The next access of a manager. -/
  | mgr (w : Who)
  deriving DecidableEq, Repr

def State.setMgr (s : State) (w : Who) (m : Mgr) : State :=
  { s with mgr := fun v => if v = w then m else s.mgr v }

/-- The node that a push appends. -/
def State.newNode (p : Payload) (s : State) : Node := ⟨s.pushed.length, p.str s.buf⟩

/-- `list_push(shared_data, buf)`. -/
def State.listPush (p : Payload) (s : State) (alloc : Bool) : State :=
  if s.queue.IsFull ∨ alloc = false then { s with received := false }
  else { s with
    received := false
    queue := s.queue.push (s.newNode p)
    pushed := s.pushed ++ [s.newNode p] }

/-- One access of the loop of `data_mgr` or `storage_mgr`. -/
def mgrStep (p : Payload) (s : State) (w : Who) : Option State :=
  let m := s.mgr w
  match m.pc with
  | .lock =>
    if s.owner = none then some ({ s with owner := some w }.setMgr w { m with pc := .get })
    else none
  | .get =>
    match s.queue.items with
    | [] => none
    | n :: _ => some (s.setMgr w { m with pc := .cmp n })
  | .cmp n =>
    let msg := p.deref s.buf n
    some (s.setMgr w { m with
      pc := if msg = m.oldMsg then .skip else .copy n
      uses := m.uses ++ [(n, msg)] })
  | .skip => some ({ s with owner := none }.setMgr w { m with pc := .lock })
  | .copy n =>
    let msg := p.deref s.buf n
    some (s.setMgr w { m with
      pc := .count n
      oldMsg := msg
      uses := m.uses ++ [(n, msg)] })
  | .count n =>
    some ({ s with cnt := s.cnt + 1 }.setMgr w { m with pc := .test n, taken := m.taken ++ [n] })
  | .test n =>
    if s.cnt = 2 then
      some ({ s with
        cnt := 0
        queue := s.queue.pop
        removed := s.removed ++ s.queue.items.take 1 }.setMgr w { m with pc := .release n })
    else some (s.setMgr w { m with pc := .release n })
  | .release n => some ({ s with owner := none }.setMgr w { m with pc := .parse n })
  | .parse n =>
    some (s.setMgr w { m with
      pc := .lock
      parsed := m.parsed ++ [n]
      uses := m.uses ++ [(n, p.deref s.buf n)] })

/-- A step of the gateway; `none` when the thread cannot take it. -/
def next (p : Payload) (s : State) : Event → Option State
  | .recv bs =>
    if s.received then none else some { s with buf := p.recv s.buf bs, received := true }
  | .push alloc => if s.received then some (s.listPush p alloc) else none
  | .mgr w => mgrStep p s w

/-- A manager's way through one message. -/
def lap (w : Who) : List Event := List.replicate 8 (.mgr w)

section

variable (s : State) (w v : Who) (m : Mgr)

@[simp] theorem setMgr_mgr_self : (s.setMgr w m).mgr w = m := if_pos rfl

theorem setMgr_mgr_of_ne {w v : Who} (h : v ≠ w) : (s.setMgr w m).mgr v = s.mgr v := if_neg h

theorem setMgr_eq_self : s.setMgr w (s.mgr w) = s := by
  have hmgr : (fun v => if v = w then s.mgr w else s.mgr v) = s.mgr := by
    funext v
    by_cases hv : v = w
    · rw [if_pos hv, hv]
    · rw [if_neg hv]
  rw [State.setMgr, hmgr]

@[simp] theorem setMgr_buf : (s.setMgr w m).buf = s.buf := rfl

@[simp] theorem setMgr_received : (s.setMgr w m).received = s.received := rfl

@[simp] theorem setMgr_queue : (s.setMgr w m).queue = s.queue := rfl

@[simp] theorem setMgr_cnt : (s.setMgr w m).cnt = s.cnt := rfl

@[simp] theorem setMgr_owner : (s.setMgr w m).owner = s.owner := rfl

@[simp] theorem setMgr_pushed : (s.setMgr w m).pushed = s.pushed := rfl

@[simp] theorem setMgr_removed : (s.setMgr w m).removed = s.removed := rfl

end

/-- What a step of a manager does, by the place it is at. -/
inductive MgrStep (p : Payload) (s : State) (w : Who) : State → Prop where
  | lock (hpc : (s.mgr w).pc = .lock) (howner : s.owner = none) :
    MgrStep p s w ({ s with owner := some w }.setMgr w { s.mgr w with pc := .get })
  | get (n : Node) (rest : List Node) (hpc : (s.mgr w).pc = .get)
    (hitems : s.queue.items = n :: rest) :
    MgrStep p s w (s.setMgr w { s.mgr w with pc := .cmp n })
  | equal (n : Node) (hpc : (s.mgr w).pc = .cmp n) (hmsg : p.deref s.buf n = (s.mgr w).oldMsg) :
    MgrStep p s w (s.setMgr w { s.mgr w with
      pc := .skip, uses := (s.mgr w).uses ++ [(n, p.deref s.buf n)] })
  | differ (n : Node) (hpc : (s.mgr w).pc = .cmp n)
    (hmsg : p.deref s.buf n ≠ (s.mgr w).oldMsg) :
    MgrStep p s w (s.setMgr w { s.mgr w with
      pc := .copy n, uses := (s.mgr w).uses ++ [(n, p.deref s.buf n)] })
  | skip (hpc : (s.mgr w).pc = .skip) :
    MgrStep p s w ({ s with owner := none }.setMgr w { s.mgr w with pc := .lock })
  | copy (n : Node) (hpc : (s.mgr w).pc = .copy n) :
    MgrStep p s w (s.setMgr w { s.mgr w with
      pc := .count n
      oldMsg := p.deref s.buf n
      uses := (s.mgr w).uses ++ [(n, p.deref s.buf n)] })
  | count (n : Node) (hpc : (s.mgr w).pc = .count n) :
    MgrStep p s w ({ s with cnt := s.cnt + 1 }.setMgr w { s.mgr w with
      pc := .test n, taken := (s.mgr w).taken ++ [n] })
  | remove (n : Node) (hpc : (s.mgr w).pc = .test n) (hcnt : s.cnt = 2) :
    MgrStep p s w ({ s with
      cnt := 0
      queue := s.queue.pop
      removed := s.removed ++ s.queue.items.take 1 }.setMgr w { s.mgr w with pc := .release n })
  | keep (n : Node) (hpc : (s.mgr w).pc = .test n) (hcnt : s.cnt ≠ 2) :
    MgrStep p s w (s.setMgr w { s.mgr w with pc := .release n })
  | release (n : Node) (hpc : (s.mgr w).pc = .release n) :
    MgrStep p s w ({ s with owner := none }.setMgr w { s.mgr w with pc := .parse n })
  | parse (n : Node) (hpc : (s.mgr w).pc = .parse n) :
    MgrStep p s w (s.setMgr w { s.mgr w with
      pc := .lock
      parsed := (s.mgr w).parsed ++ [n]
      uses := (s.mgr w).uses ++ [(n, p.deref s.buf n)] })

theorem mgrStep_cases {p : Payload} {s t : State} {w : Who} (h : mgrStep p s w = some t) :
    MgrStep p s w t := by
  rw [mgrStep] at h
  dsimp only at h
  split at h
  case h_1 hpc =>
    split at h
    · next howner => exact Option.some.inj h ▸ .lock hpc howner
    · exact absurd h (by simp)
  case h_2 hpc =>
    split at h
    · exact absurd h (by simp)
    · next n rest hitems => exact Option.some.inj h ▸ .get n rest hpc hitems
  case h_3 n hpc =>
    by_cases hmsg : p.deref s.buf n = (s.mgr w).oldMsg
    · rw [if_pos hmsg] at h
      exact Option.some.inj h ▸ .equal n hpc hmsg
    · rw [if_neg hmsg] at h
      exact Option.some.inj h ▸ .differ n hpc hmsg
  case h_4 hpc => exact Option.some.inj h ▸ .skip hpc
  case h_5 n hpc => exact Option.some.inj h ▸ .copy n hpc
  case h_6 n hpc => exact Option.some.inj h ▸ .count n hpc
  case h_7 n hpc =>
    split at h
    · next hcnt => exact Option.some.inj h ▸ .remove n hpc hcnt
    · next hcnt => exact Option.some.inj h ▸ .keep n hpc hcnt
  case h_8 n hpc => exact Option.some.inj h ▸ .release n hpc
  case h_9 n hpc => exact Option.some.inj h ▸ .parse n hpc

theorem mgrStep_of {p : Payload} {s t : State} {w : Who} (h : MgrStep p s w t) :
    mgrStep p s w = some t := by
  cases h <;> simp_all only [mgrStep, if_true, if_false]

/-! ## The list accesses -/

/-- The push is the `list_push` of the queue. -/
theorem listPush_queue (p : Payload) (s : State) (calloc : Option Nat) :
    (s.listPush p calloc.isSome).queue =
      (queueStep s.queue (.push calloc (s.newNode p))).1 := by
  by_cases hfull : s.queue.IsFull
  · rw [State.listPush, queueStep, if_pos (Or.inl hfull), if_pos hfull]
  · cases calloc <;> simp [State.listPush, queueStep, hfull]

/-- The removal is the `list_remove_first_node` of the queue. -/
theorem pop_eq_queueStep (q : BoundedQueue Node) :
    q.pop = (queueStep q .removeFirstNode).1 := by
  rw [queueStep]
  by_cases hnil : q.items = []
  · rw [if_pos hnil]
    cases q
    simp_all [BoundedQueue.pop]
  · rw [if_neg hnil]

/-! ## What every run keeps -/

/-- The places inside the critical section. -/
def Pc.Inside : Pc → Prop
  | .lock | .parse _ => False
  | _ => True

/-- The node a manager holds the pointer of. -/
def Pc.node : Pc → Option Node
  | .cmp n | .copy n | .count n | .test n | .release n | .parse n => some n
  | _ => none

/-- The node that is counted and not yet parsed. -/
def Pc.inFlight : Pc → List Node
  | .test n | .release n | .parse n => [n]
  | _ => []

/-- The facts that do not depend on what the pointers denote. -/
structure Inv (s : State) : Prop where
  owner : ∀ w, (s.mgr w).pc.Inside ↔ s.owner = some w
  queue : s.pushed = s.removed ++ s.queue.items
  ids : ∀ (k : Nat) n, s.pushed[k]? = some n → n.id = k
  parsed : ∀ w, (s.mgr w).taken = (s.mgr w).parsed ++ (s.mgr w).pc.inFlight

theorem start_inv (size : Nat) (buf : Bytes) : Inv (start size buf) where
  owner w := by simp [start, Pc.Inside]
  queue := rfl
  ids k n h := by simp [start] at h
  parsed w := rfl

theorem Inv.owned {s : State} (h : Inv s) : Owned s.owner fun w => (s.mgr w).pc.Inside := h.owner

theorem inside_setMgr (s : State) (m : Mgr) {v w : Who} (hv : v ≠ w) :
    ((s.setMgr w m).mgr v).pc.Inside ↔ (s.mgr v).pc.Inside := by
  rw [setMgr_mgr_of_ne _ _ hv]

theorem parsed_setMgr {s : State} {w : Who} {m : Mgr}
    (h : ∀ v, (s.mgr v).taken = (s.mgr v).parsed ++ (s.mgr v).pc.inFlight)
    (hw : m.taken = m.parsed ++ m.pc.inFlight) (v : Who) :
    ((s.setMgr w m).mgr v).taken =
      ((s.setMgr w m).mgr v).parsed ++ ((s.setMgr w m).mgr v).pc.inFlight := by
  by_cases hv : v = w
  · rw [hv, setMgr_mgr_self]
    exact hw
  · rw [setMgr_mgr_of_ne _ _ hv]
    exact h v

/-- A step that neither locks nor unlocks. -/
theorem Inv.setMgr {s : State} (h : Inv s) {w : Who} {m : Mgr} {k : Pc}
    (hpc : (s.mgr w).pc = k) (hin : m.pc.Inside ↔ k.Inside)
    (hparsed : m.taken = m.parsed ++ m.pc.inFlight) : Inv (s.setMgr w m) where
  owner := by
    subst hpc
    refine h.owned.keep (t := w) ?_ fun v => inside_setMgr s m
    rw [setMgr_mgr_self]
    exact hin
  queue := h.queue
  ids := h.ids
  parsed := parsed_setMgr h.parsed hparsed

theorem Inv.lock {s : State} (h : Inv s) {w : Who} {m : Mgr} (howner : s.owner = none)
    (hin : m.pc.Inside) (hparsed : m.taken = m.parsed ++ m.pc.inFlight) :
    Inv ({ s with owner := some w }.setMgr w m) where
  owner := by
    have hfree : Owned none fun v => (s.mgr v).pc.Inside := howner ▸ h.owned
    refine hfree.acquire (t := w) ?_ fun v => inside_setMgr s m
    rw [setMgr_mgr_self]
    exact hin
  queue := h.queue
  ids := h.ids
  parsed := parsed_setMgr h.parsed hparsed

theorem Inv.unlock {s : State} (h : Inv s) {w : Who} {m : Mgr} (hin : (s.mgr w).pc.Inside)
    (hout : ¬ m.pc.Inside) (hparsed : m.taken = m.parsed ++ m.pc.inFlight) :
    Inv ({ s with owner := none }.setMgr w m) where
  owner := by
    refine h.owned.release (t := w) hin ?_ fun v => inside_setMgr s m
    rw [setMgr_mgr_self]
    exact hout
  queue := h.queue
  ids := h.ids
  parsed := parsed_setMgr h.parsed hparsed

theorem mgrStep_inv {p : Payload} {s t : State} {w : Who} (h : Inv s)
    (hstep : MgrStep p s w t) : Inv t := by
  have hparsed := h.parsed w
  cases hstep with
  | lock hpc howner =>
    rw [hpc] at hparsed
    exact h.lock howner trivial hparsed
  | skip hpc =>
    rw [hpc] at hparsed
    exact h.unlock (hpc ▸ trivial) id hparsed
  | release n hpc =>
    rw [hpc] at hparsed
    exact h.unlock (hpc ▸ trivial) id hparsed
  | count n hpc =>
    rw [hpc] at hparsed
    have htaken : (s.mgr w).taken ++ [n] = (s.mgr w).parsed ++ [n] := by
      rw [hparsed]
      exact congrArg (· ++ [n]) (List.append_nil _)
    have hset := h.setMgr (m := { s.mgr w with pc := .test n, taken := (s.mgr w).taken ++ [n] })
      hpc Iff.rfl htaken
    exact ⟨hset.owner, hset.queue, hset.ids, hset.parsed⟩
  | remove n hpc _ =>
    rw [hpc] at hparsed
    have hset := h.setMgr (m := { s.mgr w with pc := .release n }) hpc Iff.rfl hparsed
    refine ⟨hset.owner, ?_, hset.ids, hset.parsed⟩
    rw [setMgr_pushed, setMgr_removed, setMgr_queue, BoundedQueue.pop_items, h.queue,
      List.append_assoc, ← List.drop_one, List.take_append_drop]
  | parse n hpc =>
    rw [hpc] at hparsed
    refine h.setMgr hpc Iff.rfl ?_
    rw [hparsed]
    exact (List.append_nil _).symm
  | get _ _ hpc _ | equal _ hpc _ | differ _ hpc _ | copy _ hpc | keep _ hpc _ =>
    rw [hpc] at hparsed
    exact h.setMgr hpc Iff.rfl hparsed

theorem listPush_cases (p : Payload) (s : State) (alloc : Bool) :
    s.listPush p alloc = { s with received := false } ∨
      ¬ s.queue.IsFull ∧ s.listPush p alloc = { s with
        received := false
        queue := s.queue.push (s.newNode p)
        pushed := s.pushed ++ [s.newNode p] } := by
  rw [State.listPush]
  split
  · exact Or.inl rfl
  · next h => exact Or.inr ⟨fun hfull => h (Or.inl hfull), rfl⟩

@[simp] theorem listPush_buf (p : Payload) (s : State) (alloc : Bool) :
    (s.listPush p alloc).buf = s.buf := by
  rcases listPush_cases p s alloc with h | ⟨-, h⟩ <;> rw [h]

@[simp] theorem listPush_mgr (p : Payload) (s : State) (alloc : Bool) :
    (s.listPush p alloc).mgr = s.mgr := by
  rcases listPush_cases p s alloc with h | ⟨-, h⟩ <;> rw [h]

theorem next_inv {p : Payload} {s t : State} {e : Event} (h : Inv s)
    (hstep : next p s e = some t) : Inv t := by
  cases e with
  | recv bs =>
    rw [next] at hstep
    split at hstep
    · exact absurd hstep (by simp)
    · exact Option.some.inj hstep ▸ ⟨h.owner, h.queue, h.ids, h.parsed⟩
  | push alloc =>
    rw [next] at hstep
    split at hstep
    · obtain rfl := Option.some.inj hstep
      rcases listPush_cases p s alloc with heq | ⟨hfull, heq⟩ <;> rw [heq]
      · exact ⟨h.owner, h.queue, h.ids, h.parsed⟩
      · refine ⟨h.owner, ?_, fun k n hk => ?_, h.parsed⟩
        · rw [BoundedQueue.push_items hfull, ← List.append_assoc, ← h.queue]
        · rcases Nat.lt_or_ge k s.pushed.length with hlt | hge
          · rw [List.getElem?_append_left hlt] at hk
            exact h.ids k n hk
          · rw [List.getElem?_append_right hge] at hk
            rw [List.getElem?_singleton] at hk
            split at hk
            · next hk0 =>
              rw [← Option.some.inj hk]
              exact Nat.le_antisymm hge (Nat.le_of_sub_eq_zero hk0)
            · exact absurd hk (by simp)
    · exact absurd hstep (by simp)
  | mgr w => exact mgrStep_inv h (mgrStep_cases hstep)

theorem mgrStep_frame {p : Payload} {s t : State} {w : Who} (h : MgrStep p s w t) :
    t.buf = s.buf ∧ t.received = s.received ∧ t.queue.cap = s.queue.cap := by
  cases h <;> exact ⟨rfl, rfl, rfl⟩

end Handoff
end Gateway
end LinuxPrograming

import LinuxPrograming.Gateway.OsListQueue
import LinuxPrograming.Lib.Finish

/-!
# The steps of `_list_push` and `list_remove_first_node`

One step reads or writes fields of one node at most, so that other threads can come in
between.  A node holds NULL as its data between `calloc` and the line that stores `data`.
The steps of an operation that starts on a well-formed list finish in the list that the
whole operation computes.
-/

namespace LinuxPrograming
namespace Gateway

open Lib

variable {α : Type}

/-- The rest of `_list_push` behind `calloc`, with the address of `newnode`: before
`newnode->data = data`, `if(list_empty(list))`, `list->last_node->next = newnode`,
`newnode->prev = list->last_node`, `list->last_node = newnode` or `list->cur_size++`. -/
inductive PushPc (α : Type) where
  | data (newnode : Nat) (data : α)
  | empty (newnode : Nat)
  | linkNext (newnode : Nat)
  | linkPrev (newnode : Nat)
  | last (newnode : Nat)
  | size
  | done

/-- `list_remove_first_node` between its lock and its unlock: before `if(list_empty(list))`,
`temp = list->first_node->next`, `if(temp)`, `free(list->first_node)`,
`list->first_node = temp` or `list->cur_size--`. -/
inductive RemovePc where
  | empty
  | next
  | unlink (temp : Option Nat)
  | free (temp : Option Nat)
  | advance (temp : Option Nat)
  | size
  | done

/-- What `calloc` returns. -/
def zeroNode : OsListNode (Option α) := ⟨none, none, none⟩

/-- One step of `_list_push`. -/
def pushAct (k : PushPc α) (l : OsList (Option α)) : Checked (PushPc α × OsList (Option α)) :=
  match k with
  | .data newnode data => do
    let l ← l.update (some newnode) fun node => { node with data := some data }
    pure (.empty newnode, l)
  | .empty newnode =>
    if listEmpty l then
      pure (.size, { l with firstNode := some newnode, lastNode := some newnode })
    else pure (.linkNext newnode, l)
  | .linkNext newnode => do
    let l ← l.update l.lastNode fun node => { node with next := some newnode }
    pure (.linkPrev newnode, l)
  | .linkPrev newnode => do
    let l ← l.update (some newnode) fun node => { node with prev := l.lastNode }
    pure (.last newnode, l)
  | .last newnode => pure (.size, { l with lastNode := some newnode })
  | .size => pure (.done, { l with curSize := l.curSize + 1 })
  | .done => pure (.done, l)

/-- One step of `list_remove_first_node`.  A node is freed only while it is allocated. -/
def removeAct (k : RemovePc) (l : OsList α) : Checked (RemovePc × OsList α) :=
  match k with
  | .empty => if listEmpty l then pure (.done, l) else pure (.next, l)
  | .next => do
    let node ← l.load l.firstNode
    pure (.unlink node.next, l)
  | .unlink temp =>
    match temp with
    | some _ => do
      let l ← l.update temp fun node => { node with prev := none }
      pure (.free temp, l)
    | none => pure (.free temp, { l with lastNode := temp })
  | .free temp => do
    let _ ← l.load l.firstNode
    pure (.advance temp, l.free l.firstNode)
  | .advance temp => pure (.size, { l with firstNode := temp })
  | .size => pure (.done, { l with curSize := l.curSize - 1 })
  | .done => pure (.done, l)

/-- The operation under `list->mutex`, if one is going on. -/
inductive ListPc (α : Type) where
  | idle
  | push (k : PushPc α)
  | remove (k : RemovePc)

def ListPc.Done : ListPc α → Prop
  | .idle => True
  | .push k => k = .done
  | .remove k => k = .done

def listAct (k : ListPc α) (l : OsList (Option α)) : Checked (ListPc α × OsList (Option α)) :=
  match k with
  | .idle => pure (.idle, l)
  | .push k => do
    let (k, l) ← pushAct k l
    pure (.push k, l)
  | .remove k => do
    let (k, l) ← removeAct k l
    pure (.remove k, l)

/-- The rest of the operation makes no error, and then the list holds the queue `q`. -/
def Settles (k : ListPc α) (l : OsList (Option α)) (q : BoundedQueue (Option α)) : Prop :=
  ∃ l' ps, Finishes listAct ListPc.Done k l l' ∧ l'.Rep ps q

section

variable {k : ListPc α} {l : OsList (Option α)} {ps : List Nat} {q : BoundedQueue (Option α)}

theorem settles_of_rep (hk : k.Done) (h : l.Rep ps q) : Settles k l q := ⟨l, ps, .done hk, h⟩

theorem Settles.rep (h : Settles k l q) (hk : k.Done) : ∃ ps, l.Rep ps q := by
  obtain ⟨l', ps, hfin, hrep⟩ := h
  exact ⟨ps, hfin.eq_of_done hk ▸ hrep⟩

theorem Settles.next (h : Settles k l q) (hk : ¬ k.Done) :
    ∃ k' l', listAct k l = .ok (k', l') ∧ Settles k' l' q := by
  obtain ⟨l', ps, hfin, hrep⟩ := h
  obtain ⟨k₁, l₁, hact, hrest⟩ := hfin.next hk
  exact ⟨k₁, l₁, hact, l', ps, hrest, hrep⟩

end

/-! ## The steps make up the operations -/

section

variable {l l' : OsList (Option α)} {a : Nat} {d : α}

theorem push_step {k k' : PushPc α} {l₁ : OsList (Option α)} (hk : k ≠ .done)
    (hact : pushAct k l = .ok (k', l₁))
    (hrest : Finishes listAct ListPc.Done (.push k') l₁ l') :
    Finishes listAct ListPc.Done (.push k) l l' := by
  refine .step hk ?_ hrest
  rw [listAct, hact]
  rfl

theorem remove_step {k k' : RemovePc} {l₁ : OsList (Option α)} (hk : k ≠ .done)
    (hact : removeAct k l = .ok (k', l₁))
    (hrest : Finishes listAct ListPc.Done (.remove k') l₁ l') :
    Finishes listAct ListPc.Done (.remove k) l l' := by
  refine .step hk ?_ hrest
  rw [listAct, hact]
  rfl

theorem push_finish (l : OsList (Option α)) :
    Finishes listAct ListPc.Done (.push .size) l { l with curSize := l.curSize + 1 } :=
  push_step (by simp) rfl (.done rfl)

/-- The steps behind `calloc` compute what `_list_push` as a whole computes. -/
theorem push_finishes (hfull : ¬ listFull l)
    (h : listPush l (some a) (some d) = .ok (l', .success)) :
    Finishes listAct ListPc.Done (.push (.data a d))
      { l with heap := l.heap.set a zeroNode } l' := by
  rw [listPush, if_neg hfull] at h
  dsimp only at h
  have hdata : pushAct (.data a d) { l with heap := l.heap.set a zeroNode } =
      .ok (.empty a, { l with heap := l.heap.set a ⟨none, none, some d⟩ }) := by
    rw [pushAct, OsList.update_some (l.heap.get_set_self a zeroNode), ok_bind]
    dsimp only
    rw [Heap.set_set]
    rfl
  refine push_step (by simp) hdata ?_
  by_cases hempty : listEmpty { l with heap := l.heap.set a ⟨none, none, some d⟩ }
  · rw [if_pos hempty] at h
    obtain ⟨rfl, -⟩ := Prod.mk.inj (Except.ok.inj h)
    exact push_step (by simp) (if_pos hempty) (push_finish _)
  · rw [if_neg hempty] at h
    obtain ⟨l₂, h₂, h⟩ := bind_eq_ok.mp h
    obtain ⟨l₃, h₃, h⟩ := bind_eq_ok.mp h
    obtain ⟨rfl, -⟩ := Prod.mk.inj (Except.ok.inj h)
    refine push_step (by simp) (if_neg hempty) ?_
    have hnext : pushAct (.linkNext a) { l with heap := l.heap.set a ⟨none, none, some d⟩ } =
        .ok (.linkPrev a, l₂) := by
      rw [pushAct, h₂]
      rfl
    have hprev : pushAct (.linkPrev a) l₂ = .ok (.last a, l₃) := by
      rw [pushAct, h₃]
      rfl
    refine push_step (by simp) hnext (push_step (by simp) hprev ?_)
    exact push_step (by simp) rfl (push_finish _)

theorem remove_finish (temp : Option Nat) (hfirst : l.firstNode = some a)
    (ha : l.heap.get a ≠ none) :
    Finishes listAct ListPc.Done (.remove (.free temp)) l
      { l.free l.firstNode with
        firstNode := temp, curSize := (l.free l.firstNode).curSize - 1 } := by
  obtain ⟨node, hnode⟩ := Option.ne_none_iff_exists'.mp ha
  have hfree : removeAct (.free temp) l = .ok (.advance temp, l.free l.firstNode) := by
    rw [removeAct, hfirst, OsList.load_some hnode]
    rfl
  refine remove_step (by simp) hfree ?_
  exact remove_step (by simp) rfl (remove_step (by simp) rfl (.done rfl))

/-- The steps compute what `list_remove_first_node` as a whole computes. -/
theorem remove_finishes (hempty : ¬ listEmpty l)
    (h : listRemoveFirstNode l = .ok (l', .success)) :
    Finishes listAct ListPc.Done (.remove .empty) l l' := by
  rw [listRemoveFirstNode, if_neg hempty] at h
  obtain ⟨node, hnode, h⟩ := bind_eq_ok.mp h
  have hlive : ∃ a, l.firstNode = some a ∧ l.heap.get a ≠ none := by
    cases hfirst : l.firstNode with
    | none => exact absurd (Or.inr hfirst) hempty
    | some a =>
      refine ⟨a, rfl, fun hget => ?_⟩
      rw [hfirst, OsList.load, hget] at hnode
      exact absurd hnode (by simp)
  obtain ⟨a, hfirst, hget⟩ := hlive
  have hload : removeAct .next l = .ok (.unlink node.next, l) := by
    rw [removeAct, hnode]
    rfl
  refine remove_step (by simp) (if_neg hempty) (remove_step (by simp) hload ?_)
  cases hnext : node.next with
  | none =>
    rw [hnext] at h
    obtain ⟨rfl, -⟩ := Prod.mk.inj (Except.ok.inj h)
    exact remove_step (by simp) rfl
      (remove_finish (l := { l with lastNode := none }) none hfirst hget)
  | some b =>
    rw [hnext] at h
    obtain ⟨l₁, h₁, h⟩ := bind_eq_ok.mp h
    obtain ⟨rfl, -⟩ := Prod.mk.inj (Except.ok.inj h)
    have hunlink : removeAct (.unlink (some b)) l = .ok (.free (some b), l₁) := by
      rw [removeAct, h₁]
      rfl
    refine remove_step (by simp) hunlink ?_
    -- Writing the second node leaves the first one where it is.
    rw [OsList.update] at h₁
    split at h₁
    · exact absurd h₁ (by simp)
    · next second hsecond =>
      obtain rfl := Except.ok.inj h₁
      refine remove_finish (l := { l with heap := l.heap.set b _ }) (some b) hfirst ?_
      exact (Heap.get_set_ne_none_iff l.heap (by simp [hsecond])).mpr hget

end

section

variable {l : OsList (Option α)} {ps : List Nat} {q : BoundedQueue (Option α)}

/-- From `calloc` on, a push of a list with room settles in the queue with the new item. -/
theorem settles_push (h : l.Rep ps q) (hfull : ¬ listFull l) {a : Nat}
    (ha : l.heap.get a = none) (d : α) :
    Settles (.push (.data a d)) { l with heap := l.heap.set a zeroNode } (q.push (some d)) := by
  obtain ⟨l', ps', hpush, hrep⟩ := listPush_spec h (h.listFull_iff.not.mp hfull) ha (some d)
  exact ⟨l', ps', push_finishes hfull hpush, hrep⟩

/-- A removal settles in the queue without its first item. -/
theorem settles_remove (h : l.Rep ps q) :
    Settles (.remove .empty) l (if q.items = [] then q else q.pop) := by
  by_cases hnil : q.items = []
  · rw [if_pos hnil]
    exact ⟨l, ps, remove_step (by simp) (if_pos (h.listEmpty_iff.mpr hnil)) (.done rfl), h⟩
  · rw [if_neg hnil]
    obtain ⟨l', ps', hremove, hrep⟩ := listRemoveFirstNode_spec h hnil
    exact ⟨l', ps', remove_finishes (h.listEmpty_iff.not.mpr hnil) hremove, hrep⟩

end

/-! ## Allocations -/

theorem OsList.dataOf_of_load {l : OsList α} {a : Nat} {node : OsListNode α}
    (h : l.load (some a) = .ok node) : l.dataOf a = some node.data := by
  rw [OsList.load] at h
  split at h
  · exact absurd h (by simp)
  · next hnode =>
    obtain rfl := Except.ok.inj h
    rw [OsList.dataOf, hnode]
    rfl

theorem update_live {l l' : OsList α} {p : Option Nat} {f : OsListNode α → OsListNode α}
    (h : l.update p f = .ok l') (b : Nat) : l'.heap.get b ≠ none ↔ l.heap.get b ≠ none := by
  cases p with
  | none => exact absurd h (by simp [OsList.update])
  | some a =>
    rw [OsList.update] at h
    split at h
    · exact absurd h (by simp)
    · next node hnode =>
      obtain rfl := Except.ok.inj h
      exact Heap.get_set_ne_none_iff l.heap (by simp [hnode])

/-- A push neither allocates nor frees behind its `calloc`. -/
theorem pushAct_live {k k' : PushPc α} {l l' : OsList (Option α)}
    (h : pushAct k l = .ok (k', l')) (b : Nat) :
    l'.heap.get b ≠ none ↔ l.heap.get b ≠ none := by
  cases k with
  | data | linkNext | linkPrev =>
    obtain ⟨l₁, h₁, h⟩ := bind_eq_ok.mp h
    obtain ⟨-, rfl⟩ := Prod.mk.inj (Except.ok.inj h)
    exact update_live h₁ b
  | empty a =>
    rw [pushAct] at h
    split at h
    all_goals
      obtain ⟨-, rfl⟩ := Prod.mk.inj (Except.ok.inj h)
      exact Iff.rfl
  | last | size | done =>
    obtain ⟨-, rfl⟩ := Prod.mk.inj (Except.ok.inj h)
    exact Iff.rfl

/-- A removal allocates nothing. -/
theorem removeAct_live {k k' : RemovePc} {l l' : OsList α} (h : removeAct k l = .ok (k', l'))
    {b : Nat} (hb : l'.heap.get b ≠ none) : l.heap.get b ≠ none := by
  cases k with
  | empty =>
    rw [removeAct] at h
    split at h
    all_goals
      obtain ⟨-, rfl⟩ := Prod.mk.inj (Except.ok.inj h)
      exact hb
  | next =>
    obtain ⟨node, -, h⟩ := bind_eq_ok.mp h
    obtain ⟨-, rfl⟩ := Prod.mk.inj (Except.ok.inj h)
    exact hb
  | unlink temp =>
    cases temp with
    | none =>
      obtain ⟨-, rfl⟩ := Prod.mk.inj (Except.ok.inj h)
      exact hb
    | some a =>
      obtain ⟨l₁, h₁, h⟩ := bind_eq_ok.mp h
      obtain ⟨-, rfl⟩ := Prod.mk.inj (Except.ok.inj h)
      exact (update_live h₁ b).mp hb
  | free temp =>
    obtain ⟨node, -, h⟩ := bind_eq_ok.mp h
    obtain ⟨-, rfl⟩ := Prod.mk.inj (Except.ok.inj h)
    cases hfirst : l.firstNode with
    | none =>
      rw [hfirst] at hb
      exact hb
    | some a =>
      rw [hfirst] at hb
      exact Heap.get_of_get_free hb
  | advance | size | done =>
    obtain ⟨-, rfl⟩ := Prod.mk.inj (Except.ok.inj h)
    exact hb

/-! ## Data -/

theorem update_dataOf {l l' : OsList α} {p : Option Nat} {f : OsListNode α → OsListNode α}
    (h : l.update p f = .ok l') {b : Nat}
    (hb : p ≠ some b ∨ ∀ node, (f node).data = node.data) : l'.dataOf b = l.dataOf b := by
  cases p with
  | none => exact absurd h (by simp [OsList.update])
  | some a =>
    rw [OsList.update] at h
    split at h
    · exact absurd h (by simp)
    · next node hnode =>
      obtain rfl := Except.ok.inj h
      show ((l.heap.set a (f node)).get b).map (·.data) = (l.heap.get b).map (·.data)
      by_cases hab : b = a
      · have hdata := hb.resolve_left fun hne => hne (congrArg some hab.symm)
        rw [hab, l.heap.get_set_self, hnode, Option.map_some, Option.map_some, hdata]
      · rw [l.heap.get_set_of_ne hab]

/-- A push stores data in its own node only. -/
theorem pushAct_dataOf {k k' : PushPc α} {l l' : OsList (Option α)}
    (h : pushAct k l = .ok (k', l')) {b : Nat} (hb : ∀ d, k ≠ .data b d) :
    l'.dataOf b = l.dataOf b := by
  cases k with
  | data a d =>
    obtain ⟨l₁, h₁, h⟩ := bind_eq_ok.mp h
    obtain ⟨-, rfl⟩ := Prod.mk.inj (Except.ok.inj h)
    exact update_dataOf h₁ (.inl fun hab => hb d (Option.some.inj hab ▸ rfl))
  | linkNext a | linkPrev a =>
    obtain ⟨l₁, h₁, h⟩ := bind_eq_ok.mp h
    obtain ⟨-, rfl⟩ := Prod.mk.inj (Except.ok.inj h)
    exact update_dataOf h₁ (.inr fun _ => rfl)
  | empty a =>
    rw [pushAct] at h
    split at h
    all_goals
      obtain ⟨-, rfl⟩ := Prod.mk.inj (Except.ok.inj h)
      rfl
  | last | size | done =>
    obtain ⟨-, rfl⟩ := Prod.mk.inj (Except.ok.inj h)
    rfl

/-- The line that stores the data comes first. -/
theorem pushAct_ne_data {k k' : PushPc α} {l l' : OsList (Option α)}
    (h : pushAct k l = .ok (k', l')) (a : Nat) (d : α) : k' ≠ .data a d := by
  cases k with
  | data | linkNext | linkPrev =>
    obtain ⟨l₁, -, h⟩ := bind_eq_ok.mp h
    obtain ⟨rfl, -⟩ := Prod.mk.inj (Except.ok.inj h)
    simp
  | empty =>
    rw [pushAct] at h
    split at h
    all_goals
      obtain ⟨rfl, -⟩ := Prod.mk.inj (Except.ok.inj h)
      simp
  | last | size | done =>
    obtain ⟨rfl, -⟩ := Prod.mk.inj (Except.ok.inj h)
    simp

end Gateway
end LinuxPrograming

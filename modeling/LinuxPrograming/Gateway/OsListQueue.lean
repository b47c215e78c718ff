import LinuxPrograming.Gateway.OsList

/-!
# `os_list` is a bounded queue

The representation invariant ties the two chains of nodes, the two end pointers and
the size to a bounded queue.  Every operation keeps it and answers as the queue does.
-/

namespace LinuxPrograming
namespace Gateway

open Lib

variable {α : Type}

namespace OsList

def nextOf (l : OsList α) (a : Nat) : Option (Option Nat) := (l.heap.get a).map (·.next)

def prevOf (l : OsList α) (a : Nat) : Option (Option Nat) := (l.heap.get a).map (·.prev)

def dataOf (l : OsList α) (a : Nat) : Option α := (l.heap.get a).map (·.data)

/-- `l` holds the queue `q` in the nodes `ps`, oldest first. -/
structure Rep (l : OsList α) (ps : List Nat) (q : BoundedQueue α) : Prop where
  next : Path l.nextOf l.firstNode ps none
  prev : Path l.prevOf l.lastNode ps.reverse none
  nodup : ps.Nodup
  data : ps.map l.dataOf = q.items.map some
  size : l.curSize = q.items.length
  cap : l.maxSize = q.cap
  live : ∀ a, (∃ node, l.heap.get a = some node) ↔ a ∈ ps

theorem load_some {l : OsList α} {a : Nat} {node : OsListNode α}
    (h : l.heap.get a = some node) : l.load (some a) = .ok node := by
  simp [load, h]

theorem update_some {l : OsList α} {a : Nat} {node : OsListNode α}
    (h : l.heap.get a = some node) (f : OsListNode α → OsListNode α) :
    l.update (some a) f = .ok { l with heap := l.heap.set a (f node) } := by
  simp [update, h]

namespace Rep

variable {l l' : OsList α} {ps : List Nat} {q : BoundedQueue α}

theorem length_eq (h : l.Rep ps q) : ps.length = q.items.length := by
  have hlen := congrArg List.length h.data
  rwa [List.length_map, List.length_map] at hlen

theorem nil_iff (h : l.Rep ps q) : ps = [] ↔ q.items = [] := by
  rw [← List.length_eq_zero_iff, h.length_eq, List.length_eq_zero_iff]

theorem firstNode_eq_none_iff (h : l.Rep ps q) : l.firstNode = none ↔ q.items = [] :=
  (path_null_iff h.next).trans h.nil_iff

theorem lastNode_eq_none_iff (h : l.Rep ps q) : l.lastNode = none ↔ q.items = [] :=
  (path_null_iff h.prev).trans (List.reverse_eq_nil_iff.trans h.nil_iff)

theorem listEmpty_iff (h : l.Rep ps q) : listEmpty l ↔ q.items = [] := by
  have hsize : l.curSize = 0 ↔ q.items = [] := by
    rw [h.size, ← List.length_eq_zero_iff]
    omega
  rw [listEmpty, hsize, h.firstNode_eq_none_iff, or_self]

theorem listFull_iff (h : l.Rep ps q) : listFull l ↔ q.IsFull := by
  rw [listFull, h.size, h.cap, BoundedQueue.IsFull]
  omega

theorem head_node {a : Nat} {as : List Nat} (h : l.Rep (a :: as) q) :
    l.firstNode = some a ∧ ∃ node, l.heap.get a = some node ∧ Path l.nextOf node.next as none ∧
      q.items.head? = some node.data := by
  obtain ⟨hfirst, r, hr, hrest⟩ := h.next
  obtain ⟨node, hnode, rfl⟩ := Option.map_eq_some_iff.mp hr
  refine ⟨hfirst, node, hnode, hrest, ?_⟩
  have hdata := congrArg List.head? h.data
  rw [List.map_cons, List.head?_cons, List.head?_map, dataOf, hnode] at hdata
  cases hq : q.items.head? with
  | none => rw [hq] at hdata; simp at hdata
  | some d => rw [hq] at hdata; simpa using hdata.symm

theorem last_node {as : List Nat} {z : Nat} (h : l.Rep (as ++ [z]) q) :
    l.lastNode = some z ∧ ∃ node, l.heap.get z = some node ∧
      Path l.prevOf node.prev as.reverse none ∧ Path l.nextOf l.firstNode as (some z) ∧
      node.next = none ∧ q.items.getLast? = some node.data := by
  have hprev := h.prev
  rw [List.reverse_append, List.reverse_singleton, List.singleton_append] at hprev
  obtain ⟨hlast, r, hr, hrest⟩ := hprev
  obtain ⟨node, hnode, rfl⟩ := Option.map_eq_some_iff.mp hr
  obtain ⟨s, hinit, hs⟩ := path_append.mp h.next
  obtain ⟨rfl, hz⟩ := path_singleton.mp hs
  have hnext : node.next = none := by
    rw [nextOf, hnode, Option.map_some, Option.some.injEq] at hz
    exact hz
  refine ⟨hlast, node, hnode, hrest, hinit, hnext, ?_⟩
  have hdata := congrArg List.getLast? h.data
  rw [List.map_append, List.map_singleton, List.getLast?_append, List.getLast?_singleton,
    List.getLast?_map, List.getLast?_map, dataOf, hnode] at hdata
  cases hq : q.items.getLast? with
  | none => rw [hq] at hdata; simp at hdata
  | some d => rw [hq] at hdata; simpa using hdata.symm

end Rep

end OsList

theorem listCreate_rep (cap : Nat) :
    (listCreate cap : OsList α).Rep [] (BoundedQueue.empty cap) where
  next := rfl
  prev := rfl
  nodup := List.nodup_nil
  data := rfl
  size := rfl
  cap := rfl
  live a := by simp [listCreate]

/-! ## Push -/

section

variable {l : OsList α} {ps : List Nat} {q : BoundedQueue α} {a : Nat}

theorem listPush_of_full (h : listFull l) (calloc : Option Nat) (d : α) :
    listPush l calloc d = .ok (l, .full) := if_pos h

theorem listPush_of_calloc_none (h : ¬ listFull l) (d : α) :
    listPush l none d = .ok (l, .fail) := if_neg h

theorem OsList.Rep.not_mem (h : l.Rep ps q) (ha : l.heap.get a = none) : a ∉ ps := by
  intro hmem
  obtain ⟨node, hnode⟩ := (h.live a).mpr hmem
  rw [ha] at hnode
  exact absurd hnode (by simp)

theorem listPush_nil (h : l.Rep [] q) (hfull : ¬ q.IsFull) (d : α) :
    ∃ l', listPush l (some a) d = .ok (l', .success) ∧ l'.Rep [a] (q.push d) := by
  have hitems : q.items = [] := h.nil_iff.mp rfl
  have hempty : listEmpty { l with heap := l.heap.set a ⟨none, none, d⟩ } :=
    h.listEmpty_iff.mpr hitems
  refine ⟨⟨l.heap.set a ⟨none, none, d⟩, some a, some a, l.curSize + 1, l.maxSize⟩, ?_,
    ?next, ?prev, ?nodup, ?data, ?size, ?cap, ?live⟩
  case next => exact path_singleton.mpr ⟨rfl, by simp [OsList.nextOf]⟩
  case prev => exact path_singleton.mpr ⟨rfl, by simp [OsList.prevOf]⟩
  case nodup => exact List.pairwise_singleton _ a
  case data => simp [OsList.dataOf, BoundedQueue.push_items hfull, hitems]
  case size => simp [BoundedQueue.push_items hfull, h.size]
  case cap => rw [BoundedQueue.push_cap]; exact h.cap
  case live =>
    intro b
    by_cases hb : b = a
    · simp [hb]
    · simpa [Heap.get_set_of_ne _ hb, hb] using h.live b
  · rw [listPush, if_neg (h.listFull_iff.not.mpr hfull)]
    dsimp only
    rw [if_pos hempty, pure_eq_ok, ok_bind]
    rfl

theorem listPush_append {as : List Nat} {z : Nat} (h : l.Rep (as ++ [z]) q)
    (hfull : ¬ q.IsFull) (ha : l.heap.get a = none) (d : α) :
    ∃ l', listPush l (some a) d = .ok (l', .success) ∧
      l'.Rep (as ++ [z] ++ [a]) (q.push d) := by
  obtain ⟨hlast, node, hnode, hprev, hinit, hnext, -⟩ := h.last_node
  have hmem := h.not_mem ha
  have hza : z ≠ a := fun e => hmem (by simp [e])
  have hzas : z ∉ as := fun hz => (List.nodup_append.mp h.nodup).2.2 z hz z (by simp) rfl
  have hne : ¬ listEmpty { l with heap := l.heap.set a ⟨none, none, d⟩ } := by
    intro he
    have hnil : q.items = [] := h.listEmpty_iff.mp he
    exact absurd (h.nil_iff.mpr hnil) (by simp)
  -- The heap after the three writes.
  obtain ⟨heap', hheap'⟩ : ∃ heap', heap' = ((l.heap.set a ⟨none, none, d⟩).set z
      { node with next := some a }).set a ⟨none, some z, d⟩ := ⟨_, rfl⟩
  have hgeta : heap'.get a = some ⟨none, some z, d⟩ := by rw [hheap', Heap.get_set_self]
  have hgetz : heap'.get z = some { node with next := some a } := by
    rw [hheap', Heap.get_set_of_ne _ hza, Heap.get_set_self]
  have hget : ∀ b, b ≠ a → b ≠ z → heap'.get b = l.heap.get b := by
    intro b hba hbz
    rw [hheap', Heap.get_set_of_ne _ hba, Heap.get_set_of_ne _ hbz, Heap.get_set_of_ne _ hba]
  have hmema : ∀ b ∈ as ++ [z], b ≠ a := fun b hb e => hmem (e ▸ hb)
  refine ⟨⟨heap', l.firstNode, some a, l.curSize + 1, l.maxSize⟩, ?_,
    ?next, ?prev, ?nodup, ?data, ?size, ?cap, ?live⟩
  case next =>
    rw [List.append_assoc]
    refine path_append.mpr ⟨some z, path_congr (fun b hb => ?_) hinit, rfl, some a, ?_, ?_⟩
    · have hbz : b ≠ z := fun e => hzas (e ▸ hb)
      rw [OsList.nextOf, OsList.nextOf, hget b (hmema b (by simp [hb])) hbz]
    · rw [OsList.nextOf, hgetz]; rfl
    · exact path_singleton.mpr ⟨rfl, by rw [OsList.nextOf, hgeta]; rfl⟩
  case prev =>
    rw [List.reverse_append, List.reverse_singleton, List.singleton_append]
    refine ⟨rfl, l.lastNode, ?_, path_congr (fun b hb => ?_) h.prev⟩
    · rw [OsList.prevOf, hgeta, hlast]; rfl
    · have hb' : b ∈ as ++ [z] := List.mem_reverse.mp hb
      by_cases hbz : b = z
      · rw [hbz, OsList.prevOf, OsList.prevOf, hgetz, hnode]; rfl
      · rw [OsList.prevOf, OsList.prevOf, hget b (hmema b hb') hbz]
  case nodup =>
    exact List.nodup_append.mpr ⟨h.nodup, List.pairwise_singleton _ a, fun b hb c hc => by
      rw [List.mem_singleton.mp hc]; exact hmema b hb⟩
  case data =>
    have hold : (as ++ [z]).map (OsList.dataOf ⟨heap', l.firstNode, some a, l.curSize + 1,
        l.maxSize⟩) = (as ++ [z]).map l.dataOf := by
      refine List.map_congr_left fun b hb => ?_
      by_cases hbz : b = z
      · rw [hbz, OsList.dataOf, OsList.dataOf, hgetz, hnode]; rfl
      · rw [OsList.dataOf, OsList.dataOf, hget b (hmema b hb) hbz]
    rw [List.map_append, hold, h.data, BoundedQueue.push_items hfull, List.map_append,
      List.map_singleton, OsList.dataOf, hgeta]
    rfl
  case size =>
    rw [BoundedQueue.push_items hfull, List.length_append, List.length_singleton]
    dsimp only
    rw [h.size]
    push_cast
    rfl
  case cap => rw [BoundedQueue.push_cap]; exact h.cap
  case live =>
    intro b
    by_cases hba : b = a
    · rw [hba, hgeta]; simp
    · by_cases hbz : b = z
      · rw [hbz, hgetz]; simp
      · rw [hget b hba hbz, h.live b]
        simp [hba]
  · rw [listPush, if_neg (h.listFull_iff.not.mpr hfull)]
    dsimp only
    rw [if_neg hne, hlast, OsList.update_some (Heap.get_set_of_ne _ hza _ ▸ hnode), ok_bind,
      OsList.update_some ((Heap.get_set_of_ne _ (Ne.symm hza) _).trans (Heap.get_set_self _ _ _)),
      ok_bind, pure_eq_ok, ok_bind, hheap']
    rfl

/-! ## Removal -/

theorem listRemoveFirstNode_of_empty (h : listEmpty l) :
    listRemoveFirstNode l = .ok (l, .noData) := if_pos h

theorem OsList.Rep.tail_data {as : List Nat} (h : l.Rep (a :: as) q) :
    as.map l.dataOf = q.pop.items.map some := by
  have hdata := congrArg List.tail h.data
  rwa [List.map_cons, List.tail_cons, ← List.map_tail] at hdata

theorem OsList.Rep.tail_size {as : List Nat} (h : l.Rep (a :: as) q) :
    l.curSize - 1 = q.pop.items.length := by
  have hlen := h.length_eq
  rw [List.length_cons] at hlen
  rw [h.size, BoundedQueue.pop_items, List.length_tail]
  omega

theorem listRemoveFirstNode_singleton (h : l.Rep [a] q) :
    ∃ l', listRemoveFirstNode l = .ok (l', .success) ∧ l'.Rep [] q.pop := by
  obtain ⟨hfirst, node, hnode, hrest, -⟩ := h.head_node
  have hne : ¬ listEmpty l :=
    fun he => absurd (h.nil_iff.mpr (h.listEmpty_iff.mp he)) (List.cons_ne_nil a [])
  have hnext : node.next = none := hrest
  refine ⟨⟨l.heap.free a, none, none, l.curSize - 1, l.maxSize⟩, ?_,
    rfl, rfl, List.nodup_nil, h.tail_data, h.tail_size, h.cap, fun b => ?_⟩
  · rw [listRemoveFirstNode, if_neg hne, hfirst, OsList.load_some hnode, ok_bind, hnext]
    rfl
  · by_cases hb : b = a
    · simp [hb]
    · simpa [Heap.get_free_of_ne _ hb, hb] using h.live b

theorem listRemoveFirstNode_cons {b : Nat} {bs : List Nat} (h : l.Rep (a :: b :: bs) q) :
    ∃ l', listRemoveFirstNode l = .ok (l', .success) ∧ l'.Rep (b :: bs) q.pop := by
  obtain ⟨hfirst, node, hnode, hnext, -⟩ := h.head_node
  obtain ⟨htemp, r, hr, hrest⟩ := hnext
  obtain ⟨second, hsecond, rfl⟩ := Option.map_eq_some_iff.mp hr
  obtain ⟨ha, hbs⟩ := List.nodup_cons.mp h.nodup
  have hne : ¬ listEmpty l :=
    fun he => absurd (h.nil_iff.mpr (h.listEmpty_iff.mp he)) (List.cons_ne_nil a _)
  have hba : b ≠ a := fun e => ha (by simp [e])
  obtain ⟨heap', hheap'⟩ : ∃ heap', heap' =
      (l.heap.set b { second with prev := none }).free a := ⟨_, rfl⟩
  have hgetb : heap'.get b = some { second with prev := none } := by
    rw [hheap', Heap.get_free_of_ne _ hba, Heap.get_set_self]
  have hget : ∀ c, c ≠ a → c ≠ b → heap'.get c = l.heap.get c := by
    intro c hca hcb
    rw [hheap', Heap.get_free_of_ne _ hca, Heap.get_set_of_ne _ hcb]
  have hmem : ∀ c ∈ b :: bs, c ≠ a := fun c hc e => ha (e ▸ hc)
  refine ⟨⟨heap', some b, l.lastNode, l.curSize - 1, l.maxSize⟩, ?_,
    ?next, ?prev, hbs, ?data, h.tail_size, h.cap, ?live⟩
  case next =>
    refine ⟨rfl, second.next, by rw [OsList.nextOf, hgetb]; rfl,
      path_congr (fun c hc => ?_) hrest⟩
    have hcb : c ≠ b := fun e => (List.nodup_cons.mp hbs).1 (e ▸ hc)
    rw [OsList.nextOf, OsList.nextOf, hget c (hmem c (by simp [hc])) hcb]
  case prev =>
    have hprev := h.prev
    rw [List.reverse_cons] at hprev
    obtain ⟨r, hrev, -⟩ := path_append.mp hprev
    rw [List.reverse_cons] at hrev
    obtain ⟨r', hrev', hb⟩ := path_append.mp hrev
    rw [List.reverse_cons]
    refine path_append.mpr ⟨r', path_congr (fun c hc => ?_) hrev',
      path_singleton.mpr ⟨hb.1, by rw [OsList.prevOf, hgetb]; rfl⟩⟩
    have hc' : c ∈ bs := List.mem_reverse.mp hc
    have hcb : c ≠ b := fun e => (List.nodup_cons.mp hbs).1 (e ▸ hc')
    rw [OsList.prevOf, OsList.prevOf, hget c (hmem c (by simp [hc'])) hcb]
  case data =>
    rw [← h.tail_data]
    refine List.map_congr_left fun c hc => ?_
    by_cases hcb : c = b
    · rw [hcb, OsList.dataOf, OsList.dataOf, hgetb, hsecond]; rfl
    · rw [OsList.dataOf, OsList.dataOf, hget c (hmem c hc) hcb]
  case live =>
    intro c
    by_cases hca : c = a
    · rw [hca, hheap', Heap.get_free_self]
      simp [ha]
    · by_cases hcb : c = b
      · rw [hcb, hgetb]; simp
      · rw [hget c hca hcb, h.live c]
        simp [hca]
  · rw [listRemoveFirstNode, if_neg hne, hfirst, OsList.load_some hnode, ok_bind, htemp]
    dsimp only
    rw [OsList.update_some hsecond, ok_bind, hheap']
    dsimp only
    rw [hfirst]
    rfl

/-! ## Clearing -/

theorem cleanLoop_spec {ps : List Nat} {l : OsList α}
    (hpath : Path l.nextOf l.firstNode ps none) (hnodup : ps.Nodup) :
    ∃ l', cleanLoop l = .ok l' ∧ l'.maxSize = l.maxSize ∧
      ∀ b, l'.heap.get b = if b ∈ ps then none else l.heap.get b := by
  induction ps generalizing l with
  | nil =>
    have hfirst : l.firstNode = none := hpath
    refine ⟨l, ?_, rfl, fun b => by simp⟩
    rw [cleanLoop, hfirst, pure_eq_ok]
  | cons a as ih =>
    obtain ⟨hfirst, r, hr, hrest⟩ := hpath
    obtain ⟨node, hnode, rfl⟩ := Option.map_eq_some_iff.mp hr
    obtain ⟨ha, has⟩ := List.nodup_cons.mp hnodup
    have hpath' : Path (OsList.nextOf
        { l with firstNode := node.next, heap := l.heap.free a }) node.next as none := by
      refine path_congr (fun b hb => ?_) hrest
      have hba : b ≠ a := fun e => ha (e ▸ hb)
      rw [OsList.nextOf, OsList.nextOf, Heap.get_free_of_ne _ hba]
    obtain ⟨l', hl', hmax, hheap⟩ := ih hpath' has
    refine ⟨l', ?_, hmax, fun b => ?_⟩
    · rw [cleanLoop, hfirst]
      dsimp only
      split
      · next hnone => rw [hnode] at hnone; exact absurd hnone (by simp)
      · next node' hnode' =>
        rw [hnode, Option.some.injEq] at hnode'
        rw [← hnode']
        exact hl'
    · rw [hheap]
      by_cases hba : b = a
      · simp [hba]
      · simp [hba, Heap.get_free_of_ne _ hba]

theorem listCleanNodes_spec (h : l.Rep ps q) (hne : q.items ≠ []) :
    ∃ l', listCleanNodes l = .ok (l', .success) ∧ l'.Rep [] q.clear := by
  obtain ⟨l', hl', hmax, hheap⟩ := cleanLoop_spec h.next h.nodup
  refine ⟨⟨l'.heap, none, none, 0, l'.maxSize⟩, ?_,
    rfl, rfl, List.nodup_nil, rfl, rfl, hmax.trans h.cap, fun b => ?_⟩
  · rw [listCleanNodes, if_neg (h.listEmpty_iff.not.mpr hne), hl', ok_bind]
    rfl
  · dsimp only
    rw [hheap]
    by_cases hb : b ∈ ps
    · simp [hb]
    · simpa [hb] using h.live b

end

/-! ## Every run -/

theorem listGetDataFirstNode_spec {l : OsList α} {ps : List Nat} {q : BoundedQueue α}
    (h : l.Rep ps q) : listGetDataFirstNode l = .ok q.items.head? := by
  cases ps with
  | nil =>
    have hitems := h.nil_iff.mp rfl
    rw [listGetDataFirstNode, h.firstNode_eq_none_iff.mpr hitems, hitems]
    rfl
  | cons a as =>
    obtain ⟨hfirst, node, hnode, -, hdata⟩ := h.head_node
    rw [listGetDataFirstNode, hfirst, hdata]
    dsimp only
    rw [OsList.load_some hnode, ok_bind, pure_eq_ok]

theorem listGetDataLastNode_spec {l : OsList α} {ps : List Nat} {q : BoundedQueue α}
    (h : l.Rep ps q) : listGetDataLastNode l = .ok q.items.getLast? := by
  rcases List.eq_nil_or_concat ps with rfl | ⟨as, z, rfl⟩
  · have hitems := h.nil_iff.mp rfl
    rw [listGetDataLastNode, h.lastNode_eq_none_iff.mpr hitems, hitems]
    rfl
  · rw [List.concat_eq_append] at h
    obtain ⟨hlast, node, hnode, -, -, -, hdata⟩ := h.last_node
    rw [listGetDataLastNode, hlast, hdata]
    dsimp only
    rw [OsList.load_some hnode, ok_bind, pure_eq_ok]

theorem listPush_spec {l : OsList α} {ps : List Nat} {q : BoundedQueue α} (h : l.Rep ps q)
    (hfull : ¬ q.IsFull) {a : Nat} (ha : l.heap.get a = none) (d : α) :
    ∃ l' ps', listPush l (some a) d = .ok (l', .success) ∧ l'.Rep ps' (q.push d) := by
  rcases List.eq_nil_or_concat ps with rfl | ⟨as, z, rfl⟩
  · obtain ⟨l', hl', hrep⟩ := listPush_nil h hfull d
    exact ⟨l', _, hl', hrep⟩
  · rw [List.concat_eq_append] at h
    obtain ⟨l', hl', hrep⟩ := listPush_append h hfull ha d
    exact ⟨l', _, hl', hrep⟩

theorem listRemoveFirstNode_spec {l : OsList α} {ps : List Nat} {q : BoundedQueue α}
    (h : l.Rep ps q) (hne : q.items ≠ []) :
    ∃ l' ps', listRemoveFirstNode l = .ok (l', .success) ∧ l'.Rep ps' q.pop := by
  cases ps with
  | nil => exact absurd (h.nil_iff.mp rfl) hne
  | cons a as =>
    cases as with
    | nil =>
      obtain ⟨l', hl', hrep⟩ := listRemoveFirstNode_singleton h
      exact ⟨l', _, hl', hrep⟩
    | cons b bs =>
      obtain ⟨l', hl', hrep⟩ := listRemoveFirstNode_cons h
      exact ⟨l', _, hl', hrep⟩

theorem listStep_spec {l : OsList α} {q : BoundedQueue α} (h : ∃ ps, l.Rep ps q)
    {op : ListOp α} (hop : op.Legal l) :
    ∃ l', listStep l op = .ok (l', (queueStep q op).2) ∧ ∃ ps, l'.Rep ps (queueStep q op).1 := by
  obtain ⟨ps, h⟩ := h
  cases op with
  | push calloc d =>
    rw [listStep, queueStep]
    by_cases hfull : q.IsFull
    · rw [if_pos hfull, listPush_of_full (h.listFull_iff.mpr hfull)]
      exact ⟨l, rfl, ps, h⟩
    · rw [if_neg hfull]
      cases calloc with
      | none =>
        rw [if_pos rfl, listPush_of_calloc_none (h.listFull_iff.not.mpr hfull)]
        exact ⟨l, rfl, ps, h⟩
      | some a =>
        obtain ⟨l', ps', hl', hrep⟩ := listPush_spec h hfull hop d
        rw [if_neg (Option.some_ne_none a), hl']
        exact ⟨l', rfl, ps', hrep⟩
  | removeFirstNode =>
    rw [listStep, queueStep]
    by_cases hnil : q.items = []
    · rw [if_pos hnil, listRemoveFirstNode_of_empty (h.listEmpty_iff.mpr hnil)]
      exact ⟨l, rfl, ps, h⟩
    · obtain ⟨l', ps', hl', hrep⟩ := listRemoveFirstNode_spec h hnil
      rw [if_neg hnil, hl']
      exact ⟨l', rfl, ps', hrep⟩
  | cleanNodes =>
    rw [listStep, queueStep]
    by_cases hnil : q.items = []
    · rw [if_pos hnil, listCleanNodes, if_pos (h.listEmpty_iff.mpr hnil)]
      exact ⟨l, rfl, ps, h⟩
    · obtain ⟨l', hl', hrep⟩ := listCleanNodes_spec h hnil
      rw [if_neg hnil, hl']
      exact ⟨l', rfl, [], hrep⟩
  | getDataFirstNode =>
    rw [listStep, listGetDataFirstNode_spec h]
    exact ⟨l, rfl, ps, h⟩
  | getDataLastNode =>
    rw [listStep, listGetDataLastNode_spec h]
    exact ⟨l, rfl, ps, h⟩

theorem queueStep_cap (q : BoundedQueue α) (op : ListOp α) : (queueStep q op).1.cap = q.cap := by
  cases op <;> rw [queueStep] <;> (try split_ifs) <;> simp

theorem specAnswers_cap (q : BoundedQueue α) (ops : List (ListOp α)) :
    (specAnswers queueStep q ops).1.cap = q.cap := by
  induction ops generalizing q with
  | nil => rfl
  | cons op ops ih => exact (ih _).trans (queueStep_cap q op)

namespace OsList.Rep

variable {l : OsList α} {ps : List Nat} {q : BoundedQueue α}

theorem curSize_bounds (h : l.Rep ps q) :
    l.curSize = ps.length ∧ 0 ≤ l.curSize ∧ l.curSize ≤ l.maxSize := by
  have hle := q.length_le
  rw [h.size, h.cap, h.length_eq]
  omega

/-- The codes of `list_push`, and the list after a push that failed. -/
theorem listPush_codes (h : l.Rep ps q) {calloc : Option Nat}
    (hfresh : ∀ a, calloc = some a → l.heap.get a = none) (d : α) :
    ∃ l' c, listPush l calloc d = .ok (l', c) ∧
      (c = .full ↔ (q.items.length : Int) = l.maxSize) ∧
      (c = .fail ↔ (q.items.length : Int) ≠ l.maxSize ∧ calloc = none) ∧
      (c = .full ∨ c = .fail → l' = l) := by
  have hiff : (q.items.length : Int) = l.maxSize ↔ q.IsFull := by
    rw [h.cap, BoundedQueue.IsFull]
    omega
  rw [hiff, ne_eq, hiff]
  by_cases hfull : q.IsFull
  · refine ⟨l, .full, listPush_of_full (h.listFull_iff.mpr hfull) calloc d, ?_⟩
    simp [hfull]
  · cases calloc with
    | none =>
      refine ⟨l, .fail, listPush_of_calloc_none (h.listFull_iff.not.mpr hfull) d, ?_⟩
      simp [hfull]
    | some a =>
      obtain ⟨l', ps', hl', -⟩ := listPush_spec h hfull (hfresh a rfl) d
      refine ⟨l', .success, hl', ?_⟩
      simp [hfull]

/-- The codes of `list_remove_first_node`, and the list after a removal that failed. -/
theorem listRemoveFirstNode_codes (h : l.Rep ps q) :
    ∃ l' c, listRemoveFirstNode l = .ok (l', c) ∧ (c = .noData ↔ q.items = []) ∧
      (c = .noData → l' = l) := by
  by_cases hnil : q.items = []
  · exact ⟨l, .noData, listRemoveFirstNode_of_empty (h.listEmpty_iff.mpr hnil),
      by simp [hnil], fun _ => rfl⟩
  · obtain ⟨l', ps', hl', -⟩ := listRemoveFirstNode_spec h hnil
    exact ⟨l', .success, hl', by simp [hnil], fun hc => absurd hc (by decide)⟩

end OsList.Rep

/-- After any run of operations on a list made by `list_create(size)`, none of which makes
an invalid access, both chains are one sequence of nodes without duplicates, the sizes
and end pointers agree with it, its data and all answers are those of a bounded queue,
and the failing codes come exactly when they should and leave the list as it was. -/
theorem osList_refines_queue (size : Int) (hsize : 0 ≤ size) (ops : List (ListOp α))
    (hops : Allowed listStep (fun l op => op.Legal l) (listCreate size) ops) :
    ∃ l out ps q, answers listStep (listCreate size) ops = .ok (l, out) ∧
      specAnswers queueStep (BoundedQueue.empty size.toNat) ops = (q, out) ∧
      l.Rep ps q ∧ l.maxSize = size ∧
      (l.curSize = ps.length ∧ 0 ≤ l.curSize ∧ l.curSize ≤ l.maxSize) ∧
      ((l.firstNode = none ↔ ps = []) ∧ (l.lastNode = none ↔ ps = [])) ∧
      (∀ calloc, (∀ a, calloc = some a → l.heap.get a = none) → ∀ d,
        ∃ l' c, listPush l calloc d = .ok (l', c) ∧
          (c = .full ↔ (q.items.length : Int) = l.maxSize) ∧
          (c = .fail ↔ (q.items.length : Int) ≠ l.maxSize ∧ calloc = none) ∧
          (c = .full ∨ c = .fail → l' = l)) ∧
      ∃ l' c, listRemoveFirstNode l = .ok (l', c) ∧ (c = .noData ↔ q.items = []) ∧
        (c = .noData → l' = l) := by
  obtain ⟨cap, rfl⟩ := Int.eq_ofNat_of_zero_le hsize
  rw [Int.toNat_natCast]
  obtain ⟨l, hrun, ps, hrep⟩ := answers_refines (fun _ _ _ h hop => listStep_spec h hop)
    ⟨[], listCreate_rep cap⟩ hops
  have hcap := congrArg (Nat.cast : Nat → Int) (specAnswers_cap (BoundedQueue.empty cap) ops)
  exact ⟨l, _, ps, _, hrun, rfl, hrep, hrep.cap.trans hcap, hrep.curSize_bounds,
    ⟨path_null_iff hrep.next, (path_null_iff hrep.prev).trans List.reverse_eq_nil_iff⟩,
    fun _ hfresh d => hrep.listPush_codes hfresh d, hrep.listRemoveFirstNode_codes⟩

/-- A list of size 1 takes one value, refuses the next and gives the first one back. -/
theorem osList_refines_queue_one :
    ∃ l, answers listStep (listCreate 1 : OsList Nat)
        [.push (some 40) 7, .push (some 41) 8, .getDataFirstNode, .removeFirstNode,
          .removeFirstNode] =
      .ok (l, [.code .success, .code .full, .data (some 7), .code .success, .code .noData]) := by
  obtain ⟨l, out, _, _, hrun, hspec, -⟩ := osList_refines_queue 1 (by decide)
    [.push (some 40) 7, .push (some 41) 8, .getDataFirstNode, .removeFirstNode,
      .removeFirstNode]
    (⟨rfl, rfl, Option.some_ne_none 40, trivial, trivial, trivial⟩ :
      _ = _ ∧ _ = _ ∧ _ ≠ _ ∧ True ∧ True ∧ True)
  have hout : out = [.code .success, .code .full, .data (some 7), .code .success,
      .code .noData] := (congrArg Prod.snd hspec).symm
  exact ⟨l, hout ▸ hrun⟩

end Gateway
end LinuxPrograming

import LinuxPrograming.Gateway.Memory
import LinuxPrograming.Lib.Heap
import LinuxPrograming.Lib.Queue
import LinuxPrograming.Lib.Simulation

/-!
# `os_list.c`

The nodes live in a heap, and the pointers of the list and of its nodes are
addresses.  `calloc` is an argument of the operations: the address it returned, or
`none` when it failed.  `list->mutex` is held for the whole of every operation, so
each of them is one step.
-/

namespace LinuxPrograming
namespace Gateway

open Lib

/-- `os_list_node`. -/
structure OsListNode (α : Type) where
  next : Option Nat
  prev : Option Nat
  data : α

/-- `os_list`, together with the heap of its nodes. -/
structure OsList (α : Type) where
  heap : Heap (OsListNode α)
  firstNode : Option Nat
  lastNode : Option Nat
  curSize : Int
  maxSize : Int

/-- `LIST_SUCCESS`, `LIST_FAIL`, `LIST_NODATA` and `LIST_FULL`. -/
inductive ListCode where
  | success
  | fail
  | noData
  | full
  deriving DecidableEq, Repr

variable {α : Type}

namespace OsList

/-- The node a pointer leads to. -/
def load (l : OsList α) : Option Nat → Checked (OsListNode α)
  | none => throw .null
  | some a =>
    match l.heap.get a with
    | none => throw .freed
    | some node => pure node

/-- Write fields of the node a pointer leads to. -/
def update (l : OsList α) (p : Option Nat) (f : OsListNode α → OsListNode α) :
    Checked (OsList α) :=
  match p with
  | none => throw .null
  | some a =>
    match l.heap.get a with
    | none => throw .freed
    | some node => pure { l with heap := l.heap.set a (f node) }

/-- `free(p)`. -/
def free (l : OsList α) : Option Nat → OsList α
  | none => l
  | some a => { l with heap := l.heap.free a }

end OsList

/-- `list_create(size)`. -/
def listCreate (size : Int) : OsList α where
  heap := Heap.empty
  firstNode := none
  lastNode := none
  curSize := 0
  maxSize := size

/-- `list_full`. -/
def listFull (l : OsList α) : Prop := l.curSize = l.maxSize

/-- `list_empty`. -/
def listEmpty (l : OsList α) : Prop := l.curSize = 0 ∨ l.firstNode = none

instance (l : OsList α) : Decidable (listFull l) := inferInstanceAs (Decidable (_ = _))

instance (l : OsList α) : Decidable (listEmpty l) := inferInstanceAs (Decidable (_ ∨ _))

/-- `_list_push`, and `list_push` with it: the broadcast that follows a success changes
no field. -/
def listPush (l : OsList α) (calloc : Option Nat) (data : α) :
    Checked (OsList α × ListCode) :=
  if listFull l then pure (l, .full)
  else
    match calloc with
    | none => pure (l, .fail)
    | some newnode => do
      let l := { l with heap := l.heap.set newnode ⟨none, none, data⟩ }
      let l ←
        if listEmpty l then
          pure { l with firstNode := some newnode, lastNode := some newnode }
        else do
          let l ← l.update l.lastNode fun node => { node with next := some newnode }
          let l ← l.update (some newnode) fun node => { node with prev := l.lastNode }
          pure { l with lastNode := some newnode }
      pure ({ l with curSize := l.curSize + 1 }, .success)

/-- `list_get_data_first_node`.  It waits while there is no first node, which is the
answer `none`. -/
def listGetDataFirstNode (l : OsList α) : Checked (Option α) :=
  match l.firstNode with
  | none => pure none
  | some first => do
    let node ← l.load (some first)
    pure (some node.data)

/-- `list_get_data_last_node`, with `none` for NULL. -/
def listGetDataLastNode (l : OsList α) : Checked (Option α) :=
  match l.lastNode with
  | none => pure none
  | some last => do
    let node ← l.load (some last)
    pure (some node.data)

/-- `list_remove_first_node`. -/
def listRemoveFirstNode (l : OsList α) : Checked (OsList α × ListCode) :=
  if listEmpty l then pure (l, .noData)
  else do
    let temp := (← l.load l.firstNode).next
    let l ←
      match temp with
      | some _ => l.update temp fun node => { node with prev := none }
      | none => pure { l with lastNode := temp }
    let l := l.free l.firstNode
    pure ({ l with firstNode := temp, curSize := l.curSize - 1 }, .success)

/-- The loop of `list_clean_nodes`.  Each turn frees a live node. -/
def cleanLoop (l : OsList α) : Checked (OsList α) :=
  match l.firstNode with
  | none => pure l
  | some temp =>
    match _h : l.heap.get temp with
    | none => throw .freed
    | some node => cleanLoop { l with firstNode := node.next, heap := l.heap.free temp }
termination_by l.heap.cells.length
decreasing_by exact Heap.length_free_lt _h

/-- `list_clean_nodes`. -/
def listCleanNodes (l : OsList α) : Checked (OsList α × ListCode) :=
  if listEmpty l then pure (l, .noData)
  else do
    let l ← cleanLoop l
    pure ({ l with curSize := 0, firstNode := none, lastNode := none }, .success)

/-! ## Operations and their specification -/

inductive ListOp (α : Type) where
  | push (calloc : Option Nat) (data : α)
  | removeFirstNode
  | cleanNodes
  | getDataFirstNode
  | getDataLastNode

inductive ListAnswer (α : Type) where
  | code (c : ListCode)
  | data (d : Option α)

def listStep (l : OsList α) : ListOp α → Checked (OsList α × ListAnswer α)
  | .push calloc data => do
    let (l, c) ← listPush l calloc data
    pure (l, .code c)
  | .removeFirstNode => do
    let (l, c) ← listRemoveFirstNode l
    pure (l, .code c)
  | .cleanNodes => do
    let (l, c) ← listCleanNodes l
    pure (l, .code c)
  | .getDataFirstNode => do
    let d ← listGetDataFirstNode l
    pure (l, .data d)
  | .getDataLastNode => do
    let d ← listGetDataLastNode l
    pure (l, .data d)

/-- `calloc` returns memory that is not in use, and `list_get_data_first_node` is called
on a list with a first node. -/
def ListOp.Legal (l : OsList α) : ListOp α → Prop
  | .push (some a) _ => l.heap.get a = none
  | .getDataFirstNode => l.firstNode ≠ none
  | _ => True

/-- What the operations mean for a bounded queue. -/
def queueStep (q : BoundedQueue α) : ListOp α → BoundedQueue α × ListAnswer α
  | .push calloc data =>
    if q.IsFull then (q, .code .full)
    else if calloc = none then (q, .code .fail)
    else (q.push data, .code .success)
  | .removeFirstNode =>
    if q.items = [] then (q, .code .noData) else (q.pop, .code .success)
  | .cleanNodes =>
    if q.items = [] then (q, .code .noData) else (q.clear, .code .success)
  | .getDataFirstNode => (q, .data q.items.head?)
  | .getDataLastNode => (q, .data q.items.getLast?)

end Gateway
end LinuxPrograming

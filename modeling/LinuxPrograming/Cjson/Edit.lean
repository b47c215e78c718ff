import LinuxPrograming.Cjson.Tree
import LinuxPrograming.Lib.Simulation

/-!
# Editing arrays and objects

The functions of cJSON that add an item to an array or an object, insert one, take one out, delete
one or replace one.  They change the links of the children in place.  The caller holds the items
that are in no array, and names them by their place in `pool`.
-/

namespace LinuxPrograming
namespace Cjson

open Lib Gateway

/-! ## The functions -/

/-- `p->next = q`, unless `p` is `NULL`. -/
def setNext (h : Heap Node) (p q : Option Nat) : Checked (Heap Node) :=
  if p = none then pure h else update h p fun node => { node with next := q }

/-- `p->prev = q`, unless `p` is `NULL`. -/
def setPrev (h : Heap Node) (p q : Option Nat) : Checked (Heap Node) :=
  if p = none then pure h else update h p fun node => { node with prev := q }

/-- `if (item == parent->child) parent->child = q`. -/
def moveChild (h : Heap Node) (parent item : Nat) (q : Option Nat) : Checked (Heap Node) := do
  let container ← load h (some parent)
  if container.child = some item then
    update h (some parent) fun container => { container with child := q }
  else pure h

/-- The loop of `add_item_to_array`. -/
def lastItem (h : Heap Node) : Nat → Nat → Checked Nat
  | 0, _ => throw .index
  | fuel + 1, child => do
    let node ← load h (some child)
    match node.next with
    | none => pure child
    | some next => lastItem h fuel next

/-- `suffix_object(prev, item)`. -/
def suffixObject (h : Heap Node) (prev item : Option Nat) : Checked (Heap Node) := do
  let h ← update h prev fun node => { node with next := item }
  update h item fun node => { node with prev := prev }

/-- `add_item_to_array(array, item)`. -/
def addItemToArray (h : Heap Node) (array item : Option Nat) : Checked (Heap Node × Bool) :=
  match array, item with
  | some array, some item => do
    let node ← load h (some array)
    match node.child with
    | none => do
      let h ← update h (some array) fun node => { node with child := some item }
      pure (h, true)
    | some child => do
      let child ← lastItem h h.cells.length child
      let h ← suffixObject h (some child) (some item)
      pure (h, true)
  | _, _ => pure (h, false)

/-- `type & ~cJSON_StringIsConst`. -/
def clearConst (type : Nat) : Nat := type ^^^ (type &&& cJSONStringIsConst)

/-- The data with the copy of a name, or with `NULL` if there was no memory for one. -/
def Data.rename (data : Data) (string : Option Bytes) : Data :=
  { data with type := clearConst data.type, string }

/-- `cJSON_AddItemToObject(object, string, item)`.  `memory` says whether `cJSON_strdup` gets
memory. -/
def addItemToObject (h : Heap Node) (memory : Bool) (object : Option Nat) (string : Bytes)
    (item : Option Nat) : Checked (Heap Node × Bool) :=
  match object, item with
  | some object, some item =>
    if memory then do
      let h ← update h (some item) fun node => { node with data := node.data.rename (some string) }
      addItemToArray h (some object) (some item)
    else pure (h, false)
  | _, _ => pure (h, false)

/-- `cJSON_DetachItemViaPointer(parent, item)`. -/
def detachItemViaPointer (h : Heap Node) (parent item : Option Nat) :
    Checked (Heap Node × Option Nat) :=
  match parent, item with
  | some parent, some item => do
    let node ← load h (some item)
    let h ← setNext h node.prev node.next
    let node ← load h (some item)
    let h ← setPrev h node.next node.prev
    let node ← load h (some item)
    let h ← moveChild h parent item node.next
    let h ← update h (some item) fun node => { node with prev := none, next := none }
    pure (h, some item)
  | _, _ => pure (h, none)

/-- `cJSON_DetachItemFromArray(array, which)`. -/
def detachItemFromArray (h : Heap Node) (array : Option Nat) (which : Int) :
    Checked (Heap Node × Option Nat) := do
  let item ← getArrayItem h array which
  detachItemViaPointer h array item

/-- `cJSON_DetachItemFromObject` and `cJSON_DetachItemFromObjectCaseSensitive`. -/
def detachItemFromObject (h : Heap Node) (object : Option Nat) (string : Bytes)
    (caseSensitive : Bool) : Checked (Heap Node × Option Nat) := do
  let item ← getObjectItem h object string caseSensitive
  detachItemViaPointer h object item

/-- `cJSON_InsertItemInArray(array, which, newitem)`.  The result says whether the item is in the
array now, which C does not tell. -/
def insertItemInArray (h : Heap Node) (array : Option Nat) (which : Int) (newitem : Option Nat) :
    Checked (Heap Node × Bool) :=
  if which < 0 then pure (h, false)
  else do
    let afterInserted ← getArrayItem h array which
    match afterInserted with
    | none => addItemToArray h array newitem
    | some afterInserted => do
      let h ← update h newitem fun node => { node with next := some afterInserted }
      let after ← load h (some afterInserted)
      let h ← update h newitem fun node => { node with prev := after.prev }
      let h ← update h (some afterInserted) fun node => { node with prev := newitem }
      let container ← load h array
      if container.child = some afterInserted then do
        let h ← update h array fun container => { container with child := newitem }
        pure (h, true)
      else do
        let new ← load h newitem
        let h ← update h new.prev fun node => { node with next := newitem }
        pure (h, true)

/-- `cJSON_ReplaceItemViaPointer(parent, item, replacement)`. -/
def replaceItemViaPointer (h : Heap Node) (parent item replacement : Option Nat) :
    Checked (Heap Node × Bool) :=
  match parent, item, replacement with
  | some parent, some item, some replacement =>
    if replacement = item then pure (h, true)
    else do
      let node ← load h (some item)
      let h ← update h (some replacement) fun new => { new with next := node.next }
      let node ← load h (some item)
      let h ← update h (some replacement) fun new => { new with prev := node.prev }
      let new ← load h (some replacement)
      let h ← setPrev h new.next (some replacement)
      let new ← load h (some replacement)
      let h ← setNext h new.prev (some replacement)
      let h ← moveChild h parent item (some replacement)
      let h ← update h (some item) fun node => { node with next := none, prev := none }
      let h ← cJSONDelete h (some item)
      pure (h, true)
  | _, _, _ => pure (h, false)

/-- `cJSON_ReplaceItemInArray(array, which, newitem)`.  The result says whether the item is in the
array now, which C does not tell. -/
def replaceItemInArray (h : Heap Node) (array : Option Nat) (which : Int) (newitem : Option Nat) :
    Checked (Heap Node × Bool) :=
  if which < 0 then pure (h, false)
  else do
    let item ← getArrayItem h array which
    replaceItemViaPointer h array item newitem

/-- `cJSON_ReplaceItemInObject` and `cJSON_ReplaceItemInObjectCaseSensitive`.  The item gets the
name first, also when there is no item to be replaced.  The result says whether the item is in the
object now, which C does not tell. -/
def replaceItemInObject (h : Heap Node) (memory : Bool) (object : Option Nat) (string : Bytes)
    (replacement : Option Nat) (caseSensitive : Bool) : Checked (Heap Node × Bool) :=
  match replacement with
  | none => pure (h, false)
  | some replacement => do
    let name := if memory then some string else none
    let h ← update h (some replacement) fun node => { node with data := node.data.rename name }
    let item ← getObjectItem h object string caseSensitive
    replaceItemViaPointer h object item (some replacement)

variable {h : Heap Node} {ts : List Tree} {prev next : Option Nat} {rest : Multiset (Nat × Node)}

/-! ## Links -/

theorem update_holds {a : Nat} {node : Node} (hh : h.Holds ({(a, node)} + rest))
    (f : Node → Node) :
    ∃ h', update h (some a) f = .ok h' ∧ h'.Holds ({(a, f node)} + rest) :=
  ⟨_, update_of_get hh.get f, hh.set _⟩

/-- What is written to the root of a tree. -/
theorem update_tree {t t' : Tree} {prev' next' : Option Nat}
    (hh : h.Holds (t.cells prev next + rest)) (haddr : t'.addr = t.addr)
    (hchild : t'.child = t.child) (f : Node → Node)
    (hf : f ⟨next, prev, first t.child none, t.data⟩ =
      ⟨next', prev', first t.child none, t'.data⟩) :
    ∃ h', update h (some t.addr) f = .ok h' ∧ h'.Holds (t'.cells prev' next' + rest) := by
  rw [t.cells_eq, add_assoc] at hh
  obtain ⟨h', hupdate, hh'⟩ := update_holds hh f
  refine ⟨h', hupdate, ?_⟩
  rw [t'.cells_eq, hchild, haddr, add_assoc, ← hf]
  exact hh'

theorem load_tree {t : Tree} (hh : h.Holds (t.cells prev next + rest)) :
    load h (some t.addr) = .ok ⟨next, prev, first t.child none, t.data⟩ := by
  rw [t.cells_eq, add_assoc] at hh
  exact load_of_get hh.get

theorem last_cons_ne_none (t : Tree) (ts : List Tree) : last none (t :: ts) ≠ none := by
  induction ts generalizing t with
  | nil => exact Option.some_ne_none _
  | cons u us ih => exact ih u

/-- Two items that are there at the same time. -/
theorem addr_ne {t u : Tree} {prev' next' : Option Nat}
    (hh : h.Holds (t.cells prev next + (u.cells prev' next' + rest))) : t.addr ≠ u.addr := by
  have htwo : h.Holds ({(t.addr, ⟨next, prev, first t.child none, t.data⟩)} +
      ({(u.addr, ⟨next', prev', first u.child none, u.data⟩)} +
        (chain none t.child none + chain none u.child none + rest))) := by
    refine hh.congr ?_
    rw [t.cells_eq, u.cells_eq]
    abel
  exact htwo.ne

/-- The item behind `ts` changes. -/
theorem setNext_chain (hh : h.Holds (chain prev ts next + rest)) (q : Option Nat) :
    ∃ h', setNext h (last none ts) q = .ok h' ∧ h'.Holds (chain prev ts q + rest) := by
  induction ts generalizing prev rest with
  | nil => exact ⟨h, rfl, hh⟩
  | cons t ts ih =>
    cases ts with
    | nil =>
      rw [chain_cons, add_assoc] at hh
      have hupdate : setNext h (last none [t]) q =
          update h (some t.addr) fun node => { node with next := q } := rfl
      rw [hupdate, chain_cons, add_assoc]
      exact update_tree hh rfl rfl _ rfl
    | cons u us =>
      have hrest : h.Holds (chain (some t.addr) (u :: us) next +
          (t.cells prev (some u.addr) + rest)) := by
        refine hh.congr ?_
        rw [chain_cons prev t]
        show t.cells prev (some u.addr) + _ + rest = _
        abel
      obtain ⟨h', hset, hh'⟩ := ih hrest
      refine ⟨h', hset, hh'.congr ?_⟩
      rw [chain_cons prev t]
      show _ + (t.cells prev (some u.addr) + rest) = t.cells prev (some u.addr) + _ + rest
      abel

/-- The item in front of `ts` changes. -/
theorem setPrev_chain (hh : h.Holds (chain prev ts next + rest)) (q : Option Nat) :
    ∃ h', setPrev h (first ts none) q = .ok h' ∧ h'.Holds (chain q ts next + rest) := by
  cases ts with
  | nil => exact ⟨h, rfl, hh⟩
  | cons t ts =>
    rw [chain_cons, add_assoc] at hh ⊢
    exact update_tree hh rfl rfl _ rfl

theorem lastItem_spine {t : Tree} (hh : h.Holds (spine prev (t :: ts) none + rest)) {fuel : Nat}
    (hfuel : (t :: ts).length ≤ fuel) :
    ∃ a, last none (t :: ts) = some a ∧ lastItem h fuel t.addr = .ok a := by
  induction ts generalizing t prev rest fuel with
  | nil =>
    obtain ⟨fuel, rfl⟩ := Nat.exists_eq_succ_of_ne_zero (n := fuel) (by simp at hfuel; omega)
    refine ⟨t.addr, rfl, ?_⟩
    rw [lastItem, load_of_get (holds_cons hh).1]
    rfl
  | cons u us ih =>
    obtain ⟨fuel, rfl⟩ := Nat.exists_eq_succ_of_ne_zero (n := fuel) (by simp at hfuel; omega)
    obtain ⟨hget, hrest⟩ := holds_cons hh
    obtain ⟨a, hlast, hitem⟩ := ih hrest (Nat.le_of_succ_le_succ hfuel)
    refine ⟨a, hlast, ?_⟩
    rw [lastItem, load_of_get hget]
    exact hitem

/-! ## One call -/

variable {a : Nat} {node : Node} {t r : Tree} {pre post : List Tree}

/-- The array `a` with the children `ts`. -/
def holder (a : Nat) (node : Node) (ts : List Tree) : Multiset (Nat × Node) :=
  {(a, { node with child := first ts none })} + chain none ts none

theorem load_holder (hh : h.Holds (holder a node ts + rest)) :
    load h (some a) = .ok { node with child := first ts none } := by
  rw [holder, add_assoc] at hh
  exact load_of_get hh.get

theorem addItemToArray_holder (hh : h.Holds (holder a node ts + (t.cells none none + rest))) :
    ∃ h', addItemToArray h (some a) (some t.addr) = .ok (h', true) ∧
      h'.Holds (holder a node (ts ++ [t]) + rest) := by
  rw [addItemToArray, load_holder hh, ok_bind]
  cases ts with
  | nil =>
    rw [holder, add_assoc] at hh
    obtain ⟨h', hupdate, hh'⟩ := update_holds hh fun node => { node with child := some t.addr }
    refine ⟨h', ?_, hh'.congr ?_⟩
    · show (update h (some a) _ >>= fun h => pure (h, true)) = _
      rw [hupdate, ok_bind, pure_eq_ok]
    · show _ = {(a, { node with child := some t.addr })} + (t.cells none none + 0) + rest
      rw [show chain none [] none = 0 from rfl]
      abel
  | cons u us =>
    have hchain : h.Holds (chain none (u :: us) none +
        ({(a, { node with child := first (u :: us) none })} + (t.cells none none + rest))) := by
      refine hh.congr ?_
      rw [holder]
      abel
    obtain ⟨b, hb, hlast⟩ := lastItem_spine (spine_of_chain hchain)
      (length_le_cells (spine_of_chain hchain))
    obtain ⟨h₁, hnext, hh₁⟩ := setNext_chain hchain (some t.addr)
    rw [hb] at hnext
    have hitem : h₁.Holds (t.cells none none + (chain none (u :: us) (some t.addr) +
        ({(a, { node with child := first (u :: us) none })} + rest))) := by
      refine hh₁.congr ?_
      abel
    obtain ⟨h₂, hprev, hh₂⟩ := update_tree hitem rfl rfl
      (fun node => { node with prev := some b }) rfl
    refine ⟨h₂, ?_, hh₂.congr ?_⟩
    · show (lastItem h _ u.addr >>= fun child => suffixObject h (some child) (some t.addr) >>=
        fun h => pure (h, true)) = _
      rw [hlast, ok_bind, suffixObject]
      change update h (some b) _ = _ at hnext
      rw [hnext, ok_bind, hprev, ok_bind, pure_eq_ok]
    · rw [holder, chain_append, hb, first_append]
      show _ = {(a, { node with child := some u.addr })} +
        (chain none (u :: us) (some t.addr) + (t.cells (some b) none + 0)) + rest
      show t.cells (some b) none + (_ + ({(a, { node with child := some u.addr })} + rest)) = _
      abel

/-- The memory of an array around one of its children. -/
theorem holder_split (a : Nat) (node : Node) (pre post : List Tree) (t : Tree) :
    holder a node (pre ++ t :: post) =
      {(a, { node with child := first pre (some t.addr) })} + chain none pre (some t.addr) +
        t.cells (last none pre) (first post none) + chain (some t.addr) post none := by
  rw [holder, first_append, chain_append, chain_cons]
  show {(a, { node with child := first pre (some t.addr) })} + (chain none pre (some t.addr) + _) =
    _
  abel

/-- The child in front is found by its address. -/
theorem child_eq_iff {q : Option Nat}
    (hh : h.Holds (chain none pre q + (t.cells prev next + rest))) :
    first pre (some t.addr) = some t.addr ↔ pre = [] := by
  cases pre with
  | nil => exact iff_of_true rfl rfl
  | cons u us =>
    refine iff_of_false ?_ (List.cons_ne_nil u us)
    have htwo : h.Holds (u.cells none (first us q) + (t.cells prev next +
        (chain (some u.addr) us q + rest))) := by
      refine hh.congr ?_
      rw [chain_cons]
      abel
    have hne := addr_ne htwo
    exact fun heq => hne (Option.some.inj heq)

theorem first_of_ne_nil (hne : ts ≠ []) (q q' : Option Nat) : first ts q = first ts q' := by
  cases ts with
  | nil => exact absurd rfl hne
  | cons t ts => rfl

/-- The pointer to the first child, when the child behind `pre` is another one now. -/
theorem moveChild_holds {q : Option Nat} (q' : Option Nat) (hh : h.Holds
    ({(a, { node with child := first pre (some t.addr) })} +
      (chain none pre q + (t.cells prev next + rest)))) :
    ∃ h', moveChild h a t.addr q' = .ok h' ∧
      h'.Holds ({(a, { node with child := first pre q' })} +
        (chain none pre q + (t.cells prev next + rest))) := by
  have hchain : h.Holds (chain none pre q + (t.cells prev next +
      ({(a, { node with child := first pre (some t.addr) })} + rest))) := by
    refine hh.congr ?_
    abel
  have hiff := child_eq_iff hchain
  rw [moveChild, load_of_get hh.get, ok_bind]
  show ∃ h', (if first pre (some t.addr) = some t.addr then _ else _) = _ ∧ _
  by_cases hpre : pre = []
  · rw [if_pos (hiff.mpr hpre)]
    obtain ⟨h', hupdate, hh'⟩ := update_holds hh fun container => { container with child := q' }
    refine ⟨h', hupdate, ?_⟩
    rw [hpre] at hh' ⊢
    exact hh'
  · rw [if_neg fun heq => hpre (hiff.mp heq)]
    refine ⟨h, rfl, ?_⟩
    rw [first_of_ne_nil hpre q' (some t.addr)]
    exact hh

theorem detachItemViaPointer_holder (hh : h.Holds (holder a node (pre ++ t :: post) + rest)) :
    ∃ h', detachItemViaPointer h (some a) (some t.addr) = .ok (h', some t.addr) ∧
      h'.Holds (holder a node (pre ++ post) + (t.cells none none + rest)) := by
  rw [holder_split] at hh
  have hitem : h.Holds (t.cells (last none pre) (first post none) +
      ({(a, { node with child := first pre (some t.addr) })} + chain none pre (some t.addr) +
        chain (some t.addr) post none + rest)) := by
    refine hh.congr ?_
    abel
  have hpre : h.Holds (chain none pre (some t.addr) +
      ({(a, { node with child := first pre (some t.addr) })} +
        t.cells (last none pre) (first post none) + chain (some t.addr) post none + rest)) := by
    refine hh.congr ?_
    abel
  obtain ⟨h₁, hnext, hh₁⟩ := setNext_chain hpre (first post none)
  have hitem₁ : h₁.Holds (t.cells (last none pre) (first post none) +
      ({(a, { node with child := first pre (some t.addr) })} + chain none pre (first post none) +
        chain (some t.addr) post none + rest)) := by
    refine hh₁.congr ?_
    abel
  have hpost : h₁.Holds (chain (some t.addr) post none +
      ({(a, { node with child := first pre (some t.addr) })} + chain none pre (first post none) +
        t.cells (last none pre) (first post none) + rest)) := by
    refine hh₁.congr ?_
    abel
  obtain ⟨h₂, hprev, hh₂⟩ := setPrev_chain hpost (last none pre)
  have hitem₂ : h₂.Holds (t.cells (last none pre) (first post none) +
      ({(a, { node with child := first pre (some t.addr) })} + chain none pre (first post none) +
        chain (last none pre) post none + rest)) := by
    refine hh₂.congr ?_
    abel
  have hcontainer : h₂.Holds ({(a, { node with child := first pre (some t.addr) })} +
      (chain none pre (first post none) + (t.cells (last none pre) (first post none) +
        (chain (last none pre) post none + rest)))) := by
    refine hh₂.congr ?_
    abel
  obtain ⟨h₃, hchild, hh₃⟩ := moveChild_holds (first post none) hcontainer
  have hitem₃ : h₃.Holds (t.cells (last none pre) (first post none) +
      ({(a, { node with child := first pre (first post none) })} +
        chain none pre (first post none) + chain (last none pre) post none + rest)) := by
    refine hh₃.congr ?_
    abel
  obtain ⟨h₄, hclear, hh₄⟩ := update_tree hitem₃ rfl rfl
    (fun node => { node with prev := none, next := none }) rfl
  refine ⟨h₄, ?_, hh₄.congr ?_⟩
  · rw [detachItemViaPointer, load_tree hitem, ok_bind, hnext, ok_bind, load_tree hitem₁, ok_bind,
      hprev, ok_bind, load_tree hitem₂, ok_bind, hchild, ok_bind, hclear, ok_bind, pure_eq_ok]
  · rw [holder, first_append, chain_append]
    abel

theorem replaceItemViaPointer_holder
    (hh : h.Holds (holder a node (pre ++ t :: post) + (r.cells none none + rest))) :
    ∃ h', replaceItemViaPointer h (some a) (some t.addr) (some r.addr) = .ok (h', true) ∧
      h'.Holds (holder a node (pre ++ r :: post) + rest) := by
  rw [holder_split] at hh
  have hitem : h.Holds (t.cells (last none pre) (first post none) +
      ({(a, { node with child := first pre (some t.addr) })} + chain none pre (some t.addr) +
        chain (some t.addr) post none + r.cells none none + rest)) := by
    refine hh.congr ?_
    abel
  have hnew : h.Holds (r.cells none none + (t.cells (last none pre) (first post none) +
      ({(a, { node with child := first pre (some t.addr) })} + chain none pre (some t.addr) +
        chain (some t.addr) post none + rest))) := by
    refine hh.congr ?_
    abel
  obtain ⟨h₁, hnext, hh₁⟩ := update_tree hnew rfl rfl
    (fun new => { new with next := first post none }) rfl
  have hitem₁ : h₁.Holds (t.cells (last none pre) (first post none) +
      (r.cells none (first post none) + ({(a, { node with child := first pre (some t.addr) })} +
        chain none pre (some t.addr) + chain (some t.addr) post none + rest))) := by
    refine hh₁.congr ?_
    abel
  obtain ⟨h₂, hprev, hh₂⟩ := update_tree hh₁ rfl rfl
    (fun new => { new with prev := last none pre }) rfl
  have hpost : h₂.Holds (chain (some t.addr) post none +
      (r.cells (last none pre) (first post none) + (t.cells (last none pre) (first post none) +
        ({(a, { node with child := first pre (some t.addr) })} + chain none pre (some t.addr) +
          rest)))) := by
    refine hh₂.congr ?_
    abel
  obtain ⟨h₃, hback, hh₃⟩ := setPrev_chain hpost (some r.addr)
  have hnew₃ : h₃.Holds (r.cells (last none pre) (first post none) +
      (chain (some r.addr) post none + (t.cells (last none pre) (first post none) +
        ({(a, { node with child := first pre (some t.addr) })} + chain none pre (some t.addr) +
          rest)))) := by
    refine hh₃.congr ?_
    abel
  have hpre : h₃.Holds (chain none pre (some t.addr) +
      (r.cells (last none pre) (first post none) + (chain (some r.addr) post none +
        (t.cells (last none pre) (first post none) +
          ({(a, { node with child := first pre (some t.addr) })} + rest))))) := by
    refine hh₃.congr ?_
    abel
  obtain ⟨h₄, hforth, hh₄⟩ := setNext_chain hpre (some r.addr)
  have hcontainer : h₄.Holds ({(a, { node with child := first pre (some t.addr) })} +
      (chain none pre (some r.addr) + (t.cells (last none pre) (first post none) +
        (r.cells (last none pre) (first post none) +
          (chain (some r.addr) post none + rest))))) := by
    refine hh₄.congr ?_
    abel
  obtain ⟨h₅, hchild, hh₅⟩ := moveChild_holds (some r.addr) hcontainer
  have hold : h₅.Holds (t.cells (last none pre) (first post none) +
      ({(a, { node with child := first pre (some r.addr) })} + chain none pre (some r.addr) +
        (r.cells (last none pre) (first post none) + (chain (some r.addr) post none + rest)))) := by
    refine hh₅.congr ?_
    abel
  obtain ⟨h₆, hclear, hh₆⟩ := update_tree hold rfl rfl
    (fun node => { node with next := none, prev := none }) rfl
  have halone : h₆.Holds (chain none [t] none + (holder a node (pre ++ r :: post) + rest)) := by
    refine hh₆.congr ?_
    rw [holder_split]
    show _ = t.cells none none + 0 + _
    abel
  obtain ⟨h₇, hdelete, hh₇⟩ := cJSONDelete_chain halone
  refine ⟨h₇, ?_, hh₇⟩
  rw [replaceItemViaPointer, if_neg (addr_ne hnew), load_tree hitem, ok_bind, hnext, ok_bind,
    load_tree hitem₁, ok_bind, hprev, ok_bind, load_tree hh₂, ok_bind, hback, ok_bind,
    load_tree hnew₃, ok_bind, hforth, ok_bind, hchild, ok_bind, hclear, ok_bind]
  change cJSONDelete h₆ (some t.addr) = _ at hdelete
  rw [hdelete, ok_bind, pure_eq_ok]

theorem spine_of_holder (hh : h.Holds (holder a node ts + rest)) :
    h.Holds (spine none ts none +
      (inner ts + ({(a, { node with child := first ts none })} + rest))) := by
  refine hh.congr ?_
  rw [holder, chain_eq]
  abel

theorem getArrayItem_holder (hh : h.Holds (holder a node ts + rest)) {which : Int}
    (hwhich : 0 ≤ which) :
    getArrayItem h (some a) which = .ok (ts[which.toNat]?.map Tree.addr) := by
  obtain ⟨index, rfl⟩ := Int.eq_ofNat_of_zero_le hwhich
  exact getArrayItem_spine (load_holder hh) rfl (spine_of_holder hh) index

theorem insertItemInArray_holder {which : Int} (hwhich : 0 ≤ which)
    (hlen : which.toNat = pre.length)
    (hh : h.Holds (holder a node (pre ++ t :: post) + (r.cells none none + rest))) :
    ∃ h', insertItemInArray h (some a) which (some r.addr) = .ok (h', true) ∧
      h'.Holds (holder a node (pre ++ r :: t :: post) + rest) := by
  have hfound : getArrayItem h (some a) which = .ok (some t.addr) := by
    rw [getArrayItem_holder hh hwhich, hlen, List.getElem?_append_right (Nat.le_refl _),
      Nat.sub_self]
    rfl
  rw [holder_split] at hh
  have hnew : h.Holds (r.cells none none + ({(a, { node with child := first pre (some t.addr) })} +
      chain none pre (some t.addr) + t.cells (last none pre) (first post none) +
        chain (some t.addr) post none + rest)) := by
    refine hh.congr ?_
    abel
  obtain ⟨h₁, hnext, hh₁⟩ := update_tree hnew rfl rfl
    (fun new => { new with next := some t.addr }) rfl
  have hafter : h₁.Holds (t.cells (last none pre) (first post none) +
      ({(a, { node with child := first pre (some t.addr) })} + chain none pre (some t.addr) +
        r.cells none (some t.addr) + chain (some t.addr) post none + rest)) := by
    refine hh₁.congr ?_
    abel
  obtain ⟨h₂, hprev, hh₂⟩ := update_tree hh₁ rfl rfl
    (fun new => { new with prev := last none pre }) rfl
  have hafter₂ : h₂.Holds (t.cells (last none pre) (first post none) +
      ({(a, { node with child := first pre (some t.addr) })} + chain none pre (some t.addr) +
        r.cells (last none pre) (some t.addr) + chain (some t.addr) post none + rest)) := by
    refine hh₂.congr ?_
    abel
  obtain ⟨h₃, hback, hh₃⟩ := update_tree hafter₂ rfl rfl
    (fun node => { node with prev := some r.addr }) rfl
  have hcontainer : h₃.Holds ({(a, { node with child := first pre (some t.addr) })} +
      (chain none pre (some t.addr) + (t.cells (some r.addr) (first post none) +
        (r.cells (last none pre) (some t.addr) + chain (some t.addr) post none + rest)))) := by
    refine hh₃.congr ?_
    abel
  have hpre : h₃.Holds (chain none pre (some t.addr) + (t.cells (some r.addr) (first post none) +
      ({(a, { node with child := first pre (some t.addr) })} +
        r.cells (last none pre) (some t.addr) + chain (some t.addr) post none + rest))) := by
    refine hh₃.congr ?_
    abel
  have hnew₃ : h₃.Holds (r.cells (last none pre) (some t.addr) +
      ({(a, { node with child := first pre (some t.addr) })} + chain none pre (some t.addr) +
        t.cells (some r.addr) (first post none) + chain (some t.addr) post none + rest)) := by
    refine hh₃.congr ?_
    abel
  -- The item that stands in front of the new one is linked to it, or the array is.
  have hiff := child_eq_iff hpre
  have hsplit : holder a node (pre ++ r :: t :: post) + rest =
      {(a, { node with child := first pre (some r.addr) })} + chain none pre (some r.addr) +
        r.cells (last none pre) (some t.addr) + (t.cells (some r.addr) (first post none) +
          chain (some t.addr) post none) + rest := by
    rw [holder_split]
    rfl
  rw [insertItemInArray, if_neg (by omega), hfound, ok_bind]
  show ∃ h', (update h (some r.addr) (fun node => { node with next := some t.addr }) >>= _) = _ ∧ _
  rw [hnext, ok_bind, load_tree hafter, ok_bind, hprev, ok_bind, hback, ok_bind,
    load_of_get hcontainer.get, ok_bind, hsplit]
  show ∃ h', (if first pre (some t.addr) = some t.addr then _ else _) = _ ∧ _
  cases pre with
  | nil =>
    obtain ⟨h₄, hchild, hh₄⟩ := update_holds hcontainer
      fun container => { container with child := some r.addr }
    refine ⟨h₄, ?_, hh₄.congr ?_⟩
    · rw [if_pos (hiff.mpr rfl), hchild, ok_bind, pure_eq_ok]
    · rw [show chain none [] (some t.addr) = 0 from rfl,
        show chain none [] (some r.addr) = 0 from rfl]
      show ({(a, { node with child := some r.addr })} : Multiset (Nat × Node)) + _ =
        {(a, { node with child := some r.addr })} + _ + _ + _ + _
      abel
  | cons u us =>
    obtain ⟨h₄, hforth, hh₄⟩ := setNext_chain hpre (some r.addr)
    refine ⟨h₄, ?_, hh₄.congr ?_⟩
    · rw [setNext, if_neg (last_cons_ne_none u us)] at hforth
      rw [if_neg fun heq => absurd (hiff.mp heq) (List.cons_ne_nil u us), load_tree hnew₃, ok_bind,
        hforth, ok_bind, pure_eq_ok]
    · show _ + (_ + (({(a, { node with child := some u.addr })} : Multiset (Nat × Node)) + _ + _ +
          _)) =
        {(a, { node with child := some u.addr })} + _ + _ + _ + _
      abel

end Cjson
end LinuxPrograming

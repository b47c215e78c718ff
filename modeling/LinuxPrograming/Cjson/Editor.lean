import LinuxPrograming.Cjson.Edit
import Mathlib.Algebra.BigOperators.Group.List.Basic
import Mathlib.Data.List.InsertIdx

/-!
# Editing refines lists

A program that edits an array or object, call after call, against the lists of the children and of
the items that the program holds itself.
-/

namespace LinuxPrograming
namespace Cjson

open Lib Gateway

/-! ## What is edited -/

/-- A call.  `k` is the place of an item in the pool, and there is no item, `NULL`, behind its
end. -/
inductive Edit where
  | add (k : Nat)
  | addNamed (memory : Bool) (string : Bytes) (k : Nat)
  | insert (which : Int) (k : Nat)
  | detach (which : Int)
  | detachNamed (string : Bytes) (caseSensitive : Bool)
  | delete (which : Int)
  | deleteNamed (string : Bytes) (caseSensitive : Bool)
  | replace (which : Int) (k : Nat)
  | replaceNamed (memory : Bool) (string : Bytes) (k : Nat) (caseSensitive : Bool)

/-- The memory, the array or object, and the items that the program holds. -/
structure Editor where
  heap : Heap Node
  container : Nat
  pool : List Nat

/-- An item of the pool belongs to the array if the call took it. -/
def Editor.taken (e : Editor) (k : Nat) (result : Heap Node × Bool) : Editor × Bool :=
  ({ e with heap := result.1, pool := if result.2 then e.pool.eraseIdx k else e.pool }, result.2)

/-- An item that was detached belongs to the program. -/
def Editor.given (e : Editor) (result : Heap Node × Option Nat) : Editor × Bool :=
  ({ e with heap := result.1, pool := e.pool ++ result.2.toList }, result.2.isSome)

/-- `cJSON_Delete` on what was detached. -/
def Editor.deleted (e : Editor) (result : Heap Node × Option Nat) : Checked (Editor × Bool) := do
  let h ← cJSONDelete result.1 result.2
  pure ({ e with heap := h }, result.2.isSome)

/-- One call.  The answer says whether it did what it is for. -/
def Editor.step (e : Editor) : Edit → Checked (Editor × Bool)
  | .add k => do
    let result ← addItemToArray e.heap (some e.container) e.pool[k]?
    pure (e.taken k result)
  | .addNamed memory string k => do
    let result ← addItemToObject e.heap memory (some e.container) string e.pool[k]?
    pure (e.taken k result)
  | .insert which k => do
    let result ← insertItemInArray e.heap (some e.container) which e.pool[k]?
    pure (e.taken k result)
  | .detach which => do
    let result ← detachItemFromArray e.heap (some e.container) which
    pure (e.given result)
  | .detachNamed string caseSensitive => do
    let result ← detachItemFromObject e.heap (some e.container) string caseSensitive
    pure (e.given result)
  | .delete which => do
    let result ← detachItemFromArray e.heap (some e.container) which
    e.deleted result
  | .deleteNamed string caseSensitive => do
    let result ← detachItemFromObject e.heap (some e.container) string caseSensitive
    e.deleted result
  | .replace which k => do
    let result ← replaceItemInArray e.heap (some e.container) which e.pool[k]?
    pure (e.taken k result)
  | .replaceNamed memory string k caseSensitive => do
    let result ← replaceItemInObject e.heap memory (some e.container) string e.pool[k]?
      caseSensitive
    pure (e.taken k result)

/-- `cJSON_InsertItemInArray` does not test for `NULL`. -/
def Editor.Admits (e : Editor) : Edit → Prop
  | .insert _ k => k < e.pool.length
  | _ => True

/-! ## The lists -/

/-- The children, and the items that the program holds. -/
structure Edited where
  children : List Item
  pool : List Item

def Item.rename (item : Item) (string : Option Bytes) : Item :=
  { item with type := clearConst item.type, string }

/-- The place `which`, if it is none in front of the first. -/
def place (which : Int) : Option Nat := if which < 0 then none else some which.toNat

namespace Edited

def detachAt (s : Edited) (i : Option Nat) : Edited × Bool :=
  match i.bind (s.children[·]?), i with
  | some item, some i => (⟨s.children.eraseIdx i, s.pool ++ [item]⟩, true)
  | _, _ => (s, false)

def deleteAt (s : Edited) (i : Option Nat) : Edited × Bool :=
  match i.bind (s.children[·]?), i with
  | some _, some i => (⟨s.children.eraseIdx i, s.pool⟩, true)
  | _, _ => (s, false)

def replaceAt (s : Edited) (i : Option Nat) (k : Nat) : Edited × Bool :=
  match i.bind (s.children[·]?), i, s.pool[k]? with
  | some _, some i, some item => (⟨s.children.set i item, s.pool.eraseIdx k⟩, true)
  | _, _, _ => (s, false)

/-- What a call is for. -/
def apply (s : Edited) : Edit → Edited × Bool
  | .add k =>
    match s.pool[k]? with
    | some item => (⟨s.children ++ [item], s.pool.eraseIdx k⟩, true)
    | none => (s, false)
  | .addNamed memory string k =>
    match s.pool[k]?, memory with
    | some item, true =>
      (⟨s.children ++ [item.rename (some string)], s.pool.eraseIdx k⟩, true)
    | _, _ => (s, false)
  | .insert which k =>
    match s.pool[k]?, place which with
    | some item, some i =>
      (⟨s.children.take i ++ item :: s.children.drop i, s.pool.eraseIdx k⟩, true)
    | _, _ => (s, false)
  | .detach which => s.detachAt (place which)
  | .detachNamed string caseSensitive => s.detachAt (named string caseSensitive s.children)
  | .delete which => s.deleteAt (place which)
  | .deleteNamed string caseSensitive => s.deleteAt (named string caseSensitive s.children)
  | .replace which k => s.replaceAt (place which) k
  | .replaceNamed memory string k caseSensitive =>
    match s.pool[k]? with
    | some item =>
      let item := item.rename (if memory then some string else none)
      replaceAt ⟨s.children, s.pool.set k item⟩ (named string caseSensitive s.children) k
    | none => (s, false)

end Edited

/-! ## The relation -/

/-- The memory of items that stand alone. -/
def alone (ps : List Tree) : Multiset (Nat × Node) := (ps.map (Tree.cells none none)).sum

/-- The trees that represent the children and the pool of `s`.  The memory beside them is `rest`. -/
structure Shows (node : Node) (rest : Multiset (Nat × Node)) (e : Editor) (s : Edited)
    (ts ps : List Tree) : Prop where
  children : s.children = itemsOf ts
  pool : s.pool = itemsOf ps
  addrs : e.pool = ps.map Tree.addr
  holds : e.heap.Holds (holder e.container node ts + (alone ps + rest))

def Represents (node : Node) (rest : Multiset (Nat × Node)) (e : Editor) (s : Edited) : Prop :=
  ∃ ts ps, Shows node rest e s ts ps

theorem alone_eraseIdx {ps : List Tree} {k : Nat} {r : Tree} (hk : ps[k]? = some r) :
    alone ps = r.cells none none + alone (ps.eraseIdx k) := by
  obtain ⟨hlt, rfl⟩ := List.getElem?_eq_some_iff.mp hk
  have hperm := List.getElem_cons_eraseIdx_perm hlt
  exact ((hperm.map (Tree.cells none none)).sum_eq).symm

theorem alone_append (ps : List Tree) (t : Tree) :
    alone (ps ++ [t]) = t.cells none none + alone ps := by
  rw [alone, List.map_append, List.sum_append]
  show _ + (t.cells none none + 0) = _
  rw [add_zero, add_comm, alone]

theorem alone_set {ps : List Tree} {k : Nat} {r : Tree} (hk : k < ps.length) :
    alone (ps.set k r) = r.cells none none + alone (ps.eraseIdx k) := by
  have hget : (ps.set k r)[k]? = some r := List.getElem?_set_self hk
  rw [alone_eraseIdx hget, List.eraseIdx_set_eq]

theorem split_of_getElem? {α : Type} {l : List α} {i : Nat} {x : α} (h : l[i]? = some x) :
    l = l.take i ++ x :: l.drop (i + 1) := by
  obtain ⟨hlt, rfl⟩ := List.getElem?_eq_some_iff.mp h
  rw [← List.drop_eq_getElem_cons hlt, List.take_append_drop]

variable {node : Node} {rest : Multiset (Nat × Node)} {e : Editor} {s : Edited} {ts ps : List Tree}
  {h : Heap Node}

namespace Shows

theorem addr_getElem? (hs : Shows node rest e s ts ps) (k : Nat) :
    e.pool[k]? = ps[k]?.map Tree.addr := by
  rw [hs.addrs, List.getElem?_map]

theorem pool_getElem? (hs : Shows node rest e s ts ps) (k : Nat) :
    s.pool[k]? = ps[k]?.map Tree.item := by
  rw [hs.pool, itemsOf_eq_map, List.getElem?_map]

theorem children_getElem? (hs : Shows node rest e s ts ps) (i : Option Nat) :
    i.bind (s.children[·]?) = (i.bind (ts[·]?)).map Tree.item := by
  cases i with
  | none => rfl
  | some i =>
    show s.children[i]? = ts[i]?.map Tree.item
    rw [hs.children, itemsOf_eq_map, List.getElem?_map]

/-- The item `k` of the pool stands alone. -/
theorem holds_of_getElem? (hs : Shows node rest e s ts ps) {k : Nat} {r : Tree}
    (hk : ps[k]? = some r) :
    e.heap.Holds (holder e.container node ts +
      (r.cells none none + (alone (ps.eraseIdx k) + rest))) := by
  refine hs.holds.congr ?_
  rw [alone_eraseIdx hk]
  abel

theorem taken (hs : Shows node rest e s ts ps) {k : Nat} {us : List Tree}
    (hh : h.Holds (holder e.container node us + (alone (ps.eraseIdx k) + rest))) :
    Represents node rest (e.taken k (h, true)).1 ⟨itemsOf us, s.pool.eraseIdx k⟩ := by
  refine ⟨us, ps.eraseIdx k, rfl, ?_, ?_, hh⟩
  · show s.pool.eraseIdx k = _
    rw [hs.pool, itemsOf_eq_map, itemsOf_eq_map, List.eraseIdx_map]
  · show e.pool.eraseIdx k = _
    rw [hs.addrs, List.eraseIdx_map]

/-- A child is taken out. -/
theorem detach (hs : Shows node rest e s ts ps) (i : Option Nat) :
    ∃ result, detachItemViaPointer e.heap (some e.container) ((i.bind (ts[·]?)).map Tree.addr) =
        .ok result ∧
      (e.given result).2 = (s.detachAt i).2 ∧
      Represents node rest (e.given result).1 (s.detachAt i).1 ∧
      ∃ e', e.deleted result = .ok (e', (s.deleteAt i).2) ∧
        Represents node rest e' (s.deleteAt i).1 := by
  have hchild := hs.children_getElem? i
  cases hi : i.bind (ts[·]?) with
  | none =>
    rw [hi, Option.map_none] at hchild
    have hdetach : s.detachAt i = (s, false) := by
      unfold Edited.detachAt
      rw [hchild]
    have hdelete : s.deleteAt i = (s, false) := by
      unfold Edited.deleteAt
      rw [hchild]
    refine ⟨(e.heap, none), rfl, ?_⟩
    rw [hdetach, hdelete]
    refine ⟨rfl, ⟨ts, ps, hs.children, hs.pool, ?_, hs.holds⟩, e, ?_, ts, ps, hs⟩
    · show e.pool ++ [] = _
      rw [List.append_nil]
      exact hs.addrs
    · show (cJSONDelete e.heap none >>= _) = _
      rw [cJSONDelete, deleteFrom_null]
      rfl
  | some t =>
    obtain ⟨i, rfl⟩ : ∃ j, i = some j := by
      cases i with
      | none => cases hi
      | some i => exact ⟨i, rfl⟩
    rw [hi, Option.map_some] at hchild
    have hdetach : s.detachAt (some i) = (⟨s.children.eraseIdx i, s.pool ++ [t.item]⟩, true) := by
      unfold Edited.detachAt
      rw [hchild]
    have hdelete : s.deleteAt (some i) = (⟨s.children.eraseIdx i, s.pool⟩, true) := by
      unfold Edited.deleteAt
      rw [hchild]
    have hsplit : ts = ts.take i ++ t :: ts.drop (i + 1) := split_of_getElem? hi
    have herase : ts.take i ++ ts.drop (i + 1) = ts.eraseIdx i :=
      (List.eraseIdx_eq_take_drop_succ ts i).symm
    have hholds := hs.holds
    rw [hsplit] at hholds
    obtain ⟨h₁, hok, hh₁⟩ := detachItemViaPointer_holder hholds
    rw [herase] at hh₁
    have hitems : s.children.eraseIdx i = itemsOf (ts.eraseIdx i) := by
      rw [hs.children, itemsOf_eq_map, itemsOf_eq_map, List.eraseIdx_map]
    refine ⟨(h₁, some t.addr), hok, ?_⟩
    rw [hdetach, hdelete]
    refine ⟨rfl, ⟨ts.eraseIdx i, ps ++ [t], hitems, ?_, ?_, hh₁.congr ?_⟩, ?_⟩
    · show s.pool ++ [t.item] = _
      rw [hs.pool, itemsOf_eq_map, itemsOf_eq_map, List.map_append]
      rfl
    · show e.pool ++ [t.addr] = _
      rw [hs.addrs, List.map_append]
      rfl
    · rw [alone_append, add_assoc]
      rfl
    · have hsingle : h₁.Holds (chain none [t] none +
          (holder e.container node (ts.eraseIdx i) + (alone ps + rest))) := by
        refine hh₁.congr ?_
        show _ = t.cells none none + 0 + _
        abel
      obtain ⟨h₂, hdeleted, hh₂⟩ := cJSONDelete_chain hsingle
      refine ⟨{ e with heap := h₂ }, ?_, ts.eraseIdx i, ps, hitems, hs.pool, hs.addrs, hh₂⟩
      show (cJSONDelete h₁ (some t.addr) >>= _) = _
      change cJSONDelete h₁ (some t.addr) = _ at hdeleted
      rw [hdeleted]
      rfl

/-- A child is replaced. -/
theorem replace (hs : Shows node rest e s ts ps) (i : Option Nat) (k : Nat) :
    ∃ result, replaceItemViaPointer e.heap (some e.container) ((i.bind (ts[·]?)).map Tree.addr)
        e.pool[k]? = .ok result ∧
      result.2 = (s.replaceAt i k).2 ∧
      Represents node rest (e.taken k result).1 (s.replaceAt i k).1 := by
  have hchild := hs.children_getElem? i
  have hitem := hs.pool_getElem? k
  rw [hs.addr_getElem? k]
  cases hi : i.bind (ts[·]?) with
  | none =>
    rw [hi, Option.map_none] at hchild
    have hreplace : s.replaceAt i k = (s, false) := by
      unfold Edited.replaceAt
      rw [hchild]
    rw [hreplace]
    exact ⟨(e.heap, false), rfl, rfl, ts, ps, hs⟩
  | some t =>
    rw [hi, Option.map_some] at hchild
    cases hk : ps[k]? with
    | none =>
      rw [hk, Option.map_none] at hitem
      have hreplace : s.replaceAt i k = (s, false) := by
        unfold Edited.replaceAt
        rw [hchild, hitem]
        cases i <;> rfl
      rw [hreplace]
      exact ⟨(e.heap, false), rfl, rfl, ts, ps, hs⟩
    | some r =>
      rw [hk, Option.map_some] at hitem
      obtain ⟨i, rfl⟩ : ∃ j, i = some j := by
        cases i with
        | none => cases hi
        | some i => exact ⟨i, rfl⟩
      have hreplace : s.replaceAt (some i) k =
          (⟨s.children.set i r.item, s.pool.eraseIdx k⟩, true) := by
        unfold Edited.replaceAt
        rw [hchild, hitem]
      have hlt : i < ts.length := (List.getElem?_eq_some_iff.mp hi).1
      have hsplit : ts = ts.take i ++ t :: ts.drop (i + 1) := split_of_getElem? hi
      have hset : ts.take i ++ r :: ts.drop (i + 1) = ts.set i r := by
        rw [List.set_eq_take_append_cons_drop, if_pos hlt]
      have hholds := hs.holds_of_getElem? hk
      rw [hsplit] at hholds
      obtain ⟨h₁, hok, hh₁⟩ := replaceItemViaPointer_holder hholds
      rw [hset] at hh₁
      have hitems : s.children.set i r.item = itemsOf (ts.set i r) := by
        rw [hs.children, itemsOf_eq_map, itemsOf_eq_map, List.map_set]
      rw [hreplace, hitems]
      exact ⟨(h₁, true), hok, rfl, hs.taken hh₁⟩

/-- An item is appended. -/
theorem append (hs : Shows node rest e s ts ps) (k : Nat) :
    ∃ result, addItemToArray e.heap (some e.container) e.pool[k]? = .ok result ∧
      result.2 = (s.apply (.add k)).2 ∧
      Represents node rest (e.taken k result).1 (s.apply (.add k)).1 := by
  have hitem := hs.pool_getElem? k
  rw [hs.addr_getElem? k, Edited.apply]
  cases hk : ps[k]? with
  | none =>
    rw [hk, Option.map_none] at hitem
    rw [hitem]
    exact ⟨(e.heap, false), rfl, rfl, ts, ps, hs⟩
  | some r =>
    rw [hk, Option.map_some] at hitem
    rw [hitem]
    obtain ⟨h₁, hok, hh₁⟩ := addItemToArray_holder (hs.holds_of_getElem? hk)
    have hitems : s.children ++ [r.item] = itemsOf (ts ++ [r]) := by
      rw [hs.children, itemsOf_eq_map, itemsOf_eq_map, List.map_append]
      rfl
    show ∃ result : Heap Node × Bool, _ ∧ result.2 = true ∧
      Represents node rest _ ⟨s.children ++ [r.item], s.pool.eraseIdx k⟩
    rw [hitems]
    exact ⟨(h₁, true), hok, rfl, hs.taken hh₁⟩

/-- An item is put in front of another, or at the end. -/
theorem insert (hs : Shows node rest e s ts ps) (which : Int) {k : Nat} (hk : k < e.pool.length) :
    ∃ result, insertItemInArray e.heap (some e.container) which e.pool[k]? = .ok result ∧
      result.2 = (s.apply (.insert which k)).2 ∧
      Represents node rest (e.taken k result).1 (s.apply (.insert which k)).1 := by
  have hlen : k < ps.length := by rwa [hs.addrs, List.length_map] at hk
  have hr : ps[k]? = some ps[k] := List.getElem?_eq_getElem hlen
  have hitem := hs.pool_getElem? k
  rw [hr, Option.map_some] at hitem
  rw [Edited.apply, hitem, place]
  by_cases hneg : which < 0
  · rw [if_pos hneg, insertItemInArray, if_pos hneg]
    exact ⟨(e.heap, false), rfl, rfl, ts, ps, hs⟩
  · have hholds := hs.holds_of_getElem? hr
    rw [if_neg hneg, hs.addr_getElem? k, hr, Option.map_some]
    show ∃ result : Heap Node × Bool, _ ∧ result.2 = true ∧ Represents node rest _
      ⟨s.children.take which.toNat ++ ps[k].item :: s.children.drop which.toNat, s.pool.eraseIdx k⟩
    cases hi : ts[which.toNat]? with
    | none =>
      have hle : ts.length ≤ which.toNat := List.getElem?_eq_none_iff.mp hi
      obtain ⟨h₁, hok, hh₁⟩ := addItemToArray_holder hholds
      have hitems : s.children.take which.toNat ++ ps[k].item :: s.children.drop which.toNat =
          itemsOf (ts ++ [ps[k]]) := by
        rw [hs.children, itemsOf_eq_map, itemsOf_eq_map,
          List.take_of_length_le (by simpa using hle),
          List.drop_of_length_le (by simpa using hle), List.map_append]
        rfl
      rw [hitems]
      refine ⟨(h₁, true), ?_, rfl, hs.taken hh₁⟩
      rw [insertItemInArray, if_neg hneg, getArrayItem_holder hholds (by omega), hi]
      exact hok
    | some t =>
      have hsplit := split_of_getElem? hi
      have hlt : which.toNat < ts.length := (List.getElem?_eq_some_iff.mp hi).1
      rw [hsplit] at hholds
      have hpos : 0 ≤ which := by omega
      have hplace : which.toNat = (ts.take which.toNat).length := by
        rw [List.length_take]
        omega
      obtain ⟨h₁, hok, hh₁⟩ := insertItemInArray_holder hpos hplace hholds
      have hdrop : t :: ts.drop (which.toNat + 1) = ts.drop which.toNat := by
        rw [List.drop_eq_getElem_cons hlt, (List.getElem?_eq_some_iff.mp hi).2]
      have hitems : s.children.take which.toNat ++ ps[k].item :: s.children.drop which.toNat =
          itemsOf (ts.take which.toNat ++ ps[k] :: t :: ts.drop (which.toNat + 1)) := by
        rw [hs.children, itemsOf_eq_map, itemsOf_eq_map, hdrop, List.map_append, List.map_cons,
          List.map_take, List.map_drop]
      rw [hitems]
      exact ⟨(h₁, true), hok, rfl, hs.taken hh₁⟩

end Shows

/-! ## Names -/

theorem clearConst_reference (type : Nat) :
    clearConst type &&& cJSONIsReference = type &&& cJSONIsReference := by
  apply Nat.eq_of_testBit_eq
  intro i
  rw [clearConst, Nat.testBit_and, Nat.testBit_and, Nat.testBit_xor, Nat.testBit_and]
  by_cases hi : i = 8
  · have hconst : cJSONStringIsConst.testBit 8 = false := by decide
    rw [hi, hconst, Bool.and_false, Bool.xor_false]
  · have hbit : cJSONIsReference.testBit i = false := by
      show (2 ^ 8).testBit i = false
      rw [Nat.testBit_two_pow_of_ne (Ne.symm hi)]
    rw [hbit, Bool.and_false, Bool.and_false]

/-- The item with another name. -/
def Tree.rename (string : Option Bytes) : Tree → Tree
  | ⟨addr, data, owned, child⟩ =>
    ⟨addr, data.rename string, (clearConst_reference data.type).trans owned, child⟩

theorem Tree.item_rename (t : Tree) (string : Option Bytes) :
    (t.rename string).item = t.item.rename string := by
  cases t
  rfl

theorem Tree.addr_rename (t : Tree) (string : Option Bytes) : (t.rename string).addr = t.addr := by
  cases t
  rfl

/-- A name is written to an item that stands alone. -/
theorem rename_tree {t : Tree} (hh : h.Holds (t.cells none none + rest)) (string : Option Bytes) :
    ∃ h', update h (some t.addr) (fun node => { node with data := node.data.rename string }) =
      .ok h' ∧ h'.Holds ((t.rename string).cells none none + rest) := by
  refine update_tree hh (t.addr_rename string) ?_ _ ?_
  · cases t
    rfl
  · cases t
    rfl

/-- The item `k` of the pool gets a name. -/
theorem Shows.rename (hs : Shows node rest e s ts ps) {k : Nat} {r : Tree} (hk : ps[k]? = some r)
    (string : Option Bytes) :
    ∃ h', update e.heap (some r.addr) (fun node => { node with data := node.data.rename string }) =
        .ok h' ∧
      Shows node rest { e with heap := h' } ⟨s.children, s.pool.set k (r.item.rename string)⟩ ts
        (ps.set k (r.rename string)) := by
  have halone : e.heap.Holds (r.cells none none +
      (holder e.container node ts + (alone (ps.eraseIdx k) + rest))) := by
    refine (hs.holds_of_getElem? hk).congr ?_
    abel
  obtain ⟨h', hok, hh'⟩ := rename_tree halone string
  have hlt : k < ps.length := (List.getElem?_eq_some_iff.mp hk).1
  refine ⟨h', hok, hs.children, ?_, ?_, hh'.congr ?_⟩
  · rw [hs.pool, itemsOf_eq_map, itemsOf_eq_map, List.map_set, Tree.item_rename]
  · show e.pool = _
    have hlen : k < (ps.map Tree.addr).length := by rwa [List.length_map]
    have haddr : r.addr = (ps.map Tree.addr)[k] := by
      rw [List.getElem_map, (List.getElem?_eq_some_iff.mp hk).2]
    rw [hs.addrs, List.map_set, Tree.addr_rename, haddr, List.set_getElem_self]
  · rw [alone_set hlt]
    show _ + (holder e.container node ts + _) = holder e.container node ts + _
    abel

theorem getObjectItem_holder {a : Nat} (hh : h.Holds (holder a node ts + rest)) (name : Bytes)
    (caseSensitive : Bool) :
    getObjectItem h (some a) name caseSensitive =
      .ok (((named name caseSensitive (itemsOf ts)).bind (ts[·]?)).map Tree.addr) := by
  exact getObjectItem_spine (load_holder hh) rfl (spine_of_holder hh) name caseSensitive

theorem getArrayItem_place {a : Nat} (hh : h.Holds (holder a node ts + rest)) (which : Int) :
    getArrayItem h (some a) which = .ok (((place which).bind (ts[·]?)).map Tree.addr) := by
  rw [place]
  by_cases hneg : which < 0
  · rw [getArrayItem, if_pos hneg, if_pos hneg]
    rfl
  · rw [if_neg hneg]
    exact getArrayItem_holder hh (by omega)

/-! ## Every call -/

/-- One call does what it is for. -/
theorem step_refines (hrep : Represents node rest e s) {edit : Edit} (hadmits : e.Admits edit) :
    ∃ e', e.step edit = .ok (e', (s.apply edit).2) ∧ Represents node rest e' (s.apply edit).1 := by
  obtain ⟨ts, ps, hs⟩ := hrep
  cases edit with
  | add k =>
    obtain ⟨result, hok, hanswer, hrep⟩ := hs.append k
    refine ⟨_, ?_, hrep⟩
    rw [Editor.step, hok, ← hanswer]
    rfl
  | insert which k =>
    obtain ⟨result, hok, hanswer, hrep⟩ := hs.insert which hadmits
    refine ⟨_, ?_, hrep⟩
    rw [Editor.step, hok, ← hanswer]
    rfl
  | detach which =>
    obtain ⟨result, hok, hanswer, hrep, -⟩ := hs.detach (place which)
    refine ⟨_, ?_, hrep⟩
    rw [Editor.step, detachItemFromArray, getArrayItem_place hs.holds, ok_bind, hok, Edited.apply,
      ← hanswer]
    rfl
  | detachNamed string caseSensitive =>
    obtain ⟨result, hok, hanswer, hrep, -⟩ := hs.detach (named string caseSensitive (itemsOf ts))
    rw [← hs.children] at hok hanswer hrep
    refine ⟨_, ?_, hrep⟩
    rw [Editor.step, detachItemFromObject, getObjectItem_holder hs.holds, ok_bind, ← hs.children,
      hok, Edited.apply, ← hanswer]
    rfl
  | delete which =>
    obtain ⟨result, hok, -, -, e', hdeleted, hrep⟩ := hs.detach (place which)
    refine ⟨e', ?_, hrep⟩
    rw [Editor.step, detachItemFromArray, getArrayItem_place hs.holds, ok_bind, hok]
    exact hdeleted
  | deleteNamed string caseSensitive =>
    obtain ⟨result, hok, -, -, e', hdeleted, hrep⟩ :=
      hs.detach (named string caseSensitive (itemsOf ts))
    rw [← hs.children] at hok hdeleted hrep
    refine ⟨e', ?_, hrep⟩
    rw [Editor.step, detachItemFromObject, getObjectItem_holder hs.holds, ok_bind, ← hs.children,
      hok]
    exact hdeleted
  | replace which k =>
    obtain ⟨result, hok, hanswer, hrep⟩ := hs.replace (place which) k
    refine ⟨_, ?_, hrep⟩
    by_cases hneg : which < 0
    · rw [place, if_pos hneg] at hok hanswer
      have hresult : result = (e.heap, false) := (Except.ok.inj hok).symm
      rw [Editor.step, replaceItemInArray, if_pos hneg, Edited.apply, place, if_pos hneg, ← hanswer,
        hresult]
      rfl
    · rw [Editor.step, replaceItemInArray, if_neg hneg, getArrayItem_place hs.holds, ok_bind, hok,
        Edited.apply, ← hanswer]
      rfl
  | addNamed memory string k =>
    have hitem := hs.pool_getElem? k
    rw [Editor.step, hs.addr_getElem? k]
    cases hk : ps[k]? with
    | none =>
      rw [hk, Option.map_none] at hitem
      have happly : s.apply (.addNamed memory string k) = (s, false) := by
        simp only [Edited.apply, hitem]
      rw [happly]
      exact ⟨e, rfl, ts, ps, hs⟩
    | some r =>
      rw [hk, Option.map_some] at hitem
      cases memory with
      | false =>
        have happly : s.apply (.addNamed false string k) = (s, false) := by
          simp only [Edited.apply, hitem]
        rw [happly]
        exact ⟨e, rfl, ts, ps, hs⟩
      | true =>
        obtain ⟨h₁, hname, hs₁⟩ := hs.rename hk (some string)
        obtain ⟨result, hok, hanswer, hrep⟩ := hs₁.append k
        have hlt : k < s.pool.length := (List.getElem?_eq_some_iff.mp hitem).1
        have happly : s.apply (.addNamed true string k) =
            Edited.apply ⟨s.children, s.pool.set k (r.item.rename (some string))⟩ (.add k) := by
          simp only [Edited.apply, hitem, List.getElem?_set_self hlt, List.eraseIdx_set_eq]
        rw [happly]
        refine ⟨_, ?_, hrep⟩
        have haddr : e.pool[k]? = some r.addr := by
          rw [hs.addr_getElem? k, hk]
          rfl
        change addItemToArray h₁ (some e.container) e.pool[k]? = _ at hok
        rw [haddr] at hok
        rw [← hanswer]
        show (addItemToObject e.heap true (some e.container) string (some r.addr) >>= _) = _
        rw [addItemToObject, if_pos rfl, hname, ok_bind, hok]
        rfl
  | replaceNamed memory string k caseSensitive =>
    have hitem := hs.pool_getElem? k
    rw [Editor.step, hs.addr_getElem? k]
    cases hk : ps[k]? with
    | none =>
      rw [hk, Option.map_none] at hitem
      have happly : s.apply (.replaceNamed memory string k caseSensitive) = (s, false) := by
        simp only [Edited.apply, hitem]
      rw [happly]
      exact ⟨e, rfl, ts, ps, hs⟩
    | some r =>
      rw [hk, Option.map_some] at hitem
      obtain ⟨h₁, hname, hs₁⟩ := hs.rename hk (if memory then some string else none)
      obtain ⟨result, hok, hanswer, hrep⟩ :=
        hs₁.replace (named string caseSensitive (itemsOf ts)) k
      have happly : s.apply (.replaceNamed memory string k caseSensitive) =
          Edited.replaceAt
            ⟨s.children, s.pool.set k (r.item.rename (if memory then some string else none))⟩
            (named string caseSensitive (itemsOf ts)) k := by
        simp only [Edited.apply, hitem, hs.children]
      rw [happly]
      refine ⟨_, ?_, hrep⟩
      have haddr : e.pool[k]? = some r.addr := by
        rw [hs.addr_getElem? k, hk]
        rfl
      change replaceItemViaPointer h₁ (some e.container) _ e.pool[k]? = _ at hok
      rw [haddr] at hok
      rw [← hanswer]
      show (replaceItemInObject e.heap memory (some e.container) string (some r.addr) caseSensitive
        >>= _) = _
      rw [replaceItemInObject]
      show ((update e.heap (some r.addr) _ >>= _) >>= _) = _
      rw [hname, ok_bind]
      show ((getObjectItem h₁ (some e.container) string caseSensitive >>= _) >>= _) = _
      rw [getObjectItem_holder hs₁.holds, ok_bind, hok]
      rfl

/-! ## Every run -/

/-- `cJSON_Delete` on one item after another. -/
def deleteAll : Heap Node → List Nat → Checked (Heap Node)
  | h, [] => pure h
  | h, item :: items => do
    let h ← cJSONDelete h (some item)
    deleteAll h items

theorem deleteAll_alone (hh : h.Holds (alone ps + rest)) :
    ∃ h', deleteAll h (ps.map Tree.addr) = .ok h' ∧ h'.Holds rest := by
  induction ps generalizing h with
  | nil => exact ⟨h, rfl, hh.congr (zero_add rest)⟩
  | cons t ps ih =>
    have htree : h.Holds (t.cells none none + (alone ps + rest)) := by
      refine hh.congr ?_
      show t.cells none none + alone ps + rest = _
      rw [add_assoc]
    obtain ⟨h₁, hdelete, hh₁⟩ := cJSONDelete_tree htree
    obtain ⟨h₂, hrest, hh₂⟩ := ih hh₁
    refine ⟨h₂, ?_, hh₂⟩
    show (cJSONDelete h (some t.addr) >>= fun h => deleteAll h (ps.map Tree.addr)) = _
    rw [hdelete, ok_bind, hrest]

/-- An array or object that stands alone is the holder of its children. -/
theorem Tree.cells_holder (t : Tree) :
    t.cells none none = holder t.addr ⟨none, none, none, t.data⟩ t.child := by
  rw [t.cells_eq]
  rfl

theorem run_represents {node : Node} (hrep : Represents node rest e s) {edits : List Edit}
    (hadmits : Allowed Editor.step Editor.Admits e edits) :
    ∃ e', answers Editor.step e edits = .ok (e', (specAnswers Edited.apply s edits).2) ∧
      Represents node rest e' (specAnswers Edited.apply s edits).1 := by
  have hstep : ∀ (e : Editor) (s : Edited) (edit : Edit), Represents node rest e s →
      e.Admits edit → ∃ e', e.step edit = .ok (e', (s.apply edit).2) ∧
        Represents node rest e' (s.apply edit).1 :=
    fun _ _ _ hrep hadmits => step_refines hrep hadmits
  exact answers_refines hstep hrep hadmits

/-- A program that edits an array or object in any order, with items of its own, never uses memory
that was freed, and finds after every call the children that the calls are for.  Nothing beside
these items is touched.  When it deletes the array and the items it holds at the end, every item
that was ever there was freed once. -/
theorem edits_refine {root : Tree} {ps : List Tree} {h : Heap Node}
    {rest : Multiset (Nat × Node)} (hh : h.Holds (root.cells none none + (alone ps + rest)))
    {edits : List Edit}
    (hadmits : Allowed Editor.step Editor.Admits ⟨h, root.addr, ps.map Tree.addr⟩ edits) :
    ∃ e, answers Editor.step ⟨h, root.addr, ps.map Tree.addr⟩ edits =
        .ok (e, (specAnswers Edited.apply ⟨itemsOf root.child, itemsOf ps⟩ edits).2) ∧
      Represents ⟨none, none, none, root.data⟩ rest e
        (specAnswers Edited.apply ⟨itemsOf root.child, itemsOf ps⟩ edits).1 ∧
      ∃ h', deleteAll e.heap (e.container :: e.pool) = .ok h' ∧ h'.Holds rest := by
  rw [root.cells_holder] at hh
  have hstart : Represents ⟨none, none, none, root.data⟩ rest ⟨h, root.addr, ps.map Tree.addr⟩
      ⟨itemsOf root.child, itemsOf ps⟩ := ⟨root.child, ps, rfl, rfl, rfl, hh⟩
  obtain ⟨e, hrun, hrep⟩ := run_represents hstart hadmits
  refine ⟨e, hrun, hrep, ?_⟩
  obtain ⟨us, qs, -, -, haddrs, hholds⟩ := hrep
  have htree : e.heap.Holds ((Tree.mk e.container root.data root.owned us).cells none none +
      (alone qs + rest)) := hholds
  obtain ⟨h₁, hdelete, hh₁⟩ := cJSONDelete_tree htree
  obtain ⟨h₂, hpool, hh₂⟩ := deleteAll_alone hh₁
  refine ⟨h₂, ?_, hh₂⟩
  rw [haddrs]
  show (cJSONDelete e.heap (some e.container) >>= fun h => deleteAll h (qs.map Tree.addr)) = _
  change cJSONDelete e.heap (some e.container) = _ at hdelete
  rw [hdelete, ok_bind, hpool]

def blank (type : Nat) : Data := ⟨type, none, 0, zero, none⟩

/-- An array at 0 with one item at 1, and an item at 2 that stands alone. -/
def smallArray : Heap Node :=
  ⟨[(0, ⟨none, none, some 1, blank cJSONArray⟩), (1, ⟨none, none, none, blank cJSONNull⟩),
    (2, ⟨none, none, none, blank cJSONTrue⟩)]⟩

theorem edits_refine_small :
    ∃ e h', answers Editor.step ⟨smallArray, 0, [2]⟩
        [.insert 0 0, .detach 1, .delete 0, .delete 0, .add 0] =
        .ok (e, [true, true, true, false, true]) ∧
      deleteAll e.heap (e.container :: e.pool) = .ok h' ∧ h'.Holds 0 := by
  have hh : smallArray.Holds ((Tree.mk 0 (blank cJSONArray) rfl
      [⟨1, blank cJSONNull, rfl, []⟩]).cells none none +
        (alone [⟨2, blank cJSONTrue, rfl, []⟩] + 0)) :=
    Heap.holds_mk (show [0, 1, 2].Nodup by decide)
  have hadmits : Allowed Editor.step Editor.Admits ⟨smallArray, 0, [2]⟩
      [.insert 0 0, .detach 1, .delete 0, .delete 0, .add 0] :=
    ⟨Nat.zero_lt_one, trivial, trivial, trivial, trivial, trivial⟩
  obtain ⟨e, hrun, -, h', hdelete, hh'⟩ := edits_refine hh hadmits
  exact ⟨e, h', hrun, hdelete, hh'⟩

end Cjson
end LinuxPrograming

import LinuxPrograming.Cjson.Item
import LinuxPrograming.Gateway.Json
import LinuxPrograming.Lib.Footprint

/-!
# Items in memory

The `cJSON` structures with their links, and the functions that walk through them or free them.
`chain prev ts next` is the memory of the items `ts` and of all that is below them.  A string lives
and dies with its item.
-/

namespace LinuxPrograming
namespace Cjson

open Lib Gateway

/-! ## The structures -/

/-- What a `cJSON` holds beside its links. -/
structure Data where
  type : Nat
  valuestring : Option Bytes
  valueint : Int
  valuedouble : Double
  string : Option Bytes

/-- The `cJSON` structure. -/
structure Node where
  next : Option Nat
  prev : Option Nat
  child : Option Nat
  data : Data

/-- Read the structure that a pointer leads to. -/
def load (h : Heap Node) : Option Nat → Checked Node
  | none => throw .null
  | some a =>
    match h.get a with
    | none => throw .freed
    | some node => pure node

/-- Write fields of the structure that a pointer leads to. -/
def update (h : Heap Node) (p : Option Nat) (f : Node → Node) : Checked (Heap Node) :=
  match p with
  | none => throw .null
  | some a =>
    match h.get a with
    | none => throw .freed
    | some node => pure (h.set a (f node))

/-! ## The functions -/

/-- `cJSON_Delete`.  It calls itself for the children of an item.  `fuel` bounds how many items it
meets. -/
def deleteFrom : Nat → Heap Node → Option Nat → Checked (Heap Node)
  | _, h, none => pure h
  | 0, _, some _ => throw .index
  | fuel + 1, h, some item => do
    let node ← load h (some item)
    let h ← if node.data.type &&& cJSONIsReference = 0 then deleteFrom fuel h node.child else pure h
    let _ ← load h (some item)
    deleteFrom fuel (h.free item) node.next

/-- `cJSON_Delete(item)`. -/
def cJSONDelete (h : Heap Node) (item : Option Nat) : Checked (Heap Node) :=
  deleteFrom (h.cells.length + 1) h item

/-- The loop of `get_array_item`. -/
def nextItem (h : Heap Node) : Nat → Option Nat → Checked (Option Nat)
  | _, none => pure none
  | 0, some item => pure (some item)
  | index + 1, some item => do
    let node ← load h (some item)
    nextItem h index node.next

/-- `cJSON_GetArrayItem(array, index)`. -/
def getArrayItem (h : Heap Node) (array : Option Nat) (index : Int) : Checked (Option Nat) :=
  if index < 0 then pure none
  else
    match array with
    | none => pure none
    | some array => do
      let node ← load h (some array)
      nextItem h index.toNat node.child

/-- The loop of `cJSON_GetArraySize`. -/
def countItems (h : Heap Node) : Nat → Option Nat → Checked Nat
  | _, none => pure 0
  | 0, some _ => throw .index
  | fuel + 1, some item => do
    let node ← load h (some item)
    let size ← countItems h fuel node.next
    pure (size + 1)

/-- `cJSON_GetArraySize(array)`. -/
def getArraySize (h : Heap Node) (array : Option Nat) : Checked Nat :=
  match array with
  | none => pure 0
  | some array => do
    let node ← load h (some array)
    countItems h h.cells.length node.child

/-- The test of the loops of `get_object_item`, which go on as long as it holds. -/
def passes (name : Bytes) (caseSensitive : Bool) : Option Bytes → Bool
  | none => !caseSensitive
  | some string => if caseSensitive then name != string else !Json.caseInsensitiveEq name string

/-- The loops of `get_object_item`. -/
def seek (h : Heap Node) (name : Bytes) (caseSensitive : Bool) :
    Nat → Option Nat → Checked (Option Nat)
  | _, none => pure none
  | 0, some _ => throw .index
  | fuel + 1, some item => do
    let node ← load h (some item)
    if passes name caseSensitive node.data.string then seek h name caseSensitive fuel node.next
    else pure (some item)

/-- `get_object_item(object, name, case_sensitive)`. -/
def getObjectItem (h : Heap Node) (object : Option Nat) (name : Bytes) (caseSensitive : Bool) :
    Checked (Option Nat) :=
  match object with
  | none => pure none
  | some object => do
    let node ← load h (some object)
    let found ← seek h name caseSensitive h.cells.length node.child
    match found with
    | none => pure none
    | some item => do
      let node ← load h (some item)
      if node.data.string.isNone then pure none else pure (some item)

/-! ## Trees -/

/-- An item at an address, with its children.  It is no reference to children of another item. -/
inductive Tree where
  | mk (addr : Nat) (data : Data) (owned : data.type &&& cJSONIsReference = 0) (child : List Tree)

namespace Tree

def addr : Tree → Nat
  | ⟨addr, _, _, _⟩ => addr

def data : Tree → Data
  | ⟨_, data, _, _⟩ => data

def child : Tree → List Tree
  | ⟨_, _, _, child⟩ => child

end Tree

/-- The pointer to the first of `ts`, or what comes after them. -/
def first (ts : List Tree) (next : Option Nat) : Option Nat :=
  match ts with
  | [] => next
  | t :: _ => some t.addr

/-- The pointer to the last of `ts`, or what comes before them. -/
def last (prev : Option Nat) : List Tree → Option Nat
  | [] => prev
  | t :: ts => last (some t.addr) ts

mutual

/-- The memory of an item between two others. -/
def Tree.cells (prev next : Option Nat) : Tree → Multiset (Nat × Node)
  | ⟨addr, data, _, child⟩ => {(addr, ⟨next, prev, first child none, data⟩)} + chain none child none

/-- The memory of items that are linked with each other. -/
def chain (prev : Option Nat) (ts : List Tree) (next : Option Nat) : Multiset (Nat × Node) :=
  match ts with
  | [] => 0
  | t :: ts => t.cells prev (first ts next) + chain (some t.addr) ts next

end

mutual

/-- The item as a reader of the pointer sees it. -/
def Tree.item : Tree → Item
  | ⟨_, data, _, child⟩ =>
    ⟨data.type, data.valuestring, data.valueint, data.valuedouble, data.string, itemsOf child⟩

def itemsOf : List Tree → List Item
  | [] => []
  | t :: ts => t.item :: itemsOf ts

end

theorem itemsOf_eq_map (ts : List Tree) : itemsOf ts = ts.map Tree.item := by
  induction ts with
  | nil => rfl
  | cons t ts ih =>
    show t.item :: itemsOf ts = _
    rw [ih]
    rfl

theorem Tree.string_item (t : Tree) : t.item.string = t.data.string := by
  cases t
  rfl

theorem chain_cons (prev : Option Nat) (t : Tree) (ts : List Tree) (next : Option Nat) :
    chain prev (t :: ts) next = t.cells prev (first ts next) + chain (some t.addr) ts next := rfl

theorem Tree.cells_eq (t : Tree) (prev next : Option Nat) :
    t.cells prev next =
      {(t.addr, ⟨next, prev, first t.child none, t.data⟩)} + chain none t.child none := by
  cases t
  rfl

theorem first_append (ts us : List Tree) (next : Option Nat) :
    first (ts ++ us) next = first ts (first us next) := by
  cases ts <;> rfl

theorem chain_append (prev : Option Nat) (ts us : List Tree) (next : Option Nat) :
    chain prev (ts ++ us) next = chain prev ts (first us next) + chain (last prev ts) us next := by
  induction ts generalizing prev with
  | nil => exact (zero_add _).symm
  | cons t ts ih =>
    rw [List.cons_append, chain_cons, chain_cons, ih, first_append]
    exact (add_assoc _ _ _).symm

variable {h : Heap Node} {ts : List Tree} {prev next : Option Nat} {rest : Multiset (Nat × Node)}

/-! ## Reading and writing -/

theorem load_of_get {a : Nat} {node : Node} (hget : h.get a = some node) :
    load h (some a) = .ok node := by
  rw [load, hget]
  rfl

theorem update_of_get {a : Nat} {node : Node} (hget : h.get a = some node) (f : Node → Node) :
    update h (some a) f = .ok (h.set a (f node)) := by
  rw [update, hget]
  rfl

/-- The structures of the items `ts` alone, without what is below them. -/
def spine (prev : Option Nat) (ts : List Tree) (next : Option Nat) : Multiset (Nat × Node) :=
  match ts with
  | [] => 0
  | t :: ts =>
    {(t.addr, ⟨first ts next, prev, first t.child none, t.data⟩)} + spine (some t.addr) ts next

/-- What is below the items `ts`. -/
def inner : List Tree → Multiset (Nat × Node)
  | [] => 0
  | t :: ts => chain none t.child none + inner ts

theorem chain_eq (prev : Option Nat) (ts : List Tree) (next : Option Nat) :
    chain prev ts next = spine prev ts next + inner ts := by
  induction ts generalizing prev with
  | nil => exact (zero_add 0).symm
  | cons t ts ih =>
    rw [chain_cons, t.cells_eq, ih, spine, inner]
    abel

theorem spine_append (prev : Option Nat) (ts us : List Tree) (next : Option Nat) :
    spine prev (ts ++ us) next = spine prev ts (first us next) + spine (last prev ts) us next := by
  induction ts generalizing prev with
  | nil => exact (zero_add _).symm
  | cons t ts ih =>
    rw [List.cons_append, spine, spine, ih, first_append]
    exact (add_assoc _ _ _).symm

theorem inner_append (ts us : List Tree) : inner (ts ++ us) = inner ts + inner us := by
  induction ts with
  | nil => exact (zero_add _).symm
  | cons t ts ih =>
    rw [List.cons_append, inner, inner, ih, add_assoc]

theorem spine_of_chain (hh : h.Holds (chain prev ts next + rest)) :
    h.Holds (spine prev ts next + (inner ts + rest)) := by
  refine hh.congr ?_
  rw [chain_eq, add_assoc]

theorem card_spine (ts : List Tree) (prev next : Option Nat) :
    (spine prev ts next).card = ts.length := by
  induction ts generalizing prev with
  | nil => rfl
  | cons t ts ih =>
    rw [spine, Multiset.card_add, Multiset.card_singleton, ih, List.length_cons]
    omega

/-- There are no more items than allocations. -/
theorem length_le_cells (hh : h.Holds (spine prev ts next + rest)) :
    ts.length ≤ h.cells.length := by
  have hcard := hh.card_le
  rw [Multiset.card_add, card_spine] at hcard
  omega

/-- Behind the first item lie the others. -/
theorem holds_cons {t : Tree} (hh : h.Holds (spine prev (t :: ts) next + rest)) :
    h.get t.addr = some ⟨first ts next, prev, first t.child none, t.data⟩ ∧
      h.Holds (spine (some t.addr) ts next +
        ({(t.addr, ⟨first ts next, prev, first t.child none, t.data⟩)} + rest)) := by
  rw [spine, add_assoc] at hh
  refine ⟨hh.get, hh.congr ?_⟩
  abel

theorem load_mem (hh : h.Holds (spine prev ts next + rest)) {t : Tree} (hmem : t ∈ ts) :
    ∃ p q, load h (some t.addr) = .ok ⟨p, q, first t.child none, t.data⟩ := by
  induction ts generalizing prev rest with
  | nil => cases hmem
  | cons u us ih =>
    obtain ⟨hget, hrest⟩ := holds_cons hh
    rcases List.mem_cons.mp hmem with rfl | hmem
    · exact ⟨_, _, load_of_get hget⟩
    · exact ih hrest hmem

theorem nextItem_spine (hh : h.Holds (spine prev ts none + rest)) (index : Nat) :
    nextItem h index (first ts none) = .ok (ts[index]?.map Tree.addr) := by
  induction ts generalizing prev rest index with
  | nil => cases index <;> rfl
  | cons t ts ih =>
    obtain ⟨hget, hrest⟩ := holds_cons hh
    cases index with
    | zero => rfl
    | succ index =>
      show (load h (some t.addr) >>= fun node => nextItem h index node.next) = _
      rw [load_of_get hget, ok_bind, ih hrest index]
      rfl

theorem countItems_spine (hh : h.Holds (spine prev ts none + rest)) {fuel : Nat}
    (hfuel : ts.length ≤ fuel) : countItems h fuel (first ts none) = .ok ts.length := by
  induction ts generalizing prev rest fuel with
  | nil => cases fuel <;> rfl
  | cons t ts ih =>
    obtain ⟨hget, hrest⟩ := holds_cons hh
    obtain ⟨fuel, rfl⟩ := Nat.exists_eq_succ_of_ne_zero (n := fuel) (by simp at hfuel; omega)
    show (load h (some t.addr) >>= fun node =>
      countItems h fuel node.next >>= fun size => pure (size + 1)) = _
    rw [load_of_get hget, ok_bind, ih hrest (Nat.le_of_succ_le_succ hfuel)]
    rfl

/-- The loop of `cJSON_GetArraySize` meets an item that was freed. -/
theorem countItems_freed {d : Nat} (hh : h.Holds (spine prev ts (some d) + rest))
    (hget : h.get d = none) {fuel : Nat} (hfuel : ts.length < fuel) :
    countItems h fuel (first ts (some d)) = .error .freed := by
  induction ts generalizing prev rest fuel with
  | nil =>
    obtain ⟨fuel, rfl⟩ := Nat.exists_eq_succ_of_ne_zero (n := fuel) (by simp at hfuel; omega)
    show (load h (some d) >>= _) = _
    rw [load, hget]
    rfl
  | cons t ts ih =>
    obtain ⟨hself, hrest⟩ := holds_cons hh
    obtain ⟨fuel, rfl⟩ := Nat.exists_eq_succ_of_ne_zero (n := fuel) (by simp at hfuel; omega)
    show (load h (some t.addr) >>= fun node =>
      countItems h fuel node.next >>= fun size => pure (size + 1)) = _
    rw [load_of_get hself, ok_bind, ih hrest (Nat.lt_of_succ_lt_succ hfuel)]
    rfl

theorem seek_spine (hh : h.Holds (spine prev ts none + rest)) (name : Bytes)
    (caseSensitive : Bool) {fuel : Nat} (hfuel : ts.length ≤ fuel) :
    seek h name caseSensitive fuel (first ts none) =
      .ok ((ts.find? fun t => !passes name caseSensitive t.data.string).map Tree.addr) := by
  induction ts generalizing prev rest fuel with
  | nil => cases fuel <;> rfl
  | cons t ts ih =>
    obtain ⟨hget, hrest⟩ := holds_cons hh
    obtain ⟨fuel, rfl⟩ := Nat.exists_eq_succ_of_ne_zero (n := fuel) (by simp at hfuel; omega)
    show (load h (some t.addr) >>= fun node => if passes name caseSensitive node.data.string
      then seek h name caseSensitive fuel node.next else pure (some t.addr)) = _
    rw [load_of_get hget, ok_bind]
    cases hpass : passes name caseSensitive t.data.string with
    | true =>
      rw [List.find?_cons_of_neg (by rw [hpass]; decide)]
      exact ih hrest (Nat.le_of_succ_le_succ hfuel)
    | false =>
      rw [List.find?_cons_of_pos (by rw [hpass]; decide)]
      rfl

/-- The place of the child with a name.  In front of a child without a name, the search that minds
the case of letters ends. -/
def named (name : Bytes) (caseSensitive : Bool) : List Item → Option Nat
  | [] => none
  | item :: items =>
    if passes name caseSensitive item.string then (named name caseSensitive items).map (· + 1)
    else if item.string.isNone then none
    else some 0

/-- What the search for a name finds among the children. -/
theorem named_getElem? (name : Bytes) (caseSensitive : Bool) (ts : List Tree) :
    ((named name caseSensitive (itemsOf ts)).bind (ts[·]?)) =
      (ts.find? fun t => !passes name caseSensitive t.data.string).filter
        fun t => t.data.string.isSome := by
  induction ts with
  | nil => rfl
  | cons t ts ih =>
    rw [show itemsOf (t :: ts) = t.item :: itemsOf ts from rfl, named, t.string_item]
    cases hpass : passes name caseSensitive t.data.string with
    | true =>
      rw [if_pos rfl, List.find?_cons_of_neg (by rw [hpass]; decide), ← ih]
      cases named name caseSensitive (itemsOf ts) <;> rfl
    | false =>
      rw [if_neg (by decide), List.find?_cons_of_pos (by rw [hpass]; decide)]
      cases hstring : t.data.string with
      | none => simp [hstring, Option.filter]
      | some string => simp [hstring, Option.filter]

theorem getObjectItem_spine {a : Nat} {node : Node} (hload : load h (some a) = .ok node)
    (hchild : node.child = first ts none) (hh : h.Holds (spine none ts none + rest)) (name : Bytes)
    (caseSensitive : Bool) :
    getObjectItem h (some a) name caseSensitive =
      .ok (((named name caseSensitive (itemsOf ts)).bind (ts[·]?)).map Tree.addr) := by
  have hseek := seek_spine hh name caseSensitive (length_le_cells hh)
  rw [named_getElem?, getObjectItem, hload, ok_bind, hchild, hseek, ok_bind]
  cases hfind : ts.find? fun t => !passes name caseSensitive t.data.string with
  | none => rfl
  | some t =>
    obtain ⟨p, q, hload⟩ := load_mem hh (List.mem_of_find?_eq_some hfind)
    show (load h (some t.addr) >>= _) = _
    rw [hload, ok_bind]
    cases hstring : t.data.string with
    | none => simp [hstring, Option.filter]
    | some string => simp [hstring, Option.filter]

theorem getArrayItem_spine {a : Nat} {node : Node} (hload : load h (some a) = .ok node)
    (hchild : node.child = first ts none) (hh : h.Holds (spine none ts none + rest)) (index : Nat) :
    getArrayItem h (some a) index = .ok (ts[index]?.map Tree.addr) := by
  rw [getArrayItem, if_neg (by omega), hload, ok_bind, hchild]
  exact nextItem_spine hh index

theorem getArraySize_spine {a : Nat} {node : Node} (hload : load h (some a) = .ok node)
    (hchild : node.child = first ts none) (hh : h.Holds (spine none ts none + rest)) :
    getArraySize h (some a) = .ok ts.length := by
  rw [getArraySize, hload, ok_bind, hchild]
  exact countItems_spine hh (length_le_cells hh)

/-! ## Deleting -/

theorem Tree.owned (t : Tree) : t.data.type &&& cJSONIsReference = 0 := by
  cases t with
  | mk _ _ owned _ => exact owned

theorem deleteFrom_null (fuel : Nat) (h : Heap Node) : deleteFrom fuel h none = .ok h := by
  cases fuel <;> rfl

mutual

/-- `cJSON_Delete` on the children of an item. -/
theorem deleteFrom_child : (t : Tree) → {h : Heap Node} → {rest : Multiset (Nat × Node)} →
    {fuel : Nat} → (chain none t.child none).card ≤ fuel →
    h.Holds (chain none t.child none + rest) →
    ∃ h', deleteFrom fuel h (first t.child none) = .ok h' ∧ h'.Holds rest
  | ⟨_, _, _, child⟩, _, _, fuel, hfuel, hh => by
    obtain ⟨h', hskip, hh'⟩ := deleteFrom_skip child hfuel hh
    exact ⟨h', hskip.trans (deleteFrom_null _ h'), hh'⟩

/-- `cJSON_Delete` frees the items `ts` and all that is below them, and goes on behind them. -/
theorem deleteFrom_skip : (ts : List Tree) → {h : Heap Node} → {rest : Multiset (Nat × Node)} →
    {prev next : Option Nat} → {fuel : Nat} → (chain prev ts next).card ≤ fuel →
    h.Holds (chain prev ts next + rest) →
    ∃ h', deleteFrom fuel h (first ts next) = deleteFrom (fuel - ts.length) h' next ∧ h'.Holds rest
  | [], h, rest, _, _, _, _, hh => ⟨h, rfl, hh.congr (zero_add rest)⟩
  | t :: ts, h, rest, prev, next, fuel, hfuel, hh => by
    rw [chain_cons, t.cells_eq, Multiset.card_add, Multiset.card_add,
      Multiset.card_singleton] at hfuel
    obtain ⟨fuel, rfl⟩ := Nat.exists_eq_succ_of_ne_zero (n := fuel) (by omega)
    obtain ⟨hget, -⟩ := holds_cons (spine_of_chain hh)
    have hchild : h.Holds (chain none t.child none +
        ({(t.addr, ⟨first ts next, prev, first t.child none, t.data⟩)} +
          (chain (some t.addr) ts next + rest))) := by
      refine hh.congr ?_
      rw [chain_cons, t.cells_eq]
      abel
    have hbelow : (chain none t.child none).card ≤ fuel := by omega
    have hbehind : (chain (some t.addr) ts next).card ≤ fuel := by omega
    obtain ⟨h₁, hdelete, hh₁⟩ := deleteFrom_child t hbelow hchild
    obtain ⟨h₂, hrest, hh₂⟩ := deleteFrom_skip ts hbehind hh₁.free
    refine ⟨h₂, ?_, hh₂⟩
    show deleteFrom (fuel + 1) h (some t.addr) = _
    rw [deleteFrom, load_of_get hget, ok_bind, if_pos t.owned, hdelete]
    show (load h₁ (some t.addr) >>= fun _ => deleteFrom fuel (h₁.free t.addr) (first ts next)) = _
    rw [load_of_get hh₁.get, ok_bind, hrest, List.length_cons, Nat.succ_sub_succ]

end

/-- `cJSON_Delete` frees the item, the items behind it and all that is below them, and nothing
else. -/
theorem cJSONDelete_chain (hh : h.Holds (chain prev ts none + rest)) :
    ∃ h', cJSONDelete h (first ts none) = .ok h' ∧ h'.Holds rest := by
  have hcard := hh.card_le
  rw [Multiset.card_add] at hcard
  have hfuel : (chain prev ts none).card ≤ h.cells.length + 1 := by omega
  obtain ⟨h', hskip, hh'⟩ := deleteFrom_skip ts hfuel hh
  exact ⟨h', hskip.trans (deleteFrom_null _ h'), hh'⟩

/-- `cJSON_Delete` on an item that stands alone. -/
theorem cJSONDelete_tree {t : Tree} (hh : h.Holds (t.cells none none + rest)) :
    ∃ h', cJSONDelete h (some t.addr) = .ok h' ∧ h'.Holds rest := by
  have hchain : h.Holds (chain none [t] none + rest) := by
    refine hh.congr ?_
    show _ = t.cells none none + 0 + rest
    rw [add_zero]
  exact cJSONDelete_chain hchain

/-- An item that was freed with what is behind it. -/
theorem get_deleted {t : Tree} {h' : Heap Node} (hh : h.Holds (chain prev (t :: ts) next + rest))
    (hh' : h'.Holds rest) : h'.get t.addr = none := by
  have hself : h.Holds ({(t.addr, ⟨first ts next, prev, first t.child none, t.data⟩)} +
      (chain none t.child none + chain (some t.addr) ts next + rest)) := by
    refine hh.congr ?_
    rw [chain_cons, t.cells_eq]
    abel
  exact hself.get_eq_none hh'

/-- A fault below an item. -/
theorem deleteFrom_error {a : Nat} {node : Node} {fuel : Nat} {f : Fault}
    (hload : load h (some a) = .ok node) (howned : node.data.type &&& cJSONIsReference = 0)
    (hchild : deleteFrom fuel h node.child = .error f) :
    deleteFrom (fuel + 1) h (some a) = .error f := by
  rw [deleteFrom, hload, ok_bind, if_pos howned, hchild]
  rfl

/-- `cJSON_Delete` meets an item that was freed. -/
theorem deleteFrom_freed {a fuel : Nat} (hget : h.get a = none) :
    deleteFrom (fuel + 1) h (some a) = .error .freed := by
  rw [deleteFrom, load, hget]
  rfl

end Cjson
end LinuxPrograming

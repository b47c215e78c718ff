import LinuxPrograming.Cjson.Tree
import LinuxPrograming.Gateway.Room

/-!
# `read_room` in memory

`read_room` on the `cJSON` structures that the parser built, with every link that it follows and
every structure that it frees.  `readRoom` tells what it does from the values alone.
-/

namespace LinuxPrograming
namespace Gateway

open Lib Cjson

/-! ## The functions -/

/-- `cJSON_IsArray`, `cJSON_IsObject`, `cJSON_IsNumber` and `cJSON_IsString`. -/
def isType (h : Heap Node) (item : Option Nat) (type : Nat) : Checked Bool :=
  if item = none then pure false
  else do
    let node ← load h item
    pure (node.data.type &&& 0xFF == type)

/-- The loop of `read_room`, from entry `i` on.  `fuel` bounds the number of rounds. -/
def roomLoop : Nat → Heap Node → Option Nat → Nat → Slots → Checked (Heap Node × Slots)
  | 0, _, _, _, _ => throw .index
  | fuel + 1, h, roomObj, i, senIDs => do
    let size ← getArraySize h roomObj
    if size ≤ i then pure (h, senIDs)
    else do
      let subRID ← getArrayItem h roomObj i
      let isObject ← isType h subRID cJSONObject
      if isObject then do
        let subSID ← Cjson.getObjectItem h subRID (bytes "sensorID") false
        let isNumber ← isType h subSID cJSONNumber
        if isNumber then do
          let node ← load h subSID
          if i < 5 then
            roomLoop fuel h roomObj (i + 1) (Function.update senIDs i (some node.data.valueint))
          else throw .wild
        else do
          let h ← cJSONDelete h subSID
          roomLoop fuel h roomObj (i + 1) senIDs
      else do
        let h ← cJSONDelete h subRID
        roomLoop fuel h roomObj (i + 1) senIDs

/-- `read_room` on what `json_fread` returned. -/
def readRoomIn (h : Heap Node) (root : Option Nat) : Checked (Heap Node × Option Slots) := do
  let roomObj ← Cjson.getObjectItem h root (bytes "roomIDs") false
  let isArray ← isType h roomObj cJSONArray
  if isArray then do
    let (h, senIDs) ← roomLoop (h.cells.length + 1) h roomObj 0 fun _ => none
    let h ← cJSONDelete h root
    pure (h, some senIDs)
  else do
    let h ← cJSONDelete h roomObj
    pure (h, none)

/-! ## Values -/

/-- The real number that a `double` stands for, if it is one. -/
def toRat : Double → Rat
  | .finite neg mag => if neg then -mag.val else mag.val
  | _ => 0

mutual

/-- A value as the gateway looks at it. -/
def valueJson : Value → Json
  | .null => .null
  | .bool b => .bool b
  | .number d => .number ((saturate d).getD 0) (toRat d)
  | .string s => .string s
  | .array vs => .array (valuesJson vs)
  | .object ms => .object (membersJson ms)

def valuesJson : List Value → List Json
  | [] => []
  | v :: vs => valueJson v :: valuesJson vs

def membersJson : List (Bytes × Value) → List (Bytes × Json)
  | [] => []
  | (name, v) :: ms => (name, valueJson v) :: membersJson ms

end

theorem membersJson_eq_map (ms : List (Bytes × Value)) :
    membersJson ms = ms.map fun m => (m.1, valueJson m.2) := by
  induction ms with
  | nil => rfl
  | cons m ms ih =>
    show (m.1, valueJson m.2) :: membersJson ms = _
    rw [ih]
    rfl

theorem ofValues_eq_map (vs : List Value) : Item.ofValues vs = vs.map (Item.ofValue none) := by
  induction vs with
  | nil => rfl
  | cons v vs ih =>
    show Item.ofValue none v :: Item.ofValues vs = _
    rw [ih]
    rfl

theorem ofMembers_eq_map (ms : List (Bytes × Value)) :
    Item.ofMembers ms = ms.map fun m => Item.ofValue (some m.1) m.2 := by
  induction ms with
  | nil => rfl
  | cons m ms ih =>
    show Item.ofValue (some m.1) m.2 :: Item.ofMembers ms = _
    rw [ih]
    rfl

/-- The type that the item of a value has. -/
def kind : Value → Nat
  | .null => cJSONNull
  | .bool false => cJSONFalse
  | .bool true => cJSONTrue
  | .number _ => cJSONNumber
  | .string _ => cJSONString
  | .array _ => cJSONArray
  | .object _ => cJSONObject

theorem type_ofValue (name : Option Bytes) (v : Value) : (Item.ofValue name v).type = kind v := by
  cases v with
  | bool b => cases b <;> rfl
  | _ => rfl

theorem kind_and (v : Value) : kind v &&& 0xFF = kind v := by
  unfold kind
  split <;> decide

theorem string_ofValue (name : Option Bytes) (v : Value) :
    (Item.ofValue name v).string = name := by
  cases v with
  | bool b => cases b <;> rfl
  | _ => rfl

/-- The first member with a name, in the memory and among the values. -/
theorem named_ofMembers (name : Bytes) (ms : List (Bytes × Value)) :
    (named name false (Item.ofMembers ms)).bind (ms[·]?) =
      ms.find? fun m => Json.caseInsensitiveEq name m.1 := by
  induction ms with
  | nil => rfl
  | cons m ms ih =>
    have hpass : passes name false (Item.ofValue (some m.1) m.2).string =
        !Json.caseInsensitiveEq name m.1 := by
      rw [string_ofValue]
      rfl
    rw [show Item.ofMembers (m :: ms) = Item.ofValue (some m.1) m.2 :: Item.ofMembers ms from rfl,
      named, hpass, string_ofValue]
    cases heq : Json.caseInsensitiveEq name m.1 with
    | true =>
      rw [List.find?_cons_of_pos (by exact heq)]
      rfl
    | false =>
      rw [List.find?_cons_of_neg (by rw [heq]; decide), ← ih]
      cases named name false (Item.ofMembers ms) <;> rfl

theorem named_ofValues (name : Bytes) (vs : List Value) :
    named name false (Item.ofValues vs) = none := by
  induction vs with
  | nil => rfl
  | cons v vs ih =>
    rw [show Item.ofValues (v :: vs) = Item.ofValue none v :: Item.ofValues vs from rfl, named,
      string_ofValue, ih]
    rfl

theorem named_lt (name : Bytes) (caseSensitive : Bool) {items : List Item} {i : Nat}
    (h : named name caseSensitive items = some i) : i < items.length := by
  induction items generalizing i with
  | nil => cases h
  | cons item items ih =>
    rw [named] at h
    split at h
    · obtain ⟨j, hj, rfl⟩ := Option.map_eq_some_iff.mp h
      have hlt := ih hj
      rw [List.length_cons]
      omega
    · split at h
      · cases h
      · cases h
        exact Nat.succ_pos _

/-! ## Looking a name up -/

theorem item_child (t : Tree) : t.item.child = itemsOf t.child := by
  cases t
  rfl

theorem item_type (t : Tree) : t.item.type = t.data.type := by
  cases t
  rfl

theorem item_valueint (t : Tree) : t.item.valueint = t.data.valueint := by
  cases t
  rfl

/-- The value of the first member with the name. -/
def memberNamed (name : Bytes) : Value → Option Value
  | .object ms => (ms.find? fun m => Json.caseInsensitiveEq name m.1).map Prod.snd
  | _ => none

theorem getObjectItem_valueJson (v : Value) (name : Bytes) :
    Json.getObjectItem (some (valueJson v)) name = (memberNamed name v).map valueJson := by
  cases v with
  | object ms =>
    show ((membersJson ms).find? fun m => Json.caseInsensitiveEq name m.1).map Prod.snd = _
    rw [membersJson_eq_map, List.find?_map, Option.map_map, memberNamed, Option.map_map]
    rfl
  | _ => rfl

/-- Nothing has the name. -/
def Missing (t : Tree) (v : Value) (name : Bytes) : Prop :=
  named name false (itemsOf t.child) = none ∧ memberNamed name v = none

theorem Missing.value {t : Tree} {v : Value} {name : Bytes} (h : Missing t v name) :
    Json.getObjectItem (some (valueJson v)) name = none := by
  rw [getObjectItem_valueJson, h.2]
  rfl

/-- `m` is the first child with the name, and its value is `w`. -/
structure FoundAt (t : Tree) (v : Value) (name : Bytes) (pre : List Tree) (m : Tree)
    (post : List Tree) (w : Value) : Prop where
  child : t.child = pre ++ m :: post
  place : named name false (itemsOf t.child) = some pre.length
  item : ∃ n, m.item = Item.ofValue (some n) w
  member : memberNamed name v = some w

theorem FoundAt.value {t m : Tree} {v w : Value} {name : Bytes} {pre post : List Tree}
    (h : FoundAt t v name pre m post w) :
    Json.getObjectItem (some (valueJson v)) name = some (valueJson w) := by
  rw [getObjectItem_valueJson, h.member]
  rfl

theorem missing_of_values {t : Tree} {v : Value} (vs : List Value)
    (hchild : itemsOf t.child = Item.ofValues vs)
    (hmember : ∀ name, memberNamed name v = none) (name : Bytes) :
    Missing t v name := by
  refine ⟨?_, hmember name⟩
  rw [hchild, named_ofValues]

/-- The search for a name in the memory and among the values. -/
theorem missing_or_found {t : Tree} {s : Option Bytes} {v : Value}
    (ht : t.item = Item.ofValue s v) (name : Bytes) :
    Missing t v name ∨ ∃ pre m post w, FoundAt t v name pre m post w := by
  have hchild := item_child t
  rw [ht] at hchild
  cases v with
  | object ms =>
    change Item.ofMembers ms = itemsOf t.child at hchild
    have hfind := named_ofMembers name ms
    cases hn : named name false (Item.ofMembers ms) with
    | none =>
      rw [hn] at hfind
      refine Or.inl ⟨?_, ?_⟩
      · rw [← hchild, hn]
      · rw [memberNamed, ← hfind]
        rfl
    | some i =>
      have hlt := named_lt name false hn
      rw [ofMembers_eq_map, List.length_map] at hlt
      have hmember : (ms.find? fun m => Json.caseInsensitiveEq name m.1) = some ms[i] := by
        rw [← hfind, hn]
        exact List.getElem?_eq_getElem hlt
      have hitem : (itemsOf t.child)[i]? = some (Item.ofValue (some ms[i].1) ms[i].2) := by
        rw [← hchild, ofMembers_eq_map, List.getElem?_map, List.getElem?_eq_getElem hlt]
        rfl
      rw [itemsOf_eq_map, List.getElem?_map, Option.map_eq_some_iff] at hitem
      obtain ⟨m, hm, hmitem⟩ := hitem
      obtain ⟨hi, rfl⟩ := List.getElem?_eq_some_iff.mp hm
      refine Or.inr ⟨t.child.take i, t.child[i], t.child.drop (i + 1), ms[i].2, ?_, ?_, ?_, ?_⟩
      · rw [← List.drop_eq_getElem_cons hi, List.take_append_drop]
      · rw [← hchild, hn, List.length_take, Nat.min_eq_left (Nat.le_of_lt hi)]
      · exact ⟨_, hmitem⟩
      · rw [memberNamed, hmember]
        rfl
  | array vs =>
    exact Or.inl (missing_of_values vs hchild.symm (fun _ => rfl) name)
  | bool b =>
    cases b <;> exact Or.inl (missing_of_values [] hchild.symm (fun _ => rfl) name)
  | _ => exact Or.inl (missing_of_values [] hchild.symm (fun _ => rfl) name)

variable {h : Heap Node} {rest : Multiset (Nat × Node)} {t : Tree} {v : Value} {name : Bytes}

theorem holds_root (hh : h.Holds (t.cells none none + rest)) :
    h.Holds ({(t.addr, ⟨none, none, first t.child none, t.data⟩)} +
      (chain none t.child none + rest)) := by
  refine hh.congr ?_
  rw [t.cells_eq, add_assoc]

theorem cells_ne_zero (t : Tree) (prev next : Option Nat) : t.cells prev next ≠ 0 := by
  rw [t.cells_eq]
  intro h0
  exact Multiset.singleton_ne_zero _ (add_eq_zero.mp h0).1

/-- A child that is freed takes those behind it along, and leaves the others in memory. -/
theorem cJSONDelete_member (hh : h.Holds (t.cells none none + rest)) {pre post : List Tree}
    {m : Tree} (hchild : t.child = pre ++ m :: post) :
    ∃ h' kept, cJSONDelete h (some m.addr) = .ok h' ∧ kept ≠ 0 ∧ h'.Holds (kept + rest) := by
  have hkept : h.Holds (chain (last none pre) (m :: post) none +
      ({(t.addr, ⟨none, none, first t.child none, t.data⟩)} + chain none pre (some m.addr) +
        rest)) := by
    refine (holds_root hh).congr ?_
    rw [hchild, chain_append]
    show _ + (chain none pre (some m.addr) + _ + rest) = _
    abel
  obtain ⟨h', hdelete, hh'⟩ := cJSONDelete_chain hkept
  refine ⟨h', _, hdelete, ?_, hh'⟩
  intro h0
  exact Multiset.singleton_ne_zero _ (add_eq_zero.mp h0).1

theorem getObjectItem_missing {node : Node} (hload : load h (some t.addr) = .ok node)
    (hnode : node.child = first t.child none) (hh : h.Holds (chain none t.child none + rest))
    (hmissing : Missing t v name) :
    Cjson.getObjectItem h (some t.addr) name false = .ok none := by
  rw [getObjectItem_spine hload hnode (spine_of_chain hh), hmissing.1]
  rfl

theorem getObjectItem_found {node : Node} (hload : load h (some t.addr) = .ok node)
    (hnode : node.child = first t.child none) (hh : h.Holds (chain none t.child none + rest))
    {pre post : List Tree} {m : Tree} {w : Value} (hfound : FoundAt t v name pre m post w) :
    Cjson.getObjectItem h (some t.addr) name false = .ok (some m.addr) := by
  rw [getObjectItem_spine hload hnode (spine_of_chain hh), hfound.place]
  show Except.ok (t.child[pre.length]?.map Tree.addr) = _
  rw [hfound.child, List.getElem?_append_right (Nat.le_refl _), Nat.sub_self]
  rfl

theorem isType_of_load {node : Node} (hload : load h (some t.addr) = .ok node)
    (hdata : node.data = t.data) {s : Option Bytes} (ht : t.item = Item.ofValue s v) (type : Nat) :
    isType h (some t.addr) type = .ok (kind v == type) := by
  have htype : t.data.type = kind v := by
    rw [← item_type, ht, type_ofValue]
  rw [isType, if_neg (by simp), hload, ok_bind, hdata, htype, kind_and]
  rfl

theorem isType_null (h : Heap Node) (type : Nat) : isType h none type = .ok false := rfl

/-! ## What is below the entries -/

variable {ts : List Tree} {below : Multiset (Nat × Node)}

/-- The memory below the entries, of which the first `i` have been looked at.  Once a member was
freed, an entry in front leads to its address still. -/
def Below (ts : List Tree) (i : Nat) (h : Heap Node) : Bool → Multiset (Nat × Node) → Prop
  | false, below => below = inner ts
  | true, below => ∃ ts₁ e ts₂ pre d junk, ts = ts₁ ++ e :: ts₂ ∧ ts₁.length < i ∧
      first e.child none = first pre (some d) ∧ h.get d = none ∧
      below = inner (ts.drop i) + (inner ts₁ + (chain none pre (some d) + junk))

/-- What is below the entries that were not looked at is all there. -/
theorem Below.ahead {i : Nat} {deleted : Bool} (hbelow : Below ts i h deleted below) :
    ∃ others, below = inner (ts.drop i) + others := by
  cases deleted with
  | false =>
    refine ⟨inner (ts.take i), ?_⟩
    have hbelow' : below = inner ts := hbelow
    rw [hbelow', add_comm, ← inner_append, List.take_append_drop]
  | true =>
    obtain ⟨ts₁, e, ts₂, pre, d, junk, -, -, -, -, heq⟩ := hbelow
    exact ⟨_, heq⟩

theorem Below.skip {i : Nat} {deleted : Bool} {e : Tree} {es : List Tree}
    (hbelow : Below ts i h deleted below) (hdrop : ts.drop i = e :: es) :
    Below ts (i + 1) h deleted below := by
  cases deleted with
  | false => exact hbelow
  | true =>
    obtain ⟨ts₁, e', ts₂, pre, d, junk, hts, hlt, hfirst, hget, heq⟩ := hbelow
    have hdrop' : ts.drop (i + 1) = es := by
      rw [← List.drop_drop, hdrop]
      rfl
    refine ⟨ts₁, e', ts₂, pre, d, chain none e.child none + junk, hts, by omega, hfirst, hget, ?_⟩
    rw [heq, hdrop, hdrop']
    show chain none e.child none + inner es + _ = _
    abel

/-- A member of the entry `i` is freed, with the members behind it. -/
theorem Below.damage {i : Nat} {deleted : Bool} {e : Tree} {es : List Tree}
    (hbelow : Below ts i h deleted below) (hdrop : ts.drop i = e :: es) :
    ∃ others, below = chain none e.child none + others ∧
      ∀ h' pre d, (∀ a, h.get a = none → h'.get a = none) →
        first e.child none = first pre (some d) → h'.get d = none →
        Below ts (i + 1) h' true (chain none pre (some d) + others) := by
  have hdrop' : ts.drop (i + 1) = es := by
    rw [← List.drop_drop, hdrop]
    rfl
  cases deleted with
  | false =>
    have hbelow' : below = inner ts := hbelow
    have hsplit : ts.take i ++ e :: es = ts := by
      rw [← hdrop, List.take_append_drop]
    refine ⟨inner (ts.take i) + inner es, ?_, ?_⟩
    · rw [hbelow', ← hsplit, inner_append, hsplit]
      show _ + (chain none e.child none + inner es) = _
      abel
    · intro h' pre d _ hfirst hget
      have hlt : (ts.take i).length < i + 1 := by
        rw [List.length_take]
        omega
      refine ⟨ts.take i, e, es, pre, d, 0, hsplit.symm, hlt, hfirst, hget, ?_⟩
      rw [hdrop']
      abel
  | true =>
    obtain ⟨ts₁, e', ts₂, pre₀, d₀, junk, hts, hlt, hfirst₀, hget₀, heq⟩ := hbelow
    refine ⟨inner es + (inner ts₁ + (chain none pre₀ (some d₀) + junk)), ?_, ?_⟩
    · rw [heq, hdrop]
      show chain none e.child none + inner es + _ = _
      abel
    · intro h' pre d hmono _ _
      refine ⟨ts₁, e', ts₂, pre₀, d₀, chain none pre (some d) + junk, hts, by omega, hfirst₀,
        hmono d₀ hget₀, ?_⟩
      rw [hdrop']
      abel

/-! ## The loop -/

/-- The memory of the array and of its entries, and what is below them. -/
def roomCells (r : Nat) (rn : Node) (ts : List Tree) (below rest : Multiset (Nat × Node)) :
    Multiset (Nat × Node) :=
  spine none ts none + ({(r, rn)} + (below + rest))

/-- The loop in memory ends as the loop over the values does. -/
def LoopEnds (r : Nat) (rn : Node) (ts : List Tree) (rest : Multiset (Nat × Node))
    (result : Checked (Heap Node × Slots)) : Checked (Slots × Bool) → Prop
  | .error f => result = .error f
  | .ok (slots, deleted) => ∃ h i below, result = .ok (h, slots) ∧ Below ts i h deleted below ∧
    h.Holds (roomCells r rn ts below rest)

theorem load_room {r : Nat} {rn : Node} (hh : h.Holds (roomCells r rn ts below rest)) :
    load h (some r) = .ok rn := by
  apply load_of_get
  apply hh.get_of_mem
  rw [roomCells]
  apply Multiset.mem_add.mpr
  apply Or.inr
  exact Multiset.mem_add.mpr (Or.inl (Multiset.mem_singleton_self _))

theorem itemsOf_drop (ts : List Tree) (i : Nat) : itemsOf (ts.drop i) = (itemsOf ts).drop i := by
  rw [itemsOf_eq_map, itemsOf_eq_map, List.map_drop]

/-- The entry that the loop looks at. -/
theorem entry_at {vs : List Value} (hvs : itemsOf ts = Item.ofValues vs) {i : Nat} {v : Value}
    {ws : List Value} (hdrop : vs.drop i = v :: ws) :
    ∃ e es, ts.drop i = e :: es ∧ e.item = Item.ofValue none v ∧ ts[i]? = some e ∧
      i < ts.length := by
  have hitems : itemsOf (ts.drop i) = Item.ofValue none v :: Item.ofValues ws := by
    rw [itemsOf_drop, hvs, ofValues_eq_map, ← List.map_drop, hdrop, ofValues_eq_map]
    rfl
  cases hts : ts.drop i with
  | nil =>
    rw [hts] at hitems
    cases hitems
  | cons e es =>
    rw [hts] at hitems
    have hget : ts[i]? = some e := by
      rw [← List.head?_drop, hts]
      rfl
    refine ⟨e, es, rfl, (List.cons.inj hitems).1, hget, ?_⟩
    exact (List.getElem?_eq_some_iff.mp hget).1

theorem length_eq_of_items {vs : List Value} (hvs : itemsOf ts = Item.ofValues vs) :
    ts.length = vs.length := by
  have hlen := congrArg List.length hvs
  rwa [itemsOf_eq_map, ofValues_eq_map, List.length_map, List.length_map] at hlen

/-- Freeing an entry breaks the chain that the next test of the loop follows. -/
theorem roomLoop_freed {r : Nat} {rn : Node} (hrn : rn.child = first ts none) {i : Nat} {e : Tree}
    {es : List Tree} (hdrop : ts.drop i = e :: es) {deleted : Bool}
    (hbelow : Below ts i h deleted below) (hh : h.Holds (roomCells r rn ts below rest)) :
    ∃ h', cJSONDelete h (some e.addr) = .ok h' ∧
      ∀ fuel senIDs, roomLoop (fuel + 1) h' (some r) (i + 1) senIDs = .error .freed := by
  obtain ⟨others, rfl⟩ := hbelow.ahead
  have hsplit : ts.take i ++ e :: es = ts := by
    rw [← hdrop, List.take_append_drop]
  have hspine : spine none ts none =
      spine none (ts.take i) (some e.addr) + spine (last none (ts.take i)) (e :: es) none := by
    have happend := spine_append none (ts.take i) (e :: es) none
    rwa [hsplit] at happend
  have hentries : h.Holds (chain (last none (ts.take i)) (e :: es) none +
      (spine none (ts.take i) (some e.addr) + ({(r, rn)} + (others + rest)))) := by
    refine hh.congr ?_
    rw [roomCells, hspine, chain_eq, hdrop]
    abel
  obtain ⟨h', hdelete, hh'⟩ := cJSONDelete_chain hentries
  refine ⟨h', hdelete, fun fuel senIDs => ?_⟩
  have hgone := get_deleted hentries hh'
  have hself : h'.Holds ({(r, rn)} +
      (spine none (ts.take i) (some e.addr) + (others + rest))) := by
    refine hh'.congr ?_
    abel
  have hroom := load_of_get hself.get
  have hfirst : first ts none = first (ts.take i) (some e.addr) := by
    have happend := first_append (ts.take i) (e :: es) none
    rwa [hsplit] at happend
  have hlen : (ts.take i).length < h'.cells.length := by
    have hcard := hh'.card_le
    rw [Multiset.card_add, Multiset.card_add, Multiset.card_singleton, card_spine] at hcard
    omega
  have hsize : getArraySize h' (some r) = .error .freed := by
    rw [getArraySize, hroom, ok_bind, hrn, hfirst]
    exact countItems_freed hh' hgone hlen
  rw [roomLoop, hsize]
  rfl

theorem isObject_valueJson (v : Value) : (valueJson v).isObject = (kind v == cJSONObject) := by
  cases v with
  | bool b => cases b <;> rfl
  | _ => rfl

theorem exists_number {w : Value} (h : kind w = cJSONNumber) : ∃ d, w = .number d := by
  cases w with
  | number d => exact ⟨d, rfl⟩
  | bool b => cases b <;> cases h
  | _ => cases h

theorem cJSONDelete_null (h : Heap Node) : cJSONDelete h none = .ok h := deleteFrom_null _ h

/-- The loop of `read_room` in memory does what the loop over the values says. -/
theorem roomLoop_refines {r : Nat} {rn : Node} (hrn : rn.child = first ts none) {vs : List Value}
    (hvs : itemsOf ts = Item.ofValues vs) {ws : List Value} {i : Nat} (hdrop : vs.drop i = ws)
    {fuel : Nat} (hfuel : ws.length < fuel) (senIDs : Slots) {deleted : Bool}
    (hbelow : Below ts i h deleted below) (hh : h.Holds (roomCells r rn ts below rest)) :
    LoopEnds r rn ts rest (roomLoop fuel h (some r) i senIDs)
      (readRoomLoop i (valuesJson ws) senIDs deleted) := by
  induction ws generalizing i fuel senIDs deleted h below with
  | nil =>
    obtain ⟨fuel, rfl⟩ := Nat.exists_eq_succ_of_ne_zero (n := fuel) (by simp at hfuel; omega)
    have hle : ts.length ≤ i := by
      rw [length_eq_of_items hvs]
      exact List.drop_eq_nil_iff.mp hdrop
    refine ⟨h, i, below, ?_, hbelow, hh⟩
    rw [roomLoop, getArraySize_spine (load_room hh) hrn hh, ok_bind, if_pos hle, pure_eq_ok]
  | cons v ws ih =>
    obtain ⟨fuel, rfl⟩ := Nat.exists_eq_succ_of_ne_zero (n := fuel) (by simp at hfuel; omega)
    obtain ⟨e, es, hts, hitem, hget, hlt⟩ := entry_at hvs hdrop
    have hnext : vs.drop (i + 1) = ws := by
      rw [← List.drop_drop, hdrop]
      rfl
    have hfuel' : ws.length < fuel := Nat.lt_of_succ_lt_succ hfuel
    obtain ⟨p, q, hload⟩ := load_mem hh (List.mem_of_getElem? hget)
    have hstart : roomLoop (fuel + 1) h (some r) i senIDs = (do
        let isObject ← isType h (some e.addr) cJSONObject
        if isObject then do
          let subSID ← Cjson.getObjectItem h (some e.addr) (bytes "sensorID") false
          let isNumber ← isType h subSID cJSONNumber
          if isNumber then do
            let node ← load h subSID
            if i < 5 then
              roomLoop fuel h (some r) (i + 1) (Function.update senIDs i (some node.data.valueint))
            else throw .wild
          else do
            let h ← cJSONDelete h subSID
            roomLoop fuel h (some r) (i + 1) senIDs
        else do
          let h ← cJSONDelete h (some e.addr)
          roomLoop fuel h (some r) (i + 1) senIDs) := by
      rw [roomLoop, getArraySize_spine (load_room hh) hrn hh, ok_bind, if_neg (by omega),
        getArrayItem_spine (load_room hh) hrn hh, ok_bind, hget]
      rfl
    rw [hstart, isType_of_load hload rfl hitem, ok_bind,
      show valuesJson (v :: ws) = valueJson v :: valuesJson ws from rfl, readRoomLoop,
      isObject_valueJson]
    cases hobj : kind v == cJSONObject with
    | false =>
      obtain ⟨h', hdelete, hfreed⟩ := roomLoop_freed hrn hts hbelow hh
      obtain ⟨fuel, rfl⟩ := Nat.exists_eq_succ_of_ne_zero (n := fuel) (by omega)
      show (cJSONDelete h (some e.addr) >>= _) = _
      rw [hdelete]
      exact hfreed fuel senIDs
    | true =>
      obtain ⟨others, rfl, hdamaged⟩ := hbelow.damage hts
      have hchild : h.Holds (chain none e.child none +
          (spine none ts none + ({(r, rn)} + (others + rest)))) := by
        refine hh.congr ?_
        rw [roomCells]
        abel
      rw [if_pos rfl, if_pos rfl]
      rcases missing_or_found hitem (bytes "sensorID") with hmissing | ⟨pre, m, post, w, hfound⟩
      · rw [getObjectItem_missing hload rfl hchild hmissing, ok_bind, isType_null, ok_bind,
          if_neg (by decide), cJSONDelete_null, ok_bind, hmissing.value]
        exact ih hnext hfuel' senIDs (hbelow.skip hts) hh
      · obtain ⟨n, hm⟩ := hfound.item
        have hmem : m ∈ e.child := by
          rw [hfound.child]
          exact List.mem_append_right pre List.mem_cons_self
        obtain ⟨p', q', hloadm⟩ := load_mem (spine_of_chain hchild) hmem
        rw [getObjectItem_found hload rfl hchild hfound, ok_bind, isType_of_load hloadm rfl hm,
          ok_bind, hfound.value]
        cases hnumber : kind w == cJSONNumber with
        | true =>
          obtain ⟨d, rfl⟩ := exists_number (eq_of_beq hnumber)
          have hvalue : m.data.valueint = (saturate d).getD 0 := by
            rw [← item_valueint, hm]
            rfl
          rw [if_pos rfl, hloadm, ok_bind, hvalue]
          show LoopEnds r rn ts rest _ (if i < 5 then _ else _)
          by_cases hi : i < 5
          · rw [if_pos hi, if_pos hi]
            exact ih hnext hfuel' _ (hbelow.skip hts) hh
          · rw [if_neg hi, if_neg hi]
            rfl
        | false =>
          have hkept : h.Holds (chain (last none pre) (m :: post) none +
              (chain none pre (some m.addr) +
                (spine none ts none + ({(r, rn)} + (others + rest))))) := by
            refine hchild.congr ?_
            rw [hfound.child, chain_append]
            show chain none pre (some m.addr) + _ + _ = _
            abel
          obtain ⟨h', hdelete, hh'⟩ := cJSONDelete_chain hkept
          have hbelow' := hdamaged h' pre m.addr (fun a ha => hkept.get_none hh' ha)
            (by rw [hfound.child, first_append]; rfl) (get_deleted hkept hh')
          have hcells : h'.Holds
              (roomCells r rn ts (chain none pre (some m.addr) + others) rest) := by
            refine hh'.congr ?_
            rw [roomCells]
            abel
          have hgoes : LoopEnds r rn ts rest (roomLoop fuel h' (some r) (i + 1) senIDs)
              (readRoomLoop (i + 1) (valuesJson ws) senIDs true) :=
            ih hnext hfuel' senIDs hbelow' hcells
          change cJSONDelete h (some m.addr) = _ at hdelete
          rw [if_neg (by decide), hdelete, ok_bind]
          cases w with
          | number d => cases hnumber
          | bool b => cases b <;> exact hgoes
          | _ => exact hgoes

/-! ## The function -/

theorem length_le_card (ts : List Tree) (prev next : Option Nat) :
    ts.length ≤ (chain prev ts next).card := by
  rw [chain_eq, Multiset.card_add, card_spine]
  omega

/-- The last `cJSON_Delete` of `read_room` meets a member that was freed. -/
theorem cJSONDelete_damaged {r : Nat} {rn : Node} (hrn : rn.child = first ts none)
    (howned : rn.data.type &&& cJSONIsReference = 0) {i : Nat}
    (hbelow : Below ts i h true below) {pre : List Tree}
    (hchild : first t.child none = first pre (some r))
    {others : Multiset (Nat × Node)}
    (hh : h.Holds ({(t.addr, ⟨none, none, first t.child none, t.data⟩)} +
      (chain none pre (some r) + (roomCells r rn ts below others)))) :
    cJSONDelete h (some t.addr) = .error .freed := by
  obtain ⟨ts₁, e, ts₂, pre', d, junk, rfl, -, hfirst, hget, rfl⟩ := hbelow
  have hspine := spine_append none ts₁ (e :: ts₂) none
  have hle := length_le_card pre none (some r)
  have hle' := length_le_card pre' none (some d)
  have hle₁ := length_le_card ts₁ none (some e.addr)
  have hchain₁ := chain_eq none ts₁ (some e.addr)
  -- What is left when the deletion arrives at the member that was freed.
  obtain ⟨left, hleft⟩ : ∃ left : Multiset (Nat × Node), left =
      {(t.addr, ⟨none, none, first t.child none, t.data⟩)} + ({(r, rn)} +
        (spine (last none ts₁) (e :: ts₂) none +
          (inner ((ts₁ ++ e :: ts₂).drop i) + (junk + others)))) := ⟨_, rfl⟩
  have hall : h.Holds (chain none pre (some r) + (chain none ts₁ (some e.addr) +
      (chain none pre' (some d) + left))) := by
    refine hh.congr ?_
    rw [roomCells, hspine, hchain₁, hleft]
    show {(t.addr, _)} + (chain none pre (some r) + (spine none ts₁ (some e.addr) + _ + _)) = _
    abel
  have hcard := hall.card_le
  rw [Multiset.card_add, Multiset.card_add, Multiset.card_add] at hcard
  have hthree : 3 ≤ left.card := by
    rw [hleft, Multiset.card_add, Multiset.card_add, Multiset.card_add, card_spine,
      Multiset.card_singleton, Multiset.card_singleton, List.length_cons]
    omega
  rw [cJSONDelete]
  refine deleteFrom_error (load_of_get hh.get) t.owned ?_
  -- The members in front of the array go first.
  obtain ⟨h₁, hskip₁, hh₁⟩ := deleteFrom_skip pre (show _ ≤ h.cells.length by omega) hall
  show deleteFrom h.cells.length h (first t.child none) = _
  rw [hchild, hskip₁]
  obtain ⟨n₁, hn₁⟩ := Nat.exists_eq_succ_of_ne_zero (n := h.cells.length - pre.length) (by omega)
  have hroom : load h₁ (some r) = .ok rn := by
    apply load_of_get
    apply hh₁.get_of_mem
    rw [hleft]
    simp only [Multiset.mem_add, Multiset.mem_singleton, or_true, true_or]
  rw [hn₁]
  refine deleteFrom_error hroom howned ?_
  -- Then the entries in front of the damaged one.
  obtain ⟨h₂, hskip₂, hh₂⟩ := deleteFrom_skip ts₁ (show _ ≤ n₁ by omega) hh₁
  rw [hrn, first_append, show first (e :: ts₂) none = some e.addr from rfl, hskip₂]
  obtain ⟨n₂, hn₂⟩ := Nat.exists_eq_succ_of_ne_zero (n := n₁ - ts₁.length) (by omega)
  have hentry : load h₂ (some e.addr) =
      .ok ⟨first ts₂ none, last none ts₁, first e.child none, e.data⟩ := by
    apply load_of_get
    apply hh₂.get_of_mem
    rw [hleft, spine]
    simp only [Multiset.mem_add, Multiset.mem_singleton, or_true, true_or]
  rw [hn₂]
  refine deleteFrom_error hentry e.owned ?_
  -- Then the members that are left of it.
  obtain ⟨h₃, hskip₃, hh₃⟩ := deleteFrom_skip pre' (show _ ≤ n₂ by omega) hh₂
  show deleteFrom n₂ h₂ (first e.child none) = _
  obtain ⟨n₃, hn₃⟩ := Nat.exists_eq_succ_of_ne_zero (n := n₂ - pre'.length) (by omega)
  rw [hfirst, hskip₃, hn₃]
  have hgone : h.Holds (chain none pre (some r) + chain none ts₁ (some e.addr) +
      chain none pre' (some d) + left) := by
    refine hall.congr ?_
    abel
  exact deleteFrom_freed (hgone.get_none hh₃ hget)

/-- `read_room` in memory ends as `readRoom` does.  With an array, all that the parser built is
freed.  With `NULL`, some of it is left, and nothing points to it. -/
def RoomEnds (rest : Multiset (Nat × Node)) (result : Checked (Heap Node × Option Slots)) :
    Checked (Option Slots) → Prop
  | .error f => result = .error f
  | .ok (some senIDs) => ∃ h, result = .ok (h, some senIDs) ∧ h.Holds rest
  | .ok none => ∃ h kept, result = .ok (h, none) ∧ kept ≠ 0 ∧ h.Holds (kept + rest)

/-- `read_room` in memory does what `readRoom` says of the values: it uses memory that was freed, or
writes behind the five slots, on the same files, and returns the same array or `NULL` on the
others. -/
theorem readRoomIn_refines {h : Heap Node} {rest : Multiset (Nat × Node)} {t : Tree} {v : Value}
    (ht : t.item = Item.ofValue none v) (hh : h.Holds (t.cells none none + rest)) :
    RoomEnds rest (readRoomIn h (some t.addr)) (readRoom (some (valueJson v))) := by
  have hself := holds_root hh
  have hroot := load_of_get hself.get
  have hchild : h.Holds (chain none t.child none +
      ({(t.addr, ⟨none, none, first t.child none, t.data⟩)} + rest)) := by
    refine hself.congr ?_
    abel
  rw [readRoom, readRoomIn]
  rcases missing_or_found ht (bytes "roomIDs") with hmissing | ⟨pre, m, post, w, hfound⟩
  · rw [hmissing.value, getObjectItem_missing hroot rfl hchild hmissing, ok_bind, isType_null,
      ok_bind]
    refine ⟨h, t.cells none none, ?_, cells_ne_zero t none none, hh⟩
    rw [if_neg (by decide), cJSONDelete_null]
    rfl
  · obtain ⟨n, hm⟩ := hfound.item
    have hmem : m ∈ t.child := by
      rw [hfound.child]
      exact List.mem_append_right pre List.mem_cons_self
    obtain ⟨p, q, hloadm⟩ := load_mem (spine_of_chain hchild) hmem
    rw [getObjectItem_found hroot rfl hchild hfound, ok_bind, isType_of_load hloadm rfl hm, ok_bind,
      hfound.value]
    have hsplit : chain none t.child none = chain none pre (some m.addr) +
        (m.cells (last none pre) (first post none) + chain (some m.addr) post none) := by
      rw [hfound.child, chain_append]
      rfl
    -- What happens when `roomIDs` is no array.
    have hother : ∃ h' kept, (cJSONDelete h (some m.addr) >>= fun h => pure (h, none)) =
        .ok (h', (none : Option Slots)) ∧ kept ≠ 0 ∧ h'.Holds (kept + rest) := by
      obtain ⟨h', kept, hdelete, hkept, hh'⟩ := cJSONDelete_member hh hfound.child
      refine ⟨h', kept, ?_, hkept, hh'⟩
      rw [hdelete]
      rfl
    cases w with
    | array vs =>
      have hvs : itemsOf m.child = Item.ofValues vs := by
        rw [← item_child, hm]
        rfl
      have hcells : h.Holds (roomCells m.addr
          ⟨first post none, last none pre, first m.child none, m.data⟩ m.child (inner m.child)
          ({(t.addr, ⟨none, none, first t.child none, t.data⟩)} + chain none pre (some m.addr) +
            chain (some m.addr) post none + rest)) := by
        refine hself.congr ?_
        rw [roomCells, hsplit, m.cells_eq, chain_eq none m.child none]
        abel
      have hfuel : vs.length < h.cells.length + 1 := by
        have hle := length_le_cells hcells
        rw [length_eq_of_items hvs] at hle
        omega
      have hbelow : Below m.child 0 h false (inner m.child) := rfl
      have hloop := roomLoop_refines rfl hvs List.drop_zero hfuel (fun _ => none) hbelow hcells
      rw [show (kind (.array vs) == cJSONArray) = true from rfl, if_pos rfl]
      show RoomEnds rest _ (readRoomLoop 0 (valuesJson vs) (fun _ => none) false >>= _)
      cases hvalues : readRoomLoop 0 (valuesJson vs) (fun _ => none) false with
      | error f =>
        rw [hvalues] at hloop
        have hfault : roomLoop (h.cells.length + 1) h (some m.addr) 0 (fun _ => none) = .error f :=
          hloop
        show (roomLoop (h.cells.length + 1) h (some m.addr) 0 (fun _ => none) >>= _) = _
        rw [hfault]
        rfl
      | ok result =>
        obtain ⟨senIDs, deleted⟩ := result
        rw [hvalues] at hloop
        obtain ⟨h₁, i, below, hok, hbelow₁, hh₁⟩ := hloop
        cases deleted with
        | false =>
          have hall : h₁.Holds (t.cells none none + rest) := by
            have hbelow' : below = inner m.child := hbelow₁
            refine hh₁.congr ?_
            rw [roomCells, hbelow', t.cells_eq, hsplit, m.cells_eq, chain_eq none m.child none]
            abel
          obtain ⟨h₂, hdelete, hh₂⟩ := cJSONDelete_tree hall
          refine ⟨h₂, ?_, hh₂⟩
          show (roomLoop (h.cells.length + 1) h (some m.addr) 0 (fun _ => none) >>= _) = _
          rw [hok, ok_bind]
          show (cJSONDelete h₁ (some t.addr) >>= _) = _
          rw [hdelete]
          rfl
        | true =>
          have hdamaged : h₁.Holds ({(t.addr, ⟨none, none, first t.child none, t.data⟩)} +
              (chain none pre (some m.addr) + (roomCells m.addr
                ⟨first post none, last none pre, first m.child none, m.data⟩ m.child below
                (chain (some m.addr) post none + rest)))) := by
            refine hh₁.congr ?_
            rw [roomCells, roomCells]
            abel
          have hfault := cJSONDelete_damaged rfl m.owned hbelow₁
            (by rw [hfound.child, first_append]; rfl) hdamaged
          show (roomLoop (h.cells.length + 1) h (some m.addr) 0 (fun _ => none) >>= _) = _
          rw [hok, ok_bind]
          show (cJSONDelete h₁ (some t.addr) >>= _) = _
          rw [hfault]
          rfl
    | bool b => cases b <;> exact hother
    | _ => exact hother

/-- A room with one sensor. -/
def smallRoom : Value :=
  .object [(bytes "roomIDs", .array [.object [(bytes "sensorID", .number zero)]])]

def smallTree : Tree :=
  ⟨0, ⟨cJSONObject, none, 0, zero, none⟩, rfl,
    [⟨1, ⟨cJSONArray, none, 0, zero, some (bytes "roomIDs")⟩, rfl,
      [⟨2, ⟨cJSONObject, none, 0, zero, none⟩, rfl,
        [⟨3, ⟨cJSONNumber, none, (saturate zero).getD 0, zero, some (bytes "sensorID")⟩, rfl,
          []⟩]⟩]⟩]⟩

def smallHeap : Heap Node :=
  ⟨[(0, ⟨none, none, some 1, ⟨cJSONObject, none, 0, zero, none⟩⟩),
    (1, ⟨none, none, some 2, ⟨cJSONArray, none, 0, zero, some (bytes "roomIDs")⟩⟩),
    (2, ⟨none, none, some 3, ⟨cJSONObject, none, 0, zero, none⟩⟩),
    (3, ⟨none, none, none,
      ⟨cJSONNumber, none, (saturate zero).getD 0, zero, some (bytes "sensorID")⟩⟩)]⟩

theorem readRoomIn_refines_small : ∃ h senIDs,
    readRoomIn smallHeap (some 0) = .ok (h, some senIDs) ∧ h.Holds 0 := by
  have hh : smallHeap.Holds (smallTree.cells none none + 0) :=
    Heap.holds_mk (show [0, 1, 2, 3].Nodup by decide)
  have hitem : smallTree.item = Item.ofValue none smallRoom := rfl
  have hends := readRoomIn_refines hitem hh
  have hroom : readRoom (some (valueJson smallRoom)) = .ok (some _) := rfl
  rw [hroom] at hends
  obtain ⟨h, hok, hempty⟩ := hends
  exact ⟨h, _, hok, hempty⟩

end Gateway
end LinuxPrograming

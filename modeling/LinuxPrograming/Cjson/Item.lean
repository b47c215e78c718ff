import LinuxPrograming.Gateway.Memory
import LinuxPrograming.Lib.CInt
import LinuxPrograming.Lib.Double

/-!
# Items

The `cJSON` structure, and the JSON values that it represents.  The list that runs from `child`
through the `next` pointers is a list of items here.  A string is the C string that a reader of
the pointer sees.

A block is a stretch of memory that cJSON got from `malloc` and has to give back.
-/

namespace LinuxPrograming
namespace Cjson

open Lib Gateway

/-! ## Types -/

def cJSONFalse : Nat := 1
def cJSONTrue : Nat := 2
def cJSONNull : Nat := 4
def cJSONNumber : Nat := 8
def cJSONString : Nat := 16
def cJSONArray : Nat := 32
def cJSONObject : Nat := 64
def cJSONRaw : Nat := 128
def cJSONIsReference : Nat := 256
def cJSONStringIsConst : Nat := 512

/-! ## Numbers -/

/-- The `int` next to the `double` of a number, saturated.  C has none for NaN. -/
def saturate : Double → Option Int
  | .nan => none
  | .inf neg => some (if neg then -maxInt - 1 else maxInt)
  | .finite neg mag =>
    let value : Rat := if neg then -mag.val else mag.val
    some (if (maxInt : Rat) ≤ value then maxInt
      else if value ≤ ((-maxInt - 1 : Int) : Rat) then -maxInt - 1
      else if neg then -⌊mag.val⌋ else ⌊mag.val⌋)

theorem exists_saturate {d : Double} (h : d ≠ .nan) : ∃ i, saturate d = some i := by
  cases d with
  | finite neg mag => exact ⟨_, rfl⟩
  | inf neg => exact ⟨_, rfl⟩
  | nan => exact absurd rfl h

/-- The bytes of a `double` that `memset` cleared. -/
def zero : Double := Double.ofDecimal false 0 0

/-! ## Items -/

structure Item where
  type : Nat
  valuestring : Option Bytes
  valueint : Int
  valuedouble : Double
  string : Option Bytes
  child : List Item

/-- `cJSON_New_Item`, when there is memory. -/
def Item.new : Item := ⟨0, none, 0, zero, none, []⟩

mutual

/-- How many blocks `cJSON_Delete` frees for an item.  What a reference refers to and a constant
name are not the item's own. -/
def Item.blocks : Item → Nat
  | ⟨type, valuestring, _, _, string, child⟩ =>
    1 + (if type &&& cJSONIsReference = 0 then Item.blocksList child + valuestring.elim 0 fun _ => 1
      else 0) +
      if type &&& cJSONStringIsConst = 0 then string.elim 0 fun _ => 1 else 0

def Item.blocksList : List Item → Nat
  | [] => 0
  | item :: items => item.blocks + Item.blocksList items

end

/-! ## Values -/

inductive Value where
  | null
  | bool (b : Bool)
  | number (d : Double)
  | string (s : Bytes)
  | array (items : List Value)
  | object (members : List (Bytes × Value))

mutual

/-- How deep arrays and objects are nested. -/
def Value.depth : Value → Nat
  | .array items => Value.depthList items + 1
  | .object members => Value.depthMembers members + 1
  | _ => 0

def Value.depthList : List Value → Nat
  | [] => 0
  | v :: vs => max v.depth (Value.depthList vs)

def Value.depthMembers : List (Bytes × Value) → Nat
  | [] => 0
  | (_, v) :: members => max v.depth (Value.depthMembers members)

end

mutual

/-- The strings hold no NUL, and no number is NaN. -/
def Value.Valid : Value → Prop
  | .number d => d ≠ .nan
  | .string s => 0 ∉ s
  | .array items => Value.ValidList items
  | .object members => Value.ValidMembers members
  | _ => True

def Value.ValidList : List Value → Prop
  | [] => True
  | v :: vs => v.Valid ∧ Value.ValidList vs

def Value.ValidMembers : List (Bytes × Value) → Prop
  | [] => True
  | (name, v) :: members => 0 ∉ name ∧ v.Valid ∧ Value.ValidMembers members

end

mutual

/-- The item for a value, with the name it has as the member of an object. -/
def Item.ofValue (string : Option Bytes) : Value → Item
  | .null => { Item.new with type := cJSONNull, string }
  | .bool false => { Item.new with type := cJSONFalse, string }
  | .bool true => { Item.new with type := cJSONTrue, valueint := 1, string }
  | .number d =>
    { Item.new with
      type := cJSONNumber, valueint := (saturate d).getD 0, valuedouble := d, string }
  | .string s => { Item.new with type := cJSONString, valuestring := some s, string }
  | .array items => { Item.new with type := cJSONArray, string, child := Item.ofValues items }
  | .object members =>
    { Item.new with type := cJSONObject, string, child := Item.ofMembers members }

def Item.ofValues : List Value → List Item
  | [] => []
  | v :: vs => Item.ofValue none v :: Item.ofValues vs

def Item.ofMembers : List (Bytes × Value) → List Item
  | [] => []
  | (name, v) :: members => Item.ofValue (some name) v :: Item.ofMembers members

end

end Cjson
end LinuxPrograming

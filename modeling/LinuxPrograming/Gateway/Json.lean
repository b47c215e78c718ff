import LinuxPrograming.Lib.Bytes
import Mathlib.Algebra.Order.Ring.Rat

/-!
# cJSON values

What `cJSON_Parse` returns, as far as the gateway looks at it.  A number carries the
`int` that cJSON converted it to next to the real value.  A string, and the name of
an object member, is the C string a reader of the pointer sees.
-/

namespace LinuxPrograming
namespace Gateway

open Lib

inductive Json where
  | null
  | bool (b : Bool)
  | number (valueint : Int) (valuedouble : Rat)
  | string (valuestring : Bytes)
  | array (items : List Json)
  | object (members : List (Bytes × Json))

namespace Json

/-- `tolower` in the C locale. -/
def toLower (c : UInt8) : UInt8 := if 65 ≤ c ∧ c ≤ 90 then c + 32 else c

/-- `case_insensitive_strcmp(string1, string2) == 0`. -/
def caseInsensitiveEq (string1 string2 : Bytes) : Bool :=
  string1.map toLower == string2.map toLower

/-- `cJSON_GetObjectItem`: the first member with the name, `none` for `NULL`.  Items
without named children, and `NULL` itself, have no member. -/
def getObjectItem (item : Option Json) (name : Bytes) : Option Json :=
  match item with
  | some (.object members) =>
    (members.find? fun m => caseInsensitiveEq name m.1).map Prod.snd
  | _ => none

/-- `cJSON_IsObject`. -/
def isObject : Json → Bool
  | .object _ => true
  | _ => false

end Json
end Gateway
end LinuxPrograming

/-
Imago/Json.lean

JSON values, as `serde_json` holds them.

An object is the list of its fields; what the programs see of it is the lookup by key
(`JsonMap.get`), and an insertion keeps the fields in the order of the keys.
-/
import Mathlib.Data.List.Basic

namespace Imago

/-- `serde_json::Number`; a float by its bits. -/
inductive JsonNumber where
  | posInt (n : UInt64)
  | negInt (n : Int64)
  | float (bits : UInt64)
  deriving DecidableEq

/-- `serde_json::Value`. -/
inductive JsonValue where
  | null
  | bool (b : Bool)
  | number (n : JsonNumber)
  | string (s : String)
  | array (items : List JsonValue)
  | object (fields : List (String × JsonValue))

/-- `serde_json::Map`. -/
abbrev JsonMap := List (String × JsonValue)

namespace JsonMap

/-- `Map::get`. -/
def get (map : JsonMap) (key : String) : Option JsonValue := List.lookup key map

end JsonMap

namespace JsonValue

/-- `Value::as_object`. -/
def asObject : JsonValue → Option JsonMap
  | .object fields => some fields
  | _ => none

/-- `Value::as_array`. -/
def asArray : JsonValue → Option (List JsonValue)
  | .array items => some items
  | _ => none

/-- `Value::as_str`. -/
def asStr : JsonValue → Option String
  | .string s => some s
  | _ => none

/-- `Value::as_bool`. -/
def asBool : JsonValue → Option Bool
  | .bool b => some b
  | _ => none

theorem asStr_eq_some {value : JsonValue} {s : String} :
    value.asStr = some s ↔ value = .string s := by
  cases value <;> simp [asStr]

end JsonValue

end Imago

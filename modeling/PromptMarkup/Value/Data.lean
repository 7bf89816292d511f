/-
Values and JSON.

* `Value.ofJson` — every JSON value is a value;
* `Value.toJson` — a value as JSON: whole numbers below `2 ^ 53` are written as such, a number that
  is not finite, a function and undefined become null, and fields without data are left out of
  objects;
* `Value.rendered` — a value as it is written into a prompt: arrays and objects as JSON on one line,
  everything else by its text.
-/
import PromptMarkup.Json.Printer
import PromptMarkup.Value.Coercion

namespace PromptMarkup.Value

mutual

/-- A JSON value as a value. -/
def ofJson : Json → Value
  | .null => null
  | .boolean b => boolean b
  | .whole n => number (Number.ofInt n)
  | .number x => number x
  | .string s => string s
  | .array items => array (ofItems items)
  | .object fields => object (ofFields fields)

/-- The items of an array. -/
def ofItems : List Json → List Value
  | [] => []
  | v :: rest => ofJson v :: ofItems rest

/-- The fields of an object. -/
def ofFields : List (String × Json) → List (String × Value)
  | [] => []
  | (key, v) :: rest => (key, ofJson v) :: ofFields rest

end

/-- A number as JSON. -/
def numberToJson (x : Float) : Json :=
  match Number.wholePart? x with
  | none => .null
  | some n => if Number.isWhole x && n.natAbs < Number.twoTo 53 then .whole n else .number x

/-- The value is left out of objects. -/
def isAbsent : Value → Bool
  | undefined | function _ _ => true
  | _ => false

mutual

/-- A value as JSON. -/
def toJson : Value → Json
  | undefined | null | function _ _ => .null
  | boolean b => .boolean b
  | number x => numberToJson x
  | string s => .string s
  | array items => .array (itemsToJson items)
  | object fields => .object (fieldsToJson fields)

/-- The items of an array. -/
def itemsToJson : List Value → List Json
  | [] => []
  | v :: rest => toJson v :: itemsToJson rest

/-- The fields of an object that hold data. -/
def fieldsToJson : List (String × Value) → List (String × Json)
  | [] => []
  | (key, v) :: rest =>
    if v.isAbsent then fieldsToJson rest else (key, toJson v) :: fieldsToJson rest

end

/-- A value as it is written into a prompt. -/
def rendered : Value → String
  | array items => (toJson (array items)).compact
  | object fields => (toJson (object fields)).compact
  | v => v.text

end PromptMarkup.Value

/-
Values of expressions.

A value is undefined, null, a boolean, a number, a string, an array, an object or a function.
Objects keep their keys in the order in which they were first written.  Functions are compared by
identity: a function given as a parameter has the identity it came with, and every lookup of a
method on a string or an array makes a function of its own.

* `Value.kind`, `Value.typeOf` — the word for the kind of a value, and what `typeof` gives;
* `Value.isNullish`, `Value.truthy` — the tests that control `??` and the conditions.

Design notes: a method is data, the method and its receiver, and a host function is a name that the
evaluation looks up in its host.  So values are first-order, and nothing about them hangs on Lean
functions.
-/
import PromptMarkup.Json
import PromptMarkup.Number.Binary

namespace PromptMarkup

/-- Which function a function value is. -/
inductive Identity
  /-- One of the functions among the parameters. -/
  | given (n : Nat)
  /-- The function made by one lookup of a method. -/
  | made (n : Nat)
deriving DecidableEq, Repr

/-- The methods of strings. -/
inductive StringMethod
  | toUpperCase
  | toLowerCase
  | trim
  | trimStart
  | trimEnd
  | includes
  | startsWith
  | endsWith
  | indexOf
  | split
  | slice
  | replace
  | replaceAll
  | repeated
  | padStart
  | padEnd
  | charAt
  | concat
  | at
deriving DecidableEq, Repr

/-- The method of a name. -/
def StringMethod.ofName? (name : String) : Option StringMethod :=
  match name with
  | "toUpperCase" => some .toUpperCase
  | "toLowerCase" => some .toLowerCase
  | "trim" => some .trim
  | "trimStart" => some .trimStart
  | "trimEnd" => some .trimEnd
  | "includes" => some .includes
  | "startsWith" => some .startsWith
  | "endsWith" => some .endsWith
  | "indexOf" => some .indexOf
  | "split" => some .split
  | "slice" => some .slice
  | "replace" => some .replace
  | "replaceAll" => some .replaceAll
  | "repeat" => some .repeated
  | "padStart" => some .padStart
  | "padEnd" => some .padEnd
  | "charAt" => some .charAt
  | "concat" => some .concat
  | "at" => some .at
  | _ => none

/-- The methods of arrays. -/
inductive ArrayMethod
  | join
  | includes
  | indexOf
  | slice
  | concat
  | at
  | reverse
deriving DecidableEq, Repr

/-- The method of a name. -/
def ArrayMethod.ofName? (name : String) : Option ArrayMethod :=
  match name with
  | "join" => some .join
  | "includes" => some .includes
  | "indexOf" => some .indexOf
  | "slice" => some .slice
  | "concat" => some .concat
  | "at" => some .at
  | "reverse" => some .reverse
  | _ => none

mutual

/-- The value of an expression. -/
inductive Value
  | undefined
  | null
  | boolean (value : Bool)
  | number (value : Float)
  | string (value : String)
  | array (items : List Value)
  | object (fields : List (String × Value))
  | function (identity : Identity) (meaning : Callable)

/-- What a function does. -/
inductive Callable
  /-- A function of the host, by its name. -/
  | host (name : String)
  | ofString (method : StringMethod) (receiver : String)
  | ofArray (method : ArrayMethod) (receiver : List Value)

end

namespace Value

instance : Inhabited Value := ⟨undefined⟩

/-- The word for the kind of a value. -/
def kind : Value → String
  | undefined => "undefined"
  | null => "null"
  | boolean _ => "boolean"
  | number _ => "number"
  | string _ => "string"
  | array _ => "array"
  | object _ => "object"
  | function _ _ => "function"

/-- What `typeof` gives for a value. -/
def typeOf : Value → String
  | undefined => "undefined"
  | boolean _ => "boolean"
  | number _ => "number"
  | string _ => "string"
  | function _ _ => "function"
  | null | array _ | object _ => "object"

/-- Undefined or null. -/
def isNullish : Value → Bool
  | undefined | null => true
  | _ => false

/-- The value counts as true in a condition. -/
def truthy : Value → Bool
  | undefined | null => false
  | boolean b => b
  | number x => x != 0 && !x.isNaN
  | string s => !s.isEmpty
  | array _ | object _ | function _ _ => true

/-- A string of one character. -/
def ofChar (c : Char) : Value :=
  string c.toString

/-- The characters of a text, as strings. -/
def ofChars (s : List Char) : List Value :=
  s.map ofChar

/-- A count as a number. -/
def ofNat (n : Nat) : Value :=
  number (Number.ofNat n)

end Value

end PromptMarkup

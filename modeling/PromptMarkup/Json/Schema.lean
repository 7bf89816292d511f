/-
Checking JSON values against a schema.

A schema is `true`, `false`, or an object of keywords, of which these count: `type`, `required`,
`properties`, `additionalProperties`, `items`, `minimum`, `maximum`, `maxItems`, `minProperties` and
`enum`.  A keyword says nothing about values of other kinds than its own.

* `Json.mismatches` — where a value does not match a schema, and why;
* `Json.isSchema` — the keywords of a schema have values of the kinds they need;
* `Json.validate` — both together.

Numbers are compared by their values: `1` and `1.0` are equal, and `1.0` is an integer.

Design notes: this is the part of the schema language that the parameters of prompts are described
with.  Any other keyword is passed over, references to other schemas among them.  A schema adds a
report to the metadata of a prompt and changes nothing else in it.
-/
import PromptMarkup.Json.Printer

namespace PromptMarkup.Json

/-- The exact value of a number as a quotient. -/
def quotient? : Json → Option (Int × Nat)
  | whole n => some (n, 1)
  | number x =>
    if Number.isFinite x then
      let m := Number.significand x * Number.twoTo (Number.exponent x).toNat
      some (if Number.isNegative x then -(m : Int) else m, Number.twoTo (-Number.exponent x).toNat)
    else none
  | _ => none

/-- Both are numbers, and the first one is less. -/
def isLess (a b : Json) : Bool :=
  match quotient? a, quotient? b with
  | some (n, d), some (m, e) => n * e < m * d
  | _, _ => false

/-- The natural number that a number stands for. -/
def natural? (v : Json) : Option Nat :=
  match quotient? v with
  | some (n, d) => if 0 ≤ n && n % d == 0 then some (n / d).toNat else none
  | none => none

/-- Equality of two numbers by their values. -/
def equalNumbers (a b : Json) : Bool :=
  match quotient? a, quotient? b with
  | some (n, d), some (m, e) => n * e == m * d
  | _, _ => false

mutual

/-- Equality of values; objects are equal in any order of their fields. -/
def equal : Json → Json → Bool
  | null, null => true
  | boolean a, boolean b => a == b
  | string a, string b => a == b
  | array a, array b => a.length == b.length && equalItems a b
  | object a, object b => a.length == b.length && equalFields a b
  | whole a, b => equalNumbers (whole a) b
  | number a, b => equalNumbers (number a) b
  | _, _ => false

/-- Equality of items, as far as both lists go. -/
def equalItems : List Json → List Json → Bool
  | a :: as, b :: bs => equal a b && equalItems as bs
  | _, _ => true

/-- Each of the fields is among the others with an equal value. -/
def equalFields : List (String × Json) → List (String × Json) → Bool
  | [], _ => true
  | (key, a) :: rest, others =>
    (match Fields.get? others key with
      | some b => equal a b
      | none => false) && equalFields rest others

end

/-- The value is of the kind that a schema names. -/
def isOfType (v : Json) (name : String) : Bool :=
  match v with
  | null => name == "null"
  | boolean _ => name == "boolean"
  | string _ => name == "string"
  | array _ => name == "array"
  | object _ => name == "object"
  | whole _ => name == "number" || name == "integer"
  | number x => name == "number" || (name == "integer" && Number.isWhole x)

/-- The kinds that a schema can name. -/
def typeNames : List String :=
  ["null", "boolean", "string", "array", "object", "number", "integer"]

/-- The texts of strings, `none` if one of the values is no string. -/
def texts? : List Json → Option (List String)
  | [] => some []
  | string s :: rest => (texts? rest).map (s :: ·)
  | _ :: _ => none

/-- The kinds of the keyword `type`: one name, or several different ones. -/
def types? : Json → Option (List String)
  | string s => some [s]
  | array items => texts? items
  | _ => none

/-- The value of a keyword other than those that hold schemas is of the kind it needs. -/
def isKeyword (name : String) (v : Json) : Bool :=
  if name == "type" then
    match v, types? v with
    | array [], _ => false
    | _, some names => names.all typeNames.contains && names.eraseDups.length == names.length
    | _, none => false
  else if name == "required" then
    match v with
    | array items =>
      match texts? items with
      | some names => names.eraseDups.length == names.length
      | none => false
    | _ => false
  else if name == "minimum" || name == "maximum" then
    (quotient? v).isSome
  else if name == "maxItems" || name == "minProperties" then
    (natural? v).isSome
  else if name == "enum" then
    match v with
    | array _ => true
    | _ => false
  else true

mutual

/-- The value is a schema. -/
def isSchema : Json → Bool
  | boolean _ => true
  | object keywords => areKeywords keywords
  | _ => false

/-- The fields are keywords of a schema. -/
def areKeywords : List (String × Json) → Bool
  | [] => true
  | (name, object fields) :: rest =>
    (if name == "properties" then areSchemas fields
      else if name == "items" || name == "additionalProperties" then areKeywords fields
      else isKeyword name (object fields)) && areKeywords rest
  | (name, boolean b) :: rest =>
    (if name == "properties" then false
      else if name == "items" || name == "additionalProperties" then true
      else isKeyword name (boolean b)) && areKeywords rest
  | (name, v) :: rest =>
    (if name == "properties" || name == "items" || name == "additionalProperties" then false
      else isKeyword name v) && areKeywords rest

/-- The fields are schemas. -/
def areSchemas : List (String × Json) → Bool
  | [] => true
  | (_, schema) :: rest => isSchema schema && areSchemas rest

end

/-- A place where a value does not match a schema. -/
structure Mismatch where
  /-- The place in the value, as a JSON pointer. -/
  path : String
  message : String
deriving DecidableEq, Repr

/-- A key as a part of a JSON pointer. -/
def pointerPart (key : String) : String :=
  "/" ++ String.ofList (key.toList.flatMap fun c =>
    if c == '~' then ['~', '0'] else if c == '/' then ['~', '1'] else [c])

/-- What a keyword other than those that hold schemas finds in a value. -/
def keywordMismatches (name : String) (keyword v : Json) : List String :=
  if name == "type" then
    match types? keyword with
    | some names =>
      if names.any (isOfType v) then []
      else
        let word := if names.length = 1 then "type " else "types "
        [compact v ++ " is not of " ++ word ++ ", ".intercalate (names.map quote)]
    | none => []
  else if name == "required" then
    match keyword, v with
    | array names, object fields =>
      names.flatMap fun
        | string key =>
          if Fields.has fields key then [] else [quote key ++ " is a required property"]
        | _ => []
    | _, _ => []
  else if name == "minimum" then
    if isLess v keyword then
      [compact v ++ " is less than the minimum of " ++ compact keyword]
    else []
  else if name == "maximum" then
    if isLess keyword v then
      [compact v ++ " is greater than the maximum of " ++ compact keyword]
    else []
  else if name == "maxItems" then
    match v, natural? keyword with
    | array items, some most =>
      if most < items.length then [compact v ++ " has more than " ++ Nat.repr most ++ " items"]
        else []
    | _, _ => []
  else if name == "minProperties" then
    match v, natural? keyword with
    | object fields, some least =>
      if fields.length < least then
        [compact v ++ " has less than " ++ Nat.repr least ++ " properties"]
      else []
    | _, _ => []
  else if name == "enum" then
    match keyword with
    | array options =>
      if options.any (equal v) then [] else [compact v ++ " is not one of " ++ compact keyword]
    | _ => []
  else []

/-- The keys for which the keyword `properties` of a schema has schemas of their own. -/
def declaredKeys (keywords : Fields Json) : List String :=
  match keywords.get? "properties" with
  | some (object fields) => Fields.keys fields
  | _ => []

mutual

/-- Where the value at a place does not match a schema. -/
def mismatchesAt (path : String) (v : Json) : Json → List Mismatch
  | boolean false => [⟨path, "False schema does not allow " ++ compact v⟩]
  | object keywords => keywordsAt path v (declaredKeys keywords) keywords
  | _ => []

/-- Where the value at a place does not match keywords; the fields `own` have schemas of their own.
-/
def keywordsAt (path : String) (v : Json) (own : List String) :
    List (String × Json) → List Mismatch
  | [] => []
  | (name, object fields) :: rest =>
    (if name == "properties" then propertiesAt path v fields
      else if name == "items" then
        match v with
        | array items =>
          items.zipIdx.flatMap fun (item, i) =>
            keywordsAt (path ++ "/" ++ Nat.repr i) item (declaredKeys fields) fields
        | _ => []
      else if name == "additionalProperties" then
        match v with
        | object entries =>
          entries.flatMap fun (key, entry) =>
            if own.contains key then []
            else keywordsAt (path ++ pointerPart key) entry (declaredKeys fields) fields
        | _ => []
      else (keywordMismatches name (object fields) v).map (⟨path, ·⟩)) ++
      keywordsAt path v own rest
  | (name, boolean false) :: rest =>
    (if name == "items" then
        match v with
        | array items =>
          items.zipIdx.map fun (item, i) =>
            ⟨path ++ "/" ++ Nat.repr i, "False schema does not allow " ++ compact item⟩
        | _ => []
      else if name == "additionalProperties" then
        match v with
        | object entries =>
          let extra := (entries.map Prod.fst).filter fun key => !own.contains key
          if extra.isEmpty then []
          else
            [⟨path, "Additional properties are not allowed (" ++
              ", ".intercalate (extra.map quote) ++ " were unexpected)"⟩]
        | _ => []
      else (keywordMismatches name (boolean false) v).map (⟨path, ·⟩)) ++
      keywordsAt path v own rest
  | (name, keyword) :: rest =>
    (keywordMismatches name keyword v).map (⟨path, ·⟩) ++ keywordsAt path v own rest

/-- Where the fields of the value at a place do not match their schemas. -/
def propertiesAt (path : String) (v : Json) : List (String × Json) → List Mismatch
  | [] => []
  | (key, schema) :: rest =>
    (match v with
      | object entries =>
        match Fields.get? entries key with
        | some entry => mismatchesAt (path ++ pointerPart key) entry schema
        | none => []
      | _ => []) ++ propertiesAt path v rest

end

/-- Where a value does not match a schema. -/
def mismatches (schema v : Json) : List Mismatch :=
  mismatchesAt "" v schema

/-- The result of checking a value against a schema. -/
inductive Validation
  | valid
  | invalid (mismatches : List Mismatch)
  /-- What was given as a schema is none. -/
  | noSchema
deriving DecidableEq, Repr

/-- Checks a value against a schema. -/
def validate (schema v : Json) : Validation :=
  if !isSchema schema then .noSchema
  else
    match mismatches schema v with
    | [] => .valid
    | found => .invalid found

/-- A mismatch as JSON. -/
def Mismatch.toJson (m : Mismatch) : Json :=
  object [("path", string m.path), ("message", string m.message)]

/-- The result of a check as JSON: true, or what was found. -/
def Validation.toJson : Validation → Json
  | .valid => boolean true
  | .invalid found => array (found.map Mismatch.toJson)
  | .noSchema => array [Mismatch.toJson ⟨"", "Invalid schema"⟩]

end PromptMarkup.Json

/-
Writing JSON.

* `Json.compact` — on one line, without spaces;
* `Json.pretty` — one item or field a line, two spaces deeper for each level, empty arrays and
  objects on one line.

A string escapes the quote, the backslash and the control characters below the space, of which five
have short forms; every other character stands for itself.
-/
import PromptMarkup.Json
import PromptMarkup.Number.Layout

namespace PromptMarkup.Json

/-- A hexadecimal digit, in lower case. -/
def hexDigit (n : Nat) : Char :=
  if n < 10 then Char.ofNat (48 + n) else Char.ofNat (87 + n)

/-- One character inside a string. -/
def escapeChar (c : Char) : List Char :=
  if c == '"' then ['\\', '"']
  else if c == '\\' then ['\\', '\\']
  else if c == '\x08' then ['\\', 'b']
  else if c == '\x0c' then ['\\', 'f']
  else if c == '\n' then ['\\', 'n']
  else if c == '\r' then ['\\', 'r']
  else if c == '\t' then ['\\', 't']
  else if c.toNat < 32 then
    ['\\', 'u', '0', '0', hexDigit (c.toNat / 16), hexDigit (c.toNat % 16)]
  else [c]

/-- A string between its quotes. -/
def quoteChars (s : List Char) : List Char :=
  '"' :: (s.flatMap escapeChar ++ ['"'])

/-- A string between its quotes. -/
def quote (s : String) : String :=
  String.ofList (quoteChars s.toList)

mutual

/-- A value on one line. -/
def compact : Json → String
  | null => "null"
  | boolean true => "true"
  | boolean false => "false"
  | whole n => Int.repr n
  | number x => Number.Layout.data.write x
  | string s => quote s
  | array items => "[" ++ ",".intercalate (compactItems items) ++ "]"
  | object fields => "\x7b" ++ ",".intercalate (compactFields fields) ++ "\x7d"

/-- The items of an array. -/
def compactItems : List Json → List String
  | [] => []
  | v :: rest => compact v :: compactItems rest

/-- The fields of an object. -/
def compactFields : List (String × Json) → List String
  | [] => []
  | (k, v) :: rest => (quote k ++ ":" ++ compact v) :: compactFields rest

end

/-- A line break and the indentation of a level. -/
def breakLine (level : Nat) : String :=
  String.ofList ('\n' :: List.replicate (2 * level) ' ')

mutual

/-- A value whose inner lines are indented to `level`. -/
def prettyAt (level : Nat) : Json → String
  | array [] => "[]"
  | object [] => "\x7b\x7d"
  | array (v :: rest) =>
    let sep := breakLine (level + 1)
    "[" ++ sep ++ (("," ++ sep).intercalate (prettyItems (level + 1) (v :: rest))) ++
      breakLine level ++ "]"
  | object (kv :: rest) =>
    let sep := breakLine (level + 1)
    "\x7b" ++ sep ++ (("," ++ sep).intercalate (prettyFields (level + 1) (kv :: rest))) ++
      breakLine level ++ "\x7d"
  | v => compact v

/-- The items of an array. -/
def prettyItems (level : Nat) : List Json → List String
  | [] => []
  | v :: rest => prettyAt level v :: prettyItems level rest

/-- The fields of an object. -/
def prettyFields (level : Nat) : List (String × Json) → List String
  | [] => []
  | (k, v) :: rest => (quote k ++ ": " ++ prettyAt level v) :: prettyFields level rest

end

/-- A value over several lines. -/
def pretty (v : Json) : String :=
  prettyAt 0 v

end PromptMarkup.Json

/-
Values as texts and as numbers.

* `Value.text` — the text of a value: the items of an array are joined by commas, an object and a
  function have a fixed text;
* `Value.toNumber` — the number of a value, by way of its text for arrays;
* `Value.primitive` — a value as an operand of `+` and of comparisons: what has parts becomes a
  text;
* `Number.ofText` — the number that a text spells, the number that is not a number if it spells
  none.

Blank ends of a text are ignored and an empty text is zero.  Behind `0x`, `0b` or `0o` stands a
signed whole number of at most 64 bits.  A decimal text may have a sign, a point and an exponent.
-/
import PromptMarkup.Number.Decimal
import PromptMarkup.Number.Layout
import PromptMarkup.Text.Blank
import PromptMarkup.Value

namespace PromptMarkup

namespace Number

/-- The base that a prefix announces, and the text behind it. -/
def takeRadix? : List Char → Option (Nat × List Char)
  | '0' :: c :: rest =>
    if c == 'x' || c == 'X' then some (16, rest)
    else if c == 'b' || c == 'B' then some (2, rest)
    else if c == 'o' || c == 'O' then some (8, rest)
    else none
  | _ => none

/-- The whole number that a text spells in a base: an optional sign and at least one digit.  It has
to fit into 64 bits with its sign. -/
def wholeIn? (base : Nat) (s : List Char) : Option Int :=
  let (negative, digits) := takeSign s
  if digits.isEmpty || !digits.all (isDigitIn base) then none
  else
    let n := radixValue base digits
    if negative then if n ≤ Number.twoTo 63 then some (-(n : Int)) else none
    else if n < Number.twoTo 63 then some n else none

/-- A letter of the basic alphabet other than the mark of an exponent. -/
def isForeignLetter (c : Char) : Bool :=
  c.isAlpha && c != 'e' && c != 'E'

/-- The number that a text spells. -/
def ofText (s : String) : Float :=
  let body := Text.trim s.toList
  if body.isEmpty then ofNat 0
  else
    match takeRadix? body with
    | some (base, digits) => ((wholeIn? base digits).map ofInt).getD nan
    | none =>
      let spelled := String.ofList body
      if spelled == "Infinity" || spelled == "+Infinity" then infinity
      else if spelled == "-Infinity" then -infinity
      else if body.any isForeignLetter then nan
      else (read? body).getD nan

/-- The text of a number as a value. -/
def text (x : Float) : String :=
  Layout.scripted.write x

end Number

namespace Value

mutual

/-- The text of a value. -/
def text : Value → String
  | undefined => "undefined"
  | null => "null"
  | boolean true => "true"
  | boolean false => "false"
  | number x => Number.text x
  | string s => s
  | array items => ",".intercalate (itemTexts items)
  | object _ => "[object Object]"
  | function _ _ => "function () \x7b [native code] \x7d"

/-- The texts of items, empty for those that are undefined or null. -/
def itemTexts : List Value → List String
  | [] => []
  | v :: rest => (if v.isNullish then "" else text v) :: itemTexts rest

end

/-- The number of a value. -/
def toNumber : Value → Float
  | undefined => Number.nan
  | null => Number.ofNat 0
  | boolean b => Number.ofNat b.toNat
  | number x => x
  | string s => Number.ofText s
  | array items => Number.ofText (text (array items))
  | object _ | function _ _ => Number.nan

/-- A value as an operand of `+` and of comparisons. -/
def primitive : Value → Value
  | array items => string (text (array items))
  | object fields => string (text (object fields))
  | function identity meaning => string (text (function identity meaning))
  | v => v

end Value

end PromptMarkup

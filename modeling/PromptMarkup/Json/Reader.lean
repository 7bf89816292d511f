/-
Reading JSON.

`Json.read?` reads a text that is one value with white space around it.  It refuses arrays and
objects nested 128 deep, single surrogates, and numbers beyond the range of doubles.

A number without fraction and exponent that fits into 64 bits is a whole number.  Any other number
is computed as a double: its first digits, as many as fit into 64 bits, are scaled by a power of ten
with one rounding (`scale?`), which is not always the nearest double.

Design notes: each value takes at least one character, so the length of the text bounds the
recursion.
-/
import PromptMarkup.Json
import PromptMarkup.Number.Decimal

namespace PromptMarkup.Json

/-- White space between the tokens of a JSON text. -/
def isSpace (c : Char) : Bool :=
  c == ' ' || c == '\n' || c == '\t' || c == '\r'

/-- A text without white space at its start. -/
def skipSpace (s : List Char) : List Char :=
  s.dropWhile isSpace

/-- `10 ^ n` as a double. -/
def powerOfTen (n : Nat) : Float :=
  Number.ofDecimal false ⟨1, n⟩

/-- A double scaled by a power of ten; `none` if it leaves the range of doubles.  After two
divisions by `10³⁰⁸` nothing is left of a number of 64 bits. -/
def scale? (x : Float) (e : Int) : Option Float :=
  if x == 0 then some x
  else if 308 < e then none
  else if 0 ≤ e then
    let y := x * powerOfTen e.toNat
    if Number.isFinite y then some y else none
  else if -308 ≤ e then some (x / powerOfTen (-e).toNat)
  else if -616 ≤ e then some (x / powerOfTen 308 / powerOfTen (-e - 308).toNat)
  else some (x / powerOfTen 308 / powerOfTen 308)

/-- Appends digits to a number as long as it fits into 64 bits; gives the digits that are left. -/
def appendDigits (n : Nat) : List Char → Nat × List Char
  | [] => (n, [])
  | d :: rest =>
    let next := 10 * n + (d.toNat - '0'.toNat)
    if next < Number.twoTo 64 then appendDigits next rest else (n, d :: rest)

/-- The exponent of a number: `e`, an optional sign and digits.  `none` if digits are missing, the
inner `none` if there is no exponent. -/
def readExponent? : List Char → Option (Option Int × List Char)
  | c :: rest =>
    if c == 'e' || c == 'E' then
      let (negative, rest) := Number.takeSign rest
      let digits := rest.takeWhile Char.isDigit
      if digits.isEmpty then none
      else
        let value := (Number.digitsValue digits : Int)
        some (some (if negative then -value else value), rest.drop digits.length)
    else some (none, c :: rest)
  | [] => some (none, [])

/-- The fraction of a number: a point and digits.  `none` if digits are missing, the inner `none` if
there is no point. -/
def readFraction? : List Char → Option (Option (List Char) × List Char)
  | '.' :: rest =>
    let digits := rest.takeWhile Char.isDigit
    if digits.isEmpty then none else some (some digits, rest.drop digits.length)
  | s => some (none, s)

/-- A number; the sign has been taken off. -/
def readNumber? (negative : Bool) (s : List Char) : Option (Json × List Char) := do
  let digits := s.takeWhile Char.isDigit
  let rest := s.drop digits.length
  guard (!digits.isEmpty && !(digits.head? == some '0' && 1 < digits.length))
  let (n, dropped) := appendDigits 0 digits
  let (fraction, rest) ← readFraction? rest
  let (e, rest) ← readExponent? rest
  match dropped, fraction, e with
  | [], none, none =>
    if !negative then return (whole n, rest)
    else if 0 < n && n ≤ Number.twoTo 63 then return (whole (-n), rest)
    else return (number (-(Number.ofNat n)), rest)
  | _, _, _ =>
    let fraction := fraction.getD []
    let (m, unused) := appendDigits n fraction
    let point := (dropped.length : Int) - (fraction.length - unused.length : Nat)
    let x ← scale? (Number.ofNat m) (point + e.getD 0)
    return (number (if negative then -x else x), rest)

/-- The value of four hexadecimal digits. -/
def hexUnit? : List Char → Option (Nat × List Char)
  | a :: b :: c :: d :: rest =>
    if [a, b, c, d].all isHexDigit then some (radixValue 16 [a, b, c, d], rest) else none
  | _ => none

/-- The short escapes of a string. -/
def shortEscape? (c : Char) : Option Char :=
  if c == '"' || c == '\\' || c == '/' then some c
  else if c == 'b' then some '\x08'
  else if c == 'f' then some '\x0c'
  else if c == 'n' then some '\n'
  else if c == 'r' then some '\r'
  else if c == 't' then some '\t'
  else none

/-- The character behind a backslash and `u`: one code unit, or two that are a pair of surrogates.
-/
def readUnits? (s : List Char) : Option (Char × List Char) := do
  let (high, rest) ← hexUnit? s
  if 0xD800 ≤ high && high ≤ 0xDBFF then
    match rest with
    | '\\' :: 'u' :: more =>
      let (low, rest) ← hexUnit? more
      if 0xDC00 ≤ low && low ≤ 0xDFFF then
        return (Char.ofNat (0x10000 + (high - 0xD800) * 0x400 + (low - 0xDC00)), rest)
      else none
    | _ => none
  else if 0xDC00 ≤ high && high ≤ 0xDFFF then none
  else return (Char.ofNat high, rest)

/-- The rest of a string, after its opening quote. -/
def readStringBody? : (bound : Nat) → List Char → List Char → Option (List Char × List Char)
  | 0, _, _ => none
  | _ + 1, _, [] => none
  | bound + 1, held, c :: rest =>
    if c == '"' then some (held.reverse, rest)
    else if c == '\\' then
      match rest with
      | [] => none
      | x :: more =>
        if x == 'u' then
          (readUnits? more).bind fun (y, rest) => readStringBody? bound (y :: held) rest
        else (shortEscape? x).bind fun y => readStringBody? bound (y :: held) more
    else if c.toNat < 32 then none
    else readStringBody? bound (c :: held) rest

/-- A string whose opening quote has been taken off. -/
def readString? (s : List Char) : Option (String × List Char) :=
  (readStringBody? (s.length + 1) [] s).map fun (held, rest) => (String.ofList held, rest)

/-- The given word is at the front. -/
def takeWord? (word : String) (v : Json) (s : List Char) : Option (Json × List Char) :=
  if word.toList.isPrefixOf s then some (v, s.drop word.length) else none

mutual

/-- A value, inside of `depth` more levels of arrays and objects at most. -/
def readValue? : (bound depth : Nat) → List Char → Option (Json × List Char)
  | 0, _, _ => none
  | bound + 1, depth, s =>
    match skipSpace s with
    | [] => none
    | c :: rest =>
      if c == 'n' then takeWord? "ull" null rest
      else if c == 't' then takeWord? "rue" (boolean true) rest
      else if c == 'f' then takeWord? "alse" (boolean false) rest
      else if c == '"' then (readString? rest).map fun (v, rest) => (string v, rest)
      else if c == '-' then readNumber? true rest
      else if c.isDigit then readNumber? false (c :: rest)
      else
        match depth with
        | 0 => none
        | depth + 1 =>
          if c == '[' then
            match skipSpace rest with
            | ']' :: rest => some (array [], rest)
            | rest =>
              (readItems? bound depth rest).map fun (items, rest) => (array items, rest)
          else if c == '\x7b' then
            match skipSpace rest with
            | '\x7d' :: rest => some (object [], rest)
            | rest =>
              (readFields? bound depth [] rest).map fun (fields, rest) => (object fields, rest)
          else none

/-- The items of an array, up to its closing bracket. -/
def readItems? : (bound depth : Nat) → List Char → Option (List Json × List Char)
  | 0, _, _ => none
  | bound + 1, depth, s =>
    match readValue? bound depth s with
    | none => none
    | some (v, rest) =>
      match skipSpace rest with
      | ']' :: rest => some ([v], rest)
      | ',' :: rest =>
        (readItems? bound depth rest).map fun (items, rest) => (v :: items, rest)
      | _ => none

/-- The fields of an object, up to its closing brace; `fields` are those in front. -/
def readFields? : (bound depth : Nat) → Fields Json → List Char →
    Option (Fields Json × List Char)
  | 0, _, _, _ => none
  | bound + 1, depth, fields, s =>
    match skipSpace s with
    | '"' :: rest =>
      match readString? rest with
      | none => none
      | some (key, rest) =>
        match skipSpace rest with
        | ':' :: rest =>
          match readValue? bound depth rest with
          | none => none
          | some (v, rest) =>
            let fields := fields.put key v
            match skipSpace rest with
            | '\x7d' :: rest => some (fields, rest)
            | ',' :: rest => readFields? bound depth fields rest
            | _ => none
        | _ => none
    | _ => none

end

/-- A text that is one value, with at most `depth` levels of arrays and objects. -/
def readWithin? (depth : Nat) (s : List Char) : Option Json :=
  match readValue? (2 * s.length + 2) depth s with
  | some (v, rest) => if (skipSpace rest).isEmpty then some v else none
  | none => none

/-- A text that is one value. -/
def read? (s : List Char) : Option Json :=
  readWithin? 127 s

end PromptMarkup.Json

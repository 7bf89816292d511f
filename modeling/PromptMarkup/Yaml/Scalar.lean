/-
What plain scalars mean.

A scalar without quotes is a null, a truth value, a whole number, a double or a text, by the core
schema of YAML 1.2: `yes` is a text, `True` is not; whole numbers may be hexadecimal, octal or
binary; digits with a leading zero are a text.

* `Scalar.value?` — the meaning of a scalar; `none` if it is a whole number beyond 64 bits.
-/
import PromptMarkup.Json
import PromptMarkup.Number.Decimal
import PromptMarkup.Token.Lexer

namespace PromptMarkup.Yaml.Scalar

/-- A whole number written in the given base, digits only. -/
def digitsIn? (base : Nat) (ds : List Char) : Option Nat :=
  if !ds.isEmpty && ds.all (fun c => isHexDigit c && hexDigitValue c < base) then
    some (radixValue base ds)
  else none

/-- A whole number with the mark of its base in front, if it has one. -/
def marked? : List Char → Option Nat
  | '0' :: 'x' :: ds => digitsIn? 16 ds
  | '0' :: 'o' :: ds => digitsIn? 8 ds
  | '0' :: 'b' :: ds => digitsIn? 2 ds
  | _ => none

/-- Several digits of which the first is a zero; they are a text. -/
def hasLeadingZero (digits : List Char) : Bool :=
  1 < digits.length && digits.head? == some '0' && digits.all Char.isDigit

/-- A whole number. -/
def whole? (s : List Char) : Option Int :=
  let (negative, body) := Number.takeSign s
  let magnitude : Option Nat :=
    match marked? body with
    | some n => some n
    | none => if hasLeadingZero body then none else digitsIn? 10 body
  magnitude.map fun n => if negative then -(n : Int) else n

/-- A number with a fraction or an exponent, or one of the special numbers. -/
def double? (s : List Char) : Option Float :=
  let (negative, body) := Number.takeSign s
  let isWord (words : List String) : Bool := words.contains (String.ofList body)
  if hasLeadingZero body then none
  else if isWord [".inf", ".Inf", ".INF"] then
    some (Number.ofMagnitude negative (2047 * Number.twoTo 52))
  else if [".nan", ".NaN", ".NAN"].contains (String.ofList s) then some Number.nan
  else if body.head?.any fun c => c == '+' || c == '-' then none
  else (Number.read? s).filter Number.isFinite

/-- The meaning of a plain scalar; `none` for a whole number that needs more than 64 bits, as long
as it has at most 128. -/
def value? (s : List Char) : Option Json :=
  let text := String.ofList s
  if ["", "null", "Null", "NULL", "~"].contains text then some .null
  else if ["true", "True", "TRUE"].contains text then some (.boolean true)
  else if ["false", "False", "FALSE"].contains text then some (.boolean false)
  else
    let asDouble : Json :=
      match double? s with
      | some x => if Number.isFinite x then .number x else .null
      | none => .string text
    match whole? s with
    | none => some asDouble
    | some n =>
      if -(Number.twoTo 63 : Int) ≤ n && n < (Number.twoTo 64 : Int) then some (.whole n)
      else if -(Number.twoTo 127 : Int) ≤ n && n < (Number.twoTo 128 : Int) then none
      else some asDouble

end PromptMarkup.Yaml.Scalar

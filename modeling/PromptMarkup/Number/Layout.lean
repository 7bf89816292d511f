/-
How numbers are written.

A `Layout` records the decisions of one number format, and `Layout.write` is the one function that
follows them.  The library writes numbers in three ways:

* `Layout.plain` — always positional (`0.0000001`, `1000000000000000000000`);
* `Layout.scripted` — positional from `10⁻⁶` up to `10²¹`, otherwise with a signed exponent
  (`1e+21`, `1.5e-7`), whole numbers by their exact digits, the negative zero without its sign;
* `Layout.data` — as data files have it: `1.0`, `0.00001`, `1e+16`.

Design notes: the digits always come from `shortest`; a layout only decides where the point stands
and when an exponent is written.
-/
import PromptMarkup.Number.Decimal

namespace PromptMarkup.Number

/-- The decisions of a number format. -/
structure Layout where
  /-- Which of two equally near decimals is written. -/
  tie : Tie
  /-- The exponents of the leading digit that are written positionally; `none` is all of them. -/
  positional : Option (Int × Int)
  /-- Whole numbers that are written positionally show the exact value, not the shortest digits
  filled up with zeros. -/
  exactWhole : Bool
  /-- Whole numbers that are written positionally end in `.0`. -/
  pointZero : Bool
  /-- A nonnegative exponent carries a plus sign. -/
  exponentPlus : Bool
  /-- The negative zero is written with its sign. -/
  signedZero : Bool
  /-- The text of an infinity, without its sign. -/
  infinityText : String
deriving Repr

/-- Always positional. -/
def Layout.plain : Layout :=
  { tie := .up, positional := none, exactWhole := false, pointZero := false, exponentPlus := false
    signedZero := true, infinityText := "inf" }

/-- Positional from `10⁻⁶` up to `10²¹`. -/
def Layout.scripted : Layout :=
  { tie := .up, positional := some (-6, 20), exactWhole := true, pointZero := false
    exponentPlus := true, signedZero := false, infinityText := "Infinity" }

/-- Positional from `10⁻⁵` up to `10¹⁶`, whole numbers marked by `.0`. -/
def Layout.data : Layout :=
  { tie := .toEven, positional := some (-5, 15), exactWhole := false, pointZero := true
    exponentPlus := true, signedZero := true, infinityText := "inf" }

/-- The digits of a decimal without trailing zeros, and the exponent of its leading digit. -/
def Decimal.leading (d : Decimal) : List Char × Int :=
  let digits := (Nat.repr d.coefficient).toList
  let kept := (digits.reverse.dropWhile (· == '0')).reverse
  (kept, d.exponent + digits.length - 1)

/-- Digits written with a point, the leading digit standing for `10 ^ lead`. -/
def writePositional (pointZero : Bool) (digits : List Char) (lead : Int) : List Char :=
  if lead < 0 then '0' :: '.' :: (List.replicate (-lead - 1).toNat '0' ++ digits)
  else
    let whole := lead.toNat + 1
    if digits.length ≤ whole then
      digits ++ List.replicate (whole - digits.length) '0' ++ (if pointZero then ['.', '0'] else [])
    else digits.take whole ++ '.' :: digits.drop whole

/-- Digits written as one digit, a fraction and an exponent. -/
def writeExponent (exponentPlus : Bool) (digits : List Char) (lead : Int) : List Char :=
  let mantissa :=
    match digits with
    | d :: [] => [d]
    | d :: rest => d :: '.' :: rest
    | [] => ['0']
  let sign := if lead < 0 then ['-'] else if exponentPlus then ['+'] else []
  mantissa ++ 'e' :: sign ++ (Nat.repr lead.natAbs).toList

/-- The magnitude of a finite nonzero number. -/
def Layout.writeMagnitude (l : Layout) (x : Float) : List Char :=
  let (digits, lead) := (shortest l.tie x).leading
  let fits :=
    match l.positional with
    | none => true
    | some (least, most) => least ≤ lead && lead ≤ most
  if !fits then writeExponent l.exponentPlus digits lead
  else if l.exactWhole && isWhole x then (Nat.repr (wholeMagnitude x)).toList
  else writePositional l.pointZero digits lead

/-- A number in the given format. -/
def Layout.write (l : Layout) (x : Float) : String :=
  if x.isNaN then "NaN"
  else
    let zero := isFinite x && significand x == 0
    let sign := if isNegative x && (!zero || l.signedZero) then "-" else ""
    let magnitude :=
      if !isFinite x then l.infinityText
      else if zero then (if l.pointZero then "0.0" else "0")
      else String.ofList (l.writeMagnitude x)
    sign ++ magnitude

/-- A whole number by its exact digits; the sign of a negative zero is kept. -/
def writeWhole (x : Float) : String :=
  (if isNegative x then "-" else "") ++ Nat.repr (wholeMagnitude x)

end PromptMarkup.Number

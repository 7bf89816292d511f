/-
Digits: of natural numbers in bases up to sixteen, and of double precision numbers in base ten, in
both directions.

* `radixValue` — the number that a run of digits spells in a base;
* `isDigitIn` — the digits of a base;
* `shortest` — the decimal with the fewest digits that rounds to the number, and of those the one
  nearest to it;
* `ofDecimal` — the double nearest to `± digits · 10 ^ exponent`;
* `read?` — a decimal text: an optional sign, digits with at most one point, at least one digit, and
  an optional exponent.

Design notes: `|x| = m · 2 ^ q` is written over quarters of `2 ^ q`, so that the two ends of the
interval of reals that round to `x` are whole numbers of quarters.  The ends belong to the interval
exactly when `m` is even.  For one, two, … seventeen digits the two decimals around `x` are tested
by exact arithmetic.
-/
import PromptMarkup.Number.Binary

namespace PromptMarkup

/-- A digit of base sixteen. -/
def isHexDigit (c : Char) : Bool :=
  c.isDigit || ('a' ≤ c && c ≤ 'f') || ('A' ≤ c && c ≤ 'F')

/-- The value of a digit in a base up to sixteen. -/
def hexDigitValue (c : Char) : Nat :=
  if c.isDigit then c.toNat - '0'.toNat
  else if 'a' ≤ c then c.toNat - 'a'.toNat + 10
  else c.toNat - 'A'.toNat + 10

/-- The value of a run of digits in a base up to sixteen. -/
def radixValue (base : Nat) (ds : List Char) : Nat :=
  ds.foldl (fun n c => base * n + hexDigitValue c) 0

/-- The character with the code point that hexadecimal digits spell, if it is a character. -/
def charOfHex? (ds : List Char) : Option Char :=
  let n := radixValue 16 ds
  if n.isValidChar then some (Char.ofNat n) else none

/-- A digit of the given base, at most sixteen. -/
def isDigitIn (base : Nat) (c : Char) : Bool :=
  isHexDigit c && hexDigitValue c < base

end PromptMarkup

namespace PromptMarkup.Number

/-- Which of two decimals at the same distance is taken. -/
inductive Tie
  | up
  | toEven
deriving DecidableEq, Repr

/-- The decimal `coefficient · 10 ^ exponent`. -/
structure Decimal where
  coefficient : Nat
  exponent : Int
deriving DecidableEq, Repr

/-- The interval of reals that round to one positive double: `(centre ± …) · num / den`, the ends
given on the scale of `centre`. -/
structure Interval where
  low : Nat
  centre : Nat
  high : Nat
  closed : Bool

/-- The interval of a positive finite double, in quarters of its last binary place. -/
def Interval.ofFloat (x : Float) : Interval :=
  let m := significand x
  let atBoundary := fractionField x == 0 && 1 < exponentField x
  { low := if atBoundary then 4 * m - 1 else 4 * m - 2
    centre := 4 * m
    high := 4 * m + 2
    closed := m % 2 == 0 }

/-- The decimal with last place `10 ^ e` that lies in the interval of `x` and is nearest to `x`. -/
def decimalAt? (tie : Tie) (x : Float) (e : Int) : Option Nat :=
  let i := Interval.ofFloat x
  let q := exponent x - 2
  let a := twoTo q.toNat * tenTo (-e).toNat
  let b := twoTo (-q).toNat * tenTo e.toNat
  let inside (d : Nat) : Bool :=
    if i.closed then i.low * a ≤ d * b && d * b ≤ i.high * a
    else i.low * a < d * b && d * b < i.high * a
  let down := i.centre * a / b
  let twice := 2 * (i.centre * a % b)
  let upIsNearer := if twice = b then tie = .up || down % 2 = 1 else b < twice
  let (first, second) := if upIsNearer then (down + 1, down) else (down, down + 1)
  if inside first && 0 < first then some first
  else if inside second && 0 < second then some second
  else none

/-- `10 ^ k ≤ |x|`, for a finite number. -/
def reachesPower (x : Float) (k : Int) : Bool :=
  tenTo k.toNat * twoTo (-exponent x).toNat ≤
    significand x * twoTo (exponent x).toNat * tenTo (-k).toNat

/-- The decimal exponent of the leading digit of a positive finite number. -/
def leadingExponent (x : Float) : Int :=
  let binary := (Nat.log2 (significand x) : Int) + exponent x
  let guess := Int.fdiv (binary * 30103) 100000 - 1
  if reachesPower x (guess + 2) then guess + 2
  else if reachesPower x (guess + 1) then guess + 1
  else guess

/-- The decimal with the fewest digits that rounds to the positive finite number `x`. -/
def shortest (tie : Tie) (x : Float) : Decimal :=
  let lead := leadingExponent x
  let hit := (List.range 17).findSome? fun (n : Nat) =>
    let e := lead - n
    (decimalAt? tie x e).map fun d => (⟨d, e⟩ : Decimal)
  hit.getD ⟨0, 0⟩

/-- The double nearest to `± coefficient · 10 ^ exponent`.  Values far outside the range of doubles
are settled by their number of digits. -/
def ofDecimal (negative : Bool) (d : Decimal) : Float :=
  if d.coefficient = 0 then ofMagnitude negative 0
  else
    let digits := (Nat.log2 d.coefficient : Int) * 30103 / 100000
    if 320 < d.exponent + digits then ofMagnitude negative (2047 * twoTo 52)
    else if d.exponent + digits < -340 then ofMagnitude negative 0
    else nearest negative (d.coefficient * tenTo d.exponent.toNat) (tenTo (-d.exponent).toNat)

/-- The value of a run of decimal digits. -/
def digitsValue (ds : List Char) : Nat :=
  ds.foldl (fun n c => 10 * n + (c.toNat - '0'.toNat)) 0

/-- An optional sign in front of a number; the flag tells whether it is a minus. -/
def takeSign : List Char → Bool × List Char
  | '-' :: rest => (true, rest)
  | '+' :: rest => (false, rest)
  | s => (false, s)

/-- The exponent part that ends a decimal text: nothing, or `e` with a signed number. -/
def readExponent? : List Char → Option Int
  | [] => some 0
  | c :: rest =>
    if c == 'e' || c == 'E' then
      let (negative, digits) := takeSign rest
      if digits.isEmpty || !digits.all Char.isDigit then none
      else some (if negative then -(digitsValue digits : Int) else (digitsValue digits : Int))
    else none

/-- The double nearest to the number a decimal text spells. -/
def read? (s : List Char) : Option Float :=
  let (negative, body) := takeSign s
  let whole := body.takeWhile Char.isDigit
  let rest := body.dropWhile Char.isDigit
  let (fraction, rest) :=
    match rest with
    | '.' :: tail => (tail.takeWhile Char.isDigit, tail.dropWhile Char.isDigit)
    | _ => ([], rest)
  if whole.isEmpty && fraction.isEmpty then none
  else
    (readExponent? rest).map fun e =>
      ofDecimal negative ⟨digitsValue (whole ++ fraction), e - fraction.length⟩

end PromptMarkup.Number

/-
Numbers in double precision, taken apart and put together exactly.

A finite number is `± m · 2 ^ q` with a natural number `m` below `2 ^ 53` and an integer `q`.
`significand` and `exponent` give `m` and `q`, and `nearest` goes back: it rounds any quotient of
natural numbers to the nearest double, a tie to the even neighbour.

* `twoTo`, `tenTo` — powers of the bases in which numbers are stored and written;
* `remainder` — what is left after dividing by another number a whole number of times, computed
  without rounding;
* `wholePart?` — the whole part as an integer, if the number is finite.

Design notes: everything goes through natural numbers and the bit pattern of the double, never
through an approximate operation, so that each function is a closed computation.
-/
namespace PromptMarkup.Number

/-- `2 ^ n`. -/
abbrev twoTo (n : Nat) : Nat :=
  Nat.pow 2 n

/-- `10 ^ n`. -/
abbrev tenTo (n : Nat) : Nat :=
  Nat.pow 10 n

/-- The exponent field of a double. -/
def exponentField (x : Float) : Nat :=
  x.toBits.toNat / twoTo 52 % twoTo 11

/-- The fraction field of a double. -/
def fractionField (x : Float) : Nat :=
  x.toBits.toNat % twoTo 52

/-- The sign bit is set; it is on negative numbers and on the negative zero. -/
def isNegative (x : Float) : Bool :=
  twoTo 63 ≤ x.toBits.toNat

/-- Neither an infinity nor the number that is not a number. -/
def isFinite (x : Float) : Bool :=
  exponentField x != 2047

/-- `m` in `|x| = m · 2 ^ q`. -/
def significand (x : Float) : Nat :=
  if exponentField x = 0 then fractionField x else fractionField x + twoTo 52

/-- `q` in `|x| = m · 2 ^ q`. -/
def exponent (x : Float) : Int :=
  if exponentField x = 0 then -1074 else (exponentField x : Int) - 1075

/-- The number that is not a number. -/
def nan : Float :=
  Float.ofBits 0x7FF8000000000000

/-- Positive infinity. -/
def infinity : Float :=
  Float.ofBits 0x7FF0000000000000

/-- The double with the given sign whose remaining bits are `magnitude`. -/
def ofMagnitude (negative : Bool) (magnitude : Nat) : Float :=
  Float.ofBits (UInt64.ofNat (magnitude + if negative then twoTo 63 else 0))

/-- The whole number nearest to `num / den`, a tie going to the even neighbour. -/
def roundQuotient (num den : Nat) : Nat :=
  let floor := num / den
  let twice := 2 * (num % den)
  if twice < den then floor
  else if den < twice then floor + 1
  else floor + floor % 2

/-- The exponent of the doubles around `num / den`: at this exponent the quotient has a significand
of 53 bits, unless it is too small for that. -/
def exponentOfQuotient (num den : Nat) : Int :=
  let guess := max ((Nat.log2 num : Int) - Nat.log2 den - 53) (-1074)
  let m := num * twoTo (-guess).toNat / (den * twoTo guess.toNat)
  if m < twoTo 53 then guess else guess + 1

/-- The double nearest to `num / den`, with the given sign; a tie goes to the even neighbour, and
what lies beyond the largest double becomes an infinity. -/
def nearest (negative : Bool) (num den : Nat) : Float :=
  if num = 0 then ofMagnitude negative 0
  else
    let q := exponentOfQuotient num den
    let m := roundQuotient (num * twoTo (-q).toNat) (den * twoTo q.toNat)
    let magnitude := if m < twoTo 52 then m else (q + 1075).toNat * twoTo 52 + (m - twoTo 52)
    ofMagnitude negative (min magnitude (2047 * twoTo 52))

/-- The double nearest to a natural number. -/
def ofNat (n : Nat) : Float :=
  nearest false n 1

/-- The double nearest to an integer. -/
def ofInt (n : Int) : Float :=
  nearest (n < 0) n.natAbs 1

/-- The double `± m · 2 ^ q`. -/
def ofBinary (negative : Bool) (m : Nat) (q : Int) : Float :=
  nearest negative (m * twoTo q.toNat) (twoTo (-q).toNat)

/-- The whole part of the magnitude of a finite number. -/
def wholeMagnitude (x : Float) : Nat :=
  significand x * twoTo (exponent x).toNat / twoTo (-exponent x).toNat

/-- The number is finite and has no fraction. -/
def isWhole (x : Float) : Bool :=
  isFinite x && significand x % twoTo (-exponent x).toNat == 0

/-- The whole part of a finite number. -/
def wholePart? (x : Float) : Option Int :=
  if isFinite x then
    some (if isNegative x then -(wholeMagnitude x : Int) else (wholeMagnitude x : Int))
  else none

/-- What is left of `x` after taking away `y` a whole number of times, with the sign of `x`. -/
def remainder (x y : Float) : Float :=
  if x.isNaN || y.isNaN || !isFinite x || (isFinite y && significand y == 0) then nan
  else if !isFinite y then x
  else
    let q := min (exponent x) (exponent y)
    let a := significand x * twoTo (exponent x - q).toNat
    let b := significand y * twoTo (exponent y - q).toNat
    ofBinary (isNegative x) (a % b) q

/-- The whole part modulo `2 ^ 32`; numbers that are not finite count as zero. -/
def toWord (x : Float) : UInt32 :=
  match wholePart? x with
  | some n => UInt32.ofNat (n % (twoTo 32 : Int)).toNat
  | none => 0

/-- A word read as a signed number. -/
def ofWord (w : UInt32) : Int :=
  if w.toNat < twoTo 31 then w.toNat else (w.toNat : Int) - (twoTo 32 : Int)

end PromptMarkup.Number

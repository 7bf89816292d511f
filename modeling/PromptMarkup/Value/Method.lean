/-
The methods of strings and arrays.

No method changes its receiver.  Places in strings are counted in characters; a place that is
counted from the end is negative.  A missing argument is undefined.

* `Callable.call` — what a function gives for its arguments, functions of the host being looked up
  in a `Host`;
* `maxLength` — `repeat`, `padStart`, `padEnd` and `replaceAll` refuse to make a string with more
  characters than this.
-/
import PromptMarkup.Text.Case
import PromptMarkup.Text.Search
import PromptMarkup.Value.Equality

namespace PromptMarkup

/-- The functions that the surrounding program offers, by their names.  A call gives a value or the
reason why it failed.

One host stands for a whole run: the functions are assumed to be pure, so that a call is answered
alike whenever it is made, however often, and by whichever walk of a chain.  What a theorem says
about every host is said under this assumption. -/
abbrev Host := String → List Value → Except String Value

/-- Why a call failed. -/
inductive CallFault
  | stringTooLong
  /-- A string cannot be repeated this many times. -/
  | invalidCount (count : Float)
  /-- The host gave this reason. -/
  | refused (reason : String)

/-- The wording of a failed call. -/
def CallFault.message : CallFault → String
  | .stringTooLong => "Invalid string length"
  | .invalidCount count => "Invalid count value: " ++ Number.Layout.plain.write count
  | .refused reason => reason

/-- The most characters that a method puts into a string it fills up. -/
def maxLength : Nat :=
  Number.twoTo 24

namespace Value

/-- An argument, undefined if it is missing. -/
def argument (args : List Value) (i : Nat) : Value :=
  (args[i]?).getD undefined

/-- The text of an argument. -/
def argumentText (args : List Value) (i : Nat) : List Char :=
  (argument args i).text.toList

/-- A place between `0` and `length`: counted from the end if it is negative, and `default` if it is
not given. -/
def place (length default : Nat) : Value → Nat
  | undefined => default
  | v =>
    let x := v.toNumber
    match Number.wholePart? x with
    | some n => if n < 0 then ((length : Int) + n).toNat else min n.toNat length
    | none => if x == Number.infinity then length else 0

/-- The index of an item, counted from the end if it is negative. -/
def itemIndex? (length : Nat) (v : Value) : Option Nat :=
  let x := v.toNumber
  let n := if x.isNaN then some 0 else Number.wholePart? x
  n.bind fun n =>
    let i := if n < 0 then (length : Int) + n else n
    if 0 ≤ i && i < length then some i.toNat else none

/-- The string of a list of characters. -/
def ofText (s : List Char) : Value :=
  string (String.ofList s)

/-- Characters of a text, over and over again, `count` of them. -/
def cycle (filler : List Char) (count : Nat) : List Char :=
  (List.replicate (count / filler.length + 1) filler).flatten.take count

/-- What is put next to a text to fill it up to the length given by the arguments. -/
def padding (s : List Char) (args : List Value) : Except CallFault (List Char) :=
  let target := (argument args 0).toNumber
  let filler :=
    match argument args 1 with
    | undefined => [' ']
    | v => v.text.toList
  if target.isNaN || target <= Number.ofNat s.length || filler.isEmpty then .ok []
  else
    match Number.wholePart? target with
    | none => .error .stringTooLong
    | some n =>
      if Number.ofNat maxLength < target then .error .stringTooLong
      else .ok (cycle filler (n.toNat - s.length))

/-- A text `n` times, behind what is there already. -/
def repeatOnto (acc s : String) : Nat → String
  | 0 => acc
  | n + 1 => repeatOnto (acc ++ s) s n

/-- A text as often as a number says. -/
def repeatText (s : String) (count : Float) : Except CallFault String :=
  if count < 0 || (!count.isNaN && !Number.isFinite count) then .error (.invalidCount count)
  else
    let n := ((Number.wholePart? count).getD 0).toNat
    if maxLength < n * s.length then .error .stringTooLong
    else if s.isEmpty then .ok ""
    else .ok (repeatOnto "" s n)

/-- A text with every occurrence of a pattern replaced.  The bound counts the text and all
replacements. -/
def replaceEvery (s pattern replacement : List Char) : Except CallFault (List Char) :=
  if pattern.isEmpty then
    if maxLength < s.length + (s.length + 1) * replacement.length then .error .stringTooLong
    else .ok (Text.interleave replacement s)
  else
    let count := (Text.split pattern s).length - 1
    if maxLength < s.length + count * replacement.length then .error .stringTooLong
    else .ok (Text.replaceAll pattern replacement s)

/-- The pieces of a text between a separator; a separator that is not given does not occur, and an
empty one separates all characters. -/
def splitText (s : List Char) : Value → List Value
  | undefined => [ofText s]
  | separator =>
    let separator := separator.text.toList
    if separator.isEmpty then ofChars s else (Text.split separator s).map ofText

/-- The items from one place up to another. -/
def between {α : Type} (items : List α) (args : List Value) : List α :=
  let start := place items.length 0 (argument args 0)
  let stop := place items.length items.length (argument args 1)
  (items.take stop).drop start

/-- The index that a search gives, `-1` if nothing was found. -/
def foundAt : Option Nat → Value
  | some i => ofNat i
  | none => number (-1)

/-- The texts of items, joined by a separator; it is a comma if it is not given. -/
def joinItems (items : List Value) : Value → String
  | undefined => ",".intercalate (itemTexts items)
  | separator => separator.text.intercalate (itemTexts items)

/-- Items with further values behind them, of which the arrays are opened. -/
def concatItems (items : List Value) (args : List Value) : List Value :=
  items ++ args.flatMap fun
    | array more => more
    | v => [v]

end Value

open Value

/-- What a method of a string gives. -/
def StringMethod.call (method : StringMethod) (receiver : String) (args : List Value) :
    Except CallFault Value :=
  let s := receiver.toList
  match method with
  | .toUpperCase => .ok (ofText (Text.upper s))
  | .toLowerCase => .ok (ofText (Text.lower s))
  | .trim => .ok (ofText (Text.trim s))
  | .trimStart => .ok (ofText (Text.trimStart s))
  | .trimEnd => .ok (ofText (Text.trimEnd s))
  | .includes =>
    let start := place s.length 0 (argument args 1)
    .ok (boolean (Text.findFrom? (argumentText args 0) start s).isSome)
  | .startsWith =>
    let start := place s.length 0 (argument args 1)
    .ok (boolean ((argumentText args 0).isPrefixOf (s.drop start)))
  | .endsWith =>
    let stop := place s.length s.length (argument args 1)
    .ok (boolean ((argumentText args 0).isSuffixOf (s.take stop)))
  | .indexOf =>
    let start := place s.length 0 (argument args 1)
    .ok (foundAt (Text.findFrom? (argumentText args 0) start s))
  | .split => .ok (array (splitText s (argument args 0)))
  | .slice => .ok (ofText (between s args))
  | .replace => .ok (ofText (Text.replaceFirst (argumentText args 0) (argumentText args 1) s))
  | .replaceAll => (replaceEvery s (argumentText args 0) (argumentText args 1)).map ofText
  | .repeated => (repeatText receiver (argument args 0).toNumber).map string
  | .padStart => (padding s args).map fun p => ofText (p ++ s)
  | .padEnd => (padding s args).map fun p => ofText (s ++ p)
  | .charAt =>
    let x := (argument args 0).toNumber
    let n := if x.isNaN then some 0 else Number.wholePart? x
    let c := n.bind fun n => if 0 ≤ n then s[n.toNat]? else none
    .ok (ofText c.toList)
  | .concat => .ok (string (String.join (receiver :: args.map Value.text)))
  | .at =>
    let c := (itemIndex? s.length (argument args 0)).bind fun i => s[i]?
    .ok ((c.map ofChar).getD undefined)

/-- What a method of an array gives. -/
def ArrayMethod.call (method : ArrayMethod) (items : List Value) (args : List Value) : Value :=
  match method with
  | .join => string (joinItems items (argument args 0))
  | .includes =>
    let start := place items.length 0 (argument args 1)
    boolean ((items.drop start).any fun v => v.sameValue (argument args 0))
  | .indexOf =>
    let start := place items.length 0 (argument args 1)
    let found := (items.drop start).findIdx? fun v => v.strictEquals (argument args 0)
    foundAt (found.map (start + ·))
  | .slice => array (between items args)
  | .concat => array (concatItems items args)
  | .at => ((itemIndex? items.length (argument args 0)).bind fun i => items[i]?).getD undefined
  | .reverse => array items.reverse

/-- What a function gives for its arguments. -/
def Callable.call (host : Host) (f : Callable) (args : List Value) : Except CallFault Value :=
  match f with
  | .host name => (host name args).mapError .refused
  | .ofString method receiver => method.call receiver args
  | .ofArray method receiver => .ok (method.call receiver args)

end PromptMarkup

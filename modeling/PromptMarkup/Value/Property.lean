/-
Reading and writing parts of values.

* `Value.property` — the part of a value under a key: `length`, the items by their indices and the
  methods for strings and arrays, the fields for objects;
* `Value.write` — the value with a part, however deep inside, replaced.  An array grows up to the
  index that is written, by undefined items.
-/
import PromptMarkup.Number.Decimal
import PromptMarkup.Problem
import PromptMarkup.Value

namespace PromptMarkup

/-- The index that a key spells: a number of at most 64 bits, written without leading zeros. -/
def index? (key : String) : Option Nat :=
  let digits := key.toList
  if digits.isEmpty || !digits.all Char.isDigit then none
  else
    let n := Number.digitsValue digits
    if n < Number.twoTo 64 && Nat.repr n == key then some n else none

/-- Arrays do not grow beyond this length by writing an item. -/
def maxArrayLength : Nat :=
  Number.twoTo 20

namespace Value

/-- The method of a string or an array as a function with the given identity, undefined if there is
no such method. -/
def method (identity : Identity) (meaning : Option Callable) : Value :=
  match meaning with
  | some f => function identity f
  | none => undefined

/-- The part of a value under a key.  A method that is found gets the given identity. -/
def property (identity : Identity) (v : Value) (key : String) : Except Fault Value :=
  match v with
  | undefined | null => .error (.readOfNullish key v.kind)
  | object fields => .ok ((Fields.get? fields key).getD undefined)
  | array items =>
    if key == "length" then .ok (ofNat items.length)
    else
      match index? key with
      | some i => .ok ((items[i]?).getD undefined)
      | none =>
        .ok (method identity ((ArrayMethod.ofName? key).map fun m => .ofArray m items))
  | string s =>
    if key == "length" then .ok (ofNat s.length)
    else
      match index? key with
      | some i => .ok (((s.toList[i]?).map ofChar).getD undefined)
      | none =>
        .ok (method identity ((StringMethod.ofName? key).map fun m => .ofString m s))
  | boolean _ | number _ | function _ _ => .ok undefined

/-- Items up to the given index at least, the new ones undefined. -/
def grow (items : List Value) (i : Nat) : List Value :=
  items ++ List.replicate (i + 1 - items.length) undefined

/-- A value whose part under the given keys, the outermost first, is replaced by another value. -/
def write (v : Value) (keys : List String) (new : Value) : Except Fault Value :=
  match keys with
  | [] => .ok new
  | key :: keys =>
    match v with
    | object fields =>
      (write ((Fields.get? fields key).getD undefined) keys new).map fun part =>
        object (Fields.put fields key part)
    | array items =>
      match index? key with
      | none => .error (.assignToArrayProperty key)
      | some i =>
        if maxArrayLength ≤ i then .error (.arrayIndexOutOfRange i)
        else
          (write ((items[i]?).getD undefined) keys new).map fun part =>
            array ((grow items i).set i part)
    | undefined | null => .error (.writeOfNullish key v.kind)
    | _ => .error (.assignToProperty key v.kind)

end Value

end PromptMarkup

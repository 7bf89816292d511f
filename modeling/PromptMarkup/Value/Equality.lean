/-
When values are equal.

* `Value.strictEquals` — of the same kind and equal part by part; objects are equal if they have the
  same keys with equal values, in any order; functions are compared by identity;
* `Value.looseEquals` — undefined and null are equal to each other and to nothing else, booleans
  count as numbers, and a number is compared with a text as a number;
* `Value.sameValue` — strict equality under which the number that is not a number equals itself.
-/
import PromptMarkup.Value.Coercion

namespace PromptMarkup.Value

mutual

/-- Equality without conversions. -/
def strictEquals : Value → Value → Bool
  | undefined, undefined => true
  | null, null => true
  | boolean a, boolean b => a == b
  | number a, number b => a == b
  | string a, string b => a == b
  | array a, array b => a.length == b.length && itemsEqual a b
  | object a, object b => a.length == b.length && fieldsEqual a b
  | function a _, function b _ => a == b
  | _, _ => false

/-- Items are equal place by place, as far as both lists go. -/
def itemsEqual : List Value → List Value → Bool
  | a :: as, b :: bs => strictEquals a b && itemsEqual as bs
  | _, _ => true

/-- Each of the fields is among the others with an equal value. -/
def fieldsEqual : List (String × Value) → List (String × Value) → Bool
  | [], _ => true
  | (key, a) :: rest, others =>
    (match Fields.get? others key with
      | some b => strictEquals a b
      | none => false) && fieldsEqual rest others

end

/-- A value in which a boolean has become a number. -/
def withoutBoolean : Value → Value
  | boolean b => number (toNumber (boolean b))
  | v => v

/-- A number or a string. -/
def isScalar : Value → Bool
  | number _ | string _ => true
  | _ => false

/-- An array or an object. -/
def isComposite : Value → Bool
  | array _ | object _ => true
  | _ => false

/-- Equality of values of which at most one is a number: a number and a text are compared as
numbers. -/
def scalarEquals : Value → Value → Bool
  | number a, string b => a == toNumber (string b)
  | string a, number b => toNumber (string a) == b
  | a, b => strictEquals a b

/-- Equality with conversions. -/
def looseEquals (a b : Value) : Bool :=
  if a.isNullish || b.isNullish then a.isNullish && b.isNullish
  else
    let a := a.withoutBoolean
    let b := b.withoutBoolean
    if (a.isScalar && b.isComposite) || (a.isComposite && b.isScalar) then
      scalarEquals a.primitive b.primitive
    else scalarEquals a b

/-- Equality under which the number that is not a number equals itself. -/
def sameValue : Value → Value → Bool
  | number a, number b => (a.isNaN && b.isNaN) || a == b
  | a, b => strictEquals a b

end PromptMarkup.Value

/-
What operators give for their operands.

* `BinaryOp.apply`, `UnaryOp.apply` — operators that evaluate their operands;
* `LogicalOp.keeps` — when a logical operator takes its left operand and leaves the right one alone;
* `Value.order` — two texts are compared character by character, anything else as numbers.

Bitwise operators work on words of 32 bits.
-/
import PromptMarkup.Expr.Syntax
import PromptMarkup.Value.Equality
import PromptMarkup.Value.Property

namespace PromptMarkup

namespace Value

/-- How two numbers are ordered; the number that is not a number is not ordered. -/
def orderNumbers (x y : Float) : Option Ordering :=
  if x < y then some .lt
  else if y < x then some .gt
  else if x == y then some .eq
  else none

/-- How two values are ordered. -/
def order (a b : Value) : Option Ordering :=
  match a.primitive, b.primitive with
  | string s, string t => some (compare s t)
  | a, b => orderNumbers a.toNumber b.toNumber

/-- The sum of two numbers; if one of the operands is a text, both texts joined. -/
def add (a b : Value) : Value :=
  match a.primitive, b.primitive with
  | string s, b => string (s ++ b.text)
  | a, string t => string (a.text ++ t)
  | a, b => number (a.toNumber + b.toNumber)

/-- An operation on numbers. -/
def onNumbers (f : Float → Float → Float) (a b : Value) : Value :=
  number (f a.toNumber b.toNumber)

/-- An operation on words, whose result is read as a signed number. -/
def onWords (f : UInt32 → UInt32 → UInt32) (a b : Value) : Value :=
  number (Number.ofInt (Number.ofWord (f (Number.toWord a.toNumber) (Number.toWord b.toNumber))))

/-- The number of places to shift by. -/
def shiftCount (v : Value) : Nat :=
  (Number.toWord v.toNumber).toNat % 32

/-- The signed word of the left operand, shifted to the right. -/
def shiftRight (a b : Value) : Value :=
  number (Number.ofInt (Number.ofWord (Number.toWord a.toNumber) >>> shiftCount b))

/-- The unsigned word of the left operand, shifted to the right. -/
def unsignedShiftRight (a b : Value) : Value :=
  ofNat ((Number.toWord a.toNumber).toNat >>> shiftCount b)

/-- A key of an object, an index of an array, or the `length` of an array. -/
def hasKey (v : Value) (key : String) : Except Fault Bool :=
  match v with
  | object fields => .ok (Fields.has fields key)
  | array items => .ok (key == "length" || (index? key).any (· < items.length))
  | v => .error (.invalidSearch key v.kind)

end Value

open Value

/-- What a binary operator gives for its operands. -/
def BinaryOp.apply (op : BinaryOp) (a b : Value) : Except Fault Value :=
  match op with
  | .equal => .ok (boolean (a.looseEquals b))
  | .notEqual => .ok (boolean (!a.looseEquals b))
  | .strictEqual => .ok (boolean (a.strictEquals b))
  | .strictNotEqual => .ok (boolean (!a.strictEquals b))
  | .less => .ok (boolean ((order a b).any (·.isLT)))
  | .lessEqual => .ok (boolean ((order a b).any (·.isLE)))
  | .greater => .ok (boolean ((order a b).any (·.isGT)))
  | .greaterEqual => .ok (boolean ((order a b).any (·.isGE)))
  | .isIn => (b.hasKey a.text).map boolean
  | .instanceOf => .error (.unsupportedOperator op.text)
  | .add => .ok (a.add b)
  | .subtract => .ok (onNumbers (· - ·) a b)
  | .multiply => .ok (onNumbers (· * ·) a b)
  | .divide => .ok (onNumbers (· / ·) a b)
  | .remainder => .ok (onNumbers Number.remainder a b)
  | .power => .ok (onNumbers Float.pow a b)
  | .bitAnd => .ok (onWords (· &&& ·) a b)
  | .bitOr => .ok (onWords (· ||| ·) a b)
  | .bitXor => .ok (onWords (· ^^^ ·) a b)
  | .shiftLeft => .ok (onWords (· <<< ·) a b)
  | .shiftRight => .ok (a.shiftRight b)
  | .unsignedShiftRight => .ok (a.unsignedShiftRight b)

/-- What a unary operator gives for its operand. -/
def UnaryOp.apply (op : UnaryOp) (v : Value) : Except Fault Value :=
  match op with
  | .not => .ok (boolean (!v.truthy))
  | .minus => .ok (number (-v.toNumber))
  | .plus => .ok (number v.toNumber)
  | .bitNot => .ok (number (Number.ofInt (Number.ofWord (~~~Number.toWord v.toNumber))))
  | .typeOf => .ok (string v.typeOf)
  | .void | .delete => .error (.unsupportedOperator op.text)

/-- The operator takes its left operand and leaves the right one alone. -/
def LogicalOp.keeps (op : LogicalOp) (left : Value) : Bool :=
  match op with
  | .and => !left.truthy
  | .or => left.truthy
  | .coalesce => !left.isNullish

/-- A number one step on. -/
def UpdateOp.apply (op : UpdateOp) (x : Float) : Float :=
  match op with
  | .increment => x + 1
  | .decrement => x - 1

end PromptMarkup

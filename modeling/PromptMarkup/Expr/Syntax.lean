/-
Syntax trees of expressions.

Every expression carries the span of the text it was read from.  Elements of arrays and argument
lists, members of objects, keys and properties have types of their own, so that an expression stands
only where the language allows one.

* `Expr.isTarget` — an expression that may be assigned to: a variable, or a member that is not
  optional.
-/
namespace PromptMarkup

/-- The bytes from `start` up to `stop` of a source text. -/
structure Span where
  start : Nat
  stop : Nat
deriving DecidableEq, Repr

/-- Constants written directly in the text. -/
inductive Literal
  | undefined
  | null
  | boolean (value : Bool)
  | number (value : Float)
  | string (value : String)
deriving Repr

/-- Operators that evaluate both operands. -/
inductive BinaryOp
  | equal
  | notEqual
  | strictEqual
  | strictNotEqual
  | less
  | lessEqual
  | greater
  | greaterEqual
  | isIn
  | instanceOf
  | add
  | subtract
  | multiply
  | divide
  | remainder
  | power
  | bitAnd
  | bitOr
  | bitXor
  | shiftLeft
  | shiftRight
  | unsignedShiftRight
deriving DecidableEq, Repr

/-- The spelling of a binary operator. -/
def BinaryOp.text : BinaryOp → String
  | .equal => "=="
  | .notEqual => "!="
  | .strictEqual => "==="
  | .strictNotEqual => "!=="
  | .less => "<"
  | .lessEqual => "<="
  | .greater => ">"
  | .greaterEqual => ">="
  | .isIn => "in"
  | .instanceOf => "instanceof"
  | .add => "+"
  | .subtract => "-"
  | .multiply => "*"
  | .divide => "/"
  | .remainder => "%"
  | .power => "**"
  | .bitAnd => "&"
  | .bitOr => "|"
  | .bitXor => "^"
  | .shiftLeft => "<<"
  | .shiftRight => ">>"
  | .unsignedShiftRight => ">>>"

/-- The operator can be evaluated; `instanceof` is only read. -/
def BinaryOp.isSupported : BinaryOp → Bool
  | .instanceOf => false
  | _ => true

/-- Operators that may leave their right operand alone. -/
inductive LogicalOp
  | and
  | or
  | coalesce
deriving DecidableEq, Repr

/-- The spelling of a logical operator. -/
def LogicalOp.text : LogicalOp → String
  | .and => "&&"
  | .or => "||"
  | .coalesce => "??"

/-- Operators in front of one operand. -/
inductive UnaryOp
  | not
  | minus
  | plus
  | bitNot
  | typeOf
  | void
  | delete
deriving DecidableEq, Repr

/-- The spelling of a unary operator. -/
def UnaryOp.text : UnaryOp → String
  | .not => "!"
  | .minus => "-"
  | .plus => "+"
  | .bitNot => "~"
  | .typeOf => "typeof"
  | .void => "void"
  | .delete => "delete"

/-- The operator can be evaluated; `void` and `delete` are only read. -/
def UnaryOp.isSupported : UnaryOp → Bool
  | .void | .delete => false
  | _ => true

/-- `++` and `--`. -/
inductive UpdateOp
  | increment
  | decrement
deriving DecidableEq, Repr

/-- The spelling of an update operator. -/
def UpdateOp.text : UpdateOp → String
  | .increment => "++"
  | .decrement => "--"

/-- Assignments, plain or combined with an operator. -/
inductive AssignOp
  | assign
  /-- Only an operator that can be evaluated is combined with an assignment. -/
  | binary (op : BinaryOp) (supported : op.isSupported = true)
  | logical (op : LogicalOp)
deriving DecidableEq, Repr

/-- The spelling of an assignment. -/
def AssignOp.text : AssignOp → String
  | .assign => "="
  | .binary op _ => op.text ++ "="
  | .logical op => op.text ++ "="

mutual

/-- An expression with its span. -/
inductive Expr
  | literal (span : Span) (value : Literal)
  | identifier (span : Span) (name : String)
  /-- An array: `[a, ...b]`. -/
  | array (span : Span) (elements : List Element)
  /-- An object: `{ a, b: 1, [k]: v, ...rest }`. -/
  | object (span : Span) (members : List Member)
  /-- Several expressions, of which the last gives the value: `a, b, c`. -/
  | sequence (span : Span) (items : List Expr)
  | binary (span : Span) (op : BinaryOp) (left right : Expr)
  | logical (span : Span) (op : LogicalOp) (left right : Expr)
  | unary (span : Span) (op : UnaryOp) (argument : Expr)
  /-- An update; `leading` tells whether the operator stands in front. -/
  | update (span : Span) (op : UpdateOp) (leading : Bool) (argument : Expr)
  | assignment (span : Span) (op : AssignOp) (target value : Expr)
  | conditional (span : Span) (test consequent alternate : Expr)
  | member (span : Span) (object : Expr) (property : Property) (optional : Bool)
  | call (span : Span) (callee : Expr) (arguments : List Element) (optional : Bool)
  /-- The boundary of an optional chain: cutting the chain short anywhere inside makes the whole of
  it undefined. -/
  | chain (span : Span) (inner : Expr)

/-- An element of an array or of a list of arguments. -/
inductive Element
  | item (value : Expr)
  | spread (value : Expr)

/-- A member of an object. -/
inductive Member
  | property (key : Key) (value : Expr)
  | spread (value : Expr)

/-- The key of a member of an object. -/
inductive Key
  /-- A name, a string or a number, as its text. -/
  | fixed (name : String)
  | computed (key : Expr)

/-- What is read from an object. -/
inductive Property
  | named (name : String)
  | computed (key : Expr)

end

/-- The span of an expression. -/
def Expr.span : Expr → Span
  | .literal s _ | .identifier s _ | .array s _ | .object s _ | .sequence s _ | .binary s _ _ _
  | .logical s _ _ _ | .unary s _ _ | .update s _ _ _ | .assignment s _ _ _
  | .conditional s _ _ _ | .member s _ _ _ | .call s _ _ _ | .chain s _ => s

/-- Where an expression starts. -/
def Expr.start (e : Expr) : Nat :=
  e.span.start

/-- Where an expression ends. -/
def Expr.stop (e : Expr) : Nat :=
  e.span.stop

/-- An expression that may be assigned to: a variable, or a member that is not optional. -/
def Expr.isTarget : Expr → Bool
  | .identifier _ _ => true
  | .member _ _ _ optional => !optional
  | _ => false

/-- An assignment of any kind. -/
def Expr.isAssignment : Expr → Bool
  | .assignment _ _ _ _ => true
  | _ => false

/-- Operators that stand between two operands, of either kind. -/
inductive Connective
  | binary (op : BinaryOp)
  | logical (op : LogicalOp)
deriving DecidableEq, Repr

/-- Two operands joined by an operator; the span reaches from the first to the second. -/
def Connective.join (op : Connective) (left right : Expr) : Expr :=
  match op with
  | .binary op => .binary ⟨left.start, right.stop⟩ op left right
  | .logical op => .logical ⟨left.start, right.stop⟩ op left right

end PromptMarkup

/-
Outlines of expressions.

The outline of a syntax tree has one line for each node, two spaces deeper for each level, and shows
the kind of the node with its own data.  Children follow their parent in the order of evaluation.
-/
import PromptMarkup.Expr.Syntax
import PromptMarkup.Number.Layout
import PromptMarkup.Text.Printable

namespace PromptMarkup

/-- One line of an outline, at the given level. -/
def outlineLine (level : Nat) (text : String) : String :=
  String.ofList (List.replicate (2 * level) ' ') ++ text ++ "\n"

/-- The name of a binary operator where it stands for an assignment. -/
def BinaryOp.label : BinaryOp → String
  | .equal => "Equal"
  | .notEqual => "NotEqual"
  | .strictEqual => "StrictEqual"
  | .strictNotEqual => "StrictNotEqual"
  | .less => "Less"
  | .lessEqual => "LessEqual"
  | .greater => "Greater"
  | .greaterEqual => "GreaterEqual"
  | .isIn => "In"
  | .instanceOf => "InstanceOf"
  | .add => "Add"
  | .subtract => "Subtract"
  | .multiply => "Multiply"
  | .divide => "Divide"
  | .remainder => "Remainder"
  | .power => "Exponent"
  | .bitAnd => "BitAnd"
  | .bitOr => "BitOr"
  | .bitXor => "BitXor"
  | .shiftLeft => "ShiftLeft"
  | .shiftRight => "ShiftRight"
  | .unsignedShiftRight => "UnsignedShiftRight"

/-- The name of a logical operator. -/
def LogicalOp.label : LogicalOp → String
  | .and => "And"
  | .or => "Or"
  | .coalesce => "NullishCoalescing"

/-- The name of a unary operator. -/
def UnaryOp.label : UnaryOp → String
  | .not => "Not"
  | .minus => "Minus"
  | .plus => "Plus"
  | .bitNot => "BitNot"
  | .typeOf => "TypeOf"
  | .void => "Void"
  | .delete => "Delete"

/-- The name of an update operator. -/
def UpdateOp.label : UpdateOp → String
  | .increment => "Increment"
  | .decrement => "Decrement"

/-- The name of an assignment. -/
def AssignOp.label : AssignOp → String
  | .assign => "Assign"
  | .binary op _ => op.label
  | .logical op => op.label

/-- The line of a constant. -/
def Literal.outline (level : Nat) : Literal → String
  | .undefined => outlineLine level "Undefined"
  | .null => outlineLine level "Null"
  | .boolean true => outlineLine level "Boolean: true"
  | .boolean false => outlineLine level "Boolean: false"
  | .number x => outlineLine level ("Number: " ++ Number.Layout.plain.write x)
  | .string s => outlineLine level ("String: " ++ Text.quoted s)

mutual

/-- The outline of an expression at the given level. -/
def Expr.outlineAt (level : Nat) : Expr → String
  | .literal _ value => value.outline level
  | .identifier _ name => outlineLine level ("Identifier: " ++ name)
  | .array _ elements => outlineLine level "Array:" ++ elementsOutline (level + 1) elements
  | .object _ members => outlineLine level "Object:" ++ membersOutline (level + 1) members
  | .sequence _ items => outlineLine level "Sequence:" ++ exprsOutline (level + 1) items
  | .binary _ op left right =>
    outlineLine level ("Binary: " ++ op.text) ++ left.outlineAt (level + 1) ++
      right.outlineAt (level + 1)
  | .logical _ op left right =>
    outlineLine level ("Logical: " ++ op.label) ++ left.outlineAt (level + 1) ++
      right.outlineAt (level + 1)
  | .unary _ op argument =>
    outlineLine level ("Unary: " ++ op.label) ++ argument.outlineAt (level + 1)
  | .update _ op leading argument =>
    outlineLine level
        ("Update: " ++ op.label ++ (if leading then " (prefix)" else " (postfix)")) ++
      argument.outlineAt (level + 1)
  | .assignment _ op target value =>
    outlineLine level ("Assignment: " ++ op.label) ++ target.outlineAt (level + 1) ++
      value.outlineAt (level + 1)
  | .conditional _ test consequent alternate =>
    outlineLine level "Conditional:" ++ test.outlineAt (level + 1) ++
      consequent.outlineAt (level + 1) ++ alternate.outlineAt (level + 1)
  | .member _ object (.named name) optional =>
    outlineLine level ("Member: " ++ (if optional then "?." else ".") ++ name) ++
      object.outlineAt (level + 1)
  | .member _ object (.computed key) optional =>
    outlineLine level ("Member: " ++ (if optional then "?." else ".") ++ "[]") ++
      object.outlineAt (level + 1) ++ key.outlineAt (level + 1)
  | .call _ callee arguments optional =>
    outlineLine level (if optional then "OptionalCall:" else "Call:") ++
      callee.outlineAt (level + 1) ++
      (if arguments.isEmpty then "" else outlineLine (level + 1) "Args:") ++
      elementsOutline (level + 2) arguments
  | .chain _ inner => outlineLine level "Chain:" ++ inner.outlineAt (level + 1)

/-- The outlines of several expressions. -/
def exprsOutline (level : Nat) : List Expr → String
  | [] => ""
  | e :: rest => e.outlineAt level ++ exprsOutline level rest

/-- The outlines of elements. -/
def elementsOutline (level : Nat) : List Element → String
  | [] => ""
  | .item e :: rest => e.outlineAt level ++ elementsOutline level rest
  | .spread e :: rest =>
    outlineLine level "Spread:" ++ e.outlineAt (level + 1) ++ elementsOutline level rest

/-- The outlines of members. -/
def membersOutline (level : Nat) : List Member → String
  | [] => ""
  | .property (.fixed name) value :: rest =>
    outlineLine level (name ++ ":") ++ value.outlineAt (level + 1) ++ membersOutline level rest
  | .property (.computed key) value :: rest =>
    outlineLine level "Computed:" ++ key.outlineAt (level + 1) ++ value.outlineAt (level + 1) ++
      membersOutline level rest
  | .spread value :: rest =>
    outlineLine level "Spread:" ++ value.outlineAt (level + 1) ++ membersOutline level rest

end

/-- The outline of an expression. -/
def Expr.outline (e : Expr) : String :=
  e.outlineAt 0

end PromptMarkup

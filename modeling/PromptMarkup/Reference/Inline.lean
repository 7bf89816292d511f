/-
Referenced prompts put in place of their references.

* `Replacement.apply` — a text with spans replaced by other texts;
* `inlineReference` — the text that replaces a reference: an assignment for every attribute that is
  passed along, then the body of the referenced prompt.

An attribute that holds one expression alone passes its value; text and several parts are joined by
`+`.  Attributes whose names are no names of variables are not passed.
-/
import PromptMarkup.Json.Printer
import PromptMarkup.Template.Syntax
import PromptMarkup.Text.Letter

namespace PromptMarkup

/-- Text that takes the place of a span. -/
structure Replacement where
  start : Nat
  stop : Nat
  text : String
deriving DecidableEq, Repr

/-- A text from the byte offset `start` on, with spans replaced.  The spans are in order. -/
def Replacement.applyFrom (source : List Char) (start : Nat) : List Replacement → List Char
  | [] => Text.sliceFrom source start
  | r :: rest =>
    Text.slice source start r.start ++ r.text.toList ++ applyFrom source r.stop rest

/-- A text with spans replaced. -/
def Replacement.apply (source : String) (replacements : List Replacement) : String :=
  String.ofList (applyFrom source.toList 0 replacements)

/-- The name of an attribute may be the name of a variable. -/
def isVariableName (name : String) : Bool :=
  match name.toList with
  | [] => false
  | c :: rest => Text.isNameStart c && rest.all Text.isNamePart

/-- The text of an expression. -/
def Expr.sourceText (source : List Char) (e : Expr) : String :=
  String.ofList (Text.slice source e.start e.stop)

/-- A part of an attribute as an operand. -/
def AttributePart.asOperand (source : List Char) : AttributePart → String
  | .text _ data => Json.quote data
  | .expression e => "(" ++ e.sourceText source ++ ")"

/-- The value of an attribute as an expression. -/
def Attribute.asExpression (source : List Char) (a : Attribute) : String :=
  match a.parts with
  | none => "true"
  | some [] => "''"
  | some [.expression e] => e.sourceText source
  | some parts => " + ".intercalate (parts.map (AttributePart.asOperand source))

/-- The assignment that passes an attribute along. -/
def Attribute.asAssignment (source : List Char) (a : Attribute) : String :=
  "\x7b\x7b " ++ a.name ++ " = " ++ a.asExpression source ++ " \x7d\x7d"

/-- The text that replaces a reference with the given attributes. -/
def inlineReference (source : String) (passed : List Attribute) (body : String) : String :=
  let bound := passed.filter fun a => isVariableName a.name
  String.join (bound.map (Attribute.asAssignment source.toList)) ++ body

end PromptMarkup

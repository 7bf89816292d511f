/-
Outlines of templates.

The outline of a template shows its tree in the manner of the outlines of expressions: one line for
each node and each named part, two spaces deeper for each level.
-/
import PromptMarkup.Expr.Outline
import PromptMarkup.Json.Printer
import PromptMarkup.Template.Syntax

namespace PromptMarkup

/-- The lines of the parts of an attribute. -/
def AttributePart.outline (level : Nat) : AttributePart → String
  | .text _ data => outlineLine level ("Text: " ++ Text.quoted data)
  | .expression e => e.outlineAt level

/-- The lines of an attribute. -/
def Attribute.outline (level : Nat) (a : Attribute) : String :=
  match a.parts with
  | none => outlineLine level ("Attribute: " ++ a.name)
  | some parts =>
    outlineLine level ("Attribute: " ++ a.name ++ " =") ++
      String.join (parts.map (AttributePart.outline (level + 1)))

namespace Node

mutual

/-- The lines of a node at the given level. -/
def outline (level : Nat) : Node → String
  | fragment _ children => outlineLine level "Fragment:" ++ childrenOutline (level + 1) children
  | config _ value _ => outlineLine level ("Config: " ++ value.compact)
  | text _ data => outlineLine level ("Text: " ++ Text.quoted data)
  | comment _ data => outlineLine level ("Comment: " ++ Text.quoted data)
  | mustache _ e => outlineLine level "MustacheTag:" ++ e.outlineAt (level + 1)
  | ifBlock _ condition elseIf children otherwise =>
    outlineLine level (if elseIf then "ElseIf:" else "If:") ++
      outlineLine (level + 1) "Condition:" ++ condition.outlineAt (level + 2) ++
      outlineLine (level + 1) "Then:" ++ childrenOutline (level + 2) children ++
      elseOutline (level + 1) otherwise
  | forBlock _ header children otherwise =>
    let names :=
      match header.index with
      | some index => header.item ++ ", " ++ index
      | none => header.item
    outlineLine level ("For: " ++ names ++ " in") ++ header.iterable.outlineAt (level + 1) ++
      (match header.key with
        | some key => outlineLine (level + 1) "Key:" ++ key.outlineAt (level + 2)
        | none => "") ++
      outlineLine (level + 1) "Body:" ++ childrenOutline (level + 2) children ++
      elseOutline (level + 1) otherwise
  | element _ name attributes children =>
    outlineLine level ("Element: <" ++ name ++ ">") ++
      String.join (attributes.map (Attribute.outline (level + 1))) ++
      childrenOutline (level + 1) children

/-- The lines of children, with a line of its own if there are none. -/
def childrenOutline (level : Nat) : List Node → String
  | [] => outlineLine level "(empty)"
  | [n] => outline level n
  | n :: rest => outline level n ++ childrenOutline level rest

/-- The lines of an `else` part. -/
def elseOutline (level : Nat) : Option Node → String
  | none => ""
  | some n => outlineLine level "Else:" ++ outline (level + 1) n

end

end Node

/-- The outline of a template. -/
def Template.outline (t : Template) : String :=
  t.root.outline 0

end PromptMarkup

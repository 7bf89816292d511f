/-
Syntax trees of templates.

A template is a tree of nodes over its source text.  Every node has a span and a number; the numbers
count the nodes in the order of the document, a node before its children and its children before its
`else` part (`Node.number`).

* `ConfigReader` — what gives the text of front matter its value;
* `Template.config?` — the front matter, if the template starts with one;
* `Template.body` — the source text without it;
* `TagKind.ofName` — what an element means;
* `Attribute.staticText?` — the value of an attribute that holds no expression.
-/
import PromptMarkup.Conversation.Message
import PromptMarkup.Expr.Syntax
import PromptMarkup.Json
import PromptMarkup.Text.Blank
import PromptMarkup.Text.Position

namespace PromptMarkup

/-- A part of the value of an attribute. -/
inductive AttributePart
  | text (span : Span) (data : String)
  | expression (value : Expr)

/-- An attribute of an element.  Without parts (`none`) it is only present. -/
structure Attribute where
  span : Span
  name : String
  parts : Option (List AttributePart)

/-- The text of parts that hold no expression. -/
def AttributePart.textOf? : List AttributePart → Option String
  | [] => some ""
  | .text _ data :: rest => (AttributePart.textOf? rest).map (data ++ ·)
  | .expression _ :: _ => none

/-- The value of an attribute that is written without expressions. -/
def Attribute.staticText? (a : Attribute) : Option String :=
  a.parts.bind AttributePart.textOf?

/-- The expressions of an attribute, in order. -/
def Attribute.expressions (a : Attribute) : List Expr :=
  (a.parts.getD []).filterMap fun
    | .text _ _ => none
    | .expression e => some e

/-- The attribute with the given name. -/
def Attribute.find? (attributes : List Attribute) (name : String) : Option Attribute :=
  attributes.find? fun a => a.name == name

/-- The attributes with other names than the given one. -/
def Attribute.others (attributes : List Attribute) (name : String) : List Attribute :=
  attributes.filter fun a => a.name != name

/-- The number and the span of a node. -/
structure NodeInfo where
  id : Nat
  start : Nat
  stop : Nat
deriving DecidableEq, Repr

/-- What stands between `for` and the end of its tag. -/
structure ForHeader where
  /-- The variable that holds the item. -/
  item : String
  /-- The variable that holds the index or the key. -/
  index : Option String
  /-- The expression that gives the index variable its value. -/
  key : Option Expr
  /-- The expression that gives the items. -/
  iterable : Expr

/-- A node of a template. -/
inductive Node
  /-- A sequence of nodes, as the root and as an `else` part. -/
  | fragment (info : NodeInfo) (children : List Node)
  /-- Front matter: its value and its text. -/
  | config (info : NodeInfo) (value : Json) (raw : String)
  | text (info : NodeInfo) (data : String)
  | comment (info : NodeInfo) (data : String)
  | mustache (info : NodeInfo) (expression : Expr)
  /-- A conditional; `elseIf` marks one that stands in an `else if` clause. -/
  | ifBlock (info : NodeInfo) (condition : Expr) (elseIf : Bool) (children : List Node)
    (otherwise : Option Node)
  | forBlock (info : NodeInfo) (header : ForHeader) (children : List Node)
    (otherwise : Option Node)
  | element (info : NodeInfo) (name : String) (attributes : List Attribute)
    (children : List Node)

namespace Node

/-- The number and the span of a node. -/
def info : Node → NodeInfo
  | fragment i _ | config i _ _ | text i _ | comment i _ | mustache i _ | ifBlock i _ _ _ _
  | forBlock i _ _ _ | element i _ _ _ => i

/-- The number of a node. -/
def id (n : Node) : Nat :=
  n.info.id

/-- A text of white space. -/
def isBlank : Node → Bool
  | text _ data => Text.allBlank data.toList
  | _ => false

/-- The nodes inside of a node, the `else` part last. -/
def childNodes : Node → List Node
  | fragment _ children | element _ _ _ children => children
  | ifBlock _ _ _ children otherwise | forBlock _ _ children otherwise =>
    children ++ otherwise.toList
  | _ => []

mutual

/-- Numbers a node and what is inside, from `next` on; gives the next free number. -/
def number (next : Nat) : Node → Node × Nat
  | fragment i children =>
    let (children, free) := numberAll (next + 1) children
    (fragment { i with id := next } children, free)
  | config i value raw => (config { i with id := next } value raw, next + 1)
  | text i data => (text { i with id := next } data, next + 1)
  | comment i data => (comment { i with id := next } data, next + 1)
  | mustache i e => (mustache { i with id := next } e, next + 1)
  | ifBlock i condition elseIf children otherwise =>
    let (children, free) := numberAll (next + 1) children
    let (otherwise, free) := numberElse free otherwise
    (ifBlock { i with id := next } condition elseIf children otherwise, free)
  | forBlock i header children otherwise =>
    let (children, free) := numberAll (next + 1) children
    let (otherwise, free) := numberElse free otherwise
    (forBlock { i with id := next } header children otherwise, free)
  | element i name attributes children =>
    let (children, free) := numberAll (next + 1) children
    (element { i with id := next } name attributes children, free)

/-- Numbers nodes one after the other. -/
def numberAll (next : Nat) : List Node → List Node × Nat
  | [] => ([], next)
  | n :: rest =>
    let (n, free) := number next n
    let (rest, free) := numberAll free rest
    (n :: rest, free)

/-- Numbers an `else` part, if there is one. -/
def numberElse (next : Nat) : Option Node → Option Node × Nat
  | none => (none, next)
  | some n =>
    let (n, free) := number next n
    (some n, free)

end

end Node

/-- Why a text is no front matter: in words, if there are any, and where in the text, if that is
known. -/
structure ConfigRefusal where
  reason : Option String
  place : Option Text.Position
deriving DecidableEq, Repr

/-- What reads the text of front matter.  Templates are read alike whatever the format of that text
is: it has a value, or it is refused. -/
class ConfigReader where
  read : List Char → Except ConfigRefusal Json

/-- A template: its tree, the number of its nodes and its text. -/
structure Template where
  root : Node
  nodeCount : Nat
  source : String

namespace Template

/-- The node of the front matter, if it is the first node that is not blank. -/
def configNode? (t : Template) : Option Node :=
  match t.root.childNodes.find? (fun n => !n.isBlank) with
  | some (.config i value raw) => some (.config i value raw)
  | _ => none

/-- The value of the front matter. -/
def config? (t : Template) : Option Json :=
  match t.configNode? with
  | some (.config _ value _) => some value
  | _ => none

/-- The fields of the front matter, none if there is no front matter. -/
def configFields (t : Template) : Fields Json :=
  (t.config?.bind Json.fields?).getD []

/-- A text without the line breaks at its start. -/
def dropLineBreaks (s : List Char) : List Char :=
  s.dropWhile fun c => c == '\r' || c == '\n'

/-- A text without everything up to the end of the front matter and the line breaks behind it. -/
def bodyOf (t : Template) (s : String) : String :=
  match t.configNode? with
  | some n => String.ofList (dropLineBreaks (Text.sliceFrom s.toList n.info.stop))
  | none => s

/-- The source text without the front matter. -/
def body (t : Template) : String :=
  t.bodyOf t.source

end Template

/-- The kinds of content. -/
inductive ContentKind
  | text
  | image
deriving DecidableEq, Repr

/-- What an element means. -/
inductive TagKind
  /-- A message, with its role if the tag names one. -/
  | message (role : Option Role)
  | content (kind : ContentKind)
  | toolCall
  | reference
  | step
  | unknown
deriving DecidableEq, Repr

/-- What the element of the given name means. -/
def TagKind.ofName (name : String) : TagKind :=
  match Role.ofName? name with
  | some role => .message (some role)
  | none =>
    if name == "message" then .message none
    else if name == "text" then .content .text
    else if name == "image" then .content .image
    else if name == "tool-call" then .toolCall
    else if name == "ref" then .reference
    else if name == "step" then .step
    else .unknown

end PromptMarkup

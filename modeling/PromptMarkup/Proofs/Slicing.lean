/-
Reading templates by byte offsets.

The reader of templates is written here once more, over the whole text and a byte offset into it:
the text is cut anew wherever it is looked at, and what is open is a stack from which frames are
taken.

* `Checked` — reading that may break down, besides ending with a problem of the text;
* `Slicer.step`, `Slicer.run`, `Slicer.read` — a step, all steps and the template of a text.

Design notes: a breakdown is a cut through a character or behind the end of the text, a stack that
is empty where a frame is needed, a frame that is none of those that may stand there, or a loop that
has used up its bound.  No other case of reading breaks down, and none of the functions of the
reader that move a cursor is used.  Expressions are read from a cursor that was cut out of the text,
and end at an offset.
-/
import PromptMarkup.Template.Reader
import PromptMarkup.Text.Search

namespace PromptMarkup

open Text (Cursor byteLength)

/-- What comes of reading: nothing if it breaks down, else a result or a problem with the text. -/
abbrev Checked (α : Type) := ExceptT Problem Option α

namespace Checked

variable {α : Type}

/-- Reading breaks down. -/
def breakdown : Checked α :=
  ExceptT.mk none

/-- Reading breaks down unless there is a result. -/
def need (o : Option α) : Checked α :=
  ExceptT.mk (o.map .ok)

/-- Reading does not break down. -/
def lift (x : Except Problem α) : Checked α :=
  ExceptT.mk (some x)

end Checked

open Checked (breakdown need lift)

/-- A reader that knows its byte offset, and what is open, the innermost frame first. -/
structure Slicer where
  index : Nat
  frames : List Frame

namespace Slicer

/-! ### Frames -/

/-- Adds a node to the innermost frame, which must be there. -/
def append (n : Node) : List Frame → Checked (List Frame)
  | [] => breakdown
  | f :: rest => return f.append n :: rest

/-- The innermost frame has no `else` part yet and may get one. -/
def acceptsElse (elseIf : Bool) : List Frame → Bool
  | .ifBlock _ _ _ _ _ otherwise :: _ => otherwise.isNone
  | .forBlock _ _ _ _ otherwise :: _ => otherwise.isNone && !elseIf
  | _ => false

/-- Opens the `else` part of the innermost frame, which must be a block. -/
def openElse (start : Nat) : List Frame → Checked (List Frame)
  | .ifBlock s blank condition elseIf children _ :: rest =>
    return .ifBlock s blank condition elseIf children (some (start, [])) :: rest
  | .forBlock s blank header children _ :: rest =>
    return .forBlock s blank header children (some (start, [])) :: rest
  | _ => breakdown

/-- Where the innermost `if` starts to which the clauses on top of it belong. -/
def chainStart (closeStart stop : Nat) : List Frame → Checked Nat
  | [] => breakdown
  | .ifBlock start _ _ elseIf _ _ :: rest =>
    if elseIf then chainStart closeStart stop rest else return start
  | _ :: _ => throw ⟨.unexpectedBlockClose .ifBlock, closeStart, stop, none, none⟩

/-- Takes the innermost `if` and the clauses on top of it from the stack. -/
def closeChain (t : Trim) (closeStart stop : Nat) (inner : Option Node) :
    List Frame → Checked (List Frame)
  | [] => breakdown
  | .ifBlock start blank condition elseIf children otherwise :: rest =>
    let frame := Frame.ifBlock start blank condition elseIf children otherwise
    match (inner.map frame.append).getD frame with
    | .ifBlock start _ condition elseIf children otherwise =>
      let node := Node.ifBlock ⟨0, start, stop⟩ condition elseIf
        (trimChildren t children.reverse) (elsePart t closeStart otherwise)
      if elseIf then closeChain t closeStart stop (some node) rest else append node rest
    | _ => breakdown
  | _ :: _ => throw ⟨.unexpectedBlockClose .ifBlock, closeStart, stop, none, none⟩

/-- Takes the innermost frame from the stack, which must be the element of the given name. -/
def closeElement (name : String) (closeStart stop : Nat) : List Frame → Checked (List Frame)
  | [] => breakdown
  | .element start opened attributes children :: rest =>
    if opened == name then append (.element ⟨0, start, stop⟩ opened attributes children.reverse)
      rest
    else throw ⟨.mismatchedClosingTag name opened, closeStart, stop, none, none⟩
  | _ :: _ => throw ⟨.strayClosingTag name, closeStart, stop, none, none⟩

variable (s : List Char)

/-! ### Places -/

/-- The text is cut at an offset. -/
def cut (i : Nat) : Checked Cursor := do
  let front ← need (Text.takeBytes? i s)
  let rest ← need (Text.dropBytes? i s)
  return ⟨front.reverse, rest, i⟩

/-- The offset behind white space. -/
def skipBlank (i : Nat) : Checked Nat := do
  let c ← cut s i
  return i + (byteLength c.rest - byteLength (Text.trimStart c.rest))

/-- The problem that something else is expected behind the white space in front. -/
def expectedHere {α : Type} (i : Nat) (expected : String) : Checked α := do
  let i ← skipBlank s i
  if byteLength s ≤ i then throw ⟨.unexpectedEndBefore expected, i, i, none, none⟩
  else
    let c ← cut s i
    let x := c.rest.head?.getD '\x00'
    throw ⟨.unexpectedInstead x expected, i, i + x.utf8Size, none, none⟩

/-- The characters in front for which `p` holds. -/
def wordOf (p : Char → Bool) (i : Nat) : Checked (List Char) := do
  let c ← cut s i
  need (Text.takeBytes? (byteLength (c.rest.takeWhile p)) c.rest)

/-- Takes a name that must stand here. -/
def takeName (expected : String) (i : Nat) : Checked (String × Nat) := do
  let word ← wordOf s Text.isNamePart i
  if word.head?.any Text.isNameStart then return (String.ofList word, i + byteLength word)
  else expectedHere s i expected

/-- Takes an expression. -/
def takeExpression (i : Nat) : Checked (Expr × Nat) := do
  let c ← cut s i
  lift (Expr.readEmbedded c)

/-- Takes the end of a mustache. -/
def takeClosing (i : Nat) : Checked Nat := do
  let i ← skipBlank s i
  let c ← cut s i
  if c.sees closeBraces then return i + 2 else expectedHere s i "`\x7d\x7d`"

/-! ### Front matter, comments and text -/

/-- Where the line starts that closes front matter, and where it ends, from the start of a line on.
-/
def closingLine : (bound lineStart : Nat) → Checked (Option (Nat × Nat))
  | 0, _ => breakdown
  | bound + 1, lineStart =>
    if lineStart < byteLength s then do
      let c ← cut s lineStart
      let length := byteLength (c.rest.takeWhile (· != '\n'))
      if isDelimiterLine c.rest then return some (lineStart, lineStart + length)
      else closingLine bound (lineStart + length + 1)
    else return none

/-- Where the line starts that closes front matter, and where it ends. -/
def configClose (i : Nat) : Checked (Option (Nat × Nat)) := do
  let c ← cut s i
  if c.rest.contains '\n' then
    closingLine s (c.rest.length + 1) (i + byteLength (c.rest.takeWhile (· != '\n')) + 1)
  else return none

/-- Front matter starts here. -/
def seesConfig (i : Nat) (frames : List Frame) : Checked Bool := do
  if frames.length == 1 then
    let c ← cut s i
    if (i == 0 || c.before.head? == some '\n') && isDelimiterLine c.rest &&
      Text.allBlank c.before then
      let close ← configClose s i
      return close.isSome
    else return false
  else return false

/-- The text up to the next construct, and the offset behind it.  Reading started at `start`. -/
def takeText (frames : List Frame) (start : Nat) : (bound : Nat) → (held : List Char) → (i : Nat) →
    Checked (List Char × Nat)
  | 0, _, _ => breakdown
  | bound + 1, held, i =>
    if i < byteLength s then do
      let c ← cut s i
      if c.sees "\\\x7b\x7b" then takeText frames start bound ('\x7b' :: '\x7b' :: held) (i + 3)
      else
        let config ← seesConfig s i frames
        if start < i && (c.sees openBraces || c.sees "/*" || seesTag c.rest || config) then
          return (held.reverse, i)
        else
          let x := c.rest.head?.getD '\x00'
          takeText frames start bound (x :: held) (i + x.utf8Size)
    else return (held.reverse, i)

/-- Text up to the next construct. -/
def text (r : Slicer) : Checked Slicer := do
  let c ← cut s r.index
  let (data, i) ← takeText s r.frames r.index (c.rest.length + 1) [] r.index
  let frames ← append (.text ⟨0, r.index, i⟩ (String.ofList data)) r.frames
  return ⟨i, frames⟩

/-- A comment. -/
def comment (r : Slicer) : Checked Slicer := do
  let body := r.index + 2
  let c ← cut s body
  match Text.cut? "*/".toList c.rest with
  | none => throw ⟨.unclosedComment, r.index, byteLength s, none, none⟩
  | some (front, _) =>
    let data ← need (Text.slice? s body (body + byteLength front))
    let i := body + byteLength front + 2
    let frames ← append (.comment ⟨0, r.index, i⟩ (String.ofList data)) r.frames
    return ⟨i, frames⟩

/-- Front matter. -/
def config [ConfigReader] (r : Slicer) : Checked Slicer := do
  let close ← configClose s r.index
  match close with
  | none => expectedHere s r.index "a closing `---`"
  | some (closeStart, closeStop) =>
    let c ← cut s r.index
    let body :=
      if c.rest.contains '\n' then r.index + byteLength (c.rest.takeWhile (· != '\n')) + 1
        else closeStart
    let raw ← need (Text.slice? s body closeStart)
    let value ← lift (readConfig raw body closeStart)
    let frames ← append (.config ⟨0, r.index, closeStop⟩ value (String.ofList raw)) r.frames
    return ⟨closeStop, frames⟩

/-! ### Mustaches -/

/-- Closes the innermost `if`.  The text is looked at in front of it and behind its end. -/
def closeIf (closeStart stop : Nat) (frames : List Frame) : Checked (List Frame) := do
  let start ← chainStart closeStart stop frames
  let front ← cut s start
  let behind ← cut s stop
  closeChain ⟨blankBefore front, blankAfter behind⟩ closeStart stop none frames

/-- Closes the innermost frame, which must be a `for`. -/
def closeFor (closeStart stop : Nat) : List Frame → Checked (List Frame)
  | [] => breakdown
  | .forBlock start _ header children otherwise :: rest => do
    let front ← cut s start
    let behind ← cut s stop
    let t : Trim := ⟨blankBefore front, blankAfter behind⟩
    append (.forBlock ⟨0, start, stop⟩ header (trimChildren t children.reverse)
      (elsePart t closeStart otherwise)) rest
  | _ :: _ => throw ⟨.unexpectedBlockClose .forBlock, closeStart, stop, none, none⟩

/-- The opening of an `if`, after its word. -/
def ifOpen (r : Slicer) (i : Nat) : Checked Slicer := do
  let (condition, i) ← takeExpression s i
  let i ← takeClosing s i
  let front ← cut s r.index
  return ⟨i, .ifBlock r.index (blankBefore front) condition false [] none :: r.frames⟩

/-- The index variable of a `for`, if there is one. -/
def takeIndex (i : Nat) : Checked (Option String × Nat) := do
  let c ← cut s i
  if c.sees "," then
    let i ← skipBlank s (i + 1)
    let (name, i) ← takeName s "an index variable" i
    let i ← skipBlank s i
    return (some name, i)
  else return (none, i)

/-- The key of a `for`, if there is one. -/
def takeKey (i : Nat) : Checked (Option Expr × Nat) := do
  let c ← cut s i
  if c.sees "(" then
    let (e, i) ← takeExpression s (i + 1)
    let i ← skipBlank s i
    let c ← cut s i
    if c.sees ")" then
      let i ← skipBlank s (i + 1)
      return (some e, i)
    else expectedHere s i "`)`"
  else return (none, i)

/-- The opening of a `for`, after its word. -/
def forOpen (r : Slicer) (i : Nat) : Checked Slicer := do
  let i ← skipBlank s i
  let (item, i) ← takeName s "a loop variable" i
  let i ← skipBlank s i
  let (index, i) ← takeIndex s i
  let (key, i) ← takeKey s i
  let word ← wordOf s Text.isNamePart i
  if word == "in".toList then
    let (iterable, i) ← takeExpression s (i + 2)
    let i ← takeClosing s i
    let front ← cut s r.index
    return ⟨i, .forBlock r.index (blankBefore front)
      ⟨item, index, key, iterable⟩ [] none :: r.frames⟩
  else expectedHere s i "`in`"

/-- An `else` or `else if` clause, after the word `else`. -/
def elseClause (r : Slicer) (i : Nat) : Checked Slicer := do
  let i ← skipBlank s i
  let word ← wordOf s Text.isNamePart i
  let elseIf := word == "if".toList
  if !acceptsElse elseIf r.frames then
    let fault : Fault := if elseIf then .unexpectedElseIf else .unexpectedElse
    throw ⟨fault, r.index, i, none, none⟩
  else if elseIf then
    let (condition, i) ← takeExpression s (i + 2)
    let i ← takeClosing s i
    let frames ← openElse r.index r.frames
    return ⟨i, .ifBlock r.index false condition true [] none :: frames⟩
  else
    let i ← takeClosing s i
    let frames ← openElse r.index r.frames
    return ⟨i, frames⟩

/-- A mustache: an expression, or a part of a block. -/
def mustache (r : Slicer) : Checked Slicer := do
  let i ← skipBlank s (r.index + 2)
  let word ← wordOf s Text.isNamePart i
  if word == "if".toList then r.ifOpen s (i + 2)
  else if word == "else".toList then r.elseClause s (i + 4)
  else if word == "endif".toList then
    let i ← takeClosing s (i + 5)
    let frames ← closeIf s r.index i r.frames
    return ⟨i, frames⟩
  else if word == "for".toList then r.forOpen s (i + 3)
  else if word == "endfor".toList then
    let i ← takeClosing s (i + 6)
    let frames ← closeFor s r.index i r.frames
    return ⟨i, frames⟩
  else
    let (e, i) ← takeExpression s i
    let i ← takeClosing s i
    let frames ← append (.mustache ⟨0, r.index, i⟩ e) r.frames
    return ⟨i, frames⟩

/-! ### Tags -/

/-- Takes a mustache inside of an attribute. -/
def takeAttributeMustache (i : Nat) : Checked (Expr × Nat) := do
  let i ← skipBlank s (i + 2)
  let (e, i) ← takeExpression s i
  let i ← takeClosing s i
  return (e, i)

/-- The text part between two offsets, if it is not empty. -/
def textPart (start i : Nat) : Checked (List AttributePart) := do
  if start < i then
    let data ← need (Text.slice? s start i)
    return [.text ⟨start, i⟩ (String.ofList data)]
  else return []

/-- The parts of the value of an attribute: up to the closing quote, or without quotes up to white
space or the end of the tag.  `start` is where the text part that is being read starts. -/
def takeParts (quote : Option Char) : (bound start i : Nat) → Checked (List AttributePart × Nat)
  | 0, _, _ => breakdown
  | bound + 1, start, i => do
    let c ← cut s i
    match c.rest with
    | [] =>
      match quote with
      | some _ => throw ⟨.unexpectedEndBefore "a closing quote", i, i, none, none⟩
      | none => return ([], i)
    | x :: _ =>
      let ended :=
        match quote with
        | some q => x == q
        | none => Text.isBlank x || c.sees ">" || c.sees "/>"
      if ended then
        let parts ← textPart s start i
        return (parts, if quote.isSome then i + 1 else i)
      else if c.sees openBraces then
        let parts ← textPart s start i
        let (e, after) ← takeAttributeMustache s i
        let (others, after) ← takeParts quote bound after after
        return (parts ++ .expression e :: others, after)
      else takeParts quote bound start (i + x.utf8Size)

/-- The value of an attribute. -/
def takeAttributeValue (i : Nat) : Checked (List AttributePart × Nat) := do
  let c ← cut s i
  match c.rest with
  | x :: _ =>
    if x == '"' || x == '\'' then takeParts s (some x) (c.rest.length + 1) (i + 1) (i + 1)
    else if c.sees openBraces then
      let (e, i) ← takeAttributeMustache s i
      return ([.expression e], i)
    else
      let (parts, after) ← takeParts s none (c.rest.length + 1) i i
      if parts.isEmpty then expectedHere s after "an attribute value" else return (parts, after)
  | [] => expectedHere s i "an attribute value"

/-- The value behind the name of an attribute, if there is one. -/
def takeValue (i : Nat) : Checked (Option (List AttributePart) × Nat) := do
  let c ← cut s i
  if "=".toList.isPrefixOf (Text.trimStart c.rest) then
    let i ← skipBlank s i
    let i ← skipBlank s (i + 1)
    let (parts, i) ← takeAttributeValue s i
    return (some parts, i)
  else return (none, i)

/-- The attributes of a tag, added to those in front, which are listed last first. -/
def takeAttributes : (bound : Nat) → List Attribute → (i : Nat) → Checked (List Attribute × Nat)
  | 0, _, _ => breakdown
  | bound + 1, attributes, i => do
    let i ← skipBlank s i
    let c ← cut s i
    if c.atEnd || c.sees ">" || c.sees "/>" then return (attributes.reverse, i)
    else
      let name ← wordOf s (fun x => !endsAttributeName x) i
      if name.isEmpty then expectedHere s i "an attribute name"
      else
        let (parts, after) ← takeValue s (i + byteLength name)
        let name := String.ofList name
        if (Attribute.find? attributes name).isSome then
          throw ⟨.duplicateAttribute name, i, after, none, none⟩
        else takeAttributes bound (⟨⟨i, after⟩, name, parts⟩ :: attributes) after

/-- The opening or closing tag of an element. -/
def tag (r : Slicer) : Checked Slicer := do
  let c ← cut s (r.index + 1)
  if c.sees "/" then
    let name ← wordOf s Reader.isTagNamePart (r.index + 2)
    let i ← skipBlank s (r.index + 2 + byteLength name)
    let c ← cut s i
    if c.sees ">" then
      let frames ← closeElement (String.ofList name) r.index (i + 1) r.frames
      return ⟨i + 1, frames⟩
    else expectedHere s i "`>`"
  else
    let name ← wordOf s Reader.isTagNamePart (r.index + 1)
    let (attributes, i) ← takeAttributes s (c.rest.length + 1) [] (r.index + 1 + byteLength name)
    let i ← skipBlank s i
    let c ← cut s i
    if c.sees "/>" then
      let frames ← append (.element ⟨0, r.index, i + 2⟩ (String.ofList name) attributes []) r.frames
      return ⟨i + 2, frames⟩
    else if c.sees ">" then
      return ⟨i + 1, .element r.index (String.ofList name) attributes [] :: r.frames⟩
    else expectedHere s i "`>`"

/-! ### Steps -/

/-- Takes the construct at the offset. -/
def step [ConfigReader] (r : Slicer) : Checked Slicer := do
  let c ← cut s r.index
  let config ← seesConfig s r.index r.frames
  if config then r.config s
  else if c.sees "/*" then r.comment s
  else if c.sees openBraces then r.mustache s
  else if seesTag c.rest then r.tag s
  else r.text s

/-- Takes constructs up to the end of the text. -/
def run [ConfigReader] : (bound : Nat) → Slicer → Checked Slicer
  | 0, _ => breakdown
  | bound + 1, r =>
    if r.index < byteLength s then do
      let r ← r.step s
      run bound r
    else return r

/-- The root of a text, once nothing else is open. -/
def finish (r : Slicer) : Checked Node :=
  match r.frames with
  | [.root children] => return .fragment ⟨0, 0, byteLength s⟩ children.reverse
  | f :: _ :: _ => throw (unclosed (byteLength s) f)
  | _ => breakdown

/-- The template of a text. -/
def read [ConfigReader] (source : String) : Option (Except Problem Template) :=
  let s := source.toList
  let result : Checked Template := do
    let r ← run s (s.length + 1) ⟨0, [.root []]⟩
    let root ← finish s r
    return ⟨(root.number 0).1, (root.number 0).2, source⟩
  result.run.map fun x => x.mapError (·.withSource source)

end Slicer

end PromptMarkup

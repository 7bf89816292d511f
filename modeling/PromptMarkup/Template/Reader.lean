/-
Reading templates.

The reader looks at what follows its cursor: front matter, a comment, a mustache, a tag or text.
Blocks and elements that are open are kept on a stack of frames, the innermost first and the root
last; closing a frame turns it into a node of the frame around it.

* `Template.read` — the template of a text;
* `Reader.step` — takes one construct, at least one character of the text;
* `readConfig` — the value of front matter, whose text is left to a `ConfigReader`;
* `Frame` — what is open; an `else if` is a frame of its own on top of the `if` whose `else` part it
  stands in, and both are closed by the same `endif`.

Next to the delimiters of a block white space is dropped, on the side where the block itself has
white space around it (`trimChildren`).

Design notes: every step takes at least one character, so the length of the text bounds the number
of steps.
-/
import PromptMarkup.Expr.Reader
import PromptMarkup.Template.Syntax

namespace PromptMarkup

open Text (Cursor)

/-- An open block or element.  Children are listed last first. -/
inductive Frame
  | root (children : List Node)
  /-- An open `if`: where it starts, whether white space or nothing is in front of it, and the start
  and the children of its `else` part once that was reached. -/
  | ifBlock (start : Nat) (blankBefore : Bool) (condition : Expr) (elseIf : Bool)
    (children : List Node) (otherwise : Option (Nat × List Node))
  | forBlock (start : Nat) (blankBefore : Bool) (header : ForHeader) (children : List Node)
    (otherwise : Option (Nat × List Node))
  | element (start : Nat) (name : String) (attributes : List Attribute) (children : List Node)

/-- Adds a node to the part of a frame that is open. -/
def Frame.append (n : Node) : Frame → Frame
  | .root children => .root (n :: children)
  | .ifBlock start blank condition elseIf children none =>
    .ifBlock start blank condition elseIf (n :: children) none
  | .ifBlock start blank condition elseIf children (some (at_, others)) =>
    .ifBlock start blank condition elseIf children (some (at_, n :: others))
  | .forBlock start blank header children none => .forBlock start blank header (n :: children) none
  | .forBlock start blank header children (some (at_, others)) =>
    .forBlock start blank header children (some (at_, n :: others))
  | .element start name attributes children => .element start name attributes (n :: children)

/-- Adds a node to the innermost frame. -/
def appendNode (n : Node) : List Frame → List Frame
  | [] => []
  | f :: rest => f.append n :: rest

/-- Whether white space is dropped at the start and at the end of the parts of a block. -/
structure Trim where
  front : Bool
  back : Bool

/-- Applies a function to the data of the first node, if it is a text; a text that becomes empty is
dropped. -/
def mapFirstText (f : List Char → List Char) : List Node → List Node
  | .text i data :: rest =>
    let data := f data.toList
    if data.isEmpty then rest else .text i (String.ofList data) :: rest
  | nodes => nodes

/-- Drops white space at the two ends of the children of a block. -/
def trimChildren (t : Trim) (children : List Node) : List Node :=
  let children := if t.front then mapFirstText Text.trimStart children else children
  if t.back then (mapFirstText Text.trimEnd children.reverse).reverse else children

/-- The `else` part of a block that is closed at `closeStart`. -/
def elsePart (t : Trim) (closeStart : Nat) (otherwise : Option (Nat × List Node)) : Option Node :=
  otherwise.map fun (start, children) =>
    .fragment ⟨0, start, closeStart⟩ (trimChildren t children.reverse)

/-- The innermost `if` that is not an `else if` starts behind white space. -/
def chainBlankBefore : List Frame → Bool
  | .ifBlock _ blank _ elseIf _ _ :: rest => if elseIf then chainBlankBefore rest else blank
  | _ => false

/-- Closes the innermost `if` and the `else if` clauses on top of it.  `inner` is the clause that
was closed last; it goes into the part that is open. -/
def closeIf (t : Trim) (closeStart stop : Nat) (inner : Option Node) :
    List Frame → Except Problem (List Frame)
  | .ifBlock start blank condition elseIf children otherwise :: rest =>
    let frame := Frame.ifBlock start blank condition elseIf children otherwise
    match (inner.map frame.append).getD frame with
    | .ifBlock start _ condition elseIf children otherwise =>
      let node := Node.ifBlock ⟨0, start, stop⟩ condition elseIf
        (trimChildren t children.reverse) (elsePart t closeStart otherwise)
      if elseIf then closeIf t closeStart stop (some node) rest else .ok (appendNode node rest)
    | _ => .error ⟨.unexpectedBlockClose .ifBlock, closeStart, stop, none, none⟩
  | _ => .error ⟨.unexpectedBlockClose .ifBlock, closeStart, stop, none, none⟩

/-- Closes the innermost frame, which must be a `for`. -/
def closeFor (blankAfter : Bool) (closeStart stop : Nat) :
    List Frame → Except Problem (List Frame)
  | .forBlock start blank header children otherwise :: rest =>
    let t : Trim := ⟨blank, blankAfter⟩
    let node := Node.forBlock ⟨0, start, stop⟩ header (trimChildren t children.reverse)
      (elsePart t closeStart otherwise)
    .ok (appendNode node rest)
  | _ => .error ⟨.unexpectedBlockClose .forBlock, closeStart, stop, none, none⟩

/-- Closes the innermost frame, which must be the element of the given name. -/
def closeElement (name : String) (closeStart stop : Nat) :
    List Frame → Except Problem (List Frame)
  | .element start opened attributes children :: rest =>
    if opened == name then
      .ok (appendNode (.element ⟨0, start, stop⟩ opened attributes children.reverse) rest)
    else .error ⟨.mismatchedClosingTag name opened, closeStart, stop, none, none⟩
  | _ => .error ⟨.strayClosingTag name, closeStart, stop, none, none⟩

/-- The problem that a frame is still open at the end of the text. -/
def unclosed (stop : Nat) : Frame → Problem
  | .ifBlock start _ _ _ _ _ => ⟨.unclosedBlock .ifBlock, start, stop, none, none⟩
  | .forBlock start _ _ _ _ => ⟨.unclosedBlock .forBlock, start, stop, none, none⟩
  | .element start name _ _ => ⟨.unclosedTag name, start, stop, none, none⟩
  | .root _ => ⟨.unexpectedEnd, stop, stop, none, none⟩

/-- The problem that something else is expected behind the white space in front. -/
def expectedHere (c : Cursor) (expected : String) : Problem :=
  let c := c.skipBlank
  match c.rest with
  | [] => ⟨.unexpectedEndBefore expected, c.offset, c.offset, none, none⟩
  | x :: _ => ⟨.unexpectedInstead x expected, c.offset, c.offset + x.utf8Size, none, none⟩

/-- The word in front, made of the characters that names are made of. -/
def wordAt (c : Cursor) : List Char :=
  c.rest.takeWhile Text.isNamePart

/-- The word in front is the given one. -/
def seesWord (c : Cursor) (word : String) : Bool :=
  wordAt c == word.toList

/-- Takes a name. -/
def takeName? (c : Cursor) : Option (String × Cursor) :=
  let word := wordAt c
  if word.head?.any Text.isNameStart then some (String.ofList word, c.move word.length) else none

/-- Takes a name that must stand here. -/
def takeName (expected : String) (c : Cursor) : Except Problem (String × Cursor) :=
  match takeName? c with
  | some found => .ok found
  | none => .error (expectedHere c expected)

/-- Takes an expression. -/
def takeExpression (c : Cursor) : Except Problem (Expr × Cursor) :=
  (Expr.readEmbedded c).map fun (e, stop) => (e, c.moveTo stop)

/-- The opening of a mustache. -/
def openBraces : String := "\x7b\x7b"

/-- The end of a mustache. -/
def closeBraces : String := "\x7d\x7d"

/-- Takes the end of a mustache. -/
def takeClosing (c : Cursor) : Except Problem Cursor :=
  let c := c.skipBlank
  if c.sees closeBraces then .ok (c.move 2) else .error (expectedHere c "`\x7d\x7d`")

/-- A tag starts here: `<`, possibly a slash, and a letter. -/
def seesTag (s : List Char) : Bool :=
  match s with
  | '<' :: '/' :: x :: _ => x.isAlpha
  | '<' :: x :: _ => x.isAlpha
  | _ => false

/-- A line of `---` and white space. -/
def isDelimiterLine : List Char → Bool
  | '-' :: '-' :: '-' :: rest => Text.allBlank (rest.takeWhile (· != '\n'))
  | _ => false

/-- The length of the text in front of the next delimiter line, `lineStart` telling whether a line
starts here. -/
def lengthToDelimiter? (lineStart : Bool) : List Char → Option Nat
  | [] => none
  | c :: rest =>
    if lineStart && isDelimiterLine (c :: rest) then some 0
    else (lengthToDelimiter? (c == '\n') rest).map (· + 1)

/-- The text behind the first line. -/
def behindLine (s : List Char) : List Char :=
  (s.dropWhile (· != '\n')).drop 1

/-- Front matter starts here: nothing is open, only white space is in front, and a delimiter line
follows that is closed by another one. -/
def seesConfig (c : Cursor) (frames : List Frame) : Bool :=
  frames.length == 1 && (c.before.head?.all (· == '\n')) && isDelimiterLine c.rest &&
    Text.allBlank c.before && c.rest.contains '\n' &&
    (lengthToDelimiter? true (behindLine c.rest)).isSome

/-- White space or nothing is in front of a cursor. -/
def blankBefore (c : Cursor) : Bool :=
  c.before.head?.all Text.isBlank

/-- White space or nothing follows a cursor. -/
def blankAfter (c : Cursor) : Bool :=
  c.rest.head?.all Text.isBlank

/-- A character that ends the name of an attribute. -/
def endsAttributeName (c : Char) : Bool :=
  Text.isBlank c || c == '=' || c == '>' || c == '/' || c == '"' || c == '\'' || c == '\x7b' ||
    c == '<'

/-- Takes a mustache inside of an attribute. -/
def takeAttributeMustache (c : Cursor) : Except Problem (Expr × Cursor) := do
  let (e, c) ← takeExpression (c.move 2).skipBlank
  let c ← takeClosing c
  return (e, c)

/-- The text part between two places, if it is not empty. -/
def textPart (start : Cursor) (stop : Cursor) : List AttributePart :=
  if start.offset < stop.offset then
    [.text ⟨start.offset, stop.offset⟩
      (String.ofList (start.rest.take (start.rest.length - stop.rest.length)))]
  else []

/-- The parts of the value of an attribute: up to the closing quote, or without quotes up to white
space or the end of the tag.  `start` is where the text part that is being read starts. -/
def takeParts (quote : Option Char) : (bound : Nat) → (start c : Cursor) →
    Except Problem (List AttributePart × Cursor)
  | 0, _, c => .ok ([], c)
  | bound + 1, start, c =>
    match c.rest with
    | [] =>
      match quote with
      | some _ => .error ⟨.unexpectedEndBefore "a closing quote", c.offset, c.offset, none, none⟩
      | none => .ok ([], c)
    | x :: _ =>
      let ended :=
        match quote with
        | some q => x == q
        | none => Text.isBlank x || c.sees ">" || c.sees "/>"
      if ended then .ok (textPart start c, if quote.isSome then c.step else c)
      else if c.sees openBraces then do
        let (e, after) ← takeAttributeMustache c
        let (others, after) ← takeParts quote bound after after
        return (textPart start c ++ .expression e :: others, after)
      else takeParts quote bound start c.step

/-- The value of an attribute. -/
def takeAttributeValue (c : Cursor) : Except Problem (List AttributePart × Cursor) :=
  match c.rest with
  | x :: _ =>
    if x == '"' || x == '\'' then takeParts (some x) (c.rest.length + 1) c.step c.step
    else if c.sees openBraces then
      (takeAttributeMustache c).map fun (e, c) => ([.expression e], c)
    else do
      let (parts, after) ← takeParts none (c.rest.length + 1) c c
      if parts.isEmpty then .error (expectedHere after "an attribute value")
      else return (parts, after)
  | [] => .error (expectedHere c "an attribute value")

/-- The attributes of a tag, added to those in front, which are listed last first. -/
def takeAttributes : (bound : Nat) → List Attribute → Cursor →
    Except Problem (List Attribute × Cursor)
  | 0, attributes, c => .ok (attributes.reverse, c)
  | bound + 1, attributes, c =>
    let c := c.skipBlank
    if c.atEnd || c.sees ">" || c.sees "/>" then .ok (attributes.reverse, c)
    else
      let name := c.rest.takeWhile fun x => !endsAttributeName x
      if name.isEmpty then .error (expectedHere c "an attribute name")
      else do
        let after := c.move name.length
        let (parts, after) ←
          if after.skipBlank.sees "=" then
            (takeAttributeValue after.skipBlank.step.skipBlank).map fun (parts, after) =>
              (some parts, after)
          else .ok (none, after)
        let name := String.ofList name
        if (Attribute.find? attributes name).isSome then
          .error ⟨.duplicateAttribute name, c.offset, after.offset, none, none⟩
        else
          takeAttributes bound (⟨⟨c.offset, after.offset⟩, name, parts⟩ :: attributes) after

/-- The text up to the next construct, and the place behind it.  A backslash in front of two opening
braces makes them text. -/
def takeText (frames : List Frame) : (bound : Nat) → (first : Bool) → (held : List Char) → Cursor →
    List Char × Cursor
  | 0, _, held, c => (held.reverse, c)
  | bound + 1, first, held, c =>
    match c.rest with
    | [] => (held.reverse, c)
    | x :: _ =>
      if c.sees "\\\x7b\x7b" then
        takeText frames bound false ('\x7b' :: '\x7b' :: held) (c.move 3)
      else if !first &&
          (c.sees openBraces || c.sees "/*" || seesTag c.rest || seesConfig c frames) then
        (held.reverse, c)
      else takeText frames bound false (x :: held) c.step

/-- The length of the text in front of the end of a comment. -/
def lengthToCommentEnd? : List Char → Option Nat
  | [] => none
  | '*' :: '/' :: _ => some 0
  | _ :: rest => (lengthToCommentEnd? rest).map (· + 1)

variable [ConfigReader]

/-- The value of front matter.  What is wrong with it is put where its reader says, or else at its
start. -/
def readConfig (raw : List Char) (start stop : Nat) : Except Problem Json :=
  if Text.allBlank raw then .ok (.object [])
  else
    match ConfigReader.read raw with
    | .ok (.object fields) => .ok (.object fields)
    | .ok _ => .error ⟨.configNotMapping, start, stop, none, none⟩
    | .error refusal =>
      let place := start + (refusal.place.map (Text.offsetAt raw)).getD 0
      .error ⟨.invalidConfig refusal.reason, place, place, none, none⟩

/-- A reader of templates: its place and what is open, the innermost frame first. -/
structure Reader where
  cursor : Cursor
  frames : List Frame

namespace Reader

/-- The reader at the start of a text. -/
def ofText (s : List Char) : Reader :=
  ⟨Cursor.ofText s, [.root []]⟩

/-- Moves on and adds a node to the innermost frame. -/
def add (r : Reader) (c : Cursor) (n : Node) : Reader :=
  ⟨c, appendNode n r.frames⟩

/-- Moves on and opens a frame. -/
def push (r : Reader) (c : Cursor) (f : Frame) : Reader :=
  ⟨c, f :: r.frames⟩

/-- Front matter. -/
def config (r : Reader) : Except Problem Reader := do
  let c := r.cursor
  let body := (c.moveWhile (· != '\n')).step
  match lengthToDelimiter? true body.rest with
  | none => .error (expectedHere c "a closing `---`")
  | some length =>
    let raw := body.rest.take length
    let close := body.move length
    let value ← readConfig raw body.offset close.offset
    let after := close.moveWhile (· != '\n')
    return r.add after (.config ⟨0, c.offset, after.offset⟩ value (String.ofList raw))

/-- A comment. -/
def comment (r : Reader) : Except Problem Reader :=
  let c := r.cursor
  let body := c.move 2
  match lengthToCommentEnd? body.rest with
  | none =>
    .error ⟨.unclosedComment, c.offset, c.offset + Text.byteLength c.rest, none, none⟩
  | some length =>
    let after := body.move (length + 2)
    .ok (r.add after
      (.comment ⟨0, c.offset, after.offset⟩ (String.ofList (body.rest.take length))))

/-- Text up to the next construct. -/
def text (r : Reader) : Reader :=
  let c := r.cursor
  let (data, after) := takeText r.frames (c.rest.length + 1) true [] c
  r.add after (.text ⟨0, c.offset, after.offset⟩ (String.ofList data))

/-- The opening of an `if`, after its word. -/
def ifOpen (r : Reader) (c : Cursor) : Except Problem Reader := do
  let (condition, after) ← takeExpression c
  let after ← takeClosing after
  return r.push after
    (.ifBlock r.cursor.offset (blankBefore r.cursor) condition false [] none)

/-- The opening of a `for`, after its word. -/
def forOpen (r : Reader) (c : Cursor) : Except Problem Reader := do
  let (item, c) ← takeName "a loop variable" c.skipBlank
  let c := c.skipBlank
  let (index, c) ←
    if c.sees "," then
      (takeName "an index variable" c.step.skipBlank).map fun (name, c) => (some name, c.skipBlank)
    else .ok (none, c)
  let (key, c) ←
    if c.sees "(" then do
      let (e, c) ← takeExpression c.step
      let c := c.skipBlank
      if c.sees ")" then pure (some e, c.step.skipBlank) else .error (expectedHere c "`)`")
    else .ok (none, c)
  if seesWord c "in" then
    let (iterable, c) ← takeExpression (c.move 2)
    let c ← takeClosing c
    return r.push c
      (.forBlock r.cursor.offset (blankBefore r.cursor) ⟨item, index, key, iterable⟩ [] none)
  else .error (expectedHere c "`in`")

/-- The innermost frame has no `else` part yet and may get one. -/
def acceptsElse (r : Reader) (elseIf : Bool) : Bool :=
  match r.frames with
  | .ifBlock _ _ _ _ _ none :: _ => true
  | .forBlock _ _ _ _ none :: _ => !elseIf
  | _ => false

/-- Opens the `else` part of the innermost frame. -/
def openElse (start : Nat) : List Frame → List Frame
  | .ifBlock s blank condition elseIf children _ :: rest =>
    .ifBlock s blank condition elseIf children (some (start, [])) :: rest
  | .forBlock s blank header children _ :: rest =>
    .forBlock s blank header children (some (start, [])) :: rest
  | frames => frames

/-- An `else` or `else if` clause, after the word `else`. -/
def elseClause (r : Reader) (c : Cursor) : Except Problem Reader := do
  let start := r.cursor.offset
  let c := c.skipBlank
  let elseIf := seesWord c "if"
  if !r.acceptsElse elseIf then
    let fault : Fault := if elseIf then .unexpectedElseIf else .unexpectedElse
    .error ⟨fault, start, c.offset, none, none⟩
  else if elseIf then
    let (condition, c) ← takeExpression (c.move 2)
    let c ← takeClosing c
    return ⟨c, .ifBlock start false condition true [] none :: openElse start r.frames⟩
  else
    let c ← takeClosing c
    return ⟨c, openElse start r.frames⟩

/-- A mustache: an expression, or a part of a block. -/
def mustache (r : Reader) : Except Problem Reader := do
  let start := r.cursor.offset
  let c := (r.cursor.move 2).skipBlank
  if seesWord c "if" then r.ifOpen (c.move 2)
  else if seesWord c "else" then r.elseClause (c.move 4)
  else if seesWord c "endif" then
    let c ← takeClosing (c.move 5)
    let trim : Trim := ⟨chainBlankBefore r.frames, blankAfter c⟩
    let frames ← closeIf trim start c.offset none r.frames
    return ⟨c, frames⟩
  else if seesWord c "for" then r.forOpen (c.move 3)
  else if seesWord c "endfor" then
    let c ← takeClosing (c.move 6)
    let frames ← closeFor (blankAfter c) start c.offset r.frames
    return ⟨c, frames⟩
  else
    let (e, c) ← takeExpression c
    let c ← takeClosing c
    return r.add c (.mustache ⟨0, start, c.offset⟩ e)

/-- A character of the name of a tag. -/
def isTagNamePart (c : Char) : Bool :=
  c.isAlphanum || c == '-' || c == '_'

/-- The opening or closing tag of an element. -/
def tag (r : Reader) : Except Problem Reader := do
  let start := r.cursor.offset
  let c := r.cursor.step
  if c.sees "/" then
    let c := c.step
    let name := c.rest.takeWhile isTagNamePart
    let c := (c.move name.length).skipBlank
    if c.sees ">" then
      let frames ← closeElement (String.ofList name) start c.step.offset r.frames
      return ⟨c.step, frames⟩
    else .error (expectedHere c "`>`")
  else
    let name := c.rest.takeWhile isTagNamePart
    let (attributes, c) ← takeAttributes (c.rest.length + 1) [] (c.move name.length)
    let c := c.skipBlank
    if c.sees "/>" then
      let c := c.move 2
      return r.add c (.element ⟨0, start, c.offset⟩ (String.ofList name) attributes [])
    else if c.sees ">" then
      return r.push c.step (.element start (String.ofList name) attributes [])
    else .error (expectedHere c "`>`")

/-- Takes the construct in front of the cursor. -/
def step (r : Reader) : Except Problem Reader :=
  let c := r.cursor
  if seesConfig c r.frames then r.config
  else if c.sees "/*" then r.comment
  else if c.sees openBraces then r.mustache
  else if seesTag c.rest then r.tag
  else .ok r.text

/-- Takes constructs up to the end of the text. -/
def run : (bound : Nat) → Reader → Except Problem Reader
  | 0, r => .ok r
  | bound + 1, r =>
    if r.cursor.atEnd then .ok r
    else
      match r.step with
      | .ok r => run bound r
      | .error p => .error p

end Reader

/-- The template of a text. -/
def Template.read (source : String) : Except Problem Template :=
  let s := source.toList
  let result : Except Problem Template := do
    let r ← Reader.run (s.length + 1) (Reader.ofText s)
    let stop := r.cursor.offset
    match r.frames with
    | [.root children] =>
      let (root, count) := (Node.fragment ⟨0, 0, stop⟩ children.reverse).number 0
      return ⟨root, count, source⟩
    | f :: _ => .error (unclosed stop f)
    | [] => .error ⟨.unexpectedEnd, stop, stop, none, none⟩
  result.mapError (·.withSource source)

end PromptMarkup

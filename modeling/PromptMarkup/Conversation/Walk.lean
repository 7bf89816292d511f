/-
The walk over a template.

A walk visits the nodes of a template in document order, evaluates their expressions and collects
messages.  A step takes one of the responses that the walk was given; when they are used up, the
walk pauses at the next step.  On the way out every node records where it stood, and the next walk
skips what is over and goes on at the same place.

* `Node.walk` — the visit of a node;
* `visiting` — what every visit does: skip it, resume it or start it, and record how it ended;
* `Template.walk` — a whole walk, with its messages, or its first problem;
* `Event` — what the journal of a walk records.

Design notes: what stands inside of a block or an element is handed to its handler as a computation,
`body`, so that the recursion over the tree is one structural recursion in `Node.walk`.  Problems
that do not stop a walk are collected, and the one that starts first is reported.
-/
import PromptMarkup.Computation
import PromptMarkup.Conversation.Message
import PromptMarkup.Conversation.Visit
import PromptMarkup.Expr.Evaluation
import PromptMarkup.Json.Reader
import PromptMarkup.Template.Syntax
import PromptMarkup.Text.Blank
import PromptMarkup.Value.Data

namespace PromptMarkup

/-- What a walk is run with. -/
structure Setting where
  host : Host
  /-- The role of the messages that hold what stands outside of all messages. -/
  defaultRole : Role

/-- A tool call whose message has not ended yet, and where it stands. -/
structure PendingCall where
  call : ToolCall
  start : Nat
  stop : Nat

/-- A part of a block. -/
inductive Part
  /-- What an `if` block holds for a condition that is true, or for one that is false. -/
  | branch (taken : Bool)
  | iteration (index : Nat)
  /-- What a `for` block holds for the case that there are no items. -/
  | noItems
deriving DecidableEq, Repr

/-- A part of a block that a walk goes into. -/
structure Turn where
  block : Nat
  path : IterationPath
  part : Part
deriving DecidableEq, Repr

/-- What a walk does that can be told apart afterwards. -/
inductive Event
  /-- The expression at a span was evaluated for a node, while the given names were visible. -/
  | evaluated (node : Nat) (path : IterationPath) (span : Span) (names : List String)
  /-- A node wrote a text, into the arguments of a tool call or into the content of a message. -/
  | wrote (node : Nat) (path : IterationPath) (inArguments : Bool) (text : String)
  /-- A tag placed a piece of content. -/
  | placed (node : Nat) (path : IterationPath) (content : Content)
  /-- A tag made a tool call. -/
  | called (node : Nat) (path : IterationPath) (call : ToolCall)
  /-- The walk went into a part of a block. -/
  | entered (turn : Turn)
  /-- A step found no response and waits for one, inside of the given parts of blocks. -/
  | asked (node : Nat) (path : IterationPath) (turns : List Turn)
  /-- A step took a response, inside of the given parts of blocks. -/
  | answered (node : Nat) (path : IterationPath) (turns : List Turn) (response : String)

/-- The state of a walk. -/
structure Walk where
  statuses : Statuses
  /-- The innermost scope. -/
  scope : Scope
  /-- The responses that no step has taken yet. -/
  responses : List String
  messages : List Message
  /-- Text that belongs to no piece of content yet. -/
  stray : String
  /-- Content that belongs to no message yet. -/
  content : List Content
  toolCalls : List PendingCall
  inMessage : Bool
  inContent : Bool
  inStep : Bool
  /-- The text that is written belongs to the arguments of a tool call. -/
  inArguments : Bool
  /-- The parts of blocks that the walk is in, the outermost first. -/
  turns : List Turn
  /-- Problems that do not stop the walk. -/
  problems : List Problem
  /-- What has been done, the last first. -/
  journal : List Event

/-- The state in which a visit starts: one that paused goes on with the names that were visible
then, any other one has decided nothing yet. -/
def Walk.enter (w : Walk) (id : Nat) (path : IterationPath) : Walk :=
  match w.statuses.pausedAt? id path with
  | some pointers => { w with scope.pointers := pointers }
  | none => { w with statuses := w.statuses.decide id .none }

/-- Why a walk stopped. -/
inductive Interrupt
  /-- A step waits for its response; it sets these fields of the configuration. -/
  | paused (config : Fields Json)
  | failed (problem : Problem)

/-- A computation of a walk.  When it is interrupted, the state stays as it is. -/
abbrev Walking := Computation Interrupt Walk

namespace Walking

open PromptMarkup.Computation (look)

/-- Stops the walk with a fault at a node. -/
def fail {α : Type} (fault : Fault) (info : NodeInfo) : Walking α :=
  throw (.failed { fault, start := info.start, stop := info.stop })

/-- Records a problem that does not stop the walk. -/
def report (fault : Fault) (start stop : Nat) : Walking Unit :=
  modify fun w => { w with problems := w.problems ++ [{ fault, start, stop }] }

/-- Records an event. -/
def note (event : Event) : Walking Unit :=
  modify fun w => { w with journal := event :: w.journal }

/-- Runs `act` in a changed state, and changes the state back, even if `act` was interrupted. -/
def within (there back : Walk → Walk) (act : Walking Unit) : Walking Unit :=
  ExceptT.mk do
    modify there
    let result ← act.run
    modify back
    return result

/-- Runs `act`, and `record` if it paused. -/
def onPause (record : Walk → Walk) (act : Walking Unit) : Walking Unit :=
  ExceptT.mk do
    let result ← act.run
    match result with
    | .error (.paused _) => modify record
    | _ => pure ()
    return result

/-- Runs `act` in a part of a block. -/
def entering (turn : Turn) (act : Walking Unit) : Walking Unit := do
  note (.entered turn)
  let outer ← look Walk.turns
  modify fun w => { w with turns := outer ++ [turn] }
  act
  modify fun w => { w with turns := outer }

/-- Runs `act` in an inner scope. -/
def inCopy (act : Walking Unit) : Walking Unit := do
  let outer ← look fun w => w.scope.pointers
  act
  modify fun w => { w with scope.pointers := outer }

/-- Runs `act` with no text pending, and gives the text that is pending then. -/
def captured (act : Walking Unit) : Walking String :=
  ExceptT.mk fun w =>
    let (result, w') := act.runFrom { w with stray := "" }
    (result.map fun _ => w'.stray, { w' with stray := w.stray })

/-- Runs `act`; its text belongs to the arguments of a tool call, or it does not. -/
def inArguments (flag : Bool) (act : Walking Unit) : Walking Unit := do
  let outer ← look Walk.inArguments
  within (fun w => { w with inArguments := flag }) (fun w => { w with inArguments := outer }) act

/-- Sets a variable. -/
def setVariable (name : String) (v : Value) : Walking Unit :=
  modify fun w => { w with scope := w.scope.set name v }

/-- The value of an expression of a node. -/
def evaluate (setting : Setting) (node : Nat) (path : IterationPath) (e : Expr) :
    Walking Value := do
  note (.evaluated node path e.span (← look fun w => w.scope.pointers.keys))
  let (result, scope) ← look fun w => (e.evaluate setting.host).runIn w.scope
  modify fun w => { w with scope := scope }
  match result with
  | .ok v => return v
  | .error p => throw (.failed p)

/-- Appends text to the text that is pending. -/
def write (node : Nat) (path : IterationPath) (text : String) : Walking Unit := do
  modify fun w => { w with stray := w.stray ++ text }
  note (.wrote node path (← look Walk.inArguments) text)

/-- Visits a node at a path, unless that visit is over. -/
def visiting (id : Nat) (path : IterationPath) (act : Walking Unit) : Walking Unit := do
  if ← look fun w => w.statuses.completed id path then
    pure ()
  else
    modify fun w => w.enter id path
    let entry ← look fun w => w.scope.pointers
    onPause (fun w => { w with statuses := w.statuses.pause id path entry }) act
    modify fun w => { w with statuses := w.statuses.complete id path }

/-! ### Content and messages -/

/-- The content that a text which is pending makes. -/
def contentOf (stray : String) : List Content :=
  let text := Text.removeCommonIndent stray.toList
  if text.isEmpty then [] else [.text (String.ofList text)]

/-- Makes a piece of content of the text that is pending. -/
def closeText : Walking Unit :=
  modify fun w => { w with stray := "", content := w.content ++ contentOf w.stray }

/-- Takes the content and the tool calls that are pending. -/
def takeContent : Walking (List Content × List PendingCall) := do
  closeText
  let pending ← look fun w => (w.content, w.toolCalls)
  modify fun w => { w with content := [], toolCalls := [] }
  return pending

/-- Reports the tool calls of a message that may not have any. -/
def reportMisplaced (role : Role) : List PendingCall → Walking Unit
  | [] => pure ()
  | pending :: rest => do
    report (.misplacedToolCall role) pending.start pending.stop
    reportMisplaced role rest

/-- The tool calls of a message; only the assistant has any. -/
def placeToolCalls (role : Role) (pending : List PendingCall) : Walking (List ToolCall) := do
  if role = .assistant then
    return pending.map PendingCall.call
  else
    reportMisplaced role pending
    return []

/-- Appends a message. -/
def emit (m : Message) : Walking Unit :=
  modify fun w => { w with messages := w.messages ++ [m] }

/-- Makes a message of what is pending outside of all messages. -/
def closeMessage (setting : Setting) : Walking Unit := do
  let (content, pending) ← takeContent
  if content.isEmpty && pending.isEmpty then
    return
  else
    let role := setting.defaultRole
    emit { role, content, toolCalls := ← placeToolCalls role pending }

/-! ### Blocks -/

/-- Writes the value of an expression.  Assignments and undefined values write nothing. -/
def mustache (setting : Setting) (id : Nat) (path : IterationPath) (e : Expr) : Walking Unit := do
  let v ← evaluate setting id path e
  match v with
  | .undefined => pure ()
  | v => if e.isAssignment then pure () else write id path v.rendered

/-- Whether the condition of an `if` block is true.  A block that paused keeps what it has decided.
-/
def takesBranch (setting : Setting) (id : Nat) (path : IterationPath) (condition : Expr) :
    Walking Bool := do
  match ← look fun w => (w.statuses.ofNode id).decision with
  | .branch taken => pure taken
  | _ =>
    let v ← evaluate setting id path condition
    return v.truthy

/-- An `if` block. -/
def ifBlock (setting : Setting) (id : Nat) (path : IterationPath) (condition : Expr)
    (body otherwise : Walking Unit) : Walking Unit := do
  let taken ← takesBranch setting id path condition
  onPause (fun w => { w with statuses := w.statuses.decide id (.branch taken) })
    (entering ⟨id, path, .branch taken⟩ (if taken then inCopy body else otherwise))

/-- The items that a `for` block runs over; a value that is neither an array nor a string has none.
-/
def itemsOf : Value → List Value
  | .array items => items
  | .string s => Value.ofChars s.toList
  | _ => []

/-- The name of a loop variable must be free. -/
def checkFree (info : NodeInfo) (name : String) : Walking Unit := do
  if ← look fun w => w.scope.sees name then
    fail (.alreadyDeclared name) info
  else
    pure ()

/-- The names of both loop variables must be free. -/
def checkNames (info : NodeInfo) (header : ForHeader) : Walking Unit := do
  checkFree info header.item
  match header.index with
  | some name => checkFree info name
  | none => pure ()

/-- The value of the index variable in an iteration.  An iteration that is resumed keeps the value
it was entered with. -/
def indexValue (setting : Setting) (id : Nat) (path : IterationPath) (header : ForHeader) (i : Nat)
    (resumed : Option Value) : Walking Value :=
  match resumed, header.key with
  | some v, _ => pure v
  | none, some key => evaluate setting id (path ++ [i]) key
  | none, none => pure (Value.ofNat i)

/-- Sets the index variable of an iteration, if there is one. -/
def setIndex (setting : Setting) (id : Nat) (path : IterationPath) (header : ForHeader) (i : Nat)
    (resumed : Option Value) : Walking (Option Value) :=
  match header.index with
  | none => pure none
  | some name => do
    let v ← indexValue setting id path header i resumed
    setVariable name v
    return some v

/-- The `i`-th iteration of a `for` block, over the given item. -/
def iteration (setting : Setting) (id : Nat) (path : IterationPath) (header : ForHeader)
    (items : List Value) (body : IterationPath → Walking Unit) (i : Nat) (resumed : Option Value)
    (item : Value) : Walking Unit :=
  entering ⟨id, path, .iteration i⟩ <| inCopy do
    setVariable header.item item
    let v ← setIndex setting id path header i resumed
    onPause (fun w => { w with statuses := w.statuses.decide id (.iteration items i v) })
      (body (path ++ [i]))

/-- The iterations of a `for` block from the `i`-th on; `rest` are the items that are left. -/
def iterations (setting : Setting) (id : Nat) (path : IterationPath) (header : ForHeader)
    (items : List Value) (body : IterationPath → Walking Unit) (i : Nat) (resumed : Option Value) :
    List Value → Walking Unit
  | [] => pure ()
  | item :: rest => do
    iteration setting id path header items body i resumed item
    iterations setting id path header items body (i + 1) none rest

/-- What a `for` block still has to run over. -/
structure Loop where
  items : List Value
  /-- The iteration to go on with, and the value that its index variable had if it is resumed. -/
  first : Nat
  resumed : Option Value

/-- The items of a `for` block.  A block that paused in an iteration keeps its items. -/
def takeItems (setting : Setting) (id : Nat) (path : IterationPath) (iterable : Expr) :
    Walking Loop := do
  match ← look fun w => (w.statuses.ofNode id).decision with
  | .iteration items i v => pure ⟨items, i, v⟩
  | _ =>
    let v ← evaluate setting id path iterable
    return ⟨itemsOf v, 0, none⟩

/-- A `for` block. -/
def forBlock (setting : Setting) (info : NodeInfo) (path : IterationPath) (header : ForHeader)
    (body : IterationPath → Walking Unit) (otherwise : Walking Unit) : Walking Unit := do
  checkNames info header
  let loop ← takeItems setting info.id path header.iterable
  if loop.items.isEmpty then
    entering ⟨info.id, path, .noItems⟩ otherwise
  else
    iterations setting info.id path header loop.items body loop.first loop.resumed
      (loop.items.drop loop.first)

/-! ### Elements -/

/-- The text of the parts of an attribute. -/
def partsText (setting : Setting) (id : Nat) (path : IterationPath) :
    List AttributePart → Walking String
  | [] => pure ""
  | .text _ data :: rest => do return data ++ (← partsText setting id path rest)
  | .expression e :: rest => do
    let v ← evaluate setting id path e
    return v.rendered ++ (← partsText setting id path rest)

/-- The value of an attribute: true if it is only present, the value of an expression that stands
alone, otherwise a text. -/
def attributeValue (setting : Setting) (id : Nat) (path : IterationPath) (a : Attribute) :
    Walking Value :=
  match a.parts with
  | none => pure (.boolean true)
  | some [.expression e] => evaluate setting id path e
  | some parts => do return .string (← partsText setting id path parts)

/-- The values of attributes. -/
def attributeValues (setting : Setting) (id : Nat) (path : IterationPath) :
    List Attribute → Walking (Fields Value)
  | [] => pure []
  | a :: rest => do
    let v ← attributeValue setting id path a
    return (a.name, v) :: (← attributeValues setting id path rest)

/-- The text of an attribute that is neither undefined nor null. -/
def textOf? (values : Fields Value) (name : String) : Option String :=
  match values.get? name with
  | some v => if v.isNullish then none else some v.text
  | none => none

/-- The role of a message: of its tag, or else of its `role` attribute. -/
def messageRole (info : NodeInfo) (role : Option Role) (values : Fields Value) : Walking Role :=
  match role with
  | some role => pure role
  | none =>
    match textOf? values "role" with
    | none => fail .messageWithoutRole info
    | some name =>
      match Role.ofName? name with
      | some role => pure role
      | none => fail (.invalidRole name) info

/-- A message. -/
def message (setting : Setting) (info : NodeInfo) (path : IterationPath) (role : Option Role)
    (attributes : List Attribute) (body : Walking Unit) : Walking Unit := do
  if ← look Walk.inMessage then
    fail .messageInsideMessage info
  else
    let values ← attributeValues setting info.id path attributes
    let role ← messageRole info role values
    let toolId := if role = .tool then textOf? values "id" else none
    if role = .tool && toolId.isNone then
      fail .toolMessageWithoutId info
    else
      closeMessage setting
      within (fun w => { w with inMessage := true }) (fun w => { w with inMessage := false })
        (inArguments false body)
      let (content, pending) ← takeContent
      let toolCalls ← placeToolCalls role pending
      emit { role, content, name := textOf? values "name", toolId, toolCalls }

/-- Adds a piece of content. -/
def place (node : Nat) (path : IterationPath) (content : Content) : Walking Unit := do
  modify fun w => { w with content := w.content ++ [content] }
  note (.placed node path content)

/-- Adds a piece of content of the given kind.  An image must have an address. -/
def placeContent (info : NodeInfo) (path : IterationPath) (kind : ContentKind) (text : String) :
    Walking Unit :=
  match kind with
  | .text => place info.id path (.text text)
  | .image =>
    if text.isEmpty then
      fail .imageWithoutUrl info
    else
      place info.id path (.image text)

/-- A piece of content. -/
def contentTag (setting : Setting) (info : NodeInfo) (path : IterationPath) (kind : ContentKind)
    (attributes : List Attribute) (body : Walking Unit) : Walking Unit := do
  if ← look Walk.inContent then
    fail .contentInsideContent info
  else
    let _ ← attributeValues setting info.id path attributes
    closeText
    within (fun w => { w with inContent := true }) (fun w => { w with inContent := false })
      (inArguments false body)
    let stray ← look Walk.stray
    modify fun w => { w with stray := "" }
    placeContent info path kind (String.ofList (Text.removeCommonIndent stray.toList))

/-- The arguments of a tool call: a JSON text, none if it is blank.  A text that cannot be read is
reported. -/
def toolArguments (info : NodeInfo) (text : String) : Walking Json := do
  let body := Text.trim text.toList
  if body.isEmpty then
    return .object []
  else
    match Json.read? body with
    | some v => return v
    | none =>
      report .invalidToolCallArguments info.start info.stop
      return .object []

/-- Adds a tool call. -/
def call (node : Nat) (path : IterationPath) (pending : PendingCall) : Walking Unit := do
  modify fun w => { w with toolCalls := w.toolCalls ++ [pending] }
  note (.called node path pending.call)

/-- A tool call. -/
def toolCall (setting : Setting) (info : NodeInfo) (path : IterationPath)
    (attributes : List Attribute) (body : Walking Unit) : Walking Unit := do
  if ← look Walk.inContent then
    fail .toolCallInsideContent info
  else
    let values ← attributeValues setting info.id path attributes
    match textOf? values "id", textOf? values "name" with
    | none, _ => fail .toolCallWithoutId info
    | some _, none => fail .toolCallWithoutName info
    | some id, some name =>
      let text ← captured (inArguments true body)
      let arguments ← toolArguments info text
      call info.id path { call := { id, name, arguments }, start := info.start, stop := info.stop }

/-- The name that a step gives to its response. -/
def stepName (attributes : List Attribute) : Walking (Option String) :=
  match Attribute.find? attributes "as" with
  | none => pure none
  | some a =>
    match a.staticText? with
    | some name => pure (some name)
    | none =>
      throw (.failed
        { fault := .attributeNotStatic "as", start := a.span.start, stop := a.span.stop })

/-- The fields of the configuration that a step sets.  A step that is resumed does not evaluate its
attributes again. -/
def stepConfig (setting : Setting) (id : Nat) (path : IterationPath)
    (attributes : List Attribute) : Walking (Fields Json) := do
  match ← look fun w => w.statuses.pausedAt? id path with
  | some _ => return []
  | none =>
    let values ← attributeValues setting id path (Attribute.others attributes "as")
    return values.map fun (name, v) => (name, v.toJson)

/-- Gives a response its name, if there is one. -/
def nameResponse (name : Option String) (response : String) : Walking Unit :=
  match name with
  | some name => setVariable name (.string response)
  | none => pure ()

/-- Takes the next response for a step: gives it its name and makes it a message. -/
def takeResponse (setting : Setting) (id : Nat) (path : IterationPath) (name : Option String)
    (config : Fields Json) : Walking Unit := do
  let turns ← look Walk.turns
  match ← look Walk.responses with
  | [] =>
    closeMessage setting
    note (.asked id path turns)
    throw (.paused config)
  | response :: rest =>
    modify fun w => { w with responses := rest }
    note (.answered id path turns response)
    nameResponse name response
    closeMessage setting
    emit (.ofResponse response)

/-- A step. -/
def step (setting : Setting) (info : NodeInfo) (path : IterationPath)
    (attributes : List Attribute) (body : Walking Unit) : Walking Unit := do
  if ← look Walk.inStep then
    fail .stepInsideStep info
  else if ← look Walk.inMessage then
    fail .stepInsideMessage info
  else
    let name ← stepName attributes
    let config ← stepConfig setting info.id path attributes
    within (fun w => { w with inStep := true }) (fun w => { w with inStep := false }) body
    takeResponse setting info.id path name config

/-- An element. -/
def element (setting : Setting) (info : NodeInfo) (path : IterationPath) (name : String)
    (attributes : List Attribute) (body : Walking Unit) : Walking Unit :=
  match TagKind.ofName name with
  | .message role => message setting info path role attributes body
  | .content kind => contentTag setting info path kind attributes body
  | .toolCall => toolCall setting info path attributes body
  | .reference =>
    match Attribute.find? attributes "prompt" with
    | none => fail .referenceWithoutPrompt info
    | some _ => fail .unresolvedReference info
  | .step => step setting info path attributes body
  | .unknown => do
    report (.unknownTag name) info.start info.stop
    body

end Walking

open Walking

namespace Node

mutual

/-- Visits a node at a path. -/
def walk (setting : Setting) : Node → IterationPath → Walking Unit
  | fragment info children, path =>
    visiting info.id path (inCopy (walkAll setting children path))
  | config info _ _, path => visiting info.id path (pure ())
  | comment info _, path => visiting info.id path (pure ())
  | text info data, path => visiting info.id path (write info.id path data)
  | mustache info e, path => visiting info.id path (Walking.mustache setting info.id path e)
  | ifBlock info condition _ children otherwise, path =>
    visiting info.id path (Walking.ifBlock setting info.id path condition
      (walkAll setting children path) (walkElse setting otherwise path))
  | forBlock info header children otherwise, path =>
    visiting info.id path (Walking.forBlock setting info path header
      (fun inner => walkAll setting children inner) (walkElse setting otherwise path))
  | element info name attributes children, path =>
    visiting info.id path (Walking.element setting info path name attributes
      (walkAll setting children path))

/-- Visits nodes one after the other. -/
def walkAll (setting : Setting) : List Node → IterationPath → Walking Unit
  | [], _ => pure ()
  | n :: rest, path => do
    walk setting n path
    walkAll setting rest path

/-- Visits an `else` part, if there is one. -/
def walkElse (setting : Setting) : Option Node → IterationPath → Walking Unit
  | none, _ => pure ()
  | some n, path => walk setting n path

end

end Node

/-- How a walk ended that had no problem. -/
structure Outcome where
  /-- The walk came to the end of the template. -/
  completed : Bool
  messages : List Message
  /-- The fields of the configuration set by the step at which the walk paused. -/
  config : Fields Json
  statuses : Statuses
  stash : Stash
  /-- What the walk did, in order. -/
  journal : List Event

/-- The state at the start of a walk. -/
def Walk.start (statuses : Statuses) (scope : Scope) (responses : List String) : Walk :=
  { statuses, scope, responses, messages := [], stray := "", content := [], toolCalls := []
    inMessage := false, inContent := false, inStep := false, inArguments := false
    turns := [], problems := [], journal := [] }

/-- The outcome that the state at the end of a walk stands for. -/
def Walk.outcome (w : Walk) (completed : Bool) (config : Fields Json) : Outcome :=
  { completed, messages := w.messages, config, statuses := w.statuses, stash := w.scope.stash
    journal := w.journal.reverse }

/-- Visits the root, and makes a message of what is pending at the end. -/
def Template.visitRoot (t : Template) (setting : Setting) : Walking Unit := do
  t.root.walk setting []
  closeMessage setting

/-- Walks over a template.  Of all problems the one that starts first is reported. -/
def Template.walk (t : Template) (setting : Setting) (statuses : Statuses) (scope : Scope)
    (responses : List String) : Except Problem Outcome :=
  let (result, w) := (t.visitRoot setting).runFrom (Walk.start statuses scope responses)
  let (problems, completed, config) := match result with
    | .ok _ => (w.problems, true, [])
    | .error (.paused config) => (w.problems, false, config)
    | .error (.failed p) => (w.problems ++ [p], false, [])
  match Problem.earliest? problems with
  | some p => .error (p.withSource t.source)
  | none => .ok (w.outcome completed config)

end PromptMarkup

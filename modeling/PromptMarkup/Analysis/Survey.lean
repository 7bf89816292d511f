/-
The survey of a prompt.

A survey goes through a template in document order without evaluating anything.  It finds the
parameters, follows references, and raises the problems that can be seen without values.

* `Node.survey` — the survey of a node;
* `Survey.verdict?` — the problem that is reported at the end, if there is one.

Design notes: a survey does not know how a reference is followed; it is given a function for that,
`Follow`, so that the recursion over the tree is structural and apart from the recursion over
references.
-/
import PromptMarkup.Expr.Names
import PromptMarkup.Json.Reader
import PromptMarkup.Reference.Inline

namespace PromptMarkup

/-- What is known about a prompt once it has been analyzed. -/
structure Analysis where
  /-- The path of the prompt, if it has one. -/
  path : Option String
  /-- The digest of the prompt and of the prompts it refers to. -/
  hash : String
  parameters : NameSet
  /-- The paths of the prompts that can be reached through references. -/
  references : NameSet
  config : Fields Json
  /-- The prompt with every reference replaced. -/
  resolved : String
  /-- The same without its front matter. -/
  resolvedBody : String
deriving Repr

/-- The analyses of referenced prompts, by the paths they were found under. -/
abbrev Cache := Fields Analysis

/-- A computation of an analysis.  It may fail, and keeps what has been cached. -/
abbrev Analyzing := Computation Problem Cache

/-- How a reference is followed while a state `σ` is kept: the analysis of the prompt at a path, for
a reference at a node. -/
abbrev FollowIn (σ : Type) := (path : String) → NodeInfo → Computation Problem σ Analysis

/-- How a reference is followed while analyses are kept. -/
abbrev Follow := FollowIn Cache

/-- The state of a survey; `σ` is what is kept from one reference to the next. -/
structure Survey (σ : Type := Cache) where
  source : String
  cache : σ
  /-- The names of the innermost scope, and all parameters. -/
  names : Names
  references : NameSet
  /-- The digests of the prompts referred to, each once, in document order. -/
  hashes : List String
  replacements : List Replacement
  inMessage : Bool
  /-- The role of the message around, if it is known. -/
  messageRole : Option Role
  inContent : Bool
  inStep : Bool
  /-- Problems that do not stop the survey. -/
  problems : List Problem
  /-- Where the reference stands whose prompt has a problem of its own. -/
  failedReference : Option Nat

/-- The state at the start of a survey. -/
def Survey.start {σ : Type} (source : String) (cache : σ) : Survey σ :=
  { source, cache, names := ⟨.empty, .empty⟩, references := .empty, hashes := []
    replacements := [], inMessage := false, messageRole := none, inContent := false
    inStep := false, problems := [], failedReference := none }

/-- A computation of a survey.  When it fails, the state stays as it is. -/
abbrev SurveyingIn (σ : Type) := Computation Problem (Survey σ)

/-- A computation of a survey that keeps analyses. -/
abbrev Surveying := SurveyingIn Cache

variable {σ : Type}

namespace Surveying

open PromptMarkup.Computation (look)

/-- Stops the survey with a fault at a node. -/
def fail {α : Type} (fault : Fault) (info : NodeInfo) : SurveyingIn σ α :=
  throw { fault, start := info.start, stop := info.stop }

/-- Stops the survey with a fault at an attribute. -/
def failAt {α : Type} (fault : Fault) (a : Attribute) : SurveyingIn σ α :=
  throw { fault, start := a.span.start, stop := a.span.stop }

/-- Records a problem that does not stop the survey. -/
def report (fault : Fault) (info : NodeInfo) : SurveyingIn σ Unit :=
  modify fun s =>
    { s with problems := s.problems ++ [{ fault, start := info.start, stop := info.stop }] }

/-- Goes through expressions, one after the other. -/
def mention (es : List Expr) : SurveyingIn σ Unit := do
  let (result, names) ← look fun s => (Expr.mentionAll es).runOn s.names
  modify fun s => { s with names := names }
  match result with
  | .ok () => pure ()
  | .error p => throw p

/-- Declares a name. -/
def declare (name : String) : SurveyingIn σ Unit :=
  modify fun s => { s with names := s.names.declare name }

/-- Runs `act` in an inner scope. -/
def inCopy (act : SurveyingIn σ Unit) : SurveyingIn σ Unit := do
  let outer ← look fun s => s.names.declared
  act
  modify fun s => { s with names.declared := outer }

/-- Goes through the expressions of attributes. -/
def attributes (as : List Attribute) : SurveyingIn σ Unit :=
  mention (as.flatMap Attribute.expressions)

/-- The value of an attribute that holds no expression. -/
def plainValue? (a : Attribute) : Option String :=
  match a.parts with
  | none => some "true"
  | some _ => a.staticText?

/-- The text of nodes that are only texts and comments. -/
def plainText? : List Node → Option String
  | [] => some ""
  | .text _ data :: rest => (plainText? rest).map (data ++ ·)
  | .comment _ _ :: rest => plainText? rest
  | _ :: _ => none

/-! ### Blocks -/

/-- The name of a loop variable must be free. -/
def checkFree (info : NodeInfo) (name : String) : SurveyingIn σ Unit := do
  if name ∈ (← look fun s => s.names.declared) then
    fail (.alreadyDeclared name) info
  else
    pure ()

/-- The index variable of a `for` block, with the expression that gives it its value. -/
def index (header : ForHeader) : SurveyingIn σ Unit := do
  match header.index with
  | none => pure ()
  | some name =>
    mention header.key.toList
    declare name

/-- A `for` block. -/
def forBlock (info : NodeInfo) (header : ForHeader) (body otherwise : SurveyingIn σ Unit) :
    SurveyingIn σ Unit := do
  checkFree info header.item
  match header.index with
  | some name => checkFree info name
  | none => pure ()
  mention [header.iterable]
  inCopy do
    declare header.item
    index header
    body
  otherwise

/-! ### Elements -/

/-- The role of a message, if it is known without evaluation. -/
def messageRole (info : NodeInfo) (role : Option Role) (as : List Attribute) :
    SurveyingIn σ (Option Role) :=
  match role with
  | some role => pure (some role)
  | none =>
    match Attribute.find? as "role" with
    | none => fail .messageWithoutRole info
    | some a =>
      match plainValue? a with
      | none => pure none
      | some name =>
        match Role.ofName? name with
        | some role => pure (some role)
        | none => fail (.invalidRole name) info

/-- A message. -/
def message (info : NodeInfo) (role : Option Role) (as : List Attribute)
    (body : SurveyingIn σ Unit) : SurveyingIn σ Unit := do
  if ← look Survey.inMessage then
    fail .messageInsideMessage info
  else
    attributes as
    let role ← messageRole info role as
    if role = some .tool && (Attribute.find? as "id").isNone then
      fail .toolMessageWithoutId info
    else
      modify fun s => { s with inMessage := true, messageRole := role }
      body
      modify fun s => { s with inMessage := false, messageRole := none }

/-- A piece of content; `plain` is the text inside of it if it needs no evaluation. -/
def contentTag (info : NodeInfo) (kind : ContentKind) (as : List Attribute)
    (plain : Option String) (body : SurveyingIn σ Unit) : SurveyingIn σ Unit := do
  if ← look Survey.inContent then
    fail .contentInsideContent info
  else
    attributes as
    modify fun s => { s with inContent := true }
    body
    modify fun s => { s with inContent := false }
    if kind = .image && plain.any (fun text => Text.allBlank text.toList) then
      fail .imageWithoutUrl info
    else
      pure ()

/-- The arguments of a tool call can be read, or are none. -/
def argumentsReadable (text : String) : Bool :=
  let body := Text.trim text.toList
  body.isEmpty || (Json.read? body).isSome

/-- Tool calls may stand only in messages of the assistant. -/
def checkPlacement (info : NodeInfo) : SurveyingIn σ Unit := do
  let role ← look Survey.messageRole
  if (← look Survey.inMessage) && (role.isNone || role = some .assistant) then
    pure ()
  else
    report (.misplacedToolCall (role.getD .system)) info

/-- A tool call; `plain` is the text inside of it if it needs no evaluation. -/
def toolCall (info : NodeInfo) (as : List Attribute) (plain : Option String)
    (body : SurveyingIn σ Unit) : SurveyingIn σ Unit := do
  if ← look Survey.inContent then
    fail .toolCallInsideContent info
  else
    attributes as
    if (Attribute.find? as "id").isNone then
      fail .toolCallWithoutId info
    else if (Attribute.find? as "name").isNone then
      fail .toolCallWithoutName info
    else
      body
      if plain.all argumentsReadable then
        checkPlacement info
      else
        report .invalidToolCallArguments info
        checkPlacement info

/-- The name that a step gives to its response. -/
def stepName (as : List Attribute) : SurveyingIn σ (Option String) :=
  match Attribute.find? as "as" with
  | none => pure none
  | some a =>
    match a.staticText? with
    | some name => pure (some name)
    | none => failAt (.attributeNotStatic "as") a

/-- A step. -/
def step (info : NodeInfo) (as : List Attribute) (body : SurveyingIn σ Unit) :
    SurveyingIn σ Unit := do
  if ← look Survey.inStep then
    fail .stepInsideStep info
  else if ← look Survey.inMessage then
    fail .stepInsideMessage info
  else
    let name ← stepName as
    attributes (Attribute.others as "as")
    modify fun s => { s with inStep := true }
    body
    modify fun s => { s with inStep := false }
    match name with
    | some name => declare name
    | none => pure ()

/-- The prompt that a reference names. -/
def promptName (info : NodeInfo) (as : List Attribute) : SurveyingIn σ String :=
  match Attribute.find? as "prompt" with
  | none => fail .referenceWithoutPrompt info
  | some a =>
    match a.staticText? with
    | some name => pure name
    | none => failAt (.attributeNotStatic "prompt") a

/-- Follows a reference. -/
def followed (follow : FollowIn σ) (prompt : String) (info : NodeInfo) :
    SurveyingIn σ Analysis := do
  let (result, cache) ← look fun s => (follow prompt info).runFrom s.cache
  modify fun s => { s with cache := cache }
  match result with
  | .ok child => return child
  | .error p =>
    if p.source.isSome then
      modify fun s => { s with failedReference := some info.start }
      throw p
    else
      throw p

/-- The parameters of a referenced prompt that are neither passed to it nor declared around it. -/
def openParameters (s : Survey σ) (passed : List Attribute) (child : Analysis) : List String :=
  child.parameters.toList.filter fun name =>
    !(passed.any fun a => a.name == name) && !decide (name ∈ s.names.declared)

/-- Takes over what a referenced prompt contributes. -/
def adopt (info : NodeInfo) (passed : List Attribute) (child : Analysis) : SurveyingIn σ Unit :=
  modify fun s =>
    let found := child.path.toList.foldl NameSet.insert s.references
    let added := openParameters s passed child
    { s with
      references := found.union child.references
      names.parameters := added.foldl NameSet.insert s.names.parameters
      hashes := if child.hash ∈ s.hashes then s.hashes else s.hashes ++ [child.hash]
      replacements := s.replacements ++
        [⟨info.start, info.stop, inlineReference s.source passed child.resolvedBody⟩] }

/-- A reference. -/
def reference (follow : FollowIn σ) (info : NodeInfo) (as : List Attribute) :
    SurveyingIn σ Unit := do
  let prompt ← promptName info as
  let passed := Attribute.others as "prompt"
  attributes passed
  let child ← followed follow prompt info
  adopt info passed child

/-- An element. -/
def element (follow : FollowIn σ) (info : NodeInfo) (name : String) (as : List Attribute)
    (plain : Option String) (body : SurveyingIn σ Unit) : SurveyingIn σ Unit :=
  match TagKind.ofName name with
  | .message role => message info role as body
  | .content kind => contentTag info kind as plain body
  | .toolCall => toolCall info as plain body
  | .reference => reference follow info as
  | .step => step info as body
  | .unknown => do
    report (.unknownTag name) info
    attributes as
    body

end Surveying

open Surveying

namespace Node

mutual

/-- Surveys a node. -/
def survey (follow : FollowIn σ) : Node → SurveyingIn σ Unit
  | fragment _ children => inCopy (surveyAll follow children)
  | config _ _ _ => pure ()
  | text _ _ => pure ()
  | comment _ _ => pure ()
  | mustache _ e => Surveying.mention [e]
  | ifBlock _ condition _ children otherwise => do
    Surveying.mention [condition]
    inCopy (surveyAll follow children)
    surveyElse follow otherwise
  | forBlock info header children otherwise =>
    Surveying.forBlock info header (surveyAll follow children) (surveyElse follow otherwise)
  | element info name as children =>
    Surveying.element follow info name as (plainText? children) (surveyAll follow children)

/-- Surveys nodes one after the other. -/
def surveyAll (follow : FollowIn σ) : List Node → SurveyingIn σ Unit
  | [] => pure ()
  | n :: rest => do
    survey follow n
    surveyAll follow rest

/-- Surveys an `else` part, if there is one. -/
def surveyElse (follow : FollowIn σ) : Option Node → SurveyingIn σ Unit
  | none => pure ()
  | some n => survey follow n

end

end Node

/-- The problem that a survey ends with.  A problem of a referenced prompt counts only if no problem
of the prompt itself starts in front of the reference or at it. -/
def Survey.verdict? (s : Survey σ) (result : Except Problem Unit) : Option Problem :=
  let own (problems : List Problem) : Option Problem :=
    (Problem.earliest? problems).map fun p => p.withSource s.source
  match result with
  | .ok () => own s.problems
  | .error p =>
    match s.failedReference with
    | none => own (s.problems ++ [p])
    | some anchor => if s.problems.all (fun q => anchor < q.start) then some p else own s.problems

end PromptMarkup

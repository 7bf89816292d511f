/-
What can be wrong with a prompt.

A `Fault` is a cause, with the data its message needs; `Fault.code` groups the causes under stable
names and `Fault.message` words them.  A `Problem` is a fault at a span of a source text.

* `Problem.withSource`, `Problem.inPrompt` — attach the text and the path that a problem belongs to;
  what is already attached stays, so a problem of a referenced prompt keeps pointing into it;
* `Problem.position?`, `Problem.line?` — where the problem starts, once the text is known;
* `Problem.earliest?` — of several problems the one that starts first, the first of those;
* `exists_ok_of_any`, `exists_ok_of_isOk` — a result of which something was checked is a success.
-/
import PromptMarkup.Conversation.Message
import PromptMarkup.Text.Position

namespace PromptMarkup

/-- The two kinds of blocks. -/
inductive BlockKind
  | ifBlock
  | forBlock
deriving DecidableEq, Repr

/-- The word that closes a block. -/
def BlockKind.closingWord : BlockKind → String
  | .ifBlock => "endif"
  | .forBlock => "endfor"

/-- Causes of failure. -/
inductive Fault
  /-- The text ended inside an expression. -/
  | unexpectedEnd
  /-- The text ended where something else should stand. -/
  | unexpectedEndBefore (expected : String)
  | unexpectedToken (token : String)
  | unexpectedCharacter (c : Char)
  /-- A character stands where something else should stand. -/
  | unexpectedInstead (c : Char) (expected : String)
  | invalidEscape
  | invalidHexadecimal
  | unterminatedString
  | unexpectedBlockClose (kind : BlockKind)
  | unexpectedElse
  | unexpectedElseIf
  | unclosedBlock (kind : BlockKind)
  | unclosedTag (name : String)
  /-- A closing tag names another element than the innermost open one. -/
  | mismatchedClosingTag (name opened : String)
  /-- A closing tag stands where no element is open. -/
  | strayClosingTag (name : String)
  | duplicateAttribute (name : String)
  | unclosedComment
  | configNotMapping
  /-- The front matter cannot be read, for a reason that its reader may have given. -/
  | invalidConfig (reason : Option String := none)
  | undeclared (name : String)
  | alreadyDeclared (name : String)
  | messageInsideMessage
  | contentInsideContent
  | toolCallInsideContent
  | toolCallWithoutId
  | toolCallWithoutName
  | invalidToolCallArguments
  | misplacedToolCall (role : Role)
  | toolMessageWithoutId
  | messageWithoutRole
  | invalidRole (name : String)
  | unknownTag (name : String)
  | stepInsideStep
  | stepInsideMessage
  | attributeNotStatic (name : String)
  | imageWithoutUrl
  | referenceWithoutPrompt
  | missingResolver
  | referenceNotFound (prompt : String)
  | referenceFailed (prompt reason : String)
  | circularReference (path : String)
  | unresolvedReference
  | notAFunction (callee : String)
  | callFailed (callee reason : String)
  | unsupportedOperator (operator : String)
  /-- The operand of `++` or `--` is no variable and no member. -/
  | invalidUpdateOperand (operator : String)
  /-- The operand of `++` or `--` holds no number. -/
  | updateOfNonNumber (operator kind : String)
  /-- The left-hand side of an assignment is no variable and no member. -/
  | invalidLeftHandSide
  | invalidAssignmentTarget
  | assignToArrayProperty (key : String)
  | arrayIndexOutOfRange (index : Nat)
  | assignToProperty (key kind : String)
  | readOfNullish (key kind : String)
  | writeOfNullish (key kind : String)
  | invalidObjectKey (kind : String)
  | invalidSpread (kind : String)
  | spreadOfFunction
  | invalidSearch (key kind : String)
deriving DecidableEq, Repr

/-- The stable name of a cause. -/
def Fault.code : Fault → String
  | .unexpectedEnd | .unexpectedEndBefore _ => "unexpected-eof"
  | .unexpectedToken _ | .unexpectedCharacter _ | .unexpectedInstead _ _ | .invalidEscape
  | .invalidHexadecimal => "unexpected-token"
  | .unterminatedString => "unterminated-string"
  | .unexpectedBlockClose _ => "unexpected-block-close"
  | .unexpectedElse | .unexpectedElseIf => "unexpected-else"
  | .unclosedBlock _ => "unclosed-block"
  | .unclosedTag _ => "unclosed-tag"
  | .mismatchedClosingTag _ _ | .strayClosingTag _ => "invalid-closing-tag"
  | .duplicateAttribute _ => "duplicate-attribute"
  | .unclosedComment => "unclosed-comment"
  | .configNotMapping | .invalidConfig _ => "invalid-config"
  | .undeclared _ => "variable-not-declared"
  | .alreadyDeclared _ => "variable-already-declared"
  | .messageInsideMessage => "message-tag-inside-message"
  | .contentInsideContent => "content-tag-inside-content"
  | .toolCallInsideContent => "tool-call-tag-inside-content"
  | .toolCallWithoutId => "tool-call-tag-without-id"
  | .toolCallWithoutName => "tool-call-without-name"
  | .invalidToolCallArguments => "invalid-tool-call-arguments"
  | .misplacedToolCall _ => "invalid-tool-call-placement"
  | .toolMessageWithoutId => "tool-message-without-id"
  | .messageWithoutRole => "message-tag-without-role"
  | .invalidRole _ => "invalid-message-role"
  | .unknownTag _ => "unknown-tag"
  | .stepInsideStep => "step-tag-inside-step"
  | .stepInsideMessage => "step-tag-inside-message"
  | .attributeNotStatic _ => "invalid-static-attribute"
  | .imageWithoutUrl => "image-tag-without-url"
  | .referenceWithoutPrompt => "reference-tag-without-prompt"
  | .missingResolver => "missing-reference-function"
  | .referenceNotFound _ => "reference-not-found"
  | .referenceFailed _ _ => "reference-error"
  | .circularReference _ => "circular-reference"
  | .unresolvedReference => "did-not-resolve-references"
  | .notAFunction _ => "not-a-function"
  | .callFailed _ _ => "function-call-error"
  | .unsupportedOperator _ => "unsupported-operator"
  | .invalidUpdateOperand _ | .updateOfNonNumber _ _ => "invalid-update"
  | .invalidLeftHandSide | .invalidAssignmentTarget | .assignToArrayProperty _
  | .arrayIndexOutOfRange _ | .assignToProperty _ _ => "invalid-assignment"
  | .readOfNullish _ _ | .writeOfNullish _ _ => "property-of-nullish"
  | .invalidObjectKey _ => "invalid-object-key"
  | .invalidSpread _ | .spreadOfFunction => "invalid-spread"
  | .invalidSearch _ _ => "invalid-operand"

/-- The cause lies in the raw text, before anything is evaluated. -/
def Fault.isSyntactic : Fault → Bool
  | .unexpectedEnd | .unexpectedEndBefore _ | .unexpectedToken _ | .unexpectedCharacter _
  | .unexpectedInstead _ _ | .invalidEscape | .invalidHexadecimal | .unterminatedString
  | .unexpectedBlockClose _ | .unexpectedElse | .unexpectedElseIf | .unclosedBlock _
  | .unclosedTag _ | .mismatchedClosingTag _ _ | .strayClosingTag _ | .duplicateAttribute _
  | .unclosedComment | .configNotMapping | .invalidConfig _ => true
  | _ => false

/-- A word between double braces, as a block delimiter is written. -/
def inBraces (word : String) : String :=
  "\x7b\x7b " ++ word ++ " \x7d\x7d"

/-- The wording of a cause. -/
def Fault.message : Fault → String
  | .unexpectedEnd => "Unexpected end of input"
  | .unexpectedEndBefore expected => "Unexpected end of input, expected " ++ expected
  | .unexpectedToken token => "Unexpected token `" ++ token ++ "`"
  | .unexpectedCharacter c => "Unexpected character `" ++ c.toString ++ "`"
  | .unexpectedInstead c expected => "Unexpected `" ++ c.toString ++ "`, expected " ++ expected
  | .invalidEscape => "Invalid escape sequence"
  | .invalidHexadecimal => "Invalid hexadecimal number"
  | .unterminatedString => "Unterminated string literal"
  | .unexpectedBlockClose kind => "Unexpected " ++ inBraces kind.closingWord
  | .unexpectedElse => "Unexpected " ++ inBraces "else"
  | .unexpectedElseIf => "Unexpected " ++ inBraces "else if"
  | .unclosedBlock kind => "Block was left open, expected " ++ inBraces kind.closingWord
  | .unclosedTag name => "<" ++ name ++ "> was left open"
  | .mismatchedClosingTag name opened =>
    "</" ++ name ++ "> does not match the open <" ++ opened ++ ">"
  | .strayClosingTag name => "</" ++ name ++ "> closes an element that is not open"
  | .duplicateAttribute name => "Attributes can only be defined once: `" ++ name ++ "`"
  | .unclosedComment => "Comment was left open, expected `*/`"
  | .configNotMapping => "Config must be a mapping of keys to values"
  | .invalidConfig none => "Invalid config"
  | .invalidConfig (some reason) => "Invalid config: " ++ reason
  | .undeclared name => "Variable '" ++ name ++ "' is not declared"
  | .alreadyDeclared name => "Variable '" ++ name ++ "' is already declared"
  | .messageInsideMessage => "Message tags cannot be inside of another message"
  | .contentInsideContent => "Content tags cannot be inside of another content tag"
  | .toolCallInsideContent => "Tool call tags cannot be inside of a content tag"
  | .toolCallWithoutId => "Tool call tags must have an 'id' attribute"
  | .toolCallWithoutName => "Tool call tags must have a 'name' attribute"
  | .invalidToolCallArguments => "Invalid tool call arguments"
  | .misplacedToolCall role =>
    "Tool calls are only allowed in assistant messages, not in " ++ role.name ++ " messages"
  | .toolMessageWithoutId => "Tool messages must have an 'id' attribute"
  | .messageWithoutRole => "Message tags must have a 'role' attribute"
  | .invalidRole name => "Invalid message role: '" ++ name ++ "'"
  | .unknownTag name => "Unknown tag: '" ++ name ++ "'"
  | .stepInsideStep => "Step tags cannot be inside of another step"
  | .stepInsideMessage => "Step tags cannot be inside of a message"
  | .attributeNotStatic name => "The '" ++ name ++ "' attribute must be a static value"
  | .imageWithoutUrl => "Image tags must contain an image url"
  | .referenceWithoutPrompt => "Reference tags must have a 'prompt' attribute"
  | .missingResolver => "A reference function is required to resolve <ref> tags"
  | .referenceNotFound prompt => "Prompt '" ++ prompt ++ "' not found"
  | .referenceFailed prompt reason => "Error resolving prompt '" ++ prompt ++ "': " ++ reason
  | .circularReference path => "Circular reference to prompt '" ++ path ++ "'"
  | .unresolvedReference => "References must be resolved before compiling the prompt"
  | .notAFunction callee => "Object '" ++ callee ++ "' is not a function"
  | .callFailed callee reason => "Error calling function '" ++ callee ++ "': " ++ reason
  | .unsupportedOperator operator => "Unsupported operator: " ++ operator
  | .invalidUpdateOperand operator => "Invalid operand for `" ++ operator ++ "`"
  | .updateOfNonNumber operator kind =>
    "Cannot use '" ++ operator ++ "' on a value of type " ++ kind
  | .invalidLeftHandSide => "Invalid left-hand side in assignment"
  | .invalidAssignmentTarget => "Invalid assignment target"
  | .assignToArrayProperty key => "Cannot assign property '" ++ key ++ "' of an array"
  | .arrayIndexOutOfRange index => "Array index " ++ Nat.repr index ++ " is out of range"
  | .assignToProperty key kind => "Cannot assign property '" ++ key ++ "' of a " ++ kind
  | .readOfNullish key kind => "Cannot read property '" ++ key ++ "' of " ++ kind
  | .writeOfNullish key kind => "Cannot set property '" ++ key ++ "' of " ++ kind
  | .invalidObjectKey kind => "A value of type " ++ kind ++ " cannot be used as a key"
  | .invalidSpread kind => "Cannot spread a value of type " ++ kind
  | .spreadOfFunction => "Cannot spread a function into an object"
  | .invalidSearch key kind =>
    "Cannot use 'in' operator to search for '" ++ key ++ "' in " ++ kind

/-- A fault at a span of a source text. -/
structure Problem where
  fault : Fault
  /-- The byte offset at which the span starts. -/
  start : Nat
  /-- The byte offset at which the span ends. -/
  stop : Nat
  /-- The text that the span belongs to, once it is known. -/
  source : Option String := none
  /-- The path of the referenced prompt that the problem was found in. -/
  prompt : Option String := none
deriving DecidableEq, Repr

/-- Attaches the text a problem belongs to, unless one is attached already. -/
def Problem.withSource (p : Problem) (source : String) : Problem :=
  { p with source := p.source.or (some source) }

/-- Records the prompt a problem was found in, unless a more deeply nested one is recorded. -/
def Problem.inPrompt (p : Problem) (path : String) : Problem :=
  { p with prompt := p.prompt.or (some path) }

/-- Where the problem starts. -/
def Problem.position? (p : Problem) : Option Text.Position :=
  p.source.map fun source => Text.positionAt source.toList p.start

/-- The line of the text that the problem starts in. -/
def Problem.line? (p : Problem) : Option String :=
  p.source.map fun source => String.ofList (Text.lineAt source.toList p.start)

/-- The problem that starts first; of several at the same place the first one. -/
def Problem.earliest? : List Problem → Option Problem
  | [] => none
  | p :: rest =>
    match Problem.earliest? rest with
    | none => some p
    | some q => some (if q.start < p.start then q else p)

theorem Problem.earliest?_eq_none {problems : List Problem} :
    Problem.earliest? problems = none ↔ problems = [] := by
  cases problems with
  | nil => simp [Problem.earliest?]
  | cons p rest =>
    unfold Problem.earliest?
    split <;> simp

section Results

variable {ε α : Type} {x : Except ε α}

/-- A result of which something was checked is not an error. -/
theorem exists_ok_of_any {p : α → Bool} (h : x.toOption.any p = true) :
    ∃ a, x = .ok a ∧ p a = true := by
  cases x with
  | error e => exact nomatch h
  | ok a => exact ⟨a, rfl, h⟩

theorem exists_ok_of_isOk (h : x.isOk = true) : ∃ a, x = .ok a := by
  cases x with
  | error e => exact nomatch h
  | ok a => exact ⟨a, rfl⟩

end Results

end PromptMarkup

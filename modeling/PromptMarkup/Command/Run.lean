/-
What the programs do.

* `runPrompts` — compiles and inspects prompts: the commands `compile`, `metadata`, `chain` and
  `parse`;
* `runOutliner` — prints the outline of a template or of an expression;
* `Reply` — what a program has written, and whether it is done or waits for a line;
* `neededFiles` — the files of the prompts that a prompt refers to;
* `namedFiles` — the files that a command line names itself.

Design notes: a program reads its files from a `Files` value and its input line by line from its
caller, so that a run is a value.  `Reply.feed` runs a program to its end on given lines.  The
programs read front matter as YAML.
-/
import PromptMarkup.Command.Arguments
import PromptMarkup.Conversation.Chain
import PromptMarkup.Expr.Reader
import PromptMarkup.Metadata
import PromptMarkup.Template.Outline
import PromptMarkup.Yaml.Document

namespace PromptMarkup

/-- A chain that is run for a file. -/
structure Session where
  file : String
  chain : Chain

/-- What a program has written since its last reply, and how it goes on. -/
inductive Reply
  /-- The program is done, with this exit status. -/
  | done (status : Nat) (out err : String)
  /-- The program waits for a line of its input. -/
  | waiting (out err : String) (session : Session)

/-- A program that is done, and all it has written. -/
structure Finished where
  status : Nat
  out : String
  err : String
deriving DecidableEq, Repr

/-- The program ends with an error. -/
def Reply.failed (message : String) : Reply :=
  .done 1 "" ("Error: " ++ message ++ "\n")

/-- The program ends without an error. -/
def Reply.printed (text : String) : Reply :=
  .done 0 (text ++ "\n") ""

/-- The end of a program, or its error. -/
def Reply.ofResult : Except String Reply → Reply
  | .ok reply => reply
  | .error message => .failed message

/-- A problem in words. -/
def Problem.describe (p : Problem) : String :=
  p.fault.message ++ " [" ++ p.fault.code ++ "]"

/-- A problem in words, behind the place it is at. -/
def Problem.describeAt (p : Problem) (origin : String) : String :=
  match p.position? with
  | some place =>
    origin ++ ":" ++ Nat.repr place.line ++ ":" ++ Nat.repr place.column ++ ": " ++ p.describe
  | none => origin ++ ": " ++ p.describe

/-- A problem in words.  One of a referenced prompt names the file of that prompt. -/
def located (file : String) (p : Problem) : String :=
  match p.prompt with
  | some path => p.describeAt (Path.file (Path.parent file) path)
  | none => p.describeAt file

/-- The functions of a program that offers none. -/
def noHost : Host :=
  fun name _ => .error name

/-- What the programs run walks with. -/
def programSetting : Setting :=
  ⟨noHost, .system⟩

/-- The text of a file. -/
def readText (files : Files) (file : String) : Except String String :=
  match files.read? file with
  | some text => .ok text
  | none => .error ("Error reading file '" ++ file ++ "'")

/-- The parameters in a JSON text. -/
def readParameters : Option String → Except String (Fields Value)
  | none => .ok []
  | some text =>
    match Json.read? text.toList with
    | none => .error "Invalid --params JSON"
    | some (.object fields) => .ok (Value.ofFields fields)
    | some _ => .error "--params must be a JSON object"

/-- The metadata of the prompt in a file; references are read from its directory. -/
def fileMetadata (files : Files) (file source : String) (schema : Option Json) :
    Except String Metadata :=
  let path := some (Path.stem file)
  let resolver := Resolver.ofFiles files (Path.parent file) path
  (readMetadata (.ofResolver (some resolver)) schema path source).mapError (located file)

/-- The command `compile`. -/
def compileFile (files : Files) (file : String) (parameters : Option String) :
    Except String Reply := do
  let source ← readText files file
  let parameters ← readParameters parameters
  let metadata ← fileMetadata files file source none
  let conversation ← (compile programSetting metadata.resolved parameters).mapError (located file)
  return .printed conversation.toJson.pretty

/-- A schema from a file. -/
def readSchema (files : Files) : Option String → Except String (Option Json)
  | none => .ok none
  | some file => do
    let text ← readText files file
    match Json.read? text.toList with
    | some schema => return some schema
    | none => throw ("Invalid schema in '" ++ file ++ "'")

/-- The command `metadata`. -/
def metadataFile (files : Files) (file : String) (schema : Option String) :
    Except String Reply := do
  let source ← readText files file
  let schema ← readSchema files schema
  let metadata ← fileMetadata files file source schema
  return .printed metadata.toJson.pretty

/-- A reason why a chain cannot be stepped, in words. -/
def chainErrorAt (file : String) : ChainError → String
  | .failed p => located file p
  | e => e.message

/-- Steps a chain. -/
def Session.advance (session : Session) (response : Option String) : Reply :=
  match session.chain.step response with
  | .error e => .failed (chainErrorAt session.file e)
  | .ok (result, chain) =>
    let out := result.conversation.toJson.pretty ++ "\n"
    if result.completed then .done 0 out ""
    else
      .waiting out "Waiting for the assistant response (one line):\n"
      { session with chain := chain }

/-- Goes on with the next line of the input, if there is one. -/
def Session.resume (session : Session) : Option String → Reply
  | some line => session.advance (some line)
  | none => .failed "stdin closed before the chain completed"

/-- The command `chain`, up to its first step. -/
def chainFile (files : Files) (file : String) (parameters : Option String) :
    Except String Reply := do
  let source ← readText files file
  let parameters ← readParameters parameters
  let metadata ← fileMetadata files file source none
  let chain ← (Chain.start programSetting metadata.resolved parameters).mapError (located file)
  return Session.advance ⟨file, chain⟩ none

/-- The command `parse`. -/
def outlineFile (files : Files) (file : String) : Except String Reply := do
  let source ← readText files file
  let template ← (Template.read source).mapError (located file)
  return .printed template.outline

/-- How the commands are used. -/
def promptsUsage : String :=
  "Compile and inspect PromptL prompts\n\n" ++
  "Usage: promptl compile <FILE> [--params <JSON>]\n" ++
  "       promptl metadata <FILE> [--schema <FILE>]\n" ++
  "       promptl chain <FILE> [--params <JSON>]\n" ++
  "       promptl parse <FILE>\n"

/-- Runs a command on prompts. -/
def runPrompts (files : Files) (args : List String) : Reply :=
  match Invocation.read args with
  | .error .misused => .done 2 "" promptsUsage
  | .error .helpWanted => .done 0 promptsUsage ""
  | .error .versionWanted => .printed "promptl 0.1.0"
  | .ok (.compile file parameters) => .ofResult (compileFile files file parameters)
  | .ok (.metadata file schema) => .ofResult (metadataFile files file schema)
  | .ok (.chain file parameters) => .ofResult (chainFile files file parameters)
  | .ok (.outline file) => .ofResult (outlineFile files file)

/-- How the outliner is used. -/
def outlinerUsage : String :=
  "Usage: promptl-parser <file.promptl>\n       promptl-parser --expr <expression>\n"

/-- A problem with the line it is in. -/
def Problem.report (p : Problem) (origin : String) : Reply :=
  let line := match p.line? with
    | some line => "    " ++ line ++ "\n"
    | none => ""
  .done 1 "" (p.describeAt origin ++ "\n" ++ line)

/-- Prints the outline of an expression. -/
def outlineText (text : String) : Reply :=
  match Expr.readWhole text.toList with
  | .ok e => .printed e.outline
  | .error p => (p.withSource text).report "<expr>"

/-- Prints the outline of the template in a file. -/
def outlineTemplate (files : Files) (file : String) : Reply :=
  match files.read? file with
  | none =>
    .done 1 "" ("Error reading file '" ++ file ++ "': No such file or directory (os error 2)\n")
  | some source =>
    match Template.read source with
    | .ok template => .printed template.outline
    | .error p => p.report file

/-- Runs the outliner. -/
def runOutliner (files : Files) : List String → Reply
  | ["--expr", text] => outlineText text
  | [file] =>
    if file.toList.head? == some '-' then .done 2 "" outlinerUsage
    else outlineTemplate files file
  | _ => .done 2 "" outlinerUsage

/-- Runs a program to its end on the lines of its input. -/
def Reply.feed : Reply → List String → Finished
  | .done status out err, _ => ⟨status, out, err⟩
  | .waiting out err session, [] =>
    match session.resume none with
    | .done status out' err' => ⟨status, out ++ out', err ++ err'⟩
    | .waiting out' err' _ => ⟨1, out ++ out', err ++ err'⟩
  | .waiting out err session, line :: rest =>
    let last := feed (session.resume (some line)) rest
    ⟨last.status, out ++ last.out, err ++ last.err⟩

/-! ### The files that a command needs -/

namespace Node

mutual

/-- The prompts that a node refers to. -/
def promptNames : Node → List String
  | fragment _ children => promptNamesAll children
  | ifBlock _ _ _ children otherwise => promptNamesAll children ++ promptNamesElse otherwise
  | forBlock _ _ children otherwise => promptNamesAll children ++ promptNamesElse otherwise
  | element _ name attributes children =>
    if TagKind.ofName name = .reference then
      ((Attribute.find? attributes "prompt").bind Attribute.staticText?).toList
    else promptNamesAll children
  | _ => []

/-- The prompts that nodes refer to. -/
def promptNamesAll : List Node → List String
  | [] => []
  | n :: rest => promptNames n ++ promptNamesAll rest

/-- The prompts that an `else` part refers to. -/
def promptNamesElse : Option Node → List String
  | none => []
  | some n => promptNames n

end

end Node

/-- The prompts that the text of the prompt at `origin` refers to: their paths, and their files
below a root directory. -/
def neededFiles (root : String) (origin text : String) : List (String × String) :=
  match Template.read text with
  | .error _ => []
  | .ok template =>
    template.root.promptNames.map fun name =>
      let path := Path.join name (some origin)
      (path, Path.file root path)

/-- The file of a prompt and further files that a command line names. -/
def namedFiles (args : List String) : Option (String × List String) :=
  match Invocation.read args with
  | .ok (.compile file _) | .ok (.chain file _) | .ok (.outline file) => some (file, [])
  | .ok (.metadata file schema) => some (file, schema.toList)
  | .error _ => none

end PromptMarkup

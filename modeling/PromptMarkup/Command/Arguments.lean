/-
The arguments of the command line.

* `Invocation.read` — what the arguments ask for;
* `readGiven` — the file and the option of a command, in any order.

A command takes one file and may take one option with a value, which has a short and a long form.
The value stands behind the option or in the same argument.  Behind `--` every argument is a file.

Design notes: this is the grammar of these commands and not of command lines in general.  Options
are not abbreviated, and every misuse is one and the same refusal.
-/
namespace PromptMarkup

/-- What a command line asks for. -/
inductive Invocation
  | compile (file : String) (parameters : Option String)
  | metadata (file : String) (schema : Option String)
  | chain (file : String) (parameters : Option String)
  | outline (file : String)
deriving DecidableEq, Repr

/-- Why a command line asks for nothing. -/
inductive Refusal
  /-- The arguments do not fit. -/
  | misused
  | helpWanted
  | versionWanted
deriving DecidableEq, Repr

/-- An option with a value. -/
structure OptionName where
  short : Char
  long : String
  /-- The value may be empty. -/
  mayBeEmpty : Bool
deriving DecidableEq, Repr

/-- What the arguments of a command have given so far. -/
structure Given where
  file : Option String
  value : Option String
deriving DecidableEq, Repr

/-- The argument looks like an option. -/
def isOption (arg : String) : Bool :=
  arg.toList.head? == some '-' && arg != "-"

/-- Takes an argument for the file. -/
def Given.withFile (given : Given) (arg : String) : Except Refusal Given :=
  if given.file.isSome || arg.isEmpty then .error .misused
  else .ok { given with file := some arg }

/-- Takes the value of the option. -/
def Given.withValue (given : Given) (option : OptionName) (value : String) :
    Except Refusal Given :=
  if given.value.isSome || (value.isEmpty && !option.mayBeEmpty) then .error .misused
  else .ok { given with value := some value }

/-- How an argument starts an option: with its value, or with the value still to come. -/
inductive OptionStart
  | complete (option : OptionName) (value : String)
  | open (option : OptionName)
  | refused (refusal : Refusal)

/-- The value that stands in the same argument, behind a long option. -/
def longValue? (name arg : List Char) : Option (List Char) :=
  if name.isPrefixOf arg then
    match arg.drop name.length with
    | '=' :: value => some value
    | _ => none
  else none

/-- How an argument that looks like an option starts one. -/
def OptionStart.read (option : Option OptionName) (arg : String) : OptionStart :=
  if arg == "--help" then .refused .helpWanted
  else
    match arg.toList, option with
    | '-' :: '-' :: rest, some option =>
      if rest == option.long.toList then .open option
      else
        match longValue? option.long.toList rest with
        | some value => .complete option (String.ofList value)
        | none => .refused .misused
    | '-' :: '-' :: _, none => .refused .misused
    | '-' :: c :: rest, option =>
      if c == 'h' then .refused .helpWanted
      else
        match option with
        | none => .refused .misused
        | some option =>
          if c != option.short then .refused .misused
          else
            match rest with
            | [] => .open option
            | '=' :: value => .complete option (String.ofList value)
            | value => .complete option (String.ofList value)
    | _, _ => .refused .misused

/-- Reads the arguments of a command; `plain` tells that they are behind `--`. -/
def readGiven (option : Option OptionName) (plain : Bool) (given : Given) :
    List String → Except Refusal Given
  | [] => .ok given
  | arg :: rest =>
    if !plain && arg == "--" then readGiven option true given rest
    else if plain || !isOption arg then
      (given.withFile arg).bind fun given => readGiven option plain given rest
    else
      match OptionStart.read option arg with
      | .refused refusal => .error refusal
      | .complete option' value =>
        (given.withValue option' value).bind fun given => readGiven option plain given rest
      | .open option' =>
        match rest with
        | [] => .error .misused
        | value :: rest =>
          if isOption value then .error .misused
          else
            (given.withValue option' value).bind fun given => readGiven option plain given rest

/-- The option that gives parameters. -/
def parametersOption : OptionName :=
  ⟨'p', "params", true⟩

/-- The option that gives the file of a schema. -/
def schemaOption : OptionName :=
  ⟨'s', "schema", false⟩

/-- Reads the arguments of a command that needs a file. -/
def readCommand (option : Option OptionName) (make : String → Option String → Invocation)
    (args : List String) : Except Refusal Invocation :=
  match readGiven option false ⟨none, none⟩ args with
  | .error refusal => .error refusal
  | .ok given =>
    match given.file with
    | none => .error .misused
    | some file => .ok (make file given.value)

/-- The names of the commands. -/
def commandNames : List String :=
  ["compile", "metadata", "chain", "parse", "help"]

/-- What a command line asks for. -/
def Invocation.read : List String → Except Refusal Invocation
  | [] => .error .misused
  | command :: args =>
    match command with
    | "compile" => readCommand (some parametersOption) .compile args
    | "metadata" => readCommand (some schemaOption) .metadata args
    | "chain" => readCommand (some parametersOption) .chain args
    | "parse" => readCommand none (fun file _ => .outline file) args
    | "help" =>
      if args.all commandNames.contains then .error .helpWanted else .error .misused
    | "--help" | "-h" => .error .helpWanted
    | "--version" | "-V" => .error .versionWanted
    | _ => .error .misused

end PromptMarkup

/-
Where referenced prompts come from.

A resolver finds the prompt that a path refers to, as seen from the prompt that refers to it.  It
answers with finitely many paths, which is why following references comes to an end:
`Resolver.paths` lists them.  What is said of every resolver is said of these; one that invents a
new path for every reference is none of them, and an analysis with it need not end.

* `Resolver.ofPrompts` — prompts held in memory, by their paths;
* `Resolver.ofFiles` — prompts in the files below a directory;
* `Resolver.failing` — a resolver that always fails.
-/
import PromptMarkup.Json
import PromptMarkup.Reference.Path

namespace PromptMarkup

/-- A prompt that was found: its own path, and its text. -/
structure Prompt where
  path : String
  text : String
deriving DecidableEq, Repr

/-- Why a resolver gave no answer.  That there is no such prompt is an answer. -/
inductive ResolveError
  /-- The path leads to the root itself. -/
  | pathToRoot (path : String)
  /-- The resolver gave this reason. -/
  | refused (reason : String)
deriving DecidableEq, Repr

/-- The wording of a reason. -/
def ResolveError.message : ResolveError → String
  | .pathToRoot path =>
    "Invalid reference path '" ++ path ++ "': path points at the prompt root"
  | .refused reason => reason

/-- A source of prompts, which knows finitely many paths and answers alike whenever it is asked. -/
structure Resolver where
  /-- The prompt that a path refers to, as seen from the prompt at `origin`. -/
  find : (path : String) → (origin : Option String) → Except ResolveError (Option Prompt)
  /-- The paths of all prompts that can be found. -/
  paths : List String
  /-- No other path is an answer, so there are finitely many. -/
  mem_paths : ∀ {path origin p}, find path origin = .ok (some p) → p.path ∈ paths

namespace Resolver

/-- Finds only prompts whose paths are listed. -/
def listed (paths : List String) :
    Except ResolveError (Option Prompt) → Except ResolveError (Option Prompt)
  | .ok (some p) => .ok (if p.path ∈ paths then some p else none)
  | answer => answer

theorem mem_of_listed {paths : List String} {answer : Except ResolveError (Option Prompt)}
    {p : Prompt} (h : listed paths answer = .ok (some p)) : p.path ∈ paths := by
  match answer, h with
  | .ok (some q), h =>
    simp only [listed, Except.ok.injEq] at h
    split at h
    · rename_i hq
      exact (Option.some.inj h) ▸ hq
    · cases h
  | .ok none, h => simp [listed] at h
  | .error _, h => simp [listed] at h

/-- A resolver that finds what `find` finds, as far as its path is listed. -/
def ofListed (paths : List String)
    (find : String → Option String → Except ResolveError (Option Prompt)) : Resolver where
  find path origin := listed paths (find path origin)
  paths := paths
  mem_paths := mem_of_listed

/-- The prompts of a list under their canonical paths; of two with the same path the last one. -/
def canonical (prompts : Fields String) : Fields String :=
  Fields.putAll [] (prompts.map fun (path, text) => (Path.join path none, text))

/-- Prompts held in memory. -/
def ofPrompts (prompts : Fields String) : Resolver :=
  let known := canonical prompts
  ofListed known.keys fun path origin =>
    let full := Path.join path origin
    .ok ((known.get? full).map fun text => ⟨full, text⟩)

/-- A resolver that always fails. -/
def failing (reason : String) : Resolver :=
  ofListed [] fun _ _ => .error (.refused reason)

end Resolver

/-- The texts of files, by their normal paths. -/
abbrev Files := Fields String

namespace Files

/-- The text of the file at a path. -/
def read? (files : Files) (path : String) : Option String :=
  files.get? (Path.normal path)

/-- The prompt that a path refers to, below a root directory. -/
def find (files : Files) (root path : String) (origin : Option String) :
    Except ResolveError (Option Prompt) :=
  let full := Path.join path origin
  if full.isEmpty then .error (.pathToRoot path)
  else .ok ((files.read? (Path.file root full)).map fun text => ⟨full, text⟩)

/-- The segments behind others that come first. -/
def behind? : List (List Char) → List (List Char) → Option (List (List Char))
  | [], segs => some segs
  | _ :: _, [] => none
  | s :: more, t :: rest => if s = t then behind? more rest else none

/-- The names in a path, from the root down. -/
def names (path : String) : List (List Char) :=
  (Path.segments (Path.normal path).toList).filter fun segment => !segment.isEmpty

/-- The paths under which a file can be found below a directory: with its extension, and without. -/
def spellings (directory file : String) : List (List (List Char)) :=
  match behind? (names directory) (names file) with
  | none => []
  | some segs =>
    match segs.getLast? with
    | none => []
    | some name => [segs, segs.dropLast ++ [Path.stemOf name]]

/-- The paths of the prompts that can be found below a root directory, starting from the prompt at
`origin`.  A path keeps as much of the directory of `origin` as the references leave of it, in the
spelling it has there. -/
def promptPaths (files : Files) (root : String) (origin : Option String) : List String :=
  let start := (origin.map Path.directoryOf).getD []
  (List.range (start.length + 1)).flatMap fun n =>
    let kept := start.take n
    let directory := Path.below root (String.ofList (Path.ofSegments kept))
    files.keys.flatMap fun file =>
      (spellings directory file).map fun segs => String.ofList (Path.ofSegments (kept ++ segs))

end Files

/-- Prompts in the files below a root directory, for references that start from the prompt at
`origin`. -/
def Resolver.ofFiles (files : Files) (root : String) (origin : Option String) : Resolver :=
  .ofListed (files.promptPaths root origin) (files.find root)

end PromptMarkup

/-
The programs.

Run under the name `promptl-parser`, the program prints outlines; under any other name it compiles
and inspects prompts.  All that is done here is to read files and lines and to write what the
program replies.
-/
import PromptMarkup.Command.Run

open PromptMarkup

/-- The text of a file, if it can be read. -/
def readFile? (file : String) : IO (Option String) := do
  try
    return some (← IO.FS.readFile file)
  catch _ =>
    return none

/-- Adds the text of a file, if it can be read. -/
def addFile (files : Files) (file : String) : IO Files := do
  match ← readFile? file with
  | some text => return files.put (Path.normal file) text
  | none => return files

/-- Adds the files of prompts below a root directory, and of the prompts that these need. -/
partial def addPrompts (root : String) (files : Files) : List (String × String) → IO Files
  | [] => return files
  | (path, file) :: rest => do
    if files.has (Path.normal file) then
      addPrompts root files rest
    else
      match ← readFile? file with
      | none => addPrompts root files rest
      | some text =>
        addPrompts root (files.put (Path.normal file) text) (neededFiles root path text ++ rest)

/-- The files that a command line needs. -/
def loadFiles (args : List String) : IO Files := do
  match namedFiles args with
  | none => return []
  | some (file, others) =>
    let files ← addPrompts (Path.parent file) [] [(Path.stem file, file)]
    others.foldlM addFile files

/-- A line without the characters that end it. -/
def withoutLineEnd (line : String) : String :=
  String.ofList ((Text.lines line.toList).head?.getD [])

/-- Writes what a program replies, and goes on until it is done. -/
partial def converse : Reply → IO UInt32
  | .done status out err => do
    IO.print out
    IO.eprint err
    return UInt32.ofNat status
  | .waiting out err session => do
    IO.print out
    IO.eprint err
    let line ← (← IO.getStdin).getLine
    converse (session.resume (if line.isEmpty then none else some (withoutLineEnd line)))

/-- Runs the program that the name of the executable stands for. -/
def main (args : List String) : IO UInt32 := do
  if (← IO.appPath).fileName == some "promptl-parser" then
    let files ← args.foldlM addFile []
    converse (runOutliner files args)
  else
    converse (runPrompts (← loadFiles args) args)

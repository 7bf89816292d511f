/-
Paths of prompts and of files.

A path is a text of segments with slashes in between.

* `Path.join` — a reference, joined to the directory of the prompt it stands in; a leading slash
  starts at the root;
* `Path.file` — the file that holds a prompt, below a root directory; a prompt without an extension
  has the extension of prompts;
* `Path.parent`, `Path.stem` — the directory of a file, and its name without extension.
-/
namespace PromptMarkup.Path

/-- The segments between the slashes of a path. -/
def segments : List Char → List (List Char)
  | [] => [[]]
  | c :: rest =>
    if c == '/' then [] :: segments rest
    else
      match segments rest with
      | [] => [[c]]
      | segment :: more => (c :: segment) :: more

/-- Segments with slashes in between. -/
def ofSegments (segs : List (List Char)) : List Char :=
  ['/'].intercalate segs

/-- Follows a segment from a directory: an empty segment and `.` stay, `..` goes up, a name goes
down. -/
def follow (directory : List (List Char)) (segment : List Char) : List (List Char) :=
  if segment == [] || segment == ['.'] then directory
  else if segment == ['.', '.'] then directory.dropLast
  else directory ++ [segment]

/-- The directory of the prompt at a path. -/
def directoryOf (origin : String) : List (List Char) :=
  ((segments origin.toList).filter fun segment => !segment.isEmpty).dropLast

/-- The directory that a path starts from. -/
def startOf (path : String) (origin : Option String) : List (List Char) :=
  if path.toList.head? == some '/' then []
  else (origin.map directoryOf).getD []

/-- A path as seen from the prompt at `origin`, from the root if there is none. -/
def join (path : String) (origin : Option String) : String :=
  String.ofList (ofSegments ((segments path.toList).foldl follow (startOf path origin)))

/-- A segment that does not change the place of a path. -/
def isIdle (segment : List Char) : Bool :=
  segment == [] || segment == ['.']

/-- The segments up to the last one that is not idle; the first one stays. -/
def trimIdle : List (List Char) → List (List Char)
  | [] => []
  | first :: rest => first :: (rest.reverse.dropWhile isIdle).reverse

/-- The last segment, if it names something. -/
def name? (segs : List (List Char)) : Option (List Char) :=
  match segs.getLast? with
  | some segment => if isIdle segment || segment == ['.', '.'] then none else some segment
  | none => none

/-- A name has an extension if there is a point behind its first character. -/
def hasExtension (name : List Char) : Bool :=
  name.tail.contains '.'

/-- The extension of files that hold prompts. -/
def promptExtension : List Char :=
  ".promptl".toList

/-- A path below a root directory.  A path that starts with a slash stands alone. -/
def below (root path : String) : String :=
  if path.toList.head? == some '/' then path
  else if root.isEmpty || root.toList.getLast? == some '/' then root ++ path
  else root ++ "/" ++ path

/-- The file of a prompt, below a root directory. -/
def file (root path : String) : String :=
  let full := below root path
  let segs := trimIdle (segments full.toList)
  match name? segs with
  | none => full
  | some name =>
    if hasExtension name then full
    else String.ofList (ofSegments segs ++ promptExtension)

/-- A name without its extension. -/
def stemOf (name : List Char) : List Char :=
  if hasExtension name then ((name.reverse.dropWhile (· != '.')).drop 1).reverse else name

/-- The name of a file without its extension, empty if the path names no file. -/
def stem (path : String) : String :=
  String.ofList (((name? (trimIdle (segments path.toList))).map stemOf).getD [])

/-- The directory of a file. -/
def parent (path : String) : String :=
  match (trimIdle (segments path.toList)).dropLast with
  | [] => ""
  | [[]] => "/"
  | segs => String.ofList (ofSegments (trimIdle segs))

/-- A path without idle segments, every `..` taken together with the segment in front of it. -/
def normal (path : String) : String :=
  let body := String.ofList (ofSegments ((segments path.toList).foldl follow []))
  if path.toList.head? == some '/' then "/" ++ body else body

end PromptMarkup.Path

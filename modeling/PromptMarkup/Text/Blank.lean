/-
White space: texts with their blank ends or their common indentation removed.

A text is handled as the list of its characters.  `isBlank` is the Unicode property `White_Space`;
`trimStart`, `trimEnd` and `trim` remove blank characters from the ends of a text, and
`removeCommonIndent` takes the indentation that all lines share off every line as well.  Blank lines
do not count for it.

* `trimStart_append_takeWhile` — trimming at the start only takes off a blank beginning;
* `lines` — the lines of a text, without their line breaks; a carriage return in front of a line
  feed belongs to the line break;
* `commonIndent` — the smallest indentation, in bytes.

Design notes: the indentation is counted in bytes of the UTF-8 form.  Where that many bytes are not
whole characters of a line, the line loses all white space at its start.
-/
import PromptMarkup.Text.Position

namespace PromptMarkup.Text

/-- The property `White_Space`. -/
def isBlank (c : Char) : Bool :=
  let n := c.toNat
  (9 ≤ n && n ≤ 13) || n == 0x20 || n == 0x85 || n == 0xA0 || n == 0x1680 ||
    (0x2000 ≤ n && n ≤ 0x200A) || n == 0x2028 || n == 0x2029 || n == 0x202F || n == 0x205F ||
    n == 0x3000

/-- A text without the blank characters at its start. -/
def trimStart (s : List Char) : List Char :=
  s.dropWhile isBlank

/-- A text without the blank characters at its end. -/
def trimEnd (s : List Char) : List Char :=
  (s.reverse.dropWhile isBlank).reverse

/-- A text without the blank characters at both ends. -/
def trim (s : List Char) : List Char :=
  trimEnd (trimStart s)

/-- Every character of the text is blank. -/
def allBlank (s : List Char) : Bool :=
  s.all isBlank

theorem trimStart_append_takeWhile (s : List Char) :
    s.takeWhile isBlank ++ trimStart s = s :=
  List.takeWhile_append_dropWhile

/-! ### Common indentation -/

/-- The lines of a text.  A line break at the end of the text starts no further line. -/
def lines : List Char → List (List Char)
  | [] => []
  | c :: rest =>
    if c == '\n' then [] :: lines rest
    else if c == '\r' && rest.head? == some '\n' then lines rest
    else
      match lines rest with
      | [] => [[c]]
      | line :: more => (c :: line) :: more

/-- The length in bytes of the white space at the start of a line. -/
def indentOf (line : List Char) : Nat :=
  byteLength (line.takeWhile isBlank)

/-- The smallest indentation of the lines that are not blank. -/
def commonIndent (ls : List (List Char)) : Nat :=
  (((ls.filter fun line => !allBlank line).map indentOf).min?).getD 0

/-- A line without its first `n` bytes, which are white space. -/
def dropIndent (n : Nat) (line : List Char) : List Char :=
  (dropBytes? n line).getD (trimStart line)

/-- A text without the indentation that its lines share, and without its blank ends. -/
def removeCommonIndent (s : List Char) : List Char :=
  let ls := lines s
  trim (['\n'].intercalate (ls.map (dropIndent (commonIndent ls))))

end PromptMarkup.Text

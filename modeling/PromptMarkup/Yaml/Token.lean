/-
Tokens of a YAML document.

Structure that a document shows by indentation is made explicit: `Scanner.tokens?` gives a flat list
in which block collections have start and end marks, and in which the key of a mapping is announced
before it, even though a key is recognised only by the `:` behind it.

Design notes: a scalar or collection that may turn out to be a key is remembered with its place
(`PossibleKey`).  It has to end on its line, within 1024 characters; where the indentation shows
that it must be a key, it is an error if no `:` follows.  Anchors, aliases, tags and directives are
refused.  Every step takes at least one character, so the length of the text bounds the scan.
-/
import PromptMarkup.Token.Lexer

namespace PromptMarkup.Yaml

/-- A token. -/
inductive Tok
  | blockSequenceStart
  | blockMappingStart
  | blockEnd
  | flowSequenceStart
  | flowSequenceEnd
  | flowMappingStart
  | flowMappingEnd
  | blockEntry
  | flowEntry
  | key
  | value
  /-- A scalar; `plain` tells that it stands without quotes and block marks. -/
  | scalar (plain : Bool) (text : List Char)
  | documentStart
  | documentEnd
deriving DecidableEq, Repr

/-- A character that ends a line. -/
def isBreak (c : Char) : Bool :=
  c == '\n' || c == '\r' || c.toNat == 0x85 || c.toNat == 0x2028 || c.toNat == 0x2029

/-- A space or a tab. -/
def isBlank (c : Char) : Bool :=
  c == ' ' || c == '\t'

/-- A blank character, a line break or the end of the text is in front of a text. -/
def blankOrEnd : List Char → Bool
  | [] => true
  | c :: _ => isBlank c || isBreak c

/-- A character that may stand in a document at all. -/
def isAllowed (c : Char) : Bool :=
  let n := c.toNat
  n == 0x09 || n == 0x0A || n == 0x0D || (0x20 ≤ n && n ≤ 0x7E) || n == 0x85 ||
    (0xA0 ≤ n && n ≤ 0xD7FF) || (0xE000 ≤ n && n ≤ 0xFFFD && n != 0xFEFF) || 0x10000 ≤ n

/-- What is left of a document, with the line, the column and the number of the next character. -/
structure Place where
  rest : List Char
  line : Nat
  column : Nat
  index : Nat
deriving Repr

/-- Takes one character that is not a line break. -/
def Place.skip (p : Place) : Place :=
  { p with rest := p.rest.drop 1, column := p.column + 1, index := p.index + 1 }

/-- Takes the given number of characters. -/
def Place.skipMany (n : Nat) (p : Place) : Place :=
  { p with rest := p.rest.drop n, column := p.column + n, index := p.index + n }

/-- Takes a line break, and gives the character it counts as. -/
def Place.takeBreak (p : Place) : List Char × Place :=
  match p.rest with
  | '\r' :: '\n' :: rest => (['\n'], ⟨rest, p.line + 1, 0, p.index + 2⟩)
  | c :: rest =>
    let read := if c.toNat == 0x2028 || c.toNat == 0x2029 then c else '\n'
    ([read], ⟨rest, p.line + 1, 0, p.index + 1⟩)
  | [] => ([], p)

/-- Takes the characters for which `test` holds; none of them is a line break. -/
def Place.skipWhile (test : Char → Bool) (p : Place) : Place :=
  p.skipMany (p.rest.takeWhile test).length

/-- The line starts with `---` or `...` and a blank. -/
def Place.atDocumentMark (p : Place) : Bool :=
  p.column == 0 &&
    match p.rest with
    | '-' :: '-' :: '-' :: rest => blankOrEnd rest
    | '.' :: '.' :: '.' :: rest => blankOrEnd rest
    | _ => false

/-- A scalar under construction: its text so far, last character first, the blanks read since, and
the line breaks read since, the first of them apart. -/
structure Draft where
  text : List Char
  blanks : List Char
  firstBreak : List Char
  otherBreaks : List Char
  /-- A line break has been read since the last visible character. -/
  broken : Bool

/-- Nothing read yet. -/
def Draft.empty : Draft :=
  ⟨[], [], [], [], false⟩

/-- Settles the blanks and line breaks in front of more text: a single line break becomes a space,
of several the first is dropped. -/
def Draft.settle (d : Draft) : Draft :=
  let between :=
    if d.broken then
      if d.firstBreak.head? == some '\n' then
        if d.otherBreaks.isEmpty then [' '] else d.otherBreaks
      else d.firstBreak ++ d.otherBreaks
    else d.blanks
  { text := between.reverse ++ d.text, blanks := [], firstBreak := [], otherBreaks := [],
    broken := false }

/-- Appends characters. -/
def Draft.append (d : Draft) (s : List Char) : Draft :=
  { d with text := s.reverse ++ d.text }

/-- Takes blanks and line breaks into a draft.  With `minimum`, a tab left of that column is
refused. -/
def takeBlanks? (minimum : Option Nat) : (bound : Nat) → Place → Draft → Option (Place × Draft)
  | 0, p, d => some (p, d)
  | bound + 1, p, d =>
    match p.rest with
    | [] => some (p, d)
    | c :: _ =>
      if isBlank c then
        if d.broken then
          if c == '\t' && minimum.any (p.column < ·) then none
          else takeBlanks? minimum bound p.skip d
        else takeBlanks? minimum bound p.skip { d with blanks := d.blanks ++ [c] }
      else if isBreak c then
        let (read, p) := p.takeBreak
        if d.broken then
          takeBlanks? minimum bound p { d with otherBreaks := d.otherBreaks ++ read }
        else
          takeBlanks? minimum bound p { d with blanks := [], firstBreak := read, broken := true }
      else some (p, d)

/-- The characters of a plain scalar up to the next blank or indicator; `none` if a `:` stands where
it can neither end the scalar nor belong to it. -/
def plainWord? (inFlow : Bool) : List Char → Option (List Char)
  | [] => some []
  | c :: rest =>
    if isBlank c || isBreak c then some []
    else if c == ':' then
      if inFlow && rest.head?.any (fun d => [',', '?', '[', ']', '\x7b', '\x7d'].contains d) then
        none
      else if blankOrEnd rest then some []
      else (plainWord? inFlow rest).map (c :: ·)
    else if inFlow && [',', '[', ']', '\x7b', '\x7d'].contains c then some []
    else (plainWord? inFlow rest).map (c :: ·)

/-- A plain scalar.  `minimum` is the column that its further lines must reach outside of flow
collections. -/
def plain? (inFlow : Bool) (minimum : Nat) : (bound : Nat) → Place → Draft →
    Option (Place × Draft)
  | 0, _, _ => none
  | bound + 1, p, d =>
    if p.atDocumentMark || p.rest.head? == some '#' then some (p, d)
    else
      (plainWord? inFlow p.rest).bind fun word =>
        let d := if word.isEmpty then d else d.settle.append word
        let p := p.skipMany word.length
        match p.rest with
        | [] => some (p, d)
        | c :: _ =>
          if !(isBlank c || isBreak c) then some (p, d)
          else
            (takeBlanks? (some minimum) (p.rest.length + 1) p d).bind fun (p, d) =>
              if !inFlow && p.column < minimum then some (p, d)
              else plain? inFlow minimum bound p d

/-- What an escape in double quotes stands for, if it is a single character. -/
def escapeOf? (c : Char) : Option Char :=
  match c with
  | '0' => some '\x00'
  | 'a' => some '\x07'
  | 'b' => some '\x08'
  | 't' => some '\t'
  | '\t' => some '\t'
  | 'n' => some '\n'
  | 'v' => some '\x0b'
  | 'f' => some '\x0c'
  | 'r' => some '\r'
  | 'e' => some '\x1b'
  | ' ' => some ' '
  | '"' => some '"'
  | '/' => some '/'
  | '\\' => some '\\'
  | 'N' => some '\u0085'
  | '_' => some '\u00a0'
  | 'L' => some '\u2028'
  | 'P' => some '\u2029'
  | _ => none

/-- The number of hexadecimal digits that an escape in double quotes takes. -/
def escapeDigits? (c : Char) : Option Nat :=
  match c with
  | 'x' => some 2
  | 'u' => some 4
  | 'U' => some 8
  | _ => none

/-- A quoted scalar, after its opening quote. -/
def quoted? (single : Bool) : (bound : Nat) → Place → Draft → Option (Place × Draft)
  | 0, _, _ => none
  | bound + 1, p, d =>
    match p.rest with
    | [] => none
    | c :: rest =>
      if p.atDocumentMark then none
      else if isBlank c || isBreak c then
        (takeBlanks? none (p.rest.length + 1) p d).bind fun (p, d) =>
          quoted? single bound p d.settle
      else if c == (if single then '\'' else '"') then
        if single && rest.head? == some '\'' then
          quoted? single bound (p.skipMany 2) (d.append ['\''])
        else some (p.skip, d)
      else if c == '\\' && !single then
        match rest with
        | [] => none
        | e :: more =>
          if isBreak e then
            let (_, p) := p.skip.takeBreak
            (takeBlanks? none (p.rest.length + 1) p { d with broken := true }).bind
              fun (p, d) => quoted? single bound p d.settle
          else
            match escapeOf? e with
            | some x => quoted? single bound (p.skipMany 2) (d.append [x])
            | none =>
              match escapeDigits? e with
              | none => none
              | some n =>
                let digits := more.take n
                if digits.length == n && digits.all isHexDigit then
                  match charOfHex? digits with
                  | some x => quoted? single bound (p.skipMany (2 + n)) (d.append [x])
                  | none => none
                else none
      else quoted? single bound p.skip (d.append [c])

/-- The line breaks in front of a line of a block scalar, and its indentation, which `indent` gives
if it is known (zero if it is not). -/
def blockBreaks? (indent : Nat) : (bound : Nat) → Place → (deepest : Nat) → List Char →
    Option (Place × Nat × List Char)
  | 0, _, _, _ => none
  | bound + 1, p, deepest, breaks =>
    let room := (p.rest.takeWhile (· == ' ')).length
    let p := p.skipMany (if indent == 0 then room else min room (indent - p.column))
    let deepest := max deepest p.column
    match p.rest with
    | [] => some (p, deepest, breaks)
    | c :: _ =>
      if c == '\t' && (indent == 0 || p.column < indent) then none
      else if isBreak c then
        let (read, p) := p.takeBreak
        blockBreaks? indent bound p deepest (breaks ++ read)
      else some (p, deepest, breaks)

/-- The lines of a block scalar whose indentation is `indent`.  `text` holds what was read before,
`lineBreak` the break behind the last line, `breaks` the empty lines since, and `wasBlank` tells
whether the last line started with a blank. -/
def blockLines? (folded : Bool) (indent : Nat) : (bound : Nat) → Place →
    (text lineBreak breaks : List Char) → (wasBlank : Bool) →
    Option (Place × List Char × List Char × List Char)
  | 0, _, _, _, _, _ => none
  | bound + 1, p, text, lineBreak, breaks, wasBlank =>
    match p.rest with
    | [] => some (p, text, lineBreak, breaks)
    | c :: _ =>
      if p.column != indent then some (p, text, lineBreak, breaks)
      else
        let blank := isBlank c
        let joint :=
          if folded && lineBreak.head? == some '\n' && !wasBlank && !blank then
            if breaks.isEmpty then [' '] else []
          else lineBreak
        let line := p.rest.takeWhile fun x => !isBreak x
        let (lineBreak, p) := (p.skipMany line.length).takeBreak
        (blockBreaks? indent (p.rest.length + 1) p 0 []).bind fun (p, _, next) =>
          blockLines? folded indent bound p (text ++ joint ++ breaks ++ line) lineBreak next blank

/-- The marks behind `|` or `>`: the chomping (`-`, `+` or none) and the indentation (zero if it is
not given), in either order. -/
def blockHeader? (p : Place) : Option (Option Char × Nat × Place) :=
  let chomping (p : Place) : Option Char × Place :=
    match p.rest with
    | '-' :: _ => (some '-', p.skip)
    | '+' :: _ => (some '+', p.skip)
    | _ => (none, p)
  let increment? (p : Place) : Option (Nat × Place) :=
    match p.rest with
    | c :: _ =>
      if c == '0' then none
      else if c.isDigit then some (c.toNat - '0'.toNat, p.skip)
      else some (0, p)
    | [] => some (0, p)
  let (first, p) := chomping p
  (increment? p).map fun (n, p) =>
    if first.isSome || n == 0 then (first, n, p)
    else
      let (second, p) := chomping p
      (second, n, p)

/-- A block scalar, after its `|` or `>`, inside of a collection indented to `outer`. -/
def block? (folded : Bool) (outer : Int) (p : Place) : Option (Place × List Char) := do
  let (chomping, increment, p) ← blockHeader? p
  let p := p.skipWhile isBlank
  let p := if p.rest.head? == some '#' then p.skipWhile (fun c => !isBreak c) else p
  guard (blankOrEnd p.rest)
  let p := p.takeBreak.2
  let given := if increment == 0 then 0 else (max outer 0).toNat + increment
  let (p, deepest, breaks) ← blockBreaks? given (p.rest.length + 1) p 0 []
  let indent := if given == 0 then max (max deepest (outer + 1).toNat) 1 else given
  let (p, text, lineBreak, breaks) ← blockLines? folded indent (p.rest.length + 1) p [] []
    breaks false
  let tail := if chomping == some '-' then [] else lineBreak
  let more := if chomping == some '+' then breaks else []
  return (p, text ++ tail ++ more)

/-- Something that may be the key of a mapping: whether it has to be one, how many tokens stand
before it, and where it starts. -/
structure PossibleKey where
  required : Bool
  tokensBefore : Nat
  line : Nat
  column : Nat
  index : Nat

/-- The state of a scan. -/
structure Scanner where
  place : Place
  /-- The possible key of the innermost flow collection, and those around it; the last entry belongs
  to the block level. -/
  keys : List (Option PossibleKey)
  /-- The column of the innermost block collection, negative outside of all. -/
  indent : Int
  /-- The columns of the block collections around it. -/
  outer : List Int
  /-- A key may start here. -/
  keyAllowed : Bool
  /-- The tokens read so far, the last one first. -/
  read : List Tok

namespace Scanner

/-- The scan at the start of a document. -/
def start (s : List Char) : Scanner :=
  { place := ⟨s, 0, 0, 0⟩, keys := [none], indent := -1, outer := [], keyAllowed := true,
    read := [] }

/-- The scan is inside of a flow collection. -/
def inFlow (s : Scanner) : Bool :=
  1 < s.keys.length

/-- Adds a token. -/
def push (s : Scanner) (t : Tok) : Scanner :=
  { s with read := t :: s.read }

/-- Adds a token behind the first `n`. -/
def insert (s : Scanner) (n : Nat) (t : Tok) : Scanner :=
  let later := s.read.length - n
  { s with read := s.read.take later ++ t :: s.read.drop later }

/-- Gives up the possible key of the innermost collection; refused if it has to be a key. -/
def dropKey? (s : Scanner) : Option Scanner :=
  match s.keys with
  | some k :: rest => if k.required then none else some { s with keys := none :: rest }
  | _ => some s

/-- Remembers that a key may start here. -/
def saveKey? (s : Scanner) : Option Scanner :=
  if s.keyAllowed then
    s.dropKey?.map fun s =>
      let p := s.place
      let key : PossibleKey :=
        ⟨!s.inFlow && s.indent == p.column, s.read.length, p.line, p.column, p.index⟩
      { s with keys := some key :: s.keys.tail }
  else some s

/-- Opens a block collection at a column that is deeper than the open ones. -/
def roll (s : Scanner) (column : Nat) (n : Nat) (t : Tok) : Scanner :=
  if !s.inFlow && s.indent < column then
    { s.insert n t with indent := column, outer := s.indent :: s.outer }
  else s

/-- Closes the block collections that are deeper than a column. -/
def unrollTo (column : Int) : (outer : List Int) → Scanner → Scanner
  | [], s => s
  | o :: rest, s =>
    if column < s.indent then
      unrollTo column rest { s.push .blockEnd with indent := o, outer := rest }
    else s

/-- Closes the block collections that are deeper than a column. -/
def unroll (s : Scanner) (column : Int) : Scanner :=
  if s.inFlow then s else unrollTo column s.outer s

/-- Moves over blanks, comments and line breaks. -/
def skipToToken : (bound : Nat) → Scanner → Scanner
  | 0, s => s
  | bound + 1, s =>
    let p := s.place.skipWhile fun c =>
      c == ' ' || (c == '\t' && (s.inFlow || !s.keyAllowed))
    let p := if p.rest.head? == some '#' then p.skipWhile (fun c => !isBreak c) else p
    if p.rest.head?.any isBreak then
      skipToToken bound
        { s with place := p.takeBreak.2, keyAllowed := s.keyAllowed || !s.inFlow }
    else { s with place := p }

/-- A mark of one character that leaves no possible key behind. -/
def mark? (s : Scanner) (t : Tok) (keyAllowed : Bool) : Option Scanner :=
  s.dropKey?.map fun s => { s.push t with place := s.place.skip, keyAllowed := keyAllowed }

/-- `[` or `{`. -/
def openFlow? (s : Scanner) (t : Tok) : Option Scanner :=
  s.saveKey?.map fun s =>
    { s.push t with place := s.place.skip, keys := none :: s.keys, keyAllowed := true }

/-- `]` or `}`. -/
def closeFlow? (s : Scanner) (t : Tok) : Option Scanner :=
  s.dropKey?.map fun s =>
    { s.push t with
      place := s.place.skip
      keys := if s.inFlow then s.keys.tail else s.keys
      keyAllowed := false }

/-- `-` in front of an item of a block sequence. -/
def blockEntry? (s : Scanner) : Option Scanner :=
  if s.inFlow then s.mark? .blockEntry true
  else if !s.keyAllowed then none
  else (s.roll s.place.column s.read.length .blockSequenceStart).mark? .blockEntry true

/-- `?` in front of a key. -/
def key? (s : Scanner) : Option Scanner :=
  if s.inFlow then s.mark? .key false
  else if !s.keyAllowed then none
  else (s.roll s.place.column s.read.length .blockMappingStart).mark? .key true

/-- `:` in front of a value: what was remembered as a possible key becomes one. -/
def value? (s : Scanner) : Option Scanner :=
  let valueMark (s : Scanner) (keyAllowed : Bool) : Scanner :=
    { s.push .value with place := s.place.skip, keyAllowed := keyAllowed }
  let withoutKey : Option Scanner :=
    if s.inFlow then some (valueMark s false)
    else if !s.keyAllowed then none
    else some (valueMark (s.roll s.place.column s.read.length .blockMappingStart) true)
  match s.keys with
  | some k :: rest =>
    if k.line < s.place.line || k.index + 1024 < s.place.index then
      if k.required then none else withoutKey
    else
      let s := { s with keys := none :: rest }
      let s := (s.insert k.tokensBefore .key).roll k.column k.tokensBefore .blockMappingStart
      some (valueMark s false)
  | _ => withoutKey

/-- `---` or `...` at the start of a line. -/
def documentMark? (s : Scanner) (t : Tok) : Option Scanner :=
  (s.unroll (-1)).dropKey?.map fun s =>
    { s.push t with place := s.place.skipMany 3, keyAllowed := false }

/-- A scalar in quotes. -/
def quotedScalar? (s : Scanner) (single : Bool) : Option Scanner := do
  let s ← s.saveKey?
  let (p, d) ← quoted? single (s.place.rest.length + 1) s.place.skip .empty
  return { s.push (.scalar false d.text.reverse) with place := p, keyAllowed := false }

/-- A plain scalar. -/
def plainScalar? (s : Scanner) : Option Scanner := do
  let s ← s.saveKey?
  let minimum := (s.indent + 1).toNat
  let (p, d) ← plain? s.inFlow minimum (s.place.rest.length + 1) s.place .empty
  return { s.push (.scalar true d.text.reverse) with place := p, keyAllowed := d.broken }

/-- A literal or folded block scalar. -/
def blockScalar? (s : Scanner) (folded : Bool) : Option Scanner := do
  let s ← s.dropKey?
  let (p, text) ← block? folded s.indent s.place.skip
  return { s.push (.scalar false text) with place := p, keyAllowed := true }

/-- A character that cannot start a plain scalar by itself. -/
def isIndicator (c : Char) : Bool :=
  isBlank c ||
  ['-', '?', ':', ',', '[', ']', '\x7b', '\x7d', '#', '&', '*', '!', '|', '>', '\'', '"', '%', '@',
    '`'].contains c

/-- Reads the token whose first character is `c`, followed by `rest`. -/
def token? (s : Scanner) (c : Char) (rest : List Char) : Option Scanner :=
  if s.place.column == 0 && c == '%' then none
  else if s.place.atDocumentMark then
    s.documentMark? (if c == '-' then .documentStart else .documentEnd)
  else if c == '[' then s.openFlow? .flowSequenceStart
  else if c == '\x7b' then s.openFlow? .flowMappingStart
  else if c == ']' then s.closeFlow? .flowSequenceEnd
  else if c == '\x7d' then s.closeFlow? .flowMappingEnd
  else if c == ',' then s.mark? .flowEntry true
  else if c == '-' && blankOrEnd rest then s.blockEntry?
  else if c == '?' && (s.inFlow || blankOrEnd rest) then s.key?
  else if c == ':' && (s.inFlow || blankOrEnd rest) then s.value?
  else if c == '|' && !s.inFlow then s.blockScalar? false
  else if c == '>' && !s.inFlow then s.blockScalar? true
  else if c == '\'' then s.quotedScalar? true
  else if c == '"' then s.quotedScalar? false
  else if !isIndicator c || (c == '-' && !rest.head?.any isBlank) ||
      (!s.inFlow && (c == '?' || c == ':') && !blankOrEnd rest) then s.plainScalar?
  else none

/-- The tokens from here to the end of the document. -/
def finish? : (bound : Nat) → Scanner → Option (List Tok)
  | 0, _ => none
  | bound + 1, s =>
    let s := skipToToken (s.place.rest.length + 1) s
    let s := s.unroll s.place.column
    match s.place.rest with
    | [] => ((s.unroll (-1)).dropKey?).map fun s => s.read.reverse
    | c :: rest => (s.token? c rest).bind (finish? bound)

/-- The tokens of a document. -/
def tokens? (s : List Char) : Option (List Tok) :=
  if s.all isAllowed then finish? (s.length + 2) (start s) else none

end Scanner

end PromptMarkup.Yaml

/-
Reading tokens from a text.

* `Lexeme.next?` — skips white space and reads one token; `none` at the end of the text;
* `Lexeme.run` — the tokens of an embedded expression: reading goes on up to the first closing
  bracket that was not opened by these tokens, the end of the text, or the first character that
  starts no token.

A number in hexadecimal form has at most 64 bits.  A decimal number may carry `_` among the digits
in front of its point.  A string may stand in single or double quotes; the escapes `\x` and `\u`
take exactly two and four hexadecimal digits, and a backslash at the end of a line joins it with the
next.  The mark `?.` is not read where a digit follows, so that `a?.5:b` is a conditional.
-/
import PromptMarkup.Number.Decimal
import PromptMarkup.Problem
import PromptMarkup.Text.Cursor
import PromptMarkup.Token

namespace PromptMarkup

open Text (Cursor)

namespace Lexeme

/-- The exponent at the front of a text: `e`, an optional sign and at least one digit.  Gives its
value and its length, zero if there is none. -/
def exponentAt : List Char → Int × Nat
  | e :: rest =>
    if e == 'e' || e == 'E' then
      let (negative, digits) := Number.takeSign rest
      let signLength := rest.length - digits.length
      let digits := digits.takeWhile Char.isDigit
      if digits.isEmpty then (0, 0)
      else
        let value := Number.digitsValue digits
        (if negative then -(value : Int) else value, 1 + signLength + digits.length)
    else (0, 0)
  | [] => (0, 0)

/-- The decimal number at the front of a text that starts with a digit, or with a point and a digit:
its value and its length. -/
def decimalAt (s : List Char) : Float × Nat :=
  let whole := s.takeWhile fun c => c.isDigit || c == '_'
  let rest := s.drop whole.length
  let (fraction, pointLength) :=
    match rest with
    | '.' :: tail => (tail.takeWhile Char.isDigit, 1)
    | _ => ([], 0)
  let (e, exponentLength) := exponentAt (rest.drop (pointLength + fraction.length))
  let digits := whole.filter (· != '_') ++ fraction
  (Number.ofDecimal false ⟨Number.digitsValue digits, e - fraction.length⟩,
    whole.length + pointLength + fraction.length + exponentLength)

/-- Reads a number. -/
def readNumber (c : Cursor) : Except Problem (Token × Cursor) :=
  match c.rest with
  | '0' :: x :: tail =>
    if x == 'x' || x == 'X' then
      let digits := tail.takeWhile isHexDigit
      let after := c.move (2 + digits.length)
      let value := radixValue 16 digits
      if digits.isEmpty || Number.twoTo 64 ≤ value then
        .error ⟨.invalidHexadecimal, c.offset, after.offset, none, none⟩
      else .ok (.number (Number.ofNat value), after)
    else
      let (value, length) := decimalAt c.rest
      .ok (.number value, c.move length)
  | s =>
    let (value, length) := decimalAt s
    .ok (.number value, c.move length)

/-- What stands for itself or for a control character behind a backslash. -/
def escapedChar (c : Char) : Char :=
  if c == 'n' then '\n'
  else if c == 't' then '\t'
  else if c == 'r' then '\r'
  else if c == 'b' then '\x08'
  else if c == 'f' then '\x0c'
  else if c == 'v' then '\x0b'
  else if c == '0' then '\x00'
  else c

/-- The rest of a string that starts at `start`: the characters it holds and the length of what was
read.  `offset` is the offset of the text, `length` and `held` count what was read before. -/
def readStringBody (quote : Char) (start : Nat) :
    List Char → (offset length : Nat) → (held : List Char) → Except Problem (List Char × Nat)
  | [], offset, _, _ => .error ⟨.unterminatedString, start, offset, none, none⟩
  | c :: rest, offset, length, held =>
    let offset := offset + c.utf8Size
    if c == quote then .ok (held.reverse, length + 1)
    else if c != '\\' then readStringBody quote start rest offset (length + 1) (c :: held)
    else
      match rest with
      | [] => .error ⟨.unterminatedString, start, offset, none, none⟩
      | 'x' :: a :: b :: tail =>
        if isHexDigit a && isHexDigit b then
          match charOfHex? [a, b] with
          | some x => readStringBody quote start tail (offset + 3) (length + 4) (x :: held)
          | none => .error ⟨.invalidEscape, start, offset + 3, none, none⟩
        else .error ⟨.invalidEscape, start, offset + 1, none, none⟩
      | 'u' :: a :: b :: d :: e :: tail =>
        if isHexDigit a && isHexDigit b && isHexDigit d && isHexDigit e then
          match charOfHex? [a, b, d, e] with
          | some x => readStringBody quote start tail (offset + 5) (length + 6) (x :: held)
          | none => .error ⟨.invalidEscape, start, offset + 5, none, none⟩
        else .error ⟨.invalidEscape, start, offset + 1, none, none⟩
      | x :: tail =>
        if x == 'x' || x == 'u' then .error ⟨.invalidEscape, start, offset + 1, none, none⟩
        else if x == '\n' then
          readStringBody quote start tail (offset + 1) (length + 2) held
        else
          readStringBody quote start tail (offset + x.utf8Size) (length + 2)
            (escapedChar x :: held)

/-- Reads a string in the given quotes. -/
def readString (quote : Char) (c : Cursor) : Except Problem (Token × Cursor) :=
  match readStringBody quote c.offset c.step.rest c.step.offset 0 [] with
  | .ok (held, length) => .ok (.string (String.ofList held), c.step.move length)
  | .error p => .error p

/-- The punctuation mark at the front of a text. -/
def punctAt? (s : List Char) : Option Punct :=
  Punct.all.find? fun p =>
    p.text.toList.isPrefixOf s &&
      !(p == .questionDot && ((s.drop 2).head?.any Char.isDigit))

/-- A number starts here: a digit, or a point and a digit. -/
def startsNumber : List Char → Bool
  | '.' :: d :: _ => d.isDigit
  | c :: _ => c.isDigit
  | [] => false

/-- Reads the token whose first character is `x`. -/
def readToken (x : Char) (c : Cursor) : Except Problem (Token × Cursor) :=
  if startsNumber c.rest then readNumber c
  else if x == '"' || x == '\'' then readString x c
  else if Text.isNameStart x then
    .ok (.identifier (String.ofList (c.rest.takeWhile Text.isNamePart)),
      c.moveWhile Text.isNamePart)
  else
    match punctAt? c.rest with
    | some p => .ok (.punct p, c.move p.text.length)
    | none => .error ⟨.unexpectedCharacter x, c.offset, c.offset + x.utf8Size, none, none⟩

/-- Reads the next token behind white space, and moves behind it; `none` at the end of the text. -/
def next? (c : Cursor) : Except Problem (Option Lexeme × Cursor) :=
  let c := c.skipBlank
  match c.rest with
  | [] => .ok (none, c)
  | x :: _ =>
    match readToken x c with
    | .ok (token, after) => .ok (some ⟨token, c.offset, after.offset⟩, after)
    | .error p => .error p

end Lexeme

/-- Why the tokens of an expression end. -/
inductive Ending
  | endOfText
  /-- A closing bracket that these tokens did not open. -/
  | closer (bracket : Lexeme)
  /-- What follows is no token. -/
  | failure (problem : Problem)

/-- The tokens of an expression and why they end. -/
structure TokenRun where
  lexemes : List Lexeme
  ending : Ending

namespace Lexeme

/-- The tokens from a cursor on, `depth` brackets being open.  Every token takes at least one
character, so the length of the text bounds their number. -/
def runFrom : (bound : Nat) → (depth : Nat) → Cursor → TokenRun
  | 0, _, _ => ⟨[], .endOfText⟩
  | bound + 1, depth, c =>
    match next? c with
    | .error p => ⟨[], .failure p⟩
    | .ok (none, _) => ⟨[], .endOfText⟩
    | .ok (some l, after) =>
      let continueAt (depth : Nat) : TokenRun :=
        let run := runFrom bound depth after
        { run with lexemes := ⟨l.token.recognise, l.start, l.stop⟩ :: run.lexemes }
      match l.token with
      | .punct p =>
        if p.isOpener then continueAt (depth + 1)
        else if p.isCloser then
          match depth with
          | 0 => ⟨[], .closer l⟩
          | depth + 1 => continueAt depth
        else continueAt depth
      | _ => continueAt depth

/-- The tokens of the expression at a cursor, keywords told from identifiers. -/
def run (c : Cursor) : TokenRun :=
  runFrom (c.rest.length + 1) 0 c

end Lexeme

end PromptMarkup

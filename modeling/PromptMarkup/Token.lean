/-
Tokens of the expression language.

A token is a number, a string, an identifier, a keyword or a punctuation mark.  `Punct.all` lists
the marks in the order in which they are tried, so that the first that fits is the longest.

* `Keyword.ofWord?_word` — a keyword is found again by its word;
* `Token.describe` — how a token is shown in a message.
-/
import PromptMarkup.Number.Layout
import PromptMarkup.Text.Printable

namespace PromptMarkup

/-- Words with a meaning of their own in expressions. -/
inductive Keyword
  | trueWord
  | falseWord
  | nullWord
  | undefinedWord
  | inWord
  | instanceofWord
  | typeofWord
  | voidWord
  | deleteWord
deriving DecidableEq, Repr

/-- The spelling of a keyword. -/
def Keyword.word : Keyword → String
  | .trueWord => "true"
  | .falseWord => "false"
  | .nullWord => "null"
  | .undefinedWord => "undefined"
  | .inWord => "in"
  | .instanceofWord => "instanceof"
  | .typeofWord => "typeof"
  | .voidWord => "void"
  | .deleteWord => "delete"

/-- All keywords. -/
def Keyword.all : List Keyword :=
  [.trueWord, .falseWord, .nullWord, .undefinedWord, .inWord, .instanceofWord, .typeofWord,
    .voidWord, .deleteWord]

/-- The keyword that a word spells. -/
def Keyword.ofWord? (word : String) : Option Keyword :=
  Keyword.all.find? fun k => k.word == word

theorem Keyword.ofWord?_word (k : Keyword) : Keyword.ofWord? k.word = some k := by
  cases k <;> rfl

/-- Operators and other punctuation marks. -/
inductive Punct
  | unsignedShiftRightAssign
  | ellipsis
  | strictEqual
  | strictNotEqual
  | powerAssign
  | shiftLeftAssign
  | shiftRightAssign
  | unsignedShiftRight
  | andAssign
  | orAssign
  | coalesceAssign
  | questionDot
  | equal
  | notEqual
  | lessEqual
  | greaterEqual
  | and
  | or
  | coalesce
  | plusPlus
  | minusMinus
  | plusAssign
  | minusAssign
  | timesAssign
  | divideAssign
  | remainderAssign
  | bitAndAssign
  | bitOrAssign
  | bitXorAssign
  | power
  | shiftLeft
  | shiftRight
  | plus
  | minus
  | times
  | divide
  | remainder
  | less
  | greater
  | assign
  | not
  | bitNot
  | bitAnd
  | bitOr
  | bitXor
  | question
  | colon
  | dot
  | comma
  | leftParen
  | rightParen
  | leftBracket
  | rightBracket
  | leftBrace
  | rightBrace
deriving DecidableEq, Repr

/-- The spelling of a punctuation mark. -/
def Punct.text : Punct → String
  | .unsignedShiftRightAssign => ">>>="
  | .ellipsis => "..."
  | .strictEqual => "==="
  | .strictNotEqual => "!=="
  | .powerAssign => "**="
  | .shiftLeftAssign => "<<="
  | .shiftRightAssign => ">>="
  | .unsignedShiftRight => ">>>"
  | .andAssign => "&&="
  | .orAssign => "||="
  | .coalesceAssign => "??="
  | .questionDot => "?."
  | .equal => "=="
  | .notEqual => "!="
  | .lessEqual => "<="
  | .greaterEqual => ">="
  | .and => "&&"
  | .or => "||"
  | .coalesce => "??"
  | .plusPlus => "++"
  | .minusMinus => "--"
  | .plusAssign => "+="
  | .minusAssign => "-="
  | .timesAssign => "*="
  | .divideAssign => "/="
  | .remainderAssign => "%="
  | .bitAndAssign => "&="
  | .bitOrAssign => "|="
  | .bitXorAssign => "^="
  | .power => "**"
  | .shiftLeft => "<<"
  | .shiftRight => ">>"
  | .plus => "+"
  | .minus => "-"
  | .times => "*"
  | .divide => "/"
  | .remainder => "%"
  | .less => "<"
  | .greater => ">"
  | .assign => "="
  | .not => "!"
  | .bitNot => "~"
  | .bitAnd => "&"
  | .bitOr => "|"
  | .bitXor => "^"
  | .question => "?"
  | .colon => ":"
  | .dot => "."
  | .comma => ","
  | .leftParen => "("
  | .rightParen => ")"
  | .leftBracket => "["
  | .rightBracket => "]"
  | .leftBrace => "\x7b"
  | .rightBrace => "\x7d"

/-- All punctuation marks, a mark always in front of those that begin it. -/
def Punct.all : List Punct :=
  [.unsignedShiftRightAssign, .ellipsis, .strictEqual, .strictNotEqual, .powerAssign,
    .shiftLeftAssign, .shiftRightAssign, .unsignedShiftRight, .andAssign, .orAssign,
    .coalesceAssign, .questionDot, .equal, .notEqual, .lessEqual, .greaterEqual, .and, .or,
    .coalesce, .plusPlus, .minusMinus, .plusAssign, .minusAssign, .timesAssign, .divideAssign,
    .remainderAssign, .bitAndAssign, .bitOrAssign, .bitXorAssign, .power, .shiftLeft, .shiftRight,
    .plus, .minus, .times, .divide, .remainder, .less, .greater, .assign, .not, .bitNot, .bitAnd,
    .bitOr, .bitXor, .question, .colon, .dot, .comma, .leftParen, .rightParen, .leftBracket,
    .rightBracket, .leftBrace, .rightBrace]

/-- The mark opens a bracket. -/
def Punct.isOpener : Punct → Bool
  | .leftParen | .leftBracket | .leftBrace => true
  | _ => false

/-- The mark closes a bracket. -/
def Punct.isCloser : Punct → Bool
  | .rightParen | .rightBracket | .rightBrace => true
  | _ => false

/-- A token of an expression. -/
inductive Token
  | number (value : Float)
  | string (value : String)
  | identifier (name : String)
  | keyword (word : Keyword)
  | punct (mark : Punct)
deriving Repr

/-- How a token is shown in a message. -/
def Token.describe : Token → String
  | .number value => Number.Layout.plain.write value
  | .string value => Text.quoted value
  | .identifier name => name
  | .keyword word => word.word
  | .punct mark => mark.text

/-- An identifier that spells a keyword becomes the keyword. -/
def Token.recognise : Token → Token
  | .identifier name =>
    match Keyword.ofWord? name with
    | some word => .keyword word
    | none => .identifier name
  | t => t

/-- A token and the span of the text it was read from. -/
structure Lexeme where
  token : Token
  start : Nat
  stop : Nat
deriving Repr

end PromptMarkup

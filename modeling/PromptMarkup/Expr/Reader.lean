/-
Reading expressions from tokens.

The language has, from the loosest to the tightest: sequences with `,`; assignments and `? :`, to
the right; ten levels of operators that group to the left (`Connective.ofToken?`); `**`, to the
right; operators in front; `++` and `--` behind; and chains of members and calls on a primary
expression.

* `Expr.read` — the expression whose tokens are given;
* `Expr.readEmbedded` — the expression at a cursor and the offset behind its last token;
* `Expr.readWhole` — a text that is one expression and nothing else.

Design notes: an operand is followed by an operator or a closing mark, never by another operand, and
this is checked as soon as the operand is complete (`endsOperand`, `endsUpdated`).  A character that
starts no token is reported as soon as the token in front of it is taken.  Every step of the grammar
either takes a token or goes down one of less than twenty levels, so the number of tokens bounds the
depth of the recursion.
-/
import PromptMarkup.Expr.Syntax
import PromptMarkup.Token.Lexer

namespace PromptMarkup

/-- The tokens that are still to be read, and the end of the last one that was. -/
structure Reading where
  rest : List Lexeme
  last : Nat

/-- The operator of the given level, zero being the loosest, that a token spells. -/
def Connective.ofToken? (level : Nat) : Token → Option Connective
  | .keyword .inWord => if level = 6 then some (.binary .isIn) else none
  | .keyword .instanceofWord => if level = 6 then some (.binary .instanceOf) else none
  | .punct p =>
    let found : Option (Nat × Connective) :=
      match p with
      | .coalesce => some (0, .logical .coalesce)
      | .or => some (0, .logical .or)
      | .and => some (1, .logical .and)
      | .bitOr => some (2, .binary .bitOr)
      | .bitXor => some (3, .binary .bitXor)
      | .bitAnd => some (4, .binary .bitAnd)
      | .equal => some (5, .binary .equal)
      | .notEqual => some (5, .binary .notEqual)
      | .strictEqual => some (5, .binary .strictEqual)
      | .strictNotEqual => some (5, .binary .strictNotEqual)
      | .less => some (6, .binary .less)
      | .lessEqual => some (6, .binary .lessEqual)
      | .greater => some (6, .binary .greater)
      | .greaterEqual => some (6, .binary .greaterEqual)
      | .shiftLeft => some (7, .binary .shiftLeft)
      | .shiftRight => some (7, .binary .shiftRight)
      | .unsignedShiftRight => some (7, .binary .unsignedShiftRight)
      | .plus => some (8, .binary .add)
      | .minus => some (8, .binary .subtract)
      | .times => some (9, .binary .multiply)
      | .divide => some (9, .binary .divide)
      | .remainder => some (9, .binary .remainder)
      | _ => none
    match found with
    | some (l, c) => if l = level then some c else none
    | none => none
  | _ => none

/-- The number of levels of operators that group to the left. -/
def Connective.levels : Nat := 10

/-- The assignment that a token spells. -/
def AssignOp.ofToken? : Token → Option AssignOp
  | .punct .assign => some .assign
  | .punct .plusAssign => some (.binary .add rfl)
  | .punct .minusAssign => some (.binary .subtract rfl)
  | .punct .timesAssign => some (.binary .multiply rfl)
  | .punct .divideAssign => some (.binary .divide rfl)
  | .punct .remainderAssign => some (.binary .remainder rfl)
  | .punct .powerAssign => some (.binary .power rfl)
  | .punct .shiftLeftAssign => some (.binary .shiftLeft rfl)
  | .punct .shiftRightAssign => some (.binary .shiftRight rfl)
  | .punct .unsignedShiftRightAssign => some (.binary .unsignedShiftRight rfl)
  | .punct .bitAndAssign => some (.binary .bitAnd rfl)
  | .punct .bitOrAssign => some (.binary .bitOr rfl)
  | .punct .bitXorAssign => some (.binary .bitXor rfl)
  | .punct .andAssign => some (.logical .and)
  | .punct .orAssign => some (.logical .or)
  | .punct .coalesceAssign => some (.logical .coalesce)
  | _ => none

/-- The operator in front of an operand that a token spells. -/
def UnaryOp.ofToken? : Token → Option UnaryOp
  | .punct .not => some .not
  | .punct .minus => some .minus
  | .punct .plus => some .plus
  | .punct .bitNot => some .bitNot
  | .keyword .typeofWord => some .typeOf
  | .keyword .voidWord => some .void
  | .keyword .deleteWord => some .delete
  | _ => none

/-- The update operator that a token spells. -/
def UpdateOp.ofToken? : Token → Option UpdateOp
  | .punct .plusPlus => some .increment
  | .punct .minusMinus => some .decrement
  | _ => none

/-- The literal that a token is. -/
def Literal.ofToken? : Token → Option Literal
  | .number x => some (.number x)
  | .string s => some (.string s)
  | .keyword .trueWord => some (.boolean true)
  | .keyword .falseWord => some (.boolean false)
  | .keyword .nullWord => some .null
  | .keyword .undefinedWord => some .undefined
  | _ => none

/-- The name that a token is behind a point or as a key: keywords count as names there. -/
def Token.name? : Token → Option String
  | .identifier name => some name
  | .keyword k => some k.word
  | _ => none

/-- A number as the key of an object: whole numbers below `10²¹` by their exact digits. -/
def Number.asKey (x : Float) : String :=
  if Number.isWhole x && x.abs < 1e21 then Number.writeWhole x else Number.Layout.plain.write x

/-- A token that may follow a primary expression with its members and calls. -/
def Token.endsOperand : Token → Bool
  | .punct p =>
    match p with
    | .ellipsis | .not | .bitNot | .leftBrace => false
    | _ => true
  | .keyword k => k == .inWord || k == .instanceofWord
  | _ => false

/-- A token that may follow an operand whose update operator, if it has one, has been read. -/
def Token.endsUpdated (t : Token) : Bool :=
  t.endsOperand &&
    match t with
    | .punct p =>
      match p with
      | .dot | .questionDot | .leftBracket | .leftParen | .plusPlus | .minusMinus => false
      | _ => true
    | _ => true

namespace Reading

/-- The problem that the next token is not what should stand here. -/
def unexpected (ending : Ending) (r : Reading) : Problem :=
  match r.rest with
  | l :: _ => ⟨.unexpectedToken l.token.describe, l.start, l.stop, none, none⟩
  | [] =>
    match ending with
    | .closer l => ⟨.unexpectedToken l.token.describe, l.start, l.stop, none, none⟩
    | .endOfText => ⟨.unexpectedEnd, r.last, r.last, none, none⟩
    | .failure p => p

/-- The next token. -/
def peek? (r : Reading) : Option Token :=
  match r.rest with
  | l :: _ => some l.token
  | [] => none

/-- The offset of the next token, or of the end of the tokens. -/
def here (r : Reading) : Nat :=
  match r.rest with
  | l :: _ => l.start
  | [] => r.last

/-- The next token is the given mark. -/
def sees (r : Reading) (p : Punct) : Bool :=
  match r.rest with
  | ⟨.punct q, _, _⟩ :: _ => p == q
  | _ => false

/-- Refuses to go on in front of what is no token. -/
def checked (ending : Ending) (r : Reading) : Except Problem Reading :=
  match r.rest, ending with
  | [], .failure p => .error p
  | _, _ => .ok r

/-- Takes the next token. -/
def take (ending : Ending) (r : Reading) : Except Problem Reading :=
  match r.rest with
  | l :: rest => checked ending ⟨rest, l.stop⟩
  | [] => .error (unexpected ending r)

/-- Takes the next token, which must be the given mark. -/
def expect (ending : Ending) (p : Punct) (r : Reading) : Except Problem Reading :=
  if r.sees p then r.take ending else .error (unexpected ending r)

/-- Goes on only if the next token, if there is one, has the given property. -/
def require (ending : Ending) (p : Token → Bool) (r : Reading) : Except Problem Reading :=
  match r.peek? with
  | none => .ok r
  | some t => if p t then .ok r else .error (unexpected ending r)

end Reading

/-- An update of an operand, which must be a target. -/
def Expr.ofUpdate (op : UpdateOp) (leading : Bool) (argument : Expr) (span : Span) :
    Except Problem Expr :=
  if argument.isTarget then .ok (.update span op leading argument)
  else .error ⟨.invalidUpdateOperand op.text, argument.start, argument.stop, none, none⟩

/-- An assignment to a left-hand side, which must be a target. -/
def Expr.ofAssignment (op : AssignOp) (target value : Expr) : Except Problem Expr :=
  if target.isTarget then .ok (.assignment ⟨target.start, value.stop⟩ op target value)
  else .error ⟨.invalidLeftHandSide, target.start, target.stop, none, none⟩

/-- A name behind a point. -/
def readName (ending : Ending) (r : Reading) : Except Problem (String × Reading) :=
  match r.peek?.bind Token.name? with
  | some name => (r.take ending).map fun r => (name, r)
  | none => .error (r.unexpected ending)

mutual

/-- An expression, possibly a sequence. -/
def readExpression (ending : Ending) : Nat → Reading → Except Problem (Expr × Reading)
  | 0, r => .error (r.unexpected ending)
  | n + 1, r => do
    let (first, r) ← readAssignment ending n r
    let (others, r) ← readOthers ending n r
    match others.getLast? with
    | none => return (first, r)
    | some final => return (.sequence ⟨first.start, final.stop⟩ (first :: others), r)

/-- The remaining parts of a sequence. -/
def readOthers (ending : Ending) : Nat → Reading → Except Problem (List Expr × Reading)
  | 0, r => .error (r.unexpected ending)
  | n + 1, r =>
    if r.sees .comma then do
      let r ← r.take ending
      let (e, r) ← readAssignment ending n r
      let (others, r) ← readOthers ending n r
      return (e :: others, r)
    else .ok ([], r)

/-- An assignment, a conditional, or an operand of one. -/
def readAssignment (ending : Ending) : Nat → Reading → Except Problem (Expr × Reading)
  | 0, r => .error (r.unexpected ending)
  | n + 1, r => do
    let (left, r) ← readLevel ending n 0 r
    match r.peek?.bind AssignOp.ofToken? with
    | some op =>
      let r ← r.take ending
      let (value, r) ← readAssignment ending n r
      let e ← Expr.ofAssignment op left value
      return (e, r)
    | none =>
      if r.sees .question then
        let r ← r.take ending
        let (consequent, r) ← readAssignment ending n r
        let r ← r.expect ending .colon
        let (alternate, r) ← readAssignment ending n r
        return (.conditional ⟨left.start, alternate.stop⟩ left consequent alternate, r)
      else return (left, r)

/-- Operands joined by operators of a level or of tighter ones. -/
def readLevel (ending : Ending) : Nat → Nat → Reading → Except Problem (Expr × Reading)
  | 0, _, r => .error (r.unexpected ending)
  | n + 1, level, r =>
    if level < Connective.levels then do
      let (left, r) ← readLevel ending n (level + 1) r
      readJoined ending n level left r
    else readPower ending n r

/-- The operators of a level that follow a left operand, with their right operands. -/
def readJoined (ending : Ending) : Nat → Nat → Expr → Reading → Except Problem (Expr × Reading)
  | 0, _, _, r => .error (r.unexpected ending)
  | n + 1, level, left, r =>
    match r.peek?.bind (Connective.ofToken? level) with
    | some op => do
      let r ← r.take ending
      let (right, r) ← readLevel ending n (level + 1) r
      readJoined ending n level (op.join left right) r
    | none => .ok (left, r)

/-- Powers, which group to the right. -/
def readPower (ending : Ending) : Nat → Reading → Except Problem (Expr × Reading)
  | 0, r => .error (r.unexpected ending)
  | n + 1, r => do
    let (left, r) ← readUnary ending n r
    let r ← r.require ending Token.endsUpdated
    if r.sees .power then
      let r ← r.take ending
      let (right, r) ← readPower ending n r
      return ((Connective.binary .power).join left right, r)
    else return (left, r)

/-- An operand with the operators in front of it. -/
def readUnary (ending : Ending) : Nat → Reading → Except Problem (Expr × Reading)
  | 0, r => .error (r.unexpected ending)
  | n + 1, r =>
    let start := r.here
    match r.peek?.bind UnaryOp.ofToken?, r.peek?.bind UpdateOp.ofToken? with
    | some op, _ => do
      let r ← r.take ending
      let (argument, r) ← readUnary ending n r
      return (.unary ⟨start, argument.stop⟩ op argument, r)
    | none, some op => do
      let r ← r.take ending
      let (argument, r) ← readUnary ending n r
      let e ← Expr.ofUpdate op true argument ⟨start, r.last⟩
      return (e, r)
    | none, none => readUpdated ending n r

/-- An operand and the update operator behind it, if there is one. -/
def readUpdated (ending : Ending) : Nat → Reading → Except Problem (Expr × Reading)
  | 0, r => .error (r.unexpected ending)
  | n + 1, r => do
    let start := r.here
    let (primary, r) ← readPrimary ending n r
    let (operand, r) ← readLinks ending n start primary false r
    match r.peek?.bind UpdateOp.ofToken? with
    | some op =>
      let r ← r.take ending
      let r ← r.require ending Token.endsUpdated
      let e ← Expr.ofUpdate op false operand ⟨operand.start, r.last⟩
      return (e, r)
    | none => return (operand, r)

/-- The members and calls that follow an expression which starts at `start`; `cut` tells whether one
of them was optional. -/
def readLinks (ending : Ending) :
    Nat → Nat → Expr → Bool → Reading → Except Problem (Expr × Reading)
  | 0, _, _, _, r => .error (r.unexpected ending)
  | n + 1, start, e, cut, r =>
    match r.peek? with
    | some (.punct .dot) => do
      let r ← r.take ending
      let (name, r) ← readName ending r
      readLinks ending n start (.member ⟨start, r.last⟩ e (.named name) false) cut r
    | some (.punct .leftBracket) => do
      let r ← r.take ending
      let (key, r) ← readExpression ending n r
      let r ← r.expect ending .rightBracket
      readLinks ending n start (.member ⟨start, r.last⟩ e (.computed key) false) cut r
    | some (.punct .leftParen) => do
      let r ← r.take ending
      let (arguments, r) ← readElements ending n r
      let r ← r.expect ending .rightParen
      readLinks ending n start (.call ⟨start, r.last⟩ e arguments false) cut r
    | some (.punct .questionDot) => do
      let r ← r.take ending
      match r.peek? with
      | some (.punct .leftBracket) =>
        let r ← r.take ending
        let (key, r) ← readExpression ending n r
        let r ← r.expect ending .rightBracket
        readLinks ending n start (.member ⟨start, r.last⟩ e (.computed key) true) true r
      | some (.punct .leftParen) =>
        let r ← r.take ending
        let (arguments, r) ← readElements ending n r
        let r ← r.expect ending .rightParen
        readLinks ending n start (.call ⟨start, r.last⟩ e arguments true) true r
      | _ =>
        let (name, r) ← readName ending r
        readLinks ending n start (.member ⟨start, r.last⟩ e (.named name) true) true r
    | _ => do
      let r ← r.require ending Token.endsOperand
      return (if cut then .chain ⟨start, r.last⟩ e else e, r)

/-- A literal, a variable, a bracketed expression, an array or an object. -/
def readPrimary (ending : Ending) : Nat → Reading → Except Problem (Expr × Reading)
  | 0, r => .error (r.unexpected ending)
  | n + 1, r => do
    let start := r.here
    match r.peek? with
    | some (.identifier name) =>
      let r ← r.take ending
      return (.identifier ⟨start, r.last⟩ name, r)
    | some (.punct .leftParen) =>
      let r ← r.take ending
      let (e, r) ← readExpression ending n r
      let r ← r.expect ending .rightParen
      return (e, r)
    | some (.punct .leftBracket) =>
      let r ← r.take ending
      let (elements, r) ← readElements ending n r
      let r ← r.expect ending .rightBracket
      return (.array ⟨start, r.last⟩ elements, r)
    | some (.punct .leftBrace) =>
      let r ← r.take ending
      let (members, r) ← readMembers ending n r
      let r ← r.expect ending .rightBrace
      return (.object ⟨start, r.last⟩ members, r)
    | some t =>
      match Literal.ofToken? t with
      | some value =>
        let r ← r.take ending
        return (.literal ⟨start, r.last⟩ value, r)
      | none => .error (r.unexpected ending)
    | none => .error (r.unexpected ending)

/-- Elements with commas between them, up to a closing mark; a comma may end the list. -/
def readElements (ending : Ending) : Nat → Reading → Except Problem (List Element × Reading)
  | 0, r => .error (r.unexpected ending)
  | n + 1, r =>
    if r.sees .rightBracket || r.sees .rightParen then .ok ([], r)
    else do
      let (element, r) ← readElement ending n r
      if r.sees .comma then
        let r ← r.take ending
        let (others, r) ← readElements ending n r
        return (element :: others, r)
      else return ([element], r)

/-- One element of an array or of a list of arguments. -/
def readElement (ending : Ending) : Nat → Reading → Except Problem (Element × Reading)
  | 0, r => .error (r.unexpected ending)
  | n + 1, r => do
    if r.sees .ellipsis then
      let r ← r.take ending
      let (e, r) ← readAssignment ending n r
      return (.spread e, r)
    else
      let (e, r) ← readAssignment ending n r
      return (.item e, r)

/-- Members with commas between them, up to a closing brace; a comma may end the list. -/
def readMembers (ending : Ending) : Nat → Reading → Except Problem (List Member × Reading)
  | 0, r => .error (r.unexpected ending)
  | n + 1, r =>
    if r.sees .rightBrace then .ok ([], r)
    else do
      let (member, r) ← readMember ending n r
      if r.sees .comma then
        let r ← r.take ending
        let (others, r) ← readMembers ending n r
        return (member :: others, r)
      else return ([member], r)

/-- One member of an object; a name alone stands for itself as key and value. -/
def readMember (ending : Ending) : Nat → Reading → Except Problem (Member × Reading)
  | 0, r => .error (r.unexpected ending)
  | n + 1, r => do
    let start := r.here
    match r.peek? with
    | some (.punct .ellipsis) =>
      let r ← r.take ending
      let (e, r) ← readAssignment ending n r
      return (.spread e, r)
    | some (.identifier name) =>
      let r ← r.take ending
      if r.sees .comma || r.sees .rightBrace then
        return (.property (.fixed name) (.identifier ⟨start, r.last⟩ name), r)
      else readValue ending n (.fixed name) r
    | some (.keyword k) =>
      let r ← r.take ending
      readValue ending n (.fixed k.word) r
    | some (.string s) =>
      let r ← r.take ending
      readValue ending n (.fixed s) r
    | some (.number x) =>
      let r ← r.take ending
      readValue ending n (.fixed (Number.asKey x)) r
    | some (.punct .leftBracket) =>
      let r ← r.take ending
      let (key, r) ← readAssignment ending n r
      let r ← r.expect ending .rightBracket
      readValue ending n (.computed key) r
    | _ => .error (r.unexpected ending)

/-- The colon and the value that follow a key. -/
def readValue (ending : Ending) : Nat → Key → Reading → Except Problem (Member × Reading)
  | 0, _, r => .error (r.unexpected ending)
  | n + 1, key, r => do
    let r ← r.expect ending .colon
    let (value, r) ← readAssignment ending n r
    return (.property key value, r)

end

namespace Expr

/-- The expression that tokens spell, and the end of its last token. -/
def read (run : TokenRun) : Except Problem (Expr × Nat) := do
  let r ← Reading.checked run.ending ⟨run.lexemes, 0⟩
  let (e, r) ← readExpression run.ending (20 * (run.lexemes.length + 2)) r
  match r.rest with
  | [] => return (e, r.last)
  | _ :: _ => .error (r.unexpected run.ending)

/-- The expression at a cursor, and the offset behind its last token. -/
def readEmbedded (c : Text.Cursor) : Except Problem (Expr × Nat) :=
  read (Lexeme.run c)

/-- A text that is one expression and nothing else but white space. -/
def readWhole (s : List Char) : Except Problem Expr := do
  let (e, stop) ← readEmbedded (Text.Cursor.ofText s)
  let c := ((Text.Cursor.ofText s).moveTo stop).skipBlank
  match c.rest with
  | [] => return e
  | x :: _ =>
    .error ⟨.unexpectedToken x.toString, c.offset, c.offset + x.utf8Size, none, none⟩

end Expr

end PromptMarkup

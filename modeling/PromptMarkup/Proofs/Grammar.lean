/-
The grammar of expressions.

* `Grammar.Symbol` — the parts of expressions that the grammar tells apart;
* `Grammar.operators` — the operators of the levels that group to the left;
* `Grammar.Derives` — the productions: which tokens derive which trees;
* `Grammar.Derives.starts` — the tokens with which a symbol can start;
* `Expr.Assigns` — what an expression assigns to or updates may be assigned to;
* `Grammar.connective_of_spelling` and its kin — the tables of the reader are those of the grammar.

Design notes: the productions are those of a grammar with left recursion, one constructor for each.
The tables of operators stand here once more, by their spellings, and are compared with those of the
reader.  `**` is the last level of operators and the only one that groups to the right.  A bracketed
expression leaves no trace in the tree, so that the span of an expression may be shorter than its
tokens.
-/
import PromptMarkup.Expr.Reader
import PromptMarkup.Proofs.Trees

namespace PromptMarkup

/-! ### Assignments -/

namespace Expr

/-- What the expression itself assigns to or updates may be assigned to. -/
def hasTarget : Expr → Bool
  | .assignment _ _ target _ => target.isTarget
  | .update _ _ _ argument => argument.isTarget
  | _ => true

/-- Whatever is assigned to or updated in an expression is a variable or a member that is not
optional. -/
def Assigns (e : Expr) : Prop :=
  ∀ x ∈ e.subterms, x.hasTarget = true

theorem assigns_iff {e : Expr} : e.Assigns ↔ e.hasTarget = true ∧ ∀ x ∈ e.parts, x.Assigns := by
  unfold Assigns
  rw [subterms_eq]
  simp only [List.forall_mem_cons, List.mem_flatMap]
  exact ⟨fun ⟨h, hparts⟩ => ⟨h, fun x hx y hy => hparts y ⟨x, hx, hy⟩⟩,
    fun ⟨h, hparts⟩ => ⟨h, fun y ⟨x, hx, hy⟩ => hparts x hx y hy⟩⟩

end Expr

/-- How a keyword or a mark is written. -/
def Token.spelling? : Token → Option String
  | .keyword word => some word.word
  | .punct mark => some mark.text
  | _ => none

/-- The spelling of an operator between two operands. -/
def Connective.text : Connective → String
  | .binary op => op.text
  | .logical op => op.text

namespace Grammar

/-! ### Tables -/

/-- The operators of a level, the loosest level being zero. -/
def operators : Nat → List Connective
  | 0 => [.logical .coalesce, .logical .or]
  | 1 => [.logical .and]
  | 2 => [.binary .bitOr]
  | 3 => [.binary .bitXor]
  | 4 => [.binary .bitAnd]
  | 5 => [.binary .equal, .binary .notEqual, .binary .strictEqual, .binary .strictNotEqual]
  | 6 => [.binary .less, .binary .lessEqual, .binary .greater, .binary .greaterEqual, .binary .isIn,
      .binary .instanceOf]
  | 7 => [.binary .shiftLeft, .binary .shiftRight, .binary .unsignedShiftRight]
  | 8 => [.binary .add, .binary .subtract]
  | 9 => [.binary .multiply, .binary .divide, .binary .remainder]
  | _ => []

/-- The operators that assign. -/
def assignments : List AssignOp :=
  [.assign, .binary .add (Eq.refl true), .binary .subtract (Eq.refl true),
    .binary .multiply (Eq.refl true),
    .binary .divide (Eq.refl true), .binary .remainder (Eq.refl true),
    .binary .power (Eq.refl true),
    .binary .shiftLeft (Eq.refl true), .binary .shiftRight (Eq.refl true),
    .binary .unsignedShiftRight (Eq.refl true), .binary .bitAnd (Eq.refl true),
    .binary .bitOr (Eq.refl true),
    .binary .bitXor (Eq.refl true), .logical .and, .logical .or, .logical .coalesce]

/-- A token that is a constant. -/
inductive Denotes : Token → Literal → Prop
  | number (x : Float) : Denotes (.number x) (.number x)
  | string (s : String) : Denotes (.string s) (.string s)
  | true : Denotes (.keyword .trueWord) (.boolean true)
  | false : Denotes (.keyword .falseWord) (.boolean false)
  | null : Denotes (.keyword .nullWord) .null
  | undefined : Denotes (.keyword .undefinedWord) .undefined

/-- A token that is a name of a property: keywords are names there. -/
inductive PropertyName : Token → String → Prop
  | identifier (name : String) : PropertyName (.identifier name) name
  | keyword (k : Keyword) : PropertyName (.keyword k) k.word

/-! ### Symbols -/

/-- The parts of expressions that the grammar tells apart. -/
inductive Symbol
  | expression
  /-- What follows the first part of a sequence. -/
  | others
  | assign
  | conditional
  /-- Operands joined by the operators of a level or of tighter ones; the level ten is that of `**`.
  -/
  | tier (level : Nat)
  | unary
  | updated
  | callMember
  /-- An operand with its members and calls, and whether one of them is optional. -/
  | chainBody
  | primary
  | elements
  | element
  | members
  | member
  | key

/-- What the tokens of a symbol stand for. -/
abbrev Symbol.Tree : Symbol → Type
  | .others => List Expr
  | .chainBody => Expr × Bool
  | .elements => List Element
  | .element => Element
  | .members => List Member
  | .member => Member
  | .key => Key
  | .expression | .assign | .conditional | .tier _ | .unary | .updated | .callMember | .primary =>
    Expr

/-- The expressions of a tree. -/
def Symbol.exprs : (s : Symbol) → s.Tree → List Expr
  | .others, es => es
  | .chainBody, (e, _) => [e]
  | .elements, xs => xs.map Element.expr
  | .element, x => [x.expr]
  | .members, ms => ms.flatMap Member.exprs
  | .member, m => m.exprs
  | .key, k => k.exprs
  | .expression, e | .assign, e | .conditional, e | .tier _, e | .unary, e | .updated,
    e | .callMember, e
  | .primary, e => [e]

/-! ### Spans -/

/-- The end of the last token, or the given offset if there is none. -/
def stopOf (last : Nat) (xs : List Lexeme) : Nat :=
  xs.foldl (fun _ l => l.stop) last

/-- From the start of the first token to the end of the last. -/
def spanOf : List Lexeme → Span
  | [] => ⟨0, 0⟩
  | l :: rest => ⟨l.start, stopOf l.stop rest⟩

@[simp] theorem stopOf_nil (last : Nat) : stopOf last [] = last :=
  rfl

@[simp] theorem stopOf_cons (last : Nat) (l : Lexeme) (xs : List Lexeme) :
    stopOf last (l :: xs) = stopOf l.stop xs :=
  rfl

@[simp] theorem stopOf_append (last : Nat) (xs ys : List Lexeme) :
    stopOf last (xs ++ ys) = stopOf (stopOf last xs) ys :=
  List.foldl_append

/-! ### Productions -/

/-- The tokens that derive a tree. -/
inductive Derives : (s : Symbol) → List Lexeme → s.Tree → Prop
  -- sequences
  | single {xs : List Lexeme} {e : Expr} (h : Derives .assign xs e) : Derives .expression xs e
  | sequence {xs ys : List Lexeme} {first final : Expr} {es : List Expr}
    (hfirst : Derives .assign xs first)
    (hothers : Derives .others ys es) (hfinal : es.getLast? = some final) :
    Derives .expression (xs ++ ys) (.sequence ⟨first.start, final.stop⟩ (first :: es))
  | lastOther {xs : List Lexeme} {c : Lexeme} {e : Expr} (hcomma : c.token = .punct .comma)
    (h : Derives .assign xs e) : Derives .others (c :: xs) [e]
  | other {xs ys : List Lexeme} {c : Lexeme} {e : Expr} {es : List Expr}
    (hcomma : c.token = .punct .comma)
    (h : Derives .assign xs e) (hothers : Derives .others ys es) :
    Derives .others (c :: (xs ++ ys)) (e :: es)
  -- assignments
  | unassigned {xs : List Lexeme} {e : Expr} (h : Derives .conditional xs e) : Derives .assign xs e
  | assignment {xs ys : List Lexeme} {o : Lexeme} {target value : Expr} {op : AssignOp}
    (htarget : Derives (.tier 0) xs target) (hop : op ∈ assignments)
    (hspells : o.token.spelling? = some op.text) (hvalue : Derives .assign ys value) :
    Derives .assign (xs ++ o :: ys) (.assignment ⟨target.start, value.stop⟩ op target value)
  -- conditionals
  | unconditional {xs : List Lexeme} {e : Expr} (h : Derives (.tier 0) xs e) :
    Derives .conditional xs e
  | conditional {xs ys zs : List Lexeme} {q c : Lexeme} {test consequent alternate : Expr}
    (htest : Derives (.tier 0) xs test) (hquestion : q.token = .punct .question)
    (hconsequent : Derives .assign ys consequent) (hcolon : c.token = .punct .colon)
    (halternate : Derives .assign zs alternate) :
    Derives .conditional (xs ++ q :: (ys ++ c :: zs))
      (.conditional ⟨test.start, alternate.stop⟩ test consequent alternate)
  -- operators between operands
  | joined {xs ys : List Lexeme} {o : Lexeme} {left right : Expr} {level : Nat} {op : Connective}
    (hleft : Derives (.tier level) xs left) (hop : op ∈ operators level)
    (hspells : o.token.spelling? = some op.text) (hright : Derives (.tier (level + 1)) ys right) :
    Derives (.tier level) (xs ++ o :: ys) (op.join left right)
  | tighter {xs : List Lexeme} {e : Expr} {level : Nat} (hlevel : level < 10)
    (h : Derives (.tier (level + 1)) xs e) : Derives (.tier level) xs e
  | power {xs ys : List Lexeme} {o : Lexeme} {left right : Expr} (hleft : Derives .unary xs left)
    (hpower : o.token = .punct .power) (hright : Derives (.tier 10) ys right) :
    Derives (.tier 10) (xs ++ o :: ys) (.binary ⟨left.start, right.stop⟩ .power left right)
  | base {xs : List Lexeme} {e : Expr} (h : Derives .unary xs e) : Derives (.tier 10) xs e
  -- operators in front of an operand
  | unoperated {xs : List Lexeme} {e : Expr} (h : Derives .updated xs e) : Derives .unary xs e
  | unary {xs : List Lexeme} {o : Lexeme} {e : Expr} {op : UnaryOp}
    (hspells : o.token.spelling? = some op.text) (h : Derives .unary xs e) :
    Derives .unary (o :: xs) (.unary ⟨o.start, e.stop⟩ op e)
  | updateBefore {xs : List Lexeme} {o : Lexeme} {e : Expr} {op : UpdateOp}
    (hspells : o.token.spelling? = some op.text) (h : Derives .unary xs e) :
    Derives .unary (o :: xs) (.update (spanOf (o :: xs)) op true e)
  -- operators behind an operand
  | notUpdated {xs : List Lexeme} {e : Expr} (h : Derives .callMember xs e) : Derives .updated xs e
  | updateBehind {xs : List Lexeme} {o : Lexeme} {e : Expr} {op : UpdateOp}
    (h : Derives .callMember xs e) (hspells : o.token.spelling? = some op.text) :
    Derives .updated (xs ++ [o]) (.update ⟨e.start, o.stop⟩ op false e)
  -- members and calls
  | whole {xs : List Lexeme} {e : Expr} (h : Derives .chainBody xs (e, false)) :
    Derives .callMember xs e
  | chain {xs : List Lexeme} {e : Expr} (h : Derives .chainBody xs (e, true)) :
    Derives .callMember xs (.chain (spanOf xs) e)
  | bare {xs : List Lexeme} {e : Expr} (h : Derives .primary xs e) :
    Derives .chainBody xs (e, false)
  | named {xs : List Lexeme} {l o : Lexeme} {e : Expr} {cut : Bool} {name : String}
    (h : Derives .chainBody xs (e, cut)) (hdot : o.token = .punct .dot)
    (hname : PropertyName l.token name) :
    Derives .chainBody (xs ++ [o, l]) (.member (spanOf (xs ++ [o, l])) e (.named name) false, cut)
  | optionalNamed {xs : List Lexeme} {l q : Lexeme} {e : Expr} {cut : Bool} {name : String}
    (h : Derives .chainBody xs (e, cut)) (hdot : q.token = .punct .questionDot)
    (hname : PropertyName l.token name) :
    Derives .chainBody (xs ++ [q, l]) (.member (spanOf (xs ++ [q, l])) e (.named name) true, true)
  | optionalComputed {xs ys : List Lexeme} {o q c : Lexeme} {e key : Expr} {cut : Bool}
    (h : Derives .chainBody xs (e, cut)) (hdot : q.token = .punct .questionDot)
    (hopener : o.token = .punct .leftBracket) (hkey : Derives .expression ys key)
    (hcloser : c.token = .punct .rightBracket) :
    Derives .chainBody (xs ++ q :: o :: (ys ++ [c]))
      (.member (spanOf (xs ++ q :: o :: (ys ++ [c]))) e (.computed key) true, true)
  | computed {xs ys : List Lexeme} {o c : Lexeme} {e key : Expr} {cut : Bool}
    (h : Derives .chainBody xs (e, cut)) (hopener : o.token = .punct .leftBracket)
    (hkey : Derives .expression ys key) (hcloser : c.token = .punct .rightBracket) :
    Derives .chainBody (xs ++ o :: (ys ++ [c]))
      (.member (spanOf (xs ++ o :: (ys ++ [c]))) e (.computed key) false, cut)
  | optionalCall {xs ys : List Lexeme} {o q c : Lexeme} {e : Expr} {cut : Bool}
    {arguments : List Element}
    (h : Derives .chainBody xs (e, cut)) (hdot : q.token = .punct .questionDot)
    (hopener : o.token = .punct .leftParen) (harguments : Derives .elements ys arguments)
    (hcloser : c.token = .punct .rightParen) :
    Derives .chainBody (xs ++ q :: o :: (ys ++ [c]))
      (.call (spanOf (xs ++ q :: o :: (ys ++ [c]))) e arguments true, true)
  | call {xs ys : List Lexeme} {o c : Lexeme} {e : Expr} {cut : Bool} {arguments : List Element}
    (h : Derives .chainBody xs (e, cut)) (hopener : o.token = .punct .leftParen)
    (harguments : Derives .elements ys arguments) (hcloser : c.token = .punct .rightParen) :
    Derives .chainBody (xs ++ o :: (ys ++ [c]))
      (.call (spanOf (xs ++ o :: (ys ++ [c]))) e arguments false, cut)
  -- primary expressions
  | literal {l : Lexeme} {value : Literal} (h : Denotes l.token value) :
    Derives .primary [l] (.literal ⟨l.start, l.stop⟩ value)
  | identifier {l : Lexeme} {name : String} (h : l.token = .identifier name) :
    Derives .primary [l] (.identifier ⟨l.start, l.stop⟩ name)
  | bracketed {xs : List Lexeme} {o c : Lexeme} {e : Expr} (hopener : o.token = .punct .leftParen)
    (h : Derives .expression xs e) (hcloser : c.token = .punct .rightParen) :
    Derives .primary (o :: (xs ++ [c])) e
  | array {xs : List Lexeme} {o c : Lexeme} {elements : List Element}
    (hopener : o.token = .punct .leftBracket) (h : Derives .elements xs elements)
    (hcloser : c.token = .punct .rightBracket) :
    Derives .primary (o :: (xs ++ [c])) (.array ⟨o.start, c.stop⟩ elements)
  | object {xs : List Lexeme} {o c : Lexeme} {members : List Member}
    (hopener : o.token = .punct .leftBrace)
    (h : Derives .members xs members) (hcloser : c.token = .punct .rightBrace) :
    Derives .primary (o :: (xs ++ [c])) (.object ⟨o.start, c.stop⟩ members)
  -- elements; a comma may end the list
  | noElements : Derives .elements [] []
  | lastElement {xs : List Lexeme} {x : Element} (h : Derives .element xs x) :
    Derives .elements xs [x]
  | moreElements {xs ys : List Lexeme} {c : Lexeme} {x : Element} {others : List Element}
    (h : Derives .element xs x) (hcomma : c.token = .punct .comma)
    (hothers : Derives .elements ys others) :
    Derives .elements (xs ++ c :: ys) (x :: others)
  | spreadElement {xs : List Lexeme} {o : Lexeme} {e : Expr} (hdots : o.token = .punct .ellipsis)
    (h : Derives .assign xs e) : Derives .element (o :: xs) (.spread e)
  | item {xs : List Lexeme} {e : Expr} (h : Derives .assign xs e) : Derives .element xs (.item e)
  -- members of objects; a comma may end the list
  | noMembers : Derives .members [] []
  | lastMember {xs : List Lexeme} {m : Member} (h : Derives .member xs m) : Derives .members xs [m]
  | moreMembers {xs ys : List Lexeme} {c : Lexeme} {m : Member} {others : List Member}
    (h : Derives .member xs m) (hcomma : c.token = .punct .comma)
    (hothers : Derives .members ys others) :
    Derives .members (xs ++ c :: ys) (m :: others)
  | spreadMember {xs : List Lexeme} {o : Lexeme} {e : Expr} (hdots : o.token = .punct .ellipsis)
    (h : Derives .assign xs e) : Derives .member (o :: xs) (.spread e)
  | shorthand {l : Lexeme} {name : String} (h : l.token = .identifier name) :
    Derives .member [l] (.property (.fixed name) (.identifier ⟨l.start, l.stop⟩ name))
  | property {xs ys : List Lexeme} {c : Lexeme} {e : Expr} {key : Key} (hkey : Derives .key xs key)
    (hcolon : c.token = .punct .colon) (hvalue : Derives .assign ys e) :
    Derives .member (xs ++ c :: ys) (.property key e)
  -- keys
  | nameKey {l : Lexeme} {name : String} (h : PropertyName l.token name) :
    Derives .key [l] (.fixed name)
  | stringKey {l : Lexeme} {s : String} (h : l.token = .string s) : Derives .key [l] (.fixed s)
  | numberKey {l : Lexeme} {x : Float} (h : l.token = .number x) :
    Derives .key [l] (.fixed (Number.asKey x))
  | computedKey {xs : List Lexeme} {o c : Lexeme} {e : Expr}
    (hopener : o.token = .punct .leftBracket)
    (h : Derives .assign xs e) (hcloser : c.token = .punct .rightBracket) :
    Derives .key (o :: (xs ++ [c])) (.computed e)

/-! ### The tables of the reader -/

variable {xs ys : List Lexeme} {l : Lexeme} {level : Nat} {name : String}

/-- The mark that is written so. -/
def markOf? (s : String) : Option Punct :=
  Punct.all.find? fun p => p.text == s

theorem markOf?_text (p : Punct) : markOf? p.text = some p := by
  cases p <;> decide +kernel

theorem ofWord?_text (p : Punct) : Keyword.ofWord? p.text = none := by
  cases p <;> decide +kernel

/-- The token that is written so. -/
def tokenOf? (s : String) : Option Token :=
  match Keyword.ofWord? s with
  | some k => some (.keyword k)
  | none => (markOf? s).map .punct

/-- Keywords and marks are told apart by their spellings. -/
theorem tokenOf?_of_spelling {t : Token} {s : String} (h : t.spelling? = some s) :
    tokenOf? s = some t := by
  cases t with
  | keyword k =>
    obtain rfl := Option.some.inj h
    rw [tokenOf?, Keyword.ofWord?_word]
  | punct p =>
    obtain rfl := Option.some.inj h
    rw [tokenOf?, ofWord?_text, markOf?_text]
    rfl
  | number x => exact nomatch h
  | string s => exact nomatch h
  | identifier name => exact nomatch h

/-- A table gives an operator for the tokens that spell it, if it does so for the one that is
written so. -/
theorem eq_some_of_spelling {α : Type} {table : Token → Option α} {s : String} {t : Token} {op : α}
    (htable : (tokenOf? s).bind table = some op) (hspells : t.spelling? = some s) :
    table t = some op := by
  rwa [tokenOf?_of_spelling hspells] at htable

theorem lt_of_mem_operators {op : Connective} (h : op ∈ operators level) : level < 10 := by
  unfold operators at h
  split at h <;> first | omega | exact nomatch h

theorem connective_of_spelling {t : Token} {op : Connective} (hop : op ∈ operators level)
    (hspells : t.spelling? = some op.text) : Connective.ofToken? level t = some op := by
  have htable : ∀ level < 10, ∀ op ∈ operators level,
      (tokenOf? op.text).bind (Connective.ofToken? level) = some op := by decide +kernel
  exact eq_some_of_spelling (htable level (lt_of_mem_operators hop) op hop) hspells

theorem spelling_of_connective {t : Token} {op : Connective}
    (h : Connective.ofToken? level t = some op) :
    op ∈ operators level ∧ t.spelling? = some op.text := by
  cases t with
  | punct p =>
    cases p <;> simp [Connective.ofToken?] at h <;> obtain ⟨rfl, rfl⟩ := h <;> decide +kernel
  | keyword k =>
    cases k <;> simp [Connective.ofToken?] at h <;> obtain ⟨rfl, rfl⟩ := h <;> decide +kernel
  | _ => exact nomatch h

theorem assignment_of_spelling {t : Token} {op : AssignOp} (hop : op ∈ assignments)
    (hspells : t.spelling? = some op.text) : AssignOp.ofToken? t = some op := by
  have htable : ∀ op ∈ assignments,
    (tokenOf? op.text).bind AssignOp.ofToken? = some op := by decide +kernel
  exact eq_some_of_spelling (htable op hop) hspells

theorem spelling_of_assignment {t : Token} {op : AssignOp} (h : AssignOp.ofToken? t = some op) :
    op ∈ assignments ∧ t.spelling? = some op.text := by
  cases t with
  | punct p => cases p <;> cases h <;> decide +kernel
  | _ => exact nomatch h

theorem unary_of_spelling {t : Token} {op : UnaryOp} (hspells : t.spelling? = some op.text) :
    UnaryOp.ofToken? t = some op := by
  have htable : (tokenOf? op.text).bind UnaryOp.ofToken? = some op := by
    cases op <;> decide +kernel
  exact eq_some_of_spelling htable hspells

theorem spelling_of_unary {t : Token} {op : UnaryOp} (h : UnaryOp.ofToken? t = some op) :
    t.spelling? = some op.text := by
  cases t with
  | punct p => cases p <;> cases h <;> rfl
  | keyword k => cases k <;> cases h <;> rfl
  | _ => exact nomatch h

theorem update_of_spelling {t : Token} {op : UpdateOp} (hspells : t.spelling? = some op.text) :
    UpdateOp.ofToken? t = some op := by
  have htable : (tokenOf? op.text).bind UpdateOp.ofToken? = some op := by
    cases op <;> decide +kernel
  exact eq_some_of_spelling htable hspells

theorem spelling_of_update {t : Token} {op : UpdateOp} (h : UpdateOp.ofToken? t = some op) :
    t.spelling? = some op.text := by
  cases t with
  | punct p => cases p <;> cases h <;> rfl
  | _ => exact nomatch h

theorem denotes_iff {t : Token} {value : Literal} :
    Denotes t value ↔ Literal.ofToken? t = some value := by
  constructor
  · intro h
    cases h <;> rfl
  · intro h
    cases t with
    | number x =>
      obtain rfl := Option.some.inj h
      exact .number x
    | string s =>
      obtain rfl := Option.some.inj h
      exact .string s
    | keyword k => cases k <;> cases h <;> constructor
    | _ => exact nomatch h

theorem propertyName_iff {t : Token} {name : String} :
    PropertyName t name ↔ t.name? = some name := by
  constructor
  · intro h
    cases h <;> rfl
  · intro h
    cases t with
    | identifier s =>
      obtain rfl := Option.some.inj h
      exact .identifier s
    | keyword k =>
      obtain rfl := Option.some.inj h
      exact .keyword k
    | _ => exact nomatch h

/-! ### The first tokens -/

end Grammar

/-- How far out a symbol is that a token can start: zero for primary expressions, one for operators
in front of an operand, two for elements, three for what starts with names and commas, and four for
closing brackets. -/
def Token.leads : Token → Nat
  | .identifier _ | .number _ | .string _ => 0
  | .keyword k =>
    match k with
    | .trueWord | .falseWord | .nullWord | .undefinedWord => 0
    | .typeofWord | .voidWord | .deleteWord => 1
    | .inWord | .instanceofWord => 3
  | .punct p =>
    match p with
    | .leftParen | .leftBracket | .leftBrace => 0
    | .not | .minus | .plus | .bitNot | .plusPlus | .minusMinus => 1
    | .ellipsis => 2
    | .rightParen | .rightBracket | .rightBrace => 4
    | _ => 3

namespace Grammar

theorem leads_unary {t : Token} {op : UnaryOp} (h : t.spelling? = some op.text) : t.leads = 1 := by
  replace h := unary_of_spelling h
  cases t with
  | punct p => cases p <;> cases h <;> rfl
  | keyword k => cases k <;> cases h <;> rfl
  | _ => exact nomatch h

theorem leads_update {t : Token} {op : UpdateOp} (h : t.spelling? = some op.text) :
    t.leads = 1 := by
  replace h := update_of_spelling h
  cases t with
  | punct p => cases p <;> cases h <;> rfl
  | _ => exact nomatch h

theorem leads_literal {t : Token} {value : Literal} (h : Denotes t value) : t.leads = 0 := by
  cases h <;> rfl

theorem leads_name {t : Token} (h : PropertyName t name) : t.leads ≤ 3 := by
  cases h with
  | identifier name => exact Nat.zero_le 3
  | keyword k => cases k <;> decide

/-- The outermost kind of token that can start a symbol. -/
def Symbol.leads : Symbol → Nat
  | .updated | .callMember | .chainBody | .primary => 0
  | .expression | .assign | .conditional | .tier _ | .unary => 1
  | .elements | .element => 2
  | .others | .members | .member | .key => 3

/-- The symbol can be without tokens. -/
def Symbol.isList : Symbol → Bool
  | .elements | .members => true
  | _ => false

/-- Tokens with which a symbol can start. -/
def Starts (s : Symbol) (xs : List Lexeme) : Prop :=
  (s.isList = true ∧ xs = []) ∨ ∃ l rest, xs = l :: rest ∧ l.token.leads ≤ s.leads

section Starts

variable {s s' : Symbol}

theorem Starts.cons {k : Nat} (h : l.token.leads = k) (hk : k ≤ s.leads) : Starts s (l :: xs) :=
  .inr ⟨l, xs, rfl, h ▸ hk⟩

theorem Starts.mark {p : Punct} (h : l.token = .punct p) (hp : (Token.punct p).leads ≤ s.leads) :
    Starts s (l :: xs) :=
  .inr ⟨l, xs, rfl, h ▸ hp⟩

theorem Starts.append (h : Starts s' xs) (hs : s'.isList = false) (hle : s'.leads ≤ s.leads) :
    Starts s (xs ++ ys) := by
  rcases h with ⟨hlist, -⟩ | ⟨l, rest, rfl, hl⟩
  · exact nomatch hlist.symm.trans hs
  · exact .inr ⟨l, rest ++ ys, rfl, Nat.le_trans hl hle⟩

theorem Starts.ne_nil (h : Starts s xs) (hs : s.isList = false) : xs ≠ [] := by
  rcases h with ⟨hlist, -⟩ | ⟨l, rest, rfl, -⟩
  · exact nomatch hlist.symm.trans hs
  · exact List.cons_ne_nil _ _

theorem Starts.mono (h : Starts s' xs) (hs : s'.isList = false) (hle : s'.leads ≤ s.leads) :
    Starts s xs :=
  List.append_nil xs ▸ (h.append hs hle : Starts s (xs ++ []))

end Starts

/-- What tokens derive starts with a token that the symbol allows. -/
theorem Derives.starts {s : Symbol} {t : s.Tree} (h : Derives s xs t) : Starts s xs := by
  -- the induction is on the derivation; the first part tells how the whole starts, and every number
  -- of the table is at most that of the symbol it is used for
  induction h with
  | single _ ih => exact ih.mono rfl (by decide)
  | sequence _ _ _ ih => exact ih.append rfl (by decide)
  | lastOther hcomma => exact .mark hcomma (by decide)
  | other hcomma => exact .mark hcomma (by decide)
  | unassigned _ ih => exact ih.mono rfl (by decide)
  | assignment _ _ _ _ ih => exact ih.append rfl (by decide)
  | unconditional _ ih => exact ih.mono rfl (by decide)
  | conditional _ _ _ _ _ ih => exact ih.append rfl (by decide)
  | joined _ _ _ _ ih => exact ih.append rfl (Nat.le_refl 1)
  | tighter _ _ ih => exact ih.mono rfl (Nat.le_refl 1)
  | power _ _ _ ih => exact ih.append rfl (by decide)
  | base _ ih => exact ih.mono rfl (by decide)
  | unoperated _ ih => exact ih.mono rfl (by decide)
  | unary hspells => exact .cons (leads_unary hspells) (by decide)
  | updateBefore hspells => exact .cons (leads_update hspells) (by decide)
  | notUpdated _ ih => exact ih.mono rfl (by decide)
  | updateBehind _ _ ih => exact ih.append rfl (by decide)
  | whole _ ih => exact ih.mono rfl (by decide)
  | chain _ ih => exact ih.mono rfl (by decide)
  | bare _ ih => exact ih.mono rfl (by decide)
  | named _ _ _ ih => exact ih.append rfl (by decide)
  | optionalNamed _ _ _ ih => exact ih.append rfl (by decide)
  | optionalComputed _ _ _ _ _ ih => exact ih.append rfl (by decide)
  | computed _ _ _ _ ih => exact ih.append rfl (by decide)
  | optionalCall _ _ _ _ _ ih => exact ih.append rfl (by decide)
  | call _ _ _ _ ih => exact ih.append rfl (by decide)
  | literal h => exact .cons (leads_literal h) (by decide)
  | identifier h => exact .cons (congrArg Token.leads h) (Nat.zero_le _)
  | bracketed hopener => exact .mark hopener (by decide)
  | array hopener => exact .mark hopener (by decide)
  | object hopener => exact .mark hopener (by decide)
  | noElements => exact .inl ⟨rfl, rfl⟩
  | lastElement _ ih => exact ih.mono rfl (by decide)
  | moreElements _ _ _ ih => exact ih.append rfl (by decide)
  | spreadElement hdots => exact .mark hdots (by decide)
  | item _ ih => exact ih.mono rfl (by decide)
  | noMembers => exact .inl ⟨rfl, rfl⟩
  | lastMember _ ih => exact ih.mono rfl (by decide)
  | moreMembers _ _ _ ih => exact ih.append rfl (by decide)
  | spreadMember hdots => exact .mark hdots (by decide)
  | shorthand h => exact .cons (congrArg Token.leads h) (Nat.zero_le _)
  | property _ _ _ ih => exact ih.append rfl (by decide)
  | nameKey h => exact .inr ⟨_, _, rfl, leads_name h⟩
  | stringKey h => exact .cons (congrArg Token.leads h) (Nat.zero_le _)
  | numberKey h => exact .cons (congrArg Token.leads h) (Nat.zero_le _)
  | computedKey hopener => exact .mark hopener (by decide)

theorem Derives.ne_nil {s : Symbol} {t : s.Tree} (h : Derives s xs t) (hs : s.isList = false) :
    xs ≠ [] :=
  h.starts.ne_nil hs

end Grammar

end PromptMarkup

/-
What the grammar derives, the reader accepts.

* `Token.binding` — how tightly a token goes on with an operand in front of it;
* `Accepts` — a reader takes certain tokens, whatever may follow them, if it has room enough;
* `Accepted` — what a derivation means for the readers;
* `Grammar.Derives.accepted` — every derivation in which all that is assigned to may be assigned to
  is read so;
* `Expr.read_eq_ok_iff` — reading an expression, and the grammar, are the same; there is at most one
  tree.

Design notes: the productions are left-recursive where the readers are loops.  For these symbols the
claim is that the reader comes to the loop with what was derived so far; `taken` counts how often
the loop went around, which costs a unit of room each time and a token at least.  Room is counted as
twenty units for each token, and less than twenty more for the levels in front of it.
-/
import Mathlib.Data.Set.Subsingleton
import PromptMarkup.Proofs.Deriving

namespace PromptMarkup

open Grammar

/-! ### What may follow an operand -/

/-- How tightly a token goes on with the operand in front of it: closing marks do not at all, and
tokens that cannot stand behind an operand come last. -/
def Token.binding : Token → Nat
  | .punct p =>
    match p with
    | .rightParen | .rightBracket | .rightBrace | .colon => 0
    | .comma => 1
    | .question | .assign | .plusAssign | .minusAssign | .timesAssign | .divideAssign
    | .remainderAssign
    | .powerAssign | .shiftLeftAssign | .shiftRightAssign | .unsignedShiftRightAssign
    | .bitAndAssign
    | .bitOrAssign | .bitXorAssign | .andAssign | .orAssign | .coalesceAssign => 2
    | .coalesce | .or => 3
    | .and => 4
    | .bitOr => 5
    | .bitXor => 6
    | .bitAnd => 7
    | .equal | .notEqual | .strictEqual | .strictNotEqual => 8
    | .less | .lessEqual | .greater | .greaterEqual => 9
    | .shiftLeft | .shiftRight | .unsignedShiftRight => 10
    | .plus | .minus => 11
    | .times | .divide | .remainder => 12
    | .power => 13
    | .plusPlus | .minusMinus => 14
    | .dot | .questionDot | .leftBracket | .leftParen => 15
    | .ellipsis | .not | .bitNot | .leftBrace => 16
  | .keyword k =>
    match k with
    | .inWord | .instanceofWord => 9
    | _ => 16
  | .number _ | .string _ | .identifier _ => 16

namespace Token

variable {t : Token}

theorem binding_of_connective {level : Nat} {op : Connective}
    (h : Connective.ofToken? level t = some op) :
    t.binding = 3 + level := by
  cases t with
  | punct p => cases p <;> simp [Connective.ofToken?] at h <;> obtain ⟨rfl, -⟩ := h <;> rfl
  | keyword k => cases k <;> simp [Connective.ofToken?] at h <;> obtain ⟨rfl, -⟩ := h <;> rfl
  | _ => simp [Connective.ofToken?] at h

theorem binding_of_assignment {op : AssignOp} (h : AssignOp.ofToken? t = some op) :
    t.binding = 2 := by
  cases t with
  | punct p => cases p <;> cases h <;> rfl
  | _ => exact nomatch h

theorem binding_of_update {op : UpdateOp} (h : UpdateOp.ofToken? t = some op) : t.binding = 14 := by
  cases t with
  | punct p => cases p <;> cases h <;> rfl
  | _ => exact nomatch h

theorem endsOperand_of_binding (h : t.binding < 16) : t.endsOperand = true := by
  cases t with
  | punct p => cases p <;> first | rfl | exact absurd h (by decide)
  | keyword k => cases k <;> first | rfl | exact absurd h (by decide)
  | _ => exact absurd h (Nat.lt_irrefl 16)

theorem endsUpdated_of_binding (h : t.binding < 14) : t.endsUpdated = true := by
  cases t with
  | punct p => cases p <;> first | rfl | exact absurd h (by decide)
  | keyword k => cases k <;> first | rfl | exact absurd h (by decide)
  | _ => exact absurd h (Nat.not_lt.2 (Nat.le_add_right 14 2))

theorem not_connective_of_binding {level : Nat} (h : t.binding < 3 + level) :
    Connective.ofToken? level t = none := by
  rcases hop : Connective.ofToken? level t with _ | op
  · rfl
  · exact absurd (binding_of_connective hop) (Nat.ne_of_lt h)

theorem not_assignment_of_binding (h : t.binding < 2) : AssignOp.ofToken? t = none := by
  rcases hop : AssignOp.ofToken? t with _ | op
  · rfl
  · exact absurd (binding_of_assignment hop) (Nat.ne_of_lt h)

theorem not_update_of_binding (h : t.binding < 14) : UpdateOp.ofToken? t = none := by
  rcases hop : UpdateOp.ofToken? t with _ | op
  · rfl
  · exact absurd (binding_of_update hop) (Nat.ne_of_lt h)

/-- An operator that updates is none of those that only stand in front. -/
theorem not_unary_of_update {op : UpdateOp} (h : UpdateOp.ofToken? t = some op) :
    UnaryOp.ofToken? t = none := by
  cases t with
  | punct p => cases p <;> first | rfl | exact nomatch h
  | _ => exact nomatch h

theorem not_operator_of_leads (h : t.leads ≤ 0) :
    UnaryOp.ofToken? t = none ∧ UpdateOp.ofToken? t = none := by
  cases t with
  | punct p => cases p <;> first | exact ⟨rfl, rfl⟩ | exact absurd h (by decide)
  | keyword k => cases k <;> first | exact ⟨rfl, rfl⟩ | exact absurd h (by decide)
  | _ => exact ⟨rfl, rfl⟩

end Token

/-- What follows an operand starts with a token that binds less than `k`. -/
def Stops (k : Nat) (rest : List Lexeme) : Prop :=
  ∀ l ∈ rest.head?, l.token.binding < k

/-- What follows starts with one of the given marks. -/
def Precedes (ps : List Punct) (rest : List Lexeme) : Prop :=
  ∃ l others, ∃ p ∈ ps, rest = l :: others ∧ l.token = .punct p

section Following

variable {j k : Nat} {rest : List Lexeme} {l : Lexeme} {p : Punct} {ps : List Punct} {last : Nat}
  {t : Token}

theorem Stops.mono (h : Stops j rest) (hle : j ≤ k) : Stops k rest :=
  fun l hl => Nat.lt_of_lt_of_le (h l hl) hle

theorem stops_nil (k : Nat) : Stops k [] :=
  fun _ hl => nomatch hl

theorem stops_cons (h : l.token.binding < k) : Stops k (l :: rest) := by
  intro l' hl
  obtain rfl := Option.some.inj hl
  exact h

theorem stops_mark (h : l.token = .punct p) (hp : (Token.punct p).binding < k) :
    Stops k (l :: rest) :=
  stops_cons (h ▸ hp)

theorem Precedes.stops (h : Precedes ps rest) (hps : ∀ p ∈ ps, (Token.punct p).binding < k) :
    Stops k rest := by
  obtain ⟨l, others, p, hp, rfl, hl⟩ := h
  exact stops_mark hl (hps p hp)

theorem precedes_cons (h : l.token = .punct p) : Precedes [p] (l :: rest) :=
  ⟨l, rest, p, List.mem_singleton.2 rfl, rfl, h⟩

end Following

/-! ### Steps of reading -/

namespace Reading

variable {ending : Ending} {rest : List Lexeme} {l : Lexeme} {p : Punct} {last k : Nat}

theorem take_cons (hopen : ∀ p, ending ≠ .failure p) (l : Lexeme) (rest : List Lexeme)
    (last : Nat) :
    take ending ⟨l :: rest, last⟩ = .ok ⟨rest, l.stop⟩ := by
  show checked ending ⟨rest, l.stop⟩ = _
  unfold checked
  split
  · next p _ => exact absurd rfl (hopen p)
  · rfl

theorem sees_cons (h : l.token = .punct p) : sees ⟨l :: rest, last⟩ p = true := by
  obtain ⟨t, start, stop⟩ := l
  obtain rfl : t = .punct p := h
  exact beq_self_eq_true p

theorem sees_of_peek {q : Punct} {r : Reading} (h : r.sees q = true) :
    ∃ l ∈ r.rest.head?, l.token = .punct q := by
  have hpeek := sees_eq_true h
  unfold peek? at hpeek
  split at hpeek
  · next l rest hrest => exact ⟨l, by rw [hrest]; rfl, Option.some.inj hpeek⟩
  · exact nomatch hpeek

/-- A mark that binds more than what follows is not seen. -/
theorem not_sees (h : Stops k rest) (hp : k ≤ (Token.punct p).binding) :
    sees ⟨rest, last⟩ p = false := by
  refine Bool.eq_false_iff.2 fun hsees => ?_
  obtain ⟨l, hl, htoken⟩ := sees_of_peek hsees
  exact absurd (htoken ▸ h l hl) (Nat.not_lt.2 hp)

theorem expect_cons (hopen : ∀ p, ending ≠ .failure p) (h : l.token = .punct p) :
    expect ending p ⟨l :: rest, last⟩ = .ok ⟨rest, l.stop⟩ := by
  rw [expect, sees_cons h, if_pos rfl, take_cons hopen]

theorem require_eq_ok {q : Token → Bool} (h : ∀ l ∈ rest.head?, q l.token = true) :
    require ending q ⟨rest, last⟩ = .ok ⟨rest, last⟩ := by
  cases rest with
  | nil => rfl
  | cons l others =>
    have hl : q l.token = true := h l rfl
    show (if q l.token then Except.ok _ else _) = _
    rw [if_pos hl]

/-- No table finds what follows. -/
theorem peek_eq_none {α : Type} {table : Token → Option α}
    (h : ∀ l ∈ rest.head?, table l.token = none) :
    (peek? ⟨rest, last⟩).bind table = none := by
  cases rest with
  | nil => rfl
  | cons l others => exact h l rfl

end Reading

/-! ### Readers -/

/-- A reader takes certain tokens and gives `a`, whatever may follow them, if it has room enough. -/
def Accepts {α : Type} (reader : Nat → Reading → Except Problem (α × Reading)) (rank : Nat)
    (follow : List Lexeme → Prop) (xs : List Lexeme) (a : α) : Prop :=
  ∀ {n rest last}, 20 * xs.length + rank ≤ n → follow rest →
    reader n ⟨xs ++ rest, last⟩ = .ok (a, ⟨rest, stopOf last xs⟩)

/-- A primary expression with its members and calls. -/
def readOperand (ending : Ending) (n : Nat) (r : Reading) : Except Problem (Expr × Reading) := do
  let (primary, r') ← readPrimary ending n r
  readLinks ending n r.here primary false r'

/-- The reader of a level comes to its loop with what was derived so far. -/
def Joins (ending : Ending) (level : Nat) (xs : List Lexeme) (e : Expr) : Prop :=
  ∃ taken < xs.length, ∀ {n rest last}, 20 * xs.length + (14 - level) ≤ n + taken →
    Stops (4 + level) rest →
    readLevel ending (n + taken + 1) level ⟨xs ++ rest, last⟩ =
      readJoined ending n level e ⟨rest, stopOf last xs⟩

/-- The reader of members and calls comes to its loop with what was derived so far. -/
def Links (ending : Ending) (xs : List Lexeme) (e : Expr) (cut : Bool) : Prop :=
  ∃ taken < xs.length, ∀ {n rest last}, 20 * xs.length + 1 ≤ n + taken →
    readOperand ending (n + taken) ⟨xs ++ rest, last⟩ =
      readLinks ending n (spanOf xs).start e cut ⟨rest, stopOf last xs⟩

/-- What a derivation means for the readers. -/
def Accepted (ending : Ending) : (s : Symbol) → List Lexeme → s.Tree → Prop
  | .expression, xs, e => Accepts (readExpression ending) 17 (Stops 1) xs e
  | .others, xs, es => Accepts (readOthers ending) 1 (Stops 1) xs es
  | .assign, xs, e => Accepts (readAssignment ending) 16 (Stops 2) xs e
  | .conditional, xs, e => Accepts (readAssignment ending) 16 (Stops 2) xs e
  | .tier level, xs, e => if level < 10 then Joins ending level xs e
      else Accepts (readPower ending) 4 (Stops 13) xs e
  | .unary, xs, e => Accepts (readUnary ending) 3 (Stops 14) xs e
  | .updated, xs, e => Accepts (readUpdated ending) 2 (Stops 14) xs e
  | .callMember, xs, e => Accepts (readOperand ending) 1 (Stops 15) xs e
  | .chainBody, xs, (e, cut) => Links ending xs e cut
  | .primary, xs, e => Accepts (readPrimary ending) 1 (fun _ => True) xs e
  | .elements, xs, es =>
    Accepts (readElements ending) 18 (Precedes [.rightBracket, .rightParen]) xs es
  | .element, xs, x => Accepts (readElement ending) 17 (Stops 2) xs x
  | .members, xs, ms => Accepts (readMembers ending) 2 (Precedes [.rightBrace]) xs ms
  | .member, xs, m => Accepts (readMember ending) 1 (Precedes [.comma, .rightBrace]) xs m
  | .key, xs, key => ∀ {n rest last}, 20 * xs.length ≤ n → Precedes [.colon] rest →
      readMember ending (n + 1) ⟨xs ++ rest, last⟩ = readValue ending n key ⟨rest, stopOf last xs⟩

section Productions

variable {ending : Ending} {xs ys zs : List Lexeme} {l o q c : Lexeme}
  {e left right first final : Expr} {es : List Expr} {cut : Bool} {level : Nat} {name : String}

theorem exists_succ {n : Nat} (h : 0 < n) : ∃ m, n = m + 1 :=
  ⟨n - 1, by omega⟩

theorem ok_bind {α β : Type} (a : α) (f : α → Except Problem β) : (Except.ok a >>= f) = f a :=
  rfl

theorem pure_ok {α : Type} (a : α) : (pure a : Except Problem α) = .ok a :=
  rfl

/-! Sequences. -/

/-- No part of a sequence follows. -/
theorem readOthers_none {n last : Nat} {rest : List Lexeme} (hn : 0 < n) (hrest : Stops 1 rest) :
    readOthers ending n ⟨rest, last⟩ = .ok ([], ⟨rest, last⟩) := by
  obtain ⟨n, rfl⟩ := exists_succ hn
  rw [readOthers, Reading.not_sees (p := .comma) hrest (by decide)]
  rfl

theorem accepts_single (h : Accepts (readAssignment ending) 16 (Stops 2) xs e) :
    Accepts (readExpression ending) 17 (Stops 1) xs e := by
  intro n rest last hn hrest
  obtain ⟨n, rfl⟩ := exists_succ (n := n) (by omega)
  have hfirst : readAssignment ending n ⟨xs ++ rest, last⟩ = .ok (e, ⟨rest, stopOf last xs⟩) :=
    h (by omega) (hrest.mono (by decide))
  have hothers : readOthers ending n ⟨rest, stopOf last xs⟩ = .ok ([], ⟨rest, stopOf last xs⟩) :=
    readOthers_none (by omega) hrest
  rw [readExpression]
  simp only [hfirst, hothers, ok_bind, pure_ok, List.getLast?_nil]

theorem accepts_sequence (hstart : ∀ rest, Stops 2 (ys ++ rest))
    (hfirst : Accepts (readAssignment ending) 16 (Stops 2) xs first)
    (hothers : Accepts (readOthers ending) 1 (Stops 1) ys es) (hfinal : es.getLast? = some final) :
    Accepts (readExpression ending) 17 (Stops 1) (xs ++ ys)
      (.sequence ⟨first.start, final.stop⟩ (first :: es)) := by
  intro n rest last hn hrest
  rw [List.length_append] at hn
  obtain ⟨n, rfl⟩ := exists_succ (n := n) (by omega)
  have h1 : readAssignment ending n ⟨xs ++ (ys ++ rest), last⟩ =
    .ok (first, ⟨ys ++ rest, stopOf last xs⟩) :=
    hfirst (by omega) (hstart rest)
  have h2 : readOthers ending n ⟨ys ++ rest, stopOf last xs⟩ =
    .ok (es, ⟨rest, stopOf (stopOf last xs) ys⟩) :=
    hothers (by omega) hrest
  rw [List.append_assoc, readExpression]
  simp only [h1, h2, ok_bind, pure_ok, hfinal, stopOf_append]

theorem accepts_lastOther (hopen : ∀ p, ending ≠ .failure p) (hcomma : c.token = .punct .comma)
    (h : Accepts (readAssignment ending) 16 (Stops 2) xs e) :
    Accepts (readOthers ending) 1 (Stops 1) (c :: xs) [e] := by
  intro n rest last hn hrest
  rw [List.length_cons] at hn
  obtain ⟨n, rfl⟩ := exists_succ (n := n) (by omega)
  have h1 : readAssignment ending n ⟨xs ++ rest, c.stop⟩ = .ok (e, ⟨rest, stopOf c.stop xs⟩) :=
    h (by omega) (hrest.mono (by decide))
  have h2 : readOthers ending n ⟨rest, stopOf c.stop xs⟩ = .ok ([], ⟨rest, stopOf c.stop xs⟩) :=
    readOthers_none (by omega) hrest
  rw [List.cons_append, readOthers, Reading.sees_cons hcomma]
  simp only [Reading.take_cons hopen, h1, h2, ok_bind, pure_ok, if_true, stopOf_cons]

theorem accepts_other (hopen : ∀ p, ending ≠ .failure p) (hstart : ∀ rest, Stops 2 (ys ++ rest))
    (hcomma : c.token = .punct .comma) (h : Accepts (readAssignment ending) 16 (Stops 2) xs e)
    (hothers : Accepts (readOthers ending) 1 (Stops 1) ys es) :
    Accepts (readOthers ending) 1 (Stops 1) (c :: (xs ++ ys)) (e :: es) := by
  intro n rest last hn hrest
  rw [List.length_cons, List.length_append] at hn
  obtain ⟨n, rfl⟩ := exists_succ (n := n) (by omega)
  have h1 : readAssignment ending n ⟨xs ++ (ys ++ rest), c.stop⟩ =
    .ok (e, ⟨ys ++ rest, stopOf c.stop xs⟩) :=
    h (by omega) (hstart rest)
  have h2 : readOthers ending n ⟨ys ++ rest, stopOf c.stop xs⟩ =
      .ok (es, ⟨rest, stopOf (stopOf c.stop xs) ys⟩) :=
    hothers (by omega) hrest
  rw [List.cons_append, List.append_assoc, readOthers, Reading.sees_cons hcomma]
  simp only [Reading.take_cons hopen, h1, h2, ok_bind, pure_ok, if_true, stopOf_cons, stopOf_append]

/-! Assignments and conditionals. -/

theorem accepts_assignment (hopen : ∀ p, ending ≠ .failure p) {op : AssignOp} {target value : Expr}
    (htarget : Accepts (fun n => readLevel ending n 0) 15 (Stops 3) xs target)
    (hop : AssignOp.ofToken? o.token = some op)
    (hvalue : Accepts (readAssignment ending) 16 (Stops 2) ys value)
    (hassigns : target.isTarget = true) :
    Accepts (readAssignment ending) 16 (Stops 2) (xs ++ o :: ys)
      (.assignment ⟨target.start, value.stop⟩ op target value) := by
  intro n rest last hn hrest
  rw [List.length_append, List.length_cons] at hn
  obtain ⟨n, rfl⟩ := exists_succ (n := n) (by omega)
  -- an assignment operator binds less than what may go on with the target
  have hbinding : o.token.binding < 3 := by
    rw [Token.binding_of_assignment hop]
    decide
  have h1 : readLevel ending n 0 ⟨xs ++ o :: (ys ++ rest), last⟩ =
      .ok (target, ⟨o :: (ys ++ rest), stopOf last xs⟩) :=
    htarget (by omega) (stops_cons hbinding)
  have h2 : readAssignment ending n ⟨ys ++ rest, o.stop⟩ = .ok (value, ⟨rest, stopOf o.stop ys⟩) :=
    hvalue (by omega) hrest
  -- only what may be assigned to gets here, the rest is refused with a message of its own
  have h3 : Expr.ofAssignment op target value =
      .ok (.assignment ⟨target.start, value.stop⟩ op target value) := if_pos hassigns
  have hpeek : (Reading.peek? ⟨o :: (ys ++ rest), stopOf last xs⟩).bind AssignOp.ofToken? =
    some op := hop
  rw [List.append_assoc, List.cons_append, readAssignment]
  simp only [h1, ok_bind, hpeek, Reading.take_cons hopen, h2, h3, pure_ok, stopOf_append,
    stopOf_cons]

theorem accepts_unconditional (h : Accepts (fun n => readLevel ending n 0) 15 (Stops 3) xs e) :
    Accepts (readAssignment ending) 16 (Stops 2) xs e := by
  intro n rest last hn hrest
  obtain ⟨n, rfl⟩ := exists_succ (n := n) (by omega)
  have h1 : readLevel ending n 0 ⟨xs ++ rest, last⟩ = .ok (e, ⟨rest, stopOf last xs⟩) :=
    h (by omega) (hrest.mono (by decide))
  have hpeek : (Reading.peek? ⟨rest, stopOf last xs⟩).bind AssignOp.ofToken? = none :=
    Reading.peek_eq_none fun l hl => Token.not_assignment_of_binding (hrest l hl)
  have hquestion : Reading.sees ⟨rest, stopOf last xs⟩ .question = false :=
    Reading.not_sees hrest (by decide)
  rw [readAssignment]
  simp only [h1, ok_bind, hpeek, hquestion, pure_ok, Bool.false_eq_true, if_false]

theorem accepts_conditional (hopen : ∀ p, ending ≠ .failure p) {test consequent alternate : Expr}
    (htest : Accepts (fun n => readLevel ending n 0) 15 (Stops 3) xs test)
    (hquestion : q.token = .punct .question)
    (hconsequent : Accepts (readAssignment ending) 16 (Stops 2) ys consequent)
    (hcolon : c.token = .punct .colon)
    (halternate : Accepts (readAssignment ending) 16 (Stops 2) zs alternate) :
    Accepts (readAssignment ending) 16 (Stops 2) (xs ++ q :: (ys ++ c :: zs))
      (.conditional ⟨test.start, alternate.stop⟩ test consequent alternate) := by
  intro n rest last hn hrest
  rw [List.length_append, List.length_cons, List.length_append, List.length_cons] at hn
  obtain ⟨n, rfl⟩ := exists_succ (n := n) (by omega)
  have h1 : readLevel ending n 0 ⟨xs ++ q :: (ys ++ c :: (zs ++ rest)), last⟩ =
      .ok (test, ⟨q :: (ys ++ c :: (zs ++ rest)), stopOf last xs⟩) :=
    htest (by omega) (stops_mark hquestion (by decide))
  have h2 : readAssignment ending n ⟨ys ++ c :: (zs ++ rest), q.stop⟩ =
      .ok (consequent, ⟨c :: (zs ++ rest), stopOf q.stop ys⟩) :=
    hconsequent (by omega) (stops_mark hcolon (by decide))
  have h3 : readAssignment ending n ⟨zs ++ rest, c.stop⟩ =
    .ok (alternate, ⟨rest, stopOf c.stop zs⟩) :=
    halternate (by omega) hrest
  -- the question mark is no assignment operator, so the target is a test
  have hpeek : (Reading.peek? ⟨q :: (ys ++ c :: (zs ++ rest)), stopOf last xs⟩).bind
    AssignOp.ofToken? = none :=
    congrArg AssignOp.ofToken? hquestion
  rw [List.append_assoc, List.cons_append, List.append_assoc, List.cons_append, readAssignment]
  simp only [h1, ok_bind, hpeek, Reading.sees_cons hquestion, Reading.take_cons hopen, h2,
    Reading.expect_cons hopen hcolon, h3, pure_ok, if_true, stopOf_append, stopOf_cons]

/-! Operators between operands. -/

/-- No operator of a level follows. -/
theorem readJoined_none {n last : Nat} {rest : List Lexeme} (hn : 0 < n)
    (hrest : Stops (3 + level) rest) :
    readJoined ending n level e ⟨rest, last⟩ = .ok (e, ⟨rest, last⟩) := by
  obtain ⟨n, rfl⟩ := exists_succ hn
  have hpeek : (Reading.peek? ⟨rest, last⟩).bind (Connective.ofToken? level) = none :=
    Reading.peek_eq_none fun l hl => Token.not_connective_of_binding (hrest l hl)
  rw [readJoined, hpeek]

theorem Joins.accepts (h : Joins ending level xs e) (hlevel : level < 10) :
    Accepts (fun n => readLevel ending n level) (15 - level) (Stops (3 + level)) xs e := by
  obtain ⟨taken, htaken, hjoins⟩ := h
  intro n rest last hn hrest
  obtain ⟨m, rfl⟩ : ∃ m, n = m + taken + 1 := ⟨n - taken - 1, by omega⟩
  show readLevel ending (m + taken + 1) level ⟨xs ++ rest, last⟩ = _
  rw [hjoins (by omega) (hrest.mono (by omega)), readJoined_none (by omega) hrest]

theorem accepts_lastLevel (h : Accepts (readPower ending) 4 (Stops 13) xs e) :
    Accepts (fun n => readLevel ending n 10) 5 (Stops 13) xs e := by
  intro n rest last hn hrest
  obtain ⟨n, rfl⟩ := exists_succ (n := n) (by omega)
  show readLevel ending (n + 1) 10 ⟨xs ++ rest, last⟩ = _
  rw [readLevel, if_neg (by decide)]
  exact h (by omega) hrest

/-- A tier is read on its level. -/
theorem accepts_level (h : Accepted ending (.tier level) xs e) (hlevel : level ≤ 10) :
    Accepts (fun n => readLevel ending n level) (15 - level) (Stops (3 + level)) xs e := by
  by_cases hlt : level < 10
  · rw [Accepted, if_pos hlt] at h
    exact h.accepts hlt
  · obtain rfl : level = 10 := by omega
    rw [Accepted, if_neg hlt] at h
    exact accepts_lastLevel h

theorem joins_tighter (hlevel : level < 10) (hxs : xs ≠ [])
    (h : Accepts (fun n => readLevel ending n (level + 1)) (14 - level) (Stops (4 + level)) xs e) :
    Joins ending level xs e := by
  refine ⟨0, List.length_pos_iff.2 hxs, fun {n rest last} hn hrest => ?_⟩
  have h1 : readLevel ending n (level + 1) ⟨xs ++ rest, last⟩ = .ok (e, ⟨rest, stopOf last xs⟩) :=
    h hn hrest
  rw [Nat.add_zero, readLevel, if_pos (show level < Connective.levels from hlevel)]
  simp only [h1, ok_bind]

theorem joins_joined (hopen : ∀ p, ending ≠ .failure p) {op : Connective}
    (hleft : Joins ending level xs left) (hop : Connective.ofToken? level o.token = some op)
    (hright : Accepts (fun n => readLevel ending n (level + 1)) (14 - level) (Stops (4 + level))
      ys right) :
    Joins ending level (xs ++ o :: ys) (op.join left right) := by
  obtain ⟨taken, htaken, hjoins⟩ := hleft
  refine ⟨taken + 1, ?_, fun {n rest last} hn hrest => ?_⟩
  · rw [List.length_append, List.length_cons]
    omega
  · rw [List.length_append, List.length_cons] at hn
    have hbinding : o.token.binding < 4 + level := by
      rw [Token.binding_of_connective hop]
      omega
    -- the left operand is taken by the same level, which then goes on with its operator
    have h1 : readLevel ending (n + 1 + taken + 1) level ⟨xs ++ o :: (ys ++ rest), last⟩ =
        readJoined ending (n + 1) level left ⟨o :: (ys ++ rest), stopOf last xs⟩ :=
      hjoins (by omega) (stops_cons hbinding)
    have h2 : readLevel ending n (level + 1) ⟨ys ++ rest, o.stop⟩ =
      .ok (right, ⟨rest, stopOf o.stop ys⟩) :=
      hright (by omega) hrest
    have hpeek : (Reading.peek? ⟨o :: (ys ++ rest), stopOf last xs⟩).bind
      (Connective.ofToken? level) =
        some op := hop
    rw [List.append_assoc, List.cons_append,
      show n + (taken + 1) + 1 = n + 1 + taken + 1 by omega, h1, readJoined]
    simp only [hpeek, Reading.take_cons hopen, h2, ok_bind, stopOf_append, stopOf_cons]

theorem accepts_base (h : Accepts (readUnary ending) 3 (Stops 14) xs e) :
    Accepts (readPower ending) 4 (Stops 13) xs e := by
  intro n rest last hn hrest
  obtain ⟨n, rfl⟩ := exists_succ (n := n) (by omega)
  have h1 : readUnary ending n ⟨xs ++ rest, last⟩ = .ok (e, ⟨rest, stopOf last xs⟩) :=
    h (by omega) (hrest.mono (by decide))
  have h2 : Reading.require ending Token.endsUpdated ⟨rest, stopOf last xs⟩ =
    .ok ⟨rest, stopOf last xs⟩ :=
    Reading.require_eq_ok fun l hl => Token.endsUpdated_of_binding ((hrest.mono (by decide)) l hl)
  have hpower : Reading.sees ⟨rest, stopOf last xs⟩ .power = false :=
    Reading.not_sees hrest (by decide)
  rw [readPower]
  simp only [h1, ok_bind, h2, hpower, pure_ok, Bool.false_eq_true, if_false]

theorem accepts_power (hopen : ∀ p, ending ≠ .failure p)
    (hleft : Accepts (readUnary ending) 3 (Stops 14) xs left)
    (hpower : o.token = .punct .power) (hright : Accepts (readPower ending) 4 (Stops 13) ys right) :
    Accepts (readPower ending) 4 (Stops 13) (xs ++ o :: ys)
      (.binary ⟨left.start, right.stop⟩ .power left right) := by
  intro n rest last hn hrest
  rw [List.length_append, List.length_cons] at hn
  obtain ⟨n, rfl⟩ := exists_succ (n := n) (by omega)
  -- the base ends where the power stands: nothing in it binds as strongly
  have hstops : Stops 14 (o :: (ys ++ rest)) := stops_mark hpower (by decide)
  have h1 : readUnary ending n ⟨xs ++ o :: (ys ++ rest), last⟩ =
      .ok (left, ⟨o :: (ys ++ rest), stopOf last xs⟩) := hleft (by omega) hstops
  have h2 : Reading.require ending Token.endsUpdated ⟨o :: (ys ++ rest), stopOf last xs⟩ =
      .ok ⟨o :: (ys ++ rest), stopOf last xs⟩ :=
    Reading.require_eq_ok fun l hl => Token.endsUpdated_of_binding (hstops l hl)
  have h3 : readPower ending n ⟨ys ++ rest, o.stop⟩ = .ok (right, ⟨rest, stopOf o.stop ys⟩) :=
    hright (by omega) hrest
  rw [List.append_assoc, List.cons_append, readPower]
  simp only [h1, ok_bind, h2, Reading.sees_cons hpower, Reading.take_cons hopen, h3,
    pure_ok, if_true, stopOf_append, stopOf_cons]
  rfl

/-! Operators in front of an operand and behind it. -/

theorem accepts_unoperated (hstarts : Starts .updated xs)
    (h : Accepts (readUpdated ending) 2 (Stops 14) xs e) :
    Accepts (readUnary ending) 3 (Stops 14) xs e := by
  intro n rest last hn hrest
  obtain ⟨n, rfl⟩ := exists_succ (n := n) (by omega)
  rcases hstarts with ⟨hlist, -⟩ | ⟨l, others, rfl, hleads⟩
  · exact nomatch hlist
  · obtain ⟨hunary, hupdate⟩ := Token.not_operator_of_leads hleads
    have h1 : (Reading.peek? ⟨l :: others ++ rest, last⟩).bind UnaryOp.ofToken? = none := hunary
    have h2 : (Reading.peek? ⟨l :: others ++ rest, last⟩).bind UpdateOp.ofToken? = none := hupdate
    rw [readUnary]
    simp only [h1, h2]
    exact h (by omega) hrest

theorem accepts_unary (hopen : ∀ p, ending ≠ .failure p) {op : UnaryOp}
    (hop : UnaryOp.ofToken? o.token = some op) (h : Accepts (readUnary ending) 3 (Stops 14) xs e) :
    Accepts (readUnary ending) 3 (Stops 14) (o :: xs) (.unary ⟨o.start, e.stop⟩ op e) := by
  intro n rest last hn hrest
  rw [List.length_cons] at hn
  obtain ⟨n, rfl⟩ := exists_succ (n := n) (by omega)
  have h1 : (Reading.peek? ⟨o :: (xs ++ rest), last⟩).bind UnaryOp.ofToken? = some op := hop
  have h2 : readUnary ending n ⟨xs ++ rest, o.stop⟩ = .ok (e, ⟨rest, stopOf o.stop xs⟩) :=
    h (by omega) hrest
  rw [List.cons_append, readUnary]
  simp only [h1, Reading.take_cons hopen, h2, ok_bind, pure_ok, stopOf_cons]
  rfl

theorem accepts_updateBefore (hopen : ∀ p, ending ≠ .failure p) {op : UpdateOp}
    (hop : UpdateOp.ofToken? o.token = some op) (h : Accepts (readUnary ending) 3 (Stops 14) xs e)
    (hassigns : e.isTarget = true) :
    Accepts (readUnary ending) 3 (Stops 14) (o :: xs) (.update (spanOf (o :: xs)) op true e) := by
  intro n rest last hn hrest
  rw [List.length_cons] at hn
  obtain ⟨n, rfl⟩ := exists_succ (n := n) (by omega)
  have h1 : (Reading.peek? ⟨o :: (xs ++ rest), last⟩).bind UnaryOp.ofToken? = none :=
    Token.not_unary_of_update hop
  have h2 : (Reading.peek? ⟨o :: (xs ++ rest), last⟩).bind UpdateOp.ofToken? = some op := hop
  have h3 : readUnary ending n ⟨xs ++ rest, o.stop⟩ = .ok (e, ⟨rest, stopOf o.stop xs⟩) :=
    h (by omega) hrest
  have h4 : ∀ span, Expr.ofUpdate op true e span = .ok (.update span op true e) := fun span =>
    if_pos hassigns
  rw [List.cons_append, readUnary]
  simp only [h1, h2, Reading.take_cons hopen, h3, h4, ok_bind, pure_ok, stopOf_cons]
  rfl

/-- An operand was read, and an update operator may follow. -/
theorem readUpdated_of_operand {n : Nat} {r r' : Reading}
    (h : readOperand ending n r = .ok (e, r')) :
    readUpdated ending (n + 1) r =
      match r'.peek?.bind UpdateOp.ofToken? with
      | some op => do
        let r ← r'.take ending
        let r ← r.require ending Token.endsUpdated
        let e ← Expr.ofUpdate op false e ⟨e.start, r.last⟩
        return (e, r)
      | none => return (e, r') := by
  unfold readOperand at h
  rw [readUpdated]
  rcases hprimary : readPrimary ending n r with p | ⟨primary, r₁⟩
  · rw [hprimary] at h
    exact nomatch h
  · rw [hprimary] at h
    simp only [ok_bind] at h ⊢
    rw [h]
    rfl

theorem accepts_notUpdated (h : Accepts (readOperand ending) 1 (Stops 15) xs e) :
    Accepts (readUpdated ending) 2 (Stops 14) xs e := by
  intro n rest last hn hrest
  obtain ⟨n, rfl⟩ := exists_succ (n := n) (by omega)
  have h1 : readOperand ending n ⟨xs ++ rest, last⟩ = .ok (e, ⟨rest, stopOf last xs⟩) :=
    h (by omega) (hrest.mono (by decide))
  have h2 : (Reading.peek? ⟨rest, stopOf last xs⟩).bind UpdateOp.ofToken? = none :=
    Reading.peek_eq_none fun l hl => Token.not_update_of_binding (hrest l hl)
  rw [readUpdated_of_operand h1]
  simp only [h2, pure_ok]

theorem accepts_updateBehind (hopen : ∀ p, ending ≠ .failure p) {op : UpdateOp}
    (h : Accepts (readOperand ending) 1 (Stops 15) xs e) (hop : UpdateOp.ofToken? o.token = some op)
    (hassigns : e.isTarget = true) :
    Accepts (readUpdated ending) 2 (Stops 14) (xs ++ [o])
      (.update ⟨e.start, o.stop⟩ op false e) := by
  intro n rest last hn hrest
  rw [List.length_append, List.length_singleton] at hn
  obtain ⟨n, rfl⟩ := exists_succ (n := n) (by omega)
  have hbinding : o.token.binding < 15 := by
    rw [Token.binding_of_update hop]
    decide
  have h1 : readOperand ending n ⟨xs ++ o :: rest, last⟩ = .ok (e, ⟨o :: rest, stopOf last xs⟩) :=
    h (by omega) (stops_cons hbinding)
  have h2 : (Reading.peek? ⟨o :: rest, stopOf last xs⟩).bind UpdateOp.ofToken? = some op := hop
  -- a second `++` behind the first is refused, but here something weaker follows
  have h3 : Reading.require ending Token.endsUpdated ⟨rest, o.stop⟩ = .ok ⟨rest, o.stop⟩ :=
    Reading.require_eq_ok fun l hl => Token.endsUpdated_of_binding (hrest l hl)
  have h4 : ∀ span, Expr.ofUpdate op false e span = .ok (.update span op false e) := fun span =>
    if_pos hassigns
  rw [List.append_assoc, List.singleton_append, readUpdated_of_operand h1]
  simp only [h2, Reading.take_cons hopen, h3, h4, ok_bind, pure_ok, stopOf_append, stopOf_cons,
    stopOf_nil]

/-! Members and calls. -/

/-- No member and no call follows. -/
theorem readLinks_none {n start last : Nat} {rest : List Lexeme} (hn : 0 < n)
    (hrest : Stops 15 rest) :
    readLinks ending n start e cut ⟨rest, last⟩ =
      .ok (if cut then .chain ⟨start, last⟩ e else e, ⟨rest, last⟩) := by
  obtain ⟨n, rfl⟩ := exists_succ hn
  -- every token that could go on with a chain binds stronger than what follows here
  have hrequire : Reading.require ending Token.endsOperand ⟨rest, last⟩ = .ok ⟨rest, last⟩ :=
    Reading.require_eq_ok fun l hl => Token.endsOperand_of_binding (Nat.lt_succ_of_lt (hrest l hl))
  have hseen : ∀ p, (Reading.peek? ⟨rest, last⟩) = some (.punct p) →
    (Token.punct p).binding < 15 := by
    intro p hpeek
    cases rest with
    | nil => exact nomatch hpeek
    | cons l others =>
      obtain hl : l.token = .punct p := Option.some.inj hpeek
      exact hl ▸ hrest l rfl
  rw [readLinks]
  split
  · next hpeek => exact absurd (hseen _ hpeek) (by decide)
  · next hpeek => exact absurd (hseen _ hpeek) (by decide)
  · next hpeek => exact absurd (hseen _ hpeek) (by decide)
  · next hpeek => exact absurd (hseen _ hpeek) (by decide)
  · simp only [hrequire, ok_bind, pure_ok]

theorem Links.accepts (h : Links ending xs e cut) :
    Accepts (readOperand ending) 1 (Stops 15) xs (if cut then .chain (spanOf xs) e else e) := by
  obtain ⟨taken, htaken, hlinks⟩ := h
  intro n rest last hn hrest
  obtain ⟨m, rfl⟩ : ∃ m, n = m + taken := ⟨n - taken, by omega⟩
  have hspan : (⟨(spanOf xs).start, stopOf last xs⟩ : Span) = spanOf xs := by
    cases xs with
    | nil => exact absurd htaken (Nat.not_lt_zero _)
    | cons l others => rfl
  rw [hlinks hn, readLinks_none (by omega) hrest, hspan]

theorem links_bare (hxs : xs ≠ []) (h : Accepts (readPrimary ending) 1 (fun _ => True) xs e) :
    Links ending xs e false := by
  refine ⟨0, List.length_pos_iff.2 hxs, fun {n rest last} hn => ?_⟩
  have h1 : readPrimary ending n ⟨xs ++ rest, last⟩ = .ok (e, ⟨rest, stopOf last xs⟩) :=
    h hn trivial
  have hhere : Reading.here ⟨xs ++ rest, last⟩ = (spanOf xs).start := by
    cases xs with
    | nil => exact absurd rfl hxs
    | cons l others => rfl
  rw [Nat.add_zero, readOperand]
  simp only [h1, ok_bind, hhere]

/-- A link: the loop goes around once more behind what was derived so far. -/
theorem links_link {cut' : Bool} {linked : Expr} (hxs : Links ending xs e cut)
    (hlink : ∀ {n rest last}, 20 * ys.length ≤ n + 20 →
      readLinks ending (n + 1) (spanOf xs).start e cut ⟨ys ++ rest, last⟩ =
        readLinks ending n (spanOf (xs ++ ys)).start linked cut' ⟨rest, stopOf last ys⟩) :
    ys ≠ [] → Links ending (xs ++ ys) linked cut' := by
  intro hys
  have hlength : 0 < ys.length := List.length_pos_iff.2 hys
  obtain ⟨taken, htaken, hlinks⟩ := hxs
  refine ⟨taken + 1, ?_, fun {n rest last} hn => ?_⟩
  · rw [List.length_append]
    omega
  · rw [List.length_append] at hn
    have h1 : readOperand ending (n + 1 + taken) ⟨xs ++ (ys ++ rest), last⟩ =
        readLinks ending (n + 1) (spanOf xs).start e cut ⟨ys ++ rest, stopOf last xs⟩ :=
        hlinks (by omega)
    rw [List.append_assoc, show n + (taken + 1) =
      n + 1 + taken by omega, h1, hlink (by omega), stopOf_append]

theorem Links.ne_nil (h : Links ending xs e cut) : xs ≠ [] := by
  obtain ⟨taken, htaken, -⟩ := h
  exact List.length_pos_iff.1 (Nat.zero_lt_of_lt htaken)

theorem readName_cons (hopen : ∀ p, ending ≠ .failure p) {rest : List Lexeme} {last : Nat}
    (hname : PropertyName l.token name) :
    readName ending ⟨l :: rest, last⟩ = .ok (name, ⟨rest, l.stop⟩) := by
  have hpeek : (Reading.peek? ⟨l :: rest, last⟩).bind Token.name? = some name :=
    propertyName_iff.1 hname
  rw [readName, hpeek, Reading.take_cons hopen]
  rfl

theorem accepts_named (hopen : ∀ p, ending ≠ .failure p) (h : Links ending xs e cut)
    (hdot : o.token = .punct .dot) (hname : PropertyName l.token name) :
    Links ending (xs ++ [o, l]) (.member (spanOf (xs ++ [o, l])) e (.named name) false) cut := by
  have hspan : spanOf (xs ++ [o, l]) = ⟨(spanOf xs).start, l.stop⟩ := spanOf_append h.ne_nil
  refine links_link h (fun {n rest last} hn => ?_) (List.cons_ne_nil _ _)
  have hpeek : Reading.peek? ⟨o :: l :: rest, last⟩ = some (.punct .dot) := congrArg some hdot
  rw [hspan, List.cons_append, List.singleton_append, readLinks]
  simp only [hpeek, Reading.take_cons hopen, readName_cons hopen hname, ok_bind, stopOf_cons,
    stopOf_nil]

theorem accepts_optionalNamed (hopen : ∀ p, ending ≠ .failure p) (h : Links ending xs e cut)
    (hdot : q.token = .punct .questionDot) (hname : PropertyName l.token name) :
    Links ending (xs ++ [q, l]) (.member (spanOf (xs ++ [q, l])) e (.named name) true) true := by
  have hspan : spanOf (xs ++ [q, l]) = ⟨(spanOf xs).start, l.stop⟩ := spanOf_append h.ne_nil
  refine links_link h (fun {n rest last} hn => ?_) (List.cons_ne_nil _ _)
  have hpeek : Reading.peek? ⟨q :: l :: rest, last⟩ = some (.punct .questionDot) :=
    congrArg some hdot
  rw [hspan, List.cons_append, List.singleton_append, readLinks]
  simp only [hpeek, Reading.take_cons hopen, ok_bind, stopOf_cons, stopOf_nil]
  have hread : readName ending ⟨l :: rest, q.stop⟩ = .ok (name, ⟨rest, l.stop⟩) :=
    readName_cons hopen hname
  obtain ⟨t, start, stop⟩ := l
  cases hname <;> simp only [Reading.peek?, hread, ok_bind]

theorem accepts_computed (hopen : ∀ p, ending ≠ .failure p) {key : Expr} (h : Links ending xs e cut)
    (hopener : o.token = .punct .leftBracket)
    (hkey : Accepts (readExpression ending) 17 (Stops 1) ys key)
    (hcloser : c.token = .punct .rightBracket) :
    Links ending (xs ++ o :: (ys ++ [c]))
    (.member (spanOf (xs ++ o :: (ys ++ [c]))) e (.computed key) false)
      cut := by
  have hspan : spanOf (xs ++ o :: (ys ++ [c])) = ⟨(spanOf xs).start, c.stop⟩ := by
    rw [spanOf_append h.ne_nil, stopOf_cons, stopOf_append]
    rfl
  refine links_link h (fun {n rest last} hn => ?_) (List.cons_ne_nil _ _)
  -- one unit of fuel is for the link, the others are for its key
  rw [List.length_cons, List.length_append, List.length_singleton] at hn
  have hpeek : Reading.peek? ⟨o :: (ys ++ c :: rest), last⟩ = some (.punct .leftBracket) :=
    congrArg some hopener
  have hread : readExpression ending n ⟨ys ++ c :: rest, o.stop⟩ =
    .ok (key, ⟨c :: rest, stopOf o.stop ys⟩) :=
    hkey (by omega) (stops_mark hcloser (by decide))
  rw [hspan, List.cons_append, List.append_assoc, List.singleton_append, readLinks]
  simp only [hpeek, Reading.take_cons hopen, hread, Reading.expect_cons hopen hcloser, ok_bind,
    stopOf_cons, stopOf_append, stopOf_nil]

theorem accepts_optionalComputed (hopen : ∀ p, ending ≠ .failure p) {key : Expr}
    (h : Links ending xs e cut)
    (hdot : q.token = .punct .questionDot) (hopener : o.token = .punct .leftBracket)
    (hkey : Accepts (readExpression ending) 17 (Stops 1) ys key)
    (hcloser : c.token = .punct .rightBracket) :
    Links ending (xs ++ q :: o :: (ys ++ [c]))
      (.member (spanOf (xs ++ q :: o :: (ys ++ [c]))) e (.computed key) true) true := by
  have hspan : spanOf (xs ++ q :: o :: (ys ++ [c])) = ⟨(spanOf xs).start, c.stop⟩ := by
    rw [spanOf_append h.ne_nil, stopOf_cons, stopOf_cons, stopOf_append]
    rfl
  refine links_link h (fun {n rest last} hn => ?_) (List.cons_ne_nil _ _)
  rw [List.length_cons, List.length_cons, List.length_append, List.length_singleton] at hn
  have hpeek : Reading.peek? ⟨q :: o :: (ys ++ c :: rest), last⟩ = some (.punct .questionDot) :=
    congrArg some hdot
  have hpeek' : Reading.peek? ⟨o :: (ys ++ c :: rest), q.stop⟩ = some (.punct .leftBracket) :=
    congrArg some hopener
  have hread : readExpression ending n ⟨ys ++ c :: rest, o.stop⟩ =
    .ok (key, ⟨c :: rest, stopOf o.stop ys⟩) :=
    hkey (by omega) (stops_mark hcloser (by decide))
  rw [hspan, List.cons_append, List.cons_append, List.append_assoc, List.singleton_append,
    readLinks]
  simp only [hpeek, hpeek', Reading.take_cons hopen, hread, Reading.expect_cons hopen hcloser,
    ok_bind, stopOf_cons, stopOf_append, stopOf_nil]

theorem accepts_call (hopen : ∀ p, ending ≠ .failure p) {arguments : List Element}
    (h : Links ending xs e cut) (hopener : o.token = .punct .leftParen)
    (harguments : Accepts (readElements ending) 18
      (Precedes [.rightBracket, .rightParen]) ys arguments)
    (hcloser : c.token = .punct .rightParen) :
    Links ending (xs ++ o :: (ys ++ [c]))
    (.call (spanOf (xs ++ o :: (ys ++ [c]))) e arguments false) cut := by
  have hspan : spanOf (xs ++ o :: (ys ++ [c])) = ⟨(spanOf xs).start, c.stop⟩ := by
    rw [spanOf_append h.ne_nil, stopOf_cons, stopOf_append]
    rfl
  refine links_link h (fun {n rest last} hn => ?_) (List.cons_ne_nil _ _)
  rw [List.length_cons, List.length_append, List.length_singleton] at hn
  have hpeek : Reading.peek? ⟨o :: (ys ++ c :: rest), last⟩ = some (.punct .leftParen) :=
    congrArg some hopener
  have hread : readElements ending n ⟨ys ++ c :: rest, o.stop⟩ =
      .ok (arguments, ⟨c :: rest, stopOf o.stop ys⟩) :=
    harguments (by omega) ⟨c, rest, .rightParen, by simp, rfl, hcloser⟩
  rw [hspan, List.cons_append, List.append_assoc, List.singleton_append, readLinks]
  simp only [hpeek, Reading.take_cons hopen, hread, Reading.expect_cons hopen hcloser, ok_bind,
    stopOf_cons, stopOf_append, stopOf_nil]

theorem accepts_optionalCall (hopen : ∀ p, ending ≠ .failure p) {arguments : List Element}
    (h : Links ending xs e cut) (hdot : q.token = .punct .questionDot)
    (hopener : o.token = .punct .leftParen)
    (harguments : Accepts (readElements ending) 18
      (Precedes [.rightBracket, .rightParen]) ys arguments)
    (hcloser : c.token = .punct .rightParen) :
    Links ending (xs ++ q :: o :: (ys ++ [c]))
    (.call (spanOf (xs ++ q :: o :: (ys ++ [c]))) e arguments true)
      true := by
  have hspan : spanOf (xs ++ q :: o :: (ys ++ [c])) = ⟨(spanOf xs).start, c.stop⟩ := by
    rw [spanOf_append h.ne_nil, stopOf_cons, stopOf_cons, stopOf_append]
    rfl
  refine links_link h (fun {n rest last} hn => ?_) (List.cons_ne_nil _ _)
  rw [List.length_cons, List.length_cons, List.length_append, List.length_singleton] at hn
  have hpeek : Reading.peek? ⟨q :: o :: (ys ++ c :: rest), last⟩ = some (.punct .questionDot) :=
    congrArg some hdot
  have hpeek' : Reading.peek? ⟨o :: (ys ++ c :: rest), q.stop⟩ = some (.punct .leftParen) :=
    congrArg some hopener
  have hread : readElements ending n ⟨ys ++ c :: rest, o.stop⟩ =
      .ok (arguments, ⟨c :: rest, stopOf o.stop ys⟩) :=
    harguments (by omega) ⟨c, rest, .rightParen, by simp, rfl, hcloser⟩
  rw [hspan, List.cons_append, List.cons_append, List.append_assoc, List.singleton_append,
    readLinks]
  simp only [hpeek, hpeek', Reading.take_cons hopen, hread, Reading.expect_cons hopen hcloser,
    ok_bind, stopOf_cons, stopOf_append, stopOf_nil]

/-! Primary expressions. -/

theorem accepts_literal (hopen : ∀ p, ending ≠ .failure p) {value : Literal}
    (h : Denotes l.token value) :
    Accepts (readPrimary ending) 1 (fun _ => True) [l] (.literal ⟨l.start, l.stop⟩ value) := by
  intro n rest last hn _
  obtain ⟨n, rfl⟩ := exists_succ (n := n) (by omega)
  have htable := denotes_iff.1 h
  rw [List.singleton_append, readPrimary]
  obtain ⟨t, start, stop⟩ := l
  cases h <;> simp only [Reading.peek?, htable, Reading.take_cons hopen, ok_bind, pure_ok] <;> rfl

theorem accepts_identifier (hopen : ∀ p, ending ≠ .failure p) (h : l.token = .identifier name) :
    Accepts (readPrimary ending) 1 (fun _ => True) [l] (.identifier ⟨l.start, l.stop⟩ name) := by
  intro n rest last hn _
  obtain ⟨n, rfl⟩ := exists_succ (n := n) (by omega)
  have hpeek : Reading.peek? ⟨l :: rest, last⟩ = some (.identifier name) := congrArg some h
  rw [List.singleton_append, readPrimary]
  simp only [hpeek, Reading.take_cons hopen, ok_bind, pure_ok]
  rfl

theorem accepts_bracketed (hopen : ∀ p, ending ≠ .failure p) (hopener : o.token = .punct .leftParen)
    (h : Accepts (readExpression ending) 17 (Stops 1) xs e)
    (hcloser : c.token = .punct .rightParen) :
    Accepts (readPrimary ending) 1 (fun _ => True) (o :: (xs ++ [c])) e := by
  intro n rest last hn _
  rw [List.length_cons, List.length_append, List.length_singleton] at hn
  obtain ⟨n, rfl⟩ := exists_succ (n := n) (by omega)
  have hpeek : Reading.peek? ⟨o :: (xs ++ c :: rest), last⟩ = some (.punct .leftParen) :=
    congrArg some hopener
  have hread : readExpression ending n ⟨xs ++ c :: rest, o.stop⟩ =
    .ok (e, ⟨c :: rest, stopOf o.stop xs⟩) :=
    h (by omega) (stops_mark hcloser (by decide))
  rw [List.cons_append, List.append_assoc, List.singleton_append, readPrimary]
  simp only [hpeek, Reading.take_cons hopen, hread, Reading.expect_cons hopen hcloser,
    ok_bind, pure_ok, stopOf_cons, stopOf_append, stopOf_nil]

theorem accepts_array (hopen : ∀ p, ending ≠ .failure p) {elements : List Element}
    (hopener : o.token = .punct .leftBracket)
    (h : Accepts (readElements ending) 18 (Precedes [.rightBracket, .rightParen]) xs elements)
    (hcloser : c.token = .punct .rightBracket) :
    Accepts (readPrimary ending) 1 (fun _ => True) (o :: (xs ++ [c]))
      (.array ⟨o.start, c.stop⟩ elements) := by
  intro n rest last hn _
  rw [List.length_cons, List.length_append, List.length_singleton] at hn
  obtain ⟨n, rfl⟩ := exists_succ (n := n) (by omega)
  have hpeek : Reading.peek? ⟨o :: (xs ++ c :: rest), last⟩ = some (.punct .leftBracket) :=
    congrArg some hopener
  have hread : readElements ending n ⟨xs ++ c :: rest, o.stop⟩ =
    .ok (elements, ⟨c :: rest, stopOf o.stop xs⟩) :=
    h (by omega) ⟨c, rest, .rightBracket, by simp, rfl, hcloser⟩
  rw [List.cons_append, List.append_assoc, List.singleton_append, readPrimary]
  simp only [hpeek, Reading.take_cons hopen, hread, Reading.expect_cons hopen hcloser,
    ok_bind, pure_ok, stopOf_cons, stopOf_append, stopOf_nil]
  rfl

theorem accepts_object (hopen : ∀ p, ending ≠ .failure p) {members : List Member}
    (hopener : o.token = .punct .leftBrace)
    (h : Accepts (readMembers ending) 2 (Precedes [.rightBrace]) xs members)
    (hcloser : c.token = .punct .rightBrace) :
    Accepts (readPrimary ending) 1 (fun _ => True) (o :: (xs ++ [c]))
      (.object ⟨o.start, c.stop⟩ members) := by
  intro n rest last hn _
  rw [List.length_cons, List.length_append, List.length_singleton] at hn
  obtain ⟨n, rfl⟩ := exists_succ (n := n) (by omega)
  have hpeek : Reading.peek? ⟨o :: (xs ++ c :: rest), last⟩ = some (.punct .leftBrace) :=
    congrArg some hopener
  have hread : readMembers ending n ⟨xs ++ c :: rest, o.stop⟩ =
    .ok (members, ⟨c :: rest, stopOf o.stop xs⟩) :=
    h (by omega) (precedes_cons hcloser)
  rw [List.cons_append, List.append_assoc, List.singleton_append, readPrimary]
  simp only [hpeek, Reading.take_cons hopen, hread, Reading.expect_cons hopen hcloser,
    ok_bind, pure_ok, stopOf_cons, stopOf_append, stopOf_nil]
  rfl

/-! Elements. -/

/-- One of two marks is seen. -/
theorem sees_either {p p' : Punct} {rest : List Lexeme} {last : Nat} (h : Precedes [p, p'] rest) :
    (Reading.sees ⟨rest, last⟩ p || Reading.sees ⟨rest, last⟩ p') = true := by
  obtain ⟨l, others, p'', hp, rfl, hl⟩ := h
  rcases List.mem_cons.1 hp with rfl | hp
  · rw [Reading.sees_cons hl, Bool.true_or]
  · obtain rfl := List.mem_singleton.1 hp
    rw [Reading.sees_cons hl, Bool.or_true]

/-- A mark that is further out than the first token is not seen. -/
theorem not_sees_of_starts {s : Symbol} {p : Punct} {rest : List Lexeme} {last : Nat}
    (h : Starts s xs)
    (hs : xs ≠ []) (hp : s.leads < (Token.punct p).leads) :
    Reading.sees ⟨xs ++ rest, last⟩ p = false := by
  rcases h with ⟨-, hnil⟩ | ⟨l, others, rfl, hleads⟩
  · exact absurd hnil hs
  · refine Bool.eq_false_iff.2 fun hsees => ?_
    obtain ⟨l', hl', htoken⟩ := Reading.sees_of_peek hsees
    obtain rfl : l = l' := Option.some.inj hl'
    exact absurd (htoken ▸ hleads) (Nat.not_le.2 hp)

theorem accepts_noElements :
    Accepts (readElements ending) 18 (Precedes [.rightBracket, .rightParen]) [] [] := by
  intro n rest last hn hrest
  obtain ⟨n, rfl⟩ := exists_succ (n := n) (by omega)
  rw [List.nil_append, readElements, if_pos (sees_either hrest)]
  rfl

theorem accepts_lastElement {x : Element} (hstarts : Starts .element xs)
    (h : Accepts (readElement ending) 17 (Stops 2) xs x) :
    Accepts (readElements ending) 18 (Precedes [.rightBracket, .rightParen]) xs [x] := by
  intro n rest last hn hrest
  have hxs : xs ≠ [] := hstarts.ne_nil rfl
  obtain ⟨n, rfl⟩ := exists_succ (n := n) (by omega)
  have hstops : Stops 1 rest := hrest.stops (by decide)
  have hread : readElement ending n ⟨xs ++ rest, last⟩ = .ok (x, ⟨rest, stopOf last xs⟩) :=
    h (by omega) (hstops.mono (by decide))
  have hcomma : Reading.sees ⟨rest, stopOf last xs⟩ .comma = false :=
    Reading.not_sees hstops (by decide)
  rw [readElements, not_sees_of_starts hstarts hxs (by decide),
    not_sees_of_starts hstarts hxs (by decide)]
  simp only [Bool.or_false, Bool.false_eq_true, if_false, hread, ok_bind, hcomma, pure_ok]

theorem accepts_moreElements (hopen : ∀ p, ending ≠ .failure p) {x : Element}
    {others : List Element}
    (hstarts : Starts .element xs) (h : Accepts (readElement ending) 17 (Stops 2) xs x)
    (hcomma : c.token = .punct .comma)
    (hothers : Accepts (readElements ending) 18 (Precedes [.rightBracket, .rightParen]) ys others) :
    Accepts (readElements ending) 18 (Precedes [.rightBracket, .rightParen]) (xs ++ c :: ys)
      (x :: others) := by
  intro n rest last hn hrest
  -- an element is not empty, so that the list does not end in front of the comma
  have hxs : xs ≠ [] := hstarts.ne_nil rfl
  rw [List.length_append, List.length_cons] at hn
  obtain ⟨n, rfl⟩ := exists_succ (n := n) (by omega)
  have h1 : readElement ending n ⟨xs ++ c :: (ys ++ rest), last⟩ =
    .ok (x, ⟨c :: (ys ++ rest), stopOf last xs⟩) :=
    h (by omega) (stops_mark hcomma (by decide))
  have h2 : readElements ending n ⟨ys ++ rest, c.stop⟩ = .ok (others, ⟨rest, stopOf c.stop ys⟩) :=
    hothers (by omega) hrest
  rw [List.append_assoc, List.cons_append, readElements, not_sees_of_starts hstarts hxs (by decide),
    not_sees_of_starts hstarts hxs (by decide)]
  simp only [Bool.or_false, Bool.false_eq_true, if_false, h1, ok_bind,
    Reading.sees_cons hcomma, if_true,
    Reading.take_cons hopen, h2, pure_ok, stopOf_append, stopOf_cons]

theorem accepts_spreadElement (hopen : ∀ p, ending ≠ .failure p)
    (hdots : o.token = .punct .ellipsis) (h : Accepts (readAssignment ending) 16 (Stops 2) xs e) :
    Accepts (readElement ending) 17 (Stops 2) (o :: xs) (.spread e) := by
  intro n rest last hn hrest
  rw [List.length_cons] at hn
  obtain ⟨n, rfl⟩ := exists_succ (n := n) (by omega)
  have hread : readAssignment ending n ⟨xs ++ rest, o.stop⟩ = .ok (e, ⟨rest, stopOf o.stop xs⟩) :=
    h (by omega) hrest
  rw [List.cons_append, readElement, Reading.sees_cons hdots]
  simp only [if_true, Reading.take_cons hopen, hread, ok_bind, pure_ok, stopOf_cons]

theorem accepts_item (hstarts : Starts .assign xs)
    (h : Accepts (readAssignment ending) 16 (Stops 2) xs e) :
    Accepts (readElement ending) 17 (Stops 2) xs (.item e) := by
  intro n rest last hn hrest
  obtain ⟨n, rfl⟩ := exists_succ (n := n) (by omega)
  have hread : readAssignment ending n ⟨xs ++ rest, last⟩ = .ok (e, ⟨rest, stopOf last xs⟩) :=
    h (by omega) hrest
  rw [readElement, not_sees_of_starts hstarts (hstarts.ne_nil rfl) (by decide)]
  simp only [Bool.false_eq_true, if_false, hread, ok_bind, pure_ok]

/-! Members of objects. -/

theorem accepts_noMembers : Accepts (readMembers ending) 2 (Precedes [.rightBrace]) [] [] := by
  intro n rest last hn hrest
  obtain ⟨n, rfl⟩ := exists_succ (n := n) (by omega)
  obtain ⟨l, others, p, hp, rfl, hl⟩ := hrest
  obtain rfl := List.mem_singleton.1 hp
  rw [List.nil_append, readMembers, Reading.sees_cons hl, if_pos rfl]
  rfl

theorem accepts_lastMember {m : Member} (hstarts : Starts .member xs)
    (h : Accepts (readMember ending) 1 (Precedes [.comma, .rightBrace]) xs m) :
    Accepts (readMembers ending) 2 (Precedes [.rightBrace]) xs [m] := by
  intro n rest last hn hrest
  obtain ⟨n, rfl⟩ := exists_succ (n := n) (by omega)
  have hstops : Stops 1 rest := hrest.stops (by decide)
  have hread : readMember ending n ⟨xs ++ rest, last⟩ = .ok (m, ⟨rest, stopOf last xs⟩) := by
    refine h (by omega) ?_
    obtain ⟨l, others, p, hp, hrest, hl⟩ := hrest
    exact ⟨l, others, p, List.mem_cons_of_mem _ hp, hrest, hl⟩
  have hcomma : Reading.sees ⟨rest, stopOf last xs⟩ .comma = false :=
    Reading.not_sees hstops (by decide)
  rw [readMembers, not_sees_of_starts hstarts (hstarts.ne_nil rfl) (by decide)]
  simp only [Bool.false_eq_true, if_false, hread, ok_bind, hcomma, pure_ok]

theorem accepts_moreMembers (hopen : ∀ p, ending ≠ .failure p) {m : Member} {others : List Member}
    (hstarts : Starts .member xs)
    (h : Accepts (readMember ending) 1 (Precedes [.comma, .rightBrace]) xs m)
    (hcomma : c.token = .punct .comma)
    (hothers : Accepts (readMembers ending) 2 (Precedes [.rightBrace]) ys others) :
    Accepts (readMembers ending) 2 (Precedes [.rightBrace]) (xs ++ c :: ys) (m :: others) := by
  intro n rest last hn hrest
  rw [List.length_append, List.length_cons] at hn
  obtain ⟨n, rfl⟩ := exists_succ (n := n) (by omega)
  have h1 : readMember ending n ⟨xs ++ c :: (ys ++ rest), last⟩ =
    .ok (m, ⟨c :: (ys ++ rest), stopOf last xs⟩) :=
    h (by omega) ⟨c, ys ++ rest, .comma, by simp, rfl, hcomma⟩
  have h2 : readMembers ending n ⟨ys ++ rest, c.stop⟩ = .ok (others, ⟨rest, stopOf c.stop ys⟩) :=
    hothers (by omega) hrest
  rw [List.append_assoc, List.cons_append, readMembers,
    not_sees_of_starts hstarts (hstarts.ne_nil rfl) (by decide)]
  simp only [Bool.false_eq_true, if_false, h1, ok_bind, Reading.sees_cons hcomma, if_true,
    Reading.take_cons hopen, h2, pure_ok, stopOf_append, stopOf_cons]

theorem accepts_spreadMember (hopen : ∀ p, ending ≠ .failure p) (hdots : o.token = .punct .ellipsis)
    (h : Accepts (readAssignment ending) 16 (Stops 2) xs e) :
    Accepts (readMember ending) 1 (Precedes [.comma, .rightBrace]) (o :: xs) (.spread e) := by
  intro n rest last hn hrest
  rw [List.length_cons] at hn
  obtain ⟨n, rfl⟩ := exists_succ (n := n) (by omega)
  have hpeek : Reading.peek? ⟨o :: (xs ++ rest), last⟩ = some (.punct .ellipsis) :=
    congrArg some hdots
  have hread : readAssignment ending n ⟨xs ++ rest, o.stop⟩ = .ok (e, ⟨rest, stopOf o.stop xs⟩) :=
    h (by omega) (hrest.stops (by decide))
  rw [List.cons_append, readMember]
  simp only [hpeek, Reading.take_cons hopen, hread, ok_bind, pure_ok, stopOf_cons]

theorem accepts_shorthand (hopen : ∀ p, ending ≠ .failure p) (h : l.token = .identifier name) :
    Accepts (readMember ending) 1 (Precedes [.comma, .rightBrace]) [l]
      (.property (.fixed name) (.identifier ⟨l.start, l.stop⟩ name)) := by
  intro n rest last hn hrest
  obtain ⟨n, rfl⟩ := exists_succ (n := n) (by omega)
  have hpeek : Reading.peek? ⟨l :: rest, last⟩ = some (.identifier name) := congrArg some h
  rw [List.singleton_append, readMember]
  simp only [hpeek, Reading.take_cons hopen, ok_bind, sees_either hrest, if_true, pure_ok]
  rfl

theorem accepts_property (hopen : ∀ p, ending ≠ .failure p) {key : Key}
    (hkey : Accepted ending .key xs key) (hcolon : c.token = .punct .colon)
    (hvalue : Accepts (readAssignment ending) 16 (Stops 2) ys e) :
    Accepts (readMember ending) 1 (Precedes [.comma, .rightBrace]) (xs ++ c :: ys)
      (.property key e) := by
  intro n rest last hn hrest
  rw [List.length_append, List.length_cons] at hn
  obtain ⟨n, rfl⟩ : ∃ m, n = m + 2 := ⟨n - 2, by omega⟩
  have h1 : readMember ending (n + 1 + 1) ⟨xs ++ c :: (ys ++ rest), last⟩ =
      readValue ending (n + 1) key ⟨c :: (ys ++ rest), stopOf last xs⟩ :=
    hkey (by omega) (precedes_cons hcolon)
  have h2 : readAssignment ending n ⟨ys ++ rest, c.stop⟩ = .ok (e, ⟨rest, stopOf c.stop ys⟩) :=
    hvalue (by omega) (hrest.stops (by decide))
  rw [List.append_assoc, List.cons_append, h1, readValue]
  simp only [Reading.expect_cons hopen hcolon, h2, ok_bind, pure_ok, stopOf_append, stopOf_cons]

theorem accepts_nameKey (hopen : ∀ p, ending ≠ .failure p) (h : PropertyName l.token name) :
    Accepted ending .key [l] (.fixed name) := by
  intro n rest last hn hrest
  rw [List.singleton_append, readMember]
  -- a name that stands alone before `,` or `}` would be a shorthand; a colon follows here
  have hstops : Stops 1 rest := hrest.stops (by decide)
  have hcomma : Reading.sees ⟨rest, l.stop⟩ .comma = false := Reading.not_sees hstops (by decide)
  have hbrace : Reading.sees ⟨rest, l.stop⟩ .rightBrace = false := by
    obtain ⟨l', others, p, hp, rfl, hl⟩ := hrest
    obtain rfl := List.mem_singleton.1 hp
    refine Bool.eq_false_iff.2 fun hsees => ?_
    obtain ⟨l'', hl'', htoken⟩ := Reading.sees_of_peek hsees
    obtain rfl : l' = l'' := Option.some.inj hl''
    exact nomatch hl.symm.trans htoken
  obtain ⟨t, start, stop⟩ := l
  cases h with
  | identifier =>
    simp only [Reading.peek?, Reading.take_cons hopen, ok_bind, hcomma, hbrace, Bool.or_false,
      Bool.false_eq_true, if_false, stopOf_cons, stopOf_nil]
  | keyword k =>
    simp only [Reading.peek?, Reading.take_cons hopen, ok_bind, stopOf_cons, stopOf_nil]

theorem accepts_stringKey (hopen : ∀ p, ending ≠ .failure p) {s : String}
    (h : l.token = .string s) :
    Accepted ending .key [l] (.fixed s) := by
  intro n rest last hn hrest
  have hpeek : Reading.peek? ⟨l :: rest, last⟩ = some (.string s) := congrArg some h
  rw [List.singleton_append, readMember]
  simp only [hpeek, Reading.take_cons hopen, ok_bind, stopOf_cons, stopOf_nil]

theorem accepts_numberKey (hopen : ∀ p, ending ≠ .failure p) {x : Float} (h : l.token = .number x) :
    Accepted ending .key [l] (.fixed (Number.asKey x)) := by
  intro n rest last hn hrest
  have hpeek : Reading.peek? ⟨l :: rest, last⟩ = some (.number x) := congrArg some h
  rw [List.singleton_append, readMember]
  simp only [hpeek, Reading.take_cons hopen, ok_bind, stopOf_cons, stopOf_nil]

theorem accepts_computedKey (hopen : ∀ p, ending ≠ .failure p)
    (hopener : o.token = .punct .leftBracket)
    (h : Accepts (readAssignment ending) 16 (Stops 2) xs e)
    (hcloser : c.token = .punct .rightBracket) :
    Accepted ending .key (o :: (xs ++ [c])) (.computed e) := by
  intro n rest last hn hrest
  rw [List.length_cons, List.length_append, List.length_singleton] at hn
  have hpeek : Reading.peek? ⟨o :: (xs ++ c :: rest), last⟩ = some (.punct .leftBracket) :=
    congrArg some hopener
  have hread : readAssignment ending n ⟨xs ++ c :: rest, o.stop⟩ =
    .ok (e, ⟨c :: rest, stopOf o.stop xs⟩) :=
    h (by omega) (stops_mark hcloser (by decide))
  rw [List.cons_append, List.append_assoc, List.singleton_append, readMember]
  simp only [hpeek, Reading.take_cons hopen, hread, Reading.expect_cons hopen hcloser, ok_bind,
    stopOf_cons, stopOf_append, stopOf_nil]

end Productions

/-! ### Derivations -/

section Derivations

variable {ending : Ending} {xs ys : List Lexeme} {e left right : Expr} {level : Nat}

/-- What follows the first part of a sequence starts with a comma. -/
theorem stops_others {es : List Expr} (h : Derives .others ys es) (rest : List Lexeme) :
    Stops 2 (ys ++ rest) := by
  cases h with
  | lastOther hcomma h => exact stops_mark hcomma (by decide)
  | other hcomma h hothers => exact stops_mark hcomma (by decide)

theorem assigns_parts (h : ∀ x ∈ [e], x.Assigns) : e.hasTarget = true ∧ ∀ x ∈ e.parts, x.Assigns :=
  Expr.assigns_iff.1 (h e List.mem_cons_self)

theorem assigns_one (h : e.Assigns) : ∀ x ∈ [e], x.Assigns :=
  List.forall_mem_singleton.2 h

theorem assigns_of_join {op : Connective} (h : ∀ x ∈ [op.join left right], x.Assigns) :
    (∀ x ∈ [left], x.Assigns) ∧ ∀ x ∈ [right], x.Assigns := by
  have hparts : ∀ x ∈ [left, right], x.Assigns := by
    cases op with
    | binary op => exact (assigns_parts h).2
    | logical op => exact (assigns_parts h).2
  exact ⟨assigns_one (hparts left List.mem_cons_self),
    fun x hx => hparts x (List.mem_cons_of_mem _ hx)⟩

theorem accepts_nextLevel (h : Accepted ending (.tier (level + 1)) xs e) (hlevel : level < 10) :
    Accepts (fun n => readLevel ending n (level + 1)) (14 - level) (Stops (4 + level)) xs e := by
  have haccepts : Accepts (fun n => readLevel ending n (level + 1)) (15 - (level + 1))
      (Stops (3 + (level + 1))) xs e := accepts_level h hlevel
  rwa [show 15 - (level + 1) = 14 - level by omega, show 3 + (level + 1) = 4 + level by omega]
    at haccepts

theorem accepted_tier (hlevel : level < 10) (h : Joins ending level xs e) :
    Accepted ending (.tier level) xs e := by
  rwa [Accepted, if_pos hlevel]

theorem accepted_lastTier (h : Accepts (readPower ending) 4 (Stops 13) xs e) :
    Accepted ending (.tier 10) xs e :=
  h

/-- Every derivation in which all that is assigned to may be assigned to is read so. -/
theorem Grammar.Derives.accepted (hopen : ∀ p, ending ≠ .failure p) {s : Symbol} {t : s.Tree}
    (h : Derives s xs t) : (∀ x ∈ s.exprs t, x.Assigns) → Accepted ending s xs t := by
  -- the induction is on the derivation: each production is accepted by the procedure for its
  -- symbol. That targets may be assigned to is asked of the whole tree and handed down to the
  -- parts.
  induction h with
  | single _ ih => exact fun ha => accepts_single (ih ha)
  | sequence _ hothers hfinal ih iho =>
    intro ha
    obtain ⟨hfirst, hrest⟩ := List.forall_mem_cons.1 (assigns_parts ha).2
    exact accepts_sequence (stops_others hothers) (ih (assigns_one hfirst)) (iho hrest) hfinal
  | lastOther hcomma _ ih => exact fun ha => accepts_lastOther hopen hcomma (ih ha)
  | other hcomma _ hothers ih iho =>
    intro ha
    obtain ⟨hfirst, hrest⟩ := List.forall_mem_cons.1 ha
    exact accepts_other hopen (stops_others hothers) hcomma (ih (assigns_one hfirst)) (iho hrest)
  | unassigned _ ih => exact ih
  | assignment _ hop hspells _ iht ihv =>
    -- targets: the grammar lets any operand stand there, so that this is where the hypothesis
    -- counts
    intro ha
    obtain ⟨htarget, hparts⟩ := assigns_parts ha
    obtain ⟨hleft, hright⟩ := List.forall_mem_cons.1 hparts
    exact accepts_assignment hopen (accepts_level (iht (assigns_one hleft)) (Nat.zero_le _))
      (assignment_of_spelling hop hspells) (ihv hright) htarget
  | unconditional _ ih =>
    exact fun ha => accepts_unconditional (accepts_level (ih ha) (Nat.zero_le _))
  | conditional _ hquestion _ hcolon _ iht ihc iha =>
    intro ha
    obtain ⟨htest, hparts⟩ := List.forall_mem_cons.1 (assigns_parts ha).2
    obtain ⟨hconsequent, halternate⟩ := List.forall_mem_cons.1 hparts
    exact accepts_conditional hopen (accepts_level (iht (assigns_one htest)) (Nat.zero_le _))
      hquestion
      (ihc (assigns_one hconsequent)) hcolon (iha halternate)
  | joined _ hop hspells _ ihl ihr =>
    -- the operators of one level are read in a loop, its operands by the next level
    intro ha
    obtain ⟨hleft, hright⟩ := assigns_of_join ha
    have hlevel := lt_of_mem_operators hop
    have hjoins := ihl hleft
    rw [Accepted, if_pos hlevel] at hjoins
    exact accepted_tier hlevel (joins_joined hopen hjoins (connective_of_spelling hop hspells)
      (accepts_nextLevel (ihr hright) hlevel))
  | tighter hlevel h ih =>
    exact fun ha => accepted_tier hlevel
      (joins_tighter hlevel (h.ne_nil rfl) (accepts_nextLevel (ih ha) hlevel))
  | power _ hpower _ ihl ihr =>
    intro ha
    obtain ⟨hleft, hright⟩ := List.forall_mem_cons.1 (assigns_parts ha).2
    exact accepted_lastTier (accepts_power hopen (ihl (assigns_one hleft)) hpower (ihr hright))
  | base _ ih => exact fun ha => accepted_lastTier (accepts_base (ih ha))
  | unoperated h ih => exact fun ha => accepts_unoperated h.starts (ih ha)
  | unary hspells _ ih =>
    exact fun ha => accepts_unary hopen (unary_of_spelling hspells) (ih (assigns_parts ha).2)
  | updateBefore hspells _ ih =>
    intro ha
    obtain ⟨htarget, hparts⟩ := assigns_parts ha
    exact accepts_updateBefore hopen (update_of_spelling hspells) (ih hparts) htarget
  | notUpdated _ ih => exact fun ha => accepts_notUpdated (ih ha)
  | updateBehind _ hspells ih =>
    intro ha
    obtain ⟨htarget, hparts⟩ := assigns_parts ha
    exact accepts_updateBehind hopen (ih hparts) (update_of_spelling hspells) htarget
  -- chains: what is read is a start with links, the node around it is made at the last link
  | whole _ ih => exact fun ha => (ih ha).accepts
  | chain _ ih => exact fun ha => (ih (assigns_parts ha).2).accepts
  | bare h ih => exact fun ha => links_bare (h.ne_nil rfl) (ih ha)
  | named _ hdot hname ih =>
    exact fun ha => accepts_named hopen (ih (assigns_parts ha).2) hdot hname
  | optionalNamed _ hdot hname ih =>
    exact fun ha => accepts_optionalNamed hopen (ih (assigns_parts ha).2) hdot hname
  | optionalComputed _ hdot hopener _ hcloser ih ihk =>
    intro ha
    obtain ⟨hbody, hkey⟩ := List.forall_mem_cons.1 (assigns_parts ha).2
    exact accepts_optionalComputed hopen (ih (assigns_one hbody)) hdot hopener (ihk hkey) hcloser
  | computed _ hopener _ hcloser ih ihk =>
    intro ha
    obtain ⟨hbody, hkey⟩ := List.forall_mem_cons.1 (assigns_parts ha).2
    exact accepts_computed hopen (ih (assigns_one hbody)) hopener (ihk hkey) hcloser
  | optionalCall _ hdot hopener _ hcloser ih iha =>
    intro ha
    obtain ⟨hbody, harguments⟩ := List.forall_mem_cons.1 (assigns_parts ha).2
    exact accepts_optionalCall hopen (ih (assigns_one hbody)) hdot hopener (iha harguments) hcloser
  | call _ hopener _ hcloser ih iha =>
    intro ha
    obtain ⟨hbody, harguments⟩ := List.forall_mem_cons.1 (assigns_parts ha).2
    exact accepts_call hopen (ih (assigns_one hbody)) hopener (iha harguments) hcloser
  | literal h => exact fun _ => accepts_literal hopen h
  | identifier h => exact fun _ => accepts_identifier hopen h
  | bracketed hopener _ hcloser ih =>
    exact fun ha => accepts_bracketed hopen hopener (ih ha) hcloser
  | array hopener _ hcloser ih =>
    exact fun ha => accepts_array hopen hopener (ih (assigns_parts ha).2) hcloser
  | object hopener _ hcloser ih =>
    exact fun ha => accepts_object hopen hopener (ih (assigns_parts ha).2) hcloser
  -- lists with commas: the procedure ends at the closing bracket, also behind a comma
  | noElements => exact fun _ => accepts_noElements
  | lastElement h ih => exact fun ha => accepts_lastElement h.starts (ih ha)
  | moreElements h hcomma _ ih iho =>
    intro ha
    obtain ⟨hfirst, hrest⟩ := List.forall_mem_cons.1 ha
    exact accepts_moreElements hopen h.starts (ih (assigns_one hfirst)) hcomma (iho hrest)
  | spreadElement hdots _ ih => exact fun ha => accepts_spreadElement hopen hdots (ih ha)
  | item h ih => exact fun ha => accepts_item h.starts (ih ha)
  | noMembers => exact fun _ => accepts_noMembers
  | lastMember h ih =>
    exact fun ha => accepts_lastMember h.starts (ih fun x hx => ha x (List.mem_append_left _ hx))
  | moreMembers h hcomma _ ih iho =>
    intro ha
    obtain ⟨hfirst, hrest⟩ := List.forall_mem_append.1 ha
    exact accepts_moreMembers hopen h.starts (ih hfirst) hcomma (iho hrest)
  | spreadMember hdots _ ih => exact fun ha => accepts_spreadMember hopen hdots (ih ha)
  | shorthand h => exact fun _ => accepts_shorthand hopen h
  | property _ hcolon _ ihk ihv =>
    intro ha
    obtain ⟨hkey, hvalue⟩ := List.forall_mem_append.1 ha
    exact accepts_property hopen (ihk hkey) hcolon (ihv hvalue)
  | nameKey h => exact fun _ => accepts_nameKey hopen h
  | stringKey h => exact fun _ => accepts_stringKey hopen h
  | numberKey h => exact fun _ => accepts_numberKey hopen h
  | computedKey hopener _ hcloser ih =>
    exact fun ha => accepts_computedKey hopen hopener (ih ha) hcloser

end Derivations

/-! ### The reader and the grammar -/

namespace Expr

theorem read_of_derives {run : TokenRun} {e : Expr} (hopen : ∀ p, run.ending ≠ .failure p)
    (h : Derives .expression run.lexemes e) (he : e.Assigns) :
    Expr.read run = .ok (e, stopOf 0 run.lexemes) := by
  have hread : readExpression run.ending (20 * (run.lexemes.length + 2)) ⟨run.lexemes ++ [], 0⟩ =
      .ok (e, ⟨[], stopOf 0 run.lexemes⟩) :=
    h.accepted hopen (assigns_one he) (by omega) (stops_nil 1)
  have hchecked : Reading.checked run.ending ⟨run.lexemes, 0⟩ = .ok ⟨run.lexemes, 0⟩ := by
    unfold Reading.checked
    split
    · next p _ hending => exact absurd hending (hopen p)
    · rfl
  rw [List.append_nil] at hread
  rw [read, hchecked]
  simp only [ok_bind, hread, pure_ok]

/-- An expression is read if and only if the grammar derives it from the tokens, nothing that is no
token follows them, and all that is assigned to may be assigned to.  There is at most one such
expression. -/
theorem read_eq_ok_iff :
    (∀ (run : TokenRun) (e : Expr) (stop : Nat), Expr.read run = .ok (e, stop) ↔
      (∀ p, run.ending ≠ .failure p) ∧ Derives .expression run.lexemes e ∧ e.Assigns ∧
        stop = stopOf 0 run.lexemes) ∧
    ∀ lexemes, {e : Expr | Derives .expression lexemes e ∧ e.Assigns}.Subsingleton := by
  have hiff : ∀ (run : TokenRun) (e : Expr) (stop : Nat), Expr.read run = .ok (e, stop) ↔
      (∀ p, run.ending ≠ .failure p) ∧ Derives .expression run.lexemes e ∧ e.Assigns ∧
        stop = stopOf 0 run.lexemes := by
    intro run e stop
    constructor
    · exact derives_of_read
    · rintro ⟨hopen, h, he, rfl⟩
      exact read_of_derives hopen h he
  refine ⟨hiff, fun lexemes e he e' he' => ?_⟩
  -- both trees are what the reader gives for these tokens
  have hopen : ∀ p, Ending.endOfText ≠ .failure p := nofun
  have hread := (hiff ⟨lexemes, .endOfText⟩ e _).2 ⟨hopen, he.1, he.2, rfl⟩
  have hread' := (hiff ⟨lexemes, .endOfText⟩ e' _).2 ⟨hopen, he'.1, he'.2, rfl⟩
  exact (Prod.mk.inj (Except.ok.inj (hread.symm.trans hread'))).1

/-- Powers group to the right: `a ** b ** c`. -/
example : Expr.read ⟨[⟨.identifier "a", 0, 1⟩, ⟨.punct .power, 2, 4⟩, ⟨.identifier "b", 5, 6⟩,
    ⟨.punct .power, 7, 9⟩, ⟨.identifier "c", 10, 11⟩], .endOfText⟩ =
      .ok (.binary ⟨0, 11⟩ .power (.identifier ⟨0, 1⟩ "a")
        (.binary ⟨5, 11⟩ .power (.identifier ⟨5, 6⟩ "b") (.identifier ⟨10, 11⟩ "c")), 11) := by
  rfl

end Expr

end PromptMarkup

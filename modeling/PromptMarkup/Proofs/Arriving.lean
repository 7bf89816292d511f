/-
Attributes arrive with their values.

* `Expr.read_assigned` — a name, an equals sign and the tokens of a value are read as an assignment
  to this name;
* `Template.read_asAssignment` — the text that passes an attribute along is read as one mustache,
  which assigns;
* `Attribute.arrives` — the mustache binds the name of the attribute to its value, and renders
  nothing;
* `Attribute.arrives_fails` — it binds another value if the conditions on the parts of the attribute
  do not hold.

Design notes: keywords are names of variables for the reference, but not for the reader.  A keyword
is no target, so that the text which passes such an attribute along is no template.
-/
import PromptMarkup.Proofs.Accepting
import PromptMarkup.Proofs.Calls
import PromptMarkup.Proofs.Numbering
import PromptMarkup.Proofs.Parameters
import PromptMarkup.Proofs.Passing
import PromptMarkup.Yaml.Document

namespace PromptMarkup

open PromptMarkup.Computation Grammar Walking
open Text (Cursor byteLength)

/-! ### Assignments to names -/

namespace Expr

section Refused

variable {ending : Ending} {l o : Lexeme} {xs : List Lexeme} {last : Nat} {r : Reading} {e : Expr}
  {stop : Nat}

/-- No operand starts with a token that starts no expression. -/
theorem readUnary_refused (ho : 1 < o.token.leads) (n : Nat) :
    ∃ p, readUnary ending n ⟨o :: xs, last⟩ = .error p := by
  rcases hread : readUnary ending n ⟨o :: xs, last⟩ with p | ⟨e, r⟩
  · exact ⟨p, rfl⟩
  · obtain ⟨ys, htakes, hderives, -⟩ := (derivers ending n).unary _ e r hread
    rcases hderives.starts with ⟨hlist, -⟩ | ⟨l, rest, rfl, hl⟩
    · cases hlist
    · obtain ⟨rfl, -⟩ := List.cons.inj htakes.rest
      exact absurd hl (Nat.not_le.2 ho)

theorem readLevel_refused (h : ∀ n, ∃ p, readUnary ending n r = .error p) (n level : Nat) :
    ∃ p, readLevel ending n level r = .error p := by
  induction n generalizing level with
  | zero => exact ⟨_, rfl⟩
  | succ n ih =>
    rw [readLevel]
    split
    · obtain ⟨p, hp⟩ := ih (level + 1)
      exact ⟨p, by rw [hp]; rfl⟩
    · cases n with
      | zero => exact ⟨_, rfl⟩
      | succ n =>
        obtain ⟨p, hp⟩ := h n
        exact ⟨p, by rw [readPower, hp]; rfl⟩

theorem readExpression_refused (h : ∀ n level, ∃ p, readLevel ending n level r = .error p)
    (n : Nat) :
    ∃ p, readExpression ending n r = .error p := by
  match n with
  | 0 => exact ⟨_, rfl⟩
  | 1 => exact ⟨_, rfl⟩
  | n + 2 =>
    obtain ⟨p, hp⟩ := h n 0
    exact ⟨p, by rw [readExpression, readAssignment, hp]; rfl⟩

/-- What is read is read by the reader of expressions. -/
theorem exists_of_read (h : Expr.read ⟨xs, ending⟩ = .ok (e, stop)) :
    ∃ found, readExpression ending (20 * (xs.length + 2)) ⟨xs, 0⟩ = .ok found := by
  unfold Expr.read Reading.checked at h
  dsimp only at h
  split at h
  · cases h
  · rcases hread : readExpression ending (20 * (xs.length + 2)) ⟨xs, 0⟩ with p | found
    · rw [ok_bind, hread] at h
      cases h
    · exact ⟨found, rfl⟩

/-- Nothing is assigned to a constant. -/
theorem readAssignment_literal (hopen : ∀ p, ending ≠ .failure p) {value : Literal}
    (hl : Denotes l.token value) (ho : o.token = .punct .assign) {n : Nat} (hn : 40 ≤ n) :
    ∃ p, readAssignment ending n ⟨l :: o :: xs, last⟩ = .error p := by
  obtain ⟨n, rfl⟩ := exists_succ (Nat.lt_of_lt_of_le (by decide) hn)
  have hderives : Derives (.tier 0) [l] (.literal ⟨l.start, l.stop⟩ value) :=
    (Derives.literal hl).tier_of_primary (Nat.zero_le 10)
  have haccepted : Accepted ending (.tier 0) [l] (.literal ⟨l.start, l.stop⟩ value) :=
    hderives.accepted hopen (assigns_one
      (assigns_iff.2 ⟨rfl, fun x hx => absurd hx List.not_mem_nil⟩))
  have hstops : Stops 3 (o :: xs) := stops_mark ho (by decide)
  -- the equals sign binds less than all operators, so that the constant is the whole left-hand side
  have hlevel : readLevel ending n 0 ⟨l :: o :: xs, last⟩ =
      .ok (.literal ⟨l.start, l.stop⟩ value, ⟨o :: xs, stopOf last [l]⟩) :=
    accepts_level haccepted (Nat.zero_le 10) (show 20 * [l].length + (15 - 0) ≤ n by simp; omega)
      hstops
  have hop : (Reading.peek? ⟨o :: xs, stopOf last [l]⟩).bind AssignOp.ofToken? = some .assign := by
    rw [Reading.peek?, Option.bind_some, ho]
    rfl
  rw [readAssignment, hlevel, ok_bind]
  dsimp only
  rw [hop]
  dsimp only
  rw [Reading.take_cons hopen, ok_bind]
  rcases readAssignment ending n ⟨xs, o.stop⟩ with p | ⟨assigned, r⟩
  · exact ⟨p, rfl⟩
  · exact ⟨_, rfl⟩

/-- An operator in front is no operand. -/
theorem readUnary_operator (hopen : ∀ p, ending ≠ .failure p) {op : UnaryOp}
    (hl : UnaryOp.ofToken? l.token = some op)
    (ho : 1 < o.token.leads) (n : Nat) :
    ∃ p, readUnary ending n ⟨l :: o :: xs, last⟩ = .error p := by
  cases n with
  | zero => exact ⟨_, rfl⟩
  | succ n =>
    obtain ⟨p, hp⟩ : ∃ p, readUnary ending n ⟨o :: xs, l.stop⟩ = .error p := readUnary_refused ho n
    refine ⟨p, ?_⟩
    rw [readUnary]
    dsimp only
    rw [Reading.peek?, Option.bind_some, hl]
    dsimp only
    rw [Reading.take_cons hopen, ok_bind, hp]
    rfl

/-- Nothing is assigned to a keyword. -/
theorem not_read_keyword {k : Keyword} (hl : l.token = .keyword k) (ho : o.token = .punct .assign) :
    Expr.read ⟨l :: o :: xs, ending⟩ ≠ .ok (e, stop) := by
  intro hread
  obtain ⟨hopen, hderives, -⟩ := derives_of_read hread
  obtain ⟨found, hfound⟩ := exists_of_read hread
  -- a keyword is a constant, an operator in front of an operand, or starts no expression at all
  have hconstant : ∀ value, Denotes l.token value → False := by
    intro value hvalue
    have hbound : 20 * ((l :: o :: xs).length + 2) = 20 * (xs.length + 3) + 19 + 1 := by
      rw [List.length_cons, List.length_cons]
      omega
    obtain ⟨p, hp⟩ := readAssignment_literal hopen hvalue ho
      (n := 20 * (xs.length + 3) + 19) (by omega)
    rw [hbound, readExpression, hp] at hfound
    cases hfound
  have hoperator : ∀ op, UnaryOp.ofToken? l.token = some op → False := by
    intro op hop
    have hrefused : ∀ n, ∃ p, readUnary ending n ⟨l :: o :: xs, 0⟩ = .error p :=
      readUnary_operator hopen hop (ho ▸ by decide)
    obtain ⟨p, hp⟩ := readExpression_refused (readLevel_refused hrefused)
      (20 * ((l :: o :: xs).length + 2))
    cases hfound.symm.trans hp
  have hstarts : l.token.leads ≤ 1 := by
    rcases hderives.starts with ⟨hlist, -⟩ | ⟨l', rest, heq, hle⟩
    · cases hlist
    · rwa [(List.cons.inj heq).1]
  rw [hl] at hconstant hoperator hstarts
  cases k with
  | trueWord => exact hconstant _ .true
  | falseWord => exact hconstant _ .false
  | nullWord => exact hconstant _ .null
  | undefinedWord => exact hconstant _ .undefined
  | inWord => exact absurd hstarts (by decide)
  | instanceofWord => exact absurd hstarts (by decide)
  | typeofWord => exact hoperator .typeOf rfl
  | voidWord => exact hoperator .void rfl
  | deleteWord => exact hoperator .delete rfl

/-- A name, an equals sign and the tokens of a value are read as an assignment to this name, which
is no keyword. -/
theorem read_assigned {name : String} {value : Expr}
    (hl : l.token = (Token.identifier name).recognise)
    (ho : o.token = .punct .assign) (hvalue : Derives .assign xs value) (hassigns : value.Assigns)
    (h : Expr.read ⟨l :: o :: xs, ending⟩ = .ok (e, stop)) :
    e = .assignment ⟨l.start, value.stop⟩ .assign (.identifier ⟨l.start, l.stop⟩ name) value ∧
      stop = stopOf 0 (l :: o :: xs) := by
  rw [Token.recognise] at hl
  cases hword : Keyword.ofWord? name with
  | some k =>
    -- a keyword is no name, and the text would not have been read
    rw [hword] at hl
    exact absurd h (not_read_keyword hl ho)
  | none =>
    rw [hword] at hl
    have hleft : Derives (.tier 0) [l] (.identifier ⟨l.start, l.stop⟩ name) :=
      (Derives.identifier hl).tier_of_primary (Nat.zero_le 10)
    have hderives : Derives .expression (l :: o :: xs)
        (.assignment ⟨l.start, value.stop⟩ .assign (.identifier ⟨l.start, l.stop⟩ name) value) :=
      .single (.assignment hleft (.head _) (ho ▸ rfl) hvalue)
    have hwhole : (Expr.assignment
      ⟨l.start, value.stop⟩ .assign (.identifier ⟨l.start, l.stop⟩ name)
        value).Assigns := by
      -- the name may be assigned to, and the value is an expression that was read before
      refine assigns_iff.2 ⟨rfl, fun x hx => ?_⟩
      rcases List.mem_pair.1 hx with rfl | rfl
      · exact assigns_iff.2 ⟨rfl, fun y hy => absurd hy List.not_mem_nil⟩
      · exact hassigns
    obtain ⟨heq, hstop⟩ := Prod.mk.inj
      (Except.ok.inj (h.symm.trans (read_of_derives (derives_of_read h).1 hderives hwhole)))
    exact ⟨heq, hstop⟩

end Refused

end Expr

/-! ### The mustache that passes an attribute along -/

/-- The text of an assignment behind the name of the attribute that it passes along. -/
def Attribute.behindName (source : List Char) (a : Attribute) : List Char :=
  ' ' :: '=' :: ' ' :: ((a.asExpression source).toList ++ [' ', '\x7d', '\x7d'])

theorem Attribute.toList_asAssignment (source : List Char) (a : Attribute) :
    (a.asAssignment source).toList = '\x7b' :: '\x7b' :: ' ' ::
    (a.name.toList ++ a.behindName source) := by
  simp [asAssignment, behindName]

/-- An assignment of the value of an attribute to its name. -/
def Attribute.Assigned (a : Attribute) (e : Expr) : Prop :=
  ∃ span target value, e = .assignment span .assign (.identifier target a.name) value ∧
    a.Given value

section Mustache

variable {source : String} {a : Attribute} {c d : Cursor} {e : Expr} {s : List Char}

/-- The end of a mustache is a bracket that was not opened. -/
theorem next?_closing (h : d.rest = [' ', '\x7d', '\x7d']) :
    ∃ l after, Lexeme.next? d = .ok (some l, after) ∧ l.token.depth? 0 = none := by
  have hbrace : Lexeme.Spells ['\x7d', '\x7d'] (Lexeme.IsOne (.punct .rightBrace)) ['\x7d'] :=
    Lexeme.spells_mark rfl rfl rfl rfl
  obtain ⟨_, _, hyields, -, l, rfl, hl⟩ := hbrace.blank Lexeme.not_isOne_nil d h
  cases hyields with
  | @cons _ _ _ l _ hnext others =>
    have hbracket : l.token.recognise = .punct .rightBrace := hl
    refine ⟨l, _, hnext, ?_⟩
    rw [← Token.depth?_recognise, hbracket]
    rfl

theorem takeExpression_assigned (ha : a.Passable source)
    (hc : c.rest = a.name.toList ++ a.behindName source.toList)
    (h : takeExpression c = .ok (e, d)) : a.Assigned e ∧ d.rest = [' ', '\x7d', '\x7d'] := by
  obtain ⟨_, d', hyields, hd', l, o, ys, value, rfl, hl, ho, hderives, hassigns, hgiven⟩ :=
    Lexeme.spells_assignment ha (Lexeme.separates_cons (by decide)) c hc
  obtain ⟨l', after, hnext, hclosed⟩ := next?_closing hd'
  -- the tokens of the assignment end in front of the braces
  have hmatched : Matched (l :: o :: ys) := by
    have hname : l.token.IsPlain := by
      intro depth
      rw [hl, Token.depth?_recognise]
      rfl
    exact .cons hname (.cons (plain_mark ho) hderives.matched)
  have hbound : (l :: o :: ys).length < c.rest.length + 1 := by
    have hle := hyields.length_le
    omega
  have hrun : Lexeme.run c = ⟨l :: o :: ys, .closer l'⟩ :=
    hyields.runFrom_closer (hmatched 0) hnext hclosed hbound
  rw [takeExpression, Expr.readEmbedded, hrun] at h
  rcases hread : Expr.read ⟨l :: o :: ys, .closer l'⟩ with p | ⟨e', stop⟩
  · rw [hread] at h
    cases h
  · rw [hread] at h
    obtain ⟨rfl, rfl⟩ := Prod.mk.inj (Except.ok.inj h)
    obtain ⟨rfl, rfl⟩ := Expr.read_assigned hl ho hderives hassigns hread
    rw [hyields.stopOf_zero (List.cons_ne_nil _ _), hyields.leadsTo.moveTo_eq]
    exact ⟨⟨_, _, value, rfl, hgiven⟩, hd'⟩

/-- No expression starts with an equals sign. -/
theorem takeExpression_equals (hc : c.skipBlank.rest = '=' :: ' ' :: s) :
    ∃ p, takeExpression c = .error p := by
  -- `==` would be one mark: here a blank stands behind the first character
  have hmark : Lexeme.punctAt? c.skipBlank.rest = some .assign := by rw [hc]; rfl
  have hnumber : Lexeme.startsNumber c.skipBlank.rest = false := by rw [hc]; rfl
  have hnext : Lexeme.next? c = .ok (some ⟨.punct .assign, c.skipBlank.offset,
    (c.skipBlank.move 1).offset⟩,
      c.skipBlank.move 1) := by
    refine Lexeme.next?_eq_ok_some.2 ⟨'=', ' ' :: s, .punct .assign, hc, ?_, rfl⟩
    rw [Lexeme.readToken, hnumber, hmark]
    rfl
  have hrun := Lexeme.runFrom_succ hnext c.rest.length 0
  rw [takeExpression, Expr.readEmbedded]
  rcases hread : Expr.read (Lexeme.run c) with p | ⟨e, stop⟩
  · exact ⟨p, rfl⟩
  -- no expression starts with a token of this kind
  · have hderives := (Expr.derives_of_read hread).2.1
    rw [Lexeme.run, hrun] at hderives
    rcases hderives.starts with ⟨hlist, -⟩ | ⟨l, rest, heq, hle⟩
    · cases hlist
    · rw [← (List.cons.inj heq).1] at hle
      have hleads : (Token.punct .assign).leads ≤ 1 := hle
      exact absurd hleads (by decide)

theorem takeClosing_equals (hc : c.skipBlank.rest = '=' :: s) : ∃ p, takeClosing c = .error p := by
  have hsees : c.skipBlank.sees closeBraces = false := by rw [Cursor.sees, hc]; rfl
  rw [takeClosing, hsees]
  exact ⟨_, rfl⟩

theorem takeName_equals (hc : c.rest = '=' :: s) (expected : String) :
    ∃ p, takeName expected c = .error p := by
  have hword : wordAt c = [] := by
    rw [wordAt, hc, List.takeWhile_cons_of_neg (by decide)]
  rw [takeName, takeName?, hword]
  exact ⟨_, rfl⟩

theorem takeClosing_closing (h : d.rest = [' ', '\x7d', '\x7d']) :
    ∃ c, takeClosing d = .ok c ∧ c.rest = [] := by
  have hrest : d.skipBlank.rest = ['\x7d', '\x7d'] := by
    rw [Cursor.skipBlank, Cursor.rest_moveWhile, h]
    rfl
  have hsees : d.skipBlank.sees closeBraces = true := by rw [Cursor.sees, hrest]; rfl
  refine ⟨d.skipBlank.move 2, ?_, ?_⟩
  · rw [takeClosing, hsees]
    rfl
  · rw [Cursor.rest_move, hrest]
    rfl

/-- The name of the attribute is the word in front, and an equals sign follows it. -/
theorem wordAt_name (ha : a.Passable source)
    (hc : c.rest = a.name.toList ++ a.behindName source.toList) :
    wordAt c = a.name.toList := by
  obtain ⟨x, tail, htext, hx, htail⟩ := exists_of_isVariableName ha.name
  have hall : ∀ y ∈ a.name.toList, Text.isNamePart y = true := by
    rw [htext]
    exact List.forall_mem_cons.2 ⟨Lexeme.isNamePart_of_isNameStart hx, List.all_eq_true.1 htail⟩
  rw [wordAt, hc, List.takeWhile_append_of_pos hall, Attribute.behindName,
    List.takeWhile_cons_of_neg (by decide), List.append_nil]

/-- An equals sign follows the word in front. -/
theorem rest_behindWord (ha : a.Passable source)
    (hc : c.rest = a.name.toList ++ a.behindName source.toList)
    {word : String} (hword : seesWord c word = true) :
    ∃ s, (c.move word.length).skipBlank.rest = '=' :: ' ' :: s := by
  rw [seesWord, wordAt_name ha hc, beq_iff_eq] at hword
  have hrest : (c.move word.length).rest = a.behindName source.toList := by
    rw [Cursor.rest_move, hc, hword, ← String.length_toList, List.drop_left]
  refine ⟨(a.asExpression source.toList).toList ++ [' ', '\x7d', '\x7d'], ?_⟩
  rw [Cursor.skipBlank, Cursor.rest_moveWhile, hrest]
  rfl

/-- No part of a block is written like the assignment of a value. -/
theorem Reader.ifOpen_equals (r : Reader) (hc : c.skipBlank.rest = '=' :: ' ' :: s) :
    ∃ p, r.ifOpen c = .error p := by
  obtain ⟨p, hp⟩ := takeExpression_equals hc
  exact ⟨p, by rw [ifOpen, hp]; rfl⟩

theorem Reader.forOpen_equals (r : Reader) (hc : c.skipBlank.rest = '=' :: s) :
    ∃ p, r.forOpen c = .error p := by
  obtain ⟨p, hp⟩ := takeName_equals hc "a loop variable"
  exact ⟨p, by rw [forOpen, hp]; rfl⟩

theorem Reader.elseClause_root {r : Reader} (hframes : r.frames = [.root []]) (c : Cursor) :
    ∃ p, r.elseClause c = .error p := by
  have hnot : r.acceptsElse (seesWord c.skipBlank "if") = false := by rw [acceptsElse, hframes]
  rw [elseClause, hnot]
  exact ⟨_, rfl⟩

/-- At the root, the mustache that passes an attribute along assigns its value, and the text ends
behind it. -/
theorem Reader.mustache_assigned {r r' : Reader} (ha : a.Passable source)
    (hframes : r.frames = [.root []])
    (hc : (r.cursor.move 2).skipBlank.rest = a.name.toList ++ a.behindName source.toList)
    (h : r.mustache = .ok r') :
    ∃ info e, r'.frames = [.root [.mustache info e]] ∧ r'.cursor.rest = [] ∧ a.Assigned e := by
  unfold mustache at h
  dsimp only at h
  generalize (r.cursor.move 2).skipBlank = c at hc h
  -- a name that is a word of blocks makes no part of a block, since the equals sign cannot stand
  -- there
  split at h
  · next hword =>
    obtain ⟨s, hs⟩ := rest_behindWord ha hc hword
    obtain ⟨p, hp⟩ := r.ifOpen_equals hs
    cases h.symm.trans hp
  split at h
  · obtain ⟨p, hp⟩ := elseClause_root hframes (c.move 4)
    cases h.symm.trans hp
  split at h
  · next hword =>
    obtain ⟨s, hs⟩ := rest_behindWord ha hc hword
    obtain ⟨p, hp⟩ := takeClosing_equals hs
    rw [show takeClosing (c.move 5) = .error p from hp] at h
    cases h
  split at h
  · next hword =>
    obtain ⟨s, hs⟩ := rest_behindWord ha hc hword
    obtain ⟨p, hp⟩ := r.forOpen_equals hs
    cases h.symm.trans hp
  split at h
  · next hword =>
    obtain ⟨s, hs⟩ := rest_behindWord ha hc hword
    obtain ⟨p, hp⟩ := takeClosing_equals hs
    rw [show takeClosing (c.move 6) = .error p from hp] at h
    cases h
  · -- any other name is that of the assignment
    rcases htake : takeExpression c with p | ⟨e, d⟩
    · rw [htake] at h
      cases h
    · obtain ⟨hassigned, hd⟩ := takeExpression_assigned ha hc htake
      obtain ⟨c', hclosing, hend⟩ := takeClosing_closing hd
      rw [htake, ok_bind] at h
      dsimp only at h
      rw [hclosing] at h
      obtain rfl := Except.ok.inj h
      refine ⟨⟨0, r.cursor.offset, c'.offset⟩, e, ?_, hend, hassigned⟩
      rw [add, hframes]
      rfl

theorem Reader.run_of_atEnd [ConfigReader] {r : Reader} (h : r.cursor.rest = []) (bound : Nat) :
    r.run bound = .ok r := by
  cases bound with
  | zero => rfl
  | succ bound =>
    have hend : r.cursor.atEnd = true := by rw [Cursor.atEnd, h]; rfl
    rw [run, if_pos hend]

theorem Reader.step_braces [ConfigReader] (s : List Char) :
    (Reader.ofText ('\x7b' :: '\x7b' :: s)).step =
      (Reader.ofText ('\x7b' :: '\x7b' :: s)).mustache := by
  have hconfig : seesConfig (Cursor.ofText ('\x7b' :: '\x7b' :: s)) [.root []] = false := by
    simp [seesConfig, isDelimiterLine, Cursor.ofText]
  rw [step, show (Reader.ofText ('\x7b' :: '\x7b' :: s)).cursor =
    Cursor.ofText ('\x7b' :: '\x7b' :: s) from rfl,
    show (Reader.ofText ('\x7b' :: '\x7b' :: s)).frames = [.root []] from rfl, hconfig]
  rfl

/-- The name of the attribute stands behind the opening of the mustache and a blank. -/
theorem rest_inBraces (ha : a.Passable source) :
    ((Reader.ofText ('\x7b' :: '\x7b' :: ' ' ::
      (a.name.toList ++ a.behindName source.toList))).cursor.move
      2).skipBlank.rest = a.name.toList ++ a.behindName source.toList := by
  obtain ⟨x, tail, htext, hx, -⟩ := exists_of_isVariableName ha.name
  have hblank : Text.isBlank x = false := by
    have hnot := Lexeme.eq_false_of_isNameStart hx
    simp only [Bool.or_eq_false_iff] at hnot
    exact hnot.1.1.1.1
  rw [Cursor.skipBlank, Cursor.rest_moveWhile, htext]
  show (' ' :: x :: (tail ++ a.behindName source.toList)).dropWhile Text.isBlank = _
  rw [List.dropWhile_cons_of_pos (by decide),
    List.dropWhile_cons_of_neg (Bool.eq_false_iff.1 hblank)]
  rfl

/-- The text that passes an attribute along is read as one mustache, which assigns the value to the
name. -/
theorem Template.read_asAssignment [ConfigReader] {t : Template} (ha : a.Passable source)
    (h : Template.read (a.asAssignment source.toList) = .ok t) :
    ∃ info e, t.root.childNodes = [.mustache info e] ∧ a.Assigned e := by
  obtain ⟨r, children, hrun, hframes, rfl⟩ := read_eq_ok h
  rw [a.toList_asAssignment] at hrun
  have hmore :
    (Reader.ofText ('\x7b' :: '\x7b' :: ' ' ::
      (a.name.toList ++ a.behindName source.toList))).cursor.atEnd =
        false := rfl
  rw [Reader.run, hmore, if_neg Bool.false_ne_true, Reader.step_braces] at hrun
  split at hrun
  -- the whole text is one mustache, so that the reader is at its end behind it
  · next r₁ hmustache =>
    obtain ⟨info, e, hframes', hend, hassigned⟩ :=
      Reader.mustache_assigned ha rfl (rest_inBraces ha) hmustache
    rw [Reader.run_of_atEnd hend] at hrun
    obtain rfl := Except.ok.inj hrun
    obtain rfl : children = [.mustache info e] := by
      have hroot := hframes.symm.trans hframes'
      exact (Frame.root.inj (List.cons.inj hroot).1)
    exact ⟨_, e, rfl, hassigned⟩
  · cases hrun

end Mustache

/-! ### Values -/

namespace Walking

variable {setting : Setting} {id : Nat} {path : IterationPath} {w t : Walk} {v : Value}
  {vs : List Value} {a : Attribute}

/-- The parts of an attribute make a text together, unless there is an expression that stands alone.
-/
theorem runFrom_attributeValue {parts : List AttributePart} (h : a.parts = some parts)
    (hmany : ∀ e, parts ≠ [.expression e])
    (hvs : runFrom w (partValues setting id path parts) = (.ok vs, t)) :
    runFrom w (attributeValue setting id path a) =
      (.ok (.string (String.join (vs.map Value.rendered))), t) := by
  unfold attributeValue
  rw [h]
  split
  · next hnone => cases hnone
  · next e hone => exact absurd (Option.some.inj hone) (hmany e)
  · next parts' _ hparts =>
    obtain rfl := Option.some.inj hparts
    rw [runFrom_bind_ok (runFrom_partsText hvs)]
    rfl

/-- An assignment to a name binds the name to the value, and renders nothing. -/
theorem runFrom_mustache_assignment {s target : Span} {name : String} {value : Expr} {scope : Scope}
    (h : runFrom w.scope (value.evaluate setting.host) = (.ok v, scope)) :
    runFrom w (mustache setting id path (.assignment s .assign (.identifier target name) value)) =
      (.ok (), evaluatedIn w id path (.assignment s .assign (.identifier target name) value)
        (scope.set name v)) := by
  have hvalue :
    runFrom w.scope ((Expr.assignment s .assign (.identifier target name) value).evaluate
      setting.host) =
        (.ok v, scope.set name v) := by
    rw [evaluate_assignment, runFrom_bind_ok h]
    rfl
  have heval := Walking.runFrom_evaluate (w := w) setting id path
    (.assignment s .assign (.identifier target name) value)
  rw [hvalue] at heval
  rw [mustache, runFrom_bind_ok heval]
  cases v <;> rfl

end Walking

section Arrival

variable {setting : Setting} {id : Nat} {path : IterationPath} {w t : Walk} {vs : List Value}
  {a : Attribute}

/-- An expression that has the value of an attribute, in terms of the values of the parts. -/
theorem Attribute.Given.runFrom_evaluate {value : Expr} (h : a.Given value)
    (hvs : runFrom w (partValues setting id path (a.parts.getD [])) = (.ok vs, t))
    (hjoin : 1 < vs.length → Value.JoinTexts vs) :
    ∃ v, runFrom w (attributeValue setting id path a) = (.ok v, t) ∧
      runFrom w.scope (value.evaluate setting.host) = (.ok v, t.scope) := by
  cases h with
  | present hparts span =>
    rw [hparts] at hvs
    obtain ⟨-, rfl⟩ := Prod.mk.inj hvs
    refine ⟨.boolean true, ?_, rfl⟩
    rw [attributeValue, hparts]
    rfl
  | empty hparts span =>
    rw [hparts] at hvs
    obtain ⟨heq, rfl⟩ := Prod.mk.inj hvs
    obtain rfl := Except.ok.inj heq
    refine ⟨.string "", ?_, rfl⟩
    exact runFrom_attributeValue hparts (fun e he => by cases he) rfl
  | @sum parts _ hparts hsum =>
    rw [hparts, Option.getD_some] at hvs
    have hlength := length_partValues hvs
    obtain ⟨v, rest, rfl, hvalue⟩ := hsum.runFrom_evaluate hvs
    refine ⟨_, ?_, hvalue⟩
    cases rest with
    | nil =>
      -- a part that stands alone has its own value, be it a text or an expression
      obtain ⟨p, rfl⟩ := List.length_eq_one_iff.1 hlength.symm
      obtain ⟨v', vs, u, heq, hv, hrest⟩ := runFrom_partValues_cons hvs
      obtain ⟨rfl, rfl⟩ := List.cons.inj heq
      obtain ⟨-, rfl⟩ := Prod.mk.inj hrest
      cases p with
      | text span data =>
        obtain ⟨heq, -⟩ := Prod.mk.inj hv
        obtain rfl := Except.ok.inj heq
        have htext := runFrom_attributeValue hparts (fun e he => by cases he) hvs
        rwa [List.map_singleton, String.join_cons, String.join_nil, String.append_empty] at htext
      | expression e =>
        rw [attributeValue, hparts]
        exact hv
    | cons v' rest =>
      -- several parts are joined by the tag, and added up by the expression
      have hmany : ∀ e, parts ≠ [.expression e] := by
        rintro e rfl
        cases hlength
      rw [runFrom_attributeValue hparts hmany hvs, (hjoin (Nat.succ_lt_succ (Nat.succ_pos _))).sum]

theorem Node.mem_expressions_of_attribute {n : Node} {e : Expr} (ha : a ∈ n.attributes)
    (he : e ∈ a.expressions) :
    e ∈ n.expressions := by
  cases n with
  | element info name attributes children => exact List.mem_flatMap.2 ⟨a, ha, he⟩
  | _ => cases ha

namespace Attribute

/-- An attribute of a tag arrives with its value: what passes it along is one mustache, which binds
the name of the attribute to the value that the tag gives it, and renders nothing.  The parts have
to be such that they can be told by their own texts, that a part alone is no sequence, and that
adding up several values joins them to a text. -/
theorem arrives [ConfigReader] {source : String} {t passing : Template} {n : Node} {w' : Walk}
    (hread : Template.read source = .ok t)
    (hn : n ∈ t.root.nodes) (ha : a ∈ n.attributes) (hname : isVariableName a.name = true)
    (hbrackets : ∀ e ∈ a.expressions, BracketsMatch (Text.slice source.toList e.start e.stop))
    (halone : ∀ span items, a.parts ≠ some [.expression (.sequence span items)])
    (hvalues : runFrom w (partValues setting id path (a.parts.getD [])) = (.ok vs, w'))
    (hjoin : 1 < vs.length → Value.JoinTexts vs)
    (hpassing : Template.read (a.asAssignment source.toList) = .ok passing) :
    ∃ info e v, passing.root.childNodes = [.mustache info e] ∧
      runFrom w (attributeValue setting id path a) = (.ok v, w') ∧
      ∀ path', runFrom w (mustache setting info.id path' e) =
        (.ok (), evaluatedIn w info.id path' e (w'.scope.set a.name v)) := by
  -- the expressions of the attribute stand in the source
  have hpassable : a.Passable source := by
    refine ⟨hname, fun p hp => ?_, halone⟩
    cases p with
    | text span data => trivial
    | expression e =>
      have he : e ∈ a.expressions := List.mem_filterMap.2 ⟨_, hp, rfl⟩
      have hmarked := (Template.regular_of_read hread n hn).marked
      exact ⟨hmarked.expressions e (n.mem_expressions_of_attribute ha he), hbrackets e he⟩
  obtain ⟨info, e, hchildren, span, target, value, rfl, hgiven⟩ :=
    Template.read_asAssignment hpassable hpassing
  obtain ⟨v, hv, hvalue⟩ := hgiven.runFrom_evaluate hvalues hjoin
  exact ⟨info, _, v, hchildren, hv, fun path' => runFrom_mustache_assignment hvalue⟩

/-- The attribute of the tag `<ref />` that has a letter and the name `y` in braces as its parts. -/
def letterAndName : Attribute :=
  ⟨⟨5, 15⟩, "x", some [.text ⟨7, 8⟩ "a", .expression (.identifier ⟨11, 12⟩ "y")]⟩

/-- Where `y` is a text, `x` arrives as the letter and this text. -/
theorem arrives_letterAndName :
    ∃ t n passing w', Template.read "<ref x=a\x7b\x7b y \x7d\x7d />" = .ok t ∧ n ∈ t.root.nodes ∧
      letterAndName ∈ n.attributes ∧ isVariableName letterAndName.name = true ∧
      (∀ e ∈ letterAndName.expressions,
        BracketsMatch (Text.slice "<ref x=a\x7b\x7b y \x7d\x7d />".toList e.start e.stop)) ∧
      (∀ span items, letterAndName.parts ≠ some [.expression (.sequence span items)]) ∧
      runFrom (Walk.start (Statuses.fresh 2) (Scope.ofFields [("y", .string "b")]) [])
        (partValues plainSetting 1 [] (letterAndName.parts.getD [])) =
          (.ok [.string "a", .string "b"], w') ∧
      Value.JoinTexts [.string "a", .string "b"] ∧
      Template.read (letterAndName.asAssignment "<ref x=a\x7b\x7b y \x7d\x7d />".toList) =
        .ok passing ∧
      ∃ info e v, passing.root.childNodes = [.mustache info e] ∧
        runFrom (Walk.start (Statuses.fresh 2) (Scope.ofFields [("y", .string "b")]) [])
          (attributeValue plainSetting 1 [] letterAndName) = (.ok v, w') ∧
        ∀ path', runFrom (Walk.start (Statuses.fresh 2) (Scope.ofFields [("y", .string "b")]) [])
          (mustache plainSetting info.id path' e) =
            (.ok (),
              evaluatedIn (Walk.start (Statuses.fresh 2) (Scope.ofFields [("y", .string "b")]) [])
              info.id path' e (w'.scope.set letterAndName.name v)) := by
  have hread : Template.read "<ref x=a\x7b\x7b y \x7d\x7d />" = .ok _ := rfl
  obtain ⟨passing, hpassing⟩ : ∃ passing,
      Template.read (letterAndName.asAssignment "<ref x=a\x7b\x7b y \x7d\x7d />".toList) =
        .ok passing := by
    have hsome : (Template.read
        (letterAndName.asAssignment "<ref x=a\x7b\x7b y \x7d\x7d />".toList)).toOption.isSome =
          true := by
      decide +kernel
    cases hpassing : Template.read
      (letterAndName.asAssignment "<ref x=a\x7b\x7b y \x7d\x7d />".toList) with
    | error p =>
      rw [hpassing] at hsome
      cases hsome
    | ok passing => exact ⟨passing, rfl⟩
  have hname : isVariableName letterAndName.name = true := by decide +kernel
  have hbrackets : ∀ e ∈ letterAndName.expressions,
      BracketsMatch (Text.slice "<ref x=a\x7b\x7b y \x7d\x7d />".toList e.start e.stop) :=
    List.forall_mem_singleton.2 ⟨rfl, rfl⟩
  have halone : ∀ span items, letterAndName.parts ≠ some [.expression (.sequence span items)] := by
    -- there are two parts, so that this is about no attribute of one expression
    intro span items h
    cases h
  have hvalues : runFrom (Walk.start (Statuses.fresh 2) (Scope.ofFields [("y", .string "b")]) [])
      (partValues plainSetting 1 [] (letterAndName.parts.getD [])) =
        (.ok [.string "a", .string "b"], _) := rfl
  have hjoin : Value.JoinTexts [.string "a", .string "b"] := ⟨by simp [Value.hasParts], rfl⟩
  exact ⟨_, _, passing, _, hread, .tail _ (.head _), .head _, hname, hbrackets, halone, hvalues,
    hjoin, hpassing,
    arrives hread (.tail _ (.head _)) (.head _) hname hbrackets halone hvalues
      (fun _ => hjoin) hpassing⟩

/-- The nodes at the top of a text. -/
def topNodes [ConfigReader] (source : String) : List Node :=
  match Template.read source with
  | .ok t => t.root.childNodes
  | .error _ => []

/-- How the attribute of the one tag of a text arrives in an empty scope, in texts: its value, the
value that its name is bound to, and what is rendered. -/
def arrival? [ConfigReader] (source : String) : Option (String × Option String × String) :=
  match topNodes source with
  | [.element info _ [a] _] =>
    match topNodes (a.asAssignment source.toList) with
    | [.mustache info' e] =>
      let w := Walk.start (Statuses.fresh 2) (Scope.ofFields []) []
      match runFrom w (attributeValue plainSetting info.id [] a),
        runFrom w (mustache plainSetting info'.id [] e) with
      | (.ok v, _), (.ok (), u) =>
        some (v.rendered, (u.scope.get? a.name).map Value.rendered, u.stray)
      | _, _ => none
    | _ => none
  | _ => none

/-- A sequence that stands alone is taken apart: its first part arrives, and the last one is
rendered.  A list is not added to a text as it is rendered.  And brackets at both ends of an
expression are not passed along, so that what is between them is taken for something else. -/
theorem arrives_fails :
    arrival? "<ref x=\x7b\x7b 'a', 'b' \x7d\x7d />" = some ("b", some "a", "b") ∧
      arrival? "<ref x=\"t\x7b\x7b ['a', 'b'] \x7d\x7d\" />" =
        some ("t[\"a\",\"b\"]", some "ta,b", "") ∧
      arrival? "<ref x=\"t\x7b\x7b ('a') == ('a') \x7d\x7d\" />" =
        some ("ttrue", some "false", "") := by
  refine ⟨?_, ?_, ?_⟩
  all_goals decide +kernel

end Attribute

end Arrival

end PromptMarkup

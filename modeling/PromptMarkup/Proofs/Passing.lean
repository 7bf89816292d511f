/-
Attributes that are passed to a referenced prompt.

* `Value.JoinTexts` — values that `+` joins to the text they make together;
* `AttributePart.Operand`, `Sums` — an expression that stands for a part of an attribute, and one
  that adds up parts;
* `Sums.runFrom_evaluate` — it adds up the values of the parts, in the same order;
* `Attribute.Given` — an expression that has the value of an attribute;
* `Attribute.Passable` — attributes whose parts can be told by their own texts;
* `Lexeme.spells_assignment` — the text that passes such an attribute along spells an assignment to
  its name.

Design notes: a text part is passed along as a quoted text, and an expression as the text between
its ends, in brackets unless it stands alone.  What is read from these texts are the same
expressions at other offsets, so that `Sums` speaks of expressions up to their offsets.
-/
import PromptMarkup.Conversation.Walk
import PromptMarkup.Proofs.Moving
import PromptMarkup.Proofs.Running
import PromptMarkup.Proofs.Sources
import PromptMarkup.Proofs.Spelling
import PromptMarkup.Reference.Inline

namespace PromptMarkup

open PromptMarkup.Computation Grammar Walking
open Text (Cursor byteLength)

/-! ### Sums of texts -/

namespace Value

/-- Arrays and objects, which have parts. -/
def hasParts : Value → Bool
  | array _ | object _ => true
  | _ => false

/-- A value that has no parts and is a text as an operand of `+`. -/
def isText : Value → Bool
  | string _ | function _ _ => true
  | _ => false

/-- Values that `+` joins to the text they make together: none has parts, and one of the first two
is a text. -/
structure JoinTexts (vs : List Value) : Prop where
  whole : ∀ v ∈ vs, v.hasParts = false
  text : (vs.take 2).any isText = true

variable {v w : Value} {vs : List Value}

theorem rendered_eq_text (h : v.hasParts = false) : v.rendered = v.text := by
  cases v with
  | array items => cases h
  | object fields => cases h
  | _ => rfl

theorem add_eq_string (hv : v.hasParts = false) (hw : w.hasParts = false)
    (h : (v.isText || w.isText) = true) :
    v.add w = .string (v.text ++ w.text) := by
  cases v <;> cases hv <;> cases w <;> cases hw <;> first | rfl | cases h

theorem foldl_add (s : String) (h : ∀ v ∈ vs, v.hasParts = false) :
    vs.foldl add (.string s) = .string (s ++ String.join (vs.map rendered)) := by
  induction vs generalizing s with
  | nil => rw [List.foldl_nil, List.map_nil, String.join_nil, String.append_empty]
  | cons v vs ih =>
    have hv := h v List.mem_cons_self
    rw [List.foldl_cons, add_eq_string rfl hv rfl, ih _ fun w hw => h w (List.mem_cons_of_mem v hw),
      List.map_cons, String.join_cons, rendered_eq_text hv, String.append_assoc]
    rfl

/-- The sum of such values is the text they make together. -/
theorem JoinTexts.sum (h : JoinTexts (v :: w :: vs)) :
    (w :: vs).foldl add v = .string (String.join ((v :: w :: vs).map rendered)) := by
  have hv := h.whole v List.mem_cons_self
  have hw := h.whole w (List.mem_cons_of_mem v List.mem_cons_self)
  have htext : (v.isText || w.isText) = true := by simpa using h.text
  have hothers : ∀ u ∈ vs, u.hasParts = false := fun u hu =>
    h.whole u (List.mem_cons_of_mem v (List.mem_cons_of_mem w hu))
  rw [List.foldl_cons, add_eq_string hv hw htext, foldl_add _ hothers, List.map_cons, List.map_cons,
    String.join_cons,
    String.join_cons, rendered_eq_text hv, rendered_eq_text hw, String.append_assoc]

end Value

/-! ### The values of parts -/

namespace Walking

/-- The value of a part of an attribute. -/
def partValue (setting : Setting) (id : Nat) (path : IterationPath) : AttributePart → Walking Value
  | .text _ data => pure (.string data)
  | .expression e => evaluate setting id path e

/-- The values of parts of an attribute. -/
def partValues (setting : Setting) (id : Nat) (path : IterationPath) :
    List AttributePart → Walking (List Value)
  | [] => pure []
  | p :: rest => do
    let v ← partValue setting id path p
    return v :: (← partValues setting id path rest)

variable {setting : Setting} {id : Nat} {path : IterationPath} {w t : Walk} {v : Value}
  {vs : List Value}

theorem runFrom_partValues_cons {p : AttributePart} {rest : List AttributePart}
    (h : runFrom w (partValues setting id path (p :: rest)) = (.ok vs, t)) :
    ∃ v vs' u, vs = v :: vs' ∧ runFrom w (partValue setting id path p) = (.ok v, u) ∧
      runFrom u (partValues setting id path rest) = (.ok vs', t) := by
  obtain ⟨v, u, hv, h⟩ := runFrom_bind_eq_ok h
  obtain ⟨vs', u', hvs, h⟩ := runFrom_bind_eq_ok h
  obtain ⟨heq, rfl⟩ := Prod.mk.inj h
  exact ⟨v, vs', u, (Except.ok.inj heq).symm, hv, hvs⟩

theorem length_partValues {parts : List AttributePart}
    (h : runFrom w (partValues setting id path parts) = (.ok vs, t)) :
    vs.length = parts.length := by
  induction parts generalizing w vs with
  | nil =>
    obtain rfl := Except.ok.inj (Prod.mk.inj h).1
    rfl
  | cons p rest ih =>
    obtain ⟨v, vs', u, rfl, -, hrest⟩ := runFrom_partValues_cons h
    rw [List.length_cons, List.length_cons, ih hrest]

/-- The values of the parts, and of a last one behind them. -/
theorem runFrom_partValues_append {parts : List AttributePart} {p : AttributePart}
    (h : runFrom w (partValues setting id path (parts ++ [p])) = (.ok vs, t)) :
    ∃ vs' v u, vs = vs' ++ [v] ∧ runFrom w (partValues setting id path parts) = (.ok vs', u) ∧
      runFrom u (partValue setting id path p) = (.ok v, t) := by
  induction parts generalizing w vs with
  | nil =>
    obtain ⟨v, vs', u, rfl, hv, hrest⟩ := runFrom_partValues_cons h
    obtain ⟨heq, rfl⟩ := Prod.mk.inj hrest
    obtain rfl := Except.ok.inj heq
    exact ⟨[], v, w, rfl, rfl, hv⟩
  | cons q rest ih =>
    obtain ⟨v, vs', u, rfl, hv, hrest⟩ := runFrom_partValues_cons h
    obtain ⟨ws, x, u', rfl, hws, hx⟩ := ih hrest
    refine ⟨v :: ws, x, u', rfl, ?_, hx⟩
    rw [partValues, runFrom_bind_ok hv, runFrom_bind_ok hws]
    rfl

/-- The text of parts is their values, rendered. -/
theorem runFrom_partsText {parts : List AttributePart}
    (h : runFrom w (partValues setting id path parts) = (.ok vs, t)) :
    runFrom w (partsText setting id path parts) =
      (.ok (String.join (vs.map Value.rendered)), t) := by
  -- the induction is on the parts, which are evaluated in their order
  induction parts generalizing w vs with
  | nil =>
    obtain ⟨heq, rfl⟩ := Prod.mk.inj h
    obtain rfl := Except.ok.inj heq
    rfl
  | cons p rest ih =>
    obtain ⟨v, vs', u, rfl, hv, hrest⟩ := runFrom_partValues_cons h
    rw [List.map_cons, String.join_cons]
    cases p with
    | text span data =>
      obtain ⟨heq, rfl⟩ := Prod.mk.inj hv
      obtain rfl := Except.ok.inj heq
      rw [partsText, runFrom_bind_ok (ih hrest)]
      rfl
    | expression e =>
      have he : runFrom w (evaluate setting id path e) = (.ok v, u) := hv
      rw [partsText, runFrom_bind_ok he, runFrom_bind_ok (ih hrest)]
      rfl

end Walking

/-! ### Expressions that stand for attributes -/

/-- An expression has the value of a part of an attribute: it is the text, or the expression
wherever it stands. -/
inductive AttributePart.Operand : AttributePart → Expr → Prop
  | text (span span' : Span) (data : String) :
    Operand (.text span data) (.literal span' (.string data))
  | expression (e : Expr) (f : Nat → Nat) : Operand (.expression e) (e.relocate f)

/-- An expression adds up the parts of an attribute, from left to right. -/
inductive Sums : List AttributePart → Expr → Prop
  | one {p : AttributePart} {e : Expr} (h : p.Operand e) : Sums [p] e
  | more {ps : List AttributePart} {p : AttributePart} {left right : Expr} (hleft : Sums ps left)
    (hright : p.Operand right) : Sums (ps ++ [p]) ((Connective.binary .add).join left right)

namespace Expr

theorem evaluate_add (host : Host) (span : Span) (left right : Expr) :
    (binary span .add left right).evaluate host = (do
      let a ← left.evaluate host
      let b ← right.evaluate host
      return a.add b) := by
  simp [evaluate, links, BinaryOp.isSupported, BinaryOp.apply, Evaluation.ofResult]
  rfl

end Expr

section Sums

variable {setting : Setting} {id : Nat} {path : IterationPath} {w t : Walk} {v : Value}
  {vs : List Value}

theorem AttributePart.Operand.runFrom_evaluate {p : AttributePart} {e : Expr} (h : p.Operand e)
    (hv : runFrom w (partValue setting id path p) = (.ok v, t)) :
    runFrom w.scope (e.evaluate setting.host) = (.ok v, t.scope) := by
  cases h with
  | text span span' data =>
    obtain ⟨heq, rfl⟩ := Prod.mk.inj hv
    obtain rfl := Except.ok.inj heq
    rfl
  | expression e f =>
    have he : runFrom w (evaluate setting id path e) = (.ok v, t) := hv
    rw [Walking.runFrom_evaluate] at he
    refine Expr.runIn_relocate f ?_
    -- the operand was moved, which changes no value
    rw [Evaluation.runIn]
    rcases hlinks : runFrom w.scope (e.evaluate setting.host) with ⟨p | v', s⟩
    · rw [hlinks] at he
      cases he
    · rw [hlinks] at he
      obtain ⟨heq, rfl⟩ := Prod.mk.inj he
      rw [Except.ok.inj heq]
      rfl

/-- An expression that adds up parts has the sum of their values, and leaves the scope that they
leave. -/
theorem Sums.runFrom_evaluate {parts : List AttributePart} {e : Expr} (h : Sums parts e)
    (hvs : runFrom w (partValues setting id path parts) = (.ok vs, t)) :
    ∃ v rest, vs = v :: rest ∧
      runFrom w.scope (e.evaluate setting.host) = (.ok (rest.foldl Value.add v), t.scope) := by
  induction h generalizing vs t with
  | one hp =>
    obtain ⟨v, vs', u, rfl, hv, hrest⟩ := runFrom_partValues_cons hvs
    obtain ⟨heq, rfl⟩ := Prod.mk.inj hrest
    obtain rfl := Except.ok.inj heq
    exact ⟨v, [], rfl, hp.runFrom_evaluate hv⟩
  | more hleft hright ih =>
    obtain ⟨vs', x, u, rfl, hvs', hx⟩ := runFrom_partValues_append hvs
    obtain ⟨v, rest, rfl, hsum⟩ := ih hvs'
    refine ⟨v, rest ++ [x], rfl, ?_⟩
    rw [Connective.join, Expr.evaluate_add, runFrom_bind_ok hsum,
      runFrom_bind_ok (hright.runFrom_evaluate hx), List.foldl_append]
    rfl

end Sums

/-- An expression has the value of an attribute: true if it is only present, the empty text, or the
sum of its parts. -/
inductive Attribute.Given (a : Attribute) : Expr → Prop
  | present (h : a.parts = none) (span : Span) : Given a (.literal span (.boolean true))
  | empty (h : a.parts = some []) (span : Span) : Given a (.literal span (.string ""))
  | sum {parts : List AttributePart} {e : Expr} (h : a.parts = some parts) (hsum : Sums parts e) :
    Given a e

/-! ### The text of an attribute -/

/-- A part of an attribute of a text can be told by its own text: an expression is one of the text,
and the brackets match between its ends. -/
def AttributePart.Whole (source : String) : AttributePart → Prop
  | .text _ _ => True
  | .expression e =>
    e.Embedded (Cursor.ofText source.toList) ∧
      BracketsMatch (Text.slice source.toList e.start e.stop)

/-- The text that passes an attribute along tells its parts: the parts can be told by their own
texts, and one that stands alone is no sequence, which would be taken apart. -/
structure Attribute.Passable (source : String) (a : Attribute) : Prop where
  name : isVariableName a.name = true
  parts : ∀ p ∈ a.parts.getD [], p.Whole source
  alone : ∀ span items, a.parts ≠ some [.expression (.sequence span items)]

theorem exists_of_isVariableName {name : String} (h : isVariableName name = true) :
    ∃ x tail, name.toList = x :: tail ∧ Text.isNameStart x = true ∧
    tail.all Text.isNamePart = true := by
  unfold isVariableName at h
  split at h
  · cases h
  · next x tail htext => exact ⟨x, tail, htext, (Bool.and_eq_true _ _).mp h⟩

/-- An expression that was read as a whole needs no boundary of a chain. -/
theorem Expr.Embedded.closed_eq {b : Cursor} {e : Expr} (h : e.Embedded b) : e.closed = e := by
  obtain ⟨d, stop, -, hread⟩ := h
  have hcut : e.isCut = false := (derives_of_read hread).2.1.bounded
  rw [closed, hcut]
  rfl

namespace Lexeme

variable {source : String} {r : List Char}

/-- The text of an expression is read as this expression, at some offsets. -/
theorem spells_sourceText {e : Expr} (he : (AttributePart.expression e).Whole source)
    (hr : Separates r) :
    Spells ((e.sourceText source.toList).toList ++ r)
      (fun xs => ∃ f, Derives .expression xs (e.relocate f) ∧ (e.relocate f).Assigns) r := by
  obtain ⟨hembedded, hbrackets⟩ := he
  obtain ⟨xs, d, hyields, hend, hderives, -, hassigns⟩ :=
    hembedded.excerpt (Expr.mem_subterms_self e) hbrackets
  rw [hembedded.closed_eq] at hderives hassigns
  rw [Expr.sourceText, String.toList_ofList]
  refine (spells_excerpt hyields hend hr).imp ?_
  rintro ys ⟨k, rfl⟩
  refine ⟨fun n => n - e.start + k, ?_, Expr.assigns_relocate _ hassigns⟩
  have hmoved := hderives.relocate fun n => n - e.start + k
  have hsame : (xs.map (relocate (· + e.start))).map (relocate fun n => n - e.start + k) =
      xs.map (relocate (· + k)) := by
    rw [List.map_map]
    exact List.map_congr_left fun l _ => by simp [relocate]
  rwa [hsame] at hmoved

/-- A part of an attribute as an operand. -/
theorem spells_asOperand {p : AttributePart} (hp : p.Whole source) (r : List Char) :
    Spells ((p.asOperand source.toList).toList ++ r)
      (fun xs => ∃ e, Derives .primary xs e ∧ e.Assigns ∧ p.Operand e) r := by
  cases p with
  | text span data =>
    -- the text of an attribute is written as a string literal
    rw [AttributePart.asOperand, Json.quote, String.toList_ofList]
    refine (spells_quoted Json.escaped_escapeChar data.toList r).imp ?_
    rintro xs ⟨l, rfl, hl⟩
    rw [String.ofList_toList] at hl
    exact ⟨_, .literal (hl ▸ .string data), Expr.assigns_iff.2 ⟨rfl, nofun⟩, .text span _ data⟩
  | expression e =>
    -- an expression is written in brackets
    have htext : ((AttributePart.expression e).asOperand source.toList).toList ++ r =
        '(' :: ((e.sourceText source.toList).toList ++ ')' :: r) := by
      simp [AttributePart.asOperand]
    rw [htext]
    -- between the brackets stands the source of the expression
    have hopen : Spells ('(' :: ((e.sourceText source.toList).toList ++ ')' :: r))
      (IsOne (.punct .leftParen))
        ((e.sourceText source.toList).toList ++ ')' :: r) := spells_mark rfl rfl rfl rfl
    have hclose : Spells (')' :: r) (IsOne (.punct .rightParen)) r := spells_mark rfl rfl rfl rfl
    refine (hopen.append ((spells_sourceText hp (separates_cons (by decide))).append hclose)).imp ?_
    rintro _ ⟨_, _, rfl, ⟨o, rfl, ho⟩, xs, _, rfl, ⟨f, hderives, hassigns⟩, c, rfl, hc⟩
    exact ⟨_, .bracketed ho hderives hc, hassigns, .expression e f⟩

/-- The operands behind the first one, each with a plus in front. -/
def summands (source : List Char) (parts : List AttributePart) : List Char :=
  parts.flatMap fun p => ' ' :: '+' :: ' ' :: (p.asOperand source).toList

theorem spells_summands {qs : List AttributePart} (hqs : ∀ q ∈ qs, q.Whole source) (r : List Char) :
    Spells (summands source.toList qs ++ r) (fun zs => ∀ ps xs left, Derives (.tier 8) xs left →
      left.Assigns →
      Sums ps left → ∃ e, Derives (.tier 8) (xs ++ zs) e ∧ e.Assigns ∧ Sums (ps ++ qs) e) r := by
  -- the induction is on the summands; the sum so far is the left operand of the next one
  induction qs with
  | nil =>
    intro c hc
    refine ⟨[], c, .nil c, hc, fun ps xs left hleft hassigns hsum => ⟨left, ?_, hassigns, ?_⟩⟩
    · rwa [List.append_nil]
    · rwa [List.append_nil]
  | cons q qs ih =>
    have hrest := ih fun p hp => hqs p (List.mem_cons_of_mem q hp)
    have htext : summands source.toList (q :: qs) ++ r =
        ' ' :: '+' :: ' ' :: ((q.asOperand source.toList).toList ++
          (summands source.toList qs ++ r)) := by
      simp [summands]
    rw [htext]
    have hplus :
      Spells ('+' :: ' ' :: ((q.asOperand source.toList).toList ++
        (summands source.toList qs ++ r)))
        (IsOne (.punct .plus))
        (' ' :: ((q.asOperand source.toList).toList ++ (summands source.toList qs ++ r))) :=
      spells_mark rfl rfl rfl rfl
    have hoperand :=
      (spells_asOperand (hqs q List.mem_cons_self) (summands source.toList qs ++ r)).blank
      fun ⟨e, he, _⟩ => he.ne_nil rfl rfl
    refine ((hplus.blank not_isOne_nil).append (hoperand.append hrest)).imp ?_
    rintro _ ⟨_, _, rfl, ⟨o, rfl, ho⟩, ys, zs, rfl, ⟨right, hright, hassigns', hoperand⟩,
      hzs⟩ ps xs left hleft hassigns
      hsum
    -- addition associates to the left, and its operands are in brackets or literals
    have hjoined : Derives (.tier 8) (xs ++ o :: ys) ((Connective.binary .add).join left right) :=
      .joined hleft (.head _) (ho ▸ rfl) (hright.tier_of_primary (by decide))
    obtain ⟨e, he, heassigns, hesum⟩ := hzs (ps ++ [q]) _ _ hjoined
      (assigns_join _ (List.forall_mem_singleton.2 hassigns)
        (List.forall_mem_singleton.2 hassigns') _
        List.mem_cons_self) (hsum.more hoperand)
    refine ⟨e, ?_, heassigns, ?_⟩
    · simpa using he
    · simpa using hesum

theorem toList_intercalate_operands (source : List Char) (p : AttributePart)
    (rest : List AttributePart) :
    (" + ".intercalate ((p :: rest).map (AttributePart.asOperand source))).toList =
      (p.asOperand source).toList ++ summands source rest := by
  induction rest generalizing p with
  | nil => simp [summands]
  | cons q rest ih =>
    rw [List.map_cons, List.map_cons, String.intercalate_cons_cons, ← List.map_cons,
      String.toList_append, ih]
    simp [summands]

/-- A part by itself, and several parts. -/
theorem spells_sum {p : AttributePart} {rest : List AttributePart}
    (hparts : ∀ q ∈ p :: rest, q.Whole source) (r : List Char) :
    Spells
    ((" + ".intercalate ((p :: rest).map (AttributePart.asOperand source.toList))).toList ++ r)
      (fun xs => ∃ e, Derives .assign xs e ∧ e.Assigns ∧ Sums (p :: rest) e) r := by
  rw [toList_intercalate_operands, List.append_assoc]
  have hfirst := spells_asOperand (hparts p List.mem_cons_self) (summands source.toList rest ++ r)
  have hothers := spells_summands (fun q hq => hparts q (List.mem_cons_of_mem p hq)) r
  refine (hfirst.append hothers).imp ?_
  rintro _ ⟨xs, zs, rfl, ⟨left, hleft, hassigns, hoperand⟩, hzs⟩
  obtain ⟨e, he, heassigns, hsum⟩ :=
    hzs [p] xs left (hleft.tier_of_primary (by decide)) hassigns (.one hoperand)
  exact ⟨e, he.assign_of_tier (by decide), heassigns, hsum⟩

/-- The value of an attribute as an expression, which is no sequence. -/
theorem spells_asExpression {a : Attribute} (ha : a.Passable source) (hr : Separates r) :
    Spells ((a.asExpression source.toList).toList ++ r)
      (fun xs => ∃ e, Derives .assign xs e ∧ e.Assigns ∧ a.Given e) r := by
  -- constants are tokens of their own
  have hconstant : ∀ {l : Lexeme} {value : Literal}, Denotes l.token value →
      Derives .assign [l] (.literal ⟨l.start, l.stop⟩ value) ∧
      (Expr.literal ⟨l.start, l.stop⟩ value).Assigns :=
    fun h =>
      ⟨(Derives.literal h).tier_of_primary (Nat.zero_le 10) |>.assign_of_tier (Nat.zero_le 10),
      Expr.assigns_iff.2 ⟨rfl, nofun⟩⟩
  unfold Attribute.asExpression
  -- the four forms: no value, an empty one, one expression, a sum
  split
  · next h =>
    refine (spells_name (x := 't') (s := ['r', 'u', 'e']) rfl rfl hr).imp ?_
    rintro _ ⟨l, rfl, hl⟩
    have htrue : Denotes l.token (.boolean true) := by
      rw [hl]
      exact .true
    obtain ⟨hderives, hassigns⟩ := hconstant htrue
    exact ⟨_, hderives, hassigns, .present h _⟩
  · next h =>
    have hquotes : Spells ('\'' :: '\'' :: r) (IsOne (Token.string "").recognise) r := by
      refine spells_one (n := 2) rfl (fun c hc => ?_) rfl
      have hnumber : startsNumber c.rest = false := by rw [hc]; rfl
      have hstep : c.step.rest = '\'' :: r := by rw [Cursor.rest_step, hc]; rfl
      rw [readToken, hnumber, readString, hstep, readStringBody.eq_def]
      rfl
    refine hquotes.imp ?_
    rintro _ ⟨l, rfl, hl⟩
    have hempty : Denotes l.token (.string "") := by
      rw [hl]
      exact .string ""
    obtain ⟨hderives, hassigns⟩ := hconstant hempty
    exact ⟨_, hderives, hassigns, .empty h _⟩
  · next e h =>
    have he : (AttributePart.expression e).Whole source :=
      ha.parts _ (by rw [h]; exact List.mem_cons_self)
    refine (spells_sourceText he hr).imp ?_
    rintro xs ⟨f, hderives, hassigns⟩
    refine ⟨_, ?_, hassigns, .sum h (.one (.expression e f))⟩
    -- a lone sequence would not be taken whole; it was excluded
    generalize hmoved : e.relocate f = e' at hderives
    cases hderives with
    | single hderives => exact hderives
    | sequence hfirst hothers hfinal =>
      cases e with
      | sequence span items => exact absurd h (ha.alone span items)
      | _ => cases hmoved
  · next parts hempty hsingle h =>
    cases parts with
    | nil => exact absurd rfl hempty
    | cons p rest =>
      refine (spells_sum (fun q hq => ha.parts q (by rw [h]; exact hq)) r).imp ?_
      rintro xs ⟨e, hderives, hassigns, hsum⟩
      exact ⟨e, hderives, hassigns, .sum h hsum⟩

/-- The assignment that passes an attribute along: its name, which may be a keyword, and its value.
-/
theorem spells_assignment {a : Attribute} (ha : a.Passable source) (hr : Separates r) :
    Spells (a.name.toList ++ ' ' :: '=' :: ' ' :: ((a.asExpression source.toList).toList ++ r))
      (fun xs => ∃ l o ys value, xs = l :: o :: ys ∧ l.token = (Token.identifier a.name).recognise ∧
        o.token = .punct .assign ∧ Derives .assign ys value ∧ value.Assigns ∧ a.Given value) r := by
  obtain ⟨x, tail, htext, hx, htail⟩ := exists_of_isVariableName ha.name
  have htarget := spells_name (r :=
    ' ' :: '=' :: ' ' :: ((a.asExpression source.toList).toList ++ r)) hx htail
    (separates_cons (by decide))
  rw [← htext, String.ofList_toList] at htarget
  have hequals : Spells ('=' :: ' ' :: ((a.asExpression source.toList).toList ++ r))
    (IsOne (.punct .assign))
      (' ' :: ((a.asExpression source.toList).toList ++ r)) := spells_mark rfl rfl rfl rfl
  have hvalue := (spells_asExpression ha hr).blank fun ⟨e, he, _⟩ => he.ne_nil rfl rfl
  refine (htarget.append ((hequals.blank not_isOne_nil).append hvalue)).imp ?_
  rintro _ ⟨_, _, rfl, ⟨l, rfl, hl⟩, _, ys, rfl, ⟨o, rfl, ho⟩, value, hderives, hassigns, hgiven⟩
  exact ⟨l, o, ys, value, rfl, hl, ho, hderives, hassigns, hgiven⟩

end Lexeme

end PromptMarkup

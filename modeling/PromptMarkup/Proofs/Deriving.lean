/-
What the readers read, the grammar derives.

* `Reading.Takes` — the tokens that were read between two places;
* `Parses` — a law about what a reader takes and what it makes of that;
* `Grammar.Makes` — tokens derive a tree in which all that is assigned to may be assigned to;
* `Derivers` — the claims about the readers, and `derivers`, that they hold;
* `Expr.derives_of_read` — an expression that was read is derived by all of its tokens.

Design notes: a reader that groups to the left carries what it has read so far; the claims about
`readJoined` and `readLinks` therefore start from a derivation and make it longer.  That a token was
the last one before what is no token is noticed when it is taken (`Reading.Unbroken`).
-/
import PromptMarkup.Proofs.Grammar

namespace PromptMarkup

open Grammar

namespace Reading

/-- If all tokens have been read, nothing follows that is no token. -/
def Unbroken (ending : Ending) (r : Reading) : Prop :=
  r.rest = [] → ∀ p, ending ≠ .failure p

/-- The tokens between two places. -/
structure Takes (ending : Ending) (r : Reading) (xs : List Lexeme) (r' : Reading) : Prop where
  rest : r.rest = xs ++ r'.rest
  last : r'.last = stopOf r.last xs
  unbroken : r.Unbroken ending → r'.Unbroken ending

variable {ending : Ending} {r r' r'' : Reading} {xs ys : List Lexeme}

theorem Takes.refl (r : Reading) : r.Takes ending [] r :=
  ⟨rfl, rfl, id⟩

theorem Takes.trans (h : r.Takes ending xs r') (h' : r'.Takes ending ys r'') :
    r.Takes ending (xs ++ ys) r'' := by
  refine ⟨?_, ?_, fun hr => h'.unbroken (h.unbroken hr)⟩
  · rw [h.rest, h'.rest, List.append_assoc]
  · rw [h'.last, h.last, stopOf_append]

theorem sees_eq_true {p : Punct} (h : r.sees p = true) : r.peek? = some (.punct p) := by
  unfold sees at h
  unfold peek?
  split at h
  · next q _ _ _ hrest =>
    obtain rfl := eq_of_beq h
    rw [hrest]
  · exact nomatch h

end Reading

/-! ### Laws of reading -/

/-- A reader takes tokens that are in a relation to what it gives. -/
def Parses {α : Type} (ending : Ending) (r : Reading) (P : List Lexeme → α → Prop)
    (x : Except Problem (α × Reading)) : Prop :=
  ∀ a r', x = .ok (a, r') → ∃ xs, r.Takes ending xs r' ∧ P xs a

/-- The same for a reader that gives nothing but what is left. -/
def Proceeds (ending : Ending) (r : Reading) (P : List Lexeme → Prop) (x : Except Problem Reading) :
    Prop :=
  ∀ r', x = .ok r' → ∃ xs, r.Takes ending xs r' ∧ P xs

section Laws

variable {α β : Type} {ending : Ending} {r : Reading} {P : List Lexeme → α → Prop}
  {Q : List Lexeme → β → Prop} {S : List Lexeme → Prop}

theorem parses_error (p : Problem) : Parses ending r P (.error p) :=
  fun _ _ h => nomatch h

theorem parses_ok {a : α} (h : P [] a) : Parses ending r P (.ok (a, r)) := by
  intro a' r' heq
  obtain ⟨rfl, rfl⟩ := Prod.mk.inj (Except.ok.inj heq)
  exact ⟨[], .refl r, h⟩

theorem Parses.imp {P' : List Lexeme → α → Prop} {x : Except Problem (α × Reading)}
    (h : Parses ending r P x) (himp : ∀ xs a, P xs a → P' xs a) : Parses ending r P' x := by
  intro a r' heq
  obtain ⟨xs, htakes, ha⟩ := h a r' heq
  exact ⟨xs, htakes, himp xs a ha⟩

theorem Parses.bind {x : Except Problem (α × Reading)}
    {f : α × Reading → Except Problem (β × Reading)} (hx : Parses ending r P x)
    (hf : ∀ a r' xs, r'.last = stopOf r.last xs → P xs a →
      Parses ending r' (fun ys b => Q (xs ++ ys) b) (f (a, r'))) :
    Parses ending r Q (x >>= f) := by
  intro b r'' heq
  cases x with
  | error p => exact nomatch heq
  | ok found =>
    obtain ⟨a, r'⟩ := found
    obtain ⟨xs, htakes, ha⟩ := hx a r' rfl
    obtain ⟨ys, htakes', hb⟩ := hf a r' xs htakes.last ha b r'' heq
    exact ⟨xs ++ ys, htakes.trans htakes', hb⟩

theorem Proceeds.bind {x : Except Problem Reading} {f : Reading → Except Problem (β × Reading)}
    (hx : Proceeds ending r S x)
    (hf : ∀ r' xs, r'.last = stopOf r.last xs → S xs →
      Parses ending r' (fun ys b => Q (xs ++ ys) b) (f r')) :
    Parses ending r Q (x >>= f) := by
  intro b r'' heq
  cases x with
  | error p => exact nomatch heq
  | ok r' =>
    obtain ⟨xs, htakes, hS⟩ := hx r' rfl
    obtain ⟨ys, htakes', hb⟩ := hf r' xs htakes.last hS b r'' heq
    exact ⟨xs ++ ys, htakes.trans htakes', hb⟩

/-- What is made without reading on. -/
theorem parses_made {x : Except Problem β} (hx : ∀ b, x = .ok b → Q [] b) :
    Parses ending r Q (x >>= fun b => pure (b, r)) := by
  intro b r' heq
  cases x with
  | error p => exact nomatch heq
  | ok made =>
    obtain ⟨rfl, rfl⟩ := Prod.mk.inj (Except.ok.inj heq)
    exact ⟨[], .refl r, hx made rfl⟩

/-- Taking a token: it is the one that was seen. -/
theorem proceeds_take :
    Proceeds ending r (fun xs => ∃ l, xs = [l] ∧ r.peek? = some l.token ∧ r.here = l.start)
      (r.take ending) := by
  intro r' h
  unfold Reading.take at h
  split at h
  · next l rest hrest =>
    have hpeek : r.peek? = some l.token := by rw [Reading.peek?, hrest]
    have hhere : r.here = l.start := by rw [Reading.here, hrest]
    unfold Reading.checked at h
    split at h
    · exact nomatch h
    · next hmore =>
      obtain rfl := Except.ok.inj h
      refine ⟨[l], ⟨hrest, rfl, fun _ hnil p hp => ?_⟩, l, rfl, hpeek, hhere⟩
      exact hmore p hnil hp
  · exact nomatch h

/-- Taking a token that was seen. -/
theorem proceeds_seen {t : Token} (h : r.peek? = some t) :
    Proceeds ending r (fun xs => ∃ l, xs = [l] ∧ l.token = t ∧ r.here = l.start)
    (r.take ending) := by
  intro r' heq
  obtain ⟨xs, htakes, l, hxs, hpeek, hhere⟩ := proceeds_take r' heq
  exact ⟨xs, htakes, l, hxs, Option.some.inj (hpeek.symm.trans h), hhere⟩

/-- Taking a token that was found in a table. -/
theorem proceeds_found {table : Token → Option α} {a : α} (h : r.peek?.bind table = some a) :
    Proceeds ending r (fun xs => ∃ l, xs = [l] ∧ table l.token = some a ∧ r.here = l.start)
      (r.take ending) := by
  intro r' heq
  obtain ⟨xs, htakes, l, hxs, hpeek, hhere⟩ := proceeds_take r' heq
  rw [hpeek] at h
  exact ⟨xs, htakes, l, hxs, h, hhere⟩

theorem proceeds_expect (p : Punct) :
    Proceeds ending r (fun xs => ∃ l, xs = [l] ∧ l.token = .punct p) (r.expect ending p) := by
  intro r' h
  unfold Reading.expect at h
  split at h
  · next hsees =>
    obtain ⟨xs, htakes, l, hxs, hpeek, -⟩ := proceeds_take r' h
    exact ⟨xs, htakes, l, hxs, Option.some.inj (hpeek.symm.trans (Reading.sees_eq_true hsees))⟩
  · exact nomatch h

theorem proceeds_require (p : Token → Bool) :
    Proceeds ending r (fun xs => xs = []) (r.require ending p) := by
  intro r' h
  have heq : r' = r := by
    unfold Reading.require at h
    split at h
    · exact (Except.ok.inj h).symm
    · split at h
      · exact (Except.ok.inj h).symm
      · exact nomatch h
  subst heq
  exact ⟨[], .refl r', rfl⟩

theorem parses_readName :
    Parses ending r (fun xs name => ∃ l, xs = [l] ∧ PropertyName l.token name)
    (readName ending r) := by
  intro name r' h
  unfold readName at h
  split at h
  · next name' hname =>
    rcases htake : r.take ending with p | r₁
    · rw [htake] at h
      exact nomatch h
    · rw [htake] at h
      obtain ⟨rfl, rfl⟩ := Prod.mk.inj (Except.ok.inj h)
      obtain ⟨xs, htakes, l, hxs, hpeek, -⟩ := proceeds_take r₁ htake
      rw [hpeek] at hname
      exact ⟨xs, htakes, l, hxs, propertyName_iff.2 hname⟩
  · exact nomatch h

end Laws

/-! ### Trees -/

namespace Grammar

/-- The tokens derive a tree, and all that is assigned to in it may be assigned to. -/
def Makes (s : Symbol) (xs : List Lexeme) (t : s.Tree) : Prop :=
  Derives s xs t ∧ ∀ e ∈ s.exprs t, e.Assigns

variable {xs ys : List Lexeme}

/-- An expression that assigns to nothing itself. -/
theorem assigns_of_parts {e : Expr} (he : e.hasTarget = true) (hparts : ∀ x ∈ e.parts, x.Assigns) :
    ∀ x ∈ [e], x.Assigns :=
  List.forall_mem_singleton.2 (Expr.assigns_iff.2 ⟨he, hparts⟩)

theorem assigns_join (op : Connective) {left right : Expr} (hleft : ∀ x ∈ [left], x.Assigns)
    (hright : ∀ x ∈ [right], x.Assigns) : ∀ x ∈ [op.join left right], x.Assigns := by
  have hparts : ∀ x ∈ [left, right], x.Assigns :=
    List.forall_mem_cons.2 ⟨hleft left List.mem_cons_self, hright⟩
  cases op with
  | binary op => exact assigns_of_parts rfl hparts
  | logical op => exact assigns_of_parts rfl hparts

theorem spanOf_append (hxs : xs ≠ []) :
    spanOf (xs ++ ys) = ⟨(spanOf xs).start, stopOf (spanOf xs).stop ys⟩ := by
  cases xs with
  | nil => exact absurd rfl hxs
  | cons l rest => simp [spanOf]

end Grammar

/-- The claims about the readers, for a bound on the depth. -/
structure Derivers (ending : Ending) (n : Nat) : Prop where
  expression : ∀ r, Parses ending r (Makes .expression) (readExpression ending n r)
  others : ∀ r, Parses ending r (fun xs es => (xs = [] ∧ es = []) ∨ Makes .others xs es)
    (readOthers ending n r)
  assignment : ∀ r, Parses ending r (Makes .assign) (readAssignment ending n r)
  level : ∀ r level, level ≤ 10 → Parses ending r (Makes (.tier level)) (readLevel ending n level r)
  joined : ∀ r level left xs, Makes (.tier level) xs left → level < 10 →
    Parses ending r (fun ys => Makes (.tier level) (xs ++ ys)) (readJoined ending n level left r)
  power : ∀ r, Parses ending r (Makes (.tier 10)) (readPower ending n r)
  unary : ∀ r, Parses ending r (Makes .unary) (readUnary ending n r)
  updated : ∀ r, Parses ending r (Makes .updated) (readUpdated ending n r)
  links : ∀ r start e cut xs, Makes .chainBody xs (e, cut) → spanOf xs = ⟨start, r.last⟩ →
    Parses ending r (fun ys => Makes .callMember (xs ++ ys)) (readLinks ending n start e cut r)
  primary : ∀ r, Parses ending r (fun xs e => Makes .primary xs e ∧ (spanOf xs).start = r.here)
    (readPrimary ending n r)
  elements : ∀ r, Parses ending r (Makes .elements) (readElements ending n r)
  element : ∀ r, Parses ending r (Makes .element) (readElement ending n r)
  members : ∀ r, Parses ending r (Makes .members) (readMembers ending n r)
  member : ∀ r, Parses ending r (Makes .member) (readMember ending n r)
  value : ∀ r key xs, Makes .key xs key →
    Parses ending r (fun ys => Makes .member (xs ++ ys)) (readValue ending n key r)

namespace Derivers

variable {ending : Ending} {n : Nat}

theorem expression_succ (h : Derivers ending n) (r : Reading) :
    Parses ending r (Makes .expression) (readExpression ending (n + 1) r) := by
  unfold readExpression
  refine (h.assignment r).bind fun first r₁ xs _ hfirst => ?_
  refine (h.others r₁).bind fun others r₂ ys _ hothers => ?_
  dsimp only
  rcases hothers with ⟨rfl, rfl⟩ | hothers
  · refine parses_ok ?_
    simpa only [List.append_nil] using ⟨Derives.single hfirst.1, hfirst.2⟩
  · split
    · next hnone =>
      rw [List.getLast?_eq_none_iff.1 hnone] at hothers
      exact nomatch hothers.1
    · next final hfinal =>
      refine parses_ok ?_
      rw [List.append_nil]
      refine ⟨.sequence hfirst.1 hothers.1 hfinal, assigns_of_parts rfl ?_⟩
      exact List.forall_mem_cons.2 ⟨hfirst.2 first List.mem_cons_self, hothers.2⟩

theorem others_succ (h : Derivers ending n) (r : Reading) :
    Parses ending r (fun xs es => (xs = [] ∧ es = []) ∨ Makes .others xs es)
    (readOthers ending (n + 1) r) := by
  unfold readOthers
  split
  · next hsees =>
    refine (proceeds_seen (Reading.sees_eq_true hsees)).bind ?_
    rintro r₁ _ - ⟨c, rfl, hcomma, -⟩
    refine (h.assignment r₁).bind fun e r₂ xs _ he => ?_
    refine (h.others r₂).bind fun others r₃ ys _ hothers => parses_ok (.inr ?_)
    rcases hothers with ⟨rfl, rfl⟩ | hothers
    · rw [List.append_nil, List.append_nil]
      exact ⟨.lastOther hcomma he.1, he.2⟩
    · rw [List.append_nil]
      show Makes .others (c :: (xs ++ ys)) (e :: others)
      refine ⟨.other hcomma he.1 hothers.1, ?_⟩
      exact List.forall_mem_cons.2 ⟨he.2 e List.mem_cons_self, hothers.2⟩
  · exact parses_ok (.inl ⟨rfl, rfl⟩)

theorem assignment_succ (h : Derivers ending n) (r : Reading) :
    Parses ending r (Makes .assign) (readAssignment ending (n + 1) r) := by
  unfold readAssignment
  -- the left operand comes first in each of the three cases: an assignment, a conditional, neither
  refine (h.level r 0 (Nat.zero_le _)).bind fun left r₁ xs _ hleft => ?_
  dsimp only
  split
  · next op hop =>
    refine (proceeds_found hop).bind ?_
    rintro r₂ _ - ⟨o, rfl, hop, -⟩
    refine (h.assignment r₂).bind fun value r₃ ys _ hvalue => ?_
    refine parses_made fun e he => ?_
    rw [List.append_nil]
    -- only here a production needs more than its tokens: the target must be one that can be
    -- assigned to
    show Makes .assign (xs ++ o :: ys) e
    unfold Expr.ofAssignment at he
    split at he
    · next htarget =>
      obtain rfl := Except.ok.inj he
      obtain ⟨hlisted, hspells⟩ := spelling_of_assignment hop
      refine ⟨.assignment hleft.1 hlisted hspells hvalue.1, assigns_of_parts htarget ?_⟩
      exact List.forall_mem_cons.2 ⟨hleft.2 left List.mem_cons_self, hvalue.2⟩
    · exact nomatch he
  · split
    · next hsees =>
      refine (proceeds_seen (Reading.sees_eq_true hsees)).bind ?_
      rintro r₂ _ - ⟨q, rfl, hquestion, -⟩
      refine (h.assignment r₂).bind fun consequent r₃ ys _ hconsequent => ?_
      refine (proceeds_expect .colon).bind ?_
      rintro r₄ _ - ⟨c, rfl, hcolon⟩
      refine (h.assignment r₄).bind fun alternate r₅ zs _ halternate => parses_ok ?_
      rw [List.append_nil]
      show Makes .assign (xs ++ q :: (ys ++ c :: zs)) _
      refine ⟨.unassigned (.conditional hleft.1 hquestion hconsequent.1 hcolon halternate.1),
        assigns_of_parts rfl ?_⟩
      exact List.forall_mem_cons.2 ⟨hleft.2 left List.mem_cons_self,
        List.forall_mem_cons.2 ⟨hconsequent.2 consequent List.mem_cons_self, halternate.2⟩⟩
    · refine parses_ok ?_
      rw [List.append_nil]
      exact ⟨.unassigned (.unconditional hleft.1), hleft.2⟩

theorem level_succ (h : Derivers ending n) (r : Reading) (level : Nat) (hlevel : level ≤ 10) :
    Parses ending r (Makes (.tier level)) (readLevel ending (n + 1) level r) := by
  unfold readLevel
  split
  · next hlt =>
    refine (h.level r (level + 1) hlt).bind fun left r₁ xs _ hleft => ?_
    exact h.joined r₁ level left xs ⟨.tighter hlt hleft.1, hleft.2⟩ hlt
  · next hnot =>
    obtain rfl : level = 10 := Nat.le_antisymm hlevel (Nat.not_lt.1 hnot)
    exact h.power r

theorem joined_succ (h : Derivers ending n) (r : Reading) (level : Nat) (left : Expr)
    (xs : List Lexeme) (hleft : Makes (.tier level) xs left) (hlevel : level < 10) :
    Parses ending r (fun ys => Makes (.tier level) (xs ++ ys))
    (readJoined ending (n + 1) level left r) := by
  unfold readJoined
  split
  · next op hop =>
    refine (proceeds_found hop).bind ?_
    rintro r₁ _ - ⟨o, rfl, hop, -⟩
    refine (h.level r₁ (level + 1) hlevel).bind fun right r₂ ys _ hright => ?_
    obtain ⟨hlisted, hspells⟩ := spelling_of_connective hop
    have hjoined : Makes (.tier level) (xs ++ o :: ys) (op.join left right) :=
      ⟨.joined hleft.1 hlisted hspells hright.1, assigns_join op hleft.2 hright.2⟩
    refine (h.joined r₂ level _ _ hjoined hlevel).imp fun zs e he => ?_
    simpa only [List.append_assoc, List.cons_append, List.nil_append] using he
  · refine parses_ok ?_
    rwa [List.append_nil]

theorem power_succ (h : Derivers ending n) (r : Reading) :
    Parses ending r (Makes (.tier 10)) (readPower ending (n + 1) r) := by
  unfold readPower
  refine (h.unary r).bind fun left r₁ xs _ hleft => ?_
  refine (proceeds_require Token.endsUpdated).bind ?_
  rintro r₂ _ - rfl
  split
  · next hsees =>
    refine (proceeds_seen (Reading.sees_eq_true hsees)).bind ?_
    rintro r₃ _ - ⟨o, rfl, hpower, -⟩
    refine (h.power r₃).bind fun right r₄ ys _ hright => parses_ok ?_
    rw [List.append_nil]
    exact ⟨.power hleft.1 hpower hright.1, assigns_join (.binary .power) hleft.2 hright.2⟩
  · refine parses_ok ?_
    rw [List.append_nil, List.append_nil]
    exact ⟨.base hleft.1, hleft.2⟩

/-- An update that was made is one of a target. -/
theorem assigns_ofUpdate {op : UpdateOp} {leading : Bool} {argument e : Expr} {span : Span}
    (hargument : ∀ x ∈ [argument], x.Assigns) (h : Expr.ofUpdate op leading argument span = .ok e) :
    e = .update span op leading argument ∧ ∀ x ∈ [e], x.Assigns := by
  unfold Expr.ofUpdate at h
  split at h
  · next htarget =>
    obtain rfl := Except.ok.inj h
    exact ⟨rfl, assigns_of_parts htarget hargument⟩
  · exact nomatch h

theorem unary_succ (h : Derivers ending n) (r : Reading) :
    Parses ending r (Makes .unary) (readUnary ending (n + 1) r) := by
  unfold readUnary
  dsimp only
  split
  -- an operator in front, then `++` or `--` in front, then an operand
  · next op hop =>
    refine (proceeds_found hop).bind ?_
    rintro r₁ _ - ⟨o, rfl, hop, hhere⟩
    refine (h.unary r₁).bind fun argument r₂ xs _ hargument => parses_ok ?_
    rw [List.append_nil, hhere]
    exact ⟨.unary (spelling_of_unary hop) hargument.1, assigns_of_parts rfl hargument.2⟩
  · next op _ hop =>
    refine (proceeds_found hop).bind ?_
    rintro r₁ _ hlast₁ ⟨o, rfl, hop, hhere⟩
    refine (h.unary r₁).bind fun argument r₂ xs hlast₂ hargument => ?_
    refine parses_made fun e he => ?_
    obtain ⟨rfl, hassigns⟩ := assigns_ofUpdate hargument.2 he
    -- the span starts at the operator, the first token here
    have hspan : (⟨r.here, r₂.last⟩ : Span) = spanOf (o :: xs) := by
      rw [hhere, hlast₂, hlast₁]
      rfl
    rw [List.append_nil, hspan]
    exact ⟨.updateBefore (spelling_of_update hop) hargument.1, hspan ▸ hassigns⟩
  · exact (h.updated r).imp fun xs e he => ⟨.unoperated he.1, he.2⟩

theorem updated_succ (h : Derivers ending n) (r : Reading) :
    Parses ending r (Makes .updated) (readUpdated ending (n + 1) r) := by
  unfold readUpdated
  refine (h.primary r).bind fun primary r₁ xs hlast hprimary => ?_
  obtain ⟨⟨hderives, hassigns⟩, hstart⟩ := hprimary
  -- the links that follow start their spans where the operand starts
  have hspan : spanOf xs = ⟨r.here, r₁.last⟩ := by
    rw [← hstart, hlast]
    cases xs with
    | nil => exact absurd rfl (hderives.ne_nil rfl)
    | cons l rest => rfl
  refine (h.links r₁ r.here primary false xs ⟨.bare hderives, hassigns⟩ hspan).bind
    fun operand r₂ ys _ hoperand => ?_
  dsimp only
  split
  -- an update behind the operand, which nothing may follow that would go on with it
  · next op hop =>
    refine (proceeds_found hop).bind ?_
    rintro r₃ _ hlast₃ ⟨o, rfl, hop, -⟩
    refine (proceeds_require Token.endsUpdated).bind ?_
    rintro r₄ _ hlast₄ rfl
    refine parses_made fun e he => ?_
    obtain ⟨rfl, hassigns⟩ := assigns_ofUpdate hoperand.2 he
    have hstop : r₄.last = o.stop := hlast₄.trans hlast₃
    have hderived := Derives.updateBehind hoperand.1 (spelling_of_update hop)
    rw [List.append_assoc] at hderived
    exact ⟨hstop ▸ hderived, hassigns⟩
  · refine parses_ok ?_
    rw [List.append_nil]
    exact ⟨.notUpdated hoperand.1, hoperand.2⟩

section Links

variable {r : Reading} {start : Nat} {e : Expr} {cut : Bool} {xs front : List Lexeme}

/-- The links behind a chain that was made longer. -/
theorem links_longer (h : Derivers ending n) (he : Makes .chainBody (xs ++ front) (e, cut))
    (hspan : spanOf (xs ++ front) = ⟨start, r.last⟩) :
    Parses ending r (fun ys => Makes .callMember (xs ++ (front ++ ys)))
    (readLinks ending n start e cut r) :=
  (h.links r start e cut _ he hspan).imp fun ys _ he' => List.append_assoc xs front ys ▸ he'

/-- A key in brackets, and the links behind it. -/
theorem links_computed (h : Derivers ending n) (front : List Lexeme) {optional : Bool}
    (hxs : xs ≠ []) (hstart : (spanOf xs).start = start) (he : e.Assigns)
    (hbody : ∀ {ys key c}, Derives .expression ys key → c.token = .punct .rightBracket →
      Derives .chainBody (xs ++ (front ++ (ys ++ [c])))
        (.member (spanOf (xs ++ (front ++ (ys ++ [c])))) e (.computed key) optional, cut)) :
    Parses ending r (fun ys => Makes .callMember (xs ++ (front ++ ys))) (do
      let (key, r) ← readExpression ending n r
      let r ← r.expect ending .rightBracket
      readLinks ending n start (.member ⟨start, r.last⟩ e (.computed key) optional) cut r) := by
  refine (h.expression r).bind fun key r₁ ys _ hkey => ?_
  refine (proceeds_expect .rightBracket).bind ?_
  rintro r₂ _ hlast ⟨c, rfl, hcloser⟩
  -- the span of a link is that of all tokens of the chain so far
  have hspan : spanOf (xs ++ (front ++ (ys ++ [c]))) = ⟨start, r₂.last⟩ := by
    rw [spanOf_append hxs, hstart, hlast, stopOf_append, stopOf_append]
    rfl
  have hderived := hbody hkey.1 hcloser
  rw [hspan] at hderived
  have hassigns : ∀ x ∈ [e, key], x.Assigns := List.forall_mem_cons.2 ⟨he, hkey.2⟩
  refine (h.links_longer ⟨hderived, assigns_of_parts rfl hassigns⟩ hspan).imp fun zs e' he' => ?_
  simpa only [List.append_assoc] using he'

/-- Arguments in brackets, and the links behind them. -/
theorem links_call (h : Derivers ending n) (front : List Lexeme) {optional : Bool} (hxs : xs ≠ [])
    (hstart : (spanOf xs).start = start) (he : e.Assigns)
    (hbody : ∀ {ys arguments c}, Derives .elements ys arguments → c.token = .punct .rightParen →
      Derives .chainBody (xs ++ (front ++ (ys ++ [c])))
        (.call (spanOf (xs ++ (front ++ (ys ++ [c])))) e arguments optional, cut)) :
    Parses ending r (fun ys => Makes .callMember (xs ++ (front ++ ys))) (do
      let (arguments, r) ← readElements ending n r
      let r ← r.expect ending .rightParen
      readLinks ending n start (.call ⟨start, r.last⟩ e arguments optional) cut r) := by
  refine (h.elements r).bind fun arguments r₁ ys _ harguments => ?_
  refine (proceeds_expect .rightParen).bind ?_
  rintro r₂ _ hlast ⟨c, rfl, hcloser⟩
  -- as above, the span is that of all tokens of the chain so far
  have hspan : spanOf (xs ++ (front ++ (ys ++ [c]))) = ⟨start, r₂.last⟩ := by
    rw [spanOf_append hxs, hstart, hlast, stopOf_append, stopOf_append]
    rfl
  have hderived := hbody harguments.1 hcloser
  rw [hspan] at hderived
  have hassigns : ∀ x ∈ e :: arguments.map Element.expr, x.Assigns :=
    List.forall_mem_cons.2 ⟨he, harguments.2⟩
  refine (h.links_longer ⟨hderived, assigns_of_parts rfl hassigns⟩ hspan).imp fun zs e' he' => ?_
  simpa only [List.append_assoc] using he'

/-- A name, and the links behind it. -/
theorem links_named (h : Derivers ending n) {optional : Bool} (hxs : xs ≠ [])
    (hstart : (spanOf xs).start = start) (he : e.Assigns)
    (hbody : ∀ {l name}, PropertyName l.token name → Derives .chainBody (xs ++ (front ++ [l]))
      (.member (spanOf (xs ++ (front ++ [l]))) e (.named name) optional, cut)) :
    Parses ending r (fun ys => Makes .callMember (xs ++ (front ++ ys))) (do
      let (name, r) ← readName ending r
      readLinks ending n start (.member ⟨start, r.last⟩ e (.named name) optional) cut r) := by
  refine parses_readName.bind ?_
  rintro name r₁ _ hlast ⟨l, rfl, hname⟩
  have hspan : spanOf (xs ++ (front ++ [l])) = ⟨start, r₁.last⟩ := by
    rw [spanOf_append hxs, hstart, hlast, stopOf_append]
    rfl
  have hderived := hbody hname
  rw [hspan] at hderived
  have hassigns : ∀ x ∈ [e], x.Assigns := List.forall_mem_singleton.2 he
  refine (h.links_longer ⟨hderived, assigns_of_parts rfl hassigns⟩ hspan).imp fun zs e' he' => ?_
  simpa only [List.append_assoc] using he'

theorem links_succ (h : Derivers ending n) (r : Reading) (start : Nat) (e : Expr) (cut : Bool)
    (xs : List Lexeme) (he : Makes .chainBody xs (e, cut)) (hspan : spanOf xs = ⟨start, r.last⟩) :
    Parses ending r (fun ys => Makes .callMember (xs ++ ys))
    (readLinks ending (n + 1) start e cut r) := by
  have hxs : xs ≠ [] := he.1.ne_nil rfl
  have hstart : (spanOf xs).start = start := congrArg Span.start hspan
  have hassigns : e.Assigns := he.2 e List.mem_cons_self
  unfold readLinks
  -- one case for each token that goes on with a chain; `?.` needs one more to tell what follows
  split
  · next hseen =>
    refine (proceeds_seen hseen).bind ?_
    rintro r₁ _ - ⟨o, rfl, hdot, -⟩
    exact h.links_named hxs hstart hassigns fun hname => .named he.1 hdot hname
  · next hseen =>
    refine (proceeds_seen hseen).bind ?_
    rintro r₁ _ - ⟨o, rfl, hopener, -⟩
    exact h.links_computed [o] hxs hstart hassigns fun hkey hcloser =>
      .computed he.1 hopener hkey hcloser
  · next hseen =>
    refine (proceeds_seen hseen).bind ?_
    rintro r₁ _ - ⟨o, rfl, hopener, -⟩
    exact h.links_call [o] hxs hstart hassigns fun harguments hcloser =>
      .call he.1 hopener harguments hcloser
  · next hseen =>
    refine (proceeds_seen hseen).bind ?_
    rintro r₁ _ - ⟨q, rfl, hdot, -⟩
    split
    · next hseen' =>
      refine (proceeds_seen hseen').bind ?_
      rintro r₂ _ - ⟨o, rfl, hopener, -⟩
      exact h.links_computed [q, o] hxs hstart hassigns fun hkey hcloser =>
        .optionalComputed he.1 hdot hopener hkey hcloser
    · next hseen' =>
      refine (proceeds_seen hseen').bind ?_
      rintro r₂ _ - ⟨o, rfl, hopener, -⟩
      exact h.links_call [q, o] hxs hstart hassigns fun harguments hcloser =>
        .optionalCall he.1 hdot hopener harguments hcloser
    · exact h.links_named hxs hstart hassigns fun hname => .optionalNamed he.1 hdot hname
  -- the chain ends, and is wrapped if one of its links was optional
  · refine (proceeds_require Token.endsOperand).bind ?_
    rintro r₁ _ hlast rfl
    refine parses_ok ?_
    rw [List.append_nil, List.append_nil, hlast, stopOf_nil, ← hspan]
    cases cut with
    | true => exact ⟨.chain he.1, assigns_of_parts rfl he.2⟩
    | false => exact ⟨.whole he.1, he.2⟩

end Links

theorem primary_succ (h : Derivers ending n) (r : Reading) :
    Parses ending r (fun xs e => Makes .primary xs e ∧ (spanOf xs).start = r.here)
      (readPrimary ending (n + 1) r) := by
  unfold readPrimary
  dsimp only
  -- a name, brackets of three kinds, or a literal; anything else is a problem
  split
  · next name hseen =>
    refine (proceeds_seen hseen).bind ?_
    rintro r₁ _ hlast ⟨l, rfl, hname, hhere⟩
    refine parses_ok ?_
    have hstop : r₁.last = l.stop := hlast
    rw [hhere, hstop]
    exact ⟨⟨.identifier hname, assigns_of_parts rfl (List.forall_mem_nil _)⟩, rfl⟩
  · next hseen =>
    refine (proceeds_seen hseen).bind ?_
    rintro r₁ _ - ⟨o, rfl, hopener, hhere⟩
    refine (h.expression r₁).bind fun e r₂ xs _ he => ?_
    refine (proceeds_expect .rightParen).bind ?_
    rintro r₃ _ - ⟨c, rfl, hcloser⟩
    exact parses_ok ⟨⟨.bracketed hopener he.1 hcloser, he.2⟩, hhere.symm⟩
  · next hseen =>
    refine (proceeds_seen hseen).bind ?_
    rintro r₁ _ - ⟨o, rfl, hopener, hhere⟩
    refine (h.elements r₁).bind fun elements r₂ xs _ helements => ?_
    refine (proceeds_expect .rightBracket).bind ?_
    rintro r₃ _ hlast ⟨c, rfl, hcloser⟩
    refine parses_ok ?_
    have hstop : r₃.last = c.stop := hlast
    rw [hhere, hstop]
    exact ⟨⟨.array hopener helements.1 hcloser, assigns_of_parts rfl helements.2⟩, rfl⟩
  · next hseen =>
    refine (proceeds_seen hseen).bind ?_
    rintro r₁ _ - ⟨o, rfl, hopener, hhere⟩
    refine (h.members r₁).bind fun members r₂ xs _ hmembers => ?_
    refine (proceeds_expect .rightBrace).bind ?_
    rintro r₃ _ hlast ⟨c, rfl, hcloser⟩
    refine parses_ok ?_
    have hstop : r₃.last = c.stop := hlast
    rw [hhere, hstop]
    exact ⟨⟨.object hopener hmembers.1 hcloser, assigns_of_parts rfl hmembers.2⟩, rfl⟩
  · next t _ _ _ _ hseen =>
    split
    · next value hvalue =>
      refine (proceeds_seen hseen).bind ?_
      rintro r₁ _ hlast ⟨l, rfl, rfl, hhere⟩
      refine parses_ok ?_
      have hstop : r₁.last = l.stop := hlast
      rw [hhere, hstop]
      exact ⟨⟨.literal (denotes_iff.2 hvalue), assigns_of_parts rfl (List.forall_mem_nil _)⟩, rfl⟩
    · exact parses_error _
  · exact parses_error _

theorem elements_succ (h : Derivers ending n) (r : Reading) :
    Parses ending r (Makes .elements) (readElements ending (n + 1) r) := by
  unfold readElements
  split
  · exact parses_ok ⟨.noElements, List.forall_mem_nil _⟩
  · refine (h.element r).bind fun x r₁ xs _ hx => ?_
    dsimp only
    split
    · next hsees =>
      refine (proceeds_seen (Reading.sees_eq_true hsees)).bind ?_
      rintro r₂ _ - ⟨c, rfl, hcomma, -⟩
      refine (h.elements r₂).bind fun others r₃ ys _ hothers => parses_ok ?_
      rw [List.append_nil]
      refine ⟨.moreElements hx.1 hcomma hothers.1, ?_⟩
      exact List.forall_mem_cons.2 ⟨hx.2 x.expr List.mem_cons_self, hothers.2⟩
    · refine parses_ok ?_
      rw [List.append_nil]
      exact ⟨.lastElement hx.1, hx.2⟩

theorem element_succ (h : Derivers ending n) (r : Reading) :
    Parses ending r (Makes .element) (readElement ending (n + 1) r) := by
  unfold readElement
  split
  · next hsees =>
    refine (proceeds_seen (Reading.sees_eq_true hsees)).bind ?_
    rintro r₁ _ - ⟨o, rfl, hdots, -⟩
    refine (h.assignment r₁).bind fun e r₂ xs _ he => parses_ok ?_
    rw [List.append_nil]
    exact ⟨.spreadElement hdots he.1, he.2⟩
  · refine (h.assignment r).bind fun e r₁ xs _ he => parses_ok ?_
    rw [List.append_nil]
    exact ⟨.item he.1, he.2⟩

theorem members_succ (h : Derivers ending n) (r : Reading) :
    Parses ending r (Makes .members) (readMembers ending (n + 1) r) := by
  unfold readMembers
  split
  · exact parses_ok ⟨.noMembers, List.forall_mem_nil _⟩
  · refine (h.member r).bind fun m r₁ xs _ hm => ?_
    dsimp only
    split
    · next hsees =>
      refine (proceeds_seen (Reading.sees_eq_true hsees)).bind ?_
      rintro r₂ _ - ⟨c, rfl, hcomma, -⟩
      refine (h.members r₂).bind fun others r₃ ys _ hothers => parses_ok ?_
      rw [List.append_nil]
      refine ⟨.moreMembers hm.1 hcomma hothers.1, ?_⟩
      exact List.forall_mem_append.2 ⟨hm.2, hothers.2⟩
    · refine parses_ok ?_
      rw [List.append_nil]
      refine ⟨.lastMember hm.1, ?_⟩
      exact List.forall_mem_append.2 ⟨hm.2, List.forall_mem_nil _⟩

theorem member_succ (h : Derivers ending n) (r : Reading) :
    Parses ending r (Makes .member) (readMember ending (n + 1) r) := by
  -- keywords, strings and numbers are keys only with a colon behind them
  have hkey : ∀ {t key}, r.peek? = some t →
    (∀ l : Lexeme, l.token = t → Derives .key [l] (.fixed key)) →
      Parses ending r (Makes .member) (do
        let r ← r.take ending
        readValue ending n (.fixed key) r) := by
    intro t key hseen hderives
    refine (proceeds_seen hseen).bind ?_
    rintro r₁ _ - ⟨l, rfl, htoken, -⟩
    exact h.value r₁ (.fixed key) [l] ⟨hderives l htoken, List.forall_mem_nil _⟩
  unfold readMember
  dsimp only
  split
  · next hseen =>
    refine (proceeds_seen hseen).bind ?_
    rintro r₁ _ - ⟨o, rfl, hdots, -⟩
    refine (h.assignment r₁).bind fun e r₂ xs _ he => parses_ok ?_
    rw [List.append_nil]
    exact ⟨.spreadMember hdots he.1, he.2⟩
  · next name hseen =>
    refine (proceeds_seen hseen).bind ?_
    rintro r₁ _ hlast ⟨l, rfl, hname, hhere⟩
    -- a name alone is a shorthand, unless a colon follows
    split
    · refine parses_ok ?_
      have hstop : r₁.last = l.stop := hlast
      rw [hhere, hstop]
      exact ⟨.shorthand hname, assigns_of_parts rfl (List.forall_mem_nil _)⟩
    · refine h.value r₁ (.fixed name) [l] ⟨.nameKey ?_, List.forall_mem_nil _⟩
      rw [hname]
      exact .identifier name
  · next k hseen => exact hkey hseen fun l hl => .nameKey (hl ▸ .keyword k)
  · next s hseen => exact hkey hseen fun l hl => .stringKey hl
  · next x hseen => exact hkey hseen fun l hl => .numberKey hl
  -- a computed key stands in brackets, and its value follows as that of any key
  · next hseen =>
    refine (proceeds_seen hseen).bind ?_
    rintro r₁ _ - ⟨o, rfl, hopener, -⟩
    refine (h.assignment r₁).bind fun key r₂ xs _ hexpr => ?_
    refine (proceeds_expect .rightBracket).bind ?_
    rintro r₃ _ - ⟨c, rfl, hcloser⟩
    refine (h.value r₃ (.computed key) _ ⟨.computedKey hopener hexpr.1 hcloser, hexpr.2⟩).imp
      fun ys m hm => ?_
    simpa only [List.cons_append, List.append_assoc, List.nil_append] using hm
  · exact parses_error _

theorem value_succ (h : Derivers ending n) (r : Reading) (key : Key) (xs : List Lexeme)
    (hkey : Makes .key xs key) :
    Parses ending r (fun ys => Makes .member (xs ++ ys)) (readValue ending (n + 1) key r) := by
  unfold readValue
  refine (proceeds_expect .colon).bind ?_
  rintro r₁ _ - ⟨c, rfl, hcolon⟩
  refine (h.assignment r₁).bind fun value r₂ ys _ hvalue => parses_ok ?_
  rw [List.append_nil]
  refine ⟨.property hkey.1 hcolon hvalue.1, ?_⟩
  exact List.forall_mem_append.2 ⟨hkey.2, hvalue.2⟩

end Derivers

/-- All readers keep to their claims, by induction on the bound. -/
theorem derivers (ending : Ending) (n : Nat) : Derivers ending n := by
  induction n with
  | zero =>
    exact
      { expression := fun _ => parses_error _, others := fun _ => parses_error _
        assignment := fun _ => parses_error _, level := fun _ _ _ => parses_error _
        joined := fun _ _ _ _ _ _ => parses_error _, power := fun _ => parses_error _
        unary := fun _ => parses_error _, updated := fun _ => parses_error _
        links := fun _ _ _ _ _ _ _ => parses_error _, primary := fun _ => parses_error _
        elements := fun _ => parses_error _, element := fun _ => parses_error _
        members := fun _ => parses_error _, member := fun _ => parses_error _
        value := fun _ _ _ _ => parses_error _ }
  | succ n h =>
    exact
      { expression := h.expression_succ, others := h.others_succ, assignment := h.assignment_succ
        level := h.level_succ, joined := h.joined_succ, power := h.power_succ, unary := h.unary_succ
        updated := h.updated_succ, links := h.links_succ, primary := h.primary_succ
        elements := h.elements_succ, element := h.element_succ, members := h.members_succ
        member := h.member_succ, value := h.value_succ }

/-- An expression that was read is derived by all of its tokens, and nothing follows them that is no
token. -/
theorem Expr.derives_of_read {run : TokenRun} {e : Expr} {stop : Nat}
    (h : Expr.read run = .ok (e, stop)) :
    (∀ p, run.ending ≠ .failure p) ∧ Derives .expression run.lexemes e ∧ e.Assigns ∧
      stop = stopOf 0 run.lexemes := by
  unfold read at h
  rcases hchecked : Reading.checked run.ending ⟨run.lexemes, 0⟩ with p | r
  · rw [hchecked] at h
    exact nomatch h
  · rw [hchecked] at h
    -- no lexical problem is at the front, or it would have been the answer
    have hopen : r = ⟨run.lexemes, 0⟩ ∧ r.Unbroken run.ending := by
      unfold Reading.checked at hchecked
      split at hchecked
      · exact nomatch hchecked
      · next hmore =>
        obtain rfl := Except.ok.inj hchecked
        exact ⟨rfl, fun hnil p hp => hmore p hnil hp⟩
    obtain ⟨rfl, hunbroken⟩ := hopen
    dsimp only [bind, Except.bind] at h
    rcases hread : readExpression run.ending (20 * (run.lexemes.length + 2)) ⟨run.lexemes, 0⟩ with
      p | ⟨e', r⟩
    · rw [hread] at h
      exact nomatch h
    · rw [hread] at h
      obtain ⟨xs, htakes, hderives, hassigns⟩ := (derivers run.ending _).expression _ e' r hread
      dsimp only at h
      split at h
      · next hnil =>
        obtain ⟨rfl, rfl⟩ := Prod.mk.inj (Except.ok.inj h)
        -- nothing is left behind the expression: the derivation is of all tokens
        have hall : run.lexemes = xs := by
          have hrest := htakes.rest
          rwa [hnil, List.append_nil] at hrest
        rw [hall]
        exact ⟨htakes.unbroken hunbroken hnil, hderives, hassigns e' List.mem_cons_self,
          htakes.last⟩
      · exact nomatch h

end PromptMarkup

/-
The tokens an expression stands in.

* `Matched` — tokens in which every bracket has its partner; the tokens that derive a tree are such
  (`Derives.matched`);
* `StartsAt`, `StopsAt` — where tokens start and end, apart from round brackets around their ends;
* `Grammar.Derives.edged` — there the tree starts and ends that they derive;
* `Expr.closed` — an expression, with the boundary of an optional chain around it if it needs one;
* `Grammar.Owns` — tokens that derive an expression from one end of it to the other;
* `Grammar.Derives.covers` — every expression inside of a tree has such tokens among those that
  derive the tree.

Design notes: where the first operand of an operator stands in round brackets, the span of the whole
starts behind them, and its tokens from there on close a bracket that they do not open.  So brackets
that match are enough to tell that nothing of this kind has happened at either end (`owns_of_ends`).
-/
import PromptMarkup.Proofs.Excerpts
import PromptMarkup.Proofs.Grammar

namespace PromptMarkup

open Grammar

/-! ### Brackets -/

/-- Every bracket of the tokens has its partner among them. -/
def Matched (xs : List Lexeme) : Prop :=
  ∀ depth, depthAfter? depth xs = some depth

/-- The token is no bracket. -/
def Token.IsPlain (t : Token) : Prop :=
  ∀ depth, t.depth? depth = some depth

/-- The bracket that closes what a mark opens. -/
def Punct.partner? : Punct → Option Punct
  | .leftParen => some .rightParen
  | .leftBracket => some .rightBracket
  | .leftBrace => some .rightBrace
  | _ => none

/-- The brackets of the tokens are nested, each with a partner of its kind. -/
inductive Balanced : List Lexeme → Prop
  | nil : Balanced []
  | one {l : Lexeme} (h : l.token.IsPlain) : Balanced [l]
  | append {xs ys : List Lexeme} (hxs : Balanced xs) (hys : Balanced ys) : Balanced (xs ++ ys)
  | bracketed {xs : List Lexeme} {o c : Lexeme} {p q : Punct} (ho : o.token = .punct p)
    (hxs : Balanced xs)
    (hc : c.token = .punct q) (hpq : p.partner? = some q) : Balanced (o :: (xs ++ [c]))

/-- The marks that open or close a bracket. -/
def brackets : List Punct :=
  [.leftParen, .rightParen, .leftBracket, .rightBracket, .leftBrace, .rightBrace]

theorem mem_brackets {p : Punct} (h : (p.isOpener || p.isCloser) = true) : p ∈ brackets := by
  cases p <;> first | decide | cases h

section Brackets

variable {xs ys : List Lexeme} {l o c : Lexeme} {t : Token} {m n : Nat}

theorem Matched.nil : Matched [] :=
  fun _ => rfl

theorem Matched.append (hxs : Matched xs) (hys : Matched ys) : Matched (xs ++ ys) := by
  intro depth
  rw [depthAfter?_append, hxs, Option.bind_some, hys]

theorem Matched.cons (hl : l.token.IsPlain) (hxs : Matched xs) : Matched (l :: xs) := by
  intro depth
  rw [depthAfter?, hl, Option.bind_some, hxs]

theorem Matched.one (hl : l.token.IsPlain) : Matched [l] :=
  .cons hl .nil

/-- Tokens between a bracket and its partner. -/
theorem Matched.bracketed {p q : Punct} (ho : o.token = .punct p) (hp : p.isOpener = true)
    (hxs : Matched xs)
    (hc : c.token = .punct q) (hq : q.isCloser = true) : Matched (o :: (xs ++ [c])) := by
  have hq' : q.isOpener = false := by
    cases q <;> first | rfl | cases hq
  intro depth
  have hopen : o.token.depth? depth = some (depth + 1) := by rw [ho, Token.depth?_punct, if_pos hp]
  have hclose : c.token.depth? (depth + 1) = some depth := by
    rw [hc, Token.depth?_punct, if_neg (Bool.eq_false_iff.1 hq'), if_pos hq]
  rw [depthAfter?, hopen, Option.bind_some, depthAfter?_append, hxs, Option.bind_some,
    depthAfter?, hclose]
  rfl

theorem Balanced.cons (hl : l.token.IsPlain) (hxs : Balanced xs) : Balanced (l :: xs) :=
  (Balanced.one hl).append hxs

theorem Balanced.matched (h : Balanced xs) : Matched xs := by
  induction h with
  | nil => exact .nil
  | one h => exact .one h
  | append _ _ ihx ihy => exact ihx.append ihy
  | @bracketed _ _ _ p q ho _ hc hpq ih =>
    have hkinds : p.isOpener = true ∧ q.isCloser = true := by
      cases p <;> cases hpq <;> decide
    exact .bracketed ho hkinds.1 ih hc hkinds.2

theorem plain_mark {p : Punct} (h : t = .punct p)
    (hp : (p.isOpener || p.isCloser) = false := by decide) :
    t.IsPlain := by
  obtain ⟨hopener, hcloser⟩ := Bool.or_eq_false_iff.1 hp
  intro depth
  rw [h, Token.depth?_punct, if_neg (Bool.eq_false_iff.1 hopener),
    if_neg (Bool.eq_false_iff.1 hcloser)]

/-- A table of operators has no entry for brackets. -/
theorem plain_of_table {α : Type} {table : Token → Option α} {a : α} (h : table t = some a)
    (hnone : ∀ p ∈ brackets, table (.punct p) = none := by decide) : t.IsPlain := by
  cases t with
  | punct p =>
    refine plain_mark rfl (Bool.eq_false_iff.2 fun hp => ?_)
    exact nomatch (hnone p (mem_brackets hp)).symm.trans h
  | _ => exact fun _ => rfl

theorem plain_of_connective {level : Nat} {op : Connective}
    (h : Connective.ofToken? level t = some op) :
    t.IsPlain := by
  refine plain_of_table h fun p hp => ?_
  simp only [brackets, List.mem_cons, List.not_mem_nil, or_false] at hp
  rcases hp with rfl | rfl | rfl | rfl | rfl | rfl <;> rfl

theorem plain_of_name {name : String} (h : PropertyName t name) : t.IsPlain := by
  cases h <;> exact fun _ => rfl

theorem plain_of_literal {value : Literal} (h : Denotes t value) : t.IsPlain := by
  cases h <;> exact fun _ => rfl

end Brackets

/-- In the tokens that derive a tree, every bracket has its partner. -/
theorem Grammar.Derives.balanced {s : Symbol} {xs : List Lexeme} {t : s.Tree} (h : Derives s xs t) :
    Balanced xs := by
  -- the induction is on the derivation; brackets come in pairs, every other mark is plain
  induction h with
  | single _ ih => exact ih
  | sequence _ _ _ ih iho => exact ih.append iho
  | lastOther hcomma _ ih => exact ih.cons (plain_mark hcomma)
  | other hcomma _ _ ih iho => exact (ih.append iho).cons (plain_mark hcomma)
  | unassigned _ ih => exact ih
  | assignment _ hop hspells _ iht ihv =>
    exact iht.append (ihv.cons (plain_of_table (assignment_of_spelling hop hspells)))
  | unconditional _ ih => exact ih
  | conditional _ hquestion _ hcolon _ iht ihc iha =>
    exact iht.append ((ihc.append (iha.cons (plain_mark hcolon))).cons (plain_mark hquestion))
  | joined _ hop hspells _ ihl ihr =>
    exact ihl.append (ihr.cons (plain_of_connective (connective_of_spelling hop hspells)))
  | tighter _ _ ih => exact ih
  | power _ hpower _ ihl ihr => exact ihl.append (ihr.cons (plain_mark hpower))
  | base _ ih => exact ih
  | unoperated _ ih => exact ih
  | unary hspells _ ih => exact ih.cons (plain_of_table (unary_of_spelling hspells))
  | updateBefore hspells _ ih => exact ih.cons (plain_of_table (update_of_spelling hspells))
  | notUpdated _ ih => exact ih
  | updateBehind _ hspells ih =>
    exact ih.append (.one (plain_of_table (update_of_spelling hspells)))
  | whole _ ih => exact ih
  | chain _ ih => exact ih
  | bare _ ih => exact ih
  | named _ hdot hname ih =>
    -- a name behind a dot is no mark at all
    exact ih.append ((Balanced.one (plain_of_name hname)).cons (plain_mark hdot))
  | optionalNamed _ hdot hname ih =>
    exact ih.append ((Balanced.one (plain_of_name hname)).cons (plain_mark hdot))
  | optionalComputed _ hdot hopener _ hcloser ih ihk =>
    exact ih.append ((Balanced.bracketed hopener ihk hcloser rfl).cons (plain_mark hdot))
  | computed _ hopener _ hcloser ih ihk => exact ih.append (.bracketed hopener ihk hcloser rfl)
  | optionalCall _ hdot hopener _ hcloser ih iha =>
    exact ih.append ((Balanced.bracketed hopener iha hcloser rfl).cons (plain_mark hdot))
  | call _ hopener _ hcloser ih iha => exact ih.append (.bracketed hopener iha hcloser rfl)
  | literal h => exact .one (plain_of_literal h)
  | identifier h => exact .one (h ▸ fun _ => rfl)
  | bracketed hopener _ hcloser ih => exact .bracketed hopener ih hcloser rfl
  | array hopener _ hcloser ih => exact .bracketed hopener ih hcloser rfl
  | object hopener _ hcloser ih => exact .bracketed hopener ih hcloser rfl
  | noElements => exact .nil
  | lastElement _ ih => exact ih
  | moreElements _ hcomma _ ih iho => exact ih.append (iho.cons (plain_mark hcomma))
  | spreadElement hdots _ ih => exact ih.cons (plain_mark hdots)
  | item _ ih => exact ih
  | noMembers => exact .nil
  | lastMember _ ih => exact ih
  | moreMembers _ hcomma _ ih iho => exact ih.append (iho.cons (plain_mark hcomma))
  | spreadMember hdots _ ih => exact ih.cons (plain_mark hdots)
  | shorthand h => exact .one (h ▸ fun _ => rfl)
  | property _ hcolon _ ihk ihv => exact ihk.append (ihv.cons (plain_mark hcolon))
  | nameKey h => exact .one (plain_of_name h)
  | stringKey h => exact .one (h ▸ fun _ => rfl)
  | numberKey h => exact .one (h ▸ fun _ => rfl)
  | computedKey hopener _ hcloser ih => exact .bracketed hopener ih hcloser rfl

theorem Grammar.Derives.matched {s : Symbol} {xs : List Lexeme} {t : s.Tree} (h : Derives s xs t) :
    Matched xs :=
  h.balanced.matched

/-! ### The ends of an expression -/

/-- Tokens start at an offset, apart from opening round brackets in front of it. -/
def StartsAt (xs : List Lexeme) (n : Nat) : Prop :=
  ∃ p l r, xs = p ++ l :: r ∧ (∀ o ∈ p, o.token = .punct .leftParen) ∧ l.start = n

/-- Tokens stop at an offset, apart from closing round brackets behind it. -/
def StopsAt (xs : List Lexeme) (n : Nat) : Prop :=
  ∃ r l q, xs = r ++ l :: q ∧ (∀ c ∈ q, c.token = .punct .rightParen) ∧ l.stop = n

section Ends

variable {xs ys : List Lexeme} {l o c : Lexeme} {m n : Nat}

theorem startsAt_cons (l : Lexeme) (xs : List Lexeme) : StartsAt (l :: xs) l.start :=
  ⟨[], l, xs, rfl, fun _ h => (nomatch h), rfl⟩

theorem stopsAt_last (xs : List Lexeme) (l : Lexeme) : StopsAt (xs ++ [l]) l.stop :=
  ⟨xs, l, [], rfl, fun _ h => (nomatch h), rfl⟩

theorem StartsAt.append (h : StartsAt xs n) (ys : List Lexeme) : StartsAt (xs ++ ys) n := by
  obtain ⟨p, l, r, rfl, hp, rfl⟩ := h
  exact ⟨p, l, r ++ ys, List.append_assoc _ _ _, hp, rfl⟩

theorem StopsAt.behind (h : StopsAt ys n) (xs : List Lexeme) : StopsAt (xs ++ ys) n := by
  obtain ⟨r, l, q, rfl, hq, rfl⟩ := h
  exact ⟨xs ++ r, l, q, (List.append_assoc _ _ _).symm, hq, rfl⟩

theorem StopsAt.cons (h : StopsAt xs n) (l : Lexeme) : StopsAt (l :: xs) n :=
  h.behind [l]

/-- From one end of the tokens to the other. -/
theorem spanOf_ends (hxs : xs ≠ []) :
    StartsAt xs (spanOf xs).start ∧ StopsAt xs (spanOf xs).stop := by
  refine ⟨?_, ?_⟩
  · cases xs with
    | nil => exact absurd rfl hxs
    | cons l xs => exact startsAt_cons l xs
  · obtain ⟨ys, l, rfl⟩ : ∃ ys l, xs = ys ++ [l] := ⟨_, _, (List.dropLast_concat_getLast hxs).symm⟩
    have hstop : (spanOf (ys ++ [l])).stop = l.stop := by
      cases ys with
      | nil => rfl
      | cons y ys => exact stopOf_append _ _ _
    exact hstop ▸ stopsAt_last ys l

theorem ends_bracketed (hopener : o.token = .punct .leftParen)
    (hcloser : c.token = .punct .rightParen)
    (h : StartsAt xs m ∧ StopsAt xs n) :
    StartsAt (o :: (xs ++ [c])) m ∧ StopsAt (o :: (xs ++ [c])) n := by
  obtain ⟨⟨p, l, r, hxs, hp, hm⟩, r', l', q, hxs', hq, hn⟩ := h
  refine ⟨⟨o :: p, l, r ++ [c], ?_, List.forall_mem_cons.2 ⟨hopener, hp⟩, hm⟩,
    o :: r', l', q ++ [c], ?_, List.forall_mem_append.2
      ⟨hq, List.forall_mem_singleton.2 hcloser⟩, hn⟩
  · rw [hxs, List.append_assoc, List.cons_append, List.cons_append]
  · rw [hxs', List.append_assoc, List.cons_append, List.cons_append]

end Ends

/-- What stands for tokens starts and stops where they do, apart from round brackets. -/
def Grammar.Symbol.Edged : (s : Symbol) → List Lexeme → s.Tree → Prop
  | .others, xs, es => ∀ final, es.getLast? = some final → StopsAt xs final.stop
  | .chainBody, xs, (e, _) => StartsAt xs e.start ∧ StopsAt xs e.stop
  | .elements, _, _ | .element, _, _ | .members, _, _ | .member, _, _ | .key, _, _ => True
  | .expression, xs, e | .assign, xs, e | .conditional, xs, e | .tier _, xs, e | .unary, xs,
    e | .updated, xs, e
  | .callMember, xs, e | .primary, xs, e => StartsAt xs e.start ∧ StopsAt xs e.stop

@[simp] theorem Connective.start_join (op : Connective) (left right : Expr) :
    (op.join left right).start = left.start := by
  cases op <;> rfl

@[simp] theorem Connective.stop_join (op : Connective) (left right : Expr) :
    (op.join left right).stop = right.stop := by
  cases op <;> rfl

theorem Grammar.Derives.edged {s : Symbol} {xs : List Lexeme} {t : s.Tree} (h : Derives s xs t) :
    s.Edged xs t := by
  induction h with
  | single _ ih => exact ih
  | sequence _ _ hfinal ih iho => exact ⟨ih.1.append _, (iho _ hfinal).behind _⟩
  | lastOther _ _ ih =>
    rintro final hfinal
    obtain rfl := Option.some.inj hfinal
    exact ih.2.cons _
  | @other xs ys c e es _ _ hothers ih iho =>
    -- the last one of the others is among those that follow, since there are some
    intro final hfinal
    have hes : es.getLast? = some final := by
      cases hothers <;> exact hfinal
    exact ((iho final hes).behind _).cons _
  | unassigned _ ih => exact ih
  | assignment _ _ _ _ iht ihv => exact ⟨iht.1.append _, (ihv.2.cons _).behind _⟩
  | unconditional _ ih => exact ih
  | conditional _ _ _ _ _ iht _ iha =>
    exact ⟨iht.1.append _, (((iha.2.cons _).behind _).cons _).behind _⟩
  | @joined xs ys o left right level op _ _ _ _ ihl ihr =>
    exact ⟨(op.start_join left right).symm ▸ ihl.1.append _,
      (op.stop_join left right).symm ▸ (ihr.2.cons _).behind _⟩
  | tighter _ _ ih => exact ih
  | power _ _ _ ihl ihr => exact ⟨ihl.1.append _, (ihr.2.cons _).behind _⟩
  | base _ ih => exact ih
  | unoperated _ ih => exact ih
  | unary _ _ ih => exact ⟨startsAt_cons _ _, ih.2.cons _⟩
  | updateBefore _ _ _ => exact spanOf_ends (List.cons_ne_nil _ _)
  | notUpdated _ ih => exact ih
  | updateBehind _ _ ih => exact ⟨ih.1.append _, stopsAt_last _ _⟩
  | whole _ ih => exact ih
  | chain h _ => exact spanOf_ends (h.ne_nil rfl)
  | bare _ ih => exact ih
  | named _ _ _ _ => exact spanOf_ends (by simp)
  | optionalNamed _ _ _ _ => exact spanOf_ends (by simp)
  | optionalComputed _ _ _ _ _ _ _ => exact spanOf_ends (by simp)
  | computed _ _ _ _ _ _ => exact spanOf_ends (by simp)
  | optionalCall _ _ _ _ _ _ _ => exact spanOf_ends (by simp)
  | call _ _ _ _ _ _ => exact spanOf_ends (by simp)
  | literal _ => exact ⟨startsAt_cons _ _, stopsAt_last [] _⟩
  | identifier _ => exact ⟨startsAt_cons _ _, stopsAt_last [] _⟩
  | bracketed hopener _ hcloser ih => exact ends_bracketed hopener hcloser ih
  | array _ _ _ _ => exact ⟨startsAt_cons _ _, (stopsAt_last _ _).cons _⟩
  | object _ _ _ _ => exact ⟨startsAt_cons _ _, (stopsAt_last _ _).cons _⟩
  | _ => exact trivial

/-! ### Optional chains -/

namespace Expr

/-- The expression is a chain of members and calls, one of them optional, without the boundary
around it. -/
def isCut : Expr → Bool
  | member _ owner _ optional => optional || owner.isCut
  | call _ callee _ optional => optional || callee.isCut
  | _ => false

/-- The expression, with the boundary of an optional chain around it if it needs one. -/
def closed (e : Expr) : Expr :=
  if e.isCut then .chain e.span e else e

theorem assigns_closed {e : Expr} (h : e.Assigns) : e.closed.Assigns := by
  unfold closed
  split
  · exact assigns_iff.2 ⟨rfl, List.forall_mem_singleton.2 h⟩
  · exact h

end Expr

namespace Grammar

/-- Of the trees of a symbol, only those of links may need a boundary, and it is known which do. -/
def Symbol.Bounded : (s : Symbol) → s.Tree → Prop
  | .chainBody, (e, cut) => e.isCut = cut
  | .others, _ | .elements, _ | .element, _ | .members, _ | .member, _ | .key, _ => True
  | .expression, e | .assign, e | .conditional, e | .tier _, e | .unary, e | .updated,
    e | .callMember, e
  | .primary, e => e.isCut = false

theorem Derives.bounded {s : Symbol} {xs : List Lexeme} {t : s.Tree} (h : Derives s xs t) :
    s.Bounded t := by
  induction h with
  | single _ ih => exact ih
  | unassigned _ ih => exact ih
  | unconditional _ ih => exact ih
  | @joined _ _ _ _ _ _ op => cases op <;> exact rfl
  | tighter _ _ ih => exact ih
  | base _ ih => exact ih
  | unoperated _ ih => exact ih
  | notUpdated _ ih => exact ih
  | whole _ ih => exact ih
  | bare _ ih => exact ih
  | bracketed _ _ _ ih => exact ih
  | named _ _ _ ih => exact (Bool.false_or _).trans ih
  | computed _ _ _ _ ih _ => exact (Bool.false_or _).trans ih
  | call _ _ _ _ ih _ => exact (Bool.false_or _).trans ih
  | _ => first | exact rfl | exact trivial

variable {xs ys : List Lexeme} {e : Expr}

/-- What tokens derive with tighter operators they derive with looser ones. -/
theorem Derives.tier_of_le {m n : Nat} (hmn : m ≤ n) (hn : n ≤ 10) (h : Derives (.tier n) xs e) :
    Derives (.tier m) xs e := by
  obtain ⟨k, rfl⟩ := Nat.exists_eq_add_of_le hmn
  induction k with
  | zero => exact h
  | succ k ih => exact ih (Nat.le_add_right m k) (Nat.le_of_succ_le hn) (.tighter hn h)

theorem Derives.assign_of_tier {level : Nat} (hlevel : level ≤ 10)
    (h : Derives (.tier level) xs e) :
    Derives .assign xs e :=
  .unassigned (.unconditional (h.tier_of_le (Nat.zero_le level) hlevel))

theorem Derives.expression_of_tier {level : Nat} (hlevel : level ≤ 10)
    (h : Derives (.tier level) xs e) :
    Derives .expression xs e :=
  .single (h.assign_of_tier hlevel)

theorem Derives.expression_of_unary (h : Derives .unary xs e) : Derives .expression xs e :=
  Derives.expression_of_tier (Nat.le_refl 10) (.base h)

theorem Derives.expression_of_updated (h : Derives .updated xs e) : Derives .expression xs e :=
  Derives.expression_of_unary (.unoperated h)

theorem Derives.expression_of_callMember (h : Derives .callMember xs e) :
    Derives .expression xs e :=
  Derives.expression_of_updated (.notUpdated h)

theorem Derives.expression_of_primary (h : Derives .primary xs e) : Derives .expression xs e :=
  Derives.expression_of_callMember (.whole (.bare h))

theorem Derives.tier_of_primary {level : Nat} (hlevel : level ≤ 10) (h : Derives .primary xs e) :
    Derives (.tier level) xs e :=
  .tier_of_le hlevel (Nat.le_refl 10) (.base (.unoperated (.notUpdated (.whole (.bare h)))))

/-- Tokens derive an expression, with the boundary that it needs, and reach from one end of it to
the other: they do if the brackets match between its ends. -/
structure Owns (xs : List Lexeme) (e : Expr) : Prop where
  derives : Derives .expression xs e.closed
  ends : ∃ p v q, xs = p ++ v ++ q ∧ (∀ o ∈ p, o.token = .punct .leftParen) ∧ v ≠ [] ∧
    spanOf v = e.span ∧
    (depthAfter? 0 v = some 0 → p = [] ∧ q = [])

theorem owns_whole (hderives : Derives .expression xs e.closed) (hspan : spanOf xs = e.span) :
    Owns xs e :=
  ⟨hderives, [], xs, [], (List.append_nil xs).symm, List.forall_mem_nil _,
    hderives.ne_nil rfl, hspan, fun _ => ⟨rfl, rfl⟩⟩

theorem depth?_mono {t : Token} {m n : Nat} (h : t.depth? m = some n) (k : Nat) :
    t.depth? (m + k) = some (n + k) := by
  cases t with
  | punct p =>
    rw [Token.depth?_punct] at h ⊢
    split
    · next hopener =>
      rw [if_pos hopener] at h
      obtain rfl := Option.some.inj h
      rw [Nat.add_right_comm]
    -- a closing bracket: the depth goes down by one, also from the larger depth
    · next hopener =>
      rw [if_neg hopener] at h
      split
      · next hcloser =>
        rw [if_pos hcloser] at h
        cases m with
        | zero => cases h
        | succ m =>
          obtain rfl := Option.some.inj h
          rw [Nat.add_right_comm]
      · next hcloser =>
        rw [if_neg hcloser] at h
        obtain rfl := Option.some.inj h
        rfl
  | _ =>
    obtain rfl := Option.some.inj h
    rfl

theorem depthAfter?_mono {m n : Nat} (h : depthAfter? m xs = some n) (k : Nat) :
    depthAfter? (m + k) xs = some (n + k) := by
  induction xs generalizing m with
  | nil =>
    obtain rfl := Option.some.inj h
    rfl
  | cons l xs ih =>
    obtain ⟨j, hl, hxs⟩ := Option.bind_eq_some_iff.1 h
    rw [depthAfter?, depth?_mono hl, Option.bind_some, ih hxs]

theorem depthAfter?_openers (h : ∀ o ∈ xs, o.token = .punct .leftParen) (n : Nat) :
    depthAfter? n xs = some (n + xs.length) := by
  induction xs generalizing n with
  | nil => rfl
  | cons o xs ih =>
    obtain ⟨ho, hxs⟩ := List.forall_mem_cons.1 h
    rw [depthAfter?, ho]
    exact (ih hxs (n + 1)).trans (by rw [List.length_cons, Nat.add_assoc, Nat.add_comm 1])

theorem eq_nil_of_closers {n : Nat} (h : ∀ c ∈ xs, c.token = .punct .rightParen)
    (hdepth : depthAfter? 0 xs = some n) : xs = [] := by
  cases xs with
  | nil => rfl
  | cons c xs =>
    rw [depthAfter?, h c List.mem_cons_self] at hdepth
    cases hdepth

/-- An expression from the start of its first part to the end of its last one. -/
theorem owns_of_ends (xs mid ys : List Lexeme) {zs : List Lexeme} {m n : Nat}
    (hderives : Derives .expression zs e.closed) (hzs : zs = xs ++ mid ++ ys)
    (hspan : e.span = ⟨m, n⟩)
    (hxs : Matched xs) (hys : Matched ys) (hm : StartsAt xs m) (hn : StopsAt ys n) : Owns zs e := by
  subst hzs
  obtain ⟨p, l, r, rfl, hp, rfl⟩ := hm
  obtain ⟨r', l', q, rfl, hq, rfl⟩ := hn
  refine ⟨hderives, p, (l :: r) ++ mid ++ (r' ++ [l']), q, ?_, hp, ?_, ?_, fun hv => ⟨?_, ?_⟩⟩
  · simp
  · simp
  · rw [hspan, List.cons_append, List.cons_append, spanOf]
    simp only [stopOf_append, stopOf_cons, stopOf_nil]
  · -- a bracket that was opened in front is closed by the first part
    rw [List.append_assoc, depthAfter?_append] at hv
    obtain ⟨k, hk, -⟩ := Option.bind_eq_some_iff.1 hv
    have hfront := hxs 0
    rw [depthAfter?_append, depthAfter?_openers hp, Option.bind_some, Nat.zero_add] at hfront
    have hlen := (depthAfter?_mono hk p.length).symm.trans (Nat.zero_add p.length ▸ hfront)
    exact List.length_eq_zero_iff.1 (by have := Option.some.inj hlen; omega)
  · -- a bracket that is closed behind was opened by the last part
    rw [depthAfter?_append] at hv
    obtain ⟨k, -, hk⟩ := Option.bind_eq_some_iff.1 hv
    have hback := hys k
    have happend : r' ++ l' :: q = (r' ++ [l']) ++ q := (List.append_assoc r' [l'] q).symm
    rw [happend, depthAfter?_append, hk, Option.bind_some] at hback
    exact eq_nil_of_closers hq hback

/-- Every expression inside of a tree has tokens of its own among the given ones. -/
def Covers (xs : List Lexeme) (e : Expr) : Prop :=
  ∀ x ∈ e.subterms, ∃ ys, ys <:+: xs ∧ Owns ys x

theorem Covers.mono (h : Covers xs e) (hxs : xs <:+: ys) : Covers ys e := by
  intro x hx
  obtain ⟨zs, hzs, howns⟩ := h x hx
  exact ⟨zs, hzs.trans hxs, howns⟩

theorem covers_of_parts (h : Owns xs e) (hparts : ∀ x ∈ e.parts, Covers xs x) : Covers xs e := by
  intro x hx
  rw [Expr.subterms_eq] at hx
  rcases List.mem_cons.1 hx with rfl | hx
  · exact ⟨xs, List.infix_rfl, h⟩
  · obtain ⟨y, hy, hx⟩ := List.mem_flatMap.1 hx
    exact hparts y hy x hx

/-- A link of a chain needs a boundary if one of the links up to it is optional. -/
theorem owns_link {cut : Bool} (h : Derives .chainBody xs (e, cut)) (hspan : spanOf xs = e.span) :
    Owns xs e := by
  refine owns_whole (Derives.expression_of_callMember ?_) hspan
  have hcut : e.isCut = cut := h.bounded
  unfold Expr.closed
  rw [hcut]
  cases cut with
  | true => exact hspan ▸ .chain h
  | false => exact .whole h

theorem covers_all {es : List Expr} (h : ∀ e ∈ es, Covers xs e) (hxs : xs <:+: ys) :
    ∀ e ∈ es, Covers ys e :=
  fun e he => (h e he).mono hxs

/-- Expressions in two lists of tokens, the second one being part of what follows the first. -/
theorem covers_append {zs : List Lexeme} {es fs : List Expr} (h : ∀ e ∈ es, Covers xs e)
    (h' : ∀ e ∈ fs, Covers ys e) (hys : ys <:+: zs) : ∀ e ∈ es ++ fs, Covers (xs ++ zs) e :=
  List.forall_mem_append.2 ⟨covers_all h ⟨[], zs, rfl⟩,
    covers_all h' (hys.trans (List.suffix_append xs zs).isInfix)⟩

theorem covers_one (h : Covers xs e) : ∀ x ∈ [e], Covers xs x :=
  List.forall_mem_singleton.2 h

/-- Every expression inside of a tree has tokens of its own among those that derive the tree.  An
operator has those from one of its operands to the other; a link, a list and a literal have all
tokens they are derived from. -/
theorem Derives.covers {s : Symbol} {xs : List Lexeme} {t : s.Tree} (h : Derives s xs t) :
    ∀ e ∈ s.exprs t, Covers xs e := by
  -- the induction is on the derivation: an expression that a production makes owns the tokens of
  -- its span, and those of its parts stand among them
  induction h with
  | single _ ih => exact ih
  | @sequence xs ys first final es hfirst hothers hfinal ih iho =>
    -- the span reaches from the first item to the last one
    refine covers_one (covers_of_parts ?_ ?_)
    · exact owns_of_ends xs [] ys (.sequence hfirst hothers hfinal) (by simp) rfl hfirst.matched
        hothers.matched
        hfirst.edged.1 (hothers.edged final hfinal)
    · exact covers_append ih iho List.infix_rfl
  | @lastOther xs c e hcomma _ ih => exact covers_all ih ⟨[c], [], by simp⟩
  | @other xs ys c e es hcomma _ _ ih iho =>
    exact covers_all (covers_append ih iho List.infix_rfl) (List.suffix_cons c (xs ++ ys)).isInfix
  | unassigned _ ih => exact ih
  | @assignment xs ys o target value op htarget hop hspells hvalue iht ihv =>
    -- operators: the span is taken from the ends of the operands, which brackets of the operands
    -- may stand outside of; where brackets match, these are all tokens
    refine covers_one (covers_of_parts ?_ ?_)
    · exact owns_of_ends xs [o] ys (.single (.assignment htarget hop hspells hvalue)) (by simp) rfl
        htarget.matched hvalue.matched htarget.edged.1 hvalue.edged.2
    · exact covers_append iht ihv (List.suffix_cons o ys).isInfix
  | unconditional _ ih => exact ih
  | @conditional xs ys zs q c test consequent alternate htest hquestion hconsequent hcolon
      halternate iht ihc iha =>
    refine covers_one (covers_of_parts ?_ ?_)
    · exact owns_of_ends xs (q :: (ys ++ [c])) zs
        (.single (.unassigned (.conditional htest hquestion hconsequent hcolon halternate)))
        (by simp) rfl
        htest.matched halternate.matched htest.edged.1 halternate.edged.2
    · have hbranches := covers_append ihc iha (List.suffix_cons c zs).isInfix
      exact covers_append iht hbranches (List.suffix_cons q (ys ++ c :: zs)).isInfix
  | @joined xs ys o left right level op hleft hop hspells hright ihl ihr =>
    -- for each operator of a level the node has the same two parts
    have hclosed : (op.join left right).closed = op.join left right := by
      cases op <;> rfl
    refine covers_one (covers_of_parts ?_ ?_)
    · refine owns_of_ends xs [o] ys (m := left.start) (n := right.stop) ?_ (by simp) ?_
        hleft.matched hright.matched
        hleft.edged.1 hright.edged.2
      · rw [hclosed]
        exact Derives.expression_of_tier (Nat.le_of_lt (lt_of_mem_operators hop))
          (.joined hleft hop hspells hright)
      · cases op <;> rfl
    · have hparts : (op.join left right).parts = [left] ++ [right] := by
        cases op <;> rfl
      rw [hparts]
      exact covers_append ihl ihr (List.suffix_cons o ys).isInfix
  | tighter _ _ ih => exact ih
  | @power xs ys o left right hleft hpower hright ihl ihr =>
    refine covers_one (covers_of_parts ?_ ?_)
    · exact owns_of_ends xs [o] ys
        (Derives.expression_of_tier (Nat.le_refl 10) (.power hleft hpower hright))
        (by simp) rfl hleft.matched hright.matched hleft.edged.1 hright.edged.2
    · exact covers_append ihl ihr (List.suffix_cons o ys).isInfix
  | base _ ih => exact ih
  | unoperated _ ih => exact ih
  | @unary xs o e op hspells h ih =>
    -- in front of the operand stands the operator alone, which is where the span starts
    refine covers_one (covers_of_parts ?_ (covers_all ih ⟨[o], [], by simp⟩))
    exact owns_of_ends [o] [] xs (Derives.expression_of_unary (.unary hspells h)) rfl rfl
      (.one (plain_of_table (unary_of_spelling hspells))) h.matched (startsAt_cons o []) h.edged.2
  | @updateBefore xs o e op hspells h ih =>
    refine covers_one (covers_of_parts (owns_whole ?_ rfl) (covers_all ih ⟨[o], [], by simp⟩))
    exact Derives.expression_of_unary (.updateBefore hspells h)
  | notUpdated _ ih => exact ih
  | @updateBehind xs o e op h hspells ih =>
    refine covers_one (covers_of_parts ?_ (covers_all ih ⟨[], [o], rfl⟩))
    exact owns_of_ends xs [] [o] (Derives.expression_of_updated (.updateBehind h hspells))
      (by simp) rfl
      h.matched (.one (plain_of_table (update_of_spelling hspells))) h.edged.1 (stopsAt_last [] o)
  | whole _ ih => exact ih
  | @chain xs e h ih =>
    -- the node around a chain has the span of its last link
    refine covers_one (covers_of_parts (owns_whole ?_ rfl) ih)
    exact Derives.expression_of_callMember (.chain h)
  | bare _ ih => exact ih
  | @named xs l o e cut name h hdot hname ih =>
    -- links: a link owns all tokens of the chain up to its own last one
    refine covers_one (covers_of_parts (owns_link (.named h hdot hname) rfl) ?_)
    exact covers_all ih ⟨[], [o, l], rfl⟩
  | @optionalNamed xs l q e cut name h hdot hname ih =>
    refine covers_one (covers_of_parts (owns_link (.optionalNamed h hdot hname) rfl) ?_)
    exact covers_all ih ⟨[], [q, l], rfl⟩
  | @optionalComputed xs ys o q c e key cut h hdot hopener hkey hcloser ih ihk =>
    refine covers_one (covers_of_parts
      (owns_link (.optionalComputed h hdot hopener hkey hcloser) rfl) ?_)
    exact covers_append ih ihk ⟨[q, o], [c], rfl⟩
  | @computed xs ys o c e key cut h hopener hkey hcloser ih ihk =>
    refine covers_one (covers_of_parts (owns_link (.computed h hopener hkey hcloser) rfl) ?_)
    exact covers_append ih ihk ⟨[o], [c], rfl⟩
  | @optionalCall xs ys o q c e cut arguments h hdot hopener harguments hcloser ih iha =>
    refine covers_one (covers_of_parts
      (owns_link (.optionalCall h hdot hopener harguments hcloser) rfl) ?_)
    exact covers_append ih iha ⟨[q, o], [c], rfl⟩
  | @call xs ys o c e cut arguments h hopener harguments hcloser ih iha =>
    refine covers_one (covers_of_parts (owns_link (.call h hopener harguments hcloser) rfl) ?_)
    exact covers_append ih iha ⟨[o], [c], rfl⟩
  | @literal l value h =>
    -- a token alone is a whole expression
    exact covers_one (covers_of_parts (owns_whole (Derives.expression_of_primary (.literal h)) rfl)
      nofun)
  | @identifier l name h =>
    exact covers_one (covers_of_parts
      (owns_whole (Derives.expression_of_primary (.identifier h)) rfl) nofun)
  -- brackets leave no node: what is in them was made by the derivation inside
  | @bracketed xs o c e hopener _ hcloser ih => exact covers_all ih ⟨[o], [c], rfl⟩
  | @array xs o c elements hopener h hcloser ih =>
    -- an array or an object owns its brackets
    refine covers_one (covers_of_parts
      (owns_whole (Derives.expression_of_primary (.array hopener h hcloser)) ?_)
      (covers_all ih ⟨[o], [c], rfl⟩))
    exact congrArg (Span.mk o.start) (stopOf_append _ _ _)
  | @object xs o c members hopener h hcloser ih =>
    refine covers_one (covers_of_parts
      (owns_whole (Derives.expression_of_primary (.object hopener h hcloser)) ?_)
      (covers_all ih ⟨[o], [c], rfl⟩))
    exact congrArg (Span.mk o.start) (stopOf_append _ _ _)
  -- lists and members make no expression, what they hold is somewhere in their tokens
  | noElements => exact nofun
  | lastElement _ ih => exact ih
  | @moreElements xs ys c x others _ hcomma _ ih iho =>
    exact covers_append ih iho (List.suffix_cons c ys).isInfix
  | @spreadElement xs o e hdots _ ih => exact covers_all ih ⟨[o], [], by simp⟩
  | item _ ih => exact ih
  | noMembers => exact nofun
  | @lastMember xs m _ ih => exact fun e he => ih e (by simpa [Symbol.exprs] using he)
  | @moreMembers xs ys c m others _ hcomma _ ih iho =>
    exact covers_append ih iho (List.suffix_cons c ys).isInfix
  | @spreadMember xs o e hdots _ ih => exact covers_all ih ⟨[o], [], by simp⟩
  | @shorthand l name h =>
    exact covers_one (covers_of_parts
      (owns_whole (Derives.expression_of_primary (.identifier h)) rfl) nofun)
  | @property xs ys c e key _ hcolon _ ihk ihv =>
    exact covers_append ihk ihv (List.suffix_cons c ys).isInfix
  | nameKey _ => exact nofun
  | stringKey _ => exact nofun
  | numberKey _ => exact nofun
  | @computedKey xs o c e hopener _ hcloser ih => exact covers_all ih ⟨[o], [c], rfl⟩

end Grammar

end PromptMarkup

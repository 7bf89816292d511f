/-
Where expressions end.

* `Lexeme.endsAt` — an expression may end at a cursor: no token follows, or a closing bracket is
  next;
* `Lexeme.yields_endsAt` — there the tokens of an expression end, unless what follows is no token;
* `Lexeme.Yields.run_endsAt` — tokens in front of such a place are all read, if their brackets are
  matched;
* `Expr.readEmbedded_iff`, `Expr.readWhole_iff` — the expression at a cursor, and the one that a
  text is, by the tokens that derive it.

Design notes: the brackets that are counted while tokens are read are those that the grammar
matches, so that the count is zero behind the tokens of every expression, and the first closing
bracket behind them ends it.
-/
import Mathlib.Data.List.TakeWhile
import PromptMarkup.Proofs.Accepting
import PromptMarkup.Proofs.Deriving
import PromptMarkup.Proofs.Extents

namespace PromptMarkup

open Grammar
open Text (Cursor)

namespace Text.Cursor

theorem rest_skipBlank_eq_nil {c : Cursor} : c.skipBlank.rest = [] ↔ allBlank c.rest = true := by
  rw [skipBlank, rest_moveWhile, allBlank, List.dropWhile_eq_nil_iff, List.all_eq_true]

end Text.Cursor

/-! ### Closing brackets -/

/-- The token is a closing bracket. -/
def Token.isCloser : Token → Bool
  | .punct p => p.isCloser
  | _ => false

/-- A token that closes a bracket which was not opened. -/
theorem Token.depth?_eq_none {t : Token} {depth : Nat} :
    t.depth? depth = none ↔ depth = 0 ∧ t.isCloser = true := by
  cases t with
  | punct p =>
    -- no mark is an opening and a closing bracket
    have hkinds : p.isCloser = true → p.isOpener = false := by
      cases p <;> decide
    rw [Token.depth?_punct, Token.isCloser]
    cases hcloser : p.isCloser with
    | false =>
      refine ⟨fun h => ?_, fun h => ?_⟩
      · split at h
        · cases h
        · cases h
      · cases h.2
    | true =>
      rw [if_neg (Bool.eq_false_iff.1 (hkinds hcloser)), if_pos rfl]
      cases depth with
      | zero => exact ⟨fun _ => ⟨rfl, rfl⟩, fun _ => rfl⟩
      | succ depth => simp
  | _ => simp [Token.depth?, Token.isCloser]

namespace Lexeme

/-! ### The end of an expression -/

variable {c d : Cursor} {xs : List Lexeme}

/-- An expression may end at a cursor: no token follows, or the next one is a closing bracket. -/
def endsAt (c : Cursor) : Bool :=
  match next? c with
  | .ok (next, _) => next.all fun l => l.token.isCloser
  | .error _ => false

theorem endsAt_iff : endsAt c = true ↔
    c.skipBlank.rest = [] ∨ ∃ l after, next? c = .ok (some l, after) ∧ l.token.isCloser = true := by
  unfold endsAt
  rcases hnext : next? c with p | ⟨_ | l, after⟩
  · refine ⟨fun h => ?_, fun h => ?_⟩
    · cases h
    · rcases h with hend | ⟨l, after, hnext', -⟩
      · cases hnext.symm.trans (next?_eq_ok_none.2 ⟨hend, rfl⟩)
      · cases hnext'
  · exact ⟨fun _ => .inl (next?_eq_ok_none.1 hnext).1, fun _ => rfl⟩
  · refine ⟨fun h => .inr ⟨l, after, rfl, h⟩, fun h => ?_⟩
    rcases h with hend | ⟨l', after', hnext', hl⟩
    · cases hnext.symm.trans (next?_eq_ok_none.2 ⟨hend, rfl⟩)
    · obtain rfl := Option.some.inj (Prod.mk.inj (Except.ok.inj hnext')).1
      exact hl

/-- The tokens of an expression end where an expression may end. -/
theorem yields_endsAt {bound depth : Nat} (hbound : c.rest.length < bound)
    (hopen : ∀ p, (runFrom bound depth c).ending ≠ .failure p) :
    ∃ d, Yields c (runFrom bound depth c).lexemes d ∧ endsAt d = true := by
  -- the bound is not used up: every token takes a character
  induction bound generalizing depth c with
  | zero => exact absurd hbound (Nat.not_lt_zero _)
  | succ bound ih =>
    rcases hnext : next? c with p | ⟨_ | l, after⟩
    · rw [runFrom, hnext] at hopen
      exact absurd rfl (hopen p)
    · rw [runFrom, hnext]
      exact ⟨c, .nil c, by rw [endsAt, hnext]; rfl⟩
    · rw [runFrom_succ hnext] at hopen ⊢
      cases hl : l.token.depth? depth with
      | none =>
        exact ⟨c, .nil c, endsAt_iff.2 (.inr ⟨l, after, hnext, (Token.depth?_eq_none.1 hl).2⟩)⟩
      | some depth' =>
        rw [hl] at hopen
        obtain ⟨n, rfl, hreaches⟩ := next?_reaches hnext
        have hlength : (c.move n).rest.length < bound := by
          have hpos := hreaches.pos
          have hle := hreaches.length
          rw [Cursor.rest_move, List.length_drop]
          omega
        obtain ⟨d, hyields, hends⟩ := ih hlength hopen
        exact ⟨d, .cons hnext hyields, hends⟩

/-- There is no token where nothing but white space follows. -/
theorem run_eq_nil_iff : run c = ⟨[], .endOfText⟩ ↔ Text.allBlank c.rest = true := by
  rw [← Cursor.rest_skipBlank_eq_nil, run]
  rcases hnext : next? c with p | ⟨_ | l, after⟩
  · rw [runFrom, hnext]
    refine ⟨fun h => ?_, fun hend => ?_⟩
    · cases h
    · cases hnext.symm.trans (next?_eq_ok_none.2 ⟨hend, rfl⟩)
  · rw [runFrom, hnext]
    exact ⟨fun _ => (next?_eq_ok_none.1 hnext).1, fun _ => rfl⟩
  · rw [runFrom_succ hnext]
    refine ⟨fun h => ?_, fun hend => ?_⟩
    · split at h
      · cases h
      · cases h
    · cases hnext.symm.trans (next?_eq_ok_none.2 ⟨hend, rfl⟩)

/-- Tokens in which all brackets are matched are all read as one expression if an expression may end
behind them. -/
theorem Yields.run_endsAt (h : Yields c xs d) (hmatched : Matched xs) (hends : endsAt d = true) :
    (run c).lexemes = xs ∧ ∀ p, (run c).ending ≠ .failure p := by
  have hbound : xs.length < c.rest.length + 1 := by
    have hle := h.length_le
    omega
  rcases endsAt_iff.1 hends with hend | ⟨l, after, hnext, hl⟩
  · have hrun : run c = ⟨xs, .endOfText⟩ := h.runFrom_eq (hmatched 0) hend hbound
    rw [hrun]
    exact ⟨rfl, nofun⟩
  · have hrun : run c = ⟨xs, .closer l⟩ :=
      h.runFrom_closer (hmatched 0) hnext (Token.depth?_eq_none.2 ⟨rfl, hl⟩) hbound
    rw [hrun]
    exact ⟨rfl, nofun⟩

theorem Yields.stopOf_eq (h : Yields c xs d) : stopOf c.offset xs = d.offset := by
  induction h with
  | nil c => rfl
  | cons hnext _ ih => rwa [stopOf_cons, (next?_eq_ok hnext).2.2.1]

theorem Yields.stopOf_zero (h : Yields c xs d) (hxs : xs ≠ []) : stopOf 0 xs = d.offset := by
  cases xs with
  | nil => exact absurd rfl hxs
  | cons l xs => exact h.stopOf_eq

end Lexeme

/-! ### Expressions by their tokens -/

namespace Expr

variable {c : Cursor} {e : Expr}

/-- An expression that is embedded in a text is what the tokens derive in front of a place where it
may end. -/
theorem readEmbedded_iff {stop : Nat} :
    readEmbedded c = .ok (e, stop) ↔
      ∃ xs d, Lexeme.Yields c xs d ∧ Lexeme.endsAt d = true ∧ Derives .expression xs e ∧ e.Assigns ∧
        d.offset = stop := by
  constructor
  · intro h
    obtain ⟨hopen, hderives, hassigns, rfl⟩ := derives_of_read h
    obtain ⟨d, hyields, hends⟩ := Lexeme.yields_endsAt (Nat.lt_succ_self _) hopen
    exact ⟨_, d, hyields, hends, hderives, hassigns,
      (hyields.stopOf_zero (hderives.ne_nil rfl)).symm⟩
  · rintro ⟨xs, d, hyields, hends, hderives, hassigns, rfl⟩
    obtain ⟨rfl, hopen⟩ := hyields.run_endsAt hderives.matched hends
    rw [readEmbedded, read_of_derives hopen hderives hassigns,
      hyields.stopOf_zero (hderives.ne_nil rfl)]

/-- An expression that is read alone is what the tokens of its text derive. -/
theorem readWhole_iff {s : List Char} :
    readWhole s = .ok e ↔
      ∃ xs d, Lexeme.Yields (Cursor.ofText s) xs d ∧ Text.allBlank d.rest = true ∧
      Derives .expression xs e ∧
        e.Assigns := by
  constructor
  · intro h
    unfold readWhole at h
    rcases hread : readEmbedded (Cursor.ofText s) with p | ⟨e', stop⟩
    · rw [hread] at h
      cases h
    · obtain ⟨xs, d, hyields, -, hderives, hassigns, rfl⟩ := readEmbedded_iff.1 hread
      rw [hread] at h
      dsimp only [bind, Except.bind] at h
      -- behind the expression only white space is left
      rw [hyields.leadsTo.moveTo_eq] at h
      split at h
      · next hrest =>
        obtain rfl := Except.ok.inj h
        exact ⟨xs, d, hyields, Cursor.rest_skipBlank_eq_nil.1 hrest, hderives, hassigns⟩
      · cases h
  · rintro ⟨xs, d, hyields, hblank, hderives, hassigns⟩
    have hrest := Cursor.rest_skipBlank_eq_nil.2 hblank
    have hread := readEmbedded_iff.2 ⟨xs, d, hyields, Lexeme.endsAt_iff.2 (.inl hrest), hderives,
      hassigns, rfl⟩
    rw [readWhole, hread]
    dsimp only [bind, Except.bind]
    rw [hyields.leadsTo.moveTo_eq, hrest]
    rfl

/-- Tokens derive at most one expression in which all that is assigned to may be assigned to. -/
theorem eq_of_derives {xs : List Lexeme} {e e' : Expr} (h : Derives .expression xs e)
    (he : e.Assigns) (h' : Derives .expression xs e') (he' : e'.Assigns) : e = e' := by
  have hopen : ∀ p, (⟨xs, .endOfText⟩ : TokenRun).ending ≠ .failure p := nofun
  exact (Prod.mk.inj (Except.ok.inj
    ((read_of_derives hopen h he).symm.trans (read_of_derives hopen h' he')))).1

end Expr

end PromptMarkup

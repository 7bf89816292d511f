/-
The tokens of an excerpt of a text.

* `Lexeme.Yields` — tokens that are read one after the other, up to a cursor;
* `Lexeme.Yields.excerpt` — tokens are read again from the part of the text they stand in, at
  offsets that count from its start;
* `depthAfter?` — the brackets that are open behind some tokens;
* `Lexeme.yields_of_runFrom`, `Lexeme.Yields.runFrom_eq` — the tokens of an expression are such
  tokens, and those in which no bracket is closed that was not opened are all read as one
  expression.

Design notes: a run of tokens ends at a bracket that was not opened, so it depends on all tokens in
front; what is read one after the other does not, and can be divided anywhere.
-/
import PromptMarkup.Proofs.Lexing

namespace PromptMarkup

open Text (Cursor byteLength)

namespace Lexeme

/-! ### Tokens one after the other -/

/-- Reading tokens one after the other from a cursor gives the lexemes and ends at another cursor.
-/
inductive Yields : Cursor → List Lexeme → Cursor → Prop
  | nil (c : Cursor) : Yields c [] c
  | cons {c after d : Cursor} {l : Lexeme} {ls : List Lexeme} (h : next? c = .ok (some l, after))
    (others : Yields after ls d) : Yields c (⟨l.token.recognise, l.start, l.stop⟩ :: ls) d

namespace Yields

variable {c d e : Cursor} {xs ys : List Lexeme}

theorem divide (h : Yields c (xs ++ ys) d) : ∃ e, Yields c xs e ∧ Yields e ys d := by
  induction xs generalizing c with
  | nil => exact ⟨c, .nil c, h⟩
  | cons x xs ih =>
    cases h with
    | cons hnext others =>
      obtain ⟨e, hxs, hys⟩ := ih others
      exact ⟨e, .cons hnext hxs, hys⟩

theorem leadsTo (h : Yields c xs d) : c.LeadsTo d := by
  induction h with
  | nil c => exact .refl c
  | cons hnext _ ih => exact (next?_eq_ok hnext).2.2.2.trans ih

/-- Every token takes at least one character. -/
theorem length_le (h : Yields c xs d) : xs.length + d.rest.length ≤ c.rest.length := by
  induction h with
  | nil c => exact Nat.le_of_eq (Nat.zero_add _)
  | cons hnext _ ih =>
    obtain ⟨n, rfl, hreaches⟩ := next?_reaches hnext
    have hpos := hreaches.pos
    have hle := hreaches.length
    rw [Cursor.rest_move, List.length_drop] at ih
    rw [List.length_cons]
    omega

theorem skipBlank (h : Yields c xs d) (hxs : xs ≠ []) : Yields c.skipBlank xs d := by
  cases h with
  | nil => exact absurd rfl hxs
  | cons hnext others => exact .cons ((next?_skipBlank c).trans hnext) others

/-- A number that tokens start with is not cut off where the tokens end. -/
theorem startsNumber_eq {w : List Char} (h : Yields c xs d) (hxs : xs ≠ [])
    (hw : c.rest = w ++ d.rest) :
    startsNumber w = startsNumber c.rest := by
  cases h with
  | nil => exact absurd rfl hxs
  | cons hnext others =>
    obtain ⟨n, rfl, hreaches⟩ := next?_reaches hnext
    refine hreaches.decides w ⟨d.rest, hw.symm⟩ ?_
    have hle := hreaches.length
    have hlen := others.length_le
    have hsum := congrArg List.length hw
    rw [List.length_append] at hsum
    rw [Cursor.rest_move, List.length_drop] at hlen
    omega

/-- Tokens are read again from an excerpt of the text that ends behind them. -/
theorem excerpt {k : Nat} (h : Yields c xs e) (hd : d.Copies k c)
    (hend : d.rest ++ e.rest = c.rest) :
    ∃ xs' e', Yields d xs' e' ∧ e'.rest = [] ∧ e'.Copies k e ∧ xs'.map (relocate (· + k)) = xs := by
  induction h generalizing d with
  | nil c =>
    exact ⟨[], d, .nil d, List.append_left_eq_self.1 hend, hd, rfl⟩
  | @cons c after e l ls hnext others ih =>
    obtain ⟨n, rfl, hreaches⟩ := next?_reaches hnext
    have hle := hreaches.length
    obtain ⟨u, hu, -⟩ := others.leadsTo.exists_append
    rw [Cursor.rest_move] at hu
    -- the excerpt holds the first token and, behind it, what the other tokens stand in
    have hfront : d.rest = c.rest.take n ++ u := by
      refine (List.append_left_inj e.rest).1 ?_
      rw [hend, List.append_assoc, ← hu, List.take_append_drop]
    have hlen : n ≤ d.rest.length := by
      rw [hfront, List.length_append, List.length_take]
      omega
    have hdrop : d.rest.drop n = u := by
      rw [hfront, List.drop_append_of_le_length (by rw [List.length_take]; omega), List.drop_take,
        Nat.sub_self, List.take_zero, List.nil_append]
    have hcuts : Cuts n c.rest d.rest := by
      refine ⟨hd.rest, hlen, fun hne => ?_⟩
      rw [hdrop] at hne ⊢
      -- a number behind the first token is one of the other tokens, so the excerpt has all of it
      have hls : ls ≠ [] := by
        rintro rfl
        cases others
        rw [Cursor.rest_move] at hu
        exact hne (List.append_left_eq_self.1 hu.symm)
      have hsame := others.startsNumber_eq hls (by rw [Cursor.rest_move]; exact hu)
      rwa [Cursor.rest_move] at hsame
    obtain ⟨l', hnext', hl⟩ := hreaches.again k d hd hcuts
    have hend' : (d.move n).rest ++ e.rest = (c.move n).rest := by
      rw [Cursor.rest_move, Cursor.rest_move, hdrop, hu]
    obtain ⟨xs', e', hyields, hrest, hcopies, hmap⟩ := ih (hd.move hlen) hend'
    refine ⟨_, e', .cons hnext' hyields, hrest, hcopies, ?_⟩
    subst hl
    rw [List.map_cons, hmap]
    rfl

end Yields

end Lexeme

/-! ### Brackets -/

/-- The brackets that are open behind a token, `depth` being open in front of it; none if it closes
one that was not opened. -/
def Token.depth? (depth : Nat) : Token → Option Nat
  | .punct p =>
    if p.isOpener then some (depth + 1)
    else if p.isCloser then
      match depth with
      | 0 => none
      | depth + 1 => some depth
    else some depth
  | _ => some depth

theorem Token.depth?_punct (depth : Nat) (p : Punct) :
    (Token.punct p).depth? depth =
      if p.isOpener then some (depth + 1)
      else if p.isCloser then
        match depth with
        | 0 => none
        | depth + 1 => some depth
      else some depth :=
  rfl

/-- The brackets that are open behind several tokens. -/
def depthAfter? (depth : Nat) : List Lexeme → Option Nat
  | [] => some depth
  | l :: ls => (l.token.depth? depth).bind fun depth => depthAfter? depth ls

theorem depthAfter?_append (depth : Nat) (xs ys : List Lexeme) :
    depthAfter? depth (xs ++ ys) = (depthAfter? depth xs).bind fun depth =>
    depthAfter? depth ys := by
  induction xs generalizing depth with
  | nil => rfl
  | cons l xs ih =>
    rw [List.cons_append, depthAfter?, depthAfter?, Option.bind_assoc]
    exact congrArg _ (funext fun depth => ih depth)

@[simp] theorem Token.depth?_recognise (depth : Nat) (t : Token) :
    t.recognise.depth? depth = t.depth? depth := by
  cases t with
  | identifier name =>
    rw [recognise]
    split <;> rfl
  | _ => rfl

namespace Lexeme

variable {c d : Cursor} {xs : List Lexeme}

theorem runFrom_succ {after : Cursor} {l : Lexeme} (h : next? c = .ok (some l, after))
    (bound depth : Nat) :
    runFrom (bound + 1) depth c =
      match l.token.depth? depth with
      | none => ⟨[], .closer l⟩
      | some depth => ⟨⟨l.token.recognise, l.start, l.stop⟩ :: (runFrom bound depth after).lexemes,
          (runFrom bound depth after).ending⟩ := by
  rw [runFrom, h]
  dsimp only
  cases l.token with
  | punct p =>
    dsimp only [Token.depth?]
    by_cases hopener : p.isOpener = true
    · rw [if_pos hopener, if_pos hopener]
    · by_cases hcloser : p.isCloser = true
      · rw [if_neg hopener, if_neg hopener, if_pos hcloser, if_pos hcloser]
        cases depth <;> rfl
      · rw [if_neg hopener, if_neg hopener, if_neg hcloser, if_neg hcloser]
  | _ => rfl

theorem yields_of_runFrom (bound depth : Nat) (c : Cursor) :
    ∃ d, Yields c (runFrom bound depth c).lexemes d := by
  induction bound generalizing depth c with
  | zero => exact ⟨c, .nil c⟩
  | succ bound ih =>
    cases hnext : next? c with
    | error p =>
      rw [runFrom, hnext]
      exact ⟨c, .nil c⟩
    | ok found =>
      obtain ⟨_ | l, after⟩ := found
      · rw [runFrom, hnext]
        exact ⟨c, .nil c⟩
      · rw [runFrom_succ hnext]
        split
        · exact ⟨c, .nil c⟩
        · next depth _ =>
          obtain ⟨d, hd⟩ := ih depth after
          exact ⟨d, .cons hnext hd⟩

/-- Reading goes on behind tokens that close no bracket they do not open. -/
theorem Yields.runFrom_append (h : Yields c xs d) {depth depth' : Nat}
    (hdepth : depthAfter? depth xs = some depth') (bound : Nat) :
    runFrom (xs.length + bound) depth c =
      ⟨xs ++ (runFrom bound depth' d).lexemes, (runFrom bound depth' d).ending⟩ := by
  induction h generalizing depth with
  | nil c =>
    obtain rfl := Option.some.inj hdepth
    rw [List.length_nil, Nat.zero_add, List.nil_append]
  | cons hnext others ih =>
    rw [depthAfter?, Token.depth?_recognise] at hdepth
    obtain ⟨depth₁, hl, hls⟩ := Option.bind_eq_some_iff.1 hdepth
    rw [List.length_cons, Nat.add_right_comm, runFrom_succ hnext, hl]
    dsimp only
    rw [ih hls, List.cons_append]

/-- Tokens that close no bracket they do not open are read as one expression if nothing but white
space follows them. -/
theorem Yields.runFrom_eq (h : Yields c xs d) {bound depth depth' : Nat}
    (hdepth : depthAfter? depth xs = some depth')
    (hend : d.skipBlank.rest = []) (hbound : xs.length < bound) :
    runFrom bound depth c = ⟨xs, .endOfText⟩ := by
  obtain ⟨n, rfl⟩ := Nat.exists_eq_add_of_lt hbound
  have hnext : next? d = .ok (none, d.skipBlank) := next?_eq_ok_none.2 ⟨hend, rfl⟩
  rw [Nat.add_assoc, h.runFrom_append hdepth, runFrom, hnext, List.append_nil]

/-- Tokens that close all brackets they open, and no others, are read as one expression up to a
closing bracket. -/
theorem Yields.runFrom_closer (h : Yields c xs d) {bound depth : Nat}
    (hdepth : depthAfter? depth xs = some 0)
    {l : Lexeme} {after : Cursor} (hnext : next? d = .ok (some l, after))
    (hclosed : l.token.depth? 0 = none)
    (hbound : xs.length < bound) : runFrom bound depth c = ⟨xs, .closer l⟩ := by
  obtain ⟨n, rfl⟩ := Nat.exists_eq_add_of_lt hbound
  rw [Nat.add_assoc, h.runFrom_append hdepth, runFrom_succ hnext, hclosed, List.append_nil]

theorem Yields.run_eq (h : Yields c xs d) {depth : Nat} (hdepth : depthAfter? 0 xs = some depth)
    (hend : d.rest = []) : run c = ⟨xs, .endOfText⟩ := by
  refine h.runFrom_eq hdepth (Cursor.rest_skipBlank_of_nil hend) (Nat.lt_succ_of_le ?_)
  have hle := h.length_le
  omega

end Lexeme

end PromptMarkup

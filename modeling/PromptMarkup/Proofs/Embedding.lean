/-
Expressions that are embedded in a text.

* `Text.endsBlank` — a text ends in white space;
* `Text.Cursor.Solid` — what stands between two cursors does not;
* `Lexeme.Yields.solid` — tokens do not end in white space;
* `Lexeme.separates_of_endsAt` — no token goes on where an expression may end;
* `Expr.embedded_iff_alone` — an expression is read where it is embedded in a text if and only if
  the text that it takes up is read alone, and an expression may end behind it;
* `Expr.problem_behind` — the problem with an embedded expression lies behind the place where
  reading starts, and in the text, unless nothing but white space follows.

Design notes: the tokens of an expression are read again if they are cut out of a text
(`Lexeme.Yields.excerpt`), and if another text follows them (`Lexeme.Yields.goesOn`).  The former
holds of all tokens; the latter needs a text behind them with which no token goes on, and this is
what there is where an expression may end.  White space at the end of a text belongs to no token, so
that a text which ends in white space is the text of no embedded expression.
-/
import PromptMarkup.Proofs.Blame
import PromptMarkup.Proofs.Sources
import PromptMarkup.Proofs.Spelling

namespace PromptMarkup

open Grammar
open Text (Cursor byteLength)

/-! ### White space at the end of a text -/

namespace Text

/-- The text ends in white space. -/
def endsBlank (s : List Char) : Bool :=
  s.getLast?.any isBlank

theorem endsBlank_concat (s : List Char) (x : Char) : endsBlank (s ++ [x]) = isBlank x := by
  rw [endsBlank, List.getLast?_concat, Option.any_some]

/-- White space at the end of a text that does not end in white space is empty. -/
theorem eq_nil_of_endsBlank {s t : List Char} (h : endsBlank (s ++ t) = false)
    (ht : allBlank t = true) : t = [] := by
  rcases List.eq_nil_or_concat' t with rfl | ⟨t, x, rfl⟩
  · rfl
  · rw [← List.append_assoc, endsBlank_concat] at h
    have hx := List.all_eq_true.1 ht x (by simp)
    cases hx.symm.trans h

/-- The text between two offsets stands there. -/
theorem eq_append_of_takeBytes? {n : Nat} {s w : List Char} (h : takeBytes? n s = some w) :
    ∃ t, s = w ++ t ∧ n = byteLength w := by
  -- the induction is on the text, of which each character takes as many bytes as it has
  induction s generalizing n w with
  | nil =>
    cases n with
    | zero => exact ⟨[], by cases h; rfl, by cases h; rfl⟩
    | succ n => cases h
  | cons x s ih =>
    cases n with
    | zero => exact ⟨x :: s, by cases h; rfl, by cases h; rfl⟩
    | succ n =>
      rw [takeBytes?] at h
      split at h
      · cases h
      · next hsize =>
        obtain ⟨w', hw', rfl⟩ := Option.map_eq_some_iff.1 h
        obtain ⟨t, rfl, hn⟩ := ih hw'
        refine ⟨t, rfl, ?_⟩
        rw [byteLength, ← hn]
        omega

namespace Cursor

theorem dropBytes?_of_leadsTo {s : List Char} {c : Cursor} (h : (ofText s).LeadsTo c) :
    dropBytes? c.offset s = some c.rest := by
  have hdrop := dropBytes?_append c.before.reverse c.rest
  rwa [h.text_eq, ← h.offset_eq] at hdrop

theorem rest_move_front {c : Cursor} {w t : List Char} (h : c.rest = w ++ t) :
    (c.move w.length).rest = t := by
  rw [rest_move, h, List.drop_left]

/-- A cursor is moved over the characters that stand between it and another one. -/
theorem LeadsTo.eq_move {c d : Cursor} {w : List Char} (h : c.LeadsTo d)
    (hw : c.rest = w ++ d.rest) :
    c.move w.length = d :=
  ((LeadsTo.refl c).move w.length).eq_of_rest h (rest_move_front hw)

/-- The text between a cursor and an offset is what a cursor is moved over to come there. -/
theorem slice?_eq_some_iff {s w : List Char} {c : Cursor} {stop : Nat} (hc : (ofText s).LeadsTo c) :
    slice? s c.offset stop = some w ↔ w <+: c.rest ∧ (c.move w.length).offset = stop := by
  constructor
  · intro h
    rw [slice?] at h
    split at h
    · cases h
    · next hle =>
      rw [dropBytes?_of_leadsTo hc, Option.bind_some] at h
      obtain ⟨t, hrest, hlength⟩ := eq_append_of_takeBytes? h
      have hw : w <+: c.rest := ⟨t, hrest.symm⟩
      refine ⟨hw, ?_⟩
      rw [offset_move_front hw]
      omega
  · rintro ⟨hw, rfl⟩
    rw [offset_move_front hw]
    obtain ⟨t, hrest⟩ := hw
    exact slice?_of_leadsTo hc hrest.symm

/-- What stands between two cursors ends in a character that is no white space. -/
def Solid (c d : Cursor) : Prop :=
  ∃ u x, c.rest = u ++ x :: d.rest ∧ isBlank x = false

theorem Solid.behind {b c d : Cursor} (h : c.Solid d) (hb : b.LeadsTo c) : b.Solid d := by
  obtain ⟨u, x, hrest, hx⟩ := h
  obtain ⟨w, hw, -⟩ := hb.exists_append
  exact ⟨w ++ u, x, by rw [hw, hrest, List.append_assoc], hx⟩

theorem Solid.endsBlank_eq {c d : Cursor} {w : List Char} (h : c.Solid d)
    (hw : c.rest = w ++ d.rest) :
    endsBlank w = false := by
  obtain ⟨u, x, hrest, hx⟩ := h
  rw [← List.singleton_append, ← List.append_assoc] at hrest
  obtain rfl := (List.append_left_inj d.rest).1 (hw.symm.trans hrest)
  rw [endsBlank_concat, hx]

/-- Characters of which none is white space. -/
theorem solid_move {c : Cursor} {w : List Char} (h : w <+: c.rest) (hw : w ≠ [])
    (hsolid : ∀ x ∈ w, isBlank x = false) : c.Solid (c.move w.length) := by
  obtain ⟨t, ht⟩ := h
  refine ⟨w.dropLast, w.getLast hw, ?_, hsolid _ (List.getLast_mem hw)⟩
  rw [rest_move, ← ht, List.drop_left, ← List.singleton_append, ← List.append_assoc,
    List.dropLast_append_getLast]

end Cursor

end Text

/-! ### The ends of tokens -/

namespace Lexeme

variable {c d after : Cursor} {token : Token}

theorem solid_hexadecimal {x : Char} {tail : List Char} (hrest : c.rest = '0' :: x :: tail)
    (hx : (x == 'x' || x == 'X') = true) :
    c.Solid (c.move (2 + (tail.takeWhile isHexDigit).length)) := by
  have hlength : 2 + (tail.takeWhile isHexDigit).length =
    ('0' :: x :: tail.takeWhile isHexDigit).length := by
    rw [List.length_cons, List.length_cons]
    omega
  have hfront : '0' :: x :: tail.takeWhile isHexDigit <+: c.rest := by
    rw [hrest, List.cons_prefix_cons, List.cons_prefix_cons]
    exact ⟨rfl, rfl, List.takeWhile_prefix _⟩
  rw [hlength]
  refine Cursor.solid_move hfront (List.cons_ne_nil _ _) fun y hy => ?_
  rcases List.mem_cons.1 hy with rfl | hy
  · rfl
  rcases List.mem_cons.1 hy with rfl | hy
  · exact isBlank_eq_false (p := fun x => x == 'x' || x == 'X') (by decide) hx
  · exact isBlank_eq_false (by decide) (List.mem_takeWhile_imp hy)

/-- White space is not the end of a number. -/
theorem solid_decimal (hstarts : startsNumber c.rest = true) :
    c.Solid (c.move (decimalAt c.rest).2) := by
  have hpos := length_decimalAt_pos hstarts
  have hle := length_decimalAt_le c.rest
  generalize hn : (decimalAt c.rest).2 = n at hpos hle ⊢
  have hsplit := List.take_append_drop n c.rest
  rcases List.eq_nil_or_concat' (c.rest.take n) with hnil | ⟨u, x, hu⟩
  · have hzero := congrArg List.length hnil
    rw [List.length_take, List.length_nil] at hzero
    omega
  rw [hu, List.append_assoc, List.singleton_append] at hsplit
  refine ⟨u, x, by rw [Cursor.rest_move, hsplit], Bool.eq_false_iff.2 fun hblank => ?_⟩
  -- the number would be what is read of the characters in front of it, which are too few
  have hsame := (separates_cons (r := c.rest.drop n) (mem_separators_of_isBlank hblank)).decimalAt u
  rw [hsplit] at hsame
  have hshort := length_decimalAt_le u
  have hlength := congrArg List.length hu
  rw [List.length_take, List.length_append, List.length_singleton] at hlength
  rw [← hsame] at hshort
  omega

theorem solid_readNumber (hstarts : startsNumber c.rest = true)
    (h : readNumber c = .ok (token, after)) :
    c.Solid after := by
  by_cases hhex : ∃ x tail, c.rest = '0' :: x :: tail ∧ (x == 'x' || x == 'X') = true
  · obtain ⟨x, tail, hrest, hx⟩ := hhex
    rw [readNumber_hexadecimal hrest hx] at h
    split at h
    · cases h
    · obtain ⟨-, rfl⟩ := Prod.mk.inj (Except.ok.inj h)
      exact solid_hexadecimal hrest hx
  · have hdecimal : ∀ x tail, c.rest = '0' :: x :: tail → (x == 'x' || x == 'X') = false :=
      fun x tail hrest => Bool.eq_false_iff.2 fun hx => hhex ⟨x, tail, hrest, hx⟩
    rw [readNumber_decimal hdecimal] at h
    obtain ⟨-, rfl⟩ := Prod.mk.inj (Except.ok.inj h)
    exact solid_decimal hstarts

/-- The rest of a string ends with its quote. -/
theorem exists_of_readStringBody {quote : Char} {start offset length n : Nat} {s held x : List Char}
    (h : readStringBody quote start s offset length held = .ok (x, n)) :
    ∃ w r, s = w ++ quote :: r ∧ n = length + w.length + 1 := by
  have hbehind : ∀ {length : Nat} (u : List Char) {tail : List Char},
      (∃ w r, tail = w ++ quote :: r ∧ n = length + u.length + w.length + 1) →
      ∃ w r, u ++ tail = w ++ quote :: r ∧ n = length + w.length + 1 := by
    rintro length u _ ⟨w, r, rfl, rfl⟩
    exact ⟨u ++ w, r, (List.append_assoc _ _ _).symm, by rw [List.length_append,
      Nat.add_assoc length]⟩
  -- along the cases in which a string is read: the closing quote, a plain character and the escapes
  fun_induction readStringBody quote start s offset length held with
  | case2 y rest offset length held hquote =>
    obtain ⟨-, rfl⟩ := Prod.mk.inj (Except.ok.inj h)
    exact ⟨[], rest, by rw [beq_iff_eq.1 hquote]; rfl, rfl⟩
  | case3 y _ _ _ _ _ _ _ ih => exact hbehind [y] (ih h)
  | case5 y _ _ _ _ _ _ a b _ _ _ _ ih => exact hbehind [y, 'x', a, b] (ih h)
  | case8 y _ _ _ _ _ _ a b d e _ _ _ _ ih => exact hbehind [y, 'u', a, b, d, e] (ih h)
  | case12 y _ _ _ _ _ _ z _ _ _ _ _ ih => exact hbehind [y, z] (ih h)
  | case13 y _ _ _ _ _ _ z _ _ _ _ _ ih => exact hbehind [y, z] (ih h)
  | _ => cases h

theorem solid_readString {x : Char} {rest : List Char} (hrest : c.rest = x :: rest)
    (hx : (x == '"' || x == '\'') = true) (h : readString x c = .ok (token, after)) :
    c.Solid after := by
  unfold readString at h
  split at h
  · next held length hbody =>
    obtain ⟨-, rfl⟩ := Prod.mk.inj (Except.ok.inj h)
    obtain ⟨w, r, hsplit, hlength⟩ := exists_of_readStringBody hbody
    rw [Cursor.rest_step, hrest, List.drop_one, List.tail_cons] at hsplit
    refine ⟨x :: w, x, ?_, isBlank_eq_false (p := fun x => x == '"' || x == '\'') (by decide) hx⟩
    have hdrop : c.rest.drop (length + 1) = r := by
      rw [hrest, hsplit, List.drop_succ_cons, hlength, Nat.zero_add, ← List.drop_drop,
        List.drop_left, List.drop_one, List.tail_cons]
    have hmove : c.step.move length = c.move (length + 1) := rfl
    rw [hmove, Cursor.rest_move, hdrop, hrest, hsplit, List.cons_append]
  · cases h

/-- No mark has white space in it. -/
theorem Punct.solid (p : Punct) : ∀ x ∈ p.text.toList, Text.isBlank x = false := by
  have hnone : p.text.toList.any Text.isBlank = false := by
    cases p <;> decide +kernel
  exact fun x hx => Bool.eq_false_iff.2 (List.any_eq_false.1 hnone x hx)

/-- A token does not end in white space. -/
theorem solid_readToken {x : Char} {rest : List Char} (hrest : c.rest = x :: rest)
    (h : readToken x c = .ok (token, after)) : c.Solid after := by
  unfold readToken at h
  split at h
  · next hstarts => exact solid_readNumber hstarts h
  split at h
  · next hquote => exact solid_readString hrest hquote h
  split at h
  · next hname =>
    -- a name goes on while its characters do, none of which is white space
    obtain ⟨-, rfl⟩ := Prod.mk.inj (Except.ok.inj h)
    refine Cursor.solid_move (List.takeWhile_prefix _) ?_ fun y hy =>
      isBlank_eq_false (by decide +kernel) (List.mem_takeWhile_imp hy)
    rw [hrest, List.takeWhile_cons_of_pos (isNamePart_of_isNameStart hname)]
    exact List.cons_ne_nil _ _
  split at h
  · next p hp =>
    obtain ⟨-, rfl⟩ := Prod.mk.inj (Except.ok.inj h)
    -- the text of a mark is neither empty nor ends in white space
    have hfront := (fits_eq_true.1 (List.find?_some hp)).1
    rw [← String.length_toList]
    refine Cursor.solid_move hfront ?_ (Punct.solid p)
    refine List.length_pos_iff.1 ?_
    rw [String.length_toList]
    exact Punct.length_text_pos p
  · cases h

theorem solid_next? {l : Lexeme} (h : next? c = .ok (some l, after)) : c.Solid after := by
  obtain ⟨x, rest, token, hrest, hread, -⟩ := next?_eq_ok_some.1 h
  exact (solid_readToken hrest hread).behind (Cursor.LeadsTo.refl c).skipBlank

/-- Tokens do not end in white space. -/
theorem Yields.solid {xs : List Lexeme} (h : Yields c xs d) (hxs : xs ≠ []) : c.Solid d := by
  induction h with
  | nil => exact absurd rfl hxs
  | @cons c after d l ls hnext others ih =>
    cases others with
    | nil => exact solid_next? hnext
    | cons hnext' others' => exact (ih (List.cons_ne_nil _ _)).behind (next?_eq_ok hnext).2.2.2

/-! ### What follows an expression -/

/-- A bracket that is read as a token stands there. -/
theorem punctAt?_of_readToken {x : Char} {p : Punct} (h : readToken x c = .ok (.punct p, after)) :
    punctAt? c.rest = some p := by
  unfold readToken at h
  split at h
  -- numbers, strings and names are tokens of other kinds
  · unfold readNumber at h
    split at h
    · split at h
      · dsimp only at h
        split at h
        · cases h
        · cases h
      · cases h
    · cases h
  split at h
  · unfold readString at h
    split at h
    · cases h
    · cases h
  split at h
  · cases h
  split at h
  · next hp =>
    obtain rfl := Token.punct.inj (Prod.mk.inj (Except.ok.inj h)).1
    exact hp
  · cases h

/-- A closing bracket at the front of a text. -/
theorem mem_separators_of_closer {x : Char} {s : List Char} {p : Punct}
    (hp : punctAt? (x :: s) = some p) (hcloser : p.isCloser = true) : x ∈ separators := by
  have htext : ∃ y ∈ separators, p.text.toList = [y] := by
    cases p with
    | rightParen => exact ⟨')', by decide, rfl⟩
    | rightBracket => exact ⟨']', by decide, rfl⟩
    | rightBrace => exact ⟨'\x7d', by decide, rfl⟩
    | _ => cases hcloser
  obtain ⟨y, hy, htext⟩ := htext
  have hfront := (fits_eq_true.1 (List.find?_some hp)).1
  rw [htext, List.cons_prefix_cons] at hfront
  exact hfront.1 ▸ hy

/-- No token goes on where an expression may end. -/
theorem separates_of_endsAt (h : endsAt c = true) : Separates c.rest := by
  cases hrest : c.rest with
  | nil =>
    intro x hx
    cases hx
  | cons x rest =>
    refine separates_cons ?_
    -- white space, or else the token that is next starts here
    by_cases hx : Text.isBlank x = true
    · exact mem_separators_of_isBlank hx
    · have hskip := Cursor.skipBlank_of_cons hrest (Bool.eq_false_iff.2 hx)
      rcases endsAt_iff.1 h with hend | ⟨l, after, hnext, hl⟩
      · rw [hskip, hrest] at hend
        cases hend
      · obtain ⟨y, tail, token, hrest', hread, rfl⟩ := next?_eq_ok_some.1 hnext
        rw [hskip] at hread
        cases token with
        | punct p =>
          have hp := punctAt?_of_readToken hread
          rw [hrest] at hp
          exact mem_separators_of_closer hp hl
        | _ => cases hl

end Lexeme

/-! ### Embedded and alone -/

namespace Expr

variable {c : Cursor} {e : Expr}

/-- An expression is read at a cursor if and only if the text from there to a place where it may end
is read alone and does not end in white space. -/
theorem readEmbedded_iff_alone {stop : Nat} :
    readEmbedded c = .ok (e, stop) ↔
      ∃ w e', w <+: c.rest ∧ (c.move w.length).offset = stop ∧ readWhole w = .ok e' ∧
        e'.relocate (· + c.offset) = e ∧ Text.endsBlank w = false ∧
        Lexeme.endsAt (c.move w.length) = true := by
  constructor
  · intro h
    obtain ⟨xs, d, hyields, hends, hderives, hassigns, rfl⟩ := readEmbedded_iff.1 h
    obtain ⟨w, hw, -⟩ := hyields.leadsTo.exists_append
    have hsolid := (hyields.solid (hderives.ne_nil rfl)).endsBlank_eq hw
    -- the tokens are read again from the text that they take up
    have hcopies : (Cursor.ofText w).Copies c.offset c := ⟨⟨d.rest, hw.symm⟩, (Nat.zero_add _).symm⟩
    obtain ⟨xs', d', hyields', hend, -, rfl⟩ := hyields.excerpt hcopies hw.symm
    have hback := hderives.relocate (· - c.offset)
    rw [Lexeme.relocate_back] at hback
    have hback' := assigns_relocate (· - c.offset) hassigns
    have halone := readWhole_iff.2 ⟨xs', d', hyields', hend.symm ▸ rfl, hback, hback'⟩
    obtain rfl := hyields.leadsTo.eq_move hw
    refine ⟨w, _, ⟨_, hw.symm⟩, rfl, halone, ?_, hsolid, hends⟩
    exact eq_of_derives (hback.relocate (· + c.offset)) (assigns_relocate _ hback')
      hderives hassigns
  · rintro ⟨w, e', ⟨t, hw⟩, rfl, halone, rfl, hsolid, hends⟩
    obtain ⟨xs, d, hyields, hblank, hderives, hassigns⟩ := readWhole_iff.1 halone
    have hend : d.rest = [] := by
      obtain ⟨u, hu, -⟩ := hyields.leadsTo.exists_append
      have hsplit : w = u ++ d.rest := hu
      rw [hsplit] at hsolid
      exact Text.eq_nil_of_endsBlank hsolid hblank
    -- the tokens are read again where the text stands, and end where it does
    have hseparates := Lexeme.separates_of_endsAt hends
    rw [Cursor.rest_move_front hw.symm] at hseparates
    obtain ⟨d', hyields', hgoes⟩ := hyields.goesOn hseparates ⟨hw.symm, (Nat.zero_add _).symm⟩
    have hrest : c.rest = w ++ d'.rest := by rw [hgoes.rest, hend, List.nil_append, hw]
    obtain rfl := hyields'.leadsTo.eq_move hrest
    exact readEmbedded_iff.2 ⟨_, _, hyields', hends, hderives.relocate _,
      assigns_relocate _ hassigns, rfl⟩

theorem takeExpression_iff {after : Cursor} :
    takeExpression c = .ok (e, after) ↔ ∃ stop, readEmbedded c = .ok (e, stop) ∧
    after = c.moveTo stop := by
  unfold takeExpression
  rcases readEmbedded c with p | ⟨e', stop⟩
  · refine ⟨fun h => ?_, ?_⟩
    · cases h
    · rintro ⟨stop, h, -⟩
      cases h
  · constructor
    · intro h
      obtain ⟨rfl, rfl⟩ := Prod.mk.inj (Except.ok.inj h)
      exact ⟨stop, rfl, rfl⟩
    · rintro ⟨stop', h, rfl⟩
      obtain ⟨rfl, rfl⟩ := Prod.mk.inj (Except.ok.inj h)
      rfl

/-- An expression that is embedded in a text is read as it is alone.  It is read from an offset up
to another one if and only if the text between them is read alone, at offsets that count from its
start, does not end in white space, and an expression may end behind it.  The reader of templates
goes on exactly there. -/
theorem embedded_iff_alone {s : List Char} (hc : (Cursor.ofText s).LeadsTo c) :
    (∀ e stop, readEmbedded c = .ok (e, stop) ↔
      ∃ w e', Text.slice? s c.offset stop = some w ∧ readWhole w = .ok e' ∧
      e'.relocate (· + c.offset) = e ∧
        Text.endsBlank w = false ∧ Lexeme.endsAt ((Cursor.ofText s).moveTo stop) = true) ∧
    (∀ e after, takeExpression c = .ok (e, after) ↔
      ∃ w e', w <+: c.rest ∧ after = c.move w.length ∧ readWhole w = .ok e' ∧
      e'.relocate (· + c.offset) = e ∧
        Text.endsBlank w = false ∧ Lexeme.endsAt after = true) := by
  -- the end of the slice is a place of the text, and the cursor there is the one behind it
  have hmoved : ∀ w : List Char,
    (Cursor.ofText s).moveTo (c.move w.length).offset = c.move w.length :=
    fun w => (hc.move w.length).moveTo_eq
  have hmoved' : ∀ w : List Char, c.moveTo (c.move w.length).offset = c.move w.length :=
    fun w => ((Cursor.LeadsTo.refl c).move w.length).moveTo_eq
  refine ⟨fun e stop => readEmbedded_iff_alone.trans ?_, fun e after => takeExpression_iff.trans ?_⟩
  · constructor
    · rintro ⟨w, e', hw, rfl, halone, he, hsolid, hends⟩
      exact ⟨w, e', (Cursor.slice?_eq_some_iff hc).2 ⟨hw, rfl⟩, halone, he, hsolid,
        (hmoved w).symm ▸ hends⟩
    · rintro ⟨w, e', hslice, halone, he, hsolid, hends⟩
      obtain ⟨hw, rfl⟩ := (Cursor.slice?_eq_some_iff hc).1 hslice
      exact ⟨w, e', hw, rfl, halone, he, hsolid, hmoved w ▸ hends⟩
  · constructor
    · rintro ⟨stop, hread, rfl⟩
      obtain ⟨w, e', hw, rfl, halone, he, hsolid, hends⟩ := readEmbedded_iff_alone.1 hread
      exact ⟨w, e', hw, hmoved' w, halone, he, hsolid, (hmoved' w).symm ▸ hends⟩
    · rintro ⟨w, e', hw, rfl, halone, he, hsolid, hends⟩
      exact ⟨_, readEmbedded_iff_alone.2 ⟨w, e', hw, rfl, halone, he, hsolid, hends⟩,
        (hmoved' w).symm⟩

/-- The object in the mustache ends in front of the braces that close the mustache. -/
theorem embedded_iff_alone_mustache :
    (Cursor.ofText "\x7b\x7b \x7ba: [b]\x7d \x7d\x7d tail".toList).LeadsTo
        ((Cursor.ofText "\x7b\x7b \x7ba: [b]\x7d \x7d\x7d tail".toList).move 2) ∧
      readEmbedded ((Cursor.ofText "\x7b\x7b \x7ba: [b]\x7d \x7d\x7d tail".toList).move 2) =
        .ok (.object ⟨3, 11⟩ [.property (.fixed "a")
          (.array ⟨7, 10⟩ [.item (.identifier ⟨8, 9⟩ "b")])], 11) := by
  have hleads : (Cursor.ofText "\x7b\x7b \x7ba: [b]\x7d \x7d\x7d tail".toList).LeadsTo
      ((Cursor.ofText "\x7b\x7b \x7ba: [b]\x7d \x7d\x7d tail".toList).move 2) := ⟨2, rfl⟩
  have halone : readWhole " \x7ba: [b]\x7d".toList =
      .ok (.object ⟨1, 9⟩ [.property (.fixed "a")
        (.array ⟨5, 8⟩ [.item (.identifier ⟨6, 7⟩ "b")])]) := rfl
  exact ⟨hleads, ((embedded_iff_alone hleads).1 _ 11).2 ⟨_, _, rfl, halone, rfl, rfl, rfl⟩⟩

/-! ### Problems -/

/-- The problem with an expression that is embedded in a text lies between two places of the text,
behind the one where reading starts.  Where nothing but white space follows there is no token, and
the problem is that at the start of the text. -/
theorem problem_behind {source : String} {p : Problem}
    (hc : (Cursor.ofText source.toList).LeadsTo c) (h : readEmbedded c = .error p) :
    (Text.allBlank c.rest = false → c.offset ≤ p.start ∧ p.PointsInto source) ∧
      (Text.allBlank c.rest = true → p = ⟨.unexpectedEnd, 0, 0, none, none⟩) := by
  rcases lies_of_readEmbedded h with hlies | ⟨hrun, rfl⟩
  · refine ⟨fun _ => ⟨hlies.marks.first.le, (hlies.behind hc).own.pointsInto⟩, fun hblank => ?_⟩
    rw [readEmbedded, Lexeme.run_eq_nil_iff.2 hblank, read_nil] at h
    exact (Except.error.inj h).symm
  · exact ⟨fun hmore => absurd (Lexeme.run_eq_nil_iff.1 hrun) (Bool.eq_false_iff.1 hmore),
      fun _ => rfl⟩

/-- In `a +`, the problem is the brace behind it. -/
theorem problem_behind_brace :
    (Cursor.ofText "\x7b\x7b a + \x7d\x7d".toList).LeadsTo
        ((Cursor.ofText "\x7b\x7b a + \x7d\x7d".toList).move 2) ∧
      readEmbedded ((Cursor.ofText "\x7b\x7b a + \x7d\x7d".toList).move 2) =
        .error ⟨.unexpectedToken "\x7d", 7, 8, none, none⟩ ∧
      ((Cursor.ofText "\x7b\x7b a + \x7d\x7d".toList).move 2).offset ≤ 7 ∧
      Problem.PointsInto ⟨.unexpectedToken "\x7d", 7, 8, none, none⟩ "\x7b\x7b a + \x7d\x7d" := by
  have hleads : (Cursor.ofText "\x7b\x7b a + \x7d\x7d".toList).LeadsTo
      ((Cursor.ofText "\x7b\x7b a + \x7d\x7d".toList).move 2) := ⟨2, rfl⟩
  have hread : readEmbedded ((Cursor.ofText "\x7b\x7b a + \x7d\x7d".toList).move 2) =
      .error ⟨.unexpectedToken "\x7d", 7, 8, none, none⟩ := rfl
  exact ⟨hleads, hread, (problem_behind hleads hread).1 rfl⟩

/-- Behind the braces that open a mustache, the end of the text is a problem at its start. -/
theorem problem_behind_fails :
    ¬∀ (source : String) (c : Cursor) (p : Problem), (Cursor.ofText source.toList).LeadsTo c →
      readEmbedded c = .error p → c.offset ≤ p.start ∧ p.PointsInto source := by
  intro h
  have hread : readEmbedded ((Cursor.ofText "\x7b\x7b".toList).move 2) =
      .error ⟨.unexpectedEnd, 0, 0, none, none⟩ := rfl
  exact absurd (h "\x7b\x7b" _ _ ⟨2, rfl⟩ hread).1 (by decide)

end Expr

end PromptMarkup

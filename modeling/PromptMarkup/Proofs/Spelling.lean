/-
Texts that are put together from tokens.

* `Json.Escaped` — how JSON writes a character in a quoted text;
* `Lexeme.Separates` — a text that no token in front of it can go on with;
* `Lexeme.Yields.goesOn` — tokens that are read up to the end of a text are read again if such a
  text follows;
* `Lexeme.Spells` — a text is read as tokens with a property, up to a given rest of it;
* `Lexeme.spells_mark`, `Lexeme.spells_name`, `Lexeme.spells_quoted` — marks, names and quoted texts
  are so;
* `Lexeme.quoted_verbatim` — what JSON writes for a text is read as one string that holds the text;
* `Lexeme.spells_excerpt` — a text of which the tokens are known is so as well.

Design notes: the readers of tokens look at the characters that follow a cursor and at nothing else,
so that `Spells` speaks of all cursors in front of the same characters.  A token ends where the text
ends, and it ends there as well if white space or a closing bracket follows: neither can stand
inside of a number, a name or a mark, and a string ends with its quote.
-/
import Mathlib.Data.List.TakeWhile
import PromptMarkup.Json.Printer
import PromptMarkup.Proofs.Excerpts

namespace PromptMarkup

open Text (Cursor byteLength)

namespace Text.Cursor

/-- A cursor stands where another one stands, in a text that goes on with `r`.  The text may start
`k` bytes behind the start of the other one. -/
structure GoesOn (k : Nat) (r : List Char) (d c : Cursor) : Prop where
  rest : c.rest = d.rest ++ r
  offset : c.offset = d.offset + k

theorem GoesOn.move {k n : Nat} {r : List Char} {c d : Cursor} (h : GoesOn k r d c)
    (hn : n ≤ d.rest.length) :
    GoesOn k r (d.move n) (c.move n) := by
  refine ⟨?_, ?_⟩
  · rw [rest_move, rest_move, h.rest, List.drop_append_of_le_length hn]
  · rw [offset_move, offset_move, h.rest, List.take_append_of_le_length hn, h.offset]
    omega

/-- In front of a character that is not blank there is nothing to skip. -/
theorem skipBlank_of_cons {c : Cursor} {x : Char} {s : List Char} (hc : c.rest = x :: s)
    (hx : isBlank x = false) :
    c.skipBlank = c := by
  rw [skipBlank, moveWhile, hc, List.takeWhile_cons_of_neg (Bool.eq_false_iff.1 hx)]
  rfl

end Text.Cursor

namespace Json

/-! ### Quoted texts -/

/-- The control characters that JSON writes with a letter of their own. -/
def shortEscapes : List (Char × Char) :=
  [('b', '\x08'), ('f', '\x0c'), ('n', '\n'), ('r', '\r'), ('t', '\t')]

/-- How a character is written in a quoted text of JSON: quotes and backslashes behind a backslash,
control characters by a letter or by their code, everything else as it is. -/
inductive Escaped : Char → List Char → Prop
  | marked {x : Char} (h : x = '"' ∨ x = '\\') : Escaped x ['\\', x]
  | short {z x : Char} (h : (z, x) ∈ shortEscapes) : Escaped x ['\\', z]
  | code {x a b : Char} (hsmall : x.toNat < 32) (hlong : x ∉ shortEscapes.map Prod.snd)
    (hdigits : (isHexDigit a && isHexDigit b) = true) (hvalue : radixValue 16 [a, b] = x.toNat) :
    Escaped x ['\\', 'u', '0', '0', a, b]
  | raw {x : Char} (hlarge : 32 ≤ x.toNat) (hquote : x ≠ '"') (hplain : x ≠ '\\') : Escaped x [x]

/-- A text between its quotes. -/
def quoteWith (escape : Char → List Char) (s : List Char) : List Char :=
  '"' :: (s.flatMap escape ++ ['"'])

theorem escaped_escapeChar (x : Char) : Escaped x (escapeChar x) := by
  unfold escapeChar
  split
  -- a quote and a backslash are marked, five more have a short form, the rest below 32 a code
  · next hx =>
    obtain rfl := beq_iff_eq.1 hx
    exact .marked (.inl rfl)
  split
  · next hx =>
    obtain rfl := beq_iff_eq.1 hx
    exact .marked (.inr rfl)
  split
  · next hx => exact beq_iff_eq.1 hx ▸ .short (by decide)
  split
  · next hx => exact beq_iff_eq.1 hx ▸ .short (by decide)
  split
  · next hx => exact beq_iff_eq.1 hx ▸ .short (by decide)
  split
  · next hx => exact beq_iff_eq.1 hx ▸ .short (by decide)
  split
  · next hx => exact beq_iff_eq.1 hx ▸ .short (by decide)
  split
  · next hb hf hn hr ht hsmall =>
    -- the two digits of a code, for each of the characters below 32
    have hcode : ∀ n < 32,
        (isHexDigit (hexDigit (n / 16)) && isHexDigit (hexDigit (n % 16))) = true ∧
        radixValue 16 [hexDigit (n / 16), hexDigit (n % 16)] = n := by decide +kernel
    obtain ⟨hdigits, hvalue⟩ := hcode x.toNat hsmall
    refine .code hsmall ?_ hdigits hvalue
    simpa [shortEscapes] using And.intro hb (And.intro hf (And.intro hn (And.intro hr ht)))
  · next hquote hplain _ _ _ _ _ hlarge =>
    exact .raw (Nat.not_lt.1 hlarge) (fun heq => hquote (beq_iff_eq.2 heq)) fun heq =>
      hplain (beq_iff_eq.2 heq)

end Json

/-- A keyword is no string. -/
theorem Token.eq_string_of_recognise {t : Token} {s : String} (h : t.recognise = .string s) :
    t = .string s := by
  cases t with
  | identifier name =>
    rw [recognise] at h
    split at h
    · cases h
    · cases h
  | _ => exact h

namespace Lexeme

/-! ### Texts that go on -/

/-- White space and closing brackets. -/
def separators : List Char :=
  [9, 10, 11, 12, 13, 0x20, 0x85, 0xA0, 0x1680, 0x2000, 0x2001, 0x2002, 0x2003, 0x2004, 0x2005,
    0x2006, 0x2007, 0x2008,
    0x2009, 0x200A, 0x2028, 0x2029, 0x202F, 0x205F, 0x3000].map Char.ofNat ++ [')', ']', '\x7d']

theorem mem_separators_of_isBlank {x : Char} (h : Text.isBlank x = true) : x ∈ separators := by
  refine List.mem_append_left _ (List.mem_map.2 ⟨x.toNat, ?_, Char.ofNat_toNat x⟩)
  simp only [Text.isBlank, Bool.or_eq_true, Bool.and_eq_true, decide_eq_true_eq, beq_iff_eq] at h
  simp only [List.mem_cons, List.not_mem_nil, or_false]
  omega

theorem isBlank_eq_false {p : Char → Bool} {x : Char} (hp : separators.any p = false)
    (hx : p x = true) :
    Text.isBlank x = false :=
  Bool.eq_false_iff.2 fun hblank => List.any_eq_false.1 hp x (mem_separators_of_isBlank hblank) hx

/-- No token goes on with the text: it is empty, or it starts with white space or with a closing
bracket. -/
def Separates (r : List Char) : Prop :=
  ∀ x ∈ r.head?, x ∈ separators

theorem separates_cons {x : Char} {r : List Char} (hx : x ∈ separators) : Separates (x :: r) :=
  fun _ hy => Option.some.inj hy ▸ hx

section Separates

variable {s r : List Char}

/-- A property that neither white space nor a closing bracket has. -/
theorem Separates.head {p : Char → Bool} (hr : Separates r) (hp : separators.any p = false) :
    r = [] ∨ ∃ x tail, r = x :: tail ∧ p x = false := by
  cases r with
  | nil => exact .inl rfl
  | cons x tail =>
    exact .inr ⟨x, tail, rfl, Bool.eq_false_iff.2 (List.any_eq_false.1 hp x (hr x rfl))⟩

theorem Separates.takeWhile {p : Char → Bool} (hr : Separates r) (hp : separators.any p = false)
    (s : List Char) :
    (s ++ r).takeWhile p = s.takeWhile p := by
  obtain rfl | ⟨x, tail, rfl, hx⟩ := hr.head hp
  · rw [List.append_nil]
  · induction s with
    | nil => exact List.takeWhile_cons_of_neg (Bool.eq_false_iff.1 hx)
    | cons y s ih => rw [List.cons_append, List.takeWhile_cons, List.takeWhile_cons, ih]

theorem Separates.startsNumber (hr : Separates r) (hs : s ≠ []) :
    startsNumber (s ++ r) = startsNumber s := by
  obtain rfl | ⟨x, tail, rfl, hx⟩ := hr.head (p := Char.isDigit) (by decide)
  · rw [List.append_nil]
  match s with
  | [] => exact absurd rfl hs
  | [y] =>
    rw [List.singleton_append, startsNumber_cons, startsNumber_cons, List.head?_cons,
      Option.any_some, hx]
    rfl
  | y :: z :: s =>
    rw [List.cons_append, startsNumber_cons, startsNumber_cons, List.cons_append, List.head?_cons,
      List.head?_cons]

/-! ### Numbers -/

theorem Separates.signLength (hr : Separates r) (s : List Char) :
    signLength (s ++ r) = signLength s := by
  cases s with
  | nil =>
    obtain rfl | ⟨x, tail, rfl, hx⟩ := hr.head (p := fun x => x == '-' || x == '+') (by decide)
    · rfl
    · exact if_neg (Bool.eq_false_iff.1 hx)
  | cons y s => rfl

theorem Separates.exponentDigits (hr : Separates r) (s : List Char) :
    exponentDigits (s ++ r) = exponentDigits s := by
  cases s with
  | nil =>
    obtain rfl | ⟨x, tail, rfl, hx⟩ := hr.head (p := fun x => x == 'e' || x == 'E') (by decide)
    · rfl
    · exact if_neg (Bool.eq_false_iff.1 hx)
  | cons e s =>
    rw [List.cons_append, Lexeme.exponentDigits, Lexeme.exponentDigits, hr.signLength,
      List.drop_append_of_le_length (signLength_le s).2, hr.takeWhile (by decide)]

theorem Separates.exponentAt (hr : Separates r) (s : List Char) :
    exponentAt (s ++ r) = exponentAt s := by
  rw [exponentAt_eq, exponentAt_eq, hr.exponentDigits]
  cases s with
  | nil => rfl
  | cons e s =>
    have hminus : ((s ++ r).head? == some '-') = (s.head? == some '-') := by
      cases s with
      | nil =>
        obtain rfl | ⟨x, tail, rfl, hx⟩ := hr.head (p := (· == '-')) (by decide)
        · rfl
        · exact hx
      | cons y s => rfl
    rw [List.cons_append, List.tail_cons, List.tail_cons, hr.signLength, hminus]

theorem Separates.fractionAt (hr : Separates r) (s : List Char) :
    fractionAt (s ++ r) = fractionAt s := by
  cases s with
  | nil =>
    obtain rfl | ⟨x, tail, rfl, hx⟩ := hr.head (p := (· == '.')) (by decide)
    · rfl
    -- what separates does not start with a point, so no fraction begins behind `s`
    unfold Lexeme.fractionAt
    split
    · next heq => exact nomatch hx.symm.trans (beq_iff_eq.2 (List.cons.inj heq).1)
    · rfl
  | cons y s =>
    by_cases hy : y = '.'
    · subst hy
      exact congrArg (·, 1) (hr.takeWhile (by decide) s)
    · unfold Lexeme.fractionAt
      split
      · next heq => exact absurd (List.cons.inj heq).1 hy
      · split
        · next heq => exact absurd (List.cons.inj heq).1 hy
        · rfl

theorem Separates.decimalAt (hr : Separates r) (s : List Char) :
    decimalAt (s ++ r) = decimalAt s := by
  have hwhole : wholeDigits (s ++ r) = wholeDigits s := hr.takeWhile (by decide) s
  have hdigits : (wholeDigits s).length ≤ s.length := (List.takeWhile_prefix _).length_le
  have hfraction : Lexeme.fractionAt ((s ++ r).drop (wholeDigits s).length) =
      Lexeme.fractionAt (s.drop (wholeDigits s).length) := by
    rw [List.drop_append_of_le_length hdigits, hr.fractionAt]
  have hmantissa : mantissaLength (s ++ r) = mantissaLength s := by
    rw [mantissaLength, mantissaLength, hwhole, hfraction]
  have hlength : mantissaLength s ≤ s.length := by
    have hle := length_fractionAt_le (s.drop (wholeDigits s).length)
    rw [List.length_drop] at hle
    rw [mantissaLength]
    omega
  rw [decimalAt_eq, decimalAt_eq, hwhole, hfraction, hmantissa,
    List.drop_append_of_le_length hlength, hr.exponentAt]

variable {c d after : Cursor} {k : Nat} {token : Token}

theorem Separates.readNumber (hr : Separates r) (h : readNumber d = .ok (token, after))
    (hc : d.GoesOn k r c)
    (hd : d.rest ≠ []) : ∃ n, n ≤ d.rest.length ∧ after = d.move n ∧ readNumber c = .ok
    (token, c.move n) := by
  obtain ⟨x, tail, hrest⟩ : ∃ x tail, d.rest = x :: tail := List.exists_cons_of_ne_nil hd
  -- a hexadecimal number, or a decimal one; the text behind decides neither way
  by_cases hhex : ∃ y tail', d.rest = '0' :: y :: tail' ∧ (y == 'x' || y == 'X') = true
  · obtain ⟨y, tail', hrest', hy⟩ := hhex
    have hcrest : c.rest = '0' :: y :: (tail' ++ r) := by rw [hc.rest, hrest']; rfl
    rw [readNumber_hexadecimal hrest' hy] at h
    split at h
    · exact nomatch h
    · next hvalid =>
      obtain ⟨rfl, rfl⟩ := Prod.mk.inj (Except.ok.inj h)
      refine ⟨_, ?_, rfl, ?_⟩
      · have hle := (List.takeWhile_prefix (l := tail') isHexDigit).length_le
        rw [hrest', List.length_cons, List.length_cons]
        omega
      · rw [readNumber_hexadecimal hcrest hy, hr.takeWhile (by decide), if_neg hvalid]
  · have hdecimal : ∀ y tail', d.rest = '0' :: y :: tail' → (y == 'x' || y == 'X') = false :=
      fun y tail' heq => Bool.eq_false_iff.2 fun hy => hhex ⟨y, tail', heq, hy⟩
    -- were `x` the first character behind a lone zero, it would not separate
    have hdecimal' : ∀ y tail', c.rest = '0' :: y :: tail' → (y == 'x' || y == 'X') = false := by
      intro y tail' heq
      rw [hc.rest, hrest, List.cons_append] at heq
      obtain ⟨rfl, htail⟩ := List.cons.inj heq
      cases tail with
      | nil =>
        obtain rfl | ⟨z, tail, rfl, hz⟩ := hr.head (p := fun x => x == 'x' || x == 'X') (by decide)
        · exact nomatch htail
        · rwa [(List.cons.inj htail).1] at hz
      | cons z tail =>
        obtain rfl := (List.cons.inj htail).1
        exact hdecimal z tail hrest
    rw [readNumber_decimal hdecimal] at h
    obtain ⟨rfl, rfl⟩ := Prod.mk.inj (Except.ok.inj h)
    refine ⟨_, length_decimalAt_le _, rfl, ?_⟩
    rw [readNumber_decimal hdecimal', hc.rest, hr.decimalAt]

/-! ### Marks -/

theorem Separates.isPrefixOf {t : List Char} (hr : Separates r) (ht : ∀ x ∈ t.tail, x ∉ separators)
    (hs : s ≠ []) :
    t <+: s ++ r ↔ t <+: s := by
  refine ⟨fun h => ?_, fun h => h.trans (List.prefix_append s r)⟩
  rcases Nat.lt_or_ge s.length t.length with hlen | hlen
  · -- the text would have a character of the rest behind its first one
    obtain ⟨u, rfl⟩ := List.prefix_of_prefix_length_le (List.prefix_append s r) h
      (Nat.le_of_lt hlen)
    obtain ⟨y, s, rfl⟩ := List.exists_cons_of_ne_nil hs
    have hu := (List.prefix_append_right_inj _).1 h
    cases u with
    | nil => exact absurd hlen (by simp)
    | cons z u =>
      cases r with
      | nil => exact nomatch List.prefix_nil.1 hu
      | cons x tail =>
        obtain ⟨rfl, -⟩ := List.cons_prefix_cons.1 hu
        exact absurd (hr z rfl) (ht z (by simp))
  · exact List.prefix_of_prefix_length_le h (List.prefix_append s r) hlen

/-- White space or a closing bracket stands in no mark behind its first character. -/
theorem Punct.separated (p : Punct) : ∀ x ∈ p.text.toList.tail, x ∉ separators := by
  have hnone : p.text.toList.tail.any separators.contains = false := by
    cases p <;> decide +kernel
  exact fun x hx hmem => List.any_eq_false.1 hnone x hx (List.contains_iff_mem.2 hmem)

theorem Separates.punctAt? (hr : Separates r) (hs : s ≠ []) : punctAt? (s ++ r) = punctAt? s := by
  have hfits : ∀ p, fits (s ++ r) p = fits s p := by
    intro p
    rw [Bool.eq_iff_iff, fits_eq_true, fits_eq_true, hr.isPrefixOf (Punct.separated p) hs]
    refine and_congr_right fun hfront => forall_congr' fun hp => ?_
    subst hp
    have hlen : 2 ≤ s.length := hfront.length_le
    rw [List.drop_append_of_le_length hlen]
    cases s.drop 2 with
    | nil =>
      obtain rfl | ⟨x, tail, rfl, hx⟩ := hr.head (p := Char.isDigit) (by decide)
      · rfl
      · simp [hx]
    | cons y s => rfl
  exact congrArg (fun p => Punct.all.find? p) (funext hfits)

/-! ### Tokens -/

/-- A string ends with its quote, whatever follows. -/
theorem readString_goesOn {quote : Char} (h : readString quote d = .ok (token, after))
    (hc : d.GoesOn k r c) (hd : d.rest ≠ []) :
    ∃ n, n ≤ d.rest.length ∧ after = d.move n ∧ readString quote c = .ok (token, c.move n) := by
  have hpos : 1 ≤ d.rest.length := List.length_pos_iff.2 hd
  unfold readString at h
  split at h
  -- the body ends at its quote, inside `d`, and what follows is not looked at
  · next held length hbody =>
    obtain ⟨rfl, rfl⟩ := Prod.mk.inj (Except.ok.inj h)
    obtain ⟨w, u, hrest, hlength, hread⟩ := holds_of_readStringBody hbody
    refine ⟨length + 1, ?_, rfl, ?_⟩
    · have hsum := congrArg List.length hrest
      rw [Cursor.rest_step, List.length_drop, List.length_append] at hsum
      omega
    · have hcrest : c.step.rest = w ++ (u ++ r) := by
        rw [Cursor.rest_step, hc.rest, List.drop_append_of_le_length hpos,
          ← Cursor.rest_step, hrest, List.append_assoc]
      unfold readString
      rw [hcrest, hread]
      rfl
  · exact nomatch h

theorem Separates.readToken {x : Char} (hr : Separates r) (h : readToken x d = .ok (token, after))
    (hc : d.GoesOn k r c) (hd : d.rest ≠ []) :
    ∃ n, n ≤ d.rest.length ∧ after = d.move n ∧ readToken x c = .ok (token, c.move n) := by
  unfold Lexeme.readToken at h ⊢
  -- each kind of token is told by characters of `d` alone
  rw [hc.rest, hr.startsNumber hd]
  split at h
  · next hnumber =>
    rw [if_pos hnumber]
    exact hr.readNumber h hc hd
  · next hnumber =>
    rw [if_neg hnumber]
    split at h
    · next hquote =>
      rw [if_pos hquote]
      exact readString_goesOn h hc hd
    · next hquote =>
      rw [if_neg hquote]
      split at h
      · next hname =>
        obtain ⟨rfl, rfl⟩ := Prod.mk.inj (Except.ok.inj h)
        refine ⟨_, (List.takeWhile_prefix _).length_le, rfl, ?_⟩
        rw [if_pos hname, Cursor.moveWhile, hc.rest, hr.takeWhile (by decide +kernel)]
      · next hname =>
        rw [if_neg hname, hr.punctAt? hd]
        split at h
        · next p hp =>
          obtain ⟨rfl, rfl⟩ := Prod.mk.inj (Except.ok.inj h)
          refine ⟨_, ?_, rfl, rfl⟩
          have hfront := (fits_eq_true.1 (List.find?_some hp)).1.length_le
          rwa [String.length_toList] at hfront
        · cases h

theorem Separates.next? {l : Lexeme} (hr : Separates r) (h : next? d = .ok (some l, after))
    (hc : d.GoesOn k r c) :
    ∃ after', next? c = .ok (some (l.relocate (· + k)), after') ∧ after.GoesOn k r after' := by
  obtain ⟨x, rest, token, hrest, hread, rfl⟩ := next?_eq_ok_some.1 h
  -- the blanks in front of the token are the same
  have hblank : (c.rest.takeWhile Text.isBlank).length =
    (d.rest.takeWhile Text.isBlank).length := by
    have hsplit : d.rest.takeWhile Text.isBlank ++ d.rest.dropWhile Text.isBlank = d.rest :=
      List.takeWhile_append_dropWhile
    have hdrop : d.rest.dropWhile Text.isBlank = x :: rest := by
      rw [← Cursor.rest_moveWhile]
      exact hrest
    rw [hc.rest, List.takeWhile_append, if_neg]
    intro hall
    have hsum := congrArg List.length hsplit
    rw [List.length_append, hdrop, List.length_cons] at hsum
    omega
  have hskip : d.skipBlank.GoesOn k r c.skipBlank := by
    rw [Cursor.skipBlank, Cursor.skipBlank, Cursor.moveWhile, Cursor.moveWhile, hblank]
    exact hc.move (List.takeWhile_prefix _).length_le
  obtain ⟨n, hn, rfl, hread'⟩ := hr.readToken hread hskip (hrest ▸ List.cons_ne_nil x rest)
  have hmove := hskip.move hn
  refine ⟨_, next?_eq_ok_some.2 ⟨x, rest ++ r, token, ?_, hread', ?_⟩, hmove⟩
  · rw [hskip.rest, hrest, List.cons_append]
  · rw [relocate, hskip.offset, hmove.offset]

end Separates

/-- Tokens that are read up to the end of a text are read again if a text follows that no token goes
on with. -/
theorem Yields.goesOn {c d e : Cursor} {k : Nat} {r : List Char} {xs : List Lexeme}
    (h : Yields d xs e) (hr : Separates r) (hc : d.GoesOn k r c) :
    ∃ e', Yields c (xs.map (relocate (· + k))) e' ∧ e.GoesOn k r e' := by
  induction h generalizing c with
  | nil d => exact ⟨c, .nil c, hc⟩
  | cons hnext _ ih =>
    obtain ⟨after', hnext', hafter⟩ := hr.next? hnext hc
    obtain ⟨e', hyields, he⟩ := ih hafter
    exact ⟨e', .cons hnext' hyields, he⟩

theorem Yields.append {c d e : Cursor} {xs ys : List Lexeme} (h : Yields c xs d)
    (h' : Yields d ys e) :
    Yields c (xs ++ ys) e := by
  induction h with
  | nil c => exact h'
  | cons hnext _ ih => exact .cons hnext (ih h')

/-! ### Texts that spell tokens -/

/-- Wherever the text `s` stands, tokens with a property are read one after the other, up to its
rest `r`. -/
def Spells (s : List Char) (P : List Lexeme → Prop) (r : List Char) : Prop :=
  ∀ c : Cursor, c.rest = s → ∃ xs d, Yields c xs d ∧ d.rest = r ∧ P xs

/-- One token alone. -/
def IsOne (t : Token) (xs : List Lexeme) : Prop :=
  ∃ l, xs = [l] ∧ l.token = t

theorem not_isOne_nil {t : Token} : ¬IsOne t [] := by
  rintro ⟨l, hl, -⟩
  cases hl

section Spells

variable {P Q : List Lexeme → Prop} {s t r : List Char}

theorem Spells.imp (h : Spells s P r) (hPQ : ∀ xs, P xs → Q xs) : Spells s Q r := by
  intro c hc
  obtain ⟨xs, d, hyields, hd, hxs⟩ := h c hc
  exact ⟨xs, d, hyields, hd, hPQ xs hxs⟩

theorem Spells.append (h : Spells s P t) (h' : Spells t Q r) :
    Spells s (fun xs => ∃ ys zs, xs = ys ++ zs ∧ P ys ∧ Q zs) r := by
  intro c hc
  obtain ⟨ys, d, hys, hd, hP⟩ := h c hc
  obtain ⟨zs, e, hzs, he, hQ⟩ := h' d hd
  exact ⟨ys ++ zs, e, hys.append hzs, he, ys, zs, rfl, hP, hQ⟩

/-- A blank in front of a token. -/
theorem Spells.blank (h : Spells s P r) (hne : ¬P []) : Spells (' ' :: s) P r := by
  intro c hc
  have hstep : c.step.rest = s := by rw [Cursor.rest_step, hc, List.drop_one, List.tail_cons]
  obtain ⟨xs, d, hyields, hd, hxs⟩ := h c.step hstep
  refine ⟨xs, d, ?_, hd, hxs⟩
  have hskip : c.skipBlank = c.step.skipBlank := by
    have hlength : (c.rest.takeWhile Text.isBlank).length =
      (c.step.rest.takeWhile Text.isBlank).length + 1 := by
      rw [hstep, hc, List.takeWhile_cons_of_pos (by decide), List.length_cons]
    rw [Cursor.skipBlank, Cursor.moveWhile, hlength]
    rfl
  cases hyields with
  | nil => exact absurd hxs hne
  | cons hnext others =>
    rw [← next?_skipBlank, ← hskip, next?_skipBlank] at hnext
    exact .cons hnext others

theorem spells_one {x : Char} {token : Token} {n : Nat} (hx : Text.isBlank x = false)
    (hread : ∀ c : Cursor, c.rest = x :: s → readToken x c = .ok (token, c.move n))
    (hr : (x :: s).drop n = r) :
    Spells (x :: s) (IsOne token.recognise) r := by
  intro c hc
  have hskip : c.skipBlank = c := Cursor.skipBlank_of_cons hc hx
  have hnext : next? c = .ok (some ⟨token, c.offset, (c.move n).offset⟩, c.move n) :=
    next?_eq_ok_some.2 ⟨x, s, token, hskip.symm ▸ hc, hskip.symm ▸ hread c hc, by rw [hskip]⟩
  refine ⟨_, c.move n, .cons hnext (.nil _), ?_, _, rfl, rfl⟩
  rw [Cursor.rest_move, hc, hr]

theorem spells_mark {p : Punct} {x : Char} (hs : x :: s = p.text.toList ++ r)
    (hx : (Text.isBlank x || x == '"' || x == '\'' || Text.isNameStart x) = false)
    (hnumber : startsNumber (x :: s) = false) (hp : punctAt? (x :: s) = some p) :
    Spells (x :: s) (IsOne (.punct p)) r := by
  simp only [Bool.or_eq_false_iff] at hx
  obtain ⟨⟨⟨hblank, hdouble⟩, hsingle⟩, hname⟩ := hx
  show Spells (x :: s) (IsOne (Token.punct p).recognise) r
  refine spells_one (n := p.text.length) hblank (fun c hc => ?_) ?_
  · rw [readToken, hc, hnumber, hdouble, hsingle, hname, hp]
    rfl
  · rw [hs, ← String.length_toList, List.drop_left]

/-- What starts a name is no blank, starts no number and is no quote. -/
theorem eq_false_of_isNameStart {x : Char} (hx : Text.isNameStart x = true) :
    (Text.isBlank x || x.isDigit || x == '.' || x == '"' || x == '\'') = false := by
  -- the other classes hold ASCII characters only, and among those the check is finite
  have hascii : ∀ n < 128, Text.isNameStart (Char.ofNat n) = true → (Text.isBlank (Char.ofNat n) ||
      (Char.ofNat n).isDigit || Char.ofNat n == '.' || Char.ofNat n == '"' || Char.ofNat n ==
      '\'') = false := by
    decide +kernel
  by_cases hlt : x.toNat < 128
  · have h := hascii x.toNat hlt
    rw [Char.ofNat_toNat] at h
    exact h hx
  · have hne : ∀ y : Char, y.toNat < 128 → (x == y) = false := by
      intro y hy
      refine beq_false_of_ne fun heq => hlt ?_
      rw [heq]
      exact hy
    have hdigit : x.isDigit = false := by
      refine Bool.eq_false_iff.2 fun hdigit => hlt ?_
      simp only [Char.isDigit, Bool.and_eq_true, decide_eq_true_eq] at hdigit
      exact Nat.lt_of_le_of_lt (UInt32.le_iff_toNat_le.1 hdigit.2) (by decide)
    have hblank : Text.isBlank x = false := isBlank_eq_false (by decide +kernel) hx
    rw [hblank, hdigit, hne '.' (by decide), hne '"' (by decide), hne '\'' (by decide)]
    rfl

/-- A name is one token. -/
theorem spells_name {x : Char} (hx : Text.isNameStart x = true) (hs : s.all Text.isNamePart = true)
    (hr : Separates r) :
    Spells (x :: s ++ r) (IsOne (Token.identifier (String.ofList (x :: s))).recognise) r := by
  have hnot := eq_false_of_isNameStart hx
  simp only [Bool.or_eq_false_iff, beq_eq_false_iff_ne] at hnot
  obtain ⟨⟨⟨⟨hblank, hdigit⟩, hpoint⟩, hdouble⟩, hsingle⟩ := hnot
  -- the word runs up to what separates it
  have hword : (x :: s ++ r).takeWhile Text.isNamePart = x :: s := by
    rw [hr.takeWhile (by decide +kernel)]
    refine List.takeWhile_eq_self_iff.2 fun y hy => ?_
    rcases List.mem_cons.1 hy with rfl | hy
    · exact isNamePart_of_isNameStart hx
    · exact List.all_eq_true.1 hs y hy
  refine spells_one (n := (x :: s).length) hblank (fun c hc => ?_) List.drop_left
  have hnumber : startsNumber c.rest = false := by
    rw [hc, startsNumber_cons, if_neg hpoint, hdigit]
  have hquote : (x == '"' || x == '\'') = false := by
    rw [beq_false_of_ne hdouble, beq_false_of_ne hsingle]
    rfl
  have hword' : c.rest.takeWhile Text.isNamePart = x :: s := by
    rw [hc]
    exact hword
  rw [readToken, if_neg (Bool.eq_false_iff.1 hnumber), if_neg (Bool.eq_false_iff.1 hquote),
    if_pos hx, Cursor.moveWhile, hword']

/-- A character is read from what it is written as in a quoted text. -/
theorem readStringBody_escaped {x : Char} {w : List Char} (h : Json.Escaped x w)
    (start offset length : Nat) (held rest : List Char) :
    ∃ offset', readStringBody '"' start (w ++ rest) offset length held =
      readStringBody '"' start rest offset' (length + w.length) (x :: held) := by
  -- a backslash and a character that is neither `x` nor `u`
  have hshort : ∀ z y : Char, (z == 'x' || z == 'u') = false → (z == '\n') = false →
    escapedChar z = y →
      ∃ offset', readStringBody '"' start (['\\', z] ++ rest) offset length held =
        readStringBody '"' start rest offset' (length + 2) (y :: held) := by
    intro z y hz hbreak hy
    refine ⟨offset + '\\'.utf8Size + z.utf8Size, ?_⟩
    rw [List.cons_append, List.singleton_append,
      readStringBody_escape (by decide) (by decide) (Bool.eq_false_iff.1 hz),
      if_neg (Bool.eq_false_iff.1 hbreak), hy]
  cases h with
  | marked hx =>
    rcases hx with rfl | rfl
    · exact hshort '"' '"' rfl rfl rfl
    · exact hshort '\\' '\\' rfl rfl rfl
  | @short z x hz =>
    have hletters : (Json.shortEscapes.all fun q =>
        !(q.1 == 'x' || q.1 == 'u') && !(q.1 == '\n') && escapedChar q.1 == q.2) = true := by decide
    have hletter := List.all_eq_true.1 hletters (z, x) hz
    simp only [Bool.and_eq_true, Bool.not_eq_true', beq_iff_eq] at hletter
    exact hshort z x hletter.1.1 hletter.1.2 hletter.2
  | @code x a b hsmall hlong hdigits hvalue =>
    have hall : (isHexDigit '0' && isHexDigit '0' && isHexDigit a && isHexDigit b) = true := by
      rw [Bool.and_assoc, hdigits]
      rfl
    have hchar : charOfHex? ['0', '0', a, b] = some x := by
      have hcode : radixValue 16 ['0', '0', a, b] = x.toNat := hvalue
      rw [charOfHex?, hcode, if_pos (.inl (by omega)), Char.ofNat_toNat]
    refine ⟨offset + '\\'.utf8Size + 5, ?_⟩
    simp only [List.cons_append, List.nil_append]
    rw [readStringBody, if_neg (by decide), if_neg (by decide), if_pos hall, hchar]
    rfl
  | raw hlarge hquote hplain =>
    refine ⟨offset + x.utf8Size, ?_⟩
    rw [List.singleton_append, readStringBody.eq_def]
    dsimp only
    rw [if_neg fun heq => hquote (beq_iff_eq.1 heq), if_pos (bne_iff_ne.2 hplain)]
    rfl

section Quoted

variable {escape : Char → List Char}

theorem readStringBody_quoted (h : ∀ x, Json.Escaped x (escape x)) (s : List Char)
    (start offset length : Nat) (held r : List Char) :
    readStringBody '"' start (s.flatMap escape ++ '"' :: r) offset length held =
      .ok (held.reverse ++ s, length + (s.flatMap escape).length + 1) := by
  induction s generalizing offset length held with
  | nil =>
    rw [List.flatMap_nil, List.nil_append, readStringBody.eq_def]
    simp
  | cons x s ih =>
    obtain ⟨offset', hx⟩ := readStringBody_escaped (h x) start offset length held
      (s.flatMap escape ++ '"' :: r)
    rw [List.flatMap_cons, List.append_assoc, hx, ih]
    simp [Nat.add_assoc]

/-- A quoted text is one token, which holds the text. -/
theorem spells_quoted (h : ∀ x, Json.Escaped x (escape x)) (s r : List Char) :
    Spells (Json.quoteWith escape s ++ r) (IsOne (.string (String.ofList s))) r := by
  have hquote : Json.quoteWith escape s ++ r = '"' :: (s.flatMap escape ++ '"' :: r) := by
    simp [Json.quoteWith]
  rw [hquote]
  show Spells _ (IsOne (Token.string (String.ofList s)).recognise) r
  refine spells_one (n := (s.flatMap escape).length + 2) rfl (fun c hc => ?_) ?_
  · have hnumber : startsNumber c.rest = false := by rw [hc]; rfl
    have hstep : c.step.rest = s.flatMap escape ++ '"' :: r := by rw [Cursor.rest_step, hc]; rfl
    rw [readToken, if_neg (Bool.eq_false_iff.1 hnumber), if_pos (by decide), readString, hstep,
      readStringBody_quoted h]
    simp [Cursor.move]
  · have hdrop : (s.flatMap escape ++ '"' :: r).drop ((s.flatMap escape).length + 1) = r := by
      rw [← List.drop_drop, List.drop_left, List.drop_one, List.tail_cons]
    exact hdrop

/-- A text that is written in JSON is read as one string that holds it.  The string takes up all of
what is written, and nothing follows it. -/
theorem quoted_verbatim (h : ∀ x, Json.Escaped x (escape x)) (s : String) :
    ∃ d, next? (Cursor.ofText (Json.quoteWith escape s.toList)) =
        .ok (some ⟨.string s, 0, byteLength (Json.quoteWith escape s.toList)⟩, d) ∧
      d.rest = [] ∧ next? d = .ok (none, d) ∧
      run (Cursor.ofText (Json.quoteWith escape s.toList)) =
        ⟨[⟨.string s, 0, byteLength (Json.quoteWith escape s.toList)⟩], .endOfText⟩ := by
  obtain ⟨xs, d, hyields, hrest, l, rfl, hl⟩ :=
    spells_quoted h s.toList [] (Cursor.ofText (Json.quoteWith escape s.toList))
      (List.append_nil _).symm
  rw [String.ofList_toList] at hl
  have hdepth : depthAfter? 0 [l] = some 0 := by
    rw [depthAfter?, hl]
    rfl
  have hrun := hyields.run_eq hdepth hrest
  have hstart : (Cursor.ofText (Json.quoteWith escape s.toList)).skipBlank.offset = 0 :=
    congrArg Cursor.offset (Cursor.skipBlank_of_cons (x := '"') rfl rfl)
  cases hyields with
  | @cons _ _ _ l _ hnext others =>
    cases others with
    | nil =>
      -- the token starts where the text does, and ends where it does
      obtain ⟨token, start, stop⟩ := l
      obtain rfl : start = 0 := (start_of_next? hnext).trans hstart
      obtain ⟨-, -, hstop, hleads⟩ := next?_eq_ok hnext
      obtain rfl : stop = byteLength (Json.quoteWith escape s.toList) := by
        rw [← hleads.final_ofText, Cursor.final, hrest, byteLength, Nat.add_zero]
        exact hstop
      obtain rfl : token = .string s := Token.eq_string_of_recognise hl
      have hskip : d.skipBlank = d := by
        rw [Cursor.skipBlank, Cursor.moveWhile, hrest]
        rfl
      exact ⟨d, hnext, hrest, next?_eq_ok_none.2 ⟨hskip.symm ▸ hrest, hskip.symm⟩, hrun⟩

end Quoted

/-- Quotes, backslashes, braces, control characters and characters of several bytes. -/
theorem quoted_verbatim_controls :
    (∀ x, Json.Escaped x (Json.escapeChar x)) ∧
      ∃ d, next? (Cursor.ofText (Json.quoteChars "\"\\\n\x01\x0b\x7b\x7b\x7fé".toList)) =
          .ok (some ⟨.string "\"\\\n\x01\x0b\x7b\x7b\x7fé", 0, 25⟩, d) ∧
        d.rest = [] ∧ next? d = .ok (none, d) ∧
        run (Cursor.ofText (Json.quoteChars "\"\\\n\x01\x0b\x7b\x7b\x7fé".toList)) =
          ⟨[⟨.string "\"\\\n\x01\x0b\x7b\x7b\x7fé", 0, 25⟩], .endOfText⟩ :=
  ⟨Json.escaped_escapeChar, quoted_verbatim Json.escaped_escapeChar "\"\\\n\x01\x0b\x7b\x7b\x7fé"⟩

/-- The tokens of a text in front of one that no token goes on with. -/
theorem spells_excerpt {xs : List Lexeme} {e : Cursor} (h : Yields (Cursor.ofText s) xs e)
    (he : e.rest = [])
    (hr : Separates r) : Spells (s ++ r) (fun ys => ∃ k, ys = xs.map (relocate (· + k))) r := by
  intro c hc
  have hgoes : (Cursor.ofText s).GoesOn c.offset r c := ⟨hc, (Nat.zero_add _).symm⟩
  obtain ⟨e', hyields, he'⟩ := h.goesOn hr hgoes
  exact ⟨_, e', hyields, by rw [he'.rest, he, List.nil_append], c.offset, rfl⟩

end Spells

end Lexeme

end PromptMarkup

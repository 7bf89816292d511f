/-
The tokens of a text that is cut off.

* `Text.Cursor.Copies` — a cursor in a piece of a text that stands where another one stands in the
  text;
* `Lexeme.Cuts` — a text that is cut off behind its first characters;
* `Lexeme.Takes` — a reader takes some characters, and takes the same if the text is cut off behind
  them;
* `Lexeme.takes_readNumber`, `Lexeme.takes_readString`, `Lexeme.takes_readToken` — so do the readers
  of tokens;
* `Lexeme.DecidesNumber` — whether a text starts with a number is seen in its first characters;
* `Lexeme.next?_reaches` — the next token of a text is also the next one of a piece of the text, at
  offsets that count from the start of the piece.

Design notes: a token is as long as can be, so a reader looks at what stands behind it; where a text
is cut off there, the token may only become longer or stay.  There is one mark for which this is not
enough: `?.` is not read in front of a digit, and a text that is cut off between the point and the
digit would have it again.  This is why a text is never cut off inside of a number (`Cuts.number`).
-/
import PromptMarkup.Proofs.Places

namespace PromptMarkup

open Text (Cursor byteLength)

/-! ### Cursors -/

namespace Text.Cursor

theorem rest_step (c : Cursor) : c.step.rest = c.rest.drop 1 := by
  unfold step
  split
  · next h => rw [h, List.drop_nil]
  · next h => rw [h, List.drop_one, List.tail_cons]

theorem rest_move (n : Nat) (c : Cursor) : (c.move n).rest = c.rest.drop n := by
  induction n generalizing c with
  | zero => rfl
  | succ n ih => rw [move, ih, rest_step, List.drop_drop, Nat.add_comm]

theorem rest_moveWhile (p : Char → Bool) (c : Cursor) :
    (c.moveWhile p).rest = c.rest.dropWhile p := by
  have hsplit := List.takeWhile_append_dropWhile (p := p) (l := c.rest)
  calc (c.moveWhile p).rest
    _ = c.rest.drop (c.rest.takeWhile p).length := rest_move _ c
    _ = (c.rest.takeWhile p ++ c.rest.dropWhile p).drop (c.rest.takeWhile p).length := by
      rw [hsplit]
    _ = c.rest.dropWhile p := List.drop_left

theorem offset_step (c : Cursor) : c.step.offset = c.offset + byteLength (c.rest.take 1) := by
  unfold step
  split
  · next h => rw [h, List.take_nil, byteLength, Nat.add_zero]
  · next h => simp [h, byteLength]

theorem offset_move (n : Nat) (c : Cursor) :
    (c.move n).offset = c.offset + byteLength (c.rest.take n) := by
  induction n generalizing c with
  | zero => rw [move, List.take_zero, byteLength, Nat.add_zero]
  | succ n ih =>
    rw [move, ih, offset_step, rest_step, Nat.add_assoc, ← byteLength_append, Nat.add_comm n 1,
      List.take_add]

theorem offset_move_front {c : Cursor} {w : List Char} (h : w <+: c.rest) :
    (c.move w.length).offset = c.offset + byteLength w := by
  rw [offset_move, ← List.prefix_iff_eq_take.1 h]

/-- A place of what stands behind a cursor is one from the cursor on. -/
theorem meets_of_isBoundary {c : Cursor} {raw : List Char} {n : Nat} (hraw : raw <+: c.rest)
    (h : IsBoundary raw n) : c.Meets (c.offset + n) := by
  obtain ⟨front, rest, rfl, rfl⟩ := h
  exact ⟨c.move front.length, ⟨_, rfl⟩,
    offset_move_front ((List.prefix_append front rest).trans hraw)⟩

theorem rest_skipBlank_of_nil {c : Cursor} (h : c.rest = []) : c.skipBlank.rest = [] := by
  rw [skipBlank, moveWhile, rest_move, h, List.drop_nil]

/-- The characters between two cursors. -/
theorem LeadsTo.exists_append {c d : Cursor} (h : c.LeadsTo d) :
    ∃ w, c.rest = w ++ d.rest ∧ d.offset = c.offset + byteLength w := by
  obtain ⟨n, rfl⟩ := h
  refine ⟨c.rest.take n, ?_, offset_move n c⟩
  rw [rest_move, List.take_append_drop]

/-- The text between two cursors. -/
theorem slice?_of_leadsTo {s w t : List Char} {c : Cursor} (hc : (ofText s).LeadsTo c)
    (hrest : c.rest = w ++ t) :
    slice? s c.offset (c.offset + byteLength w) = some w := by
  have hslice := slice?_append c.before.reverse w t
  rwa [← hrest, hc.text_eq, ← hc.offset_eq] at hslice

theorem slice_of_leadsTo {s : List Char} {c d : Cursor} (hc : (ofText s).LeadsTo c)
    (hd : c.LeadsTo d) :
    c.rest = slice s c.offset d.offset ++ d.rest := by
  obtain ⟨w, hw, hoffset⟩ := hd.exists_append
  rw [slice, hoffset, slice?_of_leadsTo hc hw, Option.getD_some, hw]

/-- A cursor stands in a piece of a text where another one stands in the text.  The piece starts `k`
bytes behind the start of the text, and may end before the text does. -/
structure Copies (k : Nat) (d c : Cursor) : Prop where
  rest : d.rest <+: c.rest
  offset : c.offset = d.offset + k

theorem Copies.move {k n : Nat} {c d : Cursor} (h : Copies k d c) (hn : n ≤ d.rest.length) :
    Copies k (d.move n) (c.move n) := by
  obtain ⟨r, hr⟩ := h.rest
  refine ⟨?_, ?_⟩
  · rw [rest_move, rest_move, ← hr, List.drop_append_of_le_length hn]
    exact List.prefix_append _ _
  · rw [offset_move, offset_move, ← hr, List.take_append_of_le_length hn, h.offset]
    omega

end Text.Cursor

/-! ### Texts that are cut off -/

theorem takeWhile_of_front {p : Char → Bool} {s t : List Char} (h : t <+: s)
    (hlen : (s.takeWhile p).length ≤ t.length) : t.takeWhile p = s.takeWhile p := by
  obtain ⟨r, rfl⟩ := h
  rw [List.takeWhile_append] at hlen ⊢
  split
  · next hall =>
    rw [if_pos hall, List.length_append] at hlen
    have hnil : r.takeWhile p = [] := List.length_eq_zero_iff.1 (by omega)
    rw [hnil, List.append_nil]
    exact (List.takeWhile_prefix p).eq_of_length hall
  · rfl

theorem takeWhile_front {p : Char → Bool} {s t : List Char} (h : t <+: s) :
    t.takeWhile p <+: s.takeWhile p := by
  obtain ⟨r, rfl⟩ := h
  rw [List.takeWhile_append]
  split
  · exact (List.takeWhile_prefix p).trans (List.prefix_append _ _)
  · exact List.prefix_rfl

namespace Lexeme

/-! ### Numbers -/

variable {s t : List Char}

/-- The sign at the front of an exponent, if there is one. -/
def signLength : List Char → Nat
  | x :: _ => if x == '-' || x == '+' then 1 else 0
  | [] => 0

theorem takeSign_eq (s : List Char) :
    Number.takeSign s = (s.head? == some '-', s.drop (signLength s)) := by
  unfold Number.takeSign
  split
  · rfl
  · rfl
  · next hminus hplus =>
    cases s with
    | nil => rfl
    | cons x tail =>
      have hx : (x == '-') = false := beq_false_of_ne fun h => hminus tail (by rw [h])
      have hx' : (x == '+') = false := beq_false_of_ne fun h => hplus tail (by rw [h])
      rw [signLength, hx, hx', List.head?_cons, Option.some_beq_some, hx]
      rfl

theorem signLength_le (s : List Char) : signLength s ≤ 1 ∧ signLength s ≤ s.length := by
  cases s with
  | nil => exact ⟨Nat.zero_le 1, Nat.le_refl 0⟩
  | cons x tail =>
    rw [signLength, List.length_cons]
    split <;> omega

/-- The digits of the exponent at the front of a text. -/
def exponentDigits : List Char → List Char
  | e :: rest =>
    if e == 'e' || e == 'E' then (rest.drop (signLength rest)).takeWhile Char.isDigit else []
  | [] => []

theorem exponentAt_eq (s : List Char) :
    exponentAt s =
      if (exponentDigits s).isEmpty then (0, 0)
      else (if s.tail.head? == some '-' then -(Number.digitsValue (exponentDigits s) : Int)
        else Number.digitsValue (exponentDigits s),
          1 + signLength s.tail + (exponentDigits s).length) := by
  cases s with
  | nil => rfl
  | cons e rest =>
    have hsign : rest.length - (rest.drop (signLength rest)).length = signLength rest := by
      have hle := (signLength_le rest).2
      rw [List.length_drop]
      omega
    rw [exponentAt, exponentDigits, takeSign_eq]
    split
    · simp only [hsign, List.tail_cons]
      rfl
    · rfl

theorem exponentDigits_front (h : t <+: s) : exponentDigits t <+: exponentDigits s := by
  cases t with
  | nil => exact List.nil_prefix
  | cons e rest' =>
    obtain ⟨r, rfl⟩ := h
    rw [List.cons_append, exponentDigits, exponentDigits]
    split
    · cases rest' with
      | nil => exact List.nil_prefix
      | cons x tail =>
        have hsign : signLength (x :: tail ++ r) = signLength (x :: tail) := rfl
        rw [hsign, List.drop_append_of_le_length (signLength_le _).2]
        exact takeWhile_front (List.prefix_append _ _)
    · exact List.nil_prefix

theorem exponentDigits_of_front (h : t <+: s)
    (hlen : 1 + signLength s.tail + (exponentDigits s).length ≤ t.length)
    (hdigits : exponentDigits s ≠ []) :
    exponentDigits t = exponentDigits s ∧ signLength t.tail = signLength s.tail ∧
      t.tail.head? = s.tail.head? := by
  have hpos := List.length_pos_iff.2 hdigits
  obtain ⟨r, rfl⟩ := h
  -- the exponent has its letter and a digit, so that both are in what was read
  match t with
  | [] => exact absurd hlen (by simp only [List.length_nil]; omega)
  | [e] => exact absurd hlen (by simp only [List.length_singleton]; omega)
  | e :: x :: tail =>
    refine ⟨?_, rfl, rfl⟩
    have hsign : signLength (x :: tail ++ r) = signLength (x :: tail) := rfl
    rw [List.cons_append, List.tail_cons, hsign] at hlen
    rw [List.cons_append]
    rw [exponentDigits] at hlen ⊢
    rw [exponentDigits]
    split
    · next he =>
      rw [if_pos he, hsign, List.drop_append_of_le_length (signLength_le _).2] at hlen
      rw [hsign, List.drop_append_of_le_length (signLength_le _).2]
      refine takeWhile_of_front (List.prefix_append _ _) ?_
      rw [List.length_drop]
      rw [List.length_cons (a := e)] at hlen
      omega
    · rfl

/-- An exponent is found again if the text is cut off behind it, and none is found if there was
none. -/
theorem exponentAt_of_front (h : t <+: s) (hlen : (exponentAt s).2 ≤ t.length) :
    exponentAt t = exponentAt s := by
  rw [exponentAt_eq s] at hlen ⊢
  rw [exponentAt_eq t]
  by_cases hdigits : exponentDigits s = []
  · have hdigits' : exponentDigits t = [] := List.prefix_nil.1 (hdigits ▸ exponentDigits_front h)
    rw [hdigits, hdigits']
    rfl
  · have hsome : ¬(exponentDigits s).isEmpty = true := fun hempty =>
      hdigits (List.isEmpty_iff.1 hempty)
    rw [if_neg hsome] at hlen
    obtain ⟨hsame, hsign, hhead⟩ := exponentDigits_of_front h hlen hdigits
    rw [hsame, hsign, hhead]

theorem length_exponentDigits_le (s : List Char) :
    exponentDigits s ≠ [] → 1 + signLength s.tail + (exponentDigits s).length ≤ s.length := by
  cases s with
  | nil => exact fun h => absurd rfl h
  | cons e rest =>
    intro _
    have hle := (signLength_le rest).2
    have hdigits : (exponentDigits (e :: rest)).length ≤ rest.length - signLength rest := by
      rw [exponentDigits]
      split
      · rw [← List.length_drop]
        exact (List.takeWhile_prefix _).length_le
      · exact Nat.zero_le _
    rw [List.tail_cons, List.length_cons]
    omega

theorem length_exponentAt_le (s : List Char) : (exponentAt s).2 ≤ s.length := by
  rw [exponentAt_eq]
  split
  · exact Nat.zero_le _
  · next h => exact length_exponentDigits_le s fun hnil => h (List.isEmpty_iff.2 hnil)

/-- The point and the digits behind it at the front of a text: the digits, and one if there is a
point. -/
def fractionAt : List Char → List Char × Nat
  | '.' :: tail => (tail.takeWhile Char.isDigit, 1)
  | _ => ([], 0)

theorem fractionAt_of_front (h : t <+: s)
    (hlen : (fractionAt s).2 + (fractionAt s).1.length ≤ t.length) :
    fractionAt t = fractionAt s := by
  obtain ⟨r, rfl⟩ := h
  -- the dot is in what was read, or there is none
  cases t with
  | nil =>
    unfold fractionAt at hlen ⊢
    split at hlen
    · exact absurd hlen (by simp only [List.length_nil]; omega)
    · rfl
  | cons x tail =>
    unfold fractionAt at hlen ⊢
    split
    · next heq =>
      obtain ⟨rfl, rfl⟩ := List.cons.inj heq
      simp only [List.cons_append, List.length_cons] at hlen ⊢
      rw [takeWhile_of_front (List.prefix_append _ r) (by omega)]
    · next hnone =>
      split
      · next heq => exact absurd (List.cons.inj heq).1 (fun hx => hnone tail (by rw [hx]))
      · rfl

theorem length_fractionAt_le (s : List Char) :
    (fractionAt s).2 + (fractionAt s).1.length ≤ s.length := by
  unfold fractionAt
  split
  · next tail =>
    have hle := (List.takeWhile_prefix (l := tail) Char.isDigit).length_le
    simp only [List.length_cons]
    omega
  · exact Nat.zero_le _

/-- The digits of a number in front of its point. -/
def wholeDigits (s : List Char) : List Char :=
  s.takeWhile fun c => c.isDigit || c == '_'

/-- The length of a number up to its exponent. -/
def mantissaLength (s : List Char) : Nat :=
  (wholeDigits s).length + ((fractionAt (s.drop (wholeDigits s).length)).2 +
    (fractionAt (s.drop (wholeDigits s).length)).1.length)

theorem decimalAt_eq (s : List Char) :
    decimalAt s =
      (Number.ofDecimal false ⟨Number.digitsValue ((wholeDigits s).filter (· != '_') ++
          (fractionAt (s.drop (wholeDigits s).length)).1),
        (exponentAt (s.drop (mantissaLength s))).1
        - (fractionAt (s.drop (wholeDigits s).length)).1.length⟩,
      mantissaLength s + (exponentAt (s.drop (mantissaLength s))).2) := by
  have hdrop : s.drop (mantissaLength s) = (s.drop (wholeDigits s).length).drop
      ((fractionAt (s.drop (wholeDigits s).length)).2 +
        (fractionAt (s.drop (wholeDigits s).length)).1.length) := by
    rw [List.drop_drop, mantissaLength]
  rw [hdrop, mantissaLength]
  unfold decimalAt
  dsimp only
  generalize hrest : s.drop (wholeDigits s).length = rest
  have hrest' : s.drop (s.takeWhile fun c => c.isDigit || c == '_').length = rest := hrest
  rw [hrest']
  unfold fractionAt
  split <;> simp only [Nat.add_assoc] <;> rfl

theorem decimalAt_of_front (h : t <+: s) (hlen : (decimalAt s).2 ≤ t.length) :
    decimalAt t = decimalAt s := by
  -- part after part, each is found again where the parts in front of it end
  rw [decimalAt_eq s] at hlen ⊢
  rw [decimalAt_eq t]
  dsimp only at hlen
  obtain ⟨r, rfl⟩ := h
  have hmantissa : mantissaLength (t ++ r) ≤ t.length := by omega
  have hwhole : wholeDigits t = wholeDigits (t ++ r) :=
    takeWhile_of_front (List.prefix_append t r) (Nat.le_trans (Nat.le_add_right _ _) hmantissa)
  have hdrop : ∀ {n}, n ≤ t.length → t.drop n <+: (t ++ r).drop n := fun hn =>
    (List.drop_append_of_le_length hn).symm ▸ List.prefix_append _ _
  have hfraction : fractionAt (t.drop (wholeDigits t).length) =
      fractionAt ((t ++ r).drop (wholeDigits (t ++ r)).length) := by
    rw [hwhole]
    unfold mantissaLength at hmantissa
    refine fractionAt_of_front (hdrop (by omega)) ?_
    rw [List.length_drop]
    omega
  have hsame : mantissaLength t = mantissaLength (t ++ r) := by
    rw [mantissaLength, hfraction, hwhole, mantissaLength]
  have hexponent : exponentAt (t.drop (mantissaLength t)) =
    exponentAt ((t ++ r).drop (mantissaLength (t ++ r))) := by
    rw [hsame]
    refine exponentAt_of_front (hdrop hmantissa) ?_
    rw [List.length_drop]
    omega
  rw [hfraction, hexponent, hwhole, hsame]

theorem length_decimalAt_le (s : List Char) : (decimalAt s).2 ≤ s.length := by
  have hwhole : (wholeDigits s).length ≤ s.length := (List.takeWhile_prefix _).length_le
  have hfraction := length_fractionAt_le (s.drop (wholeDigits s).length)
  have hexponent := length_exponentAt_le (s.drop (mantissaLength s))
  have hmantissa : mantissaLength s ≤ s.length := by
    rw [mantissaLength]
    rw [List.length_drop] at hfraction
    omega
  rw [decimalAt_eq]
  rw [List.length_drop] at hexponent
  dsimp only
  omega

/-! ### Readers of one token -/

/-- A text that is cut off at or behind its first `n` characters, and not inside of a number that
follows them. -/
structure Cuts (n : Nat) (s t : List Char) : Prop where
  front : t <+: s
  length : n ≤ t.length
  number : t.drop n ≠ [] → startsNumber (t.drop n) = startsNumber (s.drop n)

/-- A reader takes `n` characters for a token, and does the same if the text is cut off behind them.
-/
structure Takes (read : Cursor → Except Problem (Token × Cursor)) (c : Cursor) (token : Token)
    (n : Nat) : Prop where
  length : n ≤ c.rest.length
  cut : ∀ d : Cursor, Cuts n c.rest d.rest → read d = .ok (token, d.move n)

variable {c after : Cursor} {token : Token}

theorem readNumber_decimal (h : ∀ x tail, c.rest = '0' :: x :: tail →
    (x == 'x' || x == 'X') = false) :
    readNumber c = .ok (.number (decimalAt c.rest).1, c.move (decimalAt c.rest).2) := by
  unfold readNumber
  split
  · next x tail hrest =>
    rw [if_neg (Bool.eq_false_iff.1 (h x tail hrest))]
  · rfl

theorem readNumber_hexadecimal {x : Char} {tail : List Char} (hrest : c.rest = '0' :: x :: tail)
    (hx : (x == 'x' || x == 'X') = true) :
    readNumber c =
      if (tail.takeWhile isHexDigit).isEmpty ||
        Number.twoTo 64 ≤ radixValue 16 (tail.takeWhile isHexDigit) then
        .error ⟨.invalidHexadecimal, c.offset,
          (c.move (2 + (tail.takeWhile isHexDigit).length)).offset, none, none⟩
      else .ok (.number (Number.ofNat (radixValue 16 (tail.takeWhile isHexDigit))),
        c.move (2 + (tail.takeWhile isHexDigit).length)) := by
  unfold readNumber
  rw [hrest]
  simp only [hx, if_true]

theorem startsNumber_cons (x : Char) (r : List Char) :
    startsNumber (x :: r) = if x = '.' then r.head?.any Char.isDigit else x.isDigit := by
  split
  · next hx =>
    subst hx
    cases r with
    | nil => rfl
    | cons y r => rfl
  · next hx =>
    unfold startsNumber
    split
    · next heq => exact absurd (List.cons.inj heq).1 hx
    · next heq => rw [(List.cons.inj heq).1]
    · next heq => exact nomatch heq

theorem startsNumber_of_front (h : t <+: s) (ht : startsNumber t = true) :
    startsNumber s = true := by
  obtain ⟨r, rfl⟩ := h
  cases t with
  | nil => exact nomatch ht
  | cons x tail =>
    rw [startsNumber_cons] at ht
    rw [List.cons_append, startsNumber_cons]
    split
    · next hx =>
      rw [if_pos hx] at ht
      cases tail with
      | nil => exact nomatch ht
      | cons y tail => exact ht
    · next hx => rwa [if_neg hx] at ht

/-- Whether a text starts with a number is seen in its first `n` characters. -/
def DecidesNumber (n : Nat) (s : List Char) : Prop :=
  ∀ t, t <+: s → n ≤ t.length → startsNumber t = startsNumber s

theorem decidesNumber_of_false (h : startsNumber s = false) (n : Nat) : DecidesNumber n s := by
  intro t ht _
  rw [h]
  exact Bool.eq_false_iff.2 fun hnumber => Bool.eq_false_iff.1 h (startsNumber_of_front ht hnumber)

/-- A number is seen at its first digit. -/
theorem decidesNumber_of_true {n : Nat} (h : startsNumber s = true)
    (hn : 2 ≤ n ∨ 0 < n ∧ s.head? ≠ some '.') :
    DecidesNumber n s := by
  rintro t ⟨r, rfl⟩ hlen
  rw [h]
  -- with a dot in front, the second character decides whether a number starts here
  cases t with
  | nil => exact absurd hlen (by rw [List.length_nil]; omega)
  | cons x tail =>
    rw [List.cons_append, startsNumber_cons] at h
    rw [startsNumber_cons]
    split
    · next hx =>
      rw [if_pos hx] at h
      cases tail with
      | nil =>
        rcases hn with hn | ⟨-, hhead⟩
        · exact absurd hlen (by rw [List.length_singleton]; omega)
        · exact absurd (congrArg some hx) hhead
      | cons y tail => exact h
    · next hx => rwa [if_neg hx] at h

theorem length_decimalAt_point {r : List Char} (h : startsNumber ('.' :: r) = true) :
    2 ≤ (decimalAt ('.' :: r)).2 := by
  rw [startsNumber_cons, if_pos rfl] at h
  have hwhole : wholeDigits ('.' :: r) = [] := rfl
  have hdigits : 0 < (r.takeWhile Char.isDigit).length := by
    cases r with
    | nil => exact nomatch h
    | cons y tail =>
      have hy : y.isDigit = true := h
      rw [List.takeWhile_cons_of_pos hy]
      exact Nat.succ_pos _
  have hmantissa : mantissaLength ('.' :: r) = 1 + (r.takeWhile Char.isDigit).length := by
    rw [mantissaLength, hwhole, List.length_nil, List.drop_zero, Nat.zero_add, fractionAt]
  rw [decimalAt_eq]
  dsimp only
  omega

theorem decidesNumber_decimalAt (h : startsNumber s = true) : DecidesNumber (decimalAt s).2 s := by
  refine decidesNumber_of_true h ?_
  cases s with
  | nil => exact nomatch h
  | cons x r =>
    by_cases hx : x = '.'
    · subst hx
      exact .inl (length_decimalAt_point h)
    · exact .inr ⟨length_decimalAt_pos h, fun heq => hx (Option.some.inj heq)⟩

theorem takes_hexadecimal {x : Char} {tail : List Char} (hrest : c.rest = '0' :: x :: tail)
    (hx : (x == 'x' || x == 'X') = true) (h : readNumber c = .ok (token, after)) :
    ∃ n, 2 ≤ n ∧ after = c.move n ∧ Takes readNumber c token n := by
  rw [readNumber_hexadecimal hrest hx] at h
  split at h
  · exact nomatch h
  · next hvalid =>
    obtain ⟨rfl, rfl⟩ := Prod.mk.inj (Except.ok.inj h)
    have hdigits := (List.takeWhile_prefix (l := tail) isHexDigit).length_le
    refine ⟨_, Nat.le_add_right 2 _, rfl, ?_, fun d hd => ?_⟩
    · rw [hrest, List.length_cons, List.length_cons]
      omega
    · have hlength := hd.length
      -- the prefix is in what was read, and so are all its digits
      match hd' : d.rest with
      | [] => exact absurd hlength (by rw [hd', List.length_nil]; omega)
      | [y] => exact absurd hlength (by rw [hd', List.length_singleton]; omega)
      | y :: y' :: tail' =>
        have hfront := hd.front
        rw [hd', hrest, List.cons_prefix_cons, List.cons_prefix_cons] at hfront
        obtain ⟨rfl, rfl, hfront⟩ := hfront
        rw [hd', List.length_cons, List.length_cons] at hlength
        have hsame : tail'.takeWhile isHexDigit = tail.takeWhile isHexDigit :=
          takeWhile_of_front hfront (by omega)
        rw [readNumber_hexadecimal hd' hx, hsame, if_neg hvalid]

theorem takes_decimal (h : ∀ x tail, c.rest = '0' :: x :: tail → (x == 'x' || x == 'X') = false) :
    Takes readNumber c (.number (decimalAt c.rest).1) (decimalAt c.rest).2 := by
  refine ⟨length_decimalAt_le _, fun d hd => ?_⟩
  have h' : ∀ x tail, d.rest = '0' :: x :: tail → (x == 'x' || x == 'X') = false := by
    intro x tail hrest
    obtain ⟨r, hr⟩ := hd.front
    exact h x (tail ++ r) (by rw [← hr, hrest]; rfl)
  rw [readNumber_decimal h', decimalAt_of_front hd.front hd.length]

theorem takes_readNumber (hstarts : startsNumber c.rest = true)
    (h : readNumber c = .ok (token, after)) :
    ∃ n, after = c.move n ∧ Takes readNumber c token n ∧ DecidesNumber n c.rest := by
  by_cases hhex : ∃ x tail, c.rest = '0' :: x :: tail ∧ (x == 'x' || x == 'X') = true
  · obtain ⟨x, tail, hrest, hx⟩ := hhex
    obtain ⟨n, hn, hafter, htakes⟩ := takes_hexadecimal hrest hx h
    exact ⟨n, hafter, htakes, decidesNumber_of_true hstarts (.inl hn)⟩
  · have hdecimal : ∀ x tail, c.rest = '0' :: x :: tail → (x == 'x' || x == 'X') = false :=
      fun x tail hrest => Bool.eq_false_iff.2 fun hx => hhex ⟨x, tail, hrest, hx⟩
    rw [readNumber_decimal hdecimal] at h
    obtain ⟨rfl, rfl⟩ := Prod.mk.inj (Except.ok.inj h)
    exact ⟨_, rfl, takes_decimal hdecimal, decidesNumber_decimalAt hstarts⟩

/-- The characters that are taken for the rest of a string decide what it holds, whatever stands
behind them and wherever the string stands. -/
def Holds (quote : Char) (s : List Char) (length : Nat) (held x : List Char) (n : Nat) : Prop :=
  ∃ w r, s = w ++ r ∧ n = length + w.length ∧
    ∀ start offset r', readStringBody quote start (w ++ r') offset length held = .ok (x, n)

theorem Holds.cons {quote : Char} {u tail held held' x : List Char} {length n : Nat}
    (h : Holds quote tail (length + u.length) held' x n)
    (hstep : ∀ start offset s, ∃ offset', readStringBody quote start (u ++ s) offset length held =
      readStringBody quote start s offset' (length + u.length) held') :
    Holds quote (u ++ tail) length held x n := by
  obtain ⟨w, r, rfl, hn, hread⟩ := h
  refine ⟨u ++ w, r, (List.append_assoc _ _ _).symm, ?_, fun start offset r' => ?_⟩
  · rw [hn, List.length_append, Nat.add_assoc]
  · obtain ⟨offset', heq⟩ := hstep start offset (w ++ r')
    rw [List.append_assoc, heq, hread]

/-- An escape that has to be neither `x` nor `u`. -/
theorem readStringBody_escape {quote y z : Char} {start offset length : Nat} {held : List Char}
    (hquote : ¬(y == quote) = true) (hplain : ¬(y != '\\') = true)
    (hz : ¬(z == 'x' || z == 'u') = true) :
    readStringBody quote start (y :: z :: s) offset length held =
      if z == '\n' then readStringBody quote start s (offset + y.utf8Size + 1) (length + 2) held
      else readStringBody quote start s (offset + y.utf8Size + z.utf8Size) (length + 2)
        (escapedChar z :: held) := by
  rw [readStringBody, if_neg hquote, if_neg hplain, if_neg hz]
  · rintro _ _ _ rfl
    exact absurd rfl hz
  · rintro _ _ _ _ _ rfl
    exact absurd rfl hz

theorem holds_of_readStringBody {quote : Char} {start offset length n : Nat} {held x : List Char}
    (h : readStringBody quote start s offset length held = .ok (x, n)) :
    Holds quote s length held x n := by
  -- the induction is on the reading of the body; each case takes some characters from the front,
  -- and reads on alike whatever follows them
  fun_induction readStringBody quote start s offset length held with
  | case2 y rest offset length held hquote =>
    obtain ⟨rfl, rfl⟩ := Prod.mk.inj (Except.ok.inj h)
    refine ⟨[y], rest, rfl, rfl, fun start offset r' => ?_⟩
    rw [List.singleton_append, readStringBody.eq_def]
    exact if_pos hquote
  | case3 y rest offset length held _ hquote hplain ih =>
    refine (ih h).cons (u := [y]) fun start offset s => ⟨offset + y.utf8Size, ?_⟩
    rw [List.singleton_append, readStringBody.eq_def]
    simp only [hquote, hplain, Bool.false_eq_true, if_false, if_true]
    rfl
  | case5 y offset length held _ hquote hplain a b tail hdigits z hz ih =>
    -- an escape of two hexadecimal digits
    refine (ih h).cons (u := [y, 'x', a, b]) fun start offset s => ⟨offset + y.utf8Size + 3, ?_⟩
    simp only [List.cons_append, List.nil_append]
    rw [readStringBody, if_neg hquote, if_neg hplain, if_pos hdigits, hz]
    rfl
  | case8 y offset length held _ hquote hplain a b d e tail hdigits z hz ih =>
    -- an escape of four
    refine (ih h).cons (u := [y, 'u', a, b, d, e]) fun start offset s =>
      ⟨offset + y.utf8Size + 5, ?_⟩
    simp only [List.cons_append, List.nil_append]
    rw [readStringBody, if_neg hquote, if_neg hplain, if_pos hdigits, hz]
    rfl
  | case12 y offset length held _ hquote hplain z tail _ _ hz hbreak ih =>
    -- a line break that is escaped leaves nothing behind
    refine (ih h).cons (u := [y, z]) fun start offset s => ⟨offset + y.utf8Size + 1, ?_⟩
    simp only [List.cons_append, List.nil_append]
    rw [readStringBody_escape hquote hplain hz, if_pos hbreak]
    rfl
  | case13 y offset length held _ hquote hplain z tail _ _ hz hbreak ih =>
    refine (ih h).cons (u := [y, z]) fun start offset s => ⟨offset + y.utf8Size + z.utf8Size, ?_⟩
    simp only [List.cons_append, List.nil_append]
    rw [readStringBody_escape hquote hplain hz, if_neg hbreak]
    rfl
  | _ => cases h

/-! ### Marks -/

/-- A mark stands at the front of a text and may be read there. -/
def fits (s : List Char) (p : Punct) : Bool :=
  p.text.toList.isPrefixOf s && !(p == .questionDot && ((s.drop 2).head?.any Char.isDigit))

theorem fits_eq_true {p : Punct} :
    fits s p = true ↔ p.text.toList <+: s ∧
    (p = .questionDot → (s.drop 2).head?.any Char.isDigit = false) := by
  unfold fits
  rw [Bool.and_eq_true, List.isPrefixOf_iff_prefix, Bool.not_eq_true', Bool.and_eq_false_imp]
  simp only [beq_iff_eq]

/-- The marks of at most two characters that stand where `?.` does. -/
theorem eq_question_of_front {p : Punct} {d : Char} {r : List Char}
    (h : p.text.toList <+: '?' :: '.' :: d :: r)
    (hlen : p.text.length ≤ 2) : p = .question ∨ p = .questionDot := by
  have hspells : ∀ p : Punct, p.text.toList = ['?'] ∨ p.text.toList = ['?', '.'] → p = .question ∨
    p = .questionDot := by
    intro p
    cases p <;> decide +kernel
  have hpos := Punct.length_text_pos p
  have htake := List.prefix_iff_eq_take.1 h
  rw [String.length_toList] at htake
  refine hspells p ?_
  rcases (by omega : p.text.length = 1 ∨ p.text.length = 2) with hlen | hlen
  · rw [hlen] at htake
    exact .inl htake
  · rw [hlen] at htake
    exact .inr htake

/-- A mark is read again if the text is cut off behind it. -/
theorem punctAt?_of_cuts {p : Punct} (h : punctAt? s = some p) (ht : Cuts p.text.length s t) :
    punctAt? t = some p := by
  obtain ⟨hp, front, back, hall, hfront⟩ := List.find?_eq_some_iff_append.1 h
  obtain ⟨hpfront, hpdigit⟩ := fits_eq_true.1 hp
  refine List.find?_eq_some_iff_append.2 ⟨fits_eq_true.2 ⟨?_, fun heq => ?_⟩, front, back, hall,
    fun a ha => ?_⟩
  · refine List.prefix_of_prefix_length_le hpfront ht.front ?_
    rw [String.length_toList]
    exact ht.length
  · obtain ⟨r, hr⟩ := ht.front
    have hlen : 2 ≤ t.length := by
      have hlength := ht.length
      rwa [heq] at hlength
    have hdigit := hpdigit heq
    rw [← hr, List.drop_append_of_le_length hlen] at hdigit
    cases hdrop : t.drop 2 with
    | nil => rfl
    | cons x tail => rwa [hdrop] at hdigit
  · refine (Bool.not_eq_true' _).mpr (Bool.eq_false_iff.2 fun hfits => ?_)
    obtain ⟨hafront, hadigit⟩ := fits_eq_true.1 hfits
    have hnot : fits s a = false := (Bool.not_eq_true' _).mp (hfront a ha)
    -- a mark that is tried before would have been read, but for `?.` in front of a digit
    obtain ⟨rfl, hdigit⟩ : a = .questionDot ∧ (s.drop 2).head?.any Char.isDigit = true := by
      refine Decidable.byContradiction fun hcontra => Bool.eq_false_iff.1 hnot
        (fits_eq_true.2 ⟨hafront.trans ht.front, fun heq => ?_⟩)
      exact Bool.eq_false_iff.2 fun hdigit => hcontra ⟨heq, hdigit⟩
    obtain ⟨u, rfl⟩ : ['?', '.'] <+: t := hafront
    obtain ⟨r, rfl⟩ := ht.front
    have hnil : u = [] := by
      cases u with
      | nil => rfl
      | cons x tail => exact absurd (hdigit.symm.trans (hadigit rfl)) nofun
    subst hnil
    cases r with
    | nil => exact nomatch hdigit
    | cons d r =>
      rcases eq_question_of_front hpfront ht.length with rfl | rfl
      · have hnumber : false = d.isDigit := ht.number (List.cons_ne_nil _ _)
        exact nomatch hnumber.trans hdigit
      · exact nomatch hdigit.symm.trans (hpdigit rfl)

/-! ### Tokens -/

theorem takes_readString {quote : Char} (h : readString quote c = .ok (token, after)) :
    ∃ n, after = c.move n ∧ Takes (readString quote) c token n := by
  unfold readString at h
  split at h
  · next held length hbody =>
    obtain ⟨rfl, rfl⟩ := Prod.mk.inj (Except.ok.inj h)
    obtain ⟨w, r, hrest, hlength, hread⟩ := holds_of_readStringBody hbody
    rw [Nat.zero_add] at hlength
    have hpos : 0 < w.length := List.length_pos_iff.2 fun hnil => by
      have hempty := hread 0 0 []
      rw [hnil] at hempty
      exact nomatch hempty
    have hlen : length + 1 ≤ c.rest.length := by
      have hdrop := congrArg List.length hrest
      rw [Cursor.rest_step, List.length_drop, List.length_append] at hdrop
      omega
    refine ⟨length + 1, rfl, hlen, fun d hd => ?_⟩
    obtain ⟨u, hu⟩ := hd.front
    have hd1 : 1 ≤ d.rest.length := Nat.le_trans (Nat.le_add_left 1 length) hd.length
    -- the body is in what is left of the text
    have hfront : w <+: d.step.rest := by
      rw [Cursor.rest_step, ← hu, List.drop_append_of_le_length hd1] at hrest
      rw [Cursor.rest_step]
      refine List.prefix_of_prefix_length_le ⟨r, hrest.symm⟩ (List.prefix_append _ u) ?_
      have hlength := hd.length
      rw [List.length_drop]
      omega
    obtain ⟨r', hr'⟩ := hfront
    unfold readString
    rw [← hr', hread]
    rfl
  · exact nomatch h

/-- What is taken for a token does not depend on what stands behind it, as long as no number is cut
off. -/
theorem takes_readToken {x : Char} (h : readToken x c = .ok (token, after)) :
    -- numbers are the tokens whose start is decided by two characters
    ∃ n, after = c.move n ∧ Takes (readToken x) c token n ∧ DecidesNumber n c.rest := by
  by_cases hnumber : startsNumber c.rest = true
  · rw [readToken, if_pos hnumber] at h
    obtain ⟨n, hn, htakes, hdecides⟩ := takes_readNumber hnumber h
    refine ⟨n, hn, ⟨htakes.length, fun d hd => ?_⟩, hdecides⟩
    rw [readToken, if_pos ((hdecides d.rest hd.front hd.length).trans hnumber)]
    exact htakes.cut d hd
  · have hdecides : ∀ n, DecidesNumber n c.rest :=
      decidesNumber_of_false (Bool.eq_false_iff.2 hnumber)
    -- what is no number does not become one when it is cut
    have hcut : ∀ d : Cursor, d.rest <+: c.rest → ¬startsNumber d.rest = true :=
      fun d hd hnumber' =>
      hnumber (startsNumber_of_front hd hnumber')
    rw [readToken, if_neg hnumber] at h
    split at h
    · next hquote =>
      obtain ⟨n, hn, htakes⟩ := takes_readString h
      refine ⟨n, hn, ⟨htakes.length, fun d hd => ?_⟩, hdecides n⟩
      rw [readToken, if_neg (hcut d hd.front), if_pos hquote]
      exact htakes.cut d hd
    · next hquote =>
      split at h
      · next hname =>
        obtain ⟨rfl, rfl⟩ := Prod.mk.inj (Except.ok.inj h)
        refine ⟨_, rfl, ⟨(List.takeWhile_prefix _).length_le, fun d hd => ?_⟩, hdecides _⟩
        rw [readToken, if_neg (hcut d hd.front), if_neg hquote, if_pos hname, Cursor.moveWhile,
          takeWhile_of_front hd.front hd.length]
      · next hname =>
        split at h
        · next p hp =>
          obtain ⟨rfl, rfl⟩ := Prod.mk.inj (Except.ok.inj h)
          refine ⟨_, rfl, ⟨?_, fun d hd => ?_⟩, hdecides _⟩
          · have hfront := (fits_eq_true.1 (List.find?_some hp)).1.length_le
            rwa [String.length_toList] at hfront
          · rw [readToken, if_neg (hcut d hd.front), if_neg hquote, if_neg hname,
              punctAt?_of_cuts hp hd]
        · exact nomatch h

/-! ### The next token -/

theorem takeWhile_drop_takeWhile (p : Char → Bool) (s : List Char) :
    (s.drop (s.takeWhile p).length).takeWhile p = [] := by
  induction s with
  | nil => rfl
  | cons x s ih =>
    by_cases hx : p x = true
    · rw [List.takeWhile_cons_of_pos hx, List.length_cons, List.drop_succ_cons, ih]
    · rw [List.takeWhile_cons_of_neg hx, List.length_nil, List.drop_zero,
        List.takeWhile_cons_of_neg hx]

theorem next?_skipBlank (c : Cursor) : next? c.skipBlank = next? c := by
  have hskip : c.skipBlank.skipBlank = c.skipBlank := by
    have hnone : c.skipBlank.rest.takeWhile Text.isBlank = [] := by
      rw [Cursor.skipBlank, Cursor.moveWhile, Cursor.rest_move, takeWhile_drop_takeWhile]
    have hstay : c.skipBlank.skipBlank =
      c.skipBlank.move (c.skipBlank.rest.takeWhile Text.isBlank).length := rfl
    rw [hstay, hnone]
    rfl
  rw [next?, hskip]
  rfl

theorem next?_eq_ok_some {l : Lexeme} :
    next? c = .ok (some l, after) ↔
      ∃ x rest token, c.skipBlank.rest = x :: rest ∧ readToken x c.skipBlank = .ok (token, after) ∧
        l = ⟨token, c.skipBlank.offset, after.offset⟩ := by
  constructor
  · intro h
    unfold next? at h
    dsimp only at h
    split at h
    · exact nomatch (Prod.mk.inj (Except.ok.inj h)).1
    · next x rest hrest =>
      split at h
      · next token after' hread =>
        obtain ⟨hl, rfl⟩ := Prod.mk.inj (Except.ok.inj h)
        exact ⟨x, rest, token, hrest, hread, (Option.some.inj hl).symm⟩
      · exact nomatch h
  · rintro ⟨x, rest, token, hrest, hread, rfl⟩
    unfold next?
    dsimp only
    rw [hrest]
    dsimp only
    rw [hread]

theorem next?_eq_ok_none : next? c = .ok (none, after) ↔ c.skipBlank.rest =
    [] ∧ after = c.skipBlank := by
  unfold next?
  dsimp only
  split
  · next hrest =>
    refine ⟨fun h => ⟨hrest, (Prod.mk.inj (Except.ok.inj h)).2.symm⟩, ?_⟩
    rintro ⟨-, rfl⟩
    rfl
  · next x rest hrest =>
    refine ⟨fun h => ?_, fun h => nomatch hrest.symm.trans h.1⟩
    split at h
    · exact nomatch (Prod.mk.inj (Except.ok.inj h)).1
    · exact nomatch h

theorem start_of_next? {l : Lexeme} (h : next? c = .ok (some l, after)) :
    l.start = c.skipBlank.offset := by
  obtain ⟨x, rest, token, -, -, rfl⟩ := next?_eq_ok_some.1 h
  rfl

/-- White space starts no number. -/
theorem DecidesNumber.behindBlank {n : Nat}
    (h : DecidesNumber n (s.drop (s.takeWhile Text.isBlank).length))
    (hn : 0 < n) : DecidesNumber ((s.takeWhile Text.isBlank).length + n) s := by
  cases s with
  | nil =>
    intro t ht _
    rw [List.prefix_nil.1 ht]
  | cons x s =>
    by_cases hx : Text.isBlank x = true
    · intro t ht hlen
      have hpoint : x ≠ '.' := fun heq => absurd (heq ▸ hx) (by decide)
      cases t with
      | nil => exact absurd hlen (by rw [List.length_nil]; omega)
      | cons y t =>
        obtain ⟨rfl, -⟩ := List.cons_prefix_cons.1 ht
        rw [startsNumber_cons, startsNumber_cons, if_neg hpoint, if_neg hpoint]
    · rw [List.takeWhile_cons_of_neg hx, List.length_nil, List.drop_zero] at h
      rwa [List.takeWhile_cons_of_neg hx, List.length_nil, Nat.zero_add]

theorem Cuts.drop {m n : Nat} (h : Cuts (m + n) s t) : Cuts n (s.drop m) (t.drop m) := by
  have hlength := h.length
  refine ⟨?_, ?_, fun hne => ?_⟩
  · obtain ⟨r, rfl⟩ := h.front
    rw [List.drop_append_of_le_length (by omega)]
    exact List.prefix_append _ r
  · rw [List.length_drop]
    omega
  · rw [List.drop_drop] at hne ⊢
    rw [List.drop_drop]
    exact h.number hne

/-- The token with its offsets changed. -/
def relocate (f : Nat → Nat) (l : Lexeme) : Lexeme :=
  ⟨l.token, f l.start, f l.stop⟩

@[simp] theorem start_relocate (f : Nat → Nat) (l : Lexeme) : (l.relocate f).start = f l.start :=
  rfl

@[simp] theorem stop_relocate (f : Nat → Nat) (l : Lexeme) : (l.relocate f).stop = f l.stop :=
  rfl

/-- The next token ends behind `n` characters, and it is the next one in a piece of the text that
reaches behind it as well, at offsets that count from the start of the piece. -/
structure Reaches (c : Cursor) (l : Lexeme) (n : Nat) : Prop where
  pos : 0 < n
  length : n ≤ c.rest.length
  decides : DecidesNumber n c.rest
  again : ∀ k d, d.Copies k c → Cuts n c.rest d.rest →
    ∃ l', next? d = .ok (some l', d.move n) ∧ l'.relocate (· + k) = l

/-- A token that is read from a piece of a text behind white space. -/
theorem Takes.again {x : Char} {rest : List Char} {k b n : Nat} {d : Cursor}
    (h : Takes (readToken x) (c.move b) token n) (hb : b = (c.rest.takeWhile Text.isBlank).length)
    (hrest : (c.move b).rest = x :: rest) (hn : 0 < n) (hcopies : d.Copies k c)
    (hcuts : Cuts (b + n) c.rest d.rest) :
    ∃ l', next? d = .ok (some l', d.move (b + n)) ∧
      l'.relocate (· + k) = ⟨token, (c.move b).offset, (c.move (b + n)).offset⟩ := by
  have hlength := hcuts.length
  -- the white space in front is all in what was read, and the token behind it
  have hskip : d.skipBlank = d.move b := by
    rw [Cursor.skipBlank, Cursor.moveWhile, takeWhile_of_front hcuts.front (by omega), ← hb]
  have hcuts' : Cuts n (c.move b).rest (d.move b).rest := by
    rw [Cursor.rest_move, Cursor.rest_move]
    exact hcuts.drop
  obtain ⟨rest', hrest'⟩ : ∃ rest', (d.move b).rest = x :: rest' := by
    obtain ⟨r, hr⟩ := hcuts'.front
    cases hd : (d.move b).rest with
    | nil => exact absurd hcuts'.length (by rw [hd, List.length_nil]; omega)
    | cons y s =>
      rw [hd, hrest] at hr
      exact ⟨s, by rw [(List.cons.inj hr).1]⟩
  -- both places are moved by the same distance
  have hstart : (c.move b).offset = (d.move b).offset + k := (hcopies.move (by omega)).offset
  have hstop : (c.move (b + n)).offset = (d.move (b + n)).offset + k :=
    (hcopies.move hlength).offset
  have hread := h.cut (d.move b) hcuts'
  rw [Cursor.move_move] at hread
  refine ⟨⟨token, (d.move b).offset, (d.move (b + n)).offset⟩, ?_, ?_⟩
  · exact next?_eq_ok_some.2 ⟨x, rest', token, hskip.symm ▸ hrest', hskip.symm ▸ hread,
      hskip.symm ▸ rfl⟩
  · rw [relocate, hstart, hstop]

theorem next?_reaches {l : Lexeme} (h : next? c = .ok (some l, after)) :
    ∃ n, after = c.move n ∧ Reaches c l n := by
  obtain ⟨x, rest, token, hrest, hread, rfl⟩ := next?_eq_ok_some.1 h
  obtain ⟨n, rfl, htakes, hdecides⟩ := takes_readToken hread
  obtain ⟨b, hb⟩ : ∃ b, b = (c.rest.takeWhile Text.isBlank).length := ⟨_, rfl⟩
  have hskip : c.skipBlank = c.move b := hb ▸ rfl
  rw [hskip] at hrest hread htakes hdecides ⊢
  -- no token is empty, so a reader that moves does not stay where it is
  have hpos : 0 < n := by
    obtain ⟨m, hm, heq⟩ := readToken_eq_ok hrest hread
    refine Nat.pos_of_ne_zero fun hn => ?_
    have hlt := Cursor.offset_lt_move (c := c.move b) (hrest ▸ List.cons_ne_nil x rest) hm
    rw [← heq, hn] at hlt
    exact Nat.lt_irrefl _ hlt
  have hlength : b + n ≤ c.rest.length := by
    have hle := htakes.length
    rw [Cursor.rest_move, List.length_drop] at hle
    omega
  rw [Cursor.move_move]
  refine ⟨b + n, rfl, Nat.add_pos_right b hpos, hlength, ?_, fun k d hcopies hcuts => ?_⟩
  · rw [Cursor.rest_move, hb] at hdecides
    exact hb ▸ hdecides.behindBlank hpos
  · exact htakes.again hb hrest hpos hcopies hcuts

end Lexeme

end PromptMarkup

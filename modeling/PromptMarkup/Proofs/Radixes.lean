/-
Numbers behind the prefix of a base.

* `Number.IsNumeral`, `Number.SpellsInt` — digits of a base, at least one, and the integer that they
  spell with a sign or without one;
* `Number.wholeIn?_eq_some` — what a text behind a prefix is read as: such an integer, if it fits
  into a word with a sign;
* `Lexeme.next?_hexadecimal` — a literal in base sixteen, and its number;
* `Value.toNumber_radix` — where the number of a text is the one that its digits spell, and the one
  of the literal with the same text.

Design notes: texts and literals have readers of their own.  The reader of texts takes a sign behind
the prefix, and its integers have 63 bits beside the sign; the reader of literals takes no sign, and
64 bits.  So the two agree on digits without a sign below `2 ^ 63`, and a text with more is not a
number although the literal is.
-/
import PromptMarkup.Proofs.Rounding
import PromptMarkup.Proofs.Spelling
import PromptMarkup.Value.Coercion

namespace PromptMarkup

open Text (Cursor)

/-- Nothing is taken off the ends of a text without blanks. -/
theorem Text.trim_eq_self {s : List Char} (h : ∀ c ∈ s, isBlank c = false) : trim s = s := by
  have hdrop : ∀ u : List Char, (∀ c ∈ u, isBlank c = false) → u.dropWhile isBlank = u := by
    intro u hu
    cases u with
    | nil => rfl
    | cons x u => exact List.dropWhile_cons_of_neg (Bool.eq_false_iff.1 (hu x List.mem_cons_self))
  rw [trim, trimStart, hdrop s h, trimEnd, hdrop s.reverse fun c hc => h c (List.mem_reverse.1 hc),
    List.reverse_reverse]

namespace Number

/-! ### Numerals -/

/-- The letters that announce a base behind a zero. -/
def radixLetters : List (Char × Nat) :=
  [('x', 16), ('X', 16), ('b', 2), ('B', 2), ('o', 8), ('O', 8)]

/-- Digits of a base, at least one, and nothing else. -/
structure IsNumeral (base : Nat) (ds : List Char) : Prop where
  ne_nil : ds ≠ []
  digits : ∀ c ∈ ds, isDigitIn base c = true

/-- No sign stands in front of the text. -/
def Unsigned (s : List Char) : Prop :=
  ∀ c ∈ s.head?, c ≠ '-' ∧ c ≠ '+'

/-- A text is a numeral, or a sign and a numeral, and spells an integer by it. -/
inductive SpellsInt (base : Nat) : List Char → Int → Prop
  | plain {ds : List Char} (h : IsNumeral base ds) : SpellsInt base ds (radixValue base ds)
  | plus {ds : List Char} (h : IsNumeral base ds) : SpellsInt base ('+' :: ds) (radixValue base ds)
  | minus {ds : List Char} (h : IsNumeral base ds) :
    SpellsInt base ('-' :: ds) (-radixValue base ds)

/-- The integer fits into a word with a sign. -/
def InWord (n : Int) : Prop :=
  -2 ^ 63 ≤ n ∧ n < 2 ^ 63

variable {base : Nat} {s ds : List Char} {n : Int}

theorem inWord_natCast {k : Nat} : InWord k ↔ k < 2 ^ 63 := by
  rw [InWord]
  omega

theorem InWord.natAbs_lt (h : InWord n) : n.natAbs < 2 ^ 64 := by
  obtain ⟨hlow, hhigh⟩ := h
  omega

theorem isNumeral_iff : IsNumeral base ds ↔ (ds.isEmpty || !ds.all (isDigitIn base)) = false := by
  rw [Bool.or_eq_false_iff, Bool.not_eq_false', List.all_eq_true, List.isEmpty_eq_false_iff]
  exact ⟨fun h => ⟨h.ne_nil, h.digits⟩, fun h => ⟨h.1, h.2⟩⟩

instance : Decidable (IsNumeral base ds) :=
  decidable_of_iff _ isNumeral_iff.symm

theorem IsNumeral.unsigned (h : IsNumeral base ds) : Unsigned ds := by
  intro c hc
  have hdigit := h.digits c (List.mem_of_mem_head? hc)
  constructor <;> rintro rfl <;> exact nomatch hdigit

theorem takeSign_of_unsigned (h : Unsigned s) : takeSign s = (false, s) := by
  unfold takeSign
  split
  · exact absurd rfl (h _ rfl).1
  · exact absurd rfl (h _ rfl).2
  · rfl

/-- The integer that a text spells behind its sign. -/
theorem spellsInt_iff :
    SpellsInt base s n ↔ IsNumeral base (takeSign s).2 ∧
      n = if (takeSign s).1 then -(radixValue base (takeSign s).2 : Int)
      else radixValue base (takeSign s).2 := by
  constructor
  · rintro (h | h | h)
    · rw [takeSign_of_unsigned h.unsigned]
      exact ⟨h, rfl⟩
    · exact ⟨h, rfl⟩
    · exact ⟨h, rfl⟩
  · rintro ⟨h, rfl⟩
    revert h
    unfold takeSign
    split
    · exact .minus
    · exact .plus
    · exact .plain

theorem spellsInt_of_unsigned (h : Unsigned s) :
    SpellsInt base s n ↔ IsNumeral base s ∧ n = radixValue base s := by
  rw [spellsInt_iff, takeSign_of_unsigned h]
  exact Iff.rfl

theorem SpellsInt.unique {m : Int} (h : SpellsInt base s n) (h' : SpellsInt base s m) : n = m :=
  (spellsInt_iff.1 h).2.trans (spellsInt_iff.1 h').2.symm

theorem wholeIn?_eq_some : wholeIn? base s = some n ↔ SpellsInt base s n ∧ InWord n := by
  rw [spellsInt_iff]
  unfold wholeIn?
  obtain ⟨negative, ds⟩ := takeSign s
  have hbound : twoTo 63 = 2 ^ 63 := rfl
  dsimp only
  rw [hbound, InWord]
  by_cases h : IsNumeral base ds
  · rw [isNumeral_iff.1 h, if_neg Bool.false_ne_true]
    cases negative
    · simp only [Bool.false_eq_true, if_false, Option.ite_none_right_eq_some, Option.some.injEq, h,
        true_and]
      omega
    · simp only [if_true, Option.ite_none_right_eq_some, Option.some.injEq, h, true_and]
      omega
  · rw [isNumeral_iff, Bool.not_eq_false] at h
    rw [h, if_pos rfl]
    refine ⟨nofun, fun hspells => ?_⟩
    exact absurd (isNumeral_iff.1 hspells.1.1) (Bool.not_eq_false _ ▸ h)

theorem ofInt_natCast (n : Nat) : ofInt n = ofNat n := by
  rw [ofInt, decide_eq_false (Int.not_lt.2 n.cast_nonneg), Int.natAbs_natCast]
  rfl

theorem isNaN_ofInt (n : Int) : (ofInt n).isNaN = false :=
  isNaN_nearest _ _ _

/-! ### Prefixes and digits -/

theorem takeRadix?_of_mem {x : Char} (hx : (x, base) ∈ radixLetters) (s : List Char) :
    takeRadix? ('0' :: x :: s) = some (base, s) := by
  simp only [radixLetters, List.mem_cons, Prod.mk.injEq, List.not_mem_nil, or_false] at hx
  rcases hx with ⟨rfl, rfl⟩ | ⟨rfl, rfl⟩ | ⟨rfl, rfl⟩ | ⟨rfl, rfl⟩ | ⟨rfl, rfl⟩ | ⟨rfl, rfl⟩ <;> rfl

theorem isDigitIn_sixteen (c : Char) : isDigitIn 16 c = isHexDigit c := by
  rw [isDigitIn, Bool.and_eq_left_iff_imp]
  have hcodes : 'a'.toNat = 97 ∧ 'f'.toNat = 102 ∧ 'A'.toNat = 65 ∧ 'F'.toNat = 70 ∧
    '0'.toNat = 48 ∧
      '9'.toNat = 57 := by
    decide
  simp only [isHexDigit, hexDigitValue, Bool.or_eq_true, Bool.and_eq_true, decide_eq_true_eq,
    Char.isDigit_iff_toNat, Char.le_def, UInt32.le_iff_toNat_le, Char.toNat_val]
  split_ifs <;> omega

end Number

namespace Lexeme

/-- The text of a literal in base sixteen, and its number. -/
theorem next?_hexadecimal {c after : Cursor} {l : Lexeme} {x : Char} {tail : List Char}
    (h : next? c = .ok (some l, after)) (hrest : c.skipBlank.rest = '0' :: x :: tail)
    (hx : (x, 16) ∈ Number.radixLetters) :
    ∃ digits, '0' :: x :: tail = '0' :: x :: digits ++ after.rest ∧ Number.IsNumeral 16 digits ∧
      radixValue 16 digits < 2 ^ 64 ∧ l.token = .number (Number.ofNat (radixValue 16 digits)) := by
  obtain ⟨y, rest, token, hy, hread, rfl⟩ := next?_eq_ok_some.1 h
  obtain ⟨rfl, -⟩ := List.cons.inj (hrest.symm.trans hy)
  have hnumber : startsNumber c.skipBlank.rest = true := by
    rw [hrest]
    rfl
  -- of the radix letters only x and X stand for sixteen
  have hletters : ∀ p ∈ Number.radixLetters, p.2 = 16 → (p.1 == 'x' || p.1 == 'X') = true := by
    decide
  have hletter : (x == 'x' || x == 'X') = true := hletters _ hx rfl
  rw [readToken, if_pos hnumber, readNumber_hexadecimal hrest hletter] at hread
  split at hread
  · cases hread
  -- the digits read are the longest run of hexadecimal ones, refused when empty or too large
  · next hvalid =>
    obtain ⟨rfl, rfl⟩ := Prod.mk.inj (Except.ok.inj hread)
    rw [Bool.or_eq_true, not_or, List.isEmpty_iff, decide_eq_true_eq, Nat.not_le] at hvalid
    refine ⟨tail.takeWhile isHexDigit, ?_, ⟨hvalid.1, fun d hd => ?_⟩, hvalid.2, rfl⟩
    · have hsplit : tail.takeWhile isHexDigit ++ tail.drop (tail.takeWhile isHexDigit).length =
        tail :=
        List.prefix_iff_eq_append.1 (List.takeWhile_prefix _)
      rw [Cursor.rest_move, hrest, Nat.add_comm, List.drop_succ_cons, List.drop_succ_cons,
        List.cons_append, List.cons_append, hsplit]
    · rw [Number.isDigitIn_sixteen]
      exact List.mem_takeWhile_imp hd

end Lexeme

namespace Value

open Number (radixLetters IsNumeral SpellsInt InWord Unsigned Rounds ofInt)

/-! ### Texts as numbers -/

variable {s : String} {x : Char} {base : Nat} {digits : List Char} {n : Int}

section Radix

variable (hx : (x, base) ∈ radixLetters) (hs : Text.trim s.toList = '0' :: x :: digits)

include hx hs

/-- Behind the prefix of a base stands a whole number, or the text is none. -/
theorem toNumber_of_radix : (string s).toNumber =
    ((Number.wholeIn? base digits).map ofInt).getD Number.nan := by
  show Number.ofText s = _
  unfold Number.ofText
  rw [hs]
  dsimp only
  rw [Number.takeRadix?_of_mem hx]
  rfl

theorem toNumber_of_spells (hn : SpellsInt base digits n) (hword : InWord n) :
    (string s).toNumber = ofInt n := by
  rw [toNumber_of_radix hx hs, Number.wholeIn?_eq_some.2 ⟨hn, hword⟩]
  rfl

theorem isNaN_toNumber_of_radix :
    (string s).toNumber.isNaN = false ↔ ∃ n, SpellsInt base digits n ∧ InWord n := by
  constructor
  · intro h
    rw [toNumber_of_radix hx hs] at h
    cases hwhole : Number.wholeIn? base digits with
    | none =>
      rw [hwhole] at h
      exact absurd (Number.isNaN_nan.symm.trans h) nofun
    | some n => exact ⟨n, Number.wholeIn?_eq_some.1 hwhole⟩
  · rintro ⟨n, hn, hword⟩
    rw [toNumber_of_spells hx hs hn hword]
    exact Number.isNaN_ofInt n

/-- A text behind a prefix that starts with no sign is a number if it is a numeral that fits. -/
theorem isNaN_toNumber_of_unsigned (hunsigned : Unsigned digits) :
    (string s).toNumber.isNaN = false ↔ IsNumeral base digits ∧
    radixValue base digits < 2 ^ 63 := by
  rw [isNaN_toNumber_of_radix hx hs]
  constructor
  · rintro ⟨n, hn, hword⟩
    obtain ⟨hnumeral, rfl⟩ := (Number.spellsInt_of_unsigned hunsigned).1 hn
    exact ⟨hnumeral, Number.inWord_natCast.1 hword⟩
  · rintro ⟨hnumeral, hlt⟩
    exact ⟨_, .plain hnumeral, Number.inWord_natCast.2 hlt⟩

end Radix

/-- The number of a text that is a literal in base sixteen. -/
theorem toNumber_hexadecimal (hx : (x, 16) ∈ radixLetters) (h : IsNumeral 16 digits) :
    (string (String.ofList ('0' :: x :: digits))).toNumber =
      if radixValue 16 digits < 2 ^ 63 then Number.ofNat (radixValue 16 digits)
        else Number.nan := by
  have hblank : ∀ p ∈ radixLetters, Text.isBlank p.1 = false := by
    decide
  have htrim : Text.trim (String.ofList ('0' :: x :: digits)).toList = '0' :: x :: digits := by
    rw [String.toList_ofList]
    refine Text.trim_eq_self (List.forall_mem_cons.2 ⟨rfl,
      List.forall_mem_cons.2 ⟨hblank (x, 16) hx, fun c hc => ?_⟩⟩)
    have hdigit := h.digits c hc
    rw [Number.isDigitIn_sixteen] at hdigit
    exact Lexeme.isBlank_eq_false (by decide) hdigit
  -- a numeral the word does not hold spells no other integer it holds
  split
  · next hlt =>
    rw [toNumber_of_spells hx htrim (.plain h) (Number.inWord_natCast.2 hlt)]
    exact Number.ofInt_natCast _
  · next hnot =>
    have hnone : Number.wholeIn? 16 digits = none := by
      refine Option.eq_none_iff_forall_not_mem.2 fun n hn => ?_
      obtain ⟨hspells, hword⟩ := Number.wholeIn?_eq_some.1 hn
      obtain rfl := hspells.unique (.plain h)
      exact hnot (Number.inWord_natCast.1 hword)
    rw [toNumber_of_radix hx htrim, hnone]
    rfl

/-- What a text behind the prefix of a base becomes as a number.  Where its digits have no sign and
spell less than `2 ^ 63` it is the number that they spell, and nothing else is a number; a literal
in base sixteen and the text of the literal agree under the same bound. -/
theorem toNumber_radix (s : String) (c : Cursor) :
    (∀ (x : Char) (base : Nat) (digits : List Char), (x, base) ∈ radixLetters →
      Text.trim s.toList = '0' :: x :: digits →
        ((string s).toNumber.isNaN = false ↔ ∃ n, SpellsInt base digits n ∧ InWord n) ∧
        (∀ n, SpellsInt base digits n → InWord n →
          (string s).toNumber = ofInt n ∧ Rounds n (string s).toNumber) ∧
        (Unsigned digits → (IsNumeral base digits → radixValue base digits < 2 ^ 63) →
          ((string s).toNumber.isNaN = false ↔ IsNumeral base digits) ∧
          (IsNumeral base digits → (string s).toNumber = Number.ofNat (radixValue base digits) ∧
            Rounds (radixValue base digits) (string s).toNumber))) ∧
    (∀ (after : Cursor) (l : Lexeme) (x : Char) (tail w : List Char),
      Lexeme.next? c = .ok (some l, after) →
      c.skipBlank.rest = '0' :: x :: tail → (x, 16) ∈ radixLetters →
      c.skipBlank.rest = w ++ after.rest →
        ∃ digits, w = '0' :: x :: digits ∧ IsNumeral 16 digits ∧ radixValue 16 digits < 2 ^ 64 ∧
          l.token = .number (Number.ofNat (radixValue 16 digits)) ∧
          (string (String.ofList w)).toNumber =
            if radixValue 16 digits < 2 ^ 63 then Number.ofNat (radixValue 16 digits)
              else Number.nan) := by
  refine ⟨fun x base digits hx hs =>
      ⟨isNaN_toNumber_of_radix hx hs, fun n hn hword => ?_, fun hunsigned hbound => ?_⟩,
    fun after l x tail w h hrest hx hw => ?_⟩
  · have heq : (string s).toNumber = ofInt n := toNumber_of_spells hx hs hn hword
    exact ⟨heq, heq ▸ Number.rounds_ofInt hword.natAbs_lt⟩
  · refine ⟨(isNaN_toNumber_of_unsigned hx hs hunsigned).trans ⟨And.left, fun h => ⟨h, hbound h⟩⟩,
      fun h => ?_⟩
    have hword : InWord (radixValue base digits) := Number.inWord_natCast.2 (hbound h)
    have heq : (string s).toNumber = ofInt (radixValue base digits) :=
      toNumber_of_spells hx hs (.plain h) hword
    have hrounds : Rounds ((radixValue base digits : Int) : ℚ) (ofInt (radixValue base digits)) :=
      Number.rounds_ofInt hword.natAbs_lt
    rw [Int.cast_natCast] at hrounds
    rw [heq]
    exact ⟨Number.ofInt_natCast _, hrounds⟩
  · obtain ⟨digits, hsplit, hnumeral, hlt, htoken⟩ := Lexeme.next?_hexadecimal h hrest hx
    -- the lexeme's text is what stands between its start and the rest
    have hw' : w = '0' :: x :: digits :=
      List.append_cancel_right (hw.symm.trans (hrest.trans hsplit))
    exact ⟨digits, hw', hnumeral, hlt, htoken, hw' ▸ toNumber_hexadecimal hx hnumeral⟩

/-- Numerals in base sixteen and, with a sign, in base two, and a literal in front of an operator.
-/
theorem toNumber_radix_thirtyOne :
    let c := Cursor.ofText "0xFF + 1".toList
    (Text.trim " 0x1F ".toList = ['0', 'x', '1', 'F'] ∧ Unsigned ['1', 'F'] ∧
      IsNumeral 16 ['1', 'F'] ∧
      (string " 0x1F ").toNumber = Number.ofNat 31) ∧
    (Text.trim "0b-101".toList = ['0', 'b', '-', '1', '0', '1'] ∧ SpellsInt 2
      ['-', '1', '0', '1'] (-5) ∧ InWord (-5) ∧
      (string "0b-101").toNumber = ofInt (-5)) ∧
    ∃ l after, Lexeme.next? c = .ok (some l, after) ∧
    c.skipBlank.rest = "0xFF".toList ++ after.rest ∧
      l.token = .number (string "0xFF").toNumber := by
  intro c
  have htrim : Text.trim " 0x1F ".toList = ['0', 'x', '1', 'F'] := by decide
  have htrim' : Text.trim "0b-101".toList = ['0', 'b', '-', '1', '0', '1'] := by decide
  have hnumeral : IsNumeral 16 ['1', 'F'] := by decide
  have hunsigned : Unsigned ['1', 'F'] := by
    rintro c ⟨⟩
    decide
  have hbinary : SpellsInt 2 ['-', '1', '0', '1'] (-5) := .minus (by decide)
  have hword : InWord (-5) := by
    unfold InWord
    omega
  have hread : Lexeme.readToken '0' c = .ok (.number (Number.ofNat 255), c.move 4) := by
    rw [Lexeme.readToken, if_pos (by decide), Lexeme.readNumber_hexadecimal rfl rfl,
      if_neg (by decide)]
    rfl
  have hnext : Lexeme.next? c = .ok (some ⟨.number (Number.ofNat 255), 0, 4⟩, c.move 4) :=
    Lexeme.next?_eq_ok_some.2 ⟨'0', "xFF + 1".toList, _, rfl, hread, rfl⟩
  obtain ⟨digits, hw, -, -, htoken, hnumber⟩ :=
    (toNumber_radix "0xFF" c).2 (c.move 4) _ 'x' "FF + 1".toList "0xFF".toList hnext rfl
      (by decide) rfl
  obtain rfl : digits = ['F', 'F'] := (List.cons.inj (List.cons.inj hw).2).2.symm
  refine ⟨⟨htrim, hunsigned, hnumeral, ?_⟩, ⟨htrim', hbinary, hword, ?_⟩, _, _, hnext, rfl, ?_⟩
  · exact (((toNumber_radix _ c).1 'x' 16 _ (by decide) htrim).2.2 hunsigned fun _ => by decide).2
      hnumeral |>.1
  · exact (((toNumber_radix _ c).1 'b' 2 _ (by decide) htrim').2.1 _ hbinary hword).1
  · rw [htoken]
    exact congrArg Token.number hnumber.symm

/-- A sign behind the prefix is read, and digits of a literal may spell a number that is too large
for a text. -/
theorem toNumber_radix_fails :
    (Text.trim "0x-1".toList = ['0', 'x', '-', '1'] ∧ ¬IsNumeral 16 ['-', '1'] ∧
      (string "0x-1").toNumber = ofInt (-1) ∧ (string "0x-1").toNumber.isNaN = false) ∧
    let c := Cursor.ofText "0xFFFFFFFFFFFFFFFF".toList
    (IsNumeral 16 (List.replicate 16 'F') ∧
      Lexeme.next? c = .ok (some ⟨.number (Number.ofNat (2 ^ 64 - 1)), 0, 18⟩, c.move 18) ∧
      (Number.ofNat (2 ^ 64 - 1)).isNaN = false ∧
      (string "0xFFFFFFFFFFFFFFFF").toNumber.isNaN = true) := by
  have htrim : Text.trim "0x-1".toList = ['0', 'x', '-', '1'] := by decide
  have hminus : SpellsInt 16 ['-', '1'] (-1) := .minus (by decide)
  have hword : InWord (-1) := by
    unfold InWord
    omega
  have hone : (string "0x-1").toNumber = ofInt (-1) :=
    toNumber_of_spells (by decide) htrim hminus hword
  have hsigned : ¬IsNumeral 16 ['-', '1'] := by decide
  refine ⟨⟨htrim, hsigned, hone, hone ▸ Number.isNaN_ofInt _⟩, ?_⟩
  intro c
  have hlarge : IsNumeral 16 (List.replicate 16 'F') := by decide
  have hread : Lexeme.readToken '0' c = .ok (.number (Number.ofNat (2 ^ 64 - 1)), c.move 18) := by
    rw [Lexeme.readToken, if_pos (by decide), Lexeme.readNumber_hexadecimal rfl rfl,
      if_neg (by decide)]
    rfl
  have hnan : (string "0xFFFFFFFFFFFFFFFF").toNumber = Number.nan :=
    (toNumber_hexadecimal (x := 'x') (by decide) hlarge).trans (if_neg (by decide))
  refine ⟨hlarge, Lexeme.next?_eq_ok_some.2 ⟨'0', "xFFFFFFFFFFFFFFFF".toList, _, rfl, hread, rfl⟩,
    Number.isNaN_nearest _ _ _, ?_⟩
  rw [hnan]
  exact Number.isNaN_nan

end Value

end PromptMarkup

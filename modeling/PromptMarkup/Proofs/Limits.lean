/-
How long the strings are that methods of strings make.

* `Text.length_replaceAll`, `Text.length_interleave` — the length of a text in which a pattern was
  replaced;
* `Value.length_cycle` — the length of what fills up a text;
* `Value.limited` — an answer that is checked against the limit;
* `Value.repeatText_eq`, `Value.replaceEvery_eq`, `Value.padding_eq` — the answers, and the lengths
  that are checked;
* `StringMethod.call_limited` — what `repeat`, `replaceAll`, `padStart` and `padEnd` give, for all
  receivers and arguments.

Design notes: each method compares a number of its own with the limit before it makes the string.
For `repeat` it is the length of the string.  For `replaceAll` it is this length and that of the
parts that were replaced, which are no longer there; for `padStart` and `padEnd` it is the length
that was asked for, of which the string only has the whole part, and nothing is checked if the
string does not grow.  So these three refuse strings that are not too long, and give longer ones
(`StringMethod.call_limited_fails`).
-/
import PromptMarkup.Proofs.Comparisons
import PromptMarkup.Value.Method

namespace PromptMarkup

/-! ### Lengths of texts -/

namespace Text

theorem length_intercalate (sep : List Char) {pieces : List (List Char)} (h : pieces ≠ []) :
    (sep.intercalate pieces).length = pieces.flatten.length + (pieces.length - 1) * sep.length := by
  induction pieces with
  | nil => exact absurd rfl h
  | cons piece rest ih =>
    cases rest with
    | nil => rw [List.intercalate_singleton]; simp
    | cons piece' rest =>
      rw [List.intercalate_cons_cons, List.length_append, List.length_append,
        ih (List.cons_ne_nil _ _)]
      simp only [List.flatten_cons, List.length_append, List.length_cons, Nat.add_sub_cancel,
        Nat.add_one_mul]
      omega

/-- A pattern that replaces itself changes nothing. -/
theorem replaceAll_self {pattern : List Char} (h : pattern ≠ []) (s : List Char) :
    replaceAll pattern pattern s = s := by
  induction hn : s.length using Nat.strong_induction_on generalizing s with
  | h n ih =>
    by_cases hfront : pattern <+: s
    · obtain ⟨t, rfl⟩ := hfront
      have hpos := List.length_pos_iff.2 h
      rw [List.length_append] at hn
      rw [replaceAll_append h, ih t.length (by omega) t rfl]
    · cases s with
      | nil => exact replaceAll_nil h pattern
      | cons c s =>
        rw [List.length_cons] at hn
        rw [replaceAll_cons h pattern hfront, ih s.length (by omega) s rfl]

/-- How often a pattern occurs in a text, from the left without overlap. -/
def occurrences (pattern s : List Char) : Nat :=
  (split pattern s).length - 1

/-- Every occurrence makes room for one replacement. -/
theorem length_replaceAll {pattern : List Char} (h : pattern ≠ []) (replacement s : List Char) :
    (replaceAll pattern replacement s).length + occurrences pattern s * pattern.length =
      s.length + occurrences pattern s * replacement.length := by
  have hpieces := split_ne_nil h s
  have hself := congrArg List.length (replaceAll_self h s)
  rw [replaceAll, length_intercalate pattern hpieces] at hself
  rw [replaceAll, length_intercalate replacement hpieces, occurrences]
  omega

theorem length_interleave (filler s : List Char) :
    (interleave filler s).length = s.length + (s.length + 1) * filler.length := by
  induction s with
  | nil => simp [interleave]
  | cons c s ih =>
    rw [interleave, List.length_append, List.length_cons, ih, List.length_cons,
      Nat.add_one_mul (s.length + 1)]
    omega

/-- The text with other text in place of every occurrence of a pattern; the empty one occurs around
every character. -/
def replaced (pattern replacement s : List Char) : List Char :=
  if pattern.isEmpty then interleave replacement s else replaceAll pattern replacement s

/-- The number of characters that are no longer there if a pattern is replaced. -/
def removed (pattern s : List Char) : Nat :=
  if pattern.isEmpty then 0 else occurrences pattern s * pattern.length

end Text

namespace Value

open Number (isFinite value)

variable {x : Float} {s filler : List Char} {args : List Value}

/-- A text, one copy behind the other. -/
def copies (n : Nat) (s : List Char) : List Char :=
  (List.replicate n s).flatten

theorem length_copies (n : Nat) (s : List Char) : (copies n s).length = n * s.length := by
  simp [copies]

theorem toList_repeatOnto (acc s : String) (n : Nat) :
    (repeatOnto acc s n).toList = acc.toList ++ copies n s.toList := by
  induction n generalizing acc with
  | zero => simp [repeatOnto, copies]
  | succ n ih => simp [repeatOnto, copies, ih, List.replicate_succ]

theorem length_cycle (h : filler ≠ []) (n : Nat) : (cycle filler n).length = n := by
  have hpos := List.length_pos_iff.2 h
  have hdiv := Nat.lt_div_mul_add hpos (a := n)
  have hlength : (List.replicate (n / filler.length + 1) filler).flatten.length =
      n / filler.length * filler.length + filler.length :=
    (length_copies _ _).trans (Nat.add_one_mul _ _)
  rw [cycle, List.length_take, hlength]
  omega

/-! ### Checked lengths -/

/-- An answer that is a text, unless a length is over the limit. -/
def limited (length : Nat) (s : List Char) : Except CallFault Value :=
  if maxLength < length then .error .stringTooLong else .ok (ofText s)

theorem map_limited (length : Nat) (s : List Char) :
    (if maxLength < length then Except.error CallFault.stringTooLong else .ok s).map ofText =
      limited length s := by
  unfold limited
  split <;> rfl

theorem limited_of_le {length : Nat} (h : length ≤ maxLength) (s : List Char) :
    limited length s = .ok (ofText s) :=
  if_neg (Nat.not_lt.2 h)

theorem limited_of_lt {length : Nat} (h : maxLength < length) (s : List Char) :
    limited length s = .error .stringTooLong :=
  if_pos h

/-- A text is repeated as often as the whole part of a number says. -/
theorem repeatText_eq (receiver : String) (hfinite : isFinite x = true) (hpos : 0 ≤ value x) :
    (repeatText receiver x).map string =
      limited (copies ⌊value x⌋₊ receiver.toList).length (copies ⌊value x⌋₊ receiver.toList) := by
  -- a count that is finite and not negative is only checked for the length
  have hcount : ¬(x < 0) := by
    rw [Number.lt_iff hfinite Number.isFinite_zero, Number.value_zero]
    exact not_lt.2 hpos
  have hlength : receiver.length = receiver.toList.length := String.length_toList.symm
  obtain ⟨n, hn, hfloor⟩ := Number.exists_wholePart hfinite
  unfold repeatText
  rw [decide_eq_false hcount, hfinite, hn, Bool.not_true, Bool.and_false, Bool.or_false,
    if_neg Bool.false_ne_true, Option.getD_some, hfloor, limited, length_copies, hlength]
  dsimp only
  by_cases hlong : maxLength < ⌊value x⌋₊ * receiver.toList.length
  · rw [if_pos hlong, if_pos hlong]
    rfl
  · rw [if_neg hlong, if_neg hlong]
    -- without characters there is nothing to repeat, and the count does not matter
    by_cases hempty : receiver.isEmpty = true
    · obtain rfl := String.isEmpty_iff.1 hempty
      rw [if_pos hempty]
      simp [copies, ofText, Except.map]
    · rw [if_neg hempty, ofText]
      have hcopies := toList_repeatOnto "" receiver ⌊value x⌋₊
      rw [String.toList_empty, List.nil_append] at hcopies
      rw [← hcopies, String.ofList_toList]
      rfl

/-- The parts of a text that are replaced are counted as if they were still there. -/
theorem replaceEvery_eq (pattern replacement s : List Char) :
    (replaceEvery s pattern replacement).map ofText =
      limited ((Text.replaced pattern replacement s).length + Text.removed pattern s)
        (Text.replaced pattern replacement s) := by
  unfold replaceEvery Text.replaced Text.removed
  by_cases hempty : pattern.isEmpty = true
  · rw [if_pos hempty, if_pos hempty, if_pos hempty,
      Nat.add_zero (Text.interleave replacement s).length, Text.length_interleave, map_limited]
  · have hne : pattern ≠ [] := fun h => hempty (List.isEmpty_iff.2 h)
    rw [if_neg hempty, if_neg hempty, if_neg hempty, Text.length_replaceAll hne, ← map_limited]
    rfl

/-! ### Filling up -/

/-- The number that is the first argument. -/
def amount (args : List Value) : Float :=
  (argument args 0).toNumber

/-- The text that fills up a string; a blank if it is not given. -/
def fillerOf (args : List Value) : List Char :=
  match argument args 1 with
  | undefined => [' ']
  | v => v.text.toList

/-- More than `n` characters are asked for, and there is something that can be added. -/
def Fills (n : Nat) (args : List Value) : Prop :=
  ((amount args).isNaN = false ∧ ¬amount args ≤ Number.ofNat n) ∧ fillerOf args ≠ []

instance (n : Nat) (args : List Value) : Decidable (Fills n args) :=
  inferInstanceAs (Decidable ((_ ∧ ¬_) ∧ _))

theorem padding_eq (s : List Char) (args : List Value) :
    padding s args =
      if ((amount args).isNaN || decide (amount args ≤ Number.ofNat s.length) ||
        (fillerOf args).isEmpty) = true then
        .ok []
      else
        match Number.wholePart? (amount args) with
        | none => .error .stringTooLong
        | some n =>
          if Number.ofNat maxLength < amount args then .error .stringTooLong
          else .ok (cycle (fillerOf args) (n.toNat - s.length)) :=
  rfl

theorem not_fills_iff :
    ¬Fills s.length args ↔
      ((amount args).isNaN || decide (amount args ≤ Number.ofNat s.length) ||
        (fillerOf args).isEmpty) = true := by
  rw [Fills, Bool.or_eq_true, Bool.or_eq_true, decide_eq_true_eq, List.isEmpty_iff]
  cases (amount args).isNaN <;> tauto

theorem padding_of_not_fills (h : ¬Fills s.length args) : padding s args = .ok [] := by
  rw [padding_eq, if_pos (not_fills_iff.1 h)]

/-- The length that is asked for is checked, and its whole part is the length of the string. -/
theorem padding_of_fills (h : Fills s.length args) :
    padding s args =
      if isFinite (amount args) = true ∧ ⌈value (amount args)⌉₊ ≤ maxLength then
        .ok (cycle (fillerOf args) (⌊value (amount args)⌋₊ - s.length))
      else .error .stringTooLong := by
  -- the limit is far below the numbers that a double has no place for
  have hmax : maxLength < 2 ^ 53 := by decide
  obtain ⟨hfinite, hvalue⟩ := Number.value_ofNat hmax
  rw [padding_eq, if_neg (fun hnot => not_fills_iff.2 hnot h)]
  by_cases hx : isFinite (amount args) = true
  · obtain ⟨n, hn, hfloor⟩ := Number.exists_wholePart hx
    rw [hn]
    dsimp only
    -- the number is compared as it was given, not its whole part
    by_cases hlong : Number.ofNat maxLength < amount args
    · rw [if_pos hlong, if_neg]
      rw [Number.lt_iff hfinite hx, hvalue, ← Nat.lt_ceil] at hlong
      omega
    · rw [if_neg hlong, if_pos, hfloor]
      rw [Number.lt_iff hfinite hx, hvalue, ← Nat.lt_ceil] at hlong
      exact ⟨hx, by omega⟩
  · rw [if_neg (fun hboth => hx hboth.1), Number.wholePart?, if_neg hx]

/-- The characters that fill up a text to the whole part of the length that is asked for. -/
def filling (s : List Char) (args : List Value) : List Char :=
  cycle (fillerOf args) (⌊value (amount args)⌋₊ - s.length)

theorem length_filling (h : Fills s.length args) (hlength : s.length < 2 ^ 53)
    (hx : isFinite (amount args) = true) :
    s.length + (filling s args).length = ⌊value (amount args)⌋₊ := by
  have hlt : (s.length : ℚ) < value (amount args) := by
    rcases (Number.exceeds_iff hlength).1 h.1 with hboth | heq
    · exact hboth.2
    · exact absurd (Number.eq_infinity_iff.1 heq).1 (by rw [hx]; exact Bool.noConfusion)
  have hle : s.length ≤ ⌊value (amount args)⌋₊ := Nat.le_floor hlt.le
  rw [filling, length_cycle h.2]
  omega

end Value

namespace StringMethod

open Number (isFinite value)
open Value

/-- The method that fills up a string at its start or at its end. -/
def pad (atStart : Bool) : StringMethod :=
  if atStart then .padStart else .padEnd

/-- A text with another one in front of it or behind it. -/
def joined (atStart : Bool) (p s : List Char) : List Char :=
  if atStart then p ++ s else s ++ p

theorem length_joined (atStart : Bool) (p s : List Char) :
    (joined atStart p s).length = s.length + p.length := by
  cases atStart
  · exact List.length_append
  · exact List.length_append.trans (Nat.add_comm _ _)

theorem call_pad (atStart : Bool) (receiver : String) (args : List Value) :
    (pad atStart).call receiver args =
      (padding receiver.toList args).map fun p => ofText (joined atStart p receiver.toList) := by
  cases atStart <;> rfl

theorem call_pad_of_not_fills {receiver : String} {args : List Value}
    (h : ¬Fills receiver.toList.length args)
    (atStart : Bool) : (pad atStart).call receiver args = .ok (ofText receiver.toList) := by
  rw [call_pad, padding_of_not_fills h]
  cases atStart
  · exact congrArg (fun s => Except.ok (ofText s)) (List.append_nil _)
  · rfl

theorem call_pad_of_fills {receiver : String} {args : List Value}
    (h : Fills receiver.toList.length args) (atStart : Bool) :
    (pad atStart).call receiver args =
      if isFinite (amount args) = true then
        limited ⌈value (amount args)⌉₊
        (joined atStart (filling receiver.toList args) receiver.toList)
      else .error .stringTooLong := by
  rw [call_pad, padding_of_fills h]
  by_cases hx : isFinite (amount args) = true
  · by_cases hlong : ⌈value (amount args)⌉₊ ≤ maxLength
    · rw [if_pos ⟨hx, hlong⟩, if_pos hx, limited_of_le hlong]
      rfl
    · rw [if_neg (fun hboth => hlong hboth.2), if_pos hx, limited_of_lt (Nat.lt_of_not_le hlong)]
      rfl
  · rw [if_neg (fun hboth => hx hboth.1), if_neg hx]
    rfl

/-- The answers of the methods that make long strings.

* Repeating a string fails if and only if the repeated string is over the limit.
* For replacing, the length of what was replaced is counted as well.
* For filling up, it is the length that was asked for that is checked, and the string has its whole
  part; if it is infinite there is no such string.  A string that does not grow is not checked.

A string grows if there is something to add and the length that is asked for is greater than its
own. -/
theorem call_limited (receiver : String) (args : List Value) :
    (isFinite (amount args) = true → 0 ≤ value (amount args) →
      repeated.call receiver args =
        limited (copies ⌊value (amount args)⌋₊ receiver.toList).length
          (copies ⌊value (amount args)⌋₊ receiver.toList)) ∧
    replaceAll.call receiver args =
      limited
        ((Text.replaced (argumentText args 0) (argumentText args 1) receiver.toList).length +
          Text.removed (argumentText args 0) receiver.toList)
        (Text.replaced (argumentText args 0) (argumentText args 1) receiver.toList) ∧
    (∀ atStart, (pad atStart).call receiver args =
      if Fills receiver.toList.length args then
        if isFinite (amount args) = true then
          limited ⌈value (amount args)⌉₊
          (joined atStart (filling receiver.toList args) receiver.toList)
        else .error .stringTooLong
      else .ok (ofText receiver.toList)) ∧
    (receiver.toList.length < 2 ^ 53 →
      (Fills receiver.toList.length args ↔
        (isFinite (amount args) = true ∧ (receiver.toList.length : ℚ) < value (amount args) ∨
          amount args = Number.infinity) ∧ fillerOf args ≠ []) ∧
      (Fills receiver.toList.length args → isFinite (amount args) = true → ∀ atStart,
        (joined atStart (filling receiver.toList args) receiver.toList).length = ⌊value
        (amount args)⌋₊)) := by
  refine ⟨fun hx hpos => repeatText_eq receiver hx hpos, replaceEvery_eq _ _ _, fun atStart => ?_,
    fun hlength =>
    ⟨and_congr_left' (Number.exceeds_iff hlength), fun hfills hx atStart => ?_⟩⟩
  · by_cases hfills : Fills receiver.toList.length args
    · rw [if_pos hfills, call_pad_of_fills hfills]
    · rw [if_neg hfills, call_pad_of_not_fills hfills]
  · rw [length_joined, length_filling hfills hlength hx]

/-- A string is doubled. -/
theorem call_limited_doubled :
    isFinite (amount [.number (Number.ofNat 2)]) = true ∧
    0 ≤ value (amount [.number (Number.ofNat 2)]) ∧
      repeated.call "ab" [.number (Number.ofNat 2)] = .ok (.string "abab") := by
  obtain ⟨hfinite, hvalue⟩ := Number.value_ofNat (n := 2) (by decide)
  have hpos : 0 ≤ value (Number.ofNat 2) := by
    rw [hvalue]
    norm_num
  refine ⟨hfinite, hpos, ((call_limited "ab" [.number (Number.ofNat 2)]).1 hfinite hpos).trans ?_⟩
  have hfloor : ⌊value (amount [.number (Number.ofNat 2)])⌋₊ = 2 := by
    rw [show amount [.number (Number.ofNat 2)] = Number.ofNat 2 from rfl, hvalue]
    norm_num
  rw [hfloor]
  rfl

/-- Half a character more than the limit. -/
def halfOver : Float :=
  Number.nearest false 33554433 2

theorem value_halfOver : isFinite halfOver = true ∧ value halfOver = 2 ^ 24 + 1 / 2 := by
  have hsign : Number.isNegative halfOver = false := by decide +kernel
  have hsignificand : Number.significand halfOver = 33554433 * 2 ^ 27 := by decide +kernel
  have hexponent : Number.exponent halfOver = -28 := by decide +kernel
  refine ⟨by decide +kernel, ?_⟩
  rw [value, hsign, hsignificand, hexponent, Number.sign, if_neg Bool.false_ne_true]
  norm_num

/-- The string that would be filled up has a whole number of characters. -/
theorem padStart_halfOver :
    padStart.call "a" [.number halfOver] = .error .stringTooLong ∧
      (filling "a".toList [.number halfOver] ++ "a".toList).length = maxLength := by
  obtain ⟨hx, hvalue⟩ := value_halfOver
  have hmax : maxLength = 2 ^ 24 := rfl
  have hone : "a".toList.length = 1 := by decide +kernel
  -- the whole part is within the limit, the number itself above it
  have hfloor : ⌊value halfOver⌋₊ = maxLength := by
    rw [hvalue, hmax, Nat.floor_eq_iff (by positivity)]
    constructor <;> norm_num
  have hceil : maxLength < ⌈value halfOver⌉₊ := by
    rw [Nat.lt_ceil, hvalue, hmax]
    norm_num
  have hfills : Fills "a".toList.length [.number halfOver] := by
    refine ⟨(Number.exceeds_iff (by rw [hone]; decide)).2 (.inl ⟨hx, ?_⟩), List.cons_ne_nil _ _⟩
    show (("a".toList.length : Nat) : ℚ) < value halfOver
    rw [hvalue, hone]
    norm_num
  constructor
  · refine (call_pad_of_fills hfills true).trans ?_
    show (if isFinite halfOver = true then limited ⌈value halfOver⌉₊ _ else _) = _
    rw [if_pos hx, limited_of_lt hceil]
  · rw [List.length_append, Nat.add_comm, length_filling hfills (by rw [hone]; decide) hx]
    exact hfloor

/-- A letter is replaced by a text of the greatest length that is allowed. -/
theorem replaceAll_longest {long : List Char} (h : long.length = maxLength) :
    replaceAll.call "a" [.string "a", .string (String.ofList long)] = .error .stringTooLong ∧
      Text.replaced "a".toList long "a".toList = long := by
  have hletter : "a".toList = ['a'] := by decide +kernel
  have hreplaced : Text.replaced "a".toList long "a".toList = long := by
    have hpattern : ['a'] ≠ [] := List.cons_ne_nil _ _
    have happend := Text.replaceAll_append hpattern long []
    rw [Text.replaceAll_nil hpattern, List.append_nil, List.append_nil] at happend
    rw [hletter]
    exact happend
  -- the match that is replaced is one character, which is not taken off
  have hremoved : Text.removed "a".toList "a".toList = 1 := by
    have hcut : Text.cut? ['a'] ['a'] = some ([], []) := Text.cut?_append ['a'] []
    have hrest : Text.cut? ['a'] [] = none := rfl
    rw [hletter, Text.removed, if_neg (by decide), Text.occurrences,
      Text.split_eq (List.cons_ne_nil _ _), hcut]
    dsimp only
    rw [Text.split_eq (List.cons_ne_nil _ _), hrest]
    rfl
  have hanswer := replaceEvery_eq "a".toList long "a".toList
  rw [hreplaced, hremoved, limited_of_lt (by omega)] at hanswer
  refine ⟨?_, hreplaced⟩
  have htext : argumentText [.string "a", .string (String.ofList long)] 1 = long :=
    String.toList_ofList
  show (replaceEvery "a".toList "a".toList (argumentText _ 1)).map ofText = _
  rw [htext, hanswer]

/-- The answers of `padStart` and `replaceAll` are not checked by their own lengths. -/
theorem call_limited_fails :
    (¬∀ (receiver : String) (args : List Value), isFinite (amount args) = true →
      0 ≤ value (amount args) →
      padStart.call receiver args =
        limited (filling receiver.toList args ++ receiver.toList).length
          (filling receiver.toList args ++ receiver.toList)) ∧
    ¬∀ (receiver : String) (args : List Value),
      replaceAll.call receiver args =
        limited (Text.replaced (argumentText args 0) (argumentText args 1) receiver.toList).length
          (Text.replaced (argumentText args 0) (argumentText args 1) receiver.toList) := by
  constructor
  -- a number between two whole ones
  · intro h
    obtain ⟨hx, hvalue⟩ := value_halfOver
    obtain ⟨hcall, hlength⟩ := padStart_halfOver
    have hclaim := h "a" [.number halfOver] hx (by
      show 0 ≤ value halfOver
      rw [hvalue]
      positivity)
    rw [hlength, limited_of_le le_rfl] at hclaim
    exact nomatch hcall.symm.trans hclaim
  -- a replacement as long as the limit
  · intro h
    obtain ⟨long, hlong⟩ : ∃ long : List Char, long.length = maxLength :=
      ⟨List.replicate maxLength 'b', List.length_replicate⟩
    obtain ⟨hcall, hreplaced⟩ := replaceAll_longest hlong
    have htext : argumentText [.string "a", .string (String.ofList long)] 1 = long :=
      String.toList_ofList
    have hclaim := h "a" [.string "a", .string (String.ofList long)]
    rw [htext] at hclaim
    have hpattern : argumentText [.string "a", .string (String.ofList long)] 0 = "a".toList := rfl
    rw [hpattern, hreplaced, hlong, limited_of_le le_rfl] at hclaim
    exact nomatch hcall.symm.trans hclaim

end StringMethod

end PromptMarkup

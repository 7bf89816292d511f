/-
Splitting texts and joining the pieces.

* `Text.cut?_eq_none_iff` — a text is not cut exactly if the pattern does not occur in it;
* `Text.not_infix_of_mem_split` — no piece of a text that was split contains the separator;
* `Value.exists_pieces` — the items that `split` gives, whatever its argument is;
* `Callable.join_split` — joining what `split` gives for a separator gives the text back, for every
  text and separator.

Design notes: both methods replace a separator that is not given, each in its own way: `split` by a
text that does not occur, `join` by a comma.  The law holds because the comma is never put anywhere.
A separator may overlap itself; the pieces are then those between the occurrences from the left, and
the rest of an overlap starts the next piece.
-/
import PromptMarkup.Command.Run
import PromptMarkup.Proofs.Limits
import PromptMarkup.Value.Method

namespace PromptMarkup

/-! ### Pieces of a text -/

namespace Text

variable {pattern separator s before behind piece : List Char}

/-- A text is not cut exactly if the pattern does not occur in it. -/
theorem cut?_eq_none_iff (h : pattern ≠ []) : cut? pattern s = none ↔ ¬pattern <:+: s := by
  induction s with
  | nil => simp [cut?, h]
  | cons c rest ih =>
    by_cases hfront : pattern <+: c :: rest
    · obtain ⟨t, ht⟩ := hfront
      have hoccurs : pattern <:+: c :: rest := ht ▸ (List.prefix_append pattern t).isInfix
      rw [← ht, cut?_append, ht]
      exact ⟨fun hnone => absurd hnone (Option.some_ne_none _), fun hnot => absurd hoccurs hnot⟩
    · rw [cut?_cons hfront, Option.map_eq_none_iff, ih, List.infix_cons_iff, not_or]
      exact ⟨fun hrest => ⟨hfront, hrest⟩, And.right⟩

/-- What stands in front of the first occurrence contains no occurrence. -/
theorem not_infix_of_cut? (h : pattern ≠ []) (hcut : cut? pattern s = some (before, behind)) :
    ¬pattern <:+: before := by
  induction s generalizing before with
  | nil => simp [cut?, h] at hcut
  | cons c rest ih =>
    by_cases hfront : pattern <+: c :: rest
    · obtain ⟨t, ht⟩ := hfront
      rw [← ht, cut?_append] at hcut
      obtain ⟨rfl, -⟩ := Prod.mk.inj (Option.some.inj hcut)
      rwa [List.infix_nil]
    · rw [cut?_cons hfront, Option.map_eq_some_iff] at hcut
      obtain ⟨⟨front, behind'⟩, hrest, heq⟩ := hcut
      obtain ⟨rfl, rfl⟩ := Prod.mk.inj heq
      -- an occurrence at the start of this part would be one at the start of the text
      have hwhole : c :: front <+: c :: rest := by
        rw [eq_of_cut? hrest, List.append_assoc]
        exact List.prefix_append (c :: front) _
      rw [List.infix_cons_iff, not_or]
      exact ⟨fun hpart => hfront (hpart.trans hwhole), ih hrest⟩

/-- No piece contains the separator. -/
theorem not_infix_of_mem_split (h : separator ≠ []) (hpiece : piece ∈ split separator s) :
    ¬separator <:+: piece := by
  induction hn : s.length using Nat.strong_induction_on generalizing s with
  | h n ih =>
    rw [split_eq h] at hpiece
    cases hcut : cut? separator s with
    | none =>
      rw [hcut] at hpiece
      obtain rfl := List.mem_singleton.1 hpiece
      exact (cut?_eq_none_iff h).1 hcut
    | some found =>
      obtain ⟨before, behind⟩ := found
      rw [hcut] at hpiece
      rcases List.mem_cons.1 hpiece with rfl | hpiece
      · exact not_infix_of_cut? h hcut
      · have hlength := congrArg List.length (eq_of_cut? hcut)
        have hpos := List.length_pos_iff.2 h
        rw [List.length_append, List.length_append] at hlength
        exact ih behind.length (by omega) hpiece rfl

/-- The characters of a text, joined by nothing. -/
theorem intercalate_chars (s : List Char) :
    ([] : List Char).intercalate (s.map fun c => [c]) = s := by
  induction s with
  | nil => rfl
  | cons c rest ih =>
    cases rest with
    | nil => exact List.intercalate_singleton
    | cons d more =>
      rw [List.map_cons] at ih
      rw [List.map_cons, List.map_cons, List.intercalate_cons_cons, ih]
      rfl

end Text

/-! ### Splitting and joining -/

namespace Value

/-- The texts of strings are the strings. -/
theorem itemTexts_strings (pieces : List String) : itemTexts (pieces.map string) = pieces := by
  induction pieces with
  | nil => rfl
  | cons piece rest ih =>
    rw [List.map_cons, itemTexts, ih]
    rfl

/-- How a separator that is given splits. -/
theorem splitText_given {separator : Value} (h : separator ≠ undefined) (s : List Char) :
    splitText s separator =
      if separator.text.toList.isEmpty then ofChars s
        else (Text.split separator.text.toList s).map ofText := by
  cases separator with
  | undefined => exact absurd rfl h
  | _ => rfl

/-- How a separator that is given joins. -/
theorem joinItems_given {separator : Value} (h : separator ≠ undefined) (pieces : List String) :
    joinItems (pieces.map string) separator = separator.text.intercalate pieces := by
  have hitems :
      joinItems (pieces.map string) separator =
        separator.text.intercalate (itemTexts (pieces.map string)) := by
    cases separator with
    | undefined => exact absurd rfl h
    | _ => rfl
  rw [hitems, itemTexts_strings]

/-- The items that splitting gives: strings that make the text if they are joined by the same
separator.  None of them contains a separator that was given and is not empty. -/
theorem exists_pieces (s : String) (separator : Value) :
    ∃ pieces : List String, splitText s.toList separator = pieces.map string ∧
      joinItems (pieces.map string) separator = s ∧
      (separator ≠ undefined → separator.text ≠ "" → ∀ piece ∈ pieces,
        ¬separator.text.toList <:+: piece.toList) := by
  -- no separator keeps the text whole, an empty one cuts it into its characters
  by_cases hgiven : separator = undefined
  · subst hgiven
    refine ⟨[s], by simp [splitText, ofText], ?_, fun h => absurd rfl h⟩
    rw [joinItems, itemTexts_strings, String.intercalate_singleton]
  · have hsplit : splitText s.toList separator =
        if separator.text.toList.isEmpty then ofChars s.toList
        else (Text.split separator.text.toList s.toList).map ofText := by
      cases separator <;> first | exact absurd rfl hgiven | rfl
    have hjoin : ∀ items,
      joinItems items separator = separator.text.intercalate (itemTexts items) := by
      intro items
      cases separator <;> first | exact absurd rfl hgiven | rfl
    by_cases hempty : separator.text = ""
    · refine ⟨s.toList.map Char.toString, ?_, ?_, fun _ h => absurd hempty h⟩
      · rw [splitText_given hgiven, hempty, if_pos (by rfl), List.map_map]
        rfl
      · have hsingle : String.toList ∘ Char.toString = fun c => [c] := funext fun c => by simp
        rw [joinItems_given hgiven, hempty, ← String.toList_inj, String.toList_intercalate,
          List.map_map, hsingle]
        exact Text.intercalate_chars s.toList
    -- joining the pieces puts the separator back at each of its occurrences
    · have hne : separator.text.toList ≠ [] := by rwa [Ne, String.toList_eq_nil_iff]
      refine ⟨(Text.split separator.text.toList s.toList).map String.ofList, ?_, ?_,
        fun _ _ piece hpiece => ?_⟩
      · rw [splitText_given hgiven, if_neg (by rwa [List.isEmpty_iff]), List.map_map]
        rfl
      · rw [joinItems_given hgiven, ← String.toList_inj, String.toList_intercalate, List.map_map]
        have hsame : (String.toList ∘ String.ofList) = id := funext fun _ => String.toList_ofList
        rw [hsame, List.map_id]
        exact Text.replaceAll_self hne s.toList
      · obtain ⟨chars, hchars, rfl⟩ := List.mem_map.1 hpiece
        rw [String.toList_ofList]
        exact Text.not_infix_of_mem_split hne hchars

end Value

open Value

/-- Joining what `split` gives gives the text back, for every text and every separator, given or
not.  The items of `split` are strings, and none of them contains a separator that was given and is
not empty. -/
theorem Callable.join_split (host : Host) (s : String) (args : List Value) :
    ∃ pieces : List String,
      (Callable.ofString .split s).call host args = .ok (array (pieces.map string)) ∧
      (Callable.ofArray .join (pieces.map string)).call host args = .ok (string s) ∧
      (argument args 0 ≠ undefined → (argument args 0).text ≠ "" → ∀ piece ∈ pieces,
        ¬(argument args 0).text.toList <:+: piece.toList) := by
  obtain ⟨pieces, hsplit, hjoin, hapart⟩ := exists_pieces s (argument args 0)
  refine ⟨pieces, ?_, ?_, hapart⟩
  · show Except.ok (array (splitText s.toList (argument args 0))) = _
    rw [hsplit]
  · show Except.ok (string (joinItems (pieces.map string) (argument args 0))) = _
    rw [hjoin]

/-- A separator that overlaps itself is found from the left. -/
theorem Callable.join_split_overlapping :
    argument [.string "aa"] 0 ≠ undefined ∧ (argument [.string "aa"] 0).text ≠ "" ∧
      (Callable.ofString .split "aaaba").call noHost [.string "aa"] = .ok
      (array [string "", string "aba"]) ∧
      (Callable.ofArray .join [string "", string "aba"]).call noHost [.string "aa"] = .ok
      (string "aaaba") ∧
      ∀ piece ∈ ["", "aba"], ¬"aa".toList <:+: piece.toList := by
  have hgiven : argument [.string "aa"] 0 ≠ undefined := nofun
  have hne : (argument [.string "aa"] 0).text ≠ "" := by decide
  have hpieces : (Callable.ofString .split "aaaba").call noHost [.string "aa"] =
      .ok (array (["", "aba"].map string)) := by cbv
  obtain ⟨pieces, hsplit, hjoin, hapart⟩ := Callable.join_split noHost "aaaba" [.string "aa"]
  have hsame : pieces.map string = ["", "aba"].map string :=
    Value.array.inj (Except.ok.inj (hsplit.symm.trans hpieces))
  obtain rfl := List.map_injective_iff.2 (fun _ _ => Value.string.inj) hsame
  exact ⟨hgiven, hne, hpieces, hjoin, hapart hgiven hne⟩

end PromptMarkup

/-
Texts without their white space.

Where a text becomes a piece of content, its indentation and its blank ends are taken off.  What is
left is the same text up to white space.

* `Text.dense` — the characters of a text that are not white space;
* `Text.dense_removeCommonIndent` — taking the indentation off takes nothing but white space off;
* `Text.removeCommonIndent_eq_nil` — a text is blank if nothing is left of it without its
  indentation;
* `Text.Trimmed` — a text neither starts nor ends with white space.

Design notes: the indentation of a line is counted in bytes.  It is white space because it is at
most the white space at the start of each line that is not blank, and of a blank line there is
nothing else.
-/
import Mathlib.Data.List.Basic
import Mathlib.Data.List.TakeWhile
import PromptMarkup.Text.Blank

namespace PromptMarkup.Text

/-- The characters of a text that are not white space. -/
def dense (s : List Char) : List Char :=
  s.filter fun c => !isBlank c

theorem dense_append (s t : List Char) : dense (s ++ t) = dense s ++ dense t :=
  List.filter_append ..

theorem dense_reverse (s : List Char) : dense s.reverse = (dense s).reverse :=
  List.filter_reverse ..

theorem dense_eq_nil {s : List Char} : dense s = [] ↔ allBlank s = true := by
  simp [dense, allBlank]

/-! ### The ends of a text -/

theorem dense_dropWhile (s : List Char) : dense (s.dropWhile isBlank) = dense s := by
  have hfront : dense (s.takeWhile isBlank) = [] :=
    dense_eq_nil.2 (List.all_eq_true.2 fun c hc => List.mem_takeWhile_imp hc)
  have hall := dense_append (s.takeWhile isBlank) (s.dropWhile isBlank)
  rw [List.takeWhile_append_dropWhile, hfront, List.nil_append] at hall
  exact hall.symm

theorem dense_trimStart (s : List Char) : dense (trimStart s) = dense s :=
  dense_dropWhile s

theorem dense_trim (s : List Char) : dense (trim s) = dense s := by
  rw [trim, trimEnd, dense_reverse, dense_dropWhile, dense_reverse, List.reverse_reverse,
    dense_trimStart]

/-- A text that was trimmed is empty if it is blank: it would start with a character that is not. -/
theorem trim_eq_nil {s : List Char} : trim s = [] ↔ allBlank s = true := by
  rw [trim, trimEnd, List.reverse_eq_nil_iff, List.dropWhile_eq_nil_iff, ← dense_eq_nil,
    ← dense_trimStart s, dense_eq_nil]
  simp [allBlank]

/-- A text neither starts nor ends with a blank character. -/
structure Trimmed (s : List Char) : Prop where
  head : ∀ c ∈ s.head?, isBlank c = false
  last : ∀ c ∈ s.getLast?, isBlank c = false

theorem head_dropWhile {s : List Char} {c : Char} (h : c ∈ (s.dropWhile isBlank).head?) :
    isBlank c = false := by
  have hnot := List.head?_dropWhile_not isBlank s
  rw [Option.mem_def.1 h] at hnot
  simpa using hnot

theorem trimmed_trim (s : List Char) : Trimmed (trim s) := by
  have hlast : ∀ c ∈ (trim s).getLast?, isBlank c = false := by
    intro c hc
    rw [trim, trimEnd, List.getLast?_reverse] at hc
    exact head_dropWhile hc
  refine ⟨fun c hc => ?_, hlast⟩
  -- what is left of a text that was trimmed at its start is a beginning of it
  have hprefix : trim s <+: trimStart s := by
    rw [trim, trimEnd, ← List.reverse_suffix, List.reverse_reverse]
    exact List.dropWhile_suffix _
  obtain ⟨rest, hrest⟩ := hprefix
  refine head_dropWhile (s := s) ?_
  show c ∈ (trimStart s).head?
  rw [← hrest, List.head?_append, Option.mem_def.1 hc]
  rfl

/-! ### Lines -/

/-- The lines of a text lack its line breaks only. -/
theorem flatMap_dense_lines (s : List Char) : (lines s).flatMap dense = dense s := by
  -- line breaks are white space, and so is the `\r` in front of one
  induction s with
  | nil => rfl
  | cons c rest ih =>
    unfold lines
    split
    · next h =>
      obtain rfl := eq_of_beq h
      exact ih
    · split
      · next h =>
        obtain ⟨h, -⟩ := Bool.and_eq_true_iff.1 h
        obtain rfl := eq_of_beq h
        exact ih
      -- the character starts a line of its own, or goes in front of the first line
      · cases hlines : lines rest with
        | nil =>
          rw [hlines] at ih
          show dense [c] ++ [] = dense ([c] ++ rest)
          rw [dense_append, ← ih]
          rfl
        | cons line more =>
          rw [hlines, List.flatMap_cons] at ih
          show dense ([c] ++ line) ++ more.flatMap dense = dense ([c] ++ rest)
          rw [dense_append, dense_append, List.append_assoc, ih]

theorem dense_intercalate (ls : List (List Char)) :
    dense (['\n'].intercalate ls) = ls.flatMap dense := by
  have hbreak : dense ['\n'] = [] := by decide
  induction ls with
  | nil => rfl
  | cons line rest ih =>
    cases rest with
    | nil => simp [List.intercalate]
    | cons next more =>
      rw [List.intercalate_cons_cons, dense_append, dense_append, hbreak, ih, List.append_nil]
      rfl

/-! ### Indentation -/

theorem dropBytes?_suffix {n : Nat} {s t : List Char} (h : dropBytes? n s = some t) : t <:+ s := by
  induction s generalizing n with
  | nil =>
    cases n with
    | zero => exact (Option.some.inj h) ▸ List.suffix_rfl
    | succ n => cases h
  | cons c rest ih =>
    cases n with
    | zero => exact (Option.some.inj h) ▸ List.suffix_rfl
    | succ n =>
      unfold dropBytes? at h
      split at h
      · cases h
      · exact (ih h).trans (List.suffix_cons c rest)

/-- Bytes that are white space can be dropped. -/
theorem dense_dropBytes? {n : Nat} {s t : List Char} (h : dropBytes? n s = some t)
    (hn : n ≤ byteLength (s.takeWhile isBlank)) : dense t = dense s := by
  -- the induction is on the text; only white space is dropped
  induction s generalizing n with
  | nil =>
    cases n with
    | zero => exact (Option.some.inj h) ▸ rfl
    | succ n => cases h
  | cons c rest ih =>
    cases n with
    | zero => exact (Option.some.inj h) ▸ rfl
    | succ n =>
      unfold dropBytes? at h
      split at h
      · cases h
      · cases hc : isBlank c with
        | false =>
          rw [List.takeWhile_cons_of_neg (by simp [hc])] at hn
          exact absurd hn (Nat.not_succ_le_zero n)
        | true =>
          rw [List.takeWhile_cons_of_pos hc, byteLength] at hn
          rw [ih h (by omega)]
          simp [dense, hc]

/-- The common indentation is at most that of each line that is not blank. -/
theorem commonIndent_le {ls : List (List Char)} {line : List Char} (hmem : line ∈ ls)
    (hline : allBlank line = false) : commonIndent ls ≤ indentOf line := by
  have hin : indentOf line ∈ (ls.filter fun line => !allBlank line).map indentOf :=
    List.mem_map_of_mem (List.mem_filter.2 ⟨hmem, by simp [hline]⟩)
  unfold commonIndent
  cases hmin : ((ls.filter fun line => !allBlank line).map indentOf).min? with
  | none => exact Nat.zero_le _
  | some n => exact (List.min?_eq_some_iff.1 hmin).2 _ hin

theorem dense_dropIndent {ls : List (List Char)} {line : List Char} (hmem : line ∈ ls) :
    dense (dropIndent (commonIndent ls) line) = dense line := by
  unfold dropIndent
  cases hdrop : dropBytes? (commonIndent ls) line with
  | none => exact dense_trimStart line
  | some rest =>
    cases hline : allBlank line with
    | false => exact dense_dropBytes? hdrop (commonIndent_le hmem hline)
    | true =>
      have hnone : dense line = [] := dense_eq_nil.2 hline
      have hsub : (dense rest).Sublist (dense line) := (dropBytes?_suffix hdrop).sublist.filter _
      rw [hnone] at hsub
      rw [hnone]
      exact List.sublist_nil.1 hsub

/-- Without the indentation of its lines a text is the same up to white space. -/
theorem flatMap_dense_dropIndent (ls : List (List Char)) :
    (ls.map (dropIndent (commonIndent ls))).flatMap dense = ls.flatMap dense := by
  rw [List.flatMap_map]
  exact List.flatMap_congr fun line hline => dense_dropIndent hline

/-- Taking the indentation off takes nothing but white space off. -/
theorem dense_removeCommonIndent (s : List Char) : dense (removeCommonIndent s) = dense s := by
  unfold removeCommonIndent
  dsimp only
  rw [dense_trim, dense_intercalate, flatMap_dense_dropIndent, flatMap_dense_lines]

/-- Nothing is left of a text without its indentation exactly if it is blank. -/
theorem removeCommonIndent_eq_nil {s : List Char} : removeCommonIndent s =
    [] ↔ allBlank s = true := by
  unfold removeCommonIndent
  dsimp only
  rw [trim_eq_nil, ← dense_eq_nil, dense_intercalate, flatMap_dense_dropIndent, flatMap_dense_lines,
    dense_eq_nil]

theorem trimmed_removeCommonIndent (s : List Char) : Trimmed (removeCommonIndent s) :=
  trimmed_trim _

end PromptMarkup.Text

/-
Occurrences of one text in another.

`cut?` cuts a text at the first occurrence of a pattern, and everything else follows from it.

* `eq_of_cut?` — what is cut is the text: the part in front, the pattern, the part behind;
* `split` — the pieces between the occurrences, taken from the left without overlap;
* `replaceFirst`, `replaceAll` — other text in place of one or all of them;
* `replaceAll_append`, `replaceAll_cons` — replacing goes through the text from the left.
-/
namespace PromptMarkup.Text

/-- What stands in front of and behind the first occurrence of a pattern. -/
def cut? (pattern : List Char) : List Char → Option (List Char × List Char)
  | [] => if pattern.isEmpty then some ([], []) else none
  | c :: rest =>
    if pattern.isPrefixOf (c :: rest) then some ([], (c :: rest).drop pattern.length)
    else (cut? pattern rest).map fun (before, behind) => (c :: before, behind)

theorem eq_of_cut? {pattern s before behind : List Char}
    (h : cut? pattern s = some (before, behind)) : s = before ++ pattern ++ behind := by
  induction s generalizing before with
  | nil =>
    simp only [cut?, List.isEmpty_iff] at h
    split at h <;> simp_all
  | cons c rest ih =>
    simp only [cut?] at h
    split at h
    · rename_i hp
      obtain ⟨t, ht⟩ := List.isPrefixOf_iff_prefix.1 hp
      simp only [Option.some.injEq, Prod.mk.injEq] at h
      obtain ⟨rfl, rfl⟩ := h
      simp [← ht]
    · simp only [Option.map_eq_some_iff, Prod.mk.injEq, Prod.exists] at h
      obtain ⟨b, t, hb, rfl, rfl⟩ := h
      simp [ih hb]

/-- An occurrence in front is the first one. -/
theorem cut?_append (pattern s : List Char) : cut? pattern (pattern ++ s) = some ([], s) := by
  cases pattern with
  | nil => cases s <;> simp [cut?]
  | cons p rest => simp [cut?]

theorem cut?_cons {pattern s : List Char} {c : Char} (h : ¬pattern <+: c :: s) :
    cut? pattern (c :: s) = (cut? pattern s).map fun (before, behind) => (c :: before, behind) := by
  rw [cut?, if_neg]
  rwa [List.isPrefixOf_iff_prefix]

/-- The pieces of a text between the occurrences of a separator.  An empty separator does not split.
-/
def split (separator s : List Char) : List (List Char) :=
  if _hs : separator = [] then [s]
  else
    match _h : cut? separator s with
    | none => [s]
    | some (before, behind) => before :: split separator behind
termination_by s.length
decreasing_by
  have := eq_of_cut? _h
  have hpos : 0 < separator.length := List.length_pos_iff.2 _hs
  subst this
  simp only [List.length_append]
  omega

/-- The pieces are what stands in front of the first occurrence, and the pieces behind it. -/
theorem split_eq {separator : List Char} (hne : separator ≠ []) (s : List Char) :
    split separator s =
      match cut? separator s with
      | none => [s]
      | some (before, behind) => before :: split separator behind := by
  rw [split, dif_neg hne]
  split
  · next hcut => rw [hcut]
  · next hcut => rw [hcut]

theorem split_ne_nil {separator : List Char} (hne : separator ≠ []) (s : List Char) :
    split separator s ≠ [] := by
  rw [split_eq hne]
  split
  · exact List.cons_ne_nil _ _
  · exact List.cons_ne_nil _ _

/-- The text with other text in place of the first occurrence of a pattern. -/
def replaceFirst (pattern replacement s : List Char) : List Char :=
  match cut? pattern s with
  | none => s
  | some (before, behind) => before ++ replacement ++ behind

/-- The text with other text in place of every occurrence of a pattern that is not empty. -/
def replaceAll (pattern replacement s : List Char) : List Char :=
  replacement.intercalate (split pattern s)

section ReplaceAll

variable {pattern s : List Char} {c : Char} (hpattern : pattern ≠ []) (replacement : List Char)

include hpattern

theorem replaceAll_nil : replaceAll pattern replacement [] = [] := by
  have hcut : cut? pattern [] = none := by simp [cut?, hpattern]
  rw [replaceAll, split_eq hpattern, hcut]
  rfl

/-- An occurrence in front is replaced. -/
theorem replaceAll_append (s : List Char) :
    replaceAll pattern replacement (pattern ++ s) =
      replacement ++ replaceAll pattern replacement s := by
  rw [replaceAll, split_eq hpattern, cut?_append, replaceAll]
  dsimp only
  cases hrest : split pattern s with
  | nil => exact absurd hrest (split_ne_nil hpattern s)
  | cons piece rest => rw [List.intercalate_cons_cons, List.nil_append]

/-- A character in front with which no occurrence starts stays. -/
theorem replaceAll_cons (h : ¬pattern <+: c :: s) :
    replaceAll pattern replacement (c :: s) = c :: replaceAll pattern replacement s := by
  rw [replaceAll, split_eq hpattern, cut?_cons h, replaceAll, split_eq hpattern s]
  cases cut? pattern s with
  | none => rw [Option.map_none, List.intercalate_singleton, List.intercalate_singleton]
  | some pieces =>
    rw [Option.map_some]
    dsimp only
    cases hrest : split pattern pieces.2 with
    | nil => exact absurd hrest (split_ne_nil hpattern pieces.2)
    | cons piece rest =>
      rw [List.intercalate_cons_cons, List.intercalate_cons_cons]
      rfl

end ReplaceAll

/-- The text with other text in front of every character and at the end. -/
def interleave (filler : List Char) : List Char → List Char
  | [] => filler
  | c :: rest => filler ++ c :: interleave filler rest

/-- Where a pattern occurs at or after a place, counted in characters. -/
def findFrom? (pattern : List Char) (place : Nat) (s : List Char) : Option Nat :=
  (cut? pattern (s.drop place)).map fun (before, _) => place + before.length

end PromptMarkup.Text

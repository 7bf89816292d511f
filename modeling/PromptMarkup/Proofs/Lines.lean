/-
The lines of a text without its indentation.

* `Text.lines_intercalate` — lines that were joined are found again;
* `Text.inked` — the lines of a text from the first to the last one that is not blank;
* `Text.trim_intercalate_inked` — only these lines are left of joined lines that are trimmed;
* `Text.lines_removeCommonIndent` — the lines of a text without its indentation;
* `Text.removeCommonIndent_outlines` — only white space is taken off, and where the indentation can
  be counted in characters, every line between the first and the last one loses as much as the
  smallest indentation.

Design notes: the first and the last line that are not blank also lose their outer ends, because the
whole text is trimmed.  Blank lines between them stay as lines, but what is left of them depends on
how long they are.  A line that ends in a carriage return would become shorter by it once a line
feed stands behind it again.
-/
import Mathlib.Data.List.DropRight
import Mathlib.Data.List.ModifyLast
import Mathlib.Order.Bounds.Basic
import PromptMarkup.Proofs.Indentation

namespace PromptMarkup.Text

variable {s t p q line blank : List Char} {ls before after : List (List Char)}

/-! ### Lines that are joined -/

theorem not_mem_of_mem_lines (h : line ∈ lines s) : '\n' ∉ line := by
  -- the induction is on the text; a line ends in front of its break
  induction s generalizing line with
  | nil => exact nomatch h
  | cons c rest ih =>
    unfold lines at h
    split at h
    · rcases List.mem_cons.1 h with rfl | h
      · exact List.not_mem_nil
      · exact ih h
    · next hc =>
      have hne : '\n' ≠ c := fun heq => hc (beq_iff_eq.2 heq.symm)
      split at h
      · exact ih h
      · split at h
        · obtain rfl := List.mem_singleton.1 h
          exact fun hmem => hne (List.mem_singleton.1 hmem)
        · next first more hlines =>
          rcases List.mem_cons.1 h with rfl | h
          · have hfirst := ih (hlines ▸ List.mem_cons_self)
            exact fun hmem => (List.mem_cons.1 hmem).elim hne hfirst
          · exact ih (hlines ▸ List.mem_cons_of_mem _ h)

/-- A text without line breaks is one line. -/
theorem lines_of_line (hne : p ≠ []) (h : '\n' ∉ p) : lines p = [p] := by
  induction p with
  | nil => exact absurd rfl hne
  | cons c rest ih =>
    have hc : (c == '\n') = false := beq_false_of_ne fun heq => h (heq ▸ List.mem_cons_self)
    have hrest : '\n' ∉ rest := fun hmem => h (List.mem_cons_of_mem _ hmem)
    have hhead : (rest.head? == some '\n') = false :=
      beq_false_of_ne fun heq => hrest (List.mem_of_mem_head? (Option.mem_def.2 heq))
    rw [lines, hc, hhead, Bool.and_false]
    cases rest with
    | nil => rfl
    | cons d more => rw [ih (List.cons_ne_nil _ _) hrest]; rfl

/-- A line break ends a line that does not end in a carriage return. -/
theorem lines_append_break (h : '\n' ∉ p) (hreturn : p.getLast? ≠ some '\r') (t : List Char) :
    lines (p ++ '\n' :: t) = p :: lines t := by
  induction p with
  | nil => rfl
  | cons c rest ih =>
    have hc : (c == '\n') = false := beq_false_of_ne fun heq => h (heq ▸ List.mem_cons_self)
    have hrest : '\n' ∉ rest := fun hmem => h (List.mem_cons_of_mem _ hmem)
    rw [List.cons_append, lines, hc]
    cases rest with
    | nil =>
      have hc' : (c == '\r') = false := beq_false_of_ne fun heq => hreturn (heq ▸ rfl)
      rw [hc', Bool.false_and]
      rfl
    | cons d more =>
      have hd : (d == '\n') = false := beq_false_of_ne fun heq => hrest (heq ▸ List.mem_cons_self)
      rw [List.getLast?_cons_cons] at hreturn
      have hhead : ((d :: more ++ '\n' :: t).head? == some '\n') = false := hd
      rw [hhead, Bool.and_false, ih hrest hreturn]
      rfl

/-- Lines that were joined are found again, if the last one is not empty. -/
theorem lines_intercalate (hbreak : ∀ l ∈ ls, '\n' ∉ l) (hreturn : ∀ l ∈ ls, l.getLast? ≠ some '\r')
    (hlast : ∀ l ∈ ls.getLast?, l ≠ []) : lines (['\n'].intercalate ls) = ls := by
  induction ls with
  | nil => rfl
  | cons l rest ih =>
    cases rest with
    | nil =>
      rw [List.intercalate_singleton]
      exact lines_of_line (hlast l rfl) (hbreak l List.mem_cons_self)
    | cons next more =>
      rw [List.getLast?_cons_cons] at hlast
      have hrest := ih (fun l hl => hbreak l (List.mem_cons_of_mem _ hl))
        (fun l hl => hreturn l (List.mem_cons_of_mem _ hl)) hlast
      rw [List.intercalate_cons_cons, List.append_assoc, List.singleton_append,
        lines_append_break (hbreak l List.mem_cons_self) (hreturn l List.mem_cons_self), hrest]

theorem intercalate_concat (hne : ls ≠ []) (l : List Char) :
    ['\n'].intercalate (ls ++ [l]) = ['\n'].intercalate ls ++ '\n' :: l := by
  induction ls with
  | nil => exact absurd rfl hne
  | cons first rest ih =>
    cases rest with
    | nil =>
      rw [List.singleton_append, List.intercalate_cons_cons, List.intercalate_singleton,
        List.intercalate_singleton, List.append_assoc, List.singleton_append]
    | cons next more =>
      have hrest := ih (List.cons_ne_nil _ _)
      rw [List.cons_append] at hrest
      rw [List.cons_append, List.cons_append, List.intercalate_cons_cons, hrest,
        List.intercalate_cons_cons, List.append_assoc, List.append_assoc, List.append_assoc]

/-! ### Blank parts at the ends -/

theorem allBlank_append : allBlank (s ++ t) = (allBlank s && allBlank t) :=
  List.all_append

theorem trimStart_append_of_blank (h : allBlank blank = true) (s : List Char) :
    trimStart (blank ++ s) = trimStart s :=
  List.dropWhile_append_of_pos (List.all_eq_true.1 h)

theorem trimStart_append_of_not (h : allBlank p = false) (t : List Char) :
    trimStart (p ++ t) = trimStart p ++ t := by
  have hne : (p.dropWhile isBlank).isEmpty = false := by
    rw [← Bool.not_eq_true, List.isEmpty_iff, List.dropWhile_eq_nil_iff]
    exact fun hall => Bool.noConfusion (h.symm.trans (List.all_eq_true.2 hall))
  rw [trimStart, List.dropWhile_append, hne, if_neg Bool.false_ne_true]
  rfl

theorem trimEnd_eq (s : List Char) : trimEnd s = (trimStart s.reverse).reverse :=
  rfl

theorem trimEnd_eq_nil : trimEnd s = [] ↔ allBlank s = true := by
  simp [trimEnd, allBlank]

theorem allBlank_reverse (s : List Char) : allBlank s.reverse = allBlank s :=
  List.all_reverse

theorem trimEnd_append_of_blank (h : allBlank blank = true) (s : List Char) :
    trimEnd (s ++ blank) = trimEnd s := by
  rw [trimEnd_eq, List.reverse_append, trimStart_append_of_blank (by rwa [allBlank_reverse]),
    ← trimEnd_eq]

theorem trimEnd_append_of_not (h : allBlank q = false) (t : List Char) :
    trimEnd (t ++ q) = t ++ trimEnd q := by
  rw [trimEnd_eq, List.reverse_append, trimStart_append_of_not (by rwa [allBlank_reverse]),
    List.reverse_append, List.reverse_reverse, ← trimEnd_eq]

theorem trim_append_of_blank_left (h : allBlank blank = true) (s : List Char) :
    trim (blank ++ s) = trim s := by
  rw [trim, trimStart_append_of_blank h, trim]

theorem trim_append_of_blank_right (h : allBlank blank = true) (s : List Char) :
    trim (s ++ blank) = trim s := by
  by_cases hs : allBlank s = true
  · rw [trim_eq_nil.2 hs, trim_eq_nil, allBlank_append, hs, h]
    rfl
  · rw [trim, trimStart_append_of_not (Bool.eq_false_iff.2 hs), trimEnd_append_of_blank h, trim]

/-! ### Blank lines at the ends -/

/-- Blank lines in front of joined lines are trimmed off. -/
theorem trim_intercalate_left (h : ∀ l ∈ before, allBlank l = true) (ls : List (List Char)) :
    trim (['\n'].intercalate (before ++ ls)) = trim (['\n'].intercalate ls) := by
  induction before with
  | nil => rfl
  | cons l rest ih =>
    have hl := h l List.mem_cons_self
    have hrest := ih fun l hl => h l (List.mem_cons_of_mem _ hl)
    rw [List.cons_append]
    by_cases hnil : rest ++ ls = []
    · rw [hnil] at hrest ⊢
      rw [← hrest, List.intercalate_singleton, trim_eq_nil.2 hl]
      rfl
    · rw [List.intercalate_cons_of_ne_nil hnil, trim_append_of_blank_left, hrest]
      rw [allBlank_append, hl]
      rfl

/-- Blank lines behind joined lines are trimmed off. -/
theorem trim_intercalate_right (h : ∀ l ∈ after, allBlank l = true) (ls : List (List Char)) :
    trim (['\n'].intercalate (ls ++ after)) = trim (['\n'].intercalate ls) := by
  induction after generalizing ls with
  | nil => rw [List.append_nil]
  | cons l rest ih =>
    have hl := h l List.mem_cons_self
    rw [List.append_cons, ih (fun l hl => h l (List.mem_cons_of_mem _ hl))]
    by_cases hnil : ls = []
    · subst hnil
      rw [List.nil_append, List.intercalate_singleton, trim_eq_nil.2 hl]
      rfl
    · rw [intercalate_concat hnil, trim_append_of_blank_right]
      exact (congrArg (isBlank '\n' && ·) hl).trans rfl

/-- The outer ends of the first and the last line. -/
theorem trim_intercalate_ends (hp : allBlank p = false) (hq : allBlank q = false)
    (ls : List (List Char)) :
    trim (['\n'].intercalate (p :: (ls ++ [q]))) =
      ['\n'].intercalate (trimStart p :: (ls ++ [trimEnd q])) := by
  have hne : ls ++ [q] ≠ [] := by simp
  have hfirst : trimStart (['\n'].intercalate (p :: (ls ++ [q]))) =
      ['\n'].intercalate (trimStart p :: (ls ++ [q])) := by
    rw [List.intercalate_cons_of_ne_nil hne, List.append_assoc, trimStart_append_of_not hp,
      List.intercalate_cons_of_ne_nil hne, List.append_assoc]
  have hlast : ∀ l, ['\n'].intercalate (trimStart p :: (ls ++ [l])) =
      (['\n'].intercalate (trimStart p :: ls) ++ ['\n']) ++ l := fun l => by
    rw [← List.cons_append, intercalate_concat (List.cons_ne_nil _ _), List.append_assoc,
      List.singleton_append]
  rw [trim, hfirst, hlast, hlast, trimEnd_append_of_not hq]

/-- The lines from the first to the last one that is not blank. -/
def inked (ls : List (List Char)) : List (List Char) :=
  (ls.dropWhile allBlank).rdropWhile allBlank

/-- All lines in front of these and behind them are blank. -/
theorem exists_inked (ls : List (List Char)) : ∃ before after, ls = before ++ (inked ls ++ after) ∧
    (∀ l ∈ before, allBlank l = true) ∧ (∀ l ∈ after, allBlank l = true) := by
  refine ⟨ls.takeWhile allBlank, (ls.dropWhile allBlank).rtakeWhile allBlank, ?_,
    fun l hl => List.mem_takeWhile_imp hl, fun l hl => List.mem_rtakeWhile_imp hl⟩
  rw [inked, List.rdropWhile_append_rtakeWhile, List.takeWhile_append_dropWhile]

theorem inked_subset (ls : List (List Char)) : inked ls ⊆ ls :=
  fun _ hl => (List.dropWhile_suffix _).subset ((List.rdropWhile_prefix _ _).subset hl)

/-- The first and the last of these lines are not blank. -/
theorem ends_inked (ls : List (List Char)) :
    (∀ l ∈ (inked ls).head?, allBlank l = false) ∧
    (∀ l ∈ (inked ls).getLast?, allBlank l = false) := by
  constructor
  · intro l hl
    obtain ⟨rest, hrest⟩ := List.rdropWhile_prefix allBlank (ls.dropWhile allBlank)
    have hnot := List.head?_dropWhile_not allBlank ls
    rw [inked, Option.mem_def] at hl
    rw [← hrest, List.head?_append, hl] at hnot
    simpa using hnot
  · intro l hl
    have hlast : l ∈ ((ls.dropWhile allBlank).reverse.dropWhile allBlank).head? := by
      rw [← List.getLast?_reverse]
      exact hl
    have hnot := List.head?_dropWhile_not allBlank (ls.dropWhile allBlank).reverse
    rw [Option.mem_def.1 hlast] at hnot
    simpa using hnot

/-! ### The first and the last line -/

/-- Lines of which the first has lost the white space at its start and the last that at its end. -/
def trimEnds (ls : List (List Char)) : List (List Char) :=
  (ls.modifyHead trimStart).modifyLast trimEnd

theorem trimEnds_singleton (l : List Char) : trimEnds [l] = [trim l] :=
  rfl

theorem trimEnds_ends (p : List Char) (ls : List (List Char)) (q : List Char) :
    trimEnds (p :: (ls ++ [q])) = trimStart p :: (ls ++ [trimEnd q]) :=
  List.modifyLast_concat trimEnd q (trimStart p :: ls)

theorem length_trimEnds (ls : List (List Char)) : (trimEnds ls).length = ls.length := by
  induction ls using List.bidirectionalRec with
  | nil => rfl
  | singleton l => rfl
  | cons_append p ls q _ => rw [trimEnds_ends]; simp

/-- The lines between the first and the last one are kept. -/
theorem getElem?_trimEnds {i : Nat} (hfirst : 0 < i) (hlast : i + 1 < ls.length) :
    (trimEnds ls)[i]? = ls[i]? := by
  induction ls using List.bidirectionalRec with
  | nil => exact nomatch hlast
  | singleton l => exact absurd hlast (by simp)
  | cons_append p ls q _ =>
    obtain ⟨j, rfl⟩ := Nat.exists_eq_succ_of_ne_zero (Nat.ne_of_gt hfirst)
    have hj : j < ls.length := by simpa using hlast
    rw [trimEnds_ends, Nat.succ_eq_add_one, List.getElem?_cons_succ, List.getElem?_cons_succ,
      List.getElem?_append_left hj, List.getElem?_append_left hj]

/-- Joined lines that are trimmed are joined lines, if the first and the last one are not blank. -/
theorem trim_intercalate (hfirst : ∀ l ∈ ls.head?, allBlank l = false)
    (hlast : ∀ l ∈ ls.getLast?, allBlank l = false) :
    trim (['\n'].intercalate ls) = ['\n'].intercalate (trimEnds ls) := by
  induction ls using List.bidirectionalRec with
  | nil => rfl
  | singleton l => rw [trimEnds_singleton, List.intercalate_singleton, List.intercalate_singleton]
  | cons_append p ls q _ =>
    rw [trimEnds_ends]
    refine trim_intercalate_ends (hfirst p rfl) (hlast q ?_) ls
    rw [← List.cons_append, List.getLast?_concat]
    rfl

/-- The last line is not empty if it was not blank. -/
theorem last_trimEnds (hlast : ∀ l ∈ ls.getLast?, allBlank l = false) :
    ∀ l ∈ (trimEnds ls).getLast?, l ≠ [] := by
  induction ls using List.bidirectionalRec with
  | nil => exact nofun
  | singleton l =>
    intro l' hl' hnil
    obtain rfl := Option.some.inj hl'
    exact Bool.noConfusion ((hlast l rfl).symm.trans (trim_eq_nil.1 hnil))
  | cons_append p ls q _ =>
    intro l hl hnil
    rw [trimEnds_ends, ← List.cons_append, List.getLast?_concat] at hl
    obtain rfl := Option.some.inj hl
    have hq : allBlank q = false := hlast q (by rw [← List.cons_append, List.getLast?_concat]; rfl)
    exact Bool.noConfusion (hq.symm.trans (trimEnd_eq_nil.1 hnil))

/-- What is left of a line at its end is its own end, or it does not end in white space. -/
theorem of_mem_trimEnds (h : line ∈ trimEnds ls) :
    ∃ l ∈ ls, line <:+: l ∧ (line <:+ l ∨ ∀ c ∈ line.getLast?, isBlank c = false) := by
  -- trimming at the end leaves no white space there
  have hend : ∀ l, trimEnd l <:+: l ∧ ∀ c ∈ (trimEnd l).getLast?, isBlank c = false := fun l => by
    refine ⟨(List.rdropWhile_prefix isBlank l).isInfix, fun c hc => ?_⟩
    rw [trimEnd, List.getLast?_reverse] at hc
    exact head_dropWhile hc
  -- the induction takes the first and the last line off; the lines between are not trimmed
  induction ls using List.bidirectionalRec with
  | nil => exact absurd h List.not_mem_nil
  | singleton l =>
    obtain rfl := List.mem_singleton.1 h
    obtain ⟨hpart, hlast⟩ := hend (trimStart l)
    exact ⟨l, List.mem_singleton_self l, hpart.trans (List.dropWhile_suffix _).isInfix, .inr hlast⟩
  | cons_append p ls q _ =>
    rw [trimEnds_ends] at h
    rcases List.mem_cons.1 h with rfl | h
    · exact ⟨p, List.mem_cons_self, (List.dropWhile_suffix _).isInfix,
        .inl (List.dropWhile_suffix _)⟩
    · rcases List.mem_append.1 h with h | h
      · exact ⟨line, List.mem_cons_of_mem _ (List.mem_append_left _ h), List.infix_rfl,
          .inl List.suffix_rfl⟩
      · obtain rfl := List.mem_singleton.1 h
        exact ⟨q, by simp, (hend q).1, .inr (hend q).2⟩

/-! ### Indentation -/

theorem dropIndent_suffix (n : Nat) (line : List Char) : dropIndent n line <:+ line := by
  unfold dropIndent
  cases hdrop : dropBytes? n line with
  | none => exact List.dropWhile_suffix _
  | some rest => exact dropBytes?_suffix hdrop

theorem allBlank_dropIndent (h : line ∈ ls) :
    allBlank (dropIndent (commonIndent ls) line) = allBlank line := by
  rw [Bool.eq_iff_iff, ← dense_eq_nil, ← dense_eq_nil, dense_dropIndent h]

/-- The first and the last line that are not blank are not blank without their indentation. -/
theorem ends_dropIndent (ls : List (List Char)) :
    (∀ l ∈ ((inked ls).map (dropIndent (commonIndent ls))).head?, allBlank l = false) ∧
      (∀ l ∈ ((inked ls).map (dropIndent (commonIndent ls))).getLast?, allBlank l = false) := by
  obtain ⟨hfirst, hlast⟩ := ends_inked ls
  constructor
  · intro l hl
    rw [List.head?_map, Option.mem_def, Option.map_eq_some_iff] at hl
    obtain ⟨m, hm, rfl⟩ := hl
    rw [allBlank_dropIndent (inked_subset ls (List.mem_of_mem_head? hm)), hfirst m hm]
  · intro l hl
    rw [List.getLast?_map, Option.mem_def, Option.map_eq_some_iff] at hl
    obtain ⟨m, hm, rfl⟩ := hl
    rw [allBlank_dropIndent (inked_subset ls (List.mem_of_mem_getLast? hm)), hlast m hm]

/-- Joined lines without their indentation, trimmed: only those from the first to the last one that
is not blank are left. -/
theorem trim_intercalate_inked (ls : List (List Char)) :
    trim (['\n'].intercalate (ls.map (dropIndent (commonIndent ls)))) =
      ['\n'].intercalate (trimEnds ((inked ls).map (dropIndent (commonIndent ls)))) := by
  obtain ⟨before, after, hparts, hbefore, hafter⟩ := exists_inked ls
  have hblank : ∀ part : List (List Char), part ⊆ ls → (∀ l ∈ part, allBlank l = true) →
      ∀ l ∈ part.map (dropIndent (commonIndent ls)), allBlank l = true := by
    intro part hpart hall l hl
    obtain ⟨m, hm, rfl⟩ := List.mem_map.1 hl
    rw [allBlank_dropIndent (hpart hm), hall m hm]
  have hfront : before ⊆ ls := fun l hl => hparts ▸ List.mem_append_left _ hl
  have hback : after ⊆ ls := fun l hl =>
    hparts ▸ List.mem_append_right _ (List.mem_append_right _ hl)
  have hsplit := congrArg (List.map (dropIndent (commonIndent ls))) hparts
  rw [List.map_append, List.map_append] at hsplit
  rw [hsplit, trim_intercalate_left (hblank before hfront hbefore),
    trim_intercalate_right (hblank after hback hafter)]
  exact trim_intercalate (ends_dropIndent ls).1 (ends_dropIndent ls).2

/-- The lines of a text without its indentation. -/
theorem lines_removeCommonIndent (hreturn : ∀ line ∈ lines s, line.getLast? ≠ some '\r') :
    lines (removeCommonIndent s) =
      trimEnds ((inked (lines s)).map (dropIndent (commonIndent (lines s)))) := by
  have hjoined : removeCommonIndent s =
      ['\n'].intercalate (trimEnds ((inked (lines s)).map (dropIndent (commonIndent (lines s))))) :=
    trim_intercalate_inked (lines s)
  -- every line is what is left of a line of the text
  have hpart : ∀ line ∈ trimEnds ((inked (lines s)).map (dropIndent (commonIndent (lines s)))),
      ∃ l ∈ lines s, line <:+: l ∧ (line <:+ l ∨ ∀ c ∈ line.getLast?, isBlank c = false) := by
    intro line hline
    obtain ⟨m, hm, hinner, hend⟩ := of_mem_trimEnds hline
    obtain ⟨l, hl, rfl⟩ := List.mem_map.1 hm
    have hsuffix := dropIndent_suffix (commonIndent (lines s)) l
    exact ⟨l, inked_subset _ hl, hinner.trans hsuffix.isInfix,
      hend.imp_left fun h => h.trans hsuffix⟩
  rw [hjoined]
  refine lines_intercalate (fun line hline hmem => ?_)
    (fun line hline hlast => ?_) fun line hline => ?_
  · obtain ⟨l, hl, hinner, -⟩ := hpart line hline
    exact not_mem_of_mem_lines hl (hinner.subset hmem)
  · obtain ⟨l, hl, -, hsuffix | hend⟩ := hpart line hline
    · rw [← List.singleton_suffix_iff_getLast?_eq_some] at hlast
      exact hreturn l hl (List.singleton_suffix_iff_getLast?_eq_some.1 (hlast.trans hsuffix))
    · exact absurd (hend '\r' hlast) (by decide)
  · exact last_trimEnds (ends_dropIndent (lines s)).2 line hline

/-- The indentations of the lines that are not blank. -/
def indents (ls : List (List Char)) : Set Nat :=
  {n | ∃ line ∈ ls, allBlank line = false ∧ indentOf line = n}

/-- The common indentation is the smallest one. -/
theorem commonIndent_eq {k : Nat} (h : IsLeast (indents ls) k) : commonIndent ls = k := by
  obtain ⟨⟨line, hline, hink, rfl⟩, hleast⟩ := h
  refine Nat.le_antisymm (commonIndent_le hline hink) ?_
  have hmem : indentOf line ∈ (ls.filter fun line => !allBlank line).map indentOf :=
    List.mem_map_of_mem (List.mem_filter.2 ⟨hline, by simp [hink]⟩)
  unfold commonIndent
  cases hmin : ((ls.filter fun line => !allBlank line).map indentOf).min? with
  | none =>
    rw [List.min?_eq_none_iff.1 hmin] at hmem
    exact nomatch hmem
  | some n =>
    obtain ⟨other, hother, rfl⟩ := List.mem_map.1 (List.min?_eq_some_iff.1 hmin).1
    obtain ⟨hother, hink⟩ := List.mem_filter.1 hother
    exact hleast ⟨other, hother, by simpa using hink, rfl⟩

theorem byteLength_of_single (h : ∀ c ∈ s, c.utf8Size = 1) : byteLength s = s.length := by
  induction s with
  | nil => rfl
  | cons c rest ih =>
    rw [byteLength, h c List.mem_cons_self, ih fun c hc => h c (List.mem_cons_of_mem _ hc),
      List.length_cons]
    omega

/-- Where every character of the indentation is one byte, as many bytes are dropped as the
indentation to drop has. -/
theorem exists_dropIndent {k : Nat} (hsingle : ∀ c ∈ line.takeWhile isBlank, c.utf8Size = 1)
    (hk : k ≤ indentOf line) :
    ∃ front, line = front ++ dropIndent k line ∧ allBlank front = true ∧ byteLength front = k := by
  have hlength : k ≤ (line.takeWhile isBlank).length := by
    rwa [indentOf, byteLength_of_single hsingle] at hk
  have hbytes : byteLength ((line.takeWhile isBlank).take k) = k := by
    rw [byteLength_of_single fun c hc => hsingle c (List.mem_of_mem_take hc), List.length_take,
      Nat.min_eq_left hlength]
  have hline :
      line = (line.takeWhile isBlank).take k ++
      ((line.takeWhile isBlank).drop k ++ line.dropWhile isBlank) := by
    rw [← List.append_assoc, List.take_append_drop, List.takeWhile_append_dropWhile]
  have hdrop := dropBytes?_append ((line.takeWhile isBlank).take k)
    ((line.takeWhile isBlank).drop k ++ line.dropWhile isBlank)
  rw [hbytes, ← hline] at hdrop
  refine ⟨(line.takeWhile isBlank).take k, ?_, ?_, hbytes⟩
  · rw [dropIndent, hdrop]
    exact hline
  · exact List.all_eq_true.2 fun c hc => List.mem_takeWhile_imp (List.mem_of_mem_take hc)

/-- Only white space is taken off a text, and none is left at its ends.  If every character of the
white space at the starts of the lines is one byte and no line ends in a carriage return, then as
many lines are left as there are from the first to the last one that is not blank, and of those
between these two every one that is not blank has lost exactly as many bytes as the smallest
indentation has. -/
theorem removeCommonIndent_outlines (s : List Char) :
    dense (removeCommonIndent s) = dense s ∧ Trimmed (removeCommonIndent s) ∧
      ((∀ line ∈ lines s, ∀ c ∈ line.takeWhile isBlank, c.utf8Size = 1) →
        (∀ line ∈ lines s, line.getLast? ≠ some '\r') →
        (lines (removeCommonIndent s)).length = (inked (lines s)).length ∧
          ∀ k, IsLeast (indents (lines s)) k → ∀ i line, (inked (lines s))[i]? = some line → 0 < i →
            i + 1 < (inked (lines s)).length → allBlank line = false →
            ∃ front rest, line = front ++ rest ∧ allBlank front = true ∧ byteLength front = k ∧
              (lines (removeCommonIndent s))[i]? = some rest) := by
  refine ⟨dense_removeCommonIndent s, trimmed_removeCommonIndent s, fun hsingle hreturn => ?_⟩
  have hlines := lines_removeCommonIndent hreturn
  refine ⟨by rw [hlines, length_trimEnds, List.length_map], ?_⟩
  intro k hleast i line hline hfirst hlast hink
  have hmem : line ∈ lines s := inked_subset _ (List.mem_of_getElem? hline)
  have hk := commonIndent_eq hleast
  -- the least indent is no more than that of this line, which can therefore lose it
  obtain ⟨front, hfront, hblank, hbytes⟩ :=
    exists_dropIndent (hsingle line hmem) (hk ▸ commonIndent_le hmem hink)
  refine ⟨front, dropIndent k line, hfront, hblank, hbytes, ?_⟩
  rw [hlines, getElem?_trimEnds hfirst (by rwa [List.length_map]), List.getElem?_map, hline, hk]
  rfl

/-- Lines behind tabs and blanks, with a blank line in between that is shorter than the indentation.
-/
def unevenLines : List Char :=
  "\n \t  a\n \n\t     b\rc\n    d  \n\n".toList

/-- The line in the middle loses a tab and three blanks. -/
theorem removeCommonIndent_outlines_unevenLines :
    (∀ line ∈ lines unevenLines, ∀ c ∈ line.takeWhile isBlank, c.utf8Size = 1) ∧
      (∀ line ∈ lines unevenLines, line.getLast? ≠ some '\r') ∧ IsLeast
      (indents (lines unevenLines)) 4 ∧
      removeCommonIndent unevenLines = "a\n\n  b\rc\nd".toList ∧
      ∃ front rest, "\t     b\rc".toList = front ++ rest ∧
      allBlank front = true ∧ byteLength front = 4 ∧
        (lines (removeCommonIndent unevenLines))[2]? = some rest := by
  -- the conditions of the theorem are properties of finitely many characters
  have hsizes : ((lines unevenLines).all fun line => (line.takeWhile isBlank).all fun c =>
    c.utf8Size == 1) = true := by
    decide +kernel
  have hsingle : ∀ line ∈ lines unevenLines, ∀ c ∈ line.takeWhile isBlank, c.utf8Size = 1 :=
    fun line hline c hc =>
    beq_iff_eq.1 (List.all_eq_true.1 (List.all_eq_true.1 hsizes line hline) c hc)
  have hreturn : ∀ line ∈ lines unevenLines, line.getLast? ≠ some '\r' := by decide +kernel
  have hleast : IsLeast (indents (lines unevenLines)) 4 := by
    have hbound : ∀ line ∈ lines unevenLines, allBlank line = false →
      4 ≤ indentOf line := by decide +kernel
    refine ⟨⟨"    d  ".toList, by decide +kernel, by decide +kernel, by decide +kernel⟩, ?_⟩
    rintro n ⟨line, hline, hink, rfl⟩
    exact hbound line hline hink
  obtain ⟨-, hlines⟩ := (removeCommonIndent_outlines unevenLines).2.2 hsingle hreturn
  exact ⟨hsingle, hreturn, hleast, by decide +kernel,
    hlines 4 hleast 2 "\t     b\rc".toList (by decide +kernel) (by decide) (by decide +kernel)
    (by decide +kernel)⟩

end PromptMarkup.Text

/-
Lines, columns and offsets.

* `Text.positionAt_append` — the position of a place, by the text in front of it;
* `Text.offsetAt_positionAt` — the offset of this position is the place;
* `Text.positionAt_before` — a later place has a later position;
* `Text.lineAt_append` — the line that holds a place, by the texts on its two sides;
* `Problem.positions_agree` — position, offset and line of a problem agree.

Design notes: everything is said of a text that is divided at a place.  The lines in front of the
place are counted by their line feeds, and the column is the length of what stands behind the last
of these (`Text.lastLine`).
-/
import PromptMarkup.Proofs.Blame

namespace PromptMarkup

namespace Text

variable {s front rest : List Char}

/-! ### Line feeds -/

/-- The text behind the last line feed. -/
def lastLine (s : List Char) : List Char :=
  (s.reverse.takeWhile (· != '\n')).reverse

theorem noFeed_lastLine (s : List Char) : '\n' ∉ lastLine s := by
  intro h
  have := List.mem_takeWhile_imp (List.mem_reverse.1 h)
  simp at this

/-- In front of the last line there is nothing, or a line feed. -/
theorem eq_append_lastLine (s : List Char) :
    ∃ above, s = above ++ lastLine s ∧ (above = [] ∨ ∃ lines, above = lines ++ ['\n']) := by
  refine ⟨(s.reverse.dropWhile (· != '\n')).reverse, ?_, ?_⟩
  · rw [lastLine, ← List.reverse_append, List.takeWhile_append_dropWhile, List.reverse_reverse]
  · rcases h : s.reverse.dropWhile (· != '\n') with _ | ⟨c, lines⟩
    · exact .inl rfl
    · have hc := List.head_dropWhile_not (· != '\n') (l := s.reverse) (by simp [h])
      simp [h] at hc
      exact .inr ⟨lines.reverse, by simp [hc]⟩

/-- All line feeds stand in front of the last line. -/
theorem count_above {above : List Char} (h : s = above ++ lastLine s) :
    above.count '\n' = s.count '\n' := by
  rw [congrArg (List.count '\n') h, List.count_append, List.count_eq_zero.2 (noFeed_lastLine s),
    Nat.add_zero]

/-! ### Starts of lines -/

theorem lineStartsFrom_append (offset : Nat) (s t : List Char) :
    lineStartsFrom offset (s ++ t) =
      lineStartsFrom offset s ++ lineStartsFrom (offset + byteLength s) t := by
  induction s generalizing offset with
  | nil => rfl
  | cons c s ih =>
    simp only [List.cons_append, lineStartsFrom, ih, byteLength, Nat.add_assoc]
    split
    · rfl
    · rfl

theorem lineStarts_append (front rest : List Char) :
    lineStarts (front ++ rest) = lineStarts front ++ lineStartsFrom (byteLength front) rest := by
  rw [lineStarts, lineStartsFrom_append, Nat.zero_add]
  rfl

/-- There is one start behind each line feed. -/
theorem length_lineStartsFrom (offset : Nat) (s : List Char) :
    (lineStartsFrom offset s).length = s.count '\n' := by
  induction s generalizing offset with
  | nil => rfl
  | cons c s ih =>
    simp only [lineStartsFrom, List.count_cons]
    split
    · rw [List.length_cons, ih]
    · rw [ih, Nat.add_zero]

theorem bounds_of_mem_lineStartsFrom {offset n : Nat} {s : List Char}
    (h : n ∈ lineStartsFrom offset s) :
    offset < n ∧ n ≤ offset + byteLength s := by
  induction s generalizing offset with
  | nil => exact nomatch h
  | cons c s ih =>
    have hpos := Char.utf8Size_pos c
    have hlater : n ∈ lineStartsFrom (offset + c.utf8Size) s → offset < n ∧
      n ≤ offset + byteLength (c :: s) := by
      intro h
      obtain ⟨hlt, hle⟩ := ih h
      rw [byteLength]
      omega
    simp only [lineStartsFrom] at h
    split at h
    · rcases List.mem_cons.1 h with rfl | h
      · rw [byteLength]
        omega
      · exact hlater h
    · exact hlater h

/-- The lines that start up to a place are those of the text in front of it. -/
theorem takeWhile_lineStarts (front rest : List Char) :
    (lineStarts (front ++ rest)).takeWhile (· ≤ byteLength front) = lineStarts front := by
  have hfront : ∀ n ∈ lineStarts front, decide (n ≤ byteLength front) = true := by
    intro n hn
    rcases List.mem_cons.1 hn with rfl | hn
    · simp
    · have := (bounds_of_mem_lineStartsFrom hn).2
      rw [Nat.zero_add] at this
      exact decide_eq_true this
  have hrest : (lineStartsFrom (byteLength front) rest).takeWhile (· ≤ byteLength front) = [] := by
    rcases h : lineStartsFrom (byteLength front) rest with _ | ⟨n, more⟩
    · rfl
    · have := (bounds_of_mem_lineStartsFrom (h ▸ List.mem_cons_self)).1
      rw [List.takeWhile_cons, if_neg]
      simpa using this
  rw [lineStarts_append, List.takeWhile_append_of_pos hfront, hrest, List.append_nil]

theorem length_lineStarts (s : List Char) : (lineStarts s).length = s.count '\n' + 1 := by
  rw [lineStarts, List.length_cons, length_lineStartsFrom]

/-- The last line starts behind the last line feed. -/
theorem getLast?_lineStarts (s : List Char) :
    ∃ above, s = above ++ lastLine s ∧ (lineStarts s).getLast? = some (byteLength above) := by
  obtain ⟨above, hs, habove⟩ := eq_append_lastLine s
  have hnone : lineStartsFrom (byteLength above) (lastLine s) = [] := by
    rw [← List.length_eq_zero_iff, length_lineStartsFrom, List.count_eq_zero]
    exact noFeed_lastLine s
  have hstarts : lineStarts s = lineStarts above := by
    rw [congrArg lineStarts hs, lineStarts_append, hnone, List.append_nil]
  refine ⟨above, hs, ?_⟩
  rw [hstarts]
  rcases habove with rfl | ⟨lines, rfl⟩
  · rfl
  · rw [lineStarts_append, byteLength_append]
    exact List.getLast?_concat

/-! ### Positions of places -/

/-- The position of a place: behind the line feeds in front of it, and behind what stands behind the
last of these. -/
theorem positionAt_append (front rest : List Char) :
    positionAt (front ++ rest) (byteLength front) =
      ⟨front.count '\n' + 1, (lastLine front).length + 1⟩ := by
  obtain ⟨above, hfront, hlast⟩ := getLast?_lineStarts front
  have hmin : min (byteLength front) (byteLength (front ++ rest)) = byteLength front := by
    rw [byteLength_append]
    omega
  have hslice : slice? (front ++ rest) (byteLength above) (byteLength front) =
    some (lastLine front) := by
    have hlength : byteLength front = byteLength above + byteLength (lastLine front) := by
      rw [← byteLength_append, ← hfront]
    have htext : front ++ rest = above ++ (lastLine front ++ rest) := by
      rw [← List.append_assoc, ← hfront]
    rw [htext, hlength]
    exact slice?_append above (lastLine front) rest
  simp only [positionAt, hmin, takeWhile_lineStarts, hlast, Option.getD_some, hslice,
    Option.map_some, length_lineStarts]

/-- The offset of the position of a place is the place. -/
theorem offsetAt_positionAt (front rest : List Char) :
    offsetAt (front ++ rest) (positionAt (front ++ rest) (byteLength front)) = byteLength
    front := by
  obtain ⟨above, hfront, hlast⟩ := getLast?_lineStarts front
  have hstart : (lineStarts (front ++ rest))[front.count '\n']? = some (byteLength above) := by
    rw [List.getLast?_eq_getElem?, length_lineStarts, Nat.add_sub_cancel] at hlast
    rw [lineStarts_append, List.getElem?_append_left (by rw [length_lineStarts]; omega), hlast]
  have hline : sliceFrom (front ++ rest) (byteLength above) = lastLine front ++ rest := by
    have htext : front ++ rest = above ++ (lastLine front ++ rest) := by
      rw [← List.append_assoc, ← hfront]
    rw [htext, sliceFrom, dropBytes?_append, Option.getD_some]
  simp only [positionAt_append, offsetAt, Nat.add_one_ne_zero, if_false, Nat.add_sub_cancel,
    hstart, hline, List.take_left]
  rw [← byteLength_append, ← hfront]

/-- One position comes in front of another one: on an earlier line, or on the same line in an
earlier column. -/
def Position.Before (p q : Position) : Prop :=
  p.line < q.line ∨ p.line = q.line ∧ p.column < q.column

theorem lastLine_append (hmore : '\n' ∉ rest) :
    lastLine (front ++ rest) = lastLine front ++ rest := by
  have hall : ∀ c ∈ rest.reverse, (c != '\n') = true := fun c hc =>
    bne_iff_ne.2 fun heq => hmore (heq ▸ List.mem_reverse.1 hc)
  rw [lastLine, List.reverse_append, List.takeWhile_append_of_pos hall, List.reverse_append,
    List.reverse_reverse, lastLine]

/-- A later place has a later position. -/
theorem positionAt_before {more : List Char} (hmore : more ≠ []) :
    (positionAt (front ++ (more ++ rest)) (byteLength front)).Before
      (positionAt (front ++ (more ++ rest)) (byteLength (front ++ more))) := by
  have hlater := positionAt_append (front ++ more) rest
  rw [List.append_assoc] at hlater
  rw [positionAt_append, hlater]
  by_cases hfeed : '\n' ∈ more
  · have := List.count_pos_iff.2 hfeed
    exact .inl (by simp only [List.count_append]; omega)
  · have := List.length_pos_iff.2 hmore
    refine .inr ⟨?_, ?_⟩
    · simp only [List.count_append, List.count_eq_zero.2 hfeed, Nat.add_zero]
    · simp only [lastLine_append hfeed, List.length_append]
      omega

/-! ### Lines of places -/

/-- The line that holds a place: what stands in front of it on the line, and what stands behind it.
-/
theorem lineAt_append (front rest : List Char) :
    lineAt (front ++ rest) (byteLength front) = lastLine front ++ firstLine rest := by
  have hmin : min (byteLength front) (byteLength (front ++ rest)) = byteLength front := by
    rw [byteLength_append]
    omega
  have hbefore : slice (front ++ rest) 0 (byteLength front) = front := by
    have := slice_append [] front rest
    rwa [byteLength, Nat.zero_add] at this
  have hafter : sliceFrom (front ++ rest) (byteLength front) = rest := by
    rw [sliceFrom, dropBytes?_append, Option.getD_some]
  simp only [lineAt, hmin, hbefore, hafter]
  rfl

theorem length_splitOn (s : List Char) : (s.splitOn '\n').length = s.count '\n' + 1 := by
  induction s with
  | nil => rfl
  | cons c s ih =>
    rw [List.splitOn_cons_eq_if_modifyHead, List.count_cons]
    split
    · rw [List.length_cons, ih]
    · rw [List.length_modifyHead, ih, Nat.add_zero]

/-- The line that holds a place is the one behind as many line feeds as stand in front of the place.
-/
theorem getElem?_splitOn (front rest : List Char) :
    ((front ++ rest).splitOn '\n')[front.count '\n']? =
      some (lastLine front ++ firstLine rest) := by
  obtain ⟨above, hfront, habove⟩ := eq_append_lastLine front
  obtain ⟨below, hrest, -, hbelow⟩ := eq_firstLine_append rest
  have hline : '\n' ∉ lastLine front ++ firstLine rest := fun h =>
    (List.mem_append.1 h).elim (noFeed_lastLine front) (not_mem_firstLine rest)
  have hhead : ((lastLine front ++ rest).splitOn '\n')[0]? =
    some (lastLine front ++ firstLine rest) := by
    have htext : lastLine front ++ rest = lastLine front ++ firstLine rest ++ below := by
      rw [List.append_assoc, ← hrest]
    rw [htext]
    cases below with
    | nil =>
      rw [List.append_nil, List.splitOn_eq_singleton hline]
      rfl
    | cons x lines =>
      obtain rfl := hbelow x rfl
      rw [List.splitOn_append_cons_self_of_not_mem hline]
      rfl
  have htext : front ++ rest = above ++ (lastLine front ++ rest) := by
    rw [← List.append_assoc, ← hfront]
  rw [htext, ← count_above hfront]
  -- the front either is one line, or ends each line above its last by a feed
  rcases habove with rfl | ⟨lines, rfl⟩
  · exact hhead
  · have hlength : (lines ++ ['\n']).count '\n' = (lines.splitOn '\n').length := by
      rw [length_splitOn, List.count_append]
      rfl
    rw [hlength, List.append_assoc, List.singleton_append, List.splitOn_append_cons_self,
      List.getElem?_append_right (Nat.le_refl _), Nat.sub_self, hhead]

/-- A text, divided at a place and at the line feeds around it. -/
structure Divided (s : List Char) (n : Nat) (above before after below : List Char) : Prop where
  text : s = above ++ (before ++ after) ++ below
  place : byteLength (above ++ before) = n
  line : (s.splitOn '\n')[above.count '\n']? = some (before ++ after)

/-- Every place lies on a line. -/
theorem exists_divided (front rest : List Char) : ∃ above below,
    Divided (front ++ rest) (byteLength front) above (lastLine front) (firstLine rest) below ∧
      above.count '\n' = front.count '\n' := by
  obtain ⟨above, hfront, -⟩ := eq_append_lastLine front
  obtain ⟨below, hrest, -, -⟩ := eq_firstLine_append rest
  refine ⟨above, below, ⟨?_, congrArg byteLength hfront.symm, ?_⟩, count_above hfront⟩
  · rw [← List.append_assoc, ← hfront, List.append_assoc, ← hrest]
  · rw [count_above hfront, getElem?_splitOn]

end Text

/-! ### Problems -/

/-- Position, offset and line of a text agree.  The offset of the position of a place is the place,
a later place has a later position, and the line of a problem is the one that its position names,
with as many characters in front of the problem as the position says. -/
theorem Problem.positions_agree (text : String) :
    (∀ n, Text.IsBoundary text.toList n →
      Text.offsetAt text.toList (Text.positionAt text.toList n) = n) ∧
    (∀ m n, Text.IsBoundary text.toList m → Text.IsBoundary text.toList n → m < n →
      (Text.positionAt text.toList m).Before (Text.positionAt text.toList n)) ∧
    ∀ p : Problem, p.source = some text → Text.IsBoundary text.toList p.start →
      ∃ above before after below, Text.Divided text.toList p.start above before after below ∧
        p.position? = some ⟨above.count '\n' + 1, before.length + 1⟩ ∧
        p.line? = some (String.ofList (before ++ after)) := by
  refine ⟨fun n hn => ?_, fun m n hm hn hlt => ?_, fun p hsource hstart => ?_⟩
  · obtain ⟨front, rest, htext, rfl⟩ := hn
    rw [htext]
    exact Text.offsetAt_positionAt front rest
  -- of two prefixes of one text the shorter is a prefix of the longer
  · obtain ⟨front, others, htext, rfl⟩ := hm
    obtain ⟨front', rest, htext', rfl⟩ := hn
    obtain ⟨more, rfl⟩ : front <+: front' := by
      rcases List.prefix_or_prefix_of_prefix ⟨others, htext.symm⟩ ⟨rest, htext'.symm⟩ with h |
        ⟨more, rfl⟩
      · exact h
      · rw [Text.byteLength_append] at hlt
        omega
    have hmore : more ≠ [] := by
      rintro rfl
      rw [List.append_nil] at hlt
      exact Nat.lt_irrefl _ hlt
    rw [htext', List.append_assoc]
    exact Text.positionAt_before hmore
  · obtain ⟨front, rest, htext, hlength⟩ := hstart
    obtain ⟨above, below, hdivided, hcount⟩ := Text.exists_divided front rest
    refine ⟨above, Text.lastLine front, Text.firstLine rest, below, ?_, ?_, ?_⟩
    · rw [htext, ← hlength]
      exact hdivided
    · rw [Problem.position?, hsource, Option.map_some, htext, ← hlength,
        Text.positionAt_append, hcount]
    · rw [Problem.line?, hsource, Option.map_some, htext, ← hlength, Text.lineAt_append]

/-- A problem on the second line, behind a character of two bytes. -/
theorem Problem.positions_agree_secondLine :
    let text := "a\né:b\n"
    let p : Problem := ⟨.unexpectedCharacter ':', 4, 5, some text, none⟩
    Text.IsBoundary text.toList 2 ∧ Text.IsBoundary text.toList 4 ∧ p.source = some text ∧
      Text.offsetAt text.toList (Text.positionAt text.toList 4) = 4 ∧
      (Text.positionAt text.toList 2).Before (Text.positionAt text.toList 4) ∧
      p.position? = some ⟨2, 2⟩ ∧ p.line? = some "é:b" ∧
      ∃ above before after below, Text.Divided text.toList 4 above before after below ∧
        p.position? = some ⟨above.count '\n' + 1, before.length + 1⟩ ∧
        p.line? = some (String.ofList (before ++ after)) := by
  intro text p
  have hline : Text.IsBoundary text.toList 2 :=
    ⟨['a', '\n'], ['é', ':', 'b', '\n'], by decide, by decide⟩
  have hplace : Text.IsBoundary text.toList 4 :=
    ⟨['a', '\n', 'é'], [':', 'b', '\n'], by decide, by decide⟩
  obtain ⟨hoffset, hbefore, hproblem⟩ := Problem.positions_agree text
  exact ⟨hline, hplace, rfl, hoffset 4 hplace,
    hbefore 2 4 hline hplace (by decide), by decide, by decide, hproblem p rfl hplace⟩

end PromptMarkup

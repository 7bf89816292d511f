/-
Lines that open and close front matter.

* `Text.IsDelimiter` — a line of three hyphens and white space;
* `Text.IsBlock` — whole lines, none of which is a delimiter;
* `lengthToDelimiter?_spec` — the text in front of the next delimiter line consists of such lines;
* `Text.Cursor.FrontMatter` — front matter stands at a cursor: only white space is in front of it,
  and its text is what stands between the first line and the next delimiter line;
* `frontMatter_of_seesConfig`, `seesConfig_of_frontMatter` — this is so just where the reader of
  templates takes front matter.

Design notes: the text in front of a delimiter line is counted character by character, a line
starting behind every line break.  Whether a line is a delimiter does not depend on what stands
behind it, so the count is the same line by line (`lengthToDelimiter?_behindLine`).
-/
import Mathlib.Data.List.TakeWhile
import PromptMarkup.Proofs.Lexing
import PromptMarkup.Template.Reader

namespace PromptMarkup

open Text (Cursor byteLength allBlank)

variable {s : List Char} {n : Nat}

/-! ### Lines -/

namespace Text

/-- A line of three hyphens and white space. -/
def IsDelimiter (line : List Char) : Prop :=
  ∃ b, line = '-' :: '-' :: '-' :: b ∧ allBlank b = true ∧ '\n' ∉ b

/-- Whole lines, none of which is a delimiter. -/
structure IsBlock (raw : List Char) : Prop where
  ends : raw = [] ∨ ∃ u, raw = u ++ ['\n']
  lines : ∀ line ∈ raw.splitOn '\n', ¬IsDelimiter line

/-- The text up to the end of the line. -/
def firstLine (s : List Char) : List Char :=
  s.takeWhile (· != '\n')

theorem not_mem_firstLine (s : List Char) : '\n' ∉ firstLine s := by
  intro h
  have hne := List.mem_takeWhile_imp h
  exact absurd hne (by decide)

theorem firstLine_append {line rest : List Char} (hline : '\n' ∉ line)
    (hrest : ∀ x ∈ rest.head?, x = '\n') :
    firstLine (line ++ rest) = line ∧ (line ++ rest).dropWhile (· != '\n') = rest := by
  have hall : ∀ x ∈ line, (x != '\n') = true := by
    intro x hx
    rw [bne_iff_ne]
    rintro rfl
    exact hline hx
  rw [firstLine, List.takeWhile_append_of_pos hall, List.dropWhile_append_of_pos hall]
  cases rest with
  | nil => exact ⟨List.append_nil line, rfl⟩
  | cons x rest =>
    obtain rfl := hrest x rfl
    rw [List.takeWhile_cons_of_neg (by decide), List.dropWhile_cons_of_neg (by decide),
      List.append_nil]
    exact ⟨rfl, rfl⟩

/-- What stands behind the first line starts with the line break. -/
theorem eq_firstLine_append (s : List Char) :
    ∃ rest, s = firstLine s ++ rest ∧ s.dropWhile (· != '\n') = rest ∧
    ∀ x ∈ rest.head?, x = '\n' := by
  refine ⟨s.dropWhile (· != '\n'), List.takeWhile_append_dropWhile.symm, rfl, fun x hx => ?_⟩
  have hnot := List.head?_dropWhile_not (fun x => x != '\n') s
  rw [Option.mem_def.1 hx] at hnot
  simpa using hnot

theorem isDelimiter_cons {b : List Char} (h : allBlank b = true) (hb : '\n' ∉ b) :
    IsDelimiter ('-' :: '-' :: '-' :: b) :=
  ⟨b, rfl, h, hb⟩

theorem IsDelimiter.not_mem {line : List Char} (h : IsDelimiter line) : '\n' ∉ line := by
  obtain ⟨b, rfl, -, hb⟩ := h
  simpa using hb

/-- A delimiter line is told by its hyphens and what stands behind them on the line. -/
theorem isDelimiterLine_iff : isDelimiterLine s = true ↔ IsDelimiter (firstLine s) := by
  unfold isDelimiterLine
  split
  · next rest =>
    have hline : firstLine ('-' :: '-' :: '-' :: rest) = '-' :: '-' :: '-' :: firstLine rest := rfl
    rw [hline]
    refine ⟨fun h => isDelimiter_cons h (not_mem_firstLine rest), ?_⟩
    rintro ⟨b, hb, hblank, -⟩
    obtain ⟨-, hb⟩ := List.cons.inj hb
    obtain ⟨-, hb⟩ := List.cons.inj hb
    obtain ⟨-, hb⟩ := List.cons.inj hb
    show allBlank (firstLine rest) = true
    rwa [hb]
  · next hno =>
    refine ⟨fun h => Bool.noConfusion h, ?_⟩
    rintro ⟨b, hb, -, -⟩
    obtain ⟨rest, hrest, -, -⟩ := eq_firstLine_append s
    rw [hb] at hrest
    exact absurd hrest (hno _)

theorem isBlock_nil : IsBlock [] := by
  refine ⟨.inl rfl, fun line hline => ?_⟩
  rw [List.splitOn_nil] at hline
  obtain rfl := List.mem_singleton.1 hline
  exact fun ⟨_, h, _⟩ => nomatch h

/-- One more line in front. -/
theorem IsBlock.cons {line raw : List Char} (hraw : IsBlock raw) (hline : '\n' ∉ line)
    (h : ¬IsDelimiter line) :
    IsBlock (line ++ '\n' :: raw) := by
  refine ⟨.inr ?_, fun l hl => ?_⟩
  · rcases hraw.ends with rfl | ⟨u, rfl⟩
    · exact ⟨line, rfl⟩
    · exact ⟨line ++ '\n' :: u, by rw [List.append_assoc, List.cons_append]⟩
  · have hsplit : line.splitOn '\n' = [line] := List.splitOnP_eq_singleton fun x hx => by
      rw [beq_eq_false_iff_ne]
      rintro rfl
      exact hline hx
    have hlines : (line ++ '\n' :: raw).splitOn '\n' = line.splitOn '\n' ++ raw.splitOn '\n' :=
      List.splitOnP_append_cons line raw (beq_self_eq_true '\n')
    rw [hlines, hsplit] at hl
    rcases List.mem_cons.1 hl with rfl | hl
    · exact h
    · exact hraw.lines l hl

end Text

open Text

/-! ### The next delimiter line -/

theorem lengthToDelimiter?_true (s : List Char) :
    lengthToDelimiter? true s = if isDelimiterLine s then some 0
    else lengthToDelimiter? false s := by
  cases s with
  | nil => rfl
  | cons c rest =>
    rw [lengthToDelimiter?, lengthToDelimiter?, Bool.true_and, Bool.false_and,
      if_neg Bool.false_ne_true]

/-- No delimiter line starts before the next line does. -/
theorem lengthToDelimiter?_behindLine (s : List Char) :
    lengthToDelimiter? false s =
      (lengthToDelimiter? true (behindLine s)).map
      (· + ((s.takeWhile (· != '\n')).length + 1)) := by
  induction s with
  | nil => rfl
  | cons x rest ih =>
    rw [lengthToDelimiter?, Bool.false_and]
    by_cases hx : x = '\n'
    · subst hx
      rfl
    · have hline : behindLine (x :: rest) = behindLine rest := by
        rw [behindLine, behindLine, List.dropWhile_cons_of_pos (by simpa using hx)]
      rw [hline, List.takeWhile_cons_of_pos (by simpa using hx), beq_false_of_ne hx, ih,
        Option.map_map]
      rfl

/-- In front of the next delimiter line there are whole lines, none of which is a delimiter. -/
theorem lengthToDelimiter?_spec (h : lengthToDelimiter? true s = some n) :
    ∃ raw closing rest, s = raw ++ (closing ++ rest) ∧ raw.length = n ∧ IsBlock raw ∧
    IsDelimiter closing ∧
      ∀ x ∈ rest.head?, x = '\n' := by
  -- the induction is on the length: what is behind the first line is shorter
  induction hlength : s.length using Nat.strong_induction_on generalizing s n with
  | h k ih =>
    obtain ⟨rest, hrest, hdrop, hbreak⟩ := eq_firstLine_append s
    rw [lengthToDelimiter?_true] at h
    by_cases hdelimiter : isDelimiterLine s = true
    · rw [if_pos hdelimiter] at h
      obtain rfl := Option.some.inj h
      exact ⟨[], firstLine s, rest, hrest, rfl, isBlock_nil,
        isDelimiterLine_iff.1 hdelimiter, hbreak⟩
    · rw [if_neg hdelimiter, lengthToDelimiter?_behindLine, behindLine, hdrop] at h
      cases rest with
      -- the last line has no line behind it, and is no delimiter
      | nil => exact nomatch h
      | cons x rest =>
        obtain rfl := hbreak x rfl
        obtain ⟨m, hm, rfl⟩ := Option.map_eq_some_iff.1 h
        have hshort : rest.length < k := by
          rw [← hlength, hrest, List.length_append, List.length_cons]
          omega
        obtain ⟨raw, closing, rest', hsplit, rfl, hraw, hclosing, hbreak'⟩ := ih _ hshort hm rfl
        -- the first line belongs to the text, with its line break
        refine ⟨firstLine s ++ '\n' :: raw, closing, rest', ?_, ?_,
          hraw.cons (not_mem_firstLine s) (fun hd => hdelimiter (isDelimiterLine_iff.2 hd)),
          hclosing, hbreak'⟩
        · rw [List.append_assoc, List.cons_append]
          exact hrest.trans (congrArg (firstLine s ++ '\n' :: ·) hsplit)
        · show _ = raw.length + ((firstLine s).length + 1)
          rw [List.length_append, List.length_cons]
          omega

/-- Behind whole lines a delimiter line is found, at the latest. -/
theorem isSome_lengthToDelimiter? {raw closing rest : List Char}
    (hends : raw = [] ∨ ∃ u, raw = u ++ ['\n'])
    (hclosing : IsDelimiter closing) (hrest : ∀ x ∈ rest.head?, x = '\n') {lineStart : Bool}
    (hstart : raw = [] → lineStart = true) :
    (lengthToDelimiter? lineStart (raw ++ (closing ++ rest))).isSome = true := by
  induction raw generalizing lineStart with
  | nil =>
    -- the text is at its end, and the closing line is the first one here
    have hline : isDelimiterLine (closing ++ rest) = true := by
      rw [isDelimiterLine_iff, (firstLine_append hclosing.not_mem hrest).1]
      exact hclosing
    rw [hstart rfl, List.nil_append, lengthToDelimiter?_true, if_pos hline]
    rfl
  | cons x raw ih =>
    rw [List.cons_append, lengthToDelimiter?]
    split
    · rfl
    · rw [Option.isSome_map]
      -- the text ends with a line break, and so does what is left of it, unless the break was the
      -- last character: then a line starts here
      obtain ⟨u, hu⟩ := hends.resolve_left (List.cons_ne_nil x raw)
      cases u with
      | nil =>
        obtain ⟨rfl, rfl⟩ := List.cons.inj hu
        exact ih (.inl rfl) fun _ => rfl
      | cons y u =>
        obtain ⟨-, rfl⟩ := List.cons.inj hu
        exact ih (.inr ⟨u, rfl⟩) fun hnil =>
          absurd hnil (List.append_ne_nil_of_right_ne_nil _ (List.cons_ne_nil _ _))

/-! ### Front matter -/

/-- Front matter with the text `raw` stands at a cursor and ends at an offset.  Only white space is
in front of it, and it starts on a line of its own. -/
structure Text.Cursor.FrontMatter (c : Cursor) (stop : Nat) (raw : List Char) : Prop where
  blank : allBlank c.before = true
  lineStart : ∀ x ∈ c.before.head?, x = '\n'
  lines : ∃ opening closing rest, c.rest = (opening ++ '\n' :: (raw ++ closing)) ++ rest ∧
    IsDelimiter opening ∧
    IsBlock raw ∧ IsDelimiter closing ∧ (∀ x ∈ rest.head?, x = '\n') ∧
    stop = c.offset + byteLength (opening ++ '\n' :: (raw ++ closing))

/-- Where the reader takes front matter, it takes the first line, what stands in front of the next
delimiter line, and that line. -/
theorem frontMatter_of_seesConfig {c : Cursor} {frames : List Frame}
    (h : seesConfig c frames = true)
    (hn : lengthToDelimiter? true (c.moveWhile (· != '\n')).step.rest = some n) :
    c.FrontMatter (((c.moveWhile (· != '\n')).step.move n).moveWhile (· != '\n')).offset
      ((c.moveWhile (· != '\n')).step.rest.take n) := by
  simp only [seesConfig, Bool.and_eq_true] at h
  obtain ⟨⟨⟨⟨⟨-, hhead⟩, hopening⟩, hblank⟩, hmore⟩, -⟩ := h
  obtain ⟨body, hbody⟩ : ∃ body, body = (c.moveWhile (· != '\n')).step := ⟨_, rfl⟩
  rw [← hbody] at hn ⊢
  -- the first line ends with a line break
  obtain ⟨behind, hrest, hdrop, hbreak⟩ := eq_firstLine_append c.rest
  have hfirst : c.rest = firstLine c.rest ++ '\n' :: body.rest := by
    have hline : '\n' ∈ c.rest := List.contains_iff_mem.1 hmore
    cases behind with
    | nil =>
      rw [hrest, List.append_nil] at hline
      exact absurd hline (not_mem_firstLine _)
    | cons x behind =>
      obtain rfl := hbreak x rfl
      rw [hbody, Cursor.rest_step, Cursor.rest_moveWhile, hdrop]
      exact hrest
  obtain ⟨raw, closing, rest, hsplit, rfl, hraw, hclosing, hbreak'⟩ := lengthToDelimiter?_spec hn
  obtain ⟨after, hafter⟩ : ∃ after, after = (body.move raw.length).moveWhile (· != '\n') := ⟨_, rfl⟩
  have hbehind : after.rest = rest := by
    rw [hafter, Cursor.rest_moveWhile, Cursor.rest_move, hsplit, List.drop_left]
    exact (firstLine_append hclosing.not_mem hbreak').2
  have hleads : c.LeadsTo after := by
    rw [hafter, hbody]
    exact ((((Cursor.LeadsTo.refl c).moveWhile _).step).move _).moveWhile _
  have hwhole : c.rest = (firstLine c.rest ++ '\n' :: (raw ++ closing)) ++ rest := by
    rw [List.append_assoc, List.cons_append, List.append_assoc, ← hsplit, ← hfirst]
  rw [← hafter, hsplit, List.take_left]
  refine ⟨hblank, ?_, firstLine c.rest, closing, rest, hwhole, isDelimiterLine_iff.1 hopening, hraw,
    hclosing, hbreak', ?_⟩
  · intro x hx
    rw [Option.mem_def.1 hx] at hhead
    exact beq_iff_eq.1 hhead
  · obtain ⟨w, hw, hoffset⟩ := hleads.exists_append
    rw [hbehind] at hw
    rw [hoffset, (List.append_left_inj rest).1 (hw.symm.trans hwhole)]

/-- Where front matter stands, and nothing is open, the reader takes it. -/
theorem seesConfig_of_frontMatter {c : Cursor} {stop : Nat} {raw : List Char} {frames : List Frame}
    (h : c.FrontMatter stop raw) (hframes : frames.length = 1) : seesConfig c frames = true := by
  obtain ⟨opening, closing, rest, hrest, hopening, hblock, hclosing, hend, -⟩ := h.lines
  have hwhole : c.rest = opening ++ '\n' :: (raw ++ (closing ++ rest)) := by
    rw [hrest, List.append_assoc, List.cons_append, List.append_assoc]
  have hbreak : ∀ x ∈ ('\n' :: (raw ++ (closing ++ rest))).head?, x = '\n' := fun x hx =>
    (Option.some.inj hx).symm
  obtain ⟨hfirst, hdrop⟩ := firstLine_append hopening.not_mem hbreak
  -- nothing stands in front of front matter in its line
  have hhead : c.before.head?.all (· == '\n') = true := by
    cases hlast : c.before.head? with
    | none => rfl
    | some x => exact beq_iff_eq.2 (h.lineStart x hlast)
  have hopens : isDelimiterLine c.rest = true := by
    rw [isDelimiterLine_iff, hwhole, hfirst]
    exact hopening
  have hmore : c.rest.contains '\n' = true := by
    rw [List.contains_iff_mem, hwhole]
    exact List.mem_append_right _ List.mem_cons_self
  have hcloses : (lengthToDelimiter? true (behindLine c.rest)).isSome = true := by
    rw [behindLine, hwhole, hdrop]
    exact isSome_lengthToDelimiter? hblock.ends hclosing hend fun _ => rfl
  simp only [seesConfig, Bool.and_eq_true]
  exact ⟨⟨⟨⟨⟨beq_iff_eq.2 hframes, hhead⟩, hopens⟩, h.blank⟩, hmore⟩, hcloses⟩

end PromptMarkup

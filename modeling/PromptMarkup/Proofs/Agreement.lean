/-
Reading by byte offsets gives what a cursor gives.

* `Agrees` — reading by offsets does not break down and gives what a cursor gives;
* `cut_eq` — a place of the text is a place at which it can be cut;
* `agrees_step` — a step by offsets agrees with a step of a reader whose stack is in order.

Design notes: at a cursor of the text a cut is that cursor (`cut_eq`), and each reader has one lemma
that says so of what it gives.  The loops have the bounds that they have with a cursor, and each
round of them takes a character.
-/
import Mathlib.Data.List.TakeWhile
import PromptMarkup.Proofs.Nesting
import PromptMarkup.Proofs.Slicing

namespace PromptMarkup

open Text (Cursor byteLength)
open Checked (breakdown need lift)

/-! ### Agreement -/

/-- Reading by offsets does not break down, and gives what a cursor gives; reading goes on at a
place of the text. -/
structure Agrees {α β : Type} (s : List Char) (place : α → Cursor) (f : α → β) (x : Checked β)
    (y : Except Problem α) : Prop where
  eq : x = lift (y.map f)
  place : ∀ a, y = .ok a → (Cursor.ofText s).LeadsTo (place a)

section Agrees

variable {α β γ δ : Type} {s : List Char} {place : α → Cursor} {place' : γ → Cursor} {f : α → β}
  {f' : γ → δ}

theorem agrees_ok {a : α} (h : (Cursor.ofText s).LeadsTo (place a)) :
    Agrees s place f (pure (f a)) (.ok a) := by
  refine ⟨rfl, fun a' heq => ?_⟩
  obtain rfl := Except.ok.inj heq
  exact h

theorem need_some (a : α) : need (some a) = pure a :=
  rfl

theorem agrees_error {p : Problem} : Agrees s place f (throw p) (.error p) :=
  ⟨rfl, nofun⟩

/-- What has nothing to do with places. -/
theorem agrees_lift {c : Cursor} (h : (Cursor.ofText s).LeadsTo c) (y : Except Problem α) :
    Agrees s (fun _ => c) id (lift y) y := by
  cases y with
  | error p => exact agrees_error
  | ok a => exact agrees_ok h

theorem Agrees.bind {x : Checked β} {y : Except Problem α} {g : β → Checked δ}
    {k : α → Except Problem γ} (hx : Agrees s place f x y)
    (h : ∀ a, y = .ok a → (Cursor.ofText s).LeadsTo (place a) →
      Agrees s place' f' (g (f a)) (k a)) :
    Agrees s place' f' (x >>= g) (y >>= k) := by
  obtain ⟨rfl, hplace⟩ := hx
  cases y with
  | error p => exact agrees_error
  | ok a => exact h a rfl (hplace a rfl)

theorem Agrees.map {x : Checked β} {y : Except Problem α} {g : β → Checked δ} {k : α → γ}
    (hx : Agrees s place f x y)
    (h : ∀ a, y = .ok a → (Cursor.ofText s).LeadsTo (place a) →
      Agrees s place' f' (g (f a)) (.ok (k a))) :
    Agrees s place' f' (x >>= g) (y.map k) := by
  have hmap : y.map k = y >>= fun a => .ok (k a) := by cases y <;> rfl
  rw [hmap]
  exact hx.bind h

end Agrees

/-! ### Places -/

section Places

variable {s : List Char} {c : Cursor}

/-- A cut at a place of the text is a cursor. -/
theorem cut_eq (h : (Cursor.ofText s).LeadsTo c) : Slicer.cut s c.offset = pure c := by
  have htake := Text.takeBytes?_append c.before.reverse c.rest
  have hdrop := Text.dropBytes?_append c.before.reverse c.rest
  rw [h.text_eq, ← h.offset_eq] at htake hdrop
  rw [Slicer.cut, htake, hdrop]
  show (pure ⟨c.before.reverse.reverse, c.rest, c.offset⟩ : Checked Cursor) = pure c
  rw [List.reverse_reverse]

/-- The text ends where nothing follows. -/
theorem offset_lt_byteLength (h : (Cursor.ofText s).LeadsTo c) :
    c.offset < byteLength s ↔ c.rest ≠ [] := by
  rw [← h.final_ofText, Cursor.final]
  cases hrest : c.rest with
  | nil => simp [byteLength]
  | cons x rest =>
    have hpos := Char.utf8Size_pos x
    simp only [byteLength, ne_eq, reduceCtorEq, not_false_eq_true, iff_true]
    omega

theorem offset_move_of_sees {w : String} (h : c.sees w = true) :
    (c.move w.toList.length).offset = c.offset + byteLength w.toList :=
  Cursor.offset_move_front (List.isPrefixOf_iff_prefix.1 h)

theorem prefix_of_seesWord {w : String} (h : seesWord c w = true) : w.toList <+: c.rest := by
  rw [← eq_of_beq h]
  exact List.takeWhile_prefix _

theorem offset_move_of_seesWord {w : String} (h : seesWord c w = true) :
    (c.move w.toList.length).offset = c.offset + byteLength w.toList :=
  Cursor.offset_move_front (prefix_of_seesWord h)

theorem offset_moveWhile (p : Char → Bool) (c : Cursor) :
    (c.moveWhile p).offset = c.offset + byteLength (c.rest.takeWhile p) :=
  Cursor.offset_move_front (List.takeWhile_prefix p)

theorem rest_skipBlank (c : Cursor) : c.skipBlank.rest = Text.trimStart c.rest :=
  Cursor.rest_moveWhile _ c

theorem skipBlank_eq (h : (Cursor.ofText s).LeadsTo c) :
    Slicer.skipBlank s c.offset = pure c.skipBlank.offset := by
  have hlength := congrArg byteLength (Text.trimStart_append_takeWhile c.rest)
  rw [Text.byteLength_append] at hlength
  rw [Slicer.skipBlank, cut_eq h, pure_bind, Cursor.skipBlank, offset_moveWhile]
  congr 2
  omega

theorem wordOf_eq (h : (Cursor.ofText s).LeadsTo c) (p : Char → Bool) :
    Slicer.wordOf s p c.offset = pure (c.rest.takeWhile p) := by
  have htake := Text.takeBytes?_append (c.rest.takeWhile p) (c.rest.dropWhile p)
  rw [List.takeWhile_append_dropWhile] at htake
  rw [Slicer.wordOf, cut_eq h, pure_bind, htake]
  rfl

end Places

/-! ### Words and expressions -/

section Words

variable {α : Type} {s : List Char} {c : Cursor}

theorem agrees_expectedHere {β : Type} {place : α → Cursor} {f : α → β}
    (h : (Cursor.ofText s).LeadsTo c) (expected : String) :
    Agrees s place f (Slicer.expectedHere s c.offset expected)
    (.error (expectedHere c expected)) := by
  have hblank := offset_lt_byteLength h.skipBlank
  rw [Slicer.expectedHere, skipBlank_eq h, pure_bind, expectedHere]
  cases hrest : c.skipBlank.rest with
  | nil =>
    rw [if_pos (Nat.not_lt.1 fun hlt => hblank.1 hlt hrest)]
    exact agrees_error
  | cons x rest =>
    have hlt : c.skipBlank.offset < byteLength s := hblank.2 (hrest ▸ List.cons_ne_nil x rest)
    rw [if_neg (Nat.not_le.2 hlt), cut_eq h.skipBlank, pure_bind, hrest]
    exact agrees_error

/-- The place behind what was found, and what was found with the offset of that place. -/
abbrev atOffset (found : α × Cursor) : α × Nat :=
  (found.1, found.2.offset)

theorem agrees_takeName (h : (Cursor.ofText s).LeadsTo c) (expected : String) :
    Agrees s Prod.snd atOffset (Slicer.takeName s expected c.offset) (takeName expected c) := by
  rw [Slicer.takeName, wordOf_eq h, pure_bind, takeName, takeName?, wordAt]
  split
  · rw [← Cursor.offset_move_front (List.takeWhile_prefix _)]
    exact agrees_ok (a := (_, c.move _)) (h.move _)
  · exact agrees_expectedHere h expected

theorem agrees_takeExpression (h : (Cursor.ofText s).LeadsTo c) :
    Agrees s Prod.snd atOffset (Slicer.takeExpression s c.offset) (takeExpression c) := by
  rw [Slicer.takeExpression, cut_eq h, pure_bind, takeExpression]
  cases hread : Expr.readEmbedded c with
  | error p => exact agrees_error
  | ok found =>
    have hstop := (Expr.readEmbedded_eq_ok hread).2.2
    refine ⟨?_, fun a heq => ?_⟩
    · show lift (.ok found) = lift (.ok (found.1, (c.moveTo found.2).offset))
      rw [Cursor.offset_moveTo hstop]
    · obtain rfl := Except.ok.inj heq
      exact h.moveTo _

theorem agrees_takeClosing (h : (Cursor.ofText s).LeadsTo c) :
    Agrees s id Cursor.offset (Slicer.takeClosing s c.offset) (takeClosing c) := by
  rw [Slicer.takeClosing, skipBlank_eq h, pure_bind, cut_eq h.skipBlank, pure_bind, takeClosing]
  split
  · next hsees =>
    have hoffset : (c.skipBlank.move 2).offset = c.skipBlank.offset + 2 := offset_move_of_sees hsees
    rw [← hoffset]
    exact agrees_ok (h.skipBlank.move 2)
  · exact agrees_expectedHere h.skipBlank _

end Words

/-! ### Front matter, comments and text -/

section Texts

variable {s : List Char} {c : Cursor}

/-- The next delimiter line is behind the line that is no delimiter. -/
theorem lengthToDelimiter?_of_line (h : s ≠ []) (hline : isDelimiterLine s = false) :
    lengthToDelimiter? true s =
      (lengthToDelimiter? true (behindLine s)).map
      (· + ((s.takeWhile (· != '\n')).length + 1)) := by
  cases s with
  | nil => exact absurd rfl h
  | cons x rest =>
    rw [← lengthToDelimiter?_behindLine, lengthToDelimiter?, lengthToDelimiter?, hline]
    rfl

/-- The start of the next line. -/
def nextLine (c : Cursor) : Cursor :=
  (c.moveWhile (· != '\n')).step

theorem rest_nextLine (c : Cursor) : (nextLine c).rest = behindLine c.rest := by
  rw [nextLine, Cursor.rest_step, Cursor.rest_moveWhile, behindLine]

theorem nextLine_eq (c : Cursor) :
    nextLine c = c.move ((c.rest.takeWhile (· != '\n')).length + 1) :=
  Cursor.move_move _ 1 c

/-- A line break takes one byte. -/
theorem offset_nextLine {x : Char} {rest : List Char}
    (h : c.rest.dropWhile (· != '\n') = x :: rest) :
    (nextLine c).offset = c.offset + byteLength (c.rest.takeWhile (· != '\n')) + 1 := by
  have hx : x = '\n' := by
    have hhead := List.head?_dropWhile_not (· != '\n') c.rest
    rw [h] at hhead
    simpa using hhead
  have hrest : (c.moveWhile (· != '\n')).rest = x :: rest := by rw [Cursor.rest_moveWhile, h]
  rw [nextLine, (Cursor.step_of_rest hrest).2, offset_moveWhile, hx]
  rfl

/-- The line that closes front matter is looked for line by line. -/
theorem closingLine_eq {bound : Nat} (h : (Cursor.ofText s).LeadsTo c)
    (hbound : c.rest.length < bound) :
    Slicer.closingLine s bound c.offset = pure ((lengthToDelimiter? true c.rest).map fun n =>
      ((c.move n).offset, ((c.move n).moveWhile (· != '\n')).offset)) := by
  induction bound generalizing c with
  | zero => exact absurd hbound (Nat.not_lt_zero _)
  | succ bound ih =>
    unfold Slicer.closingLine
    by_cases hrest : c.rest = []
    · rw [if_neg fun hlt => (offset_lt_byteLength h).1 hlt hrest, hrest]
      rfl
    rw [if_pos ((offset_lt_byteLength h).2 hrest), cut_eq h, pure_bind]
    dsimp only
    split
    · next hline =>
      have hzero : lengthToDelimiter? true c.rest = some 0 := by
        cases heq : c.rest with
        | nil => exact absurd heq hrest
        | cons x rest =>
          rw [heq] at hline
          rw [lengthToDelimiter?, hline]
          rfl
      rw [hzero, ← offset_moveWhile]
      rfl
    · next hline =>
      rw [lengthToDelimiter?_of_line hrest ((Bool.not_eq_true _).mp hline), ← rest_nextLine]
      cases hbreak : c.rest.dropWhile (· != '\n') with
      | nil =>
        -- there is no other line, and the line ends behind the text
        have hwhole : c.rest.takeWhile (· != '\n') = c.rest := by
          have hsplit := List.takeWhile_append_dropWhile (p := (· != '\n')) (l := c.rest)
          rwa [hbreak, List.append_nil] at hsplit
        have hnone : (nextLine c).rest = [] := by rw [rest_nextLine, behindLine, hbreak]; rfl
        have hfinal := h.final_ofText
        rw [Cursor.final] at hfinal
        rw [hnone, hwhole]
        cases bound with
        | zero => exact absurd (List.length_eq_zero_iff.1 (Nat.lt_one_iff.1 hbound)) hrest
        | succ bound =>
          unfold Slicer.closingLine
          rw [if_neg (by omega)]
          rfl
      | cons x rest =>
        rw [← offset_nextLine hbreak, ih (h.trans ⟨_, nextLine_eq c⟩) ?_, Option.map_map]
        · congr 2
          funext n
          rw [Function.comp_apply, nextLine_eq, Cursor.move_move, Nat.add_comm n]
        · have hpos := List.length_pos_iff.2 hrest
          rw [nextLine_eq, Cursor.rest_move, List.length_drop]
          omega

theorem contains_break_iff (s : List Char) :
    s.contains '\n' = true ↔ s.dropWhile (· != '\n') ≠ [] := by
  rw [List.contains_iff_mem, ne_eq, List.dropWhile_eq_nil_iff]
  simp

theorem rest_nextLine_of_not_contains (h : ¬c.rest.contains '\n' = true) :
    (nextLine c).rest = [] := by
  rw [contains_break_iff, not_not] at h
  rw [rest_nextLine, behindLine, h]
  rfl

/-- Where front matter is closed. -/
theorem configClose_eq (h : (Cursor.ofText s).LeadsTo c) :
    Slicer.configClose s c.offset = pure ((lengthToDelimiter? true (nextLine c).rest).map fun n =>
      (((nextLine c).move n).offset, (((nextLine c).move n).moveWhile (· != '\n')).offset)) := by
  rw [Slicer.configClose, cut_eq h, pure_bind]
  split
  · next hcontains =>
    obtain ⟨x, rest, hbreak⟩ := List.exists_cons_of_ne_nil ((contains_break_iff _).1 hcontains)
    rw [← offset_nextLine hbreak, closingLine_eq (h.trans ⟨_, nextLine_eq c⟩)]
    rw [nextLine_eq, Cursor.rest_move, List.length_drop]
    omega
  · next hcontains =>
    rw [rest_nextLine_of_not_contains hcontains]
    rfl

/-- Nothing or a line break is in front of the cursor. -/
theorem startsLine_eq (h : (Cursor.ofText s).LeadsTo c) :
    (c.offset == 0 || c.before.head? == some '\n') = c.before.head?.all (· == '\n') := by
  rw [h.offset_eq]
  cases c.before with
  | nil => rfl
  | cons x before =>
    have hpos := Char.utf8Size_pos x
    have hne : (byteLength (x :: before).reverse == 0) = false := by
      rw [List.reverse_cons, Text.byteLength_append, beq_eq_false_iff_ne]
      simp only [byteLength]
      omega
    rw [hne, Bool.false_or]
    rfl

theorem seesConfig_eq (h : (Cursor.ofText s).LeadsTo c) (frames : List Frame) :
    Slicer.seesConfig s c.offset frames = pure (seesConfig c frames) := by
  -- the whole of the front matter is read by both, also where its closing line is missing
  have hclose : (c.rest.contains '\n' && (lengthToDelimiter? true (behindLine c.rest)).isSome) =
      (lengthToDelimiter? true (nextLine c).rest).isSome := by
    rw [← rest_nextLine]
    cases hcontains : c.rest.contains '\n' with
    | true => rfl
    | false =>
      rw [rest_nextLine_of_not_contains ((Bool.not_eq_true _).mpr hcontains)]
      rfl
  rw [Slicer.seesConfig, seesConfig, cut_eq h, configClose_eq h, ← startsLine_eq h]
  simp only [pure_bind, Option.isSome_map, ← hclose]
  cases (frames.length == 1) with
  | false => rfl
  | true =>
    cases (c.offset == 0 || c.before.head? == some '\n') with
    | false => rfl
    | true =>
      cases isDelimiterLine c.rest with
      | false => rfl
      | true => cases Text.allBlank c.before <;> rfl

/-- What is read as text. -/
theorem takeText_eq {frames : List Frame} {start bound : Nat} {held : List Char}
    (h : (Cursor.ofText s).LeadsTo c) (hbound : c.rest.length < bound) (hstart : start ≤ c.offset) :
    Slicer.takeText s frames start bound held c.offset =
      pure (atOffset (takeText frames bound (!decide (start < c.offset)) held c)) := by
  -- the induction is on the fuel, of which both readers use one unit for a character
  induction bound generalizing held c with
  | zero => exact absurd hbound (Nat.not_lt_zero _)
  | succ bound ih =>
    have hnext : ∀ {d : Cursor} {held : List Char}, (Cursor.ofText s).LeadsTo d →
      d.rest.length < bound →
        c.offset < d.offset → Slicer.takeText s frames start bound held d.offset =
          pure (atOffset (takeText frames bound false held d)) := by
      intro d held hd hlength hlt
      have hbehind : start < d.offset := Nat.lt_of_le_of_lt hstart hlt
      have heq := @ih d held hd hlength (Nat.le_of_lt hbehind)
      rwa [decide_eq_true hbehind] at heq
    unfold Slicer.takeText takeText
    cases hrest : c.rest with
    | nil =>
      rw [if_neg fun hlt => (offset_lt_byteLength h).1 hlt hrest]
    | cons x rest =>
      rw [if_pos ((offset_lt_byteLength h).2 (hrest ▸ List.cons_ne_nil x rest)), cut_eq h,
        pure_bind, seesConfig_eq h, pure_bind, Bool.not_not]
      -- a backslash that protects a mark is taken with the mark
      have hlength : c.rest.length = rest.length + 1 := by rw [hrest, List.length_cons]
      dsimp only
      split
      · next hsees =>
        have hoffset : (c.move 3).offset = c.offset + 3 := offset_move_of_sees hsees
        rw [← hoffset]
        refine hnext (h.move 3) ?_ (by omega)
        rw [Cursor.rest_move, List.length_drop]
        omega
      · rw [hrest]
        split
        · rfl
        · have hoffset := (Cursor.step_of_rest hrest).2
          rw [List.head?_cons, Option.getD_some, ← hoffset]
          refine hnext h.step ?_ (Cursor.offset_lt_step (hrest ▸ List.cons_ne_nil x rest))
          rw [Cursor.rest_step, List.length_drop]
          omega

end Texts

/-! ### Attributes -/

section Attributes

variable {s : List Char} {c start : Cursor}

/-- A cursor that moves on has less in front of it. -/
theorem length_lt_of_leadsTo {d : Cursor} (h : c.LeadsTo d) (hlt : c.offset < d.offset) :
    d.rest.length < c.rest.length := by
  obtain ⟨w, hw, hoffset⟩ := h.exists_append
  cases w with
  | nil => exact absurd hoffset (Nat.ne_of_gt hlt)
  | cons x w =>
    rw [hw, List.length_append, List.length_cons]
    omega

theorem agrees_takeAttributeMustache (h : (Cursor.ofText s).LeadsTo c)
    (hsees : c.sees openBraces = true) :
    Agrees s Prod.snd atOffset (Slicer.takeAttributeMustache s c.offset)
    (takeAttributeMustache c) := by
  have hoffset : (c.move 2).offset = c.offset + 2 := offset_move_of_sees hsees
  have hstart := h.move 2
  rw [Slicer.takeAttributeMustache, ← hoffset, skipBlank_eq hstart, pure_bind,
    takeAttributeMustache]
  refine (agrees_takeExpression hstart.skipBlank).bind fun found _ h₁ => ?_
  exact (agrees_takeClosing h₁).bind fun d _ h₂ => agrees_ok (a := (found.1, d)) h₂

/-- A mustache is longer than nothing. -/
theorem length_of_takeAttributeMustache {found : Expr × Cursor}
    (h : takeAttributeMustache c = .ok found) :
    found.2.rest.length < c.rest.length := by
  obtain ⟨hleads, he⟩ := (lands_takeAttributeMustache c).ok found h
  obtain ⟨hmarked, hstart⟩ := he.inside found.1 List.mem_cons_self
  exact length_lt_of_leadsTo hleads (Nat.lt_of_le_of_lt hmarked.marked.self.first.le hstart)

theorem textPart_eq (h : (Cursor.ofText s).LeadsTo start) (hc : start.LeadsTo c) :
    Slicer.textPart s start.offset c.offset = pure (textPart start c) := by
  rw [Slicer.textPart, textPart]
  split
  · obtain ⟨w, hw, hoffset⟩ := hc.exists_append
    have htake : start.rest.take (start.rest.length - c.rest.length) = w := by
      rw [hw, List.length_append, Nat.add_sub_cancel, List.take_left]
    have hslice : Text.slice? s start.offset c.offset = some w :=
      hoffset ▸ Cursor.slice?_of_leadsTo h hw
    rw [hslice, htake]
    rfl
  · rfl

theorem agrees_takeParts {quote : Option Char} (hquote : ∀ q ∈ quote, q.utf8Size = 1) {bound : Nat}
    (h : (Cursor.ofText s).LeadsTo start) (hc : start.LeadsTo c) (hbound : c.rest.length < bound) :
    Agrees s Prod.snd atOffset (Slicer.takeParts s quote bound start.offset c.offset)
      (takeParts quote bound start c) := by
  -- fuel as above; a mustache uses as much of it as it is long
  induction bound generalizing start c with
  | zero => exact absurd hbound (Nat.not_lt_zero _)
  | succ bound ih =>
    have hplace := h.trans hc
    unfold Slicer.takeParts takeParts
    rw [cut_eq hplace, pure_bind]
    cases hrest : c.rest with
    | nil =>
      cases quote with
      | none => exact agrees_ok (a := (([] : List AttributePart), c)) hplace
      | some q => exact agrees_error
    | cons x rest =>
      have hstep := (Cursor.step_of_rest hrest).2
      have hlength : c.rest.length = rest.length + 1 := by rw [hrest, List.length_cons]
      -- behind a character both go on alike, whether a quote or white space ends the value
      have hparts : ∀ ended : Bool, (ended = true → ∀ q ∈ quote, x = q) → Agrees s Prod.snd atOffset
          (if ended then do
            let parts ← Slicer.textPart s start.offset c.offset
            return (parts, if quote.isSome then c.offset + 1 else c.offset)
          else if c.sees openBraces then do
            let parts ← Slicer.textPart s start.offset c.offset
            let found ← Slicer.takeAttributeMustache s c.offset
            let others ← Slicer.takeParts s quote bound found.2 found.2
            return (parts ++ .expression found.1 :: others.1, others.2)
          else Slicer.takeParts s quote bound start.offset (c.offset + x.utf8Size))
          (if ended then .ok (textPart start c, if quote.isSome then c.step else c)
          else if c.sees openBraces then do
            let found ← takeAttributeMustache c
            let others ← takeParts quote bound found.2 found.2
            return (textPart start c ++ .expression found.1 :: others.1, others.2)
          else takeParts quote bound start c.step) := by
        intro ended hended
        rw [textPart_eq h hc]
        split
        · next hend =>
          have hoffset : (if quote.isSome then c.offset + 1 else c.offset) =
              (if quote.isSome then c.step else c).offset := by
            cases quote with
            | none => rfl
            | some q =>
              obtain rfl := hended hend q rfl
              rw [hquote x rfl] at hstep
              exact hstep.symm
          rw [pure_bind, hoffset]
          refine agrees_ok (a := (textPart start c, if quote.isSome then c.step else c)) ?_
          dsimp only
          split
          · exact hplace.step
          · exact hplace
        · split
          · next hsees =>
            rw [pure_bind]
            refine (agrees_takeAttributeMustache hplace hsees).bind fun found hfound h₁ => ?_
            have hless := length_of_takeAttributeMustache hfound
            refine (ih h₁ (.refl _) (by omega)).bind fun others _ h₂ => ?_
            exact agrees_ok (a :=
              (textPart start c ++ .expression found.1 :: others.1, others.2)) h₂
          · rw [← hstep]
            refine ih h hc.step ?_
            rw [Cursor.rest_step, List.length_drop]
            omega
      refine hparts _ fun hended q hq => ?_
      rw [Option.mem_def] at hq
      subst hq
      exact eq_of_beq hended

theorem agrees_takeAttributeValue (h : (Cursor.ofText s).LeadsTo c) :
    Agrees s Prod.snd atOffset (Slicer.takeAttributeValue s c.offset) (takeAttributeValue c) := by
  rw [Slicer.takeAttributeValue, cut_eq h, pure_bind, takeAttributeValue]
  cases hrest : c.rest with
  | nil => exact agrees_expectedHere h _
  | cons x rest =>
    dsimp only
    split
    -- a quote is one byte long, by which the reader of bytes passes it
    · next hx =>
      have hsize : x.utf8Size = 1 := by
        rcases (Bool.or_eq_true _ _).mp hx with hx | hx
        · exact eq_of_beq hx ▸ rfl
        · exact eq_of_beq hx ▸ rfl
      have hstep := (Cursor.step_of_rest hrest).2
      rw [hsize] at hstep
      rw [← hstep]
      refine agrees_takeParts (fun q hq => Option.some.inj hq ▸ hsize) h.step (.refl _) ?_
      rw [(Cursor.step_of_rest hrest).1, List.length_cons]
      omega
    · split
      -- without quotes the value ends at white space, and it must not be empty
      · next hsees =>
        exact (agrees_takeAttributeMustache h hsees).map fun found _ h₁ =>
          agrees_ok (a := ([AttributePart.expression found.1], found.2)) h₁
      · have hquote : ∀ q ∈ (none : Option Char), q.utf8Size = 1 := nofun
        refine (agrees_takeParts hquote h (.refl _) ?_).bind fun found _ h₁ => ?_
        · rw [hrest]
          exact Nat.lt_succ_self _
        · dsimp only
          split
          · exact agrees_expectedHere h₁ _
          · exact agrees_ok h₁

theorem agrees_takeValue (h : (Cursor.ofText s).LeadsTo c) :
    Agrees s Prod.snd atOffset (Slicer.takeValue s c.offset) (takeValue c) := by
  have hsees : "=".toList.isPrefixOf (Text.trimStart c.rest) = c.skipBlank.sees "=" := by
    rw [Cursor.sees, rest_skipBlank]
  rw [Slicer.takeValue, cut_eq h, pure_bind, takeValue, hsees]
  split
  · next heq =>
    have hoffset : c.skipBlank.step.offset = c.skipBlank.offset + 1 := offset_move_of_sees heq
    have hplace := h.skipBlank.step
    rw [skipBlank_eq h, pure_bind, ← hoffset, skipBlank_eq hplace, pure_bind]
    exact (agrees_takeAttributeValue hplace.skipBlank).map fun found _ h₁ =>
      agrees_ok (a := (some found.1, found.2)) h₁
  · exact agrees_ok (a := ((none : Option (List AttributePart)), c)) h

theorem agrees_takeAttributes {bound : Nat} (attributes : List Attribute)
    (h : (Cursor.ofText s).LeadsTo c) (hbound : c.rest.length < bound) :
    Agrees s Prod.snd atOffset (Slicer.takeAttributes s bound attributes c.offset)
      (takeAttributes bound attributes c) := by
  induction bound generalizing attributes c with
  | zero => exact absurd hbound (Nat.not_lt_zero _)
  | succ bound ih =>
    have hblank := h.skipBlank
    unfold Slicer.takeAttributes
    rw [takeAttributes_succ, skipBlank_eq h, pure_bind, cut_eq hblank, pure_bind]
    dsimp only
    split
    · exact agrees_ok (a := (attributes.reverse, c.skipBlank)) hblank
    · rw [wordOf_eq hblank, pure_bind]
      split
      · exact agrees_expectedHere hblank _
      · next hname =>
        rw [← Cursor.offset_move_front (List.takeWhile_prefix _)]
        refine (agrees_takeValue (hblank.move _)).bind fun found hfound h₁ => ?_
        dsimp only
        split
        · exact agrees_error
        -- the name is not empty, so that the fuel for the other attributes is enough
        · have hname : 0 < (c.skipBlank.rest.takeWhile fun x => !endsAttributeName x).length :=
            List.length_pos_iff.2 fun hnil => hname (List.isEmpty_iff.2 hnil)
          have hne : c.skipBlank.rest ≠ [] := fun hnil => by
            rw [hnil] at hname
            exact absurd hname (Nat.lt_irrefl 0)
          have hleads := ((lands_takeValue _).ok found hfound).1
          have hlt := Nat.lt_of_lt_of_le (Cursor.offset_lt_move hne hname) hleads.offset_le
          have hless := length_lt_of_leadsTo (((Cursor.LeadsTo.refl _).move _).trans hleads) hlt
          have hblanks := (List.dropWhile_sublist Text.isBlank (l := c.rest)).length_le
          refine ih _ h₁ ?_
          rw [rest_skipBlank, Text.trimStart] at hless
          omega

end Attributes

/-! ### Frames -/

section Frames

open PromptMarkup.Frame (Stacked)

variable {s : List Char} {c : Cursor} {frames : List Frame}

theorem append_eq (h : Stacked frames) (n : Node) :
    Slicer.append n frames = pure (appendNode n frames) := by
  cases frames with
  | nil => exact absurd rfl h.ne_nil
  | cons f rest => rfl

theorem acceptsElse_eq (c : Cursor) (elseIf : Bool) (frames : List Frame) :
    Slicer.acceptsElse elseIf frames = Reader.acceptsElse ⟨c, frames⟩ elseIf := by
  unfold Slicer.acceptsElse Reader.acceptsElse
  cases frames with
  | nil => rfl
  | cons f rest =>
    cases f with
    | ifBlock start blank condition isElseIf children otherwise => cases otherwise <;> rfl
    | forBlock start blank header children otherwise => cases otherwise <;> rfl
    | _ => rfl

theorem openElse_eq {elseIf : Bool} (h : Reader.acceptsElse ⟨c, frames⟩ elseIf = true)
    (start : Nat) :
    Slicer.openElse start frames = pure (Reader.openElse start frames) := by
  obtain ⟨_, _, _, _, _, _, rfl⟩ | ⟨-, _, _, _, _, _, rfl⟩ := acceptsElse_eq_true h
  · rfl
  · rfl

/-- Looking for the `if` to close finds where it starts, or the problem that there is none. -/
theorem chainStart_cases (h : Stacked frames) (closeStart stop : Nat) :
    (∃ f ∈ frames, ∃ start, f.opening? = some (start, chainBlankBefore frames) ∧
      Slicer.chainStart closeStart stop frames = pure start) ∨
    ∃ p, Slicer.chainStart closeStart stop frames = throw p ∧
      ∀ t inner, closeIf t closeStart stop inner frames = .error p := by
  induction frames with
  | nil => exact absurd rfl h.ne_nil
  | cons f rest ih =>
    cases f with
    | ifBlock start blank condition elseIf children otherwise =>
      -- only a chain of `else if` is looked through, down to the `if` that opened it
      cases elseIf with
      | false => exact .inl ⟨_, List.mem_cons_self, start, rfl, rfl⟩
      | true =>
        rcases ih (h.tail rfl) with ⟨f, hf, start, hopening, hstart⟩ | ⟨p, hstart, hclose⟩
        · exact .inl ⟨f, List.mem_cons_of_mem _ hf, start, hopening, hstart⟩
        · refine .inr ⟨p, hstart, fun t inner => ?_⟩
          cases inner with
          | none => exact hclose t _
          | some n => cases otherwise <;> exact hclose t _
    | _ => exact .inr ⟨_, rfl, fun _ _ => rfl⟩

theorem closeChain_eq (h : Stacked frames) (t : Trim) (closeStart stop : Nat)
    (inner : Option Node) :
    Slicer.closeChain t closeStart stop inner frames =
      lift (closeIf t closeStart stop inner frames) := by
  induction frames generalizing inner with
  | nil => exact absurd rfl h.ne_nil
  | cons f rest ih =>
    cases f with
    | ifBlock start blank condition elseIf children otherwise =>
      have hrest : Stacked rest := h.tail rfl
      cases elseIf with
      | true =>
        cases inner with
        | none => exact ih hrest _
        | some n => cases otherwise <;> exact ih hrest _
      | false =>
        cases inner with
        | none => exact append_eq hrest _
        | some n => cases otherwise <;> exact append_eq hrest _
    | _ => rfl

/-- An `if` is closed; the blocks on the stack know what is in front of them. -/
theorem closeIf_eq {r : Reader} (h : r.Steady s) (hc : (Cursor.ofText s).LeadsTo c)
    (closeStart : Nat) :
    Slicer.closeIf s closeStart c.offset r.frames =
      lift (closeIf
        ⟨chainBlankBefore r.frames, blankAfter c⟩ closeStart c.offset none r.frames) := by
  rcases chainStart_cases h.stacked closeStart c.offset with ⟨f, hf, start, hopening, hstart⟩ |
    ⟨p, hstart, hclose⟩
  · obtain ⟨front, hfront, heq⟩ := h.openings f hf _ hopening
    obtain ⟨rfl, hblank⟩ := Prod.mk.inj heq
    rw [Slicer.closeIf, hstart, pure_bind, cut_eq hfront, pure_bind, cut_eq hc, pure_bind, ← hblank]
    exact closeChain_eq h.stacked _ _ _ _
  · rw [Slicer.closeIf, hstart, hclose]
    rfl

theorem closeFor_eq {r : Reader} (h : r.Steady s) (hc : (Cursor.ofText s).LeadsTo c)
    (closeStart : Nat) :
    Slicer.closeFor s closeStart c.offset r.frames =
      lift (closeFor (blankAfter c) closeStart c.offset r.frames) := by
  obtain ⟨-, hstacked, hopenings⟩ := h
  cases hframes : r.frames with
  | nil => exact absurd hframes hstacked.ne_nil
  | cons f rest =>
    rw [hframes] at hstacked hopenings
    cases f with
    | forBlock start blank header children otherwise =>
      obtain ⟨front, hfront, heq⟩ := hopenings _ List.mem_cons_self _ rfl
      obtain ⟨rfl, rfl⟩ := Prod.mk.inj heq
      rw [Slicer.closeFor, cut_eq hfront, pure_bind, cut_eq hc, pure_bind]
      exact append_eq (hstacked.tail rfl) _
    | _ => rfl

theorem closeElement_eq (h : Stacked frames) (name : String) (closeStart stop : Nat) :
    Slicer.closeElement name closeStart stop frames =
      lift (closeElement name closeStart stop frames) := by
  cases frames with
  | nil => exact absurd rfl h.ne_nil
  | cons f rest =>
    cases f with
    | element start opened as children =>
      rw [Slicer.closeElement, closeElement]
      split
      · exact append_eq (h.tail rfl) _
      · rfl
    | _ => rfl

end Frames

/-! ### Constructs -/

/-- The byte offset of a reader, and what is open. -/
abbrev Reader.slicer (r : Reader) : Slicer :=
  ⟨r.cursor.offset, r.frames⟩

section Constructs

variable {s : List Char} {r : Reader} {c : Cursor}

theorem agrees_text (h : r.Steady s) :
    Agrees s Reader.cursor Reader.slicer (r.slicer.text s) (.ok r.text) := by
  rw [Slicer.text, cut_eq h.place, pure_bind,
    takeText_eq h.place (Nat.lt_succ_self _) (Nat.le_refl _), pure_bind,
    decide_eq_false (Nat.lt_irrefl _)]
  dsimp only [Bool.not_false]
  rw [append_eq h.stacked, pure_bind]
  exact agrees_ok (a := r.text) (leadsTo_takeText h.place r.frames
    (r.cursor.rest.length + 1) true [])

theorem lengthToCommentEnd?_eq (s : List Char) :
    lengthToCommentEnd? s = (Text.cut? "*/".toList s).map fun found => found.1.length := by
  fun_induction lengthToCommentEnd? s with
  | case1 => rfl
  | case2 rest =>
    have hcut : Text.cut? "*/".toList ('*' :: '/' :: rest) = some ([], rest) :=
      Text.cut?_append "*/".toList rest
    rw [hcut]
    rfl
  | case3 x rest h ih =>
    have hnot : ¬"*/".toList <+: x :: rest := by
      rintro ⟨t, ht⟩
      obtain ⟨rfl, rfl⟩ := List.cons.inj ht
      exact h t rfl rfl
    rw [ih, Text.cut?_cons hnot, Option.map_map, Option.map_map]
    rfl

theorem agrees_comment (h : r.Steady s) (hsees : r.cursor.sees "/*" = true) :
    Agrees s Reader.cursor Reader.slicer (r.slicer.comment s) r.comment := by
  have hbody : (r.cursor.move 2).offset = r.cursor.offset + 2 := offset_move_of_sees hsees
  have hplace := h.place.move 2
  rw [Slicer.comment, Reader.comment]
  dsimp only
  rw [← hbody, cut_eq hplace, pure_bind, lengthToCommentEnd?_eq]
  -- a comment that is not closed is a problem over all that is left
  cases hcut : Text.cut? "*/".toList (r.cursor.move 2).rest with
  | none =>
    have hend := h.place.final_ofText
    rw [Cursor.final] at hend
    rw [← hend]
    exact agrees_error
  | some found =>
    obtain ⟨front, behind⟩ := found
    have hrest := Text.eq_of_cut? hcut
    rw [List.append_assoc] at hrest
    have hstop : ((r.cursor.move 2).move (front.length + 2)).offset =
        (r.cursor.move 2).offset + byteLength front + 2 := by
      rw [← List.append_assoc] at hrest
      have hoffset := Cursor.offset_move_front (c := r.cursor.move 2) ⟨behind, hrest.symm⟩
      rw [List.length_append, Text.byteLength_append, ← Nat.add_assoc] at hoffset
      exact hoffset
    have htake : (r.cursor.move 2).rest.take front.length = front := by rw [hrest, List.take_left]
    dsimp only [Option.map_some]
    rw [Cursor.slice?_of_leadsTo hplace hrest, ← hstop, htake, need_some, pure_bind,
      append_eq h.stacked, pure_bind]
    exact agrees_ok (a := r.add ((r.cursor.move 2).move (front.length + 2)) _)
      (hplace.move (front.length + 2))

theorem agrees_config [ConfigReader] (h : r.Steady s) :
    Agrees s Reader.cursor Reader.slicer (r.slicer.config s) r.config := by
  rw [Slicer.config, configClose_eq h.place, pure_bind, Reader.config]
  have hplace : (Cursor.ofText s).LeadsTo (nextLine r.cursor) := h.place.trans ⟨_, nextLine_eq _⟩
  have hbody : (r.cursor.moveWhile (· != '\n')).step = nextLine r.cursor := rfl
  dsimp only
  rw [hbody]
  cases hclose : lengthToDelimiter? true (nextLine r.cursor).rest with
  | none => exact agrees_expectedHere h.place _
  | some length =>
    -- a closing line was found, so that the opening line has an end
    have hcontains : r.cursor.rest.contains '\n' = true := by
      refine Decidable.byContradiction fun hnot => ?_
      rw [rest_nextLine_of_not_contains hnot] at hclose
      exact nomatch hclose
    obtain ⟨x, rest, hbreak⟩ := List.exists_cons_of_ne_nil ((contains_break_iff _).1 hcontains)
    dsimp only [Option.map_some]
    have hslice : Text.slice? s (nextLine r.cursor).offset
      ((nextLine r.cursor).move length).offset =
        some ((nextLine r.cursor).rest.take length) := by
      rw [Cursor.offset_move]
      exact Cursor.slice?_of_leadsTo hplace (List.take_append_drop length _).symm
    rw [cut_eq h.place, pure_bind, if_pos hcontains, ← offset_nextLine hbreak, hslice, need_some,
      pure_bind]
    refine (agrees_lift h.place _).bind fun value _ _ => ?_
    rw [append_eq h.stacked, pure_bind]
    exact agrees_ok (a := r.add (((nextLine r.cursor).move length).moveWhile (· != '\n')) _)
      ((hplace.move length).moveWhile _)

theorem agrees_ifOpen (h : r.Steady s) (hc : (Cursor.ofText s).LeadsTo c) :
    Agrees s Reader.cursor Reader.slicer (r.slicer.ifOpen s c.offset) (r.ifOpen c) := by
  rw [Slicer.ifOpen, Reader.ifOpen]
  refine (agrees_takeExpression hc).bind fun found _ h₁ =>
    (agrees_takeClosing h₁).bind fun d _ h₂ => ?_
  rw [cut_eq h.place, pure_bind]
  exact agrees_ok (a := r.push d _) h₂

theorem agrees_elseClause (hc : (Cursor.ofText s).LeadsTo c) :
    Agrees s Reader.cursor Reader.slicer (r.slicer.elseClause s c.offset) (r.elseClause c) := by
  have hblank := hc.skipBlank
  rw [Slicer.elseClause, Reader.elseClause, skipBlank_eq hc, pure_bind, wordOf_eq hblank, pure_bind]
  dsimp only
  -- both ask the same of what is open before they look at the word behind
  rw [acceptsElse_eq r.cursor]
  change Agrees s Reader.cursor Reader.slicer (if (!r.acceptsElse (seesWord c.skipBlank "if")) =
    true then _ else
    if seesWord c.skipBlank "if" = true then _ else _) _
  split
  · exact agrees_error
  · next haccepts =>
    rw [Bool.not_eq_true, Bool.not_eq_false'] at haccepts
    split
    · next hword =>
      have hoffset : (c.skipBlank.move 2).offset = c.skipBlank.offset + 2 :=
        offset_move_of_seesWord hword
      rw [← hoffset]
      refine (agrees_takeExpression (hblank.move 2)).bind fun found _ h₁ =>
        (agrees_takeClosing h₁).bind fun d _ h₂ => ?_
      rw [openElse_eq haccepts, pure_bind]
      exact agrees_ok (a := (⟨d, _⟩ : Reader)) h₂
    · refine (agrees_takeClosing hblank).bind fun d _ h₁ => ?_
      rw [openElse_eq haccepts, pure_bind]
      exact agrees_ok (a := (⟨d, _⟩ : Reader)) h₁

theorem agrees_takeIndex (hc : (Cursor.ofText s).LeadsTo c) :
    Agrees s Prod.snd atOffset (Slicer.takeIndex s c.offset) (Reader.takeIndex c) := by
  rw [Slicer.takeIndex, cut_eq hc, pure_bind, Reader.takeIndex]
  split
  · next hsees =>
    have hoffset : c.step.offset = c.offset + 1 := offset_move_of_sees hsees
    rw [← hoffset, skipBlank_eq hc.step, pure_bind]
    refine (agrees_takeName hc.step.skipBlank _).map fun found _ h₁ => ?_
    dsimp only
    rw [skipBlank_eq h₁, pure_bind]
    exact agrees_ok (a := (some found.1, found.2.skipBlank)) h₁.skipBlank
  · exact agrees_ok (a := ((none : Option String), c)) hc

theorem agrees_takeKey (hc : (Cursor.ofText s).LeadsTo c) :
    Agrees s Prod.snd atOffset (Slicer.takeKey s c.offset) (Reader.takeKey c) := by
  rw [Slicer.takeKey, cut_eq hc, pure_bind, Reader.takeKey]
  split
  · next hsees =>
    have hoffset : c.step.offset = c.offset + 1 := offset_move_of_sees hsees
    rw [← hoffset]
    refine (agrees_takeExpression hc.step).bind fun found _ h₁ => ?_
    have hblank := h₁.skipBlank
    dsimp only
    rw [skipBlank_eq h₁, pure_bind, cut_eq hblank, pure_bind]
    split
    · next hsees =>
      have hoffset : found.2.skipBlank.step.offset = found.2.skipBlank.offset + 1 :=
        offset_move_of_sees hsees
      rw [← hoffset, skipBlank_eq hblank.step, pure_bind]
      exact agrees_ok (a := (some found.1, found.2.skipBlank.step.skipBlank)) hblank.step.skipBlank
    · exact agrees_expectedHere hblank _
  · exact agrees_ok (a := ((none : Option Expr), c)) hc

theorem agrees_forOpen (h : r.Steady s) (hc : (Cursor.ofText s).LeadsTo c) :
    Agrees s Reader.cursor Reader.slicer (r.slicer.forOpen s c.offset) (r.forOpen c) := by
  rw [Slicer.forOpen, Reader.forOpen_eq, skipBlank_eq hc, pure_bind]
  refine (agrees_takeName hc.skipBlank _).bind fun item _ h₁ => ?_
  dsimp only
  rw [skipBlank_eq h₁, pure_bind]
  refine (agrees_takeIndex h₁.skipBlank).bind fun index _ h₂ =>
    (agrees_takeKey h₂).bind fun key _ h₃ => ?_
  dsimp only
  rw [wordOf_eq h₃, pure_bind]
  change Agrees s Reader.cursor Reader.slicer (if seesWord key.2 "in" = true then _ else _) _
  split
  · next hword =>
    have hoffset : (key.2.move 2).offset = key.2.offset + 2 := offset_move_of_seesWord hword
    rw [← hoffset]
    refine (agrees_takeExpression (h₃.move 2)).bind fun iterable _ h₄ =>
      (agrees_takeClosing h₄).bind fun d _ h₅ => ?_
    rw [cut_eq h.place, pure_bind]
    exact agrees_ok (a := r.push d _) h₅
  · exact agrees_expectedHere h₃ _

theorem agrees_mustache (h : r.Steady s) (hsees : r.cursor.sees openBraces = true) :
    Agrees s Reader.cursor Reader.slicer (r.slicer.mustache s) r.mustache := by
  have hoffset : (r.cursor.move 2).offset = r.cursor.offset + 2 := offset_move_of_sees hsees
  have hplace := h.place.move 2
  rw [Slicer.mustache, Reader.mustache]
  dsimp only
  rw [← hoffset, skipBlank_eq hplace, pure_bind, wordOf_eq hplace.skipBlank, pure_bind]
  generalize hc : (r.cursor.move 2).skipBlank = c
  have hplace : (Cursor.ofText s).LeadsTo c := hc ▸ hplace.skipBlank
  -- one case for each word that opens, divides or closes a block, and one for an expression
  change Agrees s Reader.cursor Reader.slicer (if seesWord c "if" = true then _ else
    if seesWord c "else" = true then _ else if seesWord c "endif" = true then _ else
    if seesWord c "for" = true then _ else if seesWord c "endfor" = true then _ else _) _
  split
  · next hword =>
    have hoffset : (c.move 2).offset = c.offset + 2 := offset_move_of_seesWord hword
    rw [← hoffset]
    exact agrees_ifOpen h (hplace.move 2)
  split
  · next hword =>
    have hoffset : (c.move 4).offset = c.offset + 4 := offset_move_of_seesWord hword
    rw [← hoffset]
    exact agrees_elseClause (hplace.move 4)
  split
  · next hword =>
    have hoffset : (c.move 5).offset = c.offset + 5 := offset_move_of_seesWord hword
    rw [← hoffset]
    refine (agrees_takeClosing (hplace.move 5)).bind fun d _ hd => ?_
    rw [closeIf_eq (c := d) h hd]
    exact (agrees_lift h.place _).bind fun frames _ _ => agrees_ok (a := (⟨d, frames⟩ : Reader)) hd
  split
  · next hword =>
    have hoffset : (c.move 3).offset = c.offset + 3 := offset_move_of_seesWord hword
    rw [← hoffset]
    exact agrees_forOpen h (hplace.move 3)
  split
  · next hword =>
    have hoffset : (c.move 6).offset = c.offset + 6 := offset_move_of_seesWord hword
    rw [← hoffset]
    refine (agrees_takeClosing (hplace.move 6)).bind fun d _ hd => ?_
    rw [closeFor_eq (c := d) h hd]
    exact (agrees_lift h.place _).bind fun frames _ _ => agrees_ok (a := (⟨d, frames⟩ : Reader)) hd
  · refine (agrees_takeExpression hplace).bind fun found _ h₁ =>
      (agrees_takeClosing h₁).bind fun d _ h₂ => ?_
    rw [append_eq h.stacked, pure_bind]
    exact agrees_ok (a := r.add d _) h₂

/-- A tag starts with a character of one byte. -/
theorem sees_of_seesTag (h : seesTag c.rest = true) : c.sees "<" = true := by
  unfold seesTag at h
  split at h
  · next heq => rw [Cursor.sees, heq]; rfl
  · next heq => rw [Cursor.sees, heq]; rfl
  · exact nomatch h

theorem agrees_tag (h : r.Steady s) (htag : seesTag r.cursor.rest = true) :
    Agrees s Reader.cursor Reader.slicer (r.slicer.tag s) r.tag := by
  have hstep : r.cursor.step.offset = r.cursor.offset + 1 :=
    offset_move_of_sees (sees_of_seesTag htag)
  have hplace := h.place.step
  rw [Slicer.tag, Reader.tag]
  dsimp only
  rw [← hstep, cut_eq hplace, pure_bind]
  -- a closing tag: the name decides, and white space may stand behind it
  split
  · next hslash =>
    have hslash' : r.cursor.step.step.offset = r.cursor.step.offset + 1 :=
      offset_move_of_sees hslash
    have hoffset : r.cursor.step.step.offset = r.cursor.offset + 2 := by rw [hslash', hstep]
    rw [← hoffset, wordOf_eq hplace.step, pure_bind,
      ← Cursor.offset_move_front (List.takeWhile_prefix _)]
    generalize hname : r.cursor.step.step.rest.takeWhile Reader.isTagNamePart = name
    have hend := hplace.step.move name.length
    generalize r.cursor.step.step.move name.length = c at hend
    rw [skipBlank_eq hend, pure_bind, cut_eq hend.skipBlank, pure_bind]
    split
    · next hsees =>
      have hclosed : c.skipBlank.step.offset = c.skipBlank.offset + 1 := offset_move_of_sees hsees
      rw [← hclosed, closeElement_eq h.stacked]
      exact (agrees_lift h.place _).bind fun frames _ _ =>
        agrees_ok (a := (⟨c.skipBlank.step, frames⟩ : Reader)) hend.skipBlank.step
    · exact agrees_expectedHere hend.skipBlank _
  -- an opening tag: its attributes are read, then it is closed at once or opened
  · rw [wordOf_eq hplace, pure_bind, ← Cursor.offset_move_front (List.takeWhile_prefix _)]
    have hbound :
      (r.cursor.step.move (r.cursor.step.rest.takeWhile Reader.isTagNamePart).length).rest.length <
        r.cursor.step.rest.length + 1 := by
      rw [Cursor.rest_move, List.length_drop]
      omega
    refine (agrees_takeAttributes [] (hplace.move _) hbound).bind fun found _ hend => ?_
    dsimp only
    rw [skipBlank_eq hend, pure_bind, cut_eq hend.skipBlank, pure_bind]
    split
    · next hsees =>
      have hclosed : (found.2.skipBlank.move 2).offset = found.2.skipBlank.offset + 2 :=
        offset_move_of_sees hsees
      rw [← hclosed, append_eq h.stacked, pure_bind]
      exact agrees_ok (a := r.add (found.2.skipBlank.move 2) _) (hend.skipBlank.move 2)
    · split
      · next hsees =>
        have hopened : found.2.skipBlank.step.offset = found.2.skipBlank.offset + 1 :=
          offset_move_of_sees hsees
        rw [← hopened]
        exact agrees_ok (a := r.push found.2.skipBlank.step _) hend.skipBlank.step
      · exact agrees_expectedHere hend.skipBlank _

/-- A step does not break down, and gives what a step of a cursor gives. -/
theorem agrees_step [ConfigReader] (h : r.Steady s) :
    Agrees s Reader.cursor Reader.slicer (r.slicer.step s) r.step := by
  rw [Slicer.step, Reader.step, cut_eq h.place, pure_bind, seesConfig_eq h.place, pure_bind]
  dsimp only
  split
  · exact agrees_config h
  · split
    · next hsees => exact agrees_comment h hsees
    · split
      · next hsees => exact agrees_mustache h hsees
      · split
        · next htag => exact agrees_tag h htag
        · exact agrees_text h

end Constructs

end PromptMarkup

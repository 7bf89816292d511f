/-
Spans in the text of a template.

* `Lands` — what is read from a cursor on ends at or behind it, and a problem is one of the text;
* `StartsBetween` — expressions were read in the text and start one after the other;
* `lands_takeAttributes` — the attributes of a tag lie between places, and so do their expressions,
  one after the other;
* `takeText_spec` — what is read as text is what stands there, up to the backslashes (`unescaped`);
* `Node.DistinctSpans` — the expressions of a node can be told apart by their spans.

Design notes: each reader has one lemma, for what it gives and for the problem it may end with.
-/
import Mathlib.Data.List.Nodup
import PromptMarkup.Proofs.Lexing
import PromptMarkup.Template.Reader
import PromptMarkup.Text.Search

namespace PromptMarkup

open Text (Cursor)

/-! ### Expressions of nodes -/

/-- The spans of expressions. -/
def spansOf (es : List Expr) : List Span :=
  es.map Expr.span

/-- The expressions of a node can be told apart by their spans. -/
def Node.DistinctSpans (n : Node) : Prop :=
  (spansOf n.expressions).Nodup

/-- The expression that a part of an attribute is. -/
def AttributePart.expression? : AttributePart → Option Expr
  | .text _ _ => none
  | .expression e => some e

/-- The expressions among the parts of the value of an attribute. -/
def expressionsOf (parts : List AttributePart) : List Expr :=
  parts.filterMap AttributePart.expression?

theorem expressionsOf_textPart (start stop : Cursor) : expressionsOf (textPart start stop) =
    [] := by
  unfold textPart
  split
  · rfl
  · rfl

/-- Expressions from a cursor on start one after the other in front of an offset. -/
structure StartsBetween (c : Cursor) (high : Nat) (es : List Expr) : Prop where
  sorted : (es.map Expr.start).Pairwise (· < ·)
  inside : ∀ e ∈ es, e.Embedded c ∧ e.start < high

namespace StartsBetween

variable {b c : Cursor} {mid high high' : Nat} {es es' : List Expr}

theorem nil : StartsBetween c high [] :=
  ⟨List.Pairwise.nil, fun _ he => nomatch he⟩

theorem one {e : Expr} (h : e.Embedded c) (hstart : e.start < high) : StartsBetween c high [e] :=
  ⟨List.pairwise_singleton _ _, fun _ he => List.mem_singleton.1 he ▸ ⟨h, hstart⟩⟩

theorem mono (h : StartsBetween c high es) (hb : b.LeadsTo c) (hhigh : high ≤ high') :
    StartsBetween b high' es :=
  ⟨h.sorted, fun e he =>
    ⟨(h.inside e he).1.behind hb, Nat.lt_of_lt_of_le (h.inside e he).2 hhigh⟩⟩

theorem append (h : StartsBetween b c.offset es) (h' : StartsBetween c high es') (hb : b.LeadsTo c)
    (hhigh : c.offset ≤ high) : StartsBetween b high (es ++ es') := by
  refine ⟨?_, fun e he => ?_⟩
  · rw [List.map_append, List.pairwise_append]
    refine ⟨h.sorted, h'.sorted, fun m hm n hn => ?_⟩
    obtain ⟨x, hx, rfl⟩ := List.mem_map.1 hm
    obtain ⟨y, hy, rfl⟩ := List.mem_map.1 hn
    exact Nat.lt_of_lt_of_le (h.inside x hx).2 (h'.inside y hy).1.marked.self.first.le
  · rcases List.mem_append.1 he with he | he
    · exact (h.mono (.refl b) hhigh).inside e he
    · exact (h'.mono hb (Nat.le_refl _)).inside e he

/-- Expressions that start one after the other have different spans. -/
theorem nodup_spans (h : StartsBetween c high es) : (spansOf es).Nodup := by
  have hstarts : ((spansOf es).map Span.start).Nodup := by
    rw [spansOf, List.map_map]
    exact h.sorted.imp Nat.ne_of_lt
  exact List.Nodup.of_map _ hstarts

end StartsBetween

/-! ### Readers -/

/-- A result that was read from `c` on has a property, and reading goes on at or behind `c`; a
problem is one of the text. -/
structure Lands {α : Type} (c : Cursor) (place : α → Cursor) (P : α → Prop) (x : Except Problem α) :
    Prop where
  ok : ∀ a, x = .ok a → c.LeadsTo (place a) ∧ P a
  error : ∀ p, x = .error p → p.Own c

section Lands

variable {α β : Type} {b c : Cursor} {place : α → Cursor} {place' : β → Cursor} {P : α → Prop}
  {Q : β → Prop}

theorem lands_ok {a : α} (h : c.LeadsTo (place a)) (ha : P a) : Lands c place P (.ok a) := by
  refine ⟨fun a' heq => ?_, fun _ heq => nomatch heq⟩
  obtain rfl := Except.ok.inj heq
  exact ⟨h, ha⟩

theorem lands_error {p : Problem} (h : p.Own c) : Lands c place P (.error p) :=
  ⟨fun _ heq => (nomatch heq), fun _ heq => Except.error.inj heq ▸ h⟩

theorem Lands.bind {x : Except Problem α} {f : α → Except Problem β} (hx : Lands c place P x)
    (hf : ∀ a, c.LeadsTo (place a) → P a → Lands c place' Q (f a)) :
    Lands c place' Q (x >>= f) := by
  cases x with
  | error p => exact lands_error (hx.error p rfl)
  | ok a =>
    obtain ⟨hplace, ha⟩ := hx.ok a rfl
    exact hf a hplace ha

theorem Lands.map {x : Except Problem α} {f : α → β} (hx : Lands c place P x)
    (hf : ∀ a, c.LeadsTo (place a) → P a → c.LeadsTo (place' (f a)) ∧ Q (f a)) :
    Lands c place' Q (x.map f) := by
  cases x with
  | error p => exact lands_error (hx.error p rfl)
  | ok a =>
    obtain ⟨hplace, ha⟩ := hx.ok a rfl
    obtain ⟨hplace', hb⟩ := hf a hplace ha
    exact lands_ok hplace' hb

theorem Lands.imp {P' : α → Prop} {x : Except Problem α} (hx : Lands c place P x)
    (himp : ∀ a, c.LeadsTo (place a) → P a → P' a) : Lands c place P' x :=
  ⟨fun a ha => ⟨(hx.ok a ha).1, himp a (hx.ok a ha).1 (hx.ok a ha).2⟩, hx.error⟩

/-- Reading may have started in front of the cursor. -/
theorem Lands.behind {x : Except Problem α} (hx : Lands c place P x) (h : b.LeadsTo c) :
    Lands b place (fun a => c.LeadsTo (place a) ∧ P a) x :=
  ⟨fun a ha => ⟨h.trans (hx.ok a ha).1, hx.ok a ha⟩, fun p hp => (hx.error p hp).behind h⟩

end Lands

theorem own_expectedHere (c : Cursor) (expected : String) : (expectedHere c expected).Own c := by
  have hblank : c.LeadsTo c.skipBlank := (Cursor.LeadsTo.refl c).skipBlank
  unfold expectedHere
  dsimp only
  split
  · exact Problem.own_of_marks (hblank.marks (.refl _))
  · next x rest hrest =>
    have hx : c.Continues (c.skipBlank.offset + x.utf8Size) rest :=
      Cursor.Continues.tail ⟨c.skipBlank, hblank, rfl, hrest⟩
    exact Problem.own_of_marks ⟨Nat.le_add_right _ _, hblank.meets, hx.meets⟩

theorem lands_expectedHere {α : Type} {b c : Cursor} {place : α → Cursor} {P : α → Prop}
    (h : b.LeadsTo c) (expected : String) : Lands b place P (.error (expectedHere c expected)) :=
  lands_error ((own_expectedHere c expected).behind h)

theorem lands_takeName (expected : String) (c : Cursor) :
    Lands c Prod.snd (fun _ => True) (takeName expected c) := by
  unfold takeName takeName?
  dsimp only
  split
  · next found hfound =>
    split at hfound
    · obtain rfl := Option.some.inj hfound
      exact lands_ok ((Cursor.LeadsTo.refl c).move _) trivial
    · exact nomatch hfound
  · exact lands_expectedHere (.refl c) _

theorem lands_takeExpression (c : Cursor) :
    Lands c Prod.snd (fun found => StartsBetween c found.2.offset [found.1])
    (takeExpression c) := by
  unfold takeExpression
  cases hread : Expr.readEmbedded c with
  | error p => exact lands_error (Expr.readEmbedded_eq_error hread)
  | ok found =>
    obtain ⟨e, stop⟩ := found
    obtain ⟨-, hstop, hplace⟩ := Expr.readEmbedded_eq_ok hread
    refine lands_ok ((Cursor.LeadsTo.refl c).moveTo stop) (.one ⟨c, stop, .refl c, hread⟩ ?_)
    exact Nat.lt_of_lt_of_eq hstop (Cursor.offset_moveTo hplace).symm

theorem lands_takeClosing (c : Cursor) : Lands c id (fun _ => True) (takeClosing c) := by
  unfold takeClosing
  dsimp only
  split
  · exact lands_ok ((Cursor.LeadsTo.refl c).skipBlank.move 2) trivial
  · exact lands_expectedHere (Cursor.LeadsTo.refl c).skipBlank _

theorem lands_takeAttributeMustache (c : Cursor) :
    Lands c Prod.snd (fun found => StartsBetween c found.2.offset [found.1])
    (takeAttributeMustache c) := by
  have hstart : c.LeadsTo (c.move 2).skipBlank := ((Cursor.LeadsTo.refl c).move 2).skipBlank
  unfold takeAttributeMustache
  refine ((lands_takeExpression _).behind hstart).bind fun found h₁ ⟨_, he⟩ => ?_
  refine ((lands_takeClosing found.2).behind h₁).bind fun c₂ h₂ ⟨hbehind, _⟩ => ?_
  exact lands_ok h₂ (he.mono hstart hbehind.offset_le)

theorem lands_takeParts (quote : Option Char) (bound : Nat) (start c : Cursor) :
    Lands c Prod.snd (fun found => StartsBetween c found.2.offset (expressionsOf found.1))
      (takeParts quote bound start c) := by
  induction bound generalizing start c with
  | zero => exact lands_ok (.refl c) .nil
  | succ bound ih =>
    unfold takeParts
    have hquoted : c.LeadsTo (if quote.isSome then c.step else c) := by
      split
      · exact (Cursor.LeadsTo.refl c).step
      · exact .refl c
    -- the part ends here, or a mustache starts, or one more character is text
    have hrest : ∀ ended : Bool,
        Lands c Prod.snd (fun found => StartsBetween c found.2.offset (expressionsOf found.1))
        (if ended then .ok (textPart start c, if quote.isSome then c.step else c)
        else if c.sees openBraces then do
          let found ← takeAttributeMustache c
          let others ← takeParts quote bound found.2 found.2
          return (textPart start c ++ .expression found.1 :: others.1, others.2)
        else takeParts quote bound start c.step) := by
      intro ended
      split
      · exact lands_ok hquoted (expressionsOf_textPart start c ▸ .nil)
      · split
        -- the mustache's expression starts before those of the parts behind it
        · refine (lands_takeAttributeMustache c).bind fun found h₁ he => ?_
          refine ((ih found.2 found.2).behind h₁).bind fun others h₂ ⟨hbehind, hothers⟩ =>
            lands_ok h₂ ?_
          have hexpressions : expressionsOf (textPart start c ++ .expression found.1 :: others.1) =
              [found.1] ++ expressionsOf others.1 := by
            rw [expressionsOf, List.filterMap_append]
            exact congrArg (· ++ _) (expressionsOf_textPart start c)
          rw [hexpressions]
          exact he.append hothers h₁ hbehind.offset_le
        · have hstep : c.LeadsTo c.step := (Cursor.LeadsTo.refl c).step
          exact ((ih start c.step).behind hstep).imp fun found _ ⟨_, h⟩ =>
            h.mono hstep (Nat.le_refl _)
    split
    · split
      · exact lands_error (Problem.own_of_marks ((Cursor.LeadsTo.refl c).marks (.refl c)))
      · exact lands_ok (.refl c) .nil
    · exact hrest _

theorem lands_takeAttributeValue (c : Cursor) :
    Lands c Prod.snd (fun found => StartsBetween c found.2.offset (expressionsOf found.1))
      (takeAttributeValue c) := by
  unfold takeAttributeValue
  split
  · split
    · have hstep : c.LeadsTo c.step := (Cursor.LeadsTo.refl c).step
      exact ((lands_takeParts _ _ c.step c.step).behind hstep).imp fun found _ ⟨_, h⟩ =>
        h.mono hstep (Nat.le_refl _)
    · split
      · exact (lands_takeAttributeMustache c).map fun found h he => ⟨h, he⟩
      · refine (lands_takeParts none _ c c).bind fun found h hparts => ?_
        dsimp only
        split
        · exact lands_expectedHere h _
        · exact lands_ok h hparts
  · exact lands_expectedHere (.refl c) _

/-- What is done with one of two results is done with the one that there is. -/
theorem ite_bind {α β : Type} {p : Prop} [Decidable p] (x y : Except Problem α)
    (k : α → Except Problem β) :
    (if p then x >>= k else y >>= k) = (if p then x else y) >>= k := by
  split <;> rfl

/-- The value behind the name of an attribute, if there is one. -/
def takeValue (c : Cursor) : Except Problem (Option (List AttributePart) × Cursor) :=
  if c.skipBlank.sees "=" then
    (takeAttributeValue c.skipBlank.step.skipBlank).map fun found => (some found.1, found.2)
  else .ok (none, c)

theorem lands_takeValue (c : Cursor) :
    Lands c Prod.snd (fun found => StartsBetween c found.2.offset (expressionsOf (found.1.getD [])))
    (takeValue c) := by
  have hvalue : c.LeadsTo c.skipBlank.step.skipBlank :=
    (Cursor.LeadsTo.refl c).skipBlank.step.skipBlank
  unfold takeValue
  split
  · refine ((lands_takeAttributeValue _).behind hvalue).map fun found h ⟨_, hparts⟩ => ⟨h, ?_⟩
    exact hparts.mono hvalue (Nat.le_refl _)
  · exact lands_ok (.refl c) .nil

/-- An attribute has a name, and a value if there is one. -/
theorem takeAttributes_succ (bound : Nat) (attributes : List Attribute) (c : Cursor) :
    takeAttributes (bound + 1) attributes c =
      if c.skipBlank.atEnd || c.skipBlank.sees ">" || c.skipBlank.sees "/>" then
        .ok (attributes.reverse, c.skipBlank)
      else
        let name := c.skipBlank.rest.takeWhile fun x => !endsAttributeName x
        if name.isEmpty then .error (expectedHere c.skipBlank "an attribute name")
        else
          takeValue (c.skipBlank.move name.length) >>= fun found =>
            if (Attribute.find? attributes (String.ofList name)).isSome then
              .error ⟨.duplicateAttribute (String.ofList name), c.skipBlank.offset, found.2.offset,
                none, none⟩
            else takeAttributes bound
              (⟨⟨c.skipBlank.offset, found.2.offset⟩, String.ofList name, found.1⟩ :: attributes)
              found.2 := by
  rw [takeAttributes]
  dsimp only
  rw [takeValue, ite_bind]

/-- The attributes of a tag lie between places, and so do their expressions, which start one after
the other. -/
theorem lands_takeAttributes {b c : Cursor} {attributes : List Attribute} (bound : Nat)
    (hb : b.LeadsTo c) (hspans : ∀ a ∈ attributes, b.Marks a.span.start a.span.stop)
    (hfront : StartsBetween b c.offset (attributes.reverse.flatMap Attribute.expressions)) :
    Lands b Prod.snd (fun found => (∀ a ∈ found.1, b.Marks a.span.start a.span.stop) ∧
      StartsBetween b found.2.offset (found.1.flatMap Attribute.expressions))
      (takeAttributes bound attributes c) := by
  induction bound generalizing attributes c with
  | zero =>
    exact lands_ok hb ⟨fun a ha => hspans a (List.mem_reverse.1 ha), hfront⟩
  | succ bound ih =>
    have hblank : b.LeadsTo c.skipBlank := hb.skipBlank
    rw [takeAttributes_succ]
    dsimp only
    split
    · exact lands_ok hblank ⟨fun a ha => hspans a (List.mem_reverse.1 ha),
        hfront.mono (.refl b) (Cursor.LeadsTo.refl c).skipBlank.offset_le⟩
    · split
      · exact lands_expectedHere hblank _
      -- one more attribute: its name, its value, and the check that its name is new
      · generalize (c.skipBlank.rest.takeWhile fun x => !endsAttributeName x) = name
        refine ((lands_takeValue _).behind (hblank.move name.length)).bind
          fun found h ⟨hbehind, hparts⟩ => ?_
        have hvalue : c.skipBlank.LeadsTo found.2 := ((Cursor.LeadsTo.refl _).move _).trans hbehind
        have hmarks : b.Marks c.skipBlank.offset found.2.offset := hblank.marks hvalue
        split
        -- a name that was given before is refused at the attribute's own span
        · exact lands_error (Problem.own_of_marks hmarks)
        · refine ih h (fun a ha => ?_) ?_
          · rcases List.mem_cons.1 ha with rfl | ha
            · exact hmarks
            · exact hspans a ha
          · have hname : c.LeadsTo (c.skipBlank.move name.length) :=
              (Cursor.LeadsTo.refl c).skipBlank.move _
            rw [List.reverse_cons, List.flatMap_append]
            refine hfront.append ?_ hb (hname.trans hbehind).offset_le
            rw [List.flatMap_cons, List.flatMap_nil, List.append_nil]
            exact hparts.mono hname (Nat.le_refl _)

theorem leadsTo_takeText {b c : Cursor} (h : b.LeadsTo c) (frames : List Frame) (bound : Nat)
    (first : Bool) (held : List Char) : b.LeadsTo (takeText frames bound first held c).2 := by
  induction bound generalizing first held c with
  | zero => exact h
  | succ bound ih =>
    unfold takeText
    split
    · exact h
    · split
      · exact ih (h.move 3) _ _
      · split
        · exact h
        · exact ih h.step _ _

/-- Text that is read is at least one character long, unless the text is at its end. -/
theorem leadsTo_takeText_step (frames : List Frame) (bound : Nat) (c : Cursor) :
    c.step.LeadsTo (takeText frames (bound + 1) true [] c).2 := by
  unfold takeText
  split
  · next hrest =>
    have hstep : c.step = c := by simp [Cursor.step, hrest]
    rw [hstep]
    exact .refl c
  · split
    · exact leadsTo_takeText ⟨2, rfl⟩ _ _ _ _
    · simp only [Bool.not_true, Bool.false_and, Bool.false_eq_true, if_false]
      exact leadsTo_takeText (.refl c.step) _ _ _ _

/-- A text without the backslashes that stand in front of two opening braces. -/
def unescaped (s : List Char) : List Char :=
  Text.replaceAll "\\\x7b\x7b".toList openBraces.toList s

theorem unescaped_nil : unescaped [] = [] :=
  Text.replaceAll_nil (by decide) _

theorem unescaped_append (s : List Char) :
    unescaped ("\\\x7b\x7b".toList ++ s) = openBraces.toList ++ unescaped s :=
  Text.replaceAll_append (by decide) _ s

theorem unescaped_cons {x : Char} {s : List Char} (h : ¬"\\\x7b\x7b".toList <+: x :: s) :
    unescaped (x :: s) = x :: unescaped s :=
  Text.replaceAll_cons (by decide) _ h

/-- What is read as text, with what was held before, is what stands there up to the backslashes. -/
theorem takeText_spec {bound : Nat} {c : Cursor} (hbound : c.rest.length < bound)
    (frames : List Frame) (first : Bool)
    (held : List Char) : ∃ s, c.rest = s ++ (takeText frames bound first held c).2.rest ∧
      (takeText frames bound first held c).2.offset = c.offset + Text.byteLength s ∧
      (takeText frames bound first held c).1 = held.reverse ++ unescaped s := by
  induction bound generalizing first held c with
  | zero => exact absurd hbound (Nat.not_lt_zero _)
  | succ bound ih =>
    unfold takeText
    split
    · next hrest => exact ⟨[], by rw [hrest]; rfl, rfl, by rw [unescaped_nil, List.append_nil]⟩
    · next x rest hrest =>
      split
      · next hsees =>
        -- the braces are held, and the backslash is not
        obtain ⟨t, ht⟩ := List.isPrefixOf_iff_prefix.1 hsees
        have hmove : (c.move 3).rest = t := by rw [Cursor.rest_move, ← ht]; rfl
        have hlength : (c.move 3).rest.length < bound := by
          rw [hmove]
          rw [← ht, List.length_append] at hbound
          have : "\\\x7b\x7b".toList.length = 3 := rfl
          omega
        obtain ⟨s, hs, hoffset, hdata⟩ := ih hlength false ('\x7b' :: '\x7b' :: held)
        refine ⟨"\\\x7b\x7b".toList ++ s, ?_, ?_, ?_⟩
        · rw [← ht, ← hmove, List.append_assoc, ← hs]
        · rw [hoffset, Cursor.offset_move, ← ht, Text.byteLength_append, Nat.add_assoc]
          rfl
        · rw [hdata, unescaped_append]
          simp [openBraces]
      · next hsees =>
        split
        · exact ⟨[], rfl, rfl, by rw [unescaped_nil, List.append_nil]⟩
        · have hstep : c.step.rest = rest := (Cursor.step_of_rest hrest).1
          have hlength : c.step.rest.length < bound := by
            rw [hrest, List.length_cons] at hbound
            rw [hstep]
            omega
          obtain ⟨s, hs, hoffset, hdata⟩ := ih hlength false (x :: held)
          rw [hstep] at hs
          have hnot : ¬"\\\x7b\x7b".toList <+: x :: s := by
            refine fun hprefix => hsees (List.isPrefixOf_iff_prefix.2 ?_)
            rw [hrest, hs]
            exact hprefix.trans (List.prefix_append (x :: s) _)
          refine ⟨x :: s, ?_, ?_, ?_⟩
          · rw [hrest, List.cons_append, ← hs]
          · rw [hoffset, (Cursor.step_of_rest hrest).2, Text.byteLength, Nat.add_assoc]
          · rw [hdata, unescaped_cons hnot, List.reverse_cons, List.append_assoc,
              List.singleton_append]

end PromptMarkup

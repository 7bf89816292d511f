/-
Texts in contents.

* `Content.MadeOf` — a piece of content is several texts, one behind the other, up to white space;
* `Holds` — texts stand in contents, each at its own place;
* `holds_contentOf` — the content that a pending text becomes holds what the text holds.

Design notes: several texts may become one piece of content, and where it is trimmed and its
indentation is taken off, white space is lost.  Texts of nothing but white space are therefore no
pieces.  A text that was written twice has to be found twice, so the texts are a multiset.
-/
import Mathlib.Algebra.Order.Group.Multiset
import Mathlib.Data.List.Forall2
import PromptMarkup.Conversation.Walk
import PromptMarkup.Proofs.Indentation

namespace PromptMarkup

namespace Content

/-- What is written in a piece of content. -/
def body : Content → String
  | text s => s
  | image url => url

/-- Up to white space a piece of content is the given texts, one behind the other, none of which is
blank. -/
structure MadeOf (c : Content) (pieces : List String) : Prop where
  body : Text.dense c.body.toList = pieces.flatMap fun s => Text.dense s.toList
  solid : ∀ s ∈ pieces, Text.allBlank s.toList = false

variable {c d : Content} {pieces : List String} {s t : String}

/-- What a piece of content is made of is not changed by white space. -/
theorem MadeOf.congr (h : c.MadeOf pieces)
    (hbody : Text.dense d.body.toList = Text.dense c.body.toList) :
    d.MadeOf pieces :=
  ⟨hbody.trans h.body, h.solid⟩

/-- Every piece of content is made of what is written in it. -/
theorem exists_madeOf (c : Content) : ∃ pieces, c.MadeOf pieces := by
  cases hblank : Text.allBlank c.body.toList with
  | true => exact ⟨[], Text.dense_eq_nil.2 hblank, fun s h => nomatch h⟩
  | false =>
    refine ⟨[c.body], (List.append_nil _).symm, fun s h => ?_⟩
    rw [List.mem_singleton.1 h]
    exact hblank

/-- Nothing is found in a blank text. -/
theorem MadeOf.eq_nil (h : c.MadeOf pieces) (hblank : Text.allBlank c.body.toList = true) :
    pieces = [] := by
  have hall := h.body
  rw [Text.dense_eq_nil.2 hblank] at hall
  refine List.eq_nil_iff_forall_not_mem.2 fun s hs => ?_
  have hs' := List.flatMap_eq_nil_iff.1 hall.symm s hs
  exact nomatch (h.solid s hs).symm.trans (Text.dense_eq_nil.1 hs')

theorem MadeOf.text_append (h : (text s).MadeOf pieces) (ht : Text.allBlank t.toList = false) :
    (text (s ++ t)).MadeOf (pieces ++ [t]) := by
  refine ⟨?_, fun u hu => ?_⟩
  · show Text.dense (s ++ t).toList = _
    rw [String.toList_append, Text.dense_append, List.flatMap_append, ← h.body]
    simp [Content.body]
  · rcases List.mem_append.1 hu with hu | hu
    · exact h.solid u hu
    · rw [List.mem_singleton.1 hu]
      exact ht

theorem MadeOf.text_append_blank (h : (text s).MadeOf pieces) (ht : Text.allBlank t.toList = true) :
    (text (s ++ t)).MadeOf pieces := by
  refine h.congr ?_
  show Text.dense (s ++ t).toList = Text.dense s.toList
  rw [String.toList_append, Text.dense_append, Text.dense_eq_nil.2 ht, List.append_nil]

end Content

/-- Texts stand in contents, each at its own place: the contents are made of pieces, and the texts
are some of them. -/
def Holds (contents : List Content) (texts : Multiset String) : Prop :=
  ∃ pieces : List (List String), List.Forall₂ Content.MadeOf contents pieces ∧
    texts ≤ (pieces.flatten : Multiset String)

section Rules

variable {contents more : List Content} {c : Content} {texts others : Multiset String}
  {pieces : List String}

theorem Holds.mono (h : Holds contents texts) (hsub : others ≤ texts) : Holds contents others := by
  obtain ⟨pieces, hmade, hall⟩ := h
  exact ⟨pieces, hmade, hsub.trans hall⟩

theorem holds_nil : Holds [] 0 :=
  ⟨[], .nil, Multiset.zero_le _⟩

theorem holds_append :
    Holds (contents ++ more) texts ↔ ∃ l r, Holds contents l ∧ Holds more r ∧ texts ≤ l + r := by
  constructor
  · rintro ⟨pieces, hmade, hall⟩
    have hfront := List.forall₂_take contents.length hmade
    have hback := List.forall₂_drop contents.length hmade
    rw [List.take_left] at hfront
    rw [List.drop_left] at hback
    refine ⟨(pieces.take contents.length).flatten, (pieces.drop contents.length).flatten,
      ⟨_, hfront, le_refl _⟩, ⟨_, hback, le_refl _⟩, ?_⟩
    rw [Multiset.coe_add, ← List.flatten_append, List.take_append_drop]
    exact hall
  · rintro ⟨l, r, ⟨front, hfront, hl⟩, ⟨back, hback, hr⟩, hall⟩
    refine ⟨front ++ back, List.rel_append hfront hback, hall.trans ?_⟩
    rw [List.flatten_append, ← Multiset.coe_add]
    exact add_le_add hl hr

theorem holds_singleton : Holds [c] texts ↔ ∃ pieces, c.MadeOf pieces ∧
  texts ≤ (pieces : Multiset String) := by
  constructor
  · rintro ⟨all, hmade, hall⟩
    cases hmade with
    | cons hc hrest =>
      cases hrest with
      | nil => exact ⟨_, hc, by simpa using hall⟩
  · rintro ⟨pieces, hc, hall⟩
    exact ⟨[pieces], .cons hc .nil, by simpa using hall⟩

theorem Holds.of_madeOf (h : c.MadeOf pieces) : Holds [c] (pieces : Multiset String) :=
  holds_singleton.2 ⟨pieces, h, le_refl _⟩

/-- There may be more contents. -/
theorem Holds.append_right (h : Holds contents texts) (more : List Content) :
    Holds (contents ++ more) texts := by
  have hnone : Holds more 0 := by
    induction more with
    | nil => exact holds_nil
    | cons c rest ih =>
      obtain ⟨pieces, hc⟩ := c.exists_madeOf
      exact holds_append.2 ⟨_, 0, (Holds.of_madeOf hc).mono (Multiset.zero_le _), ih,
        Multiset.zero_le _⟩
  exact holds_append.2 ⟨texts, 0, h, hnone, by rw [add_zero]⟩

/-- The last piece of content may be replaced by contents that hold what it holds, and more. -/
theorem Holds.add_last (h : Holds (contents ++ [c]) texts)
    (hmore : ∀ pieces : List String, c.MadeOf pieces → Holds more (pieces + others)) :
    Holds (contents ++ more) (texts + others) := by
  obtain ⟨l, r, hl, hr, hall⟩ := holds_append.1 h
  obtain ⟨pieces, hc, hpieces⟩ := holds_singleton.1 hr
  refine holds_append.2 ⟨l, pieces + others, hl, hmore pieces hc, ?_⟩
  rw [← add_assoc]
  exact add_le_add (hall.trans (add_le_add (le_refl l) hpieces)) (le_refl others)

theorem Holds.replace_last (h : Holds (contents ++ [c]) texts)
    (hmore : ∀ pieces : List String, c.MadeOf pieces → Holds more pieces) :
    Holds (contents ++ more) texts := by
  have hall : Holds (contents ++ more) (texts + 0) := h.add_last fun pieces hpieces => by
    rw [add_zero]
    exact hmore pieces hpieces
  rwa [add_zero] at hall

/-- An empty text holds nothing. -/
theorem holds_append_empty : Holds (contents ++ [.text ""]) texts ↔ Holds contents texts := by
  refine ⟨fun h => ?_, fun h => h.append_right _⟩
  have hrest : Holds (contents ++ []) texts := h.replace_last fun pieces hpieces => by
    rw [hpieces.eq_nil rfl]
    exact holds_nil
  rwa [List.append_nil] at hrest

/-- The content that a pending text becomes holds what the text holds. -/
theorem holds_contentOf {s : String} (h : (Content.text s).MadeOf pieces) :
    Holds (Walking.contentOf s) (pieces : Multiset String) := by
  unfold Walking.contentOf
  dsimp only
  split
  · next hempty =>
    have hblank : Text.allBlank s.toList = true :=
      Text.removeCommonIndent_eq_nil.1 (List.isEmpty_iff.1 hempty)
    rw [h.eq_nil hblank]
    exact holds_nil
  · refine Holds.of_madeOf (h.congr ?_)
    show Text.dense (String.ofList _).toList = _
    rw [String.toList_ofList, Text.dense_removeCommonIndent]
    rfl

end Rules

end PromptMarkup

/-
Prompts in which nothing is evaluated.

* `Node.IsStatic` — a node is no mustache, block, reference or step, and its attributes hold no
  expression;
* `runFrom_attributeValues_static` — such attributes have the values that are written in them;
* `runFrom_walkAll_plain` — the first visit of texts and comments writes the texts.
-/
import PromptMarkup.Proofs.Fresh
import PromptMarkup.Proofs.Placement

namespace PromptMarkup

open PromptMarkup.Computation

/-! ### Attributes -/

/-- The value of an attribute that holds no expression. -/
def Attribute.staticValue (a : Attribute) : Value :=
  match a.parts with
  | none => .boolean true
  | some parts => .string ((AttributePart.textOf? parts).getD "")

/-- The values of attributes that hold no expression. -/
def staticValues (as : List Attribute) : Fields Value :=
  as.map fun a => (a.name, a.staticValue)

theorem AttributePart.textOf?_eq_some {parts : List AttributePart}
    (h : ∀ e, .expression e ∉ parts) : ∃ text, AttributePart.textOf? parts = some text := by
  induction parts with
  | nil => exact ⟨"", rfl⟩
  | cons part rest ih =>
    obtain ⟨text, htext⟩ := ih fun e he => h e (List.mem_cons_of_mem _ he)
    cases part with
    | text s data => exact ⟨data ++ text, by rw [AttributePart.textOf?, htext]; rfl⟩
    | expression e => exact absurd List.mem_cons_self (h e)

theorem Attribute.parts_of_static {a : Attribute} {parts : List AttributePart}
    (h : a.expressions = []) (hparts : a.parts = some parts) : ∀ e, .expression e ∉ parts := by
  intro e he
  have hmem : e ∈ a.expressions := by
    rw [Attribute.expressions, hparts]
    exact List.mem_filterMap.2 ⟨_, he, rfl⟩
  rw [h] at hmem
  cases hmem

/-- Both passes find the same text in an attribute that holds no expression. -/
theorem Attribute.plainValue?_static {a : Attribute} (h : a.expressions = []) :
    Surveying.plainValue? a = some a.staticValue.text ∧ a.staticValue.isNullish = false := by
  unfold Surveying.plainValue? staticValue staticText?
  cases hparts : a.parts with
  | none => exact ⟨rfl, rfl⟩
  | some parts =>
    obtain ⟨text, htext⟩ := AttributePart.textOf?_eq_some (parts_of_static h hparts)
    exact ⟨by simp [htext, Value.text], rfl⟩

theorem textOf?_staticValues {as : List Attribute} (h : ∀ a ∈ as, a.expressions = [])
    (name : String) :
    Walking.textOf? (staticValues as) name =
      (Attribute.find? as name).bind Surveying.plainValue? := by
  unfold Walking.textOf? Attribute.find?
  induction as with
  | nil => rfl
  | cons a rest ih =>
    obtain ⟨hplain, hnullish⟩ := Attribute.plainValue?_static (h a List.mem_cons_self)
    by_cases hname : a.name = name
    · rw [List.find?_cons_of_pos (by simpa using hname), Option.bind_some, hplain]
      simp [staticValues, Fields.get?, hname, hnullish]
    · rw [List.find?_cons_of_neg (by simpa using hname), ← ih fun b hb =>
        h b (List.mem_cons_of_mem _ hb)]
      simp [staticValues, Fields.get?, hname]

namespace Walking

variable {setting : Setting} {id : Nat} {path : IterationPath}

theorem partsText_static {parts : List AttributePart} (h : ∀ e, .expression e ∉ parts) :
    partsText setting id path parts = pure ((AttributePart.textOf? parts).getD "") := by
  induction parts with
  | nil => rfl
  | cons part rest ih =>
    have hrest : ∀ e, .expression e ∉ rest := fun e he => h e (List.mem_cons_of_mem _ he)
    obtain ⟨text, htext⟩ := AttributePart.textOf?_eq_some hrest
    cases part with
    | text s data => simp [partsText, AttributePart.textOf?, ih hrest, htext]
    | expression e => exact absurd List.mem_cons_self (h e)

theorem attributeValue_static {a : Attribute} (h : a.expressions = []) :
    attributeValue setting id path a = pure a.staticValue := by
  unfold attributeValue Attribute.staticValue
  cases hparts : a.parts with
  | none => rfl
  | some parts =>
    have hnone := Attribute.parts_of_static h hparts
    have htext : partsText setting id path parts = pure ((AttributePart.textOf? parts).getD "") :=
      partsText_static hnone
    split
    · next heq => exact nomatch heq
    · next e heq =>
      obtain rfl := Option.some.inj heq
      exact absurd List.mem_cons_self (hnone e)
    · next other _ heq =>
      obtain rfl := Option.some.inj heq
      rw [htext, pure_bind]

/-- Attributes that hold no expression have the values that are written in them. -/
theorem attributeValues_static {as : List Attribute} (h : ∀ a ∈ as, a.expressions = []) :
    attributeValues setting id path as = pure (staticValues as) := by
  induction as with
  | nil => rfl
  | cons a rest ih =>
    rw [attributeValues, attributeValue_static (h a List.mem_cons_self), pure_bind,
      ih fun b hb => h b (List.mem_cons_of_mem _ hb), pure_bind]
    rfl

end Walking

/-- Going through attributes that hold no expression finds nothing. -/
theorem Surveying.attributes_static {as : List Attribute} (h : ∀ a ∈ as, a.expressions = [])
    (s : Survey) : runFrom s (Surveying.attributes as) = (.ok (), s) := by
  have hnone : as.flatMap Attribute.expressions = [] := List.flatMap_eq_nil_iff.2 h
  rw [Surveying.attributes, hnone]
  rfl

/-! ### Texts and comments -/

/-- The first visit of a node, whose part of the walk comes to its end. -/
theorem Untouched.runFrom_visiting_ok {ids : List Nat} {id : Nat} {path : IterationPath}
    {w t : Walk} {act : Walking Unit} (h : Untouched ids path w.statuses) (hid : id ∈ ids)
    (hact : runFrom { w with statuses := w.statuses.decide id .none } act = (.ok (), t)) :
    runFrom w (Walking.visiting id path act) =
      (.ok (), { t with statuses := t.statuses.complete id path }) :=
  Walking.runFrom_visiting_ok (h.not_completed hid) (h.enter hid ▸ hact)

/-- The first visit of a node, whose part of the walk fails. -/
theorem Untouched.runFrom_visiting_failed {ids : List Nat} {id : Nat} {path : IterationPath}
    {w t : Walk}
    {act : Walking Unit} {p : Problem} (h : Untouched ids path w.statuses) (hid : id ∈ ids)
    (hact : runFrom { w with statuses := w.statuses.decide id .none } act =
      (.error (.failed p), t)) :
    runFrom w (Walking.visiting id path act) = (.error (.failed p), t) :=
  Walking.runFrom_visiting_failed (h.not_completed hid) (h.enter hid ▸ hact)

namespace Node

variable {children : List Node} {plain : String} {ids : List Nat} {path : IterationPath} {w : Walk}

/-- Going through texts and comments finds nothing. -/
theorem runFrom_surveyAll_plain (h : Surveying.plainText? children = some plain) (follow : Follow)
    (s : Survey) : runFrom s (surveyAll follow children) = (.ok (), s) := by
  induction children generalizing plain with
  | nil => rfl
  | cons n rest ih =>
    cases n with
    | text info data =>
      obtain ⟨more, hmore, -⟩ := Option.map_eq_some_iff.1 h
      exact ih hmore
    | comment info data => exact ih h
    | _ => exact nomatch h

theorem runFrom_write (w : Walk) (id : Nat) (data : String) :
    runFrom w (Walking.write id path data) = (.ok (), { w with
      stray := w.stray ++ data, journal := .wrote id path w.inArguments data :: w.journal }) :=
  rfl

/-- The first visit of a text. -/
theorem runFrom_walk_text (setting : Setting) (info : NodeInfo) (data : String)
    (hid : info.id ∈ ids) (hids : Untouched ids path w.statuses) :
    ∃ statuses journal, runFrom w ((text info data).walk setting path) =
      (.ok (), { w with stray := w.stray ++ data, statuses := statuses, journal := journal }) :=
  ⟨_, _, hids.runFrom_visiting_ok hid (runFrom_write _ info.id data)⟩

/-- The first visit of a comment. -/
theorem runFrom_walk_comment (setting : Setting) (info : NodeInfo) (data : String)
    (hid : info.id ∈ ids) (hids : Untouched ids path w.statuses) :
    runFrom w ((comment info data).walk setting path) = (.ok (), { w with
      statuses := (w.statuses.decide info.id .none).complete info.id path }) := by
  have hact : runFrom { w with statuses := w.statuses.decide info.id .none }
    (pure () : Walking Unit) =
      (.ok (), { w with statuses := w.statuses.decide info.id .none }) := rfl
  exact hids.runFrom_visiting_ok hid hact

/-- Behind the first visit of a node the nodes behind it are untouched. -/
theorem untouched_rest {n : Node} {rest : List Node} {setting : Setting} {t : Walk}
    (hnodup : (n.ids ++ idsAll rest).Nodup)
    (hids : Untouched (n.ids ++ idsAll rest) path w.statuses)
    (hrun : runFrom w (n.walk setting path) = (.ok (), t)) :
    Untouched (idsAll rest) path t.statuses := by
  obtain ⟨-, -, hdisjoint⟩ := List.nodup_append.1 hnodup
  have hframe : Progress n.ids path w t := ((n.respects_walk path w).done hrun).1
  refine Untouched.of_frame (hids.weaken (List.subset_append_right _ _) List.prefix_rfl)
    fun id hid => ?_
  exact hframe.frame id fun hmine => hdisjoint id hmine id hid rfl

/-- The first visit of texts and comments writes the texts. -/
theorem runFrom_walkAll_plain (h : Surveying.plainText? children = some plain) (setting : Setting)
    (hnodup : (idsAll children).Nodup) (hids : Untouched (idsAll children) path w.statuses) :
    ∃ statuses journal, runFrom w (walkAll setting children path) =
      (.ok (), { w with stray := w.stray ++ plain, statuses := statuses, journal := journal }) := by
  induction children generalizing plain w with
  | nil =>
    obtain rfl := Option.some.inj h
    exact ⟨w.statuses, w.journal, by rw [String.append_empty]; rfl⟩
  | cons n rest ih =>
    rw [idsAll_cons] at hnodup hids
    have hrest : (idsAll rest).Nodup := (List.nodup_append.1 hnodup).2.1
    have hself : n.id ∈ n.ids ++ idsAll rest := List.mem_append_left _ (id_mem_ids n)
    -- plain text is made of text nodes and comments only
    cases n with
    | text info data =>
      obtain ⟨more, hmore, rfl⟩ := Option.map_eq_some_iff.1 h
      obtain ⟨_, _, hrun⟩ := runFrom_walk_text setting info data hself hids
      obtain ⟨statuses, journal, hlater⟩ := ih hmore hrest (untouched_rest hnodup hids hrun)
      refine ⟨statuses, journal, ?_⟩
      rw [walkAll, runFrom_bind_ok hrun, hlater, ← String.append_assoc]
    | comment info data =>
      have hrun := runFrom_walk_comment setting info data hself hids
      obtain ⟨statuses, journal, hlater⟩ := ih h hrest (untouched_rest hnodup hids hrun)
      refine ⟨statuses, journal, ?_⟩
      rw [walkAll, runFrom_bind_ok hrun, hlater]
    -- any other node leaves no plain text
    | _ => exact nomatch h

/-- Nothing is evaluated for a node, and it refers to no prompt and waits for no response. -/
def IsStatic : Node → Prop
  | mustache _ _ | ifBlock _ _ _ _ _ | forBlock _ _ _ _ => False
  | element _ name as _ =>
    (∀ a ∈ as, a.expressions = []) ∧ TagKind.ofName name ≠ .reference ∧ TagKind.ofName name ≠ .step
  | _ => True

/-- An image or a tool call has only texts and comments inside. -/
def HoldsTexts : Node → Prop
  | element _ name _ children =>
    TagKind.ofName name = .content .image ∨ TagKind.ofName name = .toolCall →
      (Surveying.plainText? children).isSome
  | _ => True

instance : DecidablePred IsStatic
  | mustache _ _ | ifBlock _ _ _ _ _ | forBlock _ _ _ _ => isFalse fun h => h
  | element _ name as _ => inferInstanceAs (Decidable ((∀ a ∈ as, a.expressions = []) ∧
    TagKind.ofName name ≠ .reference ∧ TagKind.ofName name ≠ .step))
  | fragment _ _ | config _ _ _ | text _ _ | comment _ _ => isTrue trivial

instance : DecidablePred HoldsTexts
  | element _ name _ children => inferInstanceAs (Decidable
    (TagKind.ofName name = .content .image ∨ TagKind.ofName name = .toolCall →
      (Surveying.plainText? children).isSome))
  | fragment _ _ | config _ _ _ | text _ _ | comment _ _ | mustache _ _ | ifBlock _ _ _ _ _
  | forBlock _ _ _ _ => isTrue trivial

end Node

end PromptMarkup

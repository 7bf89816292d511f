/-
Operators that are only read are found without evaluating anything.

* `Fault.isStructural` — the faults that do not depend on values;
* `Expr.Supported` — an expression in which every operator can be evaluated;
* `Expr.Closed.mention` — what has to be shown of the steps to show it of going through an
  expression;
* `Expr.supported_of_mention` — an expression that was gone through without a problem is supported.
-/
import PromptMarkup.Expr.Names
import PromptMarkup.Proofs.Trees

namespace PromptMarkup

open PromptMarkup.Computation

/-! ### Faults -/

/-- The faults that are the same whatever the values are. -/
def Fault.isStructural : Fault → Bool
  | .messageInsideMessage => true
  | .contentInsideContent => true
  | .toolCallInsideContent => true
  | .stepInsideStep => true
  | .stepInsideMessage => true
  | .unknownTag _ => true
  | .attributeNotStatic _ => true
  | .unsupportedOperator _ => true
  | _ => false

/-- The faults that come from values: neither structural nor that of a name that is not visible. -/
def Fault.isOfValues : Fault → Bool
  | .undeclared _ => false
  | f => !f.isStructural

theorem Fault.not_structural_of_isOfValues {f : Fault} (h : f.isOfValues = true) :
    f.isStructural = false := by
  cases f <;> first | rfl | exact nomatch h

theorem Fault.ne_undeclared_of_isOfValues {f : Fault} (h : f.isOfValues = true) (name : String) :
    f ≠ .undeclared name := by
  rintro rfl
  exact nomatch h

/-- The stable names of the structural faults. -/
def structuralCodes : List String :=
  ["message-tag-inside-message", "content-tag-inside-content", "tool-call-tag-inside-content",
    "step-tag-inside-step", "step-tag-inside-message", "unknown-tag", "invalid-static-attribute",
    "unsupported-operator"]

theorem Fault.code_mem_structuralCodes (f : Fault) :
    f.code ∈ structuralCodes ↔ f.isStructural = true := by
  cases f <;> simp [Fault.code, structuralCodes, Fault.isStructural]

/-! ### Supported expressions -/

namespace Expr

/-- The operator of an expression can be evaluated. -/
def operatorSupported : Expr → Bool
  | binary _ op _ _ => op.isSupported
  | unary _ op _ => op.isSupported
  | _ => true

/-- Every operator in an expression can be evaluated. -/
def Supported (e : Expr) : Prop :=
  ∀ x ∈ e.subterms, x.operatorSupported = true

theorem Supported.part {e x : Expr} (h : Supported e) (hx : x ∈ e.parts) : Supported x :=
  fun y hy => h y (mem_subterms_of_part hx hy)

theorem Supported.operator {e : Expr} (h : Supported e) : e.operatorSupported = true :=
  h e (mem_subterms_self e)

theorem supported_iff {e : Expr} :
    Supported e ↔ e.operatorSupported = true ∧ ∀ x ∈ e.parts, Supported x := by
  constructor
  · intro h
    exact ⟨h.operator, fun x hx => h.part hx⟩
  · rintro ⟨he, hparts⟩ y hy
    rw [subterms_eq] at hy
    rcases List.mem_cons.1 hy with rfl | hy
    · exact he
    · obtain ⟨x, hx, hy⟩ := List.mem_flatMap.1 hy
      exact hparts x hx y hy

/-! ### Going through an expression -/

/-- An assignment other than a plain one to a name goes through its value and its target. -/
theorem mention_assignment {s : Span} {op : AssignOp} {target value : Expr}
    (h : ¬ (op = .assign ∧ ∃ t name, target = identifier t name)) :
    mention (assignment s op target value) = (mention value >>= fun _ => mentionTarget target) := by
  cases op with
  | assign =>
    cases target with
    | identifier t name => exact absurd ⟨rfl, t, name, rfl⟩ h
    | _ => rfl
  | binary op hop => rfl
  | logical op => rfl

/-- A property of computations on names that those have which are put together of others with it. -/
structure Joins (P : Naming Unit → Prop) : Prop where
  nothing : P (pure ())
  both : ∀ {x y : Naming Unit}, P x → P y → P (x >>= fun _ => y)

/-- Such a property that the steps of going through an expression have, whatever names are read and
declared. -/
structure Closed (P : Naming Unit → Prop) : Prop extends Joins P where
  read : ∀ name, P (modify fun names => names.read name)
  declare : ∀ name, P (modify fun names => names.declare name)

namespace Joins

variable {P : Naming Unit → Prop}

theorem all (hP : Joins P) {es : List Expr} (h : ∀ e ∈ es, P (mention e)) : P (mentionAll es) := by
  induction es with
  | nil => exact hP.nothing
  | cons e rest ih =>
    exact hP.both (h e List.mem_cons_self) (ih fun x hx => h x (List.mem_cons_of_mem _ hx))

theorem elements (hP : Joins P) {es : List Element} (h : ∀ e ∈ es.map Element.expr, P (mention e)) :
    P (mentionElements es) := by
  induction es with
  | nil => exact hP.nothing
  | cons e rest ih =>
    have hboth : P (mention e.expr >>= fun _ => mentionElements rest) :=
      hP.both (h _ List.mem_cons_self) (ih fun x hx => h x (List.mem_cons_of_mem _ hx))
    cases e with
    | item x => exact hboth
    | spread x => exact hboth

theorem key (hP : Joins P) {k : Key} (h : ∀ e ∈ k.exprs, P (mention e)) : P (mentionKey k) := by
  cases k with
  | fixed name => exact hP.nothing
  | computed e => exact h e (List.mem_singleton.2 rfl)

theorem property (hP : Joins P) {p : Property} (h : ∀ e ∈ p.exprs, P (mention e)) :
    P (mentionProperty p) := by
  cases p with
  | named name => exact hP.nothing
  | computed e => exact h e (List.mem_singleton.2 rfl)

theorem members (hP : Joins P) {ms : List Member}
    (h : ∀ e ∈ ms.flatMap Member.exprs, P (mention e)) :
    P (mentionMembers ms) := by
  induction ms with
  | nil => exact hP.nothing
  | cons m rest ih =>
    have hrest := ih fun x hx => h x (List.mem_append_right _ hx)
    have hm : ∀ e ∈ m.exprs, P (mention e) := fun e he => h e (List.mem_append_left _ he)
    cases m with
    | property k value =>
      have hk : P (mentionKey k) := hP.key fun e he => hm e (List.mem_append_left _ he)
      exact hP.both hk (hP.both (hm value (List.mem_append_right _ (List.mem_singleton.2 rfl)))
        hrest)
    | spread e => exact hP.both (hm e (List.mem_singleton.2 rfl)) hrest

/-- Going through an expression has such a property if reading its names, declaring those that are
assigned to and failing at the subterms have it, and so has going through a target. -/
theorem mention (hP : Joins P) {e : Expr}
    (hread : ∀ s name, identifier s name ∈ e.subterms → P (modify fun names => names.read name))
    (hdeclare : ∀ s t name value, assignment s .assign (identifier t name) value ∈ e.subterms →
      P (modify fun names => names.declare name))
    (hfail : ∀ x ∈ e.subterms, ∀ fault, P (Naming.fail fault x.span)) :
    P (mention e) ∧ P (mentionTarget e) := by
  -- the induction is on the expression, for both ways to go through it
  induction e using Expr.induct with
  | step e ih =>
    have hself : ∀ fault, P (Naming.fail fault e.span) := hfail e (mem_subterms_self e)
    have hpart : ∀ x ∈ e.parts, P x.mention ∧ P (mentionTarget x) :=
      fun x hx => ih x hx (fun s name hy => hread s name (mem_subterms_of_part hx hy))
        (fun s t name value hy => hdeclare s t name value (mem_subterms_of_part hx hy))
        fun y hy => hfail y (mem_subterms_of_part hx hy)
    have hm : ∀ x ∈ e.parts, P x.mention := fun x hx => (hpart x hx).1
    constructor
    · cases e with
      | literal s l => exact hP.nothing
      | identifier s name => exact hread s name (mem_subterms_self _)
      | array s elements => exact hP.elements hm
      | object s members => exact hP.members hm
      | sequence s es => exact hP.all hm
      | binary s op left right =>
        -- an operator without a meaning is refused before its operands are read
        unfold Expr.mention
        split
        · exact hself _
        · exact hP.both (hm left (by simp [parts])) (hm right (by simp [parts]))
      | logical s op left right =>
        exact hP.both (hm left (by simp [parts])) (hm right (by simp [parts]))
      | unary s op argument =>
        unfold Expr.mention
        split
        · exact hself _
        · exact hm argument (by simp [parts])
      | update s op leading argument => exact (hpart argument (by simp [parts])).2
      | assignment s op target value =>
        -- values are gone through before targets; a name that is assigned to is declared
        have hvalue := hm value (by simp [parts])
        by_cases hplain : op = .assign ∧ ∃ t name, target = identifier t name
        · obtain ⟨rfl, t, name, rfl⟩ := hplain
          exact hP.both hvalue (hdeclare s t name value (mem_subterms_self _))
        · rw [mention_assignment hplain]
          exact hP.both hvalue (hpart target (by simp [parts])).2
      | conditional s test consequent alternate =>
        exact hP.both (hm test (by simp [parts]))
          (hP.both (hm consequent (by simp [parts])) (hm alternate (by simp [parts])))
      | member s owner property optional =>
        exact hP.both (hm owner List.mem_cons_self)
          (hP.property fun x hx => hm x (List.mem_cons_of_mem _ hx))
      | call s callee arguments optional =>
        exact hP.both (hm callee List.mem_cons_self)
          (hP.elements fun x hx => hm x (List.mem_cons_of_mem _ hx))
      | chain s inner => exact hm inner (by simp [parts])
    · cases e with
      | identifier s name => exact hread s name (mem_subterms_self _)
      | member s owner property optional =>
        cases optional with
        | true => exact hself _
        | false =>
          exact hP.both (hpart owner List.mem_cons_self).2
            (hP.property fun x hx => hm x (List.mem_cons_of_mem _ hx))
      | _ => exact hself _

end Joins

/-- Going through an expression has such a property if it may fail at the subterms, and so has going
through a target. -/
theorem Closed.mention {P : Naming Unit → Prop} (hP : Closed P) {e : Expr}
    (hfail : ∀ x ∈ e.subterms, ∀ fault, P (Naming.fail fault x.span)) :
    P e.mention ∧ P (mentionTarget e) :=
  hP.toJoins.mention (fun _ name _ => hP.read name) (fun _ _ name _ _ => hP.declare name) hfail

/-- A computation on names has no problem. -/
def Passes {α : Type} (x : Naming α) : Prop :=
  ∃ names a names', runFrom names x = (.ok a, names')

theorem Passes.of_bind {α β : Type} {x : Naming α} {f : α → Naming β} (h : Passes (x >>= f)) :
    Passes x ∧ ∃ a, Passes (f a) := by
  obtain ⟨names, b, names', h⟩ := h
  obtain ⟨a, mid, hx, hf⟩ := runFrom_bind_eq_ok h
  exact ⟨⟨names, a, mid, hx⟩, a, mid, b, names', hf⟩

theorem not_passes_fail {α : Type} (fault : Fault) (span : Span) :
    ¬ Passes (Naming.fail fault span : Naming α) := by
  rintro ⟨names, a, names', h⟩
  exact nomatch h

theorem supported_of_mentionElements {es : List Element}
    (ih : ∀ x ∈ es.map Element.expr, Passes (mention x) → Supported x)
    (h : Passes (mentionElements es)) : ∀ x ∈ es.map Element.expr, Supported x := by
  induction es with
  | nil =>
    intro x hx
    simp at hx
  | cons e rest ihr =>
    have h' : Passes (mention e.expr >>= fun _ => mentionElements rest) := by
      cases e <;> exact h
    obtain ⟨h1, -, h2⟩ := h'.of_bind
    intro x hx
    rcases List.mem_cons.1 hx with rfl | hx
    · exact ih _ List.mem_cons_self h1
    · exact ihr (fun y hy => ih y (List.mem_cons_of_mem _ hy)) h2 x hx

theorem supported_of_mentionKey {k : Key}
    (ih : ∀ x ∈ k.exprs, Passes (mention x) → Supported x) (h : Passes (mentionKey k)) :
    ∀ x ∈ k.exprs, Supported x := by
  cases k with
  | fixed name =>
    intro x hx
    simp [Key.exprs] at hx
  | computed e =>
    intro x hx
    obtain rfl : x = e := by simpa [Key.exprs] using hx
    exact ih x hx h

theorem supported_of_mentionProperty {p : Property}
    (ih : ∀ x ∈ p.exprs, Passes (mention x) → Supported x) (h : Passes (mentionProperty p)) :
    ∀ x ∈ p.exprs, Supported x := by
  cases p with
  | named name =>
    intro x hx
    simp [Property.exprs] at hx
  | computed e =>
    intro x hx
    obtain rfl : x = e := by simpa [Property.exprs] using hx
    exact ih x hx h

theorem supported_of_mentionMembers {ms : List Member}
    (ih : ∀ x ∈ ms.flatMap Member.exprs, Passes (mention x) → Supported x)
    (h : Passes (mentionMembers ms)) : ∀ x ∈ ms.flatMap Member.exprs, Supported x := by
  induction ms with
  | nil =>
    intro x hx
    simp at hx
  | cons m rest ihr =>
    have ihrest : ∀ x ∈ rest.flatMap Member.exprs, Passes (mention x) → Supported x :=
      fun x hx => ih x (List.mem_append_right _ hx)
    intro x hx
    -- the key, the value, or a later member
    rcases List.mem_append.1 (by simpa using hx : x ∈ m.exprs ++ rest.flatMap Member.exprs)
      with hxm | hxr
    · cases m with
      | property key value =>
        obtain ⟨hk, -, h2⟩ := Passes.of_bind h
        obtain ⟨hv, -, -⟩ := h2.of_bind
        rcases List.mem_append.1 hxm with hxk | hxv
        · exact supported_of_mentionKey
            (fun y hy => ih y (by simp [Member.exprs, hy])) hk x hxk
        · obtain rfl : x = value := by simpa using hxv
          exact ih x (by simp [Member.exprs]) hv
      | spread e =>
        obtain ⟨he, -, -⟩ := Passes.of_bind h
        obtain rfl : x = e := by simpa [Member.exprs] using hxm
        exact ih x (by simp [Member.exprs]) he
    · cases m with
      | property key value =>
        obtain ⟨-, -, h2⟩ := Passes.of_bind h
        obtain ⟨-, -, h3⟩ := h2.of_bind
        exact ihr ihrest h3 x hxr
      | spread e =>
        obtain ⟨-, -, h2⟩ := Passes.of_bind h
        exact ihr ihrest h2 x hxr

theorem supported_of_mentionAll {es : List Expr}
    (ih : ∀ x ∈ es, Passes (mention x) → Supported x) (h : Passes (mentionAll es)) :
    ∀ x ∈ es, Supported x := by
  induction es with
  | nil =>
    intro x hx
    simp at hx
  | cons e rest ihr =>
    obtain ⟨h1, -, h2⟩ := Passes.of_bind h
    intro x hx
    rcases List.mem_cons.1 hx with rfl | hx
    · exact ih x List.mem_cons_self h1
    · exact ihr (fun y hy => ih y (List.mem_cons_of_mem _ hy)) h2 x hx

/-- In an expression that was gone through without a problem every operator can be evaluated; the
same holds for targets. -/
theorem supported_of_mention (e : Expr) :
    (Passes (mention e) → Supported e) ∧ (Passes (mentionTarget e) → Supported e) := by
  -- the induction is on the expression: going through it passes every operator of it
  induction e using Expr.induct with
  | step e ih =>
    have ihm : ∀ x ∈ e.parts, Passes (mention x) → Supported x := fun x hx => (ih x hx).1
    refine ⟨fun h => ?_, fun h => ?_⟩
    · cases e with
      | literal s l => exact supported_iff.2 ⟨rfl, by simp [parts]⟩
      | identifier s name => exact supported_iff.2 ⟨rfl, by simp [parts]⟩
      | array s elements => exact supported_iff.2 ⟨rfl, supported_of_mentionElements ihm h⟩
      | object s members => exact supported_iff.2 ⟨rfl, supported_of_mentionMembers ihm h⟩
      | sequence s es => exact supported_iff.2 ⟨rfl, supported_of_mentionAll ihm h⟩
      | binary s op left right =>
        -- this operator was passed, so that it is one with a meaning
        by_cases hop : op.isSupported = true
        · simp only [mention, hop, Bool.not_true, Bool.false_eq_true, if_false] at h
          obtain ⟨hl, -, hr⟩ := h.of_bind
          refine supported_iff.2 ⟨hop, ?_⟩
          simpa [parts] using ⟨(ih left (by simp [parts])).1 hl, (ih right (by simp [parts])).1 hr⟩
        · simp only [mention, hop, Bool.not_false, if_true] at h
          exact absurd h (not_passes_fail _ _)
      | logical s op left right =>
        obtain ⟨hl, -, hr⟩ := Passes.of_bind h
        refine supported_iff.2 ⟨rfl, ?_⟩
        simpa [parts] using ⟨(ih left (by simp [parts])).1 hl, (ih right (by simp [parts])).1 hr⟩
      | unary s op argument =>
        by_cases hop : op.isSupported = true
        · simp only [mention, hop, Bool.not_true, Bool.false_eq_true, if_false] at h
          refine supported_iff.2 ⟨hop, ?_⟩
          simpa [parts] using (ih argument (by simp [parts])).1 h
        · simp only [mention, hop, Bool.not_false, if_true] at h
          exact absurd h (not_passes_fail _ _)
      | update s op leading argument =>
        refine supported_iff.2 ⟨rfl, ?_⟩
        simpa [parts] using (ih argument (by simp [parts])).2 h
      | assignment s op target value =>
        refine supported_iff.2 ⟨rfl, ?_⟩
        suffices Supported target ∧ Supported value by simpa [parts] using this
        -- a name that is assigned to has no operator in it
        by_cases hplain : op = .assign ∧ ∃ t name, target = identifier t name
        · obtain ⟨rfl, t, name, rfl⟩ := hplain
          obtain ⟨hv, -, -⟩ := Passes.of_bind h
          exact ⟨supported_iff.2 ⟨rfl, by simp [parts]⟩, (ih value (by simp [parts])).1 hv⟩
        · rw [mention_assignment hplain] at h
          obtain ⟨hv, -, ht⟩ := Passes.of_bind h
          exact ⟨(ih target (by simp [parts])).2 ht, (ih value (by simp [parts])).1 hv⟩
      | conditional s test consequent alternate =>
        obtain ⟨ht, -, h⟩ := Passes.of_bind h
        obtain ⟨hc, -, ha⟩ := Passes.of_bind h
        refine supported_iff.2 ⟨rfl, ?_⟩
        simpa [parts] using ⟨(ih test (by simp [parts])).1 ht,
          (ih consequent (by simp [parts])).1 hc, (ih alternate (by simp [parts])).1 ha⟩
      | member s owner property optional =>
        obtain ⟨ho, -, hp⟩ := Passes.of_bind h
        refine supported_iff.2 ⟨rfl, fun x hx => ?_⟩
        rcases List.mem_cons.1 hx with rfl | hx
        · exact ihm x hx ho
        · exact supported_of_mentionProperty
            (fun y hy => ihm y (List.mem_cons_of_mem _ hy)) hp x hx
      | call s callee arguments optional =>
        obtain ⟨hc, -, ha⟩ := Passes.of_bind h
        refine supported_iff.2 ⟨rfl, fun x hx => ?_⟩
        rcases List.mem_cons.1 hx with rfl | hx
        · exact ihm x hx hc
        · exact supported_of_mentionElements
            (fun y hy => ihm y (List.mem_cons_of_mem _ hy)) ha x hx
      | chain s inner =>
        refine supported_iff.2 ⟨rfl, ?_⟩
        simpa [parts] using (ih inner (by simp [parts])).1 h
    · cases e with
      | identifier s name => exact supported_iff.2 ⟨rfl, by simp [parts]⟩
      | member s owner property optional =>
        -- only links without `?.` are targets
        cases optional with
        | true => exact absurd h (not_passes_fail _ _)
        | false =>
          obtain ⟨ho, -, hp⟩ := Passes.of_bind h
          refine supported_iff.2 ⟨rfl, fun x hx => ?_⟩
          rcases List.mem_cons.1 hx with rfl | hx
          · exact (ih x (by simp [parts])).2 ho
          · exact supported_of_mentionProperty
              (fun y hy => ihm y (List.mem_cons_of_mem _ hy)) hp x hx
      | _ => exact absurd h (not_passes_fail _ _)

end Expr

end PromptMarkup

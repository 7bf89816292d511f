/-
The parameters that an analysis reports are all that a prompt needs.

* `Walk.Visible` — names are visible and have slots;
* `sight` — the law that names stay visible, that no name is missing, and that only visits inside of
  a path are recorded;
* `Node.informed_walk` — a node whose names are known is walked within this law, the first time it
  is visited;
* `parameters_suffice` — a prompt that was analyzed, and that declares names only in mustaches, is
  compiled without a missing name, if there is a value for each of its parameters.

Design notes: nothing is assumed of the host, and neither are the values.  What is declared in the
`else` part of a block is not seen behind it since such a part is a fragment; this is known of
templates that were read.
-/
import PromptMarkup.Metadata
import PromptMarkup.Proofs.Fresh
import PromptMarkup.Proofs.Needs
import PromptMarkup.Proofs.Reading
import PromptMarkup.Proofs.Soundness
import PromptMarkup.Yaml.Document

namespace PromptMarkup

open PromptMarkup.Computation

/-! ### Names that are visible -/

/-- A name is missing. -/
def Problem.IsMissing (p : Problem) : Prop :=
  ∃ name, p.fault = .undeclared name

theorem Problem.not_isMissing {p : Problem} (h : ∀ name, p.fault ≠ .undeclared name) :
    ¬ p.IsMissing :=
  fun ⟨name, hname⟩ => h name hname

/-- The given names are visible, and all names that are visible have slots. -/
structure Walk.Visible (V : List String) (w : Walk) : Prop where
  valid : w.scope.Valid
  names : ∀ name ∈ V, w.scope.sees name = true

/-- Names stay visible, and the problems that were recorded are not those of a missing name. -/
structure Keeps (w t : Walk) : Prop where
  leads : w.scope.Leads t.scope
  names : ∀ name, w.scope.sees name = true → t.scope.sees name = true
  problems : ∀ p ∈ t.problems, p.IsMissing → p ∈ w.problems

namespace Keeps

variable {u v w t : Walk} {V new : List String}

theorem of_eq (hscope : t.scope = w.scope) (hproblems : t.problems = w.problems) : Keeps w t := by
  refine ⟨hscope ▸ Scope.Leads.refl _, fun name h => ?_, fun p hp _ => ?_⟩
  · rw [hscope]
    exact h
  · rw [← hproblems]
    exact hp

theorem trans (h : Keeps u v) (h' : Keeps v w) : Keeps u w :=
  ⟨h.leads.trans h'.leads, fun name hname => h'.names name (h.names name hname),
    fun p hp hmissing => h.problems p (h'.problems p hp hmissing) hmissing⟩

theorem visible (h : Keeps w t) (hw : w.Visible V) : t.Visible V :=
  ⟨h.leads.valid hw.valid, fun name hname => h.names name (hw.names name hname)⟩

end Keeps

/-- More names are visible. -/
theorem Walk.Visible.append {w : Walk} {V new : List String} (h : w.Visible V)
    (hnew : ∀ name ∈ new, w.scope.sees name = true) : w.Visible (V ++ new) := by
  refine ⟨h.valid, fun name hname => ?_⟩
  rcases List.mem_append.1 hname with hname | hname
  · exact h.names name hname
  · exact hnew name hname

theorem Scope.sees_set (s : Scope) (name other : String) (v : Value) :
    (s.set name v).sees other = (s.sees other || name == other) := by
  unfold Scope.set Scope.sees Fields.has
  split
  · next i hi =>
    by_cases h : name = other
    · subst h
      simp [hi]
    · simp [h]
  · next hnone =>
    rw [Fields.get?_put]
    by_cases h : name = other
    · simp [h]
    · simp [h]

/-- The law of a part of a walk that misses no name. -/
def glance : Law Interrupt Walk where
  done w t := t.statuses = w.statuses ∧ Keeps w t
  stop w e t := (∀ p ∈ t.problems, p.IsMissing → p ∈ w.problems) ∧
    ∀ p, e = .failed p → ¬ p.IsMissing
  refl _ := ⟨rfl, Keeps.of_eq rfl rfl⟩
  trans h h' := ⟨h'.1.trans h.1, h.2.trans h'.2⟩
  back h h' := ⟨fun p hp hmissing => h.2.problems p (h'.1 p hp hmissing) hmissing, h'.2⟩

/-- A part of a walk that visits no node misses no name, wherever the given names are visible. -/
def Sees {α : Type} (V : List String) (x : Walking α) : Prop :=
  ∀ w, w.Visible V → RespectsAt glance w x

section Rules

variable {α β : Type} {V : List String}

theorem Sees.bind {x : Walking α} {f : α → Walking β} (hx : Sees V x) (hf : ∀ a, Sees V (f a)) :
    Sees V (x >>= f) :=
  fun w hw => (hx w hw).bind fun a t _ ht => hf a t (ht.2.visible hw)

theorem sees_pure (a : α) : Sees V (pure a) :=
  fun w _ => Respects.pure a w

theorem sees_look (part : Walk → α) : Sees V (look part) :=
  fun w _ => Respects.look part w

/-- A change of neither the visits nor the names, which records no problem. -/
theorem sees_modify {f : Walk → Walk} (hstatuses : ∀ w, (f w).statuses = w.statuses)
    (hscope : ∀ w, (f w).scope = w.scope) (hproblems : ∀ w, (f w).problems = w.problems) :
    Sees V (modify f : Walking PUnit) :=
  fun w _ => RespectsAt.of_ok rfl ⟨hstatuses w, Keeps.of_eq (hscope w) (hproblems w)⟩

end Rules

namespace Walking

variable {α : Type} {setting : Setting} {id : Nat} {path : IterationPath} {V : List String}
  {info : NodeInfo} {as : List Attribute}

theorem sees_fail {fault : Fault} (h : ∀ name, fault ≠ .undeclared name) (info : NodeInfo) :
    Sees V (fail fault info : Walking α) := by
  refine fun w _ => RespectsAt.of_error rfl ⟨fun p hp _ => hp, fun p hp => ?_⟩
  obtain rfl := Interrupt.failed.inj hp
  exact Problem.not_isMissing h

theorem sees_report {fault : Fault} (h : ∀ name, fault ≠ .undeclared name) (start stop : Nat) :
    Sees V (report fault start stop) := by
  refine fun w _ => RespectsAt.of_ok rfl
    ⟨rfl, Scope.Leads.refl _, fun _ h => h, fun p hp hmissing => ?_⟩
  rcases List.mem_append.1 hp with hp | hp
  · exact hp
  · obtain rfl := List.mem_singleton.1 hp
    exact absurd hmissing (Problem.not_isMissing h)

theorem sees_setVariable (name : String) (v : Value) : Sees V (setVariable name v) := by
  refine fun w _ => RespectsAt.of_ok rfl ⟨rfl, Scope.leads_set w.scope name v, fun other h => ?_,
    fun p hp _ => hp⟩
  show (w.scope.set name v).sees other = true
  rw [Scope.sees_set, h, Bool.true_or]

/-! ### Evaluations -/

/-- An evaluation that adds names to the scope and misses none. -/
theorem glance_evaluate {w : Walk} {e : Expr} (id : Nat) (path : IterationPath)
    (hstop : ∀ p scope, runFrom w.scope (e.evaluate setting.host) = (.error p, scope) →
      ¬ p.IsMissing)
    (hdone : ∀ v scope, runFrom w.scope (e.evaluate setting.host) = (.ok v, scope) →
      w.scope.Leads scope ∧ ∀ name, w.scope.sees name = true → scope.sees name = true) :
    RespectsAt glance w (evaluate setting id path e) := by
  have heval := runFrom_evaluate w setting id path e
  rcases hrun : runFrom w.scope (e.evaluate setting.host) with ⟨p | v, scope⟩
  · rw [hrun] at heval
    refine RespectsAt.of_error heval ⟨fun p hp _ => hp, fun q hq => ?_⟩
    obtain rfl := Interrupt.failed.inj hq
    exact hstop p scope hrun
  · rw [hrun] at heval
    obtain ⟨hleads, hnames⟩ := hdone v scope hrun
    exact RespectsAt.of_ok heval ⟨rfl, hleads, hnames, fun p hp _ => hp⟩

/-- None of the names that are visible is missing. -/
theorem not_isMissing {w : Walk} {names : List String} {p : Problem}
    (h : MissingOnly names w.scope p.fault) (hw : w.Visible V) (hV : names ⊆ V) :
    ¬ p.IsMissing := by
  rintro ⟨name, hname⟩
  obtain ⟨hmem, hunseen⟩ := h hw.valid name hname
  exact nomatch (hw.names name (hV hmem)).symm.trans hunseen

/-- An expression that declares nothing, all of whose names are visible. -/
theorem sees_evaluate (setting : Setting) (id : Nat) (path : IterationPath) {e : Expr}
    (h : e.DeclaresNothing) (hV : e.names ⊆ V) : Sees V (evaluate setting id path e) := by
  intro w hw
  have he := Expr.respects_evaluate setting.host e w.scope
  refine glance_evaluate id path (fun p scope hrun => ?_) fun v scope hrun => ?_
  · obtain ⟨-, -, hmissing⟩ := he.stop hrun
    exact not_isMissing (hmissing h) hw hV
  · obtain ⟨hleads, hstill⟩ := he.done hrun
    refine ⟨hleads, fun name hname => ?_⟩
    rw [Scope.sees, hstill h]
    exact hname

/-- The value of a plain assignment is evaluated before its name is written. -/
theorem evaluate_assignment (host : Host) (s t : Span) (name : String) (value : Expr) :
    (Expr.assignment s .assign (.identifier t name) value).evaluate host =
      (do
        let v ← value.evaluate host
        Evaluation.writeVariable name v
        return v) := by
  simp [Expr.evaluate, Expr.links, orUndefined]

/-- A plain assignment needs the names of its value, and its own is visible behind it. -/
theorem sees_assignment (setting : Setting) (id : Nat) (path : IterationPath) (s t : Span)
    (name : String) {value : Expr} (h : value.DeclaresNothing) (hV : value.names ⊆ V) {w : Walk}
    (hw : w.Visible V) :
    RespectsAt glance w (evaluate setting id path
      (.assignment s .assign (.identifier t name) value)) ∧
      ∀ v u,
      runFrom w (evaluate setting id path (.assignment s .assign (.identifier t name) value)) =
        (.ok v, u) → u.scope.sees name = true := by
  have he := Expr.respects_evaluate setting.host value w.scope
  -- the value may fail, and then nothing was declared
  rcases hrun : runFrom w.scope (value.evaluate setting.host) with ⟨p | v, scope⟩
  · have hstop := runFrom_bind_error hrun fun v => do
      Evaluation.writeVariable name v
      return v
    rw [← evaluate_assignment setting.host s t name value] at hstop
    refine ⟨glance_evaluate id path (fun q u hq => ?_) fun v u hu => ?_, fun v u hu => ?_⟩
    · obtain ⟨-, -, hmissing⟩ := he.stop hrun
      obtain rfl : p = q := Except.error.inj (Prod.mk.inj (hstop.symm.trans hq)).1
      exact not_isMissing (hmissing h) hw hV
    · exact nomatch hstop.symm.trans hu
    · rw [runFrom_evaluate, hstop] at hu
      exact nomatch hu
  · have hdone := runFrom_bind_ok hrun fun v => do
      Evaluation.writeVariable name v
      return v
    rw [← evaluate_assignment setting.host s t name value] at hdone
    obtain ⟨hleads, hstill⟩ := he.done hrun
    -- the value declares nothing, so that the only new name is that of the assignment
    have hsees : ∀ other,
      (scope.set name v).sees other = (w.scope.sees other || name == other) := by
      intro other
      rw [Scope.sees_set, Scope.sees, hstill h]
      rfl
    refine ⟨glance_evaluate id path (fun q u hq => ?_) fun v' u hu => ?_, fun v' u hu => ?_⟩
    · exact nomatch hdone.symm.trans hq
    · obtain rfl : scope.set name v = u := (Prod.mk.inj (hdone.symm.trans hu)).2
      refine ⟨hleads.trans (Scope.leads_set scope name v), fun other hother => ?_⟩
      rw [hsees, hother, Bool.true_or]
    · rw [runFrom_evaluate, hdone] at hu
      obtain rfl := (Prod.mk.inj hu).2
      exact (hsees name).trans (by rw [beq_self_eq_true, Bool.or_true])

theorem sees_partsText (setting : Setting) (id : Nat) (path : IterationPath)
    {parts : List AttributePart} (h : ∀ e, .expression e ∈ parts → e.DeclaresNothing)
    (hV : ∀ e, .expression e ∈ parts → e.names ⊆ V) : Sees V (partsText setting id path parts) := by
  induction parts with
  | nil => exact sees_pure ""
  | cons part rest ih =>
    have hrest : Sees V (partsText setting id path rest) :=
      ih (fun e he => h e (List.mem_cons_of_mem _ he)) fun e he => hV e (List.mem_cons_of_mem _ he)
    cases part with
    | text s data => exact hrest.bind fun _ => sees_pure _
    | expression e =>
      exact (sees_evaluate setting id path (h e List.mem_cons_self) (hV e List.mem_cons_self)).bind
        fun _ => hrest.bind fun _ => sees_pure _

theorem sees_attributeValue (setting : Setting) (id : Nat) (path : IterationPath) {a : Attribute}
    (h : ∀ e ∈ a.expressions, e.DeclaresNothing) (hV : ∀ e ∈ a.expressions, e.names ⊆ V) :
    Sees V (attributeValue setting id path a) := by
  unfold attributeValue
  have hmem : ∀ {parts e}, a.parts = some parts → .expression e ∈ parts → e ∈ a.expressions := by
    intro parts e hparts he
    rw [Attribute.expressions, hparts]
    exact List.mem_filterMap.2 ⟨_, he, rfl⟩
  split
  · exact sees_pure _
  · next e hparts =>
    have he : e ∈ a.expressions := hmem hparts List.mem_cons_self
    exact sees_evaluate setting id path (h e he) (hV e he)
  · next parts _ hparts =>
    refine (sees_partsText setting id path (fun e he => ?_) fun e he => ?_).bind fun _ =>
      sees_pure _
    · exact h e (hmem hparts he)
    · exact hV e (hmem hparts he)

theorem sees_attributeValues (setting : Setting) (id : Nat) (path : IterationPath)
    (h : ∀ e ∈ as.flatMap Attribute.expressions, e.DeclaresNothing) (hV : attributeNames as ⊆ V) :
    Sees V (attributeValues setting id path as) := by
  induction as with
  | nil => exact sees_pure []
  | cons a rest ih =>
    have hnames : ∀ e ∈ (a :: rest).flatMap Attribute.expressions, e.names ⊆ V :=
      fun e he name hname => hV (List.mem_flatMap.2 ⟨e, he, hname⟩)
    have hrest : Sees V (attributeValues setting id path rest) := by
      refine ih (fun e he => h e (List.mem_append_right _ he)) fun name hname => ?_
      obtain ⟨e, he, hname⟩ := List.mem_flatMap.1 hname
      exact hnames e (List.mem_append_right _ he) hname
    refine (sees_attributeValue setting id path (fun e he => ?_) fun e he => ?_).bind fun _ =>
      hrest.bind fun _ => sees_pure _
    · exact h e (List.mem_append_left _ he)
    · exact hnames e (List.mem_append_left _ he)

theorem sees_takesBranch (setting : Setting) (id : Nat) (path : IterationPath) {e : Expr}
    (h : e.DeclaresNothing) (hV : e.names ⊆ V) : Sees V (takesBranch setting id path e) := by
  refine (sees_look _).bind fun d => ?_
  cases d with
  | branch taken => exact sees_pure taken
  | _ => exact (sees_evaluate setting id path h hV).bind fun _ => sees_pure _

theorem sees_checkFree (info : NodeInfo) (name : String) : Sees V (checkFree info name) := by
  refine (sees_look _).bind fun _ => ?_
  split
  · exact sees_fail (by simp) info
  · exact sees_pure _

theorem sees_checkNames (info : NodeInfo) (header : ForHeader) :
    Sees V (checkNames info header) := by
  refine (sees_checkFree info header.item).bind fun _ => ?_
  cases header.index with
  | none => exact sees_pure _
  | some name => exact sees_checkFree info name

theorem sees_takeItems (setting : Setting) (id : Nat) (path : IterationPath) {e : Expr}
    (h : e.DeclaresNothing) (hV : e.names ⊆ V) : Sees V (takeItems setting id path e) := by
  refine (sees_look _).bind fun d => ?_
  cases d with
  | iteration items i v => exact sees_pure _
  | _ => exact (sees_evaluate setting id path h hV).bind fun _ => sees_pure _

theorem sees_setIndex (setting : Setting) (id : Nat) (path : IterationPath) {header : ForHeader}
    (h : ∀ e ∈ header.usedKey, e.DeclaresNothing) (hV : ∀ e ∈ header.usedKey, e.names ⊆ V) (i : Nat)
    (resumed : Option Value) : Sees V (setIndex setting id path header i resumed) := by
  unfold setIndex
  unfold ForHeader.usedKey at h hV
  cases hindex : header.index with
  | none => exact sees_pure none
  | some name =>
    rw [hindex, Option.bind_some] at h hV
    have hv : Sees V (indexValue setting id path header i resumed) := by
      unfold indexValue
      cases resumed with
      | some v => exact sees_pure v
      | none =>
        cases hkey : header.key with
        | none => exact sees_pure _
        | some key => exact sees_evaluate setting id _ (h key hkey) (hV key hkey)
    exact hv.bind fun v => Sees.bind (sees_setVariable name v) fun _ => sees_pure _

theorem sees_messageRole (info : NodeInfo) (role : Option Role) (values : Fields Value) :
    Sees V (messageRole info role values) := by
  unfold messageRole
  repeat' split
  all_goals first | exact sees_pure _ | exact sees_fail (by simp) info

theorem sees_stepConfig (setting : Setting) (id : Nat) (path : IterationPath)
    (h : ∀ e ∈ (Attribute.others as "as").flatMap Attribute.expressions, e.DeclaresNothing)
    (hV : attributeNames (Attribute.others as "as") ⊆ V) :
    Sees V (stepConfig setting id path as) := by
  refine (sees_look _).bind fun paused => ?_
  cases paused with
  | some pointers => exact sees_pure _
  | none => exact (sees_attributeValues setting id path h hV).bind fun _ => sees_pure _

/-! ### Texts and messages -/

theorem sees_write (id : Nat) (path : IterationPath) (text : String) :
    Sees V (write id path text) := by
  refine Sees.bind (sees_modify ?_ ?_ ?_) fun _ => (sees_look _).bind fun _ => sees_modify ?_ ?_ ?_
  all_goals exact fun _ => rfl

theorem sees_writeValue (id : Nat) (path : IterationPath) (e : Expr) (v : Value) :
    Sees V (match v with
      | .undefined => pure ()
      | v => if e.isAssignment then pure () else write id path v.rendered) := by
  split
  · exact sees_pure ()
  · split
    · exact sees_pure ()
    · exact sees_write id path _

theorem sees_closeText : Sees V closeText :=
  sees_modify (fun _ => rfl) (fun _ => rfl) fun _ => rfl

theorem sees_takeContent : Sees V takeContent :=
  fun w _ => RespectsAt.of_ok (runFrom_takeContent w) ⟨rfl, Keeps.of_eq rfl rfl⟩

theorem sees_placeToolCalls (role : Role) (pending : List PendingCall) :
    Sees V (placeToolCalls role pending) := by
  refine fun w _ => RespectsAt.of_ok (runFrom_placeToolCalls w role pending)
    ⟨rfl, Scope.Leads.refl _, fun _ h => h, fun p hp hmissing => ?_⟩
  rcases List.mem_append.1 hp with hp | hp
  · exact hp
  · unfold misplacedCalls at hp
    split at hp
    · exact nomatch hp
    · obtain ⟨call, -, rfl⟩ := List.mem_map.1 hp
      exact absurd hmissing (Problem.not_isMissing fun _ h => nomatch h)

theorem sees_emit (m : Message) : Sees V (emit m) :=
  sees_modify (fun _ => rfl) (fun _ => rfl) fun _ => rfl

theorem sees_closeMessage (setting : Setting) : Sees V (closeMessage setting) := by
  refine sees_takeContent.bind fun ⟨content, pending⟩ => ?_
  dsimp only
  split
  · exact sees_pure _
  · exact (sees_placeToolCalls _ _).bind fun _ => sees_emit _

theorem sees_place (id : Nat) (path : IterationPath) (content : Content) :
    Sees V (place id path content) := by
  refine Sees.bind (sees_modify ?_ ?_ ?_) fun _ => sees_modify ?_ ?_ ?_
  all_goals exact fun _ => rfl

theorem sees_call (id : Nat) (path : IterationPath) (pending : PendingCall) :
    Sees V (call id path pending) := by
  refine Sees.bind (sees_modify ?_ ?_ ?_) fun _ => sees_modify ?_ ?_ ?_
  all_goals exact fun _ => rfl

theorem sees_placeContent (info : NodeInfo) (path : IterationPath) (kind : ContentKind)
    (text : String) :
    Sees V (placeContent info path kind text) := by
  cases kind with
  | text => exact sees_place _ _ _
  | image =>
    unfold placeContent
    dsimp only
    split
    · exact sees_fail (by simp) info
    · exact sees_place _ _ _

theorem sees_toolArguments (info : NodeInfo) (text : String) :
    Sees V (toolArguments info text) := by
  unfold toolArguments
  dsimp only
  split
  · exact sees_pure _
  · split
    · exact sees_pure _
    · exact Sees.bind (sees_report (by simp) _ _) fun _ => sees_pure _

end Walking

/-! ### Visits -/

/-- The law of a part of a walk that misses no name and records only visits inside of a path. -/
def sight (path : IterationPath) : Law Interrupt Walk where
  done w t := Marks path w.statuses t.statuses ∧ Keeps w t
  stop w e t := (∀ p ∈ t.problems, p.IsMissing → p ∈ w.problems) ∧
    ∀ p, e = .failed p → ¬ p.IsMissing
  refl _ := ⟨Marks.refl _, Keeps.of_eq rfl rfl⟩
  trans h h' := ⟨h.1.trans h'.1, h.2.trans h'.2⟩
  back h h' := ⟨fun p hp hmissing => h.2.problems p (h'.1 p hp hmissing) hmissing, h'.2⟩

/-- A part of a walk keeps the law, and behind it some new names are visible. -/
structure Informed {α : Type} (path : IterationPath) (w : Walk) (x : Walking α)
    (new : List String) :
    Prop where
  respects : RespectsAt (sight path) w x
  reveals : ∀ a t, runFrom w x = (.ok a, t) → ∀ name ∈ new, t.scope.sees name = true

section Informed

variable {α β : Type} {path : IterationPath} {u w : Walk} {V new more : List String}
  {x : Walking α} {f : α → Walking β}

theorem Sees.respects (h : Sees V x) (hw : w.Visible V) : RespectsAt (sight path) w x :=
  (h w hw).weaken (fun _ ht => ⟨ht.1 ▸ Marks.refl _, ht.2⟩) fun _ _ ht => ht

theorem Sees.informed (h : Sees V x) (hw : w.Visible V) : Informed path w x [] :=
  ⟨h.respects hw, fun _ _ _ _ hname => nomatch hname⟩

/-- What comes in front visits no node, and makes some more names visible. -/
theorem Informed.revealed (hx : Sees V x) (hw : w.Visible V)
    (hmore : ∀ a t, runFrom w x = (.ok a, t) → ∀ name ∈ more, t.scope.sees name = true)
    (hf : ∀ a t, t.Visible (V ++ more) → t.statuses = w.statuses → Informed path t (f a) new) :
    Informed path w (x >>= f) new := by
  have hlater : ∀ a t, runFrom w x = (.ok a, t) → Informed path t (f a) new := by
    intro a t hrun
    obtain ⟨hstatuses, hkeeps⟩ := (hx w hw).done hrun
    exact hf a t ((hkeeps.visible hw).append (hmore a t hrun)) hstatuses
  refine ⟨(hx.respects hw).bind fun a t hrun _ => (hlater a t hrun).respects, fun b t hrun => ?_⟩
  obtain ⟨a, s, h1, h2⟩ := runFrom_bind_eq_ok hrun
  exact (hlater a s h1).reveals b t h2

/-- What comes in front visits no node. -/
theorem Informed.behind (hx : Sees V x) (hw : w.Visible V)
    (hf : ∀ a t, t.Visible V → t.statuses = w.statuses → Informed path t (f a) new) :
    Informed path w (x >>= f) new := by
  have hnone : ∀ a t, runFrom w x = (.ok a, t) → ∀ name ∈ [], t.scope.sees name = true :=
    fun _ _ _ _ hname => nomatch hname
  exact Informed.revealed hx hw hnone fun a t ht => hf a t (List.append_nil V ▸ ht)

/-- What comes behind visits no node, and makes some more names visible. -/
theorem Informed.revealing (h : Informed path w x new) (hw : w.Visible V) (hf : ∀ a, Sees V (f a))
    (hmore : ∀ a s b t, runFrom s (f a) = (.ok b, t) → ∀ name ∈ more, t.scope.sees name = true) :
    Informed path w (x >>= f) (new ++ more) := by
  have hlater : ∀ a t, runFrom w x = (.ok a, t) → t.Visible V :=
    fun a t hrun => (h.respects.done hrun).2.visible hw
  refine ⟨h.respects.bind fun a t hrun _ => (hf a).respects (hlater a t hrun),
    fun b t hrun name hname => ?_⟩
  obtain ⟨a, s, h1, h2⟩ := runFrom_bind_eq_ok hrun
  rcases List.mem_append.1 hname with hname | hname
  · exact ((hf a s (hlater a s h1)).done h2).2.names name (h.reveals a s h1 name hname)
  · exact hmore a s b t h2 name hname

/-- What comes behind visits no node. -/
theorem Informed.before (h : Informed path w x new) (hw : w.Visible V) (hf : ∀ a, Sees V (f a)) :
    Informed path w (x >>= f) new := by
  have hnone : ∀ a s b t, runFrom s (f a) = (.ok b, t) → ∀ name ∈ [], t.scope.sees name = true :=
    fun _ _ _ _ _ _ hname => nomatch hname
  exact List.append_nil new ▸ h.revealing hw hf hnone

/-- A part whose run ends where another one ends, as far as visits, names and problems are
concerned. -/
theorem Informed.transfer {y : Walking β} (h : Informed path u x new)
    (hstart : u.statuses = w.statuses ∧ u.scope = w.scope ∧ u.problems = w.problems)
    (hok : ∀ b t, runFrom w y = (.ok b, t) → ∃ a s, runFrom u x = (.ok a, s) ∧
      t.statuses = s.statuses ∧ t.scope = s.scope ∧ t.problems = s.problems)
    (hstop : ∀ e t, runFrom w y = (.error e, t) → ∃ s, runFrom u x = (.error e, s) ∧
      t.problems = s.problems) : Informed path w y new := by
  obtain ⟨hstatuses, hscope, hproblems⟩ := hstart
  refine ⟨?_, fun b t hrun name hname => ?_⟩
  -- both ends are read off the other computation, which starts and ends alike
  · rcases hrun : runFrom w y with ⟨e | b, t⟩
    · obtain ⟨s, hs, hsame⟩ := hstop e t hrun
      obtain ⟨hadded, hfailed⟩ := h.respects.stop hs
      rw [hproblems, ← hsame] at hadded
      exact RespectsAt.of_error hrun ⟨hadded, hfailed⟩
    · obtain ⟨a, s, hs, hst, hsc, hpr⟩ := hok b t hrun
      obtain ⟨hmarks, hkeeps⟩ := h.respects.done hs
      refine RespectsAt.of_ok hrun ⟨?_, ?_⟩
      · rw [← hstatuses, hst]
        exact hmarks
      · refine ⟨?_, fun name hname => ?_, fun p hp hmissing => ?_⟩
        · rw [← hscope, hsc]
          exact hkeeps.leads
        · rw [hsc]
          exact hkeeps.names name (hscope ▸ hname)
        · rw [← hproblems]
          exact hkeeps.problems p (hpr ▸ hp) hmissing
  · obtain ⟨a, s, hs, -, hsc, -⟩ := hok b t hrun
    rw [hsc]
    exact h.reveals a s hs name hname

end Informed

namespace Walking

variable {path : IterationPath} {w : Walk} {act : Walking Unit} {V new : List String}

/-- What was declared in an inner scope is not seen outside. -/
theorem informed_inCopy (h : RespectsAt (sight path) w act) : Informed path w (inCopy act) [] := by
  refine ⟨?_, fun _ _ _ _ hname => nomatch hname⟩
  rcases hrun : runFrom w act with ⟨e | ⟨⟩, t⟩
  · exact RespectsAt.of_error (runFrom_inCopy_error hrun) (h.stop hrun)
  · obtain ⟨hmarks, hkeeps⟩ := h.done hrun
    refine RespectsAt.of_ok (runFrom_inCopy_ok hrun) ⟨hmarks,
      ⟨hkeeps.leads.size, fun hvalid => ?_, .refl _⟩, fun name hname => hname, hkeeps.problems⟩
    exact Pointers.Below.mono hvalid hkeeps.leads.size

theorem informed_entering {turn : Turn} (h : Informed path (entered w turn) act new) :
    Informed path w (entering turn act) new := by
  refine h.transfer ⟨rfl, rfl, rfl⟩ (fun b t hrun => ?_) fun e t hrun => ?_
  · rcases hact : runFrom (entered w turn) act with ⟨e | ⟨⟩, s⟩
    · exact nomatch (runFrom_entering_error hact).symm.trans hrun
    · obtain rfl := (Prod.mk.inj ((runFrom_entering_ok hact).symm.trans hrun)).2
      exact ⟨(), s, rfl, rfl, rfl, rfl⟩
  · rcases hact : runFrom (entered w turn) act with ⟨e' | ⟨⟩, s⟩
    · obtain ⟨he, rfl⟩ := Prod.mk.inj ((runFrom_entering_error hact).symm.trans hrun)
      exact ⟨s, Prod.ext he rfl, rfl⟩
    · exact nomatch (runFrom_entering_ok hact).symm.trans hrun

theorem informed_onPause {record : Walk → Walk} (hrecord : ∀ t, (record t).problems = t.problems)
    (h : Informed path w act new) : Informed path w (onPause record act) new := by
  refine h.transfer ⟨rfl, rfl, rfl⟩ (fun b t hrun => ?_) fun e t hrun => ?_
  -- only a pause is recorded, which no walk without responses goes on behind
  · rw [runFrom_onPause] at hrun
    rcases hact : runFrom w act with ⟨(config | p) | ⟨⟩, s⟩
    · rw [hact] at hrun
      exact nomatch hrun
    · rw [hact] at hrun
      exact nomatch hrun
    · rw [hact] at hrun
      obtain rfl := (Prod.mk.inj hrun).2
      exact ⟨(), s, rfl, rfl, rfl, rfl⟩
  · rw [runFrom_onPause] at hrun
    rcases hact : runFrom w act with ⟨(config | p) | ⟨⟩, s⟩
    · rw [hact] at hrun
      obtain ⟨he, rfl⟩ := Prod.mk.inj hrun
      exact ⟨s, Prod.ext he rfl, hrecord s⟩
    · rw [hact] at hrun
      obtain ⟨he, rfl⟩ := Prod.mk.inj hrun
      exact ⟨s, Prod.ext he rfl, rfl⟩
    · rw [hact] at hrun
      exact nomatch hrun

theorem informed_within {there back : Walk → Walk}
    (hthere : (there w).statuses = w.statuses ∧ (there w).scope = w.scope ∧
      (there w).problems = w.problems)
    (hback : ∀ t, (back t).statuses = t.statuses ∧ (back t).scope = t.scope ∧
      (back t).problems = t.problems)
    (h : Informed path (there w) act new) : Informed path w (within there back act) new := by
  refine h.transfer hthere (fun b t hrun => ?_) fun e t hrun => ?_
  · rw [runFrom_within] at hrun
    obtain ⟨hact, rfl⟩ := Prod.mk.inj hrun
    exact ⟨b, _, Prod.ext hact rfl, hback _⟩
  · rw [runFrom_within] at hrun
    obtain ⟨hact, rfl⟩ := Prod.mk.inj hrun
    exact ⟨_, Prod.ext hact rfl, (hback _).2.2⟩

theorem informed_inArguments {flag : Bool}
    (h : Informed path { w with inArguments := flag } act new) :
    Informed path w (inArguments flag act) new := by
  refine h.transfer ⟨rfl, rfl, rfl⟩ (fun b t hrun => ?_) fun e t hrun => ?_
  · rw [runFrom_inArguments] at hrun
    obtain ⟨hact, rfl⟩ := Prod.mk.inj hrun
    exact ⟨b, _, Prod.ext hact rfl, rfl, rfl, rfl⟩
  · rw [runFrom_inArguments] at hrun
    obtain ⟨hact, rfl⟩ := Prod.mk.inj hrun
    exact ⟨_, Prod.ext hact rfl, rfl⟩

theorem informed_captured (h : Informed path { w with stray := "" } act new) :
    Informed path w (captured act) new := by
  refine h.transfer ⟨rfl, rfl, rfl⟩ (fun b t hrun => ?_) fun e t hrun => ?_
  · rcases hact : runFrom { w with stray := "" } act with ⟨e | ⟨⟩, s⟩
    · exact nomatch (runFrom_captured_error hact).symm.trans hrun
    · obtain rfl := (Prod.mk.inj ((runFrom_captured_ok hact).symm.trans hrun)).2
      exact ⟨(), s, hact, rfl, rfl, rfl⟩
  · rcases hact : runFrom { w with stray := "" } act with ⟨e' | ⟨⟩, s⟩
    · obtain ⟨he, rfl⟩ := Prod.mk.inj ((runFrom_captured_error hact).symm.trans hrun)
      obtain rfl := Except.error.inj he
      exact ⟨s, hact, rfl⟩
    · exact nomatch (runFrom_captured_ok hact).symm.trans hrun

/-- The first visit of a node. -/
theorem informed_visiting {ids : List Nat} {id : Nat} (hid : id ∈ ids)
    (huntouched : Untouched ids path w.statuses)
    (h : Informed path { w with statuses := w.statuses.decide id .none } act new) :
    Informed path w (visiting id path act) new := by
  have hopen : w.statuses.completed id path = false := huntouched.not_completed hid
  rw [← huntouched.enter hid] at h
  -- no visit was made here before, so that entering only clears a decision
  have hmarks : Marks path w.statuses (w.enter id path).statuses := by
    rw [huntouched.enter hid]
    exact Marks.decide path _ id .none
  have hsame : (w.enter id path).scope = w.scope ∧ (w.enter id path).problems = w.problems := by
    rw [huntouched.enter hid]
    exact ⟨rfl, rfl⟩
  -- three ends of a visit; only one that is done is marked as completed
  rcases hact : runFrom (w.enter id path) act with ⟨(config | p) | ⟨⟩, t⟩
  · have hrun := runFrom_visiting_paused hopen hact
    refine ⟨RespectsAt.of_error hrun ⟨?_, fun p hp => nomatch hp⟩, fun a s hs => ?_⟩
    · exact hsame.2 ▸ (h.respects.stop hact).1
    · exact nomatch hrun.symm.trans hs
  · have hrun := runFrom_visiting_failed hopen hact
    obtain ⟨hadded, hfailed⟩ := h.respects.stop hact
    refine ⟨RespectsAt.of_error hrun ⟨hsame.2 ▸ hadded, hfailed⟩, fun a s hs => ?_⟩
    exact nomatch hrun.symm.trans hs
  · have hrun := runFrom_visiting_ok hopen hact
    obtain ⟨hinner, hkeeps⟩ := h.respects.done hact
    refine ⟨RespectsAt.of_ok hrun ⟨?_, ?_⟩, fun a s hs => ?_⟩
    · exact (hmarks.trans hinner).trans (Marks.complete path _ id)
    · exact ⟨hsame.1 ▸ hkeeps.leads, fun name hname => hkeeps.names name (hsame.1.symm ▸ hname),
        hsame.2 ▸ hkeeps.problems⟩
    · obtain rfl := (Prod.mk.inj (hrun.symm.trans hs)).2
      exact h.reveals () t hact

variable {setting : Setting} {id : Nat} {ids : List Nat} {info : NodeInfo}

/-- A mustache declares the name of a plain assignment, and needs the names of all other parts. -/
theorem informed_mustache {e : Expr} (h : ∀ x ∈ e.parts, x.DeclaresNothing) (hV : e.needed ⊆ V)
    (hw : w.Visible V) : Informed path w (mustache setting id path e) e.declared?.toList := by
  rcases Expr.plain_or_declaresNothing h with ⟨s, t, name, value, rfl⟩ |
    ⟨hnothing, hneeded, hdeclared⟩
  · obtain ⟨hrespects, hname⟩ := sees_assignment setting id path s t name
      (h value (by simp [Expr.parts])) hV hw
    have hvisits : RespectsAt (sight path) w
        (evaluate setting id path (.assignment s .assign (.identifier t name) value)) :=
      hrespects.weaken (fun _ ht => ⟨ht.1 ▸ Marks.refl _, ht.2⟩) fun _ _ ht => ht
    have hfirst : Informed path w
        (evaluate setting id path (.assignment s .assign (.identifier t name) value)) [name] :=
      ⟨hvisits, fun v u hrun x hx => List.mem_singleton.1 hx ▸ hname v u hrun⟩
    exact hfirst.before hw fun v => sees_writeValue id path _ v
  · rw [hneeded] at hV
    rw [hdeclared]
    exact ((sees_evaluate setting id path hnothing hV).informed hw).before hw
      fun v => sees_writeValue id path e v

/-! ### Blocks -/

theorem informed_ifBlock {condition : Expr} {body otherwise : Walking Unit}
    (h : condition.DeclaresNothing) (hV : condition.names ⊆ V) (hw : w.Visible V)
    (hbody : ∀ t, t.Visible V → t.statuses = w.statuses → Informed path t body new)
    (hotherwise : ∀ t, t.Visible V → t.statuses = w.statuses → Informed path t otherwise []) :
    Informed path w (Walking.ifBlock setting id path condition body otherwise) [] := by
  refine Informed.behind (sees_takesBranch setting id path h hV) hw fun taken t ht hstatuses => ?_
  refine informed_onPause (fun _ => rfl) (informed_entering ?_)
  have hentered : (entered t ⟨id, path, .branch taken⟩).Visible V := ⟨ht.valid, ht.names⟩
  cases taken with
  | true => exact informed_inCopy (hbody _ hentered hstatuses).respects
  | false => exact hotherwise _ hentered hstatuses

theorem sees_of_setVariable {name : String} {v : Value} {a : PUnit} {t : Walk}
    (h : runFrom w (setVariable name v) = (.ok a, t)) : t.scope.sees name = true := by
  obtain rfl := (Prod.mk.inj h).2
  show (w.scope.set name v).sees name = true
  rw [Scope.sees_set, beq_self_eq_true, Bool.or_true]

/-- The index variable is visible once it was set. -/
theorem sees_of_setIndex {header : ForHeader} {i : Nat} {resumed v : Option Value} {t : Walk}
    (h : runFrom w (setIndex setting id path header i resumed) = (.ok v, t)) :
    ∀ name ∈ header.index.toList, t.scope.sees name = true := by
  intro name hname
  rw [setIndex, Option.mem_toList.1 hname] at h
  obtain ⟨value, s, -, h⟩ := runFrom_bind_eq_ok h
  obtain ⟨⟨⟩, u, hset, hpure⟩ := runFrom_bind_eq_ok h
  obtain rfl : u = t := (Prod.mk.inj hpure).2
  exact sees_of_setVariable hset

/-- An iteration of a loop whose variables and names are known. -/
theorem informed_iteration {header : ForHeader} {items : List Value}
    {body : IterationPath → Walking Unit} {i : Nat} (hkey : ∀ e ∈ header.usedKey, e.DeclaresNothing)
    (hV : ∀ e ∈ header.usedKey, e.names ⊆ V ++ [header.item]) (hw : w.Visible V)
    (hbody : ∀ t, t.Visible (V ++ header.variables) → t.statuses = w.statuses →
      Informed (path ++ [i]) t (body (path ++ [i])) new) (resumed : Option Value) (item : Value) :
    Informed (path ++ [i]) w (iteration setting id path header items body i resumed item) [] := by
  have hentered : (entered w ⟨id, path, .iteration i⟩).Visible V := ⟨hw.valid, hw.names⟩
  refine informed_entering (informed_inCopy (@Informed.respects _ _ _ _ new ?_))
  have hitem : ∀ a t, runFrom (entered w ⟨id, path, .iteration i⟩) (setVariable header.item item) =
      (.ok a, t) → ∀ name ∈ [header.item], t.scope.sees name = true :=
    fun a t hrun name hname => List.mem_singleton.1 hname ▸ sees_of_setVariable hrun
  refine Informed.revealed (sees_setVariable header.item item) hentered hitem
    fun _ t ht hstatuses => ?_
  refine Informed.revealed (sees_setIndex setting id path hkey hV i resumed) ht
    (fun v u => sees_of_setIndex) fun v u hu hsame => ?_
  refine informed_onPause (fun _ => rfl) (hbody u ?_ (hsame.trans hstatuses))
  rw [ForHeader.variables, ← List.singleton_append, ← List.append_assoc]
  exact hu

/-- The iterations from the `i`-th on of a loop whose variables and names are known. -/
theorem informed_iterations {header : ForHeader} {items : List Value}
    {body : IterationPath → Walking Unit} (hkey : ∀ e ∈ header.usedKey, e.DeclaresNothing)
    (hV : ∀ e ∈ header.usedKey, e.names ⊆ V ++ [header.item])
    (hbody : ∀ i t, t.Visible (V ++ header.variables) → Untouched ids (path ++ [i]) t.statuses →
      Informed (path ++ [i]) t (body (path ++ [i])) new)
    (i : Nat) (resumed : Option Value) (rest : List Value) {w : Walk} (hw : w.Visible V)
    (hids : ∀ j, i ≤ j → Untouched ids (path ++ [j]) w.statuses) :
    RespectsAt (sight path) w (iterations setting id path header items body i resumed rest) := by
  induction rest generalizing i resumed w with
  | nil => exact Respects.pure () w
  | cons item rest ih =>
    -- an iteration leaves the names around it, and touches no later one
    have hfirst : RespectsAt (sight (path ++ [i])) w
        (iteration setting id path header items body i resumed item) :=
      (informed_iteration hkey hV hw (fun t ht hstatuses =>
        hbody i t ht (hstatuses ▸ hids i (Nat.le_refl i))) resumed item).respects
    refine RespectsAt.bind (hfirst.weaken (fun t ht => ⟨ht.1.weaken (List.prefix_append _ _), ht.2⟩)
      fun _ _ ht => ht) fun ⟨⟩ t hrun _ => ?_
    obtain ⟨hmarks, hkeeps⟩ := hfirst.done hrun
    exact ih (i + 1) none (hkeeps.visible hw) fun j hj =>
      (hids j (Nat.le_of_succ_le hj)).of_marks hmarks (Nat.ne_of_lt hj)

theorem informed_forBlock {header : ForHeader} {body : IterationPath → Walking Unit}
    {otherwise : Walking Unit} (hiterable : header.iterable.DeclaresNothing)
    (hitems : header.iterable.names ⊆ V) (hkey : ∀ e ∈ header.usedKey, e.DeclaresNothing)
    (hV : ∀ e ∈ header.usedKey, e.names ⊆ V ++ [header.item]) (hw : w.Visible V)
    (hids : Untouched ids path w.statuses)
    (hbody : ∀ i t, t.Visible (V ++ header.variables) → Untouched ids (path ++ [i]) t.statuses →
      Informed (path ++ [i]) t (body (path ++ [i])) new)
    (hotherwise : ∀ t, t.Visible V → t.statuses = w.statuses → Informed path t otherwise []) :
    Informed path w (Walking.forBlock setting info path header body otherwise) [] := by
  refine Informed.behind (sees_checkNames info header) hw fun _ t ht hstatuses => ?_
  refine Informed.behind (sees_takeItems setting info.id path hiterable hitems) ht
    fun loop u hu hsame => ?_
  have hall : u.statuses = w.statuses := hsame.trans hstatuses
  split
  · exact informed_entering (hotherwise _ ⟨hu.valid, hu.names⟩ hall)
  · refine ⟨informed_iterations hkey hV hbody _ _ _ hu fun j _ => ?_, fun _ _ _ _ h => nomatch h⟩
    rw [hall]
    exact hids.weaken (List.Subset.refl _) (List.prefix_append _ _)

/-! ### Elements -/

variable {as : List Attribute} {body : Walking Unit}

theorem informed_fail {fault : Fault} (h : ∀ name, fault ≠ .undeclared name) (info : NodeInfo)
    (new : List String) : Informed path w (fail fault info : Walking Unit) new := by
  refine ⟨RespectsAt.of_error rfl ⟨fun p hp _ => hp, fun p hp => ?_⟩, fun _ _ hrun => nomatch hrun⟩
  obtain rfl := Interrupt.failed.inj hp
  exact Problem.not_isMissing h

theorem informed_message {role : Option Role}
    (has : ∀ e ∈ as.flatMap Attribute.expressions, e.DeclaresNothing) (hV : attributeNames as ⊆ V)
    (hw : w.Visible V)
    (hbody : ∀ t, t.Visible V → t.statuses = w.statuses → Informed path t body new) :
    Informed path w (message setting info path role as body) new := by
  refine Informed.behind (sees_look _) hw fun inMessage t ht hstatuses => ?_
  split
  · exact informed_fail (by simp) info new
  -- everything up to the body is evaluated with the names around the tag
  · refine Informed.behind (sees_attributeValues setting info.id path has hV) ht
      fun values t₁ ht₁ h₁ => ?_
    refine Informed.behind (sees_messageRole info role values) ht₁ fun role t₂ ht₂ h₂ => ?_
    dsimp only
    generalize (if role = Role.tool then textOf? values "id" else none) = toolId
    split
    · exact informed_fail (by simp) info new
    · refine Informed.behind (sees_closeMessage setting) ht₂ fun _ t₃ ht₃ h₃ => ?_
      have hall : t₃.statuses = w.statuses := h₃.trans (h₂.trans (h₁.trans hstatuses))
      -- only the flags differ inside
      have hinside : Informed path t₃ (within (fun w => { w with inMessage := true })
          (fun w => { w with inMessage := false }) (inArguments false body)) new := by
        refine informed_within ⟨rfl, rfl, rfl⟩ (fun _ => ⟨rfl, rfl, rfl⟩) (informed_inArguments ?_)
        exact hbody _ ⟨ht₃.valid, ht₃.names⟩ hall
      exact hinside.before ht₃ fun _ => sees_takeContent.bind fun ⟨content, pending⟩ =>
        (sees_placeToolCalls role pending).bind fun _ => sees_emit _

theorem informed_contentTag {kind : ContentKind}
    (has : ∀ e ∈ as.flatMap Attribute.expressions, e.DeclaresNothing) (hV : attributeNames as ⊆ V)
    (hw : w.Visible V)
    (hbody : ∀ t, t.Visible V → t.statuses = w.statuses → Informed path t body new) :
    Informed path w (contentTag setting info path kind as body) new := by
  refine Informed.behind (sees_look _) hw fun inContent t ht hstatuses => ?_
  split
  · exact informed_fail (by simp) info new
  · refine Informed.behind (sees_attributeValues setting info.id path has hV) ht
      fun values t₁ ht₁ h₁ => ?_
    refine Informed.behind sees_closeText ht₁ fun _ t₂ ht₂ h₂ => ?_
    have hall : t₂.statuses = w.statuses := h₂.trans (h₁.trans hstatuses)
    have hinside : Informed path t₂ (within (fun w => { w with inContent := true })
        (fun w => { w with inContent := false }) (inArguments false body)) new := by
      refine informed_within ⟨rfl, rfl, rfl⟩ (fun _ => ⟨rfl, rfl, rfl⟩) (informed_inArguments ?_)
      exact hbody _ ⟨ht₂.valid, ht₂.names⟩ hall
    refine hinside.before ht₂ fun _ => (sees_look _).bind fun stray =>
      Sees.bind (sees_modify ?_ ?_ ?_) fun _ => sees_placeContent info path kind _
    all_goals exact fun _ => rfl

theorem informed_toolCall
    (has : ∀ e ∈ as.flatMap Attribute.expressions, e.DeclaresNothing) (hV : attributeNames as ⊆ V)
    (hw : w.Visible V)
    (hbody : ∀ t, t.Visible V → t.statuses = w.statuses → Informed path t body new) :
    Informed path w (toolCall setting info path as body) new := by
  refine Informed.behind (sees_look _) hw fun inContent t ht hstatuses => ?_
  split
  · exact informed_fail (by simp) info new
  · refine Informed.behind (sees_attributeValues setting info.id path has hV) ht
      fun values t₁ ht₁ h₁ => ?_
    split
    · exact informed_fail (by simp) info new
    · exact informed_fail (by simp) info new
    · next id name _ _ =>
      have hinside : Informed path t₁ (captured (inArguments true body)) new :=
        informed_captured (informed_inArguments
          (hbody _ ⟨ht₁.valid, ht₁.names⟩ (h₁.trans hstatuses)))
      exact hinside.before ht₁ fun text => (sees_toolArguments info text).bind fun arguments =>
        sees_call _ _ _

theorem sees_takeResponse (name : Option String) (config : Fields Json) :
    Sees V (takeResponse setting id path name config) := by
  refine (sees_look _).bind fun turns => (sees_look _).bind fun responses => ?_
  cases responses with
  | nil =>
    refine (sees_closeMessage setting).bind fun _ => Sees.bind (sees_modify ?_ ?_ ?_) fun _ =>
      fun w _ => RespectsAt.of_error rfl ⟨fun p hp _ => hp, fun p hp => nomatch hp⟩
    all_goals exact fun _ => rfl
  | cons response rest =>
    have hname : Sees V (nameResponse name response) := by
      cases name with
      | none => exact sees_pure _
      | some name => exact sees_setVariable name _
    refine Sees.bind (sees_modify ?_ ?_ ?_) fun _ => Sees.bind (sees_modify ?_ ?_ ?_) fun _ =>
      hname.bind fun _ => (sees_closeMessage setting).bind fun _ => sees_emit _
    all_goals exact fun _ => rfl

/-- The name of a response is visible once it was taken. -/
theorem sees_of_takeResponse {name : Option String} {config : Fields Json} {t : Walk}
    (h : runFrom w (takeResponse setting id path name config) = (.ok (), t)) :
    ∀ x ∈ name.toList, t.scope.sees x = true := by
  intro x hx
  obtain rfl := Option.mem_toList.1 hx
  cases hresponses : w.responses with
  | nil => exact nomatch (runFrom_takeResponse_nil hresponses).symm.trans h
  | cons response rest =>
    obtain rfl := (Prod.mk.inj ((runFrom_takeResponse_cons hresponses).symm.trans h)).2
    show (named (some x) response _).sees x = true
    rw [named, Scope.sees_set, beq_self_eq_true, Bool.or_true]

/-- A step whose name is not written out fails, and not for a missing name. -/
theorem informed_stepName {f : Option String → Walking Unit}
    (h : Informed path w (f (responseName? as)) new) : Informed path w (stepName as >>= f) new := by
  unfold stepName
  unfold responseName? at h
  cases hfind : Attribute.find? as "as" with
  | none =>
    rw [hfind] at h
    exact h
  | some a =>
    rw [hfind, Option.bind_some] at h
    cases hstatic : a.staticText? with
    | none =>
      -- a name that is not static is a problem, though not of a missing name
      simp only [hstatic]
      refine ⟨RespectsAt.of_error rfl ⟨fun p hp _ => hp, fun p hp => ?_⟩,
        fun _ _ hrun => nomatch hrun⟩
      obtain rfl := Interrupt.failed.inj hp
      exact Problem.not_isMissing fun _ h => nomatch h
    | some name =>
      simp only [hstatic, pure_bind]
      rw [hstatic] at h
      exact h

theorem informed_step
    (has : ∀ e ∈ (Attribute.others as "as").flatMap Attribute.expressions, e.DeclaresNothing)
    (hV : attributeNames (Attribute.others as "as") ⊆ V) (hw : w.Visible V)
    (hbody : ∀ t, t.Visible V → t.statuses = w.statuses → Informed path t body new) :
    Informed path w (step setting info path as body) (new ++ (responseName? as).toList) := by
  refine Informed.behind (sees_look _) hw fun inStep t ht hstatuses => ?_
  split
  · exact informed_fail (by simp) info _
  · refine Informed.behind (sees_look _) ht fun inMessage t₁ ht₁ h₁ => ?_
    split
    · exact informed_fail (by simp) info _
    · refine informed_stepName (Informed.behind (sees_stepConfig setting info.id path has hV) ht₁
        fun config t₂ ht₂ h₂ => ?_)
      have hinside : Informed path t₂ (within (fun w => { w with inStep := true })
          (fun w => { w with inStep := false }) body) new := by
        refine informed_within ⟨rfl, rfl, rfl⟩ (fun _ => ⟨rfl, rfl, rfl⟩) ?_
        exact hbody _ ⟨ht₂.valid, ht₂.names⟩ (h₂.trans (h₁.trans hstatuses))
      exact hinside.revealing ht₂ (fun _ => sees_takeResponse _ config)
        fun _ s b t => sees_of_takeResponse

end Walking

/-! ### Nodes -/

namespace Node

open Walking

variable {setting : Setting} {path : IterationPath} {V : List String} {w : Walk}

theorem informed_walkAll {ns : List Node} (hnodup : (idsAll ns).Nodup)
    (h : ∀ n ∈ ns, ∀ {V w}, n.Known V → w.Visible V → Untouched n.ids path w.statuses →
      Informed path w (n.walk setting path) n.declares)
    (hknown : KnownAll V ns) (hw : w.Visible V) (hids : Untouched (idsAll ns) path w.statuses) :
    Informed path w (walkAll setting ns path) (declaresAll ns) := by
  induction ns generalizing V w with
  | nil => exact ⟨Respects.pure () w, fun _ _ _ _ hname => nomatch hname⟩
  | cons n rest ih =>
    -- the siblings have other numbers, so that their visits do not touch one another
    rw [idsAll_cons] at hnodup hids
    obtain ⟨-, hrest, hdisjoint⟩ := List.nodup_append.1 hnodup
    have hfirst : Informed path w (n.walk setting path) n.declares :=
      h n List.mem_cons_self hknown.1 hw
        (hids.weaken (List.subset_append_left _ _) List.prefix_rfl)
    have hlater : ∀ t, runFrom w (n.walk setting path) = (.ok (), t) →
        Informed path t (walkAll setting rest path) (declaresAll rest) := by
      intro t hrun
      have hframe : Progress n.ids path w t := ((n.respects_walk path w).done hrun).1
      -- what the first child declares is visible to those behind it
      refine ih hrest (fun m hm => h m (List.mem_cons_of_mem _ hm)) hknown.2 ?_ ?_
      · exact ((hfirst.respects.done hrun).2.visible hw).append (hfirst.reveals () t hrun)
      · refine Untouched.of_frame
          (hids.weaken (List.subset_append_right _ _) List.prefix_rfl) fun id hid => ?_
        exact hframe.frame id fun hmine => hdisjoint id hmine id hid rfl
    refine ⟨hfirst.respects.bind fun ⟨⟩ t hrun _ => (hlater t hrun).respects, fun ⟨⟩ t hrun => ?_⟩
    obtain ⟨⟨⟩, s, h1, h2⟩ := runFrom_bind_eq_ok hrun
    intro name hname
    rcases List.mem_append.1 hname with hname | hname
    · exact ((hlater s h1).respects.done h2).2.names name (hfirst.reveals () s h1 name hname)
    · exact (hlater s h1).reveals () t h2 name hname

theorem informed_walkElse {o : Option Node}
    (h : ∀ n ∈ o, ∀ {V w}, n.Known V → w.Visible V → Untouched n.ids path w.statuses →
      Informed path w (n.walk setting path) n.declares)
    (hnothing : ∀ n ∈ o, n.declares = []) (hknown : KnownElse V o) (hw : w.Visible V)
    (hids : Untouched (idsAll o.toList) path w.statuses) :
    Informed path w (walkElse setting o path) [] := by
  cases o with
  | none => exact ⟨Respects.pure () w, fun _ _ _ _ hname => nomatch hname⟩
  | some n =>
    have hn :=
      h n rfl hknown hw (hids.weaken (ids_subset_idsAll (List.mem_singleton.2 rfl)) List.prefix_rfl)
    rw [hnothing n rfl] at hn
    exact hn

/-- The first visit of a node whose names are known misses none, and behind it the names are visible
that the node declares. -/
theorem informed_walk (n : Node) (hnodup : n.ids.Nodup) (horderly : n.Orderly)
    (path : IterationPath) {V : List String} {w : Walk} (hknown : n.Known V) (hw : w.Visible V)
    (hids : Untouched n.ids path w.statuses) :
    Informed path w (n.walk setting path) n.declares := by
  induction n using Node.induct generalizing path V w with
  | step n ih =>
    -- the induction is on the tree: a child is walked with the names that its place has, and none
    -- of its visits was made before
    have hinner : (idsAll n.childNodes).Nodup := (List.nodup_cons.1 (ids_eq n ▸ hnodup)).2
    have hchild : ∀ m ∈ n.childNodes, ∀ inner {V w}, m.Known V → w.Visible V →
        Untouched m.ids inner w.statuses → Informed inner w (m.walk setting inner) m.declares :=
      fun m hm inner V w => ih m hm (hinner.sublist (ids_sublist_idsAll hm))
        (horderly.child hm) inner
    have hself : Untouched (idsAll n.childNodes) path (w.statuses.decide n.id .none) :=
      (hids.weaken (idsAll_childNodes_subset n) List.prefix_rfl).decide n.id .none
    -- entering the node clears a decision, and changes nothing that is visible
    have hstart : ({ w with statuses := w.statuses.decide n.id .none } : Walk).Visible V :=
      ⟨hw.valid, hw.names⟩
    obtain ⟨hplain, helse⟩ := horderly n (mem_nodes_self n)
    cases n with
    | fragment info children =>
      have hall := informed_walkAll hinner (fun m hm => hchild m hm path) hknown hstart hself
      exact informed_visiting (id_mem_ids _) hids (informed_inCopy hall.respects)
    | config info value raw =>
      exact informed_visiting (id_mem_ids _) hids ((sees_pure ()).informed hstart)
    | comment info data =>
      exact informed_visiting (id_mem_ids _) hids ((sees_pure ()).informed hstart)
    | text info data =>
      -- leaves: what they need is visible, or they need nothing
      exact informed_visiting (id_mem_ids _) hids ((sees_write info.id path data).informed hstart)
    | mustache info e =>
      exact informed_visiting (id_mem_ids _) hids (informed_mustache hplain hknown hstart)
    | ifBlock info condition elseIf children otherwise =>
      -- blocks: the condition or the iterable is evaluated around the block, the parts in copies
      obtain ⟨hcondition, hchildren, hotherwise⟩ := hknown
      rw [childNodes, idsAll_append] at hinner hself
      have hbody : ∀ t : Walk, t.Visible V → t.statuses = w.statuses.decide info.id .none →
          Informed path t (walkAll setting children path) (declaresAll children) := by
        intro t ht hstatuses
        refine informed_walkAll (List.nodup_append.1 hinner).1
          (fun m hm => hchild m (List.mem_append_left _ hm) path) hchildren ht ?_
        rw [hstatuses]
        exact hself.weaken (List.subset_append_left _ _) List.prefix_rfl
      refine informed_visiting (id_mem_ids _) hids (informed_ifBlock
        (hplain condition (by simp [expressions])) hcondition hstart hbody fun t ht hstatuses => ?_)
      refine informed_walkElse (fun m hm => hchild m
        (List.mem_append_right _ (Option.mem_toList.2 hm)) path) helse hotherwise ht ?_
      rw [hstatuses]
      exact hself.weaken (List.subset_append_right _ _) List.prefix_rfl
    | forBlock info header children otherwise =>
      obtain ⟨hiterable, hkey, hchildren, hotherwise⟩ := hknown
      rw [childNodes, idsAll_append] at hinner hself
      -- a key is evaluated only where an index takes it
      have hused : ∀ e ∈ header.usedKey, e.DeclaresNothing := fun e he =>
        hplain e (List.mem_cons_of_mem _ (Option.mem_toList.2 (ForHeader.key_of_usedKey he)))
      have hbody : ∀ i t, t.Visible (V ++ header.variables) →
          Untouched (idsAll children) (path ++ [i]) t.statuses →
          Informed (path ++ [i]) t (walkAll setting children (path ++ [i]))
          (declaresAll children) :=
        -- each iteration has a path of its own, with the names of the loop visible
        fun i t ht hids => informed_walkAll (List.nodup_append.1 hinner).1
          (fun m hm => hchild m (List.mem_append_left _ hm) _) hchildren ht hids
      refine informed_visiting (id_mem_ids _) hids (informed_forBlock
        (hplain _ (by simp [expressions])) hiterable hused hkey hstart
        (hself.weaken (List.subset_append_left _ _) List.prefix_rfl) hbody fun t ht hstatuses => ?_)
      refine informed_walkElse (fun m hm => hchild m
        (List.mem_append_right _ (Option.mem_toList.2 hm)) path) helse hotherwise ht ?_
      rw [hstatuses]
      exact hself.weaken (List.subset_append_right _ _) List.prefix_rfl
    | element info name as children =>
      -- tags: the attributes are evaluated in front of the children, which share their scope
      have hall : ∀ {t : Walk}, KnownAll V children → t.Visible V →
          t.statuses = w.statuses.decide info.id .none →
          Informed path t (walkAll setting children path) (declaresAll children) :=
        fun hchildren ht hstatuses => informed_walkAll hinner (fun m hm => hchild m hm path)
          hchildren ht (hstatuses ▸ hself)
      have has : ∀ e ∈ as.flatMap Attribute.expressions, e.DeclaresNothing := hplain
      refine informed_visiting (id_mem_ids _) hids ?_
      simp only [Known, declares] at hknown ⊢
      unfold Walking.element
      cases hkind : TagKind.ofName name with
      | message role =>
        rw [hkind] at hknown
        exact informed_message has hknown.1 hstart fun t ht h => hall hknown.2 ht h
      | content kind =>
        rw [hkind] at hknown
        exact informed_contentTag has hknown.1 hstart fun t ht h => hall hknown.2 ht h
      | toolCall =>
        rw [hkind] at hknown
        exact informed_toolCall has hknown.1 hstart fun t ht h => hall hknown.2 ht h
      | reference =>
        -- references are refused here, whether they are named or not
        dsimp only
        split
        · exact informed_fail (by simp) info _
        · exact informed_fail (by simp) info _
      | step =>
        rw [hkind] at hknown
        refine informed_step (fun e he => ?_) hknown.1 hstart fun t ht h => hall hknown.2 ht h
        obtain ⟨a, ha, he⟩ := List.mem_flatMap.1 he
        exact has e (List.mem_flatMap.2 ⟨a, (List.mem_filter.1 ha).1, he⟩)
      | unknown =>
        -- an unknown tag is only reported, and its children are walked
        rw [hkind] at hknown
        exact Informed.behind (sees_report (by simp) info.start info.stop) hstart
          fun _ t ht h => hall hknown ht h

end Node

/-! ### Prompts -/

/-- Exactly the names of the parameters are visible at the start. -/
theorem Scope.sees_ofFields (fields : Fields Value) (name : String) :
    (Scope.ofFields fields).sees name = fields.has name := by
  have hall : ∀ (s : Scope), (fields.foldl (fun scope field => scope.set field.1 field.2) s).sees
    name =
      (s.sees name || fields.has name) := by
    induction fields with
    | nil => exact fun s => (Bool.or_false _).symm
    | cons field rest ih =>
      intro s
      obtain ⟨key, v⟩ := field
      rw [List.foldl_cons, ih, Scope.sees_set, Bool.or_assoc]
      congr 1
      by_cases h : key = name <;> simp [Fields.has, Fields.get?, h]
  rw [Scope.ofFields, hall]
  rfl

/-- The compilation of a template whose names are known misses none. -/
theorem Template.not_isMissing_of_walk {t : Template} (hnumbered : t.Numbered)
    (horderly : t.root.Orderly) {V : List String} (hknown : t.root.Known V)
    {parameters : Fields Value} (hV : ∀ name ∈ V, parameters.has name = true) {setting : Setting}
    {p : Problem} (h : t.walk setting (Statuses.fresh t.nodeCount) (Scope.ofFields parameters) [] =
      .error p) :
    ¬ p.IsMissing := by
  have hstart : (Walk.start (Statuses.fresh t.nodeCount) (Scope.ofFields parameters) []).Visible
    V :=
    ⟨Scope.valid_ofFields parameters, fun name hname =>
      (Scope.sees_ofFields parameters name).trans (hV name hname)⟩
  have hroot : Informed [] (Walk.start (Statuses.fresh t.nodeCount) (Scope.ofFields parameters) [])
      (t.visitRoot setting) t.root.declares :=
    (t.root.informed_walk hnumbered.nodup horderly [] hknown hstart (Untouched.fresh _ _ _)).before
      hstart
      fun _ => Walking.sees_closeMessage setting
  -- a failed walk fails with what it was stopped by or what it had collected
  obtain ⟨result, w, q, hrun, rfl, hq⟩ := walk_eq_error h
  rintro ⟨name, hname⟩
  have hmissing : q.IsMissing := ⟨name, hname⟩
  rcases result with e | ⟨⟩
  · obtain ⟨hadded, hfailed⟩ := hroot.respects.stop hrun
    rcases hq with hq | hq
    · exact nomatch hadded q hq hmissing
    · exact hfailed q (Except.error.inj hq) hmissing
  · rcases hq with hq | hq
    · exact nomatch (hroot.respects.done hrun).2.problems q hq hmissing
    · exact nomatch hq

theorem Fault.code_ne_of_not_undeclared {fault : Fault} (h : ∀ name, fault ≠ .undeclared name) :
    fault.code ≠ "variable-not-declared" := by
  cases fault with
  | undeclared name => exact absurd rfl (h name)
  | _ => simp [Fault.code]

/-- A prompt that was analyzed, and that declares names in mustaches only, is compiled without a
missing name if there is a value for each of its parameters. -/
theorem parameters_suffice [ConfigReader] {analyzer : Analyzer} {schema : Option Json}
    {path : Option String}
    {text : String} {m : Metadata} (h : readMetadata analyzer schema path text = .ok m)
    (hplain : ∀ t, Template.read text = .ok t → ∀ n ∈ t.root.nodes, n.DeclaresInMustaches)
    {parameters : Fields Value} (hparameters : ∀ name ∈ m.parameters, parameters.has name = true) :
    ∀ setting p, compile setting text parameters = .error p →
      p.fault.code ≠ "variable-not-declared" := by
  intro setting p hp
  rcases hrun : (analyzer.analyze path text).runFrom [] with ⟨q | analysis, cache⟩
  · rw [readMetadata, hrun] at h
    exact nomatch h
  · rw [readMetadata, hrun] at h
    obtain rfl := Except.ok.inj h
    rw [Analyzer.analyze, Analyzer.analyzeIn] at hrun
    obtain ⟨t, s, hread, hsurvey, -, rfl, -⟩ := Analyzer.document_eq_ok hrun
    -- reading makes else parts fragments, and the hypothesis is about the declarations
    have horderly : t.root.Orderly := by
      refine fun n hn => ⟨hplain t hread n hn, fun o ho => ?_⟩
      obtain ⟨info, children, rfl⟩ := (Template.regular_of_read hread n hn).elseIsFragment o ho
      rfl
    -- the survey tells what must be visible at the start, which are its parameters
    obtain ⟨-, htold⟩ := t.root.tells_survey horderly _ _ _ hsurvey
    have hknown : t.root.Known s.names.parameters.toList :=
      (htold _ (List.nil_subset _) (List.Subset.refl _)).1
    have hmissing := Template.not_isMissing_of_walk (Template.numbered_of_read hread)
      horderly hknown
      hparameters (compile_eq_error hread hp)
    exact Fault.code_ne_of_not_undeclared fun name hname => hmissing ⟨name, hname⟩

/-- A loop over messages, with a name declared in front of it and one inside. -/
def namesInLoop : String :=
  braced "sum = start" ++ braced "for x, i in items" ++ "<user name=" ++ braced "who" ++ ">" ++
    braced "y = x + i" ++ braced "sum += y" ++ "</user>" ++ braced "endfor" ++ braced "sum"

theorem parameters_suffice_namesInLoop :
    ∃ m, readMetadata (.ofResolver none) none none namesInLoop = .ok m ∧
      ∀ setting p, compile setting namesInLoop
        [("items", .array []), ("start", .null), ("who", .null)] =
          .error p → p.fault.code ≠ "variable-not-declared" := by
  have hcheck : ((readMetadata (.ofResolver none) none none namesInLoop).toOption.any fun m =>
      decide (∀ name ∈ m.parameters.toList, Fields.has
        [("items", Value.array []), ("start", .null), ("who", .null)] name = true)) = true := by
    rw [readMetadata, Analyzer.analyze, Analyzer.analyzeIn]
    decide +kernel
  have hplain : ((Template.read namesInLoop).toOption.all fun t =>
      decide (∀ n ∈ t.root.nodes, n.DeclaresInMustaches)) = true := by
    decide +kernel
  obtain ⟨m, h, hgiven⟩ := exists_ok_of_any hcheck
  refine ⟨m, h, parameters_suffice h (fun t ht => ?_) (of_decide_eq_true hgiven)⟩
  rw [ht] at hplain
  exact of_decide_eq_true hplain

end PromptMarkup

/-
Computations of a walk that visit no node.

* `takenIn` — the responses that were taken, by the journal;
* `silent` — the law of a computation that only evaluates: it changes variables;
* `leaf` — the law of a computation that writes text and messages besides.

Both say that the computation never pauses, that its problems depend on values, and that it keeps
the names that are visible.

Design notes: the laws have two conditions, `sure` for the problems and `still` for the names; a
computation that declares a name keeps them with `still` false.
-/
import PromptMarkup.Proofs.Evaluating
import PromptMarkup.Proofs.Running

namespace PromptMarkup

open PromptMarkup.Computation

/-! ### Events -/

namespace Event

/-- The node that an event belongs to. -/
def node : Event → Nat
  | evaluated node _ _ _ | wrote node _ _ _ | placed node _ _ | called node _ _ | asked node _ _
  | answered node _ _ _ => node
  | entered turn => turn.block

/-- The path of the visit that an event belongs to. -/
def path : Event → IterationPath
  | evaluated _ path _ _ | wrote _ path _ _ | placed _ path _ | called _ path _ | asked _ path _
  | answered _ path _ _ => path
  | entered turn => turn.path

/-- The response that a step took. -/
def response? : Event → Option String
  | answered _ _ _ response => some response
  | _ => none

/-- An event that concerns its node alone: an evaluation, a text, a piece of content or a tool call.
-/
def isLocal : Event → Bool
  | evaluated _ _ _ _ | wrote _ _ _ _ | placed _ _ _ | called _ _ _ => true
  | _ => false

/-- The evaluation of an expression. -/
def isEvaluation : Event → Bool
  | evaluated _ _ _ _ => true
  | _ => false

/-- An event of a visit of one of the given nodes, inside of the iterations of a path. -/
def Inside (ids : List Nat) (path : IterationPath) (e : Event) : Prop :=
  e.node ∈ ids ∧ path <+: e.path

theorem isLocal_of_isEvaluation {e : Event} (h : e.isEvaluation = true) : e.isLocal = true := by
  cases e with
  | evaluated node path span names => rfl
  | _ => exact nomatch h

theorem response?_of_isLocal {e : Event} (h : e.isLocal = true) : e.response? = none := by
  cases e with
  | evaluated node path span names => rfl
  | wrote node path inArguments text => rfl
  | placed node path content => rfl
  | called node path call => rfl
  | _ => exact nomatch h

end Event

/-- The responses that were taken, in order; the events are listed last first. -/
def takenIn (events : List Event) : List String :=
  events.reverse.filterMap Event.response?

@[simp] theorem takenIn_append (late early : List Event) :
    takenIn (late ++ early) = takenIn early ++ takenIn late := by
  simp [takenIn]

theorem takenIn_of_isLocal {events : List Event} (h : ∀ e ∈ events, e.isLocal = true) :
    takenIn events = [] := by
  rw [takenIn, List.filterMap_eq_nil_iff]
  intro e he
  exact Event.response?_of_isLocal (h e (List.mem_reverse.1 he))

/-! ### The laws -/

/-- The changes of a computation that only evaluates: variables, and the journal. -/
structure Silent (id : Nat) (path : IterationPath) (w t : Walk) : Prop where
  same : t = { w with scope := t.scope, journal := t.journal }
  leads : w.scope.Leads t.scope
  journal : ∃ new, t.journal = new ++ w.journal ∧
    ∀ e ∈ new, e.isEvaluation = true ∧ e.node = id ∧ path <+: e.path

/-- The changes of a computation that visits no other node.  Under the condition `sure` the problems
it records depend on values. -/
structure Leaf (id : Nat) (path : IterationPath) (sure : Prop) (w t : Walk) : Prop where
  same : t = { w with
    scope := t.scope, messages := t.messages, stray := t.stray, content := t.content
    toolCalls := t.toolCalls, problems := t.problems, journal := t.journal }
  leads : w.scope.Leads t.scope
  messages : w.messages <+: t.messages
  problems : ∃ more, t.problems = w.problems ++ more ∧
    (sure → ∀ p ∈ more, p.fault.isStructural = false)
  journal : ∃ new, t.journal = new ++ w.journal ∧
    ∀ e ∈ new, e.isLocal = true ∧ e.node = id ∧ path <+: e.path

section Changes

variable {id : Nat} {path : IterationPath} {sure : Prop} {u v w t : Walk}

theorem Silent.of_eq (h : t = { w with scope := t.scope }) (hleads : w.scope.Leads t.scope) :
    Silent id path w t := by
  refine ⟨?_, hleads, ⟨[], ?_, by simp⟩⟩
  · rw [h]
  · rw [h]
    rfl

theorem Silent.refl (w : Walk) : Silent id path w w :=
  Silent.of_eq rfl (Scope.Leads.refl _)

theorem Silent.trans (h : Silent id path u v) (h' : Silent id path v w) : Silent id path u w := by
  obtain ⟨new, hnew, hown⟩ := h.journal
  obtain ⟨new', hnew', hown'⟩ := h'.journal
  refine ⟨?_, h.leads.trans h'.leads, ⟨new' ++ new, ?_, ?_⟩⟩
  · rw [h'.same, h.same]
  · rw [hnew', hnew, List.append_assoc]
  · intro e he
    rcases List.mem_append.1 he with he | he
    · exact hown' e he
    · exact hown e he

theorem Silent.weaken {path' : IterationPath} (h : Silent id path' w t) (hpath : path <+: path') :
    Silent id path w t := by
  obtain ⟨new, hnew, hown⟩ := h.journal
  refine ⟨h.same, h.leads, ⟨new, hnew, fun e he => ?_⟩⟩
  obtain ⟨h1, h2, h3⟩ := hown e he
  exact ⟨h1, h2, hpath.trans h3⟩

theorem Silent.statuses (h : Silent id path w t) : t.statuses = w.statuses := by
  rw [h.same]

theorem Silent.leaf (h : Silent id path w t) : Leaf id path sure w t := by
  have hsame := h.same
  obtain ⟨new, hnew, hown⟩ := h.journal
  have hlocal : ∀ e ∈ new, e.isLocal = true ∧ e.node = id ∧ path <+: e.path :=
    fun e he => ⟨Event.isLocal_of_isEvaluation (hown e he).1, (hown e he).2⟩
  refine ⟨?_, h.leads, ?_, ⟨[], ?_, by simp⟩, ⟨new, hnew, hlocal⟩⟩
  · rw [hsame]
  · rewrite [hsame]
    exact List.prefix_rfl
  · rw [hsame, List.append_nil]

/-- Changing what is pending. -/
theorem Leaf.of_eq (h : t = { w with
    stray := t.stray, content := t.content, toolCalls := t.toolCalls }) :
    Leaf id path sure w t := by
  rw [h]
  exact ⟨rfl, Scope.Leads.refl _, List.prefix_rfl, ⟨[], by simp, by simp⟩, ⟨[], rfl, by simp⟩⟩

theorem Leaf.refl (w : Walk) : Leaf id path sure w w :=
  Leaf.of_eq rfl

theorem Leaf.trans (h : Leaf id path sure u v) (h' : Leaf id path sure v w) :
    Leaf id path sure u w := by
  obtain ⟨more, hmore, hsure⟩ := h.problems
  obtain ⟨more', hmore', hsure'⟩ := h'.problems
  obtain ⟨new, hnew, hlocal⟩ := h.journal
  obtain ⟨new', hnew', hlocal'⟩ := h'.journal
  refine ⟨?_, h.leads.trans h'.leads, h.messages.trans h'.messages, ⟨more ++ more', ?_, ?_⟩,
    ⟨new' ++ new, ?_, ?_⟩⟩
  · rw [h'.same, h.same]
  · rw [hmore', hmore, List.append_assoc]
  · intro hs p hp
    rcases List.mem_append.1 hp with hp | hp
    · exact hsure hs p hp
    · exact hsure' hs p hp
  · rw [hnew', hnew, List.append_assoc]
  · intro e he
    rcases List.mem_append.1 he with he | he
    · exact hlocal' e he
    · exact hlocal e he

end Changes

/-- The law of a computation that only evaluates.  It never pauses; under the condition `sure` it
fails only for reasons that depend on values, and under the condition `still` it keeps the names
that are visible. -/
def silent (id : Nat) (path : IterationPath) (sure still : Prop) : Law Interrupt Walk where
  done w t := Silent id path w t ∧ (still → t.scope.pointers = w.scope.pointers)
  stop w e t := Silent id path w t ∧
    ∃ p, e = .failed p ∧ (sure → p.fault.isStructural = false)
  refl w := ⟨Silent.refl w, fun _ => rfl⟩
  trans h h' := ⟨h.1.trans h'.1, fun hs => (h'.2 hs).trans (h.2 hs)⟩
  back h h' := ⟨h.1.trans h'.1, h'.2⟩

/-- The law of a computation that visits no other node, with the same conditions. -/
def leaf (id : Nat) (path : IterationPath) (sure still : Prop) : Law Interrupt Walk where
  done w t := Leaf id path sure w t ∧ (still → t.scope.pointers = w.scope.pointers)
  stop w e t := Leaf id path sure w t ∧
    ∃ p, e = .failed p ∧ (sure → p.fault.isStructural = false)
  refl w := ⟨Leaf.refl w, fun _ => rfl⟩
  trans h h' := ⟨h.1.trans h'.1, fun hs => (h'.2 hs).trans (h.2 hs)⟩
  back h h' := ⟨h.1.trans h'.1, h'.2⟩

namespace Walking

variable {α : Type} {setting : Setting} {id : Nat} {path : IterationPath} {sure still : Prop}

theorem silent_weaken {x : Walking α} {path' : IterationPath} {sure' still' : Prop}
    (h : Respects (silent id path' sure' still') x) (hpath : path <+: path') (hsure : sure → sure')
    (hstill : still → still') : Respects (silent id path sure still) x := by
  refine Respects.weaken h (fun w t hd => ⟨hd.1.weaken hpath, fun hs => hd.2 (hstill hs)⟩) ?_
  rintro w e t ⟨hd, p, rfl, hp⟩
  exact ⟨hd.weaken hpath, p, rfl, fun hs => hp (hsure hs)⟩

/-- The law of an evaluation is a case of the law of a leaf. -/
theorem leaf_of_silent {x : Walking α} {sure' still' : Prop}
    (h : Respects (silent id path sure' still') x) (hsure : sure → sure')
    (hstill : still → still') : Respects (leaf id path sure still) x := by
  refine Respects.weaken h (fun w t hd => ⟨hd.1.leaf, fun hs => hd.2 (hstill hs)⟩) ?_
  rintro w e t ⟨hd, p, rfl, hp⟩
  exact ⟨hd.leaf, p, rfl, fun hs => hp (hsure hs)⟩

/-! ### Evaluations -/

theorem silent_fail {fault : Fault} (h : sure → fault.isStructural = false) (info : NodeInfo) :
    Respects (silent id path sure still) (fail fault info : Walking α) :=
  Respects.throw fun w => ⟨Silent.refl w, _, rfl, h⟩

theorem silent_setVariable (name : String) (v : Value) :
    Respects (silent id path sure False) (setVariable name v) :=
  Respects.modify fun w => ⟨Silent.of_eq rfl (Scope.leads_set w.scope name v), False.elim⟩

theorem silent_evaluate (setting : Setting) (id : Nat) (path : IterationPath) (e : Expr) :
    Respects (silent id path e.Supported e.DeclaresNothing) (evaluate setting id path e) := by
  intro w
  have he := Expr.respects_evaluate setting.host e w.scope
  have changed : ∀ scope, w.scope.Leads scope → Silent id path w (evaluatedIn w id path e scope) :=
    fun scope hleads => ⟨rfl, hleads,
      ⟨[_], rfl, by simp [Event.isEvaluation, Event.node, Event.path]⟩⟩
  rcases h : runFrom w.scope (e.evaluate setting.host) with ⟨p | v, scope⟩
  · obtain ⟨hleads, hp, -⟩ := he.stop h
    exact RespectsAt.of_error (by rw [runFrom_evaluate, h]) ⟨changed scope hleads, p, rfl, hp⟩
  · obtain ⟨hleads, hs⟩ := he.done h
    exact RespectsAt.of_ok (by rw [runFrom_evaluate, h]) ⟨changed scope hleads, hs⟩

theorem silent_takesBranch (setting : Setting) (id : Nat) (path : IterationPath) (e : Expr) :
    Respects (silent id path e.Supported e.DeclaresNothing) (takesBranch setting id path e) := by
  refine Respects.bind (Respects.look _) fun d => ?_
  cases d with
  | branch taken => exact Respects.pure taken
  | _ => exact Respects.bind (silent_evaluate setting id path e) fun _ => Respects.pure _

theorem silent_checkFree (info : NodeInfo) (name : String) :
    Respects (silent id path sure still) (checkFree info name) := by
  refine Respects.bind (Respects.look _) fun _ => ?_
  split
  · exact silent_fail (fun _ => rfl) info
  · exact Respects.pure _

theorem silent_checkNames (info : NodeInfo) (header : ForHeader) :
    Respects (silent id path sure still) (checkNames info header) := by
  refine Respects.bind (silent_checkFree info header.item) fun _ => ?_
  cases header.index with
  | none => exact Respects.pure _
  | some name => exact silent_checkFree info name

theorem silent_takeItems (setting : Setting) (id : Nat) (path : IterationPath) (e : Expr) :
    Respects (silent id path e.Supported e.DeclaresNothing) (takeItems setting id path e) := by
  refine Respects.bind (Respects.look _) fun d => ?_
  cases d with
  | iteration items i v => exact Respects.pure _
  | _ => exact Respects.bind (silent_evaluate setting id path e) fun _ => Respects.pure _

/-- Setting the index variable evaluates at most the key. -/
theorem silent_setIndex (setting : Setting) (id : Nat) (path : IterationPath) (header : ForHeader)
    (i : Nat) (resumed : Option Value) :
    Respects (silent id path (∀ e ∈ header.key, e.Supported) False)
      (setIndex setting id path header i resumed) := by
  unfold setIndex
  cases header.index with
  | none => exact Respects.pure none
  | some name =>
    -- a value that was kept is taken as it is, else the key is evaluated for this item
    have hv : Respects (silent id path (∀ e ∈ header.key, e.Supported) False)
        (indexValue setting id path header i resumed) := by
      unfold indexValue
      cases resumed with
      | some v => exact Respects.pure v
      | none =>
        cases hkey : header.key with
        | none => exact Respects.pure _
        | some key =>
          exact silent_weaken (silent_evaluate setting id (path ++ [i]) key)
            (List.prefix_append _ _)
            (fun h => h key rfl) False.elim
    exact Respects.bind hv fun v => Respects.bind (silent_setVariable name v) fun _ =>
      Respects.pure _

theorem silent_partsText (setting : Setting) (id : Nat) (path : IterationPath)
    {parts : List AttributePart}
    (hsure : sure → ∀ e, .expression e ∈ parts → e.Supported)
    (hstill : still → ∀ e, .expression e ∈ parts → e.DeclaresNothing) :
    Respects (silent id path sure still) (partsText setting id path parts) := by
  induction parts with
  | nil => exact Respects.pure ""
  | cons part rest ih =>
    have hrest : Respects (silent id path sure still) (partsText setting id path rest) :=
      ih (fun h e he => hsure h e (List.mem_cons_of_mem _ he))
        (fun h e he => hstill h e (List.mem_cons_of_mem _ he))
    cases part with
    | text s data => exact Respects.bind hrest fun _ => Respects.pure _
    | expression e =>
      exact Respects.bind
        (silent_weaken (silent_evaluate setting id path e) List.prefix_rfl
          (fun h => hsure h e List.mem_cons_self) (fun h => hstill h e List.mem_cons_self))
        fun _ => Respects.bind hrest fun _ => Respects.pure _

theorem silent_attributeValue (setting : Setting) (id : Nat) (path : IterationPath) {a : Attribute}
    (hsure : sure → ∀ e ∈ a.expressions, e.Supported)
    (hstill : still → ∀ e ∈ a.expressions, e.DeclaresNothing) :
    Respects (silent id path sure still) (attributeValue setting id path a) := by
  unfold attributeValue
  have hmem : ∀ {parts e}, a.parts = some parts → .expression e ∈ parts → e ∈ a.expressions := by
    intro parts e hparts he
    rw [Attribute.expressions, hparts]
    exact List.mem_filterMap.2 ⟨_, he, rfl⟩
  split
  · exact Respects.pure _
  · next e hparts =>
    exact silent_weaken (silent_evaluate setting id path e) List.prefix_rfl
      (fun h => hsure h e (hmem hparts List.mem_cons_self))
      (fun h => hstill h e (hmem hparts List.mem_cons_self))
  · next parts _ hparts =>
    exact Respects.bind (silent_partsText setting id path (fun h e he => hsure h e (hmem hparts he))
      (fun h e he => hstill h e (hmem hparts he))) fun _ => Respects.pure _

theorem silent_attributeValues (setting : Setting) (id : Nat) (path : IterationPath)
    {as : List Attribute} (hsure : sure → ∀ e ∈ as.flatMap Attribute.expressions, e.Supported)
    (hstill : still → ∀ e ∈ as.flatMap Attribute.expressions, e.DeclaresNothing) :
    Respects (silent id path sure still) (attributeValues setting id path as) := by
  induction as with
  | nil => exact Respects.pure []
  | cons a rest ih =>
    have hrest := ih (fun h e he => hsure h e (List.mem_append_right _ he))
      (fun h e he => hstill h e (List.mem_append_right _ he))
    exact Respects.bind
      (silent_attributeValue setting id path (fun h e he => hsure h e (List.mem_append_left _ he))
        (fun h e he => hstill h e (List.mem_append_left _ he)))
      fun _ => Respects.bind hrest fun _ => Respects.pure _

theorem silent_messageRole (info : NodeInfo) (role : Option Role) (values : Fields Value) :
    Respects (silent id path sure still) (messageRole info role values) := by
  unfold messageRole
  repeat' split
  all_goals first | exact Respects.pure _ | exact silent_fail (fun _ => rfl) info

/-- The name of a response is found without evaluation; only a name that is not written out fails.
-/
theorem silent_stepName {as : List Attribute}
    (h : sure → ∀ a, Attribute.find? as "as" = some a → a.staticText?.isSome) :
    Respects (silent id path sure still) (stepName as) := by
  unfold stepName
  split
  · exact Respects.pure _
  · next a ha =>
    split
    · exact Respects.pure _
    · next hs =>
      refine Respects.throw fun w => ⟨Silent.refl w, _, rfl, fun hsure => ?_⟩
      simpa [hs] using h hsure a ha

theorem silent_stepConfig (setting : Setting) (id : Nat) (path : IterationPath)
    {as : List Attribute}
    (hsure : sure → ∀ e ∈ (Attribute.others as "as").flatMap Attribute.expressions, e.Supported)
    (hstill : still → ∀ e ∈ (Attribute.others as "as").flatMap Attribute.expressions,
      e.DeclaresNothing) :
    Respects (silent id path sure still) (stepConfig setting id path as) := by
  refine Respects.bind (Respects.look _) fun paused => ?_
  cases paused with
  | some pointers => exact Respects.pure _
  | none =>
    exact Respects.bind (silent_attributeValues setting id path hsure hstill) fun _ =>
      Respects.pure _

theorem silent_nameResponse (name : Option String) (response : String) :
    Respects (silent id path sure False) (nameResponse name response) := by
  cases name with
  | none => exact Respects.pure _
  | some name => exact silent_setVariable name _

/-! ### Leaves -/

theorem leaf_fail {fault : Fault} (h : sure → fault.isStructural = false) (info : NodeInfo) :
    Respects (leaf id path sure still) (fail fault info : Walking α) :=
  leaf_of_silent (silent_fail h info) (fun h => h) fun h => h

/-- A change of what is pending. -/
theorem leaf_modify {f : Walk → Walk} (h : ∀ w, f w = { w with
    stray := (f w).stray, content := (f w).content, toolCalls := (f w).toolCalls }) :
    Respects (leaf id path sure still) (modify f : Walking PUnit) := by
  refine Respects.modify fun w => ⟨Leaf.of_eq (h w), fun _ => ?_⟩
  rw [h w]

theorem leaf_report {fault : Fault} (h : sure → fault.isStructural = false) (start stop : Nat) :
    Respects (leaf id path sure still) (report fault start stop) := by
  refine Respects.modify fun w => ⟨⟨rfl, Scope.Leads.refl _, List.prefix_rfl, ⟨_, rfl, ?_⟩,
    ⟨[], rfl, by simp⟩⟩, fun _ => rfl⟩
  intro hs p hp
  obtain rfl := List.mem_singleton.1 hp
  exact h hs

theorem leaf_note {e : Event} (h : e.isLocal = true) (hid : e.node = id) (hpath : path <+: e.path) :
    Respects (leaf id path sure still) (note e) := by
  refine Respects.modify fun w => ⟨⟨rfl, Scope.Leads.refl _, List.prefix_rfl,
    ⟨[], by simp, by simp⟩, ⟨[e], rfl, ?_⟩⟩, fun _ => rfl⟩
  intro e' he'
  obtain rfl := List.mem_singleton.1 he'
  exact ⟨h, hid, hpath⟩

theorem leaf_write (id : Nat) (path : IterationPath) (text : String) :
    Respects (leaf id path sure still) (write id path text) :=
  Respects.bind (leaf_modify fun _ => rfl) fun _ =>
    Respects.bind (Respects.look _) fun _ => leaf_note rfl rfl List.prefix_rfl

theorem leaf_mustache (setting : Setting) (id : Nat) (path : IterationPath) (e : Expr) :
    Respects (leaf id path e.Supported e.DeclaresNothing) (mustache setting id path e) := by
  refine Respects.bind (leaf_of_silent (silent_evaluate setting id path e) (fun h => h) fun h => h)
    fun v => ?_
  cases v with
  | undefined => exact Respects.pure _
  | _ =>
    dsimp only
    split
    · exact Respects.pure _
    · exact leaf_write id path _

theorem leaf_closeText : Respects (leaf id path sure still) closeText :=
  fun w => RespectsAt.of_ok (runFrom_closeText w) ⟨Leaf.of_eq rfl, fun _ => rfl⟩

theorem leaf_takeContent : Respects (leaf id path sure still) takeContent :=
  fun w => RespectsAt.of_ok (runFrom_takeContent w) ⟨Leaf.of_eq rfl, fun _ => rfl⟩

theorem leaf_placeToolCalls (role : Role) (pending : List PendingCall) :
    Respects (leaf id path sure still) (placeToolCalls role pending) := by
  intro w
  refine RespectsAt.of_ok (runFrom_placeToolCalls w role pending) ⟨⟨rfl, Scope.Leads.refl _,
    List.prefix_rfl, ⟨_, rfl, fun _ p hp => ?_⟩, ⟨[], rfl, by simp⟩⟩, fun _ => rfl⟩
  unfold misplacedCalls at hp
  split at hp
  · exact nomatch hp
  · obtain ⟨c, -, rfl⟩ := List.mem_map.1 hp
    rfl

theorem leaf_emit (m : Message) : Respects (leaf id path sure still) (emit m) :=
  Respects.modify fun w => ⟨⟨rfl, Scope.Leads.refl _, List.prefix_append _ _,
    ⟨[], by simp, by simp⟩, ⟨[], rfl, by simp⟩⟩, fun _ => rfl⟩

theorem leaf_closeMessage (setting : Setting) :
    Respects (leaf id path sure still) (closeMessage setting) := by
  refine Respects.bind leaf_takeContent fun ⟨content, pending⟩ => ?_
  dsimp only
  split
  · exact Respects.pure _
  · exact Respects.bind (leaf_placeToolCalls _ _) fun _ => leaf_emit _

theorem leaf_place (id : Nat) (path : IterationPath) (content : Content) :
    Respects (leaf id path sure still) (place id path content) :=
  Respects.bind (leaf_modify fun _ => rfl) fun _ => leaf_note rfl rfl List.prefix_rfl

theorem leaf_call (id : Nat) (path : IterationPath) (pending : PendingCall) :
    Respects (leaf id path sure still) (call id path pending) :=
  Respects.bind (leaf_modify fun _ => rfl) fun _ => leaf_note rfl rfl List.prefix_rfl

theorem leaf_placeContent (info : NodeInfo) (path : IterationPath) (kind : ContentKind)
    (text : String) :
    Respects (leaf info.id path sure still) (placeContent info path kind text) := by
  cases kind with
  | text => exact leaf_place info.id path _
  | image =>
    unfold placeContent
    dsimp only
    split
    · exact leaf_fail (fun _ => rfl) info
    · exact leaf_place info.id path _

theorem leaf_toolArguments (info : NodeInfo) (text : String) :
    Respects (leaf id path sure still) (toolArguments info text) := by
  unfold toolArguments
  dsimp only
  split
  · exact Respects.pure _
  · split
    · exact Respects.pure _
    · exact Respects.bind (leaf_report (fun _ => rfl) _ _) fun _ => Respects.pure _

end Walking

end PromptMarkup

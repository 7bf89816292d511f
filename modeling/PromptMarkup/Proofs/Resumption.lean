/-
A walk that is resumed goes on like one that did not pause.

Three walks are compared: one that pauses, one that goes the same way but has a response for the
step at which the first pauses, and one that starts from what the first has left behind and has this
response too.

* `Node.Resumable` — the templates for which this works: no name is declared where it would be lost;
* `Standing`, `Scene` — how the three walks stand when they visit a node;
* `Rejoins` — the second and the third walk agree, apart from what the first has done;
* `Node.rejoins` — if they stand so when they visit a node, they rejoin in it.

Design notes: up to the step the third walk only follows the path of the first, over visits that are
over and decisions that were recorded.  The slots that it makes on its way are never seen, so that
from the step on it has the values of the second walk in other slots.
-/
import PromptMarkup.Proofs.Lockstep
import PromptMarkup.Proofs.Poised

namespace PromptMarkup

open PromptMarkup.Computation Walking

/-! ### Templates -/

namespace Node

/-- A step in one of several nodes. -/
def AnyHoldsStep (ns : List Node) : Prop :=
  ∃ n ∈ ns, n.HoldsStep

/-- What a node must not do if it is to be resumed. -/
def Resumes : Node → Prop
  | ifBlock _ condition _ children otherwise =>
    AnyHoldsStep (children ++ otherwise.toList) → condition.DeclaresNothing
  | forBlock _ header children otherwise =>
    (AnyHoldsStep children → header.iterable.DeclaresNothing) ∧ ¬ AnyHoldsStep otherwise.toList
  | element _ name attributes children =>
    match TagKind.ofName name with
    | .step =>
      (∀ e ∈ (Attribute.others attributes "as").flatMap Attribute.expressions, e.DeclaresNothing) ∧
        ∀ n ∈ children, n.DeclaresNothing
    | .content _ => AnyHoldsStep children → ∀ a ∈ attributes, a.expressions = []
    | .toolCall => ¬ AnyHoldsStep children
    | _ => True
  | _ => True

/-- A node that can be resumed at every step in it: no step is in a tool call or in the `else` part
of a loop, an element with content around a step has only attributes that are written out, and no
name is declared in a condition or in the items around a step, or in a step. -/
def Resumable (n : Node) : Prop :=
  ∀ m ∈ n.nodes, m.Resumes

theorem Resumable.self {n : Node} (h : n.Resumable) : n.Resumes :=
  h n (mem_nodes_self n)

theorem Resumable.child {n m : Node} (h : n.Resumable) (hm : m ∈ n.childNodes) : m.Resumable :=
  fun x hx => h x (mem_nodes_of_child hm hx)

/-- No step is in the `else` part of a loop, in a piece of content or in a tool call. -/
def PlacesSteps : Node → Prop
  | forBlock _ _ _ otherwise => ¬ AnyHoldsStep otherwise.toList
  | element _ name _ children =>
    match TagKind.ofName name with
    | .content _ => ¬ AnyHoldsStep children
    | .toolCall => ¬ AnyHoldsStep children
    | _ => True
  | _ => True

/-- No name is declared in a condition, in the items of a loop, or in a step. -/
def KeepsNames : Node → Prop
  | ifBlock _ condition _ _ _ => condition.DeclaresNothing
  | forBlock _ header _ _ => header.iterable.DeclaresNothing
  | element _ name attributes children =>
    TagKind.ofName name = .step →
      (∀ e ∈ attributes.flatMap Attribute.expressions, e.DeclaresNothing) ∧
        ∀ n ∈ children, n.DeclaresNothing
  | _ => True

instance (ns : List Node) : Decidable (AnyHoldsStep ns) :=
  inferInstanceAs (Decidable (∃ n ∈ ns, ∃ m ∈ n.nodes, m.isStep = true))

instance (n : Node) : Decidable n.DeclaresNothing :=
  inferInstanceAs (Decidable (∀ m ∈ n.nodes, ∀ e ∈ m.expressions, e.DeclaresNothing))

instance : DecidablePred PlacesSteps
  | forBlock _ _ _ otherwise => inferInstanceAs (Decidable (¬ AnyHoldsStep otherwise.toList))
  | element _ name _ children =>
    match h : TagKind.ofName name with
    | .content _ => decidable_of_iff (¬ AnyHoldsStep children) (by simp [PlacesSteps, h])
    | .toolCall => decidable_of_iff (¬ AnyHoldsStep children) (by simp [PlacesSteps, h])
    | .message _ => isTrue (by simp [PlacesSteps, h])
    | .reference => isTrue (by simp [PlacesSteps, h])
    | .step => isTrue (by simp [PlacesSteps, h])
    | .unknown => isTrue (by simp [PlacesSteps, h])
  | fragment _ _ => isTrue trivial
  | config _ _ _ => isTrue trivial
  | text _ _ => isTrue trivial
  | comment _ _ => isTrue trivial
  | mustache _ _ => isTrue trivial
  | ifBlock _ _ _ _ _ => isTrue trivial

instance : DecidablePred KeepsNames
  | ifBlock _ condition _ _ _ => inferInstanceAs (Decidable condition.DeclaresNothing)
  | forBlock _ header _ _ => inferInstanceAs (Decidable header.iterable.DeclaresNothing)
  | element _ name attributes children =>
    inferInstanceAs (Decidable (TagKind.ofName name = .step →
      (∀ e ∈ attributes.flatMap Attribute.expressions, e.DeclaresNothing) ∧
        ∀ n ∈ children, n.DeclaresNothing))
  | fragment _ _ => isTrue trivial
  | config _ _ _ => isTrue trivial
  | text _ _ => isTrue trivial
  | comment _ _ => isTrue trivial
  | mustache _ _ => isTrue trivial

theorem resumable_of_places {n : Node} (hsteps : ∀ m ∈ n.nodes, m.PlacesSteps)
    (hnames : ∀ m ∈ n.nodes, m.KeepsNames) : n.Resumable := by
  intro m hm
  have hstep := hsteps m hm
  have hname := hnames m hm
  cases m with
  | ifBlock info condition elseIf children otherwise => exact fun _ => hname
  | forBlock info header children otherwise => exact ⟨fun _ => hname, hstep⟩
  | element info name attributes children =>
    cases hkind : TagKind.ofName name with
    | step =>
      obtain ⟨hattributes, hchildren⟩ := hname hkind
      simp only [Resumes, hkind]
      refine ⟨fun e he => hattributes e ?_, hchildren⟩
      obtain ⟨a, ha, he⟩ := List.mem_flatMap.1 he
      exact List.mem_flatMap.2 ⟨a, (List.mem_filter.1 ha).1, he⟩
    | content kind =>
      -- a content tag that places steps holds none, so it never pauses
      simp only [PlacesSteps, hkind] at hstep
      simp only [Resumes, hkind]
      exact fun h => absurd h hstep
    | toolCall =>
      simp only [PlacesSteps, hkind] at hstep
      simp only [Resumes, hkind]
      exact hstep
    | _ => simp only [Resumes, hkind]
  | _ => trivial

/-- A walk pauses only in a node with a step. -/
theorem holdsStep_of_walk {setting : Setting} {n : Node} {path : IterationPath} {w t : Walk}
    {config : Fields Json} (h : runFrom w (n.walk setting path) = (.error (.paused config), t)) :
    n.HoldsStep :=
  (((n.respects_walk path w).stop h).2 config rfl).2.2

theorem anyHoldsStep_of_pausesAmong {setting : Setting} {ns : List Node} {path : IterationPath}
    {w t : Walk} {config : Fields Json} (h : PausesAmong setting path config ns w t) :
    AnyHoldsStep ns := by
  obtain ⟨before, m, after, s, rfl, -, hm⟩ := h
  exact ⟨m, by simp, holdsStep_of_walk hm⟩

end Node

/-! ### Slots -/

/-- A stash has the slots of another one, and perhaps more. -/
structure Stash.Extends (s t : Stash) : Prop where
  size : s.slots.size ≤ t.slots.size
  slots : ∀ i, i < s.slots.size → t.slots[i]? = s.slots[i]?
  lookups : t.lookups = s.lookups

namespace Stash.Extends

variable {s t u : Stash}

theorem refl (s : Stash) : s.Extends s :=
  ⟨Nat.le_refl _, fun _ _ => rfl, rfl⟩

/-- A write to a name that is not visible makes a new slot. -/
theorem set {scope : Scope} (h : s.Extends scope.stash) {name : String}
    (hname : ∀ i, scope.pointers.get? name = some i → s.slots.size ≤ i) (v : Value) :
    s.Extends (scope.set name v).stash := by
  unfold Scope.set
  split
  -- the name is bound to a slot that is not the stash's, which keeps its value
  · next i hi =>
    refine ⟨by simpa using h.size, fun j hj => ?_, h.lookups⟩
    show (scope.stash.slots.setIfInBounds i v)[j]? = _
    have hne : i ≠ j := by
      have := hname i hi
      omega
    rw [Array.getElem?_setIfInBounds_ne hne]
    exact h.slots j hj
  -- the name is new and its slot is pushed behind those of the stash
  · refine ⟨?_, fun j hj => ?_, h.lookups⟩
    · show s.slots.size ≤ (scope.stash.slots.push v).size
      have := h.size
      rw [Array.size_push]
      omega
    · show (scope.stash.slots.push v)[j]? = _
      have hlt : j < scope.stash.slots.size := Nat.lt_of_lt_of_le hj h.size
      rw [Array.getElem?_push_lt hlt, ← h.slots j hj, Array.getElem?_eq_getElem hlt]

/-- The slots of a stash stay where they are, and the next ones come behind those of the larger one.
-/
theorem exists_renamed (h : s.Extends t) :
    ∃ rho, (∀ i, i < s.slots.size → rho i = i) ∧ s.Renamed rho t := by
  have hsize := h.size
  refine ⟨fun i => if i < s.slots.size then i else i + (t.slots.size - s.slots.size),
    fun i hi => if_pos hi, fun i j hij => ?_, fun k => ?_, fun i => ?_, h.lookups⟩
  · split at hij <;> split at hij <;> omega
  · rw [if_neg (by omega)]
    omega
  · split
    · next hi => exact h.slots i hi
    · next hi =>
      rw [Array.getElem?_eq_none (by omega), Array.getElem?_eq_none (by omega)]

end Stash.Extends

/-! ### Three walks -/

/-- The walk `c` has the slots of `t`, and has not done anything yet. -/
structure Standing (more : List String) (held ids : List Nat) (a t c : Walk) : Prop extends
    Poised more held ids a t c where
  stash : t.scope.stash.Extends c.scope.stash
  messages : c.messages = []
  problems : c.problems = []
  evaluations : evaluations c.journal = []

/-- By what a walk differs that only has more responses. -/
def Bond.longer (more : List String) : Bond :=
  ⟨fun i => i, more, [], []⟩

/-- By what a walk differs from one that goes on with what `t` has left behind. -/
def Bond.behind (rho : Nat → Nat) (t : Walk) : Bond :=
  ⟨rho, [], t.messages, evaluations t.journal⟩

/-- A walk from `a` that pauses at `t` inside of the given nodes, one from `b` that has more
responses, and one from `c` that is to go on where the first pauses. -/
structure Scene (more : List String) (held ids : List Nat) (a t b c : Walk) : Prop where
  more_ne : more ≠ []
  stored : a.Stored
  problems : t.problems = []
  alike : Alike (.longer more) [] b a
  standing : Standing more held ids a t c

/-- Two runs agree, apart from what `t` has done. -/
def Rejoins (held : List Nat) (t : Walk) (rb rc : Except Interrupt Unit × Walk) : Prop :=
  ∃ rho, (∀ i, i < t.scope.stash.slots.size → rho i = i) ∧ Agree (.behind rho t) held rb rc

/-- What else the first walk records does not matter. -/
theorem Rejoins.recorded {held : List Nat} {t : Walk} {rb rc : Except Interrupt Unit × Walk}
    (h : Rejoins held t rb rc) (statuses : Statuses) :
    Rejoins held { t with statuses := statuses } rb rc :=
  h

theorem Agree.eq_ok {K : Bond} {held : List Nat} {α : Type} {v : α} {c : Walk}
    {rb : Except Interrupt α × Walk} (h : Agree K held rb (.ok v, c)) :
    ∃ b, rb = (.ok v, b) ∧ Alike K held b c := by
  cases h with
  | ok h => exact ⟨_, rfl, h⟩

/-- A walk that has more responses comes to the same end of a part in which no response was missing.
-/
theorem Scene.run {more : List String} {held ids : List Nat} {a t b c s : Walk} {α : Type}
    {x : Walking α} {v : α} (h : Scene more held ids a t b c) (hx : Congruent (.longer more) [] x)
    (ha : runFrom a x = (.ok v, s)) :
    ∃ b', runFrom b x = (.ok v, b') ∧ Alike (.longer more) [] b' s := by
  have hagree := hx.agree b a h.alike
  rw [ha] at hagree
  exact hagree.eq_ok

section Scenes

variable {more : List String} {held ids : List Nat} {a s t b c : Walk} {turn : Turn}

theorem Alike.entered {K : Bond} (h : Alike K held b c) (turn : Turn) :
    Alike K held (Walking.entered b turn) (Walking.entered c turn) := by
  refine { h with evaluations := ?_, turns := ?_ }
  · rw [Walking.entered, Walking.entered, evaluations_cons_of_not rfl, evaluations_cons_of_not rfl,
      h.evaluations]
  · rw [Walking.entered, Walking.entered, h.turns]

namespace Scene

theorem sublist (h : Scene more held ids a t b c) {ids' : List Nat} (hsub : ids'.Sublist ids) :
    Scene more held ids' a t b c :=
  { h with standing := { h.standing with toPoised := h.standing.toPoised.sublist hsub } }

/-- The first two walks go on, and the third is still where it was. -/
theorem advance {ids' : List Nat} {path : IterationPath} {b' : Walk}
    (h : Scene more held ids a t b c) (hprogress : Progress ids' path a s)
    (hturns : s.turns = a.turns) (halike : Alike (.longer more) [] b' s) :
    Scene more held ids s t b' c :=
  { h with
    stored := hprogress.stored h.stored
    alike := halike
    standing := { h.standing with toPoised := h.standing.toPoised.advance hprogress hturns } }

/-- The first walk evaluates something, and the second does the same. -/
theorem silent {id : Nat} {path : IterationPath} {α : Type} {x : Walking α} {v : α}
    (h : Scene more held ids a t b c) (hx : Congruent (.longer more) [] x)
    (ha : runFrom a x = (.ok v, s)) (hs : Silent id path a s) :
    ∃ b', runFrom b x = (.ok v, b') ∧ Scene more held ids s t b' c := by
  obtain ⟨b', hb', halike⟩ := h.run hx ha
  refine ⟨b', hb', h.advance hs.progress ?_ halike⟩
  rw [hs.same]

/-- The third walk sets variables in slots that the others do not have. -/
theorem third (h : Scene more held ids a t b c) {scope : Scope}
    (hstash : t.scope.stash.Extends scope.stash) :
    Scene more held ids a t b { c with scope := scope } :=
  { h with standing := { h.standing with stash := hstash } }

/-- All three walks go into the same part of a block. -/
theorem entered (h : Scene more held ids a t b c) (turn : Turn) :
    Scene more held ids (Walking.entered a turn) t (Walking.entered b turn)
      (Walking.entered c turn) := by
  refine { h with
    stored := ⟨h.stored.visible, h.stored.kept⟩
    alike := h.alike.entered turn
    standing := { h.standing with
      toPoised := h.standing.toPoised.entered turn, evaluations := ?_ } }
  rw [Walking.entered, evaluations_cons_of_not rfl, h.standing.evaluations]

/-- What the first walk records of a block does not concern what is inside. -/
theorem undecided {id : Nat} {d : Decision}
    (h : Scene more (id :: held) ids a { t with statuses := t.statuses.decide id d } b c) :
    Scene more (id :: held) ids a t b c :=
  { h with standing := { h.standing with toPoised := h.standing.toPoised.undecided } }

/-- The first two walks see the same names in the same slots. -/
theorem pointers (h : Scene more held ids a t b c) : b.scope.pointers = a.scope.pointers := by
  rw [h.alike.scope.pointers]
  exact (Pointers.renamed_id _).symm

/-- The names of the second walk are in slots that stay where they are. -/
theorem renamed_pointers (h : Scene more held ids a t b c) {rho : Nat → Nat}
    (hrho : ∀ i, i < a.scope.stash.slots.size → rho i = i) :
    b.scope.pointers.renamed rho = a.scope.pointers := by
  rw [h.pointers]
  exact Pointers.renamed_of_below h.stored.visible hrho

end Scene

end Scenes

/-! ### What is new, and what is always the same -/

namespace Walking

variable {setting : Setting} {header : ForHeader} {id : Nat} {path : IterationPath}

/-- The variables of an iteration are in new slots. -/
theorem extends_indexed {stash : Stash} {scope : Scope} (h : stash.Extends scope.stash)
    (hfree : FreeIn header scope) (item : Value) (v : Option Value) :
    stash.Extends (indexed header v (scope.set header.item item)).stash := by
  have absent : ∀ {name}, scope.sees name = false → scope.pointers.get? name = none :=
    fun hname => by simpa [Scope.sees, Fields.has] using hname
  have hitem : stash.Extends (scope.set header.item item).stash := by
    refine h.set (fun i hi => ?_) item
    cases (absent hfree.item).symm.trans hi
  unfold Walking.indexed
  cases hindex : header.index with
  | none => exact hitem
  | some name =>
    cases v with
    | none => exact hitem
    | some value =>
      refine hitem.set (fun i hi => ?_) value
      -- either the name is that of the item, or it is free
      have hpointers : (scope.set header.item item).pointers =
          scope.pointers.put header.item scope.stash.slots.size := by
        rw [Scope.set, absent hfree.item]
      rw [hpointers, Fields.get?_put] at hi
      split at hi
      · obtain rfl : scope.stash.slots.size = i := by simpa using hi
        exact h.size
      · cases (absent (hfree.index name hindex)).symm.trans hi

/-- A text without expressions is the same in all states. -/
theorem runFrom_partsText_of_static {parts : List AttributePart}
    (h : ∀ e, .expression e ∉ parts) :
    ∃ text, ∀ w, runFrom w (partsText setting id path parts) = (.ok text, w) := by
  induction parts with
  | nil => exact ⟨"", fun _ => rfl⟩
  | cons part rest ih =>
    obtain ⟨text, htext⟩ := ih fun e he => h e (List.mem_cons_of_mem _ he)
    cases part with
    | text span data =>
      refine ⟨data ++ text, fun w => ?_⟩
      unfold partsText
      rw [runFrom_bind_ok (htext w)]
      rfl
    | expression e => exact absurd List.mem_cons_self (h e)

/-- Attributes without expressions have the same values in all states. -/
theorem runFrom_attributeValues_of_static {attributes : List Attribute}
    (h : ∀ a ∈ attributes, a.expressions = []) :
    ∃ values, ∀ w, runFrom w (attributeValues setting id path attributes) = (.ok values, w) := by
  -- an attribute without expressions has one value, and computing it changes nothing
  have one : ∀ a : Attribute, a.expressions = [] →
      ∃ value, ∀ w, runFrom w (attributeValue setting id path a) = (.ok value, w) := by
    intro a ha
    cases hparts : a.parts with
    | none =>
      refine ⟨.boolean true, fun w => ?_⟩
      rw [attributeValue, hparts]
      rfl
    | some parts =>
      have hstatic : ∀ e, .expression e ∉ parts := by
        intro e he
        have hmem : e ∈ a.expressions := by
          rw [Attribute.expressions, hparts]
          exact List.mem_filterMap.2 ⟨_, he, rfl⟩
        rw [ha] at hmem
        cases hmem
      obtain ⟨text, htext⟩ : ∃ text, ∀ w, runFrom w (partsText setting id path parts) =
        (.ok text, w) := runFrom_partsText_of_static hstatic
      refine ⟨.string text, fun w => ?_⟩
      unfold attributeValue
      split
      · next h => cases hparts.symm.trans h
      · next e h =>
        obtain rfl := Option.some.inj (hparts.symm.trans h)
        exact absurd (List.mem_singleton.2 rfl) (hstatic e)
      · next found _ h =>
        obtain rfl := Option.some.inj (hparts.symm.trans h)
        rw [runFrom_bind_ok (htext w)]
        rfl
  induction attributes with
  | nil => exact ⟨[], fun _ => rfl⟩
  | cons a rest ih =>
    obtain ⟨value, hvalue⟩ := one a (h a List.mem_cons_self)
    obtain ⟨values, hvalues⟩ := ih fun x hx => h x (List.mem_cons_of_mem _ hx)
    refine ⟨(a.name, value) :: values, fun w => ?_⟩
    unfold attributeValues
    rw [runFrom_bind_ok (hvalue w), runFrom_bind_ok (hvalues w)]
    rfl

end Walking

namespace Node

variable {setting : Setting} {path : IterationPath} {config : Fields Json} {more : List String}
  {held : List Nat} {a t b c : Walk}

/-- The claim about a node: whenever a walk pauses in it, the other two rejoin in it. -/
def RejoinsIn (setting : Setting) (n : Node) : Prop :=
  ∀ {more held path config a t b c}, n.Calm a.statuses → Scene more held n.ids a t b c →
    runFrom a (n.walk setting path) = (.error (.paused config), t) →
      Rejoins held t (runFrom b (n.walk setting path)) (runFrom c (n.walk setting path))

theorem rejoins_among {ns : List Node} (ih : ∀ m ∈ ns, RejoinsIn setting m)
    (hcalm : ∀ m ∈ ns, m.Calm a.statuses) (h : Scene more held (idsAll ns) a t b c)
    (ha : PausesAmong setting path config ns a t) :
    Rejoins held t (runFrom b (walkAll setting ns path)) (runFrom c (walkAll setting ns path)) := by
  -- the pause is in `m`: what stands before it completes once more in `b` and is skipped in `c`
  obtain ⟨before, m, after, s, rfl, hs, hm⟩ := ha
  obtain ⟨-, hskip⟩ := among_of_poised h.standing.toPoised hs hm
  have hmem : m ∈ before ++ m :: after := List.mem_append_right _ List.mem_cons_self
  have hfinish : Finish (idsAll before) False a s := finish_of_walkAll hs
  obtain ⟨b', hb', halike⟩ := h.run
    (congruent_walkAll fun n _ => n.congruent_walk (fun _ _ => List.not_mem_nil) path) hs
  have hscene : Scene more held m.ids s t b' c :=
    (h.sublist (ids_sublist_idsAll hmem)).advance (progress_of_walkAll hs) hfinish.turns halike
  have hcalm' : m.Calm s.statuses := fun x hx hstep id hid =>
    hfinish.unpaused id (hcalm m hmem x hx hstep id hid)
  obtain ⟨rho, hrho, hagree⟩ := ih m hmem hcalm' hscene hm
  refine ⟨rho, hrho, ?_⟩
  rw [walkAll_append, runFrom_bind_ok hb', runFrom_bind_ok hskip]
  -- what stands behind `m` starts alike in both runs, and has no status kept yet
  refine hagree.bind fun _ => congruent_walkAll fun n hn => n.congruent_walk (fun id hid => ?_) path
  exact h.standing.free id
    (ids_subset_idsAll (List.mem_append_right _ (List.mem_cons_of_mem _ hn)) hid)

/-- The three walks inside of a node that they visit. -/
structure Inner (more : List String) (held : List Nat) (n : Node) (path : IterationPath)
    (a s b c : Walk) : Prop where
  scene : Scene more (n.id :: held) (idsAll n.childNodes) a s b c
  place : Entered more held n path a s c

/-- When the three walks visit a node, they are inside of it. -/
theorem inner_of_scene {n : Node} (h : Scene more held n.ids a t b c)
    (ha : runFrom a (n.walk setting path) = (.error (.paused config), t)) :
    b.statuses.completed n.id path = false ∧ c.statuses.completed n.id path = false ∧
      ∃ s, Pauses setting path config n (a.enter n.id path) s ∧
        t = { s with
          statuses := s.statuses.pause n.id path (a.enter n.id path).scope.pointers } ∧
        Inner more held n path (a.enter n.id path) s (b.enter n.id path) (c.enter n.id path) := by
  obtain ⟨-, s, hs, ht⟩ := pauses_of_walk ha
  obtain ⟨hc, henter, hplace⟩ := enter_of_poised hs ht ha h.standing.toPoised
  subst ht
  refine ⟨?_, hc, s, hs, rfl, ⟨h.more_ne, ?_, h.problems, h.alike.enter List.not_mem_nil path, ?_⟩,
    hplace⟩
  · rw [← h.alike.completed List.not_mem_nil path]
    exact (pauses_of_walk ha).1
  · have henters : Progress n.ids path a (a.enter n.id path) ∧
      Finish n.ids False a (a.enter n.id path) := progress_enter a n.id_mem_ids
    exact henters.1.stored h.stored
  -- the node enters `c` by taking back the pointers it stored at the pause
  · have hstanding := h.standing
    rw [henter] at hplace ⊢
    exact { hplace.poised with
      stash := hstanding.stash
      messages := hstanding.messages
      problems := hstanding.problems
      evaluations := hstanding.evaluations }

/-! ### The ways to pause -/

variable {s : Walk} {n : Node} {info : NodeInfo} {children : List Node}

theorem rejoins_fragment (ih : ∀ m ∈ children, RejoinsIn setting m)
    (hcalm : (fragment info children).Calm a.statuses)
    (h : Inner more held (fragment info children) path a s b c)
    (hs : PausesAmong setting path config children a s) :
    Rejoins (info.id :: held) s (runFrom b (act setting (fragment info children) path))
      (runFrom c (act setting (fragment info children) path)) := by
  have hslots := (progress_of_walkAll (walkAll_of_pausesAmong hs)).slots
  obtain ⟨rho, hrho, hagree⟩ := rejoins_among ih (fun m hm => hcalm.child hm) h.scene hs
  refine ⟨rho, hrho, hagree.inCopy ?_⟩
  rw [h.place.pointers]
  exact (h.scene.renamed_pointers fun i hi => hrho i (Nat.lt_of_lt_of_le hi hslots)).symm

variable {condition : Expr} {elseIf : Bool} {otherwise : Option Node}

/-- The third walk goes into the branch that the first has taken, if nothing is declared on the way.
-/
theorem rejoins_condition {taken : Bool} {u : Walk} {body rest : Walking Unit}
    (h : Inner more held (ifBlock info condition elseIf children otherwise) path a
      { t with statuses := t.statuses.decide info.id (.branch taken) } b c)
    (hdeclares : condition.DeclaresNothing)
    (hcondition : runFrom a (takesBranch setting info.id path condition) = (.ok taken, u))
    (hpart : ∀ b', Scene more (info.id :: held) (idsAll (children ++ otherwise.toList))
        (entered u ⟨info.id, path, .branch taken⟩) t (entered b' ⟨info.id, path, .branch taken⟩)
        (entered c ⟨info.id, path, .branch taken⟩) →
      u.statuses = a.statuses → c.scope.pointers = u.scope.pointers →
      Rejoins (info.id :: held) t
        (runFrom (entered b' ⟨info.id, path, .branch taken⟩) (if taken then inCopy body else rest))
        (runFrom (entered c ⟨info.id, path, .branch taken⟩)
          (if taken then inCopy body else rest))) :
    Rejoins (info.id :: held) t
      (runFrom b (Walking.ifBlock setting info.id path condition body rest))
      (runFrom c (Walking.ifBlock setting info.id path condition body rest)) := by
  -- `b` computes the condition as `a` did, `c` takes the branch from the block's status
  obtain ⟨hsilent, hstill⟩ := (silent_takesBranch setting info.id path condition a).done hcondition
  obtain ⟨b', hb', hscene⟩ := h.scene.silent
    (Congruent.takesBranch setting List.not_mem_nil path condition) hcondition hsilent
  have hc' : runFrom c (takesBranch setting info.id path condition) = (.ok taken, c) :=
    runFrom_takesBranch h.place.decided
  obtain ⟨rho, hrho, hagree⟩ := hpart b' (hscene.undecided.entered _) hsilent.statuses
    (h.place.pointers.trans (hstill hdeclares).symm)
  refine ⟨rho, hrho, ?_⟩
  unfold Walking.ifBlock
  rw [runFrom_bind_ok hb', runFrom_bind_ok hc']
  exact Agree.onPause (fun _ => ⟨rfl, rfl, rfl⟩) (fun _ => ⟨rfl, rfl, rfl⟩)
    (Agree.entering (hscene.standing.turns.trans hscene.alike.turns) hagree)

theorem rejoins_taken (hn : (ifBlock info condition elseIf children otherwise).Resumable)
    (ih : ∀ m ∈ children, RejoinsIn setting m)
    (hcalm : (ifBlock info condition elseIf children otherwise).Calm a.statuses) {u : Walk}
    (h : Inner more held (ifBlock info condition elseIf children otherwise) path a
      { t with statuses := t.statuses.decide info.id (.branch true) } b c)
    (hcondition : runFrom a (takesBranch setting info.id path condition) = (.ok true, u))
    (ht : PausesAmong setting path config children (entered u ⟨info.id, path, .branch true⟩) t) :
    Rejoins (info.id :: held) t
      (runFrom b (act setting (ifBlock info condition elseIf children otherwise) path))
      (runFrom c (act setting (ifBlock info condition elseIf children otherwise) path)) := by
  -- a step lies in the branch, so the condition declares nothing and the pointers agree
  obtain ⟨m, hm, hstep⟩ := anyHoldsStep_of_pausesAmong ht
  have hdeclares : condition.DeclaresNothing :=
    hn.self ⟨m, List.mem_append_left _ hm, hstep⟩
  refine rejoins_condition h hdeclares hcondition fun b' hscene hstatuses hpointers => ?_
  have hcalm' : ∀ m ∈ children, m.Calm (entered u ⟨info.id, path, .branch true⟩).statuses := by
    intro m hm
    rw [entered, hstatuses]
    exact hcalm.child (List.mem_append_left _ hm)
  have hsub : (idsAll children).Sublist (idsAll (children ++ otherwise.toList)) := by
    rw [idsAll_append]
    exact List.sublist_append_left _ _
  have hinner := hscene.sublist hsub
  have hslots := (progress_of_walkAll (walkAll_of_pausesAmong ht)).slots
  obtain ⟨rho, hrho, hagree⟩ := rejoins_among ih hcalm' hinner ht
  -- slots below the stash of the pause keep their places, so the pointers are not renamed
  refine ⟨rho, hrho, hagree.inCopy (hpointers.trans ?_)⟩
  exact (hinner.renamed_pointers fun i hi => hrho i (Nat.lt_of_lt_of_le hi hslots)).symm

theorem rejoins_passed {m : Node} (hn : (ifBlock info condition elseIf children (some m)).Resumable)
    (ih : RejoinsIn setting m)
    (hcalm : (ifBlock info condition elseIf children (some m)).Calm a.statuses) {u : Walk}
    (h : Inner more held (ifBlock info condition elseIf children (some m)) path a
      { t with statuses := t.statuses.decide info.id (.branch false) } b c)
    (hcondition : runFrom a (takesBranch setting info.id path condition) = (.ok false, u))
    (ht : runFrom (entered u ⟨info.id, path, .branch false⟩) (m.walk setting path) =
      (.error (.paused config), t)) :
    Rejoins (info.id :: held) t
      (runFrom b (act setting (ifBlock info condition elseIf children (some m)) path))
      (runFrom c (act setting (ifBlock info condition elseIf children (some m)) path)) := by
  have hm : m ∈ children ++ (some m).toList := List.mem_append_right _ (List.mem_singleton.2 rfl)
  have hdeclares : condition.DeclaresNothing := hn.self ⟨m, hm, holdsStep_of_walk ht⟩
  refine rejoins_condition h hdeclares hcondition fun b' hscene hstatuses _ => ?_
  have hcalm' : m.Calm (entered u ⟨info.id, path, .branch false⟩).statuses := by
    rw [entered, hstatuses]
    exact hcalm.child hm
  exact ih hcalm' (hscene.sublist (ids_sublist_idsAll hm)) ht

/-! ### Loops -/

section Loops

variable {header : ForHeader} {id : Nat} {items before later : List Value} {item : Value}
  {first i : Nat} {resumed v : Option Value} {u x : Walk}

/-- The walks rejoin in an iteration in which the first pauses. -/
theorem rejoins_in_iteration (items : List Value) (ih : ∀ m ∈ children, RejoinsIn setting m)
    (hcalm : ∀ m ∈ children, m.Calm u.statuses) (h : Scene more held (idsAll children) u t b c)
    (hfree : FreeIn header c.scope) (hpointers : c.scope.pointers = u.scope.pointers)
    (hindex : runFrom (begun u ⟨id, path, .iteration i⟩ header.item item)
      (setIndex setting id path header i resumed) = (.ok v, x))
    (ht : PausesAmong setting (path ++ [i]) config children x t) :
    Rejoins held t
      (runFrom b (iteration setting id path header items
        (fun inner => walkAll setting children inner) i resumed item))
      (runFrom c (iteration setting id path header items
        (fun inner => walkAll setting children inner) i v item)) := by
  -- `b` sets the loop's variables as `a` did, `c` takes the index that was kept
  have hvars : runFrom (entered u ⟨id, path, .iteration i⟩) (do
      setVariable header.item item
      setIndex setting id path header i resumed) = (.ok v, x) := hindex
  have hsilent : Silent id path (entered u ⟨id, path, .iteration i⟩) x := silent_of_begun hindex
  obtain ⟨b', hb', hscene⟩ := (h.entered ⟨id, path, .iteration i⟩).silent
    (Congruent.bind (Congruent.setVariable _ _) fun _ => Congruent.setIndex _ _ _ _ _ _) hvars
    hsilent
  have hc' : runFrom (entered c ⟨id, path, .iteration i⟩) (do
      setVariable header.item item
      setIndex setting id path header i v) = (.ok v, { entered c ⟨id, path, .iteration i⟩ with
        scope := indexed header v (c.scope.set header.item item) }) :=
    runFrom_setIndex_resumed hindex (begun c ⟨id, path, .iteration i⟩ header.item item)
  have hcalm' : ∀ m ∈ children, m.Calm x.statuses := by
    rw [hsilent.statuses]
    exact hcalm
  obtain ⟨rho, hrho, hagree⟩ := rejoins_among ih hcalm'
    (hscene.third (extends_indexed h.standing.stash hfree item v)) ht
  have hslots : u.scope.stash.slots.size ≤ t.scope.stash.slots.size :=
    Nat.le_trans hsilent.progress.slots (progress_of_walkAll (walkAll_of_pausesAmong ht)).slots
  refine ⟨rho, hrho, Agree.entering (h.standing.turns.trans h.alike.turns) (Agree.inCopy ?_ ?_)⟩
  · exact hpointers.trans
      (h.renamed_pointers fun i hi => hrho i (Nat.lt_of_lt_of_le hi hslots)).symm
  · rw [← bind_assoc, ← bind_assoc, runFrom_bind_ok hb', runFrom_bind_ok hc']
    exact hagree.onPause (fun _ => ⟨rfl, rfl, rfl⟩) fun _ => ⟨rfl, rfl, rfl⟩

theorem rejoins_iteration {otherwise : Option Node} {s : Walk}
    (hn : (forBlock info header children otherwise).Resumable)
    (ih : ∀ m ∈ children, RejoinsIn setting m)
    (hcalm : (forBlock info header children otherwise).Calm a.statuses)
    (h : Inner more held (forBlock info header children otherwise) path a
      { t with statuses :=
          t.statuses.decide info.id (.iteration items (first + before.length) v) } b c)
    (hnames : FreeIn header a.scope)
    (hloop : runFrom a (takeItems setting info.id path header.iterable) =
      (.ok ⟨items, first, resumed⟩, s))
    (hitems : items.drop first = before ++ item :: later)
    (hbefore : runFrom s (iterations setting info.id path header items
      (fun inner => walkAll setting children inner) first resumed before) = (.ok (), u))
    (hindex : runFrom (begun u ⟨info.id, path, .iteration (first + before.length)⟩ header.item item)
      (setIndex setting info.id path header (first + before.length)
        (if before.isEmpty then resumed else none)) = (.ok v, x))
    (ht : PausesAmong setting (path ++ [first + before.length]) config children x t) :
    Rejoins (info.id :: held) t
      (runFrom b (act setting (forBlock info header children otherwise) path))
      (runFrom c (act setting (forBlock info header children otherwise) path)) := by
  have hsub : (idsAll children).Sublist (idsAll (children ++ otherwise.toList)) := by
    rw [idsAll_append]
    exact List.sublist_append_left _ _
  have hdeclares : header.iterable.DeclaresNothing := hn.self.1 (anyHoldsStep_of_pausesAmong ht)
  obtain ⟨hsilent, hstill⟩ :=
    (silent_takeItems setting info.id path header.iterable a).done hloop
  have hbody : ∀ K inner, Congruent K (info.id :: held) (walkAll setting children inner) := by
    intro K inner
    refine congruent_walkAll fun m hm => m.congruent_walk (fun id hid => ?_) inner
    exact h.scene.standing.free id (hsub.subset (ids_subset_idsAll hm hid))
  have hnone : runFrom b (checkNames info header) = (.ok (), b) :=
    runFrom_checkNames (hnames.of_pointers h.scene.pointers)
  -- the first two walks come to the iteration in which the first pauses
  obtain ⟨b1, hb1, hscene1⟩ := h.scene.silent
    (Congruent.takeItems setting List.not_mem_nil path header.iterable) hloop hsilent
  obtain ⟨b2, hb2, halike2⟩ := hscene1.run (Congruent.iterations (fun inner =>
    congruent_walkAll fun m _ => m.congruent_walk
      (fun _ _ => List.not_mem_nil) inner) _ _ _) hbefore
  obtain ⟨hprogress, hfinish⟩ := progress_of_iterations hbefore
  have hscene2 := (hscene1.advance hprogress hfinish.turns halike2).undecided.sublist hsub
  have hpointers : u.scope.pointers = a.scope.pointers :=
    (pointers_iterations hbefore).trans (hstill hdeclares)
  have hcalm' : ∀ m ∈ children, m.Calm u.statuses := by
    intro m hm y hy hstep id hid
    refine hfinish.unpaused id ?_
    rw [hsilent.statuses]
    exact hcalm.child (List.mem_append_left _ hm) y hy hstep id hid
  have hdrop : items.drop (first + before.length) = item :: later := by
    rw [← List.drop_drop, hitems, List.drop_left]
  have hitems' : items.isEmpty = false := by
    rw [List.isEmpty_eq_false_iff]
    rintro rfl
    simp at hdrop
  obtain ⟨rho, hrho, hagree⟩ := rejoins_in_iteration items ih hcalm' hscene2
    (hnames.of_pointers h.place.pointers) (h.place.pointers.trans hpointers.symm) hindex ht
  refine ⟨rho, hrho, ?_⟩
  -- the third walk goes there at once
  rw [h.place.iteration hnames hdrop]
  show Agree _ _ (runFrom b (Walking.forBlock _ _ _ _ _ _)) _
  unfold Walking.forBlock
  rw [runFrom_bind_ok hnone, runFrom_bind_ok hb1]
  dsimp only
  rw [hitems', if_neg Bool.false_ne_true, hitems, iterations_append, runFrom_bind_ok hb2]
  exact hagree.bind fun _ => Congruent.iterations (hbody _) _ _ _

end Loops

/-! ### Steps -/

/-- The step at which the first walk waits is the one at which the others take a response. -/
theorem rejoins_reply {id : Nat} {name : Option String} {config' : Fields Json} {ids : List Nat}
    (h : Scene more held ids a (waiting setting id path a) b c) (hresponses : a.responses = [])
    (hpointers : c.scope.pointers = a.scope.pointers) :
    Rejoins held (waiting setting id path a)
      (runFrom b (takeResponse setting id path name config))
      (runFrom c (takeResponse setting id path name config')) := by
  -- both runs have the response at hand; `b` takes it here for the first time
  obtain ⟨response, rest, hmore⟩ := List.exists_cons_of_ne_nil h.more_ne
  have hb : b.responses = response :: rest := by
    rw [h.alike.responses, hresponses, ← hmore]
    rfl
  have hc : c.responses = response :: rest := h.standing.responses.trans hmore
  have hsettled : c.closed setting = c :=
    Walk.Settled.closed ⟨h.standing.stray, h.standing.content, h.standing.toolCalls⟩ setting
  have hclosed : Alike (.longer more) [] (b.closed setting) (a.closed setting) :=
    Congruent.closed h.alike setting
  have hscope : b.scope = a.scope := h.alike.scope.eq.symm
  -- at the pause everything pending was closed into messages, which `c` has sent already
  have hwaiting : waiting setting id path a = { a with
      stray := "", content := [], toolCalls := [], messages := (a.closed setting).messages
      problems := (a.closed setting).problems
      journal := .asked id path a.turns :: a.journal } := by
    rw [waiting, Walk.closed_eq]
  have hstash : a.scope.stash.Extends c.scope.stash := by
    have hst := h.standing.stash
    rwa [hwaiting] at hst
  -- the slots made since the pause are what the two stashes differ by
  obtain ⟨rho, hrho, hrenamed⟩ := hstash.exists_renamed
  have hnames : b.scope.Renamed rho c.scope := by
    rw [hscope]
    refine ⟨hrenamed, ?_⟩
    rw [Pointers.renamed_of_below h.stored.visible hrho]
    exact hpointers
  refine ⟨rho, by rwa [hwaiting], ?_⟩
  rw [runFrom_takeResponse_cons hb, runFrom_takeResponse_cons hc]
  unfold replied
  rw [closed_answered, closed_answered, hsettled]
  have hstanding := h.standing
  rw [hwaiting] at hstanding
  have hsb := Walk.settled_closed setting b
  have hflags : b.closed setting = { b with
      stray := "", content := [], toolCalls := [], messages := (b.closed setting).messages
      problems := (b.closed setting).problems } := Walk.closed_eq setting b
  -- field by field: what `c` has is what `b` has, less what was sent at the pause
  refine .ok
    { size := ?_
      statuses := fun other hother => ?_
      scope := hnames.named name response
      responses := (List.append_nil rest).symm
      messages := ?_
      evaluations := ?_
      stray := hstanding.stray.trans hsb.stray.symm
      content := hstanding.content.trans hsb.content.symm
      toolCalls := hstanding.toolCalls.trans hsb.toolCalls.symm
      inMessage := ?_
      inContent := ?_
      inStep := ?_
      inArguments := ?_
      turns := ?_
      problems := ?_ }
  · show c.statuses.nodes.size = (b.closed setting).statuses.nodes.size
    rw [hflags]
    exact hstanding.size.trans h.alike.size
  · show c.statuses.ofNode other = ((b.closed setting).statuses.ofNode other).renamed rho
    have hsame : a.statuses.ofNode other = b.statuses.ofNode other :=
      (h.alike.statuses other List.not_mem_nil).trans (NodeStatus.renamed_id _)
    rw [hflags, hstanding.statuses other hother]
    show a.statuses.ofNode other = (b.statuses.ofNode other).renamed rho
    rw [← hsame, NodeStatus.renamed_of_below (h.stored.kept other) hrho]
  · show (b.closed setting).messages ++ [.ofResponse response] =
      (a.closed setting).messages ++ (c.messages ++ [.ofResponse response])
    rw [hclosed.messages, hstanding.messages]
    rfl
  · show evaluations (.answered id path (b.closed setting).turns response ::
        (b.closed setting).journal) =
      evaluations (.answered id path c.turns response :: c.journal) ++
        evaluations (.asked id path a.turns :: (a.closed setting).journal)
    rw [evaluations_cons_of_not rfl, evaluations_cons_of_not rfl, evaluations_cons_of_not rfl,
      hclosed.evaluations, hstanding.evaluations, List.nil_append]
    exact List.append_nil _
  · show c.inMessage = (b.closed setting).inMessage
    rw [hflags]
    exact hstanding.inMessage.trans h.alike.inMessage
  · show c.inContent = (b.closed setting).inContent
    rw [hflags]
    exact hstanding.inContent.trans h.alike.inContent
  · show c.inStep = (b.closed setting).inStep
    rw [hflags]
    exact hstanding.inStep.trans h.alike.inStep
  · show c.inArguments = (b.closed setting).inArguments
    rw [hflags]
    exact hstanding.inArguments.trans h.alike.inArguments
  · show c.turns = (b.closed setting).turns
    rw [hflags]
    exact hstanding.turns.trans h.alike.turns
  · show c.problems = (b.closed setting).problems
    rw [hstanding.problems, ← hclosed.problems]
    exact h.problems.symm

variable {name : String} {attributes : List Attribute}

theorem rejoins_step {as? : Option String} {u : Walk}
    (hn : (element info name attributes children).Resumable)
    (hcalm : (element info name attributes children).Calm a.statuses)
    (h : Inner more held (element info name attributes children) path a
      (waiting setting info.id path { u with inStep := false }) b c)
    (hkind : TagKind.ofName name = .step) (houter : a.inStep = false)
    (hmessage : a.inMessage = false) (hname : runFrom a (stepName attributes) = (.ok as?, a))
    (hconfig : runFrom a (stepConfig setting info.id path attributes) = (.ok config, s))
    (hbody : runFrom { s with inStep := true } (walkAll setting children path) = (.ok (), u))
    (hnone : u.responses = []) :
    Rejoins (info.id :: held) (waiting setting info.id path { u with inStep := false })
      (runFrom b (act setting (element info name attributes children) path))
      (runFrom c (act setting (element info name attributes children) path)) := by
  have hdeclares := hn.self
  simp only [Resumes, hkind] at hdeclares
  obtain ⟨hattributes, hchildren⟩ := hdeclares
  -- the first two walks come to the response
  have hlaw : Respects (silent info.id path False True)
      (stepConfig setting info.id path attributes) :=
    silent_stepConfig setting info.id path False.elim fun _ => hattributes
  obtain ⟨hsilent, hstill⟩ := (hlaw a).done hconfig
  obtain ⟨b1, hb1, hscene1⟩ := h.scene.silent
    (Congruent.stepConfig setting List.not_mem_nil path attributes) hconfig hsilent
  have hinside : runFrom s (within (fun w => { w with inStep := true })
      (fun w => { w with inStep := false }) (walkAll setting children path)) =
        (.ok (), { u with inStep := false }) := by
    rw [runFrom_within, hbody]
  have hcongruent : ∀ K, Congruent K [] (within (fun w => { w with inStep := true })
      (fun w => { w with inStep := false }) (walkAll setting children path)) := by
    intro K
    refine Congruent.within (fun _ => ⟨rfl, rfl, rfl⟩) (fun _ => ⟨rfl, rfl, rfl⟩)
      (fun b c h => ?_) (fun b c h => ?_)
      (congruent_walkAll fun m _ => m.congruent_walk (fun _ _ => List.not_mem_nil) path)
    · exact { h with inStep := rfl }
    · exact { h with inStep := rfl }
  obtain ⟨b2, hb2, halike2⟩ := hscene1.run (hcongruent _) hinside
  have hlaw' : RespectsAt (progress (idsAll children) path True False) s
      (within (fun w => { w with inStep := true }) (fun w => { w with inStep := false })
        (walkAll setting children path)) := by
    refine progress_within rfl ?_ (fun _ h => nomatch h) (fun _ => rfl)
      (respects_walkAll children path _)
    have hs : s.inStep = false := by
      rw [hsilent.same]
      exact houter
    rintro t h1 h2 - h4
    rw [hs, ← h1, ← h2, ← h4]
  obtain ⟨hprogress, hfinish⟩ := hlaw'.done hinside
  have hscene2 := hscene1.advance hprogress hfinish.turns halike2
  have hpointers : u.scope.pointers = a.scope.pointers := by
    refine (pointers_of_walkAll hchildren rfl (fun id hid => ?_) hbody).trans (hstill trivial)
    show (s.statuses.ofNode id).paused = none
    rw [hsilent.statuses]
    exact hcalm _ (mem_nodes_self _) (by simp [isStep, hkind]) id hid
  have hrejoins : Rejoins (info.id :: held)
    (waiting setting info.id path { u with inStep := false })
      (runFrom b2 (takeResponse setting info.id path as? config))
      (runFrom c (takeResponse setting info.id path as? [])) :=
    rejoins_reply hscene2 hnone (h.place.pointers.trans hpointers.symm)
  -- the third walk comes there without doing anything
  rw [h.place.step hkind houter hmessage hname hconfig hbody,
    act_step hkind (h.scene.alike.inStep.symm.trans houter)
      (h.scene.alike.inMessage.symm.trans hmessage),
    runFrom_bind_ok (runFrom_stepName hname b), runFrom_bind_ok hb1, runFrom_bind_ok hb2]
  exact hrejoins

/-! ### Content -/

theorem rejoins_content {kind : ContentKind} {values : Fields Value} {u : Walk}
    (hn : (element info name attributes children).Resumable)
    (ih : ∀ m ∈ children, RejoinsIn setting m)
    (hcalm : (element info name attributes children).Calm a.statuses)
    (h : Inner more held (element info name attributes children) path a
      { u with inContent := false, inArguments := s.inArguments } b c)
    (hkind : TagKind.ofName name = .content kind) (houter : a.inContent = false)
    (hvalues : runFrom a (attributeValues setting info.id path attributes) = (.ok values, s))
    (hu : PausesAmong setting path config children
      { s.closedText with inContent := true, inArguments := false } u) :
    Rejoins (info.id :: held) { u with inContent := false, inArguments := s.inArguments }
      (runFrom b (act setting (element info name attributes children) path))
      (runFrom c (act setting (element info name attributes children) path)) := by
  -- a tag with a step inside has static attributes, so evaluating them again changes nothing
  have hstatic := hn.self
  simp only [Resumes, hkind] at hstatic
  obtain ⟨found, hfound⟩ : ∃ found, ∀ w,
    runFrom w (attributeValues setting info.id path attributes) =
      (.ok found, w) :=
    runFrom_attributeValues_of_static (hstatic (anyHoldsStep_of_pausesAmong hu))
  obtain rfl : a = s := (Prod.mk.inj ((hfound a).symm.trans hvalues)).2
  have hsettled : c.closedText = c := Walk.Settled.closedText
    ⟨h.scene.standing.stray, h.scene.standing.content, h.scene.standing.toolCalls⟩
  -- the children resume in a scene with the tag's own slots set on all three sides
  have hinner : Scene more (info.id :: held) (idsAll children)
      { a.closedText with inContent := true, inArguments := false } u
      { b.closedText with inContent := true, inArguments := false }
      { c with inContent := true, inArguments := false } :=
    { h.scene with
      stored := ⟨h.scene.stored.visible, h.scene.stored.kept⟩
      alike := { Congruent.closedText h.scene.alike with inContent := rfl, inArguments := rfl }
      standing := { h.scene.standing with inContent := rfl, inArguments := rfl } }
  have hcalm' : ∀ m ∈ children,
      m.Calm { a.closedText with inContent := true, inArguments := false }.statuses :=
    fun m hm => hcalm.child hm
  obtain ⟨rho, hrho, hagree⟩ := rejoins_among ih hcalm' hinner hu
  refine ⟨rho, hrho, ?_⟩
  rw [act_content hkind (h.scene.alike.inContent.symm.trans houter), runFrom_bind_ok (hfound b),
    runFrom_bind_ok (runFrom_closeText b),
    act_content hkind (h.scene.standing.inContent.trans houter),
    runFrom_bind_ok (hfound c), runFrom_bind_ok (runFrom_closeText c), hsettled]
  -- what follows the body closes the tag, and both runs do it alike
  refine Agree.bind (Agree.within (fun _ => ⟨rfl, rfl, rfl⟩) (fun b c h => ?_)
    (Agree.inArguments ?_ hagree)) fun _ => ?_
  · exact { h with inContent := rfl }
  · exact h.scene.standing.inArguments.trans h.scene.alike.inArguments
  · refine Congruent.bind (Congruent.look fun b c h => h.stray) fun stray =>
      Congruent.bind (Congruent.change (fun b c h => ?_) fun _ => ⟨rfl, rfl⟩) fun _ =>
        Congruent.placeContent _ _ _ _
    exact { h with stray := rfl }

/-! ### Nodes -/

/-- The walks rejoin in what a node does. -/
theorem rejoins_act {n : Node} (hn : n.Resumable) (ih : ∀ m ∈ n.childNodes, RejoinsIn setting m)
    (hcalm : n.Calm a.statuses) (h : Inner more held n path a s b c)
    (hs : Pauses setting path config n a s) :
    Rejoins (n.id :: held) s (runFrom b (n.act setting path)) (runFrom c (n.act setting path)) := by
  cases hs with
  | fragment hs => exact rejoins_fragment ih hcalm h hs
  | taken hcondition hs =>
    exact (rejoins_taken hn (fun m hm => ih m (List.mem_append_left _ hm)) hcalm h hcondition
      hs).recorded _
  | passed hcondition hs =>
    exact (rejoins_passed hn (ih _ (List.mem_append_right _ (List.mem_singleton.2 rfl))) hcalm h
      hcondition hs).recorded _
  | iteration hnames hloop hitems hbefore hindex hs =>
    exact (rejoins_iteration hn (fun m hm => ih m (List.mem_append_left _ hm)) hcalm h hnames hloop
      hitems hbefore hindex hs).recorded _
  | noItems hnames hloop hempty hs =>
    exact absurd ⟨_, List.mem_singleton.2 rfl, holdsStep_of_walk hs⟩ hn.self.2
  | content hkind houter hvalues hs => exact rejoins_content hn ih hcalm h hkind houter hvalues hs
  | toolCall hkind houter hvalues hs =>
    have hself := hn.self
    simp only [Resumes, hkind] at hself
    exact absurd (anyHoldsStep_of_pausesAmong hs) hself
  | unknown hkind hs =>
    -- the tag is a problem
    have hgrows := (progress_of_walkAll (walkAll_of_pausesAmong hs)).problems
    rw [h.scene.problems] at hgrows
    simp at hgrows
  | step hkind houter hmessage hname hconfig hbody hnone =>
    exact rejoins_step hn hcalm h hkind houter hmessage hname hconfig hbody hnone

/-- If a walk pauses in a node, the walk that has a response and the one that goes on with it
rejoin. -/
theorem rejoins (n : Node) (hn : n.Resumable) : RejoinsIn setting n := by
  induction n using Node.induct with
  | step n ih =>
    intro more held path config a t b c hcalm h ha
    obtain ⟨hb, hc, s, hs, rfl, hinner⟩ := inner_of_scene h ha
    have hcalm' : n.Calm (a.enter n.id path).statuses := by
      have hfinish : Finish n.ids False a (a.enter n.id path) := (progress_enter a n.id_mem_ids).2
      exact fun m hm hstep id hid => hfinish.unpaused id (hcalm m hm hstep id hid)
    obtain ⟨rho, hrho, hagree⟩ := rejoins_act hn
      (fun m hm => ih m hm (hn.child hm)) hcalm' hinner hs
    refine ⟨rho, hrho, ?_⟩
    rw [walk_eq]
    exact Agree.visiting hb hc hagree

end Node

end PromptMarkup

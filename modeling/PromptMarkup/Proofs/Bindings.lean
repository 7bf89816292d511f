/-
Bindings stay valid.

The names that were visible when a visit paused are kept with their slots, and a later walk goes on
with them over the stash that the earlier one has left.

* `Walk.Stored` is what keeps this sound: the names that are visible, and those that are kept for
  visits that paused, have slots;
* `Walking.checked` — a part of a walk that sounds an alarm if this does not hold in front of it or
  behind it;
* `Node.watch` — the visit of a node with such checks wherever a visit, or what stands inside of a
  block or an element, begins or ends;
* `Node.storedEq_watch` — no alarm is ever sounded;
* `Chain.bindings_valid` — so it is in all walks of a chain, whatever calls have been made before.

Design notes: between two checks a walk evaluates expressions and sets variables one after the
other, each of which keeps the invariant (`Scope.leads_set`, `silent_evaluate`).  The alarm is
arbitrary, so that it cannot be mistaken for how a walk ends by itself.
-/
import PromptMarkup.Proofs.Answers
import PromptMarkup.Yaml.Document

namespace PromptMarkup

open PromptMarkup.Computation

/-! ### Checks -/

instance (pointers : Pointers) (bound : Nat) : Decidable (pointers.Below bound) :=
  inferInstanceAs (Decidable (∀ kv ∈ pointers, kv.2 < bound))

/-- The slots that a node keeps for a visit that paused are below a bound. -/
def NodeStatus.Below (status : NodeStatus) (bound : Nat) : Prop :=
  ∀ point, status.paused = some point → point.pointers.Below bound

instance (status : NodeStatus) (bound : Nat) : Decidable (status.Below bound) :=
  match h : status.paused with
  | none => .isTrue fun point hpoint => by rw [h] at hpoint; cases hpoint
  | some point =>
    decidable_of_iff (point.pointers.Below bound)
      ⟨fun hbelow other hother => by
        cases h.symm.trans hother; exact hbelow, fun hall => hall point h⟩

theorem Walk.stored_iff {w : Walk} : w.Stored ↔
    w.scope.Valid ∧ ∀ status ∈ w.statuses.nodes.toList, status.Below w.scope.stash.slots.size := by
  constructor
  · refine fun h => ⟨h.visible, fun status hstatus point hpoint => ?_⟩
    obtain ⟨id, hid, rfl⟩ := List.mem_iff_getElem.1 hstatus
    refine h.kept id point ?_
    have hsize : id < w.statuses.nodes.size := by simpa using hid
    rw [Statuses.ofNode, Array.getElem?_eq_getElem hsize]
    exact hpoint
  · rintro ⟨hvisible, hall⟩
    refine ⟨hvisible, fun id point hpoint => ?_⟩
    rcases Nat.lt_or_ge id w.statuses.nodes.size with hid | hid
    · rw [Statuses.ofNode, Array.getElem?_eq_getElem hid] at hpoint
      exact hall _ (Array.getElem_mem_toList hid) point hpoint
    · rw [Statuses.ofNode_of_le w.statuses id hid] at hpoint
      simp [NodeStatus.fresh] at hpoint

instance (w : Walk) : Decidable w.Stored :=
  have : Decidable w.scope.Valid := inferInstanceAs (Decidable (Pointers.Below _ _))
  decidable_of_iff _ Walk.stored_iff.symm

namespace Walking

/-- Runs `act`, and sounds the alarm if names without slots are visible or kept in front of it or
behind it, however it ended. -/
def checked (alarm : Interrupt) (act : Walking Unit) : Walking Unit :=
  ExceptT.mk fun w =>
    if w.Stored then
      let (result, t) := act.runFrom w
      (if t.Stored then result else .error alarm, t)
    else
      (.error alarm, w)

/-- A visit with checks in front of it and behind it, and where it has entered and is left. -/
def checkedVisit (alarm : Interrupt) (id : Nat) (path : IterationPath) (act : Walking Unit) :
    Walking Unit :=
  checked alarm (visiting id path (checked alarm act))

end Walking

open Walking

namespace Node

mutual

/-- Visits a node with checks. -/
def watch (setting : Setting) (alarm : Interrupt) : Node → IterationPath → Walking Unit
  | fragment info children, path =>
    checkedVisit alarm info.id path (inCopy (checked alarm (watchAll setting alarm children path)))
  | config info _ _, path => checkedVisit alarm info.id path (pure ())
  | comment info _, path => checkedVisit alarm info.id path (pure ())
  | text info data, path => checkedVisit alarm info.id path (write info.id path data)
  | mustache info e, path =>
    checkedVisit alarm info.id path (Walking.mustache setting info.id path e)
  | ifBlock info condition _ children otherwise, path =>
    checkedVisit alarm info.id path (Walking.ifBlock setting info.id path condition
      (checked alarm (watchAll setting alarm children path))
      (checked alarm (watchElse setting alarm otherwise path)))
  | forBlock info header children otherwise, path =>
    checkedVisit alarm info.id path (Walking.forBlock setting info path header
      (fun inner => checked alarm (watchAll setting alarm children inner))
      (checked alarm (watchElse setting alarm otherwise path)))
  | element info name attributes children, path =>
    checkedVisit alarm info.id path (Walking.element setting info path name attributes
      (checked alarm (watchAll setting alarm children path)))

/-- Visits nodes one after the other, with checks. -/
def watchAll (setting : Setting) (alarm : Interrupt) : List Node → IterationPath → Walking Unit
  | [], _ => pure ()
  | n :: rest, path => do
    watch setting alarm n path
    watchAll setting alarm rest path

/-- Visits an `else` part with checks, if there is one. -/
def watchElse (setting : Setting) (alarm : Interrupt) : Option Node → IterationPath → Walking Unit
  | none, _ => pure ()
  | some n, path => watch setting alarm n path

end

end Node

/-! ### Parts that do the same -/

section Congruence

variable {ε σ α β : Type} {s : σ}

theorem Computation.runFrom_bind_congr {x y : Computation ε σ α} {f g : α → Computation ε σ β}
    (hxy : runFrom s x = runFrom s y)
    (hfg : ∀ a t, runFrom s y = (.ok a, t) → runFrom t (f a) = runFrom t (g a)) :
    runFrom s (x >>= f) = runFrom s (y >>= g) := by
  rw [runFrom_bind, runFrom_bind, hxy]
  rcases hy : runFrom s y with ⟨e | a, t⟩
  · rfl
  · exact hfg a t hy

end Congruence

namespace Walking

/-- Two parts of a walk do the same if all names have slots. -/
def StoredEq (x y : Walking Unit) : Prop :=
  ∀ w : Walk, w.Stored → runFrom w x = runFrom w y

section Parts

variable {α : Type} {setting : Setting} {id : Nat} {path : IterationPath} {ids : List Nat}
  {sure still steps : Prop} {w t : Walk} {x y : Walking Unit} {alarm : Interrupt}

theorem stored_of_progress {z : Walking α} {result : Except Interrupt α}
    (h : Respects (progress ids path steps still) z) (hw : w.Stored)
    (hrun : runFrom w z = (result, t)) : t.Stored := by
  rcases result with e | a
  · exact ((h w).stop hrun).1.stored hw
  · exact ((h w).done hrun).1.stored hw

theorem stored_of_leaf {z : Walking α} (h : Respects (leaf id path sure still) z) (hw : w.Stored)
    {result : Except Interrupt α} (hrun : runFrom w z = (result, t)) : t.Stored := by
  have hz : Respects (progress [id] path False still) z :=
    progress_of_leaf h (List.mem_singleton.2 rfl) fun h => h
  exact stored_of_progress hz hw hrun

theorem stored_of_silent {z : Walking α} (h : Respects (silent id path sure still) z)
    (hw : w.Stored) {result : Except Interrupt α} (hrun : runFrom w z = (result, t)) : t.Stored :=
  stored_of_leaf (leaf_of_silent h (fun h => h) fun h => h) hw hrun

/-- A check finds nothing if all names have slots in front of a part and behind it. -/
theorem runFrom_checked (hw : w.Stored) {result : Except Interrupt Unit}
    (hrun : runFrom w x = (result, t)) (ht : t.Stored) :
    runFrom w (checked alarm x) = (result, t) := by
  have hchecked : runFrom w (checked alarm x) =
      if w.Stored then
        (if (runFrom w x).2.Stored then (runFrom w x).1 else .error alarm, (runFrom w x).2)
      else (.error alarm, w) := rfl
  rw [hchecked, if_pos hw, hrun, if_pos ht]

/-- Checks around a part that keeps its names change nothing. -/
theorem storedEq_checked (h : Respects (progress ids path steps still) x) (hxy : StoredEq y x) :
    StoredEq (checked alarm y) x := by
  intro w hw
  rcases hrun : runFrom w x with ⟨result, t⟩
  exact runFrom_checked hw ((hxy w hw).trans hrun) (stored_of_progress h hw hrun)

theorem runFrom_inCopy_congr (h : runFrom w x = runFrom w y) :
    runFrom w (inCopy x) = runFrom w (inCopy y) :=
  runFrom_bind_congr rfl fun outer s hs => by
    obtain rfl : w = s := (Prod.mk.inj hs).2
    exact runFrom_bind_congr h fun _ _ _ => rfl

theorem runFrom_entering_congr {turn : Turn}
    (h : runFrom (entered w turn) x = runFrom (entered w turn) y) :
    runFrom w (entering turn x) = runFrom w (entering turn y) := by
  rcases hy : runFrom (entered w turn) y with ⟨e | ⟨⟩, t⟩
  · rw [runFrom_entering_error hy, runFrom_entering_error (h.trans hy)]
  · rw [runFrom_entering_ok hy, runFrom_entering_ok (h.trans hy)]

theorem runFrom_onPause_congr {record : Walk → Walk} (h : runFrom w x = runFrom w y) :
    runFrom w (onPause record x) = runFrom w (onPause record y) := by
  rw [runFrom_onPause, runFrom_onPause, h]

theorem runFrom_within_congr {there back : Walk → Walk}
    (h : runFrom (there w) x = runFrom (there w) y) :
    runFrom w (within there back x) = runFrom w (within there back y) := by
  rw [runFrom_within, runFrom_within, h]

theorem runFrom_inArguments_congr {flag : Bool}
    (h : runFrom { w with inArguments := flag } x = runFrom { w with inArguments := flag } y) :
    runFrom w (inArguments flag x) = runFrom w (inArguments flag y) := by
  rw [runFrom_inArguments, runFrom_inArguments, h]

theorem runFrom_captured_congr
    (h : runFrom { w with stray := "" } x = runFrom { w with stray := "" } y) :
    runFrom w (captured x) = runFrom w (captured y) := by
  rw [runFrom_captured, runFrom_captured, h]

theorem runFrom_visiting_congr (h : runFrom (w.enter id path) x = runFrom (w.enter id path) y) :
    runFrom w (visiting id path x) = runFrom w (visiting id path y) := by
  rcases hover : w.statuses.completed id path with _ | _
  · rw [runFrom_visiting hover, runFrom_visiting hover]
    exact runFrom_bind_congr (runFrom_onPause_congr h) fun _ _ _ => rfl
  · rw [runFrom_visiting_over hover, runFrom_visiting_over hover]

theorem stored_enter (hw : w.Stored) (id : Nat) (path : IterationPath) :
    (w.enter id path).Stored := by
  have h : Progress [id] path w (w.enter id path) ∧ Finish [id] False w (w.enter id path) :=
    progress_enter w (List.mem_singleton.2 rfl)
  exact h.1.stored hw

theorem stored_entered (hw : w.Stored) (turn : Turn) : (entered w turn).Stored :=
  ⟨hw.visible, hw.kept⟩

end Parts

/-! ### Blocks and elements -/

section Handlers

variable {setting : Setting} {info : NodeInfo} {id : Nat} {path : IterationPath} {ids : List Nat}
  {w : Walk} {attributes : List Attribute} {body body' otherwise otherwise' : Walking Unit}

theorem storedEq_ifBlock {condition : Expr} (hbody : StoredEq body body')
    (hotherwise : StoredEq otherwise otherwise') :
    StoredEq (ifBlock setting id path condition body otherwise)
      (ifBlock setting id path condition body' otherwise') := by
  intro w hw
  refine runFrom_bind_congr rfl fun taken s hs => ?_
  have hstored : s.Stored := stored_of_silent (silent_takesBranch setting id path condition) hw hs
  have hinside : (entered s ⟨id, path, .branch taken⟩).Stored := stored_entered hstored _
  refine runFrom_onPause_congr (runFrom_entering_congr ?_)
  cases taken with
  | true => exact runFrom_inCopy_congr (hbody _ hinside)
  | false => exact hotherwise _ hinside

section Loops

variable {header : ForHeader} {items : List Value} {inner inner' : IterationPath → Walking Unit}

theorem storedEq_iteration (hinner : ∀ path, StoredEq (inner path) (inner' path)) (i : Nat)
    (resumed : Option Value) (item : Value) :
    StoredEq (iteration setting id path header items inner i resumed item)
      (iteration setting id path header items inner' i resumed item) := by
  intro w hw
  have hset : Respects (silent id path False False) (setVariable header.item item) :=
    silent_setVariable header.item item
  refine runFrom_entering_congr (runFrom_inCopy_congr ?_)
  refine runFrom_bind_congr rfl fun _ s hs => ?_
  have hs' : s.Stored := stored_of_silent hset (stored_entered hw _) hs
  refine runFrom_bind_congr rfl fun v u hu => ?_
  have hu' : u.Stored := stored_of_silent (silent_setIndex setting id path header i resumed) hs' hu
  exact runFrom_onPause_congr (hinner _ u hu')

theorem storedEq_iterations (hid : id ∈ ids)
    (hkeeps : ∀ path, Respects (progress ids path True False) (inner' path))
    (hinner : ∀ path, StoredEq (inner path) (inner' path)) (i : Nat) (resumed : Option Value)
    (rest : List Value) :
    StoredEq (iterations setting id path header items inner i resumed rest)
      (iterations setting id path header items inner' i resumed rest) := by
  induction rest generalizing i resumed with
  | nil => exact fun _ _ => rfl
  | cons item rest ih =>
    intro w hw
    refine runFrom_bind_congr (storedEq_iteration hinner i resumed item w hw) fun _ s hs => ?_
    have hone : Respects (progress ids path True False)
        (iteration setting id path header items inner' i resumed item) :=
      progress_iteration hid (hkeeps _) resumed item
    exact ih (i + 1) none s (stored_of_progress hone hw hs)

theorem storedEq_forBlock (hid : info.id ∈ ids)
    (hkeeps : ∀ path, Respects (progress ids path True False) (inner' path))
    (hinner : ∀ path, StoredEq (inner path) (inner' path))
    (hotherwise : StoredEq otherwise otherwise') :
    StoredEq (forBlock setting info path header inner otherwise)
      (forBlock setting info path header inner' otherwise') := by
  intro w hw
  have hnames : Respects (silent info.id path False False) (checkNames info header) :=
    silent_checkNames info header
  refine runFrom_bind_congr rfl fun _ s hs => ?_
  have hs' : s.Stored := stored_of_silent hnames hw hs
  refine runFrom_bind_congr rfl fun loop u hu => ?_
  have hu' : u.Stored :=
    stored_of_silent (silent_takeItems setting info.id path header.iterable) hs' hu
  split
  · exact runFrom_entering_congr (hotherwise _ (stored_entered hu' _))
  · exact storedEq_iterations hid hkeeps hinner _ _ _ u hu'

end Loops

theorem storedEq_message {role : Option Role} (hbody : StoredEq body body') :
    StoredEq (message setting info path role attributes body)
      (message setting info path role attributes body') := by
  intro w hw
  -- what the body is compared in is reached through parts that keep stored pointers in bounds: the
  -- attributes are evaluated first, then the role is found, then the message before is closed
  refine runFrom_bind_congr rfl fun inMessage s hs => ?_
  obtain rfl : w = s := (Prod.mk.inj hs).2
  split
  · rfl
  · refine runFrom_bind_congr rfl fun values s hs => ?_
    have hs' : s.Stored :=
      stored_of_silent (Node.silent_values setting info.id path attributes) hw hs
    refine runFrom_bind_congr rfl fun role u hu => ?_
    have hrole : ∀ role, Respects (silent info.id path False False)
      (messageRole info role values) :=
      fun role => silent_messageRole info role values
    have hu' : u.Stored := stored_of_silent (hrole _) hs' hu
    dsimp only
    generalize (if role = Role.tool then textOf? values "id" else none) = toolId
    split
    · rfl
    · refine runFrom_bind_congr rfl fun _ v hv => ?_
      have hclose : Respects (leaf info.id path False False) (closeMessage setting) :=
        leaf_closeMessage setting
      have hv' : v.Stored := stored_of_leaf hclose hu' hv
      refine runFrom_bind_congr ?_ fun _ _ _ => rfl
      exact runFrom_within_congr (runFrom_inArguments_congr (hbody _ ⟨hv'.visible, hv'.kept⟩))

theorem storedEq_contentTag {kind : ContentKind} (hbody : StoredEq body body') :
    StoredEq (contentTag setting info path kind attributes body)
      (contentTag setting info path kind attributes body') := by
  intro w hw
  refine runFrom_bind_congr rfl fun inContent s hs => ?_
  obtain rfl : w = s := (Prod.mk.inj hs).2
  split
  · rfl
  · refine runFrom_bind_congr rfl fun values s hs => ?_
    have hs' : s.Stored :=
      stored_of_silent (Node.silent_values setting info.id path attributes) hw hs
    refine runFrom_bind_congr rfl fun _ v hv => ?_
    have hclose : Respects (leaf info.id path False False) closeText := leaf_closeText
    have hv' : v.Stored := stored_of_leaf hclose hs' hv
    refine runFrom_bind_congr ?_ fun _ _ _ => rfl
    exact runFrom_within_congr (runFrom_inArguments_congr (hbody _ ⟨hv'.visible, hv'.kept⟩))

theorem storedEq_toolCall (hbody : StoredEq body body') :
    StoredEq (toolCall setting info path attributes body)
      (toolCall setting info path attributes body') := by
  intro w hw
  refine runFrom_bind_congr rfl fun inContent s hs => ?_
  obtain rfl : w = s := (Prod.mk.inj hs).2
  split
  · rfl
  · refine runFrom_bind_congr rfl fun values s hs => ?_
    have hs' : s.Stored :=
      stored_of_silent (Node.silent_values setting info.id path attributes) hw hs
    split
    · rfl
    · rfl
    · refine runFrom_bind_congr ?_ fun _ _ _ => rfl
      exact runFrom_captured_congr (runFrom_inArguments_congr (hbody _ ⟨hs'.visible, hs'.kept⟩))

theorem storedEq_step (hbody : StoredEq body body') :
    StoredEq (step setting info path attributes body)
      (step setting info path attributes body') := by
  intro w hw
  refine runFrom_bind_congr rfl fun inStep s hs => ?_
  obtain rfl : w = s := (Prod.mk.inj hs).2
  split
  · rfl
  · refine runFrom_bind_congr rfl fun inMessage s hs => ?_
    obtain rfl : w = s := (Prod.mk.inj hs).2
    split
    · rfl
    -- neither the name nor the configuration of a step declares anything in a slot that is not
    -- there
    · have hname : Respects (silent info.id path False False) (stepName attributes) :=
        silent_stepName False.elim
      have hconfig : Respects (silent info.id path False False)
          (stepConfig setting info.id path attributes) :=
        silent_stepConfig setting info.id path False.elim False.elim
      refine runFrom_bind_congr rfl fun name s hs => ?_
      have hs' : s.Stored := stored_of_silent hname hw hs
      refine runFrom_bind_congr rfl fun config u hu => ?_
      have hu' : u.Stored := stored_of_silent hconfig hs' hu
      refine runFrom_bind_congr ?_ fun _ _ _ => rfl
      exact runFrom_within_congr (hbody _ ⟨hu'.visible, hu'.kept⟩)

theorem storedEq_element {name : String} (hbody : StoredEq body body') :
    StoredEq (element setting info path name attributes body)
      (element setting info path name attributes body') := by
  unfold element
  cases TagKind.ofName name with
  | message role => exact storedEq_message hbody
  | content kind => exact storedEq_contentTag hbody
  | toolCall => exact storedEq_toolCall hbody
  | reference => exact fun _ _ => rfl
  | step => exact storedEq_step hbody
  | unknown =>
    refine fun w hw => runFrom_bind_congr rfl fun _ s hs => ?_
    have hreport : Respects (leaf info.id path False False)
        (report (.unknownTag name) info.start info.stop) := leaf_report False.elim _ _
    exact hbody s (stored_of_leaf hreport hw hs)

end Handlers

end Walking

/-! ### Nodes -/

namespace Node

variable {setting : Setting} {alarm : Interrupt}

theorem storedEq_watchAll {ns : List Node} {path : IterationPath}
    (h : ∀ n ∈ ns, StoredEq (n.watch setting alarm path) (n.walk setting path)) :
    StoredEq (watchAll setting alarm ns path) (walkAll setting ns path) := by
  induction ns with
  | nil => exact fun _ _ => rfl
  | cons n rest ih =>
    intro w hw
    refine runFrom_bind_congr (h n List.mem_cons_self w hw) fun _ s hs => ?_
    exact ih (fun m hm => h m (List.mem_cons_of_mem _ hm)) s ((progress_of_walk hs).stored hw)

theorem storedEq_watchElse {o : Option Node} {path : IterationPath}
    (h : ∀ n ∈ o.toList, StoredEq (n.watch setting alarm path) (n.walk setting path)) :
    StoredEq (watchElse setting alarm o path) (walkElse setting o path) := by
  cases o with
  | none => exact fun _ _ => rfl
  | some n => exact h n (List.mem_singleton.2 rfl)

theorem respects_child {n m : Node} (hm : m ∈ n.childNodes) (path : IterationPath) :
    Respects (progress n.ids path True False) (m.walk setting path) :=
  fun w => progress_weaken (m.respects_walk path w)
    (fun _ hid => idsAll_childNodes_subset n (ids_subset_idsAll hm hid)) List.prefix_rfl
    (fun _ => trivial) False.elim

/-- What a node does when it is visited keeps the law of a walk inside of the node. -/
theorem respects_act (n : Node) (path : IterationPath) :
    Respects (progress n.ids path True False) (n.act setting path) := by
  -- the number of the node is its own, those of its parts are others
  have hid : n.id ∈ n.ids := n.id_mem_ids
  cases n with
  | fragment info children =>
    exact fun w => progress_inCopy (progress_walkAll (fun m hm => respects_child hm path) w)
  | config info value raw => exact Respects.pure _
  | comment info data => exact Respects.pure _
  | text info data => exact progress_leaf hid (leaf_write info.id path data)
  | mustache info e => exact progress_of_leaf (leaf_mustache setting info.id path e) hid False.elim
  | ifBlock info condition elseIf children otherwise =>
    exact progress_ifBlock hid False.elim
      (progress_walkAll fun m hm => respects_child (List.mem_append_left _ hm) path)
      (progress_walkElse fun m hm => respects_child (List.mem_append_right _ hm) path)
  | forBlock info header children otherwise =>
    exact progress_forBlock hid False.elim
      (fun inner => progress_walkAll fun m hm => respects_child (List.mem_append_left _ hm) inner)
      (progress_walkElse fun m hm => respects_child (List.mem_append_right _ hm) path)
  | element info name attributes children =>
    exact progress_element hid (fun _ => trivial) False.elim
      (progress_walkAll fun m hm => respects_child hm path)

/-- The visit of a node of which the parts were checked. -/
theorem storedEq_checkedVisit {n : Node} {path : IterationPath} {act : Walking Unit}
    (h : StoredEq act (n.act setting path)) :
    StoredEq (checkedVisit alarm n.id path act) (n.walk setting path) := by
  refine storedEq_checked (n.respects_walk path) fun w hw => ?_
  rw [walk_eq]
  exact runFrom_visiting_congr (storedEq_checked (n.respects_act path) h _
    (stored_enter hw n.id path))

/-- No alarm is sounded in the visit of a node, if all names have slots that are visible or kept
when it starts. -/
theorem storedEq_watch (n : Node) (path : IterationPath) :
    StoredEq (n.watch setting alarm path) (n.walk setting path) := by
  -- the induction is on the tree; a node that is checked is compared with one that is not, and a
  -- check never rings where everything that is stored is in bounds
  induction n using Node.induct generalizing path with
  | step n ih =>
    have inside : ∀ {ns : List Node} (path), (∀ m ∈ ns, m ∈ n.childNodes) →
        StoredEq (checked alarm (watchAll setting alarm ns path)) (walkAll setting ns path) :=
      fun path hns => storedEq_checked (progress_walkAll fun m hm => respects_child (hns m hm) path)
        (storedEq_watchAll fun m hm => ih m (hns m hm) path)
    have insideElse : ∀ {o : Option Node}, (∀ m ∈ o.toList, m ∈ n.childNodes) →
        StoredEq (checked alarm (watchElse setting alarm o path)) (walkElse setting o path) :=
      fun ho => storedEq_checked (progress_walkElse fun m hm => respects_child (ho m hm) path)
        (storedEq_watchElse fun m hm => ih m (ho m hm) path)
    cases n with
    | fragment info children =>
      exact storedEq_checkedVisit (n := .fragment info children) fun w hw =>
        runFrom_inCopy_congr (inside path (fun _ hm => hm) w hw)
    | config info value raw =>
      exact storedEq_checkedVisit (n := .config info value raw) fun _ _ => rfl
    | comment info data => exact storedEq_checkedVisit (n := .comment info data) fun _ _ => rfl
    | text info data => exact storedEq_checkedVisit (n := .text info data) fun _ _ => rfl
    | mustache info e => exact storedEq_checkedVisit (n := .mustache info e) fun _ _ => rfl
    | ifBlock info condition elseIf children otherwise =>
      exact storedEq_checkedVisit (n := .ifBlock info condition elseIf children otherwise)
        (storedEq_ifBlock (inside path fun _ hm => List.mem_append_left _ hm)
          (insideElse fun _ hm => List.mem_append_right _ hm))
    | forBlock info header children otherwise =>
      have hkeeps : ∀ inner, Respects
          (progress (forBlock info header children otherwise).ids inner True False)
          (walkAll setting children inner) :=
        fun inner => progress_walkAll fun m hm => respects_child (List.mem_append_left _ hm) inner
      exact storedEq_checkedVisit (n := .forBlock info header children otherwise)
        (storedEq_forBlock (id_mem_ids _) hkeeps
          (fun inner => inside inner fun _ hm => List.mem_append_left _ hm)
          (insideElse fun _ hm => List.mem_append_right _ hm))
    | element info name attributes children =>
      -- attributes are evaluated alike, the children are what may differ
      exact storedEq_checkedVisit (n := .element info name attributes children)
        (storedEq_element (inside path fun _ hm => hm))

end Node

/-- A walk over a template with checks. -/
def Template.watchRoot (t : Template) (setting : Setting) (alarm : Interrupt) : Walking Unit := do
  t.root.watch setting alarm []
  checked alarm (closeMessage setting)

theorem Template.storedEq_watchRoot (t : Template) (setting : Setting) (alarm : Interrupt) :
    StoredEq (t.watchRoot setting alarm) (t.visitRoot setting) := by
  intro w hw
  refine runFrom_bind_congr (Node.storedEq_watch t.root [] w hw) fun _ s hs => ?_
  have hs' : s.Stored := (Node.progress_of_walk hs).stored hw
  have hclose : Respects (leaf t.root.id [] False False) (closeMessage setting) :=
    leaf_closeMessage setting
  rcases hrun : runFrom s (closeMessage setting) with ⟨result, u⟩
  exact runFrom_checked hs' hrun (stored_of_leaf hclose hs' hrun)

/-! ### Names that are visible -/

/-- A name that is visible has a slot with a value, and a write to it goes there. -/
theorem Scope.Valid.write {s : Scope} (h : s.Valid) {name : String} (hsees : s.sees name = true) :
    ∃ slot v, s.pointers.get? name = some slot ∧ s.stash.slots[slot]? = some v ∧
    s.get? name = some v ∧
      ∀ new, (s.set name new).stash.slots[slot]? = some new ∧
      (s.set name new).get? name = some new := by
  obtain ⟨slot, hslot⟩ := Option.isSome_iff_exists.1 hsees
  have hlt : slot < s.stash.slots.size := h _ (Fields.mem_of_get? hslot)
  refine ⟨slot, s.stash.slots[slot], hslot, Array.getElem?_eq_getElem hlt, ?_, fun new => ⟨?_, ?_⟩⟩
  · rw [Scope.get?, hslot, Option.bind_some, Array.getElem?_eq_getElem hlt]
  · simp [Scope.set, hslot, hlt]
  · exact Scope.get?_set (fun i hi => h _ (Fields.mem_of_get? hi)) new

/-! ### Chains -/

namespace Chain

variable {setting : Setting} {text : String} {parameters : Fields Value} {chain : Chain}

/-- A walk of a chain with checks. -/
def watched (chain : Chain) (alarm : Interrupt) (responses : List String) :
    Except Interrupt Unit × Walk :=
  runFrom (chain.opening responses) (chain.template.watchRoot chain.setting alarm)

/-- A call keeps the names of a chain stored, whether its walk pauses or comes to the end. -/
theorem stored_call (chain : Chain) (response : Option String)
    (h : ∀ responses, (chain.opening responses).Stored) :
    ∀ responses, ((chain.call response).opening responses).Stored := by
  intro responses
  rcases call_cases chain response with ⟨outcome, -, hwalk, hcall⟩ | hcall
  · rw [hcall]
    have hends := walk_eq_ok.1 hwalk
    have hprogress : Progress chain.template.root.ids [] (chain.opening response.toList)
      (chain.visit response.toList).2 := Template.progress_visitRoot _
    have hstart : (chain.opening response.toList).Stored := h _
    rcases hvisit : chain.visit response.toList with ⟨r, t⟩
    rw [hvisit] at hends hprogress
    -- the names of the chain are those of its parameters, and what is kept is kept by the walk
    have hnext : (Walk.start t.statuses ⟨t.scope.stash, chain.pointers⟩ responses).Stored :=
      ⟨hstart.visible.mono hprogress.slots, (hprogress.stored hstart).kept⟩
    cases hends with
    | completed hclean => exact hnext
    | paused hclean => exact hnext
  · rw [hcall]
    exact h responses

/-- Whatever calls have been made, successful or not: the names of the parameters and all names that
are kept for visits that paused have slots in the stash of the chain; the next walk is the same with
checks, so that all its names have slots at each of them; and where a walk stands at such a check,
or enters a visit there, every name that is visible has a value and is written in its slot. -/
theorem bindings_valid [ConfigReader] (hstart : Chain.start setting text parameters = .ok chain)
    (responses : List (Option String)) :
    let later := chain.calls responses
    (later.pointers.Below later.stash.slots.size ∧
      ∀ id point, (later.statuses.ofNode id).paused = some point →
        point.pointers.Below later.stash.slots.size) ∧
    (∀ alarm response, later.watched alarm response = later.visit response) ∧
    ∀ w : Walk, w.Stored → ∀ id path, ∀ s ∈ [w.scope, (w.enter id path).scope], ∀ name,
      s.sees name = true → ∃ slot v, s.pointers.get? name = some slot ∧
        s.stash.slots[slot]? = some v ∧ s.get? name = some v ∧
        ∀ new, (s.set name new).stash.slots[slot]? = some new ∧
          (s.set name new).get? name = some new := by
  intro later
  -- what a call leaves is in bounds, so that the next call starts so
  have hstored : ∀ rs, (later.opening rs).Stored :=
    calls_invariant (P := fun c => ∀ rs, (c.opening rs).Stored) stored_call
      (steady_start hstart).stored responses
  refine ⟨⟨(hstored []).visible, (hstored []).kept⟩, fun alarm response => ?_, ?_⟩
  · exact Template.storedEq_watchRoot _ _ _ _ (hstored response)
  · intro w hw id path s hs name hsees
    have hvalid : s.Valid := by
      rcases List.mem_cons.1 hs with rfl | hs
      · exact hw.visible
      · exact List.mem_singleton.1 hs ▸ (stored_enter hw id path).visible
    exact hvalid.write hsees

/-- A variable is written in front of a step, and inside of it. -/
def writesAroundStep : String :=
  braced "x = 1" ++ "<step>" ++ braced "y = x" ++ "</step>" ++ braced "x = 2"

/-- While the chain has paused the step keeps a name, and its slot is in the stash. -/
theorem bindings_valid_writesAroundStep :
    ∃ chain, Chain.start plainSetting writesAroundStep [] = .ok chain ∧
      ((chain.calls [none]).statuses.nodes.toList.any fun status =>
        status.paused.any fun point => !point.pointers.isEmpty) = true ∧
      (∀ id point, ((chain.calls [none]).statuses.ofNode id).paused = some point →
        point.pointers.Below (chain.calls [none]).stash.slots.size) ∧
      ∀ alarm, (chain.calls [none]).watched alarm ["r"] = (chain.calls [none]).visit ["r"] := by
  have hcheck : ((Chain.start plainSetting writesAroundStep []).toOption.any fun chain =>
      (chain.calls [none]).statuses.nodes.toList.any fun status =>
        status.paused.any fun point => !point.pointers.isEmpty) = true := by
    decide +kernel
  obtain ⟨chain, hstart, hpaused⟩ := exists_ok_of_any hcheck
  obtain ⟨⟨-, hkept⟩, hwatched, -⟩ := bindings_valid hstart [none]
  exact ⟨chain, hstart, hpaused, hkept, fun alarm => hwatched alarm ["r"]⟩

end Chain

end PromptMarkup

/-
How the parts of a walk run.

* `Statuses.ofNode_modifyNode` — what is known about a node after the status of a node was changed;
* `Walk.closed`, `runFrom_closeMessage` — making a message of what is pending never stops, and what
  it does is a function of the state;
* `runFrom_visiting` — a visit is over already, or runs from the state it enters with and records
  how it ended.

Design notes: the equations of this module are all that later modules know about `onPause`,
`within`, `captured` and `visiting`.
-/
import PromptMarkup.Conversation.Walk

namespace PromptMarkup

open PromptMarkup.Computation

/-! ### Statuses -/

namespace Statuses

variable (s : Statuses) (id : Nat)

@[simp] theorem size_modifyNode (f : NodeStatus → NodeStatus) :
    (s.modifyNode id f).nodes.size = s.nodes.size := by
  simp [modifyNode]

theorem ofNode_modifyNode (f : NodeStatus → NodeStatus) (h : id < s.nodes.size) :
    (s.modifyNode id f).ofNode id = f (s.ofNode id) := by
  simp [modifyNode, ofNode, h]

theorem ofNode_modifyNode_of_ne (f : NodeStatus → NodeStatus) {other : Nat} (h : other ≠ id) :
    (s.modifyNode id f).ofNode other = s.ofNode other := by
  simp only [modifyNode, ofNode]
  rw [Array.getElem?_setIfInBounds_ne (Ne.symm h)]

/-- There is no status to change for a number that no node has. -/
theorem modifyNode_of_le (f : NodeStatus → NodeStatus) (h : s.nodes.size ≤ id) :
    s.modifyNode id f = s := by
  simp [modifyNode, Array.setIfInBounds_eq_of_size_le h]

theorem ofNode_of_le (h : s.nodes.size ≤ id) : s.ofNode id = NodeStatus.fresh := by
  simp [ofNode, h]

theorem ofNode_fresh (nodeCount id : Nat) : (fresh nodeCount).ofNode id = NodeStatus.fresh := by
  simp only [fresh, ofNode, Array.getElem?_replicate]
  split <;> rfl

theorem ofNode_modifyNode_eq (f : NodeStatus → NodeStatus) (other : Nat) :
    (s.modifyNode id f).ofNode other = s.ofNode other ∨
      (s.modifyNode id f).ofNode other = f (s.ofNode id) := by
  by_cases h : other = id
  · subst h
    by_cases hlt : other < s.nodes.size
    · exact .inr (ofNode_modifyNode s other f hlt)
    · exact .inl (by rw [modifyNode_of_le s other f (Nat.le_of_not_lt hlt)])
  · exact .inl (ofNode_modifyNode_of_ne s id f h)

@[simp] theorem size_complete (path : IterationPath) :
    (s.complete id path).nodes.size = s.nodes.size :=
  size_modifyNode s id _

@[simp] theorem size_pause (path : IterationPath) (pointers : Pointers) :
    (s.pause id path pointers).nodes.size = s.nodes.size :=
  size_modifyNode s id _

@[simp] theorem size_decide (d : Decision) : (s.decide id d).nodes.size = s.nodes.size :=
  size_modifyNode s id _

variable {s id}

theorem ofNode_complete (path : IterationPath) (h : id < s.nodes.size) :
    (s.complete id path).ofNode id = ⟨some path, none, .none⟩ :=
  ofNode_modifyNode s id _ h

theorem ofNode_pause (path : IterationPath) (pointers : Pointers) (h : id < s.nodes.size) :
    (s.pause id path pointers).ofNode id =
      { s.ofNode id with paused := some ⟨path, pointers⟩ } :=
  ofNode_modifyNode s id _ h

theorem ofNode_decide (d : Decision) (h : id < s.nodes.size) :
    (s.decide id d).ofNode id = { s.ofNode id with decision := d } :=
  ofNode_modifyNode s id _ h

theorem ofNode_complete_of_ne (path : IterationPath) {other : Nat} (h : other ≠ id) :
    (s.complete id path).ofNode other = s.ofNode other :=
  ofNode_modifyNode_of_ne s id _ h

theorem ofNode_pause_of_ne (path : IterationPath) (pointers : Pointers) {other : Nat}
    (h : other ≠ id) : (s.pause id path pointers).ofNode other = s.ofNode other :=
  ofNode_modifyNode_of_ne s id _ h

theorem ofNode_decide_of_ne (d : Decision) {other : Nat} (h : other ≠ id) :
    (s.decide id d).ofNode other = s.ofNode other :=
  ofNode_modifyNode_of_ne s id _ h

theorem ofNode_of_decides {t : Statuses} (h : t = s ∨ ∃ d, t = s.decide id d) {other : Nat}
    (hother : other ≠ id) : t.ofNode other = s.ofNode other := by
  rcases h with rfl | ⟨d, rfl⟩
  · rfl
  · exact ofNode_decide_of_ne d hother

/-- A decision changes nothing else. -/
theorem apply_decide {α : Type} {part : NodeStatus → α} (d : Decision)
    (hpart : ∀ status : NodeStatus, part { status with decision := d } = part status)
    (other : Nat) : part ((s.decide id d).ofNode other) = part (s.ofNode other) := by
  by_cases h : other = id
  · subst h
    by_cases hlt : other < s.nodes.size
    · rw [ofNode_decide d hlt, hpart]
    · rw [decide, modifyNode_of_le s other _ (Nat.le_of_not_lt hlt)]
  · rw [ofNode_decide_of_ne d h]

theorem completedAt_of_decides {t : Statuses} (h : t = s ∨ ∃ d, t = s.decide id d) (other : Nat) :
    (t.ofNode other).completedAt = (s.ofNode other).completedAt := by
  rcases h with rfl | ⟨d, rfl⟩
  · rfl
  · exact apply_decide d (fun _ => rfl) other

@[simp] theorem paused_decide (d : Decision) (other : Nat) :
    ((s.decide id d).ofNode other).paused = (s.ofNode other).paused :=
  apply_decide d (fun _ => rfl) other

theorem eq_of_pausedAt? {path : IterationPath} {pointers : Pointers}
    (h : s.pausedAt? id path = some pointers) :
    (s.ofNode id).paused = some ⟨path, pointers⟩ := by
  unfold pausedAt? at h
  split at h
  · next point hpoint =>
    split at h
    · next hpath =>
      obtain rfl : point.pointers = pointers := by simpa using h
      obtain rfl : point.path = path := by simpa using hpath
      exact hpoint
    · exact nomatch h
  · exact nomatch h

end Statuses

/-! ### Messages -/

/-- The problem of a tool call in a message that may not have any. -/
def misplacedCall (role : Role) (p : PendingCall) : Problem :=
  ⟨.misplacedToolCall role, p.start, p.stop, none, none⟩

/-- The problems of the tool calls of a message. -/
def misplacedCalls (role : Role) (pending : List PendingCall) : List Problem :=
  if role = .assistant then [] else pending.map (misplacedCall role)

/-- The tool calls of a message. -/
def placedCalls (role : Role) (pending : List PendingCall) : List ToolCall :=
  if role = .assistant then pending.map PendingCall.call else []

namespace Walk

/-- A state whose pending text has become content. -/
def closedText (w : Walk) : Walk :=
  { w with stray := "", content := w.content ++ Walking.contentOf w.stray }

/-- A state in which nothing is pending. -/
def cleared (w : Walk) : Walk :=
  { w with stray := "", content := [], toolCalls := [] }

/-- A state in which what was pending outside of all messages has become a message. -/
def closed (setting : Setting) (w : Walk) : Walk :=
  let content := w.closedText.content
  if content.isEmpty && w.toolCalls.isEmpty then w.cleared
  else
    let role := setting.defaultRole
    { w.cleared with
      messages := w.messages ++ [{ role, content, toolCalls := placedCalls role w.toolCalls }]
      problems := w.problems ++ misplacedCalls role w.toolCalls }

/-- Nothing is pending. -/
structure Settled (w : Walk) : Prop where
  stray : w.stray = ""
  content : w.content = []
  toolCalls : w.toolCalls = []

end Walk

theorem Walking.contentOf_empty : Walking.contentOf "" = [] := by
  decide

theorem Walk.Settled.closedText {w : Walk} (h : w.Settled) : w.closedText = w := by
  unfold Walk.closedText
  rw [h.stray, h.content, Walking.contentOf_empty, ← h.stray, List.append_nil, ← h.content]

theorem Walk.Settled.closed {w : Walk} (h : w.Settled) (setting : Setting) :
    w.closed setting = w := by
  have hcleared : w.cleared = w := by
    unfold Walk.cleared
    rw [← h.stray, ← h.content, ← h.toolCalls]
  unfold Walk.closed
  rw [h.closedText, h.content, h.toolCalls, hcleared]
  rfl

theorem Walk.settled_closed (setting : Setting) (w : Walk) : (w.closed setting).Settled := by
  unfold Walk.closed
  dsimp only
  split
  · exact ⟨rfl, rfl, rfl⟩
  · exact ⟨rfl, rfl, rfl⟩

/-- Making a message leaves the statuses and the scope alone. -/
theorem Walk.closed_eq (setting : Setting) (w : Walk) : w.closed setting = { w with
    stray := "", content := [], toolCalls := []
    messages := (w.closed setting).messages, problems := (w.closed setting).problems } := by
  unfold Walk.closed
  dsimp only
  split
  · rfl
  · rfl

theorem Walk.problems_closed (setting : Setting) (w : Walk) :
    (w.closed setting).problems =
      if w.closedText.content.isEmpty && w.toolCalls.isEmpty then w.problems
      else w.problems ++ misplacedCalls setting.defaultRole w.toolCalls := by
  unfold Walk.closed
  dsimp only
  split
  · rfl
  · rfl

theorem Walk.prefix_closed (setting : Setting) (w : Walk) :
    w.problems <+: (w.closed setting).problems := by
  rw [Walk.problems_closed]
  split
  · exact List.prefix_rfl
  · exact List.prefix_append _ _

theorem Walk.statuses_closed (setting : Setting) (w : Walk) :
    (w.closed setting).statuses = w.statuses := by
  rw [Walk.closed_eq]

namespace Walking

variable {α : Type} (w : Walk)

@[simp] theorem runFrom_report (fault : Fault) (start stop : Nat) :
    runFrom w (report fault start stop) =
      (.ok (), { w with problems := w.problems ++ [⟨fault, start, stop, none, none⟩] }) :=
  rfl

@[simp] theorem runFrom_note (event : Event) :
    runFrom w (note event) = (.ok (), { w with journal := event :: w.journal }) :=
  rfl

/-- The state after an expression of a node was evaluated in a scope, which it left as `scope`. -/
def evaluatedIn (id : Nat) (path : IterationPath) (e : Expr) (scope : Scope) : Walk :=
  { w with
    scope := scope
    journal := .evaluated id path e.span w.scope.pointers.keys :: w.journal }

theorem runFrom_evaluate (setting : Setting) (id : Nat) (path : IterationPath) (e : Expr) :
    runFrom w (evaluate setting id path e) =
      match runFrom w.scope (e.evaluate setting.host) with
      | (.ok v, scope) => (.ok v, evaluatedIn w id path e scope)
      | (.error p, scope) => (.error (.failed p), evaluatedIn w id path e scope) := by
  simp only [evaluate, runFrom_bind, runFrom_look, runFrom_note, runFrom_modify,
    Evaluation.runIn]
  rcases runFrom w.scope (e.evaluate setting.host) with ⟨p | v, scope⟩
  · rfl
  · rfl

@[simp] theorem runFrom_closeText : runFrom w closeText = (.ok (), w.closedText) :=
  rfl

@[simp] theorem runFrom_takeContent :
    runFrom w takeContent = (.ok (w.closedText.content, w.toolCalls), w.cleared) :=
  rfl

theorem runFrom_reportMisplaced (role : Role) (pending : List PendingCall) :
    runFrom w (reportMisplaced role pending) =
      (.ok (), { w with problems := w.problems ++ pending.map (misplacedCall role) }) := by
  induction pending generalizing w with
  | nil => simp [reportMisplaced]
  | cons p rest ih => simp [reportMisplaced, runFrom_bind, ih, misplacedCall]

@[simp] theorem runFrom_placeToolCalls (role : Role) (pending : List PendingCall) :
    runFrom w (placeToolCalls role pending) =
      (.ok (placedCalls role pending),
        { w with problems := w.problems ++ misplacedCalls role pending }) := by
  unfold placeToolCalls placedCalls misplacedCalls
  split
  · simp
  · rw [runFrom_bind_ok (runFrom_reportMisplaced w role pending)]
    rfl

@[simp] theorem runFrom_closeMessage (setting : Setting) :
    runFrom w (closeMessage setting) = (.ok (), w.closed setting) := by
  unfold closeMessage Walk.closed
  rw [runFrom_bind_ok (runFrom_takeContent w)]
  dsimp only
  split
  · rfl
  · simp only [runFrom_bind_ok (runFrom_placeToolCalls _ _ _)]
    rfl

/-! ### Parts of a walk -/

theorem runFrom_within (there back : Walk → Walk) (act : Walking Unit) :
    runFrom w (within there back act) =
      ((runFrom (there w) act).1, back (runFrom (there w) act).2) :=
  rfl

section OnPause

variable {w t : Walk} {record : Walk → Walk} {act : Walking Unit}

theorem runFrom_onPause (w : Walk) (record : Walk → Walk) (act : Walking Unit) :
    runFrom w (onPause record act) =
      match runFrom w act with
      | (.error (.paused config), t) => (.error (.paused config), record t)
      | ended => ended := by
  unfold runFrom onPause
  simp only [ExceptT.run_mk, StateT.run_bind]
  rcases StateT.run (ExceptT.run act) w with ⟨(config | p) | a, t⟩
  · rfl
  · rfl
  · rfl

theorem runFrom_onPause_ok (h : runFrom w act = (.ok (), t)) :
    runFrom w (onPause record act) = (.ok (), t) := by
  rw [runFrom_onPause, h]

theorem runFrom_onPause_paused {config : Fields Json}
    (h : runFrom w act = (.error (.paused config), t)) :
    runFrom w (onPause record act) = (.error (.paused config), record t) := by
  rw [runFrom_onPause, h]

theorem runFrom_onPause_failed {p : Problem} (h : runFrom w act = (.error (.failed p), t)) :
    runFrom w (onPause record act) = (.error (.failed p), t) := by
  rw [runFrom_onPause, h]

theorem ok_of_onPause (h : runFrom w (onPause record act) = (.ok (), t)) : runFrom w act =
    (.ok (), t) := by
  rcases hact : runFrom w act with ⟨(config | p) | ⟨⟩, s⟩
  · exact nomatch (runFrom_onPause_paused hact).symm.trans h
  · exact nomatch (runFrom_onPause_failed hact).symm.trans h
  · exact (runFrom_onPause_ok hact).symm.trans h

end OnPause

section Captured

variable {w t : Walk} {act : Walking Unit}

theorem runFrom_captured (w : Walk) (act : Walking Unit) :
    runFrom w (captured act) =
      ((runFrom { w with stray := "" } act).1.map fun _ =>
          (runFrom { w with stray := "" } act).2.stray,
        { (runFrom { w with stray := "" } act).2 with stray := w.stray }) :=
  rfl

theorem runFrom_captured_ok (h : runFrom { w with stray := "" } act = (.ok (), t)) :
    runFrom w (captured act) = (.ok t.stray, { t with stray := w.stray }) := by
  rw [runFrom_captured, h]
  rfl

theorem runFrom_captured_error {e : Interrupt}
    (h : runFrom { w with stray := "" } act = (.error e, t)) :
    runFrom w (captured act) = (.error e, { t with stray := w.stray }) := by
  rw [runFrom_captured, h]
  rfl

end Captured

theorem runFrom_inArguments (flag : Bool) (act : Walking Unit) :
    runFrom w (inArguments flag act) =
      ((runFrom { w with inArguments := flag } act).1,
        { (runFrom { w with inArguments := flag } act).2 with inArguments := w.inArguments }) :=
  rfl

section InCopy

variable {w t : Walk} {act : Walking Unit}

theorem runFrom_inCopy_ok (h : runFrom w act = (.ok (), t)) :
    runFrom w (inCopy act) = (.ok (), { t with scope.pointers := w.scope.pointers }) := by
  unfold inCopy
  rw [runFrom_bind_ok (runFrom_look w _), runFrom_bind_ok h]
  rfl

theorem runFrom_inCopy_error {e : Interrupt} (h : runFrom w act = (.error e, t)) :
    runFrom w (inCopy act) = (.error e, t) := by
  unfold inCopy
  rw [runFrom_bind_ok (runFrom_look w _), runFrom_bind_error h]

theorem ok_of_inCopy (h : runFrom w (inCopy act) = (.ok (), t)) :
    ∃ s, runFrom w act = (.ok (), s) ∧ t = { s with scope.pointers := w.scope.pointers } := by
  rcases hact : runFrom w act with ⟨e | ⟨⟩, s⟩
  · exact nomatch (runFrom_inCopy_error hact).symm.trans h
  · exact ⟨s, rfl, (Prod.mk.inj (h.symm.trans (runFrom_inCopy_ok hact))).2⟩

end InCopy

section Entering

variable {w t : Walk} {turn : Turn} {act : Walking Unit}

/-- The state in which what stands in a part of a block is visited. -/
def entered (w : Walk) (turn : Turn) : Walk :=
  { w with journal := .entered turn :: w.journal, turns := w.turns ++ [turn] }

theorem runFrom_entering_ok (h : runFrom (entered w turn) act = (.ok (), t)) :
    runFrom w (entering turn act) = (.ok (), { t with turns := w.turns }) := by
  unfold entering
  rw [runFrom_bind_ok (runFrom_note w _), runFrom_bind_ok (runFrom_look _ _),
    runFrom_bind_ok (runFrom_modify _ _)]
  exact runFrom_bind_ok h _

theorem runFrom_entering_error {e : Interrupt}
    (h : runFrom (entered w turn) act = (.error e, t)) :
    runFrom w (entering turn act) = (.error e, t) := by
  unfold entering
  rw [runFrom_bind_ok (runFrom_note w _), runFrom_bind_ok (runFrom_look _ _),
    runFrom_bind_ok (runFrom_modify _ _)]
  exact runFrom_bind_error h _

theorem ok_of_entering (h : runFrom w (entering turn act) = (.ok (), t)) :
    ∃ s, runFrom (entered w turn) act = (.ok (), s) ∧ t = { s with turns := w.turns } := by
  rcases hact : runFrom (entered w turn) act with ⟨e | ⟨⟩, s⟩
  · exact nomatch (runFrom_entering_error hact).symm.trans h
  · exact ⟨s, rfl, (Prod.mk.inj (h.symm.trans (runFrom_entering_ok hact))).2⟩

end Entering

section Visiting

variable {w t : Walk} {id : Nat} {path : IterationPath} {act : Walking Unit}

/-- A visit that is over is skipped. -/
theorem runFrom_visiting_over (h : w.statuses.completed id path = true) :
    runFrom w (visiting id path act) = (.ok (), w) := by
  unfold visiting
  rw [runFrom_bind_ok (runFrom_look w _), if_pos h]
  rfl

theorem runFrom_visiting (h : w.statuses.completed id path = false) :
    runFrom w (visiting id path act) =
      runFrom (w.enter id path) (do
        onPause (fun t => { t with
          statuses := t.statuses.pause id path (w.enter id path).scope.pointers }) act
        modify fun t => { t with statuses := t.statuses.complete id path }) := by
  unfold visiting
  rw [runFrom_bind_ok (runFrom_look w _), if_neg (by simp [h]),
    runFrom_bind_ok (runFrom_modify _ _), runFrom_bind_ok (runFrom_look _ _)]

theorem runFrom_visiting_ok (h : w.statuses.completed id path = false)
    (hact : runFrom (w.enter id path) act = (.ok (), t)) :
    runFrom w (visiting id path act) =
      (.ok (), { t with statuses := t.statuses.complete id path }) := by
  rw [runFrom_visiting h, runFrom_bind_ok (runFrom_onPause_ok hact)]
  rfl

theorem runFrom_visiting_paused (h : w.statuses.completed id path = false) {config : Fields Json}
    (hact : runFrom (w.enter id path) act = (.error (.paused config), t)) :
    runFrom w (visiting id path act) = (.error (.paused config), { t with
      statuses := t.statuses.pause id path (w.enter id path).scope.pointers }) := by
  rw [runFrom_visiting h, runFrom_bind_error (runFrom_onPause_paused hact)]

theorem runFrom_visiting_failed (h : w.statuses.completed id path = false) {p : Problem}
    (hact : runFrom (w.enter id path) act = (.error (.failed p), t)) :
    runFrom w (visiting id path act) = (.error (.failed p), t) := by
  rw [runFrom_visiting h, runFrom_bind_error (runFrom_onPause_failed hact)]

/-- A visit that came to its end was over before, or did what the node does. -/
theorem ok_of_visiting (h : runFrom w (visiting id path act) = (.ok (), t)) :
    (w.statuses.completed id path = true ∧ t = w) ∨
      (w.statuses.completed id path = false ∧ ∃ s, runFrom (w.enter id path) act = (.ok (), s) ∧
        t = { s with statuses := s.statuses.complete id path }) := by
  rcases hover : w.statuses.completed id path with _ | _
  · refine .inr ⟨rfl, ?_⟩
    rcases hact : runFrom (w.enter id path) act with ⟨(config | p) | ⟨⟩, s⟩
    · exact nomatch (runFrom_visiting_paused hover hact).symm.trans h
    · exact nomatch (runFrom_visiting_failed hover hact).symm.trans h
    · exact ⟨s, rfl, (Prod.mk.inj (h.symm.trans (runFrom_visiting_ok hover hact))).2⟩
  · exact .inl ⟨rfl, (Prod.mk.inj (h.symm.trans (runFrom_visiting_over hover))).2⟩

end Visiting

end Walking

end PromptMarkup

/-
Where a walk pauses.

* `Node.walk_eq` — the visit of a node is `visiting` around what the node does, `Node.act`;
* `Node.completed_of_walk`, `Node.walkAll_over` — a visit that came to its end is over, and visits
  that are over are skipped;
* `Node.PausesAmong` — a walk over several nodes came to the end of some, and paused in the next
  one;
* `Node.Pauses` — the ways in which what a node does pauses: a step waits for its response, and
  every other node pauses in a node inside of it;
* `Node.pauses_of_walk` — there are no other ways.

Design notes: a pause is told from the outside to the inside, with the states at which the nodes
inside are visited, so that what is proved about a pause is proved by induction over the tree.
-/
import PromptMarkup.Proofs.Footprint

namespace PromptMarkup

open PromptMarkup.Computation Walking

/-! ### What cannot pause -/

namespace Walking

variable {α : Type} {id : Nat} {path : IterationPath} {sure still : Prop} {w t : Walk}
  {config : Fields Json}

theorem not_paused_of_leaf {x : Walking α} (h : Respects (leaf id path sure still) x)
    (hrun : runFrom w x = (.error (.paused config), t)) : False := by
  obtain ⟨-, p, hp, -⟩ := (h w).stop hrun
  exact nomatch hp

theorem not_paused_of_silent {x : Walking α} (h : Respects (silent id path sure still) x)
    (hrun : runFrom w x = (.error (.paused config), t)) : False := by
  obtain ⟨-, p, hp, -⟩ := (h w).stop hrun
  exact nomatch hp

/-- What pauses behind an evaluation. -/
theorem paused_of_silent_bind {β : Type} {x : Walking α} {f : α → Walking β}
    (h : Respects (silent id path sure still) x)
    (hrun : runFrom w (x >>= f) = (.error (.paused config), t)) :
    ∃ a s, runFrom w x = (.ok a, s) ∧ Silent id path w s ∧
      runFrom s (f a) = (.error (.paused config), t) := by
  rcases runFrom_bind_eq_error hrun with hx | ⟨a, s, hx, hf⟩
  · exact (not_paused_of_silent h hx).elim
  · exact ⟨a, s, hx, ((h w).done hx).1, hf⟩

/-- What pauses behind a leaf. -/
theorem paused_of_leaf_bind {β : Type} {x : Walking α} {f : α → Walking β}
    (h : Respects (leaf id path sure still) x)
    (hrun : runFrom w (x >>= f) = (.error (.paused config), t)) :
    ∃ a s, runFrom w x = (.ok a, s) ∧ runFrom s (f a) = (.error (.paused config), t) := by
  rcases runFrom_bind_eq_error hrun with hx | ⟨a, s, hx, hf⟩
  · exact (not_paused_of_leaf h hx).elim
  · exact ⟨a, s, hx, hf⟩

/-- What pauses in front of a leaf. -/
theorem paused_of_bind_leaf {β : Type} {x : Walking α} {f : α → Walking β}
    (hf : ∀ a, Respects (leaf id path sure still) (f a))
    (hrun : runFrom w (x >>= f) = (.error (.paused config), t)) :
    runFrom w x = (.error (.paused config), t) := by
  rcases runFrom_bind_eq_error hrun with hx | ⟨a, s, hx, hrest⟩
  · exact hx
  · exact (not_paused_of_leaf (hf a) hrest).elim

/-! ### Parts that pause -/

theorem paused_of_inCopy {act : Walking Unit}
    (h : runFrom w (inCopy act) = (.error (.paused config), t)) :
    runFrom w act = (.error (.paused config), t) := by
  rcases hact : runFrom w act with ⟨e | ⟨⟩, s⟩
  · rw [runFrom_inCopy_error hact] at h
    exact h
  · rw [runFrom_inCopy_ok hact] at h
    exact nomatch h

theorem paused_of_entering {turn : Turn} {act : Walking Unit}
    (h : runFrom w (entering turn act) = (.error (.paused config), t)) :
    runFrom (entered w turn) act = (.error (.paused config), t) := by
  rcases hact : runFrom (entered w turn) act with ⟨e | ⟨⟩, s⟩
  · rw [runFrom_entering_error hact] at h
    exact h
  · rw [runFrom_entering_ok hact] at h
    exact nomatch h

theorem paused_of_onPause {record : Walk → Walk} {act : Walking Unit}
    (h : runFrom w (onPause record act) = (.error (.paused config), t)) :
    ∃ s, runFrom w act = (.error (.paused config), s) ∧ t = record s := by
  rcases hact : runFrom w act with ⟨(config' | p) | ⟨⟩, s⟩
  · rw [runFrom_onPause_paused hact] at h
    obtain ⟨rfl, rfl⟩ : config' = config ∧ record s = t := by simpa using h
    exact ⟨s, rfl, rfl⟩
  · rw [runFrom_onPause_failed hact] at h
    exact nomatch h
  · rw [runFrom_onPause_ok hact] at h
    exact nomatch h

theorem paused_of_within {there back : Walk → Walk} {act : Walking Unit}
    (h : runFrom w (within there back act) = (.error (.paused config), t)) :
    ∃ s, runFrom (there w) act = (.error (.paused config), s) ∧ t = back s := by
  rw [runFrom_within] at h
  rcases hact : runFrom (there w) act with ⟨e, s⟩
  rw [hact] at h
  obtain ⟨rfl, rfl⟩ : e = .error (.paused config) ∧ back s = t := by simpa using h
  exact ⟨s, rfl, rfl⟩

theorem paused_of_inArguments {flag : Bool} {act : Walking Unit}
    (h : runFrom w (inArguments flag act) = (.error (.paused config), t)) :
    ∃ s, runFrom { w with inArguments := flag } act = (.error (.paused config), s) ∧
      t = { s with inArguments := w.inArguments } := by
  unfold inArguments at h
  rw [runFrom_bind_ok (runFrom_look w _)] at h
  exact paused_of_within h

theorem paused_of_captured {act : Walking Unit}
    (h : runFrom w (captured act) = (.error (.paused config), t)) :
    ∃ s, runFrom { w with stray := "" } act = (.error (.paused config), s) ∧
      t = { s with stray := w.stray } := by
  rcases hact : runFrom { w with stray := "" } act with ⟨e | ⟨⟩, s⟩
  · rw [runFrom_captured_error hact] at h
    obtain ⟨rfl, rfl⟩ : e = .paused config ∧ _ = t := by simpa using h
    exact ⟨s, hact, rfl⟩
  · rw [runFrom_captured_ok hact] at h
    exact nomatch h

theorem paused_of_visiting {act : Walking Unit}
    (h : runFrom w (visiting id path act) = (.error (.paused config), t)) :
    w.statuses.completed id path = false ∧
      ∃ s, runFrom (w.enter id path) act = (.error (.paused config), s) ∧
        t = { s with statuses := s.statuses.pause id path (w.enter id path).scope.pointers } := by
  rcases hover : w.statuses.completed id path with _ | _
  · refine ⟨rfl, ?_⟩
    rcases hact : runFrom (w.enter id path) act with ⟨(config' | p) | ⟨⟩, s⟩
    · rw [runFrom_visiting_paused hover hact] at h
      obtain ⟨rfl, rfl⟩ : config' = config ∧ _ = t := by simpa using h
      exact ⟨s, rfl, rfl⟩
    · rw [runFrom_visiting_failed hover hact] at h
      exact nomatch h
    · rw [runFrom_visiting_ok hover hact] at h
      exact nomatch h
  · rw [runFrom_visiting_over hover] at h
    exact nomatch h

/-! ### Loops -/

/-- The names of the loop variables are free. -/
structure FreeIn (header : ForHeader) (scope : Scope) : Prop where
  item : scope.sees header.item = false
  index : ∀ name ∈ header.index, scope.sees name = false

theorem FreeIn.of_pointers {scope scope' : Scope} (h : FreeIn header scope)
    (hpointers : scope'.pointers = scope.pointers) : FreeIn header scope' := by
  refine ⟨?_, fun name hname => ?_⟩
  · rw [Scope.sees, hpointers]
    exact h.item
  · rw [Scope.sees, hpointers]
    exact h.index name hname

theorem runFrom_checkFree {info : NodeInfo} {name : String} (h : w.scope.sees name = false) :
    runFrom w (checkFree info name) = (.ok (), w) := by
  unfold checkFree
  rw [runFrom_bind_ok (runFrom_look w _), h]
  rfl

theorem free_of_checkFree {info : NodeInfo} {name : String}
    (h : runFrom w (checkFree info name) = (.ok (), t)) : w.scope.sees name = false ∧ t = w := by
  unfold checkFree at h
  rw [runFrom_bind_ok (runFrom_look w _)] at h
  rcases hsees : w.scope.sees name with _ | _
  · rw [hsees] at h
    exact ⟨rfl, by simpa using h.symm⟩
  · rw [hsees] at h
    exact nomatch h

theorem runFrom_checkNames {info : NodeInfo} {header : ForHeader} (h : FreeIn header w.scope) :
    runFrom w (checkNames info header) = (.ok (), w) := by
  unfold checkNames
  rw [runFrom_bind_ok (runFrom_checkFree h.item)]
  cases hindex : header.index with
  | none => rfl
  | some name => exact runFrom_checkFree (h.index name hindex)

theorem free_of_checkNames {info : NodeInfo} {header : ForHeader}
    (h : runFrom w (checkNames info header) = (.ok (), t)) : FreeIn header w.scope ∧ t = w := by
  unfold checkNames at h
  obtain ⟨⟨⟩, s, hs, hrest⟩ := runFrom_bind_eq_ok h
  obtain ⟨hitem, rfl⟩ := free_of_checkFree hs
  cases hindex : header.index with
  | none =>
    rw [hindex] at hrest
    refine ⟨⟨hitem, fun name hname => ?_⟩, (Prod.mk.inj hrest).2.symm⟩
    exact nomatch hindex.symm.trans hname
  | some name =>
    rw [hindex] at hrest
    obtain ⟨hname, rfl⟩ := free_of_checkFree hrest
    refine ⟨⟨hitem, fun other hother => ?_⟩, rfl⟩
    obtain rfl : name = other := by simpa using hindex.symm.trans hother
    exact hname

/-- The state in which an iteration has set its item. -/
def begun (w : Walk) (turn : Turn) (name : String) (item : Value) : Walk :=
  { entered w turn with scope := w.scope.set name item }

variable {setting : Setting} {header : ForHeader} {items : List Value}
  {body : IterationPath → Walking Unit} {i : Nat} {resumed : Option Value}

/-- Up to what is inside of it an iteration only sets variables. -/
theorem silent_of_begun {item : Value} {v : Option Value}
    (h : runFrom (begun w ⟨id, path, .iteration i⟩ header.item item)
      (setIndex setting id path header i resumed) = (.ok v, t)) :
    Silent id path (entered w ⟨id, path, .iteration i⟩) t := by
  have hvars : runFrom (entered w ⟨id, path, .iteration i⟩) (do
      setVariable header.item item
      setIndex setting id path header i resumed) = (.ok v, t) := h
  have hlaw : Respects (silent id path (∀ e ∈ header.key, e.Supported) False) (do
      setVariable header.item item
      setIndex setting id path header i resumed) :=
    Respects.bind (silent_setVariable _ _) fun _ => silent_setIndex _ _ _ _ _ _
  exact ((hlaw _).done hvars).1

/-- What an iteration does once its item is set. -/
def proceed (setting : Setting) (id : Nat) (path : IterationPath) (header : ForHeader)
    (items : List Value) (body : IterationPath → Walking Unit) (i : Nat) (resumed : Option Value) :
    Walking Unit := do
  let v ← setIndex setting id path header i resumed
  onPause (fun w => { w with statuses := w.statuses.decide id (.iteration items i v) })
    (body (path ++ [i]))

theorem paused_of_iteration {item : Value}
    (h : runFrom w (iteration setting id path header items body i resumed item) =
      (.error (.paused config), t)) :
    ∃ v s u, runFrom (begun w ⟨id, path, .iteration i⟩ header.item item)
        (setIndex setting id path header i resumed) = (.ok v, s) ∧
      runFrom s (body (path ++ [i])) = (.error (.paused config), u) ∧
      t = { u with statuses := u.statuses.decide id (.iteration items i v) } := by
  have h' := paused_of_inCopy (paused_of_entering h)
  have hset : Respects (silent id path False False) (setVariable header.item item) :=
    silent_setVariable _ _
  obtain ⟨⟨⟩, s, hs, -, h'⟩ := paused_of_silent_bind hset h'
  obtain rfl : begun w ⟨id, path, .iteration i⟩ header.item item = s :=
    (Prod.mk.inj hs).2
  obtain ⟨v, u, hu, -, h'⟩ := paused_of_silent_bind
    (silent_setIndex setting id path header i resumed) h'
  obtain ⟨x, hx, rfl⟩ := paused_of_onPause h'
  exact ⟨v, u, x, hu, hx, rfl⟩

/-- What an iteration did that came to its end. -/
theorem ok_of_iteration {item : Value}
    (h : runFrom w (iteration setting id path header items body i resumed item) = (.ok (), t)) :
    ∃ v s u, runFrom (begun w ⟨id, path, .iteration i⟩ header.item item)
        (setIndex setting id path header i resumed) = (.ok v, s) ∧
      runFrom s (body (path ++ [i])) = (.ok (), u) ∧
      t = { u with scope.pointers := w.scope.pointers, turns := w.turns } := by
  obtain ⟨x, hcopy, rfl⟩ := ok_of_entering h
  obtain ⟨u, hact, rfl⟩ := ok_of_inCopy hcopy
  obtain ⟨v, s, hs, hrest⟩ := runFrom_bind_eq_ok
    (show runFrom (begun w ⟨id, path, .iteration i⟩ header.item item)
      (proceed setting id path header items body i resumed) = (.ok (), u) from hact)
  exact ⟨v, s, u, hs, ok_of_onPause hrest, rfl⟩

theorem iterations_append (before rest : List Value) :
    iterations setting id path header items body i resumed (before ++ rest) = (do
      iterations setting id path header items body i resumed before
      iterations setting id path header items body (i + before.length)
        (if before.isEmpty then resumed else none) rest) := by
  induction before generalizing i resumed with
  | nil => simp [iterations]
  | cons item before ih =>
    simp only [List.cons_append, iterations, ih, bind_assoc, List.length_cons, List.isEmpty_cons]
    have hlength : i + 1 + before.length = i + (before.length + 1) := by omega
    rw [hlength, ite_self, if_neg Bool.false_ne_true]

theorem paused_of_iterations {rest : List Value}
    (h : runFrom w (iterations setting id path header items body i resumed rest) =
      (.error (.paused config), t)) :
    ∃ before item later s, rest = before ++ item :: later ∧
      runFrom w (iterations setting id path header items body i resumed before) = (.ok (), s) ∧
      runFrom s (iteration setting id path header items body (i + before.length)
        (if before.isEmpty then resumed else none) item) = (.error (.paused config), t) := by
  -- the induction is on the items that are left
  induction rest generalizing i resumed w with
  | nil => exact nomatch h
  | cons item rest ih =>
    rcases runFrom_bind_eq_error h with h | ⟨⟨⟩, u, hu, h⟩
    -- the pause is in the first iteration, or behind it
    · exact ⟨[], item, rest, w, rfl, rfl, by simpa using h⟩
    · obtain ⟨before, next, later, s, rfl, hs, h⟩ := ih h
      refine ⟨item :: before, next, later, s, rfl, ?_, ?_⟩
      · exact (runFrom_bind_ok hu _).trans hs
      · have hlength : i + (item :: before).length = i + 1 + before.length := by
          rw [List.length_cons]
          omega
        rw [hlength]
        simpa using h

/-- Iterations that came to their end have left the names as they were. -/
theorem pointers_iterations {rest : List Value}
    (h : runFrom w (iterations setting id path header items body i resumed rest) = (.ok (), t)) :
    t.scope.pointers = w.scope.pointers := by
  induction rest generalizing i resumed w with
  | nil =>
    obtain rfl : w = t := (Prod.mk.inj h).2
    rfl
  | cons item rest ih =>
    obtain ⟨⟨⟩, s, hs, hrest⟩ := runFrom_bind_eq_ok h
    obtain ⟨v, x, y, -, -, hsy⟩ := ok_of_iteration hs
    rw [ih hrest, hsy]

end Walking

/-! ### Visits -/

namespace Node

/-- What a node does when it is visited. -/
def act (setting : Setting) : Node → IterationPath → Walking Unit
  | fragment _ children, path => inCopy (walkAll setting children path)
  | config _ _ _, _ => pure ()
  | comment _ _, _ => pure ()
  | text info data, path => write info.id path data
  | mustache info e, path => Walking.mustache setting info.id path e
  | ifBlock info condition _ children otherwise, path =>
    Walking.ifBlock setting info.id path condition (walkAll setting children path)
      (walkElse setting otherwise path)
  | forBlock info header children otherwise, path =>
    Walking.forBlock setting info path header (fun inner => walkAll setting children inner)
      (walkElse setting otherwise path)
  | element info name attributes children, path =>
    Walking.element setting info path name attributes (walkAll setting children path)

variable {setting : Setting} {path : IterationPath} {w t : Walk} {config : Fields Json}

theorem walk_eq (n : Node) (path : IterationPath) :
    n.walk setting path = visiting n.id path (n.act setting path) := by
  cases n <;> rfl

section Elements

variable {info : NodeInfo} {name : String} {attributes : List Attribute} {children : List Node}

/-- What a step does that is in no other step and in no message. -/
theorem act_step (hkind : TagKind.ofName name = .step) (hstep : w.inStep = false)
    (hmessage : w.inMessage = false) :
    runFrom w (act setting (element info name attributes children) path) = runFrom w (do
      let as? ← stepName attributes
      let found ← stepConfig setting info.id path attributes
      within (fun w => { w with inStep := true }) (fun w => { w with inStep := false })
        (walkAll setting children path)
      takeResponse setting info.id path as? found) := by
  show runFrom w (Walking.element _ _ _ _ _ _) = _
  unfold Walking.element
  rw [hkind]
  unfold Walking.step
  rw [runFrom_bind_ok (runFrom_look w _), hstep, if_neg Bool.false_ne_true,
    runFrom_bind_ok (runFrom_look w _), hmessage, if_neg Bool.false_ne_true]

/-- What a piece of content does that is in no other content. -/
theorem act_content {kind : ContentKind} (hkind : TagKind.ofName name = .content kind)
    (hcontent : w.inContent = false) :
    runFrom w (act setting (element info name attributes children) path) = runFrom w (do
      let _ ← attributeValues setting info.id path attributes
      closeText
      within (fun w => { w with inContent := true }) (fun w => { w with inContent := false })
        (inArguments false (walkAll setting children path))
      let stray ← look Walk.stray
      modify fun w => { w with stray := "" }
      placeContent info path kind (String.ofList (Text.removeCommonIndent stray.toList))) := by
  show runFrom w (Walking.element _ _ _ _ _ _) = _
  unfold Walking.element
  rw [hkind]
  unfold Walking.contentTag
  rw [runFrom_bind_ok (runFrom_look w _), hcontent, if_neg Bool.false_ne_true]

end Elements

/-- A walk over several nodes keeps the law of a walk inside of them. -/
theorem respects_walkAll (ns : List Node) (path : IterationPath) :
    Respects (progress (idsAll ns) path True False) (walkAll setting ns path) := by
  refine progress_walkAll fun n hn w => ?_
  exact progress_weaken (n.respects_walk path w) (ids_subset_idsAll hn) List.prefix_rfl
    (fun _ => trivial) False.elim

theorem progress_of_walk {n : Node} {result : Except Interrupt Unit}
    (h : runFrom w (n.walk setting path) = (result, t)) : Progress n.ids path w t := by
  have hn : RespectsAt _ w (n.walk setting path) := n.respects_walk path w
  rcases result with e | ⟨⟩
  · exact (hn.stop h).1
  · exact (hn.done h).1

theorem progress_of_walkAll {ns : List Node} {result : Except Interrupt Unit}
    (h : runFrom w (walkAll setting ns path) = (result, t)) : Progress (idsAll ns) path w t := by
  have hns : RespectsAt _ w (walkAll setting ns path) := respects_walkAll ns path w
  rcases result with e | ⟨⟩
  · exact (hns.stop h).1
  · exact (hns.done h).1

theorem finish_of_walkAll {ns : List Node}
    (h : runFrom w (walkAll setting ns path) = (.ok (), t)) : Finish (idsAll ns) False w t :=
  ((respects_walkAll ns path w).done h).2

/-- A walk over several nodes pauses only outside of messages and of steps. -/
theorem outside_of_walkAll {ns : List Node}
    (h : runFrom w (walkAll setting ns path) = (.error (.paused config), t)) :
    w.inMessage = false ∧ w.inStep = false := by
  obtain ⟨hmessage, hstep, -⟩ := ((respects_walkAll ns path w).stop h).2 config rfl
  exact ⟨hmessage, hstep⟩

/-- A loop leaves the statuses alone that what is inside of it leaves alone. -/
theorem frame_of_iterations {id : Nat} {header : ForHeader} {items rest : List Value}
    {children : List Node} {i : Nat} {resumed : Option Value}
    (h : runFrom w (iterations setting id path header items
      (fun inner => walkAll setting children inner) i resumed rest) = (.ok (), t))
    {other : Nat} (hother : other ∉ idsAll children) :
    t.statuses.ofNode other = w.statuses.ofNode other := by
  induction rest generalizing i resumed w with
  | nil =>
    obtain rfl : w = t := (Prod.mk.inj h).2
    rfl
  | cons item rest ih =>
    obtain ⟨⟨⟩, s, hs, hrest⟩ := runFrom_bind_eq_ok h
    rw [ih hrest]
    obtain ⟨v, x, y, hindex, hbody, hsy⟩ := ok_of_iteration hs
    rw [hsy, (progress_of_walkAll hbody).frame other hother,
      ((silent_setIndex setting id path header i resumed _).done hindex).1.statuses]
    rfl

/-- What is inside of a loop, for the loop. -/
theorem respects_children (id : Nat) (children : List Node) (inner : IterationPath) :
    Respects (progress (id :: idsAll children) inner True False)
      (walkAll setting children inner) :=
  fun w => progress_weaken (respects_walkAll children inner w) (List.subset_cons_self _ _)
    List.prefix_rfl (fun h => h) False.elim

/-- The iterations of a loop over nodes. -/
theorem progress_of_iterations {id : Nat} {header : ForHeader} {items rest : List Value}
    {children : List Node} {i : Nat} {resumed : Option Value}
    (h : runFrom w (iterations setting id path header items
      (fun inner => walkAll setting children inner) i resumed rest) = (.ok (), t)) :
    Progress (id :: idsAll children) path w t ∧ Finish (id :: idsAll children) False w t :=
  (progress_iterations List.mem_cons_self (respects_children id children) i resumed rest w).done h

/-- A visit that came to its end is over. -/
theorem completed_of_walk {n : Node} (hid : n.id < w.statuses.nodes.size)
    (h : runFrom w (n.walk setting path) = (.ok (), t)) :
    t.statuses.completed n.id path = true := by
  have hsize := (progress_of_walk h).size
  rw [walk_eq] at h
  rcases ok_of_visiting h with ⟨hover, rfl⟩ | ⟨-, s, hs, rfl⟩
  · exact hover
  · have hid' : n.id < s.statuses.nodes.size := by
      rw [← Statuses.size_complete s.statuses n.id path, hsize]
      exact hid
    show ((s.statuses.complete n.id path).ofNode n.id).completedAt == some path
    rw [Statuses.ofNode_complete path hid']
    exact beq_self_eq_true _

theorem completed_of_walkAll {ns : List Node} (hnodup : (idsAll ns).Nodup)
    (hids : ∀ id ∈ idsAll ns, id < w.statuses.nodes.size)
    (h : runFrom w (walkAll setting ns path) = (.ok (), t)) :
    ∀ n ∈ ns, t.statuses.completed n.id path = true := by
  -- the induction is on the children
  induction ns generalizing w with
  | nil => exact fun n hn => nomatch hn
  | cons n rest ih =>
    rw [idsAll_cons] at hnodup hids
    obtain ⟨⟨⟩, s, hs, hrest⟩ := runFrom_bind_eq_ok h
    obtain ⟨-, hrestup, hdisjoint⟩ := List.nodup_append.1 hnodup
    have hsize : s.statuses.nodes.size = w.statuses.nodes.size := (progress_of_walk hs).size
    intro m hm
    rcases List.mem_cons.1 hm with rfl | hm
    · have hover : s.statuses.completed m.id path = true :=
        completed_of_walk (hids m.id (List.mem_append_left _ m.id_mem_ids)) hs
      -- those behind it have other numbers, so that their walks leave it completed
      have hframe := (progress_of_walkAll hrest).frame m.id
        fun hid => hdisjoint m.id m.id_mem_ids m.id hid rfl
      rw [Statuses.completed, hframe]
      exact hover
    · refine ih hrestup (fun id hid => ?_) hrest m hm
      rw [hsize]
      exact hids id (List.mem_append_right _ hid)

/-- Visits that are over are skipped. -/
theorem walkAll_over {ns : List Node} (h : ∀ n ∈ ns, w.statuses.completed n.id path = true) :
    runFrom w (walkAll setting ns path) = (.ok (), w) := by
  induction ns with
  | nil => rfl
  | cons n rest ih =>
    have hn : runFrom w (n.walk setting path) = (.ok (), w) := by
      rw [walk_eq]
      exact runFrom_visiting_over (h n List.mem_cons_self)
    unfold walkAll
    rw [runFrom_bind_ok hn]
    exact ih fun m hm => h m (List.mem_cons_of_mem _ hm)

theorem walkAll_append (before after : List Node) :
    walkAll setting (before ++ after) path = (do
      walkAll setting before path
      walkAll setting after path) := by
  induction before with
  | nil => simp [walkAll]
  | cons n before ih => simp [walkAll, ih]

/-! ### Pauses -/

/-- A walk over several nodes came to the end of some of them, and paused in the next one. -/
def PausesAmong (setting : Setting) (path : IterationPath) (config : Fields Json) (ns : List Node)
    (w t : Walk) : Prop :=
  ∃ before m after s, ns = before ++ m :: after ∧
    runFrom w (walkAll setting before path) = (.ok (), s) ∧
    runFrom s (m.walk setting path) = (.error (.paused config), t)

theorem pausesAmong_of_walkAll {ns : List Node}
    (h : runFrom w (walkAll setting ns path) = (.error (.paused config), t)) :
    PausesAmong setting path config ns w t := by
  induction ns generalizing w with
  | nil => exact nomatch h
  | cons n rest ih =>
    rcases runFrom_bind_eq_error h with hn | ⟨⟨⟩, s, hs, hrest⟩
    · exact ⟨[], n, rest, w, rfl, rfl, hn⟩
    · obtain ⟨before, m, after, u, rfl, hu, hm⟩ := ih hrest
      exact ⟨n :: before, m, after, u, rfl, (runFrom_bind_ok hs _).trans hu, hm⟩

theorem walkAll_of_pausesAmong {ns : List Node} (h : PausesAmong setting path config ns w t) :
    runFrom w (walkAll setting ns path) = (.error (.paused config), t) := by
  obtain ⟨before, m, after, s, rfl, hs, hm⟩ := h
  rw [walkAll_append, runFrom_bind_ok hs]
  exact runFrom_bind_error hm _

/-- The ways in which what a node does pauses. -/
inductive Pauses (setting : Setting) (path : IterationPath) (config : Fields Json) :
    Node → Walk → Walk → Prop
  | fragment {info : NodeInfo} {children : List Node} {w t : Walk}
      (h : PausesAmong setting path config children w t) :
      Pauses setting path config (.fragment info children) w t
  | taken {info : NodeInfo} {condition : Expr} {elseIf : Bool} {children : List Node}
      {otherwise : Option Node} {w s t : Walk}
      (hcondition : runFrom w (takesBranch setting info.id path condition) = (.ok true, s))
      (h : PausesAmong setting path config children (entered s ⟨info.id, path, .branch true⟩) t) :
      Pauses setting path config (.ifBlock info condition elseIf children otherwise) w
        { t with statuses := t.statuses.decide info.id (.branch true) }
  | passed {info : NodeInfo} {condition : Expr} {elseIf : Bool} {children : List Node} {m : Node}
      {w s t : Walk}
      (hcondition : runFrom w (takesBranch setting info.id path condition) = (.ok false, s))
      (h : runFrom (entered s ⟨info.id, path, .branch false⟩) (m.walk setting path) =
        (.error (.paused config), t)) :
      Pauses setting path config (.ifBlock info condition elseIf children (some m)) w
        { t with statuses := t.statuses.decide info.id (.branch false) }
  | iteration {info : NodeInfo} {header : ForHeader} {children : List Node}
      {otherwise : Option Node} {items before later : List Value} {item : Value} {first : Nat}
      {resumed v : Option Value} {w s u x t : Walk}
      (hnames : FreeIn header w.scope)
      (hloop : runFrom w (takeItems setting info.id path header.iterable) =
        (.ok ⟨items, first, resumed⟩, s))
      (hitems : items.drop first = before ++ item :: later)
      (hbefore : runFrom s (iterations setting info.id path header items
        (fun inner => walkAll setting children inner) first resumed before) = (.ok (), u))
      (hindex : runFrom (begun u
        ⟨info.id, path, .iteration (first + before.length)⟩ header.item item)
        (setIndex setting info.id path header (first + before.length)
          (if before.isEmpty then resumed else none)) = (.ok v, x))
      (h : PausesAmong setting (path ++ [first + before.length]) config children x t) :
      Pauses setting path config (.forBlock info header children otherwise) w
        { t with statuses :=
          t.statuses.decide info.id (.iteration items (first + before.length) v) }
  | noItems {info : NodeInfo} {header : ForHeader} {children : List Node} {m : Node} {loop : Loop}
      {w s t : Walk} (hnames : FreeIn header w.scope)
      (hloop : runFrom w (takeItems setting info.id path header.iterable) = (.ok loop, s))
      (hempty : loop.items = [])
      (h : runFrom (entered s ⟨info.id, path, .noItems⟩) (m.walk setting path) =
        (.error (.paused config), t)) :
      Pauses setting path config (.forBlock info header children (some m)) w t
  | content {info : NodeInfo} {name : String} {attributes : List Attribute} {children : List Node}
      {kind : ContentKind} {values : Fields Value} {w s t : Walk}
      (hkind : TagKind.ofName name = .content kind) (houter : w.inContent = false)
      (hvalues : runFrom w (attributeValues setting info.id path attributes) = (.ok values, s))
      (h : PausesAmong setting path config children
        { s.closedText with inContent := true, inArguments := false } t) :
      Pauses setting path config (.element info name attributes children) w
        { t with inContent := false, inArguments := s.inArguments }
  | toolCall {info : NodeInfo} {name : String} {attributes : List Attribute} {children : List Node}
      {values : Fields Value} {w s t : Walk}
      (hkind : TagKind.ofName name = .toolCall) (houter : w.inContent = false)
      (hvalues : runFrom w (attributeValues setting info.id path attributes) = (.ok values, s))
      (h : PausesAmong setting path config children { s with stray := "", inArguments := true } t) :
      Pauses setting path config (.element info name attributes children) w
        { t with inArguments := s.inArguments, stray := s.stray }
  | unknown {info : NodeInfo} {name : String} {attributes : List Attribute} {children : List Node}
      {p : Problem} {w t : Walk} (hkind : TagKind.ofName name = .unknown)
      (h : PausesAmong setting path config children { w with problems := w.problems ++ [p] } t) :
      Pauses setting path config (.element info name attributes children) w t
  | step {info : NodeInfo} {name : String} {attributes : List Attribute} {children : List Node}
      {as? : Option String} {w s t : Walk} (hkind : TagKind.ofName name = .step)
      (houter : w.inStep = false) (hmessage : w.inMessage = false)
      (hname : runFrom w (stepName attributes) = (.ok as?, w))
      (hconfig : runFrom w (stepConfig setting info.id path attributes) = (.ok config, s))
      (hbody : runFrom { s with inStep := true } (walkAll setting children path) = (.ok (), t))
      (hnone : t.responses = []) :
      Pauses setting path config (.element info name attributes children) w
        (waiting setting info.id path { t with inStep := false })

theorem pauses_of_ifBlock {info : NodeInfo} {condition : Expr} {elseIf : Bool}
    {children : List Node} {otherwise : Option Node}
    (h : runFrom w (act setting (.ifBlock info condition elseIf children otherwise) path) =
      (.error (.paused config), t)) :
    Pauses setting path config (.ifBlock info condition elseIf children otherwise) w t := by
  obtain ⟨taken, s, hs, -, h⟩ :=
    paused_of_silent_bind (silent_takesBranch setting info.id path condition) h
  obtain ⟨u, hu, rfl⟩ := paused_of_onPause h
  have hu := paused_of_entering hu
  cases taken with
  | true => exact .taken hs (pausesAmong_of_walkAll (paused_of_inCopy hu))
  | false =>
    cases otherwise with
    | none => exact nomatch hu
    | some m => exact .passed hs hu

theorem pauses_of_forBlock {info : NodeInfo} {header : ForHeader} {children : List Node}
    {otherwise : Option Node}
    (h : runFrom w (act setting (.forBlock info header children otherwise) path) =
      (.error (.paused config), t)) :
    Pauses setting path config (.forBlock info header children otherwise) w t := by
  -- nothing pauses before the items are known
  have hcheck : Respects (silent info.id path False True) (checkNames info header) :=
    silent_checkNames info header
  obtain ⟨⟨⟩, s, hs, -, hrest⟩ := paused_of_silent_bind hcheck h
  obtain ⟨hfree, rfl⟩ := free_of_checkNames hs
  obtain ⟨⟨items, first, resumed⟩, u, hloop, -, hrun⟩ :=
    paused_of_silent_bind (silent_takeItems setting info.id path header.iterable) hrest
  dsimp only at hrun
  -- the else part pauses, or one of the iterations does
  split at hrun
  · next hempty =>
    cases otherwise with
    | none => exact nomatch paused_of_entering hrun
    | some m => exact .noItems hfree hloop (List.isEmpty_iff.1 hempty) (paused_of_entering hrun)
  · obtain ⟨before, item, later, x, hitems, hbefore, hpaused⟩ := paused_of_iterations hrun
    obtain ⟨v, y, z, hindex, hbody, rfl⟩ := paused_of_iteration hpaused
    exact .iteration hfree hloop hitems hbefore hindex (pausesAmong_of_walkAll hbody)

variable {info : NodeInfo} {name : String} {attributes : List Attribute} {children : List Node}

/-- The evaluation of attributes, without conditions. -/
theorem silent_values (setting : Setting) (id : Nat) (path : IterationPath)
    (attributes : List Attribute) :
    Respects (silent id path False False) (attributeValues setting id path attributes) :=
  silent_attributeValues setting id path False.elim False.elim

/-- A message cannot pause. -/
theorem not_paused_of_message {role : Option Role}
    (h : runFrom w (Walking.message setting info path role attributes
      (walkAll setting children path)) = (.error (.paused config), t)) : False := by
  unfold message at h
  rw [runFrom_bind_ok (runFrom_look w _)] at h
  split at h
  · exact nomatch h
  · obtain ⟨values, s, -, -, h⟩ := paused_of_silent_bind (silent_values _ _ _ _) h
    have hrole : Respects (silent info.id path False False) (messageRole info role values) :=
      silent_messageRole info role values
    obtain ⟨role, u, -, -, h⟩ := paused_of_silent_bind hrole h
    dsimp only at h
    generalize (if role = Role.tool then textOf? values "id" else none) = toolId at h
    split at h
    · exact nomatch h
    · have hclose : Respects (leaf info.id path False False) (closeMessage setting) :=
        leaf_closeMessage setting
      obtain ⟨⟨⟩, x, -, h⟩ := paused_of_leaf_bind hclose h
      -- what is inside runs in a message, where nothing pauses
      rcases runFrom_bind_eq_error h with h | ⟨⟨⟩, y, -, h⟩
      · obtain ⟨z, h, -⟩ := paused_of_within h
        obtain ⟨z, h, -⟩ := paused_of_inArguments h
        exact nomatch (outside_of_walkAll h).1
      · have htake : Respects (leaf info.id path False False) takeContent := leaf_takeContent
        obtain ⟨⟨content, pending⟩, z, -, h⟩ := paused_of_leaf_bind htake h
        have hrest : Respects (leaf info.id path False False) (do
            let toolCalls ← placeToolCalls role pending
            emit { role, content, name := textOf? values "name", toolId, toolCalls }) :=
          Respects.bind (leaf_placeToolCalls _ _) fun _ => leaf_emit _
        exact not_paused_of_leaf hrest h

theorem pauses_of_contentTag {kind : ContentKind} (hkind : TagKind.ofName name = .content kind)
    (h : runFrom w (contentTag setting info path kind attributes (walkAll setting children path)) =
      (.error (.paused config), t)) :
    Pauses setting path config (.element info name attributes children) w t := by
  unfold contentTag at h
  rw [runFrom_bind_ok (runFrom_look w _)] at h
  rcases houter : w.inContent with _ | _
  · rw [houter] at h
    obtain ⟨values, s, hvalues, -, h⟩ := paused_of_silent_bind (silent_values _ _ _ _) h
    rw [runFrom_bind_ok (runFrom_closeText s)] at h
    -- what follows the body does not pause, so that the body did
    have hrest : ∀ u : Unit, Respects (leaf info.id path False False) (do
        let stray ← look Walk.stray
        modify fun w => { w with stray := "" }
        placeContent info path kind (String.ofList (Text.removeCommonIndent stray.toList))) :=
      fun _ => Respects.bind (Respects.look _) fun _ =>
        Respects.bind (leaf_modify fun _ => rfl) fun _ => leaf_placeContent _ _ _ _
    obtain ⟨u, hu, rfl⟩ := paused_of_within (paused_of_bind_leaf hrest h)
    obtain ⟨x, hx, rfl⟩ := paused_of_inArguments hu
    exact .content (s := s) (t := x) hkind houter hvalues (pausesAmong_of_walkAll hx)
  · rw [houter] at h
    exact nomatch h

theorem pauses_of_toolCall (hkind : TagKind.ofName name = .toolCall)
    (h : runFrom w (Walking.toolCall setting info path attributes (walkAll setting children path)) =
      (.error (.paused config), t)) :
    Pauses setting path config (.element info name attributes children) w t := by
  unfold Walking.toolCall at h
  rw [runFrom_bind_ok (runFrom_look w _)] at h
  rcases houter : w.inContent with _ | _
  · rw [houter] at h
    obtain ⟨values, s, hvalues, -, h⟩ := paused_of_silent_bind (silent_values _ _ _ _) h
    split at h
    · exact nomatch h
    · exact nomatch h
    · next id name _ _ =>
      -- the same here: only the body can pause
      have hrest : ∀ text : String, Respects (leaf info.id path False False) (do
          let arguments ← toolArguments info text
          call info.id path
            { call := { id, name, arguments }, start := info.start, stop := info.stop }) :=
        fun _ => Respects.bind (leaf_toolArguments _ _) fun _ => leaf_call _ _ _
      obtain ⟨u, hu, rfl⟩ := paused_of_captured (paused_of_bind_leaf hrest h)
      obtain ⟨x, hx, rfl⟩ := paused_of_inArguments hu
      exact .toolCall (s := s) (t := x) hkind houter hvalues (pausesAmong_of_walkAll hx)
  · rw [houter] at h
    exact nomatch h

theorem eq_of_stepName {as? : Option String}
    (h : runFrom w (stepName attributes) = (.ok as?, t)) : t = w := by
  unfold stepName at h
  split at h
  · exact (Prod.mk.inj h).2.symm
  · split at h
    · exact (Prod.mk.inj h).2.symm
    · exact nomatch h

/-- The response to a step pauses only if there is none. -/
theorem waiting_of_takeResponse {id : Nat} {as? : Option String} {found : Fields Json}
    (h : runFrom w (takeResponse setting id path as? found) = (.error (.paused config), t)) :
    w.responses = [] ∧ found = config ∧ t = waiting setting id path w := by
  cases hresponses : w.responses with
  | nil =>
    obtain ⟨he, ht⟩ := Prod.mk.inj ((runFrom_takeResponse_nil hresponses).symm.trans h)
    exact ⟨rfl, by simpa using he, ht.symm⟩
  | cons response rest =>
    exact nomatch (runFrom_takeResponse_cons hresponses).symm.trans h

theorem pauses_of_step (hkind : TagKind.ofName name = .step)
    (h : runFrom w (Walking.step setting info path attributes (walkAll setting children path)) =
      (.error (.paused config), t)) :
    Pauses setting path config (.element info name attributes children) w t := by
  unfold Walking.step at h
  rw [runFrom_bind_ok (runFrom_look w _)] at h
  rcases houter : w.inStep with _ | _
  · rw [houter, if_neg Bool.false_ne_true, runFrom_bind_ok (runFrom_look w _)] at h
    rcases hmessage : w.inMessage with _ | _
    · rw [hmessage, if_neg Bool.false_ne_true] at h
      have hstepName : Respects (silent info.id path False False) (stepName attributes) :=
        silent_stepName False.elim
      have hstepConfig : Respects (silent info.id path False False)
          (stepConfig setting info.id path attributes) :=
        silent_stepConfig setting info.id path False.elim False.elim
      obtain ⟨as?, s, hname, -, h1⟩ := paused_of_silent_bind hstepName h
      obtain rfl := eq_of_stepName hname
      obtain ⟨found, u, hconfig, -, h2⟩ := paused_of_silent_bind hstepConfig h1
      -- what is inside runs in a step, where nothing pauses
      rcases runFrom_bind_eq_error h2 with h3 | ⟨⟨⟩, x, hx, h3⟩
      · obtain ⟨y, hy, -⟩ := paused_of_within h3
        exact nomatch (outside_of_walkAll hy).2
      · rw [runFrom_within] at hx
        rcases hbody : runFrom { u with inStep := true } (walkAll setting children path) with
          ⟨e | ⟨⟩, y⟩
        · rw [hbody] at hx
          exact nomatch hx
        · rw [hbody] at hx
          obtain rfl := (Prod.mk.inj hx).2
          obtain ⟨hnone, rfl, rfl⟩ := waiting_of_takeResponse h3
          exact .step hkind houter hmessage hname hconfig hbody hnone
    · rw [hmessage] at h
      exact nomatch h
  · rw [houter] at h
    exact nomatch h

theorem pauses_of_element
    (h : runFrom w (Walking.element setting info path name attributes
      (walkAll setting children path)) = (.error (.paused config), t)) :
    Pauses setting path config (.element info name attributes children) w t := by
  unfold Walking.element at h
  cases hkind : TagKind.ofName name with
  | message role =>
    -- there is no pause in a message, since no step may stand in one
    rw [hkind] at h
    exact (not_paused_of_message h).elim
  | content kind =>
    rw [hkind] at h
    exact pauses_of_contentTag hkind h
  | toolCall =>
    rw [hkind] at h
    exact pauses_of_toolCall hkind h
  | reference =>
    rw [hkind] at h
    dsimp only at h
    split at h
    · exact nomatch h
    · exact nomatch h
  | step =>
    rw [hkind] at h
    exact pauses_of_step hkind h
  | unknown =>
    rw [hkind] at h
    exact .unknown hkind (pausesAmong_of_walkAll h)

theorem pauses_of_act {n : Node}
    (h : runFrom w (n.act setting path) = (.error (.paused config), t)) :
    Pauses setting path config n w t := by
  cases n with
  | fragment info children => exact .fragment (pausesAmong_of_walkAll (paused_of_inCopy h))
  | config info value raw => exact nomatch h
  | comment info data => exact nomatch h
  | text info data =>
    have hwrite : Respects (leaf info.id path False True) (write info.id path data) :=
      leaf_write info.id path data
    exact (not_paused_of_leaf hwrite h).elim
  | mustache info e =>
    exact (not_paused_of_leaf (leaf_mustache setting info.id path e) h).elim
  | ifBlock info condition elseIf children otherwise => exact pauses_of_ifBlock h
  | forBlock info header children otherwise => exact pauses_of_forBlock h
  | element info name attributes children => exact pauses_of_element h

/-- A visit that pauses was not over, and records the names that were visible when it started. -/
theorem pauses_of_walk {n : Node}
    (h : runFrom w (n.walk setting path) = (.error (.paused config), t)) :
    w.statuses.completed n.id path = false ∧
      ∃ s, Pauses setting path config n (w.enter n.id path) s ∧ t = { s with
        statuses := s.statuses.pause n.id path (w.enter n.id path).scope.pointers } := by
  rw [walk_eq] at h
  obtain ⟨hover, s, hs, rfl⟩ := paused_of_visiting h
  exact ⟨hover, s, pauses_of_act hs, rfl⟩

/-! ### Nodes inside of steps -/

/-- A pause of a node that is no step is a pause of a node inside.  Before it only nodes inside were
visited, and after it only the decision of the node itself is recorded. -/
structure Inside (setting : Setting) (config : Fields Json) (n : Node) (w t : Walk) (m : Node)
    (inner : IterationPath) (s u : Walk) : Prop where
  child : m ∈ n.childNodes
  unpaused : ∀ id, (w.statuses.ofNode id).paused = none → (s.statuses.ofNode id).paused = none
  frame : ∀ id, id ∉ idsAll n.childNodes → s.statuses.ofNode id = w.statuses.ofNode id
  pauses : runFrom s (m.walk setting inner) = (.error (.paused config), u)
  decides : t.statuses = u.statuses ∨ ∃ d, t.statuses = u.statuses.decide n.id d

theorem Inside.of_among {n : Node} {ns : List Node} {w v u t : Walk} {inner : IterationPath}
    (hns : ns ⊆ n.childNodes) (h : PausesAmong setting inner config ns v u)
    (hunpaused : ∀ id, (w.statuses.ofNode id).paused = none → (v.statuses.ofNode id).paused = none)
    (hframe : ∀ id, id ∉ idsAll n.childNodes → v.statuses.ofNode id = w.statuses.ofNode id)
    (hdecides : t.statuses = u.statuses ∨ ∃ d, t.statuses = u.statuses.decide n.id d) :
    ∃ m s, Inside setting config n w t m inner s u := by
  obtain ⟨before, m, after, s, rfl, hs, hm⟩ := h
  refine ⟨m, s, ⟨hns (by simp), fun id hid => ?_, fun id hid => ?_, hm, hdecides⟩⟩
  · exact (finish_of_walkAll hs).unpaused id (hunpaused id hid)
  · rw [(progress_of_walkAll hs).frame id fun hmem => hid ?_, hframe id hid]
    obtain ⟨x, hx, rfl⟩ := List.mem_map.1 hmem
    obtain ⟨y, hy, hx⟩ := mem_nodesAll.1 hx
    exact ids_subset_idsAll (hns (List.mem_append_left _ hy)) (List.mem_map_of_mem hx)

theorem Pauses.inside {n : Node} (h : Pauses setting path config n w t) (hstep : n.isStep = false) :
    ∃ m inner s u, Inside setting config n w t m inner s u := by
  -- two ways to come to the parts: behind iterations that were walked, or at once
  have among : ∀ {ns inner v u}, ns ⊆ n.childNodes → PausesAmong setting inner config ns v u →
      (∀ id, (w.statuses.ofNode id).paused = none → (v.statuses.ofNode id).paused = none) →
      (∀ id, id ∉ idsAll n.childNodes → v.statuses.ofNode id = w.statuses.ofNode id) →
      (t.statuses = u.statuses ∨ ∃ d, t.statuses = u.statuses.decide n.id d) →
      ∃ m inner s u, Inside setting config n w t m inner s u := by
    intro ns inner v u hns h hunpaused hframe hdecides
    obtain ⟨m, s, hin⟩ := Inside.of_among hns h hunpaused hframe hdecides
    exact ⟨m, inner, s, u, hin⟩
  have same : ∀ {ns inner v u}, ns ⊆ n.childNodes → PausesAmong setting inner config ns v u →
      v.statuses = w.statuses →
      (t.statuses = u.statuses ∨ ∃ d, t.statuses = u.statuses.decide n.id d) →
      ∃ m inner s u, Inside setting config n w t m inner s u := by
    intro ns inner v u hns h hv
    exact among hns h (fun id hid => by rwa [hv]) fun id _ => by rw [hv]
  -- one case for each kind of node that a pause can come out of
  cases h with
  | fragment h => exact same (fun _ hm => hm) h rfl (.inl rfl)
  | taken hcondition h =>
    exact same (fun _ hm => List.mem_append_left _ hm) h
      ((silent_takesBranch setting _ path _ w).done hcondition).1.statuses (.inr ⟨_, rfl⟩)
  | passed hcondition h =>
    have hsame := ((silent_takesBranch setting _ path _ w).done hcondition).1.statuses
    refine ⟨_, path, _, _, ⟨List.mem_append_right _ (List.mem_singleton.2 rfl), fun id hid => ?_,
      fun id _ => ?_, h, .inr ⟨_, rfl⟩⟩⟩
    · rwa [entered, hsame]
    · rw [entered, hsame]
  | iteration hnames hloop hitems hbefore hindex h =>
    -- the iterations before have changed statuses, but left nothing paused
    have hsame := ((silent_takeItems setting _ path _ w).done hloop).1.statuses
    have hsame' := ((silent_setIndex setting _ path _ _ _ _).done hindex).1.statuses
    refine among (fun _ hm => List.mem_append_left _ hm) h (fun id hid => ?_) (fun id hid => ?_)
      (.inr ⟨_, rfl⟩)
    · rw [hsame']
      refine (progress_of_iterations hbefore).2.unpaused id ?_
      rwa [hsame]
    · rw [hsame']
      refine (frame_of_iterations hbefore fun hmem => hid ?_).trans (by rw [hsame])
      rw [childNodes, idsAll_append]
      exact List.mem_append_left _ hmem
  | noItems hnames hloop hempty h =>
    -- the else part is walked with nothing else touched
    have hsame := ((silent_takeItems setting _ path _ w).done hloop).1.statuses
    refine ⟨_, path, _, _, ⟨List.mem_append_right _ (List.mem_singleton.2 rfl), fun id hid => ?_,
      fun id _ => ?_, h, .inl rfl⟩⟩
    · rwa [entered, hsame]
    · rw [entered, hsame]
  | content hkind houter hvalues h =>
    exact same (fun _ hm => hm) h ((silent_values setting _ path _ w).done hvalues).1.statuses
      (.inl rfl)
  | toolCall hkind houter hvalues h =>
    exact same (fun _ hm => hm) h ((silent_values setting _ path _ w).done hvalues).1.statuses
      (.inl rfl)
  | unknown hkind h => exact same (fun _ hm => hm) h rfl (.inl rfl)
  | step hkind houter hmessage hname hconfig hbody hnone =>
    exact absurd hstep (by simp [isStep, hkind])

/-- While a step waits, nothing inside of it pauses. -/
theorem Pauses.unpaused_of_step {n : Node} (h : Pauses setting path config n w t)
    (hstep : n.isStep = true) (id : Nat) (hid : (w.statuses.ofNode id).paused = none) :
    (t.statuses.ofNode id).paused = none := by
  cases h with
  | step hkind houter hmessage hname hconfig hbody hnone =>
    have hsame :=
      ((silent_stepConfig setting _ path False.elim False.elim w).done hconfig).1.statuses
    rw [waiting, Walk.statuses_closed]
    refine (finish_of_walkAll hbody).unpaused id ?_
    rwa [hsame]
  | content hkind => simp [isStep, hkind] at hstep
  | toolCall hkind => simp [isStep, hkind] at hstep
  | unknown hkind => simp [isStep, hkind] at hstep
  | _ => cases hstep

/-- What a node does before it pauses does not end its visit. -/
theorem Pauses.completedAt {n : Node} (h : Pauses setting path config n w t)
    (hself : n.id ∉ idsAll n.childNodes) :
    (t.statuses.ofNode n.id).completedAt = (w.statuses.ofNode n.id).completedAt := by
  rcases hstep : n.isStep with _ | _
  · obtain ⟨m, inner, s, u, hm, -, hframe, hu, hdecides⟩ := h.inside hstep
    rw [Statuses.completedAt_of_decides hdecides, (progress_of_walk hu).frame n.id fun hid =>
      hself (ids_subset_idsAll hm hid), hframe n.id hself]
  · cases h with
    | step hkind houter hmessage hname hconfig hbody hnone =>
      have hsame :=
        ((silent_stepConfig setting _ path False.elim False.elim w).done hconfig).1.statuses
      rw [waiting, Walk.statuses_closed]
      exact congrArg NodeStatus.completedAt
        (((progress_of_walkAll hbody).frame _ hself).trans (by rw [hsame]))
    | content hkind => simp [isStep, hkind] at hstep
    | toolCall hkind => simp [isStep, hkind] at hstep
    | unknown hkind => simp [isStep, hkind] at hstep
    | _ => cases hstep

/-- What declares nothing leaves the names in a step as they were. -/
theorem pointers_of_walkAll {ns : List Node} (hns : ∀ n ∈ ns, n.DeclaresNothing)
    (hstep : w.inStep = true) (hunpaused : Unpaused (idsAll ns) w.statuses)
    (h : runFrom w (walkAll setting ns path) = (.ok (), t)) :
    t.scope.pointers = w.scope.pointers := by
  have hall : Respects (progress (idsAll ns) path True True) (walkAll setting ns path) := by
    refine progress_walkAll fun n hn w => ?_
    exact progress_weaken (n.respects_walk path w) (ids_subset_idsAll hn) List.prefix_rfl
      (fun _ => trivial) fun _ => hns n hn
  exact ((hall w).done h).2.pointers trivial hstep hunpaused

/-- No node inside of a step has paused. -/
def Calm (n : Node) (s : Statuses) : Prop :=
  ∀ m ∈ n.nodes, m.isStep = true → Unpaused (idsAll m.childNodes) s

theorem Calm.child {n m : Node} {s : Statuses} (h : n.Calm s) (hm : m ∈ n.childNodes) : m.Calm s :=
  fun x hx => h x (mem_nodes_of_child hm hx)

/-- The nodes inside of steps do not pause. -/
theorem calm_of_walk {n : Node} (hnodup : n.ids.Nodup) (hcalm : n.Calm w.statuses)
    (h : runFrom w (n.walk setting path) = (.error (.paused config), t)) :
    n.Calm t.statuses := by
  -- the induction is on the tree: only the nodes on the way to the step are marked as paused, and
  -- the step is the last of them
  induction n using Node.induct generalizing path w t with
  | step n ih =>
    rw [ids_eq] at hnodup
    obtain ⟨hself, hnodup⟩ := List.nodup_cons.1 hnodup
    obtain ⟨-, v, hv, rfl⟩ := pauses_of_walk h
    have henter : ∀ id, (w.statuses.ofNode id).paused = none →
        ((w.enter n.id path).statuses.ofNode id).paused = none := by
      have hfinish : Finish n.ids False w (w.enter n.id path) :=
        (progress_enter w n.id_mem_ids).2
      exact hfinish.unpaused
    intro m hm hmstep id hid
    -- a node below a step that is not on the way has a number of its own
    have hne : id ≠ n.id := fun heq => hself (heq ▸ idsAll_childNodes_subset_of_mem hm hid)
    rw [Statuses.ofNode_pause_of_ne _ _ hne]
    rcases hstep : n.isStep with _ | _
    · obtain ⟨c, inner, s, u, hc, hs, -, hu, hsame⟩ := hv.inside hstep
      rw [Statuses.ofNode_of_decides hsame hne]
      have hcalms : c.Calm s.statuses := fun x hx hxstep id hid =>
        hs id (henter id (hcalm x (mem_nodes_of_child hc hx) hxstep id hid))
      have hcnodup : c.ids.Nodup := hnodup.sublist (ids_sublist_idsAll hc)
      have hchild : m ∈ nodesAll n.childNodes := by
        rw [nodes_eq] at hm
        rcases List.mem_cons.1 hm with rfl | hm
        · rw [hstep] at hmstep
          exact nomatch hmstep
        · exact hm
      obtain ⟨c', hc', hmc'⟩ := mem_nodesAll.1 hchild
      have hidc' : id ∈ c'.ids :=
        idsAll_childNodes_subset _ (idsAll_childNodes_subset_of_mem hmc' hid)
      -- it stands below the child that paused, or below another one
      by_cases hidc : id ∈ c.ids
      · obtain rfl : c = c' := eq_of_mem_ids hnodup hc hc' hidc hidc'
        exact ih c hc hcnodup hcalms hu m hmc' hmstep id hid
      · rw [(progress_of_walk hu).frame id hidc]
        exact hs id (henter id (hcalm m hm hmstep id hid))
    · exact hv.unpaused_of_step hstep id (henter id (hcalm m hm hmstep id hid))

end Node

end PromptMarkup

/-
The trail of a pause.

A walk that pauses leaves a trail behind: the nodes around the step that waits have stamps, what is
in front of it is over, and what is behind it has not been visited.  The walk that comes back
follows the trail to the step, or leaves it for the items of a loop, and comes to no other step that
has a stamp.

* `Node.Clear` — no visit inside of the iterations of a path has a stamp;
* `Node.Trail` — the stamps lead from a node to a step that waits;
* `Node.Comes` — the visits on the way of a walk that stops;
* `Node.Asks` — the step at which a walk pauses has just evaluated the attributes that make the
  configuration;
* `Node.asks_of_walk` — so it is for every walk over a node without stamps, and for one that follows
  a trail with a response; it leaves a trail behind again.

Design notes: a step that has a stamp does not evaluate its attributes again, since it is expected
to take a response.  A loop without items does not record that it has none; the stamps in its `else`
part may be left behind for good, and they are not on the trail any more.
-/
import PromptMarkup.Proofs.Spent
import PromptMarkup.Proofs.Stamps

namespace PromptMarkup

open PromptMarkup.Computation Walking

namespace Node

/-! ### Nodes without stamps -/

/-- No visit of the given nodes inside of the iterations of a path has a stamp. -/
def Clear (s : Statuses) (ids : List Nat) (path : IterationPath) : Prop :=
  ∀ id ∈ ids, ∀ point, (s.ofNode id).paused = some point → ¬ path <+: point.path

section Clear

variable {s t : Statuses} {ids ids' : List Nat} {path inner : IterationPath} {v w : Walk}

theorem Clear.mono (h : Clear s ids path) (hids : ids' ⊆ ids) (hpath : path <+: inner) :
    Clear s ids' inner :=
  fun id hid point hpoint hin => h id (hids hid) point hpoint (hpath.trans hin)

theorem Clear.of_frame (h : Clear s ids path) (hframe : ∀ id ∈ ids, t.ofNode id = s.ofNode id) :
    Clear t ids path :=
  fun id hid point hpoint => h id hid point (hframe id hid ▸ hpoint)

theorem Clear.of_wipes (h : Clear v.statuses ids path) (hwipes : Wipes v w) :
    Clear w.statuses ids path := by
  intro id hid point hpoint
  rcases hwipes id with hsame | hnone
  · exact h id hid point (hsame.symm.trans hpoint)
  · exact nomatch hnone.symm.trans hpoint

/-- Stamps inside of one iteration concern no other one. -/
theorem Clear.of_stamps {i j : Nat} (h : Clear v.statuses ids (path ++ [j]))
    (hstamps : Stamps (path ++ [i]) v w) (hij : i ≠ j) : Clear w.statuses ids (path ++ [j]) := by
  intro id hid point hpoint hin
  rcases hstamps id point hpoint with hold | hnew
  · exact h id hid point hold hin
  · have heq : path ++ [i] = path ++ [j] :=
      (List.prefix_of_prefix_length_le hnew hin (by simp)).eq_of_length (by simp)
    exact hij (by simpa using heq)

theorem Clear.pausedAt?_eq_none {id : Nat} (h : Clear s ids path) (hid : id ∈ ids) :
    s.pausedAt? id path = none := by
  unfold Statuses.pausedAt?
  split
  · next point hpoint =>
    rw [if_neg]
    intro heq
    exact h id hid point hpoint (eq_of_beq heq ▸ List.prefix_rfl)
  · rfl

end Clear

/-! ### Trails -/

/-- The nodes that a visit with a stamp goes back into, and the path of their visits. -/
inductive Route (s : Statuses) : Node → IterationPath → List Node → IterationPath → Prop
  | fragment {info : NodeInfo} {children : List Node} {path : IterationPath} :
    Route s (.fragment info children) path children path
  | branch {info : NodeInfo} {condition : Expr} {elseIf taken : Bool} {children : List Node}
    {otherwise : Option Node} {path : IterationPath}
    (hdecision : (s.ofNode info.id).decision = .branch taken) :
    Route s (.ifBlock info condition elseIf children otherwise) path
      (if taken then children else otherwise.toList) path
  /-- The later iterations have not been visited. -/
  | iteration {info : NodeInfo} {header : ForHeader} {children : List Node}
    {otherwise : Option Node}
    {path : IterationPath} {items : List Value} {i : Nat} {v : Option Value}
    (hdecision : (s.ofNode info.id).decision = .iteration items i v) (hitems : i < items.length)
    (hlater : ∀ j, i < j → Clear s (idsAll children) (path ++ [j])) :
    Route s (.forBlock info header children otherwise) path children (path ++ [i])
  /-- Should there be items now, none of their iterations has been visited. -/
  | noItems {info : NodeInfo} {header : ForHeader} {children : List Node} {m : Node}
    {path : IterationPath} (hclear : ∀ j, Clear s (idsAll children) (path ++ [j])) :
    Route s (.forBlock info header children (some m)) path [m] path
  | element {info : NodeInfo} {name : String} {attributes : List Attribute} {children : List Node}
    {path : IterationPath} (hkind : TagKind.ofName name ≠ .step) :
    Route s (.element info name attributes children) path children path

/-- The stamps lead from the visit of a node to a step that waits. -/
inductive Trail (s : Statuses) : Node → IterationPath → Prop
  | step {info : NodeInfo} {name : String} {attributes : List Attribute} {children : List Node}
    {path : IterationPath} (hkind : TagKind.ofName name = .step)
    (hpaused : (s.pausedAt? info.id path).isSome)
    (hover : ∀ x ∈ children, s.completed x.id path = true) :
    Trail s (.element info name attributes children) path
  | inside {n m : Node} {before after : List Node} {path inner : IterationPath}
    (hpaused : (s.pausedAt? n.id path).isSome)
    (hroute : Route s n path (before ++ m :: after) inner)
    (hover : ∀ x ∈ before, s.completed x.id inner = true) (hm : Trail s m inner)
    (hclear : Clear s (idsAll after) inner) : Trail s n path

/-- The stamps lead from visits of several nodes to a step that waits. -/
def TrailAmong (s : Statuses) (ns : List Node) (path : IterationPath) : Prop :=
  ∃ before m after, ns = before ++ m :: after ∧ (∀ x ∈ before, s.completed x.id path = true) ∧
    Trail s m path ∧ Clear s (idsAll after) path

section Trails

variable {s t : Statuses} {n : Node} {ns : List Node} {path inner : IterationPath}

theorem Trail.paused (h : Trail s n path) : (s.pausedAt? n.id path).isSome := by
  cases h with
  | step hkind hpaused hover => exact hpaused
  | inside hpaused hroute hover hm hclear => exact hpaused

/-- A visit goes back into nodes inside of it. -/
theorem Route.sublist (h : Route s n path ns inner) :
    (idsAll ns).Sublist (idsAll n.childNodes) := by
  cases h with
  | fragment => exact List.Sublist.refl _
  | @branch info condition elseIf taken children otherwise path hdecision =>
    rw [childNodes, idsAll_append]
    cases taken with
    | true => exact List.sublist_append_left _ _
    | false => exact List.sublist_append_right _ _
  | iteration hdecision hitems hlater =>
    rw [childNodes, idsAll_append]
    exact List.sublist_append_left _ _
  | noItems hclear =>
    rw [childNodes, idsAll_append]
    exact List.sublist_append_right _ _
  | element hkind => exact List.Sublist.refl _

theorem Route.isStep_eq_false (h : Route s n path ns inner) : n.isStep = false := by
  cases h with
  | element hkind => exact beq_eq_false_iff_ne.2 hkind
  | _ => rfl

theorem Route.of_frame (h : Route s n path ns inner)
    (hframe : ∀ id ∈ n.ids, t.ofNode id = s.ofNode id) :
    Route t n path ns inner := by
  have hself : t.ofNode n.id = s.ofNode n.id := hframe n.id n.id_mem_ids
  have hchildren : ∀ id ∈ idsAll n.childNodes, t.ofNode id = s.ofNode id :=
    fun id hid => hframe id (idsAll_childNodes_subset n hid)
  cases h with
  | fragment => exact .fragment
  | branch hdecision => exact .branch ((congrArg NodeStatus.decision hself).trans hdecision)
  | iteration hdecision hitems hlater =>
    refine .iteration ((congrArg NodeStatus.decision hself).trans hdecision) hitems fun j hj => ?_
    refine (hlater j hj).of_frame fun id hid => hchildren id ?_
    rw [childNodes, idsAll_append]
    exact List.mem_append_left _ hid
  | noItems hclear =>
    refine .noItems fun j => (hclear j).of_frame fun id hid => hchildren id ?_
    rw [childNodes, idsAll_append]
    exact List.mem_append_left _ hid
  | element hkind => exact .element hkind

/-- What happens to other nodes does not concern a trail. -/
theorem Trail.of_frame (h : Trail s n path) (hframe : ∀ id ∈ n.ids, t.ofNode id = s.ofNode id) :
    Trail t n path := by
  -- the trail reads the statuses of nodes inside `n` only
  induction h with
  | @step info name attributes children path hkind hpaused hover =>
    refine .step hkind (pausedAt?_of_frame (hframe _ (id_mem_ids _)) ▸ hpaused) fun x hx => ?_
    have hid : x.id ∈ idsAll children := ids_subset_idsAll hx x.id_mem_ids
    rw [completed_of_frame (hframe x.id
      (idsAll_childNodes_subset (element info name attributes children) hid))]
    exact hover x hx
  | @inside n m before after path inner hpaused hroute hover hm hclear ih =>
    have hpart : ∀ id ∈ idsAll (before ++ m :: after), t.ofNode id = s.ofNode id :=
      fun id hid => hframe id (idsAll_childNodes_subset n (hroute.sublist.subset hid))
    rw [idsAll_append, idsAll_cons] at hpart
    refine .inside (pausedAt?_of_frame (hframe _ n.id_mem_ids) ▸ hpaused) (hroute.of_frame hframe)
      (fun x hx => ?_) (ih fun id hid => ?_) (hclear.of_frame fun id hid => ?_)
    · rw [completed_of_frame (hpart x.id
        (List.mem_append_left _ (ids_subset_idsAll hx x.id_mem_ids)))]
      exact hover x hx
    · exact hpart id (List.mem_append_right _ (List.mem_append_left _ hid))
    · exact hpart id (List.mem_append_right _ (List.mem_append_right _ hid))

theorem TrailAmong.of_frame (h : TrailAmong s ns path)
    (hframe : ∀ id ∈ idsAll ns, t.ofNode id = s.ofNode id) :
    TrailAmong t ns path := by
  obtain ⟨before, m, after, rfl, hover, hm, hclear⟩ := h
  rw [idsAll_append, idsAll_cons] at hframe
  refine ⟨before, m, after, rfl, fun x hx => ?_, hm.of_frame fun id hid => ?_,
    hclear.of_frame fun id hid => ?_⟩
  · rw [completed_of_frame (hframe x.id
      (List.mem_append_left _ (ids_subset_idsAll hx x.id_mem_ids)))]
    exact hover x hx
  · exact hframe id (List.mem_append_right _ (List.mem_append_left _ hid))
  · exact hframe id (List.mem_append_right _ (List.mem_append_right _ hid))

end Trails

/-! ### The way to a pause -/

/-- A walk over several nodes comes to one of them when those in front of it are over. -/
def ComesAmong (setting : Setting) (path : IterationPath) (ns : List Node) (w : Walk) (m : Node)
    (s : Walk) :
    Prop :=
  ∃ before after, ns = before ++ m :: after ∧ runFrom w (walkAll setting before path) = (.ok (), s)

/-- What a node does comes to the visit of a node directly inside of it. -/
inductive Visits (setting : Setting) :
    Node → IterationPath → Walk → Node → IterationPath → Walk → Prop
  | fragment {info : NodeInfo} {children : List Node} {path : IterationPath} {m : Node} {w s : Walk}
    (h : ComesAmong setting path children w m s) :
    Visits setting (.fragment info children) path w m path s
  | branch {info : NodeInfo} {condition : Expr} {elseIf taken : Bool} {children : List Node}
    {otherwise : Option Node} {path : IterationPath} {m : Node} {w u s : Walk}
    (hcondition : runFrom w (takesBranch setting info.id path condition) = (.ok taken, u))
    (h : ComesAmong setting path (if taken then children else otherwise.toList)
      (entered u ⟨info.id, path, .branch taken⟩) m s) :
    Visits setting (.ifBlock info condition elseIf children otherwise) path w m path s
  | iteration {info : NodeInfo} {header : ForHeader} {children : List Node}
    {otherwise : Option Node}
    {items before later : List Value} {item : Value} {first : Nat} {resumed v : Option Value}
    {path : IterationPath} {m : Node} {w s u x y : Walk}
    (hloop : runFrom w (takeItems setting info.id path header.iterable) =
      (.ok ⟨items, first, resumed⟩, s))
    (hitems : items.drop first = before ++ item :: later)
    (hbefore : runFrom s (iterations setting info.id path header items
      (fun inner => walkAll setting children inner) first resumed before) = (.ok (), u))
    (hindex : runFrom (begun u ⟨info.id, path, .iteration (first + before.length)⟩ header.item item)
      (setIndex setting info.id path header (first + before.length)
        (if before.isEmpty then resumed else none)) = (.ok v, x))
    (h : ComesAmong setting (path ++ [first + before.length]) children x m y) :
    Visits setting (.forBlock info header children otherwise) path w m
    (path ++ [first + before.length]) y
  | noItems {info : NodeInfo} {header : ForHeader} {children : List Node} {m : Node} {loop : Loop}
    {path : IterationPath} {w s : Walk}
    (hloop : runFrom w (takeItems setting info.id path header.iterable) = (.ok loop, s))
    (hempty : loop.items = []) :
    Visits setting (.forBlock info header children (some m)) path w m path
      (entered s ⟨info.id, path, .noItems⟩)
  | content {info : NodeInfo} {name : String} {attributes : List Attribute} {children : List Node}
    {kind : ContentKind} {values : Fields Value} {path : IterationPath} {m : Node} {w s u : Walk}
    (hkind : TagKind.ofName name = .content kind)
    (hvalues : runFrom w (attributeValues setting info.id path attributes) = (.ok values, s))
    (h : ComesAmong setting path children
      { s.closedText with inContent := true, inArguments := false } m u) :
    Visits setting (.element info name attributes children) path w m path u
  | toolCall {info : NodeInfo} {name : String} {attributes : List Attribute} {children : List Node}
    {values : Fields Value} {path : IterationPath} {m : Node} {w s u : Walk}
    (hkind : TagKind.ofName name = .toolCall)
    (hvalues : runFrom w (attributeValues setting info.id path attributes) = (.ok values, s))
    (h : ComesAmong setting path children { s with stray := "", inArguments := true } m u) :
    Visits setting (.element info name attributes children) path w m path u
  | unknown {info : NodeInfo} {name : String} {attributes : List Attribute} {children : List Node}
    {p : Problem} {path : IterationPath} {m : Node} {w u : Walk}
    (hkind : TagKind.ofName name = .unknown)
    (h : ComesAmong setting path children { w with problems := w.problems ++ [p] } m u) :
    Visits setting (.element info name attributes children) path w m path u

/-- The visit of a node comes to the visit of a node inside of it. -/
inductive Comes (setting : Setting) :
    Node → IterationPath → Walk → Node → IterationPath → Walk → Prop
  | here (n : Node) (path : IterationPath) (w : Walk) : Comes setting n path w n path w
  | inside {n m x : Node} {path inner last : IterationPath} {w s u : Walk}
    (hover : w.statuses.completed n.id path = false)
    (h : Visits setting n path (w.enter n.id path) m inner s)
    (hx : Comes setting m inner s x last u) :
    Comes setting n path w x last u

/-- A walk that comes to a step and pauses there: the step asks for a response, and its attributes,
evaluated in this visit, make the configuration. -/
inductive Asks (setting : Setting) (n : Node) (path : IterationPath) (config : Fields Json)
    (w t : Walk) : Prop
  | intro {info : NodeInfo} {name : String} {attributes : List Attribute} {children : List Node}
    {inner : IterationPath} {s u : Walk} {values : Fields Value} {turns : List Turn}
    (hcomes : Comes setting n path w (.element info name attributes children) inner s)
    (hkind : TagKind.ofName name = .step) (hover : s.statuses.completed info.id inner = false)
    (hvalues : runFrom (s.enter info.id inner) (attributeValues setting info.id inner
      (Attribute.others attributes "as")) = (.ok values, u))
    (hconfig : config = values.map fun (name, v) => (name, v.toJson))
    (hasked : t.journal.head? = some (.asked info.id inner turns))

/-! ### Walks that pause -/

/-- A walk that visits a node will come to no step that has a stamp, or it has a response for that
step. -/
def Ready (w : Walk) (n : Node) (path : IterationPath) : Prop :=
  Clear w.statuses n.ids path ∨ Trail w.statuses n path ∧ w.responses ≠ []

/-- The same for several nodes. -/
def ReadyAmong (w : Walk) (ns : List Node) (path : IterationPath) : Prop :=
  Clear w.statuses (idsAll ns) path ∨ TrailAmong w.statuses ns path ∧ w.responses ≠ []

/-- The claim about a node: a walk that is ready pauses at a step that has just evaluated its
attributes, and leaves a trail behind. -/
def AsksIn (setting : Setting) (n : Node) : Prop :=
  ∀ {path config w t}, (∀ id ∈ n.ids, id < w.statuses.nodes.size) → Ready w n path →
    runFrom w (n.walk setting path) = (.error (.paused config), t) →
    Trail t.statuses n path ∧ Asks setting n path config w t

section Pausing

variable {setting : Setting} {path inner : IterationPath} {config : Fields Json} {n : Node}
  {ns : List Node} {a s t u w x : Walk}

/-- Which of several nodes pauses: the one on the trail, if there is a trail, or one behind it. -/
theorem ready_of_among {before after : List Node} {m : Node}
    (hnodup : (idsAll (before ++ m :: after)).Nodup) (h : ReadyAmong w (before ++ m :: after) path)
    (hs : runFrom w (walkAll setting before path) = (.ok (), s))
    (hm : runFrom s (m.walk setting path) = (.error (.paused config), t)) :
    Ready s m path ∧ Clear w.statuses (idsAll after) path := by
  rw [idsAll_append, idsAll_cons] at hnodup
  obtain ⟨-, -, hfront⟩ := List.nodup_append.1 hnodup
  have hframe : ∀ id ∈ m.ids, s.statuses.ofNode id = w.statuses.ofNode id := fun id hid =>
    (progress_of_walkAll hs).frame id fun hmem => hfront id hmem id (List.mem_append_left _ hid) rfl
  rcases h with hclear | ⟨⟨before', m', after', heq, hover, htrail, hclear⟩, hresponses⟩
  · rw [idsAll_append, idsAll_cons] at hclear
    refine ⟨.inl ?_, ?_⟩
    · refine Clear.of_frame (Clear.mono hclear (fun id hid => ?_) List.prefix_rfl) hframe
      exact List.mem_append_right _ (List.mem_append_left _ hid)
    · refine Clear.mono hclear (fun id hid => ?_) List.prefix_rfl
      exact List.mem_append_right _ (List.mem_append_right _ hid)
  · have hsame : before = before' → m = m' → after = after' →
        Ready s m path ∧ Clear w.statuses (idsAll after) path := by
      rintro rfl rfl rfl
      obtain rfl : w = s := (Prod.mk.inj ((walkAll_over hover).symm.trans hs)).2
      exact ⟨.inr ⟨htrail, hresponses⟩, hclear⟩
    rcases List.append_eq_append_iff.1 heq with ⟨front, hfront', hrest⟩ | ⟨front, hfront', hrest⟩
    · cases front with
      | nil =>
        obtain ⟨hmm, hafter⟩ := List.cons.inj hrest
        exact hsame (by simpa using hfront'.symm) hmm hafter
      | cons y ys =>
        -- a node in front of the trail is over and cannot pause
        obtain ⟨rfl, -⟩ := List.cons.inj hrest
        have hdone : w.statuses.completed m.id path = true := by
          refine hover m ?_
          rw [hfront']
          exact List.mem_append_right _ List.mem_cons_self
        rw [← completed_of_frame (hframe m.id m.id_mem_ids)] at hdone
        exact nomatch hdone.symm.trans (pauses_of_walk hm).1
    · cases front with
      | nil =>
        obtain ⟨hmm, hafter⟩ := List.cons.inj hrest
        exact hsame (by simpa using hfront') hmm.symm hafter.symm
      | cons y ys =>
        obtain ⟨rfl, rfl⟩ := List.cons.inj hrest
        replace hclear : Clear w.statuses (idsAll (ys ++ m :: after)) path := hclear
        rw [idsAll_append, idsAll_cons] at hclear
        refine ⟨.inl ?_, ?_⟩
        · refine Clear.of_frame (Clear.mono hclear (fun id hid => ?_) List.prefix_rfl) hframe
          exact List.mem_append_right _ (List.mem_append_left _ hid)
        · refine Clear.mono hclear (fun id hid => ?_) List.prefix_rfl
          exact List.mem_append_right _ (List.mem_append_right _ hid)

theorem asks_among (hnodup : (idsAll ns).Nodup)
    (hbounded : ∀ id ∈ idsAll ns, id < w.statuses.nodes.size)
    (ih : ∀ m ∈ ns, AsksIn setting m) (hready : ReadyAmong w ns path)
    (h : PausesAmong setting path config ns w t) :
    TrailAmong t.statuses ns path ∧
      ∃ m s, ComesAmong setting path ns w m s ∧ Asks setting m path config s t := by
  obtain ⟨before, m, after, s, rfl, hs, hm⟩ := h
  obtain ⟨hmready, hclear⟩ := ready_of_among hnodup hready hs hm
  rw [idsAll_append, idsAll_cons] at hnodup hbounded
  -- the ids of what stands before, of `m` and of what stands behind are all different
  obtain ⟨hbefore, hnodup', hfront⟩ := List.nodup_append.1 hnodup
  obtain ⟨-, -, hback⟩ := List.nodup_append.1 hnodup'
  have hsize : s.statuses.nodes.size = w.statuses.nodes.size := (progress_of_walkAll hs).size
  have hframe : ∀ id, id ∉ idsAll before → s.statuses.ofNode id = w.statuses.ofNode id :=
    (progress_of_walkAll hs).frame
  have hframe' : ∀ id, id ∉ m.ids → t.statuses.ofNode id = s.statuses.ofNode id :=
    (progress_of_walk hm).frame
  obtain ⟨htrail, hasks⟩ := ih m (List.mem_append_right _ List.mem_cons_self)
    (fun id hid => hsize ▸ hbounded id (List.mem_append_right _ (List.mem_append_left _ hid)))
    hmready hm
  refine ⟨⟨before, m, after, rfl, fun y hy => ?_, htrail, hclear.of_frame fun id hid => ?_⟩, m, s,
    ⟨before, after, rfl, hs⟩, hasks⟩
  -- what stands before `m` completed, and `m` does not touch it
  · have hid : y.id ∈ idsAll before := ids_subset_idsAll hy y.id_mem_ids
    rw [completed_of_frame (hframe' y.id fun hmem =>
      hfront y.id hid y.id (List.mem_append_left _ hmem) rfl)]
    exact completed_of_walkAll hbefore
      (fun id hid => hbounded id (List.mem_append_left _ hid)) hs y hy
  -- what stands behind `m` has not been reached
  · rw [hframe' id fun hmem => hback id hmem id hid rfl,
      hframe id fun hmem => hfront id hmem id (List.mem_append_right _ hid) rfl]

/-- The trail of a node that is no step leads into nodes inside of it. -/
theorem Trail.part {s : Statuses} (h : Trail s n path) (hstep : n.isStep = false) :
    ∃ ns inner, Route s n path ns inner ∧ TrailAmong s ns inner := by
  cases h with
  | step hkind hpaused hover => exact nomatch (beq_iff_eq.2 hkind).symm.trans hstep
  | inside hpaused hroute hover hm hclear => exact ⟨_, _, hroute, _, _, _, rfl, hover, hm, hclear⟩

/-- What a node records at its pause concerns nothing inside of it. -/
theorem trail_inside {T U : Statuses} (hnodup : n.ids.Nodup) (hroute : Route T n path ns inner)
    (hpaused : (T.pausedAt? n.id path).isSome)
    (hframe : ∀ id, id ≠ n.id → T.ofNode id = U.ofNode id)
    (h : TrailAmong U ns inner) : Trail T n path := by
  have hself : n.id ∉ idsAll n.childNodes := (List.nodup_cons.1 (ids_eq n ▸ hnodup)).1
  obtain ⟨before, m, after, rfl, hover, hm, hclear⟩ := h.of_frame (t := T) fun id hid =>
    hframe id fun heq => hself (heq ▸ hroute.sublist.subset hid)
  exact .inside hpaused hroute hover hm hclear

theorem Asks.inside {m : Node} (hover : w.statuses.completed n.id path = false)
    (h : Visits setting n path (w.enter n.id path) m inner s)
    (hasks : Asks setting m inner config s t) :
    Asks setting n path config w t := by
  obtain ⟨hcomes, hkind, hdone, hvalues, hconfig, hasked⟩ := hasks
  exact .intro (.inside hover h hcomes) hkind hdone hvalues hconfig hasked

/-- Of the state after a pause, only the journal tells which step asked. -/
theorem Asks.rest (h : Asks setting n path config w u) (hjournal : t.journal = u.journal) :
    Asks setting n path config w t := by
  obtain ⟨hcomes, hkind, hover, hvalues, hconfig, hasked⟩ := h
  exact .intro hcomes hkind hover hvalues hconfig (hjournal ▸ hasked)

/-- A visit of a node that is going to pause. -/
structure Pausing (setting : Setting) (n : Node) (path : IterationPath) (w : Walk) : Prop where
  nodup : n.ids.Nodup
  bounded : ∀ id ∈ n.ids, id < (w.enter n.id path).statuses.nodes.size
  inside : ∀ m ∈ n.childNodes, AsksIn setting m
  ready : Ready (w.enter n.id path) n path
  running : w.statuses.completed n.id path = false

section Frames

variable (h : Pausing setting n path w)

include h

theorem Pausing.self : n.id ∉ idsAll n.childNodes :=
  (List.nodup_cons.1 (ids_eq n ▸ h.nodup)).1

theorem Pausing.nodup_inner (hids : (idsAll ns).Sublist (idsAll n.childNodes)) :
    (idsAll ns).Nodup :=
  (List.nodup_cons.1 (ids_eq n ▸ h.nodup)).2.sublist hids

theorem Pausing.bounded_inner (hids : (idsAll ns).Sublist (idsAll n.childNodes)) :
    ∀ id ∈ idsAll ns, id < (w.enter n.id path).statuses.nodes.size :=
  fun id hid => h.bounded id (idsAll_childNodes_subset n (hids.subset hid))

theorem Pausing.bound : n.id < (w.enter n.id path).statuses.nodes.size :=
  h.bounded n.id n.id_mem_ids

end Frames

/-- What a pause means for the node in which a walk pauses. -/
def AsksInside (setting : Setting) (n : Node) (path : IterationPath) (config : Fields Json)
    (w t : Walk) : Prop :=
  (∀ pointers, Trail (t.statuses.pause n.id path pointers) n path) ∧ Asks setting n path config w t

variable {info : NodeInfo} {children : List Node} {otherwise : Option Node}

/-- A node that goes into its children without a decision. -/
theorem asks_plain (h : Pausing setting n path w) (hns : ns = n.childNodes)
    (hroute : ∀ T, Route T n path ns path)
    (honly : ∀ T ms inner, Route T n path ms inner → ms = ns ∧ inner = path)
    (hstep : n.isStep = false) (hstatuses : x.statuses = (w.enter n.id path).statuses)
    (hresponses : x.responses = (w.enter n.id path).responses)
    (hvisits : ∀ m s, ComesAmong setting path ns x m s →
      Visits setting n path (w.enter n.id path) m path s)
    (ha : PausesAmong setting path config ns x u) (htstatuses : t.statuses = u.statuses)
    (hjournal : t.journal = u.journal) : AsksInside setting n path config w t := by
  subst hns
  have hids := List.Sublist.refl (idsAll n.childNodes)
  -- the children are ready as the node is: clear, or on the trail with a response at hand
  have hready : ReadyAmong x n.childNodes path := by
    rcases h.ready with hclear | ⟨htrail, hany⟩
    · rw [ReadyAmong, hstatuses]
      exact .inl (hclear.mono (idsAll_childNodes_subset n) List.prefix_rfl)
    · obtain ⟨ms, inner, hpart, hamong⟩ := htrail.part hstep
      obtain ⟨rfl, rfl⟩ := honly _ _ _ hpart
      rw [ReadyAmong, hstatuses, hresponses]
      exact .inr ⟨hamong, hany⟩
  obtain ⟨htrail, m, s, hcomes, hasks⟩ :=
    asks_among (h.nodup_inner hids) (hstatuses ▸ h.bounded_inner hids)
    h.inside hready ha
  refine ⟨fun pointers => ?_, (hasks.inside h.running (hvisits m s hcomes)).rest hjournal⟩
  -- the pause writes the node's own status, behind which the children's trail goes on
  have hbound : n.id < t.statuses.nodes.size := by
    rw [htstatuses, (progress_of_among ha).size, hstatuses]
    exact h.bound
  refine trail_inside h.nodup (hroute _) (pausedAt?_pause pointers hbound) (fun id hid => ?_) htrail
  rw [Statuses.ofNode_pause_of_ne _ _ hid, htstatuses]

theorem asks_branch {condition : Expr} {elseIf taken : Bool}
    (h : Pausing setting (ifBlock info condition elseIf children otherwise) path w)
    (hcondition : runFrom (w.enter info.id path) (takesBranch setting info.id path condition) =
      (.ok taken, s))
    (ha : PausesAmong setting path config (if taken then children else otherwise.toList)
      (entered s ⟨info.id, path, .branch taken⟩) t) :
    AsksInside setting (ifBlock info condition elseIf children otherwise) path config w
      { t with statuses := t.statuses.decide info.id (.branch taken) } := by
  have hsilent := ((silent_takesBranch setting info.id path condition _).done hcondition).1
  have hstatuses : s.statuses = (w.enter info.id path).statuses := hsilent.statuses
  have hresponses : s.responses = (w.enter info.id path).responses := by rw [hsilent.same]
  have hids : (idsAll (if taken then children else otherwise.toList)).Sublist
      (idsAll (ifBlock info condition elseIf children otherwise).childNodes) := by
    rw [childNodes, idsAll_append]
    cases taken with
    | true => exact List.sublist_append_left _ _
    | false => exact List.sublist_append_right _ _
  have hmem : ∀ m ∈ if taken then children else otherwise.toList,
    m ∈ children ++ otherwise.toList := by
    cases taken with
    | true => exact fun m hm => List.mem_append_left _ hm
    | false => exact fun m hm => List.mem_append_right _ hm
  have hready : ReadyAmong (entered s ⟨info.id, path, .branch taken⟩)
      (if taken then children else otherwise.toList) path := by
    show Clear s.statuses _ _ ∨ TrailAmong s.statuses _ _ ∧ s.responses ≠ []
    rw [hstatuses, hresponses]
    -- fresh, or resumed in the branch that was decided
    rcases h.ready with hclear | ⟨htrail, hany⟩
    · exact .inl (hclear.mono
        (fun id hid => idsAll_childNodes_subset _ (hids.subset hid)) List.prefix_rfl)
    · obtain ⟨ms, inner, hpart, hamong⟩ := htrail.part rfl
      cases hpart with
      | branch hdecision =>
        obtain rfl :=
          Except.ok.inj (Prod.mk.inj ((runFrom_takesBranch hdecision).symm.trans hcondition)).1
        exact .inr ⟨hamong, hany⟩
  obtain ⟨htrail, m, x, hcomes, hasks⟩ := asks_among (h.nodup_inner hids)
    (w := entered s ⟨info.id, path, .branch taken⟩) (hstatuses ▸ h.bounded_inner hids)
    (fun m hm => h.inside m (hmem m hm)) hready ha
  refine ⟨fun pointers => ?_, (hasks.inside h.running (.branch hcondition hcomes)).rest rfl⟩
  have hbound : info.id < t.statuses.nodes.size := by
    rw [(progress_of_among ha).size]
    exact hstatuses ▸ h.bound
  refine trail_inside h.nodup (.branch (decision_pause pointers hbound))
    (pausedAt?_pause pointers (Statuses.size_decide t.statuses _ _ ▸ hbound))
    (fun id hid => ?_) htrail
  rw [Statuses.ofNode_pause_of_ne _ _ hid]
  exact Statuses.ofNode_decide_of_ne _ hid

section Loops

variable {header : ForHeader}

theorem sublist_children : (idsAll children).Sublist
    (idsAll (forBlock info header children otherwise).childNodes) := by
  rw [childNodes, idsAll_append]
  exact List.sublist_append_left _ _

/-- Which iterations of a loop have not been visited when a walk comes to its first, and which one
has a trail if the loop has one; `P` is what is known in that case. -/
theorem clear_of_loop {items : List Value} {first : Nat} {resumed : Option Value} {P : Prop}
    (h : Clear a.statuses (forBlock info header children otherwise).ids path ∨
      Trail a.statuses (forBlock info header children otherwise) path ∧ P)
    (hloop : runFrom a (takeItems setting info.id path header.iterable) =
      (.ok ⟨items, first, resumed⟩, s)) :
    (∀ j, first < j → Clear a.statuses (idsAll children) (path ++ [j])) ∧
      (Clear a.statuses (idsAll children) (path ++ [first]) ∨
        s = a ∧ P ∧ TrailAmong a.statuses children (path ++ [first])) := by
  -- a fresh loop has no iteration behind it
  rcases h with hclear | ⟨htrail, hp⟩
  · have hall : ∀ j, Clear a.statuses (idsAll children) (path ++ [j]) := fun j =>
      hclear.mono (fun id hid => idsAll_childNodes_subset _ (sublist_children.subset hid))
        (List.prefix_append path [j])
    exact ⟨fun j _ => hall j, .inl (hall first)⟩
  -- a resumed one goes on where it was paused, with nothing kept of later iterations
  · obtain ⟨ms, inner, hpart, hamong⟩ := htrail.part rfl
    cases hpart with
    | iteration hdecision hitems hlater =>
      obtain ⟨heq, rfl⟩ := Prod.mk.inj ((runFrom_takeItems hdecision).symm.trans hloop)
      obtain ⟨rfl, rfl, rfl⟩ := Loop.mk.inj (Except.ok.inj heq)
      exact ⟨hlater, .inr ⟨rfl, hp, hamong⟩⟩
    | noItems hclear => exact ⟨fun j _ => hclear j, .inl (hclear first)⟩

theorem asks_iteration {items before later : List Value} {item : Value} {first : Nat}
    {resumed v : Option Value}
    (h : Pausing setting (forBlock info header children otherwise) path w)
    (hloop : runFrom (w.enter info.id path) (takeItems setting info.id path header.iterable) =
      (.ok ⟨items, first, resumed⟩, s))
    (hitems : items.drop first = before ++ item :: later)
    (hbefore : runFrom s (iterations setting info.id path header items
      (fun inner => walkAll setting children inner) first resumed before) = (.ok (), u))
    (hindex : runFrom (begun u ⟨info.id, path, .iteration (first + before.length)⟩ header.item item)
      (setIndex setting info.id path header (first + before.length)
        (if before.isEmpty then resumed else none)) = (.ok v, x))
    (ha : PausesAmong setting (path ++ [first + before.length]) config children x t) :
    AsksInside setting (forBlock info header children otherwise) path config w
      { t with statuses :=
          t.statuses.decide info.id (.iteration items (first + before.length) v) } := by
  obtain ⟨hlater, hfirst⟩ := clear_of_loop h.ready hloop
  have hsstatuses : s.statuses = (w.enter info.id path).statuses :=
    ((silent_takeItems setting info.id path header.iterable _).done hloop).1.statuses
  have hxsilent := ((silent_setIndex setting info.id path header _ _ _).done hindex).1
  have hxstatuses : x.statuses = u.statuses := hxsilent.statuses
  have hsize : x.statuses.nodes.size = (w.enter info.id path).statuses.nodes.size := by
    rw [hxstatuses, (progress_of_iterations hbefore).1.size, hsstatuses]
  have hwipes : Wipes (w.enter info.id path) x :=
    ((Wipes.of_statuses hsstatuses).trans (wipes_of_iterations hbefore)).trans
      (Wipes.of_statuses hxstatuses)
  -- the first iteration may be the one resumed, any later one starts clear
  have hready : ReadyAmong x children (path ++ [first + before.length]) := by
    cases before with
    | nil =>
      obtain rfl : s = u := (Prod.mk.inj hbefore).2
      rcases hfirst with hclear | ⟨rfl, hany, hamong⟩
      · exact .inl (hclear.of_wipes hwipes)
      · refine .inr ⟨hxstatuses ▸ hamong, ?_⟩
        rw [hxsilent.same]
        exact hany
    | cons y ys =>
      exact .inl ((hlater _ (Nat.lt_add_of_pos_right (Nat.succ_pos _))).of_wipes hwipes)
  obtain ⟨htrail, m, z, hcomes, hasks⟩ := asks_among (h.nodup_inner sublist_children)
    (hsize ▸ h.bounded_inner sublist_children)
    (fun m hm => h.inside m (List.mem_append_left _ hm)) hready ha
  refine ⟨fun pointers => ?_,
    (hasks.inside h.running (.iteration hloop hitems hbefore hindex hcomes)).rest rfl⟩
  have hbound : info.id < t.statuses.nodes.size := by
    rw [(progress_of_among ha).size, hsize]
    exact h.bound
  have hself : info.id ∉ idsAll children := fun hmem => h.self (sublist_children.subset hmem)
  have hframe : ∀ id, id ≠ info.id → ((t.statuses.decide info.id
      (.iteration items (first + before.length) v)).pause info.id path pointers).ofNode id =
        t.statuses.ofNode id := by
    intro id hid
    rw [Statuses.ofNode_pause_of_ne _ _ hid]
    exact Statuses.ofNode_decide_of_ne _ hid
  have hlength : first + before.length < items.length := by
    have heq := congrArg List.length hitems
    rw [List.length_drop, List.length_append, List.length_cons] at heq
    omega
  refine trail_inside h.nodup (.iteration (decision_pause pointers hbound) hlength fun j hj => ?_)
    (pausedAt?_pause pointers (Statuses.size_decide t.statuses _ _ ▸ hbound)) hframe htrail
  -- what the iteration stamps leaves the ones behind it clear
  have hstamps : Stamps (path ++ [first + before.length]) x t :=
    stamps_of_among ha
  have hclear : Clear x.statuses (idsAll children) (path ++ [j]) :=
    (hlater j (Nat.lt_of_le_of_lt (Nat.le_add_right _ _) hj)).of_wipes hwipes
  refine (hclear.of_stamps hstamps (Nat.ne_of_lt hj)).of_frame fun id hid => hframe id fun heq => ?_
  exact hself (heq ▸ hid)

theorem asks_noItems {loop : Loop} {m : Node}
    (h : Pausing setting (forBlock info header children (some m)) path w)
    (hloop : runFrom (w.enter info.id path) (takeItems setting info.id path header.iterable) =
      (.ok loop, s))
    (hempty : loop.items = [])
    (ht : runFrom (entered s ⟨info.id, path, .noItems⟩) (m.walk setting path) =
      (.error (.paused config), t)) :
    AsksInside setting (forBlock info header children (some m)) path config w t := by
  have hsilent := ((silent_takeItems setting info.id path header.iterable _).done hloop).1
  have hstatuses : s.statuses = (w.enter info.id path).statuses := hsilent.statuses
  have hresponses : s.responses = (w.enter info.id path).responses := by rw [hsilent.same]
  have hm : m ∈ (forBlock info header children (some m)).childNodes :=
    List.mem_append_right _ (List.mem_singleton.2 rfl)
  have hmids : m.ids ⊆ idsAll (forBlock info header children (some m)).childNodes :=
    ids_subset_idsAll hm
  have hself : info.id ∉ idsAll (forBlock info header children (some m)).childNodes := h.self
  have hdisjoint : ∀ id ∈ idsAll children, id ∉ m.ids := by
    have hnodup := h.nodup_inner (List.Sublist.refl _)
    rw [childNodes, idsAll_append] at hnodup
    intro id hid hmem
    exact (List.nodup_append.1 hnodup).2.2 id hid id
      (ids_subset_idsAll (List.mem_singleton.2 rfl) hmem) rfl
  -- whatever the loop had decided, no iteration was visited
  have hstart : (∀ j, Clear s.statuses (idsAll children) (path ++ [j])) ∧
      Ready (entered s ⟨info.id, path, .noItems⟩) m path := by
    show _ ∧ (Clear s.statuses _ _ ∨ Trail s.statuses _ _ ∧ s.responses ≠ [])
    rw [hstatuses, hresponses]
    rcases h.ready with hclear | ⟨htrail, hany⟩
    · exact ⟨fun j => hclear.mono (fun id hid =>
        idsAll_childNodes_subset _ (sublist_children.subset hid))
          (List.prefix_append path [j]),
        .inl (hclear.mono (fun id hid => idsAll_childNodes_subset _ (hmids hid)) List.prefix_rfl)⟩
    · obtain ⟨ms, inner, hpart, before, y, after, hms, hover, hy, hafter⟩ := htrail.part rfl
      cases hpart with
      | iteration hdecision hitems hlater =>
        obtain rfl := Except.ok.inj (Prod.mk.inj ((runFrom_takeItems hdecision).symm.trans hloop)).1
        dsimp only at hempty
        rw [hempty] at hitems
        exact absurd hitems (Nat.not_lt_zero _)
      | noItems hclear =>
        obtain ⟨-, rfl⟩ : before = [] ∧ m = y := by
          cases before with
          | nil => exact ⟨rfl, (List.cons.inj hms).1⟩
          | cons z zs => simp at hms
        exact ⟨hclear, .inr ⟨hy, hany⟩⟩
  obtain ⟨htrail, hasks⟩ := h.inside m hm
    (fun id hid => hstatuses ▸ h.bounded id (idsAll_childNodes_subset _ (hmids hid))) hstart.2 ht
  refine ⟨fun pointers => ?_, hasks.inside h.running (.noItems hloop hempty)⟩
  have hsize : t.statuses.nodes.size = s.statuses.nodes.size := (progress_of_walk ht).size
  have hbound : info.id < t.statuses.nodes.size := by
    rw [hsize, hstatuses]
    exact h.bound
  have hframe : ∀ id, id ≠ info.id →
    (t.statuses.pause info.id path pointers).ofNode id = t.statuses.ofNode id :=
    fun id hid => Statuses.ofNode_pause_of_ne _ _ hid
  refine trail_inside h.nodup (.noItems fun j => ?_) (pausedAt?_pause pointers hbound) hframe
    ⟨[], m, [], rfl, List.forall_mem_nil _, htrail, List.forall_mem_nil _⟩
  refine Clear.of_frame (hstart.1 j) fun id hid => ?_
  exact (hframe id fun heq => hself (heq ▸ sublist_children.subset hid)).trans
    ((progress_of_walk ht).frame id (hdisjoint id hid))

end Loops

/-- A step pauses only if it has no stamp: with a stamp it has a response to take. -/
theorem asks_step {name : String} {attributes : List Attribute}
    (h : Pausing setting (element info name attributes children) path w)
    (hkind : TagKind.ofName name = .step)
    (hconfig : runFrom (w.enter info.id path) (stepConfig setting info.id path attributes) =
      (.ok config, s))
    (hbody : runFrom { s with inStep := true } (walkAll setting children path) = (.ok (), t))
    (hnone : t.responses = []) :
    AsksInside setting (element info name attributes children) path config w
      (waiting setting info.id path { t with inStep := false }) := by
  have hids := List.Sublist.refl (idsAll children)
  have hsilent := (quiet_stepConfig setting info.id path attributes (w.enter info.id path)).done
    hconfig
  have hstatuses : s.statuses = (w.enter info.id path).statuses := hsilent.1.statuses
  have hunpaused : (w.enter info.id path).statuses.pausedAt? info.id path = none := by
    rcases h.ready with hclear | ⟨htrail, hany⟩
    · exact hclear.pausedAt?_eq_none (id_mem_ids _)
    · cases htrail with
      | step _ hpaused hover =>
        -- everything inside is over, so that the response is still there
        have hskip : runFrom { s with inStep := true } (walkAll setting children path) =
            (.ok (), { s with inStep := true }) := walkAll_over fun x hx => by
          rw [← hover x hx]
          exact congrArg (fun statuses : Statuses => statuses.completed x.id path) hstatuses
        obtain rfl := (Prod.mk.inj (hskip.symm.trans hbody)).2
        refine absurd ?_ hany
        rw [← hnone, hsilent.1.same]
        rfl
      | inside hpaused hroute hover hm hclear =>
        exact nomatch hroute.isStep_eq_false.symm.trans (beq_iff_eq.2 hkind)
  have hwaiting : (waiting setting info.id path { t with inStep := false }).statuses = t.statuses :=
    Walk.statuses_closed setting _
  have hsize : t.statuses.nodes.size = (w.enter info.id path).statuses.nodes.size := by
    rw [(progress_of_walkAll hbody).size]
    exact congrArg (fun statuses : Statuses => statuses.nodes.size) hstatuses
  have hover : ∀ m ∈ children, t.statuses.completed m.id path = true :=
    completed_of_walkAll (h.nodup_inner hids) (fun id hid => by
      show id < s.statuses.nodes.size
      rw [hstatuses]
      exact h.bounded_inner hids id hid) hbody
  refine ⟨fun pointers => ?_, ?_⟩
  · rw [hwaiting]
    refine .step hkind (pausedAt?_pause pointers (hsize ▸ h.bound)) fun x hx => ?_
    have hid : x.id ∈ idsAll children := ids_subset_idsAll hx x.id_mem_ids
    have hne : x.id ≠ info.id := by
      intro heq
      rw [heq] at hid
      exact h.self hid
    exact (completed_of_frame (Statuses.ofNode_pause_of_ne path pointers hne)).trans (hover x hx)
  · unfold stepConfig at hconfig
    rw [runFrom_bind_ok (runFrom_look _ _), hunpaused] at hconfig
    obtain ⟨values, y, hvalues, hrest⟩ := runFrom_bind_eq_ok hconfig
    exact .intro (.here _ path w) hkind h.running hvalues
      (Except.ok.inj (Prod.mk.inj hrest).1).symm rfl

theorem asks_act (h : Pausing setting n path w)
    (hp : Pauses setting path config n (w.enter n.id path) t) :
    AsksInside setting n path config w t := by
  -- what goes on around the children leaves statuses and responses as they are
  cases hp with
  | fragment ha =>
    refine asks_plain h rfl (fun _ => .fragment) (fun T ms inner hroute => ?_) rfl rfl rfl
      (fun m s hcomes => .fragment hcomes) ha rfl rfl
    cases hroute with
    | fragment => exact ⟨rfl, rfl⟩
  | taken hcondition ha => exact asks_branch h hcondition ha
  | passed hcondition hm => exact asks_branch h hcondition (pausesAmong_one hm)
  | iteration hnames hloop hitems hbefore hindex ha =>
    exact asks_iteration h hloop hitems hbefore hindex ha
  | noItems hnames hloop hempty ht => exact asks_noItems h hloop hempty ht
  | @content info name attributes children kind values _ s t hkind houter hvalues ha =>
    have hstep : TagKind.ofName name ≠ .step := by
      rw [hkind]
      exact nofun
    have hsilent := ((silent_values setting info.id path attributes _).done hvalues).1
    have hresponses : s.responses = (w.enter info.id path).responses :=
      (congrArg Walk.responses hsilent.same).trans rfl
    refine asks_plain (x := { s.closedText with inContent := true, inArguments := false }) h rfl
      (fun _ => .element hstep) (fun T ms inner hroute => ?_)
      (beq_eq_false_iff_ne.2 hstep) hsilent.statuses
      hresponses (fun m s hcomes => .content hkind hvalues hcomes) ha rfl rfl
    cases hroute with
    | element => exact ⟨rfl, rfl⟩
  | @toolCall info name attributes children values _ s t hkind houter hvalues ha =>
    have hstep : TagKind.ofName name ≠ .step := by
      rw [hkind]
      exact nofun
    have hsilent := ((silent_values setting info.id path attributes _).done hvalues).1
    have hresponses : s.responses = (w.enter info.id path).responses :=
      (congrArg Walk.responses hsilent.same).trans rfl
    refine asks_plain (x := { s with stray := "", inArguments := true }) h rfl
      (fun _ => .element hstep) (fun T ms inner hroute => ?_)
      (beq_eq_false_iff_ne.2 hstep) hsilent.statuses
      hresponses (fun m s hcomes => .toolCall hkind hvalues hcomes) ha rfl rfl
    cases hroute with
    | element => exact ⟨rfl, rfl⟩
  | @unknown info name attributes children p _ t hkind ha =>
    have hstep : TagKind.ofName name ≠ .step := by
      rw [hkind]
      exact nofun
    refine asks_plain (x :=
      { w.enter info.id path with problems := (w.enter info.id path).problems ++ [p] }) h rfl
      (fun _ => .element hstep) (fun T ms inner hroute => ?_) (beq_eq_false_iff_ne.2 hstep) rfl rfl
      (fun m s hcomes => .unknown hkind hcomes) ha rfl rfl
    cases hroute with
    | element => exact ⟨rfl, rfl⟩
  | step hkind houter hmessage hname hconfig hbody hnone =>
    exact asks_step h hkind hconfig hbody hnone

/-- The start of a visit makes no stamp, and it changes nothing on a trail. -/
theorem Ready.enter (h : Ready w n path) : Ready (w.enter n.id path) n path := by
  rcases h with hclear | ⟨htrail, hany⟩
  · exact .inl (hclear.of_wipes (wipes_enter w n.id path))
  · refine .inr ⟨(statuses_enter_of_paused htrail.paused).symm ▸ htrail, ?_⟩
    unfold Walk.enter
    split
    · exact hany
    · exact hany

/-- A walk that comes to no step with a stamp, or has a response for that step, pauses at a step
that has just evaluated its attributes; and it leaves a trail behind. -/
theorem asks_of_walk (n : Node) (hnodup : n.ids.Nodup) : AsksIn setting n := by
  induction n using Node.induct with
  | step n ih =>
    intro path config w t hbounded hready hrun
    obtain ⟨hover, s, hs, rfl⟩ := pauses_of_walk hrun
    have hinner : (idsAll n.childNodes).Nodup := (List.nodup_cons.1 (ids_eq n ▸ hnodup)).2
    have hentered : Progress n.ids path w (w.enter n.id path) ∧
      Finish n.ids False w (w.enter n.id path) :=
      progress_enter w n.id_mem_ids
    have hpausing : Pausing setting n path w :=
      { nodup := hnodup
        bounded := fun id hid => hentered.1.size ▸ hbounded id hid
        inside := fun m hm => ih m hm (hinner.sublist (ids_sublist_idsAll hm))
        ready := hready.enter
        running := hover }
    obtain ⟨htrail, hasks⟩ := asks_act hpausing hs
    exact ⟨htrail _, hasks.rest rfl⟩

end Pausing

end Node

end PromptMarkup

/-
What a chain does not evaluate a second time.

* `Node.Forgets` — the expressions that a chain evaluates again when it goes on: the items of a loop
  in whose `else` part a step stands, and the attributes of a piece of content or of a tool call
  around a step;
* `Node.Spent` — the statuses of the nodes rule out that a visit evaluates an expression on an
  occasion;
* `Node.tallies_spent` — it does not, whatever the state is otherwise;
* `Node.spent_of_walk` — when a walk pauses, what it has evaluated is spent, and what was spent
  remains so;
* `Chain.evaluated_once` — over all calls of a chain every expression that is not forgotten is
  evaluated at most once on every occasion;
* `Chain.evaluated_again` — prompts in which the others are evaluated twice.

Design notes: a chain may pause many times, so it does not suffice to compare one pause with the
walk behind it.  `Node.Spent` follows the tree: a node in front of the place of the pause is over, a
block around it has recorded its decision, and only the part that the decision names is looked into.
-/
import PromptMarkup.Proofs.Answers
import PromptMarkup.Proofs.Reading
import PromptMarkup.Proofs.Tallies
import PromptMarkup.Yaml.Document

namespace PromptMarkup

open PromptMarkup.Computation Walking

namespace Node

/-! ### Expressions that are forgotten -/

/-- An expression is evaluated again when a walk comes back into its node. -/
inductive Forgets : Node → Expr → Prop
  /-- A loop without items does not record that it has none. -/
  | loopItems {info : NodeInfo} {header : ForHeader} {children : List Node} {m : Node}
    (h : m.HoldsStep) :
    Forgets (.forBlock info header children (some m)) header.iterable
  /-- Only a step records that its attributes were evaluated. -/
  | elementAttribute {info : NodeInfo} {name : String} {attributes : List Attribute}
    {children : List Node} {m : Node} {e : Expr}
    (hkind : (∃ kind, TagKind.ofName name = .content kind) ∨ TagKind.ofName name = .toolCall)
    (hm : m ∈ children) (h : m.HoldsStep) (he : e ∈ attributes.flatMap Attribute.expressions) :
    Forgets (.element info name attributes children) e

/-- What is forgotten is an expression of the node. -/
theorem Forgets.mem {n : Node} {e : Expr} (h : n.Forgets e) : e ∈ n.expressions := by
  cases h with
  | loopItems h => exact List.mem_cons_self
  | elementAttribute hkind hm h he => exact he

/-- A loop without an `else` part. -/
def isPlainLoop : Node → Bool
  | .forBlock _ _ _ none => true
  | _ => false

theorem not_forgets_of_isPlainLoop {n : Node} (h : n.isPlainLoop = true) (e : Expr) :
    ¬ n.Forgets e := by
  rintro ⟨⟩
  · cases h
  · cases h

/-- On an occasion no expression is forgotten. -/
def Remembers (n : Node) (k : Occasion) : Prop :=
  ∀ m ∈ n.nodes, m.id = k.node → ∀ e, m.Forgets e → e.span ≠ k.span

theorem Remembers.child {n m : Node} {k : Occasion} (h : n.Remembers k) (hm : m ∈ n.childNodes) :
    m.Remembers k :=
  fun x hx => h x (mem_nodes_of_child hm hx)

/-! ### Occasions that are spent -/

/-- The statuses tell that a visit of a node at a path evaluates nothing on an occasion. -/
inductive Spent (k : Occasion) (s : Statuses) : Node → IterationPath → Prop
  | elsewhere {n : Node} {path : IterationPath} (h : ¬ k.Inside n.ids path) : Spent k s n path
  | ended {n : Node} {path : IterationPath} (h : s.completed n.id path = true) : Spent k s n path
  | fragment {info : NodeInfo} {children : List Node} {path : IterationPath}
    (h : ∀ m ∈ children, Spent k s m path) : Spent k s (.fragment info children) path
  /-- An `if` block goes back into the branch that it has taken. -/
  | branch {info : NodeInfo} {condition : Expr} {elseIf : Bool} {children : List Node}
    {otherwise : Option Node} {path : IterationPath} {taken : Bool}
    (hpaused : (s.pausedAt? info.id path).isSome)
    (hdecision : (s.ofNode info.id).decision = .branch taken)
    (h : ∀ m ∈ if taken then children else otherwise.toList, Spent k s m path) :
    Spent k s (.ifBlock info condition elseIf children otherwise) path
  /-- A loop goes back into the iteration in which it paused. -/
  | iteration {info : NodeInfo} {header : ForHeader} {children : List Node}
    {otherwise : Option Node}
    {path : IterationPath} {items : List Value} {i : Nat} {v : Option Value}
    (hpaused : (s.pausedAt? info.id path).isSome)
    (hdecision : (s.ofNode info.id).decision = .iteration items i v) (hitems : i < items.length)
    (hindex : header.index.isSome → v.isSome)
    (hlater : ∀ j, i < j → ¬ k.Inside (info.id :: idsAll children) (path ++ [j]))
    (h : ∀ m ∈ children, Spent k s m (path ++ [i])) :
    Spent k s (.forBlock info header children otherwise) path
  /-- It does not matter whether a loop has items if its `else` part is spent. -/
  | otherwise {info : NodeInfo} {header : ForHeader} {children : List Node}
    {otherwise : Option Node}
    {path : IterationPath} (hself : k.node ≠ info.id) (hchildren : k.node ∉ idsAll children)
    (h : ∀ m ∈ otherwise.toList, Spent k s m path) :
    Spent k s (.forBlock info header children otherwise) path
  | element {info : NodeInfo} {name : String} {attributes : List Attribute} {children : List Node}
    {path : IterationPath} (hself : k.node ≠ info.id) (h : ∀ m ∈ children, Spent k s m path) :
    Spent k s (.element info name attributes children) path
  | step {info : NodeInfo} {name : String} {attributes : List Attribute} {children : List Node}
    {path : IterationPath} (hkind : TagKind.ofName name = .step)
    (hpaused : (s.pausedAt? info.id path).isSome) (h : ∀ m ∈ children, Spent k s m path) :
    Spent k s (.element info name attributes children) path

section Frames

variable {k : Occasion} {s t : Statuses} {n : Node} {path : IterationPath}

theorem pausedAt?_of_frame {id : Nat} (h : t.ofNode id = s.ofNode id) :
    t.pausedAt? id path = s.pausedAt? id path := by
  rw [Statuses.pausedAt?, h]
  rfl

theorem completed_of_frame {id : Nat} (h : t.ofNode id = s.ofNode id) :
    t.completed id path = s.completed id path := by
  rw [Statuses.completed, h]
  rfl

/-- What happens to other nodes does not matter. -/
theorem Spent.of_frame (h : Spent k s n path) (hframe : ∀ id ∈ n.ids, t.ofNode id = s.ofNode id) :
    Spent k t n path := by
  -- the statuses of the nodes inside are among those that stay
  have inner : ∀ {n m : Node}, m ∈ n.childNodes → (∀ id ∈ n.ids, t.ofNode id = s.ofNode id) →
      ∀ id ∈ m.ids, t.ofNode id = s.ofNode id := fun hm hframe id hid =>
    hframe id (idsAll_childNodes_subset _ (ids_subset_idsAll hm hid))
  induction h with
  | elsewhere h => exact .elsewhere h
  | ended h => exact .ended (completed_of_frame (hframe _ (id_mem_ids _)) ▸ h)
  | @fragment info children path h ih =>
    exact .fragment fun m hm => ih m hm (inner (n := .fragment info children) hm hframe)
  | @branch info condition elseIf children otherwise path taken hpaused hdecision h ih =>
    have hself := hframe info.id (id_mem_ids _)
    refine .branch (pausedAt?_of_frame hself ▸ hpaused) (hself ▸ hdecision) fun m hm =>
      ih m hm (inner ?_ hframe)
    cases taken with
    | true => exact List.mem_append_left _ hm
    | false => exact List.mem_append_right _ hm
  | @iteration info header children otherwise path items i v hpaused hdecision hitems hindex hlater
      h ih =>
    have hself := hframe info.id (id_mem_ids _)
    exact .iteration (pausedAt?_of_frame hself ▸ hpaused) (hself ▸ hdecision) hitems hindex hlater
      fun m hm => ih m hm (inner (List.mem_append_left _ hm) hframe)
  | @otherwise info header children otherwise path hself hchildren h ih =>
    exact .otherwise hself hchildren fun m hm => ih m hm (inner (List.mem_append_right _ hm) hframe)
  | @element info name attributes children path hself h ih =>
    exact .element hself fun m hm =>
      ih m hm (inner (n := .element info name attributes children) hm hframe)
  | @step info name attributes children path hkind hpaused h ih =>
    have hself := hframe info.id (id_mem_ids _)
    exact .step hkind (pausedAt?_of_frame hself ▸ hpaused) fun m hm =>
      ih m hm (inner (n := .element info name attributes children) hm hframe)

/-- The start of a visit concerns no other node. -/
theorem ofNode_enter_of_ne (w : Walk) (path : IterationPath) {id other : Nat} (h : other ≠ id) :
    (w.enter id path).statuses.ofNode other = w.statuses.ofNode other := by
  unfold Walk.enter
  split
  · rfl
  · exact Statuses.ofNode_decide_of_ne _ h

/-- A visit that is resumed starts with the statuses as they are. -/
theorem statuses_enter_of_paused {w : Walk} {id : Nat} (h : (w.statuses.pausedAt? id path).isSome) :
    (w.enter id path).statuses = w.statuses := by
  obtain ⟨pointers, hpointers⟩ := Option.isSome_iff_exists.1 h
  unfold Walk.enter
  rw [hpointers]

/-- The start of a visit does not end it. -/
theorem completed_enter (w : Walk) (id : Nat) (path : IterationPath) :
    (w.enter id path).statuses.completed id path = w.statuses.completed id path := by
  unfold Walk.enter
  split
  · rfl
  · have hsame : ((w.statuses.decide id .none).ofNode id).completedAt =
      (w.statuses.ofNode id).completedAt :=
      Statuses.completedAt_of_decides (.inr ⟨.none, rfl⟩) id
    rw [Statuses.completed, hsame]
    rfl

theorem tally_enter (w : Walk) (id : Nat) (path : IterationPath) (k : Occasion) :
    (w.enter id path).tally k = w.tally k := by
  unfold Walk.enter
  split
  · rfl
  · rfl

end Frames

/-! ### Walks behind a pause -/

section Behind

variable {setting : Setting} {k : Occasion} {s t : Statuses} {n : Node} {path : IterationPath}

/-- Of several nodes the later ones are not touched by the visits of the earlier ones. -/
theorem tallies_walkAll_spent {ns : List Node} (hnodup : (idsAll ns).Nodup)
    (hframe : ∀ id ∈ idsAll ns, t.ofNode id = s.ofNode id)
    (ih : ∀ m ∈ ns, ∀ t, (∀ id ∈ m.ids, t.ofNode id = s.ofNode id) →
      Tallies k 0 t (m.walk setting path)) :
    Tallies k 0 t (walkAll setting ns path) := by
  induction ns generalizing t with
  | nil => exact Tallies.pure _
  | cons m rest ihrest =>
    rw [idsAll_cons] at hnodup hframe
    obtain ⟨-, hrest, hdisjoint⟩ := List.nodup_append.1 hnodup
    have hm : Tallies k 0 t (m.walk setting path) :=
      ih m List.mem_cons_self t fun id hid => hframe id (List.mem_append_left _ hid)
    refine hm.bind (d := 0) fun _ w u hw hu => ihrest hrest (fun id hid => ?_)
      fun x hx => ih x (List.mem_cons_of_mem _ hx)
    rw [(progress_of_walk hu).frame id fun hidm => hdisjoint id hidm id hid rfl, hw]
    exact hframe id (List.mem_append_right _ hid)

theorem tallies_takesBranch_decided {id : Nat} {condition : Expr} {taken : Bool}
    (h : (s.ofNode id).decision = .branch taken) :
    Tallies k 0 s (takesBranch setting id path condition) := by
  intro w hw
  rw [runFrom_takesBranch (hw ▸ h)]
  exact Nat.le_refl _

theorem tallies_takeItems_decided {id : Nat} {iterable : Expr} {items : List Value} {i : Nat}
    {v : Option Value} (h : (s.ofNode id).decision = .iteration items i v) :
    Tallies k 0 s (takeItems setting id path iterable) := by
  intro w hw
  rw [runFrom_takeItems (hw ▸ h)]
  exact Nat.le_refl _

/-- A loop that goes back into an iteration. -/
theorem tallies_loop_resumed {info : NodeInfo} {header : ForHeader} {children : List Node}
    {otherwise : Option Node} {items : List Value} {i : Nat} {v : Option Value}
    (hdecision : (s.ofNode info.id).decision = .iteration items i v) (hitems : i < items.length)
    (hindex : header.index.isSome → v.isSome)
    (hlater : ∀ j, i < j → ¬ k.Inside (info.id :: idsAll children) (path ++ [j]))
    (hchildren : Tallies k 0 s (walkAll setting children (path ++ [i]))) :
    Tallies k 0 s (act setting (forBlock info header children otherwise) path) := by
  refine tallies_forBlock (tallies_takeItems_decided hdecision) (d := 0) fun loop w u hw hu => ?_
  obtain rfl : ⟨items, i, v⟩ = loop :=
    Except.ok.inj (Prod.mk.inj ((runFrom_takeItems (hw ▸ hdecision)).symm.trans hu)).1
  have hsome : ¬ items.isEmpty = true := by
    intro hempty
    rw [List.isEmpty_iff.1 hempty] at hitems
    exact Nat.not_lt_zero i hitems
  dsimp only
  rw [if_neg hsome, List.drop_eq_getElem_cons hitems]
  refine (tallies_iteration (d := 0) (tallies_setIndex_resumed hindex) hchildren).bind (d := 0)
    fun _ _ u _ _ => ?_
  exact tallies_iterations_elsewhere fun j hj => hlater j hj

/-- What is spent is not evaluated. -/
theorem tallies_of_spent (h : Spent k s n path) (hnodup : n.ids.Nodup)
    (hframe : ∀ id ∈ n.ids, t.ofNode id = s.ofNode id) : Tallies k 0 t (n.walk setting path) := by
  -- entering a node leaves the statuses of the nodes below it as they are
  have inner : ∀ {n : Node} {ns : List Node} {path inner : IterationPath} {t : Statuses} {w : Walk},
      n.ids.Nodup → ns ⊆ n.childNodes → (idsAll ns).Sublist (idsAll n.childNodes) →
      (∀ id ∈ n.ids, t.ofNode id = s.ofNode id) → w.statuses = t →
      (∀ m ∈ ns, ∀ {t}, m.ids.Nodup → (∀ id ∈ m.ids, t.ofNode id = s.ofNode id) →
        Tallies k 0 t (m.walk setting inner)) →
      Tallies k 0 (w.enter n.id path).statuses (walkAll setting ns inner) := by
    intro n ns path inner t w hnodup hns hids hframe hw ih
    obtain ⟨hself, hchildren⟩ := List.nodup_cons.1 (ids_eq n ▸ hnodup)
    have hall := hchildren.sublist hids
    refine tallies_walkAll_spent (s := s) hall (fun id hid => ?_)
      fun m hm t hframe => ih m hm (hall.sublist (ids_sublist_idsAll hm)) hframe
    have hne : id ≠ n.id := fun heq => hself (heq ▸ hids.subset hid)
    rw [ofNode_enter_of_ne w path hne, hw]
    exact hframe id (idsAll_childNodes_subset n (hids.subset hid))
  -- on how the evaluation is spent: one case for each way in which it cannot come again
  induction h generalizing t with
  | elsewhere h => exact tallies_walk_elsewhere h
  | @ended n path h =>
    rw [walk_eq]
    exact Tallies.visiting_over (completed_of_frame (hframe n.id n.id_mem_ids) ▸ h)
  | fragment h ih =>
    rw [walk_eq]
    refine Tallies.visiting fun w hw => Tallies.inCopy ?_
    exact inner hnodup (fun _ hm => hm) (List.Sublist.refl _) hframe hw ih
  | @branch info condition elseIf children otherwise path taken hpaused hdecision h ih =>
    have hself := hframe info.id (id_mem_ids _)
    rw [walk_eq]
    refine Tallies.visiting fun w hw => ?_
    -- the block was paused in this branch, and enters with its decision still stored
    have hdecided : ((w.enter info.id path).statuses.ofNode info.id).decision = .branch taken := by
      rw [statuses_enter_of_paused (by rw [hw, pausedAt?_of_frame hself]; exact hpaused), hw, hself]
      exact hdecision
    have hpart : Tallies k 0 (w.enter info.id path).statuses
        (walkAll setting (if taken then children else otherwise.toList) path) := by
      refine inner (n := ifBlock info condition elseIf children otherwise) hnodup
        (fun m hm => ?_) ?_ hframe hw ih
      · cases taken with
        | true => exact List.mem_append_left _ hm
        | false => exact List.mem_append_right _ hm
      · rw [childNodes, idsAll_append]
        cases taken with
        | true => exact List.sublist_append_left _ _
        | false => exact List.sublist_append_right _ _
    refine tallies_ifBlock (tallies_takesBranch_decided hdecided)
      (d := 0) fun taken' w' u hw' hu => ?_
    -- the branch resumed is the branch decided, so the other one is not walked
    obtain rfl : taken = taken' :=
      Except.ok.inj (Prod.mk.inj ((runFrom_takesBranch (hw' ▸ hdecided)).symm.trans hu)).1
    cases taken with
    | true => exact hpart
    | false => exact walkElse_eq setting otherwise path ▸ hpart
  | @iteration info header children otherwise path items i v hpaused hdecision hitems hindex hlater
      h ih =>
    have hself := hframe info.id (id_mem_ids _)
    rw [walk_eq]
    refine Tallies.visiting fun w hw => ?_
    have hdecided : ((w.enter info.id path).statuses.ofNode info.id).decision =
      .iteration items i v := by
      rw [statuses_enter_of_paused (by rw [hw, pausedAt?_of_frame hself]; exact hpaused), hw, hself]
      exact hdecision
    -- the loop resumes in the iteration it was paused in; the earlier ones are not walked again
    refine tallies_loop_resumed hdecided hitems hindex hlater ?_
    refine inner (n := forBlock info header children otherwise) hnodup
      (fun m hm => List.mem_append_left _ hm) ?_ hframe hw ih
    rw [childNodes, idsAll_append]
    exact List.sublist_append_left _ _
  | @otherwise info header children otherwise path hself hchildren h ih =>
    rw [walk_eq]
    refine Tallies.visiting fun w hw => ?_
    have hpart : Tallies k 0 (w.enter info.id path).statuses
      (walkAll setting otherwise.toList path) := by
      refine inner (n := forBlock info header children otherwise) hnodup
        (fun m hm => List.mem_append_right _ hm) ?_ hframe hw ih
      rw [childNodes, idsAll_append]
      exact List.sublist_append_right _ _
    refine tallies_forBlock (Tallies.silent_elsewhere (silent_takeItems setting info.id path _)
      hself) (d := 0)
      fun loop _ _ _ _ => ?_
    -- without items the else part is walked; with items the expression lies in none of them
    split
    · exact walkElse_eq setting otherwise path ▸ hpart
    · refine tallies_iterations_elsewhere fun j _ hin => ?_
      exact (List.mem_cons.1 hin.1).elim hself hchildren
  | @element info name attributes children path hself h ih =>
    rw [walk_eq]
    refine Tallies.visiting fun w hw => ?_
    have hchildren : Tallies k 0 (w.enter info.id path).statuses (walkAll setting children path) :=
      inner (n := element info name attributes children) hnodup
        (fun _ hm => hm) (List.Sublist.refl _) hframe hw ih
    exact tallies_element (c := 0)
      (Tallies.silent_elsewhere (silent_values setting info.id path _) hself)
      (Tallies.silent_elsewhere (quiet_stepConfig setting info.id path attributes) hself) hchildren
  | @step info name attributes children path hkind hpaused h ih =>
    have hself := hframe info.id (id_mem_ids _)
    rw [walk_eq]
    refine Tallies.visiting fun w hw => ?_
    -- the step is still paused, so its attributes are not evaluated again
    have hstill : ((w.enter info.id path).statuses.pausedAt? info.id path).isSome := by
      have hw' : (w.statuses.pausedAt? info.id path).isSome := by
        rw [hw, pausedAt?_of_frame hself]
        exact hpaused
      rw [statuses_enter_of_paused hw']
      exact hw'
    have hchildren : Tallies k 0 (w.enter info.id path).statuses (walkAll setting children path) :=
      inner (n := element info name attributes children) hnodup
        (fun _ hm => hm) (List.Sublist.refl _) hframe hw ih
    show Tallies k 0 _ (Walking.element _ _ _ _ _ _)
    unfold Walking.element
    rw [hkind]
    exact tallies_step (tallies_stepConfig_resumed setting attributes hstill) hchildren

theorem tallies_spent (h : Spent k s n path) (hnodup : n.ids.Nodup) :
    Tallies k 0 s (n.walk setting path) :=
  tallies_of_spent h hnodup fun _ _ => rfl

end Behind

/-! ### Walks that pause -/

section Pausing

variable {setting : Setting} {k : Occasion} {path : IterationPath} {config : Fields Json}
  {w u t : Walk}

/-- What was evaluated belongs to the nodes that were visited. -/
theorem inside_of_tally {α : Type} {x : Walking α} {r : Except Interrupt α} {ids : List Nat}
    {steps still : Prop} (h : Respects (progress ids path steps still) x)
    (hrun : runFrom w x = (r, t)) (hlt : w.tally k < t.tally k) : k.Inside ids path := by
  by_contra hk
  have hnone := Tallies.elsewhere h hk w rfl
  rw [hrun] at hnone
  exact Nat.not_lt.2 hnone hlt

theorem node_of_tally {α : Type} {x : Walking α} {r : Except Interrupt α} {id : Nat}
    {sure still : Prop} (h : Respects (silent id path sure still) x) (hrun : runFrom w x = (r, t))
    (hlt : w.tally k < t.tally k) : k.node = id := by
  by_contra hk
  have hnone := Tallies.silent_elsewhere h hk w rfl
  rw [hrun] at hnone
  exact Nat.not_lt.2 hnone hlt

/-- The claim about a node: when a walk pauses in it, what was spent and what was evaluated is
spent. -/
def SpendsIn (setting : Setting) (k : Occasion) (n : Node) : Prop :=
  ∀ {path config w t}, (∀ id ∈ n.ids, id < w.statuses.nodes.size) →
    runFrom w (n.walk setting path) = (.error (.paused config), t) →
    Spent k w.statuses n path ∨ w.tally k < t.tally k → Spent k t.statuses n path

/-- The same for several nodes, of which an occasion may belong to none. -/
theorem spent_among {ns : List Node} (hnodup : (idsAll ns).Nodup)
    (hbounded : ∀ id ∈ idsAll ns, id < w.statuses.nodes.size) (ih : ∀ m ∈ ns, SpendsIn setting k m)
    (ha : PausesAmong setting path config ns w t)
    (h : (∀ m ∈ ns, Spent k w.statuses m path) ∨ w.tally k < t.tally k ∨
      ¬ k.Inside (idsAll ns) path) :
    ∀ m ∈ ns, Spent k t.statuses m path := by
  obtain ⟨before, m, after, s, rfl, hs, hm⟩ := ha
  rw [idsAll_append, idsAll_cons] at hnodup hbounded
  obtain ⟨hbefore, hnodup', hfront⟩ := List.nodup_append.1 hnodup
  obtain ⟨hmnodup, hafter, hback⟩ := List.nodup_append.1 hnodup'
  have hsize : s.statuses.nodes.size = w.statuses.nodes.size := (progress_of_walkAll hs).size
  have hframe : ∀ id, id ∉ idsAll before → s.statuses.ofNode id = w.statuses.ofNode id :=
    (progress_of_walkAll hs).frame
  have hframe' : ∀ id, id ∉ m.ids → t.statuses.ofNode id = s.statuses.ofNode id :=
    (progress_of_walk hm).frame
  intro x hx
  rcases List.mem_append.1 hx with hx | hx
  · -- what is in front is over
    refine .ended ?_
    have hid : x.id ∈ idsAll before := ids_subset_idsAll hx x.id_mem_ids
    rw [completed_of_frame (hframe' x.id fun hmem =>
      hfront x.id hid x.id (List.mem_append_left _ hmem) rfl)]
    exact completed_of_walkAll hbefore
      (fun id hid => hbounded id (List.mem_append_left _ hid)) hs x hx
  · by_cases hk : k.Inside x.ids path
    · rcases List.mem_cons.1 hx with rfl | hx
      · refine ih x (List.mem_append_right _ List.mem_cons_self) (fun id hid => ?_) hm ?_
        · rw [hsize]
          exact hbounded id (List.mem_append_right _ (List.mem_append_left _ hid))
        · rcases h with h | h | h
          · refine .inl ((h x (List.mem_append_right _ List.mem_cons_self)).of_frame
              fun id hid => ?_)
            exact hframe id fun hmem => hfront id hmem id (List.mem_append_left _ hid) rfl
          · refine .inr (Nat.lt_of_le_of_lt ?_ h)
            by_contra hlt
            have hin := inside_of_tally (respects_walkAll before path) hs (Nat.not_le.1 hlt)
            exact hfront k.node hin.1 k.node (List.mem_append_left _ hk.1) rfl
          · refine absurd ⟨?_, hk.2⟩ h
            rw [idsAll_append, idsAll_cons]
            exact List.mem_append_right _ (List.mem_append_left _ hk.1)
      · -- what is behind was not visited
        have hxids : x.ids ⊆ idsAll after := ids_subset_idsAll hx
        have hxframe : ∀ id ∈ x.ids, t.statuses.ofNode id = w.statuses.ofNode id := by
          intro id hid
          rw [hframe' id fun hmem => hback id hmem id (hxids hid) rfl,
            hframe id fun hmem => hfront id hmem id (List.mem_append_right _ (hxids hid)) rfl]
        rcases h with h | h | h
        · exact (h x (List.mem_append_right _ (List.mem_cons_of_mem _ hx))).of_frame hxframe
        · by_cases hlt : w.tally k < s.tally k
          · have hin := inside_of_tally (respects_walkAll before path) hs hlt
            exact absurd rfl (hfront k.node hin.1 k.node (List.mem_append_right _ (hxids hk.1)))
          · have hlater : s.tally k < t.tally k := by omega
            have hin := inside_of_tally (m.respects_walk path) hm hlater
            exact absurd rfl (hback k.node hin.1 k.node (hxids hk.1))
        · refine absurd ⟨?_, hk.2⟩ h
          rw [idsAll_append, idsAll_cons]
          exact List.mem_append_right _ (List.mem_append_right _ (hxids hk.1))
    · exact .elsewhere hk

/-- A node alone. -/
theorem pausesAmong_one {m : Node}
    (h : runFrom w (m.walk setting path) = (.error (.paused config), t)) :
    PausesAmong setting path config [m] w t :=
  ⟨[], m, [], w, rfl, rfl, h⟩

/-- There is a step among nodes in which a walk pauses. -/
theorem holdsStep_of_among {ns : List Node} (h : PausesAmong setting path config ns w t) :
    ∃ m ∈ ns, m.HoldsStep := by
  obtain ⟨before, m, after, s, rfl, -, hm⟩ := h
  exact ⟨m, List.mem_append_right _ List.mem_cons_self,
    (((m.respects_walk path s).stop hm).2 config rfl).2.2⟩

theorem progress_of_among {ns : List Node} (h : PausesAmong setting path config ns w t) :
    Progress (idsAll ns) path w t :=
  progress_of_walkAll (walkAll_of_pausesAmong h)

/-- A visit that goes on, of a node that an occasion belongs to. -/
structure Underway (k : Occasion) (n : Node) (path : IterationPath) (w : Walk) : Prop where
  nodup : n.ids.Nodup
  bounded : ∀ id ∈ n.ids, id < w.statuses.nodes.size
  remembers : n.Remembers k
  inside : k.Inside n.ids path
  running : w.statuses.completed n.id path = false

section Underway

variable {n : Node} {ns : List Node}

theorem Underway.self (h : Underway k n path w) : n.id ∉ idsAll n.childNodes :=
  (List.nodup_cons.1 (ids_eq n ▸ h.nodup)).1

theorem Underway.inner (h : Underway k n path w)
    (hids : (idsAll ns).Sublist (idsAll n.childNodes)) :
    (idsAll ns).Nodup :=
  (List.nodup_cons.1 (ids_eq n ▸ h.nodup)).2.sublist hids

theorem Underway.bounded_inner (h : Underway k n path w)
    (hids : (idsAll ns).Sublist (idsAll n.childNodes)) :
    ∀ id ∈ idsAll ns, id < w.statuses.nodes.size :=
  fun id hid => h.bounded id (idsAll_childNodes_subset n (hids.subset hid))

/-- An occasion of a node itself belongs to none inside of it. -/
theorem Underway.not_inside (h : Underway k n path w)
    (hids : (idsAll ns).Sublist (idsAll n.childNodes))
    (hk : k.node = n.id) {inner : IterationPath} : ¬ k.Inside (idsAll ns) inner :=
  fun hin => h.self (hk ▸ hids.subset hin.1)

/-- What a node records at its pause concerns nothing inside of it. -/
theorem Underway.frame (h : Underway k n path w) {s : Statuses} (pointers : Pointers)
    {m : Node} (hm : m ∈ n.childNodes) :
    ∀ id ∈ m.ids, (s.pause n.id path pointers).ofNode id = s.ofNode id :=
  fun _ hid => Statuses.ofNode_pause_of_ne _ _ fun heq => h.self (heq ▸ ids_subset_idsAll hm hid)

theorem Underway.frame_decide (h : Underway k n path w) {s : Statuses} (d : Decision)
    (pointers : Pointers) {m : Node} (hm : m ∈ n.childNodes) :
    ∀ id ∈ m.ids, ((s.decide n.id d).pause n.id path pointers).ofNode id = s.ofNode id := by
  intro id hid
  rw [h.frame pointers hm id hid]
  exact Statuses.ofNode_decide_of_ne d fun heq => h.self (heq ▸ ids_subset_idsAll hm hid)

end Underway

theorem pausedAt?_pause {s : Statuses} {id : Nat} (pointers : Pointers) (h : id < s.nodes.size) :
    ((s.pause id path pointers).pausedAt? id path).isSome := by
  unfold Statuses.pausedAt?
  rw [Statuses.ofNode_pause path pointers h]
  dsimp only
  rw [if_pos (beq_self_eq_true path)]
  rfl

theorem decision_pause {s : Statuses} {id : Nat} {d : Decision} (pointers : Pointers)
    (h : id < s.nodes.size) :
    (((s.decide id d).pause id path pointers).ofNode id).decision = d := by
  rw [Statuses.ofNode_pause path pointers (Statuses.size_decide s id d ▸ h),
    Statuses.ofNode_decide d h]

/-- When a node pauses, what was spent and what it has evaluated is spent. -/
def SpendsInside (k : Occasion) (n : Node) (path : IterationPath) (a t : Walk) : Prop :=
  Spent k a.statuses n path ∨ a.tally k < t.tally k →
    ∀ pointers, Spent k (t.statuses.pause n.id path pointers) n path

variable {info : NodeInfo} {children : List Node} {otherwise : Option Node} {a s x : Walk}

theorem spends_fragment (h : Underway k (fragment info children) path a)
    (ih : ∀ m ∈ children, SpendsIn setting k m)
    (ha : PausesAmong setting path config children a t) :
    SpendsInside k (fragment info children) path a t := by
  intro hk pointers
  have hall := spent_among (h.inner (List.Sublist.refl _)) (h.bounded_inner (List.Sublist.refl _))
    ih ha ?_
  · exact .fragment fun m hm => (hall m hm).of_frame (h.frame pointers hm)
  · rcases hk with hspent | hlt
    · cases hspent with
      | elsewhere hnot => exact absurd h.inside hnot
      | ended hover => exact nomatch hover.symm.trans h.running
      | fragment hchildren => exact .inl hchildren
    · exact .inr (.inl hlt)

theorem spends_branch {condition : Expr} {elseIf taken : Bool}
    (h : Underway k (ifBlock info condition elseIf children otherwise) path a)
    (ih : ∀ m ∈ children ++ otherwise.toList, SpendsIn setting k m)
    (hcondition : runFrom a (takesBranch setting info.id path condition) = (.ok taken, u))
    (ha : PausesAmong setting path config (if taken then children else otherwise.toList)
      (entered u ⟨info.id, path, .branch taken⟩) t) :
    SpendsInside k (ifBlock info condition elseIf children otherwise) path a
      { t with statuses := t.statuses.decide info.id (.branch taken) } := by
  intro hk pointers
  have hsilent := silent_takesBranch setting info.id path condition
  have hstatuses : u.statuses = a.statuses := ((hsilent a).done hcondition).1.statuses
  have htally : (entered u ⟨info.id, path, .branch taken⟩).tally k = u.tally k :=
    tallyOf_cons_of_none rfl
  -- the part that is walked is one of the two
  have hids : (idsAll (if taken then children else otherwise.toList)).Sublist
      (idsAll (ifBlock info condition elseIf children otherwise).childNodes) := by
    rw [childNodes, idsAll_append]
    cases taken with
    | true => exact List.sublist_append_left _ _
    | false => exact List.sublist_append_right _ _
  have hmem : ∀ m ∈ if taken then children else otherwise.toList,
    m ∈ children ++ otherwise.toList := by
    cases taken with
    | true => exact fun m hm => List.mem_append_left _ hm
    | false => exact fun m hm => List.mem_append_right _ hm
  have hbound : info.id < t.statuses.nodes.size := by
    rw [(progress_of_among ha).size]
    exact hstatuses ▸ h.bounded info.id (id_mem_ids _)
  have hall := spent_among (h.inner hids) (hstatuses ▸ h.bounded_inner hids)
    (fun m hm => ih m (hmem m hm)) ha ?_
  · exact .branch (pausedAt?_pause pointers (Statuses.size_decide t.statuses _ _ ▸ hbound))
      (decision_pause pointers hbound) fun m hm => (hall m hm).of_frame
        (h.frame_decide (.branch taken) pointers (hmem m hm))
  -- it was spent before, or it is evaluated in this call, by the condition or inside the branch
  · rcases hk with hspent | hlt
    · cases hspent with
      | elsewhere hnot => exact absurd h.inside hnot
      | ended hover => cases hover.symm.trans h.running
      | branch hpaused hdecision hpart =>
        obtain rfl :=
          Except.ok.inj (Prod.mk.inj ((runFrom_takesBranch hdecision).symm.trans hcondition)).1
        exact .inl fun m hm => hstatuses ▸ hpart m hm
    · by_cases hown : a.tally k < u.tally k
      · exact .inr (.inr (h.not_inside hids (node_of_tally hsilent hcondition hown)))
      · refine .inr (.inl (htally ▸ ?_))
        exact Nat.lt_of_le_of_lt (Nat.not_lt.1 hown) hlt

theorem spends_noItems {header : ForHeader} {loop : Loop} {m : Node}
    (h : Underway k (forBlock info header children (some m)) path a) (ih : SpendsIn setting k m)
    (hloop : runFrom a (takeItems setting info.id path header.iterable) = (.ok loop, s))
    (hempty : loop.items = [])
    (ht : runFrom (entered s ⟨info.id, path, .noItems⟩) (m.walk setting path) =
      (.error (.paused config), t)) :
    SpendsInside k (forBlock info header children (some m)) path a t := by
  intro hk pointers
  have hsilent := silent_takeItems setting info.id path header.iterable
  have hstatuses : s.statuses = a.statuses := ((hsilent a).done hloop).1.statuses
  have htally : (entered s ⟨info.id, path, .noItems⟩).tally k = s.tally k :=
    tallyOf_cons_of_none rfl
  have hids : (idsAll [m]).Sublist
    (idsAll (forBlock info header children (some m)).childNodes) := by
    rw [childNodes, idsAll_append]
    exact List.sublist_append_right _ _
  -- the items are forgotten, so that what counts lies in the `else` part
  have hpart : (k.node ≠ info.id ∧ k.node ∉ idsAll children) ∧
      (Spent k a.statuses m path ∨ (entered s ⟨info.id, path, .noItems⟩).tally k < t.tally k) := by
    rcases hk with hspent | hlt
    · cases hspent with
      | elsewhere hnot => exact absurd h.inside hnot
      | ended hover => cases hover.symm.trans h.running
      | iteration hpaused hdecision hitems hindex hlater hchildren =>
        obtain rfl := Except.ok.inj (Prod.mk.inj ((runFrom_takeItems hdecision).symm.trans hloop)).1
        dsimp only at hempty
        rw [hempty] at hitems
        exact absurd hitems (Nat.not_lt_zero _)
      | otherwise hself hchildren hotherwise =>
        exact ⟨⟨hself, hchildren⟩, .inl (hotherwise m (List.mem_singleton.2 rfl))⟩
    · have hitems := tallies_takeItems (k := k) setting info.id path header.iterable a rfl
      have hother : k ≠ ⟨info.id, path, header.iterable.span⟩ := by
        intro heq
        have hstep : m.HoldsStep := (((m.respects_walk path _).stop ht).2 config rfl).2.2
        exact h.remembers _ (mem_nodes_self _) (heq ▸ rfl) _ (.loopItems hstep) (heq ▸ rfl)
      rw [hloop, if_neg hother, Nat.add_zero] at hitems
      have hlater : (entered s ⟨info.id, path, .noItems⟩).tally k < t.tally k :=
        htally ▸ Nat.lt_of_le_of_lt hitems hlt
      have hin := inside_of_tally (m.respects_walk path) ht hlater
      refine ⟨⟨fun heq => h.self ?_, fun hmem => ?_⟩, .inr hlater⟩
      · have hmem : info.id ∈ idsAll [m] := by
          rw [idsAll_cons, idsAll_nil, List.append_nil]
          exact heq ▸ hin.1
        exact hids.subset hmem
      · have hnodup := (List.nodup_cons.1 (ids_eq _ ▸ h.nodup)).2
        rw [childNodes, idsAll_append] at hnodup
        exact (List.nodup_append.1 hnodup).2.2 _ hmem _
          (ids_subset_idsAll (List.mem_singleton.2 rfl) hin.1) rfl
  obtain ⟨⟨hself, hchildren⟩, hpart⟩ := hpart
  refine .otherwise hself hchildren fun x hx => ?_
  obtain rfl := List.mem_singleton.1 hx
  have hspent : Spent k t.statuses x path := by
    refine ih (fun id hid => ?_) ht (hpart.imp_left fun hspent => hstatuses ▸ hspent)
    show id < s.statuses.nodes.size
    rw [hstatuses]
    exact h.bounded_inner hids id (ids_subset_idsAll (List.mem_singleton.2 rfl) hid)
  exact hspent.of_frame (h.frame pointers (List.mem_append_right _ (List.mem_singleton.2 rfl)))

/-- What was evaluated in iterations belongs to one of them. -/
theorem inside_of_iterations {header : ForHeader} {id i : Nat} {items rest : List Value}
    {resumed : Option Value}
    (hrun : runFrom w (iterations setting id path header items
      (fun inner => walkAll setting children inner) i
      resumed rest) = (.ok (), t)) (hlt : w.tally k < t.tally k) :
    ∃ j, i ≤ j ∧ j < i + rest.length ∧ k.Inside (id :: idsAll children) (path ++ [j]) := by
  induction rest generalizing i resumed w with
  | nil =>
    obtain rfl : w = t := (Prod.mk.inj hrun).2
    exact absurd hlt (Nat.lt_irrefl _)
  | cons item rest ih =>
    obtain ⟨⟨⟩, s, hs, hrest⟩ := runFrom_bind_eq_ok hrun
    -- the evaluation lies in this item's iteration, or in a later one
    by_cases hk : k.Inside (id :: idsAll children) (path ++ [i])
    · exact ⟨i, Nat.le_refl i, by simp, hk⟩
    · have hnone : (runFrom w (iteration setting id path header items
          (fun inner => walkAll setting children inner) i resumed item)).2.tally k ≤ w.tally k :=
        tallies_iteration_elsewhere hk w rfl
      rw [hs] at hnone
      obtain ⟨j, hj, hlast, hin⟩ := ih hrest (Nat.lt_of_le_of_lt hnone hlt)
      exact ⟨j, Nat.le_of_succ_le hj, by rw [List.length_cons]; omega, hin⟩

theorem isSome_of_setIndex {header : ForHeader} {id i : Nat} {resumed v : Option Value}
    (h : runFrom w (setIndex setting id path header i resumed) = (.ok v, t)) :
    header.index.isSome → v.isSome := by
  intro hsome
  unfold setIndex at h
  split at h
  · next hnone => exact nomatch hnone ▸ hsome
  · obtain ⟨value, y, -, hrest⟩ := runFrom_bind_eq_ok h
    obtain rfl : some value = v := by simpa using (Prod.mk.inj hrest).1
    rfl

/-- Where an occasion lies when a loop pauses in its `i`-th iteration: it is spent or it was met,
and it lies in no later iteration. -/
structure Situated (k : Occasion) (id : Nat) (children : List Node) (path : IterationPath) (i : Nat)
    (x t : Walk) : Prop where
  here : (∀ m ∈ children, Spent k x.statuses m (path ++ [i])) ∨ x.tally k < t.tally k ∨
    ¬ k.Inside (idsAll children) (path ++ [i])
  later : ∀ j, i < j → ¬ k.Inside (id :: idsAll children) (path ++ [j])

section Iterations

variable {header : ForHeader} {items before later : List Value} {item : Value} {first : Nat}
  {resumed v : Option Value}

theorem situated_of_spent (h : Underway k (forBlock info header children otherwise) path a)
    (hspent : Spent k a.statuses (forBlock info header children otherwise) path)
    (hloop : runFrom a (takeItems setting info.id path header.iterable) =
      (.ok ⟨items, first, resumed⟩, s))
    (hbefore : runFrom s (iterations setting info.id path header items
      (fun inner => walkAll setting children inner) first resumed before) = (.ok (), u))
    (hstatuses : x.statuses = u.statuses) :
    Situated k info.id children path (first + before.length) x t := by
  cases hspent with
  | elsewhere hnot => exact absurd h.inside hnot
  | ended hover => exact nomatch hover.symm.trans h.running
  | iteration hpaused hdecision hitems hindex hlater hchildren =>
    obtain ⟨heq, rfl⟩ := Prod.mk.inj ((runFrom_takeItems hdecision).symm.trans hloop)
    obtain ⟨rfl, rfl, rfl⟩ := Loop.mk.inj (Except.ok.inj heq)
    refine ⟨?_, fun j hj => hlater j (Nat.lt_of_le_of_lt (Nat.le_add_right _ _) hj)⟩
    -- without iterations before this one the stored decision is still about it
    cases before with
    | nil =>
      obtain rfl := (Prod.mk.inj hbefore).2
      exact .inl fun m hm => hstatuses ▸ hchildren m hm
    | cons y ys =>
      refine .inr (.inr fun hin => hlater _ (Nat.lt_add_of_pos_right ?_)
        ⟨List.mem_cons_of_mem _ hin.1, hin.2⟩)
      exact Nat.succ_pos _
  | otherwise hself hchildren _ =>
    exact ⟨.inr (.inr fun hin => hchildren hin.1),
      fun j _ hin => (List.mem_cons.1 hin.1).elim hself hchildren⟩

theorem situated_of_tally (h : Underway k (forBlock info header children otherwise) path a)
    (hlt : a.tally k < t.tally k)
    (hloop : runFrom a (takeItems setting info.id path header.iterable) =
      (.ok ⟨items, first, resumed⟩, s))
    (hbefore : runFrom s (iterations setting info.id path header items
      (fun inner => walkAll setting children inner) first resumed before) = (.ok (), u))
    (hindex : runFrom (begun u ⟨info.id, path, .iteration (first + before.length)⟩ header.item item)
      (setIndex setting info.id path header (first + before.length)
        (if before.isEmpty then resumed else none)) = (.ok v, x))
    (ha : PausesAmong setting (path ++ [first + before.length]) config children x t) :
    Situated k info.id children path (first + before.length) x t := by
  have hids : (idsAll children).Sublist
    (idsAll (forBlock info header children otherwise).childNodes) := by
    rw [childNodes, idsAll_append]
    exact List.sublist_append_left _ _
  have hutally : (begun u
    ⟨info.id, path, .iteration (first + before.length)⟩ header.item item).tally k =
      u.tally k := tallyOf_cons_of_none rfl
  by_cases hitems : a.tally k < s.tally k
  · -- the items were looked at, in front of all iterations
    have hk : k = ⟨info.id, path, header.iterable.span⟩ := by
      by_contra hne
      have hnone := tallies_takeItems (k := k) setting info.id path header.iterable a rfl
      rw [hloop, if_neg hne] at hnone
      exact Nat.not_lt.2 hnone hitems
    have hnot : ∀ ids j, ¬ k.Inside ids (path ++ [j]) := by
      intro ids j hin
      have hlength := hin.2.length_le
      rw [hk, List.length_append] at hlength
      exact Nat.not_succ_le_self _ hlength
    exact ⟨.inr (.inr (hnot _ _)), fun j _ => hnot _ j⟩
  · by_cases hearlier : s.tally k < u.tally k
    · obtain ⟨j, -, hj, hin⟩ := inside_of_iterations hbefore hearlier
      refine ⟨.inr (.inr fun hin' => ?_), fun j' hj' hin' => ?_⟩
      · exact absurd (hin.eq_index hin') (Nat.ne_of_lt hj)
      · exact absurd (hin.eq_index hin') (Nat.ne_of_lt (Nat.lt_trans hj hj'))
    · by_cases hkey : u.tally k < x.tally k
      · have hin : k.Inside [info.id] (path ++ [first + before.length]) := by
          by_contra hne
          have hnone := tallies_setIndex (k := k) setting info.id path header
            (first + before.length)
            (if before.isEmpty then resumed else none)
            (begun u ⟨info.id, path, .iteration (first + before.length)⟩ header.item item) rfl
          rw [hindex, if_neg hne, hutally] at hnone
          exact Nat.not_lt.2 hnone hkey
        exact ⟨.inr (.inr (h.not_inside hids (List.mem_singleton.1 hin.1))),
          fun j hj hin' => absurd (hin.eq_index hin') (Nat.ne_of_lt hj)⟩
      · have hinner : x.tally k < t.tally k := by omega
        have hin := inside_of_tally (respects_walkAll children _) (walkAll_of_pausesAmong ha) hinner
        exact ⟨.inr (.inl hinner), fun j hj hin' => absurd (hin.eq_index hin') (Nat.ne_of_lt hj)⟩

theorem spends_iteration (h : Underway k (forBlock info header children otherwise) path a)
    (ih : ∀ m ∈ children, SpendsIn setting k m)
    (hloop : runFrom a (takeItems setting info.id path header.iterable) =
      (.ok ⟨items, first, resumed⟩, s))
    (hitems : items.drop first = before ++ item :: later)
    (hbefore : runFrom s (iterations setting info.id path header items
      (fun inner => walkAll setting children inner) first resumed before) = (.ok (), u))
    (hindex : runFrom (begun u ⟨info.id, path, .iteration (first + before.length)⟩ header.item item)
      (setIndex setting info.id path header (first + before.length)
        (if before.isEmpty then resumed else none)) = (.ok v, x))
    (ha : PausesAmong setting (path ++ [first + before.length]) config children x t) :
    SpendsInside k (forBlock info header children otherwise) path a
      { t with statuses :=
          t.statuses.decide info.id (.iteration items (first + before.length) v) } := by
  intro hk pointers
  have hids : (idsAll children).Sublist
    (idsAll (forBlock info header children otherwise).childNodes) := by
    rw [childNodes, idsAll_append]
    exact List.sublist_append_left _ _
  have hsstatuses : s.statuses = a.statuses :=
    ((silent_takeItems setting info.id path header.iterable a).done hloop).1.statuses
  have hxstatuses : x.statuses = u.statuses :=
    ((silent_setIndex setting info.id path header _ _ _).done hindex).1.statuses
  have hsize : x.statuses.nodes.size = a.statuses.nodes.size := by
    rw [hxstatuses, (progress_of_iterations hbefore).1.size, hsstatuses]
  have hbound : info.id < t.statuses.nodes.size := by
    rw [(progress_of_among ha).size, hsize]
    exact h.bounded info.id (id_mem_ids _)
  have hlength : first + before.length < items.length := by
    have heq := congrArg List.length hitems
    rw [List.length_drop, List.length_append, List.length_cons] at heq
    omega
  -- spent before the call, or evaluated during it
  have hsituated : Situated k info.id children path (first + before.length) x t := by
    rcases hk with hspent | hlt
    · exact situated_of_spent h hspent hloop hbefore hxstatuses
    · exact situated_of_tally h hlt hloop hbefore hindex ha
  have hall := spent_among (h.inner hids) (hsize ▸ h.bounded_inner hids) ih ha hsituated.here
  exact .iteration (pausedAt?_pause pointers (Statuses.size_decide t.statuses _ _ ▸ hbound))
    (decision_pause pointers hbound) hlength (isSome_of_setIndex hindex) hsituated.later fun m hm =>
      (hall m hm).of_frame (h.frame_decide _ pointers (List.mem_append_left _ hm))

end Iterations

section Elements

variable {name : String} {attributes : List Attribute}

/-- In front of its pause an element evaluates nothing that is remembered. -/
theorem attributes_forgotten {values : Fields Value}
    (h : Underway k (element info name attributes children) path a)
    (hkind : (∃ kind, TagKind.ofName name = .content kind) ∨ TagKind.ofName name = .toolCall)
    (hvalues : runFrom a (attributeValues setting info.id path attributes) = (.ok values, s))
    (ha : PausesAmong setting path config children x t) : s.tally k ≤ a.tally k := by
  by_contra hlt
  have hnode : k.node = info.id :=
    node_of_tally (silent_values setting info.id path attributes) hvalues (Nat.not_le.1 hlt)
  obtain ⟨m, hm, hstep⟩ := holdsStep_of_among ha
  have hnone : (spansOf (attributes.flatMap Attribute.expressions)).count k.span = 0 := by
    refine List.count_eq_zero.2 fun hmem => ?_
    obtain ⟨e, he, hspan⟩ := List.mem_map.1 hmem
    exact h.remembers _ (mem_nodes_self _) hnode.symm e (.elementAttribute hkind hm hstep he) hspan
  have htally := tallies_attributeValues (k := k) setting info.id path attributes a rfl
  rw [hvalues, hnone] at htally
  exact hlt htally

/-- An element that is no step pauses in what is inside of it. -/
theorem spends_element (h : Underway k (element info name attributes children) path a)
    (ih : ∀ m ∈ children, SpendsIn setting k m) (hkind : TagKind.ofName name ≠ .step)
    (ha : PausesAmong setting path config children x t) (hstatuses : x.statuses = a.statuses)
    (htally : x.tally k ≤ a.tally k) {t' : Walk} (ht : t'.statuses = t.statuses)
    (htally' : t'.tally k = t.tally k) :
    SpendsInside k (element info name attributes children) path a t' := by
  intro hk pointers
  have hids := List.Sublist.refl (idsAll children)
  -- the expression is none of the tag's own attributes, so it lies among the children
  have hpart : k.node ≠ info.id ∧
    ((∀ m ∈ children, Spent k x.statuses m path) ∨ x.tally k < t.tally k) := by
    rcases hk with hspent | hlt
    · cases hspent with
      | elsewhere hnot => exact absurd h.inside hnot
      | ended hover => exact nomatch hover.symm.trans h.running
      | element hself hchildren => exact ⟨hself, .inl fun m hm => hstatuses ▸ hchildren m hm⟩
      | step hstep => exact absurd hstep hkind
    · have hinner : x.tally k < t.tally k := by omega
      have hin := inside_of_tally (respects_walkAll children path)
        (walkAll_of_pausesAmong ha) hinner
      exact ⟨fun heq => h.not_inside hids heq hin, .inr hinner⟩
  have hall := spent_among (h.inner hids) (hstatuses ▸ h.bounded_inner hids) ih ha
    (hpart.2.imp_right .inl)
  exact .element hpart.1 fun m hm => (ht ▸ hall m hm).of_frame (h.frame pointers hm)

/-- When a step waits, everything inside of it is over, and it does not evaluate its attributes
again. -/
theorem spends_step {found : Fields Json}
    (h : Underway k (element info name attributes children) path a)
    (hkind : TagKind.ofName name = .step)
    (hconfig : runFrom a (stepConfig setting info.id path attributes) = (.ok found, s))
    (hbody : runFrom { s with inStep := true } (walkAll setting children path) = (.ok (), t)) :
    SpendsInside k (element info name attributes children) path a
      (waiting setting info.id path { t with inStep := false }) := by
  intro _ pointers
  have hids := List.Sublist.refl (idsAll children)
  have hstatuses : s.statuses = a.statuses :=
    ((quiet_stepConfig setting info.id path attributes a).done hconfig).1.statuses
  have hwaiting : (waiting setting info.id path { t with inStep := false }).statuses = t.statuses :=
    Walk.statuses_closed setting _
  have hbound : info.id < t.statuses.nodes.size := by
    rw [(progress_of_walkAll hbody).size]
    exact hstatuses ▸ h.bounded info.id (id_mem_ids _)
  -- the body completed, so its evaluations do not come again
  have hover : ∀ m ∈ children, t.statuses.completed m.id path = true :=
    completed_of_walkAll (h.inner hids)
      (fun id hid => hstatuses ▸ h.bounded_inner hids id hid) hbody
  rw [hwaiting]
  exact .step hkind (pausedAt?_pause pointers hbound) fun m hm =>
    Spent.of_frame (.ended (hover m hm)) (h.frame pointers hm)

end Elements

theorem spends_act {n : Node} (h : Underway k n path a)
    (ih : ∀ m ∈ n.childNodes, SpendsIn setting k m)
    (hp : Pauses setting path config n a t) : SpendsInside k n path a t := by
  cases hp with
  | fragment ha => exact spends_fragment h ih ha
  | taken hcondition ha => exact spends_branch h ih hcondition ha
  | passed hcondition hm => exact spends_branch h ih hcondition (pausesAmong_one hm)
  | iteration hnames hloop hitems hbefore hindex ha =>
    exact spends_iteration h (fun m hm => ih m (List.mem_append_left _ hm)) hloop hitems hbefore
      hindex ha
  | noItems hnames hloop hempty ht =>
    exact spends_noItems h (ih _ (List.mem_append_right _ (List.mem_singleton.2 rfl))) hloop
      hempty ht
  | @content info name attributes children kind values w s t hkind houter hvalues ha =>
    -- a tag other than a step may evaluate its attributes anew, which `Remembers` excludes for `k`
    have hstep : TagKind.ofName name ≠ .step := by
      rw [hkind]
      exact nofun
    have hforgotten : s.tally k ≤ a.tally k :=
      attributes_forgotten h (.inl ⟨kind, hkind⟩) hvalues ha
    exact spends_element h ih hstep ha
      ((silent_values setting info.id path attributes a).done hvalues).1.statuses hforgotten rfl rfl
  | @toolCall info name attributes children values w s t hkind houter hvalues ha =>
    have hstep : TagKind.ofName name ≠ .step := by
      rw [hkind]
      exact nofun
    have hforgotten : s.tally k ≤ a.tally k := attributes_forgotten h (.inr hkind) hvalues ha
    exact spends_element h ih hstep ha
      ((silent_values setting info.id path attributes a).done hvalues).1.statuses hforgotten rfl rfl
  | @unknown info name attributes children p w t hkind ha =>
    have hstep : TagKind.ofName name ≠ .step := by
      rw [hkind]
      exact nofun
    exact spends_element h ih hstep ha rfl (Nat.le_refl _) rfl rfl
  | step hkind houter hmessage hname hconfig hbody hnone => exact spends_step h hkind hconfig hbody

/-- The start of a visit does not change what is spent. -/
theorem Spent.enter {n : Node} (hnodup : n.ids.Nodup) (h : Spent k w.statuses n path) :
    Spent k (w.enter n.id path).statuses n path := by
  -- the node's own entry does not touch the statuses of its children
  have inner : ∀ m ∈ n.childNodes, ∀ {inner}, Spent k w.statuses m inner →
      Spent k (w.enter n.id path).statuses m inner := by
    intro m hm inner hspent
    refine hspent.of_frame fun id hid => ofNode_enter_of_ne w path fun heq => ?_
    exact (List.nodup_cons.1 (ids_eq n ▸ hnodup)).1 (heq ▸ ids_subset_idsAll hm hid)
  cases h with
  | elsewhere h => exact .elsewhere h
  | ended h => exact .ended (completed_enter w _ path ▸ h)
  | fragment h => exact .fragment fun m hm => inner m hm (h m hm)
  | branch hpaused hdecision h =>
    exact (statuses_enter_of_paused hpaused).symm ▸ .branch hpaused hdecision h
  | iteration hpaused hdecision hitems hindex hlater h =>
    exact (statuses_enter_of_paused hpaused).symm ▸
      .iteration hpaused hdecision hitems hindex hlater h
  | otherwise hself hchildren h =>
    exact .otherwise hself hchildren fun m hm => inner m (List.mem_append_right _ hm) (h m hm)
  | element hself h => exact .element hself fun m hm => inner m hm (h m hm)
  | step hkind hpaused h => exact (statuses_enter_of_paused hpaused).symm ▸ .step hkind hpaused h

/-- When a walk pauses in a node, what was spent and what it has evaluated is spent. -/
theorem spent_of_walk {n : Node} (hnodup : n.ids.Nodup) (hremembers : n.Remembers k) :
    SpendsIn setting k n := by
  induction n using Node.induct with
  | step n ih =>
    intro path config w t hbounded hrun hk
    by_cases hin : k.Inside n.ids path
    · have hinner : (idsAll n.childNodes).Nodup := (List.nodup_cons.1 (ids_eq n ▸ hnodup)).2
      obtain ⟨hover, s, hs, rfl⟩ := pauses_of_walk hrun
      have henters : Progress n.ids path w (w.enter n.id path) ∧
        Finish n.ids False w (w.enter n.id path) :=
        progress_enter w n.id_mem_ids
      have hunderway : Underway k n path (w.enter n.id path) := by
        refine ⟨hnodup, fun id hid => henters.1.size ▸ hbounded id hid, hremembers, hin, ?_⟩
        rw [completed_enter]
        exact hover
      refine spends_act hunderway (fun m hm => ih m hm (hinner.sublist (ids_sublist_idsAll hm))
        (hremembers.child hm)) hs (hk.imp (Spent.enter hnodup) fun hlt => ?_) _
      exact tally_enter w n.id path k ▸ hlt
    · exact .elsewhere hin

end Pausing

end Node

/-! ### Chains -/

namespace Chain

variable {chain : Chain} {setting : Setting} {text : String} {parameters : Fields Value}
  {k : Occasion}

/-- How a chain stands between its calls: an expression was evaluated at most once on an occasion,
and if the chain goes on, it was not evaluated yet or it is spent. -/
structure Frugal (k : Occasion) (chain : Chain) : Prop where
  once : tallyOf k chain.journal ≤ 1
  goesOn : chain.completed = false → chain.Steady ∧
    (tallyOf k chain.journal = 0 ∨ chain.template.root.Spent k chain.statuses [])

/-- A walk of a chain evaluates no more than the visit of its root. -/
theorem tally_visit {c : Nat}
    (h : Tallies k c chain.statuses (chain.template.root.walk chain.setting []))
    (responses : List String) : (chain.visit responses).2.tally k ≤ c := by
  have hclose : Respects (leaf (k.node + 1) [] False False) (closeMessage chain.setting) :=
    leaf_closeMessage chain.setting
  have hall : Tallies k c chain.statuses (chain.template.visitRoot chain.setting) :=
    h.before fun _ _ => Tallies.quiet hclose
  exact Nat.le_trans (hall (chain.opening responses) rfl) (Nat.le_of_eq (Nat.zero_add c))

theorem tally_advance {response : Option String} {outcome : Outcome}
    (h : Ends (chain.visit response.toList) outcome) :
    tallyOf k (chain.advance outcome).journal =
      tallyOf k chain.journal + (chain.visit response.toList).2.tally k := by
  show tallyOf k (chain.journal ++ outcome.journal) = _
  rw [tallyOf_append, (outcome_of_ends h).1, tallyOf_reverse]
  rfl

theorem Frugal.call (hspans : ∀ m ∈ chain.template.root.nodes, m.DistinctSpans)
    (hremembers : chain.template.root.Remembers k) (h : chain.Frugal k) (response : Option String) :
    (chain.call response).Frugal k := by
  rcases call_cases chain response with ⟨outcome, hcheck, hwalk, hcall⟩ | hcall
  · rw [hcall]
    obtain ⟨hsteady, hbefore⟩ := h.goesOn (not_completed_of_check hcheck)
    have hends := walk_eq_ok.1 hwalk
    have hnodup := hsteady.numbered.nodup
    refine ⟨?_, fun hnext => ?_⟩
    -- the tally so far is zero, or the expression is spent and this call adds nothing
    · rw [tally_advance hends]
      rcases hbefore with hnone | hspent
      · rw [hnone, Nat.zero_add]
        exact tally_visit (Node.tallies_once hnodup hspans [] chain.statuses) _
      · have hnothing := tally_visit (Node.tallies_spent hspent hnodup) response.toList
        exact Nat.le_trans (Nat.add_le_add_left hnothing _) h.once
    · obtain ⟨config, t, ht, -, rfl⟩ := paused_of_advance hends hnext
      refine ⟨hsteady.advance ht, ?_⟩
      have hroot := Template.paused_of_visitRoot ht
      have hbounded : ∀ id ∈ chain.template.root.ids,
          id < (chain.opening response.toList).statuses.nodes.size :=
        fun id hid => hsteady.size ▸ hsteady.numbered.bounded id hid
      have hspends := Node.spent_of_walk hnodup hremembers hbounded hroot
      -- if it was evaluated in this call, the pause leaves it spent
      rw [tally_advance hends, ht]
      rcases hbefore with hnone | hspent
      · rcases Nat.eq_zero_or_pos (t.tally k) with hquiet | hmet
        · exact .inl (by rw [hnone, hquiet])
        · exact .inr (hspends (.inr hmet))
      · exact .inr (hspends (.inl hspent))
  · rwa [hcall]

/-- After any calls an expression that is not forgotten was evaluated at most once on an occasion.
-/
theorem frugal_calls [ConfigReader] (hstart : Chain.start setting text parameters = .ok chain)
    (hremembers : chain.template.root.Remembers k) (earlier : List (Option String)) :
    (chain.calls earlier).Frugal k := by
  have hspans : ∀ m ∈ chain.template.root.nodes, m.DistinctSpans :=
    fun m hm => (Template.regular_of_read (read_of_start hstart) m hm).spans
  have hfirst : chain.Frugal k := by
    have hnone : tallyOf k chain.journal = 0 := by
      obtain ⟨t, -, rfl⟩ := start_eq_ok hstart
      rfl
    exact ⟨Nat.le_trans (Nat.le_of_eq hnone) (Nat.zero_le 1),
      fun _ => ⟨steady_start hstart, .inl hnone⟩⟩
  refine (calls_invariant (P := fun later => later.template = chain.template ∧ later.Frugal k)
    (fun later response h => ?_) ⟨rfl, hfirst⟩ earlier).2
  obtain ⟨htemplate, hfrugal⟩ := h
  exact ⟨(template_call later response).trans htemplate,
    hfrugal.call (htemplate ▸ hspans) (htemplate ▸ hremembers) response⟩

/-- An occasion of an expression that is not forgotten. -/
theorem remembers_of_not_forgets [ConfigReader]
    (hstart : Chain.start setting text parameters = .ok chain) {n : Node}
    (hn : n ∈ chain.template.root.nodes) {e : Expr} (he : e ∈ n.expressions) (h : ¬ n.Forgets e)
    (path : IterationPath) : chain.template.root.Remembers ⟨n.id, path, e.span⟩ := by
  have hread := read_of_start hstart
  intro m hm hid x hx hspan
  obtain rfl : m = n := List.inj_on_of_nodup_map (Template.numbered_of_read hread).nodup hm hn hid
  obtain rfl : x = e :=
    List.inj_on_of_nodup_map (Template.regular_of_read hread m hm).spans hx.mem he hspan
  exact h hx

/-- A call evaluates every expression of a node at most once in the same iterations, and all calls
of a chain together do so at most once, unless the expression is forgotten. -/
theorem evaluated_once [ConfigReader] (hstart : Chain.start setting text parameters = .ok chain)
    (earlier : List (Option String)) {n : Node} (hn : n ∈ chain.template.root.nodes) {e : Expr}
    (he : e ∈ n.expressions) (path : IterationPath) :
    (¬ n.Forgets e → tallyOf ⟨n.id, path, e.span⟩ (chain.calls earlier).journal ≤ 1) ∧
      ∀ response result next, (chain.calls earlier).step response = .ok (result, next) →
        tallyOf ⟨n.id, path, e.span⟩ next.journal ≤
          tallyOf ⟨n.id, path, e.span⟩ (chain.calls earlier).journal + 1 := by
  refine ⟨fun hremembered => ?_, fun response result next hstep => ?_⟩
  · exact (frugal_calls hstart (remembers_of_not_forgets hstart hn he hremembered path)
      earlier).once
  · have hread := read_of_start hstart
    obtain ⟨-, outcome, hwalk, rfl, -⟩ := step_eq_ok hstep
    have hnodup := (Template.numbered_of_read hread).nodup
    have hspans : ∀ m ∈ chain.template.root.nodes, m.DistinctSpans :=
      fun m hm => (Template.regular_of_read hread m hm).spans
    rw [← template_calls chain earlier] at hnodup hspans
    rw [tally_advance (walk_eq_ok.1 hwalk)]
    exact Nat.add_le_add_left (tally_visit (Node.tallies_once hnodup hspans [] _) _) _

/-- A step in a loop, with expressions around it and in its attributes. -/
def stepAmongExpressions : String :=
  braced "n = 0" ++ braced "for x, i (n += 1) in [1, 2]" ++ "<step a=" ++
    braced "n += 10" ++ " />" ++
    braced "endfor" ++ braced "n"

theorem evaluated_once_stepAmongExpressions :
    ∃ chain, Chain.start plainSetting stepAmongExpressions [] = .ok chain ∧
      ((chain.calls [none, some "r"]).step (some "r")).isOk = true ∧
      ∃ n ∈ chain.template.root.nodes, ∃ e ∈ n.expressions, ¬ n.Forgets e ∧
        tallyOf ⟨n.id, [1], e.span⟩ (chain.calls [none, some "r"]).journal = 1 ∧
        (¬ n.Forgets e → tallyOf ⟨n.id, [1], e.span⟩ (chain.calls [none, some "r"]).journal ≤ 1) ∧
        ∀ response result next,
          (chain.calls [none, some "r"]).step response = .ok (result, next) →
          tallyOf ⟨n.id, [1], e.span⟩ next.journal ≤
            tallyOf ⟨n.id, [1], e.span⟩ (chain.calls [none, some "r"]).journal + 1 := by
  have hcheck : ((Chain.start plainSetting stepAmongExpressions []).toOption.any fun chain =>
      ((chain.calls [none, some "r"]).step (some "r")).isOk &&
        chain.template.root.nodes.any fun n =>
        n.isPlainLoop && n.expressions.any fun e =>
          decide (tallyOf ⟨n.id, [1], e.span⟩ (chain.calls [none, some "r"]).journal = 1)) =
            true := by
    decide +kernel
  obtain ⟨chain, hstart, hall⟩ := exists_ok_of_any hcheck
  obtain ⟨hsucceeds, hnodes⟩ := Bool.and_eq_true_iff.1 hall
  obtain ⟨n, hn, hnode⟩ := List.any_eq_true.1 hnodes
  obtain ⟨hloop, hexpressions⟩ := Bool.and_eq_true_iff.1 hnode
  obtain ⟨e, he, htally⟩ := List.any_eq_true.1 hexpressions
  have hnot : ¬ n.Forgets e := Node.not_forgets_of_isPlainLoop hloop e
  exact ⟨chain, hstart, hsucceeds, n, hn, e, he, hnot, of_decide_eq_true htally,
    evaluated_once hstart [none, some "r"] hn he [1]⟩

/-- Attributes of content and of a tool call around a step, and the items of a loop with a step in
its `else` part. -/
def forgetfulPrompts : List String :=
  ["<text a=" ++ braced "1" ++ "><step /></text>",
    "<tool-call id='1' name=" ++ braced "'f'" ++ "><step /></tool-call>",
    braced "for x in []" ++ braced "else" ++ "<step />" ++ braced "endfor"]

/-- What is forgotten is evaluated twice, by a chain in which no call fails. -/
theorem evaluated_again :
    forgetfulPrompts.Forall fun text => ∃ chain, Chain.start plainSetting text [] = .ok chain ∧
      (chain.calls [none, some "r"]).completed = true ∧
      ∃ n ∈ chain.template.root.nodes, ∃ e ∈ n.expressions,
        tallyOf ⟨n.id, [], e.span⟩ (chain.calls [none, some "r"]).journal = 2 := by
  have hcheck : (forgetfulPrompts.all fun text =>
    (Chain.start plainSetting text []).toOption.any fun chain =>
      (chain.calls [none, some "r"]).completed && chain.template.root.nodes.any fun n =>
        n.expressions.any fun e =>
          decide (tallyOf ⟨n.id, [], e.span⟩ (chain.calls [none, some "r"]).journal = 2)) =
            true := by
    decide +kernel
  refine List.forall_iff_forall_mem.2 fun text htext => ?_
  obtain ⟨chain, hstart, hone⟩ := exists_ok_of_any (List.all_eq_true.1 hcheck text htext)
  obtain ⟨hcompleted, hnodes⟩ := Bool.and_eq_true_iff.1 hone
  obtain ⟨n, hn, hexpressions⟩ := List.any_eq_true.1 hnodes
  obtain ⟨e, he, htally⟩ := List.any_eq_true.1 hexpressions
  exact ⟨chain, hstart, hcompleted, n, hn, e, he, of_decide_eq_true htally⟩

end Chain

end PromptMarkup

/-
A walk that starts where another one paused.

* `Poised` — how a walk stands that starts from what another one has left behind: the visits in
  front of the place where the other paused are over, and the blocks around it have recorded what
  they had decided;
* `Node.Poised.among`, `Node.Poised.enter` — it skips the visits that are over, and goes into the
  node that had paused;
* `runFrom_takesBranch`, `runFrom_takeItems`, `runFrom_setIndex_resumed` — what was recorded is
  taken up.

Design notes: two walks are compared, `a`, which paused with what `t` has left behind, and `c`.  How
they stand is told for the visit of a node; `held` are the nodes that both are in, whose statuses
differ until their visits end.
-/
import PromptMarkup.Proofs.Pausing

namespace PromptMarkup

open PromptMarkup.Computation Walking

/-! ### What was recorded -/

namespace Walking

variable {setting : Setting} {header : ForHeader} {id : Nat} {path : IterationPath} {w u x : Walk}
  {items : List Value} {i : Nat} {resumed v : Option Value}

theorem runFrom_takesBranch {condition : Expr} {taken : Bool}
    (h : (w.statuses.ofNode id).decision = .branch taken) :
    runFrom w (takesBranch setting id path condition) = (.ok taken, w) := by
  unfold takesBranch
  rw [runFrom_bind_ok (runFrom_look w _), h]
  rfl

theorem runFrom_takeItems {iterable : Expr}
    (h : (w.statuses.ofNode id).decision = .iteration items i v) :
    runFrom w (takeItems setting id path iterable) = (.ok ⟨items, i, v⟩, w) := by
  unfold takeItems
  rw [runFrom_bind_ok (runFrom_look w _), h]
  rfl

/-- A loop that has decided the same as one without items, but has items, starts with the first. -/
theorem first_of_takeItems {iterable : Expr} {loop loop' : Loop} {y : Walk}
    (hdecision : (w.statuses.ofNode id).decision = (u.statuses.ofNode id).decision)
    (hu : runFrom u (takeItems setting id path iterable) = (.ok loop, x)) (hempty : loop.items = [])
    (hw : runFrom w (takeItems setting id path iterable) = (.ok loop', y))
    (hsome : loop'.items ≠ []) : loop'.first = 0 := by
  -- without a decision the iterable is evaluated, and its items are gone through from the first
  have again : ∀ {z : Walk} {loop : Loop}, runFrom w (do
      let v ← evaluate setting id path iterable
      return ⟨itemsOf v, 0, none⟩) = (.ok loop, z) → loop.first = 0 := by
    intro z loop h
    obtain ⟨v, z', -, hv⟩ := runFrom_bind_eq_ok h
    rw [← Except.ok.inj (Prod.mk.inj hv).1]
  unfold takeItems at hu hw
  rw [runFrom_bind_ok (runFrom_look _ _)] at hu hw
  rw [hdecision] at hw
  -- both walks know the same decision
  cases hd : (u.statuses.ofNode id).decision with
  | iteration items i v =>
    rw [hd] at hu hw
    obtain rfl : ⟨items, i, v⟩ = loop := Except.ok.inj (Prod.mk.inj hu).1
    obtain rfl : ⟨items, i, v⟩ = loop' := Except.ok.inj (Prod.mk.inj hw).1
    exact absurd hempty hsome
  | none =>
    rw [hd] at hw
    exact again hw
  | branch taken =>
    rw [hd] at hw
    exact again hw

/-- The variables of an iteration whose index variable has a value already. -/
def indexed (header : ForHeader) (v : Option Value) (scope : Scope) : Scope :=
  match header.index, v with
  | some name, some v => scope.set name v
  | _, _ => scope

/-- The index variable of an iteration that is resumed gets the value that it had. -/
theorem runFrom_setIndex_resumed
    (h : runFrom u (setIndex setting id path header i resumed) = (.ok v, x)) (w : Walk) :
    runFrom w (setIndex setting id path header i v) =
      (.ok v, { w with scope := indexed header v w.scope }) := by
  unfold setIndex indexed at *
  cases hindex : header.index with
  | none =>
    rw [hindex] at h
    obtain rfl : none = v := by simpa using (Prod.mk.inj h).1
    rfl
  | some name =>
    rw [hindex] at h
    obtain ⟨value, y, -, hrest⟩ := runFrom_bind_eq_ok h
    obtain rfl : some value = v := by simpa using (Prod.mk.inj hrest).1
    rfl

/-- The name of a response does not depend on the state. -/
theorem runFrom_stepName {attributes : List Attribute} {as? : Option String}
    (h : runFrom u (stepName attributes) = (.ok as?, x)) (w : Walk) :
    runFrom w (stepName attributes) = (.ok as?, w) := by
  unfold stepName at *
  split
  · next hfind =>
    rw [hfind] at h
    rw [← (Prod.mk.inj h).1]
    rfl
  · next a hfind =>
    rw [hfind] at h
    dsimp only at h
    split at h
    · rw [← (Prod.mk.inj h).1]
      rfl
    · exact nomatch h

end Walking

/-! ### How the walks stand -/

/-- A walk `c` stands where another one started, `a`, that paused inside of the given nodes with
what `t` has left behind. -/
structure Poised (more : List String) (held ids : List Nat) (a t c : Walk) : Prop where
  nodup : ids.Nodup
  free : ∀ id ∈ ids, id ∉ held
  bounded : ∀ id ∈ ids, id < a.statuses.nodes.size
  size : c.statuses.nodes.size = t.statuses.nodes.size
  statuses : ∀ id, id ∉ held → c.statuses.ofNode id = t.statuses.ofNode id
  responses : c.responses = more
  stray : c.stray = ""
  content : c.content = []
  toolCalls : c.toolCalls = []
  inMessage : c.inMessage = a.inMessage
  inContent : c.inContent = a.inContent
  inStep : c.inStep = a.inStep
  inArguments : c.inArguments = a.inArguments
  turns : c.turns = a.turns

namespace Poised

variable {more : List String} {held ids ids' : List Nat} {path : IterationPath} {a s t c : Walk}

theorem settled (h : Poised more held ids a t c) : c.Settled :=
  ⟨h.stray, h.content, h.toolCalls⟩

theorem sublist (h : Poised more held ids a t c) (hsub : ids'.Sublist ids) :
    Poised more held ids' a t c :=
  { h with
    nodup := h.nodup.sublist hsub
    free := fun id hid => h.free id (hsub.subset hid)
    bounded := fun id hid => h.bounded id (hsub.subset hid) }

/-- The first walk goes on, and the second is still where it was. -/
theorem advance (h : Poised more held ids a t c) (hprogress : Progress ids' path a s)
    (hturns : s.turns = a.turns) : Poised more held ids s t c :=
  { h with
    bounded := fun id hid => hprogress.size ▸ h.bounded id hid
    inMessage := h.inMessage.trans hprogress.inMessage.symm
    inContent := h.inContent.trans hprogress.inContent.symm
    inStep := h.inStep.trans hprogress.inStep.symm
    inArguments := h.inArguments.trans hprogress.inArguments.symm
    turns := h.turns.trans hturns.symm }

/-- Both walks go into the same part of a block. -/
theorem entered (h : Poised more held ids a t c) (turn : Turn) :
    Poised more held ids (Walking.entered a turn) t (Walking.entered c turn) := by
  refine { h with turns := ?_ }
  rw [Walking.entered, Walking.entered, h.turns]

/-- The second walk evaluates something. -/
theorem silent {id : Nat} (h : Poised more held ids a t c) (hs : Silent id path c s) :
    Poised more held ids a t s := by
  rw [hs.same]
  exact { h with }

/-- What the first walk records of a block does not concern what is inside. -/
theorem undecided {id : Nat} {d : Decision}
    (h : Poised more (id :: held) ids a { t with statuses := t.statuses.decide id d } c) :
    Poised more (id :: held) ids a t c := by
  refine { h with
    size := h.size.trans (Statuses.size_decide _ _ _), statuses := fun other hother => ?_ }
  refine (h.statuses other hother).trans (Statuses.ofNode_decide_of_ne d fun heq => ?_)
  exact hother (heq ▸ List.mem_cons_self)

end Poised

namespace Node

variable {setting : Setting} {path : IterationPath} {config : Fields Json} {more : List String}
  {held : List Nat} {a t c : Walk}

/-- In a walk over several nodes the visits in front of the one that pauses are over. -/
theorem completed_of_pausesAmong {before : List Node} {m : Node} {s : Walk}
    (hnodup : (idsAll before ++ m.ids).Nodup)
    (hbounded : ∀ id ∈ idsAll before, id < a.statuses.nodes.size)
    (hfree : ∀ id ∈ idsAll before, id ∉ held)
    (hstatuses : ∀ id, id ∉ held → c.statuses.ofNode id = t.statuses.ofNode id)
    (hs : runFrom a (walkAll setting before path) = (.ok (), s))
    (hm : runFrom s (m.walk setting path) = (.error (.paused config), t)) :
    ∀ n ∈ before, c.statuses.completed n.id path = true := by
  intro n hn
  obtain ⟨hbefore, -, hdisjoint⟩ := List.nodup_append.1 hnodup
  have hid : n.id ∈ idsAll before := ids_subset_idsAll hn n.id_mem_ids
  have hover : s.statuses.completed n.id path = true :=
    completed_of_walkAll hbefore hbounded hs n hn
  have hframe : t.statuses.ofNode n.id = s.statuses.ofNode n.id :=
    (progress_of_walk hm).frame n.id fun hidm => hdisjoint n.id hid n.id hidm rfl
  rw [Statuses.completed, hstatuses n.id (hfree n.id hid), hframe]
  exact hover

/-- In a walk over several nodes the second walk skips what is in front of the node that pauses. -/
theorem among_of_poised {before after : List Node} {m : Node} {s : Walk}
    (h : Poised more held (idsAll (before ++ m :: after)) a t c)
    (hs : runFrom a (walkAll setting before path) = (.ok (), s))
    (hm : runFrom s (m.walk setting path) = (.error (.paused config), t)) :
    Poised more held m.ids s t c ∧ runFrom c (walkAll setting before path) = (.ok (), c) := by
  refine ⟨?_, walkAll_over ?_⟩
  · exact (h.sublist (ids_sublist_idsAll (by simp))).advance (progress_of_walkAll hs)
      (finish_of_walkAll hs).turns
  · have hsub : idsAll before ⊆ idsAll (before ++ m :: after) := by
      rw [idsAll_append]
      exact List.subset_append_left _ _
    refine completed_of_pausesAmong ?_ (fun id hid => h.bounded id (hsub hid))
      (fun id hid => h.free id (hsub hid)) h.statuses hs hm
    have hnodup := h.nodup
    rw [idsAll_append, idsAll_cons, ← List.append_assoc] at hnodup
    exact (List.nodup_append.1 hnodup).1

/-- How the walks stand inside of a node that both visit. -/
structure Entered (more : List String) (held : List Nat) (n : Node) (path : IterationPath)
    (a s c : Walk) : Prop where
  poised : Poised more (n.id :: held) (idsAll n.childNodes) a s c
  bounded : n.id < s.statuses.nodes.size
  pointers : c.scope.pointers = a.scope.pointers
  decision : (c.statuses.ofNode n.id).decision = (s.statuses.ofNode n.id).decision
  paused : c.statuses.pausedAt? n.id path = some a.scope.pointers

/-- When the walks visit a node, the second finds the names that the first started with. -/
theorem enter_of_poised {n : Node} {s : Walk}
    (hs : Pauses setting path config n (a.enter n.id path) s)
    (ht : t = { s with
      statuses := s.statuses.pause n.id path (a.enter n.id path).scope.pointers })
    (ha : runFrom a (n.walk setting path) = (.error (.paused config), t))
    (h : Poised more held n.ids a t c) :
    c.statuses.completed n.id path = false ∧
      c.enter n.id path = { c with scope.pointers := (a.enter n.id path).scope.pointers } ∧
      Entered more held n path (a.enter n.id path) s (c.enter n.id path) := by
  subst ht
  have hnodup := h.nodup
  rw [ids_eq] at hnodup
  obtain ⟨hself, hchildren⟩ := List.nodup_cons.1 hnodup
  have hid : n.id ∈ n.ids := n.id_mem_ids
  have henters : Progress n.ids path a (a.enter n.id path) ∧
      Finish n.ids False a (a.enter n.id path) := progress_enter a hid
  have hover := (pauses_of_walk ha).1
  have hsize : s.statuses.nodes.size = a.statuses.nodes.size := by
    rw [← (progress_of_walk ha).size]
    exact (Statuses.size_pause _ _ _ _).symm
  -- the status that the resumed walk finds is the one that the pause has noted
  have hstatus : c.statuses.ofNode n.id = { s.statuses.ofNode n.id with
      paused := some ⟨path, (a.enter n.id path).scope.pointers⟩ } := by
    rw [h.statuses n.id (h.free n.id hid)]
    exact Statuses.ofNode_pause _ _ (hsize ▸ h.bounded n.id hid)
  have hpaused : c.statuses.pausedAt? n.id path = some (a.enter n.id path).scope.pointers := by
    unfold Statuses.pausedAt?
    rw [hstatus]
    exact if_pos (beq_self_eq_true path)
  -- the pause left the stamp of the last completion as it was
  have hcompleted : (c.statuses.ofNode n.id).completedAt =
    (a.statuses.ofNode n.id).completedAt := by
    rw [hstatus]
    refine (hs.completedAt hself).trans ?_
    unfold Walk.enter
    split
    · rfl
    · exact Statuses.completedAt_of_decides (.inr ⟨_, rfl⟩) n.id
  -- a paused node is entered with the names that were kept, not with those around it
  have henter : c.enter n.id path =
      { c with scope.pointers := (a.enter n.id path).scope.pointers } := by
    unfold Walk.enter at hpaused ⊢
    rw [hpaused]
  have hadvanced := h.advance henters.1 henters.2.turns
  refine ⟨?_, henter, ?_⟩
  · rw [Statuses.completed, hcompleted]
    exact hover
  · rw [henter]
    refine ⟨{ hadvanced with
      nodup := hchildren
      free := fun id hidc hmem => ?_
      bounded := fun id hidc => hadvanced.bounded id (idsAll_childNodes_subset n hidc)
      size := hadvanced.size.trans (Statuses.size_pause _ _ _ _)
      -- what stands below the node is as the paused walk left it
      statuses := fun id hidh => ?_ }, hsize ▸ h.bounded n.id hid, rfl, ?_, hpaused⟩
    · rcases List.mem_cons.1 hmem with rfl | hmem
      · exact hself hidc
      · exact h.free id (idsAll_childNodes_subset n hidc) hmem
    · refine (h.statuses id fun hmem => hidh (List.mem_cons_of_mem _ hmem)).trans ?_
      exact Statuses.ofNode_pause_of_ne _ _ fun heq => hidh (heq ▸ List.mem_cons_self)
    · show (c.statuses.ofNode n.id).decision = _
      rw [hstatus]

/-! ### What the second walk does -/

variable {s u : Walk} {info : NodeInfo} {children : List Node}

/-- What a block had decided when the first walk paused is still decided. -/
theorem Entered.decided {n : Node} {d : Decision}
    (h : Entered more held n path a { t with statuses := t.statuses.decide n.id d } c) :
    (c.statuses.ofNode n.id).decision = d := by
  refine h.decision.trans ?_
  have hbound : n.id < t.statuses.nodes.size := by
    rw [← Statuses.size_decide t.statuses n.id d]
    exact h.bounded
  exact congrArg NodeStatus.decision (Statuses.ofNode_decide _ hbound)

/-- The second walk goes at once to the iteration in which the first paused. -/
theorem Entered.iteration {header : ForHeader} {otherwise : Option Node} {items later : List Value}
    {item : Value} {i : Nat} {v : Option Value}
    (h : Entered more held (forBlock info header children otherwise) path a
      { t with statuses := t.statuses.decide info.id (.iteration items i v) } c)
    (hnames : FreeIn header a.scope) (hitems : items.drop i = item :: later) :
    runFrom c (act setting (forBlock info header children otherwise) path) = runFrom c (do
      Walking.iteration setting info.id path header items
        (fun inner => walkAll setting children inner) i v item
      iterations setting info.id path header items (fun inner => walkAll setting children inner)
        (i + 1) none later) := by
  -- the names of the loop are as free as they were
  have hcheck : runFrom c (checkNames info header) = (.ok (), c) :=
    runFrom_checkNames (hnames.of_pointers h.pointers)
  -- the decision was kept, so that the iterable is not evaluated again
  have hloop : runFrom c (takeItems setting info.id path header.iterable) =
      (.ok ⟨items, i, v⟩, c) := runFrom_takeItems h.decided
  have hsome : items.isEmpty = false := by
    rw [List.isEmpty_eq_false_iff]
    rintro rfl
    simp at hitems
  show runFrom c (Walking.forBlock _ _ _ _ _ _) = _
  unfold Walking.forBlock
  rw [runFrom_bind_ok hcheck, runFrom_bind_ok hloop]
  dsimp only
  rw [hsome, if_neg Bool.false_ne_true, hitems]
  rfl

/-- At the step at which the first walk waits the second takes a response at once. -/
theorem Entered.step {name : String} {attributes : List Attribute} {as? : Option String}
    (h : Entered more held (element info name attributes children) path a
      (waiting setting info.id path { u with inStep := false }) c)
    (hkind : TagKind.ofName name = .step) (houter : a.inStep = false)
    (hmessage : a.inMessage = false) (hname : runFrom a (stepName attributes) = (.ok as?, a))
    (hconfig : runFrom a (stepConfig setting info.id path attributes) = (.ok config, s))
    (hbody : runFrom { s with inStep := true } (walkAll setting children path) = (.ok (), u)) :
    runFrom c (act setting (element info name attributes children) path) =
      runFrom c (takeResponse setting info.id path as? []) := by
  have hstep : { c with inStep := false } = c := by
    rw [← h.poised.inStep.trans houter]
  have hstatuses : s.statuses = a.statuses :=
    ((silent_stepConfig setting info.id path False.elim False.elim a).done hconfig).1.statuses
  -- what a step evaluates is evaluated before it pauses, and not again
  have hcconfig : runFrom c (stepConfig setting info.id path attributes) = (.ok [], c) := by
    unfold stepConfig
    have hpaused : c.statuses.pausedAt? info.id path = some a.scope.pointers := h.paused
    rw [runFrom_bind_ok (runFrom_look c _), hpaused]
    rfl
  -- its children were completed, and are passed over
  have hover : ∀ n ∈ children, c.statuses.completed n.id path = true := by
    intro n hm
    have hid : n.id ∈ idsAll children := ids_subset_idsAll hm n.id_mem_ids
    rw [Statuses.completed, h.poised.statuses n.id (h.poised.free n.id hid), waiting,
      Walk.statuses_closed]
    refine completed_of_walkAll h.poised.nodup (fun id hid => ?_) hbody n hm
    show id < s.statuses.nodes.size
    rw [hstatuses]
    exact h.poised.bounded id hid
  have hcbody : runFrom c (within (fun w => { w with inStep := true })
      (fun w => { w with inStep := false }) (walkAll setting children path)) = (.ok (), c) := by
    have hskip : runFrom { c with inStep := true } (walkAll setting children path) =
        (.ok (), { c with inStep := true }) := walkAll_over hover
    rw [runFrom_within, hskip]
    exact congrArg (Prod.mk _) hstep
  rw [act_step hkind (h.poised.inStep.trans houter) (h.poised.inMessage.trans hmessage),
    runFrom_bind_ok (runFrom_stepName hname c), runFrom_bind_ok hcconfig, runFrom_bind_ok hcbody]

end Node

end PromptMarkup

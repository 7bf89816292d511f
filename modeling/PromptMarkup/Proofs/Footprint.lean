/-
What a walk can change.

* `Progress` — the changes of a walk inside of some nodes: it changes the statuses of these nodes
  only, the messages, the problems and the journal grow, and every response that is gone was taken
  by a step;
* `Finish` — what holds besides of a walk that came to its end;
* `progress` — the law of such a walk; it pauses only outside of messages and steps, and only if
  there is a step in it;
* `Node.respects_walk` — the visit of a node keeps this law.

Design notes: the law says everything that later proofs need to know about a walk whose result does
not matter to them.  Like the law of a leaf it has a condition `still` for the names that are
visible.
-/
import PromptMarkup.Proofs.Leaves
import PromptMarkup.Proofs.Numbering

namespace PromptMarkup

open PromptMarkup.Computation

/-! ### Nodes -/

namespace Node

/-- A step. -/
def isStep : Node → Bool
  | element _ name _ _ => TagKind.ofName name == .step
  | _ => false

/-- There is a step in a node, or the node is one. -/
def HoldsStep (n : Node) : Prop :=
  ∃ m ∈ n.nodes, m.isStep = true

/-- No expression in a node declares a name. -/
def DeclaresNothing (n : Node) : Prop :=
  ∀ m ∈ n.nodes, ∀ e ∈ m.expressions, e.DeclaresNothing

theorem HoldsStep.of_child {n m : Node} (hm : m ∈ n.childNodes) (h : m.HoldsStep) :
    n.HoldsStep := by
  obtain ⟨x, hx, hstep⟩ := h
  exact ⟨x, mem_nodes_of_child hm hx, hstep⟩

theorem DeclaresNothing.child {n m : Node} (h : n.DeclaresNothing) (hm : m ∈ n.childNodes) :
    m.DeclaresNothing :=
  fun x hx => h x (mem_nodes_of_child hm hx)

theorem DeclaresNothing.self {n : Node} (h : n.DeclaresNothing) :
    ∀ e ∈ n.expressions, e.DeclaresNothing :=
  h n (mem_nodes_self n)

end Node

/-! ### Progress -/

/-- No node among the given ones has paused. -/
def Unpaused (ids : List Nat) (s : Statuses) : Prop :=
  ∀ id ∈ ids, (s.ofNode id).paused = none

/-- All names that are visible have slots, and so have those that are kept for visits that paused.
-/
structure Walk.Stored (w : Walk) : Prop where
  visible : w.scope.Valid
  kept : ∀ id point, (w.statuses.ofNode id).paused = some point →
    Pointers.Below point.pointers w.scope.stash.slots.size

/-- The changes of a walk inside of the given nodes, in the iterations of a path. -/
structure Progress (ids : List Nat) (path : IterationPath) (w t : Walk) : Prop where
  size : t.statuses.nodes.size = w.statuses.nodes.size
  frame : ∀ id, id ∉ ids → t.statuses.ofNode id = w.statuses.ofNode id
  slots : w.scope.stash.slots.size ≤ t.scope.stash.slots.size
  stored : w.Stored → t.Stored
  messages : w.messages <+: t.messages
  problems : w.problems <+: t.problems
  inMessage : t.inMessage = w.inMessage
  inContent : t.inContent = w.inContent
  inStep : t.inStep = w.inStep
  inArguments : t.inArguments = w.inArguments
  journal : ∃ new, t.journal = new ++ w.journal ∧ (∀ e ∈ new, e.Inside ids path) ∧
    takenIn new ++ t.responses = w.responses

/-- What holds besides if the walk came to its end. -/
structure Finish (ids : List Nat) (still : Prop) (w t : Walk) : Prop where
  turns : t.turns = w.turns
  unpaused : ∀ id, (w.statuses.ofNode id).paused = none → (t.statuses.ofNode id).paused = none
  pointers : still → w.inStep = true → Unpaused ids w.statuses →
    t.scope.pointers = w.scope.pointers

namespace Progress

variable {ids : List Nat} {path : IterationPath} {u v w t : Walk}

/-- A change of statuses of the given nodes and of names. -/
theorem of_eq (hsize : t.statuses.nodes.size = w.statuses.nodes.size)
    (hframe : ∀ id, id ∉ ids → t.statuses.ofNode id = w.statuses.ofNode id)
    (hslots : t.scope.stash = w.scope.stash) (hstored : w.Stored → t.Stored)
    (h : t = { w with statuses := t.statuses, scope := t.scope }) : Progress ids path w t := by
  have hsame : w.messages <+: t.messages ∧ w.problems <+: t.problems := by
    rewrite [h]
    exact ⟨List.prefix_rfl, List.prefix_rfl⟩
  refine ⟨hsize, hframe, Nat.le_of_eq (by rw [hslots]), hstored, hsame.1, hsame.2, ?_, ?_, ?_,
    ?_, [], ?_⟩
  · rw [h]
  · rw [h]
  · rw [h]
  · rw [h]
  · rw [h]
    exact ⟨rfl, by simp, rfl⟩

/-- A change of what is pending, and of the parts of blocks that the walk is in. -/
theorem of_pending (h : t = { w with
    stray := t.stray, content := t.content, toolCalls := t.toolCalls, turns := t.turns }) :
    Progress ids path w t := by
  rw [h]
  exact ⟨rfl, fun _ _ => rfl, Nat.le_refl _, fun hw => ⟨hw.visible, hw.kept⟩, List.prefix_rfl,
    List.prefix_rfl, rfl, rfl, rfl, rfl, ⟨[], rfl, by simp, rfl⟩⟩

theorem refl (w : Walk) : Progress ids path w w :=
  of_pending rfl

theorem trans (h : Progress ids path u v) (h' : Progress ids path v w) :
    Progress ids path u w := by
  obtain ⟨new, hnew, hin, htaken⟩ := h.journal
  obtain ⟨new', hnew', hin', htaken'⟩ := h'.journal
  refine ⟨h'.size.trans h.size, fun id hid => (h'.frame id hid).trans (h.frame id hid),
    Nat.le_trans h.slots h'.slots, fun hu => h'.stored (h.stored hu),
    h.messages.trans h'.messages, h.problems.trans h'.problems, h'.inMessage.trans h.inMessage,
    h'.inContent.trans h.inContent, h'.inStep.trans h.inStep,
    h'.inArguments.trans h.inArguments, ⟨new' ++ new, ?_, ?_, ?_⟩⟩
  · rw [hnew', hnew, List.append_assoc]
  · intro e he
    rcases List.mem_append.1 he with he | he
    · exact hin' e he
    · exact hin e he
  · rw [takenIn_append, List.append_assoc, htaken', htaken]

theorem weaken {ids' : List Nat} {path' : IterationPath} (h : Progress ids path w t)
    (hids : ids ⊆ ids') (hpath : path' <+: path) : Progress ids' path' w t := by
  obtain ⟨new, hnew, hin, htaken⟩ := h.journal
  refine { h with
    frame := fun id hid => h.frame id fun hid' => hid (hids hid')
    journal := ⟨new, hnew, fun e he => ?_, htaken⟩ }
  exact ⟨hids (hin e he).1, hpath.trans (hin e he).2⟩

end Progress

theorem Leaf.progress {id : Nat} {path : IterationPath} {sure : Prop} {w t : Walk}
    (h : Leaf id path sure w t) : Progress [id] path w t := by
  obtain ⟨more, hmore, -⟩ := h.problems
  obtain ⟨new, hnew, hlocal⟩ := h.journal
  have hsame := h.same
  -- all the parts of the law, most of which a leaf does not touch
  refine ⟨?_, ?_, h.leads.size, fun hw => ⟨h.leads.valid hw.visible, ?_⟩, h.messages,
    ⟨more, hmore.symm⟩, ?_, ?_, ?_, ?_, ⟨new, hnew, ?_, ?_⟩⟩
  · rw [hsame]
  · intro id hid
    rw [hsame]
  · intro other point hpoint
    have hstatuses : t.statuses = w.statuses := by rw [hsame]
    rw [hstatuses] at hpoint
    exact (hw.kept other point hpoint).mono h.leads.size
  · rw [hsame]
  · rw [hsame]
  · rw [hsame]
  · rw [hsame]
  · intro e he
    obtain ⟨-, hid, hpath⟩ := hlocal e he
    exact ⟨List.mem_singleton.2 hid, hpath⟩
  · rw [takenIn_of_isLocal fun e he => (hlocal e he).1, hsame]
    rfl

theorem Silent.progress {id : Nat} {path : IterationPath} {w t : Walk} (h : Silent id path w t) :
    Progress [id] path w t :=
  (h.leaf : Leaf id path False w t).progress

/-- The law of a walk inside of the given nodes.  Under the condition `steps` it may pause, and
under the condition `still` it keeps inside of a step the names that are visible. -/
def progress (ids : List Nat) (path : IterationPath) (steps still : Prop) : Law Interrupt Walk where
  done w t := Progress ids path w t ∧ Finish ids still w t
  stop w e t := Progress ids path w t ∧
    ∀ config, e = .paused config → w.inMessage = false ∧ w.inStep = false ∧ steps
  refl w := ⟨Progress.refl w, ⟨rfl, fun _ h => h, fun _ _ _ => rfl⟩⟩
  trans := by
    intro u v w h h'
    refine ⟨h.1.trans h'.1, ⟨h'.2.turns.trans h.2.turns,
      fun id hid => h'.2.unpaused id (h.2.unpaused id hid), fun hs hstep hunpaused => ?_⟩⟩
    have hv : Unpaused ids v.statuses := fun id hid => h.2.unpaused id (hunpaused id hid)
    exact (h'.2.pointers hs (h.1.inStep.trans hstep) hv).trans (h.2.pointers hs hstep hunpaused)
  back := by
    intro u v e w h h'
    refine ⟨h.1.trans h'.1, fun config he => ?_⟩
    obtain ⟨h1, h2, h3⟩ := h'.2 config he
    exact ⟨h.1.inMessage.symm.trans h1, h.1.inStep.symm.trans h2, h3⟩

namespace Walking

variable {α : Type} {setting : Setting} {ids : List Nat} {path : IterationPath}
  {steps still : Prop}

theorem progress_weaken {w : Walk} {x : Walking α} {ids' : List Nat} {path' : IterationPath}
    {steps' still' : Prop} (h : RespectsAt (progress ids path steps still) w x)
    (hids : ids ⊆ ids') (hpath : path' <+: path) (hsteps : steps → steps')
    (hstill : still' → still) : RespectsAt (progress ids' path' steps' still') w x := by
  refine h.weaken (fun t hd => ⟨hd.1.weaken hids hpath, ⟨hd.2.turns, hd.2.unpaused, ?_⟩⟩)
    (fun e t hs => ⟨hs.1.weaken hids hpath, fun config he => ?_⟩)
  · exact fun hs hstep hunpaused =>
      hd.2.pointers (hstill hs) hstep fun id hid => hunpaused id (hids hid)
  · obtain ⟨h1, h2, h3⟩ := hs.2 config he
    exact ⟨h1, h2, hsteps h3⟩

/-- The law of a leaf is a case of the law of a walk. -/
theorem progress_of_leaf {id : Nat} {sure still' : Prop} {x : Walking α}
    (h : Respects (leaf id path sure still') x) (hid : id ∈ ids) (hstill : still → still') :
    Respects (progress ids path steps still) x := by
  have hids : [id] ⊆ ids := by simpa using hid
  refine Respects.weaken h (fun w t hd => ?_) ?_
  · refine ⟨hd.1.progress.weaken hids List.prefix_rfl, ⟨?_, ?_, fun hs _ _ => hd.2 (hstill hs)⟩⟩
    · rw [hd.1.same]
    · intro id h
      rw [hd.1.same]
      exact h
  · rintro w e t ⟨hd, p, rfl, -⟩
    exact ⟨hd.progress.weaken hids List.prefix_rfl, fun _ he => nomatch he⟩

theorem progress_of_silent {id : Nat} {sure still' : Prop} {x : Walking α}
    (h : Respects (silent id path sure still') x) (hid : id ∈ ids) (hstill : still → still') :
    Respects (progress ids path steps still) x :=
  progress_of_leaf (leaf_of_silent h (fun h => h) fun h => h) hid hstill

/-! ### Parts of a walk -/

/-- Inside of a copy all names may change. -/
theorem progress_inCopy {w : Walk} {act : Walking Unit}
    (h : RespectsAt (progress ids path steps False) w act) :
    RespectsAt (progress ids path steps still) w (inCopy act) := by
  rcases hrun : runFrom w act with ⟨e | ⟨⟩, t⟩
  · exact RespectsAt.of_error (runFrom_inCopy_error hrun) (h.stop hrun)
  · obtain ⟨hp, hf⟩ := h.done hrun
    refine RespectsAt.of_ok (runFrom_inCopy_ok hrun) ⟨?_, ⟨hf.turns, hf.unpaused, ?_⟩⟩
    · exact { hp with stored := fun hw => ⟨hw.visible.mono hp.slots, (hp.stored hw).kept⟩ }
    · exact fun _ _ _ => rfl

theorem progress_entered (w : Walk) {turn : Turn} (hid : turn.block ∈ ids)
    (hpath : path <+: turn.path) : Progress ids path w (entered w turn) := by
  refine ⟨rfl, fun _ _ => rfl, Nat.le_refl _, fun hw => ⟨hw.visible, hw.kept⟩, List.prefix_rfl,
    List.prefix_rfl, rfl, rfl, rfl, rfl, ⟨[.entered turn], rfl, fun e he => ?_, rfl⟩⟩
  obtain rfl := List.mem_singleton.1 he
  exact ⟨hid, hpath⟩

theorem progress_entering {w : Walk} {turn : Turn} {act : Walking Unit} (hid : turn.block ∈ ids)
    (hpath : path <+: turn.path)
    (h : RespectsAt (progress ids path steps still) (entered w turn) act) :
    RespectsAt (progress ids path steps still) w (entering turn act) := by
  have hstart : Progress ids path w (entered w turn) := progress_entered w hid hpath
  rcases hrun : runFrom (entered w turn) act with ⟨e | ⟨⟩, t⟩
  · obtain ⟨hp, hpause⟩ := h.stop hrun
    exact RespectsAt.of_error (runFrom_entering_error hrun) ⟨hstart.trans hp, hpause⟩
  · obtain ⟨hp, hf⟩ := h.done hrun
    refine RespectsAt.of_ok (runFrom_entering_ok hrun)
      ⟨(hstart.trans hp).trans ?_, ⟨rfl, hf.unpaused, hf.pointers⟩⟩
    exact Progress.of_pending rfl

theorem progress_onPause {w : Walk} {record : Walk → Walk} {act : Walking Unit}
    (hrecord : ∀ t, Progress ids path t (record t))
    (h : RespectsAt (progress ids path steps still) w act) :
    RespectsAt (progress ids path steps still) w (onPause record act) := by
  rcases hrun : runFrom w act with ⟨(config | p) | ⟨⟩, t⟩
  · obtain ⟨hp, hpause⟩ := h.stop hrun
    exact RespectsAt.of_error (runFrom_onPause_paused hrun) ⟨hp.trans (hrecord t), hpause⟩
  · exact RespectsAt.of_error (runFrom_onPause_failed hrun) (h.stop hrun)
  · exact RespectsAt.of_ok (runFrom_onPause_ok hrun) (h.done hrun)

theorem progress_decide {id : Nat} (hid : id ∈ ids) (d : Decision) (w : Walk) :
    Progress ids path w { w with statuses := w.statuses.decide id d } := by
  refine Progress.of_eq (Statuses.size_decide _ _ _) (fun other hother => ?_) rfl (fun hw => ?_) rfl
  · exact Statuses.ofNode_decide_of_ne d fun h => hother (h ▸ hid)
  · refine ⟨hw.visible, fun other point hpoint => hw.kept other point ?_⟩
    rw [← Statuses.paused_decide]
    exact hpoint

theorem progress_captured {w : Walk} {act : Walking Unit}
    (h : RespectsAt (progress ids path steps still) { w with stray := "" } act) :
    RespectsAt (progress ids path steps still) w (captured act) := by
  have hstart : Progress ids path w { w with stray := "" } := Progress.of_pending rfl
  have hend : ∀ t : Walk, Progress ids path t { t with stray := w.stray } :=
    fun t => Progress.of_pending rfl
  rcases hrun : runFrom { w with stray := "" } act with ⟨e | ⟨⟩, t⟩
  · obtain ⟨hp, hpause⟩ := h.stop hrun
    exact RespectsAt.of_error (runFrom_captured_error hrun)
      ⟨(hstart.trans hp).trans (hend t), hpause⟩
  · obtain ⟨hp, hf⟩ := h.done hrun
    exact RespectsAt.of_ok (runFrom_captured_ok hrun)
      ⟨(hstart.trans hp).trans (hend t), ⟨hf.turns, hf.unpaused, hf.pointers⟩⟩

/-- A part of a walk with other flags, if they are put back behind it. -/
theorem progress_within {w : Walk} {there back : Walk → Walk} {act : Walking Unit} {steps' : Prop}
    (hthere : there w = { w with
      inMessage := (there w).inMessage, inContent := (there w).inContent
      inStep := (there w).inStep, inArguments := (there w).inArguments })
    (hback : ∀ t : Walk, t.inMessage = (there w).inMessage → t.inContent = (there w).inContent →
      t.inStep = (there w).inStep → t.inArguments = (there w).inArguments →
      back t = { t with
        inMessage := w.inMessage, inContent := w.inContent
        inStep := w.inStep, inArguments := w.inArguments })
    (hpause : (there w).inMessage = false → (there w).inStep = false → steps' →
      w.inMessage = false ∧ w.inStep = false ∧ steps)
    (hin : w.inStep = true → (there w).inStep = true)
    (h : RespectsAt (progress ids path steps' still) (there w) act) :
    RespectsAt (progress ids path steps still) w (within there back act) := by
  -- the flags are put back, everything else is what the inner part left
  have around : ∀ {t}, Progress ids path (there w) t → Progress ids path w (back t) := by
    intro t hp
    rw [hback t hp.inMessage hp.inContent hp.inStep hp.inArguments]
    obtain ⟨new, hnew, hins, htaken⟩ := hp.journal
    have hs := hp.size
    have hfr := hp.frame
    have hm := hp.messages
    have hpr := hp.problems
    have hsl := hp.slots
    have hst := hp.stored
    rw [hthere] at hnew htaken hs hfr hm hpr hsl hst
    refine ⟨hs, hfr, hsl, fun hw => ?_, hm, hpr, rfl, rfl, rfl, rfl, ⟨new, hnew, hins, htaken⟩⟩
    have ht : t.Stored := hst ⟨hw.visible, hw.kept⟩
    exact ⟨ht.visible, ht.kept⟩
  rcases hrun : runFrom (there w) act with ⟨e | ⟨⟩, t⟩
  · obtain ⟨hp, hpaused⟩ := h.stop hrun
    refine RespectsAt.of_error (by rw [runFrom_within, hrun]) ⟨around hp, fun config he => ?_⟩
    obtain ⟨h1, h2, h3⟩ := hpaused config he
    exact hpause h1 h2 h3
  · obtain ⟨hp, hf⟩ := h.done hrun
    refine RespectsAt.of_ok (by rw [runFrom_within, hrun]) ⟨around hp, ?_⟩
    rw [hback t hp.inMessage hp.inContent hp.inStep hp.inArguments]
    obtain ⟨hturns, hunpaused, hpointers⟩ := hf
    refine ⟨?_, ?_, fun hs hstep hun => ?_⟩
    · rw [hthere] at hturns
      exact hturns
    · rw [hthere] at hunpaused
      exact hunpaused
    · have hsame : t.scope.pointers = (there w).scope.pointers := by
        refine hpointers hs (hin hstep) ?_
        rw [hthere]
        exact hun
      rw [hthere] at hsame
      exact hsame

theorem progress_inArguments {w : Walk} (flag : Bool) {act : Walking Unit}
    (h : RespectsAt (progress ids path steps still) { w with inArguments := flag } act) :
    RespectsAt (progress ids path steps still) w (inArguments flag act) := by
  refine RespectsAt.look_bind (progress_within rfl ?_ (fun h1 h2 h3 => ⟨h1, h2, h3⟩) (fun h => h) h)
  rintro t h1 h2 h3 -
  rw [← h1, ← h2, ← h3]

/-- The state in which a visit starts differs in the status of its node and in the names. -/
theorem progress_enter (w : Walk) {id : Nat} (hid : id ∈ ids) :
    Progress ids path w (w.enter id path) ∧ Finish ids still w (w.enter id path) := by
  unfold Walk.enter
  split
  · next pointers hpaused =>
    have hpoint := Statuses.eq_of_pausedAt? hpaused
    refine ⟨Progress.of_eq rfl (fun _ _ => rfl) rfl (fun hw => ⟨hw.kept id _ hpoint, hw.kept⟩) rfl,
      ⟨rfl, fun _ h => h, fun _ _ hun => ?_⟩⟩
    rw [hun id hid] at hpoint
    exact nomatch hpoint
  · refine ⟨progress_decide hid .none w, ⟨rfl, fun other h => ?_, fun _ _ _ => rfl⟩⟩
    rw [← h]
    exact Statuses.paused_decide _ _

/-- What a visit records at its end is the status of its node. -/
theorem progress_record {w t : Walk} (h : Progress ids path w t) {id : Nat} (hid : id ∈ ids)
    {f : NodeStatus → NodeStatus} (hf : w.Stored → ∀ status point, (f status).paused = some point →
      Pointers.Below point.pointers t.scope.stash.slots.size) :
    Progress ids path w { t with statuses := t.statuses.modifyNode id f } := by
  refine { h with
    size := (Statuses.size_modifyNode _ _ _).trans h.size
    frame := fun other hother => ?_
    stored := fun hw => ⟨(h.stored hw).visible, fun other point hpoint => ?_⟩ }
  · refine (Statuses.ofNode_modifyNode_of_ne _ _ _ fun heq => ?_).trans (h.frame other hother)
    exact hother (heq ▸ hid)
  · rcases Statuses.ofNode_modifyNode_eq t.statuses id f other with heq | heq
    · exact (h.stored hw).kept other point (heq ▸ hpoint)
    · exact hf hw _ point (heq ▸ hpoint)

theorem progress_visiting {w : Walk} {id : Nat} {act : Walking Unit} (hid : id ∈ ids)
    (h : RespectsAt (progress ids path steps still) (w.enter id path) act) :
    RespectsAt (progress ids path steps still) w (visiting id path act) := by
  obtain ⟨hp0, hf0⟩ : Progress ids path w (w.enter id path) ∧
    Finish ids still w (w.enter id path) :=
    progress_enter w hid
  rcases hover : w.statuses.completed id path with _ | _
  · rcases hrun : runFrom (w.enter id path) act with ⟨(config | p) | ⟨⟩, t⟩
    · obtain ⟨hp, hpause⟩ := h.stop hrun
      refine RespectsAt.of_error (runFrom_visiting_paused hover hrun) ⟨?_, fun config he => ?_⟩
      · refine progress_record (hp0.trans hp) hid fun hw status point hpoint => ?_
        -- the names that are kept were visible when the visit started, and slots are only added
        obtain rfl : ⟨path, (w.enter id path).scope.pointers⟩ = point := by simpa using hpoint
        exact (hp0.stored hw).visible.mono hp.slots
      · obtain ⟨h1, h2, h3⟩ := hpause config he
        exact ⟨hp0.inMessage.symm.trans h1, hp0.inStep.symm.trans h2, h3⟩
    · obtain ⟨hp, hpause⟩ := h.stop hrun
      refine RespectsAt.of_error (runFrom_visiting_failed hover hrun) ⟨hp0.trans hp, ?_⟩
      exact fun config he => nomatch he
    · obtain ⟨hp, hf⟩ := (progress ids path steps still).trans ⟨hp0, hf0⟩ (h.done hrun)
      refine RespectsAt.of_ok (runFrom_visiting_ok hover hrun)
        ⟨progress_record hp hid (fun _ _ _ h => nomatch h),
          ⟨hf.turns, fun other hother => ?_, hf.pointers⟩⟩
      · rcases Statuses.ofNode_modifyNode_eq t.statuses id (fun _ => ⟨some path, none, .none⟩) other
          with h | h
        · exact (congrArg NodeStatus.paused h).trans (hf.unpaused other hother)
        · exact congrArg NodeStatus.paused h
  · exact RespectsAt.of_ok (runFrom_visiting_over hover)
      ((progress ids path steps still).refl w)

/-! ### Blocks -/

variable {body otherwise : Walking Unit}

theorem progress_ifBlock {id : Nat} {condition : Expr} (hid : id ∈ ids)
    (hstill : still → condition.DeclaresNothing)
    (hbody : Respects (progress ids path steps False) body)
    (hotherwise : Respects (progress ids path steps still) otherwise) :
    Respects (progress ids path steps still)
      (ifBlock setting id path condition body otherwise) := by
  refine Respects.bind (progress_of_silent (silent_takesBranch setting id path condition)
    hid hstill)
    fun taken w => ?_
  refine progress_onPause (fun t => progress_decide hid _ t) ?_
  refine progress_entering hid List.prefix_rfl ?_
  cases taken with
  | true => exact progress_inCopy (hbody _)
  | false => exact hotherwise _

theorem progress_setVariable {id : Nat} (hid : id ∈ ids) (name : String) (v : Value) :
    Respects (progress ids path steps False) (setVariable name v) := by
  have h : Respects (silent id path False False) (setVariable name v) := silent_setVariable name v
  exact progress_of_silent h hid fun h => h

/-- The law of an iteration that the walk has gone into. -/
theorem progress_inIteration {id : Nat} {header : ForHeader} {items : List Value}
    {body : IterationPath → Walking Unit} {i : Nat} (hid : id ∈ ids)
    (hbody : Respects (progress ids (path ++ [i]) steps False) (body (path ++ [i])))
    (resumed : Option Value) (item : Value) :
    Respects (progress ids path steps still) (inCopy do
      setVariable header.item item
      let v ← setIndex setting id path header i resumed
      onPause (fun w => { w with statuses := w.statuses.decide id (.iteration items i v) })
        (body (path ++ [i]))) := by
  intro w
  refine progress_inCopy ?_
  refine Respects.bind (progress_setVariable hid _ _) (fun _ => ?_) _
  refine Respects.bind (progress_of_silent (silent_setIndex setting id path header i resumed) hid
    False.elim) fun v w => ?_
  refine progress_onPause (fun t => progress_decide hid _ t) ?_
  exact progress_weaken (hbody w) (List.Subset.refl _) (List.prefix_append _ _) (fun h => h)
    (fun h => h)

theorem progress_iteration {id : Nat} {header : ForHeader} {items : List Value}
    {body : IterationPath → Walking Unit} {i : Nat} (hid : id ∈ ids)
    (hbody : Respects (progress ids (path ++ [i]) steps False) (body (path ++ [i])))
    (resumed : Option Value) (item : Value) :
    Respects (progress ids path steps still)
      (iteration setting id path header items body i resumed item) :=
  fun _ => progress_entering hid List.prefix_rfl (progress_inIteration hid hbody resumed item _)

theorem progress_iterations {id : Nat} {header : ForHeader} {items : List Value}
    {body : IterationPath → Walking Unit} (hid : id ∈ ids)
    (hbody : ∀ inner, Respects (progress ids inner steps False) (body inner)) (i : Nat)
    (resumed : Option Value) (rest : List Value) :
    Respects (progress ids path steps still)
      (iterations setting id path header items body i resumed rest) := by
  induction rest generalizing i resumed with
  | nil => exact Respects.pure _
  | cons item rest ih =>
    exact Respects.bind (progress_iteration hid (hbody _) resumed item) fun _ => ih _ _

theorem progress_forBlock {info : NodeInfo} {header : ForHeader}
    {body : IterationPath → Walking Unit} (hid : info.id ∈ ids)
    (hstill : still → header.iterable.DeclaresNothing)
    (hbody : ∀ inner, Respects (progress ids inner steps False) (body inner))
    (hotherwise : Respects (progress ids path steps still) otherwise) :
    Respects (progress ids path steps still)
      (forBlock setting info path header body otherwise) := by
  have hnames : Respects (silent info.id path False still) (checkNames info header) :=
    silent_checkNames info header
  refine Respects.bind (progress_of_silent hnames hid fun h => h) fun _ => ?_
  refine Respects.bind (progress_of_silent
    (silent_takeItems setting info.id path header.iterable) hid
    hstill) fun loop => ?_
  split
  · exact fun w => progress_entering hid List.prefix_rfl (hotherwise _)
  · exact progress_iterations hid hbody _ _ _

/-! ### Elements -/

variable {info : NodeInfo} {attributes : List Attribute}

/-- A leaf that keeps the names. -/
theorem progress_leaf {α : Type} {x : Walking α} (hid : info.id ∈ ids)
    (h : Respects (leaf info.id path False True) x) : Respects (progress ids path steps still) x :=
  progress_of_leaf h hid fun _ => trivial

theorem progress_silent {α : Type} {x : Walking α} (hid : info.id ∈ ids)
    (h : Respects (silent info.id path False True) x) :
    Respects (progress ids path steps still) x :=
  progress_of_silent h hid fun _ => trivial

theorem progress_fail {α : Type} (fault : Fault) (hid : info.id ∈ ids) :
    Respects (progress ids path steps still) (fail fault info : Walking α) :=
  progress_leaf hid (leaf_fail False.elim info)

theorem progress_attributeValues (hid : info.id ∈ ids)
    (hstill : still → ∀ e ∈ attributes.flatMap Attribute.expressions, e.DeclaresNothing) :
    Respects (progress ids path steps still)
      (attributeValues setting info.id path attributes) :=
  progress_of_silent (silent_attributeValues setting info.id path False.elim hstill) hid fun h => h

theorem progress_message {role : Option Role} (hid : info.id ∈ ids)
    (hstill : still → ∀ e ∈ attributes.flatMap Attribute.expressions, e.DeclaresNothing)
    (hbody : Respects (progress ids path steps still) body) :
    Respects (progress ids path steps still)
      (message setting info path role attributes body) := by
  intro w
  refine RespectsAt.look_bind ?_
  rcases hw : w.inMessage with _ | _
  -- a message in a message is refused before anything is evaluated
  · refine RespectsAt.bind (progress_attributeValues hid hstill w) fun values w1 _ h1 => ?_
    refine RespectsAt.bind (progress_silent hid (silent_messageRole info role values) w1)
      fun role w2 _ h2 => ?_
    dsimp only
    generalize (if role = Role.tool then textOf? values "id" else none) = toolId
    split
    · exact progress_fail _ hid w2
    · refine RespectsAt.bind (progress_leaf hid (leaf_closeMessage setting) w2)
        fun _ w3 _ h3 => ?_
      -- none of the parts so far has changed the flag
      have hw3 : w3.inMessage = false := by
        rw [h3.1.inMessage, h2.1.inMessage, h1.1.inMessage, hw]
      refine RespectsAt.bind (progress_within rfl ?_ (fun h => ?_) (fun h => h)
        (progress_inArguments false (hbody _))) fun _ w4 _ _ => ?_
      · rintro t - h2 h3 h4
        rw [hw3, ← h2, ← h3, ← h4]
      · exact nomatch h
      · refine RespectsAt.bind (progress_leaf hid leaf_takeContent w4) fun pending w5 _ _ => ?_
        refine RespectsAt.bind (progress_leaf hid (leaf_placeToolCalls _ _) w5) fun _ w6 _ _ => ?_
        exact progress_leaf hid (leaf_emit _) w6
  · exact progress_fail _ hid w

theorem progress_contentTag {kind : ContentKind} (hid : info.id ∈ ids)
    (hstill : still → ∀ e ∈ attributes.flatMap Attribute.expressions, e.DeclaresNothing)
    (hbody : Respects (progress ids path steps still) body) :
    Respects (progress ids path steps still)
      (contentTag setting info path kind attributes body) := by
  intro w
  refine RespectsAt.look_bind ?_
  -- the same for content in content
  rcases hw : w.inContent with _ | _
  · refine RespectsAt.bind (progress_attributeValues hid hstill w) fun values w1 _ h1 => ?_
    refine RespectsAt.bind (progress_leaf hid leaf_closeText w1) fun _ w2 _ h2 => ?_
    have hw2 : w2.inContent = false := by
      rw [h2.1.inContent, h1.1.inContent, hw]
    refine RespectsAt.bind (progress_within rfl ?_ (fun h h' hs => ⟨h, h', hs⟩) (fun h => h)
      (progress_inArguments false (hbody _))) fun _ w3 _ _ => ?_
    · rintro t h1 - h3 h4
      rw [hw2, ← h1, ← h3, ← h4]
    · refine RespectsAt.look_bind ?_
      refine RespectsAt.bind (progress_leaf hid
        (leaf_modify (f := fun w => { w with stray := "" }) fun _ => rfl) w3)
        fun _ w4 _ _ => ?_
      exact progress_leaf hid (leaf_placeContent info path kind _) w4
  · exact progress_fail _ hid w

theorem progress_toolCall (hid : info.id ∈ ids)
    (hstill : still → ∀ e ∈ attributes.flatMap Attribute.expressions, e.DeclaresNothing)
    (hbody : Respects (progress ids path steps still) body) :
    Respects (progress ids path steps still) (toolCall setting info path attributes body) := by
  refine Respects.bind (Respects.look _) fun inContent => ?_
  split
  · exact progress_fail _ hid
  · refine Respects.bind (progress_attributeValues hid hstill) fun values => ?_
    split
    · exact progress_fail _ hid
    · exact progress_fail _ hid
    · refine Respects.bind
        (fun w => progress_captured (progress_inArguments true (hbody _))) fun text => ?_
      refine Respects.bind (progress_leaf hid (leaf_toolArguments info text)) fun _ => ?_
      exact progress_leaf hid (leaf_call info.id path _)

/-- Outside of a step the law does not tell which names are visible. -/
theorem progress_outside {α : Type} {w : Walk} {x : Walking α} (h : w.inStep = false)
    (hx : RespectsAt (progress ids path steps False) w x) :
    RespectsAt (progress ids path steps still) w x := by
  refine hx.weaken (fun t hd => ⟨hd.1, ⟨hd.2.turns, hd.2.unpaused, fun _ hstep => ?_⟩⟩)
    fun e t hs => hs
  rw [h] at hstep
  exact nomatch hstep

/-- The state of a step that waits for its response. -/
def waiting (setting : Setting) (id : Nat) (path : IterationPath) (w : Walk) : Walk :=
  { w.closed setting with journal := .asked id path w.turns :: (w.closed setting).journal }

theorem runFrom_takeResponse_nil {w : Walk} {id : Nat} {name : Option String}
    {config : Fields Json} (h : w.responses = []) :
    runFrom w (takeResponse setting id path name config) =
      (.error (.paused config), waiting setting id path w) := by
  unfold takeResponse
  rw [runFrom_bind_ok (runFrom_look w _), runFrom_bind_ok (runFrom_look w _), h]
  dsimp only
  rw [runFrom_bind_ok (runFrom_closeMessage w setting), runFrom_bind_ok (runFrom_note _ _)]
  rfl

/-- The state of a step that has taken a response. -/
def answered (id : Nat) (path : IterationPath) (response : String) (rest : List String)
    (w : Walk) : Walk :=
  { w with responses := rest, journal := .answered id path w.turns response :: w.journal }

/-- What was answered does not change what is pending. -/
theorem closed_answered (setting : Setting) (id : Nat) (path : IterationPath) (response : String)
    (rest : List String) (w : Walk) :
    (answered id path response rest w).closed setting =
      answered id path response rest (w.closed setting) := by
  unfold Walk.closed answered
  dsimp only [Walk.closedText, Walk.cleared]
  split
  · rfl
  · rfl

/-- What a step does with a response that it has taken. -/
def reply (setting : Setting) (name : Option String) (response : String) : Walking Unit := do
  nameResponse name response
  closeMessage setting
  emit (.ofResponse response)

/-- The variables when a response has its name. -/
def named (name : Option String) (response : String) (s : Scope) : Scope :=
  match name with
  | some name => s.set name (.string response)
  | none => s

/-- The state in which a response has become a message. -/
def replied (setting : Setting) (name : Option String) (response : String) (w : Walk) : Walk :=
  { w.closed setting with
    scope := named name response w.scope
    messages := (w.closed setting).messages ++ [.ofResponse response] }

theorem runFrom_reply (w : Walk) (name : Option String) (response : String) :
    runFrom w (reply setting name response) = (.ok (), replied setting name response w) := by
  have hclosed : ∀ scope,
    { w with scope := scope }.closed setting = { w.closed setting with scope := scope } := by
    intro scope
    unfold Walk.closed
    dsimp only [Walk.closedText, Walk.cleared]
    split
    · rfl
    · rfl
  have hname : runFrom w (nameResponse name response) =
      (.ok (), { w with scope := named name response w.scope }) := by
    cases name with
    | none => rfl
    | some name => rfl
  unfold reply
  rw [runFrom_bind_ok hname, runFrom_bind_ok (runFrom_closeMessage _ setting), hclosed]
  rfl

theorem runFrom_takeResponse_cons {w : Walk} {id : Nat} {name : Option String}
    {config : Fields Json} {response : String} {rest : List String}
    (h : w.responses = response :: rest) :
    runFrom w (takeResponse setting id path name config) =
      (.ok (), replied setting name response (answered id path response rest w)) := by
  rw [← runFrom_reply]
  unfold takeResponse
  rw [runFrom_bind_ok (runFrom_look w _), runFrom_bind_ok (runFrom_look w _), h]
  dsimp only
  rw [runFrom_bind_ok (runFrom_modify w _), runFrom_bind_ok (runFrom_note _ _)]
  rfl

/-- A step that finds no response pauses; one that takes a response records that. -/
theorem progress_takeResponse {name : Option String} {config : Fields Json} {w : Walk}
    (hid : info.id ∈ ids) (hsteps : steps) (hmessage : w.inMessage = false)
    (hstep : w.inStep = false) :
    RespectsAt (progress ids path steps False) w
      (takeResponse setting info.id path name config) := by
  -- without a response the step asks for one, with a response it takes it
  rcases hw : w.responses with _ | ⟨response, rest⟩
  · refine RespectsAt.of_error (runFrom_takeResponse_nil hw)
      ⟨?_, fun _ _ => ⟨hmessage, hstep, hsteps⟩⟩
    have hrun : RespectsAt (progress ids path steps False) w (closeMessage setting) :=
      progress_leaf hid (leaf_closeMessage setting) w
    have hclose : Progress ids path w (w.closed setting) :=
      (hrun.done (runFrom_closeMessage w setting)).1
    refine hclose.trans ⟨rfl, fun _ _ => rfl, Nat.le_refl _, fun hw => ⟨hw.visible, hw.kept⟩,
      List.prefix_rfl, List.prefix_rfl, rfl, rfl, rfl, rfl, ⟨[_], rfl, fun e he => ?_, rfl⟩⟩
    obtain rfl := List.mem_singleton.1 he
    exact ⟨hid, List.prefix_rfl⟩
  · have htake : Progress ids path w (answered info.id path response rest w) := by
      refine ⟨rfl, fun _ _ => rfl, Nat.le_refl _, fun hw => ⟨hw.visible, hw.kept⟩,
        List.prefix_rfl, List.prefix_rfl, rfl, rfl, rfl, rfl, ⟨[_], rfl, fun e he => ?_, hw.symm⟩⟩
      obtain rfl := List.mem_singleton.1 he
      exact ⟨hid, List.prefix_rfl⟩
    have hname : Respects (silent info.id path False False) (nameResponse name response) :=
      silent_nameResponse name response
    have hreply : Respects (progress ids path steps False) (reply setting name response) :=
      Respects.bind (progress_of_silent hname hid fun h => h) fun _ =>
        Respects.bind (progress_leaf hid (leaf_closeMessage setting)) fun _ =>
          progress_leaf hid (leaf_emit _)
    have hgone : (progress ids path steps False).done w (answered info.id path response rest w) :=
      ⟨htake, ⟨rfl, fun _ h => h, fun h => h.elim⟩⟩
    exact RespectsAt.of_ok (runFrom_takeResponse_cons hw)
      ((progress ids path steps False).trans hgone ((hreply _).done (runFrom_reply _ _ _)))

theorem progress_step (hid : info.id ∈ ids) (hsteps : steps)
    (hbody : Respects (progress ids path steps False) body) :
    Respects (progress ids path steps still) (step setting info path attributes body) := by
  intro w
  refine RespectsAt.look_bind ?_
  rcases hstep : w.inStep with _ | _
  -- outside of a step the step is walked, in a step it is refused
  · refine progress_outside hstep (RespectsAt.look_bind ?_)
    rcases hmessage : w.inMessage with _ | _
    · refine RespectsAt.bind (progress_silent hid (silent_stepName False.elim) w)
        fun name w1 _ h1 => ?_
      refine RespectsAt.bind (progress_of_silent (silent_stepConfig setting info.id path False.elim
        False.elim) hid (fun h => h) w1) fun config w2 _ h2 => ?_
      -- the parts so far do not walk into a step
      have hw2 : w2.inStep = false := by
        rw [h2.1.inStep, h1.1.inStep, hstep]
      refine RespectsAt.bind (progress_within rfl ?_ ?_ (fun _ => rfl) (hbody _))
        fun _ w3 _ h3 => ?_
      · rintro t h1 h2 - h4
        rw [hw2, ← h1, ← h2, ← h4]
      · exact fun _ h => nomatch h
      · refine progress_takeResponse hid hsteps ?_ ?_
        · rw [h3.1.inMessage, h2.1.inMessage, h1.1.inMessage, hmessage]
        · rw [h3.1.inStep, hw2]
    · exact progress_fail _ hid w
  · exact progress_fail _ hid w

theorem progress_element {name : String} (hid : info.id ∈ ids)
    (hsteps : TagKind.ofName name = .step → steps)
    (hstill : still → ∀ e ∈ attributes.flatMap Attribute.expressions, e.DeclaresNothing)
    (hbody : Respects (progress ids path steps still) body) :
    Respects (progress ids path steps still)
      (element setting info path name attributes body) := by
  unfold element
  cases hkind : TagKind.ofName name with
  | message role => exact progress_message hid hstill hbody
  | content kind => exact progress_contentTag hid hstill hbody
  | toolCall => exact progress_toolCall hid hstill hbody
  | reference =>
    dsimp only
    split
    · exact progress_fail _ hid
    · exact progress_fail _ hid
  | step =>
    -- what stands in a step is walked in its own scope, so that nothing is asked of its
    -- declarations
    refine progress_step hid (hsteps hkind) fun w => ?_
    exact progress_weaken (hbody w) (List.Subset.refl _) List.prefix_rfl (fun h => h) False.elim
  | unknown =>
    exact Respects.bind (progress_leaf hid (leaf_report False.elim _ _)) fun _ => hbody

end Walking

/-! ### Nodes -/

namespace Node

open Walking

variable {setting : Setting} {ids : List Nat} {steps still : Prop}

theorem progress_walkAll {ns : List Node} {path : IterationPath}
    (h : ∀ n ∈ ns, Respects (progress ids path steps still) (n.walk setting path)) :
    Respects (progress ids path steps still) (walkAll setting ns path) := by
  induction ns with
  | nil => exact Respects.pure _
  | cons n rest ih =>
    exact Respects.bind (h n List.mem_cons_self) fun _ =>
      ih fun m hm => h m (List.mem_cons_of_mem _ hm)

theorem progress_walkElse {o : Option Node} {path : IterationPath}
    (h : ∀ n ∈ o.toList, Respects (progress ids path steps still) (n.walk setting path)) :
    Respects (progress ids path steps still) (walkElse setting o path) := by
  cases o with
  | none => exact Respects.pure _
  | some n => exact h n (by simp)

/-- The visit of a node keeps the law of a walk inside of the node. -/
theorem respects_walk (n : Node) (path : IterationPath) :
    Respects (progress n.ids path n.HoldsStep n.DeclaresNothing) (n.walk setting path) := by
  -- the induction is on the tree; what the law says of the node's children is weaker for the node,
  -- since their numbers and steps are some of its own
  induction n using Node.induct generalizing path with
  | step n ih =>
    have hid : n.id ∈ n.ids := n.id_mem_ids
    have hchild : ∀ m ∈ n.childNodes, ∀ inner,
        Respects (progress n.ids inner n.HoldsStep n.DeclaresNothing) (m.walk setting inner) := by
      intro m hm inner w
      exact progress_weaken (ih m hm inner w)
        (fun id hid => idsAll_childNodes_subset n (ids_subset_idsAll hm hid)) List.prefix_rfl
        (fun h => h.of_child hm) (fun h => h.child hm)
    -- in a copy of the scope a child may declare what it will
    have hfree : ∀ m ∈ n.childNodes, ∀ inner,
        Respects (progress n.ids inner n.HoldsStep False) (m.walk setting inner) :=
      fun m hm inner w => progress_weaken (hchild m hm inner w) (List.Subset.refl _)
        List.prefix_rfl (fun h => h) False.elim
    have hself : n.DeclaresNothing → ∀ e ∈ n.expressions, e.DeclaresNothing := fun h => h.self
    cases n with
    | fragment info children =>
      exact fun w => progress_visiting hid
        (progress_inCopy (progress_walkAll (fun m hm => hfree m hm path) _))
    | config info value raw => exact fun w => progress_visiting hid (Respects.pure _ _)
    | comment info data => exact fun w => progress_visiting hid (Respects.pure _ _)
    | text info data =>
      exact fun w => progress_visiting hid (progress_leaf hid (leaf_write info.id path data) _)
    | mustache info e =>
      exact fun w => progress_visiting hid (progress_of_leaf (leaf_mustache setting info.id path e)
        hid (fun h => hself h e (by simp [expressions])) _)
    | ifBlock info condition elseIf children otherwise =>
      refine fun w => progress_visiting hid (progress_ifBlock hid
        (fun h => hself h condition (by simp [expressions])) ?_ ?_ _)
      · exact progress_walkAll fun m hm => hfree m (List.mem_append_left _ hm) path
      · exact progress_walkElse fun m hm => hchild m (List.mem_append_right _ hm) path
    | forBlock info header children otherwise =>
      refine fun w => progress_visiting hid (progress_forBlock hid
        (fun h => hself h header.iterable (by simp [expressions])) (fun inner => ?_) ?_ _)
      · exact progress_walkAll fun m hm => hfree m (List.mem_append_left _ hm) inner
      · exact progress_walkElse fun m hm => hchild m (List.mem_append_right _ hm) path
    | element info name attributes children =>
      refine fun w => progress_visiting hid (progress_element hid (fun hkind => ?_) hself
        (progress_walkAll fun m hm => hchild m hm path) _)
      exact ⟨_, mem_nodes_self _, by simp [isStep, hkind]⟩

end Node

end PromptMarkup

/-
Laws of walks that only concern statuses and scopes.

* `Governing` — laws, one for the iterations of each path, that allow whatever a walk does to the
  statuses and to the scope in a visit of one of the given nodes;
* `Governing.respects_walk` — the visits of such nodes keep these laws.

Design notes: a walk changes the statuses and the scope in few ways, and most handlers of nodes
change them only through what is inside of them.  So a law that is stated for these ways holds of
every walk, and the handlers are looked at here only.  Nothing is asked of a part that stops but
that it may stop where it may end.
-/
import PromptMarkup.Proofs.Pausing

namespace PromptMarkup

open PromptMarkup.Computation Walking

/-- Laws, one for the iterations of each path, that allow what a walk does to the statuses and to
the scope. -/
structure Governing (ids : List Nat) (L : IterationPath → Law Interrupt Walk) : Prop where
  /-- What only adds variables is allowed. -/
  leads : ∀ {path w t}, t.statuses = w.statuses → w.scope.Leads t.scope → (L path).done w t
  /-- At the end of an inner scope the names are what they were. -/
  copy : ∀ {path w t}, (L path).done w t →
    (L path).done w { t with scope.pointers := w.scope.pointers }
  enter : ∀ {path} w {id}, id ∈ ids → (L path).done w (w.enter id path)
  complete : ∀ {path} w {id}, id ∈ ids →
    (L path).done w { w with statuses := w.statuses.complete id path }
  decide : ∀ {path} w id d, (L path).done w { w with statuses := w.statuses.decide id d }
  /-- A walk may stop wherever it may end. -/
  stop : ∀ {path w t} e, (L path).done w t → (L path).stop w e t
  pause : ∀ {path} w id pointers e,
    (L path).stop w e { w with statuses := w.statuses.pause id path pointers }
  /-- A walk that stops may record something at last. -/
  record : ∀ {path w t u e}, (L path).stop w e t → (L path).stop t e u → (L path).stop w e u
  /-- An inner iteration is inside of the iterations around it. -/
  done_weaken : ∀ {path inner w t}, path <+: inner → (L inner).done w t → (L path).done w t
  stop_weaken : ∀ {path inner w t e}, path <+: inner → (L inner).stop w e t → (L path).stop w e t

namespace Governing

variable {α : Type} {ids : List Nat} {L : IterationPath → Law Interrupt Walk} {setting : Setting}
  {id : Nat} {path inner : IterationPath} {info : NodeInfo} {attributes : List Attribute}
  {act body otherwise : Walking Unit} {w : Walk}

/-! ### Parts of a walk -/

section Parts

variable (h : Governing ids L)

include h

/-- A law allows what visits no node. -/
theorem of_leaf {sure still : Prop} {x : Walking α} (hx : Respects (leaf id inner sure still) x) :
    Respects (L path) x := by
  refine Respects.weaken hx (fun w t hd => ?_) fun w e t hs => ?_
  · exact h.leads (by rw [hd.1.same]) hd.1.leads
  · exact h.stop e (h.leads (by rw [hs.1.same]) hs.1.leads)

theorem of_silent {sure still : Prop} {x : Walking α}
    (hx : Respects (silent id inner sure still) x) :
    Respects (L path) x :=
  h.of_leaf (leaf_of_silent hx (fun h => h) fun h => h)

/-- A change of neither the statuses nor the scope is allowed. -/
theorem same {t : Walk} (hstatuses : t.statuses = w.statuses) (hscope : t.scope = w.scope) :
    (L path).done w t :=
  h.leads hstatuses (hscope ▸ Scope.Leads.refl _)

theorem fail (fault : Fault) (info : NodeInfo) :
    Respects (L path) (Walking.fail fault info : Walking α) :=
  Respects.throw fun _ => h.stop _ (h.same rfl rfl)

theorem weaken {x : Walking α} (hx : RespectsAt (L inner) w x) (hpath : path <+: inner) :
    RespectsAt (L path) w x :=
  hx.weaken (fun _ hd => h.done_weaken hpath hd) fun _ _ hs => h.stop_weaken hpath hs

/-- What happens around a part is allowed if it concerns neither the statuses nor the scope. -/
theorem around {u : Walk} {x y : Walking Unit} (hx : RespectsAt (L path) u x)
    (hstatuses : u.statuses = w.statuses) (hscope : u.scope = w.scope)
    (hrun : ∀ r t, runFrom u x = (r, t) →
      ∃ t', runFrom w y = (r, t') ∧ t'.statuses = t.statuses ∧ t'.scope = t.scope) :
    RespectsAt (L path) w y := by
  have hstart : (L path).done w u := h.same hstatuses hscope
  rcases hend : runFrom u x with ⟨e | ⟨⟩, t⟩
  · obtain ⟨t', hy, hstatuses', hscope'⟩ := hrun _ t hend
    refine RespectsAt.of_error hy ((L path).back hstart ?_)
    exact h.record (hx.stop hend) (h.stop e (h.same hstatuses' hscope'))
  · obtain ⟨t', hy, hstatuses', hscope'⟩ := hrun _ t hend
    refine RespectsAt.of_ok hy ((L path).trans hstart ?_)
    exact (L path).trans (hx.done hend) (h.same hstatuses' hscope')

theorem inCopy (hact : RespectsAt (L path) w act) : RespectsAt (L path) w (Walking.inCopy act) := by
  rcases hend : runFrom w act with ⟨e | ⟨⟩, t⟩
  · exact RespectsAt.of_error (runFrom_inCopy_error hend) (hact.stop hend)
  · exact RespectsAt.of_ok (runFrom_inCopy_ok hend) (h.copy (hact.done hend))

theorem entering {turn : Turn} (hact : RespectsAt (L path) (entered w turn) act) :
    RespectsAt (L path) w (Walking.entering turn act) := by
  refine h.around hact rfl rfl fun r t hend => ?_
  rcases r with e | ⟨⟩
  · exact ⟨t, runFrom_entering_error hend, rfl, rfl⟩
  · exact ⟨_, runFrom_entering_ok hend, rfl, rfl⟩

theorem within {there back : Walk → Walk}
    (hthere : ∀ t, (there t).statuses = t.statuses ∧ (there t).scope = t.scope)
    (hback : ∀ t, (back t).statuses = t.statuses ∧ (back t).scope = t.scope)
    (hact : Respects (L path) act) :
    Respects (L path) (Walking.within there back act) := by
  refine fun w => h.around (hact (there w)) (hthere w).1 (hthere w).2 fun r t hend => ?_
  exact ⟨back t, by rw [runFrom_within, hend], (hback t).1, (hback t).2⟩

theorem inArguments {flag : Bool} (hact : Respects (L path) act) :
    Respects (L path) (Walking.inArguments flag act) := by
  intro w
  refine h.around (hact { w with inArguments := flag }) rfl rfl fun r t hend => ?_
  exact ⟨{ t with inArguments := w.inArguments }, by rw [runFrom_inArguments, hend], rfl, rfl⟩

theorem captured (hact : Respects (L path) act) : Respects (L path) (Walking.captured act) := by
  intro w
  have hstart : (L path).done w { w with stray := "" } := h.same rfl rfl
  rcases hend : runFrom { w with stray := "" } act with ⟨e | ⟨⟩, t⟩
  · refine RespectsAt.of_error (runFrom_captured_error hend) ((L path).back hstart ?_)
    exact h.record ((hact _).stop hend) (h.stop e (h.same rfl rfl))
  · refine RespectsAt.of_ok (runFrom_captured_ok hend) ((L path).trans hstart ?_)
    exact (L path).trans ((hact _).done hend) (h.same rfl rfl)

theorem onPause {record : Walk → Walk} (hrecord : ∀ t e, (L path).stop t e (record t))
    (hact : RespectsAt (L path) w act) : RespectsAt (L path) w (Walking.onPause record act) := by
  rcases hend : runFrom w act with ⟨(config | p) | ⟨⟩, t⟩
  · exact RespectsAt.of_error (runFrom_onPause_paused hend)
      (h.record (hact.stop hend) (hrecord t _))
  · exact RespectsAt.of_error (runFrom_onPause_failed hend) (hact.stop hend)
  · exact RespectsAt.of_ok (runFrom_onPause_ok hend) (hact.done hend)

theorem visiting (hid : id ∈ ids) (hact : Respects (L path) act) :
    Respects (L path) (Walking.visiting id path act) := by
  intro w
  rcases hover : w.statuses.completed id path with _ | _
  · have henter : (L path).done w (w.enter id path) := h.enter w hid
    rcases hend : runFrom (w.enter id path) act with ⟨(config | p) | ⟨⟩, t⟩
    · refine RespectsAt.of_error (runFrom_visiting_paused hover hend) ((L path).back henter ?_)
      exact h.record ((hact _).stop hend) (h.pause t id _ _)
    · exact RespectsAt.of_error (runFrom_visiting_failed hover hend)
        ((L path).back henter ((hact _).stop hend))
    · refine RespectsAt.of_ok (runFrom_visiting_ok hover hend) ((L path).trans henter ?_)
      exact (L path).trans ((hact _).done hend) (h.complete t hid)
  · exact RespectsAt.of_ok (runFrom_visiting_over hover) (h.same rfl rfl)

/-! ### Blocks -/

theorem ifBlock {condition : Expr} (hbody : Respects (L path) body)
    (hotherwise : Respects (L path) otherwise) :
    Respects (L path) (Walking.ifBlock setting id path condition body otherwise) := by
  refine Respects.bind (h.of_silent (silent_takesBranch setting id path condition))
    fun taken w => ?_
  refine h.onPause (fun t e => h.stop e (h.decide t id _)) (h.entering ?_)
  cases taken with
  | true => exact h.inCopy (hbody _)
  | false => exact hotherwise _

section Loops

variable {header : ForHeader} {items : List Value} {children : IterationPath → Walking Unit}

theorem iteration (hchildren : ∀ i, Respects (L (path ++ [i])) (children (path ++ [i])))
    (i : Nat) (resumed : Option Value) (item : Value) :
    Respects (L path) (Walking.iteration setting id path header items children i resumed item) := by
  have hset : Respects (silent id path False False) (setVariable header.item item) :=
    silent_setVariable header.item item
  refine fun w => h.entering (h.inCopy (Respects.bind (h.of_silent hset) (fun _ => ?_) _))
  refine Respects.bind (h.of_silent (silent_setIndex setting id path header i resumed))
    fun v t => ?_
  exact h.onPause (fun t e => h.stop e (h.decide t id _))
    (h.weaken (hchildren i t) (List.prefix_append path [i]))

theorem iterations (hchildren : ∀ i, Respects (L (path ++ [i])) (children (path ++ [i])))
    (i : Nat) (resumed : Option Value) (rest : List Value) :
    Respects (L path) (Walking.iterations setting id path header items children i resumed
      rest) := by
  induction rest generalizing i resumed with
  | nil => exact Respects.pure _
  | cons item rest ih =>
    exact Respects.bind (h.iteration hchildren i resumed item) fun _ => ih (i + 1) none

theorem forBlock (hchildren : ∀ i, Respects (L (path ++ [i])) (children (path ++ [i])))
    (hotherwise : Respects (L path) otherwise) :
    Respects (L path) (Walking.forBlock setting info path header children otherwise) := by
  have hnames : Respects (silent info.id path False False) (checkNames info header) :=
    silent_checkNames info header
  refine Respects.bind (h.of_silent hnames) fun _ => ?_
  refine Respects.bind (h.of_silent (silent_takeItems setting info.id path header.iterable))
    fun loop w => ?_
  split
  · exact h.entering (hotherwise _)
  · exact h.iterations hchildren _ _ _ w

end Loops

/-! ### Elements -/

theorem message {role : Option Role} (hbody : Respects (L path) body) :
    Respects (L path) (Walking.message setting info path role attributes body) := by
  refine Respects.bind (Respects.look _) fun inMessage => ?_
  split
  · exact h.fail _ info
  · refine Respects.bind (h.of_silent (Node.silent_values setting info.id path attributes))
      fun values => ?_
    -- four leaves around the body, none of which the law forbids
    have hrole : Respects (silent info.id path False False) (messageRole info role values) :=
      silent_messageRole info role values
    have hclose : Respects (leaf info.id path False False) (closeMessage setting) :=
      leaf_closeMessage setting
    have htake : Respects (leaf info.id path False False) takeContent := leaf_takeContent
    refine Respects.bind (h.of_silent hrole) fun role => ?_
    dsimp only
    generalize (if role = Role.tool then textOf? values "id" else none) = toolId
    split
    · exact h.fail _ info
    · refine Respects.bind (h.of_leaf hclose) fun _ => ?_
      refine Respects.bind (h.within (fun _ => ⟨rfl, rfl⟩)
        (fun _ => ⟨rfl, rfl⟩) (h.inArguments hbody)) fun _ => ?_
      refine Respects.bind (h.of_leaf htake) fun ⟨content, pending⟩ => ?_
      have hrest : Respects (leaf info.id path False False) (do
          let toolCalls ← placeToolCalls role pending
          emit { role, content, name := textOf? values "name", toolId, toolCalls }) :=
        Respects.bind (leaf_placeToolCalls _ _) fun _ => leaf_emit _
      exact h.of_leaf hrest

theorem contentTag {kind : ContentKind} (hbody : Respects (L path) body) :
    Respects (L path) (Walking.contentTag setting info path kind attributes body) := by
  refine Respects.bind (Respects.look _) fun inContent => ?_
  split
  · exact h.fail _ info
  · have hclose : Respects (leaf info.id path False False) closeText := leaf_closeText
    refine Respects.bind (h.of_silent (Node.silent_values setting info.id path attributes))
      fun _ => Respects.bind (h.of_leaf hclose) fun _ => ?_
    refine Respects.bind (h.within (fun _ => ⟨rfl, rfl⟩)
      (fun _ => ⟨rfl, rfl⟩) (h.inArguments hbody))
      fun _ => Respects.bind (Respects.look _) fun stray => ?_
    have hrest : Respects (leaf info.id path False False) (do
        modify fun w => { w with stray := "" }
        placeContent info path kind (String.ofList (Text.removeCommonIndent stray.toList))) :=
      Respects.bind (leaf_modify fun _ => rfl) fun _ => leaf_placeContent info path kind _
    exact h.of_leaf hrest

theorem toolCall (hbody : Respects (L path) body) :
    Respects (L path) (Walking.toolCall setting info path attributes body) := by
  refine Respects.bind (Respects.look _) fun inContent => ?_
  split
  · exact h.fail _ info
  · refine Respects.bind (h.of_silent (Node.silent_values setting info.id path attributes))
      fun values => ?_
    split
    · exact h.fail _ info
    · exact h.fail _ info
    · next id name _ _ =>
      refine Respects.bind (h.captured (h.inArguments hbody)) fun text => ?_
      have hrest : Respects (leaf info.id path False False) (do
          let arguments ← toolArguments info text
          call info.id path
            { call := { id, name, arguments }, start := info.start, stop := info.stop }) :=
        Respects.bind (leaf_toolArguments _ _) fun _ => leaf_call _ _ _
      exact h.of_leaf hrest

theorem takeResponse (name : Option String) (config : Fields Json) :
    Respects (L path) (Walking.takeResponse setting id path name config) := by
  intro w
  rcases hw : w.responses with _ | ⟨response, rest⟩
  · refine RespectsAt.of_error (runFrom_takeResponse_nil hw) (h.stop _ (h.same ?_ ?_))
    · exact Walk.statuses_closed setting w
    · show (w.closed setting).scope = w.scope
      rw [Walk.closed_eq]
  · have hnamed : w.scope.Leads (named name response w.scope) := by
      cases name with
      | none => exact Scope.Leads.refl _
      | some name => exact w.scope.leads_set name _
    refine RespectsAt.of_ok (runFrom_takeResponse_cons hw) (h.leads ?_ hnamed)
    exact Walk.statuses_closed setting (answered id path response rest w)

theorem step (hbody : Respects (L path) body) :
    Respects (L path) (Walking.step setting info path attributes body) := by
  refine Respects.bind (Respects.look _) fun inStep => ?_
  split
  · exact h.fail _ info
  · refine Respects.bind (Respects.look _) fun inMessage => ?_
    split
    · exact h.fail _ info
    · have hname : Respects (silent info.id path False False) (stepName attributes) :=
        silent_stepName False.elim
      have hconfig : Respects (silent info.id path False False)
          (stepConfig setting info.id path attributes) :=
        silent_stepConfig setting info.id path False.elim False.elim
      refine Respects.bind (h.of_silent hname) fun name => ?_
      refine Respects.bind (h.of_silent hconfig) fun config => ?_
      exact Respects.bind (h.within (fun _ => ⟨rfl, rfl⟩) (fun _ => ⟨rfl, rfl⟩) hbody) fun _ =>
        h.takeResponse name config

theorem element {name : String} (hbody : Respects (L path) body) :
    Respects (L path) (Walking.element setting info path name attributes body) := by
  unfold Walking.element
  cases TagKind.ofName name with
  | message role => exact h.message hbody
  | content kind => exact h.contentTag hbody
  | toolCall => exact h.toolCall hbody
  | reference =>
    dsimp only
    split
    · exact h.fail _ info
    · exact h.fail _ info
  | step => exact h.step hbody
  | unknown =>
    have hreport : Respects (leaf info.id path False False)
        (report (.unknownTag name) info.start info.stop) := leaf_report False.elim _ _
    exact Respects.bind (h.of_leaf hreport) fun _ => hbody

/-! ### Nodes -/

omit h in
theorem walkAll {ns : List Node} (hns : ∀ n ∈ ns, Respects (L path) (n.walk setting path)) :
    Respects (L path) (Node.walkAll setting ns path) := by
  induction ns with
  | nil => exact Respects.pure _
  | cons n rest ih =>
    exact Respects.bind (hns n List.mem_cons_self) fun _ => ih fun m hm =>
      hns m (List.mem_cons_of_mem _ hm)

omit h in
theorem walkElse {o : Option Node} (hns : ∀ n ∈ o.toList, Respects (L path) (n.walk setting path)) :
    Respects (L path) (Node.walkElse setting o path) := by
  cases o with
  | none => exact Respects.pure _
  | some n => exact hns n (List.mem_singleton.2 rfl)

/-- Every visit of nodes for which the laws allow what a walk does keeps the laws. -/
theorem respects_walk (n : Node) (hids : n.ids ⊆ ids) (path : IterationPath) :
    Respects (L path) (n.walk setting path) := by
  -- the induction is on the tree, each kind of node being one of the closure properties
  induction n using Node.induct generalizing path with
  | step n ih =>
    have hinner : ∀ m ∈ n.childNodes, ∀ inner, Respects (L inner) (m.walk setting inner) :=
      fun m hm =>
      ih m hm fun id hid => hids (Node.idsAll_childNodes_subset n (Node.ids_subset_idsAll hm hid))
    have hact : Respects (L path) (n.act setting path) := by
      cases n with
      | fragment info children => exact fun w => h.inCopy (walkAll (fun m hm => hinner m hm path) w)
      | config info value raw => exact Respects.pure _
      | comment info data => exact Respects.pure _
      | text info data =>
        have hwrite : Respects (leaf info.id path False True) (write info.id path data) :=
          leaf_write info.id path data
        exact h.of_leaf hwrite
      | mustache info e => exact h.of_leaf (leaf_mustache setting info.id path e)
      | ifBlock info condition elseIf children otherwise =>
        exact h.ifBlock (walkAll fun m hm => hinner m (List.mem_append_left _ hm) path)
          (walkElse fun m hm => hinner m (List.mem_append_right _ hm) path)
      | forBlock info header children otherwise =>
        exact h.forBlock (fun i => walkAll fun m hm =>
          hinner m (List.mem_append_left _ hm) (path ++ [i]))
          (walkElse fun m hm => hinner m (List.mem_append_right _ hm) path)
      | element info name attributes children =>
        exact h.element (walkAll fun m hm => hinner m hm path)
    rw [Node.walk_eq]
    exact h.visiting (hids n.id_mem_ids) hact

theorem respects_walkAll (ns : List Node) (hids : Node.idsAll ns ⊆ ids) (path : IterationPath) :
    Respects (L path) (Node.walkAll setting ns path) :=
  walkAll fun n hn => h.respects_walk n (fun _ hid => hids (Node.ids_subset_idsAll hn hid)) path

end Parts

end Governing

end PromptMarkup

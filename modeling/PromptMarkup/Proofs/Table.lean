/-
The table of statuses.

The numbers of the nodes of a template are the places of their statuses in a table.

* `Statuses.extended` — a table with more statuses behind its own;
* `Framed` — a computation that keeps the length of a table, and for which it does not matter what
  stands behind it;
* `Framed.ofNode_iff`, `Framed.complete_iff` — a lookup and a change are such computations exactly
  if they are in the table;
* `Node.framed_walk` — the visit of a node is such a computation if the numbers in it are places of
  the table;
* `Node.bounded_of_reaches` — every visit that such a walk comes to has a place in the table;
* `Template.indexed_of_read` — so it is with the walks over a template that was read.

Design notes: a lookup behind the end of a table finds a fresh status, and a change there changes
nothing, so neither stops a walk.  Both show once there are other statuses behind the table: the
lookup finds one of them, and the change hits one.
-/
import PromptMarkup.Proofs.Visits
import PromptMarkup.Yaml.Document

namespace PromptMarkup

open PromptMarkup.Computation Walking

/-! ### Tables with more statuses -/

namespace Statuses

variable {s : Statuses} {id : Nat}

/-- A table of statuses with more of them behind its own. -/
def extended (s : Statuses) (extra : Array NodeStatus) : Statuses :=
  ⟨s.nodes ++ extra⟩

theorem ofNode_extended (extra : Array NodeStatus) (h : id < s.nodes.size) :
    (s.extended extra).ofNode id = s.ofNode id := by
  rw [ofNode, extended, Array.getElem?_append_left h, ofNode]

theorem modifyNode_extended (extra : Array NodeStatus) (f : NodeStatus → NodeStatus)
    (h : id < s.nodes.size) :
    (s.extended extra).modifyNode id f = (s.modifyNode id f).extended extra := by
  rw [modifyNode, ofNode_extended extra h, extended, Array.setIfInBounds_append_left h]
  rfl

theorem completed_extended (extra : Array NodeStatus) (h : id < s.nodes.size)
    (path : IterationPath) :
    (s.extended extra).completed id path = s.completed id path := by
  rw [completed, ofNode_extended extra h, completed]

theorem pausedAt?_extended (extra : Array NodeStatus) (h : id < s.nodes.size)
    (path : IterationPath) :
    (s.extended extra).pausedAt? id path = s.pausedAt? id path := by
  rw [pausedAt?, ofNode_extended extra h, pausedAt?]

/-- Statuses of blocks that have decided something, enough for a node to find one of them behind any
shorter table. -/
def marks (id : Nat) : Array NodeStatus :=
  Array.replicate (id + 1) ⟨none, none, .branch true⟩

theorem lt_size_marks (id : Nat) : id < (s.extended (marks id)).nodes.size := by
  simp only [extended, marks, Array.size_append, Array.size_replicate]
  omega

theorem ofNode_marks (h : s.nodes.size ≤ id) :
    (s.extended (marks id)).ofNode id = ⟨none, none, .branch true⟩ := by
  have hplace : id - s.nodes.size < id + 1 := by omega
  rw [ofNode, extended, Array.getElem?_append_right h, marks, Array.getElem?_replicate,
    if_pos hplace, Option.getD_some]

end Statuses

/-- The same state over a table with more statuses. -/
def Walk.extended (w : Walk) (extra : Array NodeStatus) : Walk :=
  { w with statuses := w.statuses.extended extra }

/-- A computation keeps the length of a table of statuses, and does the same whatever stands behind
the table. -/
structure Framed {α : Type} (size : Nat) (x : Walking α) : Prop where
  keeps : ∀ w, w.statuses.nodes.size = size → (runFrom w x).2.statuses.nodes.size = size
  same : ∀ w extra, w.statuses.nodes.size = size →
    runFrom (w.extended extra) x = ((runFrom w x).1, (runFrom w x).2.extended extra)

variable {size : Nat} {α β : Type}

namespace Framed

/-! ### Computations -/

theorem pure (a : α) : Framed size (pure a : Walking α) :=
  ⟨fun _ h => h, fun _ _ _ => rfl⟩

theorem stop (e : Interrupt) : Framed size (throw e : Walking α) :=
  ⟨fun _ h => h, fun _ _ _ => rfl⟩

theorem fail (fault : Fault) (info : NodeInfo) :
    Framed size (Walking.fail fault info : Walking α) :=
  stop _

theorem bind {x : Walking α} {f : α → Walking β} (hx : Framed size x)
    (hf : ∀ a, Framed size (f a)) :
    Framed size (x >>= f) := by
  refine ⟨fun w h => ?_, fun w extra h => ?_⟩
  · have hkeeps := hx.keeps w h
    rcases hrun : runFrom w x with ⟨e | a, t⟩
    · rw [runFrom_bind_error hrun]
      rwa [hrun] at hkeeps
    · rw [runFrom_bind_ok hrun]
      rw [hrun] at hkeeps
      exact (hf a).keeps t hkeeps
  · have hkeeps := hx.keeps w h
    have hsame := hx.same w extra h
    rcases hrun : runFrom w x with ⟨e | a, t⟩
    · rw [hrun] at hsame
      rw [runFrom_bind_error hrun, runFrom_bind_error hsame]
    · rw [hrun] at hsame hkeeps
      rw [runFrom_bind_ok hrun, runFrom_bind_ok hsame]
      exact (hf a).same t extra hkeeps

theorem size_of_run {x : Walking α} {w t : Walk} {r : Except Interrupt α} (hx : Framed size x)
    (h : runFrom w x = (r, t)) (hw : w.statuses.nodes.size = size) :
    t.statuses.nodes.size = size := by
  have hkeeps := hx.keeps w hw
  rwa [h] at hkeeps

theorem look {part : Walk → α}
    (h : ∀ w extra, w.statuses.nodes.size = size → part (w.extended extra) = part w) :
    Framed size (Computation.look part : Walking α) :=
  ⟨fun _ hw => hw, fun w extra hw => by rw [runFrom_look, runFrom_look, h w extra hw]⟩

theorem update {f : Walk → Walk}
    (hkeeps : ∀ w, w.statuses.nodes.size = size → (f w).statuses.nodes.size = size)
    (hsame : ∀ w extra, w.statuses.nodes.size = size →
      f (w.extended extra) = (f w).extended extra) :
    Framed size (modify f : Walking PUnit) :=
  ⟨hkeeps, fun w extra h => by rw [runFrom_modify, runFrom_modify, hsame w extra h]⟩

/-- A part of the state apart from the statuses. -/
theorem glance {part : Walk → α} (h : ∀ w statuses, part { w with statuses } = part w) :
    Framed size (Computation.look part : Walking α) :=
  look fun w extra _ => h w (w.statuses.extended extra)

/-- A change of the state apart from the statuses. -/
theorem change {f : Walk → Walk} (h : ∀ w statuses, f { w with statuses } = { f w with statuses }) :
    Framed size (modify f : Walking PUnit) := by
  have hkeeps : ∀ w, (f w).statuses = w.statuses := fun w => by
    have hsame : f w = { f w with statuses := w.statuses } := h w w.statuses
    rw [hsame]
  refine update (fun w hw => by rw [hkeeps w, hw]) fun w extra _ => ?_
  rw [Walk.extended, Walk.extended, h w, hkeeps w]

section Statuses

variable {id : Nat} (hid : id < size)

include hid

/-- A change of a status in the table. -/
theorem modifyNode (f : NodeStatus → NodeStatus) :
    Framed size (modify fun w => { w with statuses := w.statuses.modifyNode id f } :
      Walking PUnit) := by
  refine update (fun w h => ?_) fun w extra h => ?_
  · rw [Statuses.size_modifyNode, h]
  · have hplace : id < w.statuses.nodes.size := h ▸ hid
    exact congrArg (fun s => { w with statuses := s }) (Statuses.modifyNode_extended extra f hplace)

theorem pause (path : IterationPath) (pointers : Pointers) :
    Framed size (modify fun w => { w with statuses := w.statuses.pause id path pointers } :
      Walking PUnit) :=
  modifyNode hid _

theorem decide (d : Decision) :
    Framed size (modify fun w => { w with statuses := w.statuses.decide id d } : Walking PUnit) :=
  modifyNode hid _

theorem enter (path : IterationPath) :
    Framed size (modify (Walk.enter · id path) : Walking PUnit) := by
  refine update (fun w h => ?_) fun w extra h => ?_
  · unfold Walk.enter
    split
    · exact h
    · rw [Statuses.size_decide, h]
  · have hplace : id < w.statuses.nodes.size := h ▸ hid
    have hpaused : (w.extended extra).statuses.pausedAt? id path = w.statuses.pausedAt? id path :=
      Statuses.pausedAt?_extended extra hplace path
    unfold Walk.enter
    rw [hpaused]
    split
    · rfl
    · exact congrArg (fun s => { w with statuses := s })
        (Statuses.modifyNode_extended extra _ hplace)

theorem decision : Framed size
    (Computation.look fun w => (w.statuses.ofNode id).decision : Walking Decision) :=
  look fun _ extra h => congrArg NodeStatus.decision (Statuses.ofNode_extended extra (h ▸ hid))

end Statuses

/-! ### Lookups behind a table -/

section Beyond

variable {id : Nat}

/-- A status that is read has a place in the table: behind it there may be one that is not fresh. -/
theorem ofNode_iff :
    Framed size (Computation.look fun w => w.statuses.ofNode id : Walking NodeStatus) ↔
    id < size := by
  refine ⟨fun h => Nat.lt_of_not_le fun hle => ?_, fun hid => ?_⟩
  · have hsize : (Statuses.fresh size).nodes.size = size := Array.size_replicate
    have hsame := h.same (Walk.start (Statuses.fresh size) (Scope.ofFields []) [])
      (Statuses.marks id) hsize
    have hread : ((Statuses.fresh size).extended (Statuses.marks id)).ofNode id =
      (Statuses.fresh size).ofNode id :=
      Except.ok.inj (congrArg Prod.fst hsame)
    -- the marks are decisions, and a fresh status has none
    rw [Statuses.ofNode_marks (hsize.symm ▸ hle), Statuses.ofNode_fresh] at hread
    exact nomatch congrArg NodeStatus.decision hread
  · exact look fun w extra h => Statuses.ofNode_extended extra (h ▸ hid)

/-- So has a status that is changed. -/
theorem complete_iff (path : IterationPath) :
    Framed size (modify fun w => { w with statuses := w.statuses.complete id path } :
      Walking PUnit) ↔ id < size := by
  refine ⟨fun h => Nat.lt_of_not_le fun hle => ?_, fun hid => modifyNode hid _⟩
  have hsize : (Statuses.fresh size).nodes.size = size := Array.size_replicate
  have hsame := h.same (Walk.start (Statuses.fresh size) (Scope.ofFields []) [])
    (Statuses.marks id) hsize
  have hwritten : ((Statuses.fresh size).extended (Statuses.marks id)).complete id path =
      ((Statuses.fresh size).complete id path).extended (Statuses.marks id) :=
    congrArg (fun ended => ended.2.statuses) hsame
  have hread := congrArg (Statuses.ofNode · id) hwritten
  -- completing a visit wipes out the mark that it hits
  rw [Statuses.ofNode_complete path (Statuses.lt_size_marks id),
    Statuses.ofNode_marks (by rwa [Statuses.size_complete, hsize])] at hread
  exact nomatch congrArg NodeStatus.decision hread

end Beyond

/-! ### Leaves -/

variable {setting : Setting} {id : Nat} {path : IterationPath}

theorem report (fault : Fault) (start stop : Nat) : Framed size (Walking.report fault start stop) :=
  change fun _ _ => rfl

theorem note (e : Event) : Framed size (Walking.note e) :=
  change fun _ _ => rfl

theorem write (id : Nat) (path : IterationPath) (text : String) :
    Framed size (Walking.write id path text) :=
  bind (change fun _ _ => rfl) fun _ => bind (glance fun _ _ => rfl) fun _ => note _

theorem setVariable (name : String) (v : Value) : Framed size (Walking.setVariable name v) :=
  change fun _ _ => rfl

theorem evaluate (setting : Setting) (id : Nat) (path : IterationPath) (e : Expr) :
    Framed size (Walking.evaluate setting id path e) := by
  refine bind (glance fun _ _ => rfl) fun _ => bind (note _) fun _ => ?_
  refine bind (glance fun _ _ => rfl) fun ⟨result, scope⟩ =>
    bind (change fun _ _ => rfl) fun _ => ?_
  cases result with
  | ok v => exact pure v
  | error p => exact stop _

theorem takesBranch (setting : Setting) (hid : id < size) (path : IterationPath)
    (condition : Expr) :
    Framed size (Walking.takesBranch setting id path condition) := by
  refine bind (decision hid) fun d => ?_
  cases d with
  | branch taken => exact pure taken
  | _ => exact bind (evaluate setting id path condition) fun _ => pure _

theorem takeItems (setting : Setting) (hid : id < size) (path : IterationPath) (iterable : Expr) :
    Framed size (Walking.takeItems setting id path iterable) := by
  refine bind (decision hid) fun d => ?_
  cases d with
  | iteration items i v => exact pure _
  | _ => exact bind (evaluate setting id path iterable) fun _ => pure _

theorem checkFree (info : NodeInfo) (name : String) :
    Framed size (Walking.checkFree info name) := by
  refine bind (glance fun _ _ => rfl) fun seen => ?_
  split
  · exact fail _ _
  · exact pure _

theorem checkNames (info : NodeInfo) (header : ForHeader) :
    Framed size (Walking.checkNames info header) := by
  refine bind (checkFree info header.item) fun _ => ?_
  split
  · exact checkFree _ _
  · exact pure _

theorem setIndex (setting : Setting) (id : Nat) (path : IterationPath) (header : ForHeader)
    (i : Nat)
    (resumed : Option Value) : Framed size (Walking.setIndex setting id path header i resumed) := by
  unfold Walking.setIndex
  split
  · exact pure _
  · refine bind ?_ fun v => bind (setVariable _ v) fun _ => pure _
    unfold indexValue
    split
    · exact pure _
    · exact evaluate _ _ _ _
    · exact pure _

theorem partsText (setting : Setting) (id : Nat) (path : IterationPath)
    (parts : List AttributePart) :
    Framed size (Walking.partsText setting id path parts) := by
  induction parts with
  | nil => exact pure _
  | cons part rest ih =>
    cases part with
    | text s data => exact bind ih fun _ => pure _
    | expression e => exact bind (evaluate _ _ _ e) fun _ => bind ih fun _ => pure _

theorem attributeValue (setting : Setting) (id : Nat) (path : IterationPath) (a : Attribute) :
    Framed size (Walking.attributeValue setting id path a) := by
  unfold Walking.attributeValue
  split
  · exact pure _
  · exact evaluate _ _ _ _
  · exact bind (partsText _ _ _ _) fun _ => pure _

theorem attributeValues (setting : Setting) (id : Nat) (path : IterationPath)
    (attributes : List Attribute) :
    Framed size (Walking.attributeValues setting id path attributes) := by
  induction attributes with
  | nil => exact pure _
  | cons a rest ih => exact bind (attributeValue setting id path a) fun _ => bind ih fun _ => pure _

theorem mustache (setting : Setting) (id : Nat) (path : IterationPath) (e : Expr) :
    Framed size (Walking.mustache setting id path e) := by
  refine bind (evaluate setting id path e) fun v => ?_
  cases v with
  | undefined => exact pure _
  | _ =>
    dsimp only
    split
    · exact pure _
    · exact write _ _ _

theorem messageRole (info : NodeInfo) (role : Option Role) (values : Fields Value) :
    Framed size (Walking.messageRole info role values) := by
  unfold Walking.messageRole
  repeat' split
  all_goals first | exact pure _ | exact fail _ _

theorem stepName (attributes : List Attribute) : Framed size (Walking.stepName attributes) := by
  unfold Walking.stepName
  repeat' split
  all_goals first | exact pure _ | exact stop _

theorem stepConfig (setting : Setting) (hid : id < size) (path : IterationPath)
    (attributes : List Attribute) :
    Framed size (Walking.stepConfig setting id path attributes) := by
  refine bind (look fun w extra h => Statuses.pausedAt?_extended extra (h ▸ hid) path)
    fun pointers => ?_
  cases pointers with
  | some pointers => exact pure _
  | none => exact bind (attributeValues _ _ _ _) fun _ => pure _

theorem closeText : Framed size Walking.closeText :=
  change fun _ _ => rfl

theorem emit (m : Message) : Framed size (Walking.emit m) :=
  change fun _ _ => rfl

theorem takeContent : Framed size Walking.takeContent :=
  bind closeText fun _ => bind (glance fun _ _ => rfl) fun _ =>
    bind (change fun _ _ => rfl) fun _ => pure _

theorem placeToolCalls (role : Role) (calls : List PendingCall) :
    Framed size (Walking.placeToolCalls role calls) := by
  unfold Walking.placeToolCalls
  split
  · exact pure _
  · refine bind ?_ fun _ => pure _
    induction calls with
    | nil => exact pure _
    | cons call rest ih => exact bind (report _ _ _) fun _ => ih

theorem closeMessage (setting : Setting) : Framed size (Walking.closeMessage setting) := by
  refine bind takeContent fun ⟨content, calls⟩ => ?_
  dsimp only
  split
  · exact pure _
  · exact bind (placeToolCalls _ _) fun _ => emit _

theorem place (id : Nat) (path : IterationPath) (content : Content) :
    Framed size (Walking.place id path content) :=
  bind (change fun _ _ => rfl) fun _ => note _

theorem call (id : Nat) (path : IterationPath) (pending : PendingCall) :
    Framed size (Walking.call id path pending) :=
  bind (change fun _ _ => rfl) fun _ => note _

theorem placeContent (info : NodeInfo) (path : IterationPath) (kind : ContentKind) (text : String) :
    Framed size (Walking.placeContent info path kind text) := by
  cases kind with
  | text => exact place _ _ _
  | image =>
    unfold Walking.placeContent
    dsimp only
    split
    · exact fail _ _
    · exact place _ _ _

theorem toolArguments (info : NodeInfo) (text : String) :
    Framed size (Walking.toolArguments info text) := by
  unfold Walking.toolArguments
  dsimp only
  split
  · exact pure _
  · split
    · exact pure _
    · exact bind (report _ _ _) fun _ => pure _

theorem nameResponse (name : Option String) (response : String) :
    Framed size (Walking.nameResponse name response) := by
  cases name with
  | none => exact pure _
  | some name => exact setVariable _ _

theorem takeResponse (setting : Setting) (id : Nat) (path : IterationPath) (name : Option String)
    (config : Fields Json) : Framed size (Walking.takeResponse setting id path name config) := by
  refine bind (glance fun _ _ => rfl) fun turns => bind (glance fun _ _ => rfl) fun responses => ?_
  cases responses with
  | nil =>
    exact bind (closeMessage setting) fun _ => bind (note _) fun _ => stop _
  | cons response rest =>
    refine bind (change fun _ _ => rfl) fun _ => bind (note _) fun _ => ?_
    exact bind (nameResponse name response) fun _ => bind (closeMessage setting) fun _ => emit _

/-! ### Parts of a walk -/

section Parts

variable {act body otherwise : Walking Unit} {info : NodeInfo} {attributes : List Attribute}

theorem within {there back : Walk → Walk} (hthere : Framed size (modify there : Walking PUnit))
    (hback : Framed size (modify back : Walking PUnit)) (h : Framed size act) :
    Framed size (Walking.within there back act) := by
  refine ⟨fun w hw => hback.keeps _ (h.keeps _ (hthere.keeps w hw)), fun w extra hw => ?_⟩
  have hstart : there (w.extended extra) = (there w).extended extra :=
    congrArg Prod.snd (hthere.same w extra hw)
  have hend : back ((runFrom (there w) act).2.extended extra) =
    (back (runFrom (there w) act).2).extended extra :=
    congrArg Prod.snd (hback.same _ extra (h.keeps _ (hthere.keeps w hw)))
  rw [runFrom_within, runFrom_within, hstart, h.same (there w) extra (hthere.keeps w hw), hend]

theorem onPause {record : Walk → Walk} (hrecord : Framed size (modify record : Walking PUnit))
    (h : Framed size act) : Framed size (Walking.onPause record act) := by
  refine ⟨fun w hw => ?_, fun w extra hw => ?_⟩
  · have hkeeps := h.keeps w hw
    rw [runFrom_onPause]
    rcases hrun : runFrom w act with ⟨(config | p) | ⟨⟩, t⟩
    · rw [hrun] at hkeeps
      exact hrecord.keeps t hkeeps
    · rwa [hrun] at hkeeps
    · rwa [hrun] at hkeeps
  · have hkeeps := h.keeps w hw
    rw [runFrom_onPause, runFrom_onPause, h.same w extra hw]
    rcases hrun : runFrom w act with ⟨(config | p) | ⟨⟩, t⟩
    · rw [hrun] at hkeeps
      have hend : record (t.extended extra) = (record t).extended extra :=
        congrArg Prod.snd (hrecord.same t extra hkeeps)
      exact congrArg (Prod.mk _) hend
    · rfl
    · rfl

theorem entering (turn : Turn) (h : Framed size act) : Framed size (Walking.entering turn act) :=
  bind (note _) fun _ => bind (glance fun _ _ => rfl) fun _ => bind (change fun _ _ => rfl) fun _ =>
    bind h fun _ => change fun _ _ => rfl

theorem inCopy (h : Framed size act) : Framed size (Walking.inCopy act) :=
  bind (glance fun _ _ => rfl) fun _ => bind h fun _ => change fun _ _ => rfl

theorem inArguments (flag : Bool) (h : Framed size act) :
    Framed size (Walking.inArguments flag act) :=
  bind (glance fun _ _ => rfl) fun _ => within (change fun _ _ => rfl) (change fun _ _ => rfl) h

theorem captured (h : Framed size act) : Framed size (Walking.captured act) := by
  refine ⟨fun w hw => h.keeps { w with stray := "" } hw, fun w extra hw => ?_⟩
  have hsame := h.same { w with stray := "" } extra hw
  have hstart : ({ w.extended extra with stray := "" } : Walk) =
    { w with stray := "" }.extended extra := rfl
  rw [runFrom_captured, runFrom_captured, hstart, hsame]
  rfl

theorem visiting (hid : id < size) (path : IterationPath) (h : Framed size act) :
    Framed size (Walking.visiting id path act) := by
  refine bind (look fun w extra hw => Statuses.completed_extended extra (hw ▸ hid) path)
    fun completed => ?_
  split
  · exact pure _
  · refine bind (enter hid path) fun _ => bind (glance fun _ _ => rfl) fun entry => ?_
    exact bind (onPause (pause hid path entry) h) fun _ => (complete_iff path).2 hid

/-! ### Blocks and elements -/

theorem ifBlock (hid : id < size) (condition : Expr) (hbody : Framed size body)
    (hotherwise : Framed size otherwise) :
    Framed size (Walking.ifBlock setting id path condition body otherwise) := by
  refine bind (takesBranch setting hid path condition) fun taken =>
    onPause (decide hid _) (entering _ ?_)
  split
  · exact inCopy hbody
  · exact hotherwise

section Loops

variable {header : ForHeader} {items : List Value} {children : IterationPath → Walking Unit}

theorem iteration (hid : id < size) (hchildren : ∀ inner, Framed size (children inner)) (i : Nat)
    (resumed : Option Value) (item : Value) :
    Framed size (Walking.iteration setting id path header items children i resumed item) :=
  entering _ <| inCopy <| bind (setVariable _ _) fun _ =>
    bind (setIndex setting id path header i resumed)
    fun _ => onPause (decide hid _) (hchildren _)

theorem iterations (hid : id < size) (hchildren : ∀ inner, Framed size (children inner)) (i : Nat)
    (resumed : Option Value) (rest : List Value) :
    Framed size (Walking.iterations setting id path header items children i resumed rest) := by
  induction rest generalizing i resumed with
  | nil => exact pure _
  | cons item rest ih =>
    exact bind (iteration hid hchildren i resumed item) fun _ => ih (i + 1) none

theorem forBlock (hid : info.id < size) (hchildren : ∀ inner, Framed size (children inner))
    (hotherwise : Framed size otherwise) :
    Framed size (Walking.forBlock setting info path header children otherwise) := by
  refine bind (checkNames info header) fun _ =>
    bind (takeItems setting hid path header.iterable) fun loop => ?_
  split
  · exact entering _ hotherwise
  · exact iterations hid hchildren _ _ _

end Loops

theorem message (role : Option Role) (hbody : Framed size body) :
    Framed size (Walking.message setting info path role attributes body) := by
  refine bind (glance fun _ _ => rfl) fun inMessage => ?_
  split
  · exact fail _ _
  · refine bind (attributeValues _ _ _ _) fun values =>
      bind (messageRole info role values) fun role => ?_
    dsimp only
    generalize (if role = Role.tool then textOf? values "id" else none) = toolId
    split
    · exact fail _ _
    · refine bind (closeMessage setting) fun _ => bind ?_ fun _ =>
        bind takeContent fun ⟨content, pending⟩ => ?_
      · exact within (change fun _ _ => rfl) (change fun _ _ => rfl) (inArguments false hbody)
      · exact bind (placeToolCalls role pending) fun _ => emit _

theorem contentTag (kind : ContentKind) (hbody : Framed size body) :
    Framed size (Walking.contentTag setting info path kind attributes body) := by
  refine bind (glance fun _ _ => rfl) fun inContent => ?_
  split
  · exact fail _ _
  · refine bind (attributeValues _ _ _ _) fun _ => bind closeText fun _ => bind ?_ fun _ => ?_
    · exact within (change fun _ _ => rfl) (change fun _ _ => rfl) (inArguments false hbody)
    · exact bind (glance fun _ _ => rfl) fun _ => bind (change fun _ _ => rfl) fun _ =>
        placeContent _ _ _ _

theorem toolCall (hbody : Framed size body) :
    Framed size (Walking.toolCall setting info path attributes body) := by
  refine bind (glance fun _ _ => rfl) fun inContent => ?_
  split
  · exact fail _ _
  · refine bind (attributeValues _ _ _ _) fun values => ?_
    split
    · exact fail _ _
    · exact fail _ _
    · exact bind (captured (inArguments true hbody)) fun text =>
        bind (toolArguments info text) fun _ => call _ _ _

theorem step (hid : info.id < size) (hbody : Framed size body) :
    Framed size (Walking.step setting info path attributes body) := by
  refine bind (glance fun _ _ => rfl) fun inStep => ?_
  split
  · exact fail _ _
  · refine bind (glance fun _ _ => rfl) fun inMessage => ?_
    split
    · exact fail _ _
    · refine bind (stepName attributes) fun name =>
        bind (stepConfig setting hid path attributes) fun config => ?_
      refine bind ?_ fun _ => takeResponse setting info.id path name config
      exact within (change fun _ _ => rfl) (change fun _ _ => rfl) hbody

theorem element (hid : info.id < size) (name : String) (hbody : Framed size body) :
    Framed size (Walking.element setting info path name attributes body) := by
  unfold Walking.element
  cases TagKind.ofName name with
  | message role => exact message role hbody
  | content kind => exact contentTag kind hbody
  | toolCall => exact toolCall hbody
  | reference =>
    dsimp only
    split
    · exact fail _ _
    · exact fail _ _
  | step => exact step hid hbody
  | unknown => exact bind (report _ _ _) fun _ => hbody

end Parts

end Framed

/-! ### Visits -/

namespace Node

variable {setting : Setting} {n m : Node} {ns : List Node} {path inner : IterationPath}
  {a w x : Walk}

theorem framed_walkAll_of (h : ∀ n ∈ ns, Framed size (n.walk setting path)) :
    Framed size (walkAll setting ns path) := by
  induction ns with
  | nil => exact .pure _
  | cons n rest ih =>
    exact (h n List.mem_cons_self).bind fun _ => ih fun m hm => h m (List.mem_cons_of_mem _ hm)

theorem framed_walkElse_of {o : Option Node}
    (h : ∀ n ∈ o.toList, Framed size (n.walk setting path)) :
    Framed size (walkElse setting o path) := by
  cases o with
  | none => exact .pure _
  | some n => exact h n (List.mem_singleton_self n)

/-- The visit of a node looks nothing up behind a table in which the node and all nodes inside of it
have places. -/
theorem framed_walk (setting : Setting) (n : Node) (h : ∀ id ∈ n.ids, id < size)
    (path : IterationPath) :
    Framed size (n.walk setting path) := by
  induction n using Node.induct generalizing path with
  | step n ih =>
    have hinner : ∀ m ∈ n.childNodes, ∀ inner, Framed size (m.walk setting inner) := fun m hm =>
      ih m hm fun id hid => h id (idsAll_childNodes_subset n (ids_subset_idsAll hm hid))
    have hid : n.id < size := h n.id n.id_mem_ids
    -- blocks and steps look up their own statuses only, and what is inside of them is looked up by
    -- itself
    have hact : Framed size (n.act setting path) := by
      cases n with
      | fragment info children => exact .inCopy (framed_walkAll_of fun m hm => hinner m hm path)
      | config info value raw => exact .pure _
      | comment info data => exact .pure _
      | text info data => exact .write _ _ _
      | mustache info e => exact .mustache _ _ _ _
      | ifBlock info condition elseIf children otherwise =>
        exact .ifBlock hid condition (framed_walkAll_of fun m hm =>
          hinner m (List.mem_append_left _ hm) path)
          (framed_walkElse_of fun m hm => hinner m (List.mem_append_right _ hm) path)
      | forBlock info header children otherwise =>
        exact .forBlock hid (fun inner => framed_walkAll_of fun m hm =>
          hinner m (List.mem_append_left _ hm) inner)
          (framed_walkElse_of fun m hm => hinner m (List.mem_append_right _ hm) path)
      | element info name attributes children =>
        exact .element hid name (framed_walkAll_of fun m hm => hinner m hm path)
    rw [walk_eq]
    exact .visiting hid path hact

/-- The same for nodes directly inside of such a node. -/
theorem framed_walkAll (setting : Setting) (h : ∀ id ∈ n.ids, id < size) (hns : ns ⊆ n.childNodes)
    (path : IterationPath) : Framed size (walkAll setting ns path) :=
  framed_walkAll_of fun c hc => framed_walk setting c
    (fun id hid => h id (idsAll_childNodes_subset n (ids_subset_idsAll (hns hc) hid))) path

/-- What a node does comes to walks over nodes directly inside of it, with a table of the same
length. -/
theorem Opens.keeps (h : Opens setting n path a ns inner x) (hids : ∀ id ∈ n.ids, id < size)
    (ha : a.statuses.nodes.size = size) : x.statuses.nodes.size = size ∧ ns ⊆ n.childNodes := by
  have hid : n.id < size := hids n.id n.id_mem_ids
  -- what runs before the part is opened keeps the table's size, step by step
  cases n with
  | fragment info children =>
    cases h
    exact ⟨ha, List.Subset.refl _⟩
  | ifBlock info condition elseIf children otherwise =>
    cases h with
    | @branch _ _ _ taken _ _ _ _ s hcondition =>
      have hs : s.statuses.nodes.size = size :=
        (Framed.takesBranch setting hid path condition).size_of_run hcondition ha
      refine ⟨hs, ?_⟩
      cases taken with
      | true => exact List.subset_append_left _ _
      | false => exact List.subset_append_right _ _
  | forBlock info header children otherwise =>
    cases h with
    | @iteration _ _ _ _ items before later item first resumed v _ _ s u x hloop hitems hbefore
        hindex =>
      have hsubset : ns ⊆ (forBlock info header ns otherwise).childNodes :=
        List.subset_append_left _ _
      have hs := (Framed.takeItems setting hid path header.iterable).size_of_run hloop ha
      have hchildren := framed_walkAll setting hids hsubset
      have hu := (Framed.iterations hid hchildren first resumed before).size_of_run hbefore hs
      exact ⟨(Framed.setIndex setting info.id path header _ _).size_of_run hindex hu, hsubset⟩
    | @noItems _ _ _ _ loop _ _ s hloop hempty =>
      have hs : s.statuses.nodes.size = size :=
        (Framed.takeItems setting hid path header.iterable).size_of_run hloop ha
      exact ⟨hs, List.subset_append_right _ _⟩
  | element info name attributes children =>
    obtain ⟨rfl, rfl, hstatuses⟩ := h.of_element
    exact ⟨by rw [hstatuses, ha], List.Subset.refl _⟩
  | _ => cases h

/-- Every visit that a walk comes to is the visit of a node of the tree, with a table of the same
length. -/
theorem bounded_of_reaches (h : Reaches setting n path w m inner x) (hids : ∀ id ∈ n.ids, id < size)
    (hw : w.statuses.nodes.size = size) : m ∈ n.nodes ∧ x.statuses.nodes.size = size := by
  induction h with
  | here n => exact ⟨mem_nodes_self n, hw⟩
  | @inside n m last ns path inner end' w s x y _ hopens hcomes _ ih =>
    have hid : n.id < size := hids n.id n.id_mem_ids
    obtain ⟨hs, hsubset⟩ := hopens.keeps hids ((Framed.enter hid path).keeps w hw)
    have hm : m ∈ n.childNodes := hsubset hcomes.mem
    -- the nodes in front of the one that is visited leave the table as long as it is
    obtain ⟨before, after, rfl, hbefore⟩ := hcomes
    have hfront : before ⊆ n.childNodes := fun c hc => hsubset (List.mem_append_left _ hc)
    have hx := (framed_walkAll setting hids hfront inner).size_of_run hbefore hs
    obtain ⟨hlast, hy⟩ := ih (fun id hid =>
      hids id (idsAll_childNodes_subset n (ids_subset_idsAll hm hid))) hx
    exact ⟨mem_nodes_of_child hm hlast, hy⟩

end Node

/-! ### Walks over a template -/

/-- The template, the setting and the state with which the runs of a prompt walk: a compilation, and
the calls of a chain. -/
inductive Runs [ConfigReader] (source : String) : Template → Setting → Walk → Prop
  | compiled {t : Template} (hread : Template.read source = .ok t) (setting : Setting)
    (parameters : Fields Value) :
    Runs source t setting (Walk.start (Statuses.fresh t.nodeCount) (Scope.ofFields parameters) [])
  | called {setting : Setting} {parameters : Fields Value} {chain : Chain}
    (hstart : Chain.start setting source parameters = .ok chain) (earlier : List (Option String))
    (responses : List String) :
    Runs source (chain.calls earlier).template (chain.calls earlier).setting
    ((chain.calls earlier).opening responses)

namespace Template

/-- Every node has a status of its own in a table with as many statuses as there are nodes. -/
structure Apart (t : Template) : Prop where
  own : ∀ n ∈ t.root.nodes, ∀ (s : Statuses) (f : NodeStatus → NodeStatus),
    s.nodes.size = t.nodeCount →
    (s.modifyNode n.id f).ofNode n.id = f (s.ofNode n.id)
  others : t.root.nodes.Pairwise fun n m => ∀ (s : Statuses) (f : NodeStatus → NodeStatus),
    (s.modifyNode n.id f).ofNode m.id = s.ofNode m.id ∧
    (s.modifyNode m.id f).ofNode n.id = s.ofNode n.id

/-- A walk over a template looks nothing up that is not in the table of statuses. -/
structure Contained (t : Template) (setting : Setting) (w : Walk) : Prop where
  size : w.statuses.nodes.size = t.nodeCount
  keeps : (runFrom w (t.visitRoot setting)).2.statuses.nodes.size = t.nodeCount
  /-- Every visit that the walk comes to is that of a node of the template, and has a place in the
  table. -/
  reached : ∀ {n path x}, Node.Reaches setting t.root [] w n path x →
    n ∈ t.root.nodes ∧ n.id < x.statuses.nodes.size
  /-- What stands behind the table is neither seen nor changed. -/
  same : ∀ extra, runFrom (w.extended extra) (t.visitRoot setting) =
    ((runFrom w (t.visitRoot setting)).1, (runFrom w (t.visitRoot setting)).2.extended extra)

variable {t : Template} {source : String} {setting : Setting} {w : Walk}

theorem Numbered.framed (h : t.Numbered) (setting : Setting) :
    Framed t.nodeCount (t.visitRoot setting) :=
  (Node.framed_walk setting t.root h.bounded []).bind fun _ => .closeMessage setting

theorem Numbered.contained (h : t.Numbered) (setting : Setting)
    (hw : w.statuses.nodes.size = t.nodeCount) :
    t.Contained setting w := by
  refine ⟨hw, (h.framed setting).keeps w hw, fun hreaches => ?_,
    fun extra => (h.framed setting).same w extra hw⟩
  obtain ⟨hmem, hsize⟩ := Node.bounded_of_reaches hreaches h.bounded hw
  exact ⟨hmem, Nat.lt_of_lt_of_eq (h.bounded _ (List.mem_map_of_mem hmem)) hsize.symm⟩

theorem Numbered.apart (h : t.Numbered) : t.Apart := by
  refine ⟨fun n hn s f hs => ?_, ?_⟩
  · exact Statuses.ofNode_modifyNode s n.id f
      (Nat.lt_of_lt_of_eq (h.bounded n.id (List.mem_map_of_mem hn)) hs.symm)
  · refine (List.pairwise_map.1 h.nodup).imp fun hne s f => ⟨?_, ?_⟩
    · exact Statuses.ofNode_modifyNode_of_ne s _ f hne.symm
    · exact Statuses.ofNode_modifyNode_of_ne s _ f hne

end Template

namespace Chain

variable {chain : Chain}

/-- A call keeps the length of the table. -/
theorem size_call (hnumbered : chain.template.Numbered)
    (hsize : chain.statuses.nodes.size = chain.template.nodeCount) (response : Option String) :
    (chain.call response).statuses.nodes.size = chain.template.nodeCount := by
  rcases call_cases chain response with ⟨outcome, -, hwalk, hcall⟩ | hcall
  · rw [hcall]
    have hends := walk_eq_ok.1 hwalk
    rcases hvisit : chain.visit response.toList with ⟨r, t⟩
    have ht := (hnumbered.framed chain.setting).size_of_run hvisit hsize
    rw [hvisit] at hends
    cases hends with
    | completed => exact ht
    | paused => exact ht
  · rwa [hcall]

/-- The table of a chain has as many statuses as its template has nodes. -/
theorem size_calls [ConfigReader] {setting : Setting} {source : String} {parameters : Fields Value}
    (hstart : Chain.start setting source parameters = .ok chain) (earlier : List (Option String)) :
    (chain.calls earlier).statuses.nodes.size = chain.template.nodeCount := by
  have hsteady := steady_start hstart
  refine (calls_invariant (P := fun later => later.template = chain.template ∧
    later.statuses.nodes.size = chain.template.nodeCount) (fun later response h => ?_)
      ⟨rfl, hsteady.size⟩ earlier).2
  obtain ⟨htemplate, hsize⟩ := h
  rw [template_call, ← htemplate]
  exact ⟨rfl, size_call (htemplate.symm ▸ hsteady.numbered) (htemplate.symm ▸ hsize) response⟩

end Chain

namespace Template

/-- The numbers of the nodes of a template that was read are, in the order of the document, the
places of the table of statuses: no two nodes share one, and all that the runs of the prompt look up
is in the table. -/
theorem indexed_of_read [ConfigReader] {t : Template} {source : String}
    (h : Template.read source = .ok t) :
    t.root.ids = List.range t.nodeCount ∧ t.Apart ∧
      ∀ {t' setting w}, Runs source t' setting w → t' = t ∧ t.Contained setting w := by
  have hnumbered := numbered_of_read h
  refine ⟨ids_of_read h, hnumbered.apart, fun {t' setting w} hruns => ?_⟩
  cases hruns with
  | compiled hread parameters =>
    obtain rfl := Except.ok.inj (hread.symm.trans h)
    exact ⟨rfl, hnumbered.contained setting Array.size_replicate⟩
  | called hstart earlier responses =>
    have hsize := Chain.size_calls hstart earlier
    rw [Chain.template_calls]
    obtain rfl := Except.ok.inj ((Chain.read_of_start hstart).symm.trans h)
    exact ⟨rfl, hnumbered.contained _ hsize⟩

/-- A loop with an `else` part in the `else` part of a condition. -/
def loopInsteadOfMessage : String :=
  braced "if x" ++ "<user>a</user>" ++ braced "else" ++ braced "for y in z" ++ braced "y" ++
    braced "else" ++
    "<step />" ++ braced "endfor" ++ braced "endif" ++ "b"

theorem indexed_of_read_loopInsteadOfMessage :
    ∃ t, Template.read loopInsteadOfMessage = .ok t ∧ t.nodeCount = 10 ∧
      t.root.ids = List.range t.nodeCount ∧ t.Apart ∧
      ∀ {t' setting w}, Runs loopInsteadOfMessage t' setting w → t' = t ∧
      t.Contained setting w := by
  have hcheck : ((Template.read loopInsteadOfMessage).toOption.any fun t => t.nodeCount = 10) =
    true := by
    decide +kernel
  obtain ⟨t, hread, hcount⟩ := exists_ok_of_any hcheck
  exact ⟨t, hread, of_decide_eq_true hcount, indexed_of_read hread⟩

end Template

end PromptMarkup

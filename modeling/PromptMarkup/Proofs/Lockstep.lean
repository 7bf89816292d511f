/-
Walks that go on alike.

Two walks stand alike if they differ only in what cannot be told from inside of them: which slots
the values are in, which messages were made before, and what the journals hold.  One of them may
besides have more responses.

* `Bond` — by what two walks differ that stand alike;
* `Alike`, `Agree` — how they stand, and how they may end;
* `Congruent` — a computation that ends in agreement from states that are alike;
* `Node.congruent_walk` — the visit of a node is such a computation.

Design notes: if the second walk pauses and the first has responses left, the first goes on alone;
all that is said then is that the problems of the second are among those of the first.
-/
import PromptMarkup.Proofs.Footprint
import PromptMarkup.Proofs.Renaming

namespace PromptMarkup

open PromptMarkup.Computation Walking

/-! ### Events, statuses and names -/

/-- The evaluations among events. -/
def evaluations (events : List Event) : List Event :=
  events.filter Event.isEvaluation

@[simp] theorem evaluations_cons_of_not {e : Event} (h : e.isEvaluation = false)
    (events : List Event) : evaluations (e :: events) = evaluations events := by
  simp [evaluations, h]

theorem evaluations_append (l r : List Event) :
    evaluations (l ++ r) = evaluations l ++ evaluations r :=
  List.filter_append _ _

theorem evaluations_reverse (events : List Event) :
    evaluations events.reverse = (evaluations events).reverse := by
  rw [evaluations, List.filter_reverse]
  rfl

theorem Scope.Renamed.named {rho : Nat → Nat} {s t : Scope} (h : s.Renamed rho t)
    (name : Option String) (response : String) :
    (named name response s).Renamed rho (named name response t) := by
  cases name with
  | none => exact h
  | some name => exact h.set name _

/-- The same status with the names in other slots. -/
def NodeStatus.renamed (rho : Nat → Nat) (s : NodeStatus) : NodeStatus :=
  { s with paused := s.paused.map fun p => { p with pointers := p.pointers.renamed rho } }

/-- Names in slots that stay where they are. -/
theorem NodeStatus.renamed_of_below {rho : Nat → Nat} {s : NodeStatus} {bound : Nat}
    (h : ∀ point, s.paused = some point → Pointers.Below point.pointers bound)
    (hrho : ∀ i, i < bound → rho i = i) : s.renamed rho = s := by
  obtain ⟨completedAt, paused, decision⟩ := s
  cases paused with
  | none => rfl
  | some point => rw [renamed, Option.map_some, Pointers.renamed_of_below (h point rfl) hrho]

@[simp] theorem NodeStatus.renamed_id (s : NodeStatus) : s.renamed (fun i => i) = s := by
  obtain ⟨completedAt, paused, decision⟩ := s
  cases paused with
  | none => rfl
  | some point => rw [renamed, Option.map_some, Pointers.renamed_id]

/-- By what two walks differ that stand alike. -/
structure Bond where
  /-- In which slots the second walk has the values of the first. -/
  rename : Nat → Nat
  /-- The responses that only the first walk has. -/
  more : List String
  /-- The messages that only the first walk has made. -/
  ahead : List Message
  /-- The evaluations that only the first walk has made, the last first. -/
  seen : List Event

/-- Two walks stand alike, apart from the statuses of the visits that are held. -/
structure Alike (K : Bond) (held : List Nat) (b c : Walk) : Prop where
  size : c.statuses.nodes.size = b.statuses.nodes.size
  statuses : ∀ id, id ∉ held →
    c.statuses.ofNode id = (b.statuses.ofNode id).renamed K.rename
  scope : b.scope.Renamed K.rename c.scope
  responses : b.responses = c.responses ++ K.more
  messages : b.messages = K.ahead ++ c.messages
  evaluations : evaluations b.journal = evaluations c.journal ++ K.seen
  stray : c.stray = b.stray
  content : c.content = b.content
  toolCalls : c.toolCalls = b.toolCalls
  inMessage : c.inMessage = b.inMessage
  inContent : c.inContent = b.inContent
  inStep : c.inStep = b.inStep
  inArguments : c.inArguments = b.inArguments
  turns : c.turns = b.turns
  problems : c.problems = b.problems

/-- Two walks have done the same, apart from what was done before. -/
structure Told (K : Bond) (b c : Walk) : Prop where
  messages : b.messages = K.ahead ++ c.messages
  evaluations : evaluations b.journal = evaluations c.journal ++ K.seen
  problems : c.problems = b.problems

/-- The first walk has done what the second has, and perhaps more. -/
structure Ahead (K : Bond) (b c : Walk) : Prop where
  problems : c.problems <+: b.problems
  evaluations : evaluations c.journal ++ K.seen <:+ evaluations b.journal

/-- How two walks may end that started alike. -/
inductive Agree {α : Type} (K : Bond) (held : List Nat) :
    Except Interrupt α × Walk → Except Interrupt α × Walk → Prop
  | ok {a : α} {b c : Walk} (h : Alike K held b c) : Agree K held (.ok a, b) (.ok a, c)
  | failed {p : Problem} {b c : Walk} :
      Agree K held (.error (.failed p), b) (.error (.failed p), c)
  | paused {config : Fields Json} {b c : Walk} (hmore : K.more = []) (h : Told K b c) :
      Agree K held (.error (.paused config), b) (.error (.paused config), c)
  | short {result : Except Interrupt α} {config : Fields Json} {b c : Walk} (hmore : K.more ≠ [])
      (h : Ahead K b c) : Agree K held (result, b) (.error (.paused config), c)

/-- What one walk has done is the start of what another one has done. -/
structure Walk.Before (w t : Walk) : Prop where
  problems : w.problems <+: t.problems
  evaluations : evaluations w.journal <:+ evaluations t.journal

/-- A computation only adds problems and evaluations. -/
def Grows {α : Type} (x : Walking α) : Prop :=
  ∀ w : Walk, w.Before (runFrom w x).2

/-- A computation ends in agreement from states that are alike. -/
structure Congruent {α : Type} (K : Bond) (held : List Nat) (x : Walking α) : Prop where
  agree : ∀ b c, Alike K held b c → Agree K held (runFrom b x) (runFrom c x)
  grows : Grows x

variable {K : Bond} {held : List Nat} {b c : Walk} {α β : Type}

theorem Alike.hold (h : Alike K held b c) (id : Nat) : Alike K (id :: held) b c :=
  { h with statuses := fun _ hid => h.statuses _ fun hmem => hid (List.mem_cons_of_mem _ hmem) }

theorem Walk.Before.refl (w : Walk) : w.Before w :=
  ⟨List.prefix_rfl, List.suffix_rfl⟩

theorem Walk.Before.trans {u v w : Walk} (h : u.Before v) (h' : v.Before w) : u.Before w :=
  ⟨h.problems.trans h'.problems, h.evaluations.trans h'.evaluations⟩

theorem Ahead.trans {b' : Walk} (h : Ahead K b c) (hb : b.Before b') : Ahead K b' c :=
  ⟨h.problems.trans hb.problems, h.evaluations.trans hb.evaluations⟩

/-! ### Computations -/

theorem Grows.bind {x : Walking α} {f : α → Walking β} (hx : Grows x) (hf : ∀ a, Grows (f a)) :
    Grows (x >>= f) := by
  intro w
  have h := hx w
  rcases hrun : runFrom w x with ⟨e | a, t⟩
  · rw [runFrom_bind_error hrun]
    rwa [hrun] at h
  · rw [runFrom_bind_ok hrun]
    rw [hrun] at h
    exact h.trans (hf a t)

/-- Two walks that agree still agree after they have gone on with the same computation. -/
theorem Agree.bind {x y : Walking α} {f : α → Walking β}
    (hxy : Agree K held (runFrom b x) (runFrom c y)) (hf : ∀ a, Congruent K held (f a)) :
    Agree K held (runFrom b (x >>= f)) (runFrom c (y >>= f)) := by
  rcases hb : runFrom b x with ⟨rb, b'⟩
  rcases hc : runFrom c y with ⟨rc, c'⟩
  rw [hb, hc] at hxy
  cases hxy with
  | ok h =>
    rw [runFrom_bind_ok hb, runFrom_bind_ok hc]
    exact (hf _).agree _ _ h
  | failed =>
    rw [runFrom_bind_error hb, runFrom_bind_error hc]
    exact .failed
  | paused hmore h =>
    rw [runFrom_bind_error hb, runFrom_bind_error hc]
    exact .paused hmore h
  | short hmore h =>
    rw [runFrom_bind_error hc]
    rcases rb with e | a
    · rw [runFrom_bind_error hb]
      exact .short hmore h
    · -- the first walk goes on alone
      rw [runFrom_bind_ok hb]
      exact .short hmore (h.trans ((hf a).grows b'))

namespace Congruent

theorem pure (a : α) : Congruent K held (pure a) :=
  ⟨fun _ _ h => .ok h, fun w => .refl w⟩

theorem bind {x : Walking α} {f : α → Walking β} (hx : Congruent K held x)
    (hf : ∀ a, Congruent K held (f a)) : Congruent K held (x >>= f) :=
  ⟨fun b c h => (hx.agree b c h).bind hf, hx.grows.bind fun a => (hf a).grows⟩

theorem failed (p : Problem) : Congruent K held (throw (.failed p) : Walking α) :=
  ⟨fun _ _ _ => .failed, fun w => .refl w⟩

theorem fail (fault : Fault) (info : NodeInfo) :
    Congruent K held (Walking.fail fault info : Walking α) :=
  failed _

theorem look {part : Walk → α} (hpart : ∀ b c, Alike K held b c → part c = part b) :
    Congruent K held (Computation.look part : Walking α) := by
  refine ⟨fun b c h => ?_, fun w => .refl w⟩
  rw [runFrom_look, runFrom_look, hpart b c h]
  exact .ok h

/-- A change that adds no problem and no evaluation. -/
theorem change {f : Walk → Walk} (hf : ∀ b c, Alike K held b c → Alike K held (f b) (f c))
    (hsame : ∀ w : Walk, (f w).problems = w.problems ∧ (f w).journal = w.journal) :
    Congruent K held (modify f : Walking PUnit) := by
  refine ⟨fun b c h => .ok (hf b c h), fun w => ⟨?_, ?_⟩⟩
  · show w.problems <+: (f w).problems
    rewrite [(hsame w).1]
    exact List.prefix_rfl
  · show evaluations w.journal <:+ evaluations (f w).journal
    rewrite [(hsame w).2]
    exact List.suffix_rfl

theorem modify {f : Walk → Walk} (hf : ∀ b c, Alike K held b c → Alike K held (f b) (f c))
    (hgrows : ∀ w : Walk, w.Before (f w)) :
    Congruent K held (modify f : Walking PUnit) :=
  ⟨fun b c h => .ok (hf b c h), hgrows⟩

/-! ### Leaves -/

variable {setting : Setting} {id : Nat} {path : IterationPath}

theorem report (fault : Fault) (start stop : Nat) :
    Congruent K held (Walking.report fault start stop) :=
  modify (fun _ _ h => { h with problems := by rw [h.problems] }) fun _ =>
    ⟨List.prefix_append _ _, List.suffix_rfl⟩

theorem note {e : Event} (he : e.isEvaluation = false) : Congruent K held (Walking.note e) := by
  refine modify (fun b c h => { h with evaluations := ?_ }) fun w => ⟨List.prefix_rfl, ?_⟩
  · rw [evaluations_cons_of_not he, evaluations_cons_of_not he, h.evaluations]
  · rewrite [evaluations_cons_of_not he]
    exact List.suffix_rfl

theorem write (id : Nat) (path : IterationPath) (text : String) :
    Congruent K held (Walking.write id path text) := by
  refine bind (change (fun b c h => { h with stray := ?_ }) fun _ => ⟨rfl, rfl⟩) fun _ => ?_
  · rw [h.stray]
  · exact bind (look fun b c h => h.inArguments) fun _ => note rfl

theorem setVariable (name : String) (v : Value) :
    Congruent K held (Walking.setVariable name v) :=
  change (fun _ _ h => { h with scope := h.scope.set name v }) fun _ => ⟨rfl, rfl⟩

theorem evaluate (setting : Setting) (id : Nat) (path : IterationPath) (e : Expr) :
    Congruent K held (Walking.evaluate setting id path e) := by
  refine ⟨fun b c h => ?_, fun w => ?_⟩
  · obtain ⟨hresult, hscope⟩ := e.uniform_evaluate K.rename setting.host b.scope c.scope h.scope
    -- both evaluations are recorded with the same names
    have hnames : c.scope.pointers.keys = b.scope.pointers.keys := by
      rw [h.scope.pointers, Pointers.keys_renamed]
    have halike : ∀ {sb sc : Scope}, sb.Renamed K.rename sc →
        Alike K held (evaluatedIn b id path e sb) (evaluatedIn c id path e sc) := by
      intro sb sc hs
      refine { h with scope := hs, evaluations := ?_ }
      show _ :: PromptMarkup.evaluations b.journal =
        _ :: PromptMarkup.evaluations c.journal ++ K.seen
      rw [h.evaluations, hnames]
      rfl
    rw [runFrom_evaluate, runFrom_evaluate]
    rcases hb : runFrom b.scope (e.evaluate setting.host) with ⟨p | v, sb⟩
    · rcases hc : runFrom c.scope (e.evaluate setting.host) with ⟨p' | v', sc⟩
      · rw [hb, hc] at hresult
        obtain rfl : p = p' := by simpa using hresult
        exact .failed
      · rw [hb, hc] at hresult
        exact nomatch hresult
    · rcases hc : runFrom c.scope (e.evaluate setting.host) with ⟨p' | v', sc⟩
      · rw [hb, hc] at hresult
        exact nomatch hresult
      · rw [hb, hc] at hresult hscope
        obtain rfl : v = v' := by simpa using hresult
        exact .ok (halike hscope)
  · rw [runFrom_evaluate]
    rcases runFrom w.scope (e.evaluate setting.host) with ⟨p | v, s⟩
    · exact ⟨List.prefix_rfl, List.suffix_cons _ _⟩
    · exact ⟨List.prefix_rfl, List.suffix_cons _ _⟩

theorem takesBranch (setting : Setting) {id : Nat} (hid : id ∉ held) (path : IterationPath)
    (condition : Expr) : Congruent K held (Walking.takesBranch setting id path condition) := by
  refine bind (look fun b c h => ?_) fun d => ?_
  · rw [h.statuses id hid]
    rfl
  · cases d with
    | branch taken => exact pure taken
    | _ => exact bind (evaluate setting id path condition) fun _ => pure _

theorem checkFree (info : NodeInfo) (name : String) :
    Congruent K held (Walking.checkFree info name) := by
  refine bind (look fun b c h => h.scope.sees name) fun seen => ?_
  split
  · exact fail _ _
  · exact pure _

theorem checkNames (info : NodeInfo) (header : ForHeader) :
    Congruent K held (Walking.checkNames info header) := by
  refine bind (checkFree info header.item) fun _ => ?_
  split
  · exact checkFree _ _
  · exact pure _

theorem takeItems (setting : Setting) {id : Nat} (hid : id ∉ held) (path : IterationPath)
    (iterable : Expr) : Congruent K held (Walking.takeItems setting id path iterable) := by
  refine bind (look fun b c h => ?_) fun d => ?_
  · rw [h.statuses id hid]
    rfl
  · cases d with
    | iteration items i v => exact pure _
    | _ => exact bind (evaluate setting id path iterable) fun _ => pure _

theorem setIndex (setting : Setting) (id : Nat) (path : IterationPath) (header : ForHeader)
    (i : Nat) (resumed : Option Value) :
    Congruent K held (Walking.setIndex setting id path header i resumed) := by
  unfold Walking.setIndex
  split
  · exact pure _
  · refine bind ?_ fun v => bind (setVariable _ v) fun _ => pure _
    unfold indexValue
    split
    · exact pure _
    · exact evaluate _ _ _ _
    · exact pure _

theorem partsText (setting : Setting) (id : Nat) (path : IterationPath)
    (parts : List AttributePart) : Congruent K held (Walking.partsText setting id path parts) := by
  induction parts with
  | nil => exact pure _
  | cons part rest ih =>
    cases part with
    | text s data => exact bind ih fun _ => pure _
    | expression e => exact bind (evaluate _ _ _ e) fun _ => bind ih fun _ => pure _

theorem attributeValue (setting : Setting) (id : Nat) (path : IterationPath) (a : Attribute) :
    Congruent K held (Walking.attributeValue setting id path a) := by
  unfold Walking.attributeValue
  split
  · exact pure _
  · exact evaluate _ _ _ _
  · exact bind (partsText _ _ _ _) fun _ => pure _

theorem attributeValues (setting : Setting) (id : Nat) (path : IterationPath)
    (attributes : List Attribute) :
    Congruent K held (Walking.attributeValues setting id path attributes) := by
  induction attributes with
  | nil => exact pure _
  | cons a rest ih =>
    exact bind (attributeValue setting id path a) fun _ => bind ih fun _ => pure _

theorem mustache (setting : Setting) (id : Nat) (path : IterationPath) (e : Expr) :
    Congruent K held (Walking.mustache setting id path e) := by
  refine bind (evaluate setting id path e) fun v => ?_
  cases v with
  | undefined => exact pure _
  | _ =>
    dsimp only
    split
    · exact pure _
    · exact write _ _ _

theorem messageRole (info : NodeInfo) (role : Option Role) (values : Fields Value) :
    Congruent K held (Walking.messageRole info role values) := by
  unfold Walking.messageRole
  repeat' split
  all_goals first | exact pure _ | exact fail _ _

theorem stepName (attributes : List Attribute) :
    Congruent K held (Walking.stepName attributes) := by
  unfold Walking.stepName
  repeat' split
  all_goals first | exact pure _ | exact failed _

theorem closedText {b c : Walk} (h : Alike K held b c) :
    Alike K held b.closedText c.closedText := by
  refine { h with stray := rfl, content := ?_ }
  show c.content ++ _ = b.content ++ _
  rw [h.content, h.stray]

theorem closeText : Congruent K held Walking.closeText :=
  change (fun _ _ h => closedText h) fun _ => ⟨rfl, rfl⟩

theorem emit (m : Message) : Congruent K held (Walking.emit m) := by
  refine change (fun b c h => { h with messages := ?_ }) fun _ => ⟨rfl, rfl⟩
  rw [h.messages, List.append_assoc]

theorem takeContent : Congruent K held Walking.takeContent := by
  refine bind closeText fun _ => bind (look fun b c h => ?_) fun _ => ?_
  · rw [h.content, h.toolCalls]
  · refine bind (change (fun b c h => ?_) fun _ => ⟨rfl, rfl⟩) fun _ => pure _
    exact { h with content := rfl, toolCalls := rfl }

theorem placeToolCalls (role : Role) (calls : List PendingCall) :
    Congruent K held (Walking.placeToolCalls role calls) := by
  unfold Walking.placeToolCalls
  split
  · exact pure _
  · refine bind ?_ fun _ => pure _
    induction calls with
    | nil => exact pure _
    | cons call rest ih => exact bind (report _ _ _) fun _ => ih

theorem closeMessage (setting : Setting) : Congruent K held (Walking.closeMessage setting) := by
  refine bind takeContent fun ⟨content, calls⟩ => ?_
  dsimp only
  split
  · exact pure _
  · exact bind (placeToolCalls _ _) fun _ => emit _

theorem place (id : Nat) (path : IterationPath) (content : Content) :
    Congruent K held (Walking.place id path content) :=
  bind (change (fun b c h => { h with content := by rw [h.content] }) fun _ => ⟨rfl, rfl⟩) fun _ =>
    note rfl

theorem call (id : Nat) (path : IterationPath) (pending : PendingCall) :
    Congruent K held (Walking.call id path pending) :=
  bind (change (fun b c h => { h with toolCalls := by rw [h.toolCalls] }) fun _ =>
    ⟨rfl, rfl⟩) fun _ =>
    note rfl

theorem placeContent (info : NodeInfo) (path : IterationPath) (kind : ContentKind) (text : String) :
    Congruent K held (Walking.placeContent info path kind text) := by
  cases kind with
  | text => exact place _ _ _
  | image =>
    unfold Walking.placeContent
    dsimp only
    split
    · exact fail _ _
    · exact place _ _ _

theorem toolArguments (info : NodeInfo) (text : String) :
    Congruent K held (Walking.toolArguments info text) := by
  unfold Walking.toolArguments
  dsimp only
  split
  · exact pure _
  · split
    · exact pure _
    · exact bind (report _ _ _) fun _ => pure _

theorem nameResponse (name : Option String) (response : String) :
    Congruent K held (Walking.nameResponse name response) := by
  cases name with
  | none => exact pure _
  | some name => exact setVariable _ _

end Congruent

/-! ### Parts of a walk -/

/-- A change of a state that is not told. -/
def Untold (f : Walk → Walk) : Prop :=
  ∀ w, (f w).messages = w.messages ∧ (f w).journal = w.journal ∧ (f w).problems = w.problems

theorem Told.after {f g : Walk → Walk} (h : Told K b c) (hf : Untold f) (hg : Untold g) :
    Told K (f b) (g c) := by
  obtain ⟨hfm, hfj, hfp⟩ := hf b
  obtain ⟨hgm, hgj, hgp⟩ := hg c
  refine ⟨?_, ?_, ?_⟩
  · rw [hfm, hgm, h.messages]
  · rw [hfj, hgj, h.evaluations]
  · rw [hfp, hgp, h.problems]

theorem Ahead.after {f g : Walk → Walk} (h : Ahead K b c) (hf : Untold f) (hg : Untold g) :
    Ahead K (f b) (g c) := by
  obtain ⟨-, hfj, hfp⟩ := hf b
  obtain ⟨-, hgj, hgp⟩ := hg c
  refine ⟨?_, ?_⟩
  · rw [hfp, hgp]
    exact h.problems
  · rw [hfj, hgj]
    exact h.evaluations

theorem Untold.same : Untold fun w => w :=
  fun _ => ⟨rfl, rfl, rfl⟩

namespace Agree

/-- Walks that end in agreement still agree after changes that are not told. -/
theorem after {rb rc : Except Interrupt α} {f g : Walk → Walk} (h : Agree K held (rb, b) (rc, c))
    (hf : Untold f) (hg : Untold g) (halike : Alike K held b c → Alike K held (f b) (g c)) :
    Agree K held (rb, f b) (rc, g c) := by
  cases h with
  | ok h => exact .ok (halike h)
  | failed => exact .failed
  | paused hmore h => exact .paused hmore (h.after hf hg)
  | short hmore h => exact .short hmore (h.after hf hg)

theorem hold {rb rc : Except Interrupt α × Walk} (h : Agree K held rb rc) (id : Nat) :
    Agree K (id :: held) rb rc := by
  cases h with
  | ok h => exact .ok (h.hold id)
  | failed => exact .failed
  | paused hmore h => exact .paused hmore h
  | short hmore h => exact .short hmore h

theorem within {there back : Walk → Walk} {x y : Walking Unit} (hback : Untold back)
    (halike : ∀ b c, Alike K held b c → Alike K held (back b) (back c))
    (h : Agree K held (runFrom (there b) x) (runFrom (there c) y)) :
    Agree K held (runFrom b (Walking.within there back x))
      (runFrom c (Walking.within there back y)) :=
  after h hback hback (halike _ _)

theorem inArguments {flag : Bool} {x y : Walking Unit} (hsame : c.inArguments = b.inArguments)
    (h : Agree K held (runFrom { b with inArguments := flag } x)
      (runFrom { c with inArguments := flag } y)) :
    Agree K held (runFrom b (Walking.inArguments flag x))
      (runFrom c (Walking.inArguments flag y)) := by
  rw [runFrom_inArguments, runFrom_inArguments, hsame]
  refine after (f := fun w => { w with inArguments := b.inArguments })
    (g := fun w => { w with inArguments := b.inArguments }) h ?_ ?_ fun halike => ?_
  · exact fun _ => ⟨rfl, rfl, rfl⟩
  · exact fun _ => ⟨rfl, rfl, rfl⟩
  · exact { halike with inArguments := rfl }

theorem inCopy {x y : Walking Unit}
    (hpointers : c.scope.pointers = b.scope.pointers.renamed K.rename)
    (h : Agree K held (runFrom b x) (runFrom c y)) :
    Agree K held (runFrom b (Walking.inCopy x)) (runFrom c (Walking.inCopy y)) := by
  rcases hb : runFrom b x with ⟨rb, b'⟩
  rcases hc : runFrom c y with ⟨rc, c'⟩
  rw [hb, hc] at h
  -- the ends are those of the inner part: only the names are put back, as they were alike before. A
  -- walk that waits for a response is short of the other one, which may go on
  cases h with
  | ok h =>
    rw [runFrom_inCopy_ok hb, runFrom_inCopy_ok hc]
    exact .ok { h with scope := ⟨h.scope.stash, hpointers⟩ }
  | failed =>
    rw [runFrom_inCopy_error hb, runFrom_inCopy_error hc]
    exact .failed
  | paused hmore h =>
    rw [runFrom_inCopy_error hb, runFrom_inCopy_error hc]
    exact .paused hmore h
  | short hmore h =>
    rw [runFrom_inCopy_error hc]
    rcases rb with e | ⟨⟩
    · rw [runFrom_inCopy_error hb]
      exact .short hmore h
    · rw [runFrom_inCopy_ok hb]
      exact .short hmore ⟨h.problems, h.evaluations⟩

theorem entering {turn : Turn} {x y : Walking Unit} (hturns : c.turns = b.turns)
    (h : Agree K held (runFrom (entered b turn) x) (runFrom (entered c turn) y)) :
    Agree K held (runFrom b (Walking.entering turn x)) (runFrom c (Walking.entering turn y)) := by
  rcases hb : runFrom (entered b turn) x with ⟨rb, b'⟩
  rcases hc : runFrom (entered c turn) y with ⟨rc, c'⟩
  rw [hb, hc] at h
  -- the ends are those of the inner part, and the turns are as they were
  cases h with
  | ok h =>
    rw [runFrom_entering_ok hb, runFrom_entering_ok hc]
    exact .ok { h with turns := hturns }
  | failed =>
    rw [runFrom_entering_error hb, runFrom_entering_error hc]
    exact .failed
  | paused hmore h =>
    rw [runFrom_entering_error hb, runFrom_entering_error hc]
    exact .paused hmore h
  | short hmore h =>
    rw [runFrom_entering_error hc]
    rcases rb with e | ⟨⟩
    · rw [runFrom_entering_error hb]
      exact .short hmore h
    · rw [runFrom_entering_ok hb]
      exact .short hmore ⟨h.problems, h.evaluations⟩

theorem onPause {f g : Walk → Walk} {x y : Walking Unit} (hf : Untold f) (hg : Untold g)
    (h : Agree K held (runFrom b x) (runFrom c y)) :
    Agree K held (runFrom b (Walking.onPause f x)) (runFrom c (Walking.onPause g y)) := by
  rcases hb : runFrom b x with ⟨rb, b'⟩
  rcases hc : runFrom c y with ⟨rc, c'⟩
  rw [hb, hc] at h
  -- what is noted at a pause is neither a message nor an evaluation
  cases h with
  | ok h =>
    rw [runFrom_onPause_ok hb, runFrom_onPause_ok hc]
    exact .ok h
  | failed =>
    rw [runFrom_onPause_failed hb, runFrom_onPause_failed hc]
    exact .failed
  | paused hmore h =>
    rw [runFrom_onPause_paused hb, runFrom_onPause_paused hc]
    exact .paused hmore (h.after hf hg)
  | short hmore h =>
    rw [runFrom_onPause_paused hc]
    rcases rb with (config | p) | ⟨⟩
    · rw [runFrom_onPause_paused hb]
      exact .short hmore (h.after hf hg)
    · rw [runFrom_onPause_failed hb]
      exact .short hmore (h.after .same hg)
    · rw [runFrom_onPause_ok hb]
      exact .short hmore (h.after .same hg)

theorem captured {x y : Walking Unit} (hstray : c.stray = b.stray)
    (h : Agree K held (runFrom { b with stray := "" } x) (runFrom { c with stray := "" } y)) :
    Agree K held (runFrom b (Walking.captured x)) (runFrom c (Walking.captured y)) := by
  rcases hb : runFrom { b with stray := "" } x with ⟨rb, b'⟩
  rcases hc : runFrom { c with stray := "" } y with ⟨rc, c'⟩
  rw [hb, hc] at h
  -- the text around is the same on both sides, and is put back on both
  cases h with
  | ok h =>
    rw [runFrom_captured_ok hb, runFrom_captured_ok hc, h.stray]
    exact .ok { h with stray := hstray }
  | failed =>
    rw [runFrom_captured_error hb, runFrom_captured_error hc]
    exact .failed
  | paused hmore h =>
    rw [runFrom_captured_error hb, runFrom_captured_error hc]
    exact .paused hmore ⟨h.messages, h.evaluations, h.problems⟩
  | short hmore h =>
    rw [runFrom_captured_error hc]
    rcases rb with e | ⟨⟩
    · rw [runFrom_captured_error hb]
      exact .short hmore ⟨h.problems, h.evaluations⟩
    · rw [runFrom_captured_ok hb]
      exact .short hmore ⟨h.problems, h.evaluations⟩

end Agree

/-! ### Parts only add to what was done -/

namespace Grows

variable {act : Walking Unit}

theorem within {there back : Walk → Walk} (hthere : Untold there) (hback : Untold back)
    (h : Grows act) : Grows (Walking.within there back act) := by
  intro w
  have hw := h (there w)
  obtain ⟨-, htherej, htherep⟩ := hthere w
  obtain ⟨-, hbackj, hbackp⟩ := hback (runFrom (there w) act).2
  rw [runFrom_within]
  refine ⟨?_, ?_⟩
  · rw [hbackp, ← htherep]
    exact hw.problems
  · rw [hbackj, ← htherej]
    exact hw.evaluations

theorem inCopy (h : Grows act) : Grows (Walking.inCopy act) := by
  intro w
  have hw := h w
  rcases hrun : runFrom w act with ⟨e | ⟨⟩, t⟩
  · rw [runFrom_inCopy_error hrun]
    rwa [hrun] at hw
  · rw [runFrom_inCopy_ok hrun]
    rw [hrun] at hw
    exact ⟨hw.problems, hw.evaluations⟩

theorem entering (turn : Turn) (h : Grows act) : Grows (Walking.entering turn act) := by
  intro w
  have hstart : w.Before (entered w turn) := by
    refine ⟨List.prefix_rfl, ?_⟩
    rewrite [entered, evaluations_cons_of_not rfl]
    exact List.suffix_rfl
  have hw := hstart.trans (h (entered w turn))
  rcases hrun : runFrom (entered w turn) act with ⟨e | ⟨⟩, t⟩
  · rw [runFrom_entering_error hrun]
    rwa [hrun] at hw
  · rw [runFrom_entering_ok hrun]
    rw [hrun] at hw
    exact ⟨hw.problems, hw.evaluations⟩

theorem onPause {record : Walk → Walk} (hrecord : Untold record) (h : Grows act) :
    Grows (Walking.onPause record act) := by
  intro w
  have hw := h w
  rcases hrun : runFrom w act with ⟨(config | p) | ⟨⟩, t⟩
  · obtain ⟨-, hj, hp⟩ := hrecord t
    rw [hrun] at hw
    rw [runFrom_onPause_paused hrun]
    refine ⟨?_, ?_⟩
    · rw [hp]
      exact hw.problems
    · rw [hj]
      exact hw.evaluations
  · rw [runFrom_onPause_failed hrun]
    rwa [hrun] at hw
  · rw [runFrom_onPause_ok hrun]
    rwa [hrun] at hw

theorem captured (h : Grows act) : Grows (Walking.captured act) := by
  intro w
  have hw := h { w with stray := "" }
  rcases hrun : runFrom { w with stray := "" } act with ⟨e | ⟨⟩, t⟩
  · rw [runFrom_captured_error hrun]
    rw [hrun] at hw
    exact ⟨hw.problems, hw.evaluations⟩
  · rw [runFrom_captured_ok hrun]
    rw [hrun] at hw
    exact ⟨hw.problems, hw.evaluations⟩

theorem visiting (id : Nat) (path : IterationPath) (h : Grows act) :
    Grows (Walking.visiting id path act) := by
  intro w
  have henter : w.Before (w.enter id path) := by
    unfold Walk.enter
    split
    · exact ⟨List.prefix_rfl, List.suffix_rfl⟩
    · exact ⟨List.prefix_rfl, List.suffix_rfl⟩
  rcases hover : w.statuses.completed id path with _ | _
  · have hend : ∀ u : Unit, Grows (modify fun t =>
        { t with statuses := t.statuses.complete id path } : Walking PUnit) :=
      fun _ _ => ⟨List.prefix_rfl, List.suffix_rfl⟩
    have hrecord : Untold fun t : Walk => { t with
        statuses := t.statuses.pause id path (w.enter id path).scope.pointers } :=
      fun _ => ⟨rfl, rfl, rfl⟩
    rw [runFrom_visiting hover]
    exact henter.trans (Grows.bind (onPause hrecord h) hend (w.enter id path))
  · rw [runFrom_visiting_over hover]
    exact .refl w

end Grows

/-! ### Visits -/

section Visits

variable {id : Nat} {path : IterationPath}

theorem Alike.completed (h : Alike K held b c) (hid : id ∉ held) (path : IterationPath) :
    c.statuses.completed id path = b.statuses.completed id path := by
  rw [Statuses.completed, h.statuses id hid]
  rfl

theorem Alike.pausedAt? (h : Alike K held b c) (hid : id ∉ held) (path : IterationPath) :
    c.statuses.pausedAt? id path =
      (b.statuses.pausedAt? id path).map (Pointers.renamed K.rename) := by
  unfold Statuses.pausedAt?
  rw [h.statuses id hid, NodeStatus.renamed]
  cases (b.statuses.ofNode id).paused with
  | none => rfl
  | some point =>
    dsimp only [Option.map]
    split
    · rfl
    · rfl

/-- The same change of a status on both sides. -/
theorem Alike.modifyNode (h : Alike K held b c) (id : Nat) {f : NodeStatus → NodeStatus}
    (hf : ∀ s, f (s.renamed K.rename) = (f s).renamed K.rename) :
    Alike K held { b with statuses := b.statuses.modifyNode id f }
      { c with statuses := c.statuses.modifyNode id f } := by
  refine { h with size := ?_, statuses := fun other hother => ?_ }
  · show (c.statuses.modifyNode id f).nodes.size = (b.statuses.modifyNode id f).nodes.size
    rw [Statuses.size_modifyNode, Statuses.size_modifyNode, h.size]
  · show (c.statuses.modifyNode id f).ofNode other =
      ((b.statuses.modifyNode id f).ofNode other).renamed K.rename
    by_cases heq : other = id
    · subst heq
      by_cases hlt : other < b.statuses.nodes.size
      · rw [Statuses.ofNode_modifyNode _ _ _ hlt, Statuses.ofNode_modifyNode _ _ _ (h.size ▸ hlt),
          h.statuses other hother, hf]
      · have hle : b.statuses.nodes.size ≤ other := Nat.le_of_not_lt hlt
        rw [Statuses.modifyNode_of_le _ _ _ hle, Statuses.modifyNode_of_le _ _ _ (h.size ▸ hle),
          h.statuses other hother]
    · rw [Statuses.ofNode_modifyNode_of_ne _ _ _ heq, Statuses.ofNode_modifyNode_of_ne _ _ _ heq,
        h.statuses other hother]

theorem Alike.enter (h : Alike K held b c) (hid : id ∉ held) (path : IterationPath) :
    Alike K held (b.enter id path) (c.enter id path) := by
  unfold Walk.enter
  rw [h.pausedAt? hid path]
  cases b.statuses.pausedAt? id path with
  | none => exact h.modifyNode id fun _ => rfl
  | some pointers => exact { h with scope := ⟨h.scope.stash, rfl⟩ }

/-- At the end of a visit nothing is left of what was held during it. -/
theorem Alike.complete (h : Alike K (id :: held) b c) (path : IterationPath) :
    Alike K held { b with statuses := b.statuses.complete id path }
      { c with statuses := c.statuses.complete id path } := by
  refine { h with size := ?_, statuses := fun other hother => ?_ }
  · show (c.statuses.complete id path).nodes.size = (b.statuses.complete id path).nodes.size
    rw [Statuses.size_complete, Statuses.size_complete, h.size]
  · show (c.statuses.complete id path).ofNode other =
      ((b.statuses.complete id path).ofNode other).renamed K.rename
    -- the status of the node is new on both sides, that of any other one as it was
    by_cases heq : other = id
    · subst heq
      by_cases hlt : other < b.statuses.nodes.size
      · rw [Statuses.ofNode_complete _ hlt, Statuses.ofNode_complete _ (h.size ▸ hlt)]
        rfl
      -- a number out of range has no status to change
      · have hle : b.statuses.nodes.size ≤ other := Nat.le_of_not_lt hlt
        rw [Statuses.ofNode_of_le (b.statuses.complete other path) other (by simpa using hle),
          Statuses.ofNode_of_le (c.statuses.complete other path) other
          (by simpa [h.size] using hle)]
        rfl
    · rw [Statuses.ofNode_complete_of_ne _ heq, Statuses.ofNode_complete_of_ne _ heq,
        h.statuses other fun hmem => ?_]
      rcases List.mem_cons.1 hmem with hmem | hmem
      · exact heq hmem
      · exact hother hmem

/-- Two visits that start agree if what is done in them agrees. -/
theorem Agree.visiting {x y : Walking Unit} (hb : b.statuses.completed id path = false)
    (hc : c.statuses.completed id path = false)
    (h : Agree K (id :: held) (runFrom (b.enter id path) x) (runFrom (c.enter id path) y)) :
    Agree K held (runFrom b (Walking.visiting id path x))
      (runFrom c (Walking.visiting id path y)) := by
  -- where a visit pauses, only its status is noted
  have untold : ∀ pointers, Untold fun w : Walk =>
      { w with statuses := w.statuses.pause id path pointers } :=
    fun _ _ => ⟨rfl, rfl, rfl⟩
  have h' := h.onPause (untold (b.enter id path).scope.pointers)
    (untold (c.enter id path).scope.pointers)
  rw [runFrom_visiting hb, runFrom_visiting hc]
  rcases hrb : runFrom (b.enter id path) (Walking.onPause (fun w => { w with
    statuses := w.statuses.pause id path (b.enter id path).scope.pointers }) x) with ⟨rb, b'⟩
  rcases hrc : runFrom (c.enter id path) (Walking.onPause (fun w => { w with
    statuses := w.statuses.pause id path (c.enter id path).scope.pointers }) y) with ⟨rc, c'⟩
  rw [hrb, hrc] at h'
  cases h' with
  | ok h' =>
    rw [runFrom_bind_ok hrb, runFrom_bind_ok hrc]
    exact .ok (h'.complete path)
  | failed =>
    rw [runFrom_bind_error hrb, runFrom_bind_error hrc]
    exact .failed
  | paused hmore h' =>
    rw [runFrom_bind_error hrb, runFrom_bind_error hrc]
    exact .paused hmore h'
  | short hmore h' =>
    rw [runFrom_bind_error hrc]
    rcases rb with e | ⟨⟩
    · rw [runFrom_bind_error hrb]
      exact .short hmore h'
    · rw [runFrom_bind_ok hrb]
      exact .short hmore ⟨h'.problems, h'.evaluations⟩

end Visits

/-! ### Blocks and elements -/

namespace Congruent

variable {setting : Setting} {id : Nat} {path : IterationPath} {body otherwise : Walking Unit}

theorem inCopy {act : Walking Unit} (h : Congruent K held act) :
    Congruent K held (Walking.inCopy act) :=
  ⟨fun b c halike => (h.agree b c halike).inCopy halike.scope.pointers, h.grows.inCopy⟩

theorem entering (turn : Turn) {act : Walking Unit} (h : Congruent K held act) :
    Congruent K held (Walking.entering turn act) := by
  refine ⟨fun _ _ halike => Agree.entering halike.turns (h.agree _ _ ?_), h.grows.entering turn⟩
  refine { halike with evaluations := ?_, turns := by rw [entered, entered, halike.turns] }
  rw [entered, entered, evaluations_cons_of_not rfl, evaluations_cons_of_not rfl,
    halike.evaluations]

theorem onPause {record : Walk → Walk} {act : Walking Unit} (hrecord : Untold record)
    (h : Congruent K held act) : Congruent K held (Walking.onPause record act) :=
  ⟨fun b c halike => (h.agree b c halike).onPause hrecord hrecord, h.grows.onPause hrecord⟩

theorem within {there back : Walk → Walk} {act : Walking Unit} (hthere : Untold there)
    (hback : Untold back) (halike : ∀ b c, Alike K held b c → Alike K held (there b) (there c))
    (halike' : ∀ b c, Alike K held b c → Alike K held (back b) (back c))
    (h : Congruent K held act) : Congruent K held (Walking.within there back act) :=
  ⟨fun b c hbc => Agree.within hback halike' (h.agree _ _ (halike b c hbc)),
    h.grows.within hthere hback⟩

theorem inArguments (flag : Bool) {act : Walking Unit} (h : Congruent K held act) :
    Congruent K held (Walking.inArguments flag act) := by
  refine bind (look fun _ _ h => h.inArguments) fun outer => ?_
  refine within (fun _ => ⟨rfl, rfl, rfl⟩) (fun _ => ⟨rfl, rfl, rfl⟩) (fun b c h => ?_)
    (fun b c h => ?_) h
  · exact { h with inArguments := rfl }
  · exact { h with inArguments := rfl }

theorem captured {act : Walking Unit} (h : Congruent K held act) :
    Congruent K held (Walking.captured act) :=
  ⟨fun _ _ halike => Agree.captured halike.stray (h.agree _ _ { halike with stray := rfl }),
    h.grows.captured⟩

theorem visiting (hid : id ∉ held) {act : Walking Unit} (h : Congruent K held act) :
    Congruent K held (Walking.visiting id path act) := by
  refine ⟨fun b c halike => ?_, h.grows.visiting id path⟩
  have hsame : c.statuses.completed id path = b.statuses.completed id path :=
    halike.completed hid path
  rcases hb : b.statuses.completed id path with _ | _
  · exact Agree.visiting hb (hsame.trans hb) ((h.agree _ _ (halike.enter hid path)).hold id)
  · rw [runFrom_visiting_over hb, runFrom_visiting_over (hsame.trans hb)]
    exact .ok halike

theorem ifBlock (hid : id ∉ held) {condition : Expr} (hbody : Congruent K held body)
    (hotherwise : Congruent K held otherwise) :
    Congruent K held (Walking.ifBlock setting id path condition body otherwise) := by
  refine bind (takesBranch setting hid path condition) fun taken => ?_
  refine onPause (fun _ => ⟨rfl, rfl, rfl⟩) (entering _ ?_)
  split
  · exact hbody.inCopy
  · exact hotherwise

theorem iteration {header : ForHeader} {items : List Value} {body : IterationPath → Walking Unit}
    (hbody : ∀ inner, Congruent K held (body inner)) (i : Nat) (resumed : Option Value)
    (item : Value) :
    Congruent K held (Walking.iteration setting id path header items body i resumed item) := by
  refine entering _ (inCopy ?_)
  exact bind (setVariable _ _) fun _ => bind (setIndex _ _ _ _ _ _) fun _ =>
    onPause (fun _ => ⟨rfl, rfl, rfl⟩) (hbody _)

theorem iterations {header : ForHeader} {items : List Value} {body : IterationPath → Walking Unit}
    (hbody : ∀ inner, Congruent K held (body inner)) (i : Nat) (resumed : Option Value)
    (rest : List Value) :
    Congruent K held (Walking.iterations setting id path header items body i resumed rest) := by
  induction rest generalizing i resumed with
  | nil => exact pure _
  | cons item rest ih => exact bind (iteration hbody i resumed item) fun _ => ih _ _

theorem forBlock {info : NodeInfo} (hid : info.id ∉ held) {header : ForHeader}
    {body : IterationPath → Walking Unit} (hbody : ∀ inner, Congruent K held (body inner))
    (hotherwise : Congruent K held otherwise) :
    Congruent K held (Walking.forBlock setting info path header body otherwise) := by
  refine bind (checkNames info header) fun _ => ?_
  refine bind (takeItems setting hid path header.iterable) fun loop => ?_
  split
  · exact hotherwise.entering _
  · exact iterations hbody _ _ _

variable {info : NodeInfo} {attributes : List Attribute}

theorem message {role : Option Role} (hbody : Congruent K held body) :
    Congruent K held (Walking.message setting info path role attributes body) := by
  refine bind (look fun b c h => h.inMessage) fun inMessage => ?_
  split
  · exact fail _ _
  · refine bind (attributeValues _ _ _ _) fun values => bind (messageRole _ _ _) fun role => ?_
    dsimp only
    generalize (if role = Role.tool then textOf? values "id" else none) = toolId
    split
    · exact fail _ _
    · refine bind (closeMessage setting) fun _ => bind ?_ fun _ => ?_
      · refine within (fun _ => ⟨rfl, rfl, rfl⟩) (fun _ => ⟨rfl, rfl, rfl⟩) (fun b c h => ?_)
          (fun b c h => ?_) (hbody.inArguments false)
        · exact { h with inMessage := rfl }
        · exact { h with inMessage := rfl }
      · exact bind takeContent fun _ => bind (placeToolCalls _ _) fun _ => emit _

theorem contentTag {kind : ContentKind} (hbody : Congruent K held body) :
    Congruent K held (Walking.contentTag setting info path kind attributes body) := by
  refine bind (look fun b c h => h.inContent) fun inContent => ?_
  split
  · exact fail _ _
  · refine bind (attributeValues _ _ _ _) fun _ => bind closeText fun _ => bind ?_ fun _ => ?_
    · refine within (fun _ => ⟨rfl, rfl, rfl⟩) (fun _ => ⟨rfl, rfl, rfl⟩) (fun b c h => ?_)
        (fun b c h => ?_) (hbody.inArguments false)
      · exact { h with inContent := rfl }
      · exact { h with inContent := rfl }
    · refine bind (look fun b c h => h.stray) fun stray => bind ?_ fun _ => placeContent _ _ _ _
      exact change (fun b c h => { h with stray := rfl }) fun _ => ⟨rfl, rfl⟩

theorem toolCall (hbody : Congruent K held body) :
    Congruent K held (Walking.toolCall setting info path attributes body) := by
  refine bind (look fun b c h => h.inContent) fun inContent => ?_
  split
  · exact fail _ _
  · refine bind (attributeValues _ _ _ _) fun values => ?_
    split
    · exact fail _ _
    · exact fail _ _
    · exact bind (captured (hbody.inArguments true)) fun text =>
        bind (toolArguments _ _) fun arguments => call _ _ _

theorem closed {b c : Walk} (h : Alike K held b c) (setting : Setting) :
    Alike K held (b.closed setting) (c.closed setting) := by
  have hclose := (closeMessage setting).agree b c h
  rw [runFrom_closeMessage, runFrom_closeMessage] at hclose
  cases hclose with
  | ok h => exact h

theorem reply (setting : Setting) (name : Option String) (response : String) :
    Congruent K held (Walking.reply setting name response) :=
  bind (nameResponse name response) fun _ => bind (closeMessage setting) fun _ => emit _

theorem takeResponse (id : Nat) (path : IterationPath) (name : Option String)
    (config : Fields Json) :
    Congruent K held (Walking.takeResponse setting id path name config) := by
  refine ⟨fun b c h => ?_, fun w => ?_⟩
  · have hresponses := h.responses
    have hclosed := closed h setting
    rcases hc : c.responses with _ | ⟨response, rest⟩
    · rw [hc, List.nil_append] at hresponses
      rw [runFrom_takeResponse_nil hc]
      rcases hmore : K.more with _ | ⟨response, rest⟩
      · rw [runFrom_takeResponse_nil (hresponses.trans hmore)]
        refine .paused hmore ⟨hclosed.messages, ?_, hclosed.problems⟩
        rw [waiting, waiting, evaluations_cons_of_not rfl, evaluations_cons_of_not rfl,
          hclosed.evaluations]
      · -- the first walk takes a response, which has the same effect on what is pending
        rw [runFrom_takeResponse_cons (hresponses.trans hmore)]
        unfold replied
        rw [closed_answered]
        refine .short (by simp [hmore]) ⟨?_, ?_⟩
        · show (c.closed setting).problems <+: (b.closed setting).problems
          rewrite [hclosed.problems]
          exact List.prefix_rfl
        · show evaluations (_ :: (c.closed setting).journal) ++ K.seen <:+
            evaluations (_ :: (b.closed setting).journal)
          rewrite [evaluations_cons_of_not rfl, evaluations_cons_of_not rfl, hclosed.evaluations]
          exact List.suffix_rfl
    · rw [hc, List.cons_append] at hresponses
      rw [runFrom_takeResponse_cons hc, runFrom_takeResponse_cons hresponses, ← runFrom_reply,
        ← runFrom_reply]
      refine (reply setting name response).agree _ _ { h with responses := rfl, evaluations := ?_ }
      rw [answered, answered, evaluations_cons_of_not rfl, evaluations_cons_of_not rfl,
        h.evaluations]
  · have hclosed : evaluations w.journal <:+ evaluations (w.closed setting).journal := by
      rewrite [Walk.closed_eq]
      exact List.suffix_rfl
    rcases hw : w.responses with _ | ⟨response, rest⟩
    · rw [runFrom_takeResponse_nil hw]
      refine ⟨w.prefix_closed setting, ?_⟩
      rw [waiting, evaluations_cons_of_not rfl]
      exact hclosed
    · rw [runFrom_takeResponse_cons hw]
      unfold replied
      rw [closed_answered]
      refine ⟨w.prefix_closed setting, ?_⟩
      show evaluations w.journal <:+ evaluations (_ :: (w.closed setting).journal)
      rw [evaluations_cons_of_not rfl]
      exact hclosed

theorem stepConfig (setting : Setting) (hid : id ∉ held) (path : IterationPath)
    (attributes : List Attribute) :
    Congruent K held (Walking.stepConfig setting id path attributes) := by
  have hvalues : Congruent K held (do
      let values ← Walking.attributeValues setting id path (Attribute.others attributes "as")
      return values.map fun value => (value.1, value.2.toJson)) :=
    bind (attributeValues _ _ _ _) fun _ => pure _
  -- a step that was paused at has had its attributes evaluated, any other one has not
  have hnone : ∀ w : Walk, w.statuses.pausedAt? id path = none →
      runFrom w (Walking.stepConfig setting id path attributes) = runFrom w (do
        let values ← Walking.attributeValues setting id path (Attribute.others attributes "as")
        return values.map fun value => (value.1, value.2.toJson)) := by
    intro w hw
    unfold Walking.stepConfig
    rw [runFrom_bind_ok (runFrom_look w _), hw]
  have hsome : ∀ (w : Walk) (pointers : Pointers), w.statuses.pausedAt? id path = some pointers →
      runFrom w (Walking.stepConfig setting id path attributes) = (.ok [], w) := by
    intro w pointers hw
    unfold Walking.stepConfig
    rw [runFrom_bind_ok (runFrom_look w _), hw]
    rfl
  refine ⟨fun b c h => ?_, fun w => ?_⟩
  -- both walks know alike whether they have paused here
  · have hc := h.pausedAt? hid path
    cases hb : b.statuses.pausedAt? id path with
    | none =>
      rw [hb] at hc
      rw [hnone b hb, hnone c hc]
      exact hvalues.agree b c h
    | some pointers =>
      rw [hb] at hc
      rw [hsome b pointers hb, hsome c _ hc]
      exact .ok h
  · cases hw : w.statuses.pausedAt? id path with
    | none => exact hnone w hw ▸ hvalues.grows w
    | some pointers => exact hsome w pointers hw ▸ .refl w

theorem step (hid : info.id ∉ held) (hbody : Congruent K held body) :
    Congruent K held (Walking.step setting info path attributes body) := by
  refine bind (look fun _ _ h => h.inStep) fun inStep => ?_
  split
  · exact fail _ _
  · refine bind (look fun _ _ h => h.inMessage) fun inMessage => ?_
    split
    · exact fail _ _
    · refine bind (stepName attributes) fun name => bind (stepConfig setting hid path attributes)
        fun config => bind ?_ fun _ => takeResponse info.id path name config
      refine within (fun _ => ⟨rfl, rfl, rfl⟩) (fun _ => ⟨rfl, rfl, rfl⟩) (fun b c h => ?_)
        (fun b c h => ?_) hbody
      · exact { h with inStep := rfl }
      · exact { h with inStep := rfl }

theorem element (hid : info.id ∉ held) {name : String} (hbody : Congruent K held body) :
    Congruent K held (Walking.element setting info path name attributes body) := by
  unfold Walking.element
  split
  · exact message hbody
  · exact contentTag hbody
  · exact toolCall hbody
  · split
    · exact fail _ _
    · exact fail _ _
  · exact step hid hbody
  · exact bind (report _ _ _) fun _ => hbody

end Congruent

/-! ### Nodes -/

namespace Node

variable {setting : Setting}

theorem congruent_walkAll {ns : List Node} {path : IterationPath}
    (h : ∀ n ∈ ns, Congruent K held (n.walk setting path)) :
    Congruent K held (walkAll setting ns path) := by
  induction ns with
  | nil => exact Congruent.pure _
  | cons n rest ih =>
    exact Congruent.bind (h n List.mem_cons_self) fun _ =>
      ih fun m hm => h m (List.mem_cons_of_mem _ hm)

theorem congruent_walkElse {o : Option Node} {path : IterationPath}
    (h : ∀ n ∈ o.toList, Congruent K held (n.walk setting path)) :
    Congruent K held (walkElse setting o path) := by
  cases o with
  | none => exact Congruent.pure _
  | some n => exact h n (by simp)

/-- The visit of a node ends in agreement from states that are alike, if no visit of a node inside
is held. -/
theorem congruent_walk (n : Node) (h : ∀ id ∈ n.ids, id ∉ held) (path : IterationPath) :
    Congruent K held (n.walk setting path) := by
  -- the induction is on the tree; no number below the node is held
  induction n using Node.induct generalizing path with
  | step n ih =>
    have hid : n.id ∉ held := h n.id n.id_mem_ids
    have hchild : ∀ m ∈ n.childNodes, ∀ inner, Congruent K held (m.walk setting inner) :=
      fun m hm inner => ih m hm (fun id hid => h id
        (idsAll_childNodes_subset n (ids_subset_idsAll hm hid))) inner
    cases n with
    | fragment info children =>
      exact Congruent.visiting hid (congruent_walkAll fun m hm => hchild m hm path).inCopy
    | config info value raw => exact Congruent.visiting hid (Congruent.pure _)
    | comment info data => exact Congruent.visiting hid (Congruent.pure _)
    | text info data => exact Congruent.visiting hid (Congruent.write _ _ _)
    | mustache info e => exact Congruent.visiting hid (Congruent.mustache _ _ _ _)
    | ifBlock info condition elseIf children otherwise =>
      refine Congruent.visiting hid (Congruent.ifBlock hid ?_ ?_)
      · exact congruent_walkAll fun m hm => hchild m (List.mem_append_left _ hm) path
      · exact congruent_walkElse fun m hm => hchild m (List.mem_append_right _ hm) path
    | forBlock info header children otherwise =>
      refine Congruent.visiting hid (Congruent.forBlock hid (fun inner => ?_) ?_)
      · exact congruent_walkAll fun m hm => hchild m (List.mem_append_left _ hm) inner
      · exact congruent_walkElse fun m hm => hchild m (List.mem_append_right _ hm) path
    | element info name attributes children =>
      exact Congruent.visiting hid
        (Congruent.element hid (congruent_walkAll fun m hm => hchild m hm path))

end Node

end PromptMarkup

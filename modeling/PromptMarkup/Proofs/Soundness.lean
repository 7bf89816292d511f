/-
A prompt that was analyzed has no structural faults.

* `sound` — the law that a computation of a walk has only problems that depend on values;
* `Node.discreet_walk` — a node whose tags stand where they may is walked within this law;
* `Analyzer.no_structural_fault` — after an analysis that succeeded, neither the compilation of a
  prompt nor any step of its chain fails with a structural fault, whatever the parameters, the
  options and the responses are.

Design notes: the law holds from every state at the right place, so it does not matter which
statuses an earlier walk has left.
-/
import PromptMarkup.Proofs.Calls
import PromptMarkup.Proofs.Leaves
import PromptMarkup.Proofs.Placement
import PromptMarkup.Yaml.Document

namespace PromptMarkup

open PromptMarkup.Computation

/-- What is around the node that a walk is at. -/
def Walk.place (w : Walk) : Place :=
  ⟨w.inMessage, w.inContent, w.inStep⟩

/-- All problems that were recorded depend on values. -/
def Walk.Clean (w : Walk) : Prop :=
  ∀ p ∈ w.problems, p.fault.isStructural = false

/-- The law that all problems of a computation of a walk depend on values. -/
def sound : Law Interrupt Walk where
  done w t := t.place = w.place ∧ (w.Clean → t.Clean)
  stop w e t := (w.Clean → t.Clean) ∧ ∀ p, e = .failed p → p.fault.isStructural = false
  refl _ := ⟨rfl, fun h => h⟩
  trans h h' := ⟨h'.1.trans h.1, fun hw => h'.2 (h.2 hw)⟩
  back h h' := ⟨fun hw => h'.1 (h.2 hw), h'.2⟩

/-- A computation that keeps this law at a place. -/
def Discreet {α : Type} (p : Place) (x : Walking α) : Prop :=
  ∀ w, w.place = p → RespectsAt sound w x

namespace Walking

variable {α β : Type} {setting : Setting} {id : Nat} {path : IterationPath} {p p' : Place}

theorem discreet_of_respects {x : Walking α} (h : Respects sound x) : Discreet p x :=
  fun w _ => h w

theorem discreet_pure (a : α) : Discreet p (pure a) :=
  discreet_of_respects (Respects.pure a)

theorem discreet_bind {x : Walking α} {f : α → Walking β} (hx : Discreet p x)
    (hf : ∀ a, Discreet p (f a)) : Discreet p (x >>= f) :=
  fun w hw => (hx w hw).bind fun a t _ ht => hf a t (ht.1.trans hw)

theorem discreet_look {part : Walk → α} {f : α → Walking β}
    (h : ∀ w, w.place = p → Discreet p (f (part w))) : Discreet p (look part >>= f) :=
  fun w hw => RespectsAt.look_bind (h w hw w hw)

/-- A change that concerns neither the place nor the problems. -/
theorem discreet_modify {f : Walk → Walk}
    (h : ∀ w, (f w).place = w.place ∧ (f w).problems = w.problems) :
    Discreet p (modify f : Walking PUnit) := by
  refine discreet_of_respects (Respects.modify fun w => ⟨(h w).1, fun hw => ?_⟩)
  unfold Walk.Clean
  rw [(h w).2]
  exact hw

theorem discreet_leaf {sure still : Prop} {x : Walking α}
    (h : Respects (leaf id path sure still) x) (hsure : sure) : Discreet p x := by
  have hclean : ∀ {w t : Walk}, Leaf id path sure w t → w.Clean → t.Clean := by
    rintro w t hleaf hw q hq
    obtain ⟨more, hmore, hmoresure⟩ := hleaf.problems
    rw [hmore] at hq
    rcases List.mem_append.1 hq with hq | hq
    · exact hw q hq
    · exact hmoresure hsure q hq
  refine discreet_of_respects (Respects.weaken h (fun w t hd => ⟨?_, hclean hd.1⟩) ?_)
  · rw [hd.1.same]
    rfl
  · rintro w e t ⟨hd, q, rfl, hq⟩
    refine ⟨hclean hd, fun q' hq' => ?_⟩
    cases hq'
    exact hq hsure

theorem discreet_silent {sure still : Prop} {x : Walking α}
    (h : Respects (silent id path sure still) x) (hsure : sure) : Discreet p x :=
  discreet_leaf (leaf_of_silent h (fun hs => hs) fun hs => hs) hsure

theorem discreet_fail {fault : Fault} (h : fault.isStructural = false) (info : NodeInfo) :
    Discreet p (fail fault info : Walking α) :=
  discreet_of_respects (Respects.throw fun _ => ⟨fun hw => hw, fun q hq => by cases hq; exact h⟩)

/-! ### Parts of a walk -/

/-- A part of a walk at another place. -/
theorem discreet_within {there back : Walk → Walk} {act : Walking Unit}
    (hthere : ∀ w, w.place = p → (there w).place = p' ∧ (there w).problems = w.problems)
    (hback : ∀ w, w.place = p' → (back w).place = p)
    (hproblems : ∀ w, (back w).problems = w.problems) (h : Discreet p' act) :
    Discreet p (within there back act) := by
  intro w hw
  obtain ⟨hplace, hsame⟩ := hthere w hw
  have hact := h (there w) hplace
  -- neither way in nor way out of the wrapper reports a problem
  have hclean : ∀ {t : Walk}, ((there w).Clean → t.Clean) → w.Clean → (back t).Clean := by
    intro t ht hw
    unfold Walk.Clean at ht hw ⊢
    rw [hproblems]
    rw [hsame] at ht
    exact ht hw
  rcases hrun : runFrom (there w) act with ⟨e | ⟨⟩, t⟩
  · obtain ⟨hc, he⟩ := hact.stop hrun
    exact RespectsAt.of_error (by rw [runFrom_within, hrun]) ⟨hclean hc, he⟩
  · obtain ⟨ht, hc⟩ := hact.done hrun
    exact RespectsAt.of_ok (by rw [runFrom_within, hrun])
      ⟨(hback t (ht.trans hplace)).trans hw.symm, hclean hc⟩

theorem discreet_inArguments (flag : Bool) {act : Walking Unit} (h : Discreet p act) :
    Discreet p (inArguments flag act) :=
  discreet_look fun _ _ => discreet_within (fun _ hw => ⟨hw, rfl⟩) (fun _ hw => hw) (fun _ => rfl) h

theorem discreet_inCopy {act : Walking Unit} (h : Discreet p act) : Discreet p (inCopy act) :=
  discreet_look fun _ _ => discreet_bind h fun _ => discreet_modify fun _ => ⟨rfl, rfl⟩

theorem discreet_entering {turn : Turn} {act : Walking Unit} (h : Discreet p act) :
    Discreet p (entering turn act) :=
  discreet_bind (discreet_modify fun _ => ⟨rfl, rfl⟩) fun _ =>
    discreet_look fun _ _ => discreet_bind (discreet_modify fun _ => ⟨rfl, rfl⟩) fun _ =>
      discreet_bind h fun _ => discreet_modify fun _ => ⟨rfl, rfl⟩

theorem discreet_captured {act : Walking Unit} (h : Discreet p act) :
    Discreet p (captured act) := by
  intro w hw
  have hact := h { w with stray := "" } hw
  rcases hrun : runFrom { w with stray := "" } act with ⟨e | ⟨⟩, t⟩
  · obtain ⟨hc, he⟩ := hact.stop hrun
    exact RespectsAt.of_error (runFrom_captured_error hrun) ⟨hc, he⟩
  · obtain ⟨ht, hc⟩ := hact.done hrun
    exact RespectsAt.of_ok (runFrom_captured_ok hrun) ⟨ht, hc⟩

theorem discreet_onPause {record : Walk → Walk} {act : Walking Unit}
    (hrecord : ∀ w, (record w).problems = w.problems) (h : Discreet p act) :
    Discreet p (onPause record act) := by
  intro w hw
  rcases hrun : runFrom w act with ⟨(config | q) | ⟨⟩, t⟩
  · obtain ⟨hc, he⟩ := (h w hw).stop hrun
    refine RespectsAt.of_error (runFrom_onPause_paused hrun) ⟨fun hclean => ?_, he⟩
    unfold Walk.Clean
    rw [hrecord]
    exact hc hclean
  · exact RespectsAt.of_error (runFrom_onPause_failed hrun) ((h w hw).stop hrun)
  · exact RespectsAt.of_ok (runFrom_onPause_ok hrun) ((h w hw).done hrun)

theorem place_enter (w : Walk) (id : Nat) (path : IterationPath) :
    (w.enter id path).place = w.place ∧ (w.enter id path).problems = w.problems := by
  unfold Walk.enter
  split
  · exact ⟨rfl, rfl⟩
  · exact ⟨rfl, rfl⟩

theorem discreet_visiting {act : Walking Unit} (h : Discreet p act) :
    Discreet p (visiting id path act) := by
  refine discreet_look fun w hw => ?_
  split
  · exact discreet_pure _
  · exact discreet_bind (discreet_modify fun w => place_enter w id path) fun _ =>
      discreet_look fun _ _ => discreet_bind (discreet_onPause (fun _ => rfl) h) fun _ =>
        discreet_modify fun _ => ⟨rfl, rfl⟩

/-! ### Blocks -/

variable {body otherwise : Walking Unit}

theorem discreet_ifBlock {condition : Expr} (hcondition : condition.Supported)
    (hbody : Discreet p body) (hotherwise : Discreet p otherwise) :
    Discreet p (ifBlock setting id path condition body otherwise) := by
  refine discreet_bind (discreet_silent (silent_takesBranch setting id path condition) hcondition)
    fun taken => ?_
  refine discreet_onPause (fun _ => rfl) (discreet_entering ?_)
  split
  · exact discreet_inCopy hbody
  · exact hotherwise

/-- The index variable is set within the law if the key is used only for one. -/
theorem discreet_setIndex {header : ForHeader} (hkey : ∀ e ∈ header.usedKey, e.Supported) (i : Nat)
    (resumed : Option Value) : Discreet p (setIndex setting id path header i resumed) := by
  rcases hindex : header.index with _ | name
  · simp only [setIndex, hindex]
    exact discreet_pure none
  · refine discreet_silent (silent_setIndex setting id path header i resumed) fun e he => hkey e ?_
    simpa [ForHeader.usedKey, hindex] using he

theorem discreet_iteration {header : ForHeader} {items : List Value}
    {body : IterationPath → Walking Unit} (hkey : ∀ e ∈ header.usedKey, e.Supported)
    (hbody : ∀ inner, Discreet p (body inner)) (i : Nat) (resumed : Option Value) (item : Value) :
    Discreet p (iteration setting id path header items body i resumed item) := by
  refine discreet_entering (discreet_inCopy ?_)
  exact discreet_bind (discreet_modify fun _ => ⟨rfl, rfl⟩) fun _ =>
    discreet_bind (discreet_setIndex hkey i resumed) fun v =>
      discreet_onPause (fun _ => rfl) (hbody _)

theorem discreet_iterations {header : ForHeader} {items : List Value}
    {body : IterationPath → Walking Unit} (hkey : ∀ e ∈ header.usedKey, e.Supported)
    (hbody : ∀ inner, Discreet p (body inner)) (i : Nat) (resumed : Option Value)
    (rest : List Value) :
    Discreet p (iterations setting id path header items body i resumed rest) := by
  induction rest generalizing i resumed with
  | nil => exact discreet_pure _
  | cons item rest ih =>
    exact discreet_bind (discreet_iteration hkey hbody i resumed item) fun _ => ih _ _

theorem discreet_forBlock {info : NodeInfo} {header : ForHeader}
    {body : IterationPath → Walking Unit} (hiterable : header.iterable.Supported)
    (hkey : ∀ e ∈ header.usedKey, e.Supported) (hbody : ∀ inner, Discreet p (body inner))
    (hotherwise : Discreet p otherwise) :
    Discreet p (forBlock setting info path header body otherwise) := by
  have hnames : Respects (silent info.id path True True) (checkNames info header) :=
    silent_checkNames info header
  refine discreet_bind (discreet_silent hnames trivial) fun _ => ?_
  refine discreet_bind (discreet_silent (silent_takeItems setting info.id path header.iterable)
    hiterable) fun loop => ?_
  split
  · exact discreet_entering hotherwise
  · exact discreet_iterations hkey hbody _ _ _

/-! ### Elements -/

variable {info : NodeInfo} {as : List Attribute}

/-- A leaf that does not depend on the node. -/
theorem discreet_part {x : Walking α} (h : Respects (leaf 0 [] True False) x) : Discreet p x :=
  discreet_leaf h trivial

/-- A leaf of a node. -/
theorem discreet_own {x : Walking α} (h : Respects (leaf id path True False) x) : Discreet p x :=
  discreet_leaf h trivial

/-- An evaluation that does not depend on the node. -/
theorem discreet_small {x : Walking α} (h : Respects (silent 0 [] True False) x) : Discreet p x :=
  discreet_silent h trivial

theorem discreet_attributeValues (h : SupportedAttributes as) :
    Discreet p (attributeValues setting info.id path as) := by
  have hvalues : Respects (silent info.id path True False)
      (attributeValues setting info.id path as) :=
    silent_attributeValues setting info.id path (fun _ => h) False.elim
  exact discreet_silent hvalues trivial

theorem discreet_message {role : Option Role} (hplace : p.inMessage = false)
    (has : SupportedAttributes as) (hbody : Discreet { p with inMessage := true } body) :
    Discreet p (message setting info path role as body) := by
  refine discreet_look fun w hw => ?_
  obtain rfl := hw
  split
  -- the tag stands where a message may, so it is not refused
  · next hmessage => exact absurd hmessage (by simpa [Walk.place] using hplace)
  · refine discreet_bind (discreet_attributeValues has) fun values => ?_
    refine discreet_bind (discreet_small (silent_messageRole info role values)) fun role => ?_
    dsimp only
    generalize (if role = Role.tool then textOf? values "id" else none) = toolId
    split
    · exact discreet_fail rfl info
    · refine discreet_bind (discreet_part (leaf_closeMessage setting)) fun _ => ?_
      refine discreet_bind (discreet_within (fun w hw => ⟨?_, rfl⟩) (fun w hw => ?_) (fun _ => rfl)
        (discreet_inArguments false hbody)) fun _ => ?_
      · rw [← hw]
        rfl
      · simp_all [Walk.place]
      · refine discreet_bind (discreet_part leaf_takeContent) fun pending => ?_
        exact discreet_bind (discreet_part (leaf_placeToolCalls _ _)) fun _ =>
          discreet_part (leaf_emit _)

theorem discreet_contentTag {kind : ContentKind} (hplace : p.inContent = false)
    (has : SupportedAttributes as) (hbody : Discreet { p with inContent := true } body) :
    Discreet p (contentTag setting info path kind as body) := by
  refine discreet_look fun w hw => ?_
  obtain rfl := hw
  split
  · next hcontent => exact absurd hcontent (by simpa [Walk.place] using hplace)
  · refine discreet_bind (discreet_attributeValues has) fun _ => ?_
    refine discreet_bind (discreet_part leaf_closeText) fun _ => ?_
    refine discreet_bind (discreet_within (fun w hw => ⟨?_, rfl⟩) (fun w hw => ?_) (fun _ => rfl)
      (discreet_inArguments false hbody)) fun _ => ?_
    · rw [← hw]
      rfl
    · simp_all [Walk.place]
    · exact discreet_look fun _ _ => discreet_bind (discreet_modify fun _ => ⟨rfl, rfl⟩) fun _ =>
        discreet_own (leaf_placeContent info path kind _)

theorem discreet_toolCall (hplace : p.inContent = false) (has : SupportedAttributes as)
    (hbody : Discreet p body) : Discreet p (toolCall setting info path as body) := by
  refine discreet_look fun w hw => ?_
  obtain rfl := hw
  split
  · next hcontent => exact absurd hcontent (by simpa [Walk.place] using hplace)
  · refine discreet_bind (discreet_attributeValues has) fun values => ?_
    split
    · exact discreet_fail rfl info
    · exact discreet_fail rfl info
    · exact discreet_bind (discreet_captured (discreet_inArguments true hbody)) fun text =>
        discreet_bind (discreet_part (leaf_toolArguments info text)) fun _ =>
          discreet_own (leaf_call info.id path _)

theorem discreet_takeResponse {name : Option String} {config : Fields Json} :
    Discreet p (takeResponse setting info.id path name config) := by
  refine discreet_look fun _ _ => discreet_look fun _ _ => ?_
  split
  · refine discreet_bind (discreet_part (leaf_closeMessage setting)) fun _ =>
      discreet_bind (discreet_modify fun _ => ⟨rfl, rfl⟩) fun _ => ?_
    exact discreet_of_respects (Respects.throw fun _ => ⟨fun hw => hw, fun _ hq => nomatch hq⟩)
  · exact discreet_bind (discreet_modify fun _ => ⟨rfl, rfl⟩) fun _ =>
      discreet_bind (discreet_modify fun _ => ⟨rfl, rfl⟩) fun _ =>
        discreet_bind (discreet_small (silent_nameResponse name _)) fun _ =>
          discreet_bind (discreet_part (leaf_closeMessage setting)) fun _ =>
            discreet_part (leaf_emit _)

theorem discreet_step (hstep : p.inStep = false) (hmessage : p.inMessage = false)
    (hname : ∀ a, Attribute.find? as "as" = some a → a.staticText?.isSome)
    (has : SupportedAttributes (Attribute.others as "as"))
    (hbody : Discreet { p with inStep := true } body) :
    Discreet p (step setting info path as body) := by
  refine discreet_look fun w hw => ?_
  obtain rfl := hw
  split
  -- the tag stands where a step may, so neither refusal is reached
  · next h => exact absurd h (by simpa [Walk.place] using hstep)
  · refine discreet_look fun w' hw' => ?_
    split
    · next h =>
      rw [← hw'] at hmessage
      exact absurd h (by simpa [Walk.place] using hmessage)
    · refine discreet_bind (discreet_small (silent_stepName fun _ => hname)) fun name => ?_
      have hconfig : Respects (silent info.id path True False)
          (stepConfig setting info.id path as) :=
        silent_stepConfig setting info.id path (fun _ => has) False.elim
      refine discreet_bind (discreet_silent hconfig trivial) fun config => ?_
      refine discreet_bind (discreet_within (fun w hw => ⟨?_, rfl⟩) (fun w hw => ?_) (fun _ => rfl)
        hbody) fun _ => discreet_takeResponse
      · rw [← hw]
        rfl
      · simp_all [Walk.place]

end Walking

/-! ### Nodes -/

namespace Node

open Walking

variable {setting : Setting} {p : Place} {path : IterationPath}

theorem discreet_walkAll {ns : List Node}
    (h : ∀ n ∈ ns, ∀ p path, n.Placed p → Discreet p (n.walk setting path))
    (hplaced : PlacedAll p ns) : Discreet p (walkAll setting ns path) := by
  induction ns with
  | nil => exact discreet_pure _
  | cons n rest ih =>
    exact discreet_bind (h n List.mem_cons_self p path hplaced.1) fun _ =>
      ih (fun m hm => h m (List.mem_cons_of_mem _ hm)) hplaced.2

theorem discreet_walkElse {o : Option Node}
    (h : ∀ n ∈ o.toList, ∀ p path, n.Placed p → Discreet p (n.walk setting path))
    (hplaced : PlacedElse p o) : Discreet p (walkElse setting o path) := by
  cases o with
  | none => exact discreet_pure _
  | some n => exact h n (by simp) p path hplaced

/-- A node whose tags stand where they may is walked without structural faults. -/
theorem discreet_walk (n : Node) (p : Place) (path : IterationPath) (h : n.Placed p) :
    Discreet p (n.walk setting path) := by
  induction n using Node.induct generalizing p path with
  | step n ih =>
    cases n with
    | fragment info children =>
      exact discreet_visiting (discreet_inCopy (discreet_walkAll (fun m hm => ih m hm) h))
    | config info value raw => exact discreet_visiting (discreet_pure _)
    | comment info data => exact discreet_visiting (discreet_pure _)
    | text info data =>
      have hwrite : Respects (leaf info.id path True True) (write info.id path data) :=
        leaf_write info.id path data
      exact discreet_visiting (discreet_leaf hwrite trivial)
    | mustache info e =>
      exact discreet_visiting (discreet_leaf (leaf_mustache setting info.id path e) h)
    | ifBlock info condition elseIf children otherwise =>
      obtain ⟨hcondition, hchildren, hotherwise⟩ := h
      exact discreet_visiting (discreet_ifBlock hcondition
        (discreet_walkAll (fun m hm => ih m (List.mem_append_left _ hm)) hchildren)
        (discreet_walkElse (fun m hm => ih m (List.mem_append_right _ hm)) hotherwise))
    | forBlock info header children otherwise =>
      obtain ⟨hiterable, hkey, hchildren, hotherwise⟩ := h
      exact discreet_visiting (discreet_forBlock hiterable hkey
        (fun inner => discreet_walkAll (fun m hm => ih m (List.mem_append_left _ hm)) hchildren)
        (discreet_walkElse (fun m hm => ih m (List.mem_append_right _ hm)) hotherwise))
    | element info name as children =>
      have hall : ∀ {p}, PlacedAll p children → Discreet p (walkAll setting children path) :=
        fun hchildren => discreet_walkAll (fun m hm => ih m hm) hchildren
      refine discreet_visiting ?_
      -- `Placed` asks of each tag that it may stand at `p` and its children behind it
      simp only [Placed] at h
      unfold Walking.element
      cases hkind : TagKind.ofName name with
      | message role =>
        rw [hkind] at h
        exact discreet_message h.1 h.2.1 (hall h.2.2)
      | content kind =>
        rw [hkind] at h
        exact discreet_contentTag h.1 h.2.1 (hall h.2.2)
      | toolCall =>
        rw [hkind] at h
        exact discreet_toolCall h.1 h.2.1 (hall h.2.2)
      | reference =>
        dsimp only
        split
        · exact discreet_fail rfl info
        · exact discreet_fail rfl info
      | step =>
        rw [hkind] at h
        exact discreet_step h.1 h.2.1 h.2.2.1 h.2.2.2.1 (hall h.2.2.2.2)
      | unknown =>
        rw [hkind] at h
        exact h.elim

end Node

/-! ### Templates -/

theorem Problem.mem_of_earliest? {problems : List Problem} {p : Problem}
    (h : Problem.earliest? problems = some p) : p ∈ problems := by
  induction problems with
  | nil => exact nomatch h
  | cons q rest ih =>
    unfold Problem.earliest? at h
    split at h
    · obtain rfl : q = p := by simpa using h
      exact List.mem_cons_self
    · next r hr =>
      obtain h : (if r.start < q.start then r else q) = p := by simpa using h
      split at h
      · exact List.mem_cons_of_mem _ (ih (hr.trans (congrArg some h)))
      · subst h
        exact List.mem_cons_self

/-- The problem of a walk was recorded, or has stopped the walk. -/
theorem Template.walk_eq_error {t : Template} {setting : Setting} {statuses : Statuses}
    {scope : Scope}
    {responses : List String} {p : Problem}
    (h : t.walk setting statuses scope responses = .error p) :
    ∃ result w q,
      (t.visitRoot setting).runFrom (Walk.start statuses scope responses) = (result, w) ∧
      p = q.withSource t.source ∧ (q ∈ w.problems ∨ result = .error (.failed q)) := by
  unfold Template.walk at h
  rcases hrun : (t.visitRoot setting).runFrom (Walk.start statuses scope responses) with
    ⟨(config | q) | ⟨⟩, w⟩
  all_goals
    rw [hrun] at h
    dsimp only at h
    split at h
    -- the problem returned is the earliest, collected or the one the run stopped at
    · next q' hearliest =>
      have hmem := Problem.mem_of_earliest? hearliest
      refine ⟨_, w, q', rfl, (Except.error.inj h).symm, ?_⟩
      first
      | exact .inl hmem
      | exact (List.mem_append.1 hmem).imp_right fun hq => by rw [List.mem_singleton.1 hq]
    · exact nomatch h

/-- A walk over a template whose tags stand where they may has only problems that depend on values.
-/
theorem Template.sound_walk {t : Template} (h : t.root.Placed Place.outside) {setting : Setting}
    {statuses : Statuses} {scope : Scope} {responses : List String} {p : Problem}
    (hwalk : t.walk setting statuses scope responses = .error p) :
    p.fault.isStructural = false := by
  have hvisit : Discreet Place.outside (t.visitRoot setting) := by
    have hclose : Respects (leaf 0 [] True True) (Walking.closeMessage setting) :=
      Walking.leaf_closeMessage setting
    exact Walking.discreet_bind (t.root.discreet_walk _ [] h) fun _ =>
      Walking.discreet_leaf hclose trivial
  -- the walk starts without problems, and every discreet part keeps it free of structural ones
  have hclean : (Walk.start statuses scope responses).Clean := fun q hq => nomatch hq
  have hrespects := hvisit (Walk.start statuses scope responses) rfl
  obtain ⟨result, w, q, hrun, rfl, hq⟩ := walk_eq_error hwalk
  show q.fault.isStructural = false
  rcases result with e | ⟨⟩
  · rcases hq with hq | hq
    · exact (hrespects.stop hrun).1 hclean q hq
    · exact (hrespects.stop hrun).2 q (Except.error.inj hq)
  · rcases hq with hq | hq
    · exact (hrespects.done hrun).2 hclean q hq
    · exact nomatch hq

/-- A compilation fails as its walk does. -/
theorem compile_eq_error [ConfigReader] {setting : Setting} {text : String}
    {parameters : Fields Value} {t : Template} {p : Problem} (hread : Template.read text = .ok t)
    (h : compile setting text parameters = .error p) :
    t.walk setting (Statuses.fresh t.nodeCount) (Scope.ofFields parameters) [] = .error p := by
  unfold compile at h
  simp only [hread, bind, Except.bind] at h
  split at h
  · next q hwalk =>
    obtain rfl : q = p := by simpa using h
    exact hwalk
  · exact nomatch h

namespace Analyzer

variable {a : Analyzer} {path : Option String} {source : String} {cache cache' : Cache}
  {analysis : Analysis}

/-- After an analysis that succeeded, with any resolver of finitely many paths, a prompt can be made
a chain, and neither its compilation nor any step of the chain fails with a structural fault. -/
theorem no_structural_fault [ConfigReader]
    (h : (a.analyze path source).runFrom cache = (.ok analysis, cache'))
    (setting : Setting) (parameters : Fields Value) :
    (∀ p, compile setting source parameters = .error p → p.fault.code ∉ structuralCodes) ∧
      ∃ chain, Chain.start setting source parameters = .ok chain ∧
        ∀ responses response p,
          (chain.calls responses).step response = .error (.failed p) →
            p.fault.code ∉ structuralCodes := by
  obtain ⟨t, hread, hplaced⟩ := placed_of_analyze h
  refine ⟨fun p hp => ?_, ?_⟩
  · rw [Fault.code_mem_structuralCodes]
    simp [Template.sound_walk hplaced (compile_eq_error hread hp)]
  · refine ⟨_, by rw [Chain.start, hread]; rfl, fun responses response p hp => ?_⟩
    rw [Fault.code_mem_structuralCodes]
    have hwalk := Chain.step_eq_failed hp
    unfold Chain.walk at hwalk
    simp only [Chain.template_calls] at hwalk
    simp [Template.sound_walk hplaced hwalk]

/-- A prompt with a block, a message, a piece of content and a step. -/
def nestedTags : String :=
  "<user>" ++ braced "if a > 1" ++ "<text>" ++ braced "a" ++ "</text>" ++ braced "endif" ++
    "</user><step as='r' />" ++ braced "r"

/-- Its analysis succeeds, and so it has no such faults. -/
theorem no_structural_fault_nestedTags :
    ∃ analysis cache,
      ((ofResolver none).analyze none nestedTags).runFrom [] = (.ok analysis, cache) ∧
        ∀ setting parameters p,
          compile setting nestedTags parameters = .error p → p.fault.code ∉ structuralCodes := by
  have hok : (((ofResolver none).analyze none nestedTags).runFrom []).1.isOk = true := by
    rw [analyze, analyzeIn]
    decide +kernel
  rcases h : ((ofResolver none).analyze none nestedTags).runFrom [] with ⟨p | analysis, cache⟩
  · rw [h] at hok
    cases hok
  · exact ⟨analysis, cache, rfl, fun setting parameters =>
      (no_structural_fault h setting parameters).1⟩

end Analyzer

end PromptMarkup

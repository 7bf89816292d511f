/-
Surveys and analyses that follow references alike.

What a survey finds out about a prompt depends on its references only through the analyses that
following them ends with.  Two surveys may keep different states while they follow references; as
long as they are answered alike, they end alike.

* `Computation.Mirrors` — two computations that end alike from related states, in related states;
* `Survey.Likeness` — when two surveys count as alike, and when the first may stop alone;
* `Node.pairs_survey` — two surveys of a node stay alike, as long as they do at the references in
  the node;
* `Analyzer.mirrors_document` — the analyses of one prompt end alike, as long as its references are
  followed alike;
* `Analyzer.document_of_sound` — a prompt without a problem of its own has an analysis, unless a
  reference cannot be followed.

Design notes: the two surveys may keep states of different types, so that a survey that keeps a
stack of open prompts can be compared with one that does not.  What a survey knows apart from its
references is its shape, and only the shape decides how it goes on; so one pass over the tree serves
both for surveys that agree in everything and for surveys that agree in their shapes only.
-/
import PromptMarkup.Proofs.References
import PromptMarkup.Proofs.Renaming

namespace PromptMarkup

/-! ### Two computations -/

namespace Computation

variable {ε σ τ α β : Type} {R : σ → τ → Prop}

/-- From related states two computations end alike, in related states. -/
def Mirrors (R : σ → τ → Prop) (x : Computation ε σ α) (y : Computation ε τ α) : Prop :=
  ∀ s t, R s t → (runFrom s x).1 = (runFrom t y).1 ∧ R (runFrom s x).2 (runFrom t y).2

namespace Mirrors

theorem pure (a : α) : Mirrors R (pure a : Computation ε σ α) (pure a) :=
  fun _ _ h => ⟨rfl, h⟩

theorem throw (e : ε) : Mirrors R (throw e : Computation ε σ α) (throw e) :=
  fun _ _ h => ⟨rfl, h⟩

/-- Both computations stop with the same reason, or both end with the same value. -/
theorem cases {x : Computation ε σ α} {y : Computation ε τ α} (h : Mirrors R x y) {s : σ} {t : τ}
    (hR : R s t) :
    (∃ e s' t', runFrom s x = (.error e, s') ∧ runFrom t y = (.error e, t') ∧ R s' t') ∨
      ∃ a s' t', runFrom s x = (.ok a, s') ∧ runFrom t y = (.ok a, t') ∧ R s' t' := by
  obtain ⟨hresult, hstate⟩ := h s t hR
  rcases hs : runFrom s x with ⟨e | a, s'⟩
  · have hy : runFrom t y = (.error e, (runFrom t y).2) := by
      rw [hs] at hresult
      exact Prod.ext hresult.symm rfl
    exact .inl ⟨e, s', _, rfl, hy, by rwa [hs] at hstate⟩
  · have hy : runFrom t y = (.ok a, (runFrom t y).2) := by
      rw [hs] at hresult
      exact Prod.ext hresult.symm rfl
    exact .inr ⟨a, s', _, rfl, hy, by rwa [hs] at hstate⟩

theorem bind {x : Computation ε σ α} {y : Computation ε τ α} {f : α → Computation ε σ β}
    {g : α → Computation ε τ β} (hxy : Mirrors R x y) (hfg : ∀ a, Mirrors R (f a) (g a)) :
    Mirrors R (x >>= f) (y >>= g) := by
  intro s t hR
  rcases hxy.cases hR with ⟨e, s', t', hs, ht, hR'⟩ | ⟨a, s', t', hs, ht, hR'⟩
  · rw [runFrom_bind_error hs, runFrom_bind_error ht]
    exact ⟨rfl, hR'⟩
  · rw [runFrom_bind_ok hs, runFrom_bind_ok ht]
    exact hfg a s' t' hR'

/-- The reason to stop is changed in the same way. -/
theorem rethrow {x : Computation ε σ α} {y : Computation ε τ α} (h : Mirrors R x y) (f : ε → ε) :
    Mirrors R (tryCatch x fun e => MonadExcept.throw (f e))
      (tryCatch y fun e => MonadExcept.throw (f e)) := by
  intro s t hR
  rw [Analyzer.runFrom_rethrow, Analyzer.runFrom_rethrow]
  rcases h.cases hR with ⟨e, s', t', hs, ht, hR'⟩ | ⟨a, s', t', hs, ht, hR'⟩
  · rw [hs, ht]
    exact ⟨rfl, hR'⟩
  · rw [hs, ht]
    exact ⟨rfl, hR'⟩

end Mirrors

end Computation

open PromptMarkup.Computation

/-! ### Names -/

namespace Expr

/-- The same names are declared. -/
def SameDeclared (m n : Names) : Prop :=
  m.declared = n.declared

/-- What is read is declared afterwards, whether it is a parameter or not. -/
theorem uniform_read (name : String) :
    Uniform SameDeclared (modify fun names => names.read name : Naming PUnit) := by
  refine Uniform.modify fun m n h => ?_
  have hdeclared (names : Names) : (names.read name).declared =
      if name ∈ names.declared then names.declared else names.declared.insert name := by
    unfold Names.read
    split
    · rfl
    · rfl
  rw [SameDeclared, hdeclared, hdeclared, h]

/-- How a computation ends that goes through an expression depends on the declared names, not on the
parameters. -/
theorem closed_uniform : Closed (Uniform SameDeclared) where
  nothing := .pure _
  both hx hy := hx.bind fun _ => hy
  read := uniform_read
  declare name := Uniform.modify fun _ _ h =>
  congrArg (fun declared : NameSet => declared.insert name) h

/-- Going through expressions ends alike where the same names are declared. -/
theorem runOn_of_sameDeclared {m n : Names} (h : m.declared = n.declared) (es : List Expr) :
    ((mentionAll es).runOn m).1 = ((mentionAll es).runOn n).1 ∧
      ((mentionAll es).runOn m).2.declared = ((mentionAll es).runOn n).2.declared :=
  closed_uniform.all (fun _ _ => (closed_uniform.mention fun _ _ _ => .throw _).1) m n h

end Expr

/-! ### Surveys that are alike -/

/-- What a survey knows apart from what references contribute. -/
structure Survey.Shape where
  source : String
  declared : NameSet
  inMessage : Bool
  messageRole : Option Role
  inContent : Bool
  inStep : Bool
  problems : List Problem

namespace Survey

variable {σ τ : Type}

/-- The shape of a survey. -/
def shape (s : Survey σ) : Shape :=
  ⟨s.source, s.names.declared, s.inMessage, s.messageRole, s.inContent, s.inStep, s.problems⟩

/-- The survey with another shape. -/
def reshape (s : Survey σ) (h : Shape) : Survey σ :=
  { s with
    source := h.source, names.declared := h.declared, inMessage := h.inMessage
    messageRole := h.messageRole, inContent := h.inContent, inStep := h.inStep
    problems := h.problems }

/-- The survey with other names. -/
def rename (s : Survey σ) (names : Names) : Survey σ :=
  { s with names := names }

/-- When two surveys are alike: they have one shape, and stay alike while they go through the same
tags and expressions.  The first may stop alone, with certain problems. -/
structure Likeness (σ τ : Type) where
  like : Survey σ → Survey τ → Prop
  stops : Problem → Prop
  shape : ∀ {s t}, like s t → s.shape = t.shape
  reshape : ∀ {s t}, like s t → ∀ h, like (s.reshape h) (t.reshape h)
  mention : ∀ {s t}, like s t → ∀ es, like (s.rename ((Expr.mentionAll es).runOn s.names).2)
    (t.rename ((Expr.mentionAll es).runOn t.names).2)

end Survey

open Survey (Likeness)

namespace Surveying

/-- Two parts of surveys that stay alike, unless the first stops alone.  Problems are only added. -/
structure Pairs {σ τ α : Type} (L : Likeness σ τ) (x : SurveyingIn σ α) (y : SurveyingIn τ α) :
    Prop where
  ends : ∀ s t, L.like s t →
    (runFrom s x).1 = (runFrom t y).1 ∧ L.like (runFrom s x).2 (runFrom t y).2 ∨
      ∃ p s', runFrom s x = (.error p, s') ∧ L.stops p ∧ s'.problems <+: (runFrom t y).2.problems
  grows : ∀ t, t.problems <+: (runFrom t y).2.problems

section Rules

variable {σ τ : Type} {L : Likeness σ τ} {α β : Type}

theorem Pairs.pure (a : α) : Pairs L (Pure.pure a) (Pure.pure a) :=
  ⟨fun _ _ h => .inl ⟨rfl, h⟩, fun _ => List.prefix_rfl⟩

theorem Pairs.throw (p : Problem) :
    Pairs L (MonadExcept.throw p : SurveyingIn σ α) (MonadExcept.throw p) :=
  ⟨fun _ _ h => .inl ⟨rfl, h⟩, fun _ => List.prefix_rfl⟩

theorem Pairs.bind {x : SurveyingIn σ α} {y : SurveyingIn τ α} {f : α → SurveyingIn σ β}
    {g : α → SurveyingIn τ β} (hxy : Pairs L x y) (hfg : ∀ a, Pairs L (f a) (g a)) :
    Pairs L (x >>= f) (y >>= g) := by
  have hgrows (t : Survey τ) : (runFrom t y).2.problems <+: (runFrom t (y >>= g)).2.problems := by
    rcases ht : runFrom t y with ⟨e | a, t'⟩
    · rewrite [runFrom_bind_error ht]
      exact List.prefix_rfl
    · rw [runFrom_bind_ok ht]
      exact (hfg a).grows t'
  refine ⟨fun s t hlike => ?_, fun t => (hxy.grows t).trans (hgrows t)⟩
  rcases hxy.ends s t hlike with ⟨hresult, hlike'⟩ | ⟨p, s', hs, hstops, hproblems⟩
  · rcases hs : runFrom s x with ⟨e | a, s'⟩
    · have ht : runFrom t y = (.error e, (runFrom t y).2) := Prod.ext (by rw [← hresult, hs]) rfl
      rw [hs] at hlike'
      rw [runFrom_bind_error hs, runFrom_bind_error ht]
      exact .inl ⟨rfl, hlike'⟩
    · have ht : runFrom t y = (.ok a, (runFrom t y).2) := Prod.ext (by rw [← hresult, hs]) rfl
      rw [hs] at hlike'
      rw [runFrom_bind_ok hs, runFrom_bind_ok ht]
      exact (hfg a).ends _ _ hlike'
  · -- the first has stopped alone, and the second goes on
    exact .inr ⟨p, s', runFrom_bind_error hs f, hstops, hproblems.trans (hgrows t)⟩

/-- Parts of the shapes are looked at. -/
theorem Pairs.look (part : Survey.Shape → α) {f : α → SurveyingIn σ β} {g : α → SurveyingIn τ β}
    (hfg : ∀ a, Pairs L (f a) (g a)) :
    Pairs L (Computation.look (fun s => part s.shape) >>= f)
      (Computation.look (fun t => part t.shape) >>= g) := by
  refine ⟨fun s t hlike => ?_, fun t => ?_⟩
  · rw [runFrom_bind_ok (runFrom_look s _), runFrom_bind_ok (runFrom_look t _), L.shape hlike]
    exact (hfg _).ends s t hlike
  · rw [runFrom_bind_ok (runFrom_look t _)]
    exact (hfg _).grows t

/-- Both shapes change in the same way, and problems are only added. -/
theorem Pairs.modify (f : Survey.Shape → Survey.Shape) (hf : ∀ h, h.problems <+: (f h).problems) :
    Pairs L (modify fun s => s.reshape (f s.shape) : SurveyingIn σ PUnit)
      (modify fun t => t.reshape (f t.shape)) := by
  refine ⟨fun s t hlike => .inl ⟨rfl, ?_⟩, fun t => hf t.shape⟩
  show L.like (s.reshape (f s.shape)) (t.reshape (f t.shape))
  rw [L.shape hlike]
  exact L.reshape hlike _

variable {info : NodeInfo} {as : List Attribute}

theorem pairs_fail (fault : Fault) (info : NodeInfo) :
    Pairs L (fail fault info : SurveyingIn σ α) (fail fault info) :=
  .throw _

theorem pairs_report (fault : Fault) (info : NodeInfo) :
    Pairs L (report fault info : SurveyingIn σ Unit) (report fault info) :=
  .modify (fun h =>
    { h with problems := h.problems ++ [{ fault, start := info.start, stop := info.stop }] })
    fun _ => List.prefix_append _ _

theorem pairs_declare (name : String) :
    Pairs L (declare name : SurveyingIn σ Unit) (declare name) :=
  .modify (fun h => { h with declared := h.declared.insert name }) fun _ => List.prefix_rfl

theorem pairs_mention (es : List Expr) :
    Pairs L (mention es : SurveyingIn σ Unit) (mention es) := by
  have hrun {ρ : Type} (s : Survey ρ) : runFrom s (mention es : SurveyingIn ρ Unit) =
      (((Expr.mentionAll es).runOn s.names).1,
        s.rename ((Expr.mentionAll es).runOn s.names).2) := by
    unfold mention
    rw [runFrom_bind_ok (runFrom_look s _)]
    dsimp only
    rw [runFrom_bind_ok (runFrom_modify s _)]
    cases ((Expr.mentionAll es).runOn s.names).1 with
    | ok _ => rfl
    | error p => rfl
  refine ⟨fun s t hlike => .inl ?_, fun t => ?_⟩
  · rw [hrun, hrun]
    have hdeclared : s.names.declared = t.names.declared :=
      congrArg Survey.Shape.declared (L.shape hlike)
    exact ⟨(Expr.runOn_of_sameDeclared hdeclared es).1, L.mention hlike es⟩
  · rw [hrun]
    exact List.prefix_rfl

theorem pairs_attributes (as : List Attribute) :
    Pairs L (attributes as : SurveyingIn σ Unit) (attributes as) :=
  pairs_mention _

theorem pairs_inCopy {x : SurveyingIn σ Unit} {y : SurveyingIn τ Unit} (h : Pairs L x y) :
    Pairs L (inCopy x) (inCopy y) :=
  .look Survey.Shape.declared fun outer => h.bind fun _ =>
    .modify (fun h => { h with declared := outer }) fun _ => List.prefix_rfl

theorem pairs_checkFree (info : NodeInfo) (name : String) :
    Pairs L (checkFree info name : SurveyingIn σ Unit) (checkFree info name) := by
  refine .look Survey.Shape.declared fun declared => ?_
  split
  · exact pairs_fail _ _
  · exact .pure _

theorem pairs_index (header : ForHeader) :
    Pairs L (index header : SurveyingIn σ Unit) (index header) := by
  unfold index
  cases header.index with
  | none => exact .pure _
  | some name => exact (pairs_mention _).bind fun _ => pairs_declare name

theorem pairs_forBlock {header : ForHeader} {x more : SurveyingIn σ Unit}
    {y more' : SurveyingIn τ Unit} (hbody : Pairs L x y) (helse : Pairs L more more') :
    Pairs L (forBlock info header x more) (forBlock info header y more') := by
  have hrest : Pairs L
      (mention [header.iterable] >>= fun _ => inCopy (do declare header.item; index header; x) >>=
        fun _ => more)
      (mention [header.iterable] >>= fun _ => inCopy (do declare header.item; index header; y) >>=
        fun _ => more') := by
    refine (pairs_mention _).bind fun _ => (pairs_inCopy ?_).bind fun _ => helse
    exact (pairs_declare _).bind fun _ => (pairs_index header).bind fun _ => hbody
  refine (pairs_checkFree info header.item).bind fun _ => ?_
  cases header.index with
  | none => exact hrest
  | some name => exact (pairs_checkFree info name).bind fun _ => hrest

theorem pairs_messageRole (role : Option Role) :
    Pairs L (messageRole info role as : SurveyingIn σ (Option Role))
    (messageRole info role as) := by
  unfold messageRole
  repeat' split
  all_goals first | exact .pure _ | exact pairs_fail _ _

theorem pairs_message {role : Option Role} {x : SurveyingIn σ Unit} {y : SurveyingIn τ Unit}
    (hbody : Pairs L x y) : Pairs L (message info role as x) (message info role as y) := by
  refine .look Survey.Shape.inMessage fun inMessage => ?_
  split
  · exact pairs_fail _ _
  · refine (pairs_attributes as).bind fun _ => (pairs_messageRole role).bind fun role => ?_
    split
    · exact pairs_fail _ _
    · refine .bind ?_ fun _ => hbody.bind fun _ => ?_
      · exact .modify (fun h => { h with inMessage := true, messageRole := role }) fun _ =>
          List.prefix_rfl
      · exact .modify (fun h => { h with inMessage := false, messageRole := none }) fun _ =>
          List.prefix_rfl

theorem pairs_contentTag {kind : ContentKind} {plain : Option String} {x : SurveyingIn σ Unit}
    {y : SurveyingIn τ Unit} (hbody : Pairs L x y) :
    Pairs L (contentTag info kind as plain x) (contentTag info kind as plain y) := by
  refine .look Survey.Shape.inContent fun inContent => ?_
  split
  · exact pairs_fail _ _
  · refine (pairs_attributes as).bind fun _ => .bind ?_ fun _ => hbody.bind fun _ =>
      .bind ?_ fun _ => ?_
    · exact .modify (fun h => { h with inContent := true }) fun _ => List.prefix_rfl
    · exact .modify (fun h => { h with inContent := false }) fun _ => List.prefix_rfl
    · split
      · exact pairs_fail _ _
      · exact .pure _

theorem pairs_checkPlacement :
    Pairs L (checkPlacement info : SurveyingIn σ Unit) (checkPlacement info) := by
  refine .look Survey.Shape.messageRole fun role => ?_
  refine .look Survey.Shape.inMessage fun inMessage => ?_
  split
  · exact .pure _
  · exact pairs_report _ _

theorem pairs_toolCall {plain : Option String} {x : SurveyingIn σ Unit} {y : SurveyingIn τ Unit}
    (hbody : Pairs L x y) : Pairs L (toolCall info as plain x) (toolCall info as plain y) := by
  refine .look Survey.Shape.inContent fun inContent => ?_
  split
  · exact pairs_fail _ _
  · refine (pairs_attributes as).bind fun _ => ?_
    split
    · exact pairs_fail _ _
    · split
      · exact pairs_fail _ _
      · refine hbody.bind fun _ => ?_
        split
        · exact pairs_checkPlacement
        · exact (pairs_report _ _).bind fun _ => pairs_checkPlacement

theorem pairs_stepName : Pairs L (stepName as : SurveyingIn σ (Option String)) (stepName as) := by
  unfold stepName
  repeat' split
  all_goals first | exact .pure _ | exact .throw _

theorem pairs_step {x : SurveyingIn σ Unit} {y : SurveyingIn τ Unit} (hbody : Pairs L x y) :
    Pairs L (step info as x) (step info as y) := by
  refine .look Survey.Shape.inStep fun inStep => ?_
  split
  · exact pairs_fail _ _
  · refine .look Survey.Shape.inMessage fun inMessage => ?_
    split
    · exact pairs_fail _ _
    · refine pairs_stepName.bind fun name => (pairs_attributes _).bind fun _ => ?_
      refine .bind ?_ fun _ => hbody.bind fun _ => .bind ?_ fun _ => ?_
      · exact .modify (fun h => { h with inStep := true }) fun _ => List.prefix_rfl
      · exact .modify (fun h => { h with inStep := false }) fun _ => List.prefix_rfl
      · cases name with
        | none => exact .pure _
        | some name => exact pairs_declare name

/-- Follows a reference, and takes over what its prompt contributes. -/
def taken {σ : Type} (follow : FollowIn σ) (r : Reference) : SurveyingIn σ Unit := do
  let child ← followed follow r.name r.info
  adopt r.info r.passed child

theorem pairs_reference {follow : FollowIn σ} {follow' : FollowIn τ}
    (h : ∀ r ∈ (((Attribute.find? as "prompt").bind Attribute.staticText?).map fun prompt =>
      (⟨prompt, info, Attribute.others as "prompt"⟩ : Reference)).toList,
        Pairs L (taken follow r) (taken follow' r)) :
    Pairs L (reference follow info as) (reference follow' info as) := by
  unfold reference promptName
  cases hprompt : Attribute.find? as "prompt" with
  | none => exact pairs_fail _ _
  | some a =>
    cases hname : a.staticText? with
    | none =>
      simp only [hname]
      exact .throw _
    | some prompt =>
      simp only [hname, pure_bind]
      refine (pairs_attributes _).bind fun _ => h ⟨prompt, info, Attribute.others as "prompt"⟩ ?_
      simp [hprompt, hname]

end Rules

end Surveying

/-! ### Nodes -/

namespace Node

open Surveying

variable {σ τ : Type} {L : Likeness σ τ} {follow : FollowIn σ} {follow' : FollowIn τ}

theorem pairs_surveyAll {ns : List Node}
    (h : ∀ n ∈ ns, Pairs L (n.survey follow) (n.survey follow')) :
    Pairs L (surveyAll follow ns) (surveyAll follow' ns) := by
  induction ns with
  | nil => exact .pure _
  | cons n rest ih =>
    exact (h n List.mem_cons_self).bind fun _ => ih fun m hm => h m (List.mem_cons_of_mem _ hm)

theorem pairs_surveyElse {o : Option Node}
    (h : ∀ n ∈ o.toList, Pairs L (n.survey follow) (n.survey follow')) :
    Pairs L (surveyElse follow o) (surveyElse follow' o) := by
  cases o with
  | none => exact .pure _
  | some n => exact h n (by simp)

theorem mem_referencesAll {r : Reference} {n : Node} {ns : List Node} (hn : n ∈ ns)
    (hr : r ∈ n.references) : r ∈ referencesAll ns := by
  induction ns with
  | nil => exact nomatch hn
  | cons m rest ih =>
    rw [referencesAll, List.mem_append]
    rcases List.mem_cons.1 hn with rfl | hn
    · exact .inl hr
    · exact .inr (ih hn)

theorem mem_referencesElse {r : Reference} {n : Node} {o : Option Node} (hn : n ∈ o.toList)
    (hr : r ∈ n.references) : r ∈ referencesElse o := by
  obtain rfl : o = some n := by simpa using hn
  exact hr

/-- Two surveys of a node stay alike if they do at the references in it. -/
theorem pairs_survey (n : Node)
    (h : ∀ r ∈ n.references, Pairs L (taken follow r) (taken follow' r)) :
    Pairs L (n.survey follow) (n.survey follow') := by
  -- the induction is on the tree: every inner node has its references among those of the node
  -- around
  induction n using Node.induct with
  | step n ih =>
    cases n with
    | fragment info children =>
      exact pairs_inCopy (pairs_surveyAll fun m hm => ih m hm fun r hr =>
        h r (mem_referencesAll hm hr))
    | config info value raw => exact .pure _
    | text info data => exact .pure _
    | comment info data => exact .pure _
    | mustache info e => exact pairs_mention _
    | ifBlock info condition elseIf children otherwise =>
      have hall : Pairs L (surveyAll follow children) (surveyAll follow' children) :=
        pairs_surveyAll fun m hm => ih m (List.mem_append_left _ hm) fun r hr =>
          h r (List.mem_append_left _ (mem_referencesAll hm hr))
      have helse : Pairs L (surveyElse follow otherwise) (surveyElse follow' otherwise) :=
        pairs_surveyElse fun m hm => ih m (List.mem_append_right _ hm) fun r hr =>
          h r (List.mem_append_right _ (mem_referencesElse hm hr))
      exact (pairs_mention _).bind fun _ => (pairs_inCopy hall).bind fun _ => helse
    | forBlock info header children otherwise =>
      exact pairs_forBlock
        (pairs_surveyAll fun m hm => ih m (List.mem_append_left _ hm) fun r hr =>
          h r (List.mem_append_left _ (mem_referencesAll hm hr)))
        (pairs_surveyElse fun m hm => ih m (List.mem_append_right _ hm) fun r hr =>
          h r (List.mem_append_right _ (mem_referencesElse hm hr)))
    | element info name as children =>
      have hall (hrefs : ∀ r ∈ referencesAll children, Pairs L (taken follow r) (taken follow' r)) :
          Pairs L (surveyAll follow children) (surveyAll follow' children) :=
        pairs_surveyAll fun m hm => ih m hm fun r hr => hrefs r (mem_referencesAll hm hr)
      unfold references at h
      unfold survey Surveying.element
      cases hkind : TagKind.ofName name with
      | message role => exact pairs_message (hall (by simpa only [hkind] using h))
      | content kind => exact pairs_contentTag (hall (by simpa only [hkind] using h))
      | toolCall => exact pairs_toolCall (hall (by simpa only [hkind] using h))
      | step => exact pairs_step (hall (by simpa only [hkind] using h))
      -- what stands inside of a reference is not surveyed
      | reference => exact pairs_reference (by simpa only [hkind] using h)
      | unknown =>
        exact (pairs_report _ _).bind fun _ => (pairs_attributes _).bind fun _ =>
          hall (by simpa only [hkind] using h)

end Node

/-! ### Surveys that agree in everything but what they keep -/

namespace Survey

variable {σ τ : Type} {R : σ → τ → Prop} {s : Survey σ} {t : Survey τ}

/-- Two surveys that differ only in what they keep from one reference to the next. -/
structure Like (R : σ → τ → Prop) (s : Survey σ) (t : Survey τ) : Prop where
  kept : R s.cache t.cache
  same : ({ s with cache := () } : Survey Unit) = { t with cache := () }

namespace Like

/-- What can be told without the states that are kept is the same for both surveys. -/
theorem look {α : Type} (h : s.Like R t) (part : Survey Unit → α) :
    part { s with cache := () } = part { t with cache := () } := by
  rw [h.same]

/-- Both surveys end with the same problem, if they end with one. -/
theorem verdict?_eq (h : s.Like R t) (result : Except Problem Unit) :
    s.verdict? result = t.verdict? result :=
  h.look fun u => u.verdict? result

/-- Both surveys end with the same analysis. -/
theorem conclude_eq (h : s.Like R t) {a b : Analyzer} (hdigest : a.digest = b.digest)
    (template : Template) (path : Option String) :
    a.conclude template path s = b.conclude template path t := by
  have hsame : a.conclude template path s = a.conclude template path t :=
    h.look fun u => a.conclude template path u
  rw [hsame, Analyzer.conclude, Analyzer.conclude, hdigest]

end Like

/-- Surveys that agree in everything but what they keep. -/
def Likeness.keeping (R : σ → τ → Prop) : Likeness σ τ where
  like := Like R
  stops _ := False
  shape h := h.look Survey.shape
  reshape h shape := ⟨h.kept, congrArg (fun u : Survey Unit => u.reshape shape) h.same⟩
  mention h es := ⟨h.kept,
    congrArg (fun u : Survey Unit => u.rename ((Expr.mentionAll es).runOn u.names).2) h.same⟩

end Survey

namespace Surveying

variable {σ τ : Type} {R : σ → τ → Prop} {follow : FollowIn σ} {follow' : FollowIn τ}
  {r : Reference}

/-- How a reference is taken. -/
theorem runFrom_taken (follow : FollowIn σ) (r : Reference) (s : Survey σ) :
    runFrom s (taken follow r) =
      match runFrom s.cache (follow r.name r.info) with
      | (.ok child, cache) => runFrom { s with cache := cache } (adopt r.info r.passed child)
      | (.error p, cache) =>
        (.error p, { s with
          cache := cache
          failedReference := if p.source.isSome then some r.info.start
            else s.failedReference }) := by
  unfold taken
  rw [runFrom_bind]
  unfold followed
  rw [runFrom_bind_ok (runFrom_look s _)]
  -- only the place of a problem with a source is kept
  rcases runFrom s.cache (follow r.name r.info) with ⟨p | child, cache⟩
  · rw [runFrom_bind_ok (runFrom_modify s _)]
    by_cases hsource : p.source.isSome = true
    · simp only [hsource, if_true]
      rfl
    · simp only [hsource]
      rfl
  · rfl

/-- A reference finds no problem of the prompt around. -/
theorem problems_taken (follow : FollowIn σ) (r : Reference) (s : Survey σ) :
    (runFrom s (taken follow r)).2.problems = s.problems := by
  rw [runFrom_taken]
  rcases runFrom s.cache (follow r.name r.info) with ⟨p | child, cache⟩
  · rfl
  · rfl

/-- A reference that is followed alike. -/
theorem pairs_taken (h : Mirrors R (follow r.name r.info) (follow' r.name r.info)) :
    Pairs (.keeping R) (taken follow r) (taken follow' r) := by
  refine ⟨fun s t (hlike : s.Like R t) => .inl ?_, fun t => ?_⟩
  · rw [runFrom_taken, runFrom_taken]
    rcases h.cases hlike.kept with ⟨p, c, c', hs, ht, hR⟩ | ⟨child, c, c', hs, ht, hR⟩
    · rw [hs, ht]
      refine ⟨rfl, Survey.Like.mk hR ?_⟩
      exact congrArg (fun u : Survey Unit => { u with
        failedReference := if p.source.isSome then some r.info.start
          else u.failedReference }) hlike.same
    · rw [hs, ht]
      refine ⟨rfl, Survey.Like.mk hR ?_⟩
      exact congrArg (fun u : Survey Unit => (runFrom u (adopt r.info r.passed child)).2) hlike.same
  · rewrite [problems_taken]
    exact List.prefix_rfl

end Surveying

/-! ### Surveys that agree in their shapes -/

namespace Survey

variable {σ τ : Type}

/-- Surveys that agree in their shapes.  The first may stop alone with certain problems. -/
def Likeness.shapes (stops : Problem → Prop) : Likeness σ τ where
  like s t := s.shape = t.shape
  stops := stops
  shape := id
  reshape _ _ := rfl
  mention {s t} h es := by
    have hdeclared : s.names.declared = t.names.declared := congrArg Shape.declared h
    have hafter := (Expr.runOn_of_sameDeclared hdeclared es).2
    have hsame : { s.shape with declared := ((Expr.mentionAll es).runOn s.names).2.declared } =
        { t.shape with declared := ((Expr.mentionAll es).runOn t.names).2.declared } := by
      rw [h, hafter]
    exact hsame

end Survey

namespace Surveying

variable {σ τ : Type}

/-- A reference that may not be followed, beside one that is. -/
theorem pairs_taken_pure {follow : FollowIn σ} {r : Reference} {stops : Problem → Prop}
    (child : Analysis)
    (h : ∀ cache p, (runFrom cache (follow r.name r.info)).1 = .error p → stops p) :
    Pairs (.shapes stops) (taken follow r) (taken (fun _ _ => pure child : FollowIn τ) r) := by
  refine ⟨fun s t hlike => ?_, fun t => ?_⟩
  · have hproblems : s.problems = t.problems := congrArg Survey.Shape.problems hlike
    rw [runFrom_taken, runFrom_taken]
    rcases hs : runFrom s.cache (follow r.name r.info) with ⟨p | found, cache⟩
    · refine .inr ⟨p, _, rfl, h s.cache p (by rw [hs]), ?_⟩
      show s.problems <+: t.problems
      rewrite [hproblems]
      exact List.prefix_rfl
    · exact .inl ⟨rfl, hlike⟩
  · rewrite [problems_taken]
    exact List.prefix_rfl

end Surveying

namespace Analyzer

/-! ### References -/

section References

variable {a : Analyzer} {r : Resolver} {visiting : List String}
  {descend : a.Openable visiting → Analyzing Analysis} {origin : Option String} {name : String}
  {info : NodeInfo}

/-- A reference without a resolver. -/
theorem reference_of_none (hr : a.resolver = none) :
    a.reference visiting descend origin name info = fail .missingResolver info := by
  unfold reference
  split
  · rfl
  · next hsome => exact nomatch hr.symm.trans hsome

theorem mem_paths_of_find (hr : a.resolver = some r) {p : Prompt}
    (hfind : r.find name origin = .ok (some p)) : p.path ∈ a.paths := by
  simpa [paths, hr] using r.mem_paths hfind

/-- How a reference is followed, by what the resolver finds. -/
theorem reference_of_find (hr : a.resolver = some r) {found : Except ResolveError (Option Prompt)}
    (hfind : r.find name origin = found) :
    a.reference visiting descend origin name info =
      if Path.join name origin ∈ visiting then
        fail (.circularReference (Path.join name origin)) info
      else a.kept (Path.join name origin) >>= fun
        | some analysis => pure analysis
        | none =>
          match found, hfind with
          | .error e, _ => fail (.referenceFailed name e.message) info
          | .ok none, _ => fail (.referenceNotFound name) info
          | .ok (some p), hp =>
            a.openPrompt visiting descend (Path.join name origin) info p
              (mem_paths_of_find hr hp) := by
  unfold reference
  split
  · next hnone => cases hr.symm.trans hnone
  · next r' hsome =>
    -- both sides look up the same, so that the cases are the same
    obtain rfl : r = r' := Option.some.inj (hr.symm.trans hsome)
    dsimp only
    congr 2
    funext kept
    cases kept with
    | some analysis => rfl
    | none =>
      dsimp only
      split
      all_goals
        next hfind' =>
          obtain rfl := hfind.symm.trans hfind'
          rfl

end References

/-! ### Analyses -/

section Analyses

variable {σ τ : Type} {R : σ → τ → Prop} {follow : FollowIn σ} {follow' : FollowIn τ}

/-- How the analysis of a prompt that can be read ends. -/
theorem runFrom_document [ConfigReader] {a : Analyzer} {path : Option String} {source : String}
    {t : Template} (hread : Template.read source = .ok t) (kept : σ) :
    runFrom kept (a.document follow path source) =
      (match (runFrom (Survey.start source kept) (t.root.survey follow)).2.verdict?
          (runFrom (Survey.start source kept) (t.root.survey follow)).1 with
        | some p => .error p
        | none =>
          .ok (a.conclude t path (runFrom (Survey.start source kept) (t.root.survey follow)).2),
        (runFrom (Survey.start source kept) (t.root.survey follow)).2.cache) := by
  unfold document
  rw [hread, runFrom_bind_ok (runFrom_look kept _)]
  dsimp only
  rw [runFrom_bind_ok (runFrom_set kept _)]
  cases (runFrom (Survey.start source kept) (t.root.survey follow)).2.verdict?
    (runFrom (Survey.start source kept) (t.root.survey follow)).1 with
  | some p => rfl
  | none => rfl

/-- The analyses of one prompt end alike if its references are followed alike. -/
theorem mirrors_document [ConfigReader] {a b : Analyzer} (hdigest : a.digest = b.digest)
    {path : Option String} {source : String} (h : ∀ t, Template.read source = .ok t →
      ∀ r ∈ t.root.references, Mirrors R (follow r.name r.info) (follow' r.name r.info)) :
    Mirrors R (a.document follow path source) (b.document follow' path source) := by
  cases hread : Template.read source with
  | error p =>
    unfold document
    rw [hread]
    exact .throw p
  | ok t =>
    intro c c' hR
    have hstart : (Survey.start source c).Like R (Survey.start source c') := ⟨hR, rfl⟩
    have hpairs := t.root.pairs_survey fun r hr => Surveying.pairs_taken (h t hread r hr)
    rcases hpairs.ends _ _ hstart with ⟨hresult, hlike⟩ | ⟨p, -, -, hstops, -⟩
    · rw [runFrom_document hread, runFrom_document hread, hresult, hlike.verdict?_eq,
        hlike.conclude_eq hdigest]
      exact ⟨rfl, hlike.kept⟩
    · exact hstops.elim

/-- An analysis that says nothing. -/
def blank : Analysis :=
  ⟨none, "", .empty, .empty, [], "", ""⟩

end Analyses

end Analyzer

/-- A prompt without a problem of its own: it could be analyzed if all its references could. -/
def SoundAlone [ConfigReader] (source : String) : Prop :=
  (runFrom () ((Analyzer.ofResolver none).document
    (fun _ _ => pure Analyzer.blank) none source)).1.isOk

instance [ConfigReader] (source : String) : Decidable (SoundAlone source) :=
  inferInstanceAs (Decidable (_ = true))

namespace Analyzer

variable {σ : Type} {follow : FollowIn σ}

/-- A verdict on a survey that has found no problem itself is the problem it has stopped with. -/
theorem Survey.fault_of_verdict? {s : Survey σ} {p q : Problem} (hnone : s.problems = [])
    (h : s.verdict? (.error q) = some p) : p.fault = q.fault := by
  unfold Survey.verdict? at h
  dsimp only at h
  rw [hnone] at h
  split at h
  · obtain rfl : q.withSource s.source = p := by simpa [Problem.earliest?] using h
    rfl
  · obtain rfl : q = p := by simpa using h
    rfl

/-- If a prompt without a problem of its own has no analysis, then one of its references could not
be followed. -/
theorem fault_of_document [ConfigReader] {a : Analyzer} {path : Option String} {source : String}
    {kept : σ} {p : Problem} (hsound : SoundAlone source)
    (h : (runFrom kept (a.document follow path source)).1 = .error p) :
    ∃ t, Template.read source = .ok t ∧ ∃ r ∈ t.root.references, ∃ kept' q,
      (runFrom kept' (follow r.name r.info)).1 = .error q ∧ p.fault = q.fault := by
  unfold SoundAlone at hsound
  cases hread : Template.read source with
  | error p =>
    rw [document, hread] at hsound
    exact nomatch hsound
  | ok t =>
    -- beside the survey goes one whose references all lead to a blank prompt; that one finds
    -- nothing
    have hpairs : Surveying.Pairs
        (.shapes fun q => ∃ r ∈ t.root.references, ∃ kept',
          (runFrom kept' (follow r.name r.info)).1 = .error q)
        (t.root.survey follow) (t.root.survey (fun _ _ => pure blank : FollowIn Unit)) :=
      t.root.pairs_survey fun r hr => Surveying.pairs_taken_pure blank fun kept' q hq =>
        ⟨r, hr, kept', hq⟩
    rw [runFrom_document hread] at h hsound
    rcases hblank : runFrom (Survey.start source ())
      (t.root.survey (fun _ _ => pure blank : FollowIn Unit)) with ⟨result, u⟩
    rw [hblank] at hsound
    cases hverdict : u.verdict? result with
    | some q =>
      simp only [hverdict] at hsound
      exact nomatch hsound
    | none =>
      obtain ⟨rfl, hnone⟩ := Survey.verdict?_eq_none hverdict
      have hends := hpairs.ends (Survey.start source kept) (Survey.start source ()) rfl
      rw [hblank] at hends
      rcases hends with ⟨hsame, hlike⟩ | ⟨q, s, hrun, ⟨r, hr, kept', hq⟩, hproblems⟩
      · -- neither survey has found anything
        have hnone' : (runFrom (Survey.start source kept) (t.root.survey follow)).2.problems = [] :=
          (congrArg Survey.Shape.problems hlike).trans hnone
        rw [hsame, Survey.verdict?, hnone'] at h
        exact nomatch h
      · -- the survey has stopped at a reference, and has not found anything before
        rw [hrun] at h
        rw [hnone] at hproblems
        cases hfound : s.verdict? (.error q) with
        | none =>
          obtain ⟨hok', -⟩ := Survey.verdict?_eq_none hfound
          exact nomatch hok'
        | some p' =>
          simp only [hfound] at h
          obtain rfl := Except.error.inj h
          exact ⟨t, rfl, r, hr, kept', q, hq,
            Survey.fault_of_verdict? (List.prefix_nil.1 hproblems) hfound⟩

end Analyzer

end PromptMarkup

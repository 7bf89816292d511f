/-
What an analysis collects from references.

* `Node.references` — the references in a node, in the order in which a survey follows them;
* `Surveying.Collects`, `Node.collects_survey` — a survey follows the references of a node one after
  the other, and takes over what their prompts contribute;
* `Node.Refers`, `Node.collects_of_refers` — the same for any function that gives the references of
  nodes;
* `Library` — where references lead to, and what the prompts hold; a resolver may serve a library;
* `Analyzer.of_analyze` — an induction over analyses: what passes from the analyses of the prompts
  that a prompt refers to, to the analysis of the prompt, holds of every analysis.

Design notes: `Library.Keeps` is the invariant of the cache.  An analysis is kept under the path of
its prompt and under the path that was asked for; both lead to the prompt.
-/
import PromptMarkup.Metadata
import PromptMarkup.Proofs.Numbering
import PromptMarkup.Proofs.Placement

namespace PromptMarkup

open PromptMarkup.Computation

/-! ### References -/

/-- A reference: the prompt that it names, where it stands, and the attributes that are passed
along. -/
structure Reference where
  name : String
  info : NodeInfo
  passed : List Attribute

theorem TagKind.ofName_eq_reference {name : String} :
    TagKind.ofName name = .reference ↔ name = "ref" := by
  constructor
  · intro h
    unfold TagKind.ofName at h
    repeat' split at h
    all_goals first | exact beq_iff_eq.1 ‹(name == "ref") = true› | exact nomatch h
  · rintro rfl
    rfl

namespace Node

mutual

/-- The references in a node, in the order in which a survey follows them. -/
def references : Node → List Reference
  | fragment _ children => referencesAll children
  | config _ _ _ => []
  | text _ _ => []
  | comment _ _ => []
  | mustache _ _ => []
  | ifBlock _ _ _ children otherwise => referencesAll children ++ referencesElse otherwise
  | forBlock _ _ children otherwise => referencesAll children ++ referencesElse otherwise
  | element info name as children =>
    match TagKind.ofName name with
    | .reference =>
      (((Attribute.find? as "prompt").bind Attribute.staticText?).map fun prompt =>
        ⟨prompt, info, Attribute.others as "prompt"⟩).toList
    | _ => referencesAll children

/-- The references in several nodes. -/
def referencesAll : List Node → List Reference
  | [] => []
  | n :: rest => references n ++ referencesAll rest

/-- The references in an `else` part, if there is one. -/
def referencesElse : Option Node → List Reference
  | none => []
  | some n => references n

end

theorem referencesAll_eq (ns : List Node) : referencesAll ns = ns.flatMap references := by
  induction ns with
  | nil => rfl
  | cons n rest ih => rw [referencesAll, ih, List.flatMap_cons]

theorem referencesElse_eq (o : Option Node) : referencesElse o = o.toList.flatMap references := by
  cases o with
  | none => rfl
  | some n => exact (List.flatMap_singleton references n).symm

/-- The node is a reference. -/
def isReference : Node → Bool
  | element _ name _ _ => name == "ref"
  | _ => false

/-- The prompts that are named by the references in a node. -/
def named (n : Node) : List String :=
  n.references.map Reference.name

end Node

/-! ### Surveys -/

/-- A list of texts with one more text, unless it is there. -/
def putText (found : List String) (x : String) : List String :=
  if x ∈ found then found else found ++ [x]

/-- The texts of a list, each once. -/
def distinctTexts (xs : List String) : List String :=
  xs.foldl putText []

/-- The paths that can be reached, with those of one more prompt. -/
def putPaths (found : NameSet) (child : Analysis) : NameSet :=
  (child.path.toList.foldl NameSet.insert found).union child.references

/-- What a reference of a text is replaced by. -/
def Reference.replacement (source : String) (r : Reference) (child : Analysis) : Replacement :=
  ⟨r.info.start, r.info.stop, inlineReference source r.passed child.resolvedBody⟩

/-- References are followed one after the other, each to the analysis of its prompt. -/
inductive Followed (follow : Follow) : Cache → List (Reference × Analysis) → Cache → Prop
  | nil {cache : Cache} : Followed follow cache [] cache
  | cons {cache cache' cache'' : Cache} {r : Reference} {child : Analysis}
    {rest : List (Reference × Analysis)}
    (found : (follow r.name r.info).runFrom cache = (.ok child, cache'))
    (later : Followed follow cache' rest cache'') :
    Followed follow cache ((r, child) :: rest) cache''

theorem Followed.append {follow : Follow} {cache cache' cache'' : Cache}
    {found more : List (Reference × Analysis)} (h : Followed follow cache found cache')
    (h' : Followed follow cache' more cache'') : Followed follow cache (found ++ more) cache'' := by
  induction h with
  | nil => exact h'
  | cons found later ih => exact .cons found (ih h')

/-- What the prompts of references contribute was taken over between two states of a survey. -/
structure Collected (follow : Follow) (found : List (Reference × Analysis)) (s t : Survey) :
    Prop where
  followed : Followed follow s.cache found t.cache
  source : t.source = s.source
  hashes : t.hashes = (found.map fun f => f.2.hash).foldl putText s.hashes
  references : t.references = (found.map Prod.snd).foldl putPaths s.references
  replacements : t.replacements = s.replacements ++ found.map fun f => f.1.replacement s.source f.2

namespace Surveying

/-- A part of a survey that follows references, and takes over what their prompts contribute. -/
def Collects {α : Type} (follow : Follow) (refs : List Reference) (x : Surveying α) : Prop :=
  ∀ s a t, runFrom s x = (.ok a, t) → ∃ found, found.map Prod.fst = refs ∧
    Collected follow found s t

section Rules

variable {α β : Type} {follow : Follow} {refs more : List Reference}

theorem Collects.pure (a : α) : Collects follow [] (Pure.pure a : Surveying α) := by
  intro s b t hrun
  obtain ⟨-, rfl⟩ := Prod.mk.inj hrun
  exact ⟨[], rfl, .nil, rfl, rfl, rfl, (List.append_nil _).symm⟩

theorem Collects.throw (p : Problem) : Collects follow refs (MonadExcept.throw p : Surveying α) :=
  fun _ _ _ hrun => nomatch hrun

theorem Collects.bind {x : Surveying α} {f : α → Surveying β} (hx : Collects follow refs x)
    (hf : ∀ a, Collects follow more (f a)) : Collects follow (refs ++ more) (x >>= f) := by
  intro s b u hrun
  obtain ⟨a, t, h₁, h₂⟩ := runFrom_bind_eq_ok hrun
  obtain ⟨found, rfl, hfollowed, hsource, hhashes, hreferences, hreplacements⟩ := hx s a t h₁
  obtain ⟨later, rfl, hfollowed', hsource', hhashes', hreferences', hreplacements'⟩ := hf a t b u h₂
  refine ⟨found ++ later, List.map_append, hfollowed.append hfollowed', hsource'.trans hsource,
    ?_, ?_, ?_⟩
  · rw [List.map_append, List.foldl_append, ← hhashes, hhashes']
  · rw [List.map_append, List.foldl_append, ← hreferences, hreferences']
  · rw [List.map_append, ← List.append_assoc, ← hreplacements, hreplacements', hsource]

/-- Nothing is followed in the first part. -/
theorem Collects.then {x : Surveying α} {f : α → Surveying β} (hx : Collects follow [] x)
    (hf : ∀ a, Collects follow refs (f a)) : Collects follow refs (x >>= f) :=
  hx.bind hf

/-- Nothing is followed in the second part. -/
theorem Collects.before {x : Surveying α} {f : α → Surveying β} (hx : Collects follow refs x)
    (hf : ∀ a, Collects follow [] (f a)) : Collects follow refs (x >>= f) := by
  have h := hx.bind hf
  rwa [List.append_nil] at h

theorem Collects.look {part : Survey → α} {f : α → Surveying β}
    (h : ∀ a, Collects follow refs (f a)) :
    Collects follow refs (Computation.look part >>= f) := by
  intro s b t hrun
  rw [runFrom_bind_ok (runFrom_look s part)] at hrun
  exact h _ s b t hrun

/-- A change of nothing that references contribute to. -/
theorem Collects.modify {f : Survey → Survey} (hf : ∀ s, f s = { f s with
      source := s.source, cache := s.cache, hashes := s.hashes, references := s.references
      replacements := s.replacements }) : Collects follow [] (modify f : Surveying PUnit) := by
  intro s a t hrun
  obtain ⟨-, rfl⟩ := Prod.mk.inj hrun
  rw [hf s]
  exact ⟨[], rfl, .nil, rfl, rfl, rfl, (List.append_nil _).symm⟩

end Rules

variable {follow : Follow} {refs : List Reference} {info : NodeInfo} {as : List Attribute}
  {body : Surveying Unit}

theorem collects_fail {α : Type} (fault : Fault) (info : NodeInfo) :
    Collects follow refs (fail fault info : Surveying α) :=
  .throw _

theorem collects_report (fault : Fault) (info : NodeInfo) :
    Collects follow [] (report fault info) :=
  .modify fun _ => rfl

theorem collects_declare (name : String) : Collects follow [] (declare name) :=
  .modify fun _ => rfl

theorem collects_mention (es : List Expr) : Collects follow [] (mention es) := by
  refine .look fun (result, names) => Collects.then (.modify fun _ => rfl) fun _ => ?_
  cases result with
  | ok _ => exact .pure _
  | error p => exact .throw p

theorem collects_inCopy (h : Collects follow refs body) :
    Collects follow refs (inCopy body) :=
  .look fun _ => h.before fun _ => .modify fun _ => rfl

theorem collects_attributes (as : List Attribute) : Collects follow [] (attributes as) :=
  collects_mention _

theorem collects_checkFree (info : NodeInfo) (name : String) :
    Collects follow [] (checkFree info name) := by
  refine .look fun declared => ?_
  split
  · exact collects_fail _ _
  · exact .pure _

theorem collects_index (header : ForHeader) : Collects follow [] (index header) := by
  unfold index
  cases header.index with
  | none => exact .pure _
  | some name => exact (collects_mention _).then fun _ => collects_declare name

theorem collects_forBlock {header : ForHeader} {otherwise : Surveying Unit} {more : List Reference}
    (hbody : Collects follow refs body) (hotherwise : Collects follow more otherwise) :
    Collects follow (refs ++ more) (forBlock info header body otherwise) := by
  -- the loop's own variables are declared inside the copy and add no reference
  have hcopy : Collects follow refs (inCopy do
      declare header.item
      index header
      body) :=
    collects_inCopy ((collects_declare _).then fun _ => (collects_index header).then fun _ => hbody)
  have hrest : Collects follow (refs ++ more) (do
      mention [header.iterable]
      inCopy do
        declare header.item
        index header
        body
      otherwise) :=
    (collects_mention _).then fun _ => hcopy.bind fun _ => hotherwise
  refine (collects_checkFree info header.item).then fun _ => ?_
  cases header.index with
  | none => exact hrest
  | some name => exact (collects_checkFree info name).then fun _ => hrest

theorem collects_messageRole (role : Option Role) :
    Collects follow [] (messageRole info role as) := by
  unfold messageRole
  repeat' split
  all_goals first | exact .pure _ | exact collects_fail _ _

theorem collects_message {role : Option Role} (hbody : Collects follow refs body) :
    Collects follow refs (message info role as body) := by
  refine .look fun inMessage => ?_
  split
  · exact collects_fail _ _
  · refine (collects_attributes as).then fun _ => (collects_messageRole role).then fun role => ?_
    split
    · exact collects_fail _ _
    · exact Collects.then (.modify fun _ => rfl) fun _ => hbody.before fun _ =>
        .modify fun _ => rfl

theorem collects_contentTag {kind : ContentKind} {plain : Option String}
    (hbody : Collects follow refs body) :
    Collects follow refs (contentTag info kind as plain body) := by
  refine .look fun inContent => ?_
  split
  · exact collects_fail _ _
  · refine (collects_attributes as).then fun _ => Collects.then (.modify fun _ => rfl)
      fun _ => hbody.before fun _ => Collects.then (.modify fun _ => rfl) fun _ => ?_
    split
    · exact collects_fail _ _
    · exact .pure _

theorem collects_checkPlacement : Collects follow [] (checkPlacement info) := by
  refine .look fun role => .look fun inMessage => ?_
  split
  · exact .pure _
  · exact collects_report _ _

theorem collects_toolCall {plain : Option String} (hbody : Collects follow refs body) :
    Collects follow refs (toolCall info as plain body) := by
  refine .look fun inContent => ?_
  split
  · exact collects_fail _ _
  · refine (collects_attributes as).then fun _ => ?_
    split
    · exact collects_fail _ _
    · split
      · exact collects_fail _ _
      · refine hbody.before fun _ => ?_
        split
        · exact collects_checkPlacement
        · exact (collects_report _ _).then fun _ => collects_checkPlacement

theorem collects_stepName : Collects follow [] (stepName as) := by
  unfold stepName
  repeat' split
  all_goals first | exact .pure _ | exact .throw _

theorem collects_step (hbody : Collects follow refs body) :
    Collects follow refs (step info as body) := by
  refine .look fun inStep => ?_
  split
  · exact collects_fail _ _
  · refine .look fun inMessage => ?_
    split
    · exact collects_fail _ _
    · refine collects_stepName.then fun name => (collects_attributes _).then fun _ =>
        Collects.then (.modify fun _ => rfl) fun _ => hbody.before fun _ =>
          Collects.then (.modify fun _ => rfl) fun _ => ?_
      cases name with
      | none => exact .pure _
      | some name => exact collects_declare name

/-- A reference that was followed to its end has only changed the cache. -/
theorem followed_eq_ok {name : String} {s t : Survey} {child : Analysis}
    (h : runFrom s (followed follow name info) = (.ok child, t)) :
    ∃ cache, (follow name info).runFrom s.cache = (.ok child, cache) ∧
    t = { s with cache := cache } := by
  unfold followed at h
  rw [runFrom_bind_ok (runFrom_look s _)] at h
  rcases hrun : (follow name info).runFrom s.cache with ⟨p | found, cache⟩
  · simp only [hrun] at h
    rw [runFrom_bind_ok (runFrom_modify s _)] at h
    split at h
    · exact nomatch h
    · exact nomatch h
  · simp only [hrun] at h
    rw [runFrom_bind_ok (runFrom_modify s _)] at h
    obtain ⟨hchild, rfl⟩ := Prod.mk.inj h
    obtain rfl := Except.ok.inj hchild
    exact ⟨cache, rfl, rfl⟩

/-- What the prompt of a reference contributes is taken over. -/
theorem collects_followed (name : String) (passed : List Attribute) :
    Collects follow [⟨name, info, passed⟩] (do
      let child ← followed follow name info
      adopt info passed child) := by
  intro s a t hrun
  obtain ⟨child, s', hfollowed, hadopt⟩ := runFrom_bind_eq_ok hrun
  obtain ⟨cache, hfound, rfl⟩ := followed_eq_ok hfollowed
  obtain ⟨-, rfl⟩ := Prod.mk.inj hadopt
  exact ⟨[(⟨name, info, passed⟩, child)], rfl, .cons hfound .nil, rfl, rfl, rfl, rfl⟩

/-- A survey of a reference that names no prompt does not come to its end. -/
theorem collects_reference
    (h : ∀ prompt, (Attribute.find? as "prompt").bind Attribute.staticText? = some prompt →
      refs = [⟨prompt, info, Attribute.others as "prompt"⟩]) :
    Collects follow refs (reference follow info as) := by
  unfold reference promptName
  cases hfind : Attribute.find? as "prompt" with
  | none => exact fun _ _ _ hrun => nomatch hrun
  | some a =>
    rw [hfind, Option.bind_some] at h
    cases hname : a.staticText? with
    | none =>
      dsimp only
      rw [hname]
      exact fun _ _ _ hrun => nomatch hrun
    | some name =>
      dsimp only
      rw [hname, pure_bind, h name hname]
      exact (collects_attributes _).then fun _ => collects_followed name _

end Surveying

/-! ### Nodes -/

namespace Node

open Surveying

variable {follow : Follow} {refs : Node → List Reference}

/-- A function gives the references in nodes: of a reference that names a prompt, this one, and of
any other node those in the nodes directly inside of it.  It may give anything of a reference that
names no prompt. -/
structure Refers (refs : Node → List Reference) : Prop where
  self : ∀ {info name as children prompt}, TagKind.ofName name = .reference →
    (Attribute.find? as "prompt").bind Attribute.staticText? = some prompt →
    refs (element info name as children) = [⟨prompt, info, Attribute.others as "prompt"⟩]
  inner : ∀ {n}, n.isReference = false → refs n = n.childNodes.flatMap refs

theorem isReference_element (info : NodeInfo) (name : String) (as : List Attribute)
    (children : List Node) :
    (element info name as children).isReference = true ↔ TagKind.ofName name = .reference :=
  beq_iff_eq.trans TagKind.ofName_eq_reference.symm

theorem refers_references : Refers references where
  self {info name as children prompt} hkind hprompt := by
    rw [references, hkind, hprompt]
    rfl
  inner {n} h := by
    cases n with
    | fragment info children => exact referencesAll_eq children
    | ifBlock info condition elseIf children otherwise =>
      rw [references, childNodes, List.flatMap_append, referencesAll_eq, referencesElse_eq]
    | forBlock info header children otherwise =>
      rw [references, childNodes, List.flatMap_append, referencesAll_eq, referencesElse_eq]
    | element info name as children =>
      have hkind : TagKind.ofName name ≠ .reference :=
        fun hkind => Bool.eq_false_iff.1 h ((isReference_element info name as children).2 hkind)
      rw [references, childNodes, referencesAll_eq]
      split
      · next heq => exact absurd heq hkind
      · rfl
    | _ => rfl

theorem collects_surveyAll {ns : List Node}
    (h : ∀ n ∈ ns, Collects follow (refs n) (n.survey follow)) :
    Collects follow (ns.flatMap refs) (surveyAll follow ns) := by
  induction ns with
  | nil => exact .pure _
  | cons n rest ih =>
    rw [List.flatMap_cons]
    exact (h n List.mem_cons_self).bind fun _ => ih fun m hm => h m (List.mem_cons_of_mem _ hm)

theorem collects_surveyElse {o : Option Node}
    (h : ∀ n ∈ o.toList, Collects follow (refs n) (n.survey follow)) :
    Collects follow (o.toList.flatMap refs) (surveyElse follow o) := by
  cases o with
  | none => exact .pure _
  | some n =>
    rw [Option.toList_some, List.flatMap_singleton]
    exact h n (List.mem_singleton_self n)

/-- A survey follows the references of a node. -/
theorem collects_of_refers (hrefs : Refers refs) (n : Node) :
    Collects follow (refs n) (n.survey follow) := by
  induction n using Node.induct with
  | step n ih =>
    cases n with
    | fragment info children =>
      rw [hrefs.inner rfl]
      exact collects_inCopy (collects_surveyAll ih)
    | config info value raw =>
      rw [hrefs.inner rfl]
      exact .pure _
    | text info data =>
      rw [hrefs.inner rfl]
      exact .pure _
    | comment info data =>
      rw [hrefs.inner rfl]
      exact .pure _
    | mustache info e =>
      rw [hrefs.inner rfl]
      exact collects_mention _
    | ifBlock info condition elseIf children otherwise =>
      have hall := collects_surveyAll fun m hm => ih m (List.mem_append_left _ hm)
      have helse := collects_surveyElse fun m hm => ih m (List.mem_append_right _ hm)
      rw [hrefs.inner rfl, childNodes, List.flatMap_append]
      exact (collects_mention _).then fun _ => (collects_inCopy hall).bind fun _ => helse
    | forBlock info header children otherwise =>
      have hall := collects_surveyAll fun m hm => ih m (List.mem_append_left _ hm)
      have helse := collects_surveyElse fun m hm => ih m (List.mem_append_right _ hm)
      rw [hrefs.inner rfl, childNodes, List.flatMap_append]
      exact collects_forBlock hall helse
    | element info name as children =>
      have hall : Collects follow (children.flatMap refs) (surveyAll follow children) :=
        collects_surveyAll ih
      unfold survey Surveying.element
      -- only a reference tag collects itself, every other tag its children
      by_cases hreference : TagKind.ofName name = .reference
      · rw [hreference]
        exact collects_reference fun prompt => hrefs.self hreference
      · rw [hrefs.inner (Bool.eq_false_iff.2 fun h =>
          hreference ((isReference_element info name as children).1 h))]
        cases hkind : TagKind.ofName name with
        | message role => exact collects_message hall
        | content kind => exact collects_contentTag hall
        | toolCall => exact collects_toolCall hall
        | reference => exact absurd hkind hreference
        | step => exact collects_step hall
        | unknown =>
          exact (collects_report _ _).then fun _ => (collects_attributes _).then fun _ => hall

theorem collects_survey (n : Node) : Collects follow n.references (n.survey follow) :=
  collects_of_refers refers_references n

end Node

/-! ### Libraries -/

/-- Where references lead to: the path of the prompt that is found for a joined path, and what the
prompt at a path holds. -/
structure Library where
  target : String → String
  content : String → String

/-- A resolver finds the prompts of a library.  What is found under its own path is the prompt
itself. -/
structure Resolver.Serves (r : Resolver) (l : Library) : Prop where
  path : ∀ {name origin p}, r.find name origin = .ok (some p) →
    p.path = l.target (Path.join name origin)
  text : ∀ {name origin p}, r.find name origin = .ok (some p) → p.text = l.content p.path
  settled : ∀ {name origin p}, r.find name origin = .ok (some p) → l.target p.path = p.path

namespace Library

/-- The path of the prompt that a reference of the prompt at `origin` leads to. -/
def goal (l : Library) (origin : Option String) (name : String) : String :=
  l.target (Path.join name origin)

/-- The analyses that are kept have a property of the prompts that their keys lead to. -/
def Keeps (l : Library) (P : Option String → String → Analysis → Prop) (cache : Cache) : Prop :=
  ∀ key analysis, cache.get? key = some analysis →
    P (some (l.target key)) (l.content (l.target key)) analysis

/-- An analysis that keeps a property, and has it as the analysis of the given prompt. -/
def Yields (l : Library) (P : Option String → String → Analysis → Prop) (origin : Option String)
    (source : String) (x : Analyzing Analysis) : Prop :=
  ∀ cache analysis cache', x.runFrom cache = (.ok analysis, cache') → l.Keeps P cache →
    l.Keeps P cache' ∧ P origin source analysis

/-- A property that passes from the analyses of the prompts that a prompt refers to, to the analysis
of the prompt. -/
def Passes [ConfigReader] (l : Library) (a : Analyzer)
    (P : Option String → String → Analysis → Prop) : Prop :=
  ∀ origin source follow cache t s found, Template.read source = .ok t →
    runFrom (Survey.start source cache) (t.root.survey follow) = (.ok (), s) →
    found.map Prod.fst = t.root.references → Collected follow found (Survey.start source cache) s →
    (∀ f ∈ found, P (some (l.goal origin f.1.name)) (l.content (l.goal origin f.1.name)) f.2) →
      P origin source (a.conclude t origin s)

end Library

/-! ### Analyses -/

namespace Analyzer

variable {a : Analyzer} {l : Library} {P : Option String → String → Analysis → Prop}
  {visiting : List String} {origin : Option String}

theorem all_of_followed {follow : Follow} {cache cache' : Cache}
    {found : List (Reference × Analysis)}
    (hfollow : ∀ name info, l.Yields P (some (l.goal origin name)) (l.content (l.goal origin name))
      (follow name info))
    (h : Followed follow cache found cache') (hkeeps : l.Keeps P cache) :
    l.Keeps P cache' ∧
      ∀ f ∈ found, P (some (l.goal origin f.1.name)) (l.content (l.goal origin f.1.name)) f.2 := by
  induction h with
  | nil => exact ⟨hkeeps, fun _ hf => nomatch hf⟩
  | cons found later ih =>
    obtain ⟨hkeeps', hchild⟩ := hfollow _ _ _ _ _ found hkeeps
    obtain ⟨hend, hrest⟩ := ih hkeeps'
    refine ⟨hend, fun f hf => ?_⟩
    rcases List.mem_cons.1 hf with rfl | hf
    · exact hchild
    · exact hrest f hf

theorem yields_document [ConfigReader] (hpasses : l.Passes a P) {follow : Follow} {source : String}
    (hfollow : ∀ name info, l.Yields P (some (l.goal origin name)) (l.content (l.goal origin name))
      (follow name info)) :
    l.Yields P origin source (a.document follow origin source) := by
  intro cache analysis cache' hrun hkeeps
  obtain ⟨t, s, hread, hsurvey, -, rfl, rfl⟩ := document_eq_ok hrun
  obtain ⟨found, hrefs, hcollected⟩ := t.root.collects_survey _ _ _ hsurvey
  obtain ⟨hend, hall⟩ := all_of_followed hfollow hcollected.followed hkeeps
  exact ⟨hend, hpasses origin source follow cache t s found hread hsurvey hrefs hcollected hall⟩

theorem kept_eq_ok {path : String} {cache cache' : Cache} {found : Option Analysis}
    (h : (a.kept path).runFrom cache = (.ok found, cache')) :
    cache' = cache ∧ ∀ analysis, found = some analysis → cache.get? path = some analysis := by
  unfold kept at h
  split at h
  · obtain ⟨hfound, rfl⟩ := Prod.mk.inj h
    exact ⟨rfl, fun analysis ha => (Except.ok.inj hfound).trans ha⟩
  · obtain ⟨hfound, rfl⟩ := Prod.mk.inj h
    exact ⟨rfl, fun analysis ha => nomatch (Except.ok.inj hfound).trans ha⟩

theorem keeps_put {cache : Cache} {key : String} {analysis : Analysis} (h : l.Keeps P cache)
    (hkey : P (some (l.target key)) (l.content (l.target key)) analysis) :
    l.Keeps P (cache.put key analysis) := by
  intro other found hfound
  rw [Fields.get?_put] at hfound
  split at hfound
  · next heq =>
    obtain rfl := Option.some.inj hfound
    exact heq ▸ hkey
  · exact h other found hfound

theorem keeps_keep {cache cache' : Cache} {path key : String} {analysis : Analysis} {u : Unit}
    (hrun : (a.keep path key analysis).runFrom cache = (.ok u, cache')) (h : l.Keeps P cache)
    (hpath : P (some (l.target path)) (l.content (l.target path)) analysis)
    (hkey : P (some (l.target key)) (l.content (l.target key)) analysis) : l.Keeps P cache' := by
  unfold keep at hrun
  split at hrun
  · obtain ⟨-, rfl⟩ := Prod.mk.inj hrun
    dsimp only
    split
    · exact keeps_put h hpath
    · exact keeps_put (keeps_put h hpath) hkey
  · obtain ⟨-, rfl⟩ := Prod.mk.inj hrun
    exact h

/-- How a computation ends whose reason to stop is changed. -/
theorem runFrom_rethrow {ε σ α : Type} (x : Computation ε σ α) (f : ε → ε) (s : σ) :
    runFrom s (tryCatch x fun e => throw (f e)) =
      match runFrom s x with
      | (.ok a, t) => (.ok a, t)
      | (.error e, t) => (.error (f e), t) := by
  simp only [runFrom, tryCatch, tryCatchThe, MonadExceptOf.tryCatch, ExceptT.tryCatch, ExceptT.run,
    ExceptT.mk, StateT.run_bind]
  rcases StateT.run x s with ⟨e | a, t⟩
  · rfl
  · rfl

theorem runFrom_tryCatch_eq_ok {ε σ α : Type} {x : Computation ε σ α} {f : ε → ε} {s t : σ} {a : α}
    (h : runFrom s (tryCatch x fun e => throw (f e)) = (.ok a, t)) : runFrom s x = (.ok a, t) := by
  rw [runFrom_rethrow] at h
  rcases hx : runFrom s x with ⟨e | b, u⟩
  · rw [hx] at h
    exact nomatch h
  · rw [hx] at h
    exact h

/-- Opening a prompt of the library yields its analysis, which is new or was kept under its path. -/
theorem yields_openPrompt {descend : a.Openable visiting → Analyzing Analysis} {key : String}
    {info : NodeInfo} {p : Prompt} {hp : p.path ∈ a.paths}
    (hdescend : ∀ next, l.Yields P (some next.prompt.path) next.prompt.text (descend next))
    (htext : p.text = l.content p.path) (hkey : p.path = l.target key)
    (hsettled : l.target p.path = p.path) :
    l.Yields P (some p.path) (l.content p.path) (a.openPrompt visiting descend key info p hp) := by
  intro cache analysis cache' hrun h
  unfold openPrompt at hrun
  split at hrun
  · exact nomatch hrun
  · next hnew =>
    obtain ⟨found, cache₁, hkept, hrun⟩ := runFrom_bind_eq_ok hrun
    obtain ⟨rfl, hget⟩ := kept_eq_ok hkept
    -- the prompt was analysed before, and the cache holds what it yielded
    cases found with
    | some known =>
      obtain ⟨hanalysis, rfl⟩ := Prod.mk.inj hrun
      obtain rfl := Except.ok.inj hanalysis
      have hknown := h p.path known (hget known rfl)
      rw [hsettled] at hknown
      exact ⟨h, hknown⟩
    | none =>
      -- the prompt is analysed now; what it yields is kept under its path and its name
      obtain ⟨fresh, cache₂, hdescended, hrun⟩ := runFrom_bind_eq_ok hrun
      obtain ⟨⟨⟩, cache₃, hkeep, hrun⟩ := runFrom_bind_eq_ok hrun
      obtain ⟨hanalysis, rfl⟩ := Prod.mk.inj hrun
      obtain rfl := Except.ok.inj hanalysis
      obtain ⟨hkeeps, hfresh⟩ := hdescend ⟨p, hp, hnew⟩ _ _ _ (runFrom_tryCatch_eq_ok hdescended) h
      replace hfresh : P (some p.path) (l.content p.path) fresh := htext ▸ hfresh
      refine ⟨keeps_keep hkeep hkeeps ?_ ?_, hfresh⟩
      · rw [hsettled]
        exact hfresh
      · rw [← hkey]
        exact hfresh

/-- A reference is followed to the analysis of a prompt of the library. -/
theorem yields_reference (hserves : ∀ r, a.resolver = some r → r.Serves l)
    {descend : a.Openable visiting → Analyzing Analysis}
    (hdescend : ∀ next, l.Yields P (some next.prompt.path) next.prompt.text (descend next))
    (name : String) (info : NodeInfo) :
    l.Yields P (some (l.goal origin name)) (l.content (l.goal origin name))
      (a.reference visiting descend origin name info) := by
  intro cache child cache' hrun h
  unfold reference at hrun
  split at hrun
  · exact nomatch hrun
  · next r hr =>
    dsimp only at hrun
    split at hrun
    · exact nomatch hrun
    · obtain ⟨found, cache₁, hkept, hrun⟩ := runFrom_bind_eq_ok hrun
      obtain ⟨rfl, hget⟩ := kept_eq_ok hkept
      -- the name was resolved before
      cases found with
      | some known =>
        obtain ⟨hanalysis, rfl⟩ := Prod.mk.inj hrun
        obtain rfl := Except.ok.inj hanalysis
        exact ⟨h, h _ known (hget known rfl)⟩
      | none =>
        -- the resolver is asked, and answers for the goal of the name
        dsimp only at hrun
        split at hrun
        · exact nomatch hrun
        · exact nomatch hrun
        · next p hp =>
          have hlibrary := hserves r hr
          have hpath : p.path = l.goal origin name := hlibrary.path hp
          rw [← hpath]
          exact yields_openPrompt hdescend (hlibrary.text hp) hpath (hlibrary.settled hp) _
            _ _ hrun h

theorem yields_analyzeIn [ConfigReader] (hserves : ∀ r, a.resolver = some r → r.Serves l)
    (hpasses : l.Passes a P) (visiting : List String) (origin : Option String) (source : String) :
    l.Yields P origin source (a.analyzeIn visiting origin source) := by
  induction visiting, origin, source using analyzeIn.induct a with
  | case1 visiting origin source ih =>
    rw [analyzeIn]
    exact yields_document hpasses (yields_reference hserves ih)

/-- An analysis of a prompt, and the analyses of the prompts that it names. -/
theorem analyzeIn_twice [ConfigReader] (a : Analyzer) (visiting : List String)
    (path : Option String) (source : String) :
    a.analyzeIn visiting path source =
      a.document (a.reference visiting (fun next =>
        a.document (a.reference (next.prompt.path :: visiting) (fun inner =>
            a.analyzeIn (inner.prompt.path :: next.prompt.path :: visiting) (some inner.prompt.path)
              inner.prompt.text)
          (some next.prompt.path)) (some next.prompt.path) next.prompt.text) path) path source := by
  rw [analyzeIn]
  congr 2
  funext next
  rw [analyzeIn]

/-- Every analysis has a property that passes from prompts to the prompts that refer to them. -/
theorem of_analyze [ConfigReader] (hserves : ∀ r, a.resolver = some r → r.Serves l)
    (hpasses : l.Passes a P)
    {path : Option String} {source : String} {analysis : Analysis} {cache : Cache}
    (h : (a.analyze path source).runFrom [] = (.ok analysis, cache)) : P path source analysis :=
  (yields_analyzeIn hserves hpasses path.toList path source _ _ _ h fun _ _ h => nomatch h).2

end Analyzer

/-- Metadata tells what an analysis ends with. -/
theorem readMetadata_eq_ok [ConfigReader] {a : Analyzer} {schema : Option Json}
    {path : Option String} {text : String}
    {m : Metadata} (h : readMetadata a schema path text = .ok m) :
    ∃ analysis cache, (a.analyze path text).runFrom [] = (.ok analysis, cache) ∧
      m = ⟨analysis.hash, analysis.parameters, analysis.references, analysis.config,
        schema.map fun schema => Json.validate schema (.object analysis.config),
        analysis.resolved⟩ := by
  rcases hrun : (a.analyze path text).runFrom [] with ⟨p | analysis, cache⟩
  · rw [readMetadata, hrun] at h
    exact nomatch h
  · rw [readMetadata, hrun] at h
    exact ⟨analysis, cache, rfl, (Except.ok.inj h).symm⟩

end PromptMarkup

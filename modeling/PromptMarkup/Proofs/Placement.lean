/-
Where tags may stand.

* `Node.Placed` — every tag in a node stands where it may stand, is known, and has the attributes it
  must have written out, and every operator can be evaluated;
* `Node.placed_of_survey` — a survey that ends without a problem has seen that;
* `Analyzer.placed_of_analyze` — so has the analysis of a prompt.

Design notes: `Node.Placed` follows the tree with the flags `Place`, which a survey and a walk have
in common.  It is what both agree on, and neither of them is mentioned in it.
-/
import PromptMarkup.Analysis
import PromptMarkup.Proofs.Operators
import PromptMarkup.Proofs.Trees

namespace PromptMarkup

open PromptMarkup.Computation

/-- What is around a node. -/
structure Place where
  inMessage : Bool
  inContent : Bool
  inStep : Bool
deriving DecidableEq, Repr

/-- Outside of everything. -/
def Place.outside : Place :=
  ⟨false, false, false⟩

/-- What is around the node that a survey is at. -/
def Survey.place (s : Survey) : Place :=
  ⟨s.inMessage, s.inContent, s.inStep⟩

/-- All operators in attributes can be evaluated. -/
def SupportedAttributes (as : List Attribute) : Prop :=
  ∀ e ∈ as.flatMap Attribute.expressions, e.Supported

/-- The key of a `for` block is evaluated only for an index variable. -/
def ForHeader.usedKey (header : ForHeader) : Option Expr :=
  header.index.bind fun _ => header.key

namespace Node

mutual

/-- Every tag in a node may stand where it stands, with `p` around the node. -/
def Placed (p : Place) : Node → Prop
  | fragment _ children => PlacedAll p children
  | config _ _ _ => True
  | text _ _ => True
  | comment _ _ => True
  | mustache _ e => e.Supported
  | ifBlock _ condition _ children otherwise =>
    condition.Supported ∧ PlacedAll p children ∧ PlacedElse p otherwise
  | forBlock _ header children otherwise =>
    header.iterable.Supported ∧ (∀ e ∈ header.usedKey, e.Supported) ∧
      PlacedAll p children ∧ PlacedElse p otherwise
  | element _ name as children =>
    match TagKind.ofName name with
    | .message _ =>
      p.inMessage = false ∧ SupportedAttributes as ∧
        PlacedAll { p with inMessage := true } children
    | .content _ =>
      p.inContent = false ∧ SupportedAttributes as ∧
        PlacedAll { p with inContent := true } children
    | .toolCall => p.inContent = false ∧ SupportedAttributes as ∧ PlacedAll p children
    | .reference => True
    | .step =>
      p.inStep = false ∧ p.inMessage = false ∧
        (∀ a, Attribute.find? as "as" = some a → a.staticText?.isSome) ∧
        SupportedAttributes (Attribute.others as "as") ∧
        PlacedAll { p with inStep := true } children
    | .unknown => False

/-- Every tag in several nodes may stand where it stands. -/
def PlacedAll (p : Place) : List Node → Prop
  | [] => True
  | n :: rest => Placed p n ∧ PlacedAll p rest

/-- Every tag in an `else` part may stand where it stands. -/
def PlacedElse (p : Place) : Option Node → Prop
  | none => True
  | some n => Placed p n

end

end Node

/-! ### Surveys -/

/-- A survey that starts at place `p` and does not stop ends at place `q`, and if it has found no
problem it has seen that something holds. -/
def Surveys {α : Type} (p : Place) (x : Surveying α) (q : Place) (Q : Prop) : Prop :=
  ∀ s t a, s.place = p → runFrom s x = (.ok a, t) →
    t.place = q ∧ s.problems <+: t.problems ∧ (t.problems = [] → Q)

section Rules

variable {α β : Type} {p q r : Place} {P Q : Prop}

theorem Surveys.imp {x : Surveying α} (h : Surveys p x q P) (hPQ : P → Q) :
    Surveys p x q Q := by
  intro s t a hs hrun
  obtain ⟨hplace, hproblems, hp⟩ := h s t a hs hrun
  exact ⟨hplace, hproblems, fun hnil => hPQ (hp hnil)⟩

theorem surveys_pure (a : α) : Surveys p (pure a) p True := by
  intro s t b hs hrun
  obtain ⟨-, rfl⟩ : a = b ∧ s = t := by simpa using hrun
  exact ⟨hs, List.prefix_rfl, fun _ => trivial⟩

theorem surveys_throw (e : Problem) : Surveys p (throw e : Surveying α) q Q :=
  fun _ _ _ _ hrun => nomatch hrun

theorem surveys_bind {x : Surveying α} {f : α → Surveying β} (hx : Surveys p x q P)
    (hf : ∀ a, Surveys q (f a) r Q) : Surveys p (x >>= f) r (P ∧ Q) := by
  intro s u b hs hrun
  obtain ⟨a, t, h1, h2⟩ := runFrom_bind_eq_ok hrun
  obtain ⟨ht, hproblems, hp⟩ := hx s t a hs h1
  obtain ⟨hu, hproblems', hq⟩ := hf a t u b ht h2
  refine ⟨hu, hproblems.trans hproblems', fun hnil => ⟨hp ?_, hq hnil⟩⟩
  rw [hnil] at hproblems'
  exact List.prefix_nil.1 hproblems'

/-- What the first part has seen does not matter. -/
theorem surveys_then {x : Surveying α} {f : α → Surveying β} (hx : Surveys p x q P)
    (hf : ∀ a, Surveys q (f a) r Q) : Surveys p (x >>= f) r Q :=
  (surveys_bind hx hf).imp And.right

/-- What the second part has seen does not matter. -/
theorem surveys_first {x : Surveying α} {f : α → Surveying β} (hx : Surveys p x q P)
    (hf : ∀ a, Surveys q (f a) r True) : Surveys p (x >>= f) r P :=
  (surveys_bind hx hf).imp And.left

theorem surveys_look {part : Survey → α} {f : α → Surveying β}
    (h : ∀ s, s.place = p → Surveys p (f (part s)) q Q) :
    Surveys p (look part >>= f) q Q := by
  intro s t b hs hrun
  rw [runFrom_bind_ok (runFrom_look s part)] at hrun
  exact h s hs s t b hs hrun

theorem surveys_modify {f : Survey → Survey}
    (hplace : ∀ s, s.place = p → (f s).place = q)
    (hproblems : ∀ s, s.problems <+: (f s).problems) :
    Surveys p (modify f : Surveying PUnit) q True := by
  intro s t a hs hrun
  obtain rfl : f s = t := by simpa using hrun
  exact ⟨hplace s hs, hproblems s, fun _ => trivial⟩

end Rules

namespace Surveying

variable {p q : Place} {Q : Prop}

/-- What was reported is a problem at the end. -/
theorem surveys_report (fault : Fault) (info : NodeInfo) :
    Surveys p (report fault info) p False := by
  intro s t a hs hrun
  obtain rfl : { s with problems := s.problems ++ [⟨fault, info.start, info.stop, none, none⟩] } =
    t := by
    simpa [report] using hrun
  refine ⟨hs, List.prefix_append _ _, fun hnil => ?_⟩
  simp at hnil

theorem surveys_declare (name : String) : Surveys p (declare name) p True :=
  surveys_modify (fun _ hs => hs) fun _ => List.prefix_rfl

theorem surveys_mention (es : List Expr) :
    Surveys p (Surveying.mention es) p (∀ e ∈ es, e.Supported) := by
  intro s t a hs hrun
  unfold Surveying.mention at hrun
  rw [runFrom_bind_ok (runFrom_look s _)] at hrun
  rcases hnames : (Expr.mentionAll es).runOn s.names with ⟨e | ⟨⟩, names⟩
  · simp only [hnames] at hrun
    rw [runFrom_bind_ok (runFrom_modify s _)] at hrun
    exact nomatch hrun
  · simp only [hnames] at hrun
    rw [runFrom_bind_ok (runFrom_modify s _)] at hrun
    obtain rfl : { s with names := names } = t := by simpa using hrun
    refine ⟨hs, List.prefix_rfl, fun _ => ?_⟩
    exact Expr.supported_of_mentionAll (fun x _ => (Expr.supported_of_mention x).1)
      ⟨s.names, (), names, hnames⟩

theorem surveys_inCopy {act : Surveying Unit} (h : Surveys p act p Q) :
    Surveys p (inCopy act) p Q := by
  refine surveys_look fun s hs => surveys_first h fun _ => ?_
  exact surveys_modify (fun _ hs => hs) fun _ => List.prefix_rfl

theorem surveys_attributes (as : List Attribute) :
    Surveys p (attributes as) p (SupportedAttributes as) :=
  surveys_mention _

/-! ### Blocks -/

theorem surveys_checkFree (info : NodeInfo) (name : String) :
    Surveys p (checkFree info name) p True := by
  refine surveys_look fun s hs => ?_
  split
  · exact surveys_throw _
  · exact surveys_pure _

theorem surveys_index (header : ForHeader) :
    Surveys p (index header) p (∀ e ∈ header.usedKey, e.Supported) := by
  unfold index ForHeader.usedKey
  cases header.index with
  | none => exact (surveys_pure _).imp fun _ e he => nomatch he
  | some name =>
    refine (surveys_first (surveys_mention _) fun _ => surveys_declare name).imp ?_
    intro h e he
    exact h e (Option.mem_toList.2 he)

theorem surveys_forBlock {info : NodeInfo} {header : ForHeader} {body otherwise : Surveying Unit}
    {B O : Prop} (hbody : Surveys p body p B) (hotherwise : Surveys p otherwise p O) :
    Surveys p (forBlock info header body otherwise) p
      (header.iterable.Supported ∧ (∀ e ∈ header.usedKey, e.Supported) ∧ B ∧ O) := by
  -- the names of the items are declared in a copy, which leaves the place as it is
  have hcopy : Surveys p (inCopy do
      declare header.item
      index header
      body) p ((∀ e ∈ header.usedKey, e.Supported) ∧ B) :=
    surveys_inCopy (surveys_then (surveys_declare _) fun _ =>
      surveys_bind (surveys_index header) fun _ => hbody)
  have hrest : Surveys p (do
      mention [header.iterable]
      inCopy do
        declare header.item
        index header
        body
      otherwise) p (header.iterable.Supported ∧ (∀ e ∈ header.usedKey, e.Supported) ∧ B ∧ O) := by
    refine (surveys_bind (surveys_mention _) fun _ =>
      surveys_bind hcopy fun _ => hotherwise).imp ?_
    rintro ⟨hi, ⟨hk, hb⟩, ho⟩
    exact ⟨hi _ List.mem_cons_self, hk, hb, ho⟩
  refine surveys_then (surveys_checkFree info header.item) fun _ => ?_
  cases header.index with
  | none => exact hrest
  | some name => exact surveys_then (surveys_checkFree info name) fun _ => hrest

/-! ### Elements -/

variable {info : NodeInfo} {as : List Attribute} {body : Surveying Unit}

theorem surveys_messageRole (role : Option Role) :
    Surveys p (messageRole info role as) p True := by
  unfold messageRole
  repeat' split
  all_goals first | exact surveys_pure _ | exact surveys_throw _

theorem surveys_message {role : Option Role}
    (hbody : Surveys { p with inMessage := true } body { p with inMessage := true } Q) :
    Surveys p (message info role as body) p
      (p.inMessage = false ∧ SupportedAttributes as ∧ Q) := by
  refine surveys_look fun s hs => ?_
  obtain rfl := hs
  split
  · exact surveys_throw _
  · next hmessage =>
    have hfree : s.place.inMessage = false := by simpa [Survey.place] using hmessage
    refine Surveys.imp (surveys_bind (surveys_attributes as) fun _ =>
      surveys_then (surveys_messageRole role) fun role => ?_) fun h => ⟨hfree, h⟩
    split
    · exact surveys_throw _
    -- the flag is set for the body, and cleared behind it
    · refine surveys_then (surveys_modify ?_ fun _ => List.prefix_rfl) fun _ =>
        surveys_first hbody fun _ => surveys_modify ?_ fun _ => List.prefix_rfl
      · intro s' hs'
        rw [← hs']
        rfl
      · intro s' hs'
        simp_all [Survey.place]

theorem surveys_contentTag {kind : ContentKind} {plain : Option String}
    (hbody : Surveys { p with inContent := true } body { p with inContent := true } Q) :
    Surveys p (contentTag info kind as plain body) p
      (p.inContent = false ∧ SupportedAttributes as ∧ Q) := by
  refine surveys_look fun s hs => ?_
  obtain rfl := hs
  split
  · exact surveys_throw _
  · next hcontent =>
    have hfree : s.place.inContent = false := by simpa [Survey.place] using hcontent
    -- the flag that is cleared was not set before, or this would be out of place
    have hback : Surveys { s.place with inContent := true }
        (modify fun s => { s with inContent := false }) s.place True := by
      refine surveys_modify (fun s' hs' => ?_) fun _ => List.prefix_rfl
      simp_all [Survey.place]
    refine Surveys.imp (surveys_bind (surveys_attributes as) fun _ => ?_) fun h => ⟨hfree, h⟩
    refine surveys_then (surveys_modify ?_ fun _ => List.prefix_rfl) fun _ =>
      surveys_first hbody fun _ => surveys_then hback fun _ => ?_
    · intro s' hs'
      rw [← hs']
      rfl
    · split
      · exact surveys_throw _
      · exact surveys_pure _

theorem surveys_checkPlacement : Surveys p (checkPlacement info) p True := by
  refine surveys_look fun s hs => surveys_look fun s' hs' => ?_
  split
  · exact surveys_pure _
  · exact (surveys_report _ _).imp fun _ => trivial

theorem surveys_toolCall {plain : Option String} (hbody : Surveys p body p Q) :
    Surveys p (toolCall info as plain body) p
      (p.inContent = false ∧ SupportedAttributes as ∧ Q) := by
  refine surveys_look fun s hs => ?_
  obtain rfl := hs
  split
  · exact surveys_throw _
  · next hcontent =>
    have hfree : s.place.inContent = false := by simpa [Survey.place] using hcontent
    refine Surveys.imp (surveys_bind (surveys_attributes as) fun _ => ?_) fun h => ⟨hfree, h⟩
    split
    · exact surveys_throw _
    · split
      · exact surveys_throw _
      · refine surveys_first hbody fun _ => ?_
        split
        · exact surveys_checkPlacement
        · exact surveys_then (surveys_report _ _) fun _ => surveys_checkPlacement

theorem surveys_stepName :
    Surveys p (stepName as) p (∀ a, Attribute.find? as "as" = some a → a.staticText?.isSome) := by
  unfold stepName
  split
  · next hfind => exact (surveys_pure _).imp fun _ a ha => by simp [hfind] at ha
  · next a hfind =>
    split
    · next hstatic =>
      refine (surveys_pure _).imp fun _ b hb => ?_
      obtain rfl : a = b := by simpa [hfind] using hb
      simp [hstatic]
    · exact surveys_throw _

theorem surveys_step
    (hbody : Surveys { p with inStep := true } body { p with inStep := true } Q) :
    Surveys p (step info as body) p
      (p.inStep = false ∧ p.inMessage = false ∧
        (∀ a, Attribute.find? as "as" = some a → a.staticText?.isSome) ∧
        SupportedAttributes (Attribute.others as "as") ∧ Q) := by
  refine surveys_look fun s hs => ?_
  split
  · exact surveys_throw _
  · next hstep =>
    refine surveys_look fun s2 hs2 => ?_
    split
    · exact surveys_throw _
    · next hmessage =>
      have hfree : p.inStep = false := by
        rw [← hs]
        simpa [Survey.place] using hstep
      have hfree' : p.inMessage = false := by
        rw [← hs2]
        simpa [Survey.place] using hmessage
      -- the same for a step
      have hback : Surveys { p with inStep := true }
          (modify fun s => { s with inStep := false }) p True := by
        refine surveys_modify (fun s' hs' => ?_) fun _ => List.prefix_rfl
        cases p
        simp_all [Survey.place]
      refine Surveys.imp (surveys_bind surveys_stepName fun name =>
        surveys_bind (surveys_attributes _) fun _ => ?_) fun h => ⟨hfree, hfree', h⟩
      refine surveys_then (surveys_modify ?_ fun _ => List.prefix_rfl) fun _ =>
        surveys_first hbody fun _ => surveys_then hback fun _ => ?_
      · intro s' hs'
        rw [← hs']
        rfl
      · cases name with
        | none => exact surveys_pure _
        | some name => exact surveys_declare name

theorem surveys_reference {follow : Follow} : Surveys p (reference follow info as) p True := by
  have hname : Surveys p (promptName info as) p True := by
    unfold promptName
    repeat' split
    all_goals first | exact surveys_pure _ | exact surveys_throw _
  have hfollowed : ∀ prompt, Surveys p (followed follow prompt info) p True := by
    refine fun prompt => surveys_look fun s hs => surveys_then
      (surveys_modify (fun _ hs => hs) fun _ => List.prefix_rfl) fun _ => ?_
    split
    · exact surveys_pure _
    · split
      · exact surveys_then (surveys_modify (fun _ hs => hs) fun _ => List.prefix_rfl)
          fun _ => surveys_throw _
      · exact surveys_throw _
  exact surveys_then hname fun prompt => surveys_then (surveys_attributes _) fun _ =>
    surveys_then (hfollowed prompt) fun child =>
      surveys_modify (fun _ hs => hs) fun _ => List.prefix_rfl

end Surveying

/-! ### Nodes -/

namespace Node

open Surveying

variable {follow : Follow} {p : Place}

theorem surveys_surveyAll {ns : List Node}
    (h : ∀ n ∈ ns, ∀ p, Surveys p (n.survey follow) p (n.Placed p)) :
    Surveys p (surveyAll follow ns) p (PlacedAll p ns) := by
  induction ns with
  | nil => exact surveys_pure _
  | cons n rest ih =>
    exact surveys_bind (h n List.mem_cons_self p) fun _ =>
      ih fun m hm => h m (List.mem_cons_of_mem _ hm)

theorem surveys_surveyElse {o : Option Node}
    (h : ∀ n ∈ o.toList, ∀ p, Surveys p (n.survey follow) p (n.Placed p)) :
    Surveys p (surveyElse follow o) p (PlacedElse p o) := by
  cases o with
  | none => exact surveys_pure _
  | some n => exact h n (by simp) p

/-- A survey of a node that ends without a problem has seen that all tags stand where they may. -/
theorem surveys_survey (n : Node) (p : Place) : Surveys p (n.survey follow) p (n.Placed p) := by
  -- the induction is on the tree, for every place at which a node may stand
  induction n using Node.induct generalizing p with
  | step n ih =>
    cases n with
    | fragment info children => exact surveys_inCopy (surveys_surveyAll fun m hm p => ih m hm p)
    | config info value raw => exact surveys_pure _
    | text info data => exact surveys_pure _
    | comment info data => exact surveys_pure _
    | mustache info e => exact (surveys_mention _).imp fun h => h e List.mem_cons_self
    | ifBlock info condition elseIf children otherwise =>
      have hall := surveys_surveyAll (p := p) fun m hm p => ih m (List.mem_append_left _ hm) p
      have helse := surveys_surveyElse (p := p) fun m hm p => ih m (List.mem_append_right _ hm) p
      exact surveys_bind ((surveys_mention _).imp fun h => h condition List.mem_cons_self)
        fun _ => surveys_bind (surveys_inCopy hall) fun _ => helse
    | forBlock info header children otherwise =>
      exact surveys_forBlock
        (surveys_surveyAll fun m hm p => ih m (List.mem_append_left _ hm) p)
        (surveys_surveyElse fun m hm p => ih m (List.mem_append_right _ hm) p)
    | element info name as children =>
      -- children may stand at another place than their parent
      have hall : ∀ p, Surveys p (surveyAll follow children) p (PlacedAll p children) :=
        fun p => surveys_surveyAll fun m hm p => ih m hm p
      simp only [survey, Surveying.element, Placed]
      cases TagKind.ofName name with
      | message role => exact surveys_message (hall _)
      | content kind => exact surveys_contentTag (hall _)
      | toolCall => exact surveys_toolCall (hall _)
      | reference => exact surveys_reference
      | step => exact surveys_step (hall _)
      | unknown =>
        exact surveys_first (surveys_report _ _) fun _ =>
          surveys_then (surveys_attributes _) fun _ => (hall p).imp fun _ => trivial

end Node

/-! ### Analyses -/

/-- A survey without a verdict came to its end and has found no problem. -/
theorem Survey.verdict?_eq_none {σ : Type} {s : Survey σ} {result : Except Problem Unit}
    (h : s.verdict? result = none) : result = .ok () ∧ s.problems = [] := by
  unfold Survey.verdict? at h
  cases result with
  | ok u => exact ⟨rfl, Problem.earliest?_eq_none.1 (by simpa using h)⟩
  | error p =>
    exfalso
    dsimp only at h
    split at h
    · simp [Problem.earliest?_eq_none] at h
    · split at h
      · exact nomatch h
      · next hall =>
        have hnil : s.problems = [] := Problem.earliest?_eq_none.1 (by simpa using h)
        simp [hnil] at hall

variable [ConfigReader]

/-- An analysis that succeeded has read a template, and has surveyed it without finding a problem.
-/
theorem Analyzer.document_eq_ok {a : Analyzer} {follow : Follow} {path : Option String}
    {source : String} {cache cache' : Cache} {analysis : Analysis}
    (h : (a.document follow path source).runFrom cache = (.ok analysis, cache')) :
    ∃ t s, Template.read source = .ok t ∧
      (t.root.survey follow).runFrom (Survey.start source cache) = (.ok (), s) ∧ s.problems = [] ∧
      analysis = a.conclude t path s ∧ cache' = s.cache := by
  unfold document at h
  rcases hread : Template.read source with p | t
  · rw [hread] at h
    exact nomatch h
  · rw [hread] at h
    dsimp only at h
    rw [runFrom_bind_ok (runFrom_look cache _)] at h
    rcases hrun : (t.root.survey follow).runFrom (Survey.start source cache) with ⟨result, s⟩
    simp only [hrun] at h
    rw [runFrom_bind_ok (runFrom_set cache _)] at h
    -- a survey without a verdict has neither failed nor collected anything
    rcases hverdict : s.verdict? result with _ | p
    · obtain ⟨rfl, hnil⟩ := Survey.verdict?_eq_none hverdict
      rw [hverdict] at h
      obtain ⟨hanalysis, rfl⟩ := Prod.mk.inj h
      exact ⟨t, s, rfl, hrun, hnil, (Except.ok.inj hanalysis).symm, rfl⟩
    · rw [hverdict] at h
      exact nomatch h

/-- What an analysis of a prompt that can be read ends with. -/
theorem Analyzer.fst_document {a : Analyzer} {follow : Follow} {path : Option String}
    {source : String} {cache : Cache} {t : Template} {result : Except Problem Unit} {s : Survey}
    (hread : Template.read source = .ok t)
    (hrun : runFrom (Survey.start source cache) (t.root.survey follow) = (result, s)) :
    ((a.document follow path source).runFrom cache).1 =
      match s.verdict? result with
      | some p => .error p
      | none => .ok (a.conclude t path s) := by
  unfold document
  rw [hread]
  dsimp only
  rw [runFrom_bind_ok (runFrom_look cache _)]
  simp only [hrun]
  rw [runFrom_bind_ok (runFrom_set cache _)]
  cases s.verdict? result with
  | some p => rfl
  | none => rfl

/-- The analysis of a prompt has seen that all its tags stand where they may. -/
theorem Analyzer.placed_of_analyze {a : Analyzer} {path : Option String} {source : String}
    {cache cache' : Cache} {analysis : Analysis}
    (h : (a.analyze path source).runFrom cache = (.ok analysis, cache')) :
    ∃ t, Template.read source = .ok t ∧ t.root.Placed Place.outside := by
  rw [analyze, analyzeIn] at h
  obtain ⟨t, s, hread, hrun, hnil, -, -⟩ := document_eq_ok h
  obtain ⟨-, -, hplaced⟩ := t.root.surveys_survey Place.outside _ _ _ rfl hrun
  exact ⟨t, hread, hplaced hnil⟩

end PromptMarkup

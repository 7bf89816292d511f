/-
Keeping the analyses of referenced prompts changes no result.

* `Analyzer.outcome`, `Analyzer.answer` — what the analysis of a prompt and the following of a
  reference end with if nothing is kept; both depend on the prompts that are open, and on nothing
  else;
* `Analyzer.outcome_eq_ok` — an analysis that succeeds has followed all references of its prompt;
* `Analyzer.outcome_of_open` — it ends the same way while other prompts are open, as long as it
  comes across none of them;
* `Analyzer.Faithful` — the invariant of the analyses that are kept;
* `Analyzer.fst_analyze_eq_outcome`, `analyze_caching` — an analysis that keeps analyses ends like
  one that does not.

Design notes: an analysis that is kept was made while some prompts were open, and is used while
others are.  So the invariant says that what is kept is the outcome for the prompts that are open
now.  It survives that one more prompt is opened because of its last clause: an analysis is kept
only together with the analyses of all prompts it has come across, and a prompt that is opened is
not among those that are kept.
-/
import PromptMarkup.Proofs.Paths
import PromptMarkup.Proofs.Stack
import PromptMarkup.Yaml.Document

namespace PromptMarkup

open PromptMarkup.Computation

/-! ### What was followed -/

/-- Every reference that was followed has been answered. -/
theorem Followed.answered {follow : Follow} {cache cache' : Cache}
    {found : List (Reference × Analysis)} (h : Followed follow cache found cache') :
    ∀ f ∈ found, ∃ before after, (follow f.1.name f.1.info).runFrom before = (.ok f.2, after) := by
  induction h with
  | nil => exact fun _ hf => nomatch hf
  | cons answer later ih =>
    intro f hf
    rcases List.mem_cons.1 hf with rfl | hf
    · exact ⟨_, _, answer⟩
    · exact ih f hf

/-- What can be reached is what could be reached before, the prompts, and what can be reached from
them. -/
theorem mem_foldl_putPaths {x : String} {children : List Analysis} {paths : NameSet} :
    x ∈ children.foldl putPaths paths ↔
      x ∈ paths ∨ ∃ child ∈ children, child.path = some x ∨ x ∈ child.references := by
  induction children generalizing paths with
  | nil => simp
  | cons child rest ih =>
    have hchild : x ∈ putPaths paths child ↔ x ∈ paths ∨ child.path = some x ∨
      x ∈ child.references := by
      rw [putPaths, NameSet.mem_union, NameSet.mem_foldl_insert, or_assoc, Option.mem_toList]
    rw [List.foldl_cons, ih, hchild]
    simp only [List.mem_cons, exists_eq_or_imp, or_assoc]

namespace Analyzer

/-- How the references of the prompt at `origin` are followed while the prompts at `visiting` are
open. -/
def followIn [ConfigReader] (a : Analyzer) (visiting : List String) (origin : Option String) :
    Follow :=
  a.reference visiting (fun next =>
    a.analyzeIn (next.prompt.path :: visiting) (some next.prompt.path) next.prompt.text) origin

theorem analyzeIn_eq_document [ConfigReader] (a : Analyzer) (visiting : List String)
    (origin : Option String) (source : String) :
    a.analyzeIn visiting origin source = a.document (a.followIn visiting origin) origin source := by
  rw [analyzeIn]
  rfl

/-! ### Without keeping anything -/

/-- The same analyzer, which keeps nothing. -/
def forgetful (a : Analyzer) : Analyzer :=
  { a with caching := false }

/-- What the analysis of a prompt ends with if nothing is kept. -/
def outcome [ConfigReader] (a : Analyzer) (visiting : List String) (path : Option String)
    (source : String) :
    Except Problem Analysis :=
  (runFrom [] (a.forgetful.analyzeIn visiting path source)).1

/-- A fault at a reference. -/
def stopped (fault : Fault) (info : NodeInfo) : Except Problem Analysis :=
  .error { fault, start := info.start, stop := info.stop }

/-- What following a reference ends with if nothing is kept. -/
def answer [ConfigReader] (a : Analyzer) (visiting : List String) (origin : Option String)
    (name : String) (info : NodeInfo) : Except Problem Analysis :=
  match a.resolver with
  | none => stopped .missingResolver info
  | some r =>
    if Path.join name origin ∈ visiting then
      stopped (.circularReference (Path.join name origin)) info
    else
      match r.find name origin with
      | .error e => stopped (.referenceFailed name e.message) info
      | .ok none => stopped (.referenceNotFound name) info
      | .ok (some p) =>
        if p.path ∈ visiting then stopped (.circularReference p.path) info
        else (a.outcome (p.path :: visiting) (some p.path) p.text).mapError (·.inPrompt p.path)

section Forgetful

variable {a : Analyzer} {visiting : List String} {origin : Option String} {source : String}

/-- Nothing is found where nothing is kept. -/
theorem kept_forgetful (key : String) : a.forgetful.kept key = pure none :=
  rfl

theorem keep_forgetful (path key : String) (analysis : Analysis) :
    a.forgetful.keep path key analysis = pure () :=
  rfl

/-- How a prompt is opened if nothing is kept. -/
theorem runFrom_openPrompt_forgetful {descend : a.forgetful.Openable visiting → Analyzing Analysis}
    {key : String} {info : NodeInfo} {p : Prompt} (hp : p.path ∈ a.forgetful.paths)
    (cache : Cache) :
    (runFrom cache (a.forgetful.openPrompt visiting descend key info p hp)).1 =
      if h : p.path ∈ visiting then stopped (.circularReference p.path) info
      else (runFrom cache (descend ⟨p, hp, h⟩)).1.mapError (·.inPrompt p.path) := by
  unfold openPrompt
  split
  -- a circle is seen by the stack, with or without memory
  · rfl
  · next h =>
    -- nothing is kept, so that the prompt is analysed
    rw [kept_forgetful, pure_bind]
    dsimp only
    have hrethrow := runFrom_rethrow (descend ⟨p, hp, h⟩) (·.inPrompt p.path) cache
    rcases hrun : runFrom cache (descend ⟨p, hp, h⟩) with ⟨problem | analysis, cache'⟩
    · rw [hrun] at hrethrow
      rw [runFrom_bind_error hrethrow]
      rfl
    · rw [hrun] at hrethrow
      rw [runFrom_bind_ok hrethrow, keep_forgetful, pure_bind]
      rfl

variable [ConfigReader]

/-- What was kept before does not count if nothing is kept. -/
theorem mirrors_forgetful (visiting : List String) (origin : Option String) (source : String) :
    Mirrors (fun _ _ => True) (a.forgetful.analyzeIn visiting origin source)
      (a.forgetful.analyzeIn visiting origin source) := by
  -- the induction follows the references: each opens one more prompt
  induction visiting, origin, source using analyzeIn.induct a.forgetful with
  | case1 visiting origin source ih =>
    rw [analyzeIn_eq_document]
    refine mirrors_document rfl fun t _ ref _ cache cache' _ => ⟨?_, trivial⟩
    unfold followIn
    cases hr : a.forgetful.resolver with
    | none => rw [reference_of_none hr, Analyzer.fail, runFrom_throw, runFrom_throw]
    | some r =>
      rw [reference_of_find hr rfl]
      split
      · rfl
      · rw [kept_forgetful, pure_bind]
        dsimp only
        split
        · rfl
        · rfl
        · rw [runFrom_openPrompt_forgetful, runFrom_openPrompt_forgetful]
          split
          · rfl
          · rw [(ih ⟨_, _, _⟩ cache cache' trivial).1]

theorem fst_analyzeIn_forgetful (cache : Cache) :
    (runFrom cache (a.forgetful.analyzeIn visiting origin source)).1 =
      a.outcome visiting origin source :=
  (mirrors_forgetful visiting origin source cache [] trivial).1

/-- References are followed by `answer` if nothing is kept. -/
theorem fst_followIn_forgetful (name : String) (info : NodeInfo) (cache : Cache) :
    (runFrom cache (a.forgetful.followIn visiting origin name info)).1 =
      a.answer visiting origin name info := by
  unfold followIn answer
  change _ = match a.forgetful.resolver with | none => _ | some r => _
  cases hr : a.forgetful.resolver with
  | none =>
    rw [reference_of_none hr]
    rfl
  | some r =>
    dsimp only
    -- the three answers of a resolver; only a prompt is opened
    rcases hfind : r.find name origin with e | (_ | p)
    all_goals
      rw [reference_of_find hr hfind]
      split
      · rfl
      rw [kept_forgetful, pure_bind]
    · rfl
    · rfl
    · dsimp only
      rw [runFrom_openPrompt_forgetful]
      split
      · rfl
      · rw [fst_analyzeIn_forgetful]

end Forgetful

/-! ### Analyses that succeed -/

section Success

variable [ConfigReader] {a : Analyzer} {visiting : List String} {origin : Option String}
  {source : String} {analysis : Analysis}

theorem answer_eq_ok {name : String} {info : NodeInfo} :
    a.answer visiting origin name info = .ok analysis ↔
      ∃ r p, a.resolver = some r ∧ r.find name origin = .ok (some p) ∧
        Path.join name origin ∉ visiting ∧ p.path ∉ visiting ∧
        a.outcome (p.path :: visiting) (some p.path) p.text = .ok analysis := by
  -- an answer comes through five doors: a resolver, a prompt, a free name, a free path, a success
  constructor
  · intro h
    unfold answer at h
    cases hr : a.resolver with
    | none =>
      rw [hr] at h
      exact nomatch h
    | some r =>
      rw [hr] at h
      dsimp only at h
      split at h
      · exact nomatch h
      · next hkey =>
        rcases hfind : r.find name origin with e | (_ | p)
        · rw [hfind] at h
          exact nomatch h
        · rw [hfind] at h
          exact nomatch h
        · rw [hfind] at h
          dsimp only at h
          split at h
          · exact nomatch h
          · next hnew =>
            rcases hout : a.outcome (p.path :: visiting) (some p.path) p.text with problem | child
            · rw [hout] at h
              exact nomatch h
            · rw [hout] at h
              exact ⟨r, p, rfl, hfind, hkey, hnew, hout.trans h⟩
  · rintro ⟨r, p, hr, hfind, hkey, hnew, hout⟩
    unfold answer
    rw [hr]
    dsimp only
    rw [if_neg hkey, hfind]
    dsimp only
    rw [if_neg hnew, hout]
    rfl

theorem answer_of_mem {r : Resolver} {name : String} {info : NodeInfo} (hr : a.resolver = some r)
    (hkey : Path.join name origin ∈ visiting) :
    a.answer visiting origin name info =
      stopped (.circularReference (Path.join name origin)) info := by
  rw [answer, hr]
  exact if_pos hkey

theorem answer_of_not_mem {r : Resolver} {name : String} {info : NodeInfo}
    (hr : a.resolver = some r)
    (hkey : Path.join name origin ∉ visiting) {found : Except ResolveError (Option Prompt)} :
    r.find name origin = found →
      a.answer visiting origin name info =
        match found with
        | .error e => stopped (.referenceFailed name e.message) info
        | .ok none => stopped (.referenceNotFound name) info
        | .ok (some p) =>
          if p.path ∈ visiting then stopped (.circularReference p.path) info
          else (a.outcome (p.path :: visiting) (some p.path) p.text).mapError
            (·.inPrompt p.path) := by
  rintro rfl
  rw [answer, hr]
  exact if_neg hkey

/-- The outcome depends on the prompts that are open only through the answers to the references. -/
theorem outcome_congr {visiting' : List String}
    (h : ∀ t, Template.read source = .ok t → ∀ r ∈ t.root.references,
      a.answer visiting origin r.name r.info = a.answer visiting' origin r.name r.info) :
    a.outcome visiting origin source = a.outcome visiting' origin source := by
  unfold outcome
  rw [analyzeIn_eq_document, analyzeIn_eq_document]
  refine (mirrors_document (R := fun _ _ => True) rfl
    (fun t hread r hmem cache cache' _ => ?_) [] [] trivial).1
  refine ⟨?_, trivial⟩
  rw [fst_followIn_forgetful, fst_followIn_forgetful]
  exact h t hread r hmem

/-- An analysis that succeeds has followed all references of its prompt, and has taken over which
prompts can be reached through them. -/
theorem outcome_eq_ok (h : a.outcome visiting origin source = .ok analysis) :
    ∃ (t : Template) (found : List (Reference × Analysis)), Template.read source = .ok t ∧
      found.map Prod.fst = t.root.references ∧
      (∀ f ∈ found, a.answer visiting origin f.1.name f.1.info = .ok f.2) ∧
      analysis.path = origin ∧
      ∀ x, x ∈ analysis.references ↔ ∃ f ∈ found, f.2.path = some x ∨ x ∈ f.2.references := by
  unfold outcome at h
  rw [analyzeIn_eq_document] at h
  obtain ⟨t, s, hread, hsurvey, -, rfl, -⟩ := document_eq_ok (Prod.ext h rfl)
  obtain ⟨found, hrefs, hcollected⟩ := t.root.collects_survey _ _ _ hsurvey
  refine ⟨t, found, hread, hrefs, fun f hf => ?_, rfl, fun x => ?_⟩
  · obtain ⟨cache, cache', hrun⟩ := hcollected.followed.answered f hf
    rw [← fst_followIn_forgetful f.1.name f.1.info cache, hrun]
  -- the references are those that were followed, and what these follow themselves
  · show x ∈ s.references ↔ _
    rw [hcollected.references, mem_foldl_putPaths]
    constructor
    · rintro (hnone | ⟨child, hchild, hx⟩)
      · exact nomatch hnone
      · obtain ⟨f, hf, rfl⟩ := List.mem_map.1 hchild
        exact ⟨f, hf, hx⟩
    · rintro ⟨f, hf, hx⟩
      exact .inr ⟨f.2, List.mem_map_of_mem hf, hx⟩

end Success

end Analyzer

/-! ### Prompts and their names -/

/-- A reference that is joined to a path leads to the prompt with this path, if it leads to any. -/
def Resolver.Exact (r : Resolver) (path : String) : Prop :=
  ∀ {name origin p}, r.find name origin = .ok (some p) → Path.join name origin = path →
    p.path = path

/-- A key leads to a prompt: as a joined path, and as the path of a prompt. -/
structure Resolver.Leads (r : Resolver) (key : String) (p : Prompt) : Prop where
  joined : ∀ {name origin}, Path.join name origin = key → r.find name origin = .ok (some p)
  path : ∀ {q}, r.Finds q → q.path = key → q = p

namespace Resolver.Canonical

variable {r : Resolver} {p : Prompt}

/-- There is only one prompt with a path. -/
theorem eq_of_path (h : r.Canonical) {q : Prompt} (hp : r.Finds p) (hq : r.Finds q)
    (heq : q.path = p.path) : q = p := by
  have hfind : r.find p.path none = .ok (some q) := heq ▸ h.root hq
  exact Option.some.inj (Except.ok.inj (hfind.symm.trans (h.root hp)))

theorem exact (h : r.Canonical) (hp : r.Finds p) : r.Exact p.path := by
  intro name origin q hfind hjoin
  exact congrArg Prompt.path (Option.some.inj (Except.ok.inj (hfind.symm.trans (h.own hp hjoin))))

theorem leads_path (h : r.Canonical) (hp : r.Finds p) : r.Leads p.path p :=
  ⟨h.own hp, fun hq heq => h.eq_of_path hp hq heq⟩

theorem leads_joined (h : r.Canonical) {name : String} {origin : Option String}
    (hfind : r.find name origin = .ok (some p)) : r.Leads (Path.join name origin) p := by
  refine ⟨h.joined hfind, fun {q} hq heq => ?_⟩
  exact Option.some.inj (Except.ok.inj ((h.own hq heq.symm).symm.trans hfind))

end Resolver.Canonical

namespace Analyzer

/-! ### Other prompts that are open -/

section Stacks

variable [ConfigReader] {a : Analyzer} {r : Resolver} {visiting visiting' : List String}
  {origin : Option String} {source : String} {analysis : Analysis}

/-- An analysis that succeeds does so while other prompts are open, as long as it comes across none
of them. -/
theorem outcome_of_open (hr : a.resolver = some r)
    (h : a.outcome visiting origin source = .ok analysis)
    (hopen : ∀ x ∈ visiting', x ∈ visiting ∨ r.Exact x ∧ x ∉ analysis.references) :
    a.outcome visiting' origin source = .ok analysis := by
  -- the induction follows the references; what can be reached from a child can be reached from the
  -- prompt
  induction visiting, origin, source using analyzeIn.induct a generalizing visiting' analysis with
  | case1 visiting origin source ih =>
    obtain ⟨t, found, hread, hrefs, hanswers, -, hreferences⟩ := outcome_eq_ok h
    rw [← h]
    refine (outcome_congr fun t' hread' ref href => ?_).symm
    obtain rfl : t = t' := Except.ok.inj (hread.symm.trans hread')
    rw [← hrefs] at href
    obtain ⟨f, hf, rfl⟩ := List.mem_map.1 href
    have hanswer := hanswers f hf
    obtain ⟨r', p, hr', hfind, hkey, hnew, hchild⟩ := answer_eq_ok.1 hanswer
    obtain rfl : r = r' := Option.some.inj (hr.symm.trans hr')
    obtain ⟨-, -, -, -, -, hpath, -⟩ := outcome_eq_ok hchild
    have hmem : p.path ∈ a.paths := mem_paths_of_find hr hfind
    have hreached : p.path ∈ analysis.references := (hreferences _).2 ⟨f, hf, .inl hpath⟩
    -- the child's own path is new, for it can be reached from the prompt
    have hnew' : p.path ∉ visiting' := by
      intro hin
      rcases hopen _ hin with hold | ⟨-, hnot⟩
      · exact hnew hold
      · exact hnot hreached
    -- a joined path that is the path of an open prompt would lead to that prompt
    have hkey' : Path.join f.1.name origin ∉ visiting' := by
      intro hin
      rcases hopen _ hin with hold | ⟨hexact, hnot⟩
      · exact hkey hold
      · exact hnot (hexact hfind rfl ▸ hreached)
    rw [hanswer]
    refine (answer_eq_ok.2 ⟨r, p, hr, hfind, hkey', hnew', ?_⟩).symm
    refine ih ⟨p, hmem, hnew⟩ hchild fun x hx => ?_
    rcases List.mem_cons.1 hx with rfl | hx
    · exact .inl List.mem_cons_self
    · rcases hopen x hx with hold | ⟨hexact, hnot⟩
      · exact .inl (List.mem_cons_of_mem _ hold)
      · exact .inr ⟨hexact, fun hin => hnot ((hreferences x).2 ⟨f, hf, .inr hin⟩)⟩

end Stacks

/-! ### Analyses that are kept -/

/-- An analysis that is kept is the outcome for the prompt that its key leads to, while the prompts
at `visiting` are open; and the prompts it has come across are kept as well. -/
structure Entry [ConfigReader] (a : Analyzer) (r : Resolver) (visiting : List String)
    (cache : Cache) (key : String) (analysis : Analysis) (p : Prompt) : Prop where
  leads : r.Leads key p
  found : r.Finds p
  closed : p.path ∉ visiting
  outcome : a.outcome (p.path :: visiting) (some p.path) p.text = .ok analysis
  own : cache.has p.path
  inner : ∀ x ∈ analysis.references, cache.has x

/-- All analyses that are kept are those that would be made now. -/
def Faithful [ConfigReader] (a : Analyzer) (r : Resolver) (visiting : List String) (cache : Cache) :
    Prop :=
  ∀ key analysis, cache.get? key = some analysis → ∃ p, a.Entry r visiting cache key analysis p

section Faithful

variable [ConfigReader] {a : Analyzer} {r : Resolver} {visiting : List String} {cache : Cache}
  {p : Prompt}

/-- A prompt is opened that is not among those that are kept. -/
theorem Faithful.opened (hr : a.resolver = some r) (h : a.Faithful r visiting cache) {path : String}
    (hexact : r.Exact path) (hlost : ¬ cache.has path) : a.Faithful r (path :: visiting) cache := by
  intro key analysis hget
  obtain ⟨q, hq⟩ := h key analysis hget
  have hother : q.path ≠ path := fun heq => hlost (heq ▸ hq.own)
  refine ⟨q, hq.leads, hq.found, ?_, ?_, hq.own, hq.inner⟩
  · exact fun hin => (List.mem_cons.1 hin).elim hother hq.closed
  · refine outcome_of_open hr hq.outcome fun x hx => ?_
    rcases List.mem_cons.1 hx with rfl | hx
    · exact .inl List.mem_cons_self
    · rcases List.mem_cons.1 hx with rfl | hx
      · exact .inr ⟨hexact, fun hin => hlost (hq.inner _ hin)⟩
      · exact .inl (List.mem_cons_of_mem _ hx)

/-- A prompt is closed again. -/
theorem Faithful.closed (hr : a.resolver = some r) {path : String}
    (h : a.Faithful r (path :: visiting) cache) :
    a.Faithful r visiting cache := by
  intro key analysis hget
  obtain ⟨q, hq⟩ := h key analysis hget
  refine ⟨q, hq.leads, hq.found, fun hin => hq.closed (List.mem_cons_of_mem _ hin), ?_, hq.own,
    hq.inner⟩
  refine outcome_of_open hr hq.outcome fun x hx => .inl ?_
  rcases List.mem_cons.1 hx with rfl | hx
  · exact List.mem_cons_self
  · exact List.mem_cons_of_mem _ (List.mem_cons_of_mem _ hx)

/-- The cache with one more analysis, under the path of its prompt and under a key. -/
def keeping (path key : String) (analysis : Analysis) (cache : Cache) : Cache :=
  let cache := cache.put path analysis
  if cache.has key then cache else cache.put key analysis

omit [ConfigReader] in
theorem get?_keeping {path key k : String} {analysis found : Analysis}
    (h : (keeping path key analysis cache).get? k = some found) :
    (k = path ∨ k = key) ∧ found = analysis ∨ cache.get? k = some found := by
  unfold keeping at h
  dsimp only at h
  split at h
  · rw [Fields.get?_put] at h
    split at h
    · next heq => exact .inl ⟨.inl heq.symm, (Option.some.inj h).symm⟩
    · exact .inr h
  · rw [Fields.get?_put, Fields.get?_put] at h
    split at h
    · next heq => exact .inl ⟨.inr heq.symm, (Option.some.inj h).symm⟩
    · split at h
      · next heq => exact .inl ⟨.inl heq.symm, (Option.some.inj h).symm⟩
      · exact .inr h

omit [ConfigReader] in
theorem has_put {fields : Cache} {key k : String} {analysis : Analysis} :
    (fields.put key analysis).has k ↔ key = k ∨ fields.has k := by
  unfold Fields.has
  rw [Fields.get?_put]
  split
  · next heq => simp [heq]
  · next hne => simp [hne]

omit [ConfigReader] in
theorem has_keeping {path key k : String} {analysis : Analysis} (h : k = path ∨ cache.has k) :
    (keeping path key analysis cache).has k := by
  have hput : (cache.put path analysis).has k := has_put.2 (h.imp_left Eq.symm)
  unfold keeping
  dsimp only
  split
  · exact hput
  · exact has_put.2 (.inr hput)

/-- The analysis of a prompt is kept. -/
theorem Faithful.kept (hcanonical : r.Canonical) (h : a.Faithful r visiting cache) {name : String}
    {origin : Option String} (hfind : r.find name origin = .ok (some p)) (hnew : p.path ∉ visiting)
    {analysis : Analysis}
    (hout : a.outcome (p.path :: visiting) (some p.path) p.text = .ok analysis)
    (hinner : ∀ x ∈ analysis.references, cache.has x) :
    a.Faithful r visiting (keeping p.path (Path.join name origin) analysis cache) := by
  intro key found hget
  rcases get?_keeping hget with ⟨hkey, rfl⟩ | hold
  · refine ⟨p, ?_, ⟨name, origin, hfind⟩, hnew, hout, has_keeping (.inl rfl), fun x hx => ?_⟩
    · rcases hkey with rfl | rfl
      · exact hcanonical.leads_path ⟨name, origin, hfind⟩
      · exact hcanonical.leads_joined hfind
    · exact has_keeping (.inr (hinner x hx))
  · obtain ⟨q, hq⟩ := h key found hold
    exact ⟨q, hq.leads, hq.found, hq.closed, hq.outcome, has_keeping (.inr hq.own),
      fun x hx => has_keeping (.inr (hq.inner x hx))⟩

end Faithful

/-! ### Analyses that keep analyses -/

/-- How an analysis ends that keeps analyses: as expected, and if it succeeds, it has kept the
analyses of all prompts it has come across. -/
structure Recalls [ConfigReader] (a : Analyzer) (r : Resolver) (visiting : List String)
    (expected : Except Problem Analysis)
    (cache : Cache) (run : Except Problem Analysis × Cache) : Prop where
  result : run.1 = expected
  faithful : a.Faithful r visiting run.2
  grown : ∀ {analysis}, expected = .ok analysis → ∀ {key}, cache.has key → run.2.has key
  inner : ∀ {analysis}, expected = .ok analysis → ∀ x ∈ analysis.references, run.2.has x

section Keeping

variable [ConfigReader] {a : Analyzer} {r : Resolver} {visiting : List String}
  {origin : Option String} {cache : Cache} {name : String} {info : NodeInfo}

/-- Where nothing is found out, nothing is kept. -/
theorem Recalls.stopped {fault : Fault} (h : a.Faithful r visiting cache) :
    a.Recalls r visiting (stopped fault info) cache (runFrom cache (fail fault info)) :=
  ⟨rfl, h, (nomatch ·), (nomatch ·)⟩

/-- What is kept is what would be found out. -/
theorem Recalls.known {key : String} {known : Analysis} {p : Prompt}
    (h : a.Faithful r visiting cache) (hentry : a.Entry r visiting cache key known p) :
    a.Recalls r visiting (.ok known) cache (.ok known, cache) := by
  refine ⟨rfl, h, fun _ _ hkey => hkey, fun hok x hx => ?_⟩
  obtain rfl := Except.ok.inj hok
  exact hentry.inner x hx

variable {descend : a.Openable visiting → Analyzing Analysis}

/-- How a prompt is opened that was found. -/
theorem recalls_openPrompt (hcaching : a.caching = true) (hr : a.resolver = some r)
    (hcanonical : r.Canonical) {p : Prompt} (hfind : r.find name origin = .ok (some p))
    (hkey : Path.join name origin ∉ visiting)
    (hdescend : ∀ next cache, a.Faithful r (next.prompt.path :: visiting) cache →
      a.Recalls r (next.prompt.path :: visiting)
        (a.outcome (next.prompt.path :: visiting) (some next.prompt.path) next.prompt.text) cache
        (runFrom cache (descend next)))
    (h : a.Faithful r visiting cache) (hp : p.path ∈ a.paths) :
    a.Recalls r visiting (a.answer visiting origin name info) cache
        (runFrom cache (a.openPrompt visiting descend (Path.join name origin) info p hp)) ∧
      ((a.answer visiting origin name info).isOk → (runFrom cache
        (a.openPrompt visiting descend (Path.join name origin) info p hp)).2.has p.path) := by
  have hanswer : a.answer visiting origin name info =
      if p.path ∈ visiting then Analyzer.stopped (.circularReference p.path) info
      else (a.outcome (p.path :: visiting) (some p.path) p.text).mapError (·.inPrompt p.path) :=
    answer_of_not_mem hr hkey hfind
  have hfound : r.Finds p := ⟨name, origin, hfind⟩
  rw [hanswer]
  unfold openPrompt
  by_cases hopen : p.path ∈ visiting
  · rw [dif_pos hopen, if_pos hopen]
    exact ⟨.stopped h, (nomatch ·)⟩
  · have hkept : runFrom cache (a.kept p.path) = (.ok (cache.get? p.path), cache) := by
      rw [Analyzer.kept, if_pos hcaching]
      rfl
    rw [dif_neg hopen, if_neg hopen, runFrom_bind_ok hkept]
    cases hget : cache.get? p.path with
    | some known =>
      -- its analysis was kept under its path
      obtain ⟨q, hentry⟩ := h _ _ hget
      obtain rfl : p = q := hentry.leads.path hfound rfl
      rw [hentry.outcome]
      exact ⟨.known h hentry, fun _ => hentry.own⟩
    | none =>
      have hopened := h.opened hr (hcanonical.exact hfound) (Fields.not_has_of_get? hget)
      have hinside := hdescend ⟨p, hp, hopen⟩ cache hopened
      have hrethrow := runFrom_rethrow (descend ⟨p, hp, hopen⟩) (·.inPrompt p.path) cache
      rcases hrun : runFrom cache (descend ⟨p, hp, hopen⟩) with ⟨problem | analysis, cache'⟩
      · rw [hrun] at hinside hrethrow
        dsimp only at hinside ⊢
        rw [runFrom_bind_error hrethrow, ← hinside.result]
        exact ⟨⟨rfl, hinside.faithful.closed hr, (nomatch ·), (nomatch ·)⟩, (nomatch ·)⟩
      · rw [hrun] at hinside hrethrow
        have hout := hinside.result.symm
        dsimp only at hout ⊢
        have hkeep : runFrom cache' (a.keep p.path (Path.join name origin) analysis) =
            (.ok (), keeping p.path (Path.join name origin) analysis cache') := by
          rw [keep, if_pos hcaching]
          rfl
        rw [runFrom_bind_ok hrethrow, runFrom_bind_ok hkeep, hout]
        have hfaithful := (hinside.faithful.closed hr).kept hcanonical hfind hopen hout
          (hinside.inner hout)
        refine ⟨⟨rfl, hfaithful, fun _ _ hold => ?_, fun hok x hx => ?_⟩,
          fun _ => has_keeping (.inl rfl)⟩
        · exact has_keeping (.inr (hinside.grown hout hold))
        · obtain rfl := Except.ok.inj hok
          exact has_keeping (.inr (hinside.inner hout x hx))

/-- How a reference is followed. -/
theorem recalls_reference (hcaching : a.caching = true) (hr : a.resolver = some r)
    (hcanonical : r.Canonical)
    (hdescend : ∀ next cache, a.Faithful r (next.prompt.path :: visiting) cache →
      a.Recalls r (next.prompt.path :: visiting)
        (a.outcome (next.prompt.path :: visiting) (some next.prompt.path) next.prompt.text) cache
        (runFrom cache (descend next)))
    (h : a.Faithful r visiting cache) :
    a.Recalls r visiting (a.answer visiting origin name info) cache
        (runFrom cache (a.reference visiting descend origin name info)) ∧
      ∀ child, a.answer visiting origin name info = .ok child → ∀ x, child.path = some x →
        (runFrom cache (a.reference visiting descend origin name info)).2.has x := by
  obtain ⟨found, hfind⟩ : ∃ found, r.find name origin = found := ⟨_, rfl⟩
  rw [reference_of_find hr hfind]
  by_cases hkey : Path.join name origin ∈ visiting
  · rw [if_pos hkey, answer_of_mem hr hkey]
    exact ⟨.stopped h, fun child hok => nomatch hok⟩
  · have hkept : runFrom cache (a.kept (Path.join name origin)) =
        (.ok (cache.get? (Path.join name origin)), cache) := by
      rw [Analyzer.kept, if_pos hcaching]
      rfl
    rw [if_neg hkey, runFrom_bind_ok hkept]
    cases hget : cache.get? (Path.join name origin) with
    | some known =>
      -- what was kept under the joined path is the analysis of the prompt that would be found
      obtain ⟨p, hentry⟩ := h _ _ hget
      have hanswer : a.answer visiting origin name info = .ok known :=
        answer_eq_ok.2 ⟨r, p, hr, hentry.leads.joined rfl, hkey, hentry.closed, hentry.outcome⟩
      obtain ⟨-, -, -, -, -, hpath, -⟩ := outcome_eq_ok hentry.outcome
      rw [hanswer]
      refine ⟨.known h hentry, fun child hok x hx => ?_⟩
      obtain rfl := Except.ok.inj hok
      obtain rfl := Option.some.inj (hpath.symm.trans hx)
      exact hentry.own
    | none =>
      rcases found with e | (_ | p)
      · rw [answer_of_not_mem hr hkey hfind]
        exact ⟨.stopped h, fun child hok => nomatch hok⟩
      · rw [answer_of_not_mem hr hkey hfind]
        exact ⟨.stopped h, fun child hok => nomatch hok⟩
      · obtain ⟨hrecalls, hown⟩ := recalls_openPrompt hcaching hr hcanonical hfind hkey
          hdescend h (mem_paths_of_find hr hfind)
        refine ⟨hrecalls, fun child hok x hx => ?_⟩
        obtain ⟨r', q, hr', hfind', -, -, hout⟩ := answer_eq_ok.1 hok
        obtain rfl : r = r' := Option.some.inj (hr.symm.trans hr')
        obtain rfl : p = q := Option.some.inj (Except.ok.inj (hfind.symm.trans hfind'))
        obtain ⟨-, -, -, -, -, hpath, -⟩ := outcome_eq_ok hout
        obtain rfl := Option.some.inj (hpath.symm.trans hx)
        exact hown (by rw [hok]; rfl)

/-- Following references one after the other. -/
theorem recalls_followed {follow : Follow} {cache' : Cache} {found : List (Reference × Analysis)}
    (hfollow : ∀ name info cache, a.Faithful r visiting cache →
      a.Recalls r visiting (a.answer visiting origin name info) cache
      (runFrom cache (follow name info)) ∧
        ∀ child, a.answer visiting origin name info = .ok child → ∀ x, child.path = some x →
          (runFrom cache (follow name info)).2.has x)
    (hfollowed : Followed follow cache found cache') (h : a.Faithful r visiting cache) :
    (∀ {key}, cache.has key → cache'.has key) ∧
      ∀ f ∈ found, ∀ x, f.2.path = some x ∨ x ∈ f.2.references → cache'.has x := by
  -- the induction is on the references; what is kept once stays
  induction hfollowed with
  | nil => exact ⟨id, fun _ hf => nomatch hf⟩
  | @cons cache cache₁ cache₂ ref child rest answer later ih =>
    obtain ⟨hrecalls, hown⟩ := hfollow ref.name ref.info cache h
    rw [answer] at hrecalls hown
    have hok := hrecalls.result.symm
    obtain ⟨hgrown, hrest⟩ := ih hrecalls.faithful
    refine ⟨fun hold => hgrown (hrecalls.grown hok hold), fun f hf x hx => ?_⟩
    rcases List.mem_cons.1 hf with rfl | hf
    · rcases hx with hpath | hinner
      · exact hgrown (hown child hok x hpath)
      · exact hgrown (hrecalls.inner hok x hinner)
    · exact hrest f hf x hx

/-- An analysis that succeeds has kept the analyses of all prompts that can be reached. -/
theorem has_of_document {follow : Follow} {source : String} {cache' : Cache} {analysis : Analysis}
    (hfollow : ∀ name info cache, a.Faithful r visiting cache →
      a.Recalls r visiting (a.answer visiting origin name info) cache
      (runFrom cache (follow name info)) ∧
        ∀ child, a.answer visiting origin name info = .ok child → ∀ x, child.path = some x →
          (runFrom cache (follow name info)).2.has x)
    (hrun : runFrom cache (a.document follow origin source) = (.ok analysis, cache'))
    (h : a.Faithful r visiting cache) :
    (∀ {key}, cache.has key → cache'.has key) ∧ ∀ x ∈ analysis.references, cache'.has x := by
  obtain ⟨t, s, -, hsurvey, -, rfl, rfl⟩ := document_eq_ok hrun
  obtain ⟨found, -, hcollected⟩ := t.root.collects_survey _ _ _ hsurvey
  obtain ⟨hgrown, hinner⟩ := recalls_followed hfollow hcollected.followed h
  refine ⟨hgrown, fun x hx => ?_⟩
  replace hx : x ∈ s.references := hx
  rw [hcollected.references, mem_foldl_putPaths] at hx
  rcases hx with hnone | ⟨child, hchild, hx⟩
  · exact nomatch hnone
  · obtain ⟨f, hf, rfl⟩ := List.mem_map.1 hchild
    exact hinner f hf x hx

/-- An analysis that keeps analyses ends like one that keeps nothing, and keeps what would be found
out. -/
theorem recalls_analyzeIn (hcaching : a.caching = true) (hr : a.resolver = some r)
    (hcanonical : r.Canonical) (visiting : List String) (origin : Option String) (source : String)
    (cache : Cache) (h : a.Faithful r visiting cache) :
    a.Recalls r visiting (a.outcome visiting origin source) cache
      (runFrom cache (a.analyzeIn visiting origin source)) := by
  -- the induction follows the references: each opens one more prompt
  induction visiting, origin, source using analyzeIn.induct a generalizing cache with
  | case1 visiting origin source ih =>
    have hfollow (name : String) (info : NodeInfo) (cache : Cache)
      (h : a.Faithful r visiting cache) :
        a.Recalls r visiting (a.answer visiting origin name info) cache
            (runFrom cache (a.followIn visiting origin name info)) ∧
          ∀ child, a.answer visiting origin name info = .ok child → ∀ x, child.path = some x →
            (runFrom cache (a.followIn visiting origin name info)).2.has x :=
      recalls_reference hcaching hr hcanonical ih h
    -- both analyses are answered alike
    have hmirrors : Mirrors (fun cache _ => a.Faithful r visiting cache)
        (a.document (a.followIn visiting origin) origin source)
        (a.forgetful.document (a.forgetful.followIn visiting origin) origin source) := by
      refine mirrors_document rfl fun t _ ref _ cache cache' hfaithful => ?_
      obtain ⟨hrecalls, -⟩ := hfollow ref.name ref.info cache hfaithful
      rw [fst_followIn_forgetful]
      exact ⟨hrecalls.result, hrecalls.faithful⟩
    obtain ⟨hresult, hfaithful⟩ := hmirrors cache [] h
    rw [outcome, analyzeIn_eq_document, analyzeIn_eq_document, ← hresult]
    have hhas {analysis : Analysis} (hok :
        (runFrom cache (a.document (a.followIn visiting origin) origin source)).1 = .ok analysis) :=
      has_of_document hfollow (Prod.ext hok rfl) h
    exact ⟨rfl, hfaithful, fun hok => (hhas hok).1, fun hok => (hhas hok).2⟩

/-- An analysis that starts with nothing kept ends like one that keeps nothing. -/
theorem fst_analyze_eq_outcome (hcaching : a.caching = true) (hr : a.resolver = some r)
    (hcanonical : r.Canonical) (path : Option String) (source : String) :
    (runFrom [] (a.analyze path source)).1 = a.outcome path.toList path source :=
  (recalls_analyzeIn hcaching hr hcanonical path.toList path source [] fun _ _ hget =>
    nomatch hget).result

end Keeping

end Analyzer

/-- An analysis that keeps the analyses of referenced prompts ends like one that keeps nothing, if
prompts are found under their own paths, of which there are finitely many. -/
theorem analyze_forgetful [ConfigReader] {r : Resolver} (h : r.Canonical) (path : Option String)
    (text : String) :
    (runFrom [] ((Analyzer.ofResolver (some r)).analyze path text)).1 =
      (runFrom [] ((Analyzer.ofResolver (some r)).forgetful.analyze path text)).1 :=
  Analyzer.fst_analyze_eq_outcome rfl rfl h path text

/-- A prompt that can be reached in two ways. -/
theorem analyze_forgetful_diamond :
    (Resolver.ofPrompts [("a", "<ref prompt='c' />"), ("b", "<ref prompt='/c' />"),
      ("c", "x")]).Canonical ∧
      (runFrom [] ((Analyzer.ofResolver (some (.ofPrompts
          [("a", "<ref prompt='c' />"), ("b", "<ref prompt='/c' />"), ("c", "x")]))).analyze none
            "<ref prompt='a' /><ref prompt='b' />")).1 =
        (runFrom [] ((Analyzer.ofResolver (some (.ofPrompts
          [("a", "<ref prompt='c' />"), ("b", "<ref prompt='/c' />"),
            ("c", "x")]))).forgetful.analyze none
            "<ref prompt='a' /><ref prompt='b' />")).1 :=
  ⟨Resolver.canonical_ofPrompts _, analyze_forgetful (Resolver.canonical_ofPrompts _) _ _⟩

namespace Resolver

/-- What a joined path is replaced by. -/
def replacement (aliases : Fields String) (path : String) : String :=
  (aliases.get? path).getD path

/-- A resolver that replaces joined paths by others before it looks them up. -/
def aliased (aliases prompts : Fields String) : Resolver :=
  .ofListed prompts.keys fun path origin =>
    .ok ((prompts.get? (replacement aliases (Path.join path origin))).map fun text =>
      ⟨replacement aliases (Path.join path origin), text⟩)

/-- A prompt is found again from the root if its path leads back to itself. -/
theorem find_aliased_root {aliases prompts : Fields String} {p : Prompt}
    (h : (aliased aliases prompts).Finds p)
    (hroot : replacement aliases (Path.join p.path none) = p.path) :
    (aliased aliases prompts).find p.path none = .ok (some p) := by
  obtain ⟨name, origin, hfind⟩ := h
  have hmem : p.path ∈ prompts.keys := mem_of_listed hfind
  obtain ⟨text, htext, rfl⟩ := Option.map_eq_some_iff.1 (Except.ok.inj (eq_of_listed hfind))
  dsimp only at hroot hmem
  show listed _ (.ok ((prompts.get? (replacement aliases (Path.join _ none))).map _)) = _
  rw [hroot, htext]
  exact congrArg Except.ok (if_pos hmem)

/-- A resolver whose prompts are found again from the root, though a reference that is joined to the
path of one of them leads to another one. -/
def crossed : Resolver :=
  aliased [("child", "./child"), ("./child", "q"), ("other", "./other")]
    [("./child", "C"), ("q", "D"), ("./other", "<ref prompt='child' />")]

end Resolver

/-- It is not enough that prompts are found again from the root: then a reference may end at an
analysis that was kept for another prompt. -/
theorem analyze_forgetful_fails :
    (∀ name origin name' origin', Path.join name origin = Path.join name' origin' →
      Resolver.crossed.find name origin = Resolver.crossed.find name' origin') ∧
    (∀ p, Resolver.crossed.Finds p → Resolver.crossed.find p.path none = .ok (some p)) ∧
    (runFrom [] ((Analyzer.ofResolver (some .crossed)).analyze none
        "<ref prompt='child' /><ref prompt='other' />")).1 ≠
      (runFrom [] ((Analyzer.ofResolver (some .crossed)).forgetful.analyze none
        "<ref prompt='child' /><ref prompt='other' />")).1 := by
  refine ⟨fun name origin name' origin' hjoin => ?_, fun p hfinds => ?_, fun heq => ?_⟩
  · simp only [Resolver.crossed, Resolver.aliased, Resolver.ofListed, hjoin]
  · -- there are three prompts, and the path of each leads back to itself
    have hroot : ∀ key ∈ Resolver.crossed.paths, Resolver.replacement
        [("child", "./child"), ("./child", "q"), ("other", "./other")]
        (Path.join key none) = key := by
      decide +kernel
    obtain ⟨name, origin, hfind⟩ := hfinds
    have hback := hroot _ (Resolver.crossed.mem_paths hfind)
    exact Resolver.find_aliased_root ⟨name, origin, hfind⟩ hback
  · have hstack (a : Analyzer) (hpaths : a.paths.length ≤ 3) :
        (runFrom [] (a.analyze none "<ref prompt='child' /><ref prompt='other' />")).1 =
          (runFrom ⟨[],
            []⟩ (Inquiry.analyze a 3 none "<ref prompt='child' /><ref prompt='other' />")).1 := by
      rw [Inquiry.runFrom_analyze hpaths]
      rfl
    have hkept : (runFrom ⟨[], []⟩ (Inquiry.analyze (Analyzer.ofResolver (some .crossed)) 3 none
        "<ref prompt='child' /><ref prompt='other' />")).1.toOption.map Analysis.resolved =
          some "CC" := by
      decide +kernel
    have hforgotten : (runFrom
      ⟨[], []⟩ (Inquiry.analyze (Analyzer.ofResolver (some .crossed)).forgetful 3 none
        "<ref prompt='child' /><ref prompt='other' />")).1.toOption.map Analysis.resolved =
          some "CD" := by
      decide +kernel
    rw [hstack _ (by decide), hstack _ (by decide)] at heq
    rw [heq, hforgotten] at hkept
    exact absurd hkept (by decide)

end PromptMarkup

/-
Several documents, one after the other, with one analyzer.

The analyses of prompts in memory that were made for one document are kept for the next ones, though
these open other paths.

* `Analyzer.session` — what the analyses of several documents end with, one after the other;
* `Analyzer.faithful_analyzeIn` — whatever is open, what is kept would also be found out while
  nothing is open;
* `Analyzer.fst_analyzeIn_of_outcome` — what succeeds with nothing kept succeeds alike with all that
  is kept;
* `Analyzer.mirrors_analyzeIn` — an analysis looks only for what its document leads to;
* `Analyzer.session_alone` — a document ends as it would alone, unless it fails alone and is mixed
  up with a prompt in memory (`Resolver.Mixed`);
* `Analyzer.session_not_alone` — such a document may succeed behind another one.

Design notes: prompts are told apart by their paths.  A document may stand at the path of a prompt
in memory and have another text than this prompt.  What was kept before then knows nothing of the
document, though its path is open now; and only what leads to that path is concerned.
-/
import PromptMarkup.Proofs.Cycles
import PromptMarkup.Yaml.Document

namespace PromptMarkup

open PromptMarkup.Computation

/-! ### Analyses that may stop alone -/

/-- Surveys that agree in everything, the first of which may stop alone. -/
def Survey.Likeness.halting {σ : Type} : Survey.Likeness σ σ :=
  { Survey.Likeness.keeping Eq with stops := fun _ => True }

/-- A reference that is followed alike, unless it cannot be followed the first time. -/
theorem Surveying.pairs_taken_halting {σ : Type} {follow follow' : FollowIn σ} {r : Reference}
    (h : ∀ kept child kept', runFrom kept (follow r.name r.info) = (.ok child, kept') →
      runFrom kept (follow' r.name r.info) = (.ok child, kept')) :
    Pairs .halting (taken follow r) (taken follow' r) := by
  refine ⟨fun s t (hlike : s.Like Eq t) => ?_, fun t => ?_⟩
  · have hproblems : s.problems = t.problems :=
      congrArg (fun u : Survey Unit => u.problems) hlike.same
    rw [runFrom_taken]
    rcases hs : runFrom s.cache (follow r.name r.info) with ⟨p | child, kept⟩
    · refine .inr ⟨p, _, rfl, trivial, ?_⟩
      rewrite [problems_taken, ← hproblems]
      exact List.prefix_rfl
    · rw [runFrom_taken, ← hlike.kept, h _ _ _ hs]
      refine .inl ⟨rfl, Survey.Like.mk rfl ?_⟩
      exact congrArg (fun u : Survey Unit => (runFrom u (adopt r.info r.passed child)).2) hlike.same
  · rewrite [problems_taken]
    exact List.prefix_rfl

/-! ### Prompts in memory -/

namespace Resolver

variable {prompts : Fields String} {name text : String} {origin : Option String} {p : Prompt}

/-- A prompt that is found in memory has the joined path, and the text that is held there. -/
theorem find_ofPrompts_eq_ok : (ofPrompts prompts).find name origin = .ok (some p) ↔
    ∃ text, (canonical prompts).get? (Path.join name origin) = some text ∧
    p = ⟨Path.join name origin, text⟩ := by
  rw [find_ofPrompts, Except.ok.injEq, Option.map_eq_some_iff]
  simp only [eq_comm]

theorem find_of_text (htext : (canonical prompts).get? (Path.join name origin) = some text) :
    (ofPrompts prompts).find name origin = .ok (some ⟨Path.join name origin, text⟩) :=
  find_ofPrompts_eq_ok.2 ⟨text, htext, rfl⟩

theorem exact_ofPrompts (prompts : Fields String) (path : String) :
    (ofPrompts prompts).Exact path := by
  intro name origin p hfind hjoin
  obtain ⟨text, -, rfl⟩ := find_ofPrompts_eq_ok.1 hfind
  exact hjoin

theorem content_memory {key : String} (htext : (canonical prompts).get? key = some text) :
    (memory prompts).content key = text := by
  show ((canonical prompts).get? key).getD "" = text
  rw [htext]
  rfl

end Resolver

namespace Analyzer

/-- An analysis that succeeds ends alike where all references that could be followed are followed
alike. -/
theorem document_of_ok [ConfigReader] {σ : Type} {a : Analyzer} {follow follow' : FollowIn σ}
    {path : Option String} {source : String} {kept kept' : σ} {analysis : Analysis}
    (h : ∀ t, Template.read source = .ok t → ∀ r ∈ t.root.references, ∀ kept child kept',
      runFrom kept (follow r.name r.info) = (.ok child, kept') →
        runFrom kept (follow' r.name r.info) = (.ok child, kept'))
    (hrun : runFrom kept (a.document follow path source) = (.ok analysis, kept')) :
    runFrom kept (a.document follow' path source) = (.ok analysis, kept') := by
  cases hread : Template.read source with
  | error p =>
    rw [document, hread] at hrun
    cases hrun
  | ok t =>
    have hpairs := t.root.pairs_survey fun r hr => Surveying.pairs_taken_halting (h t hread r hr)
    have hstart : (Survey.start source kept).Like Eq (Survey.start source kept) := ⟨rfl, rfl⟩
    rw [runFrom_document hread] at hrun ⊢
    -- both surveys end alike, or the first one halts, which a success excludes
    rcases hpairs.ends _ _ hstart with ⟨hresult, hlike⟩ | ⟨p, s, hs, -, -⟩
    · rw [← hresult, ← Survey.Like.verdict?_eq hlike, ← hlike.kept,
        ← Survey.Like.conclude_eq hlike rfl]
      exact hrun
    · rw [hs] at hrun
      cases hverdict : s.verdict? (.error p) with
      | none =>
        obtain ⟨hok, -⟩ := Survey.verdict?_eq_none hverdict
        cases hok
      | some q =>
        simp only [hverdict] at hrun
        cases hrun

/-- What following references leaves as it is in what is kept, the analysis of a prompt leaves as it
is. -/
theorem preserves_document [ConfigReader] {σ : Type} {a : Analyzer} {follow : FollowIn σ}
    {path : Option String}
    {source : String} {P : σ → Prop}
    (h : ∀ t, Template.read source = .ok t → ∀ r ∈ t.root.references,
      ∀ kept, P kept → P (runFrom kept (follow r.name r.info)).2) {kept : σ} (hkept : P kept) :
    P (runFrom kept (a.document follow path source)).2 := by
  have hmirrors : Mirrors (fun s s' => s = s' ∧ P s) (a.document follow path source)
      (a.document follow path source) := by
    refine mirrors_document rfl fun t hread r hr s s' hs => ?_
    obtain ⟨rfl, hs⟩ := hs
    exact ⟨rfl, rfl, h t hread r hr s hs⟩
  exact (hmirrors kept kept ⟨rfl, hkept⟩).2.2

/-! ### Prompts in memory -/

section Memory

open Resolver (canonical memory)

variable [ConfigReader] {a : Analyzer} {prompts : Fields String} {visiting visiting' : List String}
  {path origin : Option String} {source text : String} {cache cache' : Cache} {analysis : Analysis}

omit [ConfigReader] in
theorem keeping_self (key : String) (analysis : Analysis) (cache : Cache) :
    keeping key key analysis cache = cache.put key analysis :=
  if_pos (has_put.2 (.inl rfl))

omit [ConfigReader] in
/-- The induction over the prompts in memory: each opens prompts that are not open already. -/
theorem memory_induct (hr : a.resolver = some (.ofPrompts prompts))
    {motive : List String → Option String → String → Prop}
    (prompt : ∀ visiting origin source,
      (∀ key text, key ∉ visiting → (canonical prompts).get? key = some text →
      motive (key :: visiting) (some key) text) → motive visiting origin source)
    (visiting : List String) (origin : Option String) (source : String) :
    motive visiting origin source := by
  induction visiting, origin, source using analyzeIn.induct a with
  | case1 visiting origin source ih =>
    refine prompt visiting origin source fun key text hkey htext => ?_
    have hjoin := Resolver.join_of_mem_canonical (Fields.mem_keys_of_get? htext)
    have hfind : (Resolver.ofPrompts prompts).find key none = .ok (some ⟨key, text⟩) :=
      Resolver.find_ofPrompts_eq_ok.2 ⟨text, by rwa [hjoin], by rw [hjoin]⟩
    exact ih ⟨⟨key, text⟩, mem_paths_of_find hr hfind, hkey⟩

/-- How a reference is followed to a prompt in memory. -/
theorem runFrom_followIn (hcaching : a.caching = true) (hr : a.resolver = some (.ofPrompts prompts))
    (visiting : List String) (origin : Option String) (name : String) (info : NodeInfo)
    (cache : Cache) :
    runFrom cache (a.followIn visiting origin name info) =
      if Path.join name origin ∈ visiting then
        (stopped (.circularReference (Path.join name origin)) info, cache)
      else
        match cache.get? (Path.join name origin),
          (canonical prompts).get? (Path.join name origin) with
        | some known, _ => (.ok known, cache)
        | none, none => (stopped (.referenceNotFound name) info, cache)
        | none, some text =>
          match runFrom cache (a.analyzeIn (Path.join name origin :: visiting)
            (some (Path.join name origin))
            text) with
          | (.error p, cache') => (.error (p.inPrompt (Path.join name origin)), cache')
          | (.ok child, cache') => (.ok child, cache'.put (Path.join name origin) child) := by
  have hkept (key : String) (cache : Cache) :
      runFrom cache (a.kept key) = (.ok (cache.get? key), cache) := by
    rw [Analyzer.kept, if_pos hcaching]
    rfl
  -- the prompts answer at once, so only the cache and the visited paths decide
  unfold followIn
  cases htext : (canonical prompts).get? (Path.join name origin) with
  | none =>
    have hfind : (Resolver.ofPrompts prompts).find name origin = .ok none := by
      rw [Resolver.find_ofPrompts, htext]
      rfl
    rw [reference_of_find hr hfind]
    split
    · rfl
    · rw [runFrom_bind_ok (hkept _ _)]
      cases cache.get? (Path.join name origin) with
      | some known => rfl
      | none => rfl
  | some text =>
    rw [reference_of_find hr (Resolver.find_of_text htext)]
    split
    · rfl
    · next hkey =>
      rw [runFrom_bind_ok (hkept _ _)]
      cases hget : cache.get? (Path.join name origin) with
      | some known => rfl
      | none =>
        dsimp only
        rw [openPrompt, dif_neg hkey, runFrom_bind_ok (hkept _ _), hget]
        dsimp only
        rw [runFrom_bind, runFrom_rethrow]
        rcases runFrom cache (a.analyzeIn (Path.join name origin :: visiting)
          (some (Path.join name origin))
          text) with ⟨p | child, cache'⟩
        · rfl
        · dsimp only
          rw [keep, if_pos hcaching, runFrom_bind_ok (runFrom_modify _ _)]
          exact congrArg (Prod.mk (Except.ok child)) (keeping_self _ child cache')

/-- A reference is followed to an analysis that is kept, or to one that is made and then kept. -/
theorem followIn_eq_ok (hcaching : a.caching = true) (hr : a.resolver = some (.ofPrompts prompts))
    {name : String} {info : NodeInfo} :
    runFrom cache (a.followIn visiting origin name info) = (.ok analysis, cache') ↔
      Path.join name origin ∉ visiting ∧
        (cache.get? (Path.join name origin) = some analysis ∧ cache' = cache ∨
          cache.get? (Path.join name origin) = none ∧
            ∃ text kept, (canonical prompts).get? (Path.join name origin) = some text ∧
              runFrom cache (a.analyzeIn (Path.join name origin :: visiting)
                (some (Path.join name origin)) text) =
                  (.ok analysis, kept) ∧ cache' = kept.put (Path.join name origin) analysis) := by
  generalize hgoal : Path.join name origin = key
  rw [runFrom_followIn hcaching hr, hgoal]
  -- a path being visited is refused, a kept one is answered from the cache
  by_cases hkey : key ∈ visiting
  · simp [hkey, stopped]
  · rw [if_neg hkey]
    cases hget : cache.get? key with
    | some known => simp [hkey, eq_comm]
    | none =>
      cases htext : (canonical prompts).get? key with
      | none => simp [stopped]
      | some text =>
        simp only [hkey, not_false_eq_true, reduceCtorEq, false_and, false_or, true_and,
          Option.some.injEq, exists_and_left, exists_eq_left']
        rcases runFrom cache (a.analyzeIn (key :: visiting) (some key) text) with ⟨p | child, kept⟩
        · simp
        · simp only [Prod.mk.injEq, Except.ok.injEq]
          constructor
          · rintro ⟨rfl, rfl⟩
            exact ⟨kept, ⟨rfl, rfl⟩, rfl⟩
          · rintro ⟨-, ⟨rfl, rfl⟩, rfl⟩
            exact ⟨rfl, rfl⟩

/-- An analysis that succeeds ends alike while fewer prompts are open. -/
theorem runFrom_analyzeIn_of_subset (hcaching : a.caching = true)
    (hr : a.resolver = some (.ofPrompts prompts))
    (hsub : visiting' ⊆ visiting) (h : runFrom cache (a.analyzeIn visiting origin source) =
      (.ok analysis, cache')) :
    runFrom cache (a.analyzeIn visiting' origin source) = (.ok analysis, cache') := by
  -- the induction follows the references: each opens one more prompt
  induction visiting, origin, source using memory_induct hr generalizing visiting' cache cache'
    analysis with
  | prompt visiting origin source ih =>
    rw [analyzeIn_eq_document] at h ⊢
    refine document_of_ok (fun t _ ref _ kept child kept' hok => ?_) h
    obtain ⟨hkey, hok⟩ := (followIn_eq_ok hcaching hr).1 hok
    refine (followIn_eq_ok hcaching hr).2 ⟨fun hin => hkey (hsub hin), hok.imp_right ?_⟩
    rintro ⟨hget, text, made, htext, hrun, rfl⟩
    exact ⟨hget, text, made, htext, ih _ _ hkey htext (List.cons_subset_cons _ hsub) hrun, rfl⟩

/-- A prompt in memory that is not kept is opened. -/
theorem Faithful.opened_memory (hr : a.resolver = some (.ofPrompts prompts))
    (h : a.Faithful (.ofPrompts prompts) visiting cache) {key : String}
    (hget : cache.get? key = none) :
    a.Faithful (.ofPrompts prompts) (key :: visiting) cache :=
  h.opened hr (Resolver.exact_ofPrompts prompts key) (Fields.not_has_of_get? hget)

/-- Following a reference leaves what is kept as it would be found out while fewer prompts are open.
-/
theorem faithful_followIn (hcaching : a.caching = true)
    (hr : a.resolver = some (.ofPrompts prompts))
    (hsub : visiting' ⊆ visiting) (hdescend : ∀ key text kept, key ∉ visiting →
      (canonical prompts).get? key = some text → a.Faithful (.ofPrompts prompts)
      (key :: visiting') kept →
        a.Faithful (.ofPrompts prompts) (key :: visiting')
          (runFrom kept (a.analyzeIn (key :: visiting) (some key) text)).2)
    (h : a.Faithful (.ofPrompts prompts) visiting' cache) (name : String) (info : NodeInfo) :
    a.Faithful (.ofPrompts prompts) visiting'
    (runFrom cache (a.followIn visiting origin name info)).2 := by
  rw [runFrom_followIn hcaching hr]
  split
  · exact h
  · next hkey =>
    split
    · exact h
    · exact h
    · next text hget htext =>
      have hopened := h.opened_memory hr hget
      have hinside := hdescend _ text cache hkey htext hopened
      rcases hrun : runFrom cache (a.analyzeIn (Path.join name origin :: visiting)
        (some (Path.join name origin)) text) with ⟨p | child, cache'⟩
      · rw [hrun] at hinside
        exact hinside.closed hr
      · -- a prompt is kept only if its analysis has succeeded, and then the other open prompts did
        -- not count
        have hfewer := runFrom_analyzeIn_of_subset hcaching hr (List.cons_subset_cons _ hsub) hrun
        have hrecalls := recalls_analyzeIn hcaching hr (Resolver.canonical_ofPrompts prompts)
          (Path.join name origin :: visiting') (some (Path.join name origin)) text cache hopened
        rw [hfewer] at hrecalls
        dsimp only
        rw [← keeping_self]
        exact (hrecalls.faithful.closed hr).kept (Resolver.canonical_ofPrompts prompts)
          (Resolver.find_of_text htext)
          (fun hin => hkey (hsub hin)) hrecalls.result.symm (hrecalls.inner hrecalls.result.symm)

/-- An analysis leaves what is kept as it would be found out while fewer prompts are open. -/
theorem faithful_analyzeIn (hcaching : a.caching = true)
    (hr : a.resolver = some (.ofPrompts prompts))
    (hsub : visiting' ⊆ visiting) (h : a.Faithful (.ofPrompts prompts) visiting' cache) :
    a.Faithful (.ofPrompts prompts) visiting'
    (runFrom cache (a.analyzeIn visiting origin source)).2 := by
  induction visiting, origin, source using memory_induct hr generalizing visiting' cache with
  | prompt visiting origin source ih =>
    rw [analyzeIn_eq_document]
    refine preserves_document (P := a.Faithful (.ofPrompts prompts) visiting')
      (fun t _ ref _ kept hkept => ?_) h
    refine faithful_followIn hcaching hr hsub
      (fun key text kept hkey htext hinside => ?_) hkept ref.name ref.info
    exact ih key text hkey htext (List.cons_subset_cons _ hsub) hinside

/-- A reference that is followed to an analysis leads to a prompt in memory. -/
theorem text_of_answer (hr : a.resolver = some (.ofPrompts prompts)) {name : String}
    {info : NodeInfo} (h : a.answer visiting origin name info = .ok analysis) :
    Path.join name origin ∉ visiting ∧ ∃ text,
      (canonical prompts).get? (Path.join name origin) = some text ∧
      a.outcome (Path.join name origin :: visiting) (some (Path.join name origin)) text =
        .ok analysis := by
  obtain ⟨r, p, hr', hfind, hkey, -, hout⟩ := answer_eq_ok.1 h
  obtain rfl : Resolver.ofPrompts prompts = r := Option.some.inj (hr.symm.trans hr')
  obtain ⟨text, htext, rfl⟩ := Resolver.find_ofPrompts_eq_ok.1 hfind
  exact ⟨hkey, text, htext, hout⟩

/-- What succeeds if nothing is kept succeeds alike with analyses that are kept for fewer open
prompts. -/
theorem fst_analyzeIn_of_outcome (hcaching : a.caching = true)
    (hr : a.resolver = some (.ofPrompts prompts))
    (hsub : visiting' ⊆ visiting) (h : a.Faithful (.ofPrompts prompts) visiting' cache)
    (hout : a.outcome visiting origin source = .ok analysis) :
    (runFrom cache (a.analyzeIn visiting origin source)).1 = .ok analysis := by
  induction visiting, origin, source using memory_induct hr generalizing visiting' cache
    analysis with
  | prompt visiting origin source ih =>
    obtain ⟨t, found, hread, hrefs, hanswers, -, -⟩ := outcome_eq_ok hout
    -- beside the analysis goes the one that keeps nothing; both are answered alike
    have hmirrors : Mirrors (fun cache _ => a.Faithful (.ofPrompts prompts) visiting' cache)
        (a.document (a.followIn visiting origin) origin source)
        (a.forgetful.document (a.forgetful.followIn visiting origin) origin source) := by
      refine mirrors_document rfl fun t' hread' ref href kept kept' hkept => ?_
      obtain rfl : t = t' := Except.ok.inj (hread.symm.trans hread')
      rw [← hrefs] at href
      obtain ⟨⟨ref, child⟩, hf, rfl⟩ := List.mem_map.1 href
      have hanswer : a.answer visiting origin ref.name ref.info = .ok child := hanswers _ hf
      refine ⟨?_, faithful_followIn hcaching hr hsub
        (fun key text kept hkey htext hinside => ?_) hkept _ _⟩
      · rw [fst_followIn_forgetful, hanswer, runFrom_followIn hcaching hr]
        obtain ⟨hkey, text, htext, hchild⟩ := text_of_answer hr hanswer
        rw [if_neg hkey]
        cases hget : kept.get? (Path.join ref.name origin) with
        | some known =>
          -- what is kept is what would be found out while fewer prompts are open, and so what is
          -- found out now
          obtain ⟨q, hentry⟩ := hkept _ _ hget
          obtain ⟨text', htext', rfl⟩ := Resolver.find_ofPrompts_eq_ok.1 (hentry.leads.joined rfl)
          obtain rfl : text = text' := Option.some.inj (htext.symm.trans htext')
          have hfewer := outcome_of_open hr hchild
            fun x hx => .inl (List.cons_subset_cons _ hsub hx)
          exact hentry.outcome.symm.trans hfewer
        | none =>
          have hinside := ih _ text hkey htext (List.cons_subset_cons _ hsub)
            (hkept.opened_memory hr hget) hchild
          rw [htext]
          dsimp only
          rw [show runFrom kept (a.analyzeIn (Path.join ref.name origin :: visiting)
            (some (Path.join ref.name origin)) text) = (.ok child, _) from Prod.ext hinside rfl]
      · exact faithful_analyzeIn hcaching hr (List.cons_subset_cons _ hsub) hinside
    obtain ⟨hresult, -⟩ := hmirrors cache [] h
    rw [analyzeIn_eq_document, hresult, ← analyzeIn_eq_document]
    exact hout

/-! ### What an analysis looks at -/

/-- An analysis looks only for analyses of prompts that it leads to and that are not open; and it
keeps only analyses of prompts that it leads to. -/
theorem mirrors_analyzeIn {R : Cache → Cache → Prop} {S : String → Prop}
    (hcaching : a.caching = true) (hr : a.resolver = some (.ofPrompts prompts))
    (hget : ∀ {kept kept'}, R kept kept' → ∀ key, S key → key ∉ visiting' →
      kept.get? key = kept'.get? key)
    (hput : ∀ {kept kept'}, R kept kept' → ∀ key analysis, S key →
      R (kept.put key analysis) (kept'.put key analysis))
    (hsub : visiting' ⊆ visiting) (hreaches : ∀ key, (memory prompts).Reaches origin source key →
      S key) :
    Mirrors R (a.analyzeIn visiting origin source) (a.analyzeIn visiting origin source) := by
  -- the induction is on the prompts not yet visited, as the analysis recurses
  induction visiting, origin, source using memory_induct hr with
  | prompt visiting origin source ih =>
    rw [analyzeIn_eq_document]
    refine mirrors_document rfl fun t hread ref href kept kept' hkept => ?_
    have hname : ref.name ∈ t.root.named := List.mem_map_of_mem href
    have hgoal : S (Path.join ref.name origin) :=
      hreaches _ ⟨origin, source, t, .main, hread, ref.name, hname, rfl⟩
    rw [runFrom_followIn hcaching hr, runFrom_followIn hcaching hr]
    split
    · exact ⟨rfl, hkept⟩
    · next hkey =>
      -- both caches answer alike for a path the source reaches
      rw [← hget hkept _ hgoal fun hin => hkey (hsub hin)]
      cases kept.get? (Path.join ref.name origin) with
      | some known => exact ⟨rfl, hkept⟩
      | none =>
        cases htext : (canonical prompts).get? (Path.join ref.name origin) with
        | none => exact ⟨rfl, hkept⟩
        | some text =>
          -- the prompt is read under both caches, which stay related
          have hinside := ih _ text hkey htext (fun _ hx => List.mem_cons_of_mem _ (hsub hx))
            fun key hkey => by
            rw [← Resolver.content_memory htext] at hkey
            exact hreaches key (Library.Opens.reaches (.reference .main hread hname) hkey)
          dsimp only
          rcases hinside.cases hkept with ⟨p, c, c', hs, ht, hR⟩ | ⟨child, c, c', hs, ht, hR⟩
          · rw [hs, ht]
            exact ⟨rfl, hR⟩
          · rw [hs, ht]
            exact ⟨rfl, hput hR _ child hgoal⟩

/-- What is kept behind an analysis was kept before, or the analysis leads to it. -/
theorem has_analyzeIn (hcaching : a.caching = true) (hr : a.resolver = some (.ofPrompts prompts))
    {key : String} (h : (runFrom cache (a.analyzeIn visiting origin source)).2.has key) :
    cache.has key ∨ (memory prompts).Reaches origin source key := by
  have hmirrors : Mirrors (fun kept kept' => kept = kept' ∧
        ∀ key, kept.has key → cache.has key ∨ (memory prompts).Reaches origin source key)
      (a.analyzeIn visiting origin source) (a.analyzeIn visiting origin source) := by
    refine mirrors_analyzeIn (S := (memory prompts).Reaches origin source) hcaching hr
      (fun hkept key _ _ => by rw [hkept.1]) (fun {kept kept'} hkept key analysis hgoal => ?_)
      (List.nil_subset _) fun _ => id
    obtain ⟨rfl, hknown⟩ := hkept
    refine ⟨rfl, fun other hother => ?_⟩
    rcases has_put.1 hother with rfl | hother
    · exact .inr hgoal
    · exact hknown other hother
  exact (hmirrors cache cache ⟨rfl, fun _ => .inl⟩).2.2 key h

/-- An analysis that succeeds reports only what can be reached. -/
theorem reaches_of_outcome (hr : a.resolver = some (.ofPrompts prompts))
    (h : a.outcome visiting origin source = .ok analysis) {goal : String}
    (hgoal : goal ∈ analysis.references) :
    (memory prompts).Reaches origin source goal := by
  induction visiting, origin, source using memory_induct hr generalizing analysis with
  | prompt visiting origin source ih =>
    obtain ⟨t, found, hread, hrefs, hanswers, -, hreferences⟩ := outcome_eq_ok h
    obtain ⟨⟨ref, child⟩, hf, hgoal⟩ := (hreferences goal).1 hgoal
    have hname : ref.name ∈ t.root.named := by
      rw [Node.named, ← hrefs]
      exact List.mem_map_of_mem (List.mem_map_of_mem hf)
    obtain ⟨hkey, text, htext, hchild⟩ := text_of_answer hr (hanswers _ hf)
    obtain ⟨-, -, -, -, -, hpath, -⟩ := outcome_eq_ok hchild
    refine (Library.reaches_iff hread).2 ⟨ref.name, hname, hgoal.imp (fun heq => ?_) fun hin => ?_⟩
    · exact (Option.some.inj (hpath.symm.trans heq)).symm
    · have hinside := ih _ text hkey htext hchild hin
      rwa [← Resolver.content_memory htext] at hinside

/-! ### Analyses that are kept for other documents -/

omit [ConfigReader] in
/-- The analyses that are kept under keys of a kind. -/
theorem get?_filter (p : String → Bool) (cache : Cache) (key : String) :
    Fields.get? (cache.filter fun field => p field.1) key = if p key then cache.get? key
    else none := by
  induction cache with
  | nil => simp [Fields.get?]
  | cons field rest ih =>
    rw [List.filter_cons]
    by_cases hkey : field.1 = key
    · subst hkey
      cases hp : p field.1 with
      | true => simp [Fields.get?]
      | false => simp [ih, hp]
    · cases hp : p field.1 with
      | true => simp [Fields.get?, hkey, ih]
      | false => simp [Fields.get?, hkey, ih]

/-- A document ends as it would alone if nothing that is kept and that it leads to leads back to it.
-/
theorem fst_analyzeIn_of_apart (hcaching : a.caching = true)
    (hr : a.resolver = some (.ofPrompts prompts))
    (h : a.Faithful (.ofPrompts prompts) [] cache) {own : String}
    (happart : ∀ key, cache.has key → (memory prompts).Reaches (some own) text key → key ≠ own →
      ¬ (memory prompts).Reaches (some key) ((memory prompts).content key) own) :
    (runFrom cache (a.analyzeIn [own] (some own) text)).1 = a.outcome [own] (some own) text := by
  classical
  -- what the document does not lead to is left out; what is left would also be found out while it
  -- is open
  have hapart : ∀ key, Fields.get? (cache.filter fun field =>
      decide ((memory prompts).Reaches (some own) text field.1 ∧ field.1 ≠ own)) key =
        if (memory prompts).Reaches (some own) text key ∧ key ≠ own then cache.get? key
          else none := by
    intro key
    rw [get?_filter fun key => decide ((memory prompts).Reaches (some own) text key ∧ key ≠ own)]
    simp only [decide_eq_true_eq]
  generalize cache.filter _ = rest at hapart
  have hrest : a.Faithful (.ofPrompts prompts) [own] rest := by
    intro key analysis hget
    rw [hapart] at hget
    split at hget
    · next hkey =>
      obtain ⟨q, hentry⟩ := h key analysis hget
      obtain ⟨origin, source, t, -, -, name, -, hgoal⟩ := hkey.1
      obtain ⟨text', htext, rfl⟩ := Resolver.find_ofPrompts_eq_ok.1 (hentry.leads.joined hgoal.symm)
      replace hgoal : key = Path.join name origin := hgoal
      rw [← hgoal] at htext hentry
      have hnot : ∀ x ∈ analysis.references, (memory prompts).Reaches (some own) text x ∧
        x ≠ own := by
        intro x hx
        have hx' := reaches_of_outcome hr hentry.outcome hx
        rw [← Resolver.content_memory htext] at hx'
        refine ⟨hkey.1.opens.reaches hx', ?_⟩
        rintro rfl
        exact happart key (Fields.has_of_get? hget) hkey.1 hkey.2 hx'
      have hrest : ∀ {x}, cache.has x → (memory prompts).Reaches (some own) text x ∧ x ≠ own →
        Fields.has rest x := by
        intro x hold hx
        unfold Fields.has
        rwa [hapart, if_pos hx]
      refine ⟨_, hentry.leads, hentry.found, ?_, ?_, hrest hentry.own hkey,
        fun x hx => hrest (hentry.inner x hx) (hnot x hx)⟩
      · exact fun hin => hkey.2 (List.mem_singleton.1 hin)
      · refine outcome_of_open hr hentry.outcome fun x hx => ?_
        rcases List.mem_cons.1 hx with rfl | hx
        · exact .inl List.mem_cons_self
        · obtain rfl := List.mem_singleton.1 hx
          exact .inr ⟨Resolver.exact_ofPrompts prompts x, fun hin => (hnot x hin).2 rfl⟩
    · exact nomatch hget
  have hagree : Mirrors (fun kept kept' : Cache =>
    ∀ key, (memory prompts).Reaches (some own) text key →
        key ≠ own → kept.get? key = kept'.get? key)
      (a.analyzeIn [own] (some own) text) (a.analyzeIn [own] (some own) text) := by
    refine mirrors_analyzeIn (S := (memory prompts).Reaches (some own) text) hcaching hr
      (fun hkept key hkey hnew => hkept key hkey fun heq => hnew (List.mem_singleton.2 heq))
      (fun hkept key analysis _ other hother hne => ?_) (List.Subset.refl _) fun _ => id
    rw [Fields.get?_put, Fields.get?_put, hkept other hother hne]
  rw [← (recalls_analyzeIn hcaching hr (Resolver.canonical_ofPrompts prompts) [own] (some own)
    text rest
    hrest).result]
  refine (hagree cache rest fun key hkey hne => ?_).1
  rw [hapart, if_pos ⟨hkey, hne⟩]

/-! ### Sessions -/

/-- What the analyses of documents end with, one after the other; a document has a path if it stands
at one. -/
def session (a : Analyzer) : Cache → List (Option String × String) → List (Except Problem Analysis)
  | _, [] => []
  | cache, (path, text) :: rest =>
    let (result, cache) := runFrom cache (a.analyze path text)
    result :: a.session cache rest

/-- What is kept behind documents. -/
def after (a : Analyzer) (cache : Cache) (documents : List (Option String × String)) : Cache :=
  documents.foldl (fun cache d => (runFrom cache (a.analyze d.1 d.2)).2) cache

/-- A document is analyzed with what is kept behind the documents in front of it. -/
theorem session_append (a : Analyzer) (cache : Cache)
    (earlier later : List (Option String × String)) (path : Option String) (text : String) :
    (a.session cache (earlier ++ (path, text) :: later))[earlier.length]? =
      some (runFrom (a.after cache earlier) (a.analyze path text)).1 := by
  induction earlier generalizing cache with
  | nil => rfl
  | cons d rest ih => exact ih _

/-- Behind documents everything that is kept would be found out while nothing is open, and one of
them leads to it. -/
theorem after_kept (hcaching : a.caching = true) (hr : a.resolver = some (.ofPrompts prompts))
    (documents : List (Option String × String)) :
    a.Faithful (.ofPrompts prompts) [] (a.after [] documents) ∧
      ∀ key, (a.after [] documents).has key →
      ∃ d ∈ documents, (memory prompts).Reaches d.1 d.2 key := by
  -- the induction is on the documents, the last one first
  induction documents using List.reverseRecOn with
  | nil => exact ⟨fun _ _ => (nomatch ·), fun _ => (nomatch ·)⟩
  | append_singleton rest d ih =>
    obtain ⟨hfaithful, hled⟩ := ih
    have hafter : a.after [] (rest ++ [d]) = (runFrom (a.after [] rest) (a.analyze d.1 d.2)).2 :=
      List.foldl_append
    rw [hafter]
    refine ⟨faithful_analyzeIn hcaching hr (List.nil_subset _) hfaithful, fun key hhas => ?_⟩
    rcases has_analyzeIn hcaching hr hhas with hold | hnew
    · obtain ⟨d', hd', hreaches⟩ := hled key hold
      exact ⟨d', List.mem_append_left _ hd', hreaches⟩
    · exact ⟨d, List.mem_append_right _ List.mem_cons_self, hnew⟩

end Memory

end Analyzer

/-- A document stands at the path of a prompt in memory with another text, and it leads to another
prompt that leads to this path, and that one of the earlier documents led to. -/
def Resolver.Mixed [ConfigReader] (prompts : Fields String)
    (earlier : List (Option String × String)) (path : Option String) (text : String) : Prop :=
  ∃ own known key, path = some own ∧ (canonical prompts).get? own = some known ∧ known ≠ text ∧
    key ≠ own ∧
    (∃ d ∈ earlier, (memory prompts).Reaches d.1 d.2 key) ∧ (memory prompts).Reaches path text key ∧
    (memory prompts).Reaches (some key) ((memory prompts).content key) own

/-- Among documents that are analyzed one after the other, with prompts in memory, each ends as it
would alone, unless it fails alone and is mixed up with a prompt in memory. -/
theorem Analyzer.session_alone [ConfigReader] (prompts : Fields String)
    (earlier later : List (Option String × String)) (path : Option String) (text : String) :
    ∃ result, ((ofResolver (some (.ofPrompts prompts))).session []
      (earlier ++ (path, text) :: later))[earlier.length]? =
        some result ∧
      (result = (runFrom [] ((ofResolver (some (.ofPrompts prompts))).analyze path text)).1 ∨
        (runFrom [] ((ofResolver (some (.ofPrompts prompts))).analyze path text)).1.isOk = false ∧
          Resolver.Mixed prompts earlier path text) := by
  refine ⟨_, session_append _ _ earlier later path text, ?_⟩
  obtain ⟨hfaithful, hled⟩ := after_kept (a := ofResolver (some (.ofPrompts prompts))) rfl
    rfl earlier
  generalize (ofResolver (some (.ofPrompts prompts))).after [] earlier = cache at hfaithful hled
  have hcanonical := Resolver.canonical_ofPrompts prompts
  rw [fst_analyze_eq_outcome rfl rfl hcanonical]
  cases hout : (ofResolver (some (.ofPrompts prompts))).outcome path.toList path text with
  | ok analysis => exact .inl (fst_analyzeIn_of_outcome rfl rfl (List.nil_subset _) hfaithful hout)
  | error p =>
    rw [← hout]
    cases path with
    | none => exact .inl (recalls_analyzeIn rfl rfl hcanonical [] none text cache hfaithful).result
    | some own =>
      by_cases hmixed : Resolver.Mixed prompts earlier (some own) text
      · exact .inr ⟨by rw [hout]; rfl, hmixed⟩
      · refine .inl ?_
        cases hget : cache.get? own with
        | none =>
          have hopened := hfaithful.opened_memory rfl hget
          exact (recalls_analyzeIn rfl rfl hcanonical [own] (some own) text cache hopened).result
        | some known =>
          -- a prompt of the same path was analyzed; its text is another one, for this document
          -- fails
          obtain ⟨q, hentry⟩ := hfaithful own known hget
          obtain ⟨d, -, origin, source, t, -, -, name, -, hgoal⟩ :=
            hled own (Fields.has_of_get? hget)
          obtain ⟨text', htext, rfl⟩ := Resolver.find_ofPrompts_eq_ok.1
            (hentry.leads.joined hgoal.symm)
          replace hgoal : own = Path.join name origin := hgoal
          rw [← hgoal] at htext hentry
          have hother : text' ≠ text := by
            rintro rfl
            exact nomatch hentry.outcome.symm.trans hout
          refine fst_analyzeIn_of_apart rfl rfl hfaithful fun key hhas hkey hne hback => hmixed ?_
          exact ⟨own, text', key, rfl, htext, hother, hne, hled key hhas, hkey, hback⟩

/-- Two prompts, the first of which refers to the second. -/
def Resolver.handedOn : Fields String :=
  [("a", "<ref prompt='b' />"), ("b", "x")]

/-- A document at the path of the second prompt that refers to the first one cannot be analyzed,
since it would refer to itself; but it can be once another document has referred to the first
prompt. -/
theorem Analyzer.session_not_alone :
    ((ofResolver (some (.ofPrompts Resolver.handedOn))).session []
        [(none, "<ref prompt='a' />"), (some "b", "<ref prompt='a' />")])[1]? ≠
      some (runFrom [] ((ofResolver (some (.ofPrompts Resolver.handedOn))).analyze (some "b")
        "<ref prompt='a' />")).1 := by
  have hpaths : (ofResolver (some (.ofPrompts Resolver.handedOn))).paths.length ≤
    2 := by decide +kernel
  -- the same analyses with a stack, which can be evaluated
  have hbehind :
    (runFrom (runFrom
      ⟨[], []⟩ (Inquiry.analyze (ofResolver (some (.ofPrompts Resolver.handedOn))) 2 none
      "<ref prompt='a' />")).2 (Inquiry.analyze (ofResolver (some (.ofPrompts Resolver.handedOn))) 2
        (some "b")
      "<ref prompt='a' />")).1.isOk = true := by
    decide +kernel
  have halone :
    (runFrom ⟨[], []⟩ (Inquiry.analyze (ofResolver (some (.ofPrompts Resolver.handedOn))) 2
      (some "b")
      "<ref prompt='a' />")).1.isOk = false := by
    decide +kernel
  rw [Inquiry.runFrom_analyze hpaths [] [] none, Inquiry.runFrom_analyze hpaths, List.append_nil,
    List.append_nil] at hbehind
  rw [Inquiry.runFrom_analyze hpaths, List.append_nil] at halone
  have hsession := session_append (ofResolver (some (.ofPrompts Resolver.handedOn))) []
    [(none, "<ref prompt='a' />")] [] (some "b") "<ref prompt='a' />"
  rw [List.singleton_append, List.length_singleton, after, List.foldl_cons, List.foldl_nil, analyze,
    analyze] at hsession
  rw [hsession, analyze]
  intro heq
  rw [Option.some.inj heq, halone] at hbehind
  exact Bool.false_ne_true hbehind

end PromptMarkup

/-
An analysis that keeps the stack of open prompts in its state.

`Analyzer.analyzeIn` hands the open prompts down from a prompt to the prompts it refers to.  An
analyzer may as well hold them in a stack: a prompt is pushed before it is analyzed, and popped
afterwards, whether its analysis has failed or not.  Both ways come to the same.

* `Inquiry.analyze` — the analysis of a prompt with a stack;
* `Inquiry.runFrom_analyze` — it ends like the analysis without a stack, and leaves the stack as it
  was.

Design notes: what tells that following references comes to an end is that the prompts on the stack
are different ones, which cannot be seen from a stack in the state.  So the depth of the recursion
is given; as many prompts as the resolver knows may be open at the same time.  Since the recursion
is structural, this analysis can also be evaluated.
-/
import PromptMarkup.Proofs.Following

namespace PromptMarkup

open PromptMarkup.Computation

/-- What an analyzer holds while it works: the prompts that are open, the innermost first, and the
analyses that are kept. -/
structure Inquiry where
  visiting : List String
  cache : Cache

namespace Inquiry

/-- Does something with the analyses that are kept. -/
def withCache {α : Type} (x : Analyzing α) : Computation Problem Inquiry α := do
  let (result, cache) ← look fun s => x.runFrom s.cache
  modify fun s => { s with cache }
  match result with
  | .ok a => return a
  | .error p => throw p

/-- Pushes a path, and pops it again however `x` ends. -/
def opening {α : Type} (path : String) (x : Computation Problem Inquiry α) :
    Computation Problem Inquiry α := do
  let (result, s) ← look fun s => x.runFrom { s with visiting := path :: s.visiting }
  set { s with visiting := s.visiting.tail }
  match result with
  | .ok a => return a
  | .error p => throw p

/-- Opens a prompt that a resolver has found, unless it is open or has been analyzed before. -/
def openPrompt (a : Analyzer) (descend : Prompt → Computation Problem Inquiry Analysis)
    (key : String) (info : NodeInfo) (p : Prompt) : Computation Problem Inquiry Analysis := do
  if p.path ∈ (← look Inquiry.visiting) then
    Analyzer.fail (.circularReference p.path) info
  else
    match ← withCache (a.kept p.path) with
    | some analysis => return analysis
    | none =>
      let analysis ← opening p.path
        (tryCatch (descend p) fun problem => throw (problem.inPrompt p.path))
      withCache (a.keep p.path key analysis)
      return analysis

/-- Follows a reference of the prompt at `origin`. -/
def reference (a : Analyzer) (descend : Prompt → Computation Problem Inquiry Analysis)
    (origin : Option String) : FollowIn Inquiry :=
  fun path info => do
    match a.resolver with
    | none => Analyzer.fail .missingResolver info
    | some resolver =>
      let key := Path.join path origin
      if key ∈ (← look Inquiry.visiting) then
        Analyzer.fail (.circularReference key) info
      else
        match ← withCache (a.kept key) with
        | some analysis => return analysis
        | none =>
          match resolver.find path origin with
          | .error e => Analyzer.fail (.referenceFailed path e.message) info
          | .ok none => Analyzer.fail (.referenceNotFound path) info
          | .ok (some p) => openPrompt a descend key info p

/-- Analyzes a prompt, while up to `depth` more prompts may be opened. -/
def analyzeIn [ConfigReader] (a : Analyzer) : (depth : Nat) → Option String → String →
    Computation Problem Inquiry Analysis
  | 0, path, source =>
    a.document (reference a (fun p => Analyzer.fail (.circularReference p.path) ⟨0, 0, 0⟩) path)
      path source
  | depth + 1, path, source =>
    a.document (reference a (fun p => analyzeIn a depth (some p.path) p.text) path) path source

/-- Analyzes a prompt, with its path if it has one. -/
def analyze [ConfigReader] (a : Analyzer) (depth : Nat) (path : Option String) (source : String) :
    Computation Problem Inquiry Analysis :=
  match path with
  | none => analyzeIn a depth none source
  | some own => opening own (analyzeIn a depth (some own) source)

/-! ### Both ways -/

/-- An inquiry with a stack, and the analyses that are kept in it. -/
def Holds (visiting : List String) (s : Inquiry) (cache : Cache) : Prop :=
  s = ⟨visiting, cache⟩

section Steps

variable {α β : Type} {a : Analyzer} {visiting : List String} {x : Computation Problem Inquiry α}
  {y : Analyzing α}

/-- Handing on how a computation has ended that was run apart. -/
theorem runFrom_result (result : Except Problem α) (s : Inquiry) :
    runFrom s (match result with
      | .ok a => pure a
      | .error p => throw p : Computation Problem Inquiry α) = (result, s) := by
  cases result with
  | ok a => rfl
  | error p => rfl

theorem mirrors_withCache (y : Analyzing α) : Mirrors (Holds visiting) (withCache y) y := by
  rintro s cache rfl
  unfold withCache
  rw [runFrom_bind_ok (runFrom_look _ _)]
  dsimp only
  rw [runFrom_bind_ok (runFrom_modify _ _), runFrom_result]
  exact ⟨rfl, rfl⟩

/-- What is pushed is popped. -/
theorem mirrors_opening {path : String} (h : Mirrors (Holds (path :: visiting)) x y) :
    Mirrors (Holds visiting) (opening path x) y := by
  rintro s cache rfl
  obtain ⟨hresult, hstack⟩ := h ⟨path :: visiting, cache⟩ cache rfl
  unfold opening
  rw [runFrom_bind_ok (runFrom_look _ _)]
  dsimp only
  rw [runFrom_bind_ok (runFrom_set _ _), runFrom_result]
  refine ⟨hresult, ?_⟩
  rw [hstack]
  rfl

/-- The stack is looked at. -/
theorem mirrors_look {f : List String → Computation Problem Inquiry α}
    (h : Mirrors (Holds visiting) (f visiting) y) :
    Mirrors (Holds visiting) (look Inquiry.visiting >>= f) y := by
  rintro s cache rfl
  rw [runFrom_bind_ok (runFrom_look _ _)]
  exact h _ cache rfl

theorem mirrors_fail (fault : Fault) (info : NodeInfo) :
    Mirrors (Holds visiting) (Analyzer.fail fault info : Computation Problem Inquiry α)
      (Analyzer.fail fault info) :=
  .throw _

theorem mirrors_openPrompt {descend : Prompt → Computation Problem Inquiry Analysis}
    {descend' : a.Openable visiting → Analyzing Analysis} {key : String} {info : NodeInfo}
    {p : Prompt} (hp : p.path ∈ a.paths)
    (h : ∀ next, Mirrors (Holds (next.prompt.path :: visiting)) (descend next.prompt)
      (descend' next)) :
    Mirrors (Holds visiting) (openPrompt a descend key info p)
      (a.openPrompt visiting descend' key info p hp) := by
  unfold openPrompt Analyzer.openPrompt
  refine mirrors_look ?_
  by_cases hopen : p.path ∈ visiting
  · rw [if_pos hopen, dif_pos hopen]
    exact mirrors_fail _ _
  · rw [if_neg hopen, dif_neg hopen]
    refine (mirrors_withCache _).bind fun found => ?_
    cases found with
    | some analysis => exact .pure _
    | none =>
      refine (mirrors_opening ((h ⟨p, hp, hopen⟩).rethrow _)).bind fun analysis => ?_
      exact (mirrors_withCache _).bind fun _ => .pure _

theorem mirrors_reference {descend : Prompt → Computation Problem Inquiry Analysis}
    {descend' : a.Openable visiting → Analyzing Analysis} {origin : Option String}
    (h : ∀ next, Mirrors (Holds (next.prompt.path :: visiting)) (descend next.prompt)
      (descend' next))
    (name : String) (info : NodeInfo) :
    Mirrors (Holds visiting) (reference a descend origin name info)
      (a.reference visiting descend' origin name info) := by
  unfold reference
  cases hr : a.resolver with
  | none =>
    rw [Analyzer.reference_of_none hr]
    exact mirrors_fail _ _
  | some r =>
    dsimp only
    rcases hfind : r.find name origin with e | (_ | p)
    -- whatever the resolver answers, both look at the stack and at the cache first
    all_goals
      rw [Analyzer.reference_of_find hr hfind]
      refine mirrors_look ?_
      by_cases hkey : Path.join name origin ∈ visiting
      · rw [if_pos hkey, if_pos hkey]
        exact mirrors_fail _ _
      rw [if_neg hkey, if_neg hkey]
      refine (mirrors_withCache _).bind fun found => ?_
      cases found with
      | some analysis => exact .pure _
      | none => first | exact mirrors_fail _ _ | exact mirrors_openPrompt _ h

end Steps

variable {a : Analyzer} {visiting : List String} {path : Option String} {source : String}

/-- Nothing can be opened any more once all prompts are open. -/
theorem length_unvisited_pos (next : a.Openable visiting) : 0 < (a.unvisited visiting).length :=
  Nat.zero_lt_of_lt (a.unvisited_cons_lt next.mem_paths next.not_open)

/-- With a stack, the analysis of a prompt ends as it does without. -/
theorem mirrors_analyzeIn [ConfigReader] {depth : Nat}
    (hdepth : (a.unvisited visiting).length ≤ depth) :
    Mirrors (Holds visiting) (analyzeIn a depth path source)
      (a.analyzeIn visiting path source) := by
  -- the induction is on the depth, which is used up together with the prompts that are not open
  induction depth generalizing visiting path source with
  | zero =>
    rw [Analyzer.analyzeIn]
    refine Analyzer.mirrors_document rfl fun t _ ref _ => mirrors_reference (fun next => ?_) _ _
    have hpos := length_unvisited_pos next
    omega
  | succ depth ih =>
    rw [Analyzer.analyzeIn]
    refine Analyzer.mirrors_document rfl fun t _ ref _ => mirrors_reference (fun next => ih ?_) _ _
    have hless := a.unvisited_cons_lt next.mem_paths next.not_open
    omega

theorem length_unvisited_le (a : Analyzer) (visiting : List String) :
    (a.unvisited visiting).length ≤ a.paths.length :=
  List.length_filter_le _ _

/-- An analysis with a stack ends like one without, and leaves the stack as it was, whether it fails
or not. -/
theorem runFrom_analyze [ConfigReader] {depth : Nat} (hdepth : a.paths.length ≤ depth)
    (visiting : List String) (cache : Cache) (path : Option String) (source : String) :
    runFrom ⟨visiting, cache⟩ (analyze a depth path source) =
      ((runFrom cache (a.analyzeIn (path.toList ++ visiting) path source)).1,
        ⟨visiting, (runFrom cache (a.analyzeIn (path.toList ++ visiting) path source)).2⟩) := by
  have hmirrors : Mirrors (Holds visiting) (analyze a depth path source)
      (a.analyzeIn (path.toList ++ visiting) path source) := by
    cases path with
    | none => exact mirrors_analyzeIn (Nat.le_trans (length_unvisited_le a visiting) hdepth)
    | some own =>
      exact mirrors_opening (mirrors_analyzeIn (Nat.le_trans (length_unvisited_le a _) hdepth))
  obtain ⟨hresult, hstack⟩ := hmirrors ⟨visiting, cache⟩ cache rfl
  exact Prod.ext hresult hstack

end Inquiry

end PromptMarkup

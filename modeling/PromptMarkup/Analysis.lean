/-
The analysis of a prompt and of all prompts it refers to.

* `Analyzer.analyze` — analyzes a prompt, following its references;
* `Analyzer.reference` — one reference: a prompt that is being analyzed already would be circular,
  and one that has been analyzed before is not analyzed again.

Design notes: the recursion goes from a prompt to the prompts it refers to.  None of them is open
already, and a resolver knows finitely many paths, so `Analyzer.unvisited` gets shorter.
-/
import PromptMarkup.Analysis.Survey
import PromptMarkup.Digest
import PromptMarkup.Reference.Resolver
import PromptMarkup.Template.Reader

namespace PromptMarkup

/-- What an analysis is run with. -/
structure Analyzer where
  resolver : Option Resolver
  /-- The digest of a text. -/
  digest : String → String
  /-- Analyses are kept and used again. -/
  caching : Bool

namespace Analyzer

/-- An analyzer that keeps its analyses, with the usual digest. -/
def ofResolver (resolver : Option Resolver) : Analyzer :=
  ⟨resolver, Digest.hex, true⟩

/-- The paths of all prompts that can be found. -/
def paths (a : Analyzer) : List String :=
  (a.resolver.map Resolver.paths).getD []

/-- The paths that can be found and are not open. -/
def unvisited (a : Analyzer) (visiting : List String) : List String :=
  a.paths.filter fun path => !visiting.contains path

theorem unvisited_cons_lt (a : Analyzer) {visiting : List String} {path : String}
    (hmem : path ∈ a.paths) (hnew : path ∉ visiting) :
    (a.unvisited (path :: visiting)).length < (a.unvisited visiting).length := by
  have hsub : a.unvisited (path :: visiting) = (a.unvisited visiting).filter (· != path) := by
    simp only [unvisited, List.filter_filter]
    congr 1
    funext x
    by_cases hx : x = path <;> simp [hx]
  have hin : path ∈ a.unvisited visiting := by
    simp [unvisited, hmem, hnew]
  rw [hsub]
  exact List.length_filter_lt_length_iff_exists.2 ⟨path, hin, by simp⟩

/-- Fails with a fault at a node. -/
def fail {σ α : Type} (fault : Fault) (info : NodeInfo) : Computation Problem σ α :=
  throw { fault, start := info.start, stop := info.stop }

/-- A prompt that may be opened: it can be found and is not open. -/
structure Openable (a : Analyzer) (visiting : List String) where
  prompt : Prompt
  mem_paths : prompt.path ∈ a.paths
  not_open : prompt.path ∉ visiting

/-- The analysis kept under a path. -/
def kept (a : Analyzer) (path : String) : Analyzing (Option Analysis) := do
  if a.caching then
    Computation.look fun cache => cache.get? path
  else
    return none

/-- Keeps an analysis under the path of its prompt, and under the path it was asked for. -/
def keep (a : Analyzer) (path key : String) (analysis : Analysis) : Analyzing Unit := do
  if a.caching then
    modify fun cache =>
      let cache := cache.put path analysis
      if cache.has key then cache else cache.put key analysis
  else
    pure ()

/-- Opens a prompt that a resolver has found, unless it is open or has been analyzed before. -/
def openPrompt (a : Analyzer) (visiting : List String)
    (descend : a.Openable visiting → Analyzing Analysis) (key : String) (info : NodeInfo)
    (p : Prompt) (hp : p.path ∈ a.paths) : Analyzing Analysis := do
  if h : p.path ∈ visiting then
    fail (.circularReference p.path) info
  else
    match ← a.kept p.path with
    | some analysis => return analysis
    | none =>
      let analysis ← tryCatch (descend ⟨p, hp, h⟩) fun problem => throw (problem.inPrompt p.path)
      a.keep p.path key analysis
      return analysis

/-- Follows a reference of the prompt at `origin`, while the prompts at `visiting` are open. -/
def reference (a : Analyzer) (visiting : List String)
    (descend : a.Openable visiting → Analyzing Analysis) (origin : Option String) : Follow :=
  fun path info => do
    match hr : a.resolver with
    | none => fail .missingResolver info
    | some resolver =>
      let key := Path.join path origin
      if key ∈ visiting then
        fail (.circularReference key) info
      else
        match ← a.kept key with
        | some analysis => return analysis
        | none =>
          match hp : resolver.find path origin with
          | .error e => fail (.referenceFailed path e.message) info
          | .ok none => fail (.referenceNotFound path) info
          | .ok (some p) =>
            have hmem : p.path ∈ a.paths := by
              simpa [paths, hr] using resolver.mem_paths hp
            a.openPrompt visiting descend key info p hmem

/-- The analysis that a survey without problems ends with. -/
def conclude {σ : Type} (a : Analyzer) (template : Template) (path : Option String)
    (s : Survey σ) : Analysis :=
  let resolved := Replacement.apply template.source s.replacements
  { path
    hash := a.digest (String.join (template.source :: s.hashes))
    parameters := s.names.parameters
    references := s.references
    config := template.configFields
    resolved
    resolvedBody := template.bodyOf resolved }

variable [ConfigReader]

/-- Analyzes one prompt; `follow` follows its references. -/
def document {σ : Type} (a : Analyzer) (follow : FollowIn σ) (path : Option String)
    (source : String) : Computation Problem σ Analysis := do
  match Template.read source with
  | .error p => throw p
  | .ok template =>
    let (result, s) ← Computation.look fun kept =>
      (template.root.survey follow).runFrom (Survey.start source kept)
    set s.cache
    match s.verdict? result with
    | some p => throw p
    | none => return a.conclude template path s

/-- Analyzes a prompt while the prompts at `visiting` are open. -/
def analyzeIn (a : Analyzer) (visiting : List String) (path : Option String) (source : String) :
    Analyzing Analysis :=
  a.document
    (a.reference visiting
      (fun next =>
        analyzeIn a (next.prompt.path :: visiting) (some next.prompt.path) next.prompt.text)
      path)
    path source
termination_by (a.unvisited visiting).length
decreasing_by exact a.unvisited_cons_lt next.mem_paths next.not_open

/-- Analyzes a prompt, with its path if it has one. -/
def analyze (a : Analyzer) (path : Option String) (source : String) : Analyzing Analysis :=
  a.analyzeIn path.toList path source

end Analyzer

end PromptMarkup

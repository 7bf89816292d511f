/-
Which text a problem points into.

* `Problem.PointsInto` — a problem lies between two places of a text;
* `Analyzer.RaisedIn` — in which prompt the problem was raised that an analysis fails with: in the
  prompt itself, or in one that was reached through references;
* `Analyzer.blamed_of_analyzeIn` — an analysis that fails names that prompt, hands over its text and
  points into it;
* `Analyzer.problem_of_analyze` — the same for a prompt with all prompts it refers to, and which
  problem is reported where one was collected in front of a reference that fails.

Design notes: a problem gets its text in the prompt it was raised in and its path one level higher,
so the induction over the references (`blamed_of_analyzeIn`) carries both along, with the place.
What a survey may stop with is known from its law; that a reference is answered either at itself or
with a problem that has a text already (`AnswersHere`) follows from the induction hypothesis.
-/
import PromptMarkup.Proofs.Complaints
import PromptMarkup.Proofs.Memory
import PromptMarkup.Yaml.Document

namespace PromptMarkup

open PromptMarkup.Computation
open Text (Cursor)

namespace Problem

/-- A problem lies between two places of a text. -/
structure PointsInto (p : Problem) (text : String) : Prop where
  ordered : p.start ≤ p.stop
  inside : p.stop ≤ Text.byteLength text.toList
  start : Text.IsBoundary text.toList p.start
  stop : Text.IsBoundary text.toList p.stop

theorem Own.pointsInto {p : Problem} {text : String} (h : p.Own (Cursor.ofText text.toList)) :
    p.PointsInto text := by
  rcases h.marks with hmarks | ⟨hstart, hstop⟩
  · exact ⟨hmarks.le, hmarks.last.isBoundary.le, hmarks.first.isBoundary, hmarks.last.isBoundary⟩
  · refine ⟨?_, ?_, ?_, ?_⟩
    · rw [hstart]
      exact Nat.zero_le _
    · rw [hstop]
      exact Nat.zero_le _
    · rw [hstart]
      exact Text.isBoundary_zero _
    · rw [hstop]
      exact Text.isBoundary_zero _

theorem PointsInto.withSource {p : Problem} {text : String} (h : p.PointsInto text)
    (source : String) :
    (p.withSource source).PointsInto text :=
  ⟨h.ordered, h.inside, h.start, h.stop⟩

theorem PointsInto.inPrompt {p : Problem} {text : String} (h : p.PointsInto text) (path : String) :
    (p.inPrompt path).PointsInto text :=
  ⟨h.ordered, h.inside, h.start, h.stop⟩

/-- A problem was raised in a prompt that was found, or in the prompt with the given text: it names
this prompt, and points into its text, which is attached. -/
structure Blames (p : Problem) (found : Option Prompt) (main : String) : Prop where
  prompt : p.prompt = found.map Prompt.path
  source : p.source = some ((found.map Prompt.text).getD main)
  place : p.PointsInto ((found.map Prompt.text).getD main)

/-- A problem that was raised in the prompt itself. -/
theorem Own.blames {p : Problem} {source : String} (h : p.Own (Cursor.ofText source.toList)) :
    (p.withSource source).Blames none source :=
  ⟨h.prompt, by rw [Problem.withSource, h.source]; rfl, h.pointsInto.withSource source⟩

/-- A problem of a prompt that was found, one level higher. -/
theorem Blames.inPrompt {p : Problem} {found : Option Prompt} {prompt : Prompt}
    (h : p.Blames found prompt.text)
    (main : String) : (p.inPrompt prompt.path).Blames (some (found.getD prompt)) main := by
  cases found with
  | none => exact ⟨by rw [Problem.inPrompt, h.prompt]; rfl, h.source, h.place.inPrompt prompt.path⟩
  | some deeper =>
    exact ⟨by rw [Problem.inPrompt, h.prompt]; rfl, h.source, h.place.inPrompt prompt.path⟩

end Problem

namespace Analyzer

/-! ### Where a problem was raised -/

/-- The analysis of a prompt fails with a problem that was raised in a prompt reached through
references, or in the prompt itself.  The prompts at the paths of the list are open. -/
inductive RaisedIn [ConfigReader] (a : Analyzer) :
    List String → Option String → String → Option Prompt → Problem → Prop
  /-- The text cannot be read. -/
  | unreadable {visiting : List String} {origin : Option String} {source : String} {p : Problem}
    (read : Template.read source = .error p) : RaisedIn a visiting origin source none p
  /-- The earliest problem of the prompt itself. -/
  | surveyed {visiting : List String} {origin : Option String} {source : String} {t : Template}
    {cache : Cache}
    {result : Except Problem Unit} {s : Survey} {p : Problem} (read : Template.read source = .ok t)
    (survey : runFrom (Survey.start source cache) (t.root.survey (a.followIn visiting origin)) =
      (result, s))
    (first : Problem.earliest? (s.ownProblems result) = some p) :
    RaisedIn a visiting origin source none (p.withSource source)
  /-- The survey has stopped at a reference, and all problems of the prompt itself are behind it. -/
  | referred {visiting : List String} {origin : Option String} {source : String} {t : Template}
    {cache : Cache}
    {s : Survey} {r : Reference} {resolver : Resolver} {prompt : Prompt} {found : Option Prompt}
    {p : Problem} (read : Template.read source = .ok t)
    (survey : runFrom (Survey.start source cache) (t.root.survey (a.followIn visiting origin)) =
      (.error (p.inPrompt prompt.path), s))
    (mem : r ∈ t.root.references)
    (stopped : s.StoppedAt (a.followIn visiting origin) r (p.inPrompt prompt.path))
    (behind : ∀ q ∈ s.problems, r.info.start < q.start)
    (resolved : a.resolver = some resolver) (find : resolver.find r.name origin = .ok (some prompt))
    (deeper : RaisedIn a (prompt.path :: visiting) (some prompt.path) prompt.text found p) :
    RaisedIn a visiting origin source (some (found.getD prompt)) (p.inPrompt prompt.path)

variable {a : Analyzer} {visiting : List String} {origin : Option String} {source : String}

/-- The prompt that a problem was raised in has been found by the resolver. -/
theorem RaisedIn.finds [ConfigReader] {found : Option Prompt} {p : Problem}
    (h : a.RaisedIn visiting origin source found p) :
    ∀ prompt ∈ found, ∃ resolver, a.resolver = some resolver ∧ resolver.Finds prompt := by
  induction h with
  | unreadable read => exact nofun
  | surveyed read survey first => exact nofun
  | @referred _ _ _ _ _ _ r resolver prompt found _ read survey mem stopped behind resolved find
      deeper ih =>
    intro x hx
    obtain rfl : found.getD prompt = x := Option.some.inj hx
    cases found with
    | none => exact ⟨resolver, resolved, r.name, _, find⟩
    | some innermost => exact ih innermost rfl

/-! ### Answers to references -/

theorem runFrom_pure_ne_error {σ α : Type} {s t : σ} {x : α} {p : Problem} :
    runFrom s (pure x : Computation Problem σ α) ≠ (.error p, t) :=
  fun h => nomatch h

theorem kept_ne_error {path : String} {cache cache' : Cache} {p : Problem} :
    (a.kept path).runFrom cache ≠ (.error p, cache') := by
  unfold kept
  split
  · exact runFrom_pure_ne_error
  · exact runFrom_pure_ne_error

theorem keep_ne_error {path key : String} {analysis : Analysis} {cache cache' : Cache}
    {p : Problem} :
    (a.keep path key analysis).runFrom cache ≠ (.error p, cache') := by
  unfold keep
  split
  · exact fun h => nomatch h
  · exact fun h => nomatch h

variable [ConfigReader]

/-- A reference is answered with a fault at itself, or with a problem of the prompt that was found.
-/
theorem followIn_eq_error {name : String} {info : NodeInfo} {cache cache' : Cache} {p : Problem}
    (h : (a.followIn visiting origin name info).runFrom cache = (.error p, cache')) :
    (∃ fault, p = ⟨fault, info.start, info.stop, none, none⟩) ∨
      ∃ resolver prompt q, a.resolver = some resolver ∧
        resolver.find name origin = .ok (some prompt) ∧
        prompt.path ∉ visiting ∧ p = q.inPrompt prompt.path ∧ ∃ before after,
          (a.analyzeIn (prompt.path :: visiting) (some prompt.path) prompt.text).runFrom before =
            (.error q, after) := by
  have hfail : ∀ {fault : Fault} {cache : Cache},
      (fail fault info : Analyzing Analysis).runFrom cache = (.error p, cache') →
        ∃ fault, p = ⟨fault, info.start, info.stop, none, none⟩ :=
    fun h => ⟨_, (Except.error.inj (Prod.mk.inj h).1).symm⟩
  unfold followIn at h
  cases hr : a.resolver with
  | none =>
    rw [reference_of_none hr] at h
    exact .inl (hfail h)
  | some r =>
    rcases hfind : r.find name origin with e | (_ | prompt)
    all_goals
      rw [reference_of_find hr hfind] at h
      split at h
      · exact .inl (hfail h)
      rcases runFrom_bind_eq_error h with h | ⟨found, cache₁, -, h⟩
      · exact absurd h kept_ne_error
      -- an analysis that was kept is an answer
      cases found with
      | some analysis => exact absurd h runFrom_pure_ne_error
      | none => ?_
    · exact .inl (hfail h)
    · exact .inl (hfail h)
    · dsimp only at h
      unfold openPrompt at h
      split at h
      · exact .inl (hfail h)
      · next hnew =>
        rcases runFrom_bind_eq_error h with h | ⟨found, cache₂, -, h⟩
        · exact absurd h kept_ne_error
        cases found with
        | some analysis => exact absurd h runFrom_pure_ne_error
        | none =>
          rcases runFrom_bind_eq_error h with h | ⟨analysis, cache₃, -, h⟩
          · rw [runFrom_rethrow] at h
            rcases hrun :
              runFrom cache₂ (a.analyzeIn (prompt.path :: visiting) (some prompt.path) prompt.text)
              with ⟨q | analysis, cache₄⟩
            · rw [hrun] at h
              exact .inr ⟨r, prompt, q, rfl, hfind, hnew, (Except.error.inj (Prod.mk.inj h).1).symm,
                _, _, hrun⟩
            · rw [hrun] at h
              exact absurd h runFrom_pure_ne_error
          · rcases runFrom_bind_eq_error h with h | ⟨u, cache₄, -, h⟩
            · exact absurd h keep_ne_error
            · exact absurd h runFrom_pure_ne_error

/-- A problem without a text is one at the reference, once every problem of an analysis has a text.
-/
theorem answersHere_followIn (h : ∀ (next : a.Openable visiting) cache cache' p,
      (a.analyzeIn (next.prompt.path :: visiting) (some next.prompt.path) next.prompt.text).runFrom
      cache =
        (.error p, cache') → p.source ≠ none) : AnswersHere (a.followIn visiting origin) := by
  intro name info cache p cache' hrun hsource
  rcases followIn_eq_error hrun with ⟨fault, rfl⟩ |
    ⟨r, prompt, q, hr, hfind, hnew, rfl, before, after, hdeeper⟩
  · exact ⟨rfl, rfl, rfl⟩
  · exact absurd hsource (h ⟨prompt, mem_paths_of_find hr hfind, hnew⟩ before after q hdeeper)

/-! ### Analyses that fail -/

theorem runFrom_document_unread {σ : Type} {follow : FollowIn σ} {p : Problem}
    (hread : Template.read source = .error p) (kept : σ) :
    runFrom kept (a.document follow origin source) = (.error p, kept) := by
  unfold document
  rw [hread]
  rfl

/-- An analysis that fails names the prompt that the problem was raised in, if it is another one,
hands over the text of this prompt, and points into it. -/
theorem blamed_of_analyzeIn {cache cache' : Cache} {p : Problem}
    (h : (a.analyzeIn visiting origin source).runFrom cache = (.error p, cache')) :
    ∃ found, a.RaisedIn visiting origin source found p ∧ p.Blames found source := by
  -- the induction follows the references; the prompt that is found one level deeper is handed on
  induction visiting, origin, source using analyzeIn.induct a generalizing cache cache' p with
  | case1 visiting origin source ih =>
    have hfollow : AnswersHere (a.followIn visiting origin) := by
      refine answersHere_followIn fun next cache cache' p hrun hnone => ?_
      obtain ⟨found, -, hblames⟩ := ih next hrun
      exact Option.some_ne_none _ (hblames.source.symm.trans hnone)
    rw [analyzeIn_eq_document] at h
    cases hread : Template.read source with
    | error q =>
      rw [runFrom_document_unread hread] at h
      obtain rfl : q = p := Except.error.inj (Prod.mk.inj h).1
      obtain ⟨own, hown, rfl⟩ := Template.read_eq_error hread
      exact ⟨none, .unreadable hread, hown.blames⟩
    | ok t =>
      rw [runFrom_document hread] at h
      rcases hsurvey : runFrom (Survey.start source cache)
        (t.root.survey (a.followIn visiting origin))
        with ⟨result, s⟩
      rw [hsurvey] at h
      dsimp only at h
      have hlaw := Template.complains_survey hread hfollow (Survey.start source cache)
      have hclean := Survey.clean_start source cache (Cursor.ofText source.toList)
      cases hverdict : s.verdict? result with
      | none =>
        rw [hverdict] at h
        exact absurd h runFrom_pure_ne_error
      | some q =>
        rw [hverdict] at h
        obtain rfl : q = p := Except.error.inj (Prod.mk.inj h).1
        have hsource : s.source = source := by
          rcases result with e | ⟨⟩
          · exact (hlaw.stop hsurvey).1
          · exact (hlaw.done hsurvey).1
        have hown : ∀ x ∈ s.ownProblems result, x.Own (Cursor.ofText source.toList) := by
          intro x hx
          rcases result with e | ⟨⟩
          · exact ((hlaw.stop hsurvey).2 hclean).own_of_mem hx
          · exact ((hlaw.done hsurvey).2 hclean).own x hx
        rcases Survey.verdict?_eq_some hverdict with ⟨own, hfirst, rfl⟩ |
          ⟨anchor, rfl, hanchor, hbehind⟩
        · rw [hsource]
          exact ⟨none, .surveyed hread hsurvey hfirst,
            (hown own (Problem.mem_of_earliest? hfirst)).blames⟩
        · rcases ((hlaw.stop hsurvey).2 hclean).cause with ⟨hnone, -⟩ | ⟨r, hmem, hsome, hat⟩
          · exact absurd (hanchor.symm.trans hnone) (Option.some_ne_none _)
          · rw [hat.failed, if_pos hsome] at hanchor
            obtain rfl := Option.some.inj hanchor
            obtain ⟨before, hanswer⟩ := hat.answered
            rcases followIn_eq_error hanswer with
              ⟨fault, rfl⟩ | ⟨resolver, prompt, deeper, hr, hfind, hnew, rfl, before',
                after', hdeeper⟩
            · exact absurd hsome Bool.false_ne_true
            · obtain ⟨found, hraised, hblames⟩ :=
                ih ⟨prompt, mem_paths_of_find hr hfind, hnew⟩ hdeeper
              exact ⟨_, .referred hread hsurvey hmem hat hbehind hr hfind hraised,
                hblames.inPrompt source⟩

theorem answersHere (a : Analyzer) (visiting : List String) (origin : Option String) :
    AnswersHere (a.followIn visiting origin) := by
  refine answersHere_followIn fun next cache cache' p hrun hnone => ?_
  obtain ⟨found, -, hblames⟩ := blamed_of_analyzeIn hrun
  exact Option.some_ne_none _ (hblames.source.symm.trans hnone)

/-- Where a problem was collected in front of a reference that fails, the analysis fails with the
earliest problem that was collected, and with the text of the prompt itself. -/
theorem runFrom_analyzeIn_of_collected {t : Template} {cache : Cache} {e q : Problem} {s : Survey}
    {r : Reference} (hread : Template.read source = .ok t)
    (hsurvey : runFrom (Survey.start source cache) (t.root.survey (a.followIn visiting origin)) =
      (.error e, s))
    (hat : s.StoppedAt (a.followIn visiting origin) r e) (hq : q ∈ s.problems)
    (hlt : q.start < r.info.start) :
    ∃ first, Problem.earliest? s.problems = some first ∧ first.PointsInto source ∧
      (a.analyzeIn visiting origin source).runFrom cache =
        (.error { first with source := some source, prompt := none }, s.cache) := by
  -- the walk stops at the reference, with what was reported in front of it
  have hfollow := answersHere a visiting origin
  have hlaw := (Template.complains_survey hread hfollow (Survey.start source cache)).stop hsurvey
  have hstopped := hlaw.2 (Survey.clean_start source cache _)
  obtain ⟨first, hfirst, hverdict⟩ := hat.verdict?_eq hfollow hq hlt
  have hown := hstopped.own first (Problem.mem_of_earliest? hfirst)
  refine ⟨first, hfirst, hown.pointsInto, ?_⟩
  -- a problem of one's own has neither a source nor a prompt yet
  have hproblem : first.withSource s.source =
    { first with source := some source, prompt := none } := by
    rw [hlaw.1, Problem.withSource, hown.source, hown.prompt]
    rfl
  rw [analyzeIn_eq_document, runFrom_document hread, hsurvey]
  dsimp only
  rw [hverdict, hproblem]

/-- An analysis that fails, with any resolver of finitely many paths, points into the right prompt:
either no path is given, the text is that of the prompt that was analyzed, and the problem was
raised in it; or the text is the one that was found for the path that is given, and the problem was
raised there.  This is so wherever the reader of front matter puts its faults.  A prompt that has
collected a problem in front of a reference that fails reports the earliest one. -/
theorem problem_of_analyze (a : Analyzer) (path : Option String) (source : String) (cache : Cache) :
    (∀ p cache', (a.analyze path source).runFrom cache = (.error p, cache') →
      ∃ found text, a.RaisedIn path.toList path source found p ∧
        (∀ prompt ∈ found, ∃ resolver, a.resolver = some resolver ∧ resolver.Finds prompt) ∧
        p.prompt = found.map Prompt.path ∧ text = (found.map Prompt.text).getD source ∧
        p.source = some text ∧ p.PointsInto text) ∧
    ∀ visiting origin text t before e s r q, Template.read text = .ok t →
      runFrom (Survey.start text before) (t.root.survey (a.followIn visiting origin)) =
        (.error e, s) →
      s.StoppedAt (a.followIn visiting origin) r e → q ∈ s.problems → q.start < r.info.start →
        ∃ first, Problem.earliest? s.problems = some first ∧ first.PointsInto text ∧
          (a.analyzeIn visiting origin text).runFrom before =
            (.error { first with source := some text, prompt := none }, s.cache) := by
  refine ⟨fun p cache' hrun => ?_,
    fun visiting origin text t before e s r q hread hsurvey hat hq hlt =>
    runFrom_analyzeIn_of_collected hread hsurvey hat hq hlt⟩
  obtain ⟨found, hraised, hblames⟩ := blamed_of_analyzeIn hrun
  exact ⟨found, _, hraised, hraised.finds, hblames.prompt, rfl, hblames.source, hblames.place⟩

end Analyzer

/-- A resolver that finds a prompt with an element that is not known in its second line. -/
def Resolver.unknownTag : Resolver :=
  .ofPrompts [("child", "line\n<foo>x</foo>")]

/-- The problem of a referenced prompt, and a problem in front of the reference to it. -/
theorem Analyzer.problem_of_analyze_unknownTags :
    (∃ cache, runFrom [] ((ofResolver (some .unknownTag)).analyze none "<ref prompt='child' />") =
        (.error ⟨.unknownTag "foo", 5, 17, some "line\n<foo>x</foo>", some "child"⟩, cache) ∧
      Problem.PointsInto ⟨.unknownTag "foo", 5, 17, some "line\n<foo>x</foo>", some "child"⟩
        "line\n<foo>x</foo>") ∧
      ∃ p cache, runFrom [] ((ofResolver (some .unknownTag)).analyze none
        "<foo></foo><ref prompt='child' />") =
          (.error p, cache) ∧ p.start = 0 ∧ p.source = some "<foo></foo><ref prompt='child' />" ∧
            p.prompt = none := by
  constructor
  -- the child's own problem, behind a line break in the child's text
  · have hcheck :
      (runFrom [] ((ofResolver (some .unknownTag)).analyze none "<ref prompt='child' />")).1.map
        (fun _ => ()) = .error ⟨.unknownTag "foo", 5, 17, some "line\n<foo>x</foo>",
          some "child"⟩ := by
      decide +kernel
    rcases hrun : runFrom [] ((ofResolver (some .unknownTag)).analyze none "<ref prompt='child' />")
      with ⟨p | analysis, cache⟩
    · rw [hrun] at hcheck
      obtain rfl := Except.error.inj hcheck
      obtain ⟨found, text, -, -, -, -, htext, hplace⟩ :=
        (problem_of_analyze (ofResolver (some .unknownTag)) none "<ref prompt='child' />" []).1 _
          cache hrun
      obtain rfl := Option.some.inj htext
      exact ⟨cache, rfl, hplace⟩
    · rw [hrun] at hcheck
      cases hcheck
  -- the unknown tag is in front of the reference that fails, and is the one that is told
  · have hcheck : (Template.read "<foo></foo><ref prompt='child' />").toOption.map (fun t =>
        ((runFrom (Survey.start "<foo></foo><ref prompt='child' />" [])
            (t.root.survey ((ofResolver (some .unknownTag)).followIn [] none))).1.isOk,
          (runFrom (Survey.start "<foo></foo><ref prompt='child' />" [])
            (t.root.survey ((ofResolver (some .unknownTag)).followIn [] none))).2.problems.map
            Problem.start,
          (runFrom (Survey.start "<foo></foo><ref prompt='child' />" [])
            (t.root.survey
              ((ofResolver (some .unknownTag)).followIn [] none))).2.failedReference)) =
        some (false, [0], some 11) := by
      decide +kernel
    rcases hread : Template.read "<foo></foo><ref prompt='child' />" with problem | t
    · rw [hread] at hcheck
      exact absurd hcheck.symm (Option.some_ne_none _)
    rw [hread] at hcheck
    replace hcheck := Option.some.inj hcheck
    dsimp only at hcheck
    rcases hsurvey : runFrom (Survey.start "<foo></foo><ref prompt='child' />" [])
        (t.root.survey ((ofResolver (some .unknownTag)).followIn [] none)) with ⟨e | ⟨⟩, s⟩
    · rw [hsurvey] at hcheck
      obtain ⟨-, hrest⟩ := Prod.mk.inj hcheck
      obtain ⟨hstarts, hfailed⟩ := Prod.mk.inj hrest
      obtain ⟨q, hq, hzero⟩ := List.map_eq_singleton_iff.1 hstarts
      have hstopped := ((Template.complains_survey hread (answersHere _ [] none) _).stop hsurvey).2
        (Survey.clean_start _ _ _)
      rcases hstopped.cause with ⟨hnone, -⟩ | ⟨r, -, hsome, hat⟩
      · exact absurd (hfailed.symm.trans hnone) (Option.some_ne_none _)
      -- the reference stands behind the unknown tag, at byte 11
      · have hanchor : r.info.start = 11 := by
          rw [hat.failed, if_pos hsome] at hfailed
          exact Option.some.inj hfailed
        obtain ⟨first, hfirst, -, hrun⟩ :=
          (problem_of_analyze (ofResolver (some .unknownTag)) none
            "<foo></foo><ref prompt='child' />" []).2
            [] none _ t [] e s r q hread hsurvey hat (hq ▸ List.mem_singleton.2 rfl) (by omega)
        obtain rfl : q = first := by
          rw [hq] at hfirst
          exact Option.some.inj hfirst
        exact ⟨_, _, hrun, hzero, rfl, rfl⟩
    · rw [hsurvey] at hcheck
      exact absurd (Prod.mk.inj hcheck).1.symm Bool.false_ne_true

end PromptMarkup

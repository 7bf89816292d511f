/-
Circular references are found, and nothing else is taken for one.

The prompts in memory and the prompt that is analyzed are the nodes of a graph; its edges are the
references.

* `Resolver.graph` — the graph, as a library;
* `Library.Cyclic` — a prompt that can be reached can be reached from itself;
* `Analyzer.fault_of_outcome`, `Analyzer.references_of_outcome` — how an analysis ends while some
  prompts are open;
* `analyze_graph` — an analysis fails exactly if the graph is cyclic, and otherwise reports exactly
  the prompts that can be reached.

Design notes: nothing needs to be said here about the analyses that are kept, since an analysis that
keeps nothing ends alike.  The open prompts are those on the way from the main prompt to the one
that is analyzed (`OnTheWay`); so a reference to one of them closes a cycle.
-/
import PromptMarkup.Proofs.Hashes
import PromptMarkup.Proofs.Memory
import PromptMarkup.Yaml.Document

namespace PromptMarkup

open PromptMarkup.Computation

section

variable [ConfigReader]

/-! ### The graph of prompts -/

namespace Library

variable {l : Library} {path origin : Option String} {text source goal : String}

theorem Opens.trans {origin' : Option String} {source' : String}
    (h : l.Opens path text origin source)
    (h' : l.Opens origin source origin' source') : l.Opens path text origin' source' := by
  induction h' with
  | main => exact h
  | reference _ read named ih => exact .reference ih read named

/-- What can be reached from a prompt that is read can be reached. -/
theorem Opens.reaches (h : l.Opens path text origin source) (h' : l.Reaches origin source goal) :
    l.Reaches path text goal := by
  obtain ⟨origin', source', t, hopens, hread, name, hname, rfl⟩ := h'
  exact ⟨origin', source', t, h.trans hopens, hread, name, hname, rfl⟩

/-- A prompt that can be reached is read. -/
theorem Reaches.opens (h : l.Reaches path text goal) :
    l.Opens path text (some goal) (l.content goal) := by
  obtain ⟨origin, source, t, hopens, hread, name, hname, rfl⟩ := h
  exact .reference hopens hread hname

/-- A prompt that is read is the main prompt, or can be reached. -/
theorem Opens.eq_or_reaches (h : l.Opens path text origin source) :
    origin = path ∧ source = text ∨
      ∃ goal, origin = some goal ∧ source = l.content goal ∧ l.Reaches path text goal := by
  cases h with
  | main => exact .inl ⟨rfl, rfl⟩
  | reference opened read named => exact .inr ⟨_, rfl, rfl, _, _, _, opened, read, _, named, rfl⟩

/-- What can be reached is what is named, and what can be reached from there. -/
theorem reaches_iff {t : Template} (hread : Template.read text = .ok t) :
    l.Reaches path text goal ↔ ∃ name ∈ t.root.named, goal = l.goal path name ∨
      l.Reaches (some (l.goal path name)) (l.content (l.goal path name)) goal := by
  constructor
  · rintro ⟨origin, source, t', hopens, hread', name, hname, rfl⟩
    -- the induction is on the way from the main prompt to the one that names the goal
    induction hopens generalizing t' name with
    | main =>
      obtain rfl : t = t' := Except.ok.inj (hread.symm.trans hread')
      exact ⟨name, hname, .inl rfl⟩
    | @reference origin source t₁ first opened read named ih =>
      obtain ⟨other, hother, heq | hreaches⟩ := ih t₁ read first named
      · refine ⟨other, hother, .inr ?_⟩
        rw [← heq]
        exact ⟨_, _, t', .main, hread', name, hname, rfl⟩
      · exact ⟨other, hother, .inr ⟨_, _, t', hreaches.opens, hread', name, hname, rfl⟩⟩
  · rintro ⟨name, hname, rfl | hreaches⟩
    · exact ⟨path, text, t, .main, hread, name, hname, rfl⟩
    · exact Opens.reaches (.reference .main hread hname) hreaches

/-- A prompt that is read can be reached from itself. -/
def Cyclic (l : Library) (path : Option String) (text : String) : Prop :=
  ∃ goal source, l.Opens path text (some goal) source ∧ l.Reaches (some goal) source goal

end Library

namespace Resolver

variable {prompts : Fields String} {path origin : Option String} {text source : String}

/-- Where references lead to while a prompt is analyzed: to the prompts in memory, and to the prompt
itself if it has a path. -/
def graph (prompts : Fields String) (path : Option String) (text : String) : Library :=
  ⟨id, fun goal => if path = some goal then text else ((canonical prompts).get? goal).getD ""⟩

/-- The text of a prompt that is read is the one of the graph. -/
theorem content_graph {goal : String}
    (h : (graph prompts path text).Opens path text (some goal) source) :
    source = (graph prompts path text).content goal := by
  rcases h.eq_or_reaches with ⟨heq, rfl⟩ | ⟨other, heq, rfl, -⟩
  · exact (if_pos heq.symm).symm
  · obtain rfl := Option.some.inj heq
    rfl

/-- No prompt that is read has a problem of its own, and every reference leads to a prompt. -/
structure Analyzable (prompts : Fields String) (path : Option String) (text : String) : Prop where
  sound : ∀ {origin source}, (graph prompts path text).Opens path text origin source →
    SoundAlone source
  found : ∀ {goal}, (graph prompts path text).Reaches path text goal →
    path = some goal ∨ ((canonical prompts).get? goal).isSome

end Resolver

/-! ### Open prompts -/

namespace Analyzer

open Resolver (graph)

/-- The open prompts are on the way to the prompt at `origin`: each is that prompt, or reaches it.
-/
structure OnTheWay (l : Library) (path : Option String) (text : String) (visiting : List String)
    (origin : Option String) : Prop where
  main : ∀ own, path = some own → own ∈ visiting
  opens : ∀ x ∈ visiting, l.Opens path text (some x) (l.content x)
  reaches : ∀ x ∈ visiting, origin = some x ∨
    ∃ goal, origin = some goal ∧ l.Reaches (some x) (l.content x) goal

section Outcomes

variable {prompts : Fields String} {path origin : Option String} {text source : String}
  {visiting : List String}

/-- A reference leads from an open prompt to the prompt that is referred to. -/
theorem OnTheWay.reaches_goal {l : Library} (h : OnTheWay l path text visiting origin)
    (hcontent : ∀ x, origin = some x → source = l.content x) {goal : String}
    (hgoal : l.Reaches origin source goal) {x : String} (hx : x ∈ visiting) :
    l.Reaches (some x) (l.content x) goal := by
  rcases h.reaches x hx with rfl | ⟨between, rfl, hbetween⟩
  · rwa [hcontent x rfl] at hgoal
  · rw [hcontent between rfl] at hgoal
    exact hbetween.opens.reaches hgoal

/-- One more prompt is opened. -/
theorem OnTheWay.opened {l : Library} (h : OnTheWay l path text visiting origin)
    (hopens : l.Opens path text origin source)
    (hcontent : ∀ x, origin = some x → source = l.content x)
    {goal : String} (hgoal : l.Reaches origin source goal) :
    OnTheWay l path text (goal :: visiting) (some goal) := by
  refine ⟨fun own hown => List.mem_cons_of_mem _ (h.main own hown), fun x hx => ?_, fun x hx => ?_⟩
  · rcases List.mem_cons.1 hx with rfl | hx
    · exact (hopens.reaches hgoal).opens
    · exact h.opens x hx
  · rcases List.mem_cons.1 hx with rfl | hx
    · exact .inl rfl
    · exact .inr ⟨goal, rfl, h.reaches_goal hcontent hgoal hx⟩

variable {a : Analyzer} (hanalyzable : Resolver.Analyzable prompts path text)

include hanalyzable

/-- A reference leads to a prompt that is found, unless the prompt is open. -/
theorem find_of_reaches {name : String}
    (hway : OnTheWay (graph prompts path text) path text visiting origin)
    (hopens : (graph prompts path text).Opens path text origin source) {t : Template}
    (hread : Template.read source = .ok t) (hname : name ∈ t.root.named)
    (hkey : Path.join name origin ∉ visiting) :
    (Resolver.ofPrompts prompts).find name origin =
      .ok (some ⟨Path.join name origin,
        (graph prompts path text).content (Path.join name origin)⟩) := by
  have hreaches : (graph prompts path text).Reaches path text (Path.join name origin) :=
    ⟨origin, source, t, hopens, hread, name, hname, rfl⟩
  -- a main prompt with a path is on the stack, so that the reference leads to another one
  have hother : path ≠ some (Path.join name origin) := fun heq => hkey (hway.main _ heq)
  rw [Resolver.find_ofPrompts]
  rcases hanalyzable.found hreaches with heq | hsome
  · exact absurd heq hother
  · obtain ⟨content, hcontent⟩ := Option.isSome_iff_exists.1 hsome
    have hgraph : (graph prompts path text).content (Path.join name origin) = content := by
      show (if path = some (Path.join name origin) then text else _) = content
      rw [if_neg hother, hcontent]
      rfl
    rw [hcontent, hgraph]
    rfl

/-- An analysis fails only because of a cycle. -/
theorem fault_of_outcome (hr : a.resolver = some (.ofPrompts prompts)) {p : Problem}
    (hway : OnTheWay (graph prompts path text) path text visiting origin)
    (hopens : (graph prompts path text).Opens path text origin source)
    (h : a.outcome visiting origin source = .error p) :
    (∃ goal, p.fault = .circularReference goal) ∧ (graph prompts path text).Cyclic path text := by
  -- the induction follows the references up to the one that is circular
  induction visiting, origin, source using analyzeIn.induct a generalizing p with
  | case1 visiting origin source ih =>
    have hcontent : ∀ x, origin = some x → source = (graph prompts path text).content x := by
      rintro x rfl
      exact Resolver.content_graph hopens
    rw [outcome, analyzeIn_eq_document] at h
    obtain ⟨t, hread, ref, href, kept, q, hq, hfault⟩ :=
      fault_of_document (hanalyzable.sound hopens) h
    have hname : ref.name ∈ t.root.named := List.mem_map_of_mem href
    have hgoal : (graph prompts path text).Reaches origin source (Path.join ref.name origin) :=
      ⟨origin, source, t, .main, hread, ref.name, hname, rfl⟩
    rw [fst_followIn_forgetful] at hq
    rw [hfault]
    by_cases hkey : Path.join ref.name origin ∈ visiting
    · rw [answer_of_mem hr hkey] at hq
      obtain rfl := Except.error.inj hq
      exact ⟨⟨_, rfl⟩, _, _, hway.opens _ hkey, hway.reaches_goal hcontent hgoal hkey⟩
    · have hfind := find_of_reaches hanalyzable hway hopens hread hname hkey
      rw [answer_of_not_mem hr hkey hfind] at hq
      dsimp only at hq
      rw [if_neg hkey] at hq
      cases hout : a.outcome (Path.join ref.name origin :: visiting)
        (some (Path.join ref.name origin))
          ((graph prompts path text).content (Path.join ref.name origin)) with
      | ok analysis =>
        rw [hout] at hq
        cases hq
      | error q' =>
        rw [hout] at hq
        obtain rfl := Except.error.inj hq
        have hinside := ih
          ⟨⟨_, _⟩, mem_paths_of_find hr hfind, hkey⟩ (hway.opened hopens hcontent hgoal)
          (.reference hopens hread hname) hout
        exact hinside

/-- An analysis that succeeds reports what can be reached; none of that is open, and none of that is
on a cycle. -/
theorem references_of_outcome (hr : a.resolver = some (.ofPrompts prompts)) {analysis : Analysis}
    (hway : OnTheWay (graph prompts path text) path text visiting origin)
    (hopens : (graph prompts path text).Opens path text origin source)
    (h : a.outcome visiting origin source = .ok analysis) :
    ∀ x, (x ∈ analysis.references ↔ (graph prompts path text).Reaches origin source x) ∧
      (x ∈ analysis.references → x ∉ visiting ∧
        ¬ (graph prompts path text).Reaches (some x) ((graph prompts path text).content x) x) := by
  induction visiting, origin, source using analyzeIn.induct a generalizing analysis with
  | case1 visiting origin source ih =>
    have hcontent : ∀ x, origin = some x → source = (graph prompts path text).content x := by
      rintro x rfl
      exact Resolver.content_graph hopens
    obtain ⟨t, found, hread, hrefs, hanswers, -, hreferences⟩ := outcome_eq_ok h
    -- what is known of the prompt that a reference names
    have hinner : ∀ f ∈ found, Path.join f.1.name origin ∉ visiting ∧
        f.2.path = some (Path.join f.1.name origin) ∧ f.1.name ∈ t.root.named ∧
        ∀ x, (x ∈ f.2.references ↔ (graph prompts path text).Reaches
          (some (Path.join f.1.name origin))
            ((graph prompts path text).content (Path.join f.1.name origin)) x) ∧
          (x ∈ f.2.references → x ∉ Path.join f.1.name origin :: visiting ∧
            ¬ (graph prompts path text).Reaches (some x) ((graph prompts path text).content x)
            x) := by
      intro f hf
      have hname : f.1.name ∈ t.root.named := by
        rw [Node.named, ← hrefs]
        exact List.mem_map_of_mem (List.mem_map_of_mem hf)
      obtain ⟨r, p, hr', hfind, hkey, hnew, hout⟩ := answer_eq_ok.1 (hanswers f hf)
      obtain rfl : Resolver.ofPrompts prompts = r := Option.some.inj (hr.symm.trans hr')
      have hfind' := find_of_reaches hanalyzable hway hopens hread hname hkey
      obtain rfl := Option.some.inj (Except.ok.inj (hfind.symm.trans hfind'))
      obtain ⟨-, -, -, -, -, hpath, -⟩ := outcome_eq_ok hout
      refine ⟨hkey, hpath, hname, ih ⟨_, mem_paths_of_find hr hfind, hnew⟩ ?_ ?_ hout⟩
      · exact hway.opened hopens hcontent ⟨origin, source, t, .main, hread, f.1.name, hname, rfl⟩
      · exact .reference hopens hread hname
    have hreaches : ∀ x, x ∈ analysis.references ↔
      (graph prompts path text).Reaches origin source x := by
      intro x
      rw [hreferences, Library.reaches_iff hread]
      constructor
      · rintro ⟨f, hf, hx⟩
        obtain ⟨-, hpath, hname, hrest⟩ := hinner f hf
        refine ⟨f.1.name, hname, hx.imp (fun heq => ?_) (hrest x).1.1⟩
        exact (Option.some.inj (hpath.symm.trans heq)).symm
      · rintro ⟨name, hname, hx⟩
        rw [Node.named, ← hrefs, List.map_map] at hname
        obtain ⟨f, hf, rfl⟩ := List.mem_map.1 hname
        obtain ⟨-, hpath, -, hrest⟩ := hinner f hf
        refine ⟨f, hf, hx.imp (fun heq => ?_) (hrest x).1.2⟩
        rw [hpath, heq]
        rfl
    refine fun x => ⟨hreaches x, fun hx => ?_⟩
    obtain ⟨f, hf, hx⟩ := (hreferences x).1 hx
    obtain ⟨hkey, hpath, -, hrest⟩ := hinner f hf
    rcases hx with heq | hx
    · -- the prompt is named; were it on a cycle, it would have been open when it was come across
        -- again
      obtain rfl := Option.some.inj (hpath.symm.trans heq)
      refine ⟨hkey, fun hcycle => ?_⟩
      exact ((hrest _).2 ((hrest _).1.2 hcycle)).1 List.mem_cons_self
    · obtain ⟨hnew, hacyclic⟩ := (hrest x).2 hx
      exact ⟨fun hold => hnew (List.mem_cons_of_mem _ hold), hacyclic⟩

end Outcomes

end Analyzer

/-- If no prompt has a problem of its own and all references lead to prompts, an analysis fails
exactly if a prompt that is read can be reached from itself, and then because of a circular
reference.  Otherwise it reports the prompts that can be reached.  It opens no more prompts than
there are, and leaves the stack of open prompts as it was. -/
theorem analyze_graph {prompts : Fields String} {path : Option String} {text : String}
    (h : Resolver.Analyzable prompts path text) :
    ((∃ p, (runFrom [] ((Analyzer.ofResolver (some (.ofPrompts prompts))).analyze path text)).1 =
      .error p) ↔
        (Resolver.graph prompts path text).Cyclic path text) ∧
      (∀ p, (runFrom [] ((Analyzer.ofResolver (some (.ofPrompts prompts))).analyze path text)).1 =
        .error p →
        p.fault.code = "circular-reference") ∧
      (∀ analysis,
        (runFrom [] ((Analyzer.ofResolver (some (.ofPrompts prompts))).analyze path text)).1 =
          .ok analysis →
            ∀ x, x ∈ analysis.references ↔ (Resolver.graph prompts path text).Reaches path text x) ∧
      ∀ depth, (Resolver.ofPrompts prompts).paths.length ≤ depth →
        (runFrom ⟨[], []⟩ (Inquiry.analyze (.ofResolver (some (.ofPrompts prompts))) depth path
          text)).1 =
            (runFrom [] ((Analyzer.ofResolver (some (.ofPrompts prompts))).analyze path text)).1 ∧
          ∀ visiting cache, (runFrom ⟨visiting, cache⟩
            (Inquiry.analyze (.ofResolver (some (.ofPrompts prompts))) depth path text)).2.visiting
            = visiting := by
  have hforget :
    (runFrom [] ((Analyzer.ofResolver (some (.ofPrompts prompts))).analyze path text)).1 =
      (Analyzer.ofResolver (some (.ofPrompts prompts))).outcome path.toList path text :=
    Analyzer.fst_analyze_eq_outcome rfl rfl (Resolver.canonical_ofPrompts prompts) path text
  have hcontent : ∀ x, path = some x → (Resolver.graph prompts path text).content x = text :=
    fun x hx => if_pos hx
  -- at the start the main prompt alone is open, if it has a path
  have hway : Analyzer.OnTheWay (Resolver.graph prompts path text) path text path.toList path := by
    refine ⟨fun own hown => by simp [hown], fun x hx => ?_, fun x hx => .inl
      (Option.mem_toList.1 hx)⟩
    obtain rfl : path = some x := Option.mem_toList.1 hx
    rw [hcontent x rfl]
    exact .main
  have hfails : ∀ p, (Analyzer.ofResolver (some (.ofPrompts prompts))).outcome path.toList path
    text = .error p →
      (∃ goal, p.fault = .circularReference goal) ∧
      (Resolver.graph prompts path text).Cyclic path text :=
    fun p => Analyzer.fault_of_outcome h rfl hway .main
  rw [hforget]
  refine ⟨⟨fun ⟨p, hp⟩ => (hfails p hp).2, fun hcyclic => ?_⟩, fun p hp => ?_,
    fun analysis hok x => ?_, fun depth hdepth => ⟨?_, fun visiting cache => ?_⟩⟩
  · cases hout : (Analyzer.ofResolver (some (.ofPrompts prompts))).outcome path.toList path
      text with
    | error p => exact ⟨p, rfl⟩
    | ok analysis =>
      -- a prompt on a cycle can be reached, for the main prompt is open
      exfalso
      have hknown := Analyzer.references_of_outcome h rfl hway .main hout
      obtain ⟨goal, source, hopens, hcycle⟩ := hcyclic
      obtain rfl := Resolver.content_graph hopens
      have hreaches := hopens.reaches hcycle
      exact ((hknown goal).2 ((hknown goal).1.2 hreaches)).2 hcycle
  · obtain ⟨⟨goal, hgoal⟩, -⟩ := hfails p hp
    rw [hgoal]
    rfl
  · exact ((Analyzer.references_of_outcome h rfl hway .main hok) x).1
  · rw [Inquiry.runFrom_analyze hdepth, ← hforget, Analyzer.analyze, List.append_nil]
  · rw [Inquiry.runFrom_analyze hdepth]

/-! ### Graphs that are given by a list of prompts -/

/-- All references in a text lead to the given paths. -/
def Resolver.Stays (paths : List String) (origin : Option String) (text : String) : Prop :=
  (namedIn text).any fun names => names.all fun name => decide (Path.join name origin ∈ paths)

instance (paths : List String) (origin : Option String) (text : String) :
    Decidable (Resolver.Stays paths origin text) :=
  inferInstanceAs (Decidable (_ = true))

theorem Resolver.Stays.mem {paths : List String} {origin : Option String} {text name : String}
    {t : Template} (h : Resolver.Stays paths origin text) (hread : Template.read text = .ok t)
    (hname : name ∈ t.root.named) : Path.join name origin ∈ paths := by
  unfold Stays at h
  rw [namedIn, hread] at h
  exact of_decide_eq_true (List.all_eq_true.1 h name hname)

/-- A graph is given by the paths that references lead to. -/
theorem Resolver.Analyzable.of_paths {prompts : Fields String} {path : Option String}
    {text : String} (paths : List String) (hmain : SoundAlone text ∧ Resolver.Stays paths path text)
    (hrest : ∀ goal ∈ paths, ((canonical prompts).get? goal).isSome ∧
      SoundAlone ((graph prompts path text).content goal) ∧
      Resolver.Stays paths (some goal) ((graph prompts path text).content goal)) :
    Resolver.Analyzable prompts path text := by
  have hopens : ∀ {origin source}, (graph prompts path text).Opens path text origin source →
      SoundAlone source ∧ Resolver.Stays paths origin source := by
    intro origin source hopens
    induction hopens with
    | main => exact hmain
    | reference opened read named ih => exact (hrest _ (ih.2.mem read named)).2
  refine ⟨fun h => (hopens h).1,
    fun {goal} ⟨origin, source, t, h, hread, name, hname, hgoal⟩ => .inr ?_⟩
  rw [hgoal]
  exact (hrest _ ((hopens h).2.mem hread hname)).1

end

/-- Two prompts that refer to each other. -/
def loop : Fields String :=
  [("a", "<ref prompt='b' />"), ("b", "<ref prompt='a' />")]

/-- A prompt that can be reached in two ways. -/
def diamond : Fields String :=
  [("a", "<ref prompt='c' />"), ("b", "<ref prompt='/c' />"), ("c", "x")]

/-- The first graph has a cycle, and the analysis says so; the second one has none. -/
theorem analyze_graph_runs :
    Resolver.Analyzable loop none "<ref prompt='a' />" ∧
      (Resolver.graph loop none "<ref prompt='a' />").Cyclic none "<ref prompt='a' />" ∧
      (∃ p, (runFrom [] ((Analyzer.ofResolver (some (.ofPrompts loop))).analyze none
          "<ref prompt='a' />")).1 = .error p ∧ p.fault.code = "circular-reference") ∧
    Resolver.Analyzable diamond none "<ref prompt='a' /><ref prompt='b' />" ∧
      ∃ analysis, (runFrom [] ((Analyzer.ofResolver (some (.ofPrompts diamond))).analyze none
          "<ref prompt='a' /><ref prompt='b' />")).1 = .ok analysis ∧
        ∀ x, x ∈ analysis.references ↔ (Resolver.graph diamond none
          "<ref prompt='a' /><ref prompt='b' />").Reaches none
          "<ref prompt='a' /><ref prompt='b' />" x := by
  -- every prompt that is reached was found, which is checked over the list of paths
  have hloop : Resolver.Analyzable loop none "<ref prompt='a' />" :=
    .of_paths ["a", "b"] (by decide +kernel) (by decide +kernel)
  have hdiamond : Resolver.Analyzable diamond none "<ref prompt='a' /><ref prompt='b' />" :=
    .of_paths ["a", "b", "c"] (by decide +kernel) (by decide +kernel)
  have hfailed : (runFrom ⟨[], []⟩ (Inquiry.analyze (.ofResolver (some (.ofPrompts loop))) 3 none
      "<ref prompt='a' />")).1.isOk = false := by
    decide +kernel
  have hok : (runFrom ⟨[], []⟩ (Inquiry.analyze (.ofResolver (some (.ofPrompts diamond))) 3 none
      "<ref prompt='a' /><ref prompt='b' />")).1.isOk = true := by
    decide +kernel
  obtain ⟨hfails, hcode, -, hstack⟩ := analyze_graph hloop
  obtain ⟨-, -, hreferences, hstack'⟩ := analyze_graph hdiamond
  -- what is evaluated is the analysis with a stack, which is bounded; both end alike
  rw [(hstack 3 (by decide +kernel)).1] at hfailed
  rw [(hstack' 3 (by decide +kernel)).1] at hok
  cases hrun : (runFrom [] ((Analyzer.ofResolver (some (.ofPrompts loop))).analyze none
      "<ref prompt='a' />")).1 with
  | ok analysis =>
    rw [hrun] at hfailed
    exact nomatch hfailed
  | error p =>
    obtain ⟨analysis, hrun'⟩ := exists_ok_of_isOk hok
    exact ⟨hloop, hfails.1 ⟨p, hrun⟩, ⟨p, rfl, hcode p hrun⟩, hdiamond, analysis, hrun',
      hreferences analysis hrun'⟩

end PromptMarkup

/-
What holds of a chain between its calls.

* `Ends`, `Template.walk_eq_ok` — how a walk over a template ended that had no problem;
* `Chain.opening` — the state in which the next walk of a chain starts;
* `Chain.Steady` — what holds of that state, before the first call and after every call that paused.
-/
import PromptMarkup.Proofs.Calls
import PromptMarkup.Proofs.Poised

namespace PromptMarkup

open PromptMarkup.Computation Walking

/-! ### Walks without problems -/

/-- How a walk over a template ended that had no problem. -/
inductive Ends : Except Interrupt Unit × Walk → Outcome → Prop
  | completed {w : Walk} (h : w.problems = []) : Ends (.ok (), w) (w.outcome true [])
  | paused {config : Fields Json} {w : Walk} (h : w.problems = []) :
    Ends (.error (.paused config), w) (w.outcome false config)

namespace Template

variable {t : Template} {setting : Setting} {w s : Walk} {config : Fields Json}

theorem walk_eq_ok {statuses : Statuses} {scope : Scope} {responses : List String}
    {outcome : Outcome} :
    t.walk setting statuses scope responses = .ok outcome ↔
      Ends (runFrom (Walk.start statuses scope responses) (t.visitRoot setting)) outcome := by
  unfold Template.walk
  -- three ends of a walk: it paused, it has a problem, it came to its end; a problem that was only
  -- collected makes a failure of the first and the last
  rcases runFrom (Walk.start statuses scope responses) (t.visitRoot setting) with
    ⟨(config | p) | ⟨⟩, w⟩
  · dsimp only
    constructor
    · intro h
      split at h
      · cases h
      · next hnone =>
        obtain rfl : w.outcome false config = outcome := by simpa using h
        exact .paused (Problem.earliest?_eq_none.1 hnone)
    · intro h
      cases h with
      | paused h => rw [h, Problem.earliest?]
  · dsimp only
    constructor
    · intro h
      split at h
      · cases h
      · next hnone => simp [Problem.earliest?_eq_none] at hnone
    · intro h
      cases h
  · dsimp only
    constructor
    · intro h
      split at h
      · cases h
      · next hnone =>
        obtain rfl : w.outcome true [] = outcome := by simpa using h
        exact .completed (Problem.earliest?_eq_none.1 hnone)
    · intro h
      cases h with
      | completed h => rw [h, Problem.earliest?]

/-- A walk over a template pauses only in the visit of its root. -/
theorem paused_of_visitRoot (h : runFrom w (t.visitRoot setting) = (.error (.paused config), s)) :
    runFrom w (t.root.walk setting []) = (.error (.paused config), s) := by
  have hclose : ∀ u : Unit, Respects (leaf 0 [] False False) (closeMessage setting) :=
    fun _ => leaf_closeMessage setting
  exact paused_of_bind_leaf hclose h

end Template

/-! ### Chains -/

namespace Chain

variable {chain : Chain}

/-- The state in which a walk of a chain starts. -/
def opening (chain : Chain) (responses : List String) : Walk :=
  Walk.start chain.statuses ⟨chain.stash, chain.pointers⟩ responses

/-- A walk of a chain. -/
def visit (chain : Chain) (responses : List String) : Except Interrupt Unit × Walk :=
  runFrom (chain.opening responses) (chain.template.visitRoot chain.setting)

theorem walk_eq_ok {response : Option String} {outcome : Outcome} :
    chain.walk response = .ok outcome ↔ Ends (chain.visit response.toList) outcome :=
  Template.walk_eq_ok

theorem not_completed_of_check {response : Option String} (h : chain.check response = none) :
    chain.completed = false := by
  unfold check at h
  split at h
  · exact nomatch h
  · next hcompleted => exact Bool.eq_false_iff.2 hcompleted

/-- A chain that goes on has paused. -/
theorem paused_of_advance {responses : List String} {outcome : Outcome}
    (h : Ends (chain.visit responses) outcome) (hnext : (chain.advance outcome).completed = false) :
    ∃ config t, chain.visit responses = (.error (.paused config), t) ∧ t.problems = [] ∧
      outcome = t.outcome false config := by
  rcases hvisit : chain.visit responses with ⟨r, w⟩
  rw [hvisit] at h
  cases h with
  | completed h => exact nomatch hnext
  | paused h => exact ⟨_, w, rfl, h, rfl⟩

/-- What holds of a chain between its calls: the numbers of the nodes are the places of their
statuses, all names have slots, and nothing inside of a step has paused. -/
structure Steady (chain : Chain) : Prop where
  numbered : chain.template.Numbered
  size : chain.statuses.nodes.size = chain.template.nodeCount
  stored : ∀ responses, (chain.opening responses).Stored
  calm : chain.template.root.Calm chain.statuses

theorem steady_start [ConfigReader] {setting : Setting} {text : String} {parameters : Fields Value}
    (h : Chain.start setting text parameters = .ok chain) : chain.Steady := by
  obtain ⟨t, hread, rfl⟩ := start_eq_ok h
  have hfresh : ∀ id, ((Statuses.fresh t.nodeCount).ofNode id).paused = none :=
    fun id => by rw [Statuses.ofNode_fresh, NodeStatus.fresh]
  refine ⟨Template.numbered_of_read hread, Array.size_replicate, fun responses => ⟨?_, ?_⟩, ?_⟩
  · exact Scope.valid_ofFields parameters
  · intro id point hpoint
    exact nomatch (hfresh id).symm.trans hpoint
  · exact fun m _ _ id _ => hfresh id

/-- A chain is steady after a walk that paused. -/
theorem Steady.advance (h : chain.Steady) {responses : List String} {config : Fields Json}
    {t : Walk} (ht : chain.visit responses = (.error (.paused config), t)) :
    (chain.advance (t.outcome false config)).Steady := by
  have hroot := Template.paused_of_visitRoot ht
  have hprogress := Node.progress_of_walk hroot
  have hstored : t.Stored := hprogress.stored (h.stored responses)
  have hcalm : chain.template.root.Calm (chain.opening responses).statuses := h.calm
  exact ⟨h.numbered, hprogress.size.trans h.size,
    fun more => ⟨(h.stored responses).visible.mono hprogress.slots, hstored.kept⟩,
    Node.calm_of_walk h.numbered.nodup hcalm hroot⟩

/-- The next walk of a chain that paused stands where the one that paused started. -/
theorem Steady.poised (h : chain.Steady) (responses more : List String) (t : Walk)
    {config : Fields Json} :
    Poised more [] chain.template.root.ids (chain.opening responses) t
      ((chain.advance (t.outcome false config)).opening more) :=
  { nodup := h.numbered.nodup
    free := fun _ _ => List.not_mem_nil
    bounded := fun id hid => Nat.lt_of_lt_of_eq (h.numbered.bounded id hid) h.size.symm
    size := rfl, statuses := fun _ _ => rfl, responses := rfl, stray := rfl, content := rfl
    toolCalls := rfl, inMessage := rfl, inContent := rfl, inStep := rfl, inArguments := rfl
    turns := rfl }

end Chain

end PromptMarkup

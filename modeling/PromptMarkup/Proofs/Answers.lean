/-
The response that a chain is given goes to the step that waits for it.

* `Chain.Rests` — how a chain stands between its calls: it has not been stepped yet, it has paused,
  or it has completed;
* `Chain.rests_calls` — a chain stands so after any calls, those that failed included;
* `Chain.step_answers` — what a call with a response does: the step that waits takes it, in the same
  parts of blocks, before anything else is said, and nobody else takes one;
* `Chain.step_drops_response` — a prompt in which nobody takes the response.

Design notes: a `for` block without items does not record that it has none, so that its items are
evaluated again when the chain goes on.  If there are any then, the walk goes into the first
iteration and not into the `else` part in which the step waits; this is the only way to lose a
response, and the journal of the call tells whether it was taken.
-/
import PromptMarkup.Proofs.Calls
import PromptMarkup.Proofs.Chains
import PromptMarkup.Proofs.Questions
import PromptMarkup.Yaml.Document

namespace PromptMarkup

open PromptMarkup.Computation Walking

/-! ### The end of a walk -/

namespace Template

variable {t : Template} {setting : Setting} {w s : Walk}

theorem journal_closed (setting : Setting) (w : Walk) : (w.closed setting).journal = w.journal := by
  unfold Walk.closed
  dsimp only
  split
  · rfl
  · rfl

/-- Making a message of what is pending adds no event. -/
theorem adds_closeMessage (P : Event → Prop) : Respects (adds P) (closeMessage setting) := by
  intro w
  have hrun : runFrom w (closeMessage setting) = (.ok (), w.closed setting) :=
    runFrom_closeMessage w setting
  have hleaf : Respects (leaf 0 [] False False) (closeMessage setting) := leaf_closeMessage setting
  have hadds : Adds P w (w.closed setting) :=
    ⟨((hleaf w).done hrun).1.messages, [], journal_closed setting w, List.forall_mem_nil _⟩
  exact RespectsAt.of_ok hrun hadds

/-- A whole walk takes responses only in its steps. -/
theorem progress_visitRoot (w : Walk) :
    Progress t.root.ids [] w (runFrom w (t.visitRoot setting)).2 := by
  have hclose : Respects (leaf t.root.id [] False t.root.DeclaresNothing) (closeMessage setting) :=
    leaf_closeMessage setting
  have hall : Respects (progress t.root.ids [] t.root.HoldsStep t.root.DeclaresNothing)
      (t.visitRoot setting) :=
    Respects.bind (t.root.respects_walk []) fun _ =>
      progress_of_leaf hclose t.root.id_mem_ids fun h => h
  rcases hrun : runFrom w (t.visitRoot setting) with ⟨e | ⟨⟩, s⟩
  · exact ((hall w).stop hrun).1
  · exact ((hall w).done hrun).1

end Template

/-! ### Between the calls -/

namespace Chain

variable {chain next : Chain} {setting : Setting} {text : String} {parameters : Fields Value}
  {response : String} {result : StepResult}

/-- How a chain stands between its calls. -/
inductive Rests : Chain → Prop
  | fresh {chain : Chain} (h : chain.Steady) (hnew : chain.started = false) : Rests chain
  | paused {before : Chain} {responses : List String} {config : Fields Json} {t : Walk}
      (h : before.Steady) (ht : before.visit responses = (.error (.paused config), t)) :
      Rests (before.advance (t.outcome false config))
  | completed {chain : Chain} (h : chain.completed = true) : Rests chain

theorem Rests.call (h : chain.Rests) (response : Option String) : (chain.call response).Rests := by
  rcases call_cases chain response with ⟨outcome, hcheck, hwalk, hcall⟩ | hcall
  · rw [hcall]
    have hsteady : chain.Steady := by
      cases h with
      | fresh h _ => exact h
      | paused h ht => exact h.advance ht
      | completed h => exact nomatch h.symm.trans (not_completed_of_check hcheck)
    cases hcompleted : (chain.advance outcome).completed with
    | true => exact .completed hcompleted
    | false =>
      obtain ⟨config, t, ht, -, rfl⟩ := paused_of_advance (walk_eq_ok.1 hwalk) hcompleted
      exact .paused hsteady ht
  · rwa [hcall]

/-- After any calls a chain stands as between its calls. -/
theorem rests_calls [ConfigReader] (hstart : Chain.start setting text parameters = .ok chain)
    (earlier : List (Option String)) : (chain.calls earlier).Rests := by
  have hfirst : chain.Rests := by
    refine .fresh (steady_start hstart) ?_
    obtain ⟨t, -, rfl⟩ := start_eq_ok hstart
    rfl
  exact calls_invariant (fun _ response h => h.call response) hfirst earlier

/-- A chain that may be given a response has paused. -/
theorem Rests.eq_paused (h : chain.Rests) (hcheck : chain.check (some response) = none) :
    ∃ (before : Chain) (responses : List String) (config : Fields Json) (t : Walk), before.Steady ∧
      before.visit responses = (.error (.paused config), t) ∧
      chain = before.advance (t.outcome false config) := by
  cases h with
  | fresh h hnew =>
    unfold check at hcheck
    rw [hnew] at hcheck
    split at hcheck
    · exact nomatch hcheck
    · exact nomatch hcheck
  | paused h ht => exact ⟨_, _, _, _, h, ht, rfl⟩
  | completed h => exact nomatch h.symm.trans (not_completed_of_check hcheck)

/-- The journal and the messages of a walk that had no problem. -/
theorem outcome_of_ends {r : Except Interrupt Unit × Walk} {outcome : Outcome}
    (h : Ends r outcome) :
    outcome.journal = r.2.journal.reverse ∧ outcome.messages = r.2.messages ∧
      ∀ p, r.1 ≠ .error (.failed p) := by
  cases h with
  | completed _ => exact ⟨rfl, rfl, fun p hp => nomatch hp⟩
  | paused _ => exact ⟨rfl, rfl, fun p hp => nomatch hp⟩

/-! ### Responses -/

/-- A walk of a chain that goes on behind a pause follows the question of that pause. -/
theorem follows_of_visit (h : chain.Steady) {responses : List String} {config : Fields Json}
    {t : Walk} (ht : chain.visit responses = (.error (.paused config), t)) :
    ∃ q : Question, t.journal.head? = some (.asked q.node q.path q.turns) ∧ ∀ response,
      q.Follows response chain.template.root.ids []
        ((chain.advance (t.outcome false config)).opening [response])
        ((chain.advance (t.outcome false config)).visit [response]) := by
  obtain ⟨q, hasked, hinside, hfollows⟩ :=
    Node.replies h.numbered.nodup (Template.paused_of_visitRoot ht)
  refine ⟨q, hasked, fun response => ?_⟩
  exact (hfollows (h.poised responses [response] t)).bind hinside (List.Subset.refl _)
    List.prefix_rfl fun _ => Template.adds_closeMessage _

/-- What a walk without problems did that follows a question, in order. -/
theorem answers_of_follows {q : Question} {outcome : Outcome}
    (h : q.Follows response chain.template.root.ids [] (chain.opening [response])
      (chain.visit [response])) (hwalk : chain.walk (some response) = .ok outcome) :
    ((∀ turn ∈ q.turns, turn.part = .noItems → .entered turn.first ∉ outcome.journal) →
      [.ofResponse response] <+: outcome.messages ∧
      .answered q.node q.path q.turns response ∈ outcome.journal ∧
      outcome.journal.filterMap Event.response? = [response]) ∧
    ((∃ turn ∈ q.turns, turn.part = .noItems ∧ .entered turn.first ∈ outcome.journal) →
      ∀ turns other, .answered q.node q.path turns other ∉ outcome.journal) := by
  obtain ⟨hjournal, hmessages, hclean⟩ := outcome_of_ends (walk_eq_ok.1 hwalk)
  obtain ⟨new, hnew, -, hends⟩ := h hclean
  have hprogress : Progress chain.template.root.ids [] (chain.opening [response])
      (chain.visit [response]).2 := Template.progress_visitRoot _
  obtain ⟨taken, htaken, -, hused⟩ := hprogress.journal
  obtain rfl : new = taken := List.append_cancel_right (hnew.symm.trans htaken)
  have hall : outcome.journal = new.reverse :=
    hjournal.trans (congrArg List.reverse (hnew.trans (List.append_nil new)))
  rw [hall, hmessages]
  refine ⟨fun hsame => ?_, fun ⟨turn, hturn, hpart, hentered⟩ => ?_⟩
  · rcases hends with hheard | hdiverted
    · have hanswered : .answered q.node q.path q.turns response ∈ new.reverse :=
        List.mem_reverse.2 hheard.answered
      have hresponse : response ∈ takenIn new := List.mem_filterMap.2 ⟨_, hanswered, rfl⟩
      -- at most one response can be taken, and one is
      have honly : takenIn new = [response] := by
        rcases List.append_eq_singleton_iff.1 hused with ⟨hnone, -⟩ | ⟨hone, -⟩
        · exact nomatch hnone ▸ hresponse
        · exact hone
      exact ⟨hheard.messages, hanswered, honly⟩
    · obtain ⟨turn, hturn, hpart, hentered⟩ := hdiverted.items
      exact absurd (List.mem_reverse.2 hentered) (hsame turn hturn hpart)
  · rcases hends with hheard | hdiverted
    · exact absurd (List.mem_reverse.1 hentered) (hheard.same turn hturn hpart)
    · intro turns other hmem
      exact hdiverted.unanswered turns other (List.mem_reverse.1 hmem)

/-- What a call with a response does: the step that waits takes it, in the same parts of blocks,
before all other messages of the call, and no other step takes one, unless the walk goes into the
items of a loop in whose `else` part the step waits; then the step takes none. -/
theorem step_answers [ConfigReader] (hstart : Chain.start setting text parameters = .ok chain)
    (earlier : List (Option String))
    (hstep : (chain.calls earlier).step (some response) = .ok (result, next)) :
    ∃ (q : Question) (new : List Event),
      (chain.calls earlier).journal.getLast? = some (.asked q.node q.path q.turns) ∧
      next.journal = (chain.calls earlier).journal ++ new ∧
      ((∀ turn ∈ q.turns, turn.part = .noItems → .entered turn.first ∉ new) →
        (chain.calls earlier).messages ++ [.ofResponse response] <+: result.conversation.messages ∧
        .answered q.node q.path q.turns response ∈ new ∧
        new.filterMap Event.response? = [response]) ∧
      ((∃ turn ∈ q.turns, turn.part = .noItems ∧ .entered turn.first ∈ new) →
        ∀ turns other, .answered q.node q.path turns other ∉ new) := by
  obtain ⟨hcheck, outcome, hwalk, rfl, hmessages, -⟩ := step_eq_ok hstep
  obtain ⟨before, responses, config, t, hsteady, ht, heq⟩ :=
    -- the chain rests where an earlier call paused, so that the walk follows its trail
    (rests_calls hstart earlier).eq_paused hcheck
  obtain ⟨q, hasked, hfollows⟩ := follows_of_visit hsteady ht
  rw [← heq] at hfollows
  have htemplate : (chain.calls earlier).template = before.template := by rw [heq]; rfl
  -- the last event of that call is the question, since nothing is noted behind a pause
  have hwaits : (chain.calls earlier).journal.getLast? = some (.asked q.node q.path q.turns) := by
    obtain ⟨later, hlater⟩ := List.head?_eq_some_iff.1 hasked
    rw [heq]
    show (before.journal ++ t.journal.reverse).getLast? = _
    rw [hlater, List.reverse_cons, ← List.append_assoc, List.getLast?_concat]
  obtain ⟨hheard, hdiverted⟩ := answers_of_follows (htemplate ▸ hfollows response) hwalk
  refine ⟨q, outcome.journal, hwaits, rfl, fun hsame => ?_, hdiverted⟩
  obtain ⟨hfirst, hanswered, honly⟩ := hheard hsame
  rw [hmessages]
  exact ⟨(List.prefix_append_right_inj _).2 hfirst, hanswered, honly⟩

/-- A step in a branch in the `else` part of a loop. -/
def stepWithoutItems : String :=
  braced "for x in []" ++ braced "else" ++ braced "if true" ++ "<step />" ++ braced "endif" ++
    braced "endfor"

theorem step_answers_stepWithoutItems :
    ∃ chain result next, Chain.start plainSetting stepWithoutItems [] = .ok chain ∧
      (chain.calls [none]).step (some "r") = .ok (result, next) ∧
      ∃ (q : Question) (new : List Event),
        (chain.calls [none]).journal.getLast? = some (.asked q.node q.path q.turns) ∧
        next.journal = (chain.calls [none]).journal ++ new ∧
        ((∀ turn ∈ q.turns, turn.part = .noItems → .entered turn.first ∉ new) →
          (chain.calls [none]).messages ++ [.ofResponse "r"] <+: result.conversation.messages ∧
          .answered q.node q.path q.turns "r" ∈ new ∧
          new.filterMap Event.response? = ["r"]) ∧
        ((∃ turn ∈ q.turns, turn.part = .noItems ∧ .entered turn.first ∈ new) →
          ∀ turns other, .answered q.node q.path turns other ∉ new) := by
  have hcheck : ((Chain.start plainSetting stepWithoutItems []).toOption.any fun chain =>
      ((chain.calls [none]).step (some "r")).isOk) = true := by
    decide +kernel
  obtain ⟨chain, hstart, hok⟩ := exists_ok_of_any hcheck
  obtain ⟨⟨result, next⟩, hstep⟩ := exists_ok_of_isOk hok
  exact ⟨chain, result, next, hstart, hstep, step_answers hstart [none] hstep⟩

/-- A step in the `else` part of a loop that has an item when the walk comes back. -/
def itemsBehindPause : String :=
  braced "items = []" ++ braced "for x in items" ++ braced "x" ++ braced "else" ++
    braced "items = [1]" ++
    "<step />" ++ braced "endfor"

/-- The response is dropped: the chain completes, and its only message is what the loop has written.
-/
theorem step_drops_response :
    ∃ chain result next, Chain.start plainSetting itemsBehindPause [] = .ok chain ∧
      (chain.calls [none]).step (some "r") = .ok (result, next) ∧ result.completed = true ∧
      result.conversation.messages.map Message.text = ["1"] := by
  have hcheck : ((Chain.start plainSetting itemsBehindPause []).toOption.any fun chain =>
      ((chain.calls [none]).step (some "r")).toOption.any fun (result, _) =>
        result.completed = true ∧ result.conversation.messages.map Message.text = ["1"]) =
          true := by
    decide +kernel
  obtain ⟨chain, hstart, hany⟩ := exists_ok_of_any hcheck
  obtain ⟨⟨result, next⟩, hstep, hall⟩ := exists_ok_of_any hany
  obtain ⟨hcompleted, hmessages⟩ := of_decide_eq_true hall
  exact ⟨chain, result, next, hstart, hstep, hcompleted, hmessages⟩

end Chain

end PromptMarkup

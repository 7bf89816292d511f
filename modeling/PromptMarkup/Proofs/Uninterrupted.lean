/-
A chain is a walk in parts.

* `Chain.run` — the calls that step a chain through several responses;
* `Chain.visit_longer` — a walk goes the same way if it is given more responses;
* `Chain.visit_append` — a walk that paused, and the one that goes on behind it, are one walk;
* `Chain.run_eq_walk` — the messages of a chain are those of one walk that has all responses;
* `Chain.run_not_failed` — if that walk has no problem, neither has the chain, and all names that
  are visible in the one are visible in the other.
-/
import Mathlib.Data.List.Basic
import PromptMarkup.Proofs.Chains
import PromptMarkup.Proofs.Resumption
import PromptMarkup.Yaml.Document

namespace PromptMarkup

open PromptMarkup.Computation Walking

/-! ### Ends -/

/-- Two walks that agree have no problem if the second has none, and their outcomes make one. -/
theorem Ends.joined {rho : Nat → Nat} {t : Walk} {rb rc : Except Interrupt Unit × Walk}
    {o : Outcome} (h : Agree (.behind rho t) [] rb rc) (hc : Ends rc o) :
    ∃ whole, Ends rb whole ∧ whole.messages = t.messages ++ o.messages ∧
      whole.completed = o.completed ∧
      evaluations whole.journal = evaluations t.journal.reverse ++ evaluations o.journal := by
  -- journals are kept latest first, so those of the later run come in front
  have hjoin : ∀ {b c : Walk},
      evaluations b.journal = evaluations c.journal ++ (Bond.behind rho t).seen →
      evaluations b.journal.reverse =
        evaluations t.journal.reverse ++ evaluations c.journal.reverse := by
    intro b c hbc
    rw [evaluations_reverse, hbc, List.reverse_append, evaluations_reverse, evaluations_reverse]
    rfl
  cases h with
  | ok h =>
    -- the later run completes, and the uninterrupted one with it
    cases hc with
    | completed hc =>
      exact ⟨_, .completed (h.problems.symm.trans hc), h.messages, rfl, hjoin h.evaluations⟩
  | failed => exact nomatch hc
  | paused hmore h =>
    -- the later run pauses again, and so does the uninterrupted one
    cases hc with
    | paused hc =>
      exact ⟨_, .paused (h.problems.symm.trans hc), h.messages, rfl, hjoin h.evaluations⟩
  | short hmore h => exact absurd rfl hmore

/-- If the first of two walks that agree has no problem, neither has the second. -/
theorem Ends.behind {rho : Nat → Nat} {t : Walk} {rb rc : Except Interrupt Unit × Walk}
    {whole : Outcome} (h : Agree (.behind rho t) [] rb rc) (hb : Ends rb whole) :
    ∃ o, Ends rc o := by
  cases h with
  | ok h =>
    cases hb with
    | completed hb => exact ⟨_, .completed (h.problems.trans hb)⟩
  | failed => exact nomatch hb
  | paused hmore h =>
    cases hb with
    | paused hb => exact ⟨_, .paused (h.problems.trans hb)⟩
  | short hmore h => exact absurd rfl hmore

theorem Ends.clean {r : Except Interrupt Unit × Walk} {o : Outcome} (h : Ends r o) :
    r.2.problems = [] ∧ o.journal = r.2.journal.reverse := by
  cases h with
  | completed h => exact ⟨h, rfl⟩
  | paused h => exact ⟨h, rfl⟩

theorem Ends.unique {r : Except Interrupt Unit × Walk} {o o' : Outcome} (h : Ends r o)
    (h' : Ends r o') : o = o' := by
  cases h with
  | completed h =>
    cases h' with
    | completed h' => rfl
  | paused h =>
    cases h' with
    | paused h' => rfl

/-- A walk with fewer responses has no problem either, and evaluates the same for as long as it
goes. -/
theorem Ends.shorter {more : List String} {rb rc : Except Interrupt Unit × Walk} {whole : Outcome}
    (h : Agree (.longer more) [] rb rc) (hb : Ends rb whole) :
    ∃ o, Ends rc o ∧ evaluations o.journal <+: evaluations whole.journal ∧
      (o.completed = true → evaluations o.journal = evaluations whole.journal) := by
  obtain ⟨hclean, hjournal⟩ := hb.clean
  -- the shorter run evaluated a prefix of what the whole one did
  have hbefore : ∀ {c : Walk}, evaluations c.journal ++ (Bond.longer more).seen <:+
      evaluations rb.2.journal → evaluations c.journal.reverse <+: evaluations whole.journal := by
    intro c hc
    rw [hjournal, evaluations_reverse, evaluations_reverse]
    refine List.reverse_prefix.2 ?_
    rwa [Bond.longer, List.append_nil] at hc
  cases h with
  | ok h =>
    refine ⟨_, .completed (h.problems.trans hclean), hbefore (h.evaluations ▸ List.suffix_rfl),
      fun _ => ?_⟩
    rw [hjournal]
    show evaluations (List.reverse _) = evaluations (List.reverse _)
    rw [evaluations_reverse, evaluations_reverse, h.evaluations, Bond.longer, List.append_nil]
  | failed => exact nomatch hb
  | paused hmore h =>
    exact ⟨_, .paused (h.problems.trans hclean), hbefore (h.evaluations ▸ List.suffix_rfl),
      fun hcompleted => nomatch hcompleted⟩
  | short hmore h =>
    -- the shorter run stopped for want of a response
    refine ⟨_, .paused (List.prefix_nil.1 ?_), hbefore h.evaluations,
      fun hcompleted => nomatch hcompleted⟩
    exact hclean ▸ h.problems

/-! ### Walks of a chain -/

namespace Chain

variable {chain : Chain} {responses more : List String} {config : Fields Json} {t : Walk}

theorem alike_longer (chain : Chain) (responses more : List String) :
    Alike (.longer more) [] (chain.opening (responses ++ more)) (chain.opening responses) :=
  { size := rfl
    statuses := fun _ _ => (NodeStatus.renamed_id _).symm
    scope := ⟨.refl _, (Pointers.renamed_id _).symm⟩
    responses := rfl, messages := rfl, evaluations := rfl, stray := rfl, content := rfl
    toolCalls := rfl, inMessage := rfl, inContent := rfl, inStep := rfl, inArguments := rfl
    turns := rfl, problems := rfl }

/-- A walk goes the same way if it is given more responses. -/
theorem visit_longer (chain : Chain) (responses more : List String) :
    Agree (.longer more) [] (chain.visit (responses ++ more)) (chain.visit responses) := by
  have hwalk : Congruent (.longer more) [] (chain.template.visitRoot chain.setting) :=
    Congruent.bind (Node.congruent_walk _ (fun _ _ => List.not_mem_nil) []) fun _ =>
      Congruent.closeMessage _
  exact hwalk.agree _ _ (alike_longer chain responses more)

/-- A walk that paused, and the one that goes on behind it, are one walk. -/
theorem visit_append (h : chain.Steady) (hn : chain.template.root.Resumable) (hmore : more ≠ [])
    (ht : chain.visit responses = (.error (.paused config), t)) (hproblems : t.problems = []) :
    ∃ rho, Agree (.behind rho t) [] (chain.visit (responses ++ more))
      ((chain.advance (t.outcome false config)).visit more) := by
  have hroot := Template.paused_of_visitRoot ht
  have hscene : Scene more [] chain.template.root.ids (chain.opening responses) t
      (chain.opening (responses ++ more))
      ((chain.advance (t.outcome false config)).opening more) :=
    { more_ne := hmore
      stored := h.stored responses
      problems := hproblems
      alike := alike_longer chain responses more
      standing :=
        { h.poised responses more t with
          stash := .refl _, messages := rfl, problems := rfl, evaluations := rfl } }
  obtain ⟨rho, -, hagree⟩ := Node.rejoins chain.template.root hn h.calm hscene hroot
  exact ⟨rho, hagree.bind fun _ => Congruent.closeMessage _⟩

/-! ### Calls -/

/-- Steps a chain, first with the given response or without one, and then with each of the others.
-/
def run (chain : Chain) : Option String → List String → Except ChainError (StepResult × Chain)
  | response, [] => chain.step response
  | response, r :: rest => do
    let (_, next) ← chain.step response
    next.run (some r) rest

theorem run_cons_eq_ok {response : Option String} {r : String} {rest : List String}
    {result : StepResult} {last : Chain} (h : chain.run response (r :: rest) = .ok (result, last)) :
    ∃ first next, chain.step response = .ok (first, next) ∧
      next.run (some r) rest = .ok (result, last) := by
  unfold run at h
  rcases hstep : chain.step response with e | ⟨first, next⟩
  · rw [hstep] at h
    exact nomatch h
  · rw [hstep] at h
    exact ⟨first, next, rfl, h⟩

theorem not_completed_of_run {response : Option String} {rest : List String}
    {result : StepResult} {last : Chain} (h : chain.run response rest = .ok (result, last)) :
    chain.completed = false := by
  cases rest with
  | nil => exact not_completed_of_check (step_eq_ok h).1
  | cons r rest =>
    obtain ⟨first, next, hstep, -⟩ := run_cons_eq_ok h
    exact not_completed_of_check (step_eq_ok hstep).1

/-- The calls of a chain make up one walk that has all responses. -/
theorem run_eq_visit (h : chain.Steady) (hn : chain.template.root.Resumable)
    {response : Option String} {rest : List String} {result : StepResult} {last : Chain}
    (hrun : chain.run response rest = .ok (result, last)) :
    ∃ whole, Ends (chain.visit (response.toList ++ rest)) whole ∧
      result.conversation.messages = chain.messages ++ whole.messages ∧
      result.completed = whole.completed ∧
      evaluations last.journal = evaluations chain.journal ++ evaluations whole.journal := by
  -- on the responses: one call pauses, and the walk it pauses in goes on as one
  induction rest generalizing chain response with
  | nil =>
    obtain ⟨-, outcome, hwalk, rfl, hmessages, hcompleted⟩ := step_eq_ok hrun
    refine ⟨outcome, ?_, hmessages, hcompleted, evaluations_append _ _⟩
    rw [List.append_nil]
    exact walk_eq_ok.1 hwalk
  | cons r rest ih =>
    obtain ⟨first, next, hstep, hnext⟩ := run_cons_eq_ok hrun
    obtain ⟨-, outcome, hwalk, rfl, -, -⟩ := step_eq_ok hstep
    obtain ⟨config, t, ht, hproblems, rfl⟩ :=
      paused_of_advance (walk_eq_ok.1 hwalk) (not_completed_of_run hnext)
    obtain ⟨later, hlater, hmessages, hcompleted, hevaluations⟩ := ih (h.advance ht) hn hnext
    -- the paused walk and its resumption agree with one walk of all the responses
    obtain ⟨rho, hagree⟩ := visit_append h hn (List.cons_ne_nil r rest) ht hproblems
    obtain ⟨whole, hwhole, hmessages', hcompleted', hevaluations'⟩ := Ends.joined hagree hlater
    refine ⟨whole, hwhole, ?_, hcompleted.trans hcompleted'.symm, ?_⟩
    · rw [hmessages, hmessages', ← List.append_assoc]
      rfl
    · have hadvance : evaluations (chain.advance (t.outcome false config)).journal =
          evaluations chain.journal ++ evaluations t.journal.reverse := evaluations_append _ _
      rw [hevaluations, hevaluations', hadvance, List.append_assoc]

theorem run_of_completed (h : chain.completed = true) (response : Option String)
    (rest : List String) : chain.run response rest = .error .alreadyCompleted := by
  have hstep : chain.step response = .error .alreadyCompleted := step_of_check (if_pos h)
  cases rest with
  | nil => exact hstep
  | cons r rest =>
    unfold run
    rw [hstep]
    rfl

/-- If the walk that has all responses has no problem, the calls of the chain have none. -/
theorem run_take_not_failed (h : chain.Steady) (hn : chain.template.root.Resumable)
    {response : Option String} {rest : List String} {whole : Outcome}
    (hwhole : Ends (chain.visit (response.toList ++ rest)) whole) (k : Nat) (p : Problem) :
    chain.run response (rest.take k) ≠ .error (.failed p) := by
  induction rest generalizing chain response whole k with
  | nil =>
    intro hrun
    rw [List.take_nil] at hrun
    rw [List.append_nil] at hwhole
    exact nomatch (step_eq_failed hrun).symm.trans (walk_eq_ok.2 hwhole)
  | cons r rest ih =>
    -- the first call only has fewer responses than the whole walk
    obtain ⟨outcome, houtcome, -, -⟩ :=
      Ends.shorter (visit_longer chain response.toList (r :: rest)) hwhole
    have hnot : ∀ q, chain.step response ≠ .error (.failed q) :=
      fun q hq => nomatch (step_eq_failed hq).symm.trans (walk_eq_ok.2 houtcome)
    intro hrun
    cases k with
    | zero => exact hnot p hrun
    | succ k =>
      rw [List.take_succ_cons, run] at hrun
      rcases hstep : chain.step response with e | ⟨first, next⟩
      · rw [hstep] at hrun
        obtain rfl : e = .failed p := by simpa [bind, Except.bind] using hrun
        exact hnot p hstep
      · rw [hstep] at hrun
        obtain ⟨-, outcome', hwalk, rfl, -, -⟩ := step_eq_ok hstep
        have hnext : (chain.advance outcome').run (some r) (rest.take k) = .error (.failed p) :=
          hrun
        rcases hcompleted : (chain.advance outcome').completed with _ | _
        · obtain ⟨config, t, ht, hproblems, rfl⟩ :=
            paused_of_advance (walk_eq_ok.1 hwalk) hcompleted
          obtain ⟨rho, hagree⟩ := visit_append h hn (List.cons_ne_nil r rest) ht hproblems
          obtain ⟨later, hlater⟩ := Ends.behind hagree hwhole
          have hlater' : Ends ((chain.advance (t.outcome false config)).visit
            ((some r).toList ++ rest)) later := hlater
          exact ih (h.advance ht) hn hlater' k hnext
        · rw [run_of_completed hcompleted] at hnext
          exact nomatch hnext

/-! ### Chains -/

variable {setting : Setting} {text : String} {parameters : Fields Value}

/-- The first walk of a chain that has not been stepped yet. -/
theorem visit_eq_walk [ConfigReader] (hstart : Chain.start setting text parameters = .ok chain)
    (responses : List String) (outcome : Outcome) :
    chain.template.walk setting (Statuses.fresh chain.template.nodeCount)
      (Scope.ofFields parameters) responses = .ok outcome ↔
        Ends (chain.visit responses) outcome := by
  obtain ⟨t, -, rfl⟩ := start_eq_ok hstart
  exact Template.walk_eq_ok

theorem start_nothing_done [ConfigReader]
    (hstart : Chain.start setting text parameters = .ok chain) :
    chain.messages = [] ∧ chain.journal = [] := by
  obtain ⟨t, -, rfl⟩ := start_eq_ok hstart
  exact ⟨rfl, rfl⟩

/-- A chain that is resumed is the same as a walk that never paused: if all calls succeed, the walk
that has all responses from the start makes the same messages, and comes as far. -/
theorem run_eq_walk [ConfigReader] (hstart : Chain.start setting text parameters = .ok chain)
    (hsteps : ∀ m ∈ chain.template.root.nodes, m.PlacesSteps)
    (hnames : ∀ m ∈ chain.template.root.nodes, m.KeepsNames) {responses : List String}
    {result : StepResult} {last : Chain} (hrun : chain.run none responses = .ok (result, last)) :
    ∃ outcome, chain.template.walk setting (Statuses.fresh chain.template.nodeCount)
        (Scope.ofFields parameters) responses = .ok outcome ∧
      result.conversation.messages = outcome.messages ∧ result.completed = outcome.completed := by
  obtain ⟨whole, hwhole, hmessages, hcompleted, -⟩ :=
    run_eq_visit (steady_start hstart) (Node.resumable_of_places hsteps hnames) hrun
  refine ⟨whole, (visit_eq_walk hstart responses whole).2 hwhole, ?_, hcompleted⟩
  rw [hmessages, (start_nothing_done hstart).1]
  rfl

/-- A step in a loop, around which a variable changes. -/
def stepInLoop : String :=
  braced "n = 0" ++ braced "for x in [1, 2]" ++ braced "n += x" ++ "<step as='r' />" ++
    braced "r" ++
    braced "endfor" ++ braced "n"

theorem run_eq_walk_stepInLoop :
    ∃ chain result last outcome, Chain.start plainSetting stepInLoop [] = .ok chain ∧
      chain.run none ["a", "b"] = .ok (result, last) ∧
      chain.template.walk plainSetting (Statuses.fresh chain.template.nodeCount)
        (Scope.ofFields []) ["a", "b"] = .ok outcome ∧
      result.conversation.messages = outcome.messages ∧ result.completed = outcome.completed := by
  have hcheck : ((Chain.start plainSetting stepInLoop []).toOption.any fun chain =>
      (∀ m ∈ chain.template.root.nodes, m.PlacesSteps) ∧
        (∀ m ∈ chain.template.root.nodes, m.KeepsNames) ∧
        (chain.run none ["a", "b"]).isOk = true) = true := by
    decide +kernel
  obtain ⟨chain, hstart, hall⟩ := exists_ok_of_any hcheck
  obtain ⟨hsteps, hnames, hok⟩ := of_decide_eq_true hall
  obtain ⟨⟨result, last⟩, hrun⟩ := exists_ok_of_isOk hok
  obtain ⟨outcome, hwalk, hmessages, hcompleted⟩ := run_eq_walk hstart hsteps hnames hrun
  exact ⟨chain, result, last, outcome, hstart, hrun, hwalk, hmessages, hcompleted⟩

/-- A pause loses no name of a template that can be resumed: if the walk that has all responses from
the start has no problem, no call has one, and all expressions are evaluated in the same order,
while the same names are visible. -/
theorem run_keeps_names [ConfigReader] (hstart : Chain.start setting text parameters = .ok chain)
    (hn : chain.template.root.Resumable) {responses : List String} {outcome : Outcome}
    (hwalk : chain.template.walk setting (Statuses.fresh chain.template.nodeCount)
      (Scope.ofFields parameters) responses = .ok outcome) (k : Nat) :
    (∀ p, chain.run none (responses.take k) ≠ .error (.failed p)) ∧
      ∀ result last, chain.run none (responses.take k) = .ok (result, last) →
        evaluations last.journal <+: evaluations outcome.journal ∧
          (result.completed = true → evaluations last.journal = evaluations outcome.journal) := by
  have hwhole : Ends (chain.visit ((none : Option String).toList ++ responses)) outcome :=
    (visit_eq_walk hstart responses outcome).1 hwalk
  refine ⟨run_take_not_failed (steady_start hstart) hn hwhole k, fun result last hrun => ?_⟩
  obtain ⟨part, hpart, -, hcompleted, hevaluations⟩ :=
    run_eq_visit (steady_start hstart) hn hrun
  have hshorter := visit_longer chain (responses.take k) (responses.drop k)
  rw [List.take_append_drop] at hshorter
  obtain ⟨o, ho, hbefore, hall⟩ := Ends.shorter hshorter hwhole
  obtain rfl : o = part := ho.unique hpart
  rw [hevaluations, (start_nothing_done hstart).2, hcompleted]
  exact ⟨hbefore, hall⟩

/-- Names that are declared around a step, but not in the condition around it. -/
def stepInBranch : String :=
  braced "a = 1" ++ braced "if a" ++ braced "b = 2" ++ "<step as='r' />" ++ braced "b + r" ++
    braced "endif" ++ braced "a"

theorem run_keeps_names_stepInBranch :
    ∃ chain outcome, Chain.start plainSetting stepInBranch [] = .ok chain ∧
      chain.template.walk plainSetting (Statuses.fresh chain.template.nodeCount)
        (Scope.ofFields []) ["x"] = .ok outcome ∧
      (∀ p, chain.run none ["x"] ≠ .error (.failed p)) ∧
      ∀ result last, chain.run none ["x"] = .ok (result, last) →
        evaluations last.journal <+: evaluations outcome.journal ∧
          (result.completed = true → evaluations last.journal = evaluations outcome.journal) := by
  have hcheck : ((Chain.start plainSetting stepInBranch []).toOption.any fun chain =>
      (∀ m ∈ chain.template.root.nodes, m.PlacesSteps) ∧
        (∀ m ∈ chain.template.root.nodes, m.KeepsNames) ∧
        (chain.template.walk plainSetting (Statuses.fresh chain.template.nodeCount)
          (Scope.ofFields []) ["x"]).isOk = true) = true := by
    decide +kernel
  obtain ⟨chain, hstart, hall⟩ := exists_ok_of_any hcheck
  obtain ⟨hsteps, hnames, hok⟩ := of_decide_eq_true hall
  obtain ⟨outcome, hwalk⟩ := exists_ok_of_isOk hok
  exact ⟨chain, outcome, hstart, hwalk,
    run_keeps_names hstart (Node.resumable_of_places hsteps hnames) hwalk 1⟩

/-- Prompts in which a pause loses a name, or takes another way: one for each of the conditions
under which a template can be resumed. -/
def losingPrompts : List String :=
  [braced "if (y = 1)" ++ "<step />" ++ braced "endif" ++ braced "y",
    braced "for x in (y = [1])" ++ "<step />" ++ braced "endfor" ++ braced "y",
    "<step a=" ++ braced "y = 1" ++ " />" ++ braced "y",
    "<step>" ++ braced "y = 1" ++ "</step>" ++ braced "y",
    braced "a = []" ++ braced "for x in a" ++ braced "y" ++ braced "else" ++ braced "a = [1]" ++
      "<step />" ++ braced "endfor",
    braced "a = 0" ++ "<text b=" ++ braced "a += 1" ++ "><step /></text>" ++ braced "if a > 1" ++
      braced "y" ++ braced "endif",
    braced "a = 0" ++ "<tool-call id=" ++ braced "a += 1" ++ " name='b'><step /></tool-call>" ++
      braced "if a > 1" ++ braced "y" ++ braced "endif"]

/-- A call that fails because of a name that is not declared. -/
def asksUndeclared {α : Type} : Except ChainError α → Bool
  | .error (.failed p) => p.fault.code == "variable-not-declared"
  | _ => false

/-- None of these conditions can be left out: the walk that has the response from the start
completes, but the chain fails. -/
theorem run_loses_names : losingPrompts.Forall fun text => ∃ chain outcome p,
    Chain.start plainSetting text [] = .ok chain ∧
      chain.template.walk plainSetting (Statuses.fresh chain.template.nodeCount)
        (Scope.ofFields []) ["r"] = .ok outcome ∧ outcome.completed = true ∧
      chain.run none ["r"] = .error (.failed p) ∧ p.fault.code = "variable-not-declared" := by
  have hcheck : ∀ text ∈ losingPrompts,
      ((Chain.start plainSetting text []).toOption.any fun chain =>
        ((chain.template.walk plainSetting (Statuses.fresh chain.template.nodeCount)
          (Scope.ofFields []) ["r"]).toOption.any Outcome.completed) &&
        asksUndeclared (chain.run none ["r"])) = true := by
    decide +kernel
  refine List.forall_iff_forall_mem.2 fun text htext => ?_
  obtain ⟨chain, hstart, hlost⟩ := exists_ok_of_any (hcheck text htext)
  obtain ⟨hwalk, hrun⟩ := Bool.and_eq_true_iff.1 hlost
  obtain ⟨outcome, houtcome, hcompleted⟩ := exists_ok_of_any hwalk
  unfold asksUndeclared at hrun
  split at hrun
  · next p hp => exact ⟨chain, outcome, p, hstart, houtcome, hcompleted, hp, eq_of_beq hrun⟩
  · cases hrun

end Chain

end PromptMarkup

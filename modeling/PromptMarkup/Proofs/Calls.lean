/-
The calls of a chain.

* `Chain.start_eq_ok` — what a chain is that has just started;
* `Chain.attempt_cases` — what a call does;
* `Chain.calls` — the chain after several calls, those that failed included;
* `Chain.calls_invariant` — what every call preserves holds after several calls;
* `Chain.step_eq_ok`, `Chain.step_eq_failed` — what a call did that succeeded, and why one failed;
* `compile_eq_ok` — the walk that a conversation comes from.
-/
import PromptMarkup.Conversation.Chain

namespace PromptMarkup

/-- What stands in a mustache, as it is written in a prompt. -/
def braced (s : String) : String :=
  openBraces ++ s ++ closeBraces

/-- A setting without functions, in which what stands outside of messages is said by the assistant.
-/
def plainSetting : Setting :=
  ⟨fun name _ => .error name, .assistant⟩

namespace Chain

/-- A chain that has just started has read its template, and done nothing yet. -/
theorem start_eq_ok [ConfigReader] {chain : Chain} {setting : Setting} {text : String}
    {parameters : Fields Value} (h : Chain.start setting text parameters = .ok chain) :
    ∃ t, Template.read text = .ok t ∧ chain =
      { template := t, setting, statuses := Statuses.fresh t.nodeCount
        stash := (Scope.ofFields parameters).stash, pointers := (Scope.ofFields parameters).pointers
        messages := [], journal := [], started := false, completed := false } := by
  unfold start at h
  rcases hread : Template.read text with p | t
  · rw [hread] at h
    exact nomatch h
  · rw [hread] at h
    exact ⟨t, rfl, (Except.ok.inj h).symm⟩

theorem read_of_start [ConfigReader] {chain : Chain} {setting : Setting} {text : String}
    {parameters : Fields Value}
    (h : Chain.start setting text parameters = .ok chain) :
    Template.read text = .ok chain.template := by
  obtain ⟨t, hread, rfl⟩ := start_eq_ok h
  exact hread

/-- What a call does: it is refused, its walk fails, or its walk succeeds and the chain advances. -/
theorem attempt_cases (chain : Chain) (response : Option String) :
    (∃ e, chain.check response = some e ∧ chain.attempt response = (.error e, chain)) ∨
    (∃ p, chain.check response = none ∧ chain.walk response = .error p ∧
      chain.attempt response = (.error (.failed p), chain)) ∨
    ∃ outcome, chain.check response = none ∧ chain.walk response = .ok outcome ∧
      chain.attempt response =
        (.ok ⟨⟨Fields.putAll chain.template.configFields outcome.config,
          (chain.advance outcome).messages⟩,
          (chain.advance outcome).completed⟩, chain.advance outcome) := by
  unfold attempt
  cases chain.check response with
  | some e => exact .inl ⟨e, rfl, rfl⟩
  | none =>
    cases chain.walk response with
    | error p => exact .inr (.inl ⟨p, rfl, rfl, rfl⟩)
    | ok outcome => exact .inr (.inr ⟨outcome, rfl, rfl, rfl⟩)

/-- The chain after a call. -/
def call (chain : Chain) (response : Option String) : Chain :=
  (chain.attempt response).2

/-- The chain after several calls. -/
def calls (chain : Chain) (responses : List (Option String)) : Chain :=
  responses.foldl call chain

/-- A call walks and advances the chain, or it leaves the chain as it was. -/
theorem call_cases (chain : Chain) (response : Option String) :
    (∃ outcome, chain.check response = none ∧ chain.walk response = .ok outcome ∧
      chain.call response = chain.advance outcome) ∨ chain.call response = chain := by
  unfold call
  rcases attempt_cases chain response with ⟨e, -, h⟩ | ⟨p, -, -, h⟩ | ⟨outcome, hcheck, hwalk, h⟩
  · exact .inr (by rw [h])
  · exact .inr (by rw [h])
  · exact .inl ⟨outcome, hcheck, hwalk, by rw [h]⟩

theorem attempt_of_step {chain next : Chain} {response : Option String} {result : StepResult}
    (h : chain.step response = .ok (result, next)) : chain.attempt response =
      (.ok result, next) := by
  unfold step at h
  split at h
  · next hattempt =>
    obtain ⟨rfl, rfl⟩ := Prod.mk.inj (Except.ok.inj h)
    exact hattempt
  · exact nomatch h

theorem call_of_step {chain next : Chain} {response : Option String} {result : StepResult}
    (h : chain.step response = .ok (result, next)) : chain.call response = next :=
  congrArg Prod.snd (attempt_of_step h)

theorem step_eq_ok {chain next : Chain} {response : Option String} {result : StepResult}
    (h : chain.step response = .ok (result, next)) :
    chain.check response = none ∧ ∃ outcome, chain.walk response = .ok outcome ∧
      next = chain.advance outcome ∧ result.conversation.messages = next.messages ∧
      result.completed = next.completed := by
  have hattempt := attempt_of_step h
  rcases attempt_cases chain response with ⟨e, -, hcase⟩ | ⟨p, -, -, hcase⟩ |
    ⟨outcome, hcheck, hwalk, hcase⟩
  · exact nomatch (congrArg Prod.fst (hcase.symm.trans hattempt))
  · exact nomatch (congrArg Prod.fst (hcase.symm.trans hattempt))
  · obtain ⟨hresult, rfl⟩ := Prod.mk.inj (hcase.symm.trans hattempt)
    obtain rfl := Except.ok.inj hresult
    exact ⟨hcheck, outcome, hwalk, rfl, rfl, rfl⟩

theorem step_of_check {chain : Chain} {response : Option String} {e : ChainError}
    (h : chain.check response = some e) : chain.step response = .error e := by
  unfold step attempt
  rw [h]

theorem step_eq_failed {chain : Chain} {response : Option String} {p : Problem}
    (h : chain.step response = .error (.failed p)) : chain.walk response = .error p := by
  unfold step at h
  rcases attempt_cases chain response with ⟨e, hcheck, hcase⟩ | ⟨q, -, hwalk, hcase⟩ |
    ⟨outcome, -, -, hcase⟩
  · -- no call is refused with the problem of a walk
    rw [hcase] at h
    obtain rfl : e = .failed p := Except.error.inj h
    unfold check at hcheck
    repeat' split at hcheck
    all_goals exact nomatch hcheck
  · rw [hcase] at h
    obtain rfl : q = p := ChainError.failed.inj (Except.error.inj h)
    exact hwalk
  · rw [hcase] at h
    exact nomatch h

/-- What every call preserves holds after several calls. -/
theorem calls_invariant {P : Chain → Prop}
    (hcall : ∀ chain response, P chain → P (chain.call response))
    {chain : Chain} (h : P chain) (responses : List (Option String)) :
    P (chain.calls responses) := by
  unfold calls
  induction responses generalizing chain with
  | nil => exact h
  | cons response rest ih => exact ih (hcall chain response h)

theorem template_call (chain : Chain) (response : Option String) :
    (chain.call response).template = chain.template := by
  rcases call_cases chain response with ⟨outcome, -, -, hcall⟩ | hcall
  · rw [hcall]
    rfl
  · rw [hcall]

@[simp] theorem template_calls (chain : Chain) (responses : List (Option String)) :
    (chain.calls responses).template = chain.template :=
  calls_invariant (P := fun later => later.template = chain.template)
    (fun later response h => (template_call later response).trans h) rfl responses

end Chain

/-- A conversation comes from a walk over its prompt without responses. -/
theorem compile_eq_ok [ConfigReader] {setting : Setting} {text : String} {parameters : Fields Value}
    {conversation : Conversation} :
    compile setting text parameters = .ok conversation ↔
      ∃ t outcome, Template.read text = .ok t ∧
        t.walk setting (Statuses.fresh t.nodeCount) (Scope.ofFields parameters) [] = .ok outcome ∧
        conversation = ⟨Fields.putAll t.configFields outcome.config, outcome.messages⟩ := by
  -- the source's sequence of steps, as one expression
  have hcompile : compile setting text parameters = (Template.read text).bind fun t =>
      (t.walk setting (Statuses.fresh t.nodeCount) (Scope.ofFields parameters) []).map
        fun outcome =>
        ⟨Fields.putAll t.configFields outcome.config, outcome.messages⟩ := rfl
  rw [hcompile]
  constructor
  · intro h
    rcases hread : Template.read text with p | t
    · rw [hread] at h
      exact nomatch h
    · rw [hread] at h
      rcases hwalk : t.walk setting (Statuses.fresh t.nodeCount) (Scope.ofFields parameters) []
        with p | outcome
      · rw [Except.bind, hwalk] at h
        exact nomatch h
      · rw [Except.bind, hwalk] at h
        exact ⟨t, outcome, rfl, hwalk, (Except.ok.inj h).symm⟩
  · rintro ⟨t, outcome, hread, hwalk, rfl⟩
    rw [hread, Except.bind, hwalk]
    rfl

end PromptMarkup

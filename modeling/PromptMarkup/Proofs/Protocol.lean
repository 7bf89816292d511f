/-
The protocol of a chain.

What a call returns depends on the calls before it only through those that succeeded: a call is
refused as the protocol says, and a call that fails is as if it had not been made.

* `Chain.results` — what the calls of a sequence return, those that fail included;
* `Chain.Reports` — what a chain remembers of its earlier calls;
* `Chain.Traced` — the stamps in a chain between its calls: none, or a trail to the step that waits;
* `Chain.Overrides` — a configuration is another one with some fields written over it;
* `Chain.Protocol` — what the next call returns;
* `Chain.protocol` — every sequence of calls keeps the protocol, and loses nothing with the calls
  that fail.

Design notes: the configuration of a call is told by the text of the front matter
(`Template.Configures`) and by `Node.Asks`: the walk of that very call comes to the step and
evaluates its attributes.  A chain that waits has a trail, so that the walk of its next call, which
has a response, cannot pause at the step that waits before it takes the response.
-/
import Mathlib.Data.List.Induction
import PromptMarkup.Proofs.Answers
import PromptMarkup.Proofs.FrontMatter
import PromptMarkup.Proofs.Trail
import PromptMarkup.Yaml.Document

namespace PromptMarkup

open PromptMarkup.Computation Walking

namespace Chain

variable {chain later : Chain} {setting : Setting} {text : String} {parameters : Fields Value}
  {response : Option String} {result : StepResult} {done : List (Except ChainError StepResult)}

/-! ### The results of calls -/

/-- What a call returns. -/
def returns (chain : Chain) (response : Option String) : Except ChainError StepResult :=
  (chain.attempt response).1

/-- What several calls return, one after the other. -/
def results (chain : Chain) : List (Option String) → List (Except ChainError StepResult)
  | [] => []
  | response :: rest => chain.returns response :: (chain.call response).results rest

/-- The calls of a sequence that succeed. -/
def succeeding (chain : Chain) (responses : List (Option String)) : List (Option String) :=
  ((responses.zip (chain.results responses)).filter fun call => call.2.isOk).map Prod.fst

@[simp] theorem calls_nil (chain : Chain) : chain.calls [] = chain :=
  rfl

@[simp] theorem calls_cons (chain : Chain) (response : Option String)
    (rest : List (Option String)) :
    chain.calls (response :: rest) = (chain.call response).calls rest :=
  rfl

theorem calls_append (chain : Chain) (earlier more : List (Option String)) :
    chain.calls (earlier ++ more) = (chain.calls earlier).calls more :=
  List.foldl_append

theorem results_append (chain : Chain) (earlier more : List (Option String)) :
    chain.results (earlier ++ more) =
      chain.results earlier ++ (chain.calls earlier).results more := by
  induction earlier generalizing chain with
  | nil => rfl
  | cons response rest ih =>
    rw [List.cons_append, results, results, calls_cons, ih, List.cons_append]

/-- A call that fails gives back the chain as it was. -/
theorem call_of_error {e : ChainError} (h : chain.returns response = .error e) :
    chain.call response = chain := by
  unfold returns at h
  unfold call
  rcases attempt_cases chain response with ⟨d, -, hcase⟩ | ⟨p, -, -, hcase⟩ | ⟨outcome, -, -, hcase⟩
  · rw [hcase]
  · rw [hcase]
  · rw [hcase] at h
    exact nomatch h

/-- What a call does that succeeds. -/
theorem returns_eq_ok (h : chain.returns response = .ok result) :
    chain.check response = none ∧ ∃ outcome, chain.walk response = .ok outcome ∧
      chain.call response = chain.advance outcome ∧
      result.conversation =
        ⟨Fields.putAll chain.template.configFields outcome.config,
          chain.messages ++ outcome.messages⟩ ∧
      result.completed = outcome.completed := by
  unfold returns at h
  unfold call
  rcases attempt_cases chain response with ⟨e, -, hcase⟩ | ⟨p, -, -, hcase⟩ |
    ⟨outcome, hcheck, hwalk, hcase⟩
  · rw [hcase] at h
    exact nomatch h
  · rw [hcase] at h
    exact nomatch h
  · rw [hcase] at h ⊢
    obtain rfl := Except.ok.inj h
    exact ⟨hcheck, outcome, hwalk, rfl, rfl, rfl⟩

/-- A call is refused before it walks, or it fails with the problem of its walk. -/
theorem returns_eq_error_iff {e : ChainError} (he : ∀ p, .failed p ≠ e) :
    chain.returns response = .error e ↔ chain.check response = some e := by
  unfold returns
  rcases attempt_cases chain response with ⟨d, hcheck, hcase⟩ | ⟨p, hcheck, -, hcase⟩ |
    ⟨outcome, hcheck, -, hcase⟩
  · rw [hcase, hcheck]
    exact ⟨fun h => congrArg some (Except.error.inj h),
      fun h => congrArg Except.error (Option.some.inj h)⟩
  · rw [hcase, hcheck]
    exact ⟨fun h => absurd (Except.error.inj h) (he p), nofun⟩
  · rw [hcase, hcheck]
    exact ⟨nofun, nofun⟩

theorem setting_call (chain : Chain) (response : Option String) :
    (chain.call response).setting = chain.setting := by
  rcases call_cases chain response with ⟨outcome, -, -, hcall⟩ | hcall
  · rw [hcall]
    rfl
  · rw [hcall]

@[simp] theorem setting_calls (chain : Chain) (responses : List (Option String)) :
    (chain.calls responses).setting = chain.setting :=
  calls_invariant (P := fun later => later.setting = chain.setting)
    (fun later response h => (setting_call later response).trans h) rfl responses

/-- Calls that fail leave a chain as it was. -/
theorem calls_of_failed (responses : List (Option String))
    (h : ∀ r, .ok r ∉ chain.results responses) :
    chain.calls responses = chain := by
  induction responses with
  | nil => rfl
  | cons response rest ih =>
    rcases hresult : chain.returns response with e | r
    · have hsame := call_of_error hresult
      rw [calls_cons, hsame]
      refine ih fun r hr => h r ?_
      rw [results, hsame]
      exact List.mem_cons_of_mem _ hr
    · refine absurd ?_ (h r)
      rw [results, hresult]
      exact List.mem_cons_self

/-- Without the calls that fail, all other calls return the same, and the chain becomes the same. -/
theorem results_succeeding (chain : Chain) (responses : List (Option String)) :
    chain.results (chain.succeeding responses) = (chain.results responses).filter Except.isOk ∧
      chain.calls (chain.succeeding responses) = chain.calls responses := by
  induction responses generalizing chain with
  | nil => exact ⟨rfl, rfl⟩
  | cons response rest ih =>
    obtain ⟨hresults, hcalls⟩ := ih (chain.call response)
    rcases hresult : chain.returns response with e | r
    -- a call that fails returns the chain it was made on, so dropping it changes nothing
    · have hkept : chain.succeeding (response :: rest) = (chain.call response).succeeding rest := by
        unfold succeeding
        rw [results, hresult]
        rfl
      have hsame : chain.call response = chain := call_of_error hresult
      rw [hkept, calls_cons, results, hresult]
      rw [hsame] at hresults hcalls ⊢
      exact ⟨hresults, hcalls⟩
    · have hkept : chain.succeeding (response :: rest) =
        response :: (chain.call response).succeeding rest := by
        unfold succeeding
        rw [results, hresult]
        rfl
      rw [hkept, results, results, calls_cons, calls_cons, hresult, hresults]
      exact ⟨rfl, hcalls⟩

/-! ### What a chain remembers -/

/-- What a chain remembers of calls that returned the given results. -/
structure Reports (chain : Chain) (done : List (Except ChainError StepResult)) : Prop where
  started : chain.started = true ↔ ∃ r, .ok r ∈ done
  completed : chain.completed = true ↔ ∃ r, .ok r ∈ done ∧ r.completed = true
  messages : ∀ r, .ok r ∈ done → r.conversation.messages <+: chain.messages

theorem Reports.call (h : chain.Reports done) (response : Option String) :
    (chain.call response).Reports (done ++ [chain.returns response]) := by
  rcases hresult : chain.returns response with e | result
  · -- a failure is not remembered
    have hsame : ∀ r, .ok r ∈ done ++ [.error e] ↔ .ok r ∈ done := fun r => by simp
    rw [call_of_error hresult]
    exact ⟨by simpa only [hsame] using h.started, by simpa only [hsame] using h.completed,
      fun r hr => h.messages r ((hsame r).1 hr)⟩
  · obtain ⟨hcheck, outcome, -, hcall, hconversation, hcompleted⟩ := returns_eq_ok hresult
    rw [hcall]
    refine ⟨⟨fun _ => ⟨result, by simp⟩, fun _ => rfl⟩,
      ⟨fun hlast => ⟨result, by simp, ?_⟩, ?_⟩, ?_⟩
    · exact hcompleted.trans hlast
    · rintro ⟨r, hr, hover⟩
      rcases List.mem_append.1 hr with hr | hr
      · exact nomatch (h.completed.2 ⟨r, hr, hover⟩).symm.trans (not_completed_of_check hcheck)
      · obtain rfl : r = result := by simpa using hr
        exact hcompleted.symm.trans hover
    · intro r hr
      show r.conversation.messages <+: chain.messages ++ outcome.messages
      rcases List.mem_append.1 hr with hr | hr
      · exact (h.messages r hr).trans (List.prefix_append _ _)
      · obtain rfl : r = result := by simpa using hr
        exact hconversation ▸ List.prefix_rfl

theorem reports_calls [ConfigReader] (hstart : Chain.start setting text parameters = .ok chain)
    (earlier : List (Option String)) : (chain.calls earlier).Reports (chain.results earlier) := by
  induction earlier using List.reverseRecOn with
  | nil =>
    obtain ⟨t, -, rfl⟩ := start_eq_ok hstart
    exact ⟨by simp [results], by simp [results], by simp [results]⟩
  | append_singleton earlier response ih =>
    rw [calls_append, results_append]
    exact ih.call response

/-! ### The stamps between the calls -/

/-- The stamps in a chain between its calls: a new chain has none, and in one that waits they lead
to the step that waits. -/
structure Traced (chain : Chain) : Prop where
  steady : chain.completed = false → chain.Steady
  clear : chain.started = false → Node.Clear chain.statuses chain.template.root.ids []
  trail : chain.started = true → chain.completed = false →
    Node.Trail chain.statuses chain.template.root []

/-- A call that walks meets no stamp without a response. -/
theorem Traced.ready (h : chain.Traced) (hcheck : chain.check response = none) :
    Node.Ready (chain.opening response.toList) chain.template.root [] := by
  have hrunning := not_completed_of_check hcheck
  unfold check at hcheck
  rw [hrunning] at hcheck
  cases hstarted : chain.started with
  | false => exact .inl (h.clear hstarted)
  | true =>
    refine .inr ⟨h.trail hstarted hrunning, ?_⟩
    cases response with
    | none =>
      rw [hstarted] at hcheck
      exact nomatch hcheck
    | some r => exact List.cons_ne_nil _ _

/-- The walk of a call pauses at a step that has just evaluated its attributes. -/
theorem Traced.asks (h : chain.Traced) (hcheck : chain.check response = none) {config : Fields Json}
    {t : Walk} (ht : chain.visit response.toList = (.error (.paused config), t)) :
    Node.Trail t.statuses chain.template.root [] ∧
      Node.Asks chain.setting chain.template.root [] config (chain.opening response.toList) t := by
  have hsteady := h.steady (not_completed_of_check hcheck)
  have hbounded : ∀ id ∈ chain.template.root.ids,
    id < (chain.opening response.toList).statuses.nodes.size :=
    fun id hid => Nat.lt_of_lt_of_eq (hsteady.numbered.bounded id hid) hsteady.size.symm
  exact Node.asks_of_walk _ hsteady.numbered.nodup hbounded (h.ready hcheck)
    (Template.paused_of_visitRoot ht)

theorem Traced.call (h : chain.Traced) (response : Option String) :
    (chain.call response).Traced := by
  rcases hresult : chain.returns response with e | result
  · rw [call_of_error hresult]
    exact h
  · obtain ⟨hcheck, outcome, hwalk, hcall, -⟩ := returns_eq_ok hresult
    rw [hcall]
    have hsteady := h.steady (not_completed_of_check hcheck)
    refine ⟨fun hnext => ?_, (fun hnew => nomatch hnew), fun _ hnext => ?_⟩
    · obtain ⟨config, t, ht, -, rfl⟩ := paused_of_advance (walk_eq_ok.1 hwalk) hnext
      exact hsteady.advance ht
    · obtain ⟨config, t, ht, -, rfl⟩ := paused_of_advance (walk_eq_ok.1 hwalk) hnext
      exact (h.asks hcheck ht).1

theorem traced_calls [ConfigReader] (hstart : Chain.start setting text parameters = .ok chain)
    (earlier : List (Option String)) : (chain.calls earlier).Traced := by
  have hfirst : chain.Traced := by
    have hsteady := steady_start hstart
    obtain ⟨t, -, rfl⟩ := start_eq_ok hstart
    refine ⟨fun _ => hsteady, fun _ id _ point hpoint => ?_, fun hstarted => nomatch hstarted⟩
    rw [Statuses.ofNode_fresh] at hpoint
    exact nomatch hpoint
  exact calls_invariant (fun _ response h => h.call response) hfirst earlier

/-! ### The protocol -/

/-- A configuration is another one with some fields written over it: a field that is written has the
value that was written last, any other field is as it was, and new fields go behind those that are
there. -/
structure Overrides (written fields config : Fields Json) : Prop where
  value : ∀ key, config.get? key = (Fields.get? written.reverse key).or (fields.get? key)
  order : fields.keys <+: config.keys

theorem overrides_putAll (fields written : Fields Json) :
    Overrides written fields (Fields.putAll fields written) :=
  ⟨Fields.get?_putAll fields written, Fields.keys_prefix_putAll fields written⟩

/-- What a call returns to a chain that started with a text and parameters, after calls with the
results `done`. -/
structure Protocol [ConfigReader] (setting : Setting) (text : String) (parameters : Fields Value)
    (done : List (Except ChainError StepResult)) (later : Chain) (response : Option String) :
    Prop where
  alreadyCompleted : later.returns response = .error .alreadyCompleted ↔ ∃ r, .ok r ∈ done ∧
    r.completed = true
  unexpectedResponse : later.returns response = .error .unexpectedResponse ↔
    (¬ ∃ r, .ok r ∈ done ∧ r.completed = true) ∧ (¬ ∃ r, .ok r ∈ done) ∧ response.isSome = true
  missingResponse : later.returns response = .error .missingResponse ↔
    (¬ ∃ r, .ok r ∈ done ∧ r.completed = true) ∧ (∃ r, .ok r ∈ done) ∧ response = none
  messages : ∀ {r result}, .ok r ∈ done → later.returns response = .ok result →
    r.conversation.messages <+: result.conversation.messages
  completes : ∀ {result}, later.returns response = .ok result → result.completed = true →
    later.template.Configures result.conversation.config
  pauses : ∀ {result}, later.returns response = .ok result → result.completed = false →
    ∃ written fields t, later.visit response.toList = (.error (.paused written), t) ∧
      Node.Asks setting later.template.root [] written (later.opening response.toList) t ∧
      later.template.Configures fields ∧ Overrides written fields result.conversation.config
  first : ∀ {result}, (¬ ∃ r, .ok r ∈ done) → later.returns response = .ok result →
    compile setting text parameters = .ok result.conversation

/-- When a call is refused. -/
theorem Reports.refuses (h : later.Reports done) (response : Option String) :
    (later.returns response = .error .alreadyCompleted ↔ ∃ r, .ok r ∈ done ∧ r.completed = true) ∧
    (later.returns response = .error .unexpectedResponse ↔
      (¬ ∃ r, .ok r ∈ done ∧ r.completed = true) ∧ (¬ ∃ r, .ok r ∈ done) ∧ response.isSome = true) ∧
    (later.returns response = .error .missingResponse ↔
      (¬ ∃ r, .ok r ∈ done ∧ r.completed = true) ∧ (∃ r, .ok r ∈ done) ∧ response = none) := by
  have hcheck : ∀ e : ChainError, (∀ p, .failed p ≠ e) →
      (later.returns response = .error e ↔ later.check response = some e) := fun e he =>
      returns_eq_error_iff he
  rw [hcheck .alreadyCompleted (by simp), hcheck .unexpectedResponse (by simp),
    hcheck .missingResponse (by simp), ← h.started, ← h.completed]
  unfold check
  cases later.completed <;> cases later.started <;> cases response <;> simp

/-- The first success is the conversation of the prompt. -/
theorem compile_of_returns [ConfigReader] (hstart : Chain.start setting text parameters = .ok chain)
    (h : chain.returns response = .ok result) :
    compile setting text parameters = .ok result.conversation := by
  obtain ⟨hcheck, outcome, hwalk, -, hconversation, -⟩ := returns_eq_ok h
  obtain ⟨t, hread, rfl⟩ := start_eq_ok hstart
  have hnone : response = none := by
    cases response with
    | none => rfl
    | some r => exact nomatch hcheck
  subst hnone
  exact compile_eq_ok.2 ⟨t, outcome, hread, hwalk, hconversation⟩

/-- The walk of a call that succeeds pauses or comes to the end, as the call tells. -/
theorem visit_of_returns (h : later.returns response = .ok result) :
    (result.completed = true → result.conversation.config = later.template.configFields) ∧
    (result.completed = false → ∃ config t,
      later.visit response.toList = (.error (.paused config), t) ∧
      result.conversation.config = Fields.putAll later.template.configFields config) := by
  obtain ⟨-, outcome, hwalk, -, hconversation, hcompleted⟩ := returns_eq_ok h
  have hends := walk_eq_ok.1 hwalk
  rw [hconversation, hcompleted]
  rcases hvisit : later.visit response.toList with ⟨r, t⟩
  rw [hvisit] at hends
  cases hends with
  | completed hclean => exact ⟨fun _ => rfl, nofun⟩
  | paused hclean => exact ⟨nofun, fun _ => ⟨_, t, rfl, rfl⟩⟩

/-- Every sequence of calls keeps the protocol, and loses nothing with the calls that fail. -/
theorem protocol [ConfigReader] (hstart : Chain.start setting text parameters = .ok chain) :
    Template.read text = .ok chain.template ∧
    (∀ earlier response, (chain.calls earlier).template = chain.template ∧
      Protocol setting text parameters (chain.results earlier) (chain.calls earlier) response) ∧
    (∀ responses, chain.results (chain.succeeding responses) =
      (chain.results responses).filter Except.isOk) := by
  refine ⟨read_of_start hstart, fun earlier response => ⟨template_calls chain earlier, ?_⟩,
    fun responses => (results_succeeding chain responses).1⟩
  have hconfigures : (chain.calls earlier).template.Configures
    (chain.calls earlier).template.configFields := by
    rw [template_calls]
    exact Template.configures_of_read (read_of_start hstart)
  have hreports := reports_calls hstart earlier
  obtain ⟨hcompleted, hunexpected, hmissing⟩ := hreports.refuses response
  refine ⟨hcompleted, hunexpected, hmissing, fun {r result} hr hresult => ?_,
    fun {result} hresult hover => (visit_of_returns hresult).1 hover ▸ hconfigures,
    fun {result} hresult hpaused => ?_,
    fun {result} hnone hresult => ?_⟩
  · obtain ⟨-, outcome, -, -, hconversation, -⟩ := returns_eq_ok hresult
    rw [hconversation]
    exact (hreports.messages r hr).trans (List.prefix_append _ _)
  · obtain ⟨config, t, ht, hconfig⟩ := (visit_of_returns hresult).2 hpaused
    have hsetting : (chain.calls earlier).setting = setting := by
      rw [setting_calls]
      obtain ⟨template, -, rfl⟩ := start_eq_ok hstart
      rfl
    have hasks := ((traced_calls hstart earlier).asks (returns_eq_ok hresult).1 ht).2
    exact ⟨config, _, t, ht, hsetting ▸ hasks, hconfigures, hconfig ▸ overrides_putAll _ config⟩
  -- no call has succeeded so far, so this one starts from the fresh chain
  · rw [calls_of_failed earlier fun r hr => hnone ⟨r, hr⟩] at hresult
    exact compile_of_returns hstart hresult

/-- The text that a configuration has for a key. -/
def textOfField? (config : Fields Json) (key : String) : Option String :=
  match config.get? key with
  | some (.string text) => some text
  | _ => none

/-- Front matter, a step that overrides one of its fields, and text behind the step. -/
def stepForModel : String :=
  "---\nmodel: a\nstyle: plain\n---\n<step model=\"b\" />done"

/-- A response too early, a call, one without a response, one with it, and one too many: the second
and the fourth succeed.  The step that pauses overrides the model, which is that of the front matter
again at the end. -/
theorem protocol_stepForModel :
    ∃ chain, Chain.start plainSetting stepForModel [] = .ok chain ∧
      (chain.results [some "x", none, none, some "r", some "s"]).map
        (fun returned => returned.toOption.map fun result =>
          (result.completed, ["model", "style"].map (textOfField? result.conversation.config))) =
            [none, some (false, [some "b", some "plain"]), none,
              some (true, [some "a", some "plain"]), none] ∧
      Protocol plainSetting stepForModel [] (chain.results [some "x", none])
      (chain.calls [some "x", none])
        (some "r") := by
  have hcheck : ((Chain.start plainSetting stepForModel []).toOption.any fun chain =>
      (chain.results [some "x", none, none, some "r", some "s"]).map
        (fun returned => returned.toOption.map fun result =>
          (result.completed, ["model", "style"].map (textOfField? result.conversation.config))) =
            [none, some (false, [some "b", some "plain"]), none,
              some (true, [some "a", some "plain"]), none]) = true := by
    decide +kernel
  obtain ⟨chain, hstart, hresults⟩ := exists_ok_of_any hcheck
  exact ⟨chain, hstart, of_decide_eq_true hresults,
    ((protocol hstart).2.1 [some "x", none] (some "r")).2⟩

end Chain

end PromptMarkup

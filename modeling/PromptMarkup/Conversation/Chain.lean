/-
Chains of steps.

A chain walks over a template up to the first step that has no response, gives the messages so far
to its caller, and goes on with the response of the assistant.

* `Chain.start` — a chain that has not been stepped yet;
* `Chain.attempt` — the next part of the walk, and the chain behind it; a call that fails leaves the
  chain as it was;
* `compile` — the conversation up to the first step.

The configuration of a step is the front matter, overridden by the attributes of the step at which
the walk paused.
-/
import PromptMarkup.Conversation.Walk
import PromptMarkup.Template.Reader

namespace PromptMarkup

/-- Why a chain cannot be stepped. -/
inductive ChainError
  | alreadyCompleted
  /-- A response was given before the walk had started. -/
  | unexpectedResponse
  /-- No response was given although a step waits for one. -/
  | missingResponse
  | failed (problem : Problem)

/-- The wording of a reason. -/
def ChainError.message : ChainError → String
  | .alreadyCompleted => "The chain has already completed"
  | .unexpectedResponse => "A response cannot be given on the first step"
  | .missingResponse => "A response is required to continue the chain"
  | .failed problem => problem.fault.message

/-- What a step of a chain has produced. -/
structure StepResult where
  /-- The configuration of this step and all messages so far. -/
  conversation : Conversation
  completed : Bool

/-- A prompt that is run step by step. -/
structure Chain where
  template : Template
  setting : Setting
  statuses : Statuses
  stash : Stash
  /-- The names of the parameters. -/
  pointers : Pointers
  messages : List Message
  /-- What the walk has done so far, in order. -/
  journal : List Event
  /-- A step has succeeded. -/
  started : Bool
  completed : Bool

namespace Chain

variable [ConfigReader]

/-- A chain that has not been stepped yet. -/
def start (setting : Setting) (text : String) (parameters : Fields Value) :
    Except Problem Chain :=
  (Template.read text).map fun template =>
    let scope := Scope.ofFields parameters
    { template, setting
      statuses := Statuses.fresh template.nodeCount
      stash := scope.stash
      pointers := scope.pointers
      messages := [], journal := [], started := false, completed := false }

/-- Whether a step with or without a response may be made now. -/
def check (chain : Chain) (response : Option String) : Option ChainError :=
  if chain.completed then some .alreadyCompleted
  else
    match chain.started, response with
    | false, some _ => some .unexpectedResponse
    | true, none => some .missingResponse
    | _, _ => none

/-- The walk that the next step makes. -/
def walk (chain : Chain) (response : Option String) : Except Problem Outcome :=
  chain.template.walk chain.setting chain.statuses ⟨chain.stash, chain.pointers⟩ response.toList

/-- The chain after a walk. -/
def advance (chain : Chain) (outcome : Outcome) : Chain :=
  { chain with
    statuses := outcome.statuses
    stash := outcome.stash
    messages := chain.messages ++ outcome.messages
    journal := chain.journal ++ outcome.journal
    started := true
    completed := outcome.completed }

/-- Walks to the next step that has no response, or to the end.  The walk goes over copies of the
stamps and of the stash, which become those of the chain once the walk has succeeded; what a call
that fails gives back is the chain as it was. -/
def attempt (chain : Chain) (response : Option String) : Except ChainError StepResult × Chain :=
  match chain.check response with
  | some e => (.error e, chain)
  | none =>
    match chain.walk response with
    | .error p => (.error (.failed p), chain)
    | .ok outcome =>
      let next := chain.advance outcome
      let config := Fields.putAll chain.template.configFields outcome.config
      (.ok ⟨⟨config, next.messages⟩, next.completed⟩, next)

/-- A step: what a call returns that succeeds, with the chain behind it. -/
def step (chain : Chain) (response : Option String) : Except ChainError (StepResult × Chain) :=
  match chain.attempt response with
  | (.ok result, next) => .ok (result, next)
  | (.error e, _) => .error e

end Chain

variable [ConfigReader]

/-- The conversation of a prompt, up to its first step. -/
def compile (setting : Setting) (text : String) (parameters : Fields Value) :
    Except Problem Conversation := do
  let template ← Template.read text
  let outcome ← template.walk setting (Statuses.fresh template.nodeCount)
    (Scope.ofFields parameters) []
  return ⟨Fields.putAll template.configFields outcome.config, outcome.messages⟩

end PromptMarkup

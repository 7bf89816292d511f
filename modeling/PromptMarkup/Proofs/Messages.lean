/-
Conversations are well formed.

A walk makes messages in three places: where a message tag ends, where something stands outside of
all messages, and where a step has taken a response.

* `Message.Formed` — what holds of a message that was made in one of these places;
* `Assembles`, `Node.assembles_walk` — the messages that a walk adds are well formed, unless it
  records a problem;
* `Node.message_of_walk` — what the visit of a message tag adds: its own message, and in front of it
  what was pending;
* `conversations_formed` — so it is in every conversation, and in all results of a chain.

Design notes: tool calls that are pending outside of all messages are dropped when these have
another role than the assistant.  A message may become empty by that, but then a problem is recorded
and the walk has no result.
-/
import PromptMarkup.Proofs.Answers
import PromptMarkup.Proofs.Flushing
import PromptMarkup.Proofs.Indentation
import PromptMarkup.Yaml.Document

namespace PromptMarkup

open PromptMarkup.Computation Walking

/-! ### Messages -/

/-- A piece of content as a tag or a text makes it: without blank ends, and an image has an address.
-/
structure Content.Tidy (c : Content) : Prop where
  trimmed : Text.Trimmed c.body.toList
  address : ∀ url, c = .image url → url ≠ ""

/-- Where a message was made. -/
inductive Origin
  /-- By a message tag. -/
  | tag
  /-- Of what stands outside of all messages. -/
  | stray
  /-- Of the response of the assistant. -/
  | response

/-- What holds of a message. -/
structure Message.Formed (setting : Setting) (origin : Origin) (m : Message) : Prop where
  calls : m.toolCalls ≠ [] → m.role = .assistant
  answers : m.toolId.isSome = true → m.role = .tool
  images : ∀ url, Content.image url ∈ m.content → url ≠ ""
  trimmed : origin ≠ .response → ∀ c ∈ m.content, Text.Trimmed c.body.toList
  tag : origin = .tag → m.role = .tool → m.toolId.isSome = true
  stray : origin = .stray →
    m.role = setting.defaultRole ∧ (m.content ≠ [] ∨ m.toolCalls ≠ [])
  response : origin = .response → ∃ text, m = .ofResponse text

theorem Message.formed_ofResponse (setting : Setting) (text : String) :
    (Message.ofResponse text).Formed setting .response where
  calls h := absurd rfl h
  answers h := nomatch h
  images url h := by simp [Message.ofResponse] at h
  trimmed h := absurd rfl h
  tag h := nomatch h
  stray h := nomatch h
  response _ := ⟨text, rfl⟩

theorem Message.formed_of_tag {setting : Setting} {role : Role} {content : List Content}
    {name toolId : Option String} {pending : List PendingCall} (hcontent : ∀ c ∈ content, c.Tidy)
    (hanswers : toolId.isSome = true → role = .tool) (htag : role = .tool → toolId.isSome = true) :
    (Message.mk role content name toolId (placedCalls role pending)).Formed setting .tag where
  calls h := by
    unfold placedCalls at h
    split at h
    · next hrole => exact hrole
    · exact absurd rfl h
  answers := hanswers
  images url h := (hcontent _ h).address url rfl
  trimmed _ c hc := (hcontent c hc).trimmed
  tag _ := htag
  stray h := nomatch h
  response h := nomatch h

theorem Message.formed_of_stray {setting : Setting} {content : List Content}
    {pending : List PendingCall} (hcontent : ∀ c ∈ content, c.Tidy)
    (hsome : (content.isEmpty && pending.isEmpty) = false)
    (hplaced : misplacedCalls setting.defaultRole pending = []) :
    (Message.mk setting.defaultRole content none none
      (placedCalls setting.defaultRole pending)).Formed setting .stray where
  calls h := by
    unfold placedCalls at h
    split at h
    · next hrole => exact hrole
    · exact absurd rfl h
  answers h := nomatch h
  images url h := (hcontent _ h).address url rfl
  trimmed _ c hc := (hcontent c hc).trimmed
  tag h := nomatch h
  stray _ := by
    refine ⟨rfl, ?_⟩
    by_cases hempty : content = []
    · -- without content there is a call, and it is placed since no call is misplaced
      right
      have hpending : pending ≠ [] := by
        rintro rfl
        simp [hempty] at hsome
      unfold misplacedCalls at hplaced
      unfold placedCalls
      split at hplaced
      · next hrole => simpa [hrole] using hpending
      · exact absurd (List.map_eq_nil_iff.1 hplaced) hpending
    · exact .inl hempty
  response h := nomatch h

/-! ### The law -/

/-- All content that is pending is tidy. -/
def Walk.Neat (w : Walk) : Prop :=
  ∀ c ∈ w.content, c.Tidy

/-- A walk adds well-formed messages, unless it records a problem, and none inside of a message. -/
structure Assembles (setting : Setting) (w t : Walk) : Prop where
  neat : w.Neat → t.Neat
  problems : w.problems <+: t.problems
  inMessage : t.inMessage = w.inMessage
  messages : w.Neat → ∃ new, t.messages = w.messages ++ new ∧ (w.inMessage = true → new = []) ∧
    (t.problems = [] → ∀ m ∈ new, ∃ origin, m.Formed setting origin)

section Changes

variable {setting : Setting} {u v w t : Walk}

theorem Assembles.trans (h : Assembles setting u v) (h' : Assembles setting v w) :
    Assembles setting u w := by
  refine ⟨fun hu => h'.neat (h.neat hu), h.problems.trans h'.problems,
    h'.inMessage.trans h.inMessage, fun hu => ?_⟩
  obtain ⟨new, hnew, hnone, hformed⟩ := h.messages hu
  obtain ⟨more, hmore, hnone', hformed'⟩ := h'.messages (h.neat hu)
  refine ⟨new ++ more, by rw [hmore, hnew, List.append_assoc], fun hin => ?_, fun hclean m hm => ?_⟩
  · rw [hnone hin, hnone' (h.inMessage.trans hin)]
    rfl
  · rcases List.mem_append.1 hm with hm | hm
    · refine hformed (List.prefix_nil.1 ?_) m hm
      rw [← hclean]
      exact h'.problems
    · exact hformed' hclean m hm

/-- A change that adds no message. -/
theorem Assembles.of_messages (hneat : w.Neat → t.Neat) (hproblems : w.problems <+: t.problems)
    (hin : t.inMessage = w.inMessage) (hmessages : t.messages = w.messages) :
    Assembles setting w t :=
  ⟨hneat, hproblems, hin, fun _ => ⟨[], by rw [hmessages, List.append_nil], fun _ => rfl,
    fun _ m hm => absurd hm List.not_mem_nil⟩⟩

/-- A change that has nothing to do with messages. -/
theorem Assembles.of_same (h : t = { w with
    statuses := t.statuses, scope := t.scope, responses := t.responses, stray := t.stray
    toolCalls := t.toolCalls, inContent := t.inContent, inStep := t.inStep
    inArguments := t.inArguments, turns := t.turns, journal := t.journal }) :
    Assembles setting w t := by
  rw [h]
  exact .of_messages (fun hw => hw) List.prefix_rfl rfl rfl

theorem Assembles.refl (w : Walk) : Assembles setting w w :=
  .of_same rfl

/-- A change that adds a piece of content. -/
theorem Assembles.of_content {content : List Content} (hcontent : ∀ c ∈ content, c.Tidy)
    (h : t = { w with stray := t.stray, content := w.content ++ content, journal := t.journal }) :
    Assembles setting w t := by
  rw [h]
  refine .of_messages (fun hw c hc => ?_) List.prefix_rfl rfl rfl
  exact (List.mem_append.1 hc).elim (hw c) (hcontent c)

theorem Walking.tidy_contentOf {stray : String} {c : Content} (h : c ∈ contentOf stray) :
    c.Tidy := by
  unfold contentOf at h
  dsimp only at h
  split at h
  · exact absurd h List.not_mem_nil
  · obtain rfl := List.mem_singleton.1 h
    refine ⟨?_, fun url heq => nomatch heq⟩
    show Text.Trimmed (String.ofList _).toList
    rw [String.toList_ofList]
    exact Text.trimmed_removeCommonIndent _

theorem assembles_closedText (w : Walk) : Assembles setting w w.closedText :=
  .of_content (fun _ => Walking.tidy_contentOf) rfl

theorem Walk.Neat.closedText (h : w.Neat) : ∀ c ∈ w.closedText.content, c.Tidy := by
  have hclosed : Assembles plainSetting w w.closedText := assembles_closedText w
  exact hclosed.neat h

/-- What is pending outside of all messages makes at most one message. -/
theorem Walk.messages_closed (setting : Setting) (h : w.Neat) :
    ∃ front, (w.closed setting).messages = w.messages ++ front ∧ front.length ≤ 1 ∧
      ((w.closed setting).problems = [] → ∀ m ∈ front, m.Formed setting .stray) := by
  unfold Walk.closed
  dsimp only
  split
  · exact ⟨[], (List.append_nil _).symm, Nat.zero_le _, fun _ m hm => absurd hm List.not_mem_nil⟩
  · next hsome =>
    refine ⟨[_], rfl, Nat.le_refl _, fun hclean m hm => ?_⟩
    obtain rfl := List.mem_singleton.1 hm
    exact Message.formed_of_stray h.closedText (Bool.eq_false_iff.2 hsome)
      (List.append_eq_nil_iff.1 hclean).2

theorem Walk.neat_of_content (h : w.content = []) : w.Neat := by
  intro c hc
  rw [h] at hc
  exact absurd hc List.not_mem_nil

theorem assembles_closed (setting : Setting) (hin : w.inMessage = false) :
    Assembles setting w (w.closed setting) := by
  refine ⟨fun _ => Walk.neat_of_content (Walk.settled_closed setting w).content,
    Walk.prefix_closed setting w, by rw [Walk.closed_eq], fun hw => ?_⟩
  obtain ⟨front, hfront, -, hformed⟩ := Walk.messages_closed setting hw
  refine ⟨front, hfront, fun h => (nomatch hin.symm.trans h),
    fun hclean m hm => ?_⟩
  exact ⟨.stray, hformed hclean m hm⟩

/-- A message that is well formed is appended. -/
theorem assembles_emitted {m : Message} {origin : Origin} (hm : m.Formed setting origin)
    (hin : w.inMessage = false) : Assembles setting w { w with messages := w.messages ++ [m] } := by
  refine ⟨fun hw => hw, List.prefix_rfl, rfl, fun _ => ⟨[m], rfl,
    fun h => (nomatch hin.symm.trans h), fun _ x hx => ⟨origin, ?_⟩⟩⟩
  exact List.mem_singleton.1 hx ▸ hm

end Changes

/-- The law of a part of a walk that adds well-formed messages, however it ends. -/
def assembling (setting : Setting) : Law Interrupt Walk where
  done := Assembles setting
  stop w _ t := Assembles setting w t
  refl := Assembles.refl
  trans := Assembles.trans
  back := Assembles.trans

namespace Walking

variable {α : Type} {setting : Setting} {id : Nat} {path : IterationPath} {info : NodeInfo}
  {attributes : List Attribute} {act body otherwise : Walking Unit} {w : Walk}

/-! ### Parts of a walk -/

theorem assembling_of_silent {sure still : Prop} {x : Walking α}
    (h : Respects (silent id path sure still) x) : Respects (assembling setting) x := by
  have hsame : ∀ {w t : Walk}, Silent id path w t → Assembles setting w t := by
    intro w t hs
    refine Assembles.of_same ?_
    rw [hs.same]
  exact Respects.weaken h (fun w t hd => hsame hd.1) fun w e t hs => hsame hs.1

theorem assembling_fail (fault : Fault) (info : NodeInfo) :
    Respects (assembling setting) (fail fault info : Walking α) :=
  Respects.throw fun w => Assembles.refl w

/-- A part adds well-formed messages if a part of it does. -/
theorem assembling_around {u : Walk} {x y : Walking Unit} (h : RespectsAt (assembling setting) u x)
    (hstart : Assembles setting w u) (hrun : ∀ r t, runFrom u x = (r, t) →
      ∃ t', runFrom w y = (r, t') ∧ Assembles setting t t') :
    RespectsAt (assembling setting) w y := by
  rcases hx : runFrom u x with ⟨e | ⟨⟩, t⟩
  · obtain ⟨t', hy, hend⟩ := hrun _ t hx
    exact RespectsAt.of_error hy ((hstart.trans (h.stop hx)).trans hend)
  · obtain ⟨t', hy, hend⟩ := hrun _ t hx
    exact RespectsAt.of_ok hy ((hstart.trans (h.done hx)).trans hend)

theorem assembling_inCopy (h : RespectsAt (assembling setting) w act) :
    RespectsAt (assembling setting) w (inCopy act) := by
  refine assembling_around h (Assembles.refl w) fun r t hact => ?_
  rcases r with e | ⟨⟩
  · exact ⟨t, runFrom_inCopy_error hact, Assembles.refl t⟩
  · exact ⟨_, runFrom_inCopy_ok hact, Assembles.of_same rfl⟩

theorem assembling_entering {turn : Turn}
    (h : RespectsAt (assembling setting) (entered w turn) act) :
    RespectsAt (assembling setting) w (entering turn act) := by
  refine assembling_around h (Assembles.of_same rfl) fun r t hact => ?_
  rcases r with e | ⟨⟩
  · exact ⟨t, runFrom_entering_error hact, Assembles.refl t⟩
  · exact ⟨_, runFrom_entering_ok hact, Assembles.of_same rfl⟩

theorem assembling_onPause {record : Walk → Walk} (hrecord : ∀ t, Assembles setting t (record t))
    (h : RespectsAt (assembling setting) w act) :
    RespectsAt (assembling setting) w (onPause record act) := by
  refine assembling_around h (Assembles.refl w) fun r t hact => ?_
  rcases r with (config | p) | ⟨⟩
  · exact ⟨_, runFrom_onPause_paused hact, hrecord t⟩
  · exact ⟨t, runFrom_onPause_failed hact, Assembles.refl t⟩
  · exact ⟨t, runFrom_onPause_ok hact, Assembles.refl t⟩

theorem assembles_enter (w : Walk) (id : Nat) (path : IterationPath) :
    Assembles setting w (w.enter id path) := by
  unfold Walk.enter
  split
  · exact Assembles.of_same rfl
  · exact Assembles.of_same rfl

theorem assembling_visiting (h : RespectsAt (assembling setting) (w.enter id path) act) :
    RespectsAt (assembling setting) w (visiting id path act) := by
  rcases hover : w.statuses.completed id path with _ | _
  · refine assembling_around h (assembles_enter w id path) fun r t hact => ?_
    rcases r with (config | p) | ⟨⟩
    · exact ⟨_, runFrom_visiting_paused hover hact, Assembles.of_same rfl⟩
    · exact ⟨t, runFrom_visiting_failed hover hact, Assembles.refl t⟩
    · exact ⟨_, runFrom_visiting_ok hover hact, Assembles.of_same rfl⟩
  · exact RespectsAt.of_ok (runFrom_visiting_over hover) (Assembles.refl w)

theorem assembling_inArguments {flag : Bool}
    (h : RespectsAt (assembling setting) { w with inArguments := flag } act) :
    RespectsAt (assembling setting) w (inArguments flag act) := by
  refine assembling_around h (Assembles.of_same rfl) fun r t hact => ?_
  exact ⟨_, by rw [runFrom_inArguments, hact], Assembles.of_same rfl⟩

theorem assembling_write (id : Nat) (path : IterationPath) (text : String) :
    Respects (assembling setting) (write id path text) :=
  fun _ => RespectsAt.of_ok rfl (Assembles.of_same rfl)

theorem assembling_mustache (id : Nat) (path : IterationPath) (e : Expr) :
    Respects (assembling setting) (mustache setting id path e) := by
  refine Respects.bind (assembling_of_silent (silent_evaluate setting id path e)) fun v => ?_
  cases v with
  | undefined => exact Respects.pure _
  | _ =>
    dsimp only
    split
    · exact Respects.pure _
    · exact assembling_write id path _

theorem assembling_report (fault : Fault) (start stop : Nat) :
    Respects (assembling setting) (report fault start stop) :=
  Respects.modify fun _ => Assembles.of_messages (fun hw => hw) (List.prefix_append _ _) rfl rfl

/-! ### Blocks -/

theorem assembling_ifBlock {condition : Expr} (hbody : Respects (assembling setting) body)
    (hotherwise : Respects (assembling setting) otherwise) :
    Respects (assembling setting) (ifBlock setting id path condition body otherwise) := by
  refine Respects.bind (assembling_of_silent (silent_takesBranch setting id path condition))
    fun taken w => ?_
  refine assembling_onPause (fun t => Assembles.of_same rfl) (assembling_entering ?_)
  cases taken with
  | true => exact assembling_inCopy (hbody _)
  | false => exact hotherwise _

section Loops

variable {header : ForHeader} {items : List Value} {inner : IterationPath → Walking Unit}

theorem assembling_iteration (hinner : ∀ path, Respects (assembling setting) (inner path)) (i : Nat)
    (resumed : Option Value) (item : Value) :
    Respects (assembling setting)
      (iteration setting id path header items inner i resumed item) := by
  have hset : Respects (silent id path False False) (setVariable header.item item) :=
    silent_setVariable header.item item
  refine fun w => assembling_entering (assembling_inCopy (Respects.bind ?_ (fun _ => ?_) _))
  · exact assembling_of_silent hset
  · refine Respects.bind (assembling_of_silent (silent_setIndex setting id path header i resumed))
      fun v t => ?_
    exact assembling_onPause (fun t => Assembles.of_same rfl) (hinner _ t)

theorem assembling_iterations (hinner : ∀ path, Respects (assembling setting) (inner path))
    (i : Nat) (resumed : Option Value) (rest : List Value) :
    Respects (assembling setting)
      (iterations setting id path header items inner i resumed rest) := by
  induction rest generalizing i resumed with
  | nil => exact Respects.pure _
  | cons item rest ih =>
    exact Respects.bind (assembling_iteration hinner i resumed item) fun _ => ih (i + 1) none

theorem assembling_forBlock (hinner : ∀ path, Respects (assembling setting) (inner path))
    (hotherwise : Respects (assembling setting) otherwise) :
    Respects (assembling setting) (forBlock setting info path header inner otherwise) := by
  have hnames : Respects (silent info.id path False False) (checkNames info header) :=
    silent_checkNames info header
  refine Respects.bind (assembling_of_silent hnames) fun _ => ?_
  refine Respects.bind
    (assembling_of_silent (silent_takeItems setting info.id path header.iterable)) fun loop w => ?_
  split
  · exact assembling_entering (hotherwise _)
  · exact assembling_iterations hinner _ _ _ w

end Loops

/-! ### Elements -/

/-- What a walk adds to the messages from a message tag: the message of the tag, and in front of it
what was pending. -/
structure Speaks (setting : Setting) (w t : Walk) : Prop where
  messages : ∃ front m, t.messages = w.messages ++ front ++ [m] ∧ front.length ≤ 1 ∧
    m.Formed setting .tag ∧ (t.problems = [] → ∀ x ∈ front, x.Formed setting .stray)

/-- What a message does once its role and its attributes are known. -/
def speak (setting : Setting) (role : Role) (name toolId : Option String) (body : Walking Unit) :
    Walking Unit := do
  closeMessage setting
  within (fun w => { w with inMessage := true }) (fun w => { w with inMessage := false })
    (inArguments false body)
  let (content, pending) ← takeContent
  let toolCalls ← placeToolCalls role pending
  emit { role, content, name, toolId, toolCalls }

/-- Inside of a message no message is added. -/
theorem assembles_enclosed {u s : Walk} (flag : Bool) (hin : u.inMessage = false) (hu : u.Neat)
    (h : Assembles setting { u with inMessage := true, inArguments := false } s) :
    Assembles setting u { s with inMessage := false, inArguments := flag } ∧
    s.messages = u.messages := by
  obtain ⟨new, hnew, hnone, -⟩ := h.messages hu
  have hsame : s.messages = u.messages := by
    rw [hnew, hnone rfl, List.append_nil]
  exact ⟨.of_messages h.neat h.problems hin.symm hsame, hsame⟩

theorem assembling_speak (hbody : Respects (assembling setting) body) {role : Role}
    {name toolId : Option String} (hin : w.inMessage = false)
    (hanswers : toolId.isSome = true → role = .tool) (htag : role = .tool → toolId.isSome = true)
    {r : Except Interrupt Unit} {t : Walk}
    (hrun : runFrom w (speak setting role name toolId body) = (r, t)) :
    Assembles setting w t ∧ (w.Neat → r = .ok () → Speaks setting w t) := by
  unfold speak at hrun
  rw [runFrom_bind_ok (runFrom_closeMessage w setting)] at hrun
  have hclosed : Assembles setting w (w.closed setting) := assembles_closed setting hin
  -- what was pending is sent first, so that the message starts with nothing of it
  have hmessages : w.Neat → _ := Walk.messages_closed setting
  have hneat : (w.closed setting).Neat :=
    Walk.neat_of_content (Walk.settled_closed setting w).content
  have hin' : (w.closed setting).inMessage = false := hclosed.inMessage.trans hin
  generalize w.closed setting = u at hrun hclosed hmessages hneat hin'
  rcases hact : runFrom { u with inMessage := true, inArguments := false } body with ⟨e | ⟨⟩, s⟩
  · obtain ⟨hinner, -⟩ := assembles_enclosed u.inArguments hin' hneat ((hbody _).stop hact)
    rw [runFrom_bind_error (runFrom_enclosed hact)] at hrun
    obtain ⟨rfl, rfl⟩ := Prod.mk.inj hrun
    exact ⟨hclosed.trans hinner, fun _ h => nomatch h⟩
  · obtain ⟨hinner, hsame⟩ :=
      assembles_enclosed u.inArguments hin' hneat ((hbody _).done hact)
    rw [runFrom_bind_ok (runFrom_enclosed hact), runFrom_bind_ok (runFrom_takeContent _),
      runFrom_bind_ok (runFrom_placeToolCalls _ _ _)] at hrun
    obtain ⟨rfl, rfl⟩ := Prod.mk.inj hrun
    -- only an assistant keeps tool calls, all others lose them with a problem
    have hformed : Message.Formed setting .tag
        ⟨role, s.closedText.content, name, toolId, placedCalls role s.toolCalls⟩ :=
      Message.formed_of_tag (Walk.Neat.closedText (hinner.neat hneat)) hanswers htag
    have hplaced : s.problems <+: s.problems ++ misplacedCalls role s.toolCalls :=
      List.prefix_append _ _
    constructor
    · refine hclosed.trans (hinner.trans
        ⟨fun _ => Walk.neat_of_content rfl, hplaced, rfl, fun _ => ?_⟩)
      refine ⟨[_], rfl, fun h => (nomatch h), fun _ m hm => ⟨.tag, ?_⟩⟩
      exact List.mem_singleton.1 hm ▸ hformed
    · intro hw _
      -- what is in front of the message was sent for what had been pending
      obtain ⟨front, hfront, hone, hstray⟩ := hmessages hw
      refine ⟨front, ⟨role, s.closedText.content, name, toolId, placedCalls role s.toolCalls⟩,
        ?_, hone, hformed, fun hclean => hstray (List.prefix_nil.1 ?_)⟩
      · rw [← hfront, ← hsame]
        rfl
      · rw [← hclean]
        exact hinner.problems.trans hplaced

/-- A message has a tool identifier if it is one of a tool. -/
theorem toolId_of_check {role : Role} {id toolId : Option String}
    (hid : (if role = .tool then id else none) = toolId)
    (h : ¬ (decide (role = .tool) && toolId.isNone) = true) :
    (toolId.isSome = true → role = .tool) ∧ (role = .tool → toolId.isSome = true) := by
  by_cases hrole : role = .tool
  · exact ⟨fun _ => hrole, fun _ => by simpa [hrole, Option.isSome_iff_ne_none] using h⟩
  · rw [if_neg hrole] at hid
    subst hid
    exact ⟨fun hid => (nomatch hid), fun hrole' => absurd hrole' hrole⟩

theorem respectsAt_assembling {x : Walking α}
    (h : ∀ r t, runFrom w x = (r, t) → Assembles setting w t) :
    RespectsAt (assembling setting) w x := by
  rcases hrun : runFrom w x with ⟨e | a, t⟩
  · exact RespectsAt.of_error hrun (h _ t hrun)
  · exact RespectsAt.of_ok hrun (h _ t hrun)

theorem assembling_message {role : Option Role} (hbody : Respects (assembling setting) body) :
    Respects (assembling setting) (message setting info path role attributes body) := by
  intro w
  refine RespectsAt.look_bind ?_
  rcases hin : w.inMessage with _ | _
  · have hvalues : Respects (assembling setting)
      (attributeValues setting info.id path attributes) :=
      assembling_of_silent (Node.silent_values setting info.id path attributes)
    refine RespectsAt.bind (hvalues w) fun values s _ hs => ?_
    have hrole : ∀ role, Respects (silent info.id path False False)
      (messageRole info role values) :=
      fun role => silent_messageRole info role values
    refine RespectsAt.bind (assembling_of_silent (hrole _) s) fun role u _ hu => ?_
    dsimp only
    generalize htoolId : (if role = Role.tool then textOf? values "id" else none) = toolId
    split
    · exact assembling_fail _ info u
    · next hcheck =>
      obtain ⟨hanswers, htag⟩ := toolId_of_check htoolId hcheck
      -- neither the attributes nor the role change whether a message is open
      have hin' : u.inMessage = false := hu.inMessage.trans (hs.inMessage.trans hin)
      have hspeak : RespectsAt (assembling setting) u
          (speak setting role (textOf? values "name") toolId body) :=
        respectsAt_assembling fun r t hrun => (assembling_speak hbody hin' hanswers htag hrun).1
      exact hspeak
  · exact assembling_fail _ info w

/-- What a message adds that comes to its end. -/
theorem speaks_of_message {role : Option Role} (hbody : Respects (assembling setting) body)
    (hw : w.Neat)
    {t : Walk} (hrun : runFrom w (message setting info path role attributes body) = (.ok (), t)) :
    Speaks setting w t := by
  obtain ⟨inMessage, s, hs, hrun⟩ := runFrom_bind_eq_ok hrun
  obtain ⟨hin, rfl⟩ : w.inMessage = inMessage ∧ w = s := by simpa using hs
  split at hrun
  · exact nomatch hrun
  · next hout =>
    obtain ⟨values, s, hs, hrun⟩ := runFrom_bind_eq_ok hrun
    obtain ⟨role', u, hu, hrun⟩ := runFrom_bind_eq_ok hrun
    have hrole : ∀ role, Respects (silent info.id path False False)
      (messageRole info role values) :=
      fun role => silent_messageRole info role values
    have hsilent : Silent info.id path w u :=
      ((Node.silent_values setting info.id path attributes w).done hs).1.trans
        ((hrole _ s).done hu).1
    dsimp only at hrun
    generalize htoolId : (if role' = Role.tool then textOf? values "id" else none) = toolId at hrun
    split at hrun
    · exact nomatch hrun
    · next hcheck =>
      obtain ⟨hanswers, htag⟩ := toolId_of_check htoolId hcheck
      have hsame := hsilent.same
      have hin' : u.inMessage = false := by
        rw [hsame]
        exact hin.trans (Bool.eq_false_iff.2 hout)
      -- and they write nothing
      have hu' : u.Neat := by
        rw [hsame]
        exact hw
      have hspeak : runFrom u (speak setting role' (textOf? values "name") toolId body) =
        (.ok (), t) :=
        hrun
      obtain ⟨front, m, hmessages, hrest⟩ :=
        ((assembling_speak hbody hin' hanswers htag hspeak).2 hu' rfl).messages
      refine ⟨front, m, ?_, hrest⟩
      rw [hmessages, hsame]

theorem assembling_placeContent {kind : ContentKind} {text : String}
    (h : Text.Trimmed text.toList) :
    Respects (assembling setting) (placeContent info path kind text) := by
  cases kind with
  | text =>
    have htidy : ∀ c ∈ [Content.text text], c.Tidy := by
      intro c hc
      exact List.mem_singleton.1 hc ▸ ⟨h, fun _ heq => nomatch heq⟩
    exact fun w => RespectsAt.of_ok rfl (Assembles.of_content htidy rfl)
  | image =>
    unfold placeContent
    dsimp only
    split
    · exact assembling_fail _ info
    -- an image without a text is refused, so that no image is empty
    · next hsome =>
      have htidy : ∀ c ∈ [Content.image text], c.Tidy := by
        intro c hc
        refine List.mem_singleton.1 hc ▸ ⟨h, fun url heq hempty => hsome ?_⟩
        obtain rfl := Content.image.inj heq
        rw [hempty]
        rfl
      exact fun w => RespectsAt.of_ok rfl (Assembles.of_content htidy rfl)

theorem assembling_contentTag {kind : ContentKind} (hbody : Respects (assembling setting) body) :
    Respects (assembling setting) (contentTag setting info path kind attributes body) := by
  refine Respects.bind (Respects.look _) fun inContent => ?_
  split
  · exact assembling_fail _ info
  · refine Respects.bind (assembling_of_silent (Node.silent_values setting info.id path attributes))
      fun _ => ?_
    have hclose : Respects (assembling setting) closeText :=
      fun w => RespectsAt.of_ok (runFrom_closeText w) (assembles_closedText w)
    refine Respects.bind hclose fun _ => Respects.bind (fun w => ?_) fun _ => ?_
    · have hinner : RespectsAt (assembling setting) { w with inContent := true }
        (inArguments false body) :=
        assembling_inArguments (hbody _)
      refine assembling_around hinner (Assembles.of_same rfl) fun r t hact => ?_
      exact ⟨_, by rw [runFrom_within, hact], Assembles.of_same rfl⟩
    · refine Respects.bind (Respects.look _) fun stray => ?_
      refine Respects.bind (Respects.modify fun w => Assembles.of_same rfl) fun _ => ?_
      -- an item is trimmed when its indent is removed
      refine assembling_placeContent ?_
      rw [String.toList_ofList]
      exact Text.trimmed_removeCommonIndent _

theorem assembling_toolCall (hbody : Respects (assembling setting) body) :
    Respects (assembling setting) (toolCall setting info path attributes body) := by
  refine Respects.bind (Respects.look _) fun inContent => ?_
  split
  · exact assembling_fail _ info
  · refine Respects.bind (assembling_of_silent (Node.silent_values setting info.id path attributes))
      fun values => ?_
    split
    · exact assembling_fail _ info
    · exact assembling_fail _ info
    · refine Respects.bind (fun w => ?_) fun text => Respects.bind ?_ fun arguments => ?_
      -- the body writes into an empty buffer; the text around is put back behind it
      · have hinner : RespectsAt (assembling setting) { w with stray := "" }
          (inArguments true body) :=
          assembling_inArguments (hbody _)
        have hstart : Assembles setting w { w with stray := "" } := Assembles.of_same rfl
        rcases hact : runFrom { w with stray := "" } (inArguments true body) with ⟨e | ⟨⟩, t⟩
        · exact RespectsAt.of_error (runFrom_captured_error hact)
            ((hstart.trans (hinner.stop hact)).trans (Assembles.of_same rfl))
        · exact RespectsAt.of_ok (runFrom_captured_ok hact)
            ((hstart.trans (hinner.done hact)).trans (Assembles.of_same rfl))
      -- arguments that are no object are reported, and replaced by none
      · unfold toolArguments
        dsimp only
        split
        · exact Respects.pure _
        · split
          · exact Respects.pure _
          · exact Respects.bind (assembling_report _ _ _) fun _ => Respects.pure _
      · exact fun w => RespectsAt.of_ok rfl (Assembles.of_same rfl)

theorem assembling_takeResponse {name : Option String} {config : Fields Json}
    (hin : w.inMessage = false) :
    RespectsAt (assembling setting) w (takeResponse setting id path name config) := by
  have hclosed := assembles_closed (w := w) setting hin
  rcases hw : w.responses with _ | ⟨response, rest⟩
  · exact RespectsAt.of_error (runFrom_takeResponse_nil hw)
      (hclosed.trans (Assembles.of_same rfl))
  · refine RespectsAt.of_ok (runFrom_takeResponse_cons hw) ?_
    have hstart : Assembles setting w (answered id path response rest w) := Assembles.of_same rfl
    have hanswered := assembles_closed (w := answered id path response rest w) setting hin
    have hin' := hanswered.inMessage.trans hin
    exact (hstart.trans hanswered).trans ((assembles_emitted
      (Message.formed_ofResponse setting response) hin').trans (Assembles.of_same rfl))

theorem assembling_step (hbody : Respects (assembling setting) body) :
    Respects (assembling setting) (step setting info path attributes body) := by
  refine Respects.bind (Respects.look _) fun inStep => ?_
  split
  · exact assembling_fail _ info
  · refine fun w => RespectsAt.look_bind ?_
    rcases hin : w.inMessage with _ | _
    · have hname : Respects (silent info.id path False False) (stepName attributes) :=
        silent_stepName False.elim
      have hconfig : Respects (silent info.id path False False)
          (stepConfig setting info.id path attributes) :=
        silent_stepConfig setting info.id path False.elim False.elim
      refine RespectsAt.bind (assembling_of_silent hname w) fun name s _ hs => ?_
      refine RespectsAt.bind (assembling_of_silent hconfig s) fun config u _ hu => ?_
      refine RespectsAt.bind ?_ fun _ v _ hv => assembling_takeResponse ?_
      · refine assembling_around (hbody _)
          (Assembles.of_same (t := { u with inStep := true }) rfl) fun r t hact => ?_
        exact ⟨_, by rw [runFrom_within, hact], Assembles.of_same rfl⟩
      -- none of the parts so far opens a message
      · rw [hv.inMessage, hu.inMessage, hs.inMessage, hin]
    · exact assembling_fail _ info w

theorem assembling_element {name : String} (hbody : Respects (assembling setting) body) :
    Respects (assembling setting) (element setting info path name attributes body) := by
  unfold element
  cases TagKind.ofName name with
  | message role => exact assembling_message hbody
  | content kind => exact assembling_contentTag hbody
  | toolCall => exact assembling_toolCall hbody
  | reference =>
    dsimp only
    split
    · exact assembling_fail _ info
    · exact assembling_fail _ info
  | step => exact assembling_step hbody
  | unknown => exact Respects.bind (assembling_report _ _ _) fun _ => hbody

end Walking

/-! ### Nodes -/

namespace Node

variable {setting : Setting} {path : IterationPath}

theorem assembles_walkAll {ns : List Node}
    (h : ∀ n ∈ ns, Respects (assembling setting) (n.walk setting path)) :
    Respects (assembling setting) (walkAll setting ns path) := by
  induction ns with
  | nil => exact Respects.pure _
  | cons n rest ih =>
    exact Respects.bind (h n List.mem_cons_self) fun _ =>
      ih fun m hm => h m (List.mem_cons_of_mem _ hm)

theorem assembles_walkElse {o : Option Node}
    (h : ∀ n ∈ o.toList, Respects (assembling setting) (n.walk setting path)) :
    Respects (assembling setting) (walkElse setting o path) := by
  cases o with
  | none => exact Respects.pure _
  | some n => exact h n (List.mem_singleton.2 rfl)

/-- The messages that the visit of a node adds are well formed, unless a problem is recorded. -/
theorem assembles_walk (n : Node) (path : IterationPath) :
    Respects (assembling setting) (n.walk setting path) := by
  induction n using Node.induct generalizing path with
  | step n ih =>
    -- the induction is on the tree; each kind of tag has a lemma of its own
    have hact : Respects (assembling setting) (n.act setting path) := by
      cases n with
      | fragment info children =>
        exact fun w => assembling_inCopy (assembles_walkAll (fun m hm => ih m hm path) w)
      | config info value raw => exact Respects.pure _
      | comment info data => exact Respects.pure _
      | text info data => exact assembling_write info.id path data
      | mustache info e => exact assembling_mustache info.id path e
      | ifBlock info condition elseIf children otherwise =>
        exact assembling_ifBlock
          (assembles_walkAll fun m hm => ih m (List.mem_append_left _ hm) path)
          (assembles_walkElse fun m hm => ih m (List.mem_append_right _ hm) path)
      | forBlock info header children otherwise =>
        exact assembling_forBlock
          (fun inner => assembles_walkAll fun m hm => ih m (List.mem_append_left _ hm) inner)
          (assembles_walkElse fun m hm => ih m (List.mem_append_right _ hm) path)
      | element info name attributes children =>
        exact assembling_element (assembles_walkAll fun m hm => ih m hm path)
    rw [walk_eq]
    exact fun w => assembling_visiting (hact _)

/-- The visit of a message tag that comes to its end adds the message of the tag, and in front of it
what was pending. -/
theorem message_of_walk {info : NodeInfo} {name : String} {role : Option Role}
    {attributes : List Attribute} {children : List Node}
    (hkind : TagKind.ofName name = .message role)
    {w t : Walk} (hw : w.Neat) (hover : w.statuses.completed info.id path = false)
    (hrun : runFrom w ((element info name attributes children).walk setting path) = (.ok (), t)) :
    Speaks setting w t := by
  rw [walk_eq] at hrun
  rcases hact : runFrom (w.enter info.id path)
    ((element info name attributes children).act setting path)
    with ⟨(config | p) | ⟨⟩, s⟩
  · exact nomatch (runFrom_visiting_paused hover hact).symm.trans hrun
  · exact nomatch (runFrom_visiting_failed hover hact).symm.trans hrun
  · obtain rfl := (Prod.mk.inj ((runFrom_visiting_ok hover hact).symm.trans hrun)).2
    have hbody : Respects (assembling setting) (walkAll setting children path) :=
      assembles_walkAll fun m _ => m.assembles_walk path
    -- entering a node changes its status and the names, nothing of the messages
    have hsame : (w.enter info.id path).messages = w.messages ∧
        (w.enter info.id path).content = w.content := by
      unfold Walk.enter
      split
      · exact ⟨rfl, rfl⟩
      · exact ⟨rfl, rfl⟩
    have hneat : (w.enter info.id path).Neat := by
      rw [Walk.Neat, hsame.2]
      exact hw
    have hmessage : runFrom (w.enter info.id path)
      (Walking.message setting info path role attributes
        (walkAll setting children path)) = (.ok (), s) := by
      rw [← hact]
      show _ = runFrom _ (Walking.element _ _ _ _ _ _)
      unfold Walking.element
      rw [hkind]
    obtain ⟨front, m, hmessages, hrest⟩ := (speaks_of_message hbody hneat hmessage).messages
    exact ⟨front, m, by rw [← hsame.1]; exact hmessages, hrest⟩

end Node

/-! ### Conversations -/

variable {setting : Setting}

/-- The messages of a walk without problems are well formed. -/
theorem Template.formed_of_walk {t : Template} {statuses : Statuses} {scope : Scope}
    {responses : List String} {outcome : Outcome}
    (h : t.walk setting statuses scope responses = .ok outcome) :
    ∀ m ∈ outcome.messages, ∃ origin, m.Formed setting origin := by
  have hends := Template.walk_eq_ok.1 h
  have hvisit : RespectsAt (assembling setting) (Walk.start statuses scope responses)
      (t.visitRoot setting) := by
    refine RespectsAt.bind (t.root.assembles_walk [] _) fun _ s _ hs => ?_
    exact RespectsAt.of_ok (runFrom_closeMessage s setting) (assembles_closed setting hs.inMessage)
  rcases hrun : runFrom (Walk.start statuses scope responses) (t.visitRoot setting) with ⟨r, w⟩
  have hw : Assembles setting (Walk.start statuses scope responses) w := by
    rcases r with e | ⟨⟩
    · exact hvisit.stop hrun
    · exact hvisit.done hrun
  obtain ⟨new, hnew, -, hformed⟩ := hw.messages (Walk.neat_of_content rfl)
  -- messages are formed as long as no problem was collected, and an outcome has none
  have hall : w.problems = [] → ∀ m ∈ w.messages, ∃ origin, m.Formed setting origin := by
    rw [hnew]
    exact hformed
  rw [hrun] at hends
  cases hends with
  | completed hclean => exact hall hclean
  | paused hclean => exact hall hclean

/-- A call keeps the setting of a chain, and all its messages well formed. -/
theorem Chain.formed_call (chain : Chain) (response : Option String)
    (h : chain.setting = setting ∧ ∀ m ∈ chain.messages, ∃ origin, m.Formed setting origin) :
    (chain.call response).setting = setting ∧
      ∀ m ∈ (chain.call response).messages, ∃ origin, m.Formed setting origin := by
  rcases Chain.call_cases chain response with ⟨outcome, -, hwalk, hcall⟩ | hcall
  · rw [hcall]
    refine ⟨h.1, fun m hm => ?_⟩
    rcases List.mem_append.1 hm with hm | hm
    · exact h.2 m hm
    · exact h.1 ▸ Template.formed_of_walk hwalk m hm
  · rwa [hcall]

/-- The messages of every conversation, and of every result of a chain, are well formed; and so they
are where they are made: the visit of a message tag adds a message of the tag, in front of it what
was pending becomes one message at most, and a step adds the response. -/
theorem conversations_formed [ConfigReader] (setting : Setting) :
    (∀ text parameters conversation, compile setting text parameters = .ok conversation →
      ∀ m ∈ conversation.messages, ∃ origin, m.Formed setting origin) ∧
    (∀ text parameters chain, Chain.start setting text parameters = .ok chain →
      ∀ responses response result next, (chain.calls responses).step response = .ok (result, next) →
        ∀ m ∈ result.conversation.messages, ∃ origin, m.Formed setting origin) ∧
    (∀ (w t : Walk) info name role attributes children path, w.Neat →
      TagKind.ofName name = .message role → w.statuses.completed info.id path = false →
      runFrom w ((Node.element info name attributes children).walk setting path) = (.ok (), t) →
        ∃ front m, t.messages = w.messages ++ front ++ [m] ∧ front.length ≤ 1 ∧
          m.Formed setting .tag ∧ (t.problems = [] → ∀ x ∈ front, x.Formed setting .stray)) ∧
    (∀ w : Walk, w.Neat → ∃ t front, runFrom w (closeMessage setting) = (.ok (), t) ∧
      t.messages = w.messages ++ front ∧ front.length ≤ 1 ∧
        (t.problems = [] → ∀ x ∈ front, x.Formed setting .stray)) ∧
    ∀ (w : Walk) id path name config response rest, w.responses = response :: rest → ∃ t,
      runFrom w (takeResponse setting id path name config) = (.ok (), t) ∧
        t.messages = (w.closed setting).messages ++ [.ofResponse response] := by
  refine ⟨?_, ?_, ?_, ?_, ?_⟩
  -- whole conversations: of compile, and of any call of a chain
  · intro text parameters conversation h
    obtain ⟨t, outcome, -, hwalk, rfl⟩ := compile_eq_ok.1 h
    exact Template.formed_of_walk hwalk
  · intro text parameters chain hstart responses response result next hstep
    have hchain : chain.setting = setting ∧
      ∀ m ∈ chain.messages, ∃ origin, m.Formed setting origin := by
      obtain ⟨t, -, rfl⟩ := Chain.start_eq_ok hstart
      exact ⟨rfl, fun m hm => absurd hm List.not_mem_nil⟩
    have hlater := Chain.calls_invariant Chain.formed_call hchain responses
    have hnext : (chain.calls responses).call response = next := Chain.call_of_step hstep
    obtain ⟨-, outcome, -, -, hmessages, -⟩ := Chain.step_eq_ok hstep
    rw [hmessages, ← hnext]
    exact (Chain.formed_call _ response hlater).2
  -- single messages: of a tag, of what was pending, and of a response
  · intro w t info name role attributes children path hw hkind hover hrun
    exact (Node.message_of_walk hkind hw hover hrun).messages
  · intro w hw
    obtain ⟨front, hfront, hone, hformed⟩ := Walk.messages_closed setting hw
    exact ⟨_, front, runFrom_closeMessage w setting, hfront, hone, hformed⟩
  · intro w id path name config response rest hw
    refine ⟨_, runFrom_takeResponse_cons hw, ?_⟩
    show ((answered id path response rest w).closed setting).messages ++ _ = _
    rw [closed_answered]
    rfl

/-- A message of a tool, text in front of a tag, and an image. -/
def mixedMessages : String :=
  "<tool id=\"1\">ok</tool> hello <user><image> a.png </image></user>"

/-- The message of the tool has its identifier, the text between the tags has become a message of
the default role, and the address of the image is trimmed. -/
theorem conversations_formed_mixedMessages :
    ∃ conversation, compile plainSetting mixedMessages [] = .ok conversation ∧
      conversation.messages.map (fun m => (m.role, m.toolId, m.content.map Content.body)) =
        [(.tool, some "1", ["ok"]), (.assistant, none, ["hello"]), (.user, none, ["a.png"])] ∧
      ∀ m ∈ conversation.messages, ∃ origin, m.Formed plainSetting origin := by
  have hcheck : ((compile plainSetting mixedMessages []).toOption.any fun conversation =>
      conversation.messages.map (fun m => (m.role, m.toolId, m.content.map Content.body)) =
        [(.tool, some "1", ["ok"]), (.assistant, none, ["hello"]), (.user, none, ["a.png"])]) =
          true := by
    decide +kernel
  obtain ⟨conversation, hcompile, hmessages⟩ := exists_ok_of_any hcheck
  exact ⟨conversation, hcompile, of_decide_eq_true hmessages,
    (conversations_formed plainSetting).1 _ _ _ hcompile⟩

end PromptMarkup

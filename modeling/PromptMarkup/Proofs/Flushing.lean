/-
A pause leaves nothing behind.

What a walk writes waits in the state until it becomes a message: text that belongs to no piece of
content, content that belongs to no message, tool calls.  A step that waits makes a message of all
that is pending; then the nodes around it record where they stood, and some of them change the state
back.

* `Node.flushed_of_walk` — where a walk comes out of a pause no content and no tool call is pending,
  and no text either unless the step stands in a tool call;
* `Conveys`, `Node.conveys_walk` — whatever a walk writes, places or calls is in its messages or
  pending;
* `Chain.pause_flushes` — a chain that has paused has put everything into messages, text excepted
  that waited in front of a tool call in which a step waits;
* `Chain.pause_loses_text` — a prompt that loses such a text.

Design notes: a tool call sets the text aside that is pending in front of it, so that the step
inside does not see that text, and gives it back when the pause comes out of it.  In the arguments
of a tool call the text that is pending will become no content; `Walk.shown` leaves it out there,
and what is set aside keeps what it holds.
-/
import PromptMarkup.Proofs.Answers
import PromptMarkup.Proofs.Pieces
import PromptMarkup.Yaml.Document

namespace PromptMarkup

open PromptMarkup.Computation Walking

/-! ### Events -/

namespace Event

/-- The text that was written into the content of messages, if it is not blank. -/
def text? : Event → Option String
  | wrote _ _ false text => if Text.allBlank text.toList then none else some text
  | _ => none

/-- The piece of content that was placed. -/
def content? : Event → Option Content
  | placed _ _ content => some content
  | _ => none

/-- The tool call that was made. -/
def call? : Event → Option ToolCall
  | called _ _ call => some call
  | _ => none

/-- The step that waits for a response. -/
def asker? : Event → Option Nat
  | asked node _ _ => some node
  | _ => none

/-- An event that adds nothing to what is pending. -/
structure IsQuiet (e : Event) : Prop where
  text : e.text? = none
  content : e.content? = none
  call : e.call? = none

theorem isQuiet_of_isEvaluation {e : Event} (h : e.isEvaluation = true) : e.IsQuiet := by
  cases e with
  | evaluated node path span names => exact ⟨rfl, rfl, rfl⟩
  | _ => exact nomatch h

end Event

theorem filterMap_reverse_cons {α : Type} (f : Event → Option α) (e : Event) (early : List Event) :
    (e :: early).reverse.filterMap f = early.reverse.filterMap f ++ (f e).toList := by
  rw [List.reverse_cons, List.filterMap_append]
  cases h : f e with
  | none => simp [h]
  | some a => simp [h]

theorem filterMap_reverse_append {α : Type} {f : Event → Option α} {new : List Event}
    (h : ∀ e ∈ new, f e = none) (early : List Event) :
    (new ++ early).reverse.filterMap f = early.reverse.filterMap f := by
  have hnone : new.reverse.filterMap f = [] :=
    List.filterMap_eq_nil_iff.2 fun e he => h e (List.mem_reverse.1 he)
  rw [List.reverse_append, List.filterMap_append, hnone, List.append_nil]

/-! ### What is pending at a pause -/

namespace Node

variable {setting : Setting} {path : IterationPath} {config : Fields Json} {w t : Walk}

/-- A tool call. -/
def isToolCall : Node → Bool
  | element _ name _ _ => TagKind.ofName name == .toolCall
  | _ => false

/-- By the given events no step has waited inside of a tool call. -/
def AsksOutside (n : Node) (events : List Event) : Prop :=
  ∀ m ∈ n.nodes, m.isToolCall = true → ∀ e ∈ events, ∀ id ∈ e.asker?, id ∉ m.ids

instance (n : Node) (events : List Event) : Decidable (n.AsksOutside events) :=
  inferInstanceAs
    (Decidable (∀ m ∈ n.nodes, m.isToolCall = true → ∀ e ∈ events, ∀ id ∈ e.asker?, id ∉ m.ids))

theorem AsksOutside.child {n m : Node} {events : List Event} (h : n.AsksOutside events)
    (hm : m ∈ n.childNodes) : m.AsksOutside events :=
  fun x hx => h x (mem_nodes_of_child hm hx)

theorem asksOutside_append {n : Node} {l r : List Event} :
    n.AsksOutside (l ++ r) ↔ n.AsksOutside l ∧ n.AsksOutside r := by
  constructor
  · intro h
    exact ⟨fun m hm hcall e he => h m hm hcall e (List.mem_append_left _ he),
      fun m hm hcall e he => h m hm hcall e (List.mem_append_right _ he)⟩
  · rintro ⟨hl, hr⟩ m hm hcall e he
    rcases List.mem_append.1 he with he | he
    · exact hl m hm hcall e he
    · exact hr m hm hcall e he

/-- A state at a pause of one of the given steps, which no content and no tool call is pending in.
Neither is text if the pause is no loss. -/
structure Flushed (ids : List Nat) (safe : Event → Prop) (t : Walk) : Prop where
  content : t.content = []
  toolCalls : t.toolCalls = []
  asked : ∃ id path turns, t.journal.head? = some (.asked id path turns) ∧ id ∈ ids ∧
    (safe (.asked id path turns) → t.stray = "")

/-- Whether a pause comes out of a node without a loss of text: in a piece of content there is no
tool call. -/
def Spares (n : Node) (inContent : Bool) (e : Event) : Prop :=
  inContent = true ∨ n.AsksOutside [e]

/-- Where a walk pauses in a node, nothing is pending. -/
def FlushesIn (setting : Setting) (n : Node) : Prop :=
  ∀ {path : IterationPath} {config : Fields Json} {w t : Walk},
    runFrom w (n.walk setting path) = (.error (.paused config), t) →
    Flushed n.ids (n.Spares w.inContent) t

theorem flushed_child {n m : Node} (hm : m ∈ n.childNodes) (ih : FlushesIn setting m)
    (h : runFrom w (m.walk setting path) = (.error (.paused config), t)) :
    Flushed (idsAll n.childNodes) (n.Spares w.inContent) t := by
  obtain ⟨hcontent, htoolCalls, id, inner, turns, hasked, hid, hstray⟩ := ih h
  refine ⟨hcontent, htoolCalls, id, inner, turns, hasked, ids_subset_idsAll hm hid, fun hsafe => ?_⟩
  exact hstray (hsafe.imp_right fun houtside => houtside.child hm)

theorem flushed_among {n : Node} {ns : List Node} (hns : ns ⊆ n.childNodes)
    (ih : ∀ m ∈ n.childNodes, FlushesIn setting m) (h : PausesAmong setting path config ns w t) :
    Flushed (idsAll n.childNodes) (n.Spares w.inContent) t := by
  obtain ⟨before, m, after, s, rfl, hs, hm⟩ := h
  have hmem : m ∈ n.childNodes := hns (List.mem_append_right _ List.mem_cons_self)
  rw [← (progress_of_walkAll hs).inContent]
  exact flushed_child hmem (ih m hmem) hm

/-- What is pending where a walk comes out of a node is what was pending where it came out of a node
inside. -/
theorem Flushed.around {n : Node} {u : Walk} {inContent : Bool}
    (h : Flushed (idsAll n.childNodes) (n.Spares inContent) u) (hin : inContent = w.inContent)
    (hcontent : t.content = u.content) (htoolCalls : t.toolCalls = u.toolCalls)
    (hjournal : t.journal = u.journal) (hstray : t.stray = u.stray) :
    Flushed n.ids (n.Spares w.inContent) t := by
  obtain ⟨id, inner, turns, hasked, hid, hsafe⟩ := h.asked
  exact ⟨hcontent.trans h.content, htoolCalls.trans h.toolCalls, id, inner, turns,
    hjournal ▸ hasked,
    idsAll_childNodes_subset n hid, fun hspares => hstray.trans (hsafe (hin ▸ hspares))⟩

/-- What is done around a pause leaves alone what is pending, except that a tool call brings a text
back. -/
theorem flushed_act {n : Node} (ih : ∀ m ∈ n.childNodes, FlushesIn setting m)
    (h : Pauses setting path config n w t) : Flushed n.ids (n.Spares w.inContent) t := by
  cases h with
  | fragment h => exact (flushed_among (List.Subset.refl _) ih h).around rfl rfl rfl rfl rfl
  | @taken info condition elseIf children otherwise _ s t hcondition h =>
    have hs := ((silent_takesBranch setting info.id path condition w).done hcondition).1
    have hin : s.inContent = w.inContent := by rw [hs.same]
    exact (flushed_among (List.subset_append_left _ _) ih h).around hin rfl rfl rfl rfl
  | @passed info condition elseIf children m _ s t hcondition h =>
    have hs := ((silent_takesBranch setting info.id path condition w).done hcondition).1
    have hin : s.inContent = w.inContent := by rw [hs.same]
    have hm : m ∈ children ++ [m] := List.mem_append_right _ (List.mem_singleton.2 rfl)
    exact (flushed_child hm (ih m hm) h).around hin rfl rfl rfl rfl
  | @iteration info header children otherwise items before later item first resumed v _ s u
    x t hnames
      hloop hitems hbefore hindex h =>
    have hs := ((silent_takeItems setting info.id path header.iterable w).done hloop).1
    have hu : Progress (info.id :: idsAll children) path s u := (progress_of_iterations hbefore).1
    have hx := silent_of_begun hindex
    have hstart : s.inContent = w.inContent := by rw [hs.same]
    have hin : x.inContent = w.inContent := by
      rw [hx.same]
      exact hu.inContent.trans hstart
    exact (flushed_among (List.subset_append_left _ _) ih h).around hin rfl rfl rfl rfl
  | @noItems info header children m loop _ s t hnames hloop hempty h =>
    have hs := ((silent_takeItems setting info.id path header.iterable w).done hloop).1
    have hin : s.inContent = w.inContent := by rw [hs.same]
    have hm : m ∈ children ++ [m] := List.mem_append_right _ (List.mem_singleton.2 rfl)
    exact (flushed_child hm (ih m hm) h).around hin rfl rfl rfl rfl
  | content hkind houter hvalues h =>
    have hinside := flushed_among (List.Subset.refl _) ih h
    obtain ⟨id, inner, turns, hasked, hid, hsafe⟩ := hinside.asked
    exact ⟨hinside.content, hinside.toolCalls, id, inner, turns, hasked,
      idsAll_childNodes_subset _ hid, fun _ => hsafe (.inl rfl)⟩
  | @toolCall info name attributes children values _ s t hkind houter hvalues h =>
    have hinside := flushed_among (List.Subset.refl _) ih h
    obtain ⟨id, inner, turns, hasked, hid, -⟩ := hinside.asked
    have hids := idsAll_childNodes_subset _ hid
    refine ⟨hinside.content, hinside.toolCalls, id, inner, turns, hasked, hids, ?_⟩
    -- the step that waits is inside of this very tool call
    rintro (hin | houtside)
    · exact nomatch houter.symm.trans hin
    · have hcall : (element info name attributes children).isToolCall = true := beq_iff_eq.2 hkind
      exact absurd hids (houtside _ (mem_nodes_self _) hcall _ (List.mem_singleton.2 rfl) id rfl)
  | unknown hkind h => exact (flushed_among (List.Subset.refl _) ih h).around rfl rfl rfl rfl rfl
  | @step info name attributes children as? _ s t hkind houter hmessage hname hconfig hbody hnone =>
    have hsettled := Walk.settled_closed setting { t with inStep := false }
    exact ⟨hsettled.content, hsettled.toolCalls, info.id, path, t.turns, rfl, id_mem_ids _,
      fun _ => hsettled.stray⟩

/-- Where a walk comes out of a pause, no content and no tool call is pending, and no text unless
the step stands in a tool call. -/
theorem flushed_of_walk (n : Node) : FlushesIn setting n := by
  induction n using Node.induct with
  | step n ih =>
    intro path config w t h
    obtain ⟨-, s, hs, rfl⟩ := pauses_of_walk h
    have henter : (w.enter n.id path).inContent = w.inContent := by
      unfold Walk.enter
      split
      · rfl
      · rfl
    obtain ⟨hcontent, htoolCalls, hasked⟩ := flushed_act ih hs
    exact ⟨hcontent, htoolCalls, henter ▸ hasked⟩

end Node

/-! ### What a walk has shown -/

namespace Walk

/-- All contents: of the messages, and those that are pending. -/
def contents (w : Walk) : List Content :=
  w.messages.flatMap Message.content ++ w.content

/-- All tool calls: of the messages, and those that are pending. -/
def calls (w : Walk) : List ToolCall :=
  w.messages.flatMap Message.toolCalls ++ w.toolCalls.map PendingCall.call

/-- All contents, and the pending text if it is going to be one. -/
def shown (w : Walk) : List Content :=
  w.contents ++ if w.inArguments then [] else [.text w.stray]

/-- The texts that were written into the content of messages, blank ones left out. -/
def written (w : Walk) : List String :=
  w.journal.reverse.filterMap Event.text?

/-- The pieces of content that were placed. -/
def placed (w : Walk) : List Content :=
  w.journal.reverse.filterMap Event.content?

/-- The tool calls that were made. -/
def called (w : Walk) : List ToolCall :=
  w.journal.reverse.filterMap Event.call?

section OneMore

variable {w t : Walk} {e : Event}

theorem written_of_cons (h : t.journal = e :: w.journal) :
    t.written = w.written ++ e.text?.toList := by
  rw [written, h, filterMap_reverse_cons]
  rfl

theorem placed_of_cons (h : t.journal = e :: w.journal) :
    t.placed = w.placed ++ e.content?.toList := by
  rw [placed, h, filterMap_reverse_cons]
  rfl

theorem called_of_cons (h : t.journal = e :: w.journal) :
    t.called = w.called ++ e.call?.toList := by
  rw [called, h, filterMap_reverse_cons]
  rfl

end OneMore

theorem holds_shown_of_empty {w : Walk} (h : w.stray = "") {texts : Multiset String} :
    Holds w.shown texts ↔ Holds w.contents texts := by
  unfold shown
  rw [h]
  split
  · rw [List.append_nil]
  · exact holds_append_empty

end Walk

/-- A walk has put what it wrote, placed and called into what it shows.  The texts are told relative
to any that are held at its start, so that a text that is set aside keeps what it holds; the tool
calls are told of walks without problems, since a message that may not have any drops them. -/
structure Conveys (w t : Walk) : Prop where
  inArguments : t.inArguments = w.inArguments
  placed : w.placed.Sublist w.contents → t.placed.Sublist t.contents
  called : t.problems = [] → w.problems = [] ∧ (w.called = w.calls → t.called = t.calls)
  written : ∃ new : List String, t.written = w.written ++ new ∧
    ∀ held : Multiset String, Holds w.shown held → Holds t.shown (held + new)

section Changes

variable {u v w t : Walk}

theorem Conveys.trans (h : Conveys u v) (h' : Conveys v w) : Conveys u w := by
  obtain ⟨new, hnew, hholds⟩ := h.written
  obtain ⟨new', hnew', hholds'⟩ := h'.written
  refine ⟨h'.inArguments.trans h.inArguments, fun hp => h'.placed (h.placed hp), fun hw => ?_,
    new ++ new', by rw [hnew', hnew, List.append_assoc], fun held hheld => ?_⟩
  · obtain ⟨hv, hcalled'⟩ := h'.called hw
    obtain ⟨hu, hcalled⟩ := h.called hv
    exact ⟨hu, fun hc => hcalled' (hcalled hc)⟩
  · rw [← Multiset.coe_add, ← add_assoc]
    exact hholds' _ (hholds held hheld)

/-- A change that adds nothing to what is pending. -/
theorem Conveys.of_quiet (hjournal : ∃ new, t.journal = new ++ w.journal ∧ ∀ e ∈ new, e.IsQuiet)
    (hflag : t.inArguments = w.inArguments) (hcontents : w.contents.Sublist t.contents)
    (hcalls : t.problems = [] → w.problems = [] ∧ t.calls = w.calls)
    (hshown : ∀ held, Holds w.shown held → Holds t.shown held) : Conveys w t := by
  obtain ⟨new, hnew, hquiet⟩ := hjournal
  -- nothing in the new events is a text, a content item or a tool call
  have hwritten : t.written = w.written := by
    rw [Walk.written, hnew, filterMap_reverse_append fun e he => (hquiet e he).text]
    rfl
  have hplaced : t.placed = w.placed := by
    rw [Walk.placed, hnew, filterMap_reverse_append fun e he => (hquiet e he).content]
    rfl
  have hcalled : t.called = w.called := by
    rw [Walk.called, hnew, filterMap_reverse_append fun e he => (hquiet e he).call]
    rfl
  refine ⟨hflag, fun hp => hplaced ▸ hp.trans hcontents, fun ht => ?_, [], ?_, fun held hheld => ?_⟩
  · obtain ⟨hw, hsame⟩ := hcalls ht
    exact ⟨hw, fun hc => hcalled.trans (hc.trans hsame.symm)⟩
  · rw [hwritten, List.append_nil]
  · rw [Multiset.coe_nil, add_zero]
    exact hshown held hheld

/-- A change that leaves alone what is pending and what was said. -/
theorem Conveys.of_same (h : t = { w with
      statuses := t.statuses, scope := t.scope, responses := t.responses, inMessage := t.inMessage
      inContent := t.inContent, inStep := t.inStep, turns := t.turns, journal := t.journal })
    (hjournal : ∃ new, t.journal = new ++ w.journal ∧ ∀ e ∈ new, e.IsQuiet) : Conveys w t := by
  have hshown : t.shown = w.shown := by rw [h]; rfl
  have hcontents : t.contents = w.contents := by rw [h]; rfl
  have hcalls : t.calls = w.calls := by rw [h]; rfl
  have hproblems : t.problems = w.problems := by rw [h]
  have hflag : t.inArguments = w.inArguments := by rw [h]
  exact Conveys.of_quiet hjournal hflag (hcontents ▸ List.Sublist.refl _)
    (fun ht => ⟨hproblems ▸ ht, hcalls⟩) fun held hheld => hshown ▸ hheld

theorem exists_quiet (w : Walk) : ∃ new, w.journal = new ++ w.journal ∧ ∀ e ∈ new, e.IsQuiet :=
  ⟨[], rfl, List.forall_mem_nil _⟩

theorem exists_quiet_cons {e : Event} (he : e.IsQuiet) (w : Walk) :
    ∃ new, e :: w.journal = new ++ w.journal ∧ ∀ e ∈ new, e.IsQuiet :=
  ⟨[e], rfl, fun _ he' => List.mem_singleton.1 he' ▸ he⟩

theorem Conveys.refl (w : Walk) : Conveys w w :=
  Conveys.of_same rfl (exists_quiet w)

theorem Conveys.of_silent {id : Nat} {path : IterationPath} (h : Silent id path w t) :
    Conveys w t := by
  obtain ⟨new, hnew, hown⟩ := h.journal
  have hsame := h.same
  refine Conveys.of_same (by rw [hsame]) ⟨new, hnew, fun e he => ?_⟩
  exact Event.isQuiet_of_isEvaluation (hown e he).1

/-! ### Texts -/

theorem conveys_wrote (w : Walk) (id : Nat) (path : IterationPath) (text : String) :
    Conveys w { w with
      stray := w.stray ++ text, journal := .wrote id path w.inArguments text :: w.journal } := by
  set t : Walk := { w with
    stray := w.stray ++ text, journal := .wrote id path w.inArguments text :: w.journal } with ht
  have hjournal : t.journal = .wrote id path w.inArguments text :: w.journal := rfl
  have hplaced : t.placed = w.placed ++ [] := Walk.placed_of_cons hjournal
  have hcalled : t.called = w.called ++ [] := Walk.called_of_cons hjournal
  rw [List.append_nil] at hplaced hcalled
  refine ⟨rfl, fun hp => hplaced ▸ hp, fun hproblems => ⟨hproblems, fun hc => hcalled.trans hc⟩, _,
    Walk.written_of_cons hjournal, fun held hheld => ?_⟩
  unfold Walk.shown at hheld ⊢
  rw [ht]
  -- a text in the arguments of a tool call is no content, all others are pending behind it
  cases hflag : w.inArguments with
  | true =>
    rw [hflag] at hheld
    exact (add_zero held).symm ▸ hheld
  | false =>
    rw [hflag] at hheld
    refine Holds.add_last hheld fun pieces hpieces => ?_
    -- a text of white space alone changes no content
    rcases hblank : Text.allBlank text.toList with _ | _
    · have hnew : Event.text? (.wrote id path false text) = some text := by
        rw [Event.text?, hblank]
        rfl
      rw [hnew, Multiset.coe_add]
      exact Holds.of_madeOf (hpieces.text_append hblank)
    · have hnew : Event.text? (.wrote id path false text) = none := by
        rw [Event.text?, hblank]
        rfl
      rw [hnew, Option.toList_none, Multiset.coe_add, List.append_nil]
      exact Holds.of_madeOf (hpieces.text_append_blank hblank)

theorem conveys_closedText (w : Walk) : Conveys w w.closedText := by
  have hcontents : w.closedText.contents = w.contents ++ contentOf w.stray := by
    unfold Walk.contents Walk.closedText
    rw [List.append_assoc]
  refine Conveys.of_quiet (exists_quiet w) rfl ?_ (fun ht => ⟨ht, rfl⟩) fun held hheld => ?_
  · rw [hcontents]
    exact List.sublist_append_left _ _
  · rw [Walk.holds_shown_of_empty rfl, hcontents]
    unfold Walk.shown at hheld
    split at hheld
    · rw [List.append_nil] at hheld
      exact hheld.append_right _
    · exact hheld.replace_last fun _ hpieces => holds_contentOf hpieces

/-- The pending text becomes a piece of content of its own. -/
theorem conveys_placed (w : Walk) (id : Nat) (path : IterationPath) {c : Content}
    (hc : ∀ pieces, (Content.text w.stray).MadeOf pieces → c.MadeOf pieces) :
    Conveys w { w with
      stray := "", content := w.content ++ [c], journal := .placed id path c :: w.journal } := by
  set t : Walk := { w with
    stray := "", content := w.content ++ [c], journal := .placed id path c :: w.journal } with ht
  have hcontents : t.contents = w.contents ++ [c] := by
    unfold Walk.contents
    rw [ht, List.append_assoc]
  have hjournal : t.journal = .placed id path c :: w.journal := rfl
  have hplaced : t.placed = w.placed ++ [c] := Walk.placed_of_cons hjournal
  have hcalled : t.called = w.called ++ [] := Walk.called_of_cons hjournal
  refine ⟨rfl, fun hp => ?_, fun hproblems => ⟨hproblems, fun hcalls => ?_⟩, [],
    Walk.written_of_cons hjournal, fun held hheld => ?_⟩
  · rw [hplaced, hcontents]
    exact hp.append (List.Sublist.refl _)
  · rw [hcalled, List.append_nil]
    exact hcalls
  · rw [Walk.holds_shown_of_empty rfl, hcontents, Multiset.coe_nil]
    unfold Walk.shown at hheld
    -- in the arguments of a tool call the pending text is not shown, and the new item is
    split at hheld
    · rw [List.append_nil] at hheld
      rw [add_zero]
      exact hheld.append_right _
    · rw [add_zero]
      exact hheld.replace_last fun pieces hpieces => Holds.of_madeOf (hc pieces hpieces)

/-! ### Messages -/

/-- What is pending becomes a message. -/
theorem conveys_sent {role : Role} {m : Message} (hstray : w.stray = "")
    (hcontent : m.content = w.content) (hcalls : m.toolCalls = placedCalls role w.toolCalls) :
    Conveys w { w with
      content := [], toolCalls := [], messages := w.messages ++ [m]
      problems := w.problems ++ misplacedCalls role w.toolCalls } := by
  set t : Walk := { w with
    content := [], toolCalls := [], messages := w.messages ++ [m]
    problems := w.problems ++ misplacedCalls role w.toolCalls } with ht
  have hcontents : t.contents = w.contents := by
    simp [Walk.contents, ht, hcontent]
  refine Conveys.of_quiet (exists_quiet w) rfl (hcontents ▸ List.Sublist.refl _)
    (fun hproblems => ?_)
    fun held hheld => ?_
  · obtain ⟨hw, hnone⟩ := List.append_eq_nil_iff.1 (show w.problems ++ _ = [] from hproblems)
    refine ⟨hw, ?_⟩
    -- without a problem all calls are placed
    have hall : placedCalls role w.toolCalls = w.toolCalls.map PendingCall.call := by
      unfold placedCalls
      unfold misplacedCalls at hnone
      split
      · rfl
      · next hrole =>
        rw [if_neg hrole, List.map_eq_nil_iff] at hnone
        rw [hnone]
        rfl
    simp [Walk.calls, ht, hcalls, hall]
  · rw [Walk.holds_shown_of_empty (w := t) hstray, hcontents]
    exact (Walk.holds_shown_of_empty hstray).1 hheld

theorem conveys_closed (setting : Setting) (w : Walk) : Conveys w (w.closed setting) := by
  refine (conveys_closedText w).trans ?_
  unfold Walk.closed
  dsimp only
  split
  · next hnone =>
    obtain ⟨hcontent, hcalls⟩ := Bool.and_eq_true_iff.1 hnone
    have hcleared : w.cleared = w.closedText := by
      unfold Walk.cleared
      rw [Walk.closedText, ← List.isEmpty_iff.1 hcontent, ← List.isEmpty_iff.1 hcalls]
      rfl
    rw [hcleared]
    exact Conveys.refl _
  · exact conveys_sent (w := w.closedText) rfl rfl rfl

/-- A message is made of a response while nothing is pending. -/
theorem conveys_said (w : Walk) (scope : Scope) (m : Message) (hw : w.Settled)
    (hcalls : m.toolCalls = []) :
    Conveys w { w with scope := scope, messages := w.messages ++ [m] } := by
  set t : Walk := { w with scope := scope, messages := w.messages ++ [m] } with ht
  have hcontents : t.contents = w.contents ++ m.content := by
    simp [Walk.contents, ht, hw.content]
  have hsame : t.calls = w.calls := by
    simp [Walk.calls, ht, hcalls]
  refine Conveys.of_quiet (exists_quiet w) rfl ?_
    (fun hproblems => ⟨hproblems, hsame⟩) fun held hheld => ?_
  · rw [hcontents]
    exact List.sublist_append_left _ _
  · rw [Walk.holds_shown_of_empty (w := t) hw.stray, hcontents]
    exact ((Walk.holds_shown_of_empty hw.stray).1 hheld).append_right _

theorem conveys_called (w : Walk) (id : Nat) (path : IterationPath) (pending : PendingCall) :
    Conveys w { w with
      toolCalls := w.toolCalls ++ [pending]
      journal := .called id path pending.call :: w.journal } := by
  set t : Walk := { w with
    toolCalls := w.toolCalls ++ [pending]
    journal := .called id path pending.call :: w.journal } with ht
  have hjournal : t.journal = .called id path pending.call :: w.journal := rfl
  have hplaced : t.placed = w.placed ++ [] := Walk.placed_of_cons hjournal
  have hcalled : t.called = w.called ++ [pending.call] := Walk.called_of_cons hjournal
  have hcalls : t.calls = w.calls ++ [pending.call] := by
    simp [Walk.calls, ht]
  rw [List.append_nil] at hplaced
  refine ⟨rfl, fun hp => hplaced ▸ hp, fun hproblems => ⟨hproblems, fun hc => ?_⟩, [],
    Walk.written_of_cons hjournal, fun held hheld => ?_⟩
  · rw [hcalled, hcalls, hc]
  · exact (add_zero held).symm ▸ hheld

/-! ### Inside of messages, contents and tool calls -/

/-- What is inside of a message or of a piece of content writes into the content of messages, even
in the arguments of a tool call. -/
theorem Conveys.enclosed {inMessage inContent inMessage' inContent' : Bool}
    (h : Conveys { w with inMessage := inMessage, inContent := inContent, inArguments := false } t)
    (hw : w.stray = "") (ht : t.stray = "") :
    Conveys w
    { t with inMessage := inMessage', inContent := inContent', inArguments := w.inArguments } := by
  obtain ⟨new, hnew, hholds⟩ := h.written
  refine ⟨rfl, h.placed, h.called, new, hnew, fun held hheld => ?_⟩
  rw [Walk.holds_shown_of_empty (by exact ht)]
  refine (Walk.holds_shown_of_empty ht).1 (hholds held ?_)
  exact (Walk.holds_shown_of_empty (by exact hw)).2 ((Walk.holds_shown_of_empty hw).1 hheld)

/-- A text that is set aside in front of a tool call keeps what it holds. -/
theorem Conveys.captured (h : Conveys { w with stray := "", inArguments := true } t) :
    Conveys w { t with stray := w.stray, inArguments := w.inArguments } := by
  obtain ⟨new, hnew, hholds⟩ := h.written
  refine ⟨rfl, h.placed, h.called, new, hnew, fun held hheld => ?_⟩
  obtain ⟨before, aside, hbefore, haside, hall⟩ := holds_append.1 hheld
  have hinside : Holds t.shown (before + new) :=
    hholds before ((Walk.holds_shown_of_empty rfl).2 hbefore)
  have hflag : t.inArguments = true := h.inArguments
  unfold Walk.shown at hinside
  rw [hflag, if_pos rfl, List.append_nil] at hinside
  refine holds_append.2 ⟨before + new, aside, hinside, haside, ?_⟩
  rw [add_right_comm]
  exact add_le_add hall (le_refl _)

end Changes

/-- The law of a part of a walk that conveys what it does, and does so when it pauses as well. -/
def conveying : Law Interrupt Walk where
  done := Conveys
  stop w e t := ∀ config, e = .paused config → Conveys w t
  refl := Conveys.refl
  trans := Conveys.trans
  back h h' config he := h.trans (h' config he)

namespace Walking

variable {α : Type} {setting : Setting} {id : Nat} {path : IterationPath} {info : NodeInfo}
  {attributes : List Attribute} {act body otherwise : Walking Unit} {w : Walk}

/-! ### Parts of a walk -/

theorem conveying_of_silent {sure still : Prop} {x : Walking α}
    (h : Respects (silent id path sure still) x) : Respects conveying x := by
  refine Respects.weaken h (fun w t hd => Conveys.of_silent hd.1) ?_
  rintro w e t ⟨-, p, rfl, -⟩ config he
  exact nomatch he

theorem conveying_fail (fault : Fault) (info : NodeInfo) :
    Respects conveying (fail fault info : Walking α) :=
  Respects.throw fun _ _ he => nomatch he

/-- A part conveys what it does if a part of it does. -/
theorem conveying_around {u : Walk} {x y : Walking Unit} (h : RespectsAt conveying u x)
    (hstart : Conveys w u) (hrun : ∀ r t, runFrom u x = (r, t) →
      ∃ t', runFrom w y = (r, t') ∧ Conveys t t') : RespectsAt conveying w y := by
  rcases hx : runFrom u x with ⟨e | ⟨⟩, t⟩
  · obtain ⟨t', hy, hend⟩ := hrun _ t hx
    exact RespectsAt.of_error hy fun config he => (hstart.trans (h.stop hx config he)).trans hend
  · obtain ⟨t', hy, hend⟩ := hrun _ t hx
    exact RespectsAt.of_ok hy ((hstart.trans (h.done hx)).trans hend)

theorem conveying_inCopy (h : RespectsAt conveying w act) :
    RespectsAt conveying w (inCopy act) := by
  refine conveying_around h (Conveys.refl w) fun r t hact => ?_
  rcases r with e | ⟨⟩
  · exact ⟨t, runFrom_inCopy_error hact, Conveys.refl t⟩
  · exact ⟨_, runFrom_inCopy_ok hact, Conveys.of_same rfl (exists_quiet t)⟩

theorem conveying_entering {turn : Turn} (h : RespectsAt conveying (entered w turn) act) :
    RespectsAt conveying w (entering turn act) := by
  have hstart : Conveys w (entered w turn) :=
    Conveys.of_same rfl (exists_quiet_cons ⟨rfl, rfl, rfl⟩ w)
  refine conveying_around h hstart fun r t hact => ?_
  rcases r with e | ⟨⟩
  · exact ⟨t, runFrom_entering_error hact, Conveys.refl t⟩
  · exact ⟨_, runFrom_entering_ok hact, Conveys.of_same rfl (exists_quiet t)⟩

theorem conveying_onPause {record : Walk → Walk} (hrecord : ∀ t, Conveys t (record t))
    (h : RespectsAt conveying w act) : RespectsAt conveying w (onPause record act) := by
  refine conveying_around h (Conveys.refl w) fun r t hact => ?_
  rcases r with (config | p) | ⟨⟩
  · exact ⟨_, runFrom_onPause_paused hact, hrecord t⟩
  · exact ⟨t, runFrom_onPause_failed hact, Conveys.refl t⟩
  · exact ⟨t, runFrom_onPause_ok hact, Conveys.refl t⟩

theorem conveying_visiting (h : RespectsAt conveying (w.enter id path) act) :
    RespectsAt conveying w (visiting id path act) := by
  rcases hover : w.statuses.completed id path with _ | _
  · have hstart : Conveys w (w.enter id path) := by
      unfold Walk.enter
      split
      · exact Conveys.of_same rfl (exists_quiet w)
      · exact Conveys.of_same rfl (exists_quiet w)
    refine conveying_around h hstart fun r t hact => ?_
    rcases r with (config | p) | ⟨⟩
    · exact ⟨_, runFrom_visiting_paused hover hact, Conveys.of_same rfl (exists_quiet t)⟩
    · exact ⟨t, runFrom_visiting_failed hover hact, Conveys.refl t⟩
    · exact ⟨_, runFrom_visiting_ok hover hact, Conveys.of_same rfl (exists_quiet t)⟩
  · exact RespectsAt.of_ok (runFrom_visiting_over hover) (Conveys.refl w)

theorem conveying_write (id : Nat) (path : IterationPath) (text : String) :
    Respects conveying (write id path text) :=
  fun w => RespectsAt.of_ok rfl (conveys_wrote w id path text)

theorem conveying_mustache (setting : Setting) (id : Nat) (path : IterationPath) (e : Expr) :
    Respects conveying (mustache setting id path e) := by
  refine Respects.bind (conveying_of_silent (silent_evaluate setting id path e)) fun v => ?_
  cases v with
  | undefined => exact Respects.pure _
  | _ =>
    dsimp only
    split
    · exact Respects.pure _
    · exact conveying_write id path _

theorem conveying_report (fault : Fault) (start stop : Nat) :
    Respects conveying (report fault start stop) := by
  refine Respects.modify fun w =>
    Conveys.of_quiet (exists_quiet w) rfl (List.Sublist.refl _) (fun ht => ?_)
    fun _ hheld => hheld
  exact nomatch (List.append_eq_nil_iff.1 ht).2

/-! ### Blocks -/

theorem conveying_ifBlock {condition : Expr} (hbody : Respects conveying body)
    (hotherwise : Respects conveying otherwise) :
    Respects conveying (ifBlock setting id path condition body otherwise) := by
  refine Respects.bind (conveying_of_silent (silent_takesBranch setting id path condition))
    fun taken w => ?_
  refine conveying_onPause (fun t => Conveys.of_same rfl (exists_quiet t)) (conveying_entering ?_)
  cases taken with
  | true => exact conveying_inCopy (hbody _)
  | false => exact hotherwise _

section Loops

variable {header : ForHeader} {items : List Value} {inner : IterationPath → Walking Unit}

theorem conveying_iteration (hinner : ∀ path, Respects conveying (inner path)) (i : Nat)
    (resumed : Option Value) (item : Value) :
    Respects conveying (iteration setting id path header items inner i resumed item) := by
  have hset : Respects (silent id path False False) (setVariable header.item item) :=
    silent_setVariable header.item item
  refine fun w => conveying_entering (conveying_inCopy (Respects.bind ?_ (fun _ => ?_) _))
  · exact conveying_of_silent hset
  · refine Respects.bind (conveying_of_silent (silent_setIndex setting id path header i resumed))
      fun v t => ?_
    exact conveying_onPause (fun t => Conveys.of_same rfl (exists_quiet t)) (hinner _ t)

theorem conveying_iterations (hinner : ∀ path, Respects conveying (inner path)) (i : Nat)
    (resumed : Option Value) (rest : List Value) :
    Respects conveying (iterations setting id path header items inner i resumed rest) := by
  induction rest generalizing i resumed with
  | nil => exact Respects.pure _
  | cons item rest ih =>
    exact Respects.bind (conveying_iteration hinner i resumed item) fun _ => ih (i + 1) none

theorem conveying_forBlock (hinner : ∀ path, Respects conveying (inner path))
    (hotherwise : Respects conveying otherwise) :
    Respects conveying (forBlock setting info path header inner otherwise) := by
  have hnames : Respects (silent info.id path False False) (checkNames info header) :=
    silent_checkNames info header
  refine Respects.bind (conveying_of_silent hnames) fun _ => ?_
  refine Respects.bind (conveying_of_silent (silent_takeItems setting info.id path header.iterable))
    fun loop w => ?_
  split
  · exact conveying_entering (hotherwise _)
  · exact conveying_iterations hinner _ _ _ w

end Loops

/-! ### Elements -/

theorem runFrom_enclosed {there back : Walk → Walk} {r : Except Interrupt Unit} {t : Walk}
    (h : runFrom { there w with inArguments := false } body = (r, t)) :
    runFrom w (within there back (inArguments false body)) =
      (r, back { t with inArguments := (there w).inArguments }) := by
  rw [runFrom_within, runFrom_inArguments, h]

theorem conveying_message {role : Option Role} (hbody : Respects conveying body)
    (hnever : ∀ u config t, u.inMessage = true → runFrom u body ≠ (.error (.paused config), t)) :
    Respects conveying (message setting info path role attributes body) := by
  refine Respects.bind (Respects.look _) fun inMessage => ?_
  split
  · exact conveying_fail _ info
  · refine Respects.bind (conveying_of_silent (Node.silent_values setting info.id path attributes))
      fun values => ?_
    have hrole : Respects (silent info.id path False False) (messageRole info role values) :=
      silent_messageRole info role values
    refine Respects.bind (conveying_of_silent hrole) fun role => ?_
    dsimp only
    generalize (if role = Role.tool then textOf? values "id" else none) = toolId
    split
    · exact conveying_fail _ info
    · intro w
      have hclose := runFrom_closeMessage w setting
      refine RespectsAt.bind (RespectsAt.of_ok hclose (conveys_closed setting w)) fun _ v hv _ => ?_
      -- the message before is sent, so that nothing is pending where the new one starts
      obtain rfl : w.closed setting = v := (Prod.mk.inj (hclose.symm.trans hv)).2
      have hsettled := Walk.settled_closed setting w
      generalize w.closed setting = v at hsettled
      rcases hin : runFrom { v with inMessage := true, inArguments := false } body with ⟨e | ⟨⟩, t⟩
      -- no step waits in a message, so that the body does not pause
      · refine RespectsAt.of_error (runFrom_bind_error (runFrom_enclosed hin) _) fun config he => ?_
        exact absurd (he ▸ hin) (hnever _ config t rfl)
      · refine RespectsAt.of_ok ((runFrom_bind_ok (runFrom_enclosed hin) _).trans
          ((runFrom_bind_ok (runFrom_takeContent _) _).trans
            (runFrom_bind_ok (runFrom_placeToolCalls _ _ _) _))) ?_
        -- what the body wrote is sent with the message, in the order it was written
        have hinner :
          Conveys { v with inMessage := true, inContent := v.inContent, inArguments := false } t :=
          (hbody _).done hin
        have hsent := hinner.trans ((conveys_closedText t).trans
          (conveys_sent (m := ⟨role, t.closedText.content, textOf? values "name", toolId,
            placedCalls role t.toolCalls⟩) rfl rfl rfl))
        exact hsent.enclosed hsettled.stray rfl

/-- A piece of content is placed, or it is an image without an address. -/
theorem runFrom_placeContent (w : Walk) (info : NodeInfo) (path : IterationPath)
    (kind : ContentKind) (text : String) :
    (∃ p, runFrom w (placeContent info path kind text) = (.error (.failed p), w)) ∨
      ∃ c : Content, c.body = text ∧ runFrom w (placeContent info path kind text) =
        (.ok (), { w with
          content := w.content ++ [c], journal := .placed info.id path c :: w.journal }) := by
  cases kind with
  | text => exact .inr ⟨.text text, rfl, rfl⟩
  | image =>
    unfold placeContent
    dsimp only
    split
    · exact .inl ⟨_, rfl⟩
    · exact .inr ⟨.image text, rfl, rfl⟩

theorem conveying_contentTag {kind : ContentKind} (hbody : Respects conveying body)
    (hempty : ∀ u config t, u.inContent = true → runFrom u body = (.error (.paused config), t) →
      t.stray = "") :
    Respects conveying (contentTag setting info path kind attributes body) := by
  refine Respects.bind (Respects.look _) fun inContent => ?_
  split
  · exact conveying_fail _ info
  · refine Respects.bind (conveying_of_silent (Node.silent_values setting info.id path attributes))
      fun _ w => ?_
    have hclose := runFrom_closeText w
    refine RespectsAt.bind (RespectsAt.of_ok hclose (conveys_closedText w)) fun _ v hv _ => ?_
    -- the pending text becomes an item of its own in front of this tag
    obtain rfl : w.closedText = v := (Prod.mk.inj (hclose.symm.trans hv)).2
    have hstray : w.closedText.stray = "" := rfl
    generalize w.closedText = v at hstray
    have hinner : RespectsAt conveying
        { v with inMessage := v.inMessage, inContent := true, inArguments := false } body := hbody _
    rcases hin : runFrom { v with inContent := true, inArguments := false } body with ⟨e | ⟨⟩, t⟩
    -- a pause inside leaves no text behind in a content tag
    · refine RespectsAt.of_error (runFrom_bind_error (runFrom_enclosed hin) _) fun config he => ?_
      exact (hinner.stop hin config he).enclosed hstray (hempty _ config t rfl (he ▸ hin))
    · rw [RespectsAt, runFrom_bind_ok (runFrom_enclosed hin), runFrom_bind_ok (runFrom_look _ _),
        runFrom_bind_ok (runFrom_modify _ _)]
      rcases runFrom_placeContent _ info path kind _ with ⟨p, hp⟩ | ⟨c, hc, hplaced⟩
      · rw [hp]
        intro config he
        cases he
      · rw [hplaced]
        -- an item differs from what was written at most by white space
        have hdense : Text.dense c.body.toList = Text.dense t.stray.toList := by
          rw [hc, String.toList_ofList, Text.dense_removeCommonIndent]
        exact ((hinner.done hin).trans
          (conveys_placed t info.id path fun pieces h => h.congr hdense)).enclosed hstray rfl

theorem conveying_toolArguments (info : NodeInfo) (text : String) :
    Respects conveying (toolArguments info text) := by
  unfold toolArguments
  dsimp only
  split
  · exact Respects.pure _
  · split
    · exact Respects.pure _
    · exact Respects.bind (conveying_report _ _ _) fun _ => Respects.pure _

theorem conveying_call (id : Nat) (path : IterationPath) (pending : PendingCall) :
    Respects conveying (call id path pending) :=
  fun w => RespectsAt.of_ok rfl (conveys_called w id path pending)

theorem conveying_toolCall (hbody : Respects conveying body) :
    Respects conveying (toolCall setting info path attributes body) := by
  refine Respects.bind (Respects.look _) fun inContent => ?_
  split
  · exact conveying_fail _ info
  · refine Respects.bind (conveying_of_silent (Node.silent_values setting info.id path attributes))
      fun values => ?_
    split
    · exact conveying_fail _ info
    · exact conveying_fail _ info
    · refine Respects.bind (fun w => ?_) fun text =>
        Respects.bind (conveying_toolArguments info text) fun _ => conveying_call info.id path _
      -- the text around is set aside; what the body writes are arguments
      have hinner : RespectsAt conveying { w with stray := "", inArguments := true } body := hbody _
      rcases hin : runFrom { w with stray := "", inArguments := true } body with ⟨e | ⟨⟩, t⟩
      · have hout : runFrom { w with stray := "" } (inArguments true body) =
            (.error e, { t with inArguments := w.inArguments }) := by
          rw [runFrom_inArguments, hin]
        refine RespectsAt.of_error (runFrom_captured_error hout) fun config he => ?_
        exact (hinner.stop hin config he).captured
      · have hout : runFrom { w with stray := "" } (inArguments true body) =
            (.ok (), { t with inArguments := w.inArguments }) := by
          rw [runFrom_inArguments, hin]
        exact RespectsAt.of_ok (runFrom_captured_ok hout) (hinner.done hin).captured

theorem conveying_takeResponse (name : Option String) (config : Fields Json) :
    Respects conveying (takeResponse setting id path name config) := by
  intro w
  rcases hw : w.responses with _ | ⟨response, rest⟩
  · refine RespectsAt.of_error (runFrom_takeResponse_nil hw) fun _ _ => ?_
    exact (conveys_closed setting w).trans
      (Conveys.of_same rfl (exists_quiet_cons ⟨rfl, rfl, rfl⟩ (w.closed setting)))
  · refine RespectsAt.of_ok (runFrom_takeResponse_cons hw) ?_
    have hstart : Conveys w (answered id path response rest w) :=
      Conveys.of_same rfl (exists_quiet_cons ⟨rfl, rfl, rfl⟩ w)
    have hsettled := Walk.settled_closed setting (answered id path response rest w)
    exact (hstart.trans (conveys_closed setting _)).trans
      (conveys_said _ _ (.ofResponse response) hsettled rfl)

theorem conveying_step (hbody : Respects conveying body) :
    Respects conveying (step setting info path attributes body) := by
  refine Respects.bind (Respects.look _) fun inStep => ?_
  split
  · exact conveying_fail _ info
  · refine Respects.bind (Respects.look _) fun inMessage => ?_
    split
    · exact conveying_fail _ info
    · have hname : Respects (silent info.id path False False) (stepName attributes) :=
        silent_stepName False.elim
      have hconfig : Respects (silent info.id path False False)
          (stepConfig setting info.id path attributes) :=
        silent_stepConfig setting info.id path False.elim False.elim
      refine Respects.bind (conveying_of_silent hname) fun name => ?_
      refine Respects.bind (conveying_of_silent hconfig) fun config => ?_
      refine Respects.bind (fun w => ?_) fun _ => conveying_takeResponse name config
      -- the body is walked once; behind it the step takes its response or pauses
      have hstart : Conveys w { w with inStep := true } := Conveys.of_same rfl (exists_quiet w)
      refine conveying_around (hbody _) hstart fun r t hact => ?_
      exact ⟨{ t with inStep := false }, by rw [runFrom_within, hact],
        Conveys.of_same rfl (exists_quiet t)⟩

theorem conveying_element {name : String} (hbody : Respects conveying body)
    (hnever : ∀ u config t, u.inMessage = true → runFrom u body ≠ (.error (.paused config), t))
    (hempty : ∀ u config t, u.inContent = true → runFrom u body = (.error (.paused config), t) →
      t.stray = "") :
    Respects conveying (element setting info path name attributes body) := by
  unfold element
  cases TagKind.ofName name with
  | message role => exact conveying_message hbody hnever
  | content kind => exact conveying_contentTag hbody hempty
  | toolCall => exact conveying_toolCall hbody
  | reference =>
    dsimp only
    split
    · exact conveying_fail _ info
    · exact conveying_fail _ info
  | step => exact conveying_step hbody
  | unknown => exact Respects.bind (conveying_report _ _ _) fun _ => hbody

end Walking

/-! ### Nodes -/

namespace Node

variable {setting : Setting} {path : IterationPath}

theorem conveys_walkAll {ns : List Node} (h : ∀ n ∈ ns, Respects conveying (n.walk setting path)) :
    Respects conveying (walkAll setting ns path) := by
  induction ns with
  | nil => exact Respects.pure _
  | cons n rest ih =>
    exact Respects.bind (h n List.mem_cons_self) fun _ => ih fun m hm =>
      h m (List.mem_cons_of_mem _ hm)

theorem conveys_walkElse {o : Option Node}
    (h : ∀ n ∈ o.toList, Respects conveying (n.walk setting path)) :
    Respects conveying (walkElse setting o path) := by
  cases o with
  | none => exact Respects.pure _
  | some n => exact h n (List.mem_singleton.2 rfl)

/-- Whatever the visit of a node writes, places or calls is in messages or pending at its end, even
if the visit pauses. -/
theorem conveys_walk (n : Node) (path : IterationPath) :
    Respects conveying (n.walk setting path) := by
  -- the induction is on the tree
  induction n using Node.induct generalizing path with
  | step n ih =>
    have hact : Respects conveying (n.act setting path) := by
      cases n with
      | fragment info children =>
        exact fun w => conveying_inCopy (conveys_walkAll (fun m hm => ih m hm path) w)
      | config info value raw => exact Respects.pure _
      | comment info data => exact Respects.pure _
      | text info data => exact conveying_write info.id path data
      | mustache info e => exact conveying_mustache setting info.id path e
      | ifBlock info condition elseIf children otherwise =>
        exact conveying_ifBlock (conveys_walkAll fun m hm => ih m (List.mem_append_left _ hm) path)
          (conveys_walkElse fun m hm => ih m (List.mem_append_right _ hm) path)
      | forBlock info header children otherwise =>
        exact conveying_forBlock
          (fun inner => conveys_walkAll fun m hm => ih m (List.mem_append_left _ hm) inner)
          (conveys_walkElse fun m hm => ih m (List.mem_append_right _ hm) path)
      | element info name attributes children =>
        refine conveying_element
          (conveys_walkAll fun m hm => ih m hm path) (fun u config t hu hrun => ?_)
          fun u config t hu hrun => ?_
        -- an element that holds a step does not pause in a message, and one that pauses in a
        -- content tag has sent its text
        · exact nomatch hu.symm.trans (outside_of_walkAll hrun).1
        · obtain ⟨-, -, id, inner, turns, -, -, hsafe⟩ :=
            flushed_among (n := .element info name attributes children) (List.Subset.refl _)
              (fun m _ => m.flushed_of_walk) (pausesAmong_of_walkAll hrun)
          exact hsafe (.inl hu)
    rw [walk_eq]
    exact fun w => conveying_visiting (hact _)

end Node

/-! ### Chains -/

/-- Everything that was placed or called by the given events is in the given messages, and so is
every text that was written, unless a step has waited inside of a tool call. -/
structure Delivered (root : Node) (events : List Event) (messages : List Message) : Prop where
  placed : (events.filterMap Event.content?).Sublist (messages.flatMap Message.content)
  called : events.filterMap Event.call? = messages.flatMap Message.toolCalls
  written : root.AsksOutside events →
    Holds (messages.flatMap Message.content) (events.filterMap Event.text? : List String)

theorem Delivered.append {root : Node} {l r : List Event} {early late : List Message}
    (h : Delivered root l early) (h' : Delivered root r late) :
    Delivered root (l ++ r) (early ++ late) := by
  refine ⟨?_, ?_, fun houtside => ?_⟩
  · rw [List.filterMap_append, List.flatMap_append]
    exact h.placed.append h'.placed
  · rw [List.filterMap_append, List.flatMap_append, h.called, h'.called]
  · obtain ⟨hl, hr⟩ := Node.asksOutside_append.1 houtside
    rw [List.filterMap_append, List.flatMap_append]
    exact holds_append.2 ⟨_, _, h.written hl, h'.written hr, le_of_eq (Multiset.coe_add _ _).symm⟩

section Ends

variable {root : Node} {statuses : Statuses} {scope : Scope} {responses : List String} {t : Walk}

/-- Every text that a walk has written is in its messages or in the text that is pending at its end.
-/
theorem holds_of_conveys (h : Conveys (Walk.start statuses scope responses) t)
    (hcontent : t.content = []) :
    Holds (t.messages.flatMap Message.content ++ [.text t.stray])
      (t.journal.reverse.filterMap Event.text? : List String) := by
  obtain ⟨new, hnew, hholds⟩ := h.written
  have hwritten : t.journal.reverse.filterMap Event.text? = new := hnew
  have hflag : t.inArguments = false := h.inArguments
  have hall : Holds t.shown (0 + (new : Multiset String)) :=
    hholds 0 (holds_nil.append_right [.text ""])
  rw [zero_add] at hall
  rw [hwritten]
  unfold Walk.shown Walk.contents at hall
  rwa [hcontent, List.append_nil, hflag, if_neg Bool.false_ne_true] at hall

/-- What a walk without problems has delivered at whose end nothing is pending. -/
theorem delivered_of_conveys (h : Conveys (Walk.start statuses scope responses) t)
    (hproblems : t.problems = []) (hcontent : t.content = []) (htoolCalls : t.toolCalls = [])
    (hstray : root.AsksOutside t.journal.reverse → t.stray = "") :
    Delivered root t.journal.reverse t.messages := by
  have hcontents : t.contents = t.messages.flatMap Message.content := by
    rw [Walk.contents, hcontent, List.append_nil]
  have hcalls : t.calls = t.messages.flatMap Message.toolCalls := by
    rw [Walk.calls, htoolCalls, List.map_nil, List.append_nil]
  refine ⟨?_, ?_, fun houtside => ?_⟩
  · rw [← hcontents]
    exact h.placed (List.Sublist.refl _)
  · rw [← hcalls]
    exact (h.called hproblems).2 rfl
  · have hall := holds_of_conveys h hcontent
    rw [hstray houtside] at hall
    exact holds_append_empty.1 hall

end Ends

namespace Chain

variable {chain next : Chain} {setting : Setting} {text : String} {parameters : Fields Value}
  {response : Option String} {result : StepResult} {responses : List String}

/-- What is pending where a walk of a chain comes out of a pause. -/
theorem flushed_of_visit {config : Fields Json} {t : Walk}
    (h : chain.visit responses = (.error (.paused config), t)) :
    t.content = [] ∧ t.toolCalls = [] ∧
      (chain.template.root.AsksOutside t.journal.reverse → t.stray = "") := by
  obtain ⟨hcontent, htoolCalls, id, path, turns, hasked, -, hsafe⟩ :=
    Node.flushed_of_walk _ (Template.paused_of_visitRoot h)
  refine ⟨hcontent, htoolCalls, fun houtside => hsafe (.inr ?_)⟩
  intro m hm hcall e he
  obtain rfl := List.mem_singleton.1 he
  exact houtside m hm hcall _ (List.mem_reverse.2 (List.mem_of_head? hasked))

theorem conveys_visit (chain : Chain) (responses : List String) :
    RespectsAt conveying (chain.opening responses) (chain.template.visitRoot chain.setting) :=
  (Node.conveys_walk chain.template.root [] _).bind fun _ t _ _ =>
    RespectsAt.of_ok (runFrom_closeMessage t chain.setting) (conveys_closed chain.setting t)

/-- What a walk of a chain has delivered that had no problem. -/
theorem delivered_visit {outcome : Outcome} (h : Ends (chain.visit responses) outcome) :
    Delivered chain.template.root outcome.journal outcome.messages := by
  rcases hvisit : chain.visit responses with ⟨r, t⟩
  rw [hvisit] at h
  cases h with
  | completed hproblems =>
    have hsettled : t.Settled := by
      obtain ⟨⟨⟩, s, -, hs⟩ := runFrom_bind_eq_ok hvisit
      obtain rfl : s.closed chain.setting = t :=
        (Prod.mk.inj ((runFrom_closeMessage s chain.setting).symm.trans hs)).2
      exact Walk.settled_closed chain.setting s
    exact delivered_of_conveys ((chain.conveys_visit responses).done hvisit) hproblems
      hsettled.content
      hsettled.toolCalls fun _ => hsettled.stray
  | @paused config _ hproblems =>
    obtain ⟨hcontent, htoolCalls, hstray⟩ := flushed_of_visit hvisit
    exact delivered_of_conveys ((chain.conveys_visit responses).stop hvisit config rfl)
      hproblems hcontent
      htoolCalls hstray

/-- After any calls everything that a chain has done so far is in its messages. -/
theorem delivered_calls [ConfigReader] (hstart : Chain.start setting text parameters = .ok chain)
    (earlier : List (Option String)) :
    Delivered chain.template.root (chain.calls earlier).journal (chain.calls earlier).messages := by
  have hfirst : Delivered chain.template.root chain.journal chain.messages := by
    obtain ⟨t, -, rfl⟩ := start_eq_ok hstart
    exact ⟨List.Sublist.refl _, rfl, fun _ => holds_nil⟩
  refine (calls_invariant (P := fun later => later.template = chain.template ∧
    Delivered chain.template.root later.journal later.messages) ?_ ⟨rfl, hfirst⟩ earlier).2
  rintro later response ⟨htemplate, hdelivered⟩
  refine ⟨(template_call later response).trans htemplate, ?_⟩
  rcases call_cases later response with ⟨outcome, -, hwalk, hcall⟩ | hcall
  · rw [hcall]
    exact hdelivered.append (htemplate ▸ delivered_visit (walk_eq_ok.1 hwalk))
  · rwa [hcall]

/-- Where a chain pauses no content and no tool call is pending, and no text unless the step that
waits stands in a tool call.  Every text of the call is in its messages or in the text that is
pending.  All pieces of content and all tool calls so far are in messages that the chain has given,
and so are all texts, unless a step has waited inside of a tool call. -/
theorem pause_flushes [ConfigReader] (hstart : Chain.start setting text parameters = .ok chain)
    (earlier : List (Option String))
    (hstep : (chain.calls earlier).step response = .ok (result, next))
    (hpaused : result.completed = false) :
    ∃ config t, (chain.calls earlier).visit response.toList = (.error (.paused config), t) ∧
      t.content = [] ∧ t.toolCalls = [] ∧
      (chain.template.root.AsksOutside t.journal.reverse → t.stray = "") ∧
      Holds (t.messages.flatMap Message.content ++ [.text t.stray])
        (t.journal.reverse.filterMap Event.text? : List String) ∧
      next.journal = (chain.calls earlier).journal ++ t.journal.reverse ∧
      result.conversation.messages = (chain.calls earlier).messages ++ t.messages ∧
      Delivered chain.template.root next.journal result.conversation.messages := by
  obtain ⟨-, outcome, hwalk, rfl, hmessages, hcompleted⟩ := step_eq_ok hstep
  have hends := walk_eq_ok.1 hwalk
  -- all calls before have delivered what they rendered, and so does this one
  have hdelivered := delivered_visit hends
  obtain ⟨config, t, ht, -, rfl⟩ := paused_of_advance hends (hcompleted.symm.trans hpaused)
  obtain ⟨hcontent, htoolCalls, hstray⟩ := flushed_of_visit ht
  have hconveys := ((chain.calls earlier).conveys_visit response.toList).stop ht config rfl
  rw [template_calls] at hdelivered hstray
  refine ⟨config, t, ht, hcontent, htoolCalls, hstray, holds_of_conveys hconveys hcontent, rfl,
    hmessages, ?_⟩
  rw [hmessages]
  exact (delivered_calls hstart earlier).append hdelivered

/-- A step in a loop, behind a text, an image and a tool call. -/
def stepBehindContents : String :=
  braced "for x in [1, 2]" ++ "Item " ++ braced "x" ++ "<image>a.png</image>" ++
    "<tool-call id='1' name='f' /><step />" ++ braced "endfor"

theorem pause_flushes_stepBehindContents :
    ∃ chain result next, Chain.start plainSetting stepBehindContents [] = .ok chain ∧
      (chain.calls [none]).step (some "r") = .ok (result, next) ∧ result.completed = false ∧
      chain.template.root.AsksOutside next.journal ∧
      next.journal.filterMap Event.text? = ["Item ", "1", "a.png", "Item ", "2", "a.png"] ∧
      (next.journal.filterMap Event.call?).length = 2 ∧
      ∃ config t, (chain.calls [none]).visit ["r"] = (.error (.paused config), t) ∧
        t.content = [] ∧ t.toolCalls = [] ∧
        (chain.template.root.AsksOutside t.journal.reverse → t.stray = "") ∧
        Holds (t.messages.flatMap Message.content ++ [.text t.stray])
          (t.journal.reverse.filterMap Event.text? : List String) ∧
        next.journal = (chain.calls [none]).journal ++ t.journal.reverse ∧
        result.conversation.messages = (chain.calls [none]).messages ++ t.messages ∧
        Delivered chain.template.root next.journal result.conversation.messages := by
  have hcheck : ((Chain.start plainSetting stepBehindContents []).toOption.any fun chain =>
      ((chain.calls [none]).step (some "r")).toOption.any fun (result, next) =>
        result.completed = false ∧ chain.template.root.AsksOutside next.journal ∧
          next.journal.filterMap Event.text? = ["Item ", "1", "a.png", "Item ", "2", "a.png"] ∧
          (next.journal.filterMap Event.call?).length = 2) = true := by
    decide +kernel
  obtain ⟨chain, hstart, hany⟩ := exists_ok_of_any hcheck
  obtain ⟨⟨result, next⟩, hstep, hall⟩ := exists_ok_of_any hany
  obtain ⟨hpaused, houtside, htexts, hcalls⟩ := of_decide_eq_true hall
  exact ⟨chain, result, next, hstart, hstep, hpaused, houtside, htexts, hcalls,
    pause_flushes hstart [none] hstep hpaused⟩

/-- A text in front of a tool call in which a step waits. -/
def textBeforeToolCall : String :=
  "hello<tool-call id='1' name='f'><step /></tool-call>"

/-- The text is pending where the walk comes out of the pause, and it is in no message, not even
when the chain has completed. -/
theorem pause_loses_text :
    ∃ chain result next, Chain.start plainSetting textBeforeToolCall [] = .ok chain ∧
      chain.step none = .ok (result, next) ∧ result.completed = false ∧
      (chain.visit []).2.stray = "hello" ∧ next.journal.filterMap Event.text? = ["hello"] ∧
      result.conversation.messages.map Message.text = [] ∧
      ∃ result' last, next.step (some "r") = .ok (result', last) ∧ result'.completed = true ∧
        result'.conversation.messages.map Message.text = ["r", ""] := by
  have hcheck : ((Chain.start plainSetting textBeforeToolCall []).toOption.any fun chain =>
      (chain.step none).toOption.any fun (result, next) =>
        decide (result.completed = false ∧ (chain.visit []).2.stray = "hello" ∧
          next.journal.filterMap Event.text? = ["hello"] ∧
          result.conversation.messages.map Message.text = []) &&
        (next.step (some "r")).toOption.any fun (result', _) =>
          result'.completed = true ∧ result'.conversation.messages.map Message.text = ["r", ""]) =
            true := by
    decide +kernel
  obtain ⟨chain, hstart, hany⟩ := exists_ok_of_any hcheck
  obtain ⟨⟨result, next⟩, hstep, hboth⟩ := exists_ok_of_any hany
  obtain ⟨hfirst, hsecond⟩ := Bool.and_eq_true_iff.1 hboth
  obtain ⟨hpaused, hstray, htexts, hmessages⟩ := of_decide_eq_true hfirst
  obtain ⟨⟨result', last⟩, hnext, hlast⟩ := exists_ok_of_any hsecond
  obtain ⟨hcompleted, hend⟩ := of_decide_eq_true hlast
  exact ⟨chain, result, next, hstart, hstep, hpaused, hstray, htexts, hmessages, result', last,
    hnext, hcompleted, hend⟩

end Chain

end PromptMarkup

/-
The order of content.

What a walk writes into the content of messages comes out of it in the order in which it was
written, white space left out.

* `Node.Stands` — where the parts of a node stand: in the arguments of a tool call, or in content;
* `Ordered` — a walk has added what it wrote behind what it had said before;
* `Node.orders_walk` — the visit of a node does so if no tag for content stands in a tool call;
* `compile_in_order` — the contents of a conversation that came to its end are the texts in their
  order;
* `compile_swaps` — prompts whose contents come in another order.

Design notes: a message and a piece of content send off the text that is pending in front of them.
A tool call sets that text aside, so that a tag for content inside of it finds the beginning of the
arguments instead.  `Walk.said` leaves the pending text out in arguments, where nothing may be sent
off.
-/
import PromptMarkup.Proofs.Flushing
import PromptMarkup.Yaml.Document

namespace PromptMarkup

open PromptMarkup.Computation Walking

/-! ### Places -/

/-- What is written in a piece of content, without white space. -/
def Content.told (c : Content) : List Char :=
  Text.dense c.body.toList

/-- A tag for a message or for a piece of content. -/
def TagKind.opensContent : TagKind → Bool
  | message _ | content _ => true
  | _ => false

/-- Whether what is directly inside of a tag stands in the arguments of a tool call, by whether the
tag itself does. -/
def TagKind.passes (inArguments : Bool) : TagKind → Bool
  | message _ | content _ => false
  | toolCall => true
  | _ => inArguments

namespace Node

/-- An element for a message or for a piece of content. -/
def opensContent : Node → Bool
  | element _ name _ _ => (TagKind.ofName name).opensContent
  | _ => false

/-- Whether what is directly inside of a node stands in the arguments of a tool call, by whether the
node itself does. -/
def passes (inArguments : Bool) : Node → Bool
  | element _ name _ _ => (TagKind.ofName name).passes inArguments
  | _ => inArguments

/-- Which nodes stand in a node, and whether they stand in the arguments of a tool call: one
encloses them, and no tag for content stands in between. -/
inductive Stands : Node → Bool → Node → Bool → Prop
  | self (n : Node) (inArguments : Bool) : Stands n inArguments n inArguments
  | inside {n m x : Node} {inArguments flag : Bool} (hm : m ∈ n.childNodes)
      (hx : Stands m (n.passes inArguments) x flag) : Stands n inArguments x flag

/-- No tag for content stands in a tool call. -/
def CallsHoldTexts (n : Node) : Prop :=
  ∀ m ∈ n.nodes, m.isToolCall = true → ∀ x ∈ m.nodes, x.opensContent = false

instance (n : Node) : Decidable n.CallsHoldTexts :=
  inferInstanceAs
    (Decidable (∀ m ∈ n.nodes, m.isToolCall = true → ∀ x ∈ m.nodes, x.opensContent = false))

/-- No tag for content stands in a tool call, also if the node itself stands in one. -/
structure KeepsOrder (inArguments : Bool) (n : Node) : Prop where
  calls : n.CallsHoldTexts
  arguments : inArguments = true → ∀ x ∈ n.nodes, x.opensContent = false

theorem KeepsOrder.child {inArguments : Bool} {n m : Node} (h : n.KeepsOrder inArguments)
    (hm : m ∈ n.childNodes) : m.KeepsOrder (n.passes inArguments) := by
  refine ⟨fun x hx => h.calls x (mem_nodes_of_child hm hx), fun hpass x hx => ?_⟩
  have hin : x ∈ n.nodes := mem_nodes_of_child hm hx
  cases n with
  | element info name attributes children =>
    replace hpass : (TagKind.ofName name).passes inArguments = true := hpass
    cases hkind : TagKind.ofName name with
    | toolCall => exact h.calls _ (mem_nodes_self _) (beq_iff_eq.2 hkind) x hin
    | message role =>
      rw [hkind] at hpass
      exact nomatch hpass
    | content kind =>
      rw [hkind] at hpass
      exact nomatch hpass
    | _ =>
      rw [hkind] at hpass
      exact h.arguments hpass x hin
  | _ => exact h.arguments hpass x hin

/-- A tag for content does not stand in arguments then. -/
theorem KeepsOrder.eq_false {inArguments : Bool} {n : Node} (h : n.KeepsOrder inArguments)
    (hn : n.opensContent = true) : inArguments = false := by
  cases inArguments with
  | false => rfl
  | true => exact nomatch hn.symm.trans (h.arguments rfl n (mem_nodes_self n))

end Node

namespace Event

/-- What was written into the content of messages, without white space. -/
def told : Event → List Char
  | wrote _ _ false text => Text.dense text.toList
  | _ => []

/-- A text was written into arguments, or into content, as the place of its node says. -/
def Fits (places : Node → Bool → Prop) : Event → Prop
  | wrote id _ inArguments _ => ∃ n, places n inArguments ∧ n.id = id
  | _ => True

theorem Fits.weaken {places places' : Node → Bool → Prop} {e : Event} (h : e.Fits places)
    (hplaces : ∀ n flag, places n flag → places' n flag) : e.Fits places' := by
  cases e with
  | wrote id path inArguments text =>
    obtain ⟨n, hn, hid⟩ := h
    exact ⟨n, hplaces n _ hn, hid⟩
  | _ => trivial

/-- An event by which nothing was written. -/
structure IsMute (places : Node → Bool → Prop) (e : Event) : Prop where
  told : e.told = []
  fits : e.Fits places

theorem isMute_of_isEvaluation {places : Node → Bool → Prop} {e : Event}
    (h : e.isEvaluation = true) :
    e.IsMute places := by
  cases e with
  | evaluated node path span names => exact ⟨rfl, .intro⟩
  | _ => exact nomatch h

end Event

/-- What events have written into the content of messages; the events are listed last first. -/
def toldIn (events : List Event) : List Char :=
  events.reverse.flatMap Event.told

theorem toldIn_append (late early : List Event) :
    toldIn (late ++ early) = toldIn early ++ toldIn late := by
  rw [toldIn, List.reverse_append, List.flatMap_append]
  rfl

theorem toldIn_of_isMute {places : Node → Bool → Prop} {events : List Event}
    (h : ∀ e ∈ events, e.IsMute places) : toldIn events = [] :=
  List.flatMap_eq_nil_iff.2 fun e he => (h e (List.mem_reverse.1 he)).told

/-! ### What a walk has said -/

/-- What is in messages, in contents and in the pending text if it is going to be one. -/
def Walk.said (w : Walk) : List Char :=
  w.contents.flatMap Content.told ++ if w.inArguments then [] else Text.dense w.stray.toList

theorem flatMap_told_contentOf (s : String) :
    (contentOf s).flatMap Content.told = Text.dense s.toList := by
  unfold contentOf
  dsimp only
  split
  · next hempty =>
    exact (Text.dense_eq_nil.2 (Text.removeCommonIndent_eq_nil.1 (List.isEmpty_iff.1 hempty))).symm
  · simp [Content.told, Content.body, Text.dense_removeCommonIndent]

/-- A walk has added what it wrote behind what it had said before.  This holds under the condition
`orderly`, of walks without responses: a step that takes one makes a message of it, which nothing in
the prompt wrote. -/
structure Ordered (places : Node → Bool → Prop) (orderly : Prop) (w t : Walk) : Prop where
  inArguments : t.inArguments = w.inArguments
  responses : w.responses = [] → t.responses = []
  journal : ∃ new, t.journal = new ++ w.journal ∧ (∀ e ∈ new, e.Fits places) ∧
    (orderly → w.responses = [] → t.said = w.said ++ toldIn new ∧
      (w.inArguments = true → t.contents = w.contents))

section Changes

variable {places places' : Node → Bool → Prop} {orderly orderly' : Prop} {u v w t : Walk}

theorem Ordered.trans (h : Ordered places orderly u v) (h' : Ordered places orderly v w) :
    Ordered places orderly u w := by
  obtain ⟨new, hnew, hfits, hsaid⟩ := h.journal
  obtain ⟨new', hnew', hfits', hsaid'⟩ := h'.journal
  refine ⟨h'.inArguments.trans h.inArguments, fun hu => h'.responses (h.responses hu), new' ++ new,
    by rw [hnew', hnew, List.append_assoc], fun e he => ?_, fun horderly hu => ?_⟩
  · rcases List.mem_append.1 he with he | he
    · exact hfits' e he
    · exact hfits e he
  · obtain ⟨hs, hc⟩ := hsaid horderly hu
    obtain ⟨hs', hc'⟩ := hsaid' horderly (h.responses hu)
    constructor
    · rw [hs', hs, toldIn_append, List.append_assoc]
    · intro hflag
      exact (hc' (h.inArguments.trans hflag)).trans (hc hflag)

theorem Ordered.weaken (h : Ordered places orderly w t)
    (hplaces : ∀ n flag, places n flag → places' n flag)
    (horderly : orderly' → orderly) : Ordered places' orderly' w t := by
  obtain ⟨new, hnew, hfits, hsaid⟩ := h.journal
  exact ⟨h.inArguments, h.responses, new, hnew, fun e he => (hfits e he).weaken hplaces,
    fun ho => hsaid (horderly ho)⟩

/-- A change that says nothing new. -/
theorem Ordered.of_mute (hjournal : ∃ new, t.journal = new ++ w.journal ∧
    ∀ e ∈ new, e.IsMute places)
    (hflag : t.inArguments = w.inArguments) (hresponses : w.responses = [] → t.responses = [])
    (hsaid : orderly → t.said = w.said ∧ (w.inArguments = true → t.contents = w.contents)) :
    Ordered places orderly w t := by
  obtain ⟨new, hnew, hmute⟩ := hjournal
  refine ⟨hflag, hresponses, new, hnew, fun e he => (hmute e he).fits, fun horderly _ => ?_⟩
  rw [toldIn_of_isMute hmute, List.append_nil]
  exact hsaid horderly

/-- A change that leaves alone what was said. -/
theorem Ordered.of_same (h : t = { w with
      statuses := t.statuses, scope := t.scope, inMessage := t.inMessage, inContent := t.inContent
      inStep := t.inStep, turns := t.turns, problems := t.problems, toolCalls := t.toolCalls
      journal := t.journal })
    (hjournal : ∃ new, t.journal = new ++ w.journal ∧ ∀ e ∈ new, e.IsMute places) :
    Ordered places orderly w t := by
  have hsaid : t.said = w.said := by rw [h]; rfl
  have hcontents : t.contents = w.contents := by rw [h]; rfl
  exact Ordered.of_mute hjournal (by rw [h]) (fun hw => by rw [h]; exact hw)
    fun _ => ⟨hsaid, fun _ => hcontents⟩

theorem exists_mute (places : Node → Bool → Prop) (w : Walk) :
    ∃ new, w.journal = new ++ w.journal ∧ ∀ e ∈ new, e.IsMute places :=
  ⟨[], rfl, List.forall_mem_nil _⟩

theorem exists_mute_cons (e : Event) (he : e.IsMute places) (w : Walk) :
    ∃ new, e :: w.journal = new ++ w.journal ∧ ∀ e ∈ new, e.IsMute places :=
  ⟨[e], rfl, fun _ he' => List.mem_singleton.1 he' ▸ he⟩

theorem Ordered.refl (w : Walk) : Ordered places orderly w w :=
  Ordered.of_same rfl (exists_mute places w)

theorem Ordered.of_silent {id : Nat} {path : IterationPath} (h : Silent id path w t) :
    Ordered places orderly w t := by
  obtain ⟨new, hnew, hown⟩ := h.journal
  have hsame := h.same
  refine Ordered.of_same (by rw [hsame]) ⟨new, hnew, fun e he => ?_⟩
  exact Event.isMute_of_isEvaluation (hown e he).1

theorem ordered_wrote (w : Walk) {n : Node} (hn : places n w.inArguments) (path : IterationPath)
    (text : String) : Ordered places orderly w { w with
      stray := w.stray ++ text, journal := .wrote n.id path w.inArguments text :: w.journal } := by
  refine ⟨rfl, fun hw => hw, [.wrote n.id path w.inArguments text], rfl, fun e he => ?_,
    fun _ _ => ⟨?_, ?_⟩⟩
  · obtain rfl := List.mem_singleton.1 he
    exact ⟨n, hn, rfl⟩
  · cases hflag : w.inArguments with
    | true => simp [Walk.said, Walk.contents, hflag, toldIn, Event.told]
    | false =>
      simp [Walk.said, Walk.contents, hflag, toldIn, Event.told, String.toList_append,
        Text.dense_append]
  · exact fun _ => rfl

/-- The pending text becomes a piece of content, outside of arguments. -/
theorem ordered_closedText (w : Walk) (hfree : orderly → w.inArguments = false) :
    Ordered places orderly w w.closedText := by
  refine Ordered.of_mute (exists_mute places w) rfl (fun hw => hw) fun horderly => ?_
  have hflag : w.inArguments = false := hfree horderly
  refine ⟨?_, fun htrue => nomatch hflag.symm.trans htrue⟩
  simp [Walk.said, Walk.contents, Walk.closedText, hflag, flatMap_told_contentOf, Text.dense]

/-- What is pending becomes a message. -/
theorem ordered_sent {m : Message} (toolCalls : List PendingCall) (problems : List Problem)
    (hcontent : m.content = w.content) : Ordered places orderly w { w with
      content := [], toolCalls := toolCalls, messages := w.messages ++ [m]
      problems := problems } := by
  refine Ordered.of_mute (exists_mute places w) rfl (fun hw => hw) fun _ => ⟨?_, fun _ => ?_⟩
  · simp [Walk.said, Walk.contents, hcontent]
  · simp [Walk.contents, hcontent]

theorem ordered_closed (setting : Setting) (w : Walk) (hfree : orderly → w.inArguments = false) :
    Ordered places orderly w (w.closed setting) := by
  refine (ordered_closedText w hfree).trans ?_
  unfold Walk.closed
  dsimp only
  split
  · next hnone =>
    obtain ⟨hcontent, hcalls⟩ := Bool.and_eq_true_iff.1 hnone
    have hcleared : w.cleared = w.closedText := by
      unfold Walk.cleared
      rw [Walk.closedText, ← List.isEmpty_iff.1 hcontent, ← List.isEmpty_iff.1 hcalls]
      rfl
    rw [hcleared]
    exact Ordered.refl _
  · exact ordered_sent (w := w.closedText) _ _ rfl

/-- The pending text becomes a piece of content of its own. -/
theorem ordered_placed (w : Walk) (id : Nat) (path : IterationPath) {c : Content}
    (hc : Text.dense c.body.toList = Text.dense w.stray.toList) (hflag : w.inArguments = false) :
    Ordered places orderly w { w with
      stray := "", content := w.content ++ [c], journal := .placed id path c :: w.journal } := by
  refine Ordered.of_mute (exists_mute_cons (.placed id path c) ⟨rfl, trivial⟩ w) rfl
    (fun hw => hw) fun _ => ?_
  refine ⟨?_, fun htrue => nomatch hflag.symm.trans htrue⟩
  simp [Walk.said, Walk.contents, hflag, Content.told, hc,
    Text.dense_eq_nil.2 (show Text.allBlank [] = true from rfl)]

/-- What a message or a piece of content holds is said outside of it, if it does not stand in
arguments. -/
theorem Ordered.enclosed {inMessage inContent inMessage' inContent' : Bool}
    (h : Ordered places orderly
      { w with inMessage := inMessage, inContent := inContent, inArguments := false } t)
    (hfree : orderly → w.inArguments = false) :
    Ordered places orderly w { t with
      inMessage := inMessage', inContent := inContent', inArguments := w.inArguments } := by
  obtain ⟨new, hnew, hfits, hsaid⟩ := h.journal
  refine ⟨rfl, h.responses, new, hnew, hfits, fun horderly hw => ?_⟩
  have hflag : w.inArguments = false := hfree horderly
  refine ⟨?_, fun htrue => nomatch hflag.symm.trans htrue⟩
  have hout := (hsaid horderly hw).1
  have hinside : t.inArguments = false := h.inArguments
  unfold Walk.said at hout ⊢
  rw [hinside] at hout
  rw [hflag]
  exact hout

/-- The body of a tool call says nothing. -/
theorem Ordered.captured
    (h : Ordered places orderly { w with stray := "", inArguments := true } t) :
    Ordered places orderly w { t with stray := w.stray, inArguments := w.inArguments } := by
  obtain ⟨new, hnew, hfits, hsaid⟩ := h.journal
  refine ⟨rfl, h.responses, new, hnew, hfits, fun horderly hw => ?_⟩
  obtain ⟨hout, hcontents⟩ := hsaid horderly hw
  have hsame : t.contents = w.contents := hcontents rfl
  have hinside : t.inArguments = true := h.inArguments
  -- in arguments all that was said is in contents, and these have not changed
  have hnone : toldIn new = [] := by
    unfold Walk.said at hout
    rw [hinside, hsame] at hout
    have hcancel : w.contents.flatMap Content.told ++ [] =
        w.contents.flatMap Content.told ++ [] ++ toldIn new := hout
    rw [List.append_nil] at hcancel
    exact List.self_eq_append_right.1 hcancel
  refine ⟨?_, fun _ => hsame⟩
  rw [hnone, List.append_nil]
  show t.contents.flatMap Content.told ++ _ = w.contents.flatMap Content.told ++ _
  rw [hsame]

end Changes

/-- The law of a part of a walk that says what it writes in order.  Nothing is said about a walk
that stops. -/
def ordering (places : Node → Bool → Prop) (orderly : Prop) : Law Interrupt Walk where
  done := Ordered places orderly
  stop _ _ _ := True
  refl := Ordered.refl
  trans := Ordered.trans
  back _ _ := trivial

namespace Walking

variable {α β : Type} {places : Node → Bool → Prop} {orderly : Prop} {setting : Setting} {id : Nat}
  {path : IterationPath} {info : NodeInfo} {attributes : List Attribute}
  {act body otherwise : Walking Unit} {w : Walk} {flag : Bool}

/-- A part of a walk says what it writes in order where it stands in arguments, or where it does
not. -/
def Orders (places : Node → Bool → Prop) (orderly : Prop) (flag : Bool) (x : Walking α) : Prop :=
  ∀ w, w.inArguments = flag → RespectsAt (ordering places orderly) w x

theorem orders_of_respects {x : Walking α} (h : Respects (ordering places orderly) x) :
    Orders places orderly flag x :=
  fun w _ => h w

theorem orders_pure (a : α) : Orders places orderly flag (pure a : Walking α) :=
  orders_of_respects (Respects.pure a)

theorem orders_look (part : Walk → α) : Orders places orderly flag (look part : Walking α) :=
  orders_of_respects (Respects.look part)

theorem Orders.bind {x : Walking α} {f : α → Walking β} (hx : Orders places orderly flag x)
    (hf : ∀ a, Orders places orderly flag (f a)) : Orders places orderly flag (x >>= f) :=
  fun w hw => (hx w hw).bind fun a t _ ht => hf a t (ht.inArguments.trans hw)

theorem Orders.weaken {places' : Node → Bool → Prop} {orderly' : Prop} {x : Walking α}
    (h : Orders places orderly flag x) (hplaces : ∀ n flag, places n flag → places' n flag)
    (horderly : orderly' → orderly) : Orders places' orderly' flag x :=
  fun w hw => (h w hw).weaken (fun _ ht => ht.weaken hplaces horderly) fun _ _ _ => trivial

theorem orders_of_silent {sure still : Prop} {x : Walking α}
    (h : Respects (silent id path sure still) x) : Orders places orderly flag x :=
  fun w _ => (h w).weaken (fun _ hd => Ordered.of_silent hd.1) fun _ _ _ => trivial

theorem orders_fail (fault : Fault) (info : NodeInfo) :
    Orders places orderly flag (fail fault info : Walking α) :=
  fun _ _ => trivial

/-! ### Parts of a walk -/

/-- A part says what it writes in order if a part of it does. -/
theorem ordering_around {u : Walk} {x y : Walking Unit}
    (h : RespectsAt (ordering places orderly) u x)
    (hstart : Ordered places orderly w u) (hrun : ∀ r t, runFrom u x = (r, t) →
      ∃ t', runFrom w y = (r, t') ∧ Ordered places orderly t t') :
    RespectsAt (ordering places orderly) w y := by
  rcases hx : runFrom u x with ⟨e | ⟨⟩, t⟩
  · obtain ⟨t', hy, -⟩ := hrun _ t hx
    exact RespectsAt.of_error hy trivial
  · obtain ⟨t', hy, hend⟩ := hrun _ t hx
    exact RespectsAt.of_ok hy ((hstart.trans (h.done hx)).trans hend)

theorem orders_inCopy (h : Orders places orderly flag act) :
    Orders places orderly flag (inCopy act) := by
  refine fun w hw => ordering_around (h w hw) (Ordered.refl w) fun r t hact => ?_
  rcases r with e | ⟨⟩
  · exact ⟨t, runFrom_inCopy_error hact, Ordered.refl t⟩
  · exact ⟨_, runFrom_inCopy_ok hact, Ordered.of_same rfl (exists_mute places t)⟩

theorem orders_entering {turn : Turn} (h : Orders places orderly flag act) :
    Orders places orderly flag (entering turn act) := by
  intro w hw
  have hstart : Ordered places orderly w (entered w turn) :=
    Ordered.of_same rfl (exists_mute_cons (.entered turn) ⟨rfl, trivial⟩ w)
  refine ordering_around (h (entered w turn) hw) hstart fun r t hact => ?_
  rcases r with e | ⟨⟩
  · exact ⟨t, runFrom_entering_error hact, Ordered.refl t⟩
  · exact ⟨_, runFrom_entering_ok hact, Ordered.of_same rfl (exists_mute places t)⟩

theorem orders_onPause {record : Walk → Walk} (hrecord : ∀ t, Ordered places orderly t (record t))
    (h : Orders places orderly flag act) : Orders places orderly flag (onPause record act) := by
  refine fun w hw => ordering_around (h w hw) (Ordered.refl w) fun r t hact => ?_
  rcases r with (config | p) | ⟨⟩
  · exact ⟨_, runFrom_onPause_paused hact, hrecord t⟩
  · exact ⟨t, runFrom_onPause_failed hact, Ordered.refl t⟩
  · exact ⟨t, runFrom_onPause_ok hact, Ordered.refl t⟩

theorem orders_visiting (h : Orders places orderly flag act) :
    Orders places orderly flag (visiting id path act) := by
  intro w hw
  rcases hover : w.statuses.completed id path with _ | _
  · have hstart : Ordered places orderly w (w.enter id path) := by
      unfold Walk.enter
      split
      · exact Ordered.of_same rfl (exists_mute places w)
      · exact Ordered.of_same rfl (exists_mute places w)
    refine ordering_around (h _ (hstart.inArguments.trans hw)) hstart fun r t hact => ?_
    rcases r with (config | p) | ⟨⟩
    · exact ⟨_, runFrom_visiting_paused hover hact, Ordered.of_same rfl (exists_mute places t)⟩
    · exact ⟨t, runFrom_visiting_failed hover hact, Ordered.refl t⟩
    · exact ⟨_, runFrom_visiting_ok hover hact, Ordered.of_same rfl (exists_mute places t)⟩
  · exact RespectsAt.of_ok (runFrom_visiting_over hover) (Ordered.refl w)

theorem orders_write {n : Node} (hn : places n flag) (path : IterationPath) (text : String) :
    Orders places orderly flag (write n.id path text) :=
  fun w hw => RespectsAt.of_ok rfl (ordered_wrote w (hw ▸ hn) path text)

theorem orders_mustache {n : Node} (hn : places n flag) (path : IterationPath) (e : Expr) :
    Orders places orderly flag (mustache setting n.id path e) := by
  refine (orders_of_silent (silent_evaluate setting n.id path e)).bind fun v => ?_
  cases v with
  | undefined => exact orders_pure _
  | _ =>
    dsimp only
    split
    · exact orders_pure _
    · exact orders_write hn path _

theorem orders_report (fault : Fault) (start stop : Nat) :
    Orders places orderly flag (report fault start stop) :=
  fun w _ => RespectsAt.of_ok rfl (Ordered.of_same rfl (exists_mute places w))

/-! ### Blocks -/

theorem orders_ifBlock {condition : Expr} (hbody : Orders places orderly flag body)
    (hotherwise : Orders places orderly flag otherwise) :
    Orders places orderly flag (ifBlock setting id path condition body otherwise) := by
  refine (orders_of_silent (silent_takesBranch setting id path condition)).bind fun taken => ?_
  refine orders_onPause (fun t => Ordered.of_same rfl (exists_mute places t)) (orders_entering ?_)
  cases taken with
  | true => exact orders_inCopy hbody
  | false => exact hotherwise

section Loops

variable {header : ForHeader} {items : List Value} {inner : IterationPath → Walking Unit}

theorem orders_iteration (hinner : ∀ path, Orders places orderly flag (inner path)) (i : Nat)
    (resumed : Option Value) (item : Value) :
    Orders places orderly flag (iteration setting id path header items inner i resumed item) := by
  have hset : Respects (silent id path False False) (setVariable header.item item) :=
    silent_setVariable header.item item
  refine orders_entering (orders_inCopy ((orders_of_silent hset).bind fun _ => ?_))
  refine (orders_of_silent (silent_setIndex setting id path header i resumed)).bind fun v => ?_
  exact orders_onPause (fun t => Ordered.of_same rfl (exists_mute places t)) (hinner _)

theorem orders_iterations (hinner : ∀ path, Orders places orderly flag (inner path)) (i : Nat)
    (resumed : Option Value) (rest : List Value) :
    Orders places orderly flag (iterations setting id path header items inner i resumed rest) := by
  induction rest generalizing i resumed with
  | nil => exact orders_pure _
  | cons item rest ih =>
    exact (orders_iteration hinner i resumed item).bind fun _ => ih (i + 1) none

theorem orders_forBlock (hinner : ∀ path, Orders places orderly flag (inner path))
    (hotherwise : Orders places orderly flag otherwise) :
    Orders places orderly flag (forBlock setting info path header inner otherwise) := by
  have hnames : Respects (silent info.id path False False) (checkNames info header) :=
    silent_checkNames info header
  refine (orders_of_silent hnames).bind fun _ => ?_
  refine (orders_of_silent (silent_takeItems setting info.id path header.iterable)).bind
    fun loop => ?_
  split
  · exact orders_entering hotherwise
  · exact orders_iterations hinner _ _ _

end Loops

/-! ### Elements -/

theorem orders_message {role : Option Role} (hfree : orderly → flag = false)
    (hbody : Orders places orderly false body) :
    Orders places orderly flag (message setting info path role attributes body) := by
  refine (orders_look _).bind fun inMessage => ?_
  split
  · exact orders_fail _ info
  · refine (orders_of_silent (Node.silent_values setting info.id path attributes)).bind
      fun values => ?_
    have hrole : Respects (silent info.id path False False) (messageRole info role values) :=
      silent_messageRole info role values
    refine (orders_of_silent hrole).bind fun role => ?_
    dsimp only
    generalize (if role = Role.tool then textOf? values "id" else none) = toolId
    split
    · exact orders_fail _ info
    -- a message starts with nothing pending: what was is sent first
    · refine Orders.bind (fun w hw => ?_) fun _ v hv => ?_
      · exact RespectsAt.of_ok (runFrom_closeMessage w setting)
          (ordered_closed setting w fun ho => hw.trans (hfree ho))
      · rcases hin : runFrom { v with inMessage := true, inArguments := false } body with
          ⟨e | ⟨⟩, t⟩
        · exact RespectsAt.of_error (runFrom_bind_error (runFrom_enclosed hin) _) trivial
        · refine RespectsAt.of_ok ((runFrom_bind_ok (runFrom_enclosed hin) _).trans
            ((runFrom_bind_ok (runFrom_takeContent _) _).trans
              (runFrom_bind_ok (runFrom_placeToolCalls _ _ _) _))) ?_
          -- in a message no text is an argument
          have hinner : Ordered places orderly
              { v with inMessage := true, inContent := v.inContent, inArguments := false } t :=
            (hbody _ rfl).done hin
          have hsent := hinner.trans ((ordered_closedText t fun _ => hinner.inArguments).trans
            (ordered_sent (m := ⟨role, t.closedText.content, textOf? values "name", toolId,
              placedCalls role t.toolCalls⟩) [] (t.problems ++ misplacedCalls role t.toolCalls)
              rfl))
          exact hsent.enclosed fun ho => hv.trans (hfree ho)

theorem orders_contentTag {kind : ContentKind} (hfree : orderly → flag = false)
    (hbody : Orders places orderly false body) :
    Orders places orderly flag (contentTag setting info path kind attributes body) := by
  refine (orders_look _).bind fun inContent => ?_
  split
  · exact orders_fail _ info
  · refine (orders_of_silent (Node.silent_values setting info.id path attributes)).bind fun _ => ?_
    refine Orders.bind (fun w hw => ?_) fun _ v hv => ?_
    · exact RespectsAt.of_ok (runFrom_closeText w)
        (ordered_closedText w fun ho => hw.trans (hfree ho))
    · rcases hin : runFrom { v with inContent := true, inArguments := false } body with ⟨e | ⟨⟩, t⟩
      · exact RespectsAt.of_error (runFrom_bind_error (runFrom_enclosed hin) _) trivial
      -- in a content tag no text is an argument either
      · have hinner : Ordered places orderly
            { v with inMessage := v.inMessage, inContent := true, inArguments := false } t :=
          (hbody _ rfl).done hin
        rw [RespectsAt, runFrom_bind_ok (runFrom_enclosed hin), runFrom_bind_ok (runFrom_look _ _),
          runFrom_bind_ok (runFrom_modify _ _)]
        rcases runFrom_placeContent _ info path kind _ with ⟨p, hp⟩ | ⟨c, hc, hplaced⟩
        · rw [hp]
          trivial
        · rw [hplaced]
          -- indents and ends are white space, which is not told
          have hdense : Text.dense c.body.toList = Text.dense t.stray.toList := by
            rw [hc, String.toList_ofList, Text.dense_removeCommonIndent]
          exact (hinner.trans (ordered_placed t info.id path hdense hinner.inArguments)).enclosed
            fun ho => hv.trans (hfree ho)

theorem orders_toolArguments (info : NodeInfo) (text : String) :
    Orders places orderly flag (toolArguments info text) := by
  unfold toolArguments
  dsimp only
  split
  · exact orders_pure _
  · split
    · exact orders_pure _
    · exact (orders_report _ _ _).bind fun _ => orders_pure _

theorem orders_toolCall (hbody : Orders places orderly true body) :
    Orders places orderly flag (toolCall setting info path attributes body) := by
  refine (orders_look _).bind fun inContent => ?_
  split
  · exact orders_fail _ info
  · refine (orders_of_silent (Node.silent_values setting info.id path attributes)).bind
      fun values => ?_
    split
    · exact orders_fail _ info
    · exact orders_fail _ info
    · refine Orders.bind (fun w _ => ?_) fun text =>
        (orders_toolArguments info text).bind fun _ => fun w _ => ?_
      -- what the body writes are arguments, whatever stands around the tag
      · have hinner : RespectsAt (ordering places orderly)
            { w with stray := "", inArguments := true } body := hbody _ rfl
        rcases hin : runFrom { w with stray := "", inArguments := true } body with ⟨e | ⟨⟩, t⟩
        · have hout : runFrom { w with stray := "" } (inArguments true body) =
              (.error e, { t with inArguments := w.inArguments }) := by
            rw [runFrom_inArguments, hin]
          exact RespectsAt.of_error (runFrom_captured_error hout) trivial
        · have hout : runFrom { w with stray := "" } (inArguments true body) =
              (.ok (), { t with inArguments := w.inArguments }) := by
            rw [runFrom_inArguments, hin]
          exact RespectsAt.of_ok (runFrom_captured_ok hout) (hinner.done hin).captured
      · exact RespectsAt.of_ok rfl (Ordered.of_same rfl
          (exists_mute_cons (.called _ _ _) ⟨rfl, trivial⟩ w))

theorem orders_takeResponse (name : Option String) (config : Fields Json) :
    Orders places orderly flag (takeResponse setting id path name config) := by
  intro w _
  rcases hw : w.responses with _ | ⟨response, rest⟩
  · exact RespectsAt.of_error (runFrom_takeResponse_nil hw) trivial
  · refine RespectsAt.of_ok (runFrom_takeResponse_cons hw) ?_
    have hnone : w.responses ≠ [] := hw ▸ List.cons_ne_nil response rest
    refine ⟨?_, fun h => absurd h hnone, [.answered id path w.turns response], ?_, fun e he => ?_,
      fun _ h => absurd h hnone⟩
    · unfold replied
      rw [Walk.closed_eq]
      rfl
    · unfold replied
      rw [Walk.closed_eq]
      rfl
    · obtain rfl := List.mem_singleton.1 he
      trivial

theorem orders_step (hbody : Orders places orderly flag body) :
    Orders places orderly flag (step setting info path attributes body) := by
  refine (orders_look _).bind fun inStep => ?_
  split
  · exact orders_fail _ info
  · refine (orders_look _).bind fun inMessage => ?_
    split
    · exact orders_fail _ info
    · have hname : Respects (silent info.id path False False) (stepName attributes) :=
        silent_stepName False.elim
      have hconfig : Respects (silent info.id path False False)
          (stepConfig setting info.id path attributes) :=
        silent_stepConfig setting info.id path False.elim False.elim
      refine (orders_of_silent hname).bind fun name =>
        (orders_of_silent hconfig).bind fun config => ?_
      refine Orders.bind (fun w hw => ?_) fun _ => orders_takeResponse name config
      -- the body of a step is walked in the place of the step
      have hstart : Ordered places orderly w { w with inStep := true } :=
        Ordered.of_same rfl (exists_mute places w)
      refine ordering_around (hbody { w with inStep := true } hw) hstart fun r t hact => ?_
      exact ⟨{ t with inStep := false }, by rw [runFrom_within, hact],
        Ordered.of_same rfl (exists_mute places t)⟩

/-- An element hands on whether it stands in arguments, or begins content or arguments of its own.
-/
theorem orders_element {name : String}
    (hfree : orderly → (TagKind.ofName name).opensContent = true → flag = false)
    (hbody : Orders places orderly ((TagKind.ofName name).passes flag) body) :
    Orders places orderly flag (element setting info path name attributes body) := by
  unfold element
  cases hkind : TagKind.ofName name with
  | message role =>
    rw [hkind] at hfree hbody
    exact orders_message (fun ho => hfree ho rfl) hbody
  | content kind =>
    rw [hkind] at hfree hbody
    exact orders_contentTag (fun ho => hfree ho rfl) hbody
  | toolCall =>
    rw [hkind] at hbody
    exact orders_toolCall hbody
  | reference =>
    dsimp only
    split
    · exact orders_fail _ info
    · exact orders_fail _ info
  | step =>
    rw [hkind] at hbody
    exact orders_step hbody
  | unknown =>
    rw [hkind] at hbody
    exact (orders_report _ _ _).bind fun _ => hbody

end Walking

/-! ### Nodes -/

namespace Node

variable {setting : Setting} {path : IterationPath} {flag : Bool}

theorem orders_walkAll {places : Node → Bool → Prop} {orderly : Prop} {ns : List Node}
    (h : ∀ n ∈ ns, Orders places orderly flag (n.walk setting path)) :
    Orders places orderly flag (walkAll setting ns path) := by
  induction ns with
  | nil => exact orders_pure _
  | cons n rest ih =>
    exact (h n List.mem_cons_self).bind fun _ => ih fun m hm => h m (List.mem_cons_of_mem _ hm)

theorem orders_walkElse {places : Node → Bool → Prop} {orderly : Prop} {o : Option Node}
    (h : ∀ n ∈ o.toList, Orders places orderly flag (n.walk setting path)) :
    Orders places orderly flag (walkElse setting o path) := by
  cases o with
  | none => exact orders_pure _
  | some n => exact h n (List.mem_singleton.2 rfl)

/-- The visit of a node adds what it writes behind what was said before, if no tag for content
stands in a tool call. -/
theorem orders_walk (n : Node) (flag : Bool) (path : IterationPath) :
    Orders (n.Stands flag) (n.KeepsOrder flag) flag (n.walk setting path) := by
  induction n using Node.induct generalizing flag path with
  | step n ih =>
    -- the induction is on the tree, with the flag that says whether texts are arguments here
    -- what stands below a child stands below the node
    have hchild : ∀ m ∈ n.childNodes, ∀ inner,
        Orders (n.Stands flag) (n.KeepsOrder flag) (n.passes flag) (m.walk setting inner) :=
      fun m hm inner => (ih m hm (n.passes flag) inner).weaken (fun _ _ => .inside hm) fun h =>
        h.child hm
    have hself : n.Stands flag n flag := .self n flag
    have hact : Orders (n.Stands flag) (n.KeepsOrder flag) flag (n.act setting path) := by
      cases n with
      | fragment info children => exact orders_inCopy (orders_walkAll fun m hm => hchild m hm path)
      | config info value raw => exact orders_pure _
      | comment info data => exact orders_pure _
      | text info data => exact orders_write hself path data
      | mustache info e => exact orders_mustache hself path e
      | ifBlock info condition elseIf children otherwise =>
        exact orders_ifBlock (orders_walkAll fun m hm => hchild m (List.mem_append_left _ hm) path)
          (orders_walkElse fun m hm => hchild m (List.mem_append_right _ hm) path)
      | forBlock info header children otherwise =>
        exact orders_forBlock
          (fun inner => orders_walkAll fun m hm => hchild m (List.mem_append_left _ hm) inner)
          (orders_walkElse fun m hm => hchild m (List.mem_append_right _ hm) path)
      | element info name attributes children =>
        exact orders_element (fun h => h.eq_false) (orders_walkAll fun m hm => hchild m hm path)
    rw [walk_eq]
    exact orders_visiting hact

end Node

/-! ### Conversations -/

theorem Walk.Settled.said {w : Walk} (h : w.Settled) :
    w.said = (w.messages.flatMap Message.content).flatMap Content.told := by
  have hnone : Text.dense "".toList = [] := by decide
  unfold Walk.said Walk.contents
  rw [h.content, h.stray, hnone, ite_self, List.append_nil, List.append_nil]

/-- What a walk to the end of a template has said.  Every text was written where its node stands.
All texts that were written into content are in the messages; if no tag for content stands in a tool
call, the messages hold these texts one behind the other, and nothing else. -/
structure Template.Rendered (t : Template) (outcome : Outcome) : Prop where
  fits : ∀ id path inArguments text, Event.wrote id path inArguments text ∈ outcome.journal →
    ∃ n, t.root.Stands false n inArguments ∧ n.id = id
  complete : Holds (outcome.messages.flatMap Message.content)
    (outcome.journal.filterMap Event.text? : List String)
  inOrder : t.root.CallsHoldTexts →
    (outcome.messages.flatMap Message.content).flatMap Content.told =
      outcome.journal.flatMap Event.told

theorem Template.rendered_of_walk {t : Template} {setting : Setting} {statuses : Statuses}
    {scope : Scope} {outcome : Outcome} (h : t.walk setting statuses scope [] = .ok outcome)
    (hcompleted : outcome.completed = true) : t.Rendered outcome := by
  rcases hrun : runFrom (Walk.start statuses scope []) (t.visitRoot setting) with ⟨r, w⟩
  have hends := Template.walk_eq_ok.1 h
  rw [hrun] at hends
  cases hends with
  | paused hproblems => exact nomatch hcompleted
  | completed hproblems =>
    -- at the end of a walk everything is in a message
    have hsettled : w.Settled := by
      obtain ⟨⟨⟩, s, -, hs⟩ := runFrom_bind_eq_ok hrun
      obtain rfl : s.closed setting = w :=
        (Prod.mk.inj ((runFrom_closeMessage s setting).symm.trans hs)).2
      exact Walk.settled_closed setting s
    -- closing the last message keeps the order
    have horders : Orders (t.root.Stands false) (t.root.KeepsOrder false) false
      (t.visitRoot setting) :=
      (t.root.orders_walk false []).bind fun _ s hs => RespectsAt.of_ok
        (runFrom_closeMessage s setting)
        (ordered_closed setting s fun _ => hs)
    have hconveys : RespectsAt conveying (Walk.start statuses scope []) (t.visitRoot setting) :=
      (t.root.conveys_walk [] _).bind fun _ s _ _ =>
        RespectsAt.of_ok (runFrom_closeMessage s setting) (conveys_closed setting s)
    obtain ⟨new, hnew, hfits, hsaid⟩ :=
      ((horders (Walk.start statuses scope []) rfl).done hrun).journal
    have hjournal : w.journal = new := hnew.trans (List.append_nil new)
    -- three parts: places, completeness, and the order where calls hold no content
    refine ⟨fun id path inArguments text he => ?_, ?_, fun hcalls => ?_⟩
    · exact hfits _ (hjournal ▸ List.mem_reverse.1 he)
    · have hall := holds_of_conveys (hconveys.done hrun) hsettled.content
      rw [hsettled.stray] at hall
      exact holds_append_empty.1 hall
    · have hall := (hsaid ⟨hcalls, fun hfalse => nomatch hfalse⟩ rfl).1
      rw [hsettled.said, (show (Walk.start statuses scope []).Settled from
        ⟨rfl, rfl, rfl⟩).said] at hall
      exact hall.trans (hjournal ▸ rfl)

/-- What a prompt writes on the way to its end comes out in the contents of the conversation. -/
theorem compile_in_order [ConfigReader] {setting : Setting} {text : String}
    {parameters : Fields Value}
    {conversation : Conversation} (h : compile setting text parameters = .ok conversation) :
    ∃ t outcome, Template.read text = .ok t ∧
      t.walk setting (Statuses.fresh t.nodeCount) (Scope.ofFields parameters) [] = .ok outcome ∧
      conversation.messages = outcome.messages ∧
      (outcome.completed = true → t.Rendered outcome) := by
  obtain ⟨t, outcome, hread, hwalk, rfl⟩ := compile_eq_ok.1 h
  exact ⟨t, outcome, hread, hwalk, rfl, Template.rendered_of_walk hwalk⟩

/-- Text outside of messages and inside of one, contents, a loop, and a tool call whose arguments
are written between them. -/
def callBetweenTexts : String :=
  "Be " ++ braced "tone" ++ "<assistant>One" ++ braced "for x in ['a', 'b']" ++
    "<image>" ++ braced "x" ++ ".png</image>" ++ braced "endfor" ++
    "two<tool-call id='1' name='f'>\x7b \"n\": " ++ braced "1 + 1" ++
    " \x7d</tool-call> three</assistant>"

theorem compile_in_order_callBetweenTexts :
    ∃ conversation,
      compile plainSetting callBetweenTexts [("tone", .string "kind")] = .ok conversation ∧
      ∃ t outcome, Template.read callBetweenTexts = .ok t ∧
        t.walk plainSetting (Statuses.fresh t.nodeCount) (Scope.ofFields [("tone", .string "kind")])
        [] =
          .ok outcome ∧
        conversation.messages = outcome.messages ∧ outcome.completed = true ∧
        t.root.CallsHoldTexts ∧
        outcome.journal.flatMap Event.told = "BekindOnea.pngb.pngtwothree".toList ∧
        t.Rendered outcome := by
  have hcheck :
    ((compile plainSetting callBetweenTexts [("tone", .string "kind")]).isOk &&
      (Template.read callBetweenTexts).toOption.any fun t =>
        (t.walk plainSetting (Statuses.fresh t.nodeCount)
          (Scope.ofFields [("tone", .string "kind")])
          []).toOption.any fun outcome =>
            outcome.completed = true ∧ t.root.CallsHoldTexts ∧
              outcome.journal.flatMap Event.told = "BekindOnea.pngb.pngtwothree".toList) =
                true := by
    decide +kernel
  obtain ⟨hok, hany⟩ := Bool.and_eq_true_iff.1 hcheck
  obtain ⟨conversation, hcompile⟩ := exists_ok_of_isOk hok
  obtain ⟨t, outcome, hread, hwalk, hmessages, hrendered⟩ := compile_in_order hcompile
  obtain ⟨_, hread', hwalks⟩ := exists_ok_of_any hany
  obtain rfl := Except.ok.inj (hread.symm.trans hread')
  obtain ⟨_, hwalk', hall⟩ := exists_ok_of_any hwalks
  obtain rfl := Except.ok.inj (hwalk.symm.trans hwalk')
  obtain ⟨hcompleted, hcalls, htold⟩ := of_decide_eq_true hall
  exact ⟨conversation, hcompile, t, outcome, hread, hwalk, hmessages, hcompleted, hcalls, htold,
    hrendered hcompleted⟩

/-- A text in front of a tool call that holds a piece of content. -/
def contentInCall : String :=
  "<assistant>hello<tool-call id='1' name='f'><text>hi</text></tool-call></assistant>"

/-- A tool call whose arguments have a message behind them. -/
def messageInCall : String :=
  "<tool-call id='1' name='f'>abc<user>hi</user></tool-call>"

/-- A prompt that compiles without a step, with what it writes into content and what its contents
say. -/
def Compiles [ConfigReader] (text : String) (told said : List Char) : Prop :=
  ∃ conversation t outcome, compile plainSetting text [] = .ok conversation ∧
    Template.read text = .ok t ∧
    t.walk plainSetting (Statuses.fresh t.nodeCount) (Scope.ofFields []) [] = .ok outcome ∧
    outcome.completed = true ∧ outcome.journal.flatMap Event.told = told ∧
    (conversation.messages.flatMap Message.content).flatMap Content.told = said

theorem compiles_of_check [ConfigReader] {text : String} {told said : List Char}
    (hcheck : ((Template.read text).toOption.any fun t =>
      (t.walk plainSetting (Statuses.fresh t.nodeCount) (Scope.ofFields []) []).toOption.any
        fun outcome =>
        outcome.completed = true ∧ outcome.journal.flatMap Event.told = told ∧
          (outcome.messages.flatMap Message.content).flatMap Content.told = said) = true) :
    Compiles text told said := by
  obtain ⟨t, hread, hany⟩ := exists_ok_of_any hcheck
  obtain ⟨outcome, hwalk, hall⟩ := exists_ok_of_any hany
  exact ⟨_, t, outcome, compile_eq_ok.2 ⟨t, outcome, hread, hwalk, rfl⟩, hread, hwalk,
    of_decide_eq_true hall⟩

/-- What was written first comes second, since the tool call had set it aside; and what was written
into arguments becomes content, since the message behind it sends it off. -/
theorem compile_swaps :
    Compiles contentInCall "hellohi".toList "hihello".toList ∧
      Compiles messageInCall "hi".toList "abchi".toList :=
  ⟨compiles_of_check (by decide +kernel), compiles_of_check (by decide +kernel)⟩

end PromptMarkup

/-
What a reader of templates has read.

* `Reader.Change` — what a step may do to the frames that are open;
* `Reader.change_step` — a step moves on and does one of these things, or ends with a problem of the
  text;
* `Reader.atEnd_of_run` — as many steps as the text has characters come to its end;
* `Template.regular_of_read` — every `else` part is a fragment, the expressions of a node have
  different spans, and everything lies between places;
* `Template.tags_of_read` — of two elements of a template the later one starts behind the earlier
  one;
* `Template.read_eq_error` — the problem with a template is one of its text.

Design notes: a step is looked at once, by `Reader.change_step`, and what holds of all templates
that were read is an invariant of the frames under `Reader.Change`.  What is optional in the head of
a `for` is read in place there; it gets a name here (`Reader.forOpen_eq`).  Closing a frame moves
its contents into a node of the frame around it; it changes texts only, so the elements inside stay
what they are.
-/
import PromptMarkup.Proofs.Delimiters
import PromptMarkup.Proofs.Numbering
import PromptMarkup.Proofs.Spans

namespace PromptMarkup

open Text (Cursor)

/-! ### Frames -/

namespace Node

/-- What is found in several nodes and in everything inside of them, in the order of the document.
-/
def pick {α : Type} (g : Node → Option α) (ns : List Node) : List α :=
  (nodesAll ns).filterMap g

section Pick

variable {α : Type} (g : Node → Option α)

@[simp] theorem pick_nil : pick g [] = [] :=
  rfl

@[simp] theorem pick_cons (n : Node) (ns : List Node) :
    pick g (n :: ns) = (g n).toList ++ (pick g n.childNodes ++ pick g ns) := by
  rw [pick, pick, pick, nodesAll, List.filterMap_append, nodes_eq, List.filterMap_cons]
  cases g n <;> simp

@[simp] theorem pick_append (l r : List Node) : pick g (l ++ r) = pick g l ++ pick g r := by
  simp [pick]

end Pick

/-- Where a node starts if it is an element. -/
def tagStart? : Node → Option Nat
  | element info _ _ _ => some info.start
  | _ => none

/-- Where the elements start that are in a node, in the order of the document. -/
def tags (n : Node) : List Nat :=
  n.nodes.filterMap tagStart?

/-- Where the elements start that are in several nodes. -/
def tagsAll (ns : List Node) : List Nat :=
  (nodesAll ns).filterMap tagStart?

theorem tags_eq (n : Node) : n.tags = n.tagStart?.toList ++ tagsAll n.childNodes := by
  rw [tags, nodes_eq, List.filterMap_cons]
  cases n.tagStart? with
  | none => rfl
  | some k => rfl

@[simp] theorem tagsAll_nil : tagsAll [] = [] :=
  rfl

@[simp] theorem tagsAll_cons (n : Node) (ns : List Node) :
    tagsAll (n :: ns) = n.tags ++ tagsAll ns := by
  simp [tagsAll, tags, nodesAll]

@[simp] theorem tagsAll_append (l r : List Node) : tagsAll (l ++ r) = tagsAll l ++ tagsAll r := by
  simp [tagsAll]

theorem tags_sublist_tagsAll {n : Node} {ns : List Node} (h : n ∈ ns) :
    n.tags.Sublist (tagsAll ns) := by
  obtain ⟨before, after, rfl⟩ := List.append_of_mem h
  rw [tagsAll_append, tagsAll_cons]
  exact (List.sublist_append_left _ _).trans (List.sublist_append_right _ _)

/-- The `else` part of a node, if it has one, is a fragment. -/
def ElseIsFragment (n : Node) : Prop :=
  ∀ o ∈ n.elsePart?, ∃ info children, o = fragment info children

/-- The attributes of a node. -/
def attributes : Node → List Attribute
  | element _ _ attributes _ => attributes
  | _ => []

/-- A node lies between places from a cursor on, and so do its attributes; its expressions were read
there. -/
structure Marked (c : Cursor) (n : Node) : Prop where
  info : c.Marks n.info.start n.info.stop
  attributes : ∀ a ∈ n.attributes, c.Marks a.span.start a.span.stop
  expressions : ∀ e ∈ n.expressions, e.Embedded c

theorem Marked.behind {b c : Cursor} {n : Node} (h : n.Marked c) (hb : b.LeadsTo c) : n.Marked b :=
  ⟨h.info.behind hb, fun a ha => (h.attributes a ha).behind hb,
    fun e he => (h.expressions e he).behind hb⟩

/-- A node that was taken between a cursor and an offset, no fragment; a text is what stands there,
and front matter is only taken where it stands. -/
structure Taken (c : Cursor) (stop : Nat) (n : Node) : Prop where
  info : n.info = ⟨0, c.offset, stop⟩
  noFragment : ∀ info children, n ≠ fragment info children
  text : ∀ info data, n = text info data → ∃ s rest, c.rest = s ++ rest ∧
    stop = c.offset + Text.byteLength s ∧ data = String.ofList (unescaped s)
  config : ∀ info value raw, n = config info value raw → c.FrontMatter stop raw.toList

/-- What holds of every node of a template that was read from a cursor on. -/
structure Regular (c : Cursor) (n : Node) : Prop where
  elseIsFragment : n.ElseIsFragment
  spans : n.DistinctSpans
  marked : n.Marked c

end Node

namespace Frame

/-- The nodes inside of an open block or element, in the order of the document. -/
def contents : Frame → List Node
  | root children | element _ _ _ children => children.reverse
  | ifBlock _ _ _ _ children otherwise | forBlock _ _ _ children otherwise =>
    children.reverse ++ ((otherwise.map Prod.snd).getD []).reverse

/-- Where an open element starts. -/
def tagStart? : Frame → Option Nat
  | element start _ _ _ => some start
  | _ => none

/-- Where the elements start of an open block or element, in the order of the document. -/
def tags (f : Frame) : List Nat :=
  f.tagStart?.toList ++ Node.tagsAll f.contents

/-- Where the elements start of all that is open. -/
def tagsAll : List Frame → List Nat
  | [] => []
  | f :: rest => tagsAll rest ++ f.tags

/-- The expressions of an open block or element. -/
def expressions : Frame → List Expr
  | root _ => []
  | ifBlock _ _ condition _ _ _ => [condition]
  | forBlock _ _ header _ _ => header.iterable :: header.key.toList
  | element _ _ attributes _ => attributes.flatMap Attribute.expressions

/-- The expressions of an open block or element can be told apart by their spans. -/
def DistinctSpans (f : Frame) : Prop :=
  (spansOf f.expressions).Nodup

/-- The attributes of an open element. -/
def attributes : Frame → List Attribute
  | element _ _ attributes _ => attributes
  | _ => []

/-- An open `else if`. -/
def isElseIf : Frame → Bool
  | ifBlock _ _ _ elseIf _ _ => elseIf
  | _ => false

/-- The root. -/
def isRoot : Frame → Bool
  | root _ => true
  | _ => false

/-- Where an open block or element starts, and its `else` part. -/
def starts : Frame → List Nat
  | root _ => []
  | ifBlock start _ _ _ _ otherwise | forBlock start _ _ _ otherwise =>
    start :: (otherwise.map Prod.fst).toList
  | element start _ _ _ => [start]

/-- Where a block starts that no `else if` opened, and whether white space or nothing is in front of
it. -/
def opening? : Frame → Option (Nat × Bool)
  | ifBlock start blank _ false _ _ | forBlock start blank _ _ _ => some (start, blank)
  | _ => none

/-- The attributes of an open block or element lie between places from a cursor on; its expressions
were read there. -/
structure Marked (c : Cursor) (f : Frame) : Prop where
  attributes : ∀ a ∈ f.attributes, c.Marks a.span.start a.span.stop
  expressions : ∀ e ∈ f.expressions, e.Embedded c

theorem Marked.behind {b c : Cursor} {f : Frame} (h : f.Marked c) (hb : b.LeadsTo c) : f.Marked b :=
  ⟨fun a ha => (h.attributes a ha).behind hb, fun e he => (h.expressions e he).behind hb⟩

theorem contents_append (f : Frame) (n : Node) : (f.append n).contents = f.contents ++ [n] := by
  cases f with
  | root children => simp [append, contents]
  | element start name as children => simp [append, contents]
  | ifBlock start blank condition elseIf children otherwise =>
    cases otherwise <;> simp [append, contents]
  | forBlock start blank header children otherwise =>
    cases otherwise <;> simp [append, contents]

/-- A frame without its nodes.  Where its `else` part starts stays. -/
def emptied : Frame → Frame
  | root _ => root []
  | ifBlock start blank condition elseIf _ otherwise =>
    ifBlock start blank condition elseIf [] (otherwise.map fun o => (o.1, []))
  | forBlock start blank header _ otherwise =>
    forBlock start blank header [] (otherwise.map fun o => (o.1, []))
  | element start name attributes _ => element start name attributes []

theorem emptied_append (f : Frame) (n : Node) : (f.append n).emptied = f.emptied := by
  cases f with
  | root children => rfl
  | element start name as children => rfl
  | ifBlock start blank condition elseIf children otherwise => cases otherwise <;> rfl
  | forBlock start blank header children otherwise => cases otherwise <;> rfl

/-- A node changes nothing that does not depend on the nodes of a frame. -/
theorem append_congr {α : Type} (p : Frame → α) (hp : ∀ f, p f.emptied = p f) (f : Frame)
    (n : Node) :
    p (f.append n) = p f := by
  rw [← hp (f.append n), emptied_append, hp]

theorem tagStart?_append (f : Frame) (n : Node) : (f.append n).tagStart? = f.tagStart? :=
  append_congr tagStart? (fun f => by cases f <;> rfl) f n

theorem expressions_append (f : Frame) (n : Node) : (f.append n).expressions = f.expressions :=
  append_congr expressions (fun f => by cases f <;> rfl) f n

theorem attributes_append (f : Frame) (n : Node) : (f.append n).attributes = f.attributes :=
  append_congr attributes (fun f => by cases f <;> rfl) f n

theorem starts_append (f : Frame) (n : Node) : (f.append n).starts = f.starts :=
  append_congr starts (fun f => by cases f <;> simp [emptied, starts, Function.comp_def]) f n

theorem opening?_append (f : Frame) (n : Node) : (f.append n).opening? = f.opening? :=
  append_congr opening? (fun f => by rcases f with _ | ⟨_, _, _, ⟨⟩, _, _⟩ | _ | _ <;> rfl) f n

theorem isRoot_append (f : Frame) (n : Node) : (f.append n).isRoot = f.isRoot :=
  append_congr isRoot (fun f => by cases f <;> rfl) f n

theorem tags_append (f : Frame) (n : Node) : (f.append n).tags = f.tags ++ n.tags := by
  simp [tags, contents_append, tagStart?_append]

end Frame

theorem tagsAll_appendNode (frames : List Frame) (n : Node) :
    (Frame.tagsAll (appendNode n frames)).Sublist (Frame.tagsAll frames ++ n.tags) := by
  cases frames with
  | nil => exact List.nil_sublist _
  | cons f rest => simp [appendNode, Frame.tagsAll, Frame.tags_append]

theorem length_appendNode (n : Node) (frames : List Frame) :
    (appendNode n frames).length = frames.length := by
  cases frames <;> rfl

/-! ### Closing a frame -/

/-- A `for` that is closed. -/
theorem closeFor_eq_ok {blankAfter : Bool} {closeStart stop : Nat} {frames frames' : List Frame}
    (h : closeFor blankAfter closeStart stop frames = .ok frames') :
    ∃ start blank header children otherwise rest,
      frames = .forBlock start blank header children otherwise :: rest ∧
      frames' = appendNode (.forBlock
        ⟨0, start, stop⟩ header (trimChildren ⟨blank, blankAfter⟩ children.reverse)
        (elsePart ⟨blank, blankAfter⟩ closeStart otherwise)) rest := by
  unfold closeFor at h
  split at h
  · exact ⟨_, _, _, _, _, _, rfl, (Except.ok.inj h).symm⟩
  · exact nomatch h

/-- An element that is closed. -/
theorem closeElement_eq_ok {name : String} {closeStart stop : Nat} {frames frames' : List Frame}
    (h : closeElement name closeStart stop frames = .ok frames') :
    ∃ start as children rest, frames = .element start name as children :: rest ∧
      frames' = appendNode (.element ⟨0, start, stop⟩ name as children.reverse) rest := by
  unfold closeElement at h
  split at h
  · split at h
    · next hname => exact ⟨_, _, _,
        _, by rw [eq_of_beq hname], by rw [← Except.ok.inj h, eq_of_beq hname]⟩
    · exact nomatch h
  · exact nomatch h

/-- Only a first text is changed or dropped. -/
theorem mapFirstText_cases (f : List Char → List Char) (ns : List Node) :
    mapFirstText f ns = ns ∨ ∃ info data rest, ns = .text info data :: rest ∧
      (mapFirstText f ns = rest ∨ ∃ data', mapFirstText f ns = .text info data' :: rest) := by
  unfold mapFirstText
  split
  · next info data rest =>
    refine .inr ⟨info, data, rest, rfl, ?_⟩
    dsimp only
    split
    · exact .inl rfl
    · exact .inr ⟨_, rfl⟩
  · exact .inl rfl

/-- A node is in a list, or is a text of it with other data. -/
def InUpToText (ns : List Node) (n : Node) : Prop :=
  n ∈ ns ∨ ∃ info data data', .text info data ∈ ns ∧ n = .text info data'

theorem mem_mapFirstText {f : List Char → List Char} {ns : List Node} {n : Node}
    (h : n ∈ mapFirstText f ns) : InUpToText ns n := by
  rcases mapFirstText_cases f ns with heq | ⟨info, data, rest, rfl, heq | ⟨data', heq⟩⟩
  · exact .inl (heq ▸ h)
  · exact .inl (List.mem_cons_of_mem _ (heq ▸ h))
  · rw [heq] at h
    rcases List.mem_cons.1 h with rfl | h
    · exact .inr ⟨info, data, data', List.mem_cons_self, rfl⟩
    · exact .inl (List.mem_cons_of_mem _ h)

theorem mem_trimChildren {t : Trim} {ns : List Node} {n : Node} (h : n ∈ trimChildren t ns) :
    InUpToText ns n := by
  have hfront : ∀ {m}, m ∈ (if t.front then mapFirstText Text.trimStart ns else ns) →
    InUpToText ns m := by
    intro m hm
    split at hm
    · exact mem_mapFirstText hm
    · exact .inl hm
  unfold trimChildren at h
  dsimp only at h
  split at h
  · rcases mem_mapFirstText (List.mem_reverse.1 h) with h' | ⟨info, data, data', h', rfl⟩
    · exact hfront (List.mem_reverse.1 h')
    · rcases hfront (List.mem_reverse.1 h') with h' | ⟨info', before, data'', h', heq⟩
      · exact .inr ⟨info, data, data', h', rfl⟩
      · obtain ⟨rfl, -⟩ := Node.text.inj heq
        exact .inr ⟨info, before, data', h', rfl⟩
  · exact hfront h

section Pick

variable {α : Type} {g : Node → Option α} (hg : ∀ info data, g (.text info data) = none)

include hg

theorem pick_mapFirstText (f : List Char → List Char) (ns : List Node) :
    Node.pick g (mapFirstText f ns) = Node.pick g ns := by
  rcases mapFirstText_cases f ns with heq | ⟨info, data, rest, rfl, heq | ⟨data', heq⟩⟩ <;> rw [heq]
  · simp [hg, Node.childNodes]
  · simp [hg, Node.childNodes]

theorem pick_reverse_mapFirstText (f : List Char → List Char) (ns : List Node) :
    Node.pick g (mapFirstText f ns).reverse = Node.pick g ns.reverse := by
  rcases mapFirstText_cases f ns with heq | ⟨info, data, rest, rfl, heq | ⟨data', heq⟩⟩ <;> rw [heq]
  · simp [hg, Node.childNodes]
  · simp [hg, Node.childNodes]

/-- Where white space is dropped, only texts change. -/
theorem pick_trimChildren (t : Trim) (ns : List Node) :
    Node.pick g (trimChildren t ns) = Node.pick g ns := by
  have hfront : Node.pick g (if t.front then mapFirstText Text.trimStart ns else ns) =
    Node.pick g ns := by
    split
    · exact pick_mapFirstText hg _ _
    · rfl
  unfold trimChildren
  dsimp only
  split
  · rw [pick_reverse_mapFirstText hg, List.reverse_reverse, hfront]
  · exact hfront

/-- The two parts of a block that is closed have what was in them. -/
theorem pick_parts (hfragment : ∀ info children, g (.fragment info children) = none) (t : Trim)
    (closeStart : Nat) (children : List Node) (otherwise : Option (Nat × List Node)) :
    Node.pick g (trimChildren t children.reverse ++ (elsePart t closeStart otherwise).toList) =
      Node.pick g (children.reverse ++ ((otherwise.map Prod.snd).getD []).reverse) := by
  rw [Node.pick_append, Node.pick_append, pick_trimChildren hg]
  cases otherwise with
  | none => rfl
  | some other => simp [elsePart, hfragment, Node.childNodes, pick_trimChildren hg]

end Pick

/-- The two parts of a block that is closed have the elements that were in them. -/
theorem tagsAll_parts (t : Trim) (closeStart : Nat) (children : List Node)
    (otherwise : Option (Nat × List Node)) :
    Node.tagsAll (trimChildren t children.reverse ++ (elsePart t closeStart otherwise).toList) =
      Node.tagsAll (children.reverse ++ ((otherwise.map Prod.snd).getD []).reverse) :=
  pick_parts (fun _ _ => rfl) (fun _ _ => rfl) t closeStart children otherwise

/-- What holds of every node of a template that was read holds of all nodes in a list. -/
def AllRegular (c : Cursor) (ns : List Node) : Prop :=
  ∀ n ∈ Node.nodesAll ns, n.Regular c

section AllRegular

variable {b c : Cursor} {ns : List Node}

theorem AllRegular.append {l r : List Node} (hl : AllRegular c l) (hr : AllRegular c r) :
    AllRegular c (l ++ r) := by
  intro n hn
  rw [Node.nodesAll_append] at hn
  rcases List.mem_append.1 hn with hn | hn
  · exact hl n hn
  · exact hr n hn

theorem allRegular_of_mem (h : ∀ n ∈ ns, AllRegular c [n]) : AllRegular c ns := by
  intro m hm
  obtain ⟨n, hn, hm⟩ := Node.mem_nodesAll.1 hm
  exact h n hn m (by simpa [Node.nodesAll] using hm)

theorem AllRegular.of_mem (h : AllRegular c ns) {n : Node} (hn : n ∈ ns) : AllRegular c [n] := by
  intro m hm
  exact h m (Node.mem_nodesAll.2 ⟨n, hn, by simpa [Node.nodesAll] using hm⟩)

theorem allRegular_one {n : Node} (hself : n.Regular c) (hinner : AllRegular c n.childNodes) :
    AllRegular c [n] := by
  intro m hm
  simp only [Node.nodesAll, List.append_nil] at hm
  rw [Node.nodes_eq] at hm
  rcases List.mem_cons.1 hm with rfl | hm
  · exact hself
  · exact hinner m hm

/-- A node without an `else` part and without nodes inside. -/
theorem allRegular_leaf {n : Node} (h : n.childNodes = []) (hnone : n.elsePart? = none)
    (hspans : n.DistinctSpans) (hmarked : n.Marked c) : AllRegular c [n] := by
  refine allRegular_one ⟨fun o ho => ?_, hspans, hmarked⟩ fun m hm => ?_
  · rw [hnone] at ho
    exact nomatch ho
  · rw [h] at hm
    exact nomatch hm

theorem AllRegular.trimChildren {t : Trim} (h : AllRegular c ns) :
    AllRegular c (trimChildren t ns) := by
  refine allRegular_of_mem fun n hn => ?_
  rcases mem_trimChildren hn with hmem | ⟨info, data, data', hmem, rfl⟩
  · exact h.of_mem hmem
  · have htext : (Node.text info data).Regular c :=
      h (.text info data) (Node.mem_nodesAll.2 ⟨_, hmem, Node.mem_nodes_self _⟩)
    exact allRegular_leaf rfl rfl List.nodup_nil ⟨htext.marked.info, nofun, nofun⟩

theorem elsePart_isFragment {t : Trim} {closeStart : Nat} {otherwise : Option (Nat × List Node)} :
    ∀ o ∈ elsePart t closeStart otherwise, ∃ info children, o = .fragment info children := by
  intro o ho
  obtain ⟨⟨start, others⟩, -, rfl⟩ := Option.map_eq_some_iff.1 ho
  exact ⟨_, _, rfl⟩

/-- The two parts of a block that is closed. -/
theorem allRegular_parts {t : Trim} {closeStart : Nat} {children : List Node}
    {otherwise : Option (Nat × List Node)}
    (hstart : ∀ k ∈ otherwise.map Prod.fst, c.Marks k closeStart)
    (h : AllRegular c (children.reverse ++ ((otherwise.map Prod.snd).getD []).reverse)) :
    AllRegular c (trimChildren t children.reverse ++ (elsePart t closeStart otherwise).toList) := by
  have hchildren : AllRegular c children.reverse :=
    allRegular_of_mem fun n hn => h.of_mem (List.mem_append_left _ hn)
  refine hchildren.trimChildren.append (allRegular_of_mem fun n hn => ?_)
  cases otherwise with
  | none => exact nomatch hn
  | some other =>
    obtain rfl := List.mem_singleton.1 hn
    have hothers : AllRegular c other.2.reverse :=
      allRegular_of_mem fun n hn => h.of_mem (List.mem_append_right _ hn)
    refine allRegular_one ⟨fun o ho => (nomatch ho), List.nodup_nil, ?_⟩ hothers.trimChildren
    exact ⟨hstart other.1 rfl, nofun, nofun⟩

end AllRegular

/-- What holds of an open block or element when a reader that came from a cursor stands at an
offset. -/
structure Frame.Regular (c : Cursor) (offset : Nat) (f : Frame) : Prop where
  spans : f.DistinctSpans
  marked : f.Marked c
  starts : ∀ k ∈ f.starts, c.Marks k offset
  contents : AllRegular c f.contents

/-! ### Steps -/

/-- An `else` part is opened in a block that has none, and an `else if` only in an `if`. -/
theorem acceptsElse_eq_true {c : Cursor} {frames : List Frame} {elseIf : Bool}
    (h : Reader.acceptsElse ⟨c, frames⟩ elseIf = true) :
    (∃ start blank condition isElseIf children rest,
      frames = .ifBlock start blank condition isElseIf children none :: rest) ∨
    elseIf = false ∧ ∃ start blank header children rest,
      frames = .forBlock start blank header children none :: rest := by
  unfold Reader.acceptsElse at h
  split at h
  · next heq => exact .inl ⟨_, _, _, _, _, _, heq⟩
  · next heq => exact .inr ⟨(Bool.not_eq_true' _).mp h, _, _, _, _, _, heq⟩
  · exact nomatch h

/-- What a step from a cursor that comes to `stop` may do to the frames that are open. -/
inductive Reader.Change (c : Cursor) (stop : Nat) : List Frame → List Frame → Prop
  /-- A node with nothing inside is added; an element is longer than nothing. -/
  | added {frames : List Frame} {n : Node} (leaf : n.childNodes = [])
    (noElse : n.elsePart? = none) (spans : n.DistinctSpans) (marked : n.Marked c)
    (tag : ∀ k ∈ n.tagStart?, k = c.offset ∧ c.offset < stop) (taken : n.Taken c stop) :
    Change c stop frames (appendNode n frames)
  /-- A block or an element is opened. -/
  | opened {frames : List Frame} {f : Frame} (empty : f.contents = []) (spans : f.DistinctSpans)
    (marked : f.Marked c) (starts : f.starts = [c.offset])
    (tag : ∀ k ∈ f.tagStart?, k = c.offset ∧ c.offset < stop) (plain : f.isElseIf = false)
    (blank : ∀ x ∈ f.opening?, x = (c.offset, blankBefore c)) : Change c stop frames (f :: frames)
  /-- An `else` part is opened. -/
  | otherwise {frames : List Frame} (accepts : Reader.acceptsElse ⟨c, frames⟩ false) :
    Change c stop frames (Reader.openElse c.offset frames)
  /-- An `else if` is opened. -/
  | elseIf {frames : List Frame} (condition : Expr) (embedded : condition.Embedded c)
    (accepts : Reader.acceptsElse ⟨c, frames⟩ true) : Change c stop frames
      (.ifBlock c.offset false condition true [] none :: Reader.openElse c.offset frames)
  | closedIf {frames frames' : List Frame} {t : Trim}
    (h : closeIf t c.offset stop none frames = .ok frames') : Change c stop frames frames'
  | closedFor {frames frames' : List Frame} {blankAfter : Bool}
    (h : closeFor blankAfter c.offset stop frames = .ok frames') : Change c stop frames frames'
  | closedElement {frames frames' : List Frame} {name : String}
    (h : closeElement name c.offset stop frames = .ok frames') : Change c stop frames frames'

/-- An `else if` that was closed goes into the part that is open of the frame below. -/
theorem closeIf_some (t : Trim) (closeStart stop : Nat) (n : Node) (frames : List Frame) :
    closeIf t closeStart stop (some n) frames =
      closeIf t closeStart stop none (appendNode n frames) := by
  cases frames with
  | nil => rfl
  | cons f rest =>
    cases f with
    | ifBlock start blank condition elseIf children otherwise => cases otherwise <;> rfl
    | forBlock start blank header children otherwise => cases otherwise <;> rfl
    | _ => rfl

/-- Closing an `if`: its parts become a node in the frame below, and an `else if` closes that frame
too. -/
theorem closeIf_ifBlock (t : Trim) (closeStart stop start : Nat) (blank : Bool) (condition : Expr)
    (elseIf : Bool)
    (children : List Node) (otherwise : Option (Nat × List Node)) (rest : List Frame) :
    closeIf t closeStart stop none
    (.ifBlock start blank condition elseIf children otherwise :: rest) =
      let frames :=
        appendNode (.ifBlock ⟨0, start, stop⟩ condition elseIf (trimChildren t children.reverse)
        (elsePart t closeStart otherwise)) rest
      if elseIf then closeIf t closeStart stop none frames else .ok frames := by
  cases elseIf with
  | false => rfl
  | true => exact closeIf_some t closeStart stop _ rest

/-- What holds of the frames in front of an `endif` holds behind it, if it passes from a frame that
is closed to the frames below. -/
theorem closeIf_invariant {P Q : List Frame → Prop} {t : Trim} {closeStart stop : Nat}
    {frames frames' : List Frame} (himp : ∀ frames, Q frames → P frames)
    (hclose : ∀ start blank condition elseIf children otherwise rest,
      P (.ifBlock start blank condition elseIf children otherwise :: rest) →
      Q (appendNode (.ifBlock ⟨0, start, stop⟩ condition elseIf (trimChildren t children.reverse)
        (elsePart t closeStart otherwise)) rest))
    (hframes : P frames) (h : closeIf t closeStart stop none frames = .ok frames') : Q frames' := by
  -- closing one `if` may leave another behind it open, so the induction is on the number of frames
  induction hlength : frames.length generalizing frames with
  | zero =>
    obtain rfl := List.length_eq_zero_iff.1 hlength
    exact nomatch h
  | succ length ih =>
    cases frames with
    | nil => exact nomatch hlength
    | cons f rest =>
      cases f with
      | ifBlock start blank condition elseIf children otherwise =>
        have hnode := hclose start blank condition elseIf children otherwise rest hframes
        rw [closeIf_ifBlock] at h
        dsimp only at h
        split at h
        -- the closed block was an `else if`, and the block around it closes with it
        · exact ih (himp _ hnode) h (by rw [length_appendNode]; exact Nat.succ.inj hlength)
        -- the closed block stands alone
        · exact Except.ok.inj h ▸ hnode
      | _ => exact nomatch h

/-- The elements of an open block, its parts closed. -/
theorem tagsAll_closeIf {t : Trim} {closeStart stop : Nat} {frames frames' : List Frame}
    (h : closeIf t closeStart stop none frames = .ok frames') :
    (Frame.tagsAll frames').Sublist (Frame.tagsAll frames) := by
  refine closeIf_invariant (P := fun fs => (Frame.tagsAll fs).Sublist (Frame.tagsAll frames))
    (fun _ h => h) ?_
    (List.Sublist.refl _) h
  intro start blank condition elseIf children otherwise rest hsub
  refine (tagsAll_appendNode rest _).trans (List.Sublist.trans ?_ hsub)
  simp only [Frame.tagsAll, Frame.tags, Node.tags_eq, Node.childNodes, Frame.contents]
  rw [tagsAll_parts]
  exact List.Sublist.refl _

theorem tagsAll_closeFor {blankAfter : Bool} {closeStart stop : Nat} {frames frames' : List Frame}
    (h : closeFor blankAfter closeStart stop frames = .ok frames') :
    (Frame.tagsAll frames').Sublist (Frame.tagsAll frames) := by
  obtain ⟨start, blank, header, children, otherwise, rest, rfl, rfl⟩ := closeFor_eq_ok h
  refine (tagsAll_appendNode rest _).trans ?_
  simp only [Frame.tagsAll, Frame.tags, Node.tags_eq, Node.childNodes, Frame.contents]
  rw [tagsAll_parts]
  exact List.Sublist.refl _

theorem tagsAll_closeElement {name : String} {closeStart stop : Nat} {frames frames' : List Frame}
    (h : closeElement name closeStart stop frames = .ok frames') :
    (Frame.tagsAll frames').Sublist (Frame.tagsAll frames) := by
  obtain ⟨start, as, children, rest, rfl, rfl⟩ := closeElement_eq_ok h
  refine (tagsAll_appendNode rest _).trans ?_
  simp only [Frame.tagsAll, Frame.tags, Node.tags_eq, Node.childNodes, Frame.contents]
  exact List.Sublist.refl _

theorem tagsAll_openElse (start : Nat) (frames : List Frame) :
    (Frame.tagsAll (Reader.openElse start frames)).Sublist (Frame.tagsAll frames) := by
  unfold Reader.openElse
  split
  · exact List.Sublist.append_left (by simp [Frame.tags, Frame.contents, Frame.tagStart?]) _
  · exact List.Sublist.append_left (by simp [Frame.tags, Frame.contents, Frame.tagStart?]) _
  · exact List.Sublist.refl _

/-- A step adds at most one element behind those that were there. -/
theorem Reader.Change.tags {c : Cursor} {stop : Nat} {frames frames' : List Frame}
    (h : Change c stop frames frames') :
    ∃ new, (Frame.tagsAll frames').Sublist (Frame.tagsAll frames ++ new) ∧
      (new = [] ∨ new = [c.offset] ∧ c.offset < stop) := by
  -- a change that adds a node or frame adds the tag it starts, if it starts one
  have hnew : ∀ {o : Option Nat}, (∀ k ∈ o, k = c.offset ∧ c.offset < stop) →
      o.toList = [] ∨ o.toList = [c.offset] ∧ c.offset < stop := by
    intro o ho
    cases o with
    | none => exact .inl rfl
    | some k =>
      obtain ⟨rfl, hlt⟩ := ho k rfl
      exact .inr ⟨rfl, hlt⟩
  cases h with
  | @added n leaf noElse spans marked htag =>
    refine ⟨n.tagStart?.toList, ?_, hnew htag⟩
    have htags : n.tags = n.tagStart?.toList := by
      rw [Node.tags_eq, leaf, Node.tagsAll_nil, List.append_nil]
    exact htags ▸ tagsAll_appendNode frames n
  | @opened f empty spans marked starts htag =>
    refine ⟨f.tagStart?.toList, ?_, hnew htag⟩
    simp [Frame.tagsAll, Frame.tags, empty]
  | otherwise => exact ⟨[], by simpa using tagsAll_openElse c.offset frames, .inl rfl⟩
  | elseIf condition marked =>
    refine ⟨[], ?_, .inl rfl⟩
    simpa [Frame.tagsAll, Frame.tags, Frame.contents, Frame.tagStart?] using
      tagsAll_openElse c.offset frames
  | closedIf h => exact ⟨[], by simpa using tagsAll_closeIf h, .inl rfl⟩
  | closedFor h => exact ⟨[], by simpa using tagsAll_closeFor h, .inl rfl⟩
  | closedElement h => exact ⟨[], by simpa using tagsAll_closeElement h, .inl rfl⟩

theorem mem_appendNode {n : Node} {frames : List Frame} {f : Frame} (h : f ∈ appendNode n frames) :
    ∃ g ∈ frames, f = g.append n ∨ f = g := by
  cases frames with
  | nil => exact nomatch h
  | cons g rest =>
    rcases List.mem_cons.1 h with rfl | h
    · exact ⟨g, List.mem_cons_self, .inl rfl⟩
    · exact ⟨f, List.mem_cons_of_mem _ h, .inr rfl⟩

/-- An open block or element is still open, perhaps with more in it, or with an `else` part that
starts at `k`. -/
structure Frame.Stays (k : Nat) (f f' : Frame) : Prop where
  opening : f'.opening? = f.opening?
  starts : ∀ j ∈ f'.starts, j = k ∨ j ∈ f.starts

theorem Frame.Stays.refl (k : Nat) (f : Frame) : f.Stays k f :=
  ⟨rfl, fun _ hj => .inr hj⟩

theorem Frame.Stays.append {k : Nat} {f f' : Frame} (h : f.Stays k f') (n : Node) :
    f.Stays k (f'.append n) :=
  ⟨(opening?_append f' n).trans h.opening, fun j hj => h.starts j (starts_append f' n ▸ hj)⟩

/-- What is open behind a step was open before, or was opened where the step started. -/
theorem Reader.Change.frames {c : Cursor} {stop : Nat} {frames frames' : List Frame}
    (h : Change c stop frames frames') : ∀ f' ∈ frames', (∃ f ∈ frames, f.Stays c.offset f') ∨
      f'.starts = [c.offset] ∧ ∀ x ∈ f'.opening?, x = (c.offset, blankBefore c) := by
  -- frames below the top stay as they are, the top one takes the node
  have happend : ∀ {fs : List Frame} {n : Node}, (∀ f' ∈ fs, ∃ f ∈ frames, f.Stays c.offset f') →
      ∀ f' ∈ appendNode n fs, ∃ f ∈ frames, f.Stays c.offset f' := by
    intro fs n hall f' hf'
    obtain ⟨g, hg, rfl | rfl⟩ := mem_appendNode hf'
    · obtain ⟨f, hf, hstays⟩ := hall g hg
      exact ⟨f, hf, hstays.append n⟩
    · exact hall f' hg
  have hself : ∀ {fs : List Frame}, fs ⊆ frames → ∀ f' ∈ fs, ∃ f ∈ frames, f.Stays c.offset f' :=
    fun hsub f' hf' => ⟨f', hsub hf', .refl _ _⟩
  -- a frame that takes an else part gets one more start, its other fields stay
  have hopen : ∀ {elseIf}, acceptsElse ⟨c, frames⟩ elseIf = true →
      ∀ f' ∈ openElse c.offset frames, ∃ f ∈ frames, f.Stays c.offset f' := by
    intro elseIf haccepts f' hf'
    have hbehind : ∀ {start : Nat}, ∀ j ∈ [start, c.offset], j = c.offset ∨ j ∈ [start] := by
      intro start j hj
      rcases List.mem_cons.1 hj with rfl | hj
      · exact .inr List.mem_cons_self
      · exact .inl (List.mem_singleton.1 hj)
    obtain ⟨start, blank, condition, isElseIf, children, rest, rfl⟩ |
      ⟨-, start, blank, header, children, rest, rfl⟩ :=
      acceptsElse_eq_true haccepts
    · rcases List.mem_cons.1 hf' with rfl | hf'
      · refine ⟨_, List.mem_cons_self, ?_, hbehind⟩
        cases isElseIf <;> rfl
      · exact ⟨f', List.mem_cons_of_mem _ hf', .refl _ _⟩
    · rcases List.mem_cons.1 hf' with rfl | hf'
      · exact ⟨_, List.mem_cons_self, rfl, hbehind⟩
      · exact ⟨f', List.mem_cons_of_mem _ hf', .refl _ _⟩
  intro f' hf'
  cases h with
  | added => exact .inl (happend (hself (List.Subset.refl _)) f' hf')
  | opened empty spans marked starts tag plain blank =>
    rcases List.mem_cons.1 hf' with rfl | hf'
    · exact .inr ⟨starts, blank⟩
    · exact .inl ⟨f', hf', .refl _ _⟩
  | otherwise haccepts => exact .inl (hopen haccepts f' hf')
  | elseIf condition embedded haccepts =>
    rcases List.mem_cons.1 hf' with rfl | hf'
    · exact .inr ⟨rfl, nofun⟩
    · exact .inl (hopen haccepts f' hf')
  | closedIf h =>
    -- closing preserves that every frame stays, one step of the closing at a time
    refine .inl (closeIf_invariant
      (P := fun fs => ∀ f' ∈ fs, ∃ f ∈ frames, f.Stays c.offset f') (fun _ h => h) ?_
      (hself (List.Subset.refl _)) h f' hf')
    exact fun _ _ _ _ _ _ _ hall => happend fun f' hf' => hall f' (List.mem_cons_of_mem _ hf')
  | closedFor h =>
    obtain ⟨_, _, _, _, _, rest, rfl, rfl⟩ := closeFor_eq_ok h
    exact .inl (happend (hself (List.subset_cons_self _ _)) f' hf')
  | closedElement h =>
    obtain ⟨_, _, _, rest, rfl, rfl⟩ := closeElement_eq_ok h
    exact .inl (happend (hself (List.subset_cons_self _ _)) f' hf')

/-- What holds of an open block or element holds of all that is open. -/
def Frame.AllRegular (c : Cursor) (offset : Nat) (frames : List Frame) : Prop :=
  ∀ f ∈ frames, f.Regular c offset

section AllRegular

variable {b c : Cursor} {m n : Nat} {frames frames' : List Frame}

/-- The reader may move on. -/
theorem Frame.AllRegular.later (h : Frame.AllRegular c m frames) (hmarks : c.Marks m n) :
    Frame.AllRegular c n frames := by
  intro f hf
  obtain ⟨hspans, hmarked, hstarts, hcontents⟩ := h f hf
  exact ⟨hspans, hmarked, fun k hk => (hstarts k hk).trans hmarks, hcontents⟩

theorem Frame.AllRegular.appendNode {x : Node} (h : Frame.AllRegular c m frames)
    (hx : PromptMarkup.AllRegular c [x]) : Frame.AllRegular c m (appendNode x frames) := by
  cases frames with
  | nil => exact fun f hf => nomatch hf
  | cons f rest =>
    obtain ⟨hspans, hmarked, hstarts, hcontents⟩ := h f List.mem_cons_self
    intro g hg
    rcases List.mem_cons.1 hg with rfl | hg
    · refine ⟨?_, ⟨?_, ?_⟩, ?_, ?_⟩
      · rwa [DistinctSpans, expressions_append]
      · rw [attributes_append]
        exact hmarked.attributes
      · rw [expressions_append]
        exact hmarked.expressions
      · rw [starts_append]
        exact hstarts
      · rw [contents_append]
        exact hcontents.append hx
    · exact h g (List.mem_cons_of_mem _ hg)

theorem Frame.AllRegular.openElse {start : Nat} (h : Frame.AllRegular c m frames)
    (hstart : c.Marks start m) :
    Frame.AllRegular c m (Reader.openElse start frames) := by
  -- the top frame with its else opened has the same expressions, attributes and contents
  have hfront : ∀ {f g : Frame} {rest}, Frame.AllRegular c m (f :: rest) →
    g.expressions = f.expressions →
      g.attributes = f.attributes → (∀ k ∈ g.starts, k ∈ f.starts ∨ k = start) →
      (∀ x ∈ g.contents, x ∈ f.contents) → Frame.AllRegular c m (g :: rest) := by
    intro f g rest hall hexpressions hattributes hstarts hsub x hx
    obtain ⟨hspans, hmarked, hstarts', hcontents⟩ := hall f List.mem_cons_self
    rcases List.mem_cons.1 hx with rfl | hx
    · refine ⟨?_, ⟨hattributes ▸ hmarked.attributes, hexpressions ▸ hmarked.expressions⟩,
        fun k hk => ?_, allRegular_of_mem fun y hy => hcontents.of_mem (hsub y hy)⟩
      · rw [DistinctSpans, hexpressions]
        exact hspans
      · rcases hstarts k hk with hk | rfl
        · exact hstarts' k hk
        · exact hstart
    · exact hall x (List.mem_cons_of_mem _ hx)
  unfold Reader.openElse
  split
  · exact hfront h rfl rfl (by simp [starts]) fun x hx =>
      List.mem_append_left _ (by simpa [contents] using hx)
  · exact hfront h rfl rfl (by simp [starts]) fun x hx =>
      List.mem_append_left _ (by simpa [contents] using hx)
  · exact h

theorem Frame.AllRegular.closeIf {t : Trim} (h : Frame.AllRegular c m frames) (hmarks : c.Marks m n)
    (hclose : closeIf t m n none frames = .ok frames') : Frame.AllRegular c n frames' := by
  refine (closeIf_invariant (P := Frame.AllRegular c m) (fun _ h => h) ?_ h hclose).later hmarks
  intro start blank condition elseIf children otherwise rest hall
  obtain ⟨hspans, hmarked, hstarts, hcontents⟩ := hall _ List.mem_cons_self
  have hrest : Frame.AllRegular c m rest := fun g hg => hall g (List.mem_cons_of_mem _ hg)
  have hothers : ∀ k ∈ otherwise.map Prod.fst, c.Marks k m :=
    fun k hk => hstarts k (List.mem_cons_of_mem _ (Option.mem_toList.2 hk))
  exact hrest.appendNode (allRegular_one ⟨elsePart_isFragment, hspans,
    (hstarts start List.mem_cons_self).trans hmarks, nofun, hmarked.expressions⟩
    (allRegular_parts hothers hcontents))

/-- A step keeps what holds of all that is open. -/
theorem Reader.Change.allRegular (h : Change c n frames frames') (hb : b.LeadsTo c)
    (hmarks : b.Marks c.offset n) (hframes : Frame.AllRegular b c.offset frames) :
    Frame.AllRegular b n frames' := by
  have hnothing : PromptMarkup.AllRegular b [] := fun x hx => nomatch hx
  have hlater : Frame.AllRegular b n frames := hframes.later hmarks
  -- a frame that opens here has nothing in it yet and starts here
  have hpush : ∀ {f : Frame} {rest}, f.DistinctSpans → f.Marked c → (∀ k ∈ f.starts, k = c.offset) →
      f.contents = [] → Frame.AllRegular b n rest → Frame.AllRegular b n (f :: rest) := by
    intro f rest hspans hmarked hstarts hf hrest g hg
    rcases List.mem_cons.1 hg with rfl | hg
    · exact ⟨hspans, hmarked.behind hb, fun k hk => hstarts k hk ▸ hmarks, hf ▸ hnothing⟩
    · exact hrest g hg
  cases h with
  | added leaf noElse spans marked =>
    exact hlater.appendNode (allRegular_leaf leaf noElse spans (marked.behind hb))
  | opened empty spans marked starts => exact hpush spans marked (by simp [starts]) empty hlater
  | otherwise => exact hlater.openElse hmarks
  | elseIf condition marked =>
    refine hpush (List.nodup_singleton _) ⟨nofun, fun e he => ?_⟩
      (fun k hk => ?_) rfl (hlater.openElse hmarks)
    · exact List.mem_singleton.1 he ▸ marked
    · exact List.mem_singleton.1 hk
  | closedIf h => exact hframes.closeIf hmarks h
  | closedFor h =>
    obtain ⟨s, blank, header, children, otherwise, rest, rfl, rfl⟩ := closeFor_eq_ok h
    obtain ⟨hspans, hmarked, hstarts, hcontents⟩ := hframes _ List.mem_cons_self
    have hrest : Frame.AllRegular b c.offset rest := fun g hg =>
      hframes g (List.mem_cons_of_mem _ hg)
    have hothers : ∀ k ∈ otherwise.map Prod.fst, b.Marks k c.offset :=
      fun k hk => hstarts k (List.mem_cons_of_mem _ (Option.mem_toList.2 hk))
    -- the loop becomes one node, and its two parts hold what the frame held
    exact (hrest.later hmarks).appendNode (allRegular_one ⟨elsePart_isFragment, hspans,
      (hstarts s List.mem_cons_self).trans hmarks, nofun, hmarked.expressions⟩
      (allRegular_parts hothers hcontents))
  | closedElement h =>
    obtain ⟨start, as, children, rest, rfl, rfl⟩ := closeElement_eq_ok h
    obtain ⟨hspans, hmarked, hstarts, hcontents⟩ := hframes _ List.mem_cons_self
    have hrest : Frame.AllRegular b c.offset rest := fun g hg =>
      hframes g (List.mem_cons_of_mem _ hg)
    exact (hrest.later hmarks).appendNode (allRegular_one ⟨fun o ho => (nomatch ho), hspans,
      (hstarts start List.mem_cons_self).trans hmarks, hmarked.attributes,
      hmarked.expressions⟩ hcontents)

end AllRegular

namespace Reader

/-- A step moves on, over at least one character unless the text is at its end, and changes the
frames that are open; or it ends with a problem of the text. -/
structure Advances (r : Reader) (x : Except Problem Reader) : Prop where
  ok : ∀ r', x = .ok r' → r.cursor.step.LeadsTo r'.cursor ∧
    Change r.cursor r'.cursor.offset r.frames r'.frames
  error : ∀ p, x = .error p → p.Own r.cursor

section Advances

variable {r : Reader}

theorem advances_error {p : Problem} (h : p.Own r.cursor) : r.Advances (.error p) :=
  ⟨fun _ heq => (nomatch heq), fun _ heq => Except.error.inj heq ▸ h⟩

theorem advances_ok {c : Cursor} {frames : List Frame} (h : r.cursor.step.LeadsTo c)
    (hchange : Change r.cursor c.offset r.frames frames) : r.Advances (.ok ⟨c, frames⟩) := by
  refine ⟨fun r' heq => ?_, fun _ heq => nomatch heq⟩
  obtain rfl := Except.ok.inj heq
  exact ⟨h, hchange⟩

theorem advances_expectedHere {c : Cursor} (h : r.cursor.LeadsTo c) (expected : String) :
    r.Advances (.error (expectedHere c expected)) :=
  advances_error ((own_expectedHere c expected).behind h)

theorem advances_bind {α : Type} {place : α → Cursor} {P : α → Prop} {x : Except Problem α}
    {f : α → Except Problem Reader} (hx : Lands r.cursor.step place P x)
    (hf : ∀ a, r.cursor.step.LeadsTo (place a) → P a → r.Advances (f a)) :
    r.Advances (x >>= f) := by
  cases x with
  | error p => exact advances_error ((hx.error p rfl).behind (Cursor.LeadsTo.refl _).step)
  | ok a =>
    obtain ⟨hplace, ha⟩ := hx.ok a rfl
    exact hf a hplace ha

/-- The end of a mustache follows, and nothing else. -/
theorem advances_closing {c : Cursor} (h : r.cursor.step.LeadsTo c)
    {f : Cursor → Except Problem Reader}
    (hf : ∀ c', r.cursor.step.LeadsTo c' → c.LeadsTo c' → r.Advances (f c')) :
    r.Advances (takeClosing c >>= f) :=
  advances_bind ((lands_takeClosing c).behind h) fun c' h' ⟨hbehind, _⟩ => hf c' h' hbehind

/-- A frame is closed. -/
theorem advances_close {x : Except Problem (List Frame)} {c : Cursor} (h : r.cursor.step.LeadsTo c)
    (hchange : ∀ frames, x = .ok frames → Change r.cursor c.offset r.frames frames)
    (hproblem : ∀ p, x = .error p → ∃ fault, p = ⟨fault, r.cursor.offset, c.offset, none, none⟩) :
    r.Advances (x >>= fun frames => pure ⟨c, frames⟩) := by
  cases x with
  | error p =>
    obtain ⟨fault, rfl⟩ := hproblem p rfl
    exact advances_error (Problem.own_of_marks ((Cursor.LeadsTo.refl _).marks h.of_step))
  | ok frames => exact advances_ok h (hchange frames rfl)

theorem closeIf_eq_error {t : Trim} {closeStart stop : Nat} {frames : List Frame} {p : Problem}
    (h : closeIf t closeStart stop none frames = .error p) :
    ∃ fault, p = ⟨fault, closeStart, stop, none, none⟩ := by
  induction hlength : frames.length generalizing frames with
  | zero =>
    obtain rfl := List.length_eq_zero_iff.1 hlength
    exact ⟨_, (Except.error.inj h).symm⟩
  | succ length ih =>
    cases frames with
    | nil => exact nomatch hlength
    | cons f rest =>
      cases f with
      | ifBlock start blank condition elseIf children otherwise =>
        rw [closeIf_ifBlock] at h
        dsimp only at h
        split at h
        · exact ih h (by rw [length_appendNode]; exact Nat.succ.inj hlength)
        · exact nomatch h
      | _ => exact ⟨_, (Except.error.inj h).symm⟩

theorem closeFor_eq_error {blankAfter : Bool} {closeStart stop : Nat} {frames : List Frame}
    {p : Problem} (h : closeFor blankAfter closeStart stop frames = .error p) :
    ∃ fault, p = ⟨fault, closeStart, stop, none, none⟩ := by
  unfold closeFor at h
  split at h
  · exact nomatch h
  · exact ⟨_, (Except.error.inj h).symm⟩

theorem closeElement_eq_error {name : String} {closeStart stop : Nat} {frames : List Frame}
    {p : Problem} (h : closeElement name closeStart stop frames = .error p) :
    ∃ fault, p = ⟨fault, closeStart, stop, none, none⟩ := by
  unfold closeElement at h
  split at h
  · split at h
    · exact nomatch h
    · exact ⟨_, (Except.error.inj h).symm⟩
  · exact ⟨_, (Except.error.inj h).symm⟩

/-- A node without expressions is added. -/
theorem advances_plain {c : Cursor} {n : Node} (h : r.cursor.step.LeadsTo c)
    (htaken : n.Taken r.cursor c.offset) (hleaf : n.childNodes = []) (hnone : n.elsePart? = none)
    (hattributes : n.attributes = []) (hexpressions : n.expressions = [])
    (htag : n.tagStart? = none) :
    r.Advances (.ok (r.add c n)) := by
  refine advances_ok h (.added hleaf hnone ?_ ⟨?_, ?_, ?_⟩ ?_ htaken)
  · rw [Node.DistinctSpans, hexpressions]
    exact List.nodup_nil
  · rw [htaken.info]
    exact (Cursor.LeadsTo.refl _).marks h.of_step
  · rw [hattributes]
    exact nofun
  · rw [hexpressions]
    exact nofun
  · rw [htag]
    exact nofun

/-- What is wrong with front matter lies in it, wherever its reader puts it. -/
theorem own_readConfig [ConfigReader] {b c : Cursor} {length : Nat} {p : Problem} (h : b.LeadsTo c)
    (hread : readConfig (c.rest.take length) c.offset (c.move length).offset = .error p) :
    p.Own b := by
  unfold readConfig at hread
  split at hread
  · exact nomatch hread
  · split at hread
    · exact nomatch hread
    -- the body is refused; the place the reader names lies inside the body
    · obtain rfl := Except.error.inj hread
      exact Problem.own_of_marks (h.marks ⟨length, rfl⟩)
    · next refusal _ =>
      obtain rfl := Except.error.inj hread
      have hplace :
        b.Meets (c.offset + (refusal.place.map (Text.offsetAt (c.rest.take length))).getD 0) := by
        refine Cursor.Meets.behind ?_ h
        cases refusal.place with
        | none => exact Cursor.meets_self c
        | some place =>
          exact Cursor.meets_of_isBoundary (List.take_prefix _ _) (Text.isBoundary_offsetAt _ place)
      exact Problem.own_of_marks ⟨Nat.le_refl _, hplace, hplace⟩

theorem advances_config [ConfigReader] (hsees : seesConfig r.cursor r.frames = true) :
    r.Advances r.config := by
  have hbody : r.cursor.step.LeadsTo (r.cursor.moveWhile (· != '\n')).step :=
    ((Cursor.LeadsTo.refl _).moveWhile _).step_step
  unfold config
  dsimp only
  split
  · exact advances_expectedHere (.refl _) _
  -- the closing line was found, so the body divides the front matter
  · next length hlength =>
    have hfront := frontMatter_of_seesConfig hsees hlength
    cases hread : readConfig ((r.cursor.moveWhile (· != '\n')).step.rest.take length)
      (r.cursor.moveWhile (· != '\n')).step.offset
      ((r.cursor.moveWhile (· != '\n')).step.move length).offset with
    | error p => exact advances_error (own_readConfig hbody.of_step hread)
    | ok value =>
      refine advances_plain ((hbody.move length).moveWhile _)
        ⟨rfl, nofun, nofun, fun info value' raw' heq => ?_⟩ rfl rfl rfl rfl rfl
      obtain ⟨-, -, rfl⟩ := Node.config.inj heq
      rwa [String.toList_ofList]

theorem advances_comment : r.Advances r.comment := by
  unfold comment
  dsimp only
  split
  · exact advances_error (Problem.own_of_marks
      ⟨Nat.le_add_right _ _, Cursor.meets_self _, Cursor.meets_final _⟩)
  · have hbody : r.cursor.step.LeadsTo (r.cursor.move 2) := (Cursor.LeadsTo.refl _).step
    exact advances_plain (hbody.move _) ⟨rfl, nofun, nofun, nofun⟩ rfl rfl rfl rfl rfl

theorem advances_text : r.Advances (.ok r.text) := by
  have htext := leadsTo_takeText_step r.frames r.cursor.rest.length r.cursor
  refine advances_plain htext ⟨rfl, nofun, fun info data heq => ?_, nofun⟩ rfl rfl rfl rfl rfl
  obtain ⟨-, rfl⟩ := Node.text.inj heq
  obtain ⟨s, hrest, hoffset, hdata⟩ := takeText_spec (Nat.lt_succ_self _) r.frames true []
  exact ⟨s, _, hrest, hoffset, congrArg String.ofList hdata⟩

theorem advances_ifOpen {c : Cursor} (h : r.cursor.step.LeadsTo c) : r.Advances (r.ifOpen c) := by
  unfold ifOpen
  refine advances_bind ((lands_takeExpression c).behind h) fun found h₁ ⟨_, hcondition⟩ => ?_
  have hmarked : ∀ e ∈ [found.1], e.Embedded r.cursor := fun e he =>
    ((hcondition.inside e he).1).behind h.of_step
  refine advances_closing h₁ fun c₂ h₂ _ => ?_
  exact advances_ok h₂ (.opened rfl (List.nodup_singleton _) ⟨nofun, hmarked⟩ rfl nofun rfl
    fun x hx => (Option.some.inj hx).symm)

/-- The index variable of a `for`, if there is one. -/
def takeIndex (c : Cursor) : Except Problem (Option String × Cursor) :=
  if c.sees "," then
    (takeName "an index variable" c.step.skipBlank).map fun found =>
    (some found.1, found.2.skipBlank)
  else .ok (none, c)

theorem lands_takeIndex (c : Cursor) : Lands c Prod.snd (fun _ => True) (takeIndex c) := by
  unfold takeIndex
  split
  · exact ((lands_takeName _ _).behind (Cursor.LeadsTo.refl c).step.skipBlank).map
      fun found h _ => ⟨h.skipBlank, trivial⟩
  · exact lands_ok (.refl c) trivial

/-- The key of a `for`, if there is one. -/
def takeKey (c : Cursor) : Except Problem (Option Expr × Cursor) :=
  if c.sees "(" then do
    let found ← takeExpression c.step
    let c := found.2.skipBlank
    if c.sees ")" then pure (some found.1, c.step.skipBlank) else .error (expectedHere c "`)`")
  else .ok (none, c)

theorem lands_takeKey (c : Cursor) :
    Lands c Prod.snd (fun found => StartsBetween c found.2.offset found.1.toList) (takeKey c) := by
  have hstep : c.LeadsTo c.step := (Cursor.LeadsTo.refl c).step
  unfold takeKey
  split
  · refine ((lands_takeExpression c.step).behind hstep).bind fun found h ⟨_, he⟩ => ?_
    dsimp only
    split
    · have hclosed : found.2.LeadsTo found.2.skipBlank.step.skipBlank :=
        (Cursor.LeadsTo.refl _).skipBlank.step.skipBlank
      exact lands_ok (h.trans hclosed) (he.mono hstep hclosed.offset_le)
    · exact lands_expectedHere h.skipBlank _
  · exact lands_ok (.refl c) .nil

theorem forOpen_eq (r : Reader) (c : Cursor) :
    r.forOpen c = (do
      let item ← takeName "a loop variable" c.skipBlank
      let index ← takeIndex item.2.skipBlank
      let key ← takeKey index.2
      if seesWord key.2 "in" then
        let iterable ← takeExpression (key.2.move 2)
        let c ← takeClosing iterable.2
        return r.push c (.forBlock r.cursor.offset (blankBefore r.cursor)
          ⟨item.1, index.1, key.1, iterable.1⟩ [] none)
      else .error (expectedHere key.2 "`in`")) := by
  unfold forOpen takeIndex takeKey
  simp only [ite_bind]
  refine congrArg (takeName _ _ >>= ·)
    (funext fun item => congrArg (_ >>= ·) (funext fun index => ?_))
  rw [← bind_assoc (m := Except Problem), ite_bind]

theorem advances_forOpen {c : Cursor} (h : r.cursor.step.LeadsTo c) : r.Advances (r.forOpen c) := by
  rw [forOpen_eq]
  refine advances_bind ((lands_takeName _ _).behind h.skipBlank) fun item h₁ _ => ?_
  refine advances_bind ((lands_takeIndex _).behind h₁.skipBlank) fun index h₂ _ => ?_
  refine advances_bind ((lands_takeKey _).behind h₂) fun key h₃ ⟨_, hkey⟩ => ?_
  split
  · refine advances_bind ((lands_takeExpression _).behind (h₃.move 2))
      fun iterable h₄ ⟨hbehind, hiterable⟩ => ?_
    -- the key, if there is one, starts in front of the place where the items are read
    have hall : StartsBetween r.cursor iterable.2.offset (key.1.toList ++ [iterable.1]) :=
      (hkey.mono h₂.of_step (Cursor.offset_le_move 2 _)).append hiterable
        (h₃.of_step.move 2) hbehind.offset_le
    have hperm : (iterable.1 :: key.1.toList).Perm (key.1.toList ++ [iterable.1]) :=
      (List.perm_append_singleton iterable.1 key.1.toList).symm
    refine advances_closing h₄ fun c₂ h₅ _ =>
      advances_ok h₅ (.opened rfl ?_ ⟨nofun, fun e he => ?_⟩ rfl nofun rfl
      fun x hx => (Option.some.inj hx).symm)
    · exact ((hperm.map Expr.span).nodup_iff).2 hall.nodup_spans
    · exact (hall.inside e (hperm.subset he)).1
  · exact advances_expectedHere h₃.of_step _

theorem advances_elseClause {c : Cursor} (h : r.cursor.step.LeadsTo c) :
    r.Advances (r.elseClause c) := by
  unfold elseClause
  dsimp only
  split
  · exact advances_error (Problem.own_of_marks ((Cursor.LeadsTo.refl _).marks h.of_step.skipBlank))
  · next haccepts =>
    rw [Bool.not_eq_true, Bool.not_eq_false'] at haccepts
    split
    · next helseIf =>
      rw [helseIf] at haccepts
      refine advances_bind ((lands_takeExpression _).behind (h.skipBlank.move 2))
        fun found h₁ ⟨_, he⟩ => ?_
      refine advances_closing h₁ fun c₂ h₂ _ => advances_ok h₂ (.elseIf found.1 ?_ haccepts)
      exact (he.inside found.1 List.mem_cons_self).1.behind (h.skipBlank.move 2).of_step
    · next helse =>
      rw [Bool.not_eq_true] at helse
      rw [helse] at haccepts
      exact advances_closing h.skipBlank fun c₁ h₁ _ => advances_ok h₁ (.otherwise haccepts)

theorem advances_mustache : r.Advances r.mustache := by
  have hstart : r.cursor.step.LeadsTo (r.cursor.move 2).skipBlank :=
    (Cursor.LeadsTo.refl _).step.skipBlank
  unfold mustache
  dsimp only
  split
  · exact advances_ifOpen (hstart.move 2)
  · split
    · exact advances_elseClause (hstart.move 4)
    · split
      · exact advances_closing (hstart.move 5) fun c h _ =>
          advances_close h (fun _ => .closedIf) fun _ => closeIf_eq_error
      · split
        · exact advances_forOpen (hstart.move 3)
        · split
          · exact advances_closing (hstart.move 6) fun c h _ =>
              advances_close h (fun _ => .closedFor) fun _ => closeFor_eq_error
          -- no keyword stands here, so the mustache holds an expression
          · refine advances_bind ((lands_takeExpression _).behind hstart) fun found h₁ ⟨_, he⟩ => ?_
            refine advances_closing h₁ fun c₂ h₂ _ => advances_ok h₂ ?_
            refine .added rfl rfl (List.nodup_singleton _) ⟨?_, nofun, fun e hmem => ?_⟩ nofun
              ⟨rfl, nofun, nofun, nofun⟩
            · exact (Cursor.LeadsTo.refl _).marks h₂.of_step
            · exact (he.inside e hmem).1.behind hstart.of_step

theorem advances_tag (h : r.cursor.rest ≠ []) : r.Advances r.tag := by
  have hstep : r.cursor.LeadsTo r.cursor.step := (Cursor.LeadsTo.refl _).step
  have hbody : r.cursor.step.LeadsTo r.cursor.step := .refl _
  have hstart : r.cursor.offset < r.cursor.step.offset := Cursor.offset_lt_step h
  unfold tag
  dsimp only
  split
  · split
    · exact advances_close ((hbody.step.move _).skipBlank.step) (fun _ => .closedElement)
        fun _ => closeElement_eq_error
    · exact advances_expectedHere (hbody.step.move _).skipBlank.of_step _
  -- an opening tag: its name, its attributes, then how it ends
  · generalize hname : List.takeWhile isTagNamePart r.cursor.step.rest = name
    have hbehind : r.cursor.step.LeadsTo (r.cursor.step.move name.length) :=
      (Cursor.LeadsTo.refl _).move _
    have hnothing : ∀ a ∈ ([] : List Attribute), r.cursor.step.Marks a.span.start a.span.stop :=
      nofun
    refine advances_bind (lands_takeAttributes _ hbehind hnothing .nil)
      fun found hfound ⟨hspans, hexpressions⟩ => ?_
    have hmarked : ∀ a ∈ found.1, r.cursor.Marks a.span.start a.span.stop :=
      fun a ha => (hspans a ha).behind hstep
    have hexprs : ∀ e ∈ found.1.flatMap Attribute.expressions, e.Embedded r.cursor :=
      fun e he => (hexpressions.inside e he).1.behind hstep
    have hc : r.cursor.offset < found.2.skipBlank.offset :=
      Nat.lt_of_lt_of_le hstart hfound.skipBlank.offset_le
    split
    · have hstop := Nat.lt_of_lt_of_le hc (Cursor.offset_le_move 2 found.2.skipBlank)
      refine advances_ok (hfound.skipBlank.move 2) (.added rfl rfl hexpressions.nodup_spans
        ⟨?_, hmarked, hexprs⟩
        (fun k hk => ⟨(Option.some.inj hk).symm, hstop⟩) ⟨rfl, nofun, nofun, nofun⟩)
      exact (Cursor.LeadsTo.refl _).marks (hfound.skipBlank.move 2).of_step
    · split
      · have hstop := Nat.lt_of_lt_of_le hc (Cursor.offset_le_step found.2.skipBlank)
        exact advances_ok hfound.skipBlank.step (.opened rfl hexpressions.nodup_spans
          ⟨hmarked, hexprs⟩ rfl (fun k hk => ⟨(Option.some.inj hk).symm, hstop⟩) rfl nofun)
      · exact advances_expectedHere hfound.skipBlank.of_step _

theorem seesTag_ne_nil {s : List Char} (h : seesTag s = true) : s ≠ [] := by
  rintro rfl
  exact nomatch h

/-- A step moves on and does one of the things that a step may do, or ends with a problem of the
text. -/
theorem change_step [ConfigReader] (r : Reader) : r.Advances r.step := by
  unfold step
  dsimp only
  split
  · next hsees => exact advances_config hsees
  · split
    · exact advances_comment
    · split
      · exact advances_mustache
      · split
        · next htag => exact advances_tag (seesTag_ne_nil htag)
        · exact advances_text

end Advances

end Reader

/-- A step that is bounded by the text that is left comes to the end of the text. -/
theorem Reader.atEnd_of_run [ConfigReader] {r r' : Reader} {bound : Nat}
    (hbound : r.cursor.rest.length < bound) (h : r.run bound = .ok r') : r'.cursor.rest = [] := by
  induction bound generalizing r with
  | zero => exact absurd hbound (Nat.not_lt_zero _)
  | succ bound ih =>
    unfold Reader.run at h
    split at h
    · next hend => exact Except.ok.inj h ▸ List.isEmpty_iff.1 hend
    · next hend =>
      split at h
      · next r₁ hstep =>
        obtain ⟨⟨n, hn⟩, -⟩ := (change_step r).ok r₁ hstep
        refine ih ?_ h
        have hpos : 0 < r.cursor.rest.length := List.length_pos_iff.2 fun hnil =>
          hend (List.isEmpty_iff.2 hnil)
        rw [hn, Cursor.rest_move, Cursor.rest_step, List.length_drop, List.length_drop]
        omega
      · exact nomatch h

/-- What a step preserves, the text not being at its end, a run preserves. -/
theorem Reader.invariant_run [ConfigReader] {P : Reader → Prop}
    (hstep : ∀ r r', P r → r.cursor.rest ≠ [] → r.step = .ok r' → P r') {bound : Nat}
    {r r' : Reader} (h : P r) (hrun : r.run bound = .ok r') : P r' := by
  induction bound generalizing r with
  | zero => exact Except.ok.inj hrun ▸ h
  | succ bound ih =>
    unfold Reader.run at hrun
    split at hrun
    · exact Except.ok.inj hrun ▸ h
    · next hend =>
      split at hrun
      · next hnext => exact ih (hstep _ _ h (fun hnil => hend (List.isEmpty_iff.2 hnil)) hnext) hrun
      · exact nomatch hrun

/-! ### Templates -/

/-- Of two elements that were read the later one starts behind the earlier one, all in front of the
cursor, and every node is regular.  The reader came from `c`. -/
structure Reader.Sound (c : Cursor) (r : Reader) : Prop where
  place : c.LeadsTo r.cursor
  sorted : (Frame.tagsAll r.frames).Pairwise (· < ·)
  passed : ∀ k ∈ Frame.tagsAll r.frames, k < r.cursor.offset
  regular : Frame.AllRegular c r.cursor.offset r.frames

theorem Reader.sound_ofText (s : List Char) : (Reader.ofText s).Sound (Cursor.ofText s) := by
  refine ⟨.refl _, List.Pairwise.nil, fun k hk => (nomatch hk), fun f hf => ?_⟩
  obtain rfl := List.mem_singleton.1 hf
  exact ⟨List.nodup_nil, ⟨nofun, nofun⟩, nofun, fun n hn => nomatch hn⟩

theorem Reader.Sound.step [ConfigReader] {c : Cursor} {r r' : Reader} (h : r.Sound c)
    (hstep : r.step = .ok r') : r'.Sound c := by
  obtain ⟨hbehind, hchange⟩ := (change_step r).ok r' hstep
  have hplace : r.cursor.LeadsTo r'.cursor := hbehind.of_step
  obtain ⟨new, hsub, hnew⟩ := hchange.tags
  refine ⟨h.place.trans hplace, ?_, fun k hk => ?_,
    hchange.allRegular h.place (h.place.marks hplace) h.regular⟩
  · refine List.Pairwise.sublist hsub (List.pairwise_append.2 ⟨h.sorted, ?_, fun a ha b hb => ?_⟩)
    · rcases hnew with rfl | ⟨rfl, -⟩
      · exact List.Pairwise.nil
      · exact List.pairwise_singleton _ _
    · rcases hnew with rfl | ⟨rfl, -⟩
      · exact nomatch hb
      · exact List.mem_singleton.1 hb ▸ h.passed a ha
  · rcases List.mem_append.1 (hsub.subset hk) with hk | hk
    · exact Nat.lt_of_lt_of_le (h.passed k hk) hplace.offset_le
    · rcases hnew with rfl | ⟨rfl, hlt⟩
      · exact nomatch hk
      · exact List.mem_singleton.1 hk ▸ hlt

/-- A run ends with a reader that is sound, or with a problem of the text. -/
theorem Reader.Sound.run [ConfigReader] {c : Cursor} {r : Reader} (h : r.Sound c) (bound : Nat) :
    (∀ r', r.run bound = .ok r' → r'.Sound c) ∧ ∀ p, r.run bound = .error p → p.Own c := by
  induction bound generalizing r with
  | zero => exact ⟨fun r' hrun => Except.ok.inj hrun ▸ h, fun p hrun => nomatch hrun⟩
  | succ bound ih =>
    unfold Reader.run
    split
    · exact ⟨fun r' hrun => Except.ok.inj hrun ▸ h, fun p hrun => nomatch hrun⟩
    · split
      · next hstep => exact ih (h.step hstep)
      · next q hstep =>
        refine ⟨fun r' hrun => (nomatch hrun), fun p hrun => ?_⟩
        exact Except.error.inj hrun ▸ ((change_step r).error q hstep).behind h.place

namespace Node

theorem tagStart?_number (n : Node) (next : Nat) : (n.number next).1.tagStart? = n.tagStart? := by
  cases n <;> rfl

theorem tagsAll_numberAll {ns : List Node} (h : ∀ n ∈ ns, ∀ next, (n.number next).1.tags = n.tags)
    (next : Nat) : tagsAll (numberAll next ns).1 = tagsAll ns := by
  induction ns generalizing next with
  | nil => rfl
  | cons n rest ih =>
    show tagsAll ((n.number next).1 :: (numberAll (n.number next).2 rest).1) = _
    rw [tagsAll_cons, tagsAll_cons, h n List.mem_cons_self,
      ih fun m hm => h m (List.mem_cons_of_mem _ hm)]

theorem tags_number (n : Node) (next : Nat) : (n.number next).1.tags = n.tags := by
  induction n using Node.induct generalizing next with
  | step n ih =>
    rw [tags_eq, tags_eq, tagStart?_number, (number_eq n next).2.1,
      tagsAll_numberAll fun m hm next => ih m hm next]

theorem ElseIsFragment.number {n : Node} (h : n.ElseIsFragment) (next : Nat) :
    (n.number next).1.ElseIsFragment := by
  have hother : ∀ {o : Option Node} {k}, (∀ m ∈ o, ∃ info children, m = fragment info children) →
      ∀ m ∈ (numberElse k o).1, ∃ info children, m = fragment info children := by
    intro o k ho m hm
    cases o with
    | none => exact nomatch hm
    | some x =>
      obtain ⟨info, children, rfl⟩ := ho x rfl
      exact ⟨_, _, (Option.some.inj hm).symm⟩
  cases n with
  | ifBlock info condition elseIf children otherwise => exact hother h
  | forBlock info header children otherwise => exact hother h
  | _ => exact fun o ho => nomatch ho

theorem expressions_number (n : Node) (next : Nat) :
    (n.number next).1.expressions = n.expressions := by
  cases n <;> rfl

theorem Marked.number {c : Cursor} {n : Node} (h : n.Marked c) (next : Nat) :
    (n.number next).1.Marked c := by
  have hspan : (n.number next).1.info.start = n.info.start ∧
    (n.number next).1.info.stop = n.info.stop := by
    cases n <;> exact ⟨rfl, rfl⟩
  have hattributes : (n.number next).1.attributes = n.attributes := by
    cases n <;> rfl
  refine ⟨?_, hattributes ▸ h.attributes, expressions_number n next ▸ h.expressions⟩
  rw [hspan.1, hspan.2]
  exact h.info

theorem Regular.number {c : Cursor} {n : Node} (h : n.Regular c) (next : Nat) :
    (n.number next).1.Regular c := by
  refine ⟨h.elseIsFragment.number next, ?_, h.marked.number next⟩
  rw [DistinctSpans, expressions_number]
  exact h.spans

end Node

/-- Every `else` part of a template that was read is a fragment, the expressions of a node have
different spans, and everything lies between places. -/
theorem Template.regular_of_read [ConfigReader] {source : String} {t : Template}
    (h : Template.read source = .ok t) :
    ∀ n ∈ t.root.nodes, n.Regular (Cursor.ofText source.toList) := by
  obtain ⟨r, children, hrun, hframes, rfl⟩ := read_eq_ok h
  have hsound := ((Reader.sound_ofText source.toList).run _).1 r hrun
  have hchildren : AllRegular (Cursor.ofText source.toList) children.reverse :=
    (hsound.regular (.root children) (hframes ▸ List.mem_cons_self)).contents
  have hroot : AllRegular (Cursor.ofText source.toList)
    [.fragment ⟨0, 0, r.cursor.offset⟩ children.reverse] := by
    refine allRegular_one ⟨fun o ho => (nomatch ho), List.nodup_nil, ?_, nofun, nofun⟩ hchildren
    exact (Cursor.LeadsTo.refl _).marks hsound.place
  intro n hn
  obtain ⟨m, hm, k, rfl⟩ := Node.mem_nodes_number hn
  exact (hroot m (by simpa [Node.nodesAll] using hm)).number k

/-- The problem with a template is one of its text. -/
theorem Template.read_eq_error [ConfigReader] {source : String} {p : Problem}
    (h : Template.read source = .error p) :
    ∃ q : Problem, q.Own (Cursor.ofText source.toList) ∧ p = q.withSource source := by
  have hrun := (Reader.sound_ofText source.toList).run (source.toList.length + 1)
  unfold read at h
  dsimp only [bind, Except.bind] at h
  cases hresult : Reader.run (source.toList.length + 1) (Reader.ofText source.toList) with
  | error q =>
    rw [hresult] at h
    exact ⟨q, hrun.2 q hresult, (Except.error.inj h).symm⟩
  | ok r =>
    have hsound := hrun.1 r hresult
    have hend : (Cursor.ofText source.toList).Marks r.cursor.offset r.cursor.offset :=
      hsound.place.marks (.refl _)
    rw [hresult] at h
    dsimp only at h
    split at h
    · exact nomatch h
    -- a block or tag was left open: the problem stands at its start
    · next f rest _ hframes =>
      obtain rfl := Except.error.inj h
      have hf := (hsound.regular f (hframes ▸ List.mem_cons_self)).starts
      refine ⟨_, ?_, rfl⟩
      cases f with
      | root children => exact Problem.own_of_marks hend
      | ifBlock start => exact Problem.own_of_marks (hf start List.mem_cons_self)
      | forBlock start => exact Problem.own_of_marks (hf start List.mem_cons_self)
      | element start => exact Problem.own_of_marks (hf start List.mem_cons_self)
    · exact ⟨_, Problem.own_of_marks hend, (Except.error.inj h).symm⟩

/-- Of two elements of a template that was read the later one starts behind the earlier one. -/
theorem Template.tags_of_read [ConfigReader] {source : String} {t : Template}
    (h : Template.read source = .ok t) :
    t.root.tags.Pairwise (· < ·) := by
  obtain ⟨r, children, hrun, hframes, rfl⟩ := read_eq_ok h
  have hsound := ((Reader.sound_ofText source.toList).run _).1 r hrun
  have htags : (Node.fragment ⟨0, 0, r.cursor.offset⟩ children.reverse).tags =
      Frame.tagsAll r.frames := by
    rw [hframes, Node.tags_eq]
    rfl
  rw [Node.tags_number, htags]
  exact hsound.sorted

end PromptMarkup

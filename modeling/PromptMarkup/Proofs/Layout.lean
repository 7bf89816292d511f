/-
Where the nodes of a template stand in its text.

* `Span.Tiles`, `Span.Spaced` — spans that cover a piece of a text, and spans that come one after
  the other in it;
* `Node.Laid`, `Frame.Laid` — how the nodes lie that are directly inside of a node, or of what is
  open while a template is read, and what the texts among them say;
* `Reader.Laid.step`, `Reader.Laid.run` — the nodes that were read lie so at every step;
* `Template.covers_of_read` — the tree of a template covers its text: the nodes of the root leave no
  gap, everywhere one node comes behind the other, and no node sticks out of the block or element
  around it.

Design notes: what was read into a frame reaches up to the start of the frame on top of it, or to
the cursor (`Frame.AllLaid`); so a node that is added starts where the innermost frame ends.  An
`else if` ends with the whole chain, which is behind the end of the `else` part that it stands in:
what is in an `else` part is compared with the block around it and not with that part
(`Node.Encloses`).  Where white space is dropped, texts lose data or vanish, and the places of all
that stays are the same.
-/
import PromptMarkup.Proofs.Reading
import PromptMarkup.Yaml.Document

namespace PromptMarkup

open Text (Cursor byteLength)

/-! ### Spans -/

namespace Span

/-- Spans that cover everything between two offsets, one behind the other. -/
def Tiles : Nat → List Span → Nat → Prop
  | low, [], high => low = high
  | low, s :: rest, high => s.start = low ∧ Tiles s.stop rest high

/-- Spans that come one after the other between two offsets, none of them empty. -/
structure Spaced (low : Nat) (spans : List Span) (high : Nat) : Prop where
  apart : spans.Pairwise fun s t => s.stop ≤ t.start
  within : ∀ s ∈ spans, low ≤ s.start ∧ s.start < s.stop ∧ s.stop ≤ high

variable {low mid high high' : Nat} {spans spans' : List Span} {s : Span}

theorem Tiles.append (h : Tiles low spans s.start) : Tiles low (spans ++ [s]) s.stop := by
  induction spans generalizing low with
  | nil => exact ⟨h.symm, rfl⟩
  | cons t rest ih => exact ⟨h.1, ih h.2⟩

namespace Spaced

theorem nil : Spaced low [] high :=
  ⟨.nil, nofun⟩

theorem widen (h : Spaced low spans high) (hle : high ≤ high') : Spaced low spans high' :=
  ⟨h.apart, fun s hs => ⟨(h.within s hs).1, (h.within s hs).2.1,
    Nat.le_trans (h.within s hs).2.2 hle⟩⟩

/-- One more span stands behind the others. -/
theorem append (h : Spaced low spans mid) (hlow : low ≤ s.start) (hmid : mid ≤ s.start)
    (hs : s.start < s.stop) (hhigh : s.stop ≤ high) : Spaced low (spans ++ [s]) high := by
  refine ⟨List.pairwise_append.2 ⟨h.apart, List.pairwise_singleton _ _, fun t ht u hu => ?_⟩,
    fun t ht => ?_⟩
  · obtain rfl := List.mem_singleton.1 hu
    exact Nat.le_trans (h.within t ht).2.2 hmid
  · rcases List.mem_append.1 ht with ht | ht
    · obtain ⟨hstart, hne, hstop⟩ := h.within t ht
      exact ⟨hstart, hne, by omega⟩
    · obtain rfl := List.mem_singleton.1 ht
      exact ⟨hlow, hs, hhigh⟩

/-- Some of the spans may be left out. -/
theorem sublist (h : Spaced low spans high) (hsub : spans'.Sublist spans) :
    Spaced low spans' high :=
  ⟨h.apart.sublist hsub, fun s hs => h.within s (hsub.subset hs)⟩

end Spaced

end Span

/-! ### Nodes -/

namespace Node

/-- Where a node stands. -/
def span (n : Node) : Span :=
  ⟨n.info.start, n.info.stop⟩

/-- A sequence of nodes. -/
def isFragment : Node → Bool
  | fragment _ _ => true
  | _ => false

/-- A conditional or a loop: white space is dropped at the ends of its parts. -/
def trims : Node → Bool
  | ifBlock _ _ _ _ _ | forBlock _ _ _ _ => true
  | _ => false

/-- Where a text stands, and its data. -/
def text? : Node → Option (Span × String)
  | text info data => some (⟨info.start, info.stop⟩, data)
  | _ => none

/-- The nodes directly inside of a node, without its `else` part. -/
def front : Node → List Node
  | fragment _ children | element _ _ _ children => children
  | ifBlock _ _ _ children _ | forBlock _ _ children _ => children
  | _ => []

theorem elsePart?_of_trims {n : Node} (h : n.trims = false) : n.elsePart? = none := by
  cases n with
  | ifBlock info condition elseIf children otherwise => exact nomatch h
  | forBlock info header children otherwise => exact nomatch h
  | _ => rfl

theorem childNodes_eq (n : Node) : n.childNodes = n.front ++ n.elsePart?.toList := by
  cases n with
  | fragment info children => exact (List.append_nil children).symm
  | element info name as children => exact (List.append_nil children).symm
  | _ => rfl

/-- A node is directly around another one, or only `else` parts are between them; if it is no
sequence of nodes itself, it is the innermost block or element around the other one. -/
inductive Encloses (n : Node) : Node → Prop
  | child {m : Node} (mem : m ∈ n.childNodes) : Encloses n m
  | through {f m : Node} (around : Encloses n f) (fragment : f.isFragment = true)
    (mem : m ∈ f.childNodes) : Encloses n m

end Node

/-- What a text says is what stands at its place in the source, without the backslashes that stand
in front of two opening braces. -/
def Quotes (s : List Char) (x : Span × String) : Prop :=
  ∃ w, Text.slice? s x.1.start x.1.stop = some w ∧ x.2 = String.ofList (unescaped w)

/-- How the nodes directly inside of a node lie, and what the texts among them say unless it is a
block or an `else` part. -/
structure Node.Laid (s : List Char) (n : Node) : Prop where
  ordered : ∃ high, Span.Spaced n.info.start (n.childNodes.map span) high
  inside : n.isFragment = false → Span.Spaced n.info.start (n.childNodes.map span) n.info.stop ∧
    ∀ o ∈ n.elsePart?, Span.Spaced o.info.start (o.childNodes.map span) n.info.stop
  plain : ∀ m ∈ n.front, m.isFragment = false
  texts : n.isFragment = false → n.trims = false → ∀ m ∈ n.front, ∀ x ∈ m.text?, Quotes s x

/-- No node in a list is a sequence, and in each of them everything lies as it should. -/
def AllLaid (s : List Char) (ns : List Node) : Prop :=
  ∀ n ∈ ns, n.isFragment = false ∧ ∀ m ∈ n.nodes, m.Laid s

section Nodes

variable {s : List Char} {t : Trim} {ns : List Node} {n m : Node}

theorem AllLaid.append (h : AllLaid s ns) (hplain : n.isFragment = false)
    (hn : ∀ m ∈ n.nodes, m.Laid s) :
    AllLaid s (ns ++ [n]) := by
  intro m hm
  rcases List.mem_append.1 hm with hm | hm
  · exact h m hm
  · exact List.mem_singleton.1 hm ▸ ⟨hplain, hn⟩

/-- A node with nothing inside. -/
theorem laid_leaf (h : n.childNodes = []) : ∀ m ∈ n.nodes, m.Laid s := by
  have hparts := n.childNodes_eq
  rw [h] at hparts
  obtain ⟨hfront, helse⟩ := List.append_eq_nil_iff.1 hparts.symm
  rw [Option.toList_eq_nil_iff] at helse
  intro m hm
  rw [Node.nodes_eq, h] at hm
  obtain rfl := List.mem_singleton.1 hm
  refine ⟨⟨0, h ▸ .nil⟩, fun _ => ⟨h ▸ .nil, ?_⟩, ?_, fun _ _ => ?_⟩
  · rw [helse]
    exact nofun
  · rw [hfront]
    exact nofun
  · rw [hfront]
    exact nofun

/-- A sequence of nodes that come one after the other. -/
theorem laid_fragment {info : NodeInfo} {high : Nat}
    (hspaced : Span.Spaced info.start (ns.map Node.span) high)
    (hlaid : AllLaid s ns) : (Node.fragment info ns).Laid s :=
  ⟨⟨high, hspaced⟩, nofun, fun n hn => (hlaid n hn).1, nofun⟩

/-- Where white space is dropped, texts lose data or vanish. -/
theorem span_mapFirstText (f : List Char → List Char) (ns : List Node) :
    ((mapFirstText f ns).map Node.span).Sublist (ns.map Node.span) := by
  rcases mapFirstText_cases f ns with heq | ⟨info, data, rest, rfl, heq | ⟨data', heq⟩⟩
  · rw [heq]
  · rw [heq]
    exact List.sublist_cons_self _ _
  · rw [heq]
    exact .refl _

theorem span_trimChildren (t : Trim) (ns : List Node) :
    ((trimChildren t ns).map Node.span).Sublist (ns.map Node.span) := by
  have hfront : ((if t.front then mapFirstText Text.trimStart ns else ns).map Node.span).Sublist
      (ns.map Node.span) := by
    split
    · exact span_mapFirstText _ _
    · exact .refl _
  unfold trimChildren
  dsimp only
  split
  · refine List.Sublist.trans ?_ hfront
    rw [List.map_reverse, ← List.reverse_sublist, List.reverse_reverse, ← List.map_reverse]
    exact span_mapFirstText _ _
  · exact hfront

theorem AllLaid.trimChildren (h : AllLaid s ns) : AllLaid s (trimChildren t ns) := by
  intro n hn
  rcases mem_trimChildren hn with hn | ⟨info, data, data', -, rfl⟩
  · exact h n hn
  · exact ⟨rfl, laid_leaf rfl⟩

end Nodes

/-! ### Frames -/

/-- How the nodes lie that were read into a block up to an offset. -/
structure Parted (s : List Char) (low : Nat) (ns : List Node) (part? : Option (Nat × List Node))
    (high : Nat) : Prop where
  le : low ≤ high
  front : Span.Spaced low (ns.map Node.span) ((part?.map Prod.fst).getD high)
  other : ∀ o ∈ part?, low ≤ o.1 ∧ o.1 ≤ high ∧ Span.Spaced o.1 (o.2.map Node.span) high
  laid : AllLaid s ns
  others : ∀ o ∈ part?, AllLaid s o.2

namespace Parted

variable {s : List Char} {low mid high closeStart : Nat} {front others : List Node}
  {other : Option (Nat × List Node)} {n : Node} {t : Trim}

theorem nil : Parted s low [] none low :=
  ⟨Nat.le_refl _, .nil, nofun, nofun, nofun⟩

theorem append_front (h : Parted s low front none n.info.start) (hn : n.info.start < n.info.stop)
    (hplain : n.isFragment = false) (hlaid : ∀ m ∈ n.nodes, m.Laid s) :
    Parted s low (front ++ [n]) none n.info.stop := by
  refine ⟨Nat.le_trans h.le (Nat.le_of_lt hn), ?_, nofun, h.laid.append hplain hlaid, nofun⟩
  rw [List.map_append]
  exact h.front.append h.le (Nat.le_refl _) hn (Nat.le_refl _)

theorem append_other {k : Nat} (h : Parted s low front (some (k, others)) n.info.start)
    (hn : n.info.start < n.info.stop) (hplain : n.isFragment = false)
    (hlaid : ∀ m ∈ n.nodes, m.Laid s) :
    Parted s low front (some (k, others ++ [n])) n.info.stop := by
  obtain ⟨hk, hle, hspaced⟩ := h.other _ rfl
  refine ⟨Nat.le_trans h.le (Nat.le_of_lt hn), h.front, fun o ho => ?_, h.laid, fun o ho => ?_⟩
  · obtain rfl := Option.some.inj ho
    refine ⟨hk, Nat.le_trans hle (Nat.le_of_lt hn), ?_⟩
    rw [List.map_append]
    exact hspaced.append hle (Nat.le_refl _) hn (Nat.le_refl _)
  · obtain rfl := Option.some.inj ho
    exact (h.others _ rfl).append hplain hlaid

/-- An `else` part is opened. -/
theorem openElse (h : Parted s low front none mid) (hle : mid ≤ high) :
    Parted s low front (some (mid, [])) high := by
  refine ⟨Nat.le_trans h.le hle, h.front, fun o ho => ?_, h.laid, fun o ho => ?_⟩
  · obtain rfl := Option.some.inj ho
    exact ⟨h.le, hle, .nil⟩
  · obtain rfl := Option.some.inj ho
    exact nofun

/-- The node of a block that is closed. -/
theorem laid_node (h : Parted s n.info.start front other high) (hhigh : high ≤ n.info.stop)
    (hfront : n.front = trimChildren t front)
    (helse : n.elsePart? = other.map fun o => .fragment ⟨0, o.1, closeStart⟩ (trimChildren t o.2))
    (hbelow : ∀ o ∈ other, o.1 < closeStart) (hclose : closeStart ≤ n.info.stop)
    (htexts : n.trims = false → ∀ m ∈ n.front, ∀ x ∈ m.text?, Quotes s x) :
    ∀ m ∈ n.nodes, m.Laid s := by
  have hspans : (n.front.map Node.span).Sublist (front.map Node.span) :=
    hfront ▸ span_trimChildren t front
  have hlaid : AllLaid s n.front := hfront ▸ h.laid.trimChildren
  -- the else part starts behind the front, so that the spans are in order
  have hinside : Span.Spaced n.info.start (n.childNodes.map Node.span) n.info.stop := by
    rw [Node.childNodes_eq, List.map_append]
    cases other with
    | none =>
      rw [helse, Option.map_none, Option.toList_none, List.map_nil, List.append_nil]
      exact (h.front.sublist hspans).widen hhigh
    | some o =>
      obtain ⟨hlow, -, -⟩ := h.other o rfl
      rw [helse]
      exact (h.front.sublist hspans).append hlow (Nat.le_refl o.1) (hbelow o rfl) hclose
  -- the fragment of an else part is laid out like any other
  have hparts : ∀ o ∈ n.elsePart?,
    Span.Spaced o.info.start (o.childNodes.map Node.span) n.info.stop ∧
      ∀ m ∈ o.nodes, m.Laid s := by
    intro o ho
    rw [helse] at ho
    obtain ⟨part, hpart, rfl⟩ := Option.map_eq_some_iff.1 ho
    obtain ⟨-, -, hspaced⟩ := h.other part hpart
    have hothers := (hspaced.sublist (span_trimChildren t part.2)).widen hhigh
    have hall : AllLaid s (trimChildren t part.2) := (h.others part hpart).trimChildren
    refine ⟨hothers, fun m hm => ?_⟩
    rw [Node.nodes_eq] at hm
    rcases List.mem_cons.1 hm with rfl | hm
    · exact ⟨⟨_, hothers⟩, nofun, fun m hm => (hall m hm).1, nofun⟩
    · obtain ⟨x, hx, hm⟩ := Node.mem_nodesAll.1 hm
      exact (hall x hx).2 m hm
  intro m hm
  rw [Node.nodes_eq] at hm
  rcases List.mem_cons.1 hm with rfl | hm
  · exact ⟨⟨_, hinside⟩, fun _ => ⟨hinside, fun o ho => (hparts o ho).1⟩,
      -- below the node everything was laid out before
      fun x hx => (hlaid x hx).1, fun _ => htexts⟩
  · obtain ⟨x, hx, hm⟩ := Node.mem_nodesAll.1 hm
    rw [Node.childNodes_eq] at hx
    rcases List.mem_append.1 hx with hx | hx
    · exact (hlaid x hx).2 m hm
    · exact (hparts x (Option.mem_toList.1 hx)).2 m hm

end Parted

namespace Frame

/-- Where an open block or element starts; the root starts with the text. -/
def start : Frame → Nat
  | root _ => 0
  | ifBlock start _ _ _ _ _ | forBlock start _ _ _ _ | element start _ _ _ => start

/-- The nodes in an open block or element, without its `else` part. -/
def front : Frame → List Node
  | root children | element _ _ _ children => children.reverse
  | ifBlock _ _ _ _ children _ | forBlock _ _ _ children _ => children.reverse

/-- The `else` part of an open block: where it starts, and the nodes in it. -/
def elsePart? : Frame → Option (Nat × List Node)
  | ifBlock _ _ _ _ _ otherwise | forBlock _ _ _ _ otherwise =>
    otherwise.map fun o => (o.1, o.2.reverse)
  | _ => none

/-- An open conditional or loop. -/
def trims : Frame → Bool
  | ifBlock _ _ _ _ _ _ | forBlock _ _ _ _ _ => true
  | _ => false

/-- How the nodes lie that were read into an open block or element up to an offset, and what the
texts among them say unless it is a block.  The nodes of the root leave no gap. -/
structure Laid (s : List Char) (high : Nat) (f : Frame) : Prop where
  parted : Parted s f.start f.front f.elsePart? high
  texts : f.trims = false → ∀ m ∈ f.front, ∀ x ∈ m.text?, Quotes s x
  tiles : f.isRoot = true → Span.Tiles 0 (f.front.map Node.span) high

/-- What was read into each frame reaches up to the frame on top of it, and in the innermost one up
to an offset. -/
def AllLaid (s : List Char) : Nat → List Frame → Prop
  | _, [] => True
  | high, f :: rest => f.Laid s high ∧ AllLaid s f.start rest

section Laid

variable {s : List Char} {mid high : Nat} {f : Frame} {frames frames' : List Frame} {n : Node}

theorem start_append (f : Frame) (n : Node) : (f.append n).start = f.start :=
  append_congr start (fun f => by cases f <;> rfl) f n

theorem trims_append (f : Frame) (n : Node) : (f.append n).trims = f.trims :=
  append_congr trims (fun f => by cases f <;> rfl) f n

/-- A node goes into the `else` part once there is one. -/
theorem parts_append (f : Frame) (n : Node) :
    f.elsePart? = none ∧ (f.append n).front = f.front ++ [n] ∧ (f.append n).elsePart? = none ∨
      f.trims = true ∧ f.isRoot = false ∧ (f.append n).front = f.front ∧
        ∃ k others, f.elsePart? = some (k, others) ∧
        (f.append n).elsePart? = some (k, others ++ [n]) := by
  have happend : ∀ children : List Node, (n :: children).reverse = children.reverse ++ [n] :=
    fun _ => List.reverse_cons
  -- a frame takes nodes into its front until an else part is opened, and then into that
  cases f with
  | root children => exact .inl ⟨rfl, happend children, rfl⟩
  | element start name as children => exact .inl ⟨rfl, happend children, rfl⟩
  | ifBlock start blank condition elseIf children otherwise =>
    cases otherwise with
    | none => exact .inl ⟨rfl, happend children, rfl⟩
    | some o =>
      exact .inr ⟨rfl, rfl, rfl, o.1, o.2.reverse, rfl,
        congrArg (fun ns => some (o.1, ns)) (happend o.2)⟩
  | forBlock start blank header children otherwise =>
    cases otherwise with
    | none => exact .inl ⟨rfl, happend children, rfl⟩
    | some o =>
      exact .inr ⟨rfl, rfl, rfl, o.1, o.2.reverse, rfl,
        congrArg (fun ns => some (o.1, ns)) (happend o.2)⟩

theorem Laid.append (h : f.Laid s n.info.start) (hn : n.info.start < n.info.stop)
    (hplain : n.isFragment = false)
    (hlaid : ∀ m ∈ n.nodes, m.Laid s) (htext : ∀ x ∈ n.text?, Quotes s x) :
    (f.append n).Laid s n.info.stop := by
  have hparted := h.parted
  rcases parts_append f n with ⟨hnone, hfront, hnone'⟩ |
    ⟨htrims, hroot, hfront, k, others, hsome, hsome'⟩
  · rw [hnone] at hparted
    refine ⟨?_, fun htrims m hm => ?_, fun hroot => ?_⟩
    · rw [start_append, hfront, hnone']
      exact hparted.append_front hn hplain hlaid
    · rw [trims_append] at htrims
      rw [hfront] at hm
      rcases List.mem_append.1 hm with hm | hm
      · exact h.texts htrims m hm
      · exact List.mem_singleton.1 hm ▸ htext
    · rw [isRoot_append] at hroot
      rw [hfront, List.map_append]
      exact Span.Tiles.append (s := n.span) (h.tiles hroot)
  · rw [hsome] at hparted
    refine ⟨?_, fun hplain => ?_, fun hroot' => ?_⟩
    · rw [start_append, hfront, hsome']
      exact hparted.append_other hn hplain hlaid
    · rw [trims_append, htrims] at hplain
      exact nomatch hplain
    · rw [isRoot_append, hroot] at hroot'
      exact nomatch hroot'

theorem AllLaid.appendNode (h : AllLaid s n.info.start frames) (hn : n.info.start < n.info.stop)
    (hplain : n.isFragment = false) (hlaid : ∀ m ∈ n.nodes, m.Laid s)
    (htext : ∀ x ∈ n.text?, Quotes s x) :
    AllLaid s n.info.stop (appendNode n frames) := by
  cases frames with
  | nil => trivial
  | cons f rest => exact ⟨h.1.append hn hplain hlaid htext, start_append f n ▸ h.2⟩

/-- A node is what an open block or element becomes when it is closed; what is in a block is
trimmed. -/
structure Becomes (t : Trim) (closeStart : Nat) (f : Frame) (n : Node) : Prop where
  start : n.info.start = f.start
  plain : n.isFragment = false
  noText : n.text? = none
  front : n.front = trimChildren t f.front
  otherwise : n.elsePart? = f.elsePart?.map fun o =>
    .fragment ⟨0, o.1, closeStart⟩ (trimChildren t o.2)
  element : n.trims = false → f.trims = false ∧ n.front = f.front

/-- A frame that is closed goes into the frame below. -/
theorem AllLaid.close {closeStart : Nat} {t : Trim} (h : AllLaid s high (f :: frames))
    (hn : f.Becomes t closeStart n) (hhigh : high ≤ n.info.stop) (hstart : f.start < n.info.stop)
    (hbelow : ∀ o ∈ f.elsePart?, o.1 < closeStart) (hclose : closeStart ≤ n.info.stop) :
    AllLaid s n.info.stop (PromptMarkup.appendNode n frames) := by
  obtain ⟨⟨hparted, htexts, -⟩, hrest⟩ := h
  rw [← hn.start] at hparted hrest hstart
  refine hrest.appendNode hstart hn.plain ?_ ?_
  · refine hparted.laid_node hhigh hn.front hn.otherwise hbelow hclose fun htrims => ?_
    obtain ⟨htrims', heq⟩ := hn.element htrims
    exact heq ▸ htexts htrims'
  · rw [hn.noText]
    exact nofun

theorem becomes_ifBlock {t : Trim} {closeStart stop start : Nat} {blank : Bool} {condition : Expr}
    {elseIf : Bool} {children : List Node} {otherwise : Option (Nat × List Node)} :
    (ifBlock start blank condition elseIf children otherwise).Becomes t closeStart
      (.ifBlock ⟨0, start, stop⟩ condition elseIf (trimChildren t children.reverse)
        (elsePart t closeStart otherwise)) := by
  refine ⟨rfl, rfl, rfl, rfl, ?_, nofun⟩
  cases otherwise <;> rfl

theorem becomes_forBlock {t : Trim} {closeStart stop start : Nat} {blank : Bool}
    {header : ForHeader} {children : List Node} {otherwise : Option (Nat × List Node)} :
    (forBlock start blank header children otherwise).Becomes t closeStart
      (.forBlock ⟨0, start, stop⟩ header (trimChildren t children.reverse)
        (elsePart t closeStart otherwise)) := by
  refine ⟨rfl, rfl, rfl, rfl, ?_, nofun⟩
  cases otherwise <;> rfl

theorem becomes_element {closeStart stop start : Nat} {name : String} {as : List Attribute}
    {children : List Node} :
    (element start name as children).Becomes ⟨false, false⟩ closeStart
      (.element ⟨0, start, stop⟩ name as children.reverse) :=
  ⟨rfl, rfl, rfl, rfl, rfl, fun _ => ⟨rfl, rfl⟩⟩

theorem mem_starts_of_elsePart? {o : Nat × List Node} (h : o ∈ f.elsePart?) : o.1 ∈ f.starts := by
  cases f with
  | ifBlock start blank condition elseIf children otherwise =>
    obtain ⟨part, rfl, rfl⟩ := Option.map_eq_some_iff.1 h
    exact List.mem_cons_of_mem _ List.mem_cons_self
  | forBlock start blank header children otherwise =>
    obtain ⟨part, rfl, rfl⟩ := Option.map_eq_some_iff.1 h
    exact List.mem_cons_of_mem _ List.mem_cons_self
  | _ => exact nomatch h

/-- A block or an element is opened. -/
theorem laid_of_starts {k : Nat} (hempty : f.contents = []) (hstarts : f.starts = [k])
    (hle : k ≤ high) :
    f.start = k ∧ f.Laid s high := by
  -- nothing was read into the frame, and no else part is open
  have hparts : f.start = k ∧ f.front = [] ∧ f.elsePart? = none ∧ f.isRoot = false := by
    cases f with
    | root children => exact nomatch hstarts
    | element start name as children => exact ⟨List.head_eq_of_cons_eq hstarts, hempty, rfl, rfl⟩
    | ifBlock start blank condition elseIf children otherwise =>
      cases otherwise with
      | none =>
        exact ⟨List.head_eq_of_cons_eq hstarts, (List.append_eq_nil_iff.1 hempty).1, rfl, rfl⟩
      | some o => exact nomatch hstarts
    | forBlock start blank header children otherwise =>
      cases otherwise with
      | none =>
        exact ⟨List.head_eq_of_cons_eq hstarts, (List.append_eq_nil_iff.1 hempty).1, rfl, rfl⟩
      | some o => exact nomatch hstarts
  obtain ⟨hstart, hfront, hother, hroot⟩ := hparts
  refine ⟨hstart, ?_, ?_, fun hroot' => nomatch hroot'.symm.trans hroot⟩
  · rw [hstart, hfront, hother]
    exact ⟨hle, .nil, nofun, nofun, nofun⟩
  · rw [hfront]
    exact fun _ => nofun

/-- An `else` part is opened. -/
theorem AllLaid.openElse {c : Cursor} {elseIf : Bool} (h : AllLaid s mid frames) (hle : mid ≤ high)
    (haccepts : Reader.acceptsElse ⟨c, frames⟩ elseIf = true) :
    AllLaid s high (Reader.openElse mid frames) := by
  obtain ⟨_, _, _, _, _, _, rfl⟩ | ⟨-, _, _, _, _, _, rfl⟩ := acceptsElse_eq_true haccepts
  · exact ⟨⟨h.1.parted.openElse hle, nofun, nofun⟩, h.2⟩
  · exact ⟨⟨h.1.parted.openElse hle, nofun, nofun⟩, h.2⟩

theorem AllLaid.closeIf {t : Trim} (h : AllLaid s mid frames) (hlt : mid < high)
    (hpassed : ∀ f ∈ frames, ∀ k ∈ f.starts, k < mid)
    (hclose : closeIf t mid high none frames = .ok frames') :
    AllLaid s high frames' := by
  -- a clause reaches up to its `endif`, and the clause that it stands in reaches behind it
  refine (closeIf_invariant
    (P := fun fs => (∃ k ≤ high, AllLaid s k fs) ∧ ∀ f ∈ fs, ∀ k ∈ f.starts, k < mid)
    (Q := fun fs => AllLaid s high fs ∧ ∀ f ∈ fs, ∀ k ∈ f.starts, k < mid)
    (fun fs h => ⟨⟨high, Nat.le_refl _, h.1⟩, h.2⟩) ?_
      ⟨⟨mid, Nat.le_of_lt hlt, h⟩, hpassed⟩ hclose).1
  rintro start blank condition elseIf children otherwise rest ⟨⟨k, hk, hlaid⟩, hpassed⟩
  have hfront := hpassed _ List.mem_cons_self
  refine ⟨hlaid.close becomes_ifBlock hk ?_
    (fun o ho => hfront _ (mem_starts_of_elsePart? ho)) (Nat.le_of_lt hlt), fun f hf => ?_⟩
  · exact Nat.lt_trans (hfront start List.mem_cons_self) hlt
  · obtain ⟨g, hg, rfl | rfl⟩ := mem_appendNode hf
    · rw [starts_append]
      exact hpassed g (List.mem_cons_of_mem _ hg)
    · exact hpassed f (List.mem_cons_of_mem _ hg)

end Laid

end Frame

/-! ### Readers -/

namespace Reader

variable {s : List Char} {r r' : Reader}

/-- A reader stands in the text, all that is open starts in front of it, and what was read lies as
it should. -/
structure Laid (s : List Char) (r : Reader) : Prop where
  place : (Cursor.ofText s).LeadsTo r.cursor
  frames : Frame.AllLaid s r.cursor.offset r.frames
  passed : ∀ f ∈ r.frames, ∀ k ∈ f.starts, k < r.cursor.offset

theorem laid_ofText (s : List Char) : (Reader.ofText s).Laid s :=
  ⟨.refl _, ⟨⟨.nil, fun _ => nofun, fun _ => rfl⟩, trivial⟩,
    fun _ hf => List.mem_singleton.1 hf ▸ nofun⟩

/-- A text that was taken says what stands there. -/
theorem quotes_of_taken {c : Cursor} {stop : Nat} {n : Node} (hc : (Cursor.ofText s).LeadsTo c)
    (h : n.Taken c stop) :
    ∀ x ∈ n.text?, Quotes s x := by
  intro x hx
  cases n with
  | text info data =>
    obtain ⟨w, rest, hrest, rfl, rfl⟩ := h.text info data rfl
    obtain rfl : info = _ := h.info
    obtain rfl := Option.some.inj hx
    exact ⟨w, Cursor.slice?_of_leadsTo hc hrest, rfl⟩
  | _ => exact nomatch hx

theorem Change.allLaid {c : Cursor} {stop : Nat} {frames frames' : List Frame}
    (h : Change c stop frames frames')
    (hc : (Cursor.ofText s).LeadsTo c) (hlt : c.offset < stop)
    (hlaid : Frame.AllLaid s c.offset frames)
    (hpassed : ∀ f ∈ frames, ∀ k ∈ f.starts, k < c.offset) : Frame.AllLaid s stop frames' := by
  have hle : c.offset ≤ stop := Nat.le_of_lt hlt
  cases h with
  | @added n leaf noElse spans marked tag taken =>
    -- a leaf is behind everything that was read, and goes into the innermost frame
    have hplain : n.isFragment = false := by
      cases n with
      | fragment info children => exact absurd rfl (taken.noFragment info children)
      | _ => rfl
    have hlow : Frame.AllLaid s n.info.start frames := by rwa [taken.info]
    have hspan : n.info.start < n.info.stop := by rwa [taken.info]
    have happend := hlow.appendNode hspan hplain (laid_leaf leaf) (quotes_of_taken hc taken)
    rwa [taken.info] at happend
  | opened empty spans marked starts =>
    obtain ⟨hstart, hf⟩ := Frame.laid_of_starts (s := s) empty starts hle
    exact ⟨hf, hstart ▸ hlaid⟩
  | otherwise haccepts => exact hlaid.openElse hle haccepts
  | elseIf condition embedded haccepts =>
    exact ⟨(Frame.laid_of_starts rfl rfl hle).2, hlaid.openElse (Nat.le_refl _) haccepts⟩
  -- closing makes a node of a frame, from the start of the frame to here
  | closedIf h => exact hlaid.closeIf hlt hpassed h
  | closedFor h =>
    obtain ⟨start, _, _, _, _, rest, rfl, rfl⟩ := closeFor_eq_ok h
    have hstarts := hpassed _ List.mem_cons_self
    exact hlaid.close Frame.becomes_forBlock hle
      (Nat.lt_trans (hstarts start List.mem_cons_self) hlt)
      (fun o ho => hstarts _ (Frame.mem_starts_of_elsePart? ho)) hle
  | closedElement h =>
    obtain ⟨start, _, _, rest, rfl, rfl⟩ := closeElement_eq_ok h
    have hstarts := hpassed _ List.mem_cons_self
    exact hlaid.close Frame.becomes_element hle
      (Nat.lt_trans (hstarts start List.mem_cons_self) hlt) nofun hle

theorem Laid.step [ConfigReader] (h : r.Laid s) (hne : r.cursor.rest ≠ [])
    (hstep : r.step = .ok r') : r'.Laid s := by
  obtain ⟨hplace, hchange⟩ := (change_step r).ok r' hstep
  have hlt : r.cursor.offset < r'.cursor.offset :=
    Nat.lt_of_lt_of_le (Cursor.offset_lt_step hne) hplace.offset_le
  refine ⟨h.place.trans hplace.of_step, hchange.allLaid h.place hlt h.frames h.passed,
    fun f hf k hk => ?_⟩
  rcases hchange.frames f hf with ⟨g, hg, hstays⟩ | ⟨hstarts, -⟩
  · rcases hstays.starts k hk with rfl | hk
    · exact hlt
    · exact Nat.lt_trans (h.passed g hg k hk) hlt
  · rw [hstarts] at hk
    exact List.mem_singleton.1 hk ▸ hlt

theorem Laid.run [ConfigReader] {bound : Nat} (h : r.Laid s) (hrun : r.run bound = .ok r') :
    r'.Laid s :=
  invariant_run (fun _ _ h => h.step) h hrun

end Reader

/-! ### Templates -/

namespace Node

variable {s : List Char}

theorem info_number (n : Node) (k : Nat) : (n.number k).1.info = { n.info with id := k } := by
  cases n <;> rfl

theorem isFragment_number (n : Node) (k : Nat) : (n.number k).1.isFragment = n.isFragment := by
  cases n <;> rfl

theorem trims_number (n : Node) (k : Nat) : (n.number k).1.trims = n.trims := by
  cases n <;> rfl

theorem text?_number (n : Node) (k : Nat) : (n.number k).1.text? = n.text? := by
  cases n <;> rfl

theorem front_number (n : Node) (k : Nat) :
    (n.number k).1.front = (numberAll (k + 1) n.front).1 := by
  cases n <;> rfl

theorem elsePart?_number (n : Node) (k : Nat) :
    ∃ j, (n.number k).1.elsePart? = n.elsePart?.map fun o => (o.number j).1 := by
  cases n with
  | ifBlock info condition elseIf children otherwise =>
    refine ⟨(numberAll (k + 1) children).2, ?_⟩
    cases otherwise <;> rfl
  | forBlock info header children otherwise =>
    refine ⟨(numberAll (k + 1) children).2, ?_⟩
    cases otherwise <;> rfl
  | _ => exact ⟨0, rfl⟩

theorem span_numberAll (ns : List Node) (k : Nat) : (numberAll k ns).1.map span = ns.map span := by
  induction ns generalizing k with
  | nil => rfl
  | cons n rest ih =>
    have hself : (n.number k).1.span = n.span := by rw [span, info_number]; rfl
    exact congrArg₂ List.cons hself (ih _)

theorem span_childNodes_number (n : Node) (k : Nat) :
    (n.number k).1.childNodes.map span = n.childNodes.map span := by
  rw [(number_eq n k).2.1, span_numberAll]

/-- Numbering changes no place and no text. -/
theorem Laid.number {n : Node} (h : n.Laid s) (k : Nat) : (n.number k).1.Laid s := by
  refine ⟨?_, ?_, fun m hm => ?_, ?_⟩
  · rw [info_number, span_childNodes_number]
    exact h.ordered
  · rw [isFragment_number, info_number, span_childNodes_number]
    refine fun hplain => ⟨(h.inside hplain).1, fun o ho => ?_⟩
    obtain ⟨j, hj⟩ := elsePart?_number n k
    rw [hj] at ho
    obtain ⟨part, hpart, rfl⟩ := Option.map_eq_some_iff.1 ho
    rw [info_number, span_childNodes_number]
    exact (h.inside hplain).2 part hpart
  · rw [front_number] at hm
    obtain ⟨x, hx, j, rfl⟩ := mem_numberAll hm
    exact isFragment_number x j ▸ h.plain x hx
  · rw [isFragment_number, trims_number, front_number]
    intro hplain htrims m hm
    obtain ⟨x, hx, j, rfl⟩ := mem_numberAll hm
    exact text?_number x j ▸ h.texts hplain htrims x hx

/-- What is around a node reaches around it. -/
theorem Encloses.within {n m : Node} (h : n.Encloses m) (hlaid : ∀ x ∈ n.nodes, x.Laid s)
    (hplain : n.isFragment = false) : n.info.start ≤ m.info.start ∧ m.info.stop ≤ n.info.stop := by
  have hself := hlaid n n.mem_nodes_self
  obtain ⟨hspaced, helse⟩ := hself.inside hplain
  have hchild : ∀ {m}, m ∈ n.childNodes → n.info.start ≤ m.info.start ∧
    m.info.stop ≤ n.info.stop := by
    intro m hm
    obtain ⟨hstart, -, hstop⟩ := hspaced.within m.span (List.mem_map_of_mem hm)
    exact ⟨hstart, hstop⟩
  -- an `else` part is the only sequence of nodes in it
  have hpart : ∀ {o}, n.Encloses o → o.isFragment = true → o ∈ n.elsePart? := by
    intro o ho hfragment
    induction ho with
    | child mem =>
      rw [childNodes_eq] at mem
      rcases List.mem_append.1 mem with mem | mem
      · exact nomatch hfragment.symm.trans (hself.plain _ mem)
      · exact Option.mem_toList.1 mem
    | @through f o around hf mem ih =>
      have hf' : f ∈ n.childNodes :=
        childNodes_eq n ▸ List.mem_append_right _ (Option.mem_toList.2 (ih hf))
      have hfront : o ∈ f.front := by
        cases f with
        | fragment info children => exact mem
        | _ => exact nomatch hf
      exact nomatch hfragment.symm.trans
        ((hlaid f (mem_nodes_of_child hf' f.mem_nodes_self)).plain o hfront)
  cases h with
  | child mem => exact hchild mem
  | @through f m around hf mem =>
    have hother := hpart around hf
    obtain ⟨hstart, -, hstop⟩ := (helse f hother).within m.span (List.mem_map_of_mem mem)
    have hf := (hchild (childNodes_eq n ▸ List.mem_append_right _ (Option.mem_toList.2 hother))).1
    exact ⟨Nat.le_trans hf hstart, hstop⟩

end Node

/-- The tree of a template covers its text. -/
structure Template.Covers (t : Template) (s : List Char) : Prop where
  /-- The nodes of the root leave no gap. -/
  tiled : Span.Tiles 0 (t.root.childNodes.map Node.span) (Text.byteLength s)
  /-- Nodes that are next to each other, an `else` part behind the others, come one behind the
  other. -/
  ordered : ∀ n ∈ t.root.nodes, (n.childNodes.map Node.span).Pairwise
    (fun a b => a.stop ≤ b.start) ∧
    ∀ m ∈ n.childNodes, m.info.start < m.info.stop
  /-- No node sticks out of the block or element around it. -/
  inside : ∀ n ∈ t.root.nodes, n.isFragment = false → ∀ m, n.Encloses m →
    n.info.start ≤ m.info.start ∧ m.info.stop ≤ n.info.stop
  /-- A text that is neither directly in a block nor in an `else` part says what stands at its
  place. -/
  texts : ∀ m ∈ t.root.nodes, ∀ x ∈ m.text?,
    (∀ n ∈ t.root.nodes, m ∈ n.childNodes → n.trims = false ∧ ∀ o ∈ t.root.nodes, n ∉ o.elsePart?) →
    Quotes s x

/-- What holds of the root of a template that was read, and of all its nodes. -/
theorem Template.laid_of_read [ConfigReader] {source : String} {t : Template}
    (h : Template.read source = .ok t) :
    t.root.isFragment = true ∧ t.root.elsePart? = none ∧
    (∀ n ∈ t.root.nodes, n.Laid source.toList) ∧
      Span.Tiles 0 (t.root.childNodes.map Node.span) (Text.byteLength source.toList) ∧
      ∀ m ∈ t.root.childNodes, ∀ x ∈ m.text?, Quotes source.toList x := by
  obtain ⟨r, children, hrun, hframes, rfl⟩ := read_eq_ok h
  have hlaid := (Reader.laid_ofText source.toList).run hrun
  obtain ⟨⟨hparted, htexts, htiles⟩, -⟩ :
    Frame.AllLaid source.toList r.cursor.offset [.root children] :=
    hframes ▸ hlaid.frames
  -- the reader is at the end of the text, which the root therefore covers
  have hstop : r.cursor.offset = Text.byteLength source.toList := by
    have hend : r.cursor.rest = [] := Reader.atEnd_of_run (Nat.lt_succ_self _) hrun
    have hfinal := hlaid.place.final_ofText
    rwa [Cursor.final, hend, Text.byteLength, Nat.add_zero] at hfinal
  refine ⟨Node.isFragment_number _ 0, rfl, fun n hn => ?_, ?_, fun m hm => ?_⟩
  -- numbering changes no span and no text
  · obtain ⟨m, hm, k, rfl⟩ := Node.mem_nodes_number hn
    refine Node.Laid.number ?_ k
    rw [Node.nodes_eq] at hm
    rcases List.mem_cons.1 hm with rfl | hm
    · exact laid_fragment hparted.front hparted.laid
    · obtain ⟨x, hx, hm⟩ := Node.mem_nodesAll.1 hm
      exact (hparted.laid x hx).2 m hm
  · rw [Node.span_childNodes_number, ← hstop]
    exact htiles rfl
  · obtain ⟨x, hx, k, rfl⟩ := Node.mem_numberAll hm
    exact Node.text?_number x k ▸ htexts rfl x hx

/-- The tree of a template that was read covers its text. -/
theorem Template.covers_of_read [ConfigReader] {source : String} {t : Template}
    (h : Template.read source = .ok t) :
    t.Covers source.toList := by
  obtain ⟨hroot, hnone, hlaid, htiles, htexts⟩ := laid_of_read h
  refine ⟨htiles, fun n hn => ?_, fun n hn hplain m hm => ?_, fun m hm x hx hside => ?_⟩
  · obtain ⟨high, hspaced⟩ := (hlaid n hn).ordered
    exact ⟨hspaced.apart, fun m hm => (hspaced.within m.span (List.mem_map_of_mem hm)).2.1⟩
  · exact hm.within (fun x hx => hlaid x (Node.mem_nodes_trans hn hx)) hplain
  · rcases Node.eq_or_child_of_mem_nodes hm with rfl | ⟨n, hn, hmem⟩
    -- the root itself has no text
    · cases hm : t.root with
      | fragment info children => exact nomatch hm ▸ hx
      | _ => exact nomatch hm ▸ hroot
    · obtain ⟨htrims, hother⟩ := hside n hn hmem
      rcases Node.eq_or_child_of_mem_nodes hn with rfl | ⟨o, ho, hmem'⟩
      · exact htexts m hmem x hx
      -- a node that trims no texts, and is no else part, holds its texts as they stand
      · have hplain : n.isFragment = false := by
          rw [Node.childNodes_eq] at hmem'
          rcases List.mem_append.1 hmem' with hmem' | hmem'
          · exact (hlaid o ho).plain n hmem'
          · exact absurd (Option.mem_toList.1 hmem') (hother o ho)
        rw [Node.childNodes_eq, Node.elsePart?_of_trims htrims, Option.toList_none,
          List.append_nil] at hmem
        exact (hlaid n hn).texts hplain htrims m hmem x hx

/-- A text with an escape, an element and a chain of clauses. -/
def nestedClauses : String :=
  "\\\x7b\x7b<b>x</b> \x7b\x7bif a\x7d\x7d y \x7b\x7belse if b\x7d\x7d<i> \\\x7b\x7b</i>" ++
    "\x7b\x7belse\x7d\x7d z\x7b\x7bendif\x7d\x7d é"

theorem Template.covers_of_read_nestedClauses :
    ∃ t, Template.read nestedClauses = .ok t ∧ t.Covers nestedClauses.toList := by
  have hcheck : (Template.read nestedClauses).isOk = true := by decide +kernel
  obtain ⟨t, hread⟩ := exists_ok_of_isOk hcheck
  exact ⟨t, hread, covers_of_read hread⟩

end PromptMarkup

/-
References that are replaced in the text of a prompt.

* `Replacement.Replaced` — a text with pieces replaced and everything between them kept;
* `Replacement.applied?` — replacing that breaks down where a piece is cut out of a text that does
  not have it;
* `Template.outerReferences` — the references of a template that are not inside of another one;
* `Template.spaced_outermost` — they stand one behind the other, all of them behind the front
  matter;
* `Analyzer.resolves_of_analyzeIn` — what becomes of the text of a prompt that is analyzed;
* `resolved_unready` — what a resolved prompt may have lost.

Design notes: what is inside of a node stands between its start and its end, except in an `else`
part: it is the last thing in its block, and what is inside of it may reach up to the end of the
block (`Node.Laid`).  So the references of a node are compared with that end.  A survey goes through
them in the order of the tree (`Node.collects_of_refers`), and no reference is replaced in front of
the end of the front matter, so that this offset is the same place in both texts.
-/
import PromptMarkup.Proofs.Blame
import PromptMarkup.Proofs.FrontMatter
import PromptMarkup.Yaml.Document

namespace PromptMarkup

open PromptMarkup.Computation
open Text (Cursor byteLength IsBoundary)

/-! ### Spans -/

namespace Span

variable {low mid high : Nat} {s : Span} {spans spans' : List Span}

theorem Spaced.one (h : s.start < s.stop) : Spaced s.start [s] s.stop := by
  refine ⟨List.pairwise_singleton _ _, fun t ht => ?_⟩
  obtain rfl := List.mem_singleton.1 ht
  exact ⟨Nat.le_refl _, h, Nat.le_refl _⟩

/-- The other spans stand behind the first one. -/
theorem Spaced.tail (h : Spaced low (s :: spans) high) : Spaced s.stop spans high := by
  obtain ⟨hbehind, hapart⟩ := List.pairwise_cons.1 h.apart
  exact ⟨hapart, fun t ht => ⟨hbehind t ht, (h.within t (List.mem_cons_of_mem _ ht)).2⟩⟩

/-- The other spans stand in front of the last one. -/
theorem Spaced.init (h : Spaced low (spans ++ [s]) high) : Spaced low spans s.start := by
  obtain ⟨hapart, -, hbehind⟩ := List.pairwise_append.1 h.apart
  refine ⟨hapart, fun t ht => ?_⟩
  obtain ⟨hlow, hsolid, -⟩ := h.within t (List.mem_append_left _ ht)
  exact ⟨hlow, hsolid, hbehind t ht s (List.mem_singleton_self s)⟩

theorem Spaced.joined (h : Spaced low spans mid) (h' : Spaced mid spans' high) (hlow : low ≤ mid)
    (hhigh : mid ≤ high) :
    Spaced low (spans ++ spans') high := by
  refine ⟨List.pairwise_append.2 ⟨h.apart, h'.apart, fun t ht u hu => ?_⟩, fun t ht => ?_⟩
  · exact Nat.le_trans (h.within t ht).2.2 (h'.within u hu).1
  · rcases List.mem_append.1 ht with ht | ht
    · obtain ⟨hstart, hsolid, hstop⟩ := h.within t ht
      exact ⟨hstart, hsolid, Nat.le_trans hstop hhigh⟩
    · obtain ⟨hstart, hsolid, hstop⟩ := h'.within t ht
      exact ⟨Nat.le_trans hlow hstart, hsolid, hstop⟩

/-- Each of the spans is exchanged for spans inside of it. -/
theorem Spaced.refine {α : Type} {xs : List α} {around : α → Span} {inner : α → List Span}
    (h : Spaced low (xs.map around) high)
    (hinner : ∀ x ∈ xs, Spaced (around x).start (inner x) (around x).stop) :
    Spaced low (xs.flatMap inner) high := by
  refine ⟨List.pairwise_flatMap.2 ⟨fun x hx => (hinner x hx).apart, ?_⟩, fun t ht => ?_⟩
  · refine (List.pairwise_map.1 h.apart).imp_of_mem fun hx hy hle t ht u hu => ?_
    exact Nat.le_trans ((hinner _ hx).within t ht).2.2
      (Nat.le_trans hle ((hinner _ hy).within u hu).1)
  · obtain ⟨x, hx, ht⟩ := List.mem_flatMap.1 ht
    obtain ⟨hlow, -, hhigh⟩ := h.within (around x) (List.mem_map_of_mem hx)
    obtain ⟨hstart, hsolid, hstop⟩ := (hinner x hx).within t ht
    exact ⟨Nat.le_trans hlow hstart, hsolid, Nat.le_trans hstop hhigh⟩

/-- Spans that leave no gap come one after the other. -/
theorem Tiles.spaced (h : Tiles low spans high) (hsolid : ∀ s ∈ spans, s.start < s.stop) :
    low ≤ high ∧ Spaced low spans high := by
  induction spans generalizing low with
  | nil => exact ⟨Nat.le_of_eq h, .nil⟩
  | cons s rest ih =>
    obtain ⟨rfl, hrest⟩ := h
    obtain ⟨hle, hspaced⟩ := ih hrest fun t ht => hsolid t (List.mem_cons_of_mem _ ht)
    have hs := hsolid s List.mem_cons_self
    exact ⟨by omega, (Spaced.one hs).joined hspaced (Nat.le_of_lt hs) hle⟩

end Span

/-! ### Texts with pieces replaced -/

namespace Text

theorem eq_nil_of_byteLength {s : List Char} (h : byteLength s = 0) : s = [] := by
  cases s with
  | nil => rfl
  | cons x s =>
    have hpos := Char.utf8Size_pos x
    rw [byteLength] at h
    omega

/-- A place that is not in front of a part of a text is a place of this part. -/
theorem IsBoundary.behind {front s : List Char} {n : Nat} (h : IsBoundary (front ++ s) n)
    (hle : byteLength front ≤ n) :
    ∃ kept rest, s = kept ++ rest ∧ n = byteLength front + byteLength kept := by
  obtain ⟨front', rest, htext, rfl⟩ := h
  rcases List.append_eq_append_iff.1 htext with ⟨kept, rfl, rfl⟩ | ⟨more, rfl, rfl⟩
  · exact ⟨kept, rest, rfl, byteLength_append front kept⟩
  · rw [byteLength_append] at hle
    obtain rfl : more = [] := eq_nil_of_byteLength (by omega)
    exact ⟨[], s, rfl, by rw [List.append_nil, byteLength, Nat.add_zero]⟩

end Text

namespace Replacement

/-- The span that is replaced. -/
def span (r : Replacement) : Span :=
  ⟨r.start, r.stop⟩

/-- A text from the byte offset `start` on, with spans replaced, if it has all pieces that are cut
out of it. -/
def appliedFrom? (source : List Char) (start : Nat) : List Replacement → Option (List Char)
  | [] => Text.dropBytes? start source
  | r :: rest => do
    let kept ← Text.slice? source start r.start
    let later ← appliedFrom? source r.stop rest
    return kept ++ r.text.toList ++ later

/-- A text with spans replaced, if it has all pieces that are cut out of it. -/
def applied? (source : String) (replacements : List Replacement) : Option String :=
  (appliedFrom? source.toList 0 replacements).map String.ofList

/-- A text that starts at the offset `low` becomes another one: the piece at the span of each
replacement is exchanged for the text of the replacement, and everything else is kept. -/
inductive Replaced : Nat → List Char → List Replacement → List Char → Prop
  | kept {low : Nat} {s : List Char} : Replaced low s [] s
  | next {low : Nat} {kept gone s t : List Char} {r : Replacement} {rest : List Replacement}
    (start : r.start = low + byteLength kept) (stop : r.stop = r.start + byteLength gone)
    (later : Replaced r.stop s rest t) :
    Replaced low (kept ++ (gone ++ s)) (r :: rest) (kept ++ (r.text.toList ++ t))

variable {source front s t : List Char} {low high start : Nat} {rs : List Replacement}

theorem applyFrom_of_appliedFrom? (h : appliedFrom? source start rs = some t) :
    applyFrom source start rs = t := by
  induction rs generalizing start t with
  | nil =>
    rw [appliedFrom?] at h
    rw [applyFrom, Text.sliceFrom, h, Option.getD_some]
  | cons r rest ih =>
    rw [appliedFrom?] at h
    obtain ⟨kept, hkept, h⟩ := Option.bind_eq_some_iff.1 h
    obtain ⟨later, hlater, h⟩ := Option.bind_eq_some_iff.1 h
    rw [applyFrom, Text.slice, hkept, Option.getD_some, ih hlater]
    exact Option.some.inj h

theorem apply_of_applied? {text resolved : String} (h : applied? text rs = some resolved) :
    apply text rs = resolved := by
  obtain ⟨t, ht, rfl⟩ := Option.map_eq_some_iff.1 h
  rw [apply, applyFrom_of_appliedFrom? ht]

namespace Replaced

/-- No piece is cut out of the text that it does not have. -/
theorem appliedFrom?_eq (h : Replaced low s rs t) (hfront : byteLength front = low) :
    appliedFrom? (front ++ s) low rs = some t := by
  induction h generalizing front with
  | kept =>
    rw [appliedFrom?, ← hfront]
    exact Text.dropBytes?_append front _
  | @next low kept gone s t r rest hstart hstop later ih =>
    have hkept : Text.slice? (front ++ (kept ++ (gone ++ s))) low r.start = some kept := by
      rw [hstart, ← hfront]
      exact Text.slice?_append front kept (gone ++ s)
    have hlater : appliedFrom? (front ++ (kept ++ (gone ++ s))) r.stop rest = some t := by
      have hbehind : byteLength (front ++ (kept ++ gone)) = r.stop := by
        rw [Text.byteLength_append, Text.byteLength_append, hfront, hstop, hstart, Nat.add_assoc]
      have hnext := ih hbehind
      rwa [List.append_assoc, List.append_assoc] at hnext
    rw [appliedFrom?, hkept, hlater, ← List.append_assoc]
    rfl

theorem applied?_eq {text : String} (h : Replaced 0 text.toList rs t) :
    applied? text rs = some (String.ofList t) := by
  have hfrom : appliedFrom? ([] ++ text.toList) 0 rs = some t := h.appliedFrom?_eq rfl
  rw [List.nil_append] at hfrom
  rw [applied?, hfrom, Option.map_some]

/-- Text in front is kept. -/
theorem behind (h : Replaced (low + byteLength front) s rs t) :
    Replaced low (front ++ s) rs (front ++ t) := by
  cases h with
  | kept => exact .kept
  | @next _ kept gone s t r rest hstart hstop later =>
    rw [← List.append_assoc front kept, ← List.append_assoc front kept]
    refine .next ?_ hstop later
    rw [hstart, Text.byteLength_append, Nat.add_assoc]

end Replaced

/-- Spans that come one after the other, between places of a text, can be replaced. -/
theorem exists_replaced (hspaced : Span.Spaced low (rs.map span) high)
    (hplaces : ∀ r ∈ rs, IsBoundary (front ++ s) r.start ∧ IsBoundary (front ++ s) r.stop)
    (hfront : byteLength front = low) : ∃ t, Replaced low s rs t := by
  -- each replacement cuts the text left of its start and behind its stop, on boundaries
  induction rs generalizing low front s with
  | nil => exact ⟨s, .kept⟩
  | cons r rest ih =>
    obtain ⟨hstart, hstop⟩ := hplaces r List.mem_cons_self
    obtain ⟨hlow, hsolid, -⟩ := hspaced.within r.span List.mem_cons_self
    obtain ⟨kept, s, rfl, hkept⟩ := hstart.behind (hfront ▸ hlow)
    rw [← List.append_assoc] at hstop
    have hle : byteLength (front ++ kept) ≤ r.stop := by
      rw [Text.byteLength_append, ← hkept]
      exact Nat.le_of_lt hsolid
    obtain ⟨gone, s, rfl, hgone⟩ := hstop.behind hle
    rw [Text.byteLength_append, ← hkept] at hgone
    -- the rest starts at the replacement's stop, where the next ones lie
    have hbehind : byteLength (front ++ (kept ++ gone)) = r.stop := by
      rw [Text.byteLength_append, Text.byteLength_append, ← Nat.add_assoc, ← hkept, hgone]
    obtain ⟨t, ht⟩ : ∃ t, Replaced r.stop s rest t := by
      refine ih hspaced.tail (fun x hx => ?_) hbehind
      rw [List.append_assoc, List.append_assoc]
      exact hplaces x (List.mem_cons_of_mem _ hx)
    exact ⟨_, .next (hfront ▸ hkept) hgone ht⟩

end Replacement

/-! ### References -/

namespace Node

mutual

/-- The references in a node that are not inside of another one of these. -/
def outermost : Node → List Node
  | fragment _ children => outermostAll children
  | config _ _ _ => []
  | text _ _ => []
  | comment _ _ => []
  | mustache _ _ => []
  | ifBlock _ _ _ children otherwise => outermostAll children ++ outermostElse otherwise
  | forBlock _ _ children otherwise => outermostAll children ++ outermostElse otherwise
  | element info name as children =>
    if name == "ref" then [element info name as children] else outermostAll children

/-- Such references in several nodes. -/
def outermostAll : List Node → List Node
  | [] => []
  | n :: rest => outermost n ++ outermostAll rest

/-- Such references in an `else` part, if there is one. -/
def outermostElse : Option Node → List Node
  | none => []
  | some n => outermost n

end

theorem outermostAll_eq (ns : List Node) : outermostAll ns = ns.flatMap outermost := by
  induction ns with
  | nil => rfl
  | cons n rest ih => rw [outermostAll, ih, List.flatMap_cons]

theorem outermostElse_eq (o : Option Node) : outermostElse o = o.toList.flatMap outermost := by
  cases o with
  | none => rfl
  | some n => exact (List.flatMap_singleton outermost n).symm

theorem outermost_self {n : Node} (h : n.isReference = true) : n.outermost = [n] := by
  cases n with
  | element info name as children => exact if_pos h
  | _ => exact nomatch h

theorem outermost_inner {n : Node} (h : n.isReference = false) :
    n.outermost = n.childNodes.flatMap outermost := by
  cases n with
  | fragment info children => exact outermostAll_eq children
  | ifBlock info condition elseIf children otherwise =>
    rw [outermost, childNodes, List.flatMap_append, outermostAll_eq, outermostElse_eq]
  | forBlock info header children otherwise =>
    rw [outermost, childNodes, List.flatMap_append, outermostAll_eq, outermostElse_eq]
  | element info name as children =>
    exact (if_neg (Bool.eq_false_iff.1 h)).trans (outermostAll_eq children)
  | _ => rfl

/-- The reference that a node is; it names no prompt if none is written in it. -/
def asReference : Node → Reference
  | element info _ as _ =>
    ⟨((Attribute.find? as "prompt").bind Attribute.staticText?).getD "", info,
      Attribute.others as "prompt"⟩
  | n => ⟨"", n.info, []⟩

theorem info_asReference (n : Node) : n.asReference.info = n.info := by
  cases n <;> rfl

/-- The outermost references are the ones that a survey follows. -/
theorem refers_outermost : Refers fun n => n.outermost.map asReference where
  self {info name as children prompt} hkind hprompt := by
    rw [outermost_self ((isReference_element ..).2 hkind), List.map_singleton, asReference, hprompt,
      Option.getD_some]
  inner {n} h := by
    rw [outermost_inner h, List.map_flatMap]

/-! ### References that are inside of others -/

/-- A node is inside of a reference that is among several nodes or inside of them. -/
def inReference (ns : List Node) (n : Node) : Bool :=
  (nodesAll ns).any fun r => r.isReference && (idsAll r.childNodes).contains n.id

theorem inReference_cons (n : Node) (ns : List Node) (m : Node) :
    inReference (n :: ns) m = (inReference [n] m || inReference ns m) := by
  rw [inReference, nodesAll, List.any_append, inReference, nodesAll, nodesAll, List.append_nil]
  rfl

theorem inReference_one (n m : Node) :
    inReference [n] m =
      (n.isReference && (idsAll n.childNodes).contains m.id || inReference n.childNodes m) := by
  rw [inReference, nodesAll, nodesAll, List.append_nil, nodes_eq, List.any_cons]
  rfl

theorem mem_idsAll_of_inReference {ns : List Node} {n : Node} (h : inReference ns n = true) :
    n.id ∈ idsAll ns := by
  obtain ⟨r, hr, h⟩ := List.any_eq_true.1 h
  obtain ⟨x, hx, hr⟩ := mem_nodesAll.1 hr
  have hid : n.id ∈ idsAll r.childNodes := List.contains_iff_mem.1 (Bool.and_eq_true_iff.1 h).2
  exact ids_subset_idsAll hx (idsAll_childNodes_subset x (idsAll_childNodes_subset_of_mem hr hid))

/-- A node of the list hides nothing in another one of them, for the numbers in these are different.
-/
theorem flatMap_outermost_eq_filter {ns : List Node}
    (h : ∀ n ∈ ns, n.ids.Nodup → n.outermost = n.nodes.filter fun m =>
      m.isReference && !inReference [n] m)
    (hnodup : (idsAll ns).Nodup) :
    ns.flatMap outermost = (nodesAll ns).filter fun m => m.isReference && !inReference ns m := by
  induction ns with
  | nil => rfl
  | cons n rest ih =>
    rw [idsAll_cons] at hnodup
    obtain ⟨hn, hrest, hdisjoint⟩ := List.nodup_append.1 hnodup
    rw [List.flatMap_cons, h n List.mem_cons_self hn,
      ih (fun m hm => h m (List.mem_cons_of_mem _ hm)) hrest, nodesAll, List.filter_append]
    refine congrArg₂ _ (List.filter_congr fun m hm => ?_) (List.filter_congr fun m hm => ?_)
    -- a reference of `n` is in none of the later nodes, as their ids differ
    · have hnot : inReference rest m = false := Bool.eq_false_iff.2 fun hin =>
        hdisjoint m.id (List.mem_map_of_mem hm) m.id (mem_idsAll_of_inReference hin) rfl
      rw [inReference_cons n rest m, hnot, Bool.or_false]
    -- nor is a reference of the later nodes inside `n`
    · have hnot : inReference [n] m = false := Bool.eq_false_iff.2 fun hin => by
        have hid := mem_idsAll_of_inReference hin
        rw [idsAll_cons, idsAll_nil, List.append_nil] at hid
        exact hdisjoint m.id hid m.id (List.mem_map_of_mem hm) rfl
      rw [inReference_cons n rest m, hnot, Bool.false_or]

/-- If no two nodes have the same number, the outermost references are the ones that are not inside
of another one. -/
theorem outermost_eq_filter (n : Node) (hnodup : n.ids.Nodup) :
    n.outermost = n.nodes.filter fun m => m.isReference && !inReference [n] m := by
  induction n using Node.induct with
  | step n ih =>
    rw [ids_eq] at hnodup
    obtain ⟨hself, hinner⟩ := List.nodup_cons.1 hnodup
    rw [nodes_eq, List.filter_cons]
    cases href : n.isReference with
    | true =>
      -- the node hides everything inside of it, and nothing hides the node
      have hfree : inReference [n] n = false := by
        rw [inReference_one, href, Bool.true_and, Bool.or_eq_false_iff, ← Bool.not_eq_true,
          List.contains_iff_mem]
        exact ⟨hself, Bool.eq_false_iff.2 fun hin => hself (mem_idsAll_of_inReference hin)⟩
      have hothers : ∀ m ∈ nodesAll n.childNodes,
        ¬(m.isReference && !inReference [n] m) = true := by
        intro m hm
        have hin : (idsAll n.childNodes).contains m.id = true :=
          List.contains_iff_mem.2 (List.mem_map_of_mem hm)
        rw [inReference_one, href, hin]
        simp
      rw [outermost_self href, hfree, List.filter_eq_nil_iff.2 hothers]
      rfl
    | false =>
      have hchildren : ∀ m ∈ n.childNodes, m.ids.Nodup →
          m.outermost = m.nodes.filter fun x => x.isReference && !inReference [m] x := ih
      rw [outermost_inner href, flatMap_outermost_eq_filter hchildren hinner, Bool.false_and,
        if_neg Bool.false_ne_true]
      refine List.filter_congr fun m _ => ?_
      rw [inReference_one, href, Bool.false_and, Bool.false_or]

/-! ### Where references stand -/

variable {s : List Char} {low high : Nat}

/-- Inside of nodes that come one after the other, references do so, too. -/
theorem spaced_flatMap_outermost {ns : List Node} (hspaced : Span.Spaced low (ns.map span) high)
    (h : ∀ n ∈ ns, n.info.start < n.info.stop →
      Span.Spaced n.info.start (n.outermost.map span) n.info.stop) :
    Span.Spaced low ((ns.flatMap outermost).map span) high := by
  rw [List.map_flatMap]
  exact hspaced.refine fun n hn => h n hn (hspaced.within n.span (List.mem_map_of_mem hn)).2.1

/-- The last one of several nodes may reach further than it ends. -/
theorem spaced_flatMap_outermost_last {ns : List Node} {o : Node}
    (hspaced : Span.Spaced low ((ns ++ [o]).map span) high)
    (h : ∀ n ∈ ns, n.info.start < n.info.stop →
      Span.Spaced n.info.start (n.outermost.map span) n.info.stop)
    (ho : o.info.start < o.info.stop → o.info.stop ≤ high →
      Span.Spaced o.info.start (o.outermost.map span) high) :
    Span.Spaced low (((ns ++ [o]).flatMap outermost).map span) high := by
  rw [List.map_append] at hspaced
  obtain ⟨hlow, hsolid, hhigh⟩ :=
    hspaced.within o.span (List.mem_append_right _ (List.mem_singleton_self _))
  have hle : o.info.start ≤ high := Nat.le_trans (Nat.le_of_lt hsolid) hhigh
  rw [List.flatMap_append, List.flatMap_singleton, List.map_append]
  exact (spaced_flatMap_outermost hspaced.init h).joined (ho hsolid hhigh) hlow hle

/-- The outermost references in a block or element stand one behind the other between its ends;
those in an `else` part stand in front of any offset that the nodes directly inside of it stand in
front of. -/
theorem spaced_outermost (n : Node) (hlaid : ∀ m ∈ n.nodes, m.Laid s) :
    (n.isFragment = false → n.info.start < n.info.stop →
        Span.Spaced n.info.start (n.outermost.map span) n.info.stop) ∧
      (n.isFragment = true → ∀ high, Span.Spaced n.info.start (n.childNodes.map span) high →
        Span.Spaced n.info.start (n.outermost.map span) high) := by
  induction n using Node.induct with
  | step n ih =>
    have hself := hlaid n n.mem_nodes_self
    have hinner : ∀ m ∈ n.childNodes, ∀ x ∈ m.nodes, x.Laid s :=
      fun m hm x hx => hlaid x (mem_nodes_of_child hm hx)
    have hfront : ∀ m ∈ n.front, m.info.start < m.info.stop →
        Span.Spaced m.info.start (m.outermost.map span) m.info.stop := fun m hm =>
      have hchild : m ∈ n.childNodes := childNodes_eq n ▸ List.mem_append_left _ hm
      (ih m hchild (hinner m hchild)).1 (hself.plain m hm)
    cases href : n.isReference with
    | true =>
      rw [outermost_self href]
      refine ⟨fun _ hsolid => Span.Spaced.one (s := n.span) hsolid, fun hfragment => ?_⟩
      cases n with
      | fragment info children => exact nomatch href
      | _ => exact nomatch hfragment
    | false =>
      rw [outermost_inner href]
      refine ⟨fun hplain _ => ?_, fun hfragment high hspaced => ?_⟩
      · obtain ⟨hspaced, hother⟩ := hself.inside hplain
        rw [childNodes_eq] at hspaced ⊢
        cases helse : n.elsePart? with
        | none =>
          rw [helse, Option.toList_none, List.append_nil] at hspaced
          rw [Option.toList_none, List.append_nil]
          exact spaced_flatMap_outermost hspaced hfront
        | some o =>
          have hchild : o ∈ n.childNodes := by
            rw [childNodes_eq, helse]
            exact List.mem_append_right _ (List.mem_singleton_self o)
          obtain ⟨hnode, hpart⟩ := ih o hchild (hinner o hchild)
          rw [helse] at hspaced
          -- what is in the `else` part is compared with the end of the block, not of that part
          refine spaced_flatMap_outermost_last hspaced hfront fun hsolid hle => ?_
          cases hkind : o.isFragment with
          | true => exact hpart hkind _ (hother o helse)
          | false => exact (hnode hkind hsolid).widen hle
      · have hnone : n.childNodes = n.front := by
          cases n with
          | fragment info children => rfl
          | _ => exact nomatch hfragment
        exact spaced_flatMap_outermost hspaced fun m hm => hfront m (hnone ▸ hm)

end Node

/-! ### Templates -/

namespace Template

variable [ConfigReader] {source : String} {t : Template}

/-- The references of a template that are not inside of another one, in the order of the document.
-/
def outerReferences (t : Template) : List Node :=
  t.root.nodes.filter fun n => n.isReference && !Node.inReference [t.root] n

/-- The outermost references of a template that was read stand in its text one behind the other, all
of them behind the front matter. -/
theorem spaced_outermost (h : Template.read source = .ok t) :
    Span.Spaced 0 (t.root.outermost.map Node.span) (byteLength source.toList) ∧
      ∀ n ∈ t.configNode?,
        Span.Spaced n.info.stop (t.root.outermost.map Node.span) (byteLength source.toList) := by
  obtain ⟨hroot, hnone, hlaid, htiles, -⟩ := laid_of_read h
  have hself := hlaid t.root t.root.mem_nodes_self
  have hfront : t.root.childNodes = t.root.front := by
    rw [Node.childNodes_eq, hnone, Option.toList_none, List.append_nil]
  have hinner : ∀ m ∈ t.root.childNodes, m.info.start < m.info.stop →
      Span.Spaced m.info.start (m.outermost.map Node.span) m.info.stop := fun m hm =>
    (m.spaced_outermost fun x hx => hlaid x (Node.mem_nodes_of_child hm hx)).1
      (hself.plain m (hfront ▸ hm))
  have hspaced : Span.Spaced 0 (t.root.childNodes.map Node.span) (byteLength source.toList) := by
    obtain ⟨high, hordered⟩ := hself.ordered
    exact (htiles.spaced fun s hs => (hordered.within s hs).2.1).2
  have houtermost : t.root.outermost = t.root.childNodes.flatMap Node.outermost := by
    refine Node.outermost_inner ?_
    cases hkind : t.root with
    | fragment info children => rfl
    | _ => exact nomatch hkind ▸ hroot
  rw [houtermost]
  refine ⟨Node.spaced_flatMap_outermost hspaced hinner, fun n hn => ?_⟩
  -- in front of the front matter there are only texts
  obtain ⟨hconfig, blanks, others, hnodes, hblanks⟩ := eq_append_of_configNode? hn
  have hleaf : ∀ b ∈ blanks, b.outermost = [] := by
    intro b hb
    cases b with
    | text info data => rfl
    | _ => exact nomatch hblanks _ hb
  have hself : n.outermost = [] := by
    cases n with
    | config info value raw => rfl
    | _ => exact nomatch hconfig
  rw [hnodes, List.map_append, List.map_cons] at hspaced
  rw [hnodes, List.flatMap_append, List.flatMap_eq_nil_iff.2 hleaf, List.nil_append,
    List.flatMap_cons, hself, List.nil_append]
  refine Node.spaced_flatMap_outermost (hspaced.sublist (List.sublist_append_right _ _)).tail
    fun m hm => ?_
  exact hinner m (hnodes ▸ List.mem_append_right _ (List.mem_cons_of_mem _ hm))

theorem outermost_eq_outerReferences (h : Template.read source = .ok t) :
    t.root.outermost = t.outerReferences :=
  t.root.outermost_eq_filter (numbered_of_read h).nodup

/-- Both ends of a node of a template that was read are places of its text. -/
theorem isBoundary_of_mem_nodes (h : Template.read source = .ok t) {n : Node}
    (hn : n ∈ t.root.nodes) :
    IsBoundary source.toList n.info.start ∧ IsBoundary source.toList n.info.stop :=
  have hmarks := (regular_of_read h n hn).marked.info
  ⟨hmarks.first.isBoundary, hmarks.last.isBoundary⟩

theorem isBoundary_of_spans (h : Template.read source = .ok t) {rs : List Replacement}
    (hspans : rs.map Replacement.span = t.root.outermost.map Node.span) :
    ∀ r ∈ rs, IsBoundary source.toList r.start ∧ IsBoundary source.toList r.stop := by
  intro r hr
  have hspan : r.span ∈ t.root.outermost.map Node.span := hspans ▸ List.mem_map_of_mem hr
  obtain ⟨n, hn, hspan⟩ := List.mem_map.1 hspan
  rw [outermost_eq_outerReferences h] at hn
  obtain ⟨hstart, hstop⟩ := Span.mk.inj hspan
  exact hstart ▸ hstop ▸ isBoundary_of_mem_nodes h (List.mem_filter.1 hn).1

/-- What an analysis has made of the text of a template with the replacements of its references. -/
structure Resolves (t : Template) (rs : List Replacement) (analysis : Analysis) : Prop where
  /-- There is a replacement for each reference that is not inside of another one, in the order of
  the document. -/
  spans : rs.map Replacement.span = t.outerReferences.map Node.span
  /-- They come one after the other in the text, none of them is empty, and they do not overlap. -/
  spaced : Span.Spaced 0 (rs.map Replacement.span) (byteLength t.source.toList)
  places : ∀ r ∈ rs, IsBoundary t.source.toList r.start ∧ IsBoundary t.source.toList r.stop
  behind : ∀ n ∈ t.configNode?, ∀ r ∈ rs, n.info.stop ≤ r.start
  /-- Every piece that is kept can be cut out of the text. -/
  cuts : Replacement.applied? t.source rs = some analysis.resolved
  /-- These spans are replaced, and nothing else. -/
  replaced : Replacement.Replaced 0 t.source.toList rs analysis.resolved.toList
  whole : t.configNode? = none → analysis.resolvedBody = analysis.resolved
  /-- Up to the end of the front matter both texts are the same; line breaks and the body follow. -/
  body : ∀ n ∈ t.configNode?, ∃ front rest breaks, byteLength front = n.info.stop ∧
    t.source.toList = front ++ rest ∧
    analysis.resolved.toList = front ++ (breaks ++ analysis.resolvedBody.toList) ∧
    (∀ x ∈ breaks, x = '\r' ∨ x = '\n') ∧ ∀ x ∈ analysis.resolvedBody.toList.head?, x ≠ '\r' ∧
    x ≠ '\n'

/-- The outermost references of a template that was read can be replaced, and the text up to the end
of the front matter is kept. -/
theorem exists_replaced (h : Template.read source = .ok t) {rs : List Replacement}
    (hspans : rs.map Replacement.span = t.root.outermost.map Node.span) :
    ∃ resolved, Replacement.Replaced 0 source.toList rs resolved ∧
      ∀ n ∈ t.configNode?, ∃ front rest rest', byteLength front = n.info.stop ∧
      source.toList = front ++ rest ∧
        resolved = front ++ rest' := by
  obtain ⟨hspaced, hbehind⟩ := spaced_outermost h
  rw [← hspans] at hspaced hbehind
  -- the replacements all lie behind the front, so what they make of the text starts with it
  have hkept : ∀ {front rest : List Char}, source.toList = front ++ rest →
      Span.Spaced (byteLength front) (rs.map Replacement.span) (byteLength source.toList) →
      ∃ rest', Replacement.Replaced 0 source.toList rs (front ++ rest') := by
    intro front rest htext hfront
    have hplaces := isBoundary_of_spans h hspans
    rw [htext] at hplaces ⊢
    obtain ⟨rest', hrest⟩ := Replacement.exists_replaced hfront hplaces rfl
    rw [← Nat.zero_add (byteLength front)] at hrest
    exact ⟨rest', hrest.behind⟩
  cases hnode : t.configNode? with
  | none =>
    obtain ⟨resolved, hresolved⟩ := hkept (List.nil_append _).symm hspaced
    exact ⟨_, hresolved, nofun⟩
  | some n =>
    -- the replacements lie behind the front matter, which is kept as it stands
    have hmem := Node.mem_nodes_of_child (mem_of_configNode? hnode).1 n.mem_nodes_self
    obtain ⟨front, rest, htext, hfront⟩ := (isBoundary_of_mem_nodes h hmem).2
    obtain ⟨rest', hrest⟩ := hkept htext (hfront ▸ hbehind n hnode)
    refine ⟨front ++ rest', hrest, fun m hm => ?_⟩
    obtain rfl := Option.some.inj hm
    exact ⟨front, rest, rest', hfront, htext, rfl⟩

/-- What a survey that has followed the outermost references of a template makes of its text. -/
theorem resolves_conclude (h : Template.read source = .ok t) {s : Survey}
    (hspans : s.replacements.map Replacement.span = t.root.outermost.map Node.span) (a : Analyzer)
    (path : Option String) : t.Resolves s.replacements (a.conclude t path s) := by
  obtain ⟨resolved, hreplaced, hconfig⟩ := exists_replaced h hspans
  obtain ⟨hspaced, hbehind⟩ := spaced_outermost h
  rw [← hspans] at hspaced hbehind
  have hplaces := isBoundary_of_spans h hspans
  rw [outermost_eq_outerReferences h] at hspans
  obtain rfl := source_of_read h
  have hcuts := hreplaced.applied?_eq
  have hresolved : (a.conclude t path s).resolved = String.ofList resolved :=
    Replacement.apply_of_applied? hcuts
  refine ⟨hspans, hspaced, hplaces, fun n hn r hr => ?_, ?_, ?_, fun hnone => ?_, fun n hn => ?_⟩
  · exact ((hbehind n hn).within r.span (List.mem_map_of_mem hr)).1
  · rw [hresolved, hcuts]
  · rw [hresolved, String.toList_ofList]
    exact hreplaced
  · show t.bodyOf _ = _
    rw [bodyOf, hnone]
    rfl
  · obtain ⟨front, rest, rest', hfront, htext, rfl⟩ := hconfig n hn
    obtain ⟨breaks, hrest, hbreaks, hbody⟩ := bodyOf_append hn hfront rest'
    have hresolvedBody : (a.conclude t path s).resolvedBody =
      t.bodyOf (String.ofList (front ++ rest')) :=
      congrArg t.bodyOf hresolved
    rw [hresolved, hresolvedBody, String.toList_ofList]
    exact ⟨front, rest, breaks, hfront, htext, congrArg _ hrest, hbreaks, hbody⟩

end Template

/-! ### Analyses -/

namespace Analyzer

/-- A prompt that is analyzed with any resolver of finitely many paths, be it the main one or one
that is referred to, is resolved by replacing the references that are not inside of another one: the
survey has recorded their spans, in the order of the document, and they can be cut out of the text.
The front matter is kept, and the resolved body is what is left behind it. -/
theorem resolves_of_analyzeIn [ConfigReader] {a : Analyzer} {visiting : List String}
    {path : Option String} {source : String} {cache cache' : Cache} {analysis : Analysis}
    (h : (a.analyzeIn visiting path source).runFrom cache = (.ok analysis, cache')) :
    ∃ t s, Template.read source = .ok t ∧ t.source = source ∧
      (t.root.survey (a.followIn visiting path)).runFrom (Survey.start source cache) = (.ok (), s) ∧
      t.Resolves s.replacements analysis := by
  rw [analyzeIn_eq_document] at h
  obtain ⟨t, s, hread, hsurvey, -, rfl, -⟩ := document_eq_ok h
  refine ⟨t, s, hread, Template.source_of_read hread, hsurvey,
    Template.resolves_conclude hread ?_ a path⟩
  -- the survey collects the outermost reference tags, each with the prompt it names
  obtain ⟨found, hfound, hcollected⟩ :=
    Node.collects_of_refers Node.refers_outermost t.root _ _ _ hsurvey
  have hreplacements : s.replacements = found.map fun f => f.1.replacement source f.2 :=
    hcollected.replacements
  have hspans : ∀ n ∈ t.root.outermost,
    (⟨n.asReference.info.start, n.asReference.info.stop⟩ : Span) = n.span :=
    fun n _ => by rw [Node.info_asReference]; rfl
  calc s.replacements.map Replacement.span
      = (found.map Prod.fst).map fun r => ⟨r.info.start, r.info.stop⟩ := by
        rw [hreplacements, List.map_map, List.map_map]
        rfl
    _ = t.root.outermost.map fun n => ⟨n.asReference.info.start, n.asReference.info.stop⟩ := by
        rw [hfound, List.map_map]
        rfl
    _ = t.root.outermost.map Node.span := List.map_congr_left hspans

/-- A prompt with front matter, a reference that another one is inside of, and a character of two
bytes. -/
def nestedReferences : String :=
  "---\n---\n<ref prompt='c'><ref prompt='d' /></ref>é<ref prompt='c' />"

theorem resolves_of_analyzeIn_nestedReferences :
    ∃ analysis cache t rs,
      ((ofResolver (some (.ofPrompts [("c", "hi")]))).analyzeIn [] none nestedReferences).runFrom
      [] =
        (.ok analysis, cache) ∧
      analysis.resolved = "---\n---\nhiéhi" ∧ analysis.resolvedBody = "hiéhi" ∧
      Template.read nestedReferences = .ok t ∧ t.Resolves rs analysis ∧
      rs.map Replacement.span = [⟨8, 48⟩, ⟨50, 68⟩] := by
  have hcheck : (runFrom [] ((ofResolver (some (.ofPrompts [("c", "hi")]))).analyzeIn [] none
      nestedReferences)).1.toOption.map
        (fun analysis => (analysis.resolved, analysis.resolvedBody)) =
          some ("---\n---\nhiéhi", "hiéhi") := by
    rw [analyzeIn_twice]
    decide +kernel
  have hspans : (Template.read nestedReferences).toOption.map
    (fun t => t.outerReferences.map Node.span) =
      some [⟨8, 48⟩, ⟨50, 68⟩] := by
    decide +kernel
  rcases hrun :
    runFrom [] ((ofResolver (some (.ofPrompts [("c", "hi")]))).analyzeIn [] none nestedReferences)
    with ⟨p | analysis, cache⟩
  · rw [hrun] at hcheck
    exact absurd hcheck.symm (Option.some_ne_none _)
  · obtain ⟨t, s, hread, -, -, hresolves⟩ := resolves_of_analyzeIn hrun
    rw [hrun] at hcheck
    rw [hread] at hspans
    obtain ⟨hresolved, hbody⟩ := Prod.mk.inj (Option.some.inj hcheck)
    exact ⟨analysis, cache, t, s.replacements, rfl, hresolved, hbody, hread, hresolves,
      hresolves.spans.trans (Option.some.inj hspans)⟩

end Analyzer

/-- The prompt that a prompt with a reference becomes, if it can be analyzed. -/
def resolvedWith (child text : String) : Option (String × List String) :=
  (readMetadata (.ofResolver (some (.ofPrompts [("c", child)]))) none none text).toOption.map
    fun m =>
    (m.resolved, m.parameters.toList)

/-- What is found in a prompt that has no references any more, if it can be analyzed. -/
def parametersOf (text : String) : Option (List String) :=
  (readMetadata (.ofResolver none) none none text).toOption.map fun m => m.parameters.toList

/-- A resolved prompt need not be one that can be analyzed: a passed attribute is written as an
assignment also where its name is no variable, and a message is written into the message that the
reference stands in.  And it may have other parameters: what is passed to a reference stays assigned
behind it. -/
theorem resolved_unready :
    (resolvedWith "hi" "<ref prompt='c' if='x' />" = some ("\x7b\x7b if = \"x\" \x7d\x7dhi", []) ∧
      parametersOf "\x7b\x7b if = \"x\" \x7d\x7dhi" = none) ∧
    (resolvedWith "<user>hi</user>" "<user><ref prompt='c' /></user>" =
        some ("<user><user>hi</user></user>", []) ∧
      parametersOf "<user><user>hi</user></user>" = none) ∧
    (resolvedWith "hi" "<ref prompt='c' who='x' />\x7b\x7b who \x7d\x7d" =
        some ("\x7b\x7b who = \"x\" \x7d\x7dhi\x7b\x7b who \x7d\x7d", ["who"]) ∧
      parametersOf "\x7b\x7b who = \"x\" \x7d\x7dhi\x7b\x7b who \x7d\x7d" = some []) := by
  unfold resolvedWith parametersOf
  refine ⟨⟨?_, ?_⟩, ⟨?_, ?_⟩, ?_, ?_⟩
  · rw [readMetadata, Analyzer.analyze, Analyzer.analyzeIn_twice]
    decide +kernel
  · rw [readMetadata, Analyzer.analyze, Analyzer.analyzeIn]
    decide +kernel
  · rw [readMetadata, Analyzer.analyze, Analyzer.analyzeIn_twice]
    decide +kernel
  · rw [readMetadata, Analyzer.analyze, Analyzer.analyzeIn]
    decide +kernel
  · rw [readMetadata, Analyzer.analyze, Analyzer.analyzeIn_twice]
    decide +kernel
  · rw [readMetadata, Analyzer.analyze, Analyzer.analyzeIn]
    decide +kernel

end PromptMarkup

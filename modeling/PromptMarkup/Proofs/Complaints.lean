/-
What a survey complains about.

* `Expr.owns_mentionAll` — going through expressions stops only with a problem of the text they were
  read from;
* `Survey.StoppedAt` — a survey has stopped at a reference, with the problem that the reference was
  answered with;
* `Node.complains_survey` — everything that a survey collects is a problem of its text, and so is
  what it stops with, unless it has stopped at a reference with a problem of another text;
* `Survey.verdict?_eq_some` — which of these problems is reported.

Design notes: a reference that cannot be followed may be answered with a problem at the reference
itself, to which no text has been attached, or with a problem of the prompt it leads to.  The law of
a survey (`complains`) takes over from the function that follows references only that these are the
two cases (`AnswersHere`).
-/
import PromptMarkup.Proofs.Following
import PromptMarkup.Proofs.Parity

namespace PromptMarkup

open PromptMarkup.Computation
open Text (Cursor)

/-! ### Expressions -/

/-- The law that a computation on names stops only with problems of the text from a cursor on. -/
def owning (c : Cursor) : Law Problem Names where
  done _ _ := True
  stop _ p _ := p.Own c
  refl _ := trivial
  trans _ _ := trivial
  back _ h := h

namespace Expr

variable {c : Cursor}

theorem closed_owning : Closed (Respects (owning c)) where
  nothing := .pure _
  both hx hy := hx.bind fun _ => hy
  read _ := .modify fun _ => trivial
  declare _ := .modify fun _ => trivial

/-- Going through expressions that lie between places stops only with a problem of the text. -/
theorem owns_mentionAll {es : List Expr} (h : ∀ e ∈ es, e.Marked c) :
    Respects (owning c) (mentionAll es) :=
  closed_owning.all fun e he =>
    (closed_owning.mention fun x hx _ => .throw fun _ => Problem.own_of_marks (h e he x hx)).1

end Expr

/-! ### Surveys -/

/-- A reference that is answered with a problem without a text is answered with a fault at the
reference itself. -/
def AnswersHere (follow : Follow) : Prop :=
  ∀ ⦃name info cache p cache'⦄, (follow name info).runFrom cache = (.error p, cache') →
    p.source = none →
    p.start = info.start ∧ p.stop = info.stop ∧ p.prompt = none

namespace Survey

/-- A survey has only come across problems of the text from a cursor on. -/
structure Clean (c : Cursor) (s : Survey) : Prop where
  failed : s.failedReference = none
  own : ∀ q ∈ s.problems, q.Own c

/-- A survey has stopped at a reference, with the problem that the reference was answered with. -/
structure StoppedAt (follow : Follow) (r : Reference) (p : Problem) (s : Survey) : Prop where
  answered : ∃ cache, (follow r.name r.info).runFrom cache = (.error p, s.cache)
  failed : s.failedReference = if p.source.isSome then some r.info.start else none

/-- A survey has stopped, with a problem of the text or at one of some references. -/
structure Stopped (c : Cursor) (follow : Follow) (refs : List Reference) (p : Problem)
    (s : Survey) : Prop where
  own : ∀ q ∈ s.problems, q.Own c
  cause : s.failedReference = none ∧ p.Own c ∨ ∃ r ∈ refs, p.source.isSome ∧ s.StoppedAt follow r p

theorem clean_start (source : String) (cache : Cache) (c : Cursor) :
    (Survey.start source cache).Clean c :=
  ⟨rfl, nofun⟩

end Survey

/-- The law that a part of a survey complains only about the text from a cursor on, and stops only
with a problem of this text or at a reference. -/
def complains (c : Cursor) (follow : Follow) (refs : List Reference) : Law Problem Survey where
  done s t := t.source = s.source ∧ (s.Clean c → t.Clean c)
  stop s p t := t.source = s.source ∧ (s.Clean c → t.Stopped c follow refs p)
  refl _ := ⟨rfl, id⟩
  trans h h' := ⟨h'.1.trans h.1, fun hs => h'.2 (h.2 hs)⟩
  back h h' := ⟨h'.1.trans h.1, fun hs => h'.2 (h.2 hs)⟩

namespace Surveying

variable {α β : Type} {c : Cursor} {follow : Follow} {refs : List Reference} {info : NodeInfo}
  {as : List Attribute} {body : Surveying Unit}

/-- A part of a survey that keeps the law. -/
abbrev Complains (c : Cursor) (follow : Follow) (refs : List Reference) (x : Surveying α) : Prop :=
  Respects (complains c follow refs) x

theorem Complains.look_bind {part : Survey → α} {f : α → Surveying β}
    (h : ∀ a, Complains c follow refs (f a)) :
    Complains c follow refs (Computation.look part >>= f) :=
  Respects.bind (.look part) h

/-- A change that does not concern the problems. -/
theorem complains_modify {f : Survey → Survey} (hf : ∀ s, f s = { f s with
      source := s.source, problems := s.problems, failedReference := s.failedReference }) :
    Complains c follow refs (modify f : Surveying PUnit) := by
  refine .modify fun s => ?_
  rw [hf s]
  exact ⟨rfl, fun h => ⟨h.failed, h.own⟩⟩

theorem complains_throw {p : Problem} (h : p.Own c) :
    Complains c follow refs (throw p : Surveying α) :=
  .throw fun _ => ⟨rfl, fun hs => ⟨hs.own, .inl ⟨hs.failed, h⟩⟩⟩

theorem complains_fail (fault : Fault) (h : c.Marks info.start info.stop) :
    Complains c follow refs (fail fault info : Surveying α) :=
  complains_throw (Problem.own_of_marks h)

theorem complains_failAt (fault : Fault) {a : Attribute} (h : c.Marks a.span.start a.span.stop) :
    Complains c follow refs (failAt fault a : Surveying α) :=
  complains_throw (Problem.own_of_marks h)

theorem complains_report (fault : Fault) (h : c.Marks info.start info.stop) :
    Complains c follow refs (report fault info) := by
  refine .modify fun s => ⟨rfl, fun hs => ⟨hs.failed, fun q hq => ?_⟩⟩
  rcases List.mem_append.1 hq with hq | hq
  · exact hs.own q hq
  · exact List.mem_singleton.1 hq ▸ Problem.own_of_marks h

theorem complains_declare (name : String) : Complains c follow refs (declare name) :=
  complains_modify fun _ => rfl

theorem complains_mention {es : List Expr} (h : ∀ e ∈ es, e.Marked c) :
    Complains c follow refs (mention es) := by
  intro s
  refine RespectsAt.look_bind ?_
  rcases hrun : (Expr.mentionAll es).runOn s.names with ⟨p | ⟨⟩, names⟩
  · exact (complains_modify (f := fun s => { s with names := names }) fun _ => rfl).bind
      (fun _ => complains_throw ((Expr.owns_mentionAll h s.names).stop hrun)) s
  · exact (complains_modify (f := fun s => { s with names := names }) fun _ => rfl).bind
      (fun _ => .pure _) s

theorem complains_inCopy (h : Complains c follow refs body) :
    Complains c follow refs (inCopy body) :=
  .look_bind fun _ => h.bind fun _ => complains_modify fun _ => rfl

theorem complains_attributes (h : ∀ e ∈ as.flatMap Attribute.expressions, e.Marked c) :
    Complains c follow refs (attributes as) :=
  complains_mention h

/-- What holds of the expressions of attributes holds of those of all but one. -/
theorem marked_others {name : String} (h : ∀ e ∈ as.flatMap Attribute.expressions, e.Marked c) :
    ∀ e ∈ (Attribute.others as name).flatMap Attribute.expressions, e.Marked c := by
  intro e he
  obtain ⟨a, ha, he⟩ := List.mem_flatMap.1 he
  exact h e (List.mem_flatMap.2 ⟨a, List.mem_of_mem_filter ha, he⟩)

/-! ### Blocks -/

theorem complains_checkFree (name : String) (h : c.Marks info.start info.stop) :
    Complains c follow refs (checkFree info name) := by
  refine .look_bind fun declared => ?_
  split
  · exact complains_fail _ h
  · exact .pure _

theorem complains_index {header : ForHeader} (h : ∀ e ∈ header.key.toList, e.Marked c) :
    Complains c follow refs (index header) := by
  unfold index
  cases header.index with
  | none => exact .pure _
  | some name => exact (complains_mention h).bind fun _ => complains_declare name

theorem complains_forBlock {header : ForHeader} {otherwise : Surveying Unit}
    (hinfo : c.Marks info.start info.stop)
    (h : ∀ e ∈ header.iterable :: header.key.toList, e.Marked c)
    (hbody : Complains c follow refs body) (hotherwise : Complains c follow refs otherwise) :
    Complains c follow refs (forBlock info header body otherwise) := by
  have hkey : ∀ e ∈ header.key.toList, e.Marked c := fun e he => h e (List.mem_cons_of_mem _ he)
  -- the names of the items are declared in a copy, behind the iterable
  have hcopy : Complains c follow refs (inCopy do
      declare header.item
      index header
      body) :=
    complains_inCopy ((complains_declare _).bind fun _ => (complains_index hkey).bind fun _ =>
      hbody)
  have hrest : Complains c follow refs (do
      mention [header.iterable]
      inCopy do
        declare header.item
        index header
        body
      otherwise) := by
    refine (complains_mention fun e he => ?_).bind fun _ => hcopy.bind fun _ => hotherwise
    exact h e (List.mem_singleton.1 he ▸ List.mem_cons_self)
  refine (complains_checkFree header.item hinfo).bind fun _ => ?_
  cases header.index with
  | none => exact hrest
  | some name => exact (complains_checkFree name hinfo).bind fun _ => hrest

/-! ### Elements -/

theorem complains_messageRole (role : Option Role) (h : c.Marks info.start info.stop) :
    Complains c follow refs (messageRole info role as) := by
  unfold messageRole
  repeat' split
  all_goals first | exact .pure _ | exact complains_fail _ h

theorem complains_message {role : Option Role} (hinfo : c.Marks info.start info.stop)
    (has : ∀ e ∈ as.flatMap Attribute.expressions, e.Marked c)
    (hbody : Complains c follow refs body) :
    Complains c follow refs (message info role as body) := by
  refine .look_bind fun inMessage => ?_
  split
  · exact complains_fail _ hinfo
  · refine (complains_attributes has).bind fun _ =>
      (complains_messageRole role hinfo).bind fun role => ?_
    split
    · exact complains_fail _ hinfo
    · exact Respects.bind (complains_modify fun _ => rfl) fun _ => hbody.bind fun _ =>
        complains_modify fun _ => rfl

theorem complains_contentTag {kind : ContentKind} {plain : Option String}
    (hinfo : c.Marks info.start info.stop)
    (has : ∀ e ∈ as.flatMap Attribute.expressions, e.Marked c)
    (hbody : Complains c follow refs body) :
    Complains c follow refs (contentTag info kind as plain body) := by
  refine .look_bind fun inContent => ?_
  split
  · exact complains_fail _ hinfo
  · refine (complains_attributes has).bind fun _ =>
      Respects.bind (complains_modify fun _ => rfl) fun _ =>
      hbody.bind fun _ => Respects.bind (complains_modify fun _ => rfl) fun _ => ?_
    split
    · exact complains_fail _ hinfo
    · exact .pure _

theorem complains_checkPlacement (h : c.Marks info.start info.stop) :
    Complains c follow refs (checkPlacement info) := by
  refine .look_bind fun role => .look_bind fun inMessage => ?_
  split
  · exact .pure _
  · exact complains_report _ h

theorem complains_toolCall {plain : Option String} (hinfo : c.Marks info.start info.stop)
    (has : ∀ e ∈ as.flatMap Attribute.expressions, e.Marked c)
    (hbody : Complains c follow refs body) :
    Complains c follow refs (toolCall info as plain body) := by
  refine .look_bind fun inContent => ?_
  split
  · exact complains_fail _ hinfo
  · refine (complains_attributes has).bind fun _ => ?_
    split
    · exact complains_fail _ hinfo
    · split
      · exact complains_fail _ hinfo
      · refine hbody.bind fun _ => ?_
        split
        · exact complains_checkPlacement hinfo
        · exact (complains_report _ hinfo).bind fun _ => complains_checkPlacement hinfo

theorem complains_stepName (has : ∀ a ∈ as, c.Marks a.span.start a.span.stop) :
    Complains c follow refs (stepName as) := by
  unfold stepName
  split
  · exact .pure _
  · next a ha =>
    split
    · exact .pure _
    · exact complains_failAt _ (has a (List.mem_of_find?_eq_some ha))

theorem complains_step (hinfo : c.Marks info.start info.stop)
    (hspans : ∀ a ∈ as, c.Marks a.span.start a.span.stop)
    (has : ∀ e ∈ as.flatMap Attribute.expressions, e.Marked c)
    (hbody : Complains c follow refs body) :
    Complains c follow refs (step info as body) := by
  refine .look_bind fun inStep => ?_
  split
  · exact complains_fail _ hinfo
  · refine .look_bind fun inMessage => ?_
    split
    · exact complains_fail _ hinfo
    · refine (complains_stepName hspans).bind fun name =>
        (complains_attributes (marked_others has)).bind fun _ =>
        Respects.bind (complains_modify fun _ => rfl) fun _ => hbody.bind fun _ =>
          Respects.bind (complains_modify fun _ => rfl) fun _ => ?_
      cases name with
      | none => exact .pure _
      | some name => exact complains_declare name

/-! ### References -/

/-- Where a reference is answered with a problem, the survey keeps it in mind if it is one of
another text. -/
theorem followed_eq_error {name : String} {s t : Survey} {p : Problem}
    (h : runFrom s (followed follow name info) = (.error p, t)) :
    ∃ cache, (follow name info).runFrom s.cache = (.error p, cache) ∧ t = { s with
      cache := cache
      failedReference := if p.source.isSome then some info.start else s.failedReference } := by
  unfold followed at h
  rw [runFrom_bind_ok (runFrom_look s _)] at h
  -- whether the problem has a source tells where it is from: a problem of the prompt that was
  -- followed has one, and then the place of the reference is kept
  rcases hrun : (follow name info).runFrom s.cache with ⟨q | found, cache⟩
  · simp only [hrun] at h
    rw [runFrom_bind_ok (runFrom_modify s _)] at h
    split at h
    · next hsome =>
      rw [runFrom_bind_ok (runFrom_modify _ _)] at h
      obtain ⟨hq, rfl⟩ := Prod.mk.inj h
      obtain rfl := Except.error.inj hq
      exact ⟨cache, rfl, by rw [if_pos hsome]⟩
    · next hnone =>
      obtain ⟨hq, rfl⟩ := Prod.mk.inj h
      obtain rfl := Except.error.inj hq
      exact ⟨cache, rfl, by rw [if_neg hnone]⟩
  · simp only [hrun] at h
    rw [runFrom_bind_ok (runFrom_modify s _)] at h
    exact nomatch h

theorem complains_followed {r : Reference} (hfollow : AnswersHere follow) (hr : r ∈ refs)
    (hinfo : c.Marks r.info.start r.info.stop) :
    Complains c follow refs (followed follow r.name r.info) := by
  intro s
  rcases hrun : runFrom s (followed follow r.name r.info) with ⟨p | child, t⟩
  · obtain ⟨cache, hanswer, rfl⟩ := followed_eq_error hrun
    refine RespectsAt.of_error hrun ⟨rfl, fun hs => ⟨hs.own, ?_⟩⟩
    -- only a problem of another text has a text already
    cases hsource : p.source with
    | none =>
      obtain ⟨hstart, hstop, hprompt⟩ := hfollow hanswer hsource
      refine .inl ⟨?_, .inl ?_, hsource, hprompt⟩
      · simpa using hs.failed
      · rw [hstart, hstop]
        exact hinfo
    | some text => exact .inr ⟨r, hr, rfl, ⟨s.cache, hanswer⟩, by rw [hsource]; rfl⟩
  · obtain ⟨cache, -, rfl⟩ := followed_eq_ok hrun
    exact RespectsAt.of_ok hrun ⟨rfl, fun hs => ⟨hs.failed, hs.own⟩⟩

theorem complains_reference (hfollow : AnswersHere follow) (hinfo : c.Marks info.start info.stop)
    (hspans : ∀ a ∈ as, c.Marks a.span.start a.span.stop)
    (has : ∀ e ∈ as.flatMap Attribute.expressions, e.Marked c)
    (hrefs : ∀ r ∈ (((Attribute.find? as "prompt").bind Attribute.staticText?).map fun prompt =>
      (⟨prompt, info, Attribute.others as "prompt"⟩ : Reference)).toList, r ∈ refs) :
    Complains c follow refs (reference follow info as) := by
  unfold reference promptName
  cases hfind : Attribute.find? as "prompt" with
  -- without a name nothing is followed
  | none => exact complains_fail _ hinfo
  | some a =>
    dsimp only
    cases hname : a.staticText? with
    | none => exact complains_failAt _ (hspans a (List.mem_of_find?_eq_some hfind))
    | some name =>
      have hr : (⟨name, info, Attribute.others as "prompt"⟩ : Reference) ∈ refs := by
        refine hrefs _ ?_
        rw [hfind, Option.bind_some, hname]
        exact List.mem_singleton.2 rfl
      exact (complains_attributes (marked_others has)).bind fun _ =>
        (complains_followed hfollow hr hinfo).bind fun _ => complains_modify fun _ => rfl

end Surveying

/-! ### Nodes -/

namespace Node

open Surveying

variable {c : Cursor} {follow : Follow} {refs : List Reference}

theorem complains_surveyAll {ns : List Node}
    (h : ∀ n ∈ ns, Complains c follow refs (n.survey follow)) :
    Complains c follow refs (surveyAll follow ns) := by
  induction ns with
  | nil => exact .pure _
  | cons n rest ih =>
    exact (h n List.mem_cons_self).bind fun _ => ih fun m hm => h m (List.mem_cons_of_mem _ hm)

theorem complains_surveyElse {o : Option Node}
    (h : ∀ n ∈ o.toList, Complains c follow refs (n.survey follow)) :
    Complains c follow refs (surveyElse follow o) := by
  cases o with
  | none => exact .pure _
  | some n => exact h n (by simp)

/-- A survey of a node that lies between places with everything in it complains only about the text,
and stops only with a problem of the text or at a reference in the node. -/
theorem complains_survey (n : Node) (hfollow : AnswersHere follow)
    (hmarked : ∀ m ∈ n.nodes, m.Marked c)
    (hrefs : ∀ r ∈ n.references, r ∈ refs) : Complains c follow refs (n.survey follow) := by
  -- the induction is on the tree, the references of a child being some of those of the node
  induction n using Node.induct with
  | step n ih =>
    have hself : n.Marked c := hmarked n (mem_nodes_self n)
    have hexpressions : ∀ e ∈ n.expressions, e.Marked c := fun e he =>
      (hself.expressions e he).marked
    have hchild : ∀ m ∈ n.childNodes, (∀ r ∈ m.references, r ∈ refs) →
        Complains c follow refs (m.survey follow) :=
      fun m hm => ih m hm fun x hx => hmarked x (mem_nodes_of_child hm hx)
    cases n with
    | fragment info children =>
      exact complains_inCopy (complains_surveyAll fun m hm =>
        hchild m hm fun r hr => hrefs r (mem_referencesAll hm hr))
    | config info value raw => exact .pure _
    | text info data => exact .pure _
    | comment info data => exact .pure _
    | mustache info e => exact complains_mention hexpressions
    | ifBlock info condition elseIf children otherwise =>
      have hall : Complains c follow refs (surveyAll follow children) :=
        complains_surveyAll fun m hm => hchild m (List.mem_append_left _ hm) fun r hr =>
          hrefs r (List.mem_append_left _ (mem_referencesAll hm hr))
      have helse : Complains c follow refs (surveyElse follow otherwise) :=
        complains_surveyElse fun m hm => hchild m (List.mem_append_right _ hm) fun r hr =>
          hrefs r (List.mem_append_right _ (mem_referencesElse hm hr))
      exact (complains_mention hexpressions).bind fun _ => (complains_inCopy hall).bind fun _ =>
        helse
    | forBlock info header children otherwise =>
      exact complains_forBlock hself.info hexpressions
        (complains_surveyAll fun m hm => hchild m (List.mem_append_left _ hm) fun r hr =>
          hrefs r (List.mem_append_left _ (mem_referencesAll hm hr)))
        (complains_surveyElse fun m hm => hchild m (List.mem_append_right _ hm) fun r hr =>
          hrefs r (List.mem_append_right _ (mem_referencesElse hm hr)))
    | element info name as children =>
      have hall (hinner : ∀ r ∈ referencesAll children, r ∈ refs) :
          Complains c follow refs (surveyAll follow children) :=
        complains_surveyAll fun m hm => hchild m hm fun r hr => hinner r (mem_referencesAll hm hr)
      -- which references are below an element depends on the kind of its tag: the children of a
      -- reference are not walked
      unfold references at hrefs
      unfold survey Surveying.element
      cases hkind : TagKind.ofName name with
      | message role =>
        exact complains_message hself.info hexpressions (hall (by simpa only [hkind] using hrefs))
      | content kind =>
        exact complains_contentTag hself.info hexpressions
          (hall (by simpa only [hkind] using hrefs))
      | toolCall =>
        exact complains_toolCall hself.info hexpressions (hall (by simpa only [hkind] using hrefs))
      | reference =>
        rw [hkind] at hrefs
        exact complains_reference hfollow hself.info hself.attributes hexpressions hrefs
      | step =>
        exact complains_step hself.info hself.attributes hexpressions
          (hall (by simpa only [hkind] using hrefs))
      | unknown =>
        exact (complains_report _ hself.info).bind fun _ =>
          (complains_attributes hexpressions).bind fun _ => hall (by simpa only [hkind] using hrefs)

end Node

/-- The survey of a template that was read complains only about its text. -/
theorem Template.complains_survey [ConfigReader] {source : String} {t : Template} {follow : Follow}
    (hread : Template.read source = .ok t) (hfollow : AnswersHere follow) :
    Surveying.Complains (Cursor.ofText source.toList) follow t.root.references
    (t.root.survey follow) :=
  t.root.complains_survey hfollow (fun n hn => (Template.regular_of_read hread n hn).marked)
    fun _ hr => hr

/-! ### Reports -/

/-- A problem that starts behind another one is not the earliest one. -/
theorem Problem.earliest?_concat {l : List Problem} {p q : Problem} (hq : q ∈ l)
    (hlt : q.start < p.start) :
    ∃ first, earliest? l = some first ∧ earliest? (l ++ [p]) = some first := by
  cases hfirst : earliest? l with
  | none => exact absurd (earliest?_eq_none.1 hfirst ▸ hq) List.not_mem_nil
  | some first =>
    refine ⟨first, rfl, earliest?_eq_some.2 ?_⟩
    obtain ⟨hhead, hmin⟩ := earliest?_eq_some.1 hfirst
    have hbefore : first.start < p.start := Nat.lt_of_le_of_lt (hmin q hq) hlt
    refine ⟨?_, fun x hx => ?_⟩
    · rw [startingAt_append, List.head?_append, hhead]
      rfl
    · rcases List.mem_append.1 hx with hx | hx
      · exact hmin x hx
      · exact List.mem_singleton.1 hx ▸ Nat.le_of_lt hbefore

namespace Survey

/-- The problems of the prompt itself when its survey has ended: those that did not stop the survey,
and the one that did, unless it is one of a referenced prompt. -/
def ownProblems (s : Survey) : Except Problem Unit → List Problem
  | .ok () => s.problems
  | .error p => if s.failedReference.isSome then s.problems else s.problems ++ [p]

/-- The problems of the prompt itself are ones of its text. -/
theorem Stopped.own_of_mem {c : Cursor} {follow : Follow} {refs : List Reference} {s : Survey}
    {p q : Problem}
    (h : s.Stopped c follow refs p) (hq : q ∈ s.ownProblems (.error p)) : q.Own c := by
  rcases h.cause with ⟨hnone, hp⟩ | ⟨r, -, hsome, hat⟩
  · rw [ownProblems, hnone] at hq
    rcases List.mem_append.1 hq with hq | hq
    · exact h.own q hq
    · exact List.mem_singleton.1 hq ▸ hp
  · rw [ownProblems, hat.failed, if_pos hsome] at hq
    exact h.own q hq

/-- The earliest problem of the prompt itself is reported, or a problem of a referenced prompt if
all of its own are behind the reference. -/
theorem verdict?_eq_some {s : Survey} {result : Except Problem Unit} {p : Problem}
    (h : s.verdict? result = some p) :
    (∃ q, Problem.earliest? (s.ownProblems result) = some q ∧ p = q.withSource s.source) ∨
      ∃ anchor, result = .error p ∧ s.failedReference = some anchor ∧
      ∀ q ∈ s.problems, anchor < q.start := by
  have hown : ∀ {l : List Problem},
      (Problem.earliest? l).map (fun q => q.withSource s.source) = some p →
      ∃ q, Problem.earliest? l = some q ∧ p = q.withSource s.source := by
    intro l hl
    obtain ⟨q, hq, rfl⟩ := Option.map_eq_some_iff.1 hl
    exact ⟨q, hq, rfl⟩
  unfold verdict? at h
  rcases result with e | ⟨⟩
  · dsimp only at h
    -- the problem of the reference stands only if no other is in front of it
    cases hfailed : s.failedReference with
    | none =>
      rw [hfailed] at h
      refine .inl ?_
      rw [ownProblems, hfailed]
      exact hown h
    | some anchor =>
      rw [hfailed] at h
      dsimp only at h
      split at h
      · next hall =>
        obtain rfl := Option.some.inj h
        exact .inr ⟨anchor, rfl, rfl, by simpa using hall⟩
      · refine .inl ?_
        rw [ownProblems, hfailed]
        exact hown h
  · exact .inl (hown h)

/-- Where a survey has stopped at a reference behind a problem that was collected, the earliest one
that was collected is reported. -/
theorem StoppedAt.verdict?_eq {follow : Follow} {r : Reference} {s : Survey} {p q : Problem}
    (h : s.StoppedAt follow r p) (hfollow : AnswersHere follow) (hq : q ∈ s.problems)
    (hlt : q.start < r.info.start) :
    ∃ first, Problem.earliest? s.problems = some first ∧
      s.verdict? (.error p) = some (first.withSource s.source) := by
  -- a problem at the reference itself is collected with the others, one of another text is not
  cases hsource : p.source with
  | none =>
    obtain ⟨cache, hanswer⟩ := h.answered
    have hstart : p.start = r.info.start := (hfollow hanswer hsource).1
    obtain ⟨first, hfirst, hconcat⟩ := Problem.earliest?_concat hq (hstart ▸ hlt)
    have hfailed : s.failedReference = none := by simpa [hsource] using h.failed
    refine ⟨first, hfirst, ?_⟩
    simp only [verdict?, hfailed, hconcat, Option.map_some]
  | some text =>
    have hfailed : s.failedReference = some r.info.start := by simpa [hsource] using h.failed
    have hall : ¬ (s.problems.all fun q => decide (r.info.start < q.start)) = true := by
      intro hall
      have hbehind : r.info.start < q.start := by simpa using List.all_eq_true.1 hall q hq
      exact Nat.lt_asymm hlt hbehind
    cases hfirst : Problem.earliest? s.problems with
    | none => exact absurd (Problem.earliest?_eq_none.1 hfirst ▸ hq) List.not_mem_nil
    | some first =>
      refine ⟨first, rfl, ?_⟩
      simp only [verdict?, hfailed, if_neg hall, hfirst, Option.map_some]

end Survey

end PromptMarkup

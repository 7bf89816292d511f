/-
The two passes over a prompt in which nothing is evaluated.

* `SamePlaces` — two lists have the same problems at every place, so the same one is reported;
* `Level`, `Parallel` — a survey and a walk are at the same place, and end alike;
* `Node.parallel_survey` — they go over a node alike;
* `passes_agree` — analysis and compilation have the same result, except that a tool call that is
  out of place may be hidden by a later problem.

Design notes: a walk reports a tool call that is out of place when the message around it is closed,
a survey when it is reached.  `Level` therefore counts the tool calls that are pending among the
problems of the walk, and a failure loses them.  That the order of the reports does not matter
otherwise is due to the places where elements start, which are all different.
-/
import PromptMarkup.Metadata
import PromptMarkup.Proofs.Calls
import PromptMarkup.Proofs.Indentation
import PromptMarkup.Proofs.Reading
import PromptMarkup.Proofs.Soundness
import PromptMarkup.Proofs.Static
import PromptMarkup.Yaml.Document

namespace PromptMarkup

open PromptMarkup.Computation

/-! ### Problems at places -/

/-- The problems that start at a place, in order. -/
def Problem.startingAt (k : Nat) (problems : List Problem) : List Problem :=
  problems.filter fun p => p.start == k

/-- Two lists have the same problems at every place, in the same order. -/
def SamePlaces (l m : List Problem) : Prop :=
  ∀ k, Problem.startingAt k l = Problem.startingAt k m

theorem Problem.startingAt_append (k : Nat) (l m : List Problem) :
    startingAt k (l ++ m) = startingAt k l ++ startingAt k m :=
  List.filter_append ..

theorem Problem.mem_startingAt {k : Nat} {l : List Problem} {p : Problem} :
    p ∈ startingAt k l ↔ p ∈ l ∧ p.start = k := by
  simp [startingAt]

theorem Problem.startingAt_eq_nil {k : Nat} {l : List Problem} (h : ∀ p ∈ l, p.start ≠ k) :
    startingAt k l = [] := by
  rw [startingAt, List.filter_eq_nil_iff]
  exact fun p hp => by simpa using h p hp

/-- The problem that is reported is the first one at its place, and none starts in front of it. -/
theorem Problem.earliest?_eq_some {l : List Problem} {p : Problem} :
    earliest? l = some p ↔ (startingAt p.start l).head? = some p ∧ ∀ q ∈ l, p.start ≤ q.start := by
  -- the first one of those that start earliest is chosen; the induction is on the list, which the
  -- choice goes through from its end
  have hforward : ∀ {l : List Problem} {p : Problem}, earliest? l = some p →
      (startingAt p.start l).head? = some p ∧ ∀ q ∈ l, p.start ≤ q.start := by
    intro l
    induction l with
    | nil => exact fun h => nomatch h
    | cons q rest ih =>
      intro p h
      unfold earliest? at h
      split at h
      · next hnone =>
        obtain rfl := Option.some.inj h
        rw [earliest?_eq_none.1 hnone]
        simp [startingAt]
      · next r hr =>
        obtain ⟨hhead, hmin⟩ := ih hr
        obtain h := Option.some.inj h
        split at h
        · next hlt =>
          subst h
          have hne : ¬ q.start = r.start := Nat.ne_of_gt hlt
          refine ⟨by simpa [startingAt, hne] using hhead, fun x hx => ?_⟩
          rcases List.mem_cons.1 hx with rfl | hx
          · exact Nat.le_of_lt hlt
          · exact hmin x hx
        · next hle =>
          subst h
          refine ⟨by simp [startingAt], fun x hx => ?_⟩
          rcases List.mem_cons.1 hx with rfl | hx
          · exact Nat.le_refl _
          · exact Nat.le_trans (Nat.le_of_not_lt hle) (hmin x hx)
  -- the other direction, since the choice is unique
  refine ⟨hforward, fun ⟨hhead, hmin⟩ => ?_⟩
  have hp : p ∈ l := (mem_startingAt.1 (List.mem_of_head? hhead)).1
  rcases hfirst : earliest? l with _ | q
  · rw [earliest?_eq_none.1 hfirst] at hp
    exact nomatch hp
  · obtain ⟨hq, hminq⟩ := hforward hfirst
    have hstart : q.start = p.start := Nat.le_antisymm (hminq p hp)
      (hmin q (mem_startingAt.1 (List.mem_of_head? hq)).1)
    rw [hstart, hhead] at hq
    exact hq.symm

namespace SamePlaces

variable {l m a b : List Problem}

theorem refl (l : List Problem) : SamePlaces l l :=
  fun _ => rfl

theorem mem_iff (h : SamePlaces l m) (p : Problem) : p ∈ l ↔ p ∈ m := by
  have hstart : p ∈ Problem.startingAt p.start l ↔ p ∈ Problem.startingAt p.start m := by
    rw [h p.start]
  simpa [Problem.mem_startingAt] using hstart

theorem append (h : SamePlaces l m) (a : List Problem) : SamePlaces (l ++ a) (m ++ a) := by
  intro k
  rw [Problem.startingAt_append, Problem.startingAt_append, h k]

/-- A problem that starts at a place of its own may be added anywhere. -/
theorem insert (h : SamePlaces l (a ++ b)) {p : Problem} (hp : ∀ q ∈ b, q.start ≠ p.start) :
    SamePlaces (l ++ [p]) (a ++ [p] ++ b) := by
  intro k
  have hk := h k
  simp only [Problem.startingAt_append] at hk ⊢
  rw [hk]
  by_cases hpk : p.start = k
  · have hnil : Problem.startingAt k b = [] :=
      Problem.startingAt_eq_nil fun q hq => hpk ▸ hp q hq
    rw [hnil, List.append_nil, List.append_nil]
  · have hnil : Problem.startingAt k [p] = [] := by simp [Problem.startingAt, hpk]
    rw [hnil, List.append_nil, List.append_nil]

/-- The same problem is reported. -/
theorem earliest? (h : SamePlaces l m) : Problem.earliest? l = Problem.earliest? m := by
  rcases hfirst : Problem.earliest? l with _ | p
  · obtain rfl := Problem.earliest?_eq_none.1 hfirst
    refine (Problem.earliest?_eq_none.2 (List.eq_nil_iff_forall_not_mem.2 fun p hp => ?_)).symm
    exact nomatch (h.mem_iff p).2 hp
  · obtain ⟨hhead, hmin⟩ := Problem.earliest?_eq_some.1 hfirst
    refine (Problem.earliest?_eq_some.2 ⟨h p.start ▸ hhead, fun q hq => ?_⟩).symm
    exact hmin q ((h.mem_iff q).2 hq)

end SamePlaces

/-- A tool call stands where it may not. -/
def Problem.IsMisplacedCall (p : Problem) : Prop :=
  ∃ role, p.fault = .misplacedToolCall role

/-- Reporting with and without some problems: either the same one is reported, or the first of
those. -/
theorem Problem.earliest?_append_lost {l kept lost : List Problem} {p : Problem}
    (h : SamePlaces l (kept ++ lost)) (hlast : ∀ q ∈ l, q.start < p.start) {first : Problem}
    (hfirst : earliest? (l ++ [p]) = some first) :
    ∃ other, earliest? (kept ++ [p]) = some other ∧
      (other = first ∨ first ∈ lost ∧ first.start < other.start) := by
  obtain ⟨other, hother⟩ : ∃ other, earliest? (kept ++ [p]) = some other := by
    rcases hnone : earliest? (kept ++ [p]) with _ | other
    · exact nomatch List.append_eq_nil_iff.1 (earliest?_eq_none.1 hnone)
    · exact ⟨other, rfl⟩
  refine ⟨other, hother, ?_⟩
  obtain ⟨hhead, hmin⟩ := earliest?_eq_some.1 hfirst
  obtain ⟨hohead, homin⟩ := earliest?_eq_some.1 hother
  -- what is kept is among all problems, so nothing kept starts in front of the first one
  have hkept : ∀ q ∈ kept ++ [p], q ∈ l ++ [p] := by
    intro q hq
    rcases List.mem_append.1 hq with hq | hq
    · exact List.mem_append_left _ ((h.mem_iff q).2 (List.mem_append_left _ hq))
    · exact List.mem_append_right _ hq
  have hle : first.start ≤ other.start :=
    hmin other (hkept other (mem_startingAt.1 (List.mem_of_head? hohead)).1)
  have hall : startingAt first.start (l ++ [p]) = startingAt first.start kept ++
      (startingAt first.start lost ++ startingAt first.start [p]) := by
    rw [startingAt_append, h first.start, startingAt_append, List.append_assoc]
  rw [hall] at hhead
  rcases hempty : startingAt first.start kept with _ | ⟨x, rest⟩
  · rw [hempty, List.nil_append] at hhead
    rcases hlost : startingAt first.start lost with _ | ⟨x, rest⟩
    · -- only the last problem starts there
      rw [hlost, List.nil_append] at hhead
      obtain rfl : first = p := List.mem_singleton.1 (mem_startingAt.1 (List.mem_of_head? hhead)).1
      have hother : other.start ≤ first.start := homin first (by simp)
      refine .inl (List.mem_singleton.1 ?_)
      rcases List.mem_append.1 (mem_startingAt.1 (List.mem_of_head? hohead)).1 with hmem | hmem
      · have hbefore := hlast other ((h.mem_iff other).2 (List.mem_append_left _ hmem))
        exact absurd hle (Nat.not_le_of_lt hbefore)
      · exact hmem
    · rw [hlost] at hhead
      obtain rfl : x = first := Option.some.inj hhead
      have hmem : x ∈ lost := (mem_startingAt.1 (hlost ▸ List.mem_cons_self)).1
      refine .inr ⟨hmem, Nat.lt_of_le_of_ne hle fun heq => ?_⟩
      -- a kept problem at the same place would have been reported, and the last one starts later
      rcases List.mem_append.1 (mem_startingAt.1 (List.mem_of_head? hohead)).1 with hother | hother
      · have hin : other ∈ startingAt x.start kept := mem_startingAt.2 ⟨hother, heq.symm⟩
        rw [hempty] at hin
        exact nomatch hin
      · obtain rfl := List.mem_singleton.1 hother
        have hbefore := hlast x ((h.mem_iff x).2 (List.mem_append_right _ hmem))
        exact Nat.ne_of_lt hbefore heq
  · rw [hempty] at hhead
    obtain rfl : x = first := Option.some.inj hhead
    have hmem : x ∈ kept := (mem_startingAt.1 (hempty ▸ List.mem_cons_self)).1
    have heq : other.start = x.start := Nat.le_antisymm (homin x (List.mem_append_left _ hmem)) hle
    rw [heq, startingAt_append, hempty] at hohead
    exact .inl (Option.some.inj hohead).symm

/-! ### The two passes -/

/-- Who the message around is from; outside of all messages the system speaks. -/
def Survey.speaker (s : Survey) : Role :=
  s.messageRole.getD .system

/-- A survey and a walk stand at the same place, and have found the same problems once the tool
calls that are pending are counted. -/
structure Level (s : Survey) (w : Walk) : Prop where
  inMessage : w.inMessage = s.inMessage
  inContent : w.inContent = s.inContent
  role : s.messageRole.isSome = s.inMessage
  own : s.failedReference = none
  problems : SamePlaces s.problems (w.problems ++ misplacedCalls s.speaker w.toolCalls)

/-- Over elements that start at some places a survey has come from one place to a place like it. -/
structure Passed (tags : List Nat) (s t : Survey) : Prop where
  source : t.source = s.source
  inMessage : t.inMessage = s.inMessage
  messageRole : t.messageRole = s.messageRole
  inContent : t.inContent = s.inContent
  problems : ∀ p ∈ t.problems, p ∈ s.problems ∨ p.start ∈ tags

/-- A part of a survey and a part of a walk end alike: both come to their ends at the same place, or
fail for the same problem, behind all that were found; then tool calls that were pending are lost.
-/
inductive Parallel (tags : List Nat) (s : Survey) :
    Except Problem Unit × Survey → Except Interrupt Unit × Walk → Prop
  | done {t : Survey} {w : Walk} (passed : Passed tags s t) (level : Level t w) :
    Parallel tags s (.ok (), t) (.ok (), w)
  | failed {t : Survey} {w : Walk} {p : Problem} {lost : List Problem}
    (source : t.source = s.source)
    (own : t.failedReference = none) (misplaced : ∀ q ∈ lost, q.IsMisplacedCall)
    (problems : SamePlaces t.problems (w.problems ++ lost))
    (last : ∀ q ∈ t.problems, q.start < p.start) :
    Parallel tags s (.error p, t) (.error (.failed p), w)

theorem isMisplacedCall_of_mem {role : Role} {pending : List PendingCall} {q : Problem}
    (h : q ∈ misplacedCalls role pending) : q.IsMisplacedCall := by
  unfold misplacedCalls at h
  split at h
  · exact nomatch h
  · obtain ⟨call, -, rfl⟩ := List.mem_map.1 h
    exact ⟨role, rfl⟩

theorem start_of_mem_misplacedCalls {role : Role} {call : PendingCall} {q : Problem}
    (h : q ∈ misplacedCalls role [call]) : q.start = call.start := by
  unfold misplacedCalls at h
  split at h
  · exact nomatch h
  · rw [List.mem_singleton.1 h]
    rfl

theorem Passed.refl (tags : List Nat) (s : Survey) : Passed tags s s :=
  ⟨rfl, rfl, rfl, rfl, fun _ h => .inl h⟩

theorem Passed.trans {a b : List Nat} {s t u : Survey} (h : Passed a s t) (h' : Passed b t u) :
    Passed (a ++ b) s u := by
  refine ⟨h'.source.trans h.source, h'.inMessage.trans h.inMessage,
    h'.messageRole.trans h.messageRole, h'.inContent.trans h.inContent, fun p hp => ?_⟩
  rcases h'.problems p hp with hp | hp
  · exact (h.problems p hp).imp_right fun hp => List.mem_append_left _ hp
  · exact .inr (List.mem_append_right _ hp)

/-- Nothing that was found starts at one of the given places or behind it. -/
def Survey.Before (s : Survey) (tags : List Nat) : Prop :=
  ∀ p ∈ s.problems, ∀ k ∈ tags, p.start < k

theorem Survey.Before.tail {s : Survey} {k : Nat} {tags : List Nat} (h : s.Before (k :: tags)) :
    s.Before tags :=
  fun p hp j hj => h p hp j (List.mem_cons_of_mem k hj)

namespace Parallel

variable {tags more : List Nat} {s s' t : Survey} {w u : Walk} {x : Surveying Unit}
  {y : Walking Unit} {info : NodeInfo}

theorem pure (hlevel : Level s w) : Parallel tags s (runFrom s (Pure.pure () : Surveying Unit))
    (runFrom w (Pure.pure () : Walking Unit)) :=
  .done (Passed.refl tags s) hlevel

/-- Both fail at an element that starts behind all problems. -/
theorem fail (hlevel : Level s w) (hbefore : s.Before (info.start :: tags)) (fault : Fault) :
    Parallel (info.start :: tags) s (runFrom s (Surveying.fail fault info : Surveying Unit))
      (runFrom w (Walking.fail fault info : Walking Unit)) :=
  .failed rfl hlevel.own (fun _ => isMisplacedCall_of_mem) hlevel.problems
    fun q hq => hbefore q hq info.start List.mem_cons_self

/-- One part behind another. -/
theorem bind {x' : Surveying Unit} {y' : Walking Unit}
    (h : Parallel tags s (runFrom s x) (runFrom w y))
    (hnext : ∀ t u, runFrom s x = (.ok (), t) → runFrom w y = (.ok (), u) → Passed tags s t →
      Level t u →
      Parallel more t (runFrom t x') (runFrom u y')) :
    Parallel (tags ++ more) s (runFrom s (x >>= fun _ => x')) (runFrom w (y >>= fun _ => y')) := by
  generalize hx : runFrom s x = ended at h
  generalize hy : runFrom w y = ended' at h
  -- both fail in the first part, or both go on
  cases h with
  | failed source own misplaced problems last =>
    rw [runFrom_bind_error hx, runFrom_bind_error hy]
    exact .failed source own misplaced problems last
  | done passed level =>
    rw [runFrom_bind_ok hx, runFrom_bind_ok hy]
    have hrest := hnext _ _ hx hy passed level
    generalize runFrom _ x' = ended at hrest ⊢
    generalize runFrom _ y' = ended' at hrest ⊢
    cases hrest with
    | failed source own misplaced problems last =>
      exact .failed (source.trans passed.source) own misplaced problems last
    | done passed' level' => exact .done (passed.trans passed') level'

end Parallel

/-! ### Elements -/

section Elements

variable {setting : Setting} {path : IterationPath} {info : NodeInfo} {as : List Attribute}
  {tags : List Nat} {s : Survey} {w : Walk} {x : Surveying Unit} {y : Walking Unit}

/-- Both passes find the same role, or the same fault. -/
theorem messageRole_static (has : ∀ a ∈ as, a.expressions = []) (info : NodeInfo)
    (role : Option Role) :
    (∃ r, (Surveying.messageRole info role as : Surveying (Option Role)) = pure (some r) ∧
        Walking.messageRole info role (staticValues as) = pure r) ∨
      ∃ fault,
        (Surveying.messageRole info role as : Surveying (Option Role)) = Surveying.fail fault info ∧
        Walking.messageRole info role (staticValues as) = Walking.fail fault info := by
  cases role with
  | some r => exact .inl ⟨r, rfl, rfl⟩
  | none =>
    unfold Surveying.messageRole Walking.messageRole
    rw [textOf?_staticValues has]
    cases hfind : Attribute.find? as "role" with
    | none => exact .inr ⟨_, rfl, rfl⟩
    | some a =>
      -- without expressions the value of an attribute is its text, known to both
      have ha : a.expressions = [] := has a (List.mem_of_find?_eq_some hfind)
      simp only [Option.bind_some, (Attribute.plainValue?_static ha).1]
      cases Role.ofName? a.staticValue.text with
      | none => exact .inr ⟨_, rfl, rfl⟩
      | some r => exact .inl ⟨r, rfl, rfl⟩

theorem textOf?_isNone_static (has : ∀ a ∈ as, a.expressions = []) (name : String) :
    (Walking.textOf? (staticValues as) name).isNone = (Attribute.find? as name).isNone := by
  rw [textOf?_staticValues has]
  cases hfind : Attribute.find? as name with
  | none => rfl
  | some a =>
    have ha : a.expressions = [] := has a (List.mem_of_find?_eq_some hfind)
    rw [Option.bind_some, (Attribute.plainValue?_static ha).1]
    rfl

/-- Making a message outside of all messages reports the tool calls that are pending. -/
theorem Walk.problems_closed_system (hrole : setting.defaultRole = .system) (w : Walk) :
    (w.closed setting).problems = w.problems ++ misplacedCalls .system w.toolCalls := by
  rw [Walk.problems_closed, hrole]
  split
  · next h =>
    obtain ⟨-, hpending⟩ := Bool.and_eq_true_iff.1 h
    rw [List.isEmpty_iff.1 hpending]
    simp [misplacedCalls]
  · rfl

/-- A survey in a message that was just opened. -/
def Survey.opened (r : Role) (s : Survey) : Survey :=
  { s with inMessage := true, messageRole := some r }

/-- A walk in a message that was just opened. -/
def Walk.opened (setting : Setting) (w : Walk) : Walk :=
  { w.closed setting with inMessage := true, inArguments := false }

theorem Walk.statuses_opened (setting : Setting) (w : Walk) :
    (w.opened setting).statuses = w.statuses :=
  Walk.statuses_closed setting w

/-- Where a message was opened outside of all messages, nothing is pending. -/
theorem Level.opened (hrole : setting.defaultRole = .system) (hlevel : Level s w)
    (houtside : s.inMessage = false) (r : Role) : Level (s.opened r) (w.opened setting) := by
  have hnone : s.messageRole = none := by simpa [houtside] using hlevel.role
  have hpending : (w.closed setting).toolCalls = [] := (Walk.settled_closed setting w).toolCalls
  have hproblems := hlevel.problems
  rw [Survey.speaker, hnone] at hproblems
  refine ⟨rfl, ?_, rfl, hlevel.own, ?_⟩
  · show (w.closed setting).inContent = s.inContent
    rw [Walk.closed_eq]
    exact hlevel.inContent
  · show SamePlaces s.problems
      ((w.closed setting).problems ++ misplacedCalls r (w.closed setting).toolCalls)
    rw [hpending, Walk.problems_closed_system hrole]
    simpa [misplacedCalls] using hproblems

theorem Walk.runFrom_opened {result : Except Interrupt Unit} {u : Walk}
    (h : runFrom (w.opened setting) y = (result, u)) :
    runFrom (w.closed setting)
        (Walking.within (fun w => { w with inMessage := true })
          (fun w => { w with inMessage := false }) (Walking.inArguments false y)) =
      (result, { u with inMessage := false, inArguments := (w.closed setting).inArguments }) := by
  rw [Walking.runFrom_within, Walking.runFrom_inArguments]
  change ((runFrom (w.opened setting) y).1, ({ (runFrom (w.opened setting) y).2 with
    inMessage := false, inArguments := (w.closed setting).inArguments } : Walk)) = _
  rw [h]

/-- The inside of a message, and its end. -/
theorem Parallel.messageBody (hlevel : Level s w) (houtside : s.inMessage = false) (r : Role)
    (m : List Content → List ToolCall → Message)
    (hbody : Parallel tags (s.opened r) (runFrom (s.opened r) x) (runFrom (w.opened setting) y)) :
    Parallel (info.start :: tags) s
      (runFrom s (do
        modify (Survey.opened r)
        x
        modify fun s => { s with inMessage := false, messageRole := none }))
      (runFrom w (do
        Walking.closeMessage setting
        Walking.within (fun w => { w with inMessage := true })
          (fun w => { w with inMessage := false }) (Walking.inArguments false y)
        let (content, pending) ← Walking.takeContent
        let toolCalls ← Walking.placeToolCalls r pending
        Walking.emit (m content toolCalls))) := by
  have hnone : s.messageRole = none := by simpa [houtside] using hlevel.role
  rw [runFrom_bind_ok (runFrom_modify s _),
    runFrom_bind_ok (Walking.runFrom_closeMessage w setting)]
  generalize hx : runFrom (s.opened r) x = ended at hbody
  generalize hy : runFrom (w.opened setting) y = ended' at hbody
  cases hbody with
  | failed source own misplaced problems last =>
    rw [runFrom_bind_error hx, runFrom_bind_error (Walk.runFrom_opened hy)]
    exact .failed source own misplaced problems last
  | @done t u passed level =>
    rw [runFrom_bind_ok hx, runFrom_bind_ok (Walk.runFrom_opened hy),
      runFrom_bind_ok (Walking.runFrom_takeContent _)]
    dsimp only
    rw [runFrom_bind_ok (Walking.runFrom_placeToolCalls _ _ _)]
    -- the tool calls of this message are judged when it closes, for the role that it opened with
    have hspeaker : t.speaker = r := by
      rw [Survey.speaker, passed.messageRole]
      rfl
    refine .done ⟨passed.source, houtside.symm, hnone.symm, passed.inContent, fun p hp => ?_⟩
      ⟨rfl, level.inContent, rfl, level.own, ?_⟩
    · exact (passed.problems p hp).imp_right (List.mem_cons_of_mem _)
    · have hproblems := level.problems
      rw [hspeaker] at hproblems
      show SamePlaces t.problems
        ((u.problems ++ misplacedCalls r u.toolCalls) ++ misplacedCalls .system [])
      simpa [misplacedCalls] using hproblems

theorem Parallel.message (hrole : setting.defaultRole = .system) {role : Option Role}
    (has : ∀ a ∈ as, a.expressions = []) (hlevel : Level s w)
    (hbefore : s.Before (info.start :: tags))
    (hbody : ∀ t u, t.Before tags → u.statuses = w.statuses → Level t u →
      Parallel tags t (runFrom t x) (runFrom u y)) :
    Parallel (info.start :: tags) s (runFrom s (Surveying.message info role as x))
      (runFrom w (Walking.message setting info path role as y)) := by
  unfold Surveying.message Walking.message
  rw [runFrom_bind_ok (runFrom_look s _), runFrom_bind_ok (runFrom_look w _), hlevel.inMessage]
  -- a message in a message is refused by both, before anything is evaluated
  cases hin : s.inMessage with
  | true =>
    rw [if_pos rfl, if_pos rfl]
    exact Parallel.fail hlevel hbefore _
  | false =>
    rw [if_neg Bool.false_ne_true, if_neg Bool.false_ne_true,
      runFrom_bind_ok (Surveying.attributes_static has s), Walking.attributeValues_static has,
      pure_bind]
    rcases messageRole_static has info role with ⟨r, hs, hw⟩ | ⟨fault, hs, hw⟩
    · rw [hs, hw, pure_bind, pure_bind]
      -- whether the id of a tool message is missing is the same question to both
      have hid : (decide (some r = some Role.tool) && (Attribute.find? as "id").isNone) =
          (decide (r = .tool) &&
            (if r = .tool then Walking.textOf? (staticValues as) "id" else none).isNone) := by
        by_cases hr : r = .tool
        · rw [if_pos hr, textOf?_isNone_static has]
          simp [hr]
        · simp [hr]
      dsimp only
      rw [hid]
      generalize (decide (r = .tool) && (ite (r = .tool) _ _ : Option String).isNone) = lacksId
      cases lacksId with
      | true =>
        rw [if_pos rfl, if_pos rfl]
        exact Parallel.fail hlevel hbefore _
      | false =>
        rw [if_neg Bool.false_ne_true, if_neg Bool.false_ne_true]
        have hall := hbody (s.opened r) (w.opened setting) hbefore.tail
          (Walk.statuses_opened setting w)
          (hlevel.opened hrole hin r)
        exact Parallel.messageBody hlevel hin r (fun content toolCalls =>
          { role := r, content, name := Walking.textOf? (staticValues as) "name"
            toolId := if r = .tool then Walking.textOf? (staticValues as) "id" else none,
              toolCalls }) hall
    · rw [hs, hw]
      exact Parallel.fail hlevel hbefore _

/-- A survey inside of a piece of content. -/
def Survey.inside (s : Survey) : Survey :=
  { s with inContent := true }

/-- A walk inside of a piece of content, at its start. -/
def Walk.inside (w : Walk) : Walk :=
  { w.closedText with inContent := true, inArguments := false }

theorem Level.inside (h : Level s w) : Level s.inside w.inside :=
  ⟨h.inMessage, rfl, h.role, h.own, h.problems⟩

theorem Walk.runFrom_inside {result : Except Interrupt Unit} {u : Walk}
    (h : runFrom w.inside y = (result, u)) :
    runFrom w.closedText
        (Walking.within (fun w => { w with inContent := true })
          (fun w => { w with inContent := false }) (Walking.inArguments false y)) =
      (result, { u with inContent := false, inArguments := w.inArguments }) := by
  rw [Walking.runFrom_within, Walking.runFrom_inArguments]
  change ((runFrom w.inside y).1, ({ (runFrom w.inside y).2 with
    inContent := false, inArguments := w.inArguments } : Walk)) = _
  rw [h]

/-- A piece of text: what stands in it is surveyed and walked alike. -/
theorem Parallel.textTag {plain : Option String} (has : ∀ a ∈ as, a.expressions = [])
    (hlevel : Level s w) (hbefore : s.Before (info.start :: tags))
    (hbody : ∀ t u, t.Before tags → u.statuses = w.statuses → Level t u →
      Parallel tags t (runFrom t x) (runFrom u y)) :
    Parallel (info.start :: tags) s (runFrom s (Surveying.contentTag info .text as plain x))
      (runFrom w (Walking.contentTag setting info path .text as y)) := by
  unfold Surveying.contentTag Walking.contentTag
  rw [runFrom_bind_ok (runFrom_look s _), runFrom_bind_ok (runFrom_look w _), hlevel.inContent]
  cases hin : s.inContent with
  | true =>
    rw [if_pos rfl, if_pos rfl]
    exact Parallel.fail hlevel hbefore _
  | false =>
    rw [if_neg Bool.false_ne_true, if_neg Bool.false_ne_true,
      runFrom_bind_ok (Surveying.attributes_static has s), Walking.attributeValues_static has,
      pure_bind,
      runFrom_bind_ok (runFrom_modify s _), runFrom_bind_ok (Walking.runFrom_closeText w)]
    -- inside, both know that they are in content
    have hall := hbody s.inside w.inside hbefore.tail rfl hlevel.inside
    change Parallel _ _ (runFrom s.inside _) _
    generalize hx : runFrom s.inside x = ended at hall
    generalize hy : runFrom w.inside y = ended' at hall
    cases hall with
    | failed source own misplaced problems last =>
      rw [runFrom_bind_error hx, runFrom_bind_error (Walk.runFrom_inside hy)]
      exact .failed source own misplaced problems last
    | @done t u passed level =>
      rw [runFrom_bind_ok hx, runFrom_bind_ok (Walk.runFrom_inside hy)]
      refine .done ⟨passed.source, passed.inMessage, passed.messageRole, hin.symm, fun p hp => ?_⟩
        ⟨level.inMessage, rfl, level.role, level.own, level.problems⟩
      exact (passed.problems p hp).imp_right (List.mem_cons_of_mem _)

/-- An image: it needs an address. -/
theorem Parallel.imageTag {plain : String} (has : ∀ a ∈ as, a.expressions = []) (hlevel : Level s w)
    (hbefore : s.Before (info.start :: tags)) (hsurvey : ∀ t, runFrom t x = (.ok (), t))
    (hwalk : ∀ u : Walk, u.statuses = w.statuses → ∃ statuses journal,
      runFrom u y = (.ok (), { u with
      stray := u.stray ++ plain, statuses := statuses, journal := journal })) :
    Parallel (info.start :: tags) s (runFrom s (Surveying.contentTag info .image as (some plain) x))
      (runFrom w (Walking.contentTag setting info path .image as y)) := by
  unfold Surveying.contentTag Walking.contentTag
  rw [runFrom_bind_ok (runFrom_look s _), runFrom_bind_ok (runFrom_look w _), hlevel.inContent]
  cases hin : s.inContent with
  | true =>
    rw [if_pos rfl, if_pos rfl]
    exact Parallel.fail hlevel hbefore _
  | false =>
    -- the walk writes the plain text of the children, which the survey has read off them
    obtain ⟨statuses, journal, hrun⟩ := hwalk w.inside rfl
    have hback : ({ s.inside with inContent := false } : Survey) = s := by
      rw [← hin]
      rfl
    have hstray : w.inside.stray ++ plain = plain := String.empty_append
    rw [if_neg Bool.false_ne_true, if_neg Bool.false_ne_true,
      runFrom_bind_ok (Surveying.attributes_static has s), Walking.attributeValues_static has,
      pure_bind,
      runFrom_bind_ok (runFrom_modify s _), runFrom_bind_ok (Walking.runFrom_closeText w),
      runFrom_bind_ok (Walk.runFrom_inside hrun)]
    change Parallel _ _ (runFrom s.inside _) _
    rw [runFrom_bind_ok (hsurvey s.inside), runFrom_bind_ok (runFrom_modify s.inside _), hback,
      runFrom_bind_ok (runFrom_look _ Walk.stray), runFrom_bind_ok (runFrom_modify _ _)]
    dsimp only
    rw [hstray]
    -- removing the indent leaves nothing just if there was nothing but white space
    have hblank : (String.ofList (Text.removeCommonIndent plain.toList)).isEmpty =
        Text.allBlank plain.toList := by
      rw [Bool.eq_iff_iff, ← Text.removeCommonIndent_eq_nil]
      simp
    have hplain : (decide (ContentKind.image = .image) &&
        (some plain).any fun text => Text.allBlank text.toList) = Text.allBlank plain.toList := by
      simp
    unfold Walking.placeContent
    rw [hplain, hblank]
    cases Text.allBlank plain.toList with
    | true =>
      refine Parallel.fail ?_ hbefore _
      exact ⟨hlevel.inMessage, hin.symm, hlevel.role, hlevel.own, hlevel.problems⟩
    | false =>
      refine .done (Passed.refl _ s) ?_
      exact ⟨hlevel.inMessage, hin.symm, hlevel.role, hlevel.own, hlevel.problems⟩

theorem Walking.runFrom_inArguments_ok {flag : Bool} {u : Walk}
    (h : runFrom { w with inArguments := flag } y = (.ok (), u)) :
    runFrom w (Walking.inArguments flag y) = (.ok (), { u with inArguments := w.inArguments }) := by
  rw [Walking.runFrom_inArguments, h]

/-- Where the problems that are known start in front of an element, a problem of its own may be
reported before or behind the tool calls that are pending. -/
theorem Level.report (h : Level s w) (hbefore : s.Before (info.start :: tags)) (fault : Fault) :
    Level { s with problems := s.problems ++ [⟨fault, info.start, info.stop, none, none⟩] }
      { w with problems := w.problems ++ [⟨fault, info.start, info.stop, none, none⟩] } := by
  refine ⟨h.inMessage, h.inContent, h.role, h.own, h.problems.insert fun q hq => ?_⟩
  have hmem : q ∈ s.problems := (h.problems.mem_iff q).2 (List.mem_append_right _ hq)
  exact Nat.ne_of_lt (hbefore q hmem info.start List.mem_cons_self)

theorem misplacedCalls_append (role : Role) (l m : List PendingCall) :
    misplacedCalls role (l ++ m) = misplacedCalls role l ++ misplacedCalls role m := by
  unfold misplacedCalls
  split
  · rfl
  · exact List.map_append

/-- Where the role of the message around is known, a tool call is reported as its message would
report it. -/
theorem runFrom_checkPlacement (h : s.messageRole.isSome = s.inMessage) (call : ToolCall) :
    runFrom s (Surveying.checkPlacement info) = (.ok (), { s with
      problems := s.problems ++ misplacedCalls s.speaker [⟨call, info.start, info.stop⟩] }) := by
  obtain ⟨_, _, _, _, _, _, _, messageRole, _, _, problems, _⟩ := s
  dsimp only at h
  subst h
  unfold Surveying.checkPlacement Survey.speaker misplacedCalls
  rw [runFrom_bind_ok (runFrom_look _ _), runFrom_bind_ok (runFrom_look _ _)]
  cases messageRole with
  | none => rfl
  | some r =>
    by_cases hr : r = .assistant
    · simp [hr]
    · simp [hr, Surveying.report, misplacedCall]

/-- A tool call that is pending counts as it was reported. -/
theorem Level.push (h : Level s w) (info : NodeInfo) (call : ToolCall) :
    Level { s with
      problems := s.problems ++ misplacedCalls s.speaker [⟨call, info.start, info.stop⟩] }
      { w with toolCalls := w.toolCalls ++ [⟨call, info.start, info.stop⟩] } := by
  refine ⟨h.inMessage, h.inContent, h.role, h.own, ?_⟩
  show SamePlaces (s.problems ++ misplacedCalls s.speaker _)
    (w.problems ++ misplacedCalls s.speaker (_ ++ _))
  rw [misplacedCalls_append, ← List.append_assoc]
  exact h.problems.append _

/-- The text of a tool call is reported if it cannot be read; then both passes go on. -/
theorem Level.arguments (hlevel : Level s w) (hbefore : s.Before (info.start :: tags))
    (plain : String) :
    ∃ t u arguments, Passed (info.start :: tags) s t ∧ Level t u ∧
      runFrom w (Walking.toolArguments info plain) = (.ok arguments, u) ∧
      ∀ x : Surveying Unit, runFrom s (if (some plain).all Surveying.argumentsReadable then
        x else do
        Surveying.report .invalidToolCallArguments info
        x) = runFrom t x := by
  have hall : (some plain).all Surveying.argumentsReadable =
      ((Text.trim plain.toList).isEmpty || (Json.read? (Text.trim plain.toList)).isSome) := rfl
  unfold Walking.toolArguments
  dsimp only
  rw [hall]
  -- without arguments nothing is parsed
  by_cases hempty : (Text.trim plain.toList).isEmpty = true
  · refine ⟨s, w, _, Passed.refl _ s, hlevel, by rw [if_pos hempty]; rfl, fun x => ?_⟩
    rw [hempty, Bool.true_or, if_pos rfl]
  · rw [Bool.eq_false_iff.2 hempty, Bool.false_or]
    cases hread : Json.read? (Text.trim plain.toList) with
    | some v => exact ⟨s, w, v, Passed.refl _ s, hlevel, rfl, fun x => rfl⟩
    | none =>
      let found : Problem := ⟨.invalidToolCallArguments, info.start, info.stop, none, none⟩
      refine ⟨{ s with problems := s.problems ++ [found] }, _, _,
        ⟨rfl, rfl, rfl, rfl, fun p hp => ?_⟩, hlevel.report hbefore _, rfl, fun x => rfl⟩
      rcases List.mem_append.1 hp with hp | hp
      · exact .inl hp
      · exact .inr (List.mem_singleton.1 hp ▸ List.mem_cons_self)

/-- A tool call. -/
theorem Parallel.toolCall {plain : String} (has : ∀ a ∈ as, a.expressions = []) (hlevel : Level s w)
    (hbefore : s.Before (info.start :: tags)) (hsurvey : ∀ t, runFrom t x = (.ok (), t))
    (hwalk : ∀ u : Walk, u.statuses = w.statuses → ∃ statuses journal,
      runFrom u y = (.ok (), { u with
      stray := u.stray ++ plain, statuses := statuses, journal := journal })) :
    Parallel (info.start :: tags) s (runFrom s (Surveying.toolCall info as (some plain) x))
      (runFrom w (Walking.toolCall setting info path as y)) := by
  unfold Surveying.toolCall Walking.toolCall
  rw [runFrom_bind_ok (runFrom_look s _), runFrom_bind_ok (runFrom_look w _), hlevel.inContent]
  cases hin : s.inContent with
  | true =>
    rw [if_pos rfl, if_pos rfl]
    exact Parallel.fail hlevel hbefore _
  | false =>
    rw [if_neg Bool.false_ne_true, if_neg Bool.false_ne_true,
      runFrom_bind_ok (Surveying.attributes_static has s), Walking.attributeValues_static has,
      pure_bind, ← textOf?_isNone_static has, ← textOf?_isNone_static has]
    cases hid : Walking.textOf? (staticValues as) "id" with
    | none => exact Parallel.fail hlevel hbefore _
    | some id =>
      cases hname : Walking.textOf? (staticValues as) "name" with
      | none => exact Parallel.fail hlevel hbefore _
      | some name =>
        obtain ⟨statuses, journal, hrun⟩ := hwalk { w with stray := "", inArguments := true } rfl
        have hplain : ("" : String) ++ plain = plain := String.empty_append
        -- what is captured is the plain text of the children
        have hcaptured : runFrom w (Walking.captured (Walking.inArguments true y)) =
            (.ok plain, { w with statuses := statuses, journal := journal }) := by
          refine (Walking.runFrom_captured_ok (Walking.runFrom_inArguments_ok hrun)).trans ?_
          dsimp only
          rw [hplain]
        have hlater : Level s { w with statuses := statuses, journal := journal } :=
          ⟨hlevel.inMessage, hlevel.inContent, hlevel.role, hlevel.own, hlevel.problems⟩
        obtain ⟨t, u, arguments, hpassed, hreported, harguments, hsurveyed⟩ :=
          hlater.arguments hbefore plain
        -- the walk keeps the call for later, the survey judges it at once
        have hpush := hreported.push info ⟨id, name, arguments⟩
        rw [if_neg (by simp), if_neg (by simp), runFrom_bind_ok (hsurvey s), hsurveyed,
          runFrom_checkPlacement hreported.role ⟨id, name, arguments⟩]
        dsimp only
        rw [runFrom_bind_ok hcaptured, runFrom_bind_ok harguments]
        refine .done ⟨hpassed.source, hpassed.inMessage, hpassed.messageRole, hpassed.inContent,
          fun p hp => ?_⟩
          ⟨hpush.inMessage, hpush.inContent, hpush.role, hpush.own, hpush.problems⟩
        rcases List.mem_append.1 hp with hp | hp
        · exact hpassed.problems p hp
        · exact .inr (start_of_mem_misplacedCalls hp ▸ List.mem_cons_self)

/-- An unknown tag: both passes go on inside. -/
theorem Parallel.unknownTag (has : ∀ a ∈ as, a.expressions = []) (hlevel : Level s w)
    (hbefore : s.Before (info.start :: tags)) (hsorted : ∀ k ∈ tags, info.start < k) (name : String)
    (hbody : ∀ t u, t.Before tags → u.statuses = w.statuses → Level t u →
      Parallel tags t (runFrom t x) (runFrom u y)) :
    Parallel (info.start :: tags) s
      (runFrom s (do
        Surveying.report (.unknownTag name) info
        Surveying.attributes as
        x))
      (runFrom w (do
        Walking.report (.unknownTag name) info.start info.stop
        y)) := by
  let found : Problem := ⟨.unknownTag name, info.start, info.stop, none, none⟩
  have hmem : ∀ p ∈ s.problems ++ [found], p ∈ s.problems ∨ p.start = info.start := by
    intro p hp
    rcases List.mem_append.1 hp with hp | hp
    · exact .inl hp
    · exact .inr (List.mem_singleton.1 hp ▸ rfl)
  -- both collect the same problem, and go on
  have hreport : Parallel [info.start] s (runFrom s (Surveying.report (.unknownTag name) info))
      (runFrom w (Walking.report (.unknownTag name) info.start info.stop)) :=
    .done ⟨rfl, rfl, rfl, rfl, fun p hp => (hmem p hp).imp_right List.mem_singleton.2⟩
      (hlevel.report hbefore _)
  refine hreport.bind fun t u hx hy hpassed hnext => ?_
  rw [runFrom_bind_ok (Surveying.attributes_static has t)]
  obtain ⟨-, rfl⟩ := Prod.mk.inj hx
  obtain ⟨-, rfl⟩ := Prod.mk.inj hy
  refine hbody _ _ (fun p hp k hk => ?_) rfl hnext
  rcases hmem p hp with hp | hp
  · exact hbefore.tail p hp k hk
  · exact hp ▸ hsorted k hk

theorem Parallel.inCopy (h : Parallel tags s (runFrom s x) (runFrom w y)) :
    Parallel tags s (runFrom s (Surveying.inCopy x)) (runFrom w (Walking.inCopy y)) := by
  unfold Surveying.inCopy
  rw [runFrom_bind_ok (runFrom_look s _)]
  generalize hx : runFrom s x = ended at h
  generalize hy : runFrom w y = ended' at h
  cases h with
  | failed source own misplaced problems last =>
    rw [runFrom_bind_error hx, Walking.runFrom_inCopy_error hy]
    exact .failed source own misplaced problems last
  | done passed level =>
    rw [runFrom_bind_ok hx, Walking.runFrom_inCopy_ok hy]
    exact .done ⟨passed.source, passed.inMessage, passed.messageRole, passed.inContent,
      passed.problems⟩
      ⟨level.inMessage, level.inContent, level.role, level.own, level.problems⟩

/-- The first visit of a node ends as what is done at the node. -/
theorem Parallel.visiting {ids : List Nat} {id : Nat} {ended : Except Problem Unit × Survey}
    (hids : Untouched ids path w.statuses) (hid : id ∈ ids)
    (h : Parallel tags s ended (runFrom { w with statuses := w.statuses.decide id .none } y)) :
    Parallel tags s ended (runFrom w (Walking.visiting id path y)) := by
  generalize hy : runFrom { w with statuses := w.statuses.decide id .none } y = ended' at h
  cases h with
  | failed source own misplaced problems last =>
    rw [hids.runFrom_visiting_failed hid hy]
    exact .failed source own misplaced problems last
  | done passed level =>
    rw [hids.runFrom_visiting_ok hid hy]
    exact .done passed ⟨level.inMessage, level.inContent, level.role, level.own, level.problems⟩

end Elements

/-! ### Nodes -/

namespace Node

variable {setting : Setting} {follow : Follow}

/-- A survey and a first visit go over a node alike. -/
def Agrees (setting : Setting) (follow : Follow) (n : Node) : Prop :=
  ∀ s w path, Level s w → s.Before n.tags → Untouched n.ids path w.statuses →
    Parallel n.tags s (runFrom s (n.survey follow)) (runFrom w (n.walk setting path))

/-- Nodes one after the other: their tags start one behind the other. -/
theorem parallel_surveyAll {ns : List Node} (h : ∀ n ∈ ns, n.Agrees setting follow)
    (hsorted : (tagsAll ns).Pairwise (· < ·)) (hnodup : (idsAll ns).Nodup) {s : Survey} {w : Walk}
    {path : IterationPath} (hlevel : Level s w) (hbefore : s.Before (tagsAll ns))
    (hids : Untouched (idsAll ns) path w.statuses) :
    Parallel (tagsAll ns) s (runFrom s (surveyAll follow ns))
      (runFrom w (walkAll setting ns path)) := by
  -- the induction is on the children, which stand one behind the other
  induction ns generalizing s w with
  | nil => exact Parallel.pure hlevel
  | cons n rest ih =>
    rw [tagsAll_cons] at hsorted hbefore ⊢
    rw [idsAll_cons] at hnodup hids
    obtain ⟨-, hrest, horder⟩ := List.pairwise_append.1 hsorted
    have hself := h n List.mem_cons_self s w path hlevel
      (fun p hp k hk => hbefore p hp k (List.mem_append_left _ hk))
      (hids.weaken (List.subset_append_left _ _) List.prefix_rfl)
    refine hself.bind fun t u hx hy hpassed hnext => ?_
    refine ih (fun m hm => h m (List.mem_cons_of_mem _ hm)) hrest
      (List.nodup_append.1 hnodup).2.1 hnext
      (fun p hp k hk => ?_) (untouched_rest hnodup hids hy)
    -- a problem of a child stands in front of all tags behind it
    rcases hpassed.problems p hp with hp | hp
    · exact hbefore p hp k (List.mem_append_right _ hk)
    · exact horder _ hp k hk

/-- A survey and a first visit go alike over a node in which nothing is evaluated. -/
theorem parallel_survey (hrole : setting.defaultRole = .system) (follow : Follow) (n : Node)
    (hstatic : ∀ m ∈ n.nodes, m.IsStatic ∧ m.HoldsTexts) (hsorted : n.tags.Pairwise (· < ·))
    (hnodup : n.ids.Nodup) : n.Agrees setting follow := by
  -- the induction is on the tree
  induction n using Node.induct with
  | step n ih =>
    intro s w path hlevel hbefore hids
    rw [tags_eq] at hsorted hbefore ⊢
    rw [ids_eq] at hnodup hids
    have hchildren : (tagsAll n.childNodes).Pairwise (· < ·) := (List.pairwise_append.1 hsorted).2.1
    have hinner : (idsAll n.childNodes).Nodup := (List.nodup_cons.1 hnodup).2
    have hagree : ∀ m ∈ n.childNodes, m.Agrees setting follow := fun m hm =>
      ih m hm (fun x hx => hstatic x (mem_nodes_of_child hm hx))
        (hchildren.sublist (tags_sublist_tagsAll hm)) (hinner.sublist (ids_sublist_idsAll hm))
    have huntouched : Untouched (idsAll n.childNodes) path (w.statuses.decide n.id .none) :=
      (hids.weaken (List.subset_cons_self _ _) List.prefix_rfl).decide _ _
    -- the children, from any state that is level
    have hall : ∀ t u, t.Before (tagsAll n.childNodes) → u.statuses = w.statuses.decide n.id .none →
        Level t u → Parallel (tagsAll n.childNodes) t (runFrom t (surveyAll follow n.childNodes))
          (runFrom u (walkAll setting n.childNodes path)) := by
      intro t u ht hu hnext
      exact parallel_surveyAll hagree hchildren hinner hnext ht (hu ▸ huntouched)
    have hwritten : ∀ {plain : String}, Surveying.plainText? n.childNodes = some plain →
        ∀ u : Walk, u.statuses = w.statuses.decide n.id .none → ∃ statuses journal,
          runFrom u (walkAll setting n.childNodes path) = (.ok (), { u with
            stray := u.stray ++ plain, statuses := statuses, journal := journal }) := by
      intro plain hplain u hu
      exact runFrom_walkAll_plain hplain setting hinner (hu ▸ huntouched)
    have hentered : Level s { w with statuses := w.statuses.decide n.id .none } :=
      ⟨hlevel.inMessage, hlevel.inContent, hlevel.role, hlevel.own, hlevel.problems⟩
    -- nothing here is evaluated: blocks, mustaches, references and steps are excluded
    cases n with
    | mustache info e => exact (hstatic _ (mem_nodes_self _)).1.elim
    | ifBlock info condition elseIf children otherwise =>
      exact (hstatic _ (mem_nodes_self _)).1.elim
    | forBlock info header children otherwise => exact (hstatic _ (mem_nodes_self _)).1.elim
    | config info value raw =>
      exact Parallel.visiting hids List.mem_cons_self (Parallel.pure hentered)
    | comment info data => exact Parallel.visiting hids List.mem_cons_self (Parallel.pure hentered)
    | text info data =>
      refine Parallel.visiting hids List.mem_cons_self ?_
      rw [runFrom_write]
      exact .done (Passed.refl _ s)
        ⟨hlevel.inMessage, hlevel.inContent, hlevel.role, hlevel.own, hlevel.problems⟩
    | fragment info children =>
      exact Parallel.visiting hids List.mem_cons_self (hall _ _ hbefore rfl hentered).inCopy
    | element info name as children =>
      obtain ⟨⟨has, hreference, hstep⟩, htexts⟩ := hstatic _ (mem_nodes_self _)
      refine Parallel.visiting hids List.mem_cons_self ?_
      unfold survey Surveying.element Walking.element
      cases hkind : TagKind.ofName name with
      | message role => exact Parallel.message hrole has hentered hbefore hall
      | content kind =>
        -- of images and tool calls the children are texts, which both know
        cases kind with
        | text => exact Parallel.textTag has hentered hbefore hall
        | image =>
          obtain ⟨plain, hplain⟩ := Option.isSome_iff_exists.1 (htexts (.inl hkind))
          rw [hplain]
          exact Parallel.imageTag has hentered hbefore (runFrom_surveyAll_plain hplain follow)
            (hwritten hplain)
      | toolCall =>
        obtain ⟨plain, hplain⟩ := Option.isSome_iff_exists.1 (htexts (.inr hkind))
        rw [hplain]
        exact Parallel.toolCall has hentered hbefore (runFrom_surveyAll_plain hplain follow)
          (hwritten hplain)
      | reference => exact absurd hkind hreference
      | step => exact absurd hkind hstep
      | unknown =>
        exact Parallel.unknownTag has hentered hbefore
          (fun k hk => List.rel_of_pairwise_cons hsorted hk) name hall

end Node

/-! ### Prompts -/

/-- The problem of a walk that does not pause. -/
def Walk.verdict? (w : Walk) (result : Except Problem Unit) : Option Problem :=
  match result with
  | .ok () => Problem.earliest? w.problems
  | .error p => Problem.earliest? (w.problems ++ [p])

theorem compile_eq [ConfigReader] {setting : Setting} {text : String} {parameters : Fields Value}
    {t : Template} {result : Except Problem Unit} {w : Walk} (hread : Template.read text = .ok t)
    (hrun : runFrom (Walk.start (Statuses.fresh t.nodeCount) (Scope.ofFields parameters) [])
      (t.visitRoot setting) = (result.mapError .failed, w)) :
    compile setting text parameters = match w.verdict? result with
      | some p => .error (p.withSource t.source)
      | none => .ok ⟨Fields.putAll t.configFields [], w.messages⟩ := by
  unfold compile
  simp only [hread, bind, Except.bind, Template.walk, hrun]
  cases result with
  | ok u =>
    rw [show (Except.ok u : Except Problem Unit).mapError Interrupt.failed = .ok u from rfl]
    simp only [Walk.verdict?]
    cases Problem.earliest? w.problems <;> rfl
  | error p =>
    rw [show (Except.error p : Except Problem Unit).mapError Interrupt.failed =
      .error (.failed p) from rfl]
    simp only [Walk.verdict?]
    cases Problem.earliest? (w.problems ++ [p]) <;> rfl

/-- The two passes over a prompt both succeed or both fail.  They fail for the same problem, unless
the analysis names a tool call that is out of place and the compilation a problem behind it. -/
def SameEnd : Except Problem Metadata → Except Problem Conversation → Prop
  | .ok _, .ok _ => True
  | .error p, .error q => q = p ∨ p.IsMisplacedCall ∧ p.start < q.start
  | _, _ => False

/-- A survey and a walk that ended alike find the same problem, or the survey a tool call out of
place. -/
theorem Parallel.verdict {setting : Setting} (hrole : setting.defaultRole = .system)
    {tags : List Nat}
    {s t : Survey} {u : Walk} {result : Except Problem Unit} {result' : Except Interrupt Unit}
    (h : Parallel tags s (result, t) (result', u)) (houtside : s.messageRole = none) :
    ∃ w result'', runFrom u (match result' with
        | .ok () => Walking.closeMessage setting
        | .error e => throw e) = (result''.mapError .failed, w) ∧
      (t.verdict? result = none ∧ w.verdict? result'' = none ∨
        ∃ p q, t.verdict? result = some (p.withSource s.source) ∧ w.verdict? result'' = some q ∧
          (q = p ∨ p.IsMisplacedCall ∧ p.start < q.start)) := by
  cases h with
  | done passed level =>
    -- both came to the end: what is left are the tool calls of no message, and there are none
    refine ⟨u.closed setting, .ok (), by rw [Walking.runFrom_closeMessage]; rfl, ?_⟩
    have hproblems := level.problems
    rw [Survey.speaker, passed.messageRole.trans houtside] at hproblems
    have hclosed : Problem.earliest? t.problems =
      Problem.earliest? (u.closed setting).problems := by
      rw [Walk.problems_closed_system hrole]
      exact hproblems.earliest?
    unfold Survey.verdict? Walk.verdict?
    dsimp only
    rw [hclosed, passed.source]
    cases Problem.earliest? (u.closed setting).problems with
    | none => exact .inl ⟨rfl, rfl⟩
    | some p => exact .inr ⟨p, p, rfl, rfl, .inl rfl⟩
  | @failed _ _ p lost source own misplaced problems last =>
    -- a fatal problem: the walk forgets the tool calls of the messages that are open, which the
    -- survey has reported, and which stand in front of it
    refine ⟨u, .error p, rfl, .inr ?_⟩
    obtain ⟨first, hfirst⟩ : ∃ first, Problem.earliest? (t.problems ++ [p]) = some first := by
      rcases hnone : Problem.earliest? (t.problems ++ [p]) with _ | first
      · exact nomatch List.append_eq_nil_iff.1 (Problem.earliest?_eq_none.1 hnone)
      · exact ⟨first, rfl⟩
    obtain ⟨other, hother, hsame⟩ := Problem.earliest?_append_lost problems last hfirst
    refine ⟨first, other, ?_, hother, hsame.imp_right fun ⟨hlost, hlt⟩ =>
      ⟨misplaced first hlost, hlt⟩⟩
    unfold Survey.verdict?
    dsimp only
    rw [own, source]
    dsimp only
    rw [hfirst]
    rfl

/-- Analysis and compilation of a prompt in which nothing is evaluated end the same. -/
theorem passes_agree [ConfigReader] {text : String}
    (hstatic : ∀ t, Template.read text = .ok t → ∀ n ∈ t.root.nodes, n.IsStatic ∧ n.HoldsTexts)
    {setting : Setting} (hrole : setting.defaultRole = .system) (analyzer : Analyzer)
    (schema : Option Json) (path : Option String) (parameters : Fields Value) :
    SameEnd (readMetadata analyzer schema path text) (compile setting text parameters) := by
  obtain ⟨follow, hfollow⟩ : ∃ follow,
    analyzer.analyze path text = analyzer.document follow path text :=
    ⟨_, by rw [Analyzer.analyze, Analyzer.analyzeIn]⟩
  unfold readMetadata
  rw [hfollow]
  -- a text that cannot be read is the problem of both
  cases hread : Template.read text with
  | error p =>
    have hcompile : compile setting text parameters = .error p := by
      rw [compile, hread]
      rfl
    rw [hcompile, Analyzer.document, hread]
    exact .inl rfl
  | ok t =>
    rcases hsurvey : runFrom (Survey.start text []) (t.root.survey follow) with ⟨result, s⟩
    rcases hwalk : runFrom (Walk.start (Statuses.fresh t.nodeCount) (Scope.ofFields parameters) [])
      (t.root.walk setting []) with ⟨result', u⟩
    have hparallel := t.root.parallel_survey hrole follow (hstatic t hread)
      (Template.tags_of_read hread)
      (Template.numbered_of_read hread).nodup (Survey.start text [])
      (Walk.start (Statuses.fresh t.nodeCount) (Scope.ofFields parameters) []) []
      ⟨rfl, rfl, rfl, rfl, SamePlaces.refl []⟩ (List.forall_mem_nil _) (Untouched.fresh _ _ _)
    rw [hsurvey, hwalk] at hparallel
    obtain ⟨w, result'', hclosed, hverdict⟩ := hparallel.verdict hrole rfl
    -- the walk closes the last message behind its root
    have hvisit : runFrom (Walk.start (Statuses.fresh t.nodeCount) (Scope.ofFields parameters) [])
        (t.visitRoot setting) = (result''.mapError .failed, w) := by
      unfold Template.visitRoot
      cases result' with
      | ok _ =>
        rw [runFrom_bind_ok hwalk]
        exact hclosed
      | error e =>
        rw [runFrom_bind_error hwalk]
        exact hclosed
    rw [Analyzer.fst_document hread hsurvey, compile_eq hread hvisit]
    rcases hverdict with ⟨hs, hw⟩ | ⟨p, q, hs, hw, hpq⟩
    · rw [hs, hw]
      trivial
    · rw [hs, hw, Template.source_of_read hread]
      -- the same problem, or one that only the survey has reported
      rcases hpq with rfl | hpq
      · exact .inl rfl
      · exact .inr hpq

/-- A setting like the usual one: what stands outside of all messages is from the system. -/
def systemSetting : Setting :=
  { plainSetting with defaultRole := .system }

/-- An unknown tag, and behind it an image without an address. -/
def unknownTagInMessage : String :=
  "<user><note>hi</note><image> </image></user>"

theorem passes_agree_unknownTagInMessage :
    ∃ p, readMetadata (.ofResolver none) none none unknownTagInMessage = .error p ∧
      compile systemSetting unknownTagInMessage [] = .error p ∧ p.fault = .unknownTag "note" := by
  have hstatic : ((Template.read unknownTagInMessage).toOption.all fun t =>
      decide (∀ n ∈ t.root.nodes, n.IsStatic ∧ n.HoldsTexts)) = true := by
    decide +kernel
  have hcheck : ((readMetadata (.ofResolver none) none none unknownTagInMessage).map fun _ =>
    ()).mapError
      Problem.fault = .error (.unknownTag "note") := by
    rw [readMetadata, Analyzer.analyze, Analyzer.analyzeIn]
    decide +kernel
  have hsame := passes_agree (fun t ht => by rw [ht] at hstatic; exact of_decide_eq_true hstatic)
    (rfl : systemSetting.defaultRole = .system) (.ofResolver none) none none []
  rcases hread : readMetadata (.ofResolver none) none none unknownTagInMessage with p | m
  · rw [hread] at hcheck hsame
    have hfault : p.fault = .unknownTag "note" := Except.error.inj hcheck
    rcases hcompile : compile systemSetting unknownTagInMessage [] with q | conversation
    · rw [hcompile] at hsame
      rcases hsame with rfl | ⟨⟨role, hrole⟩, -⟩
      · exact ⟨q, rfl, rfl, hfault⟩
      · cases hfault.symm.trans hrole
    · rw [hcompile] at hsame
      exact hsame.elim
  · rw [hread] at hcheck
    cases hcheck

/-- The codes of the problems that the two passes report; none if a pass succeeds. -/
def reportedCodes [ConfigReader] (text : String) : Option String × Option String :=
  (match readMetadata (.ofResolver none) none none text with
    | .ok _ => none
    | .error p => some p.fault.code,
  match compile systemSetting text [] with
    | .ok _ => none
    | .error p => some p.fault.code)

/-- A compilation forgets a tool call that is out of place if its message is cut short.  And an
analysis does not look at the text of an image or a tool call that has elements inside. -/
theorem passes_disagree :
    reportedCodes "<user><tool-call id='1' name='f' /><user>hi</user></user>" =
        (some "invalid-tool-call-placement", some "message-tag-inside-message") ∧
      reportedCodes "<image><user>hello</user></image>" = (none, some "image-tag-without-url") ∧
      reportedCodes
      "<assistant><tool-call id='1' name='f'>(<tool-call id='2' name='g' /></tool-call></assistant>"
      =
        (none, some "invalid-tool-call-arguments") := by
  refine ⟨?_, ?_, ?_⟩
  all_goals
    rw [reportedCodes, readMetadata, Analyzer.analyze, Analyzer.analyzeIn]
    decide +kernel

end PromptMarkup

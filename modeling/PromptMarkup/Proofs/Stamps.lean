/-
Where a walk leaves stamps of pauses.

* `Wipes` — a walk that comes to its end makes no stamps; it only wipes some out;
* `Stamps` — a walk that stops makes stamps only inside of the iterations around it;
* `governing_stamping` — the law of these two allows what a walk does, so that every visit keeps it.

Design notes: a stamp may outlive the visit that made it, if the walk that comes back takes another
way.  So it is not enough to know which nodes have no stamp: what matters is at which paths the
stamps are.
-/
import PromptMarkup.Proofs.Governing

namespace PromptMarkup

open PromptMarkup.Computation Walking

/-- The visits that were paused are among those that were paused before. -/
def Wipes (w t : Walk) : Prop :=
  ∀ id, (t.statuses.ofNode id).paused = (w.statuses.ofNode id).paused ∨
    (t.statuses.ofNode id).paused = none

/-- The visits that were paused were paused before, or they are inside of the iterations of a path.
-/
def Stamps (path : IterationPath) (w t : Walk) : Prop :=
  ∀ id point, (t.statuses.ofNode id).paused = some point →
    (w.statuses.ofNode id).paused = some point ∨ path <+: point.path

section Changes

variable {path : IterationPath} {u v w t : Walk}

theorem Wipes.of_statuses (h : t.statuses = w.statuses) : Wipes w t :=
  fun id => .inl (by rw [h])

theorem Wipes.trans (h : Wipes u v) (h' : Wipes v w) : Wipes u w := by
  intro id
  rcases h' id with hsame | hnone
  · rcases h id with hsame' | hnone
    · exact .inl (hsame.trans hsame')
    · exact .inr (hsame.trans hnone)
  · exact .inr hnone

theorem Wipes.stamps (h : Wipes w t) : Stamps path w t := by
  intro id point hpoint
  rcases h id with hsame | hnone
  · exact .inl (hsame.symm.trans hpoint)
  · exact nomatch hnone.symm.trans hpoint

theorem Stamps.trans (h : Stamps path u v) (h' : Stamps path v w) : Stamps path u w := by
  intro id point hpoint
  rcases h' id point hpoint with hold | hnew
  · exact h id point hold
  · exact .inr hnew

theorem Stamps.weaken {inner : IterationPath} (h : Stamps inner w t) (hpath : path <+: inner) :
    Stamps path w t :=
  fun id point hpoint => (h id point hpoint).imp_right hpath.trans

/-- A decision makes no stamp. -/
theorem wipes_decide (w : Walk) (id : Nat) (d : Decision) :
    Wipes w { w with statuses := w.statuses.decide id d } :=
  fun other => .inl (Statuses.paused_decide d other)

theorem wipes_enter (w : Walk) (id : Nat) (path : IterationPath) : Wipes w (w.enter id path) := by
  unfold Walk.enter
  split
  · exact Wipes.of_statuses rfl
  · exact wipes_decide w id .none

theorem wipes_complete (w : Walk) (id : Nat) (path : IterationPath) :
    Wipes w { w with statuses := w.statuses.complete id path } := by
  intro other
  by_cases hother : other = id
  · subst hother
    by_cases hlt : other < w.statuses.nodes.size
    · exact .inr (congrArg NodeStatus.paused (Statuses.ofNode_complete path hlt))
    · exact .inl (by rw [Statuses.complete, Statuses.modifyNode_of_le _ _ _ (Nat.le_of_not_lt hlt)])
  · exact .inl (congrArg NodeStatus.paused (Statuses.ofNode_complete_of_ne path hother))

theorem stamps_pause (w : Walk) (id : Nat) (path : IterationPath) (pointers : Pointers) :
    Stamps path w { w with statuses := w.statuses.pause id path pointers } := by
  intro other point hpoint
  by_cases hother : other = id
  · subst hother
    by_cases hlt : other < w.statuses.nodes.size
    · replace hpoint : ((w.statuses.pause other path pointers).ofNode other).paused = some point :=
        hpoint
      rw [Statuses.ofNode_pause path pointers hlt] at hpoint
      obtain rfl := Option.some.inj hpoint
      exact .inr List.prefix_rfl
    · refine .inl ?_
      rw [← hpoint, Statuses.pause, Statuses.modifyNode_of_le _ _ _ (Nat.le_of_not_lt hlt)]
  · refine .inl ?_
    rw [← hpoint]
    exact congrArg NodeStatus.paused (Statuses.ofNode_pause_of_ne path pointers hother).symm

end Changes

/-- The law of a part of a walk inside of the iterations of a path. -/
def stamping (path : IterationPath) : Law Interrupt Walk where
  done := Wipes
  stop w _ t := Stamps path w t
  refl _ := Wipes.of_statuses rfl
  trans := Wipes.trans
  back h h' := h.stamps.trans h'

theorem governing_stamping (ids : List Nat) : Governing ids stamping where
  leads h _ := Wipes.of_statuses h
  copy h := h
  enter w _ _ := wipes_enter w _ _
  complete w _ _ := wipes_complete w _ _
  decide := wipes_decide
  stop _ h := h.stamps
  pause w id pointers _ := stamps_pause w id _ pointers
  record h h' := h.trans h'
  done_weaken _ h := h
  stop_weaken hpath h := h.weaken hpath

namespace Node

variable {setting : Setting} {path : IterationPath} {w t : Walk}

theorem stamps_of_among {ns : List Node} {config : Fields Json}
    (h : PausesAmong setting path config ns w t) : Stamps path w t :=
  ((governing_stamping (idsAll ns)).respects_walkAll ns (List.Subset.refl _) path w).stop
    (walkAll_of_pausesAmong h)

theorem wipes_of_iterations {id : Nat} {header : ForHeader} {items rest : List Value}
    {children : List Node} {i : Nat} {resumed : Option Value}
    (h : runFrom w (iterations setting id path header items
      (fun inner => walkAll setting children inner) i resumed rest) = (.ok (), t)) : Wipes w t := by
  have hgoverning := governing_stamping (idsAll children)
  exact (hgoverning.iterations (fun _ =>
    hgoverning.respects_walkAll children (List.Subset.refl _) _)
    i resumed rest w).done h

end Node

end PromptMarkup

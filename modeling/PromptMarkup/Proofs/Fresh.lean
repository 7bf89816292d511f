/-
Visits that have not been made yet.

* `Untouched` — no visit of some nodes is over or has paused, at a path or inside of its iterations;
* `Marks` — what a walk records about visits lies inside of the iterations of its path;
* `Untouched.of_marks` — a visit of one iteration leaves the later iterations untouched.

A visit of an untouched node is never skipped, and starts with the names of the walk.
-/
import PromptMarkup.Proofs.Footprint

namespace PromptMarkup

open PromptMarkup.Computation Walking

/-- No visit of the given nodes is over or has paused, at a path or inside of its iterations. -/
structure Untouched (ids : List Nat) (path : IterationPath) (s : Statuses) : Prop where
  ahead : ∀ id ∈ ids, ∀ q, (s.ofNode id).completedAt = some q → ¬ path <+: q
  unpaused : Unpaused ids s

/-- Visits that came to their end between `s` and `t` lie inside of the iterations of a path, and
nothing has paused. -/
structure Marks (path : IterationPath) (s t : Statuses) : Prop where
  inside : ∀ id q, (t.ofNode id).completedAt = some q →
    (s.ofNode id).completedAt = some q ∨ path <+: q
  unpaused : ∀ id, (s.ofNode id).paused = none → (t.ofNode id).paused = none

namespace Marks

variable {path path' : IterationPath} {r s t : Statuses}

theorem refl (s : Statuses) : Marks path s s :=
  ⟨fun _ _ h => .inl h, fun _ h => h⟩

theorem trans (h : Marks path r s) (h' : Marks path s t) : Marks path r t := by
  refine ⟨fun id q hq => ?_, fun id hid => h'.unpaused id (h.unpaused id hid)⟩
  rcases h'.inside id q hq with hq | hq
  · exact h.inside id q hq
  · exact .inr hq

theorem weaken (h : Marks path' s t) (hpath : path <+: path') : Marks path s t :=
  ⟨fun id q hq => (h.inside id q hq).imp_right hpath.trans, h.unpaused⟩

theorem complete (path : IterationPath) (s : Statuses) (id : Nat) :
    Marks path s (s.complete id path) := by
  refine ⟨fun other at_ hat => ?_, fun other hother => ?_⟩
  · rcases Statuses.ofNode_modifyNode_eq s id (fun _ => ⟨some path, none, .none⟩) other with h | h
    · exact .inl ((congrArg NodeStatus.completedAt h).symm.trans hat)
    · have hpath : path = at_ :=
        Option.some.inj ((congrArg NodeStatus.completedAt h).symm.trans hat)
      exact .inr (hpath ▸ List.prefix_rfl)
  · rcases Statuses.ofNode_modifyNode_eq s id (fun _ => ⟨some path, none, .none⟩) other with h | h
    · exact (congrArg NodeStatus.paused h).trans hother
    · exact congrArg NodeStatus.paused h

theorem decide (path : IterationPath) (s : Statuses) (id : Nat) (d : Decision) :
    Marks path s (s.decide id d) :=
  ⟨fun other _ hq => .inl ((Statuses.completedAt_of_decides (.inr ⟨d, rfl⟩) other).symm.trans hq),
    fun other hother => (Statuses.paused_decide d other).trans hother⟩

end Marks

namespace Untouched

variable {ids ids' : List Nat} {path path' : IterationPath} {s t : Statuses}

theorem fresh (ids : List Nat) (path : IterationPath) (n : Nat) :
    Untouched ids path (Statuses.fresh n) := by
  refine ⟨fun id _ q hq => ?_, fun id _ => ?_⟩
  · rw [Statuses.ofNode_fresh] at hq
    exact nomatch hq
  · rw [Statuses.ofNode_fresh]
    rfl

theorem weaken (h : Untouched ids path s) (hids : ids' ⊆ ids) (hpath : path <+: path') :
    Untouched ids' path' s :=
  ⟨fun id hid q hq hprefix => h.ahead id (hids hid) q hq (hpath.trans hprefix),
    fun id hid => h.unpaused id (hids hid)⟩

/-- What happens to other nodes does not matter. -/
theorem of_frame (h : Untouched ids path s) (hframe : ∀ id ∈ ids, t.ofNode id = s.ofNode id) :
    Untouched ids path t := by
  refine ⟨fun id hid q hq => ?_, fun id hid => ?_⟩
  · rw [hframe id hid] at hq
    exact h.ahead id hid q hq
  · rw [hframe id hid]
    exact h.unpaused id hid

theorem decide (h : Untouched ids path s) (id : Nat) (d : Decision) :
    Untouched ids path (s.decide id d) := by
  refine ⟨fun other hother q hq => h.ahead other hother q ?_, fun other hother => ?_⟩
  · exact (Statuses.completedAt_of_decides (.inr ⟨d, rfl⟩) other).symm.trans hq
  · exact (Statuses.paused_decide d other).trans (h.unpaused other hother)

theorem not_completed {id : Nat} (h : Untouched ids path s) (hid : id ∈ ids) :
    s.completed id path = false := by
  refine Bool.eq_false_iff.2 fun hcompleted => ?_
  exact h.ahead id hid path (eq_of_beq hcompleted) List.prefix_rfl

theorem enter {w : Walk} {id : Nat} (h : Untouched ids path w.statuses) (hid : id ∈ ids) :
    w.enter id path = { w with statuses := w.statuses.decide id .none } := by
  have hpaused : w.statuses.pausedAt? id path = none := by
    rw [Statuses.pausedAt?, h.unpaused id hid]
  rw [Walk.enter, hpaused]

/-- A visit inside of one iteration of a path leaves the other ones untouched. -/
theorem of_marks {i j : Nat} (h : Untouched ids (path ++ [j]) s) (hmarks : Marks (path ++ [i]) s t)
    (hij : i ≠ j) : Untouched ids (path ++ [j]) t := by
  refine ⟨fun id hid q hq hj => ?_, fun id hid => hmarks.unpaused id (h.unpaused id hid)⟩
  rcases hmarks.inside id q hq with hq | hi
  · exact h.ahead id hid q hq hj
  · obtain ⟨more, rfl⟩ := hi
    obtain ⟨more', hmore⟩ := hj
    rw [List.append_assoc, List.append_assoc] at hmore
    exact hij (List.head_eq_of_cons_eq (List.append_cancel_left hmore)).symm

end Untouched

end PromptMarkup

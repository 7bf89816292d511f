/-
Which visits of a walk are over, and where it paused.

A walk visits a node once for each iteration of the loops around it; the indices of those iterations
are the path of the visit.  The status of a node tells at which path its last visit ended, where it
paused, and what a block had decided before the pause.

* `Statuses.completed`, `Statuses.pausedAt?` — what is known about a visit;
* `Statuses.complete`, `Statuses.pause`, `Statuses.decide` — what a visit records.
-/
import PromptMarkup.Scope

namespace PromptMarkup

/-- The indices of the iterations around a visit, the outermost first. -/
abbrev IterationPath := List Nat

/-- What a block had decided when the walk paused inside of it. -/
inductive Decision
  | none
  /-- The condition of an `if` block was true or false. -/
  | branch (taken : Bool)
  /-- The items of a `for` block, the index of the iteration that paused, and the value of the index
  variable in it. -/
  | iteration (items : List Value) (index : Nat) (indexValue : Option Value)

/-- A visit that paused: its path, and the names that were visible when it started. -/
structure PausePoint where
  path : IterationPath
  pointers : Pointers

/-- What is known about the visits of a node. -/
structure NodeStatus where
  /-- The path of the last visit that ran to its end. -/
  completedAt : Option IterationPath
  paused : Option PausePoint
  decision : Decision

/-- The status of a node that has not been visited. -/
def NodeStatus.fresh : NodeStatus :=
  ⟨none, none, .none⟩

/-- The statuses of the nodes of a template, by their numbers. -/
structure Statuses where
  nodes : Array NodeStatus

namespace Statuses

/-- The statuses before the first walk. -/
def fresh (nodeCount : Nat) : Statuses :=
  ⟨Array.replicate nodeCount NodeStatus.fresh⟩

/-- The status of a node. -/
def ofNode (s : Statuses) (id : Nat) : NodeStatus :=
  (s.nodes[id]?).getD NodeStatus.fresh

/-- Changes the status of a node. -/
def modifyNode (s : Statuses) (id : Nat) (f : NodeStatus → NodeStatus) : Statuses :=
  ⟨s.nodes.setIfInBounds id (f (s.ofNode id))⟩

/-- The visit at a path has run to its end. -/
def completed (s : Statuses) (id : Nat) (path : IterationPath) : Bool :=
  (s.ofNode id).completedAt == some path

/-- The names that were visible when the visit at a path started, if it paused. -/
def pausedAt? (s : Statuses) (id : Nat) (path : IterationPath) : Option Pointers :=
  match (s.ofNode id).paused with
  | some point => if point.path == path then some point.pointers else none
  | none => none

/-- Records that the visit at a path has run to its end. -/
def complete (s : Statuses) (id : Nat) (path : IterationPath) : Statuses :=
  s.modifyNode id fun _ => ⟨some path, none, .none⟩

/-- Records that the visit at a path has paused. -/
def pause (s : Statuses) (id : Nat) (path : IterationPath) (pointers : Pointers) : Statuses :=
  s.modifyNode id fun status => { status with paused := some ⟨path, pointers⟩ }

/-- Records what a block has decided. -/
def decide (s : Statuses) (id : Nat) (decision : Decision) : Statuses :=
  s.modifyNode id fun status => { status with decision := decision }

end Statuses

end PromptMarkup

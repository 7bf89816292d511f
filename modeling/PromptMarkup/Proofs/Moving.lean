/-
An expression has the same value wherever it stands.

* `Problem.relocate` — a problem with its offsets changed;
* `Evaluation.Moves` — two computations that end alike, but for the offsets of problems;
* `Expr.moves_evaluate` — an expression at other offsets is evaluated alike;
* `Expr.runIn_relocate` — it has the same value and leaves the same scope.

Design notes: offsets are used for problems and for nothing else, so that every part of the
evaluation at other offsets moves, and the induction over expressions follows the one recursion that
evaluates them.
-/
import PromptMarkup.Proofs.Evaluating
import PromptMarkup.Proofs.Relocation

namespace PromptMarkup

open PromptMarkup.Computation

/-- The problem with its offsets changed. -/
def Problem.relocate (f : Nat → Nat) (p : Problem) : Problem :=
  { p with start := f p.start, stop := f p.stop }

namespace Evaluation

variable {α β : Type} {f : Nat → Nat}

/-- From every scope two computations end alike and leave the same scope, but for the offsets of
problems. -/
def Moves (f : Nat → Nat) (x y : Evaluation α) : Prop :=
  ∀ s, runFrom s y = ((runFrom s x).1.mapError (Problem.relocate f), (runFrom s x).2)

namespace Moves

theorem pure (a : α) : Moves f (pure a : Evaluation α) (pure a) :=
  fun _ => rfl

theorem look (part : Scope → α) :
    Moves f (Computation.look part : Evaluation α) (Computation.look part) :=
  fun _ => rfl

theorem modify (g : Scope → Scope) : Moves f (modify g : Evaluation PUnit) (modify g) :=
  fun _ => rfl

theorem fail (fault : Fault) (span : Span) :
    Moves f (Evaluation.fail fault span : Evaluation α) (Evaluation.fail fault (span.relocate f)) :=
  fun _ => rfl

theorem bind {x y : Evaluation α} {g h : α → Evaluation β} (hx : Moves f x y)
    (hg : ∀ a, Moves f (g a) (h a)) :
    Moves f (x >>= g) (y >>= h) := by
  intro s
  rw [runFrom_bind, runFrom_bind, hx s]
  rcases runFrom s x with ⟨p | a, t⟩
  · rfl
  · exact hg a t

end Moves

/-! ### Reading and writing -/

theorem moves_ofResult (span : Span) (x : Except Fault α) :
    Moves f (ofResult span x) (ofResult (span.relocate f) x) := by
  cases x with
  | ok a => exact .pure a
  | error fault => exact .fail fault span

theorem moves_readVariable (name : String) (span : Span) :
    Moves f (readVariable name span) (readVariable name (span.relocate f)) := by
  refine .bind (.look _) fun v => ?_
  cases v with
  | none => exact .fail _ span
  | some v => exact .pure v

theorem moves_readProperty (v : Value) (key : String) (span : Span) :
    Moves f (readProperty v key span) (readProperty v key (span.relocate f)) :=
  .bind (.look _) fun _ => .bind (.modify _) fun _ => moves_ofResult span _

theorem moves_readPath (span : Span) (keys : List String) (v : Value) :
    Moves f (readPath span keys v) (readPath (span.relocate f) keys v) := by
  induction keys generalizing v with
  | nil => exact .pure v
  | cons key keys ih => exact .bind (moves_readProperty v key span) ih

theorem moves_writePath (name : String) (keys : List String) (v : Value) (span : Span) :
    Moves f (writePath name keys v span) (writePath name keys v (span.relocate f)) :=
  .bind (.look _) fun _ => .bind (moves_ofResult span _) fun _ => .modify _

end Evaluation

open Evaluation

variable {f : Nat → Nat} {host : Host}

theorem Expr.calleeName_relocate (f : Nat → Nat) (e : Expr) :
    (e.relocate f).calleeName = e.calleeName := by
  induction e using Expr.induct with
  | step e ih =>
    cases e with
    | member span owner property optional =>
      cases property with
      | named name =>
        rw [relocate, relocateProperty, calleeName, calleeName, ih owner (by simp [parts])]
      | computed key => rfl
    | _ => rfl

theorem moves_callFunction (callee : Expr) (span : Span) (function : Value) (args : List Value) :
    Moves f (callFunction host callee span function args)
      (callFunction host (callee.relocate f) (span.relocate f) function args) := by
  unfold callFunction
  rw [Expr.calleeName_relocate, Expr.span_relocate]
  split
  · split
    · exact .pure _
    · exact .fail _ span
  · exact .fail _ callee.span

namespace Expr

/-! ### Expressions -/

theorem moves_items {es : List Element}
    (ih : ∀ x ∈ es.map Element.expr, Moves f (links host x) (links host (x.relocate f))) :
    Moves f (items host es) (items host (es.map (Element.relocate f))) := by
  induction es with
  | nil => exact .pure []
  | cons e rest ihr =>
    have he : Moves f (links host e.expr) (links host (e.expr.relocate f)) :=
      ih _ List.mem_cons_self
    have hrest : Moves f (items host rest) (items host (rest.map (Element.relocate f))) :=
      ihr fun x hx => ih x (List.mem_cons_of_mem _ hx)
    cases e with
    | item x => exact he.bind fun _ => hrest.bind fun _ => .pure _
    | spread x =>
      refine he.bind fun v => .bind ?_ fun _ => hrest.bind fun _ => .pure _
      rw [span_relocate]
      exact moves_ofResult x.span _

theorem moves_memberKey {k : Key}
    (ih : ∀ x ∈ k.exprs, Moves f (links host x) (links host (x.relocate f))) :
    Moves f (memberKey host k) (memberKey host (relocateKey f k)) := by
  cases k with
  | fixed name => exact .pure name
  | computed e =>
    refine (ih e (by simp [Key.exprs])).bind fun v => ?_
    rw [span_relocate]
    exact moves_ofResult e.span _

theorem moves_propertyKey {p : Property}
    (ih : ∀ x ∈ p.exprs, Moves f (links host x) (links host (x.relocate f))) :
    Moves f (propertyKey host p) (propertyKey host (relocateProperty f p)) := by
  cases p with
  | named name => exact .pure name
  | computed e => exact (ih e (by simp [Property.exprs])).bind fun _ => .pure _

theorem moves_fields {ms : List Member}
    (ih : ∀ x ∈ ms.flatMap Member.exprs, Moves f (links host x) (links host (x.relocate f)))
    (before : Fields Value) :
    Moves f (fields host before ms) (fields host before (ms.map (Member.relocate f))) := by
  -- the induction is on the members; the place where a spread fails is moved with it
  induction ms generalizing before with
  | nil => exact .pure before
  | cons m rest ihr =>
    have hrest : ∀ before, Moves f (fields host before rest)
      (fields host before (rest.map (Member.relocate f))) :=
      ihr fun x hx => ih x (List.mem_append_right _ hx)
    cases m with
    | property key value =>
      have hk : Moves f (memberKey host key) (memberKey host (relocateKey f key)) :=
        moves_memberKey fun x hx => ih x (by simp [Member.exprs, hx])
      have hv : Moves f (links host value) (links host (value.relocate f)) :=
        ih value (by simp [Member.exprs])
      exact hk.bind fun _ => hv.bind fun _ => hrest _
    | spread e =>
      have he : Moves f (links host e) (links host (e.relocate f)) := ih e (by simp [Member.exprs])
      refine he.bind fun v => .bind ?_ fun _ => hrest _
      rw [span_relocate]
      exact moves_ofResult e.span _

theorem moves_inOrder {es : List Expr}
    (ih : ∀ x ∈ es, Moves f (links host x) (links host (x.relocate f)))
    (last : Value) : Moves f (inOrder host last es)
    (inOrder host last (es.map (Expr.relocate f))) := by
  induction es generalizing last with
  | nil => exact .pure last
  | cons e rest ihr =>
    exact (ih e List.mem_cons_self).bind fun _ =>
      ihr (fun x hx => ih x (List.mem_cons_of_mem _ hx)) _

theorem moves_assignment {s : Span} {op : AssignOp} {target value : Expr}
    (ht : Moves f (targetPath host target) (targetPath host (target.relocate f)))
    (hv : Moves f (links host value) (links host (value.relocate f))) :
    Moves f (links host (assignment s op target value))
    (links host ((assignment s op target value).relocate f)) := by
  have hwrite : ∀ name keys v, Moves f (writePath name keys v target.span)
      (writePath name keys v (target.relocate f).span) := fun name keys v =>
    target.span_relocate f ▸ moves_writePath name keys v target.span
  have hread : ∀ keys v, Moves f (readPath target.span keys v)
      (readPath (target.relocate f).span keys v) := fun keys v =>
    target.span_relocate f ▸ moves_readPath target.span keys v
  cases op with
  | assign =>
    -- an assignment to a name declares it, any other target is found first
    have other : Moves f (do
        let place ← targetPath host target
        let v := orUndefined (← links host value)
        writePath place.1 place.2 v target.span
        return some v : Evaluation (Option Value)) (do
        let place ← targetPath host (target.relocate f)
        let v := orUndefined (← links host (value.relocate f))
        writePath place.1 place.2 v (target.relocate f).span
        return some v) :=
      ht.bind fun _ => hv.bind fun _ => (hwrite _ _ _).bind fun _ => .pure _
    cases target with
    | identifier t name => exact hv.bind fun _ => .bind (.modify _) fun _ => .pure _
    | _ => exact other
  | binary op hop =>
    exact ht.bind fun _ => .bind (.look _) fun _ => (hread _ _).bind fun _ => hv.bind fun _ =>
      .bind (moves_ofResult s _) fun _ => (hwrite _ _ _).bind fun _ => .pure _
  | logical op =>
    -- whether the right side is evaluated depends on the old value alone
    refine ht.bind fun _ => .bind (.look _) fun _ => (hread _ _).bind fun old => ?_
    dsimp only
    split
    · exact .pure _
    · exact hv.bind fun _ => (hwrite _ _ _).bind fun _ => .pure _

theorem moves_update {s : Span} {op : UpdateOp} {leading : Bool} {argument : Expr}
    (ht : Moves f (targetPath host argument) (targetPath host (argument.relocate f)))
    (hv : Moves f (links host argument) (links host (argument.relocate f))) :
    Moves f (links host (update s op leading argument))
    (links host ((update s op leading argument).relocate f)) := by
  refine hv.bind fun v => ?_
  split
  · refine ht.bind fun _ => .bind ?_ fun _ => .pure _
    rw [span_relocate]
    exact moves_writePath _ _ _ argument.span
  · exact .fail _ s

/-- An expression, and a target, is evaluated alike at other offsets. -/
theorem moves_links (f : Nat → Nat) (host : Host) (e : Expr) :
    Moves f (links host e) (links host (e.relocate f)) ∧
      Moves f (targetPath host e) (targetPath host (e.relocate f)) := by
  -- the induction is on the expression, for its value and for the place it names
  induction e using Expr.induct with
  | step e ih =>
    have ihl : ∀ x ∈ e.parts, Moves f (links host x) (links host (x.relocate f)) := fun x hx =>
      (ih x hx).1
    have iht : ∀ x ∈ e.parts, Moves f (targetPath host x) (targetPath host (x.relocate f)) :=
      fun x hx => (ih x hx).2
    refine ⟨?_, ?_⟩
    · cases e with
      | literal s l => exact .pure _
      | identifier s name => exact (moves_readVariable name s).bind fun _ => .pure _
      | array s elements =>
        rw [relocate, relocateElements_eq]
        exact (moves_items ihl).bind fun _ => .pure _
      | object s members =>
        rw [relocate, relocateMembers_eq]
        exact (moves_fields ihl _).bind fun _ => .pure _
      | sequence s es =>
        rw [relocate, relocateAll_eq]
        exact (moves_inOrder ihl _).bind fun _ => .pure _
      | binary s op left right =>
        unfold relocate links
        split
        · exact .fail _ s
        · exact (ihl left (by simp [parts])).bind fun _ =>
            (ihl right (by simp [parts])).bind fun _ =>
            .bind (moves_ofResult s _) fun _ => .pure _
      | logical s op left right =>
        refine (ihl left (by simp [parts])).bind fun _ => ?_
        dsimp only
        split
        · exact .pure _
        · exact (ihl right (by simp [parts])).bind fun _ => .pure _
      | unary s op argument =>
        unfold relocate links
        split
        · exact .fail _ s
        · exact (ihl argument (by simp [parts])).bind fun _ =>
            .bind (moves_ofResult s _) fun _ => .pure _
      | update s op leading argument =>
        exact moves_update (iht argument (by simp [parts])) (ihl argument (by simp [parts]))
      | assignment s op target value =>
        exact moves_assignment (iht target (by simp [parts])) (ihl value (by simp [parts]))
      | conditional s test consequent alternate =>
        refine (ihl test (by simp [parts])).bind fun _ => ?_
        split
        · exact (ihl consequent (by simp [parts])).bind fun _ => .pure _
        · exact (ihl alternate (by simp [parts])).bind fun _ => .pure _
      | member s owner property optional =>
        refine (ihl owner (by simp [parts])).bind fun o => ?_
        have hp : Moves f (propertyKey host property)
          (propertyKey host (relocateProperty f property)) :=
          moves_propertyKey fun x hx => ihl x (List.mem_cons_of_mem _ hx)
        -- a chain that was cut short stays so, and this link may cut it
        cases o with
        | none => exact .pure none
        | some v =>
          dsimp only
          split
          · exact .pure none
          · exact hp.bind fun _ => (moves_readProperty v _ s).bind fun _ => .pure _
      | call s callee arguments optional =>
        rw [relocate, relocateElements_eq]
        refine (ihl callee (by simp [parts])).bind fun o => ?_
        have ha : Moves f (items host arguments)
          (items host (arguments.map (Element.relocate f))) :=
          moves_items fun x hx => ihl x (List.mem_cons_of_mem _ hx)
        cases o with
        | none => exact .pure none
        | some v =>
          dsimp only
          split
          · exact .pure none
          · exact ha.bind fun _ => (moves_callFunction callee s v _).bind fun _ => .pure _
      | chain s inner => exact (ihl inner (by simp [parts])).bind fun _ => .pure _
    · cases e with
      | identifier s name =>
        refine .bind (.look _) fun seen => ?_
        split
        · exact .pure _
        · exact .fail _ s
      | member s owner property optional =>
        -- a link with `?.` is no target
        cases optional with
        | true => exact .fail _ s
        | false =>
          have hp : Moves f (propertyKey host property)
            (propertyKey host (relocateProperty f property)) :=
            moves_propertyKey fun x hx => ihl x (List.mem_cons_of_mem _ hx)
          exact (iht owner (by simp [parts])).bind fun _ => hp.bind fun _ => .pure _
      | _ => exact .fail _ _

theorem moves_evaluate (f : Nat → Nat) (host : Host) (e : Expr) :
    Moves f (e.evaluate host) ((e.relocate f).evaluate host) := by
  intro s
  rw [evaluate, evaluate, runFrom_map, runFrom_map, (moves_links f host e).1 s]
  rcases runFrom s (links host e) with ⟨p | v, t⟩ <;> rfl

/-- Wherever an expression stands, it has the same value and leaves the same scope behind. -/
theorem runIn_relocate (f : Nat → Nat) {host : Host} {e : Expr} {s t : Scope} {v : Value}
    (h : runIn s (e.evaluate host) = (.ok v, t)) : runIn s ((e.relocate f).evaluate host) =
      (.ok v, t) := by
  have hmoves := moves_evaluate f host e s
  rw [runIn] at h
  rw [runIn, hmoves, h]
  rfl

end Expr

end PromptMarkup

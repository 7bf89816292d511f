/-
What an evaluation leaves in its scope.

* `Evaluation.Admits` — a law that looking up, failing, and writing one of the given names keep;
* `Evaluation.Admits.links` — such a law is kept by every evaluation of an expression with these
  names;
* `Scope.written` — a scope after several writes;
* `writing` — the law that a scope has only been written to;
* `Expr.exists_written` — an evaluation, whether it fails or not, has the effect of writes to names
  of its expression.

Design notes: a law on evaluations is shown of their steps and holds of every expression by
`Admits.links`, so that the recursion over the syntax tree is gone through once.  The number of
lookups made so far is not a binding, so `Scope.Agrees` leaves it out.
-/
import PromptMarkup.Proofs.Evaluating

namespace PromptMarkup

open PromptMarkup.Computation

/-! ### Steps -/

/-- A law that the steps of an evaluation keep which writes only the given names. -/
structure Evaluation.Admits (L : Law Problem Scope) (names : List String) : Prop where
  fails : ∀ s p, L.stop s p s
  counts : ∀ s : Scope, L.done s { s with stash.lookups := s.stash.lookups + 1 }
  writes : ∀ (s : Scope), ∀ name ∈ names, ∀ v, L.done s (s.set name v)

namespace Evaluation

namespace Admits

variable {L : Law Problem Scope} {names : List String}

theorem fail (h : Admits L names) {α : Type} (fault : Fault) (span : Span) :
    Respects L (Evaluation.fail fault span : Evaluation α) :=
  Respects.throw fun s => h.fails s _

theorem ofResult (h : Admits L names) {α : Type} (span : Span) (x : Except Fault α) :
    Respects L (Evaluation.ofResult span x) := by
  cases x with
  | error f => exact h.fail f span
  | ok a => exact Respects.pure a

theorem readVariable (h : Admits L names) (name : String) (span : Span) :
    Respects L (Evaluation.readVariable name span) := by
  refine Respects.bind (Respects.look _) fun v => ?_
  cases v with
  | none => exact h.fail _ span
  | some v => exact Respects.pure v

theorem readProperty (h : Admits L names) (v : Value) (key : String) (span : Span) :
    Respects L (Evaluation.readProperty v key span) :=
  Respects.bind (Respects.look _) fun _ =>
    Respects.bind (Respects.modify h.counts) fun _ => h.ofResult span _

theorem readPath (h : Admits L names) (span : Span) (keys : List String) (v : Value) :
    Respects L (Evaluation.readPath span keys v) := by
  induction keys generalizing v with
  | nil => exact Respects.pure v
  | cons key keys ih => exact Respects.bind (h.readProperty v key span) fun w => ih w

theorem writePath (h : Admits L names) {name : String} (hmem : name ∈ names) (keys : List String)
    (v : Value) (span : Span) : Respects L (Evaluation.writePath name keys v span) :=
  Respects.bind (Respects.look _) fun _ =>
    Respects.bind (h.ofResult span _) fun _ => Respects.modify fun s => h.writes s name hmem _

theorem callFunction (h : Admits L names) (host : Host) (callee : Expr) (span : Span) (f : Value)
    (args : List Value) : Respects L (PromptMarkup.callFunction host callee span f args) := by
  unfold PromptMarkup.callFunction
  repeat' split
  all_goals first | exact Respects.pure _ | exact h.fail _ _

end Admits

end Evaluation

/-! ### Expressions -/

namespace Expr

open Evaluation

/-- An assignment writes to a name of its target. -/
theorem mem_names_of_targetPath {host : Host} {e : Expr} {s t : Scope} {name : String}
    {keys : List String} (h : runFrom s (targetPath host e) = (.ok (name, keys), t)) :
    name ∈ e.names := by
  induction e using Expr.induct generalizing s t name keys with
  | step e ih =>
    cases e with
    | identifier span name' =>
      -- only a name, and a plain member of a target, have a path
      simp only [targetPath, runFrom_bind, runFrom_look] at h
      split at h
      · obtain ⟨⟨rfl, -⟩, -⟩ : (name' = name ∧ [] = keys) ∧ s = t := by simpa using h
        exact name_mem_names
      · simp [Evaluation.fail] at h
    | member span owner property optional =>
      cases optional with
      | true => simp [targetPath, Evaluation.fail] at h
      | false =>
        obtain ⟨⟨name', keys'⟩, s1, h1, h⟩ := runFrom_bind_eq_ok h
        obtain ⟨key, s2, -, h⟩ := runFrom_bind_eq_ok h
        obtain ⟨⟨rfl, -⟩, -⟩ : (name' = name ∧ keys' ++ [key] = keys) ∧ s2 = t := by simpa using h
        have howner : owner ∈ (member span owner property false).parts := by simp [parts]
        exact names_subset_of_part howner (ih owner howner h1)
    | _ => simp [targetPath, Evaluation.fail] at h

end Expr

namespace Evaluation.Admits

open PromptMarkup.Expr

variable {L : Law Problem Scope} {names : List String} {host : Host}

theorem items (h : Admits L names) {es : List Element}
    (ih : ∀ x ∈ es.map Element.expr, Respects L (Expr.links host x)) :
    Respects L (Expr.items host es) := by
  induction es with
  | nil => exact Respects.pure []
  | cons e rest ihr =>
    have h1 : Respects L (Expr.links host e.expr) := ih _ List.mem_cons_self
    have h2 : Respects L (Expr.items host rest) := ihr fun x hx => ih x (List.mem_cons_of_mem _ hx)
    cases e with
    | item x => exact Respects.bind h1 fun _ => Respects.bind h2 fun _ => Respects.pure _
    | spread x =>
      exact Respects.bind h1 fun v => Respects.bind (h.ofResult _ _) fun _ =>
        Respects.bind h2 fun _ => Respects.pure _

theorem memberKey (h : Admits L names) {k : Key}
    (ih : ∀ x ∈ k.exprs, Respects L (Expr.links host x)) : Respects L (Expr.memberKey host k) := by
  cases k with
  | fixed name => exact Respects.pure name
  | computed e => exact Respects.bind (ih e (by simp [Key.exprs])) fun _ => h.ofResult _ _

theorem propertyKey {p : Property} (ih : ∀ x ∈ p.exprs, Respects L (Expr.links host x)) :
    Respects L (Expr.propertyKey host p) := by
  cases p with
  | named name => exact Respects.pure name
  | computed e => exact Respects.bind (ih e (by simp [Property.exprs])) fun _ => Respects.pure _

theorem fields (h : Admits L names) {ms : List Member}
    (ih : ∀ x ∈ ms.flatMap Member.exprs, Respects L (Expr.links host x)) (before : Fields Value) :
    Respects L (Expr.fields host before ms) := by
  induction ms generalizing before with
  | nil => exact Respects.pure before
  | cons m rest ihr =>
    have hrest : ∀ before, Respects L (Expr.fields host before rest) :=
      ihr fun x hx => ih x (List.mem_append_right _ hx)
    have hm : ∀ x ∈ m.exprs, Respects L (Expr.links host x) :=
      fun x hx => ih x (List.mem_append_left _ hx)
    cases m with
    | property key value =>
      have hk : Respects L (Expr.memberKey host key) :=
        h.memberKey fun x hx => hm x (by simp [Member.exprs, hx])
      exact Respects.bind hk fun _ => Respects.bind (hm value (by simp [Member.exprs])) fun _ =>
        hrest _
    | spread e =>
      exact Respects.bind (hm e (by simp [Member.exprs])) fun _ =>
        Respects.bind (h.ofResult _ _) fun _ => hrest _

theorem inOrder {es : List Expr} (ih : ∀ x ∈ es, Respects L (Expr.links host x)) (last : Value) :
    Respects L (Expr.inOrder host last es) := by
  induction es generalizing last with
  | nil => exact Respects.pure last
  | cons e rest ihr =>
    exact Respects.bind (ih e List.mem_cons_self) fun _ =>
      ihr (fun x hx => ih x (List.mem_cons_of_mem _ hx)) _

theorem update (h : Admits L names) {s : Span} {op : UpdateOp} {leading : Bool} {argument : Expr}
    (hnames : argument.names ⊆ names) (ht : Respects L (targetPath host argument))
    (hv : Respects L (Expr.links host argument)) :
    Respects L (Expr.links host (.update s op leading argument)) := by
  refine Respects.bind hv fun v => ?_
  split
  · refine fun s1 => RespectsAt.bind (ht s1) fun ⟨name, keys⟩ s2 h2 _ => ?_
    have hmem : name ∈ names := hnames (mem_names_of_targetPath h2)
    exact RespectsAt.bind (h.writePath hmem _ _ _ s2) fun _ s3 _ _ => Respects.pure _ s3
  · exact h.fail _ _

theorem assignment (h : Admits L names) {s : Span} {op : AssignOp} {target value : Expr}
    (hnames : target.names ⊆ names) (ht : Respects L (targetPath host target))
    (hv : Respects L (Expr.links host value)) :
    Respects L (Expr.links host (.assignment s op target value)) := by
  -- every form but a plain assignment to a name finds its place first, and writes there at the end
  have place {α : Type} {f : String × List String → Evaluation α}
      (hf : ∀ name ∈ names, ∀ keys, Respects L (f (name, keys))) :
      Respects L (targetPath host target >>= f) :=
    fun s0 => RespectsAt.bind (ht s0) fun ⟨name, keys⟩ s1 h1 _ =>
      hf name (hnames (mem_names_of_targetPath h1)) keys s1
  cases op with
  | assign =>
    cases target with
    | identifier t name =>
      exact Respects.bind hv fun _ =>
        Respects.bind (Respects.modify fun s => h.writes s name (hnames name_mem_names) _) fun _ =>
          Respects.pure _
    | _ =>
      exact place fun name hmem keys => Respects.bind hv fun _ =>
        Respects.bind (h.writePath hmem _ _ _) fun _ => Respects.pure _
  | binary op hop =>
    exact place fun name hmem keys => Respects.bind (Respects.look _) fun _ =>
      Respects.bind (h.readPath _ _ _) fun _ => Respects.bind hv fun _ =>
        Respects.bind (h.ofResult _ _) fun _ =>
          Respects.bind (h.writePath hmem _ _ _) fun _ => Respects.pure _
  | logical op =>
    refine place fun name hmem keys => Respects.bind (Respects.look _) fun _ =>
      Respects.bind (h.readPath _ _ _) fun old => ?_
    dsimp only
    split
    · exact Respects.pure _
    · exact Respects.bind hv fun _ =>
        Respects.bind (h.writePath hmem _ _ _) fun _ => Respects.pure _

/-- Such a law is kept by an evaluation, and by finding what an assignment writes to. -/
theorem links (h : Admits L names) (host : Host) (e : Expr) (hnames : e.names ⊆ names) :
    Respects L (Expr.links host e) ∧ Respects L (targetPath host e) := by
  -- a value and a target call each other, so both go into one induction
  induction e using Expr.induct with
  | step e ih =>
    have part : ∀ x ∈ e.parts, x.names ⊆ names :=
      fun x hx _ hn => hnames (names_subset_of_part hx hn)
    have ihl : ∀ x ∈ e.parts, Respects L (Expr.links host x) := fun x hx => (ih x hx (part x hx)).1
    have iht : ∀ x ∈ e.parts, Respects L (targetPath host x) := fun x hx => (ih x hx (part x hx)).2
    constructor
    · cases e with
      | literal s l => exact Respects.pure _
      | identifier s name => exact Respects.bind (h.readVariable name _) fun _ => Respects.pure _
      | array s elements => exact Respects.bind (h.items ihl) fun _ => Respects.pure _
      | object s members => exact Respects.bind (h.fields ihl _) fun _ => Respects.pure _
      | sequence s es => exact Respects.bind (inOrder ihl _) fun _ => Respects.pure _
      | binary s op left right =>
        unfold Expr.links
        split
        · exact h.fail _ _
        · exact Respects.bind (ihl left (by simp [parts])) fun _ =>
            Respects.bind (ihl right (by simp [parts])) fun _ =>
              Respects.bind (h.ofResult _ _) fun _ => Respects.pure _
      | logical s op left right =>
        refine Respects.bind (ihl left (by simp [parts])) fun _ => ?_
        dsimp only
        split
        · exact Respects.pure _
        · exact Respects.bind (ihl right (by simp [parts])) fun _ => Respects.pure _
      | unary s op argument =>
        unfold Expr.links
        split
        · exact h.fail _ _
        · exact Respects.bind (ihl argument (by simp [parts])) fun _ =>
            Respects.bind (h.ofResult _ _) fun _ => Respects.pure _
      | update s op leading argument =>
        exact h.update (part argument (by simp [parts])) (iht argument (by simp [parts]))
          (ihl argument (by simp [parts]))
      | assignment s op target value =>
        exact h.assignment (part target (by simp [parts])) (iht target (by simp [parts]))
          (ihl value (by simp [parts]))
      | conditional s test consequent alternate =>
        refine Respects.bind (ihl test (by simp [parts])) fun _ => ?_
        split
        · exact Respects.bind (ihl consequent (by simp [parts])) fun _ => Respects.pure _
        · exact Respects.bind (ihl alternate (by simp [parts])) fun _ => Respects.pure _
      | member s owner property optional =>
        have hp : Respects L (Expr.propertyKey host property) :=
          propertyKey fun x hx => ihl x (List.mem_cons_of_mem _ hx)
        refine Respects.bind (ihl owner (by simp [parts])) fun o => ?_
        cases o with
        | none => exact Respects.pure none
        | some v =>
          dsimp only
          split
          · exact Respects.pure none
          · exact Respects.bind hp fun _ => Respects.bind (h.readProperty _ _ _) fun _ =>
              Respects.pure _
      | call s callee arguments optional =>
        have ha : Respects L (Expr.items host arguments) :=
          h.items fun x hx => ihl x (List.mem_cons_of_mem _ hx)
        refine Respects.bind (ihl callee (by simp [parts])) fun o => ?_
        cases o with
        | none => exact Respects.pure none
        | some f =>
          dsimp only
          split
          · exact Respects.pure none
          · exact Respects.bind ha fun _ =>
              Respects.bind (h.callFunction _ _ _ _ _) fun _ => Respects.pure _
      | chain s inner => exact Respects.bind (ihl inner (by simp [parts])) fun _ => Respects.pure _
    -- only names and plain members are targets
    · cases e with
      | identifier s name =>
        refine Respects.bind (Respects.look _) fun seen => ?_
        split
        · exact Respects.pure _
        · exact h.fail _ _
      | member s owner property optional =>
        cases optional with
        | true => exact h.fail _ _
        | false =>
          exact Respects.bind (iht owner (by simp [parts])) fun _ =>
            Respects.bind (propertyKey fun x hx => ihl x (List.mem_cons_of_mem _ hx)) fun _ =>
              Respects.pure _
      | _ => exact h.fail _ _

/-- Such a law is kept by the evaluation of an expression. -/
theorem evaluate (host : Host) {e : Expr} (h : Admits L e.names) :
    Respects L (e.evaluate host) := by
  have heq : e.evaluate host = e.links host >>= fun v => pure (orUndefined v) := by
    simp [Expr.evaluate]
  rw [heq]
  exact Respects.bind (h.links host e (List.Subset.refl _)).1 fun _ => Respects.pure _

end Evaluation.Admits

/-! ### Writes -/

/-- Scopes with the same bindings. -/
structure Scope.Agrees (s t : Scope) : Prop where
  slots : s.stash.slots = t.stash.slots
  pointers : s.pointers = t.pointers

namespace Scope

theorem Agrees.refl (s : Scope) : s.Agrees s :=
  ⟨rfl, rfl⟩

theorem Agrees.trans {s t u : Scope} (h : s.Agrees t) (h' : t.Agrees u) : s.Agrees u :=
  ⟨h.slots.trans h'.slots, h.pointers.trans h'.pointers⟩

theorem Agrees.set {s t : Scope} (h : s.Agrees t) (name : String) (v : Value) :
    (s.set name v).Agrees (t.set name v) := by
  unfold Scope.set
  rw [h.pointers]
  split
  · exact ⟨by simp only [h.slots], rfl⟩
  · exact ⟨by simp only [h.slots], by simp only [h.slots]⟩

/-- A scope after the given writes. -/
def written (s : Scope) (writes : Fields Value) : Scope :=
  writes.foldl (fun s w => s.set w.1 w.2) s

@[simp] theorem written_cons (s : Scope) (w : String × Value) (writes : Fields Value) :
    s.written (w :: writes) = (s.set w.1 w.2).written writes := rfl

theorem written_append (s : Scope) (writes more : Fields Value) :
    s.written (writes ++ more) = (s.written writes).written more :=
  List.foldl_append

theorem Agrees.written {s t : Scope} (h : s.Agrees t) (writes : Fields Value) :
    (s.written writes).Agrees (t.written writes) := by
  induction writes generalizing s t with
  | nil => exact h
  | cons w rest ih => exact ih (h.set w.1 w.2)

/-- A scope that came from another one by writes to the given names. -/
def Wrote (names : List String) (s t : Scope) : Prop :=
  ∃ writes : Fields Value, (∀ w ∈ writes, w.1 ∈ names) ∧ (s.written writes).Agrees t

theorem Wrote.of_agrees {names : List String} {s t : Scope} (h : s.Agrees t) : Wrote names s t :=
  ⟨[], ⟨fun _ hw => absurd hw List.not_mem_nil, h⟩⟩

theorem Wrote.trans {names : List String} {s t u : Scope} (h : Wrote names s t)
    (h' : Wrote names t u) : Wrote names s u := by
  obtain ⟨writes, hnames, hagrees⟩ := h
  obtain ⟨more, hnames', hagrees'⟩ := h'
  refine ⟨writes ++ more, fun w hw => ?_, ?_⟩
  · exact (List.mem_append.1 hw).elim (hnames w) (hnames' w)
  · rw [written_append]
    exact (hagrees.written more).trans hagrees'

end Scope

/-- The law that a scope is only changed by writes to the given names. -/
def writing (names : List String) : Law Problem Scope where
  done := Scope.Wrote names
  stop s _ t := Scope.Wrote names s t
  refl s := .of_agrees (.refl s)
  trans h h' := h.trans h'
  back h h' := h.trans h'

theorem admits_writing (names : List String) : Evaluation.Admits (writing names) names where
  fails s _ := .of_agrees (.refl s)
  counts s := .of_agrees ⟨rfl, rfl⟩
  writes s name hmem v := by
    refine ⟨[(name, v)], fun w hw => ?_, .refl _⟩
    obtain rfl := List.mem_singleton.1 hw
    exact hmem

/-- An evaluation that fails or not leaves its scope as writes to names of the expression do. -/
theorem Expr.exists_written (host : Host) (e : Expr) (s : Scope) :
    Scope.Wrote e.names s (Evaluation.runIn s (e.evaluate host)).2 := by
  have h : RespectsAt (writing e.names) s (e.evaluate host) :=
    (admits_writing e.names).evaluate host s
  unfold Evaluation.runIn
  rcases hrun : runFrom s (e.evaluate host) with ⟨p | v, t⟩
  · exact h.stop hrun
  · exact h.done hrun

end PromptMarkup
